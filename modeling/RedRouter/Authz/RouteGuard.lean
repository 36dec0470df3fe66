import RedRouter.Lib.Regex

/-!
# The route guard

The model of `server/authz/routeGuard.ts`: the routes that are served to the
local machine alone, and the prefixes of them that a key with the manage scope
may reach from elsewhere.  The prefixes come from the database and can be any
strings.

A route that can start a process is never bypassed
(`not_spawnCapable_of_bypassable`): a bypass prefix of its path would be
comparable with the prefix that makes it capable.  And every such route is
local in the first place (`isLocalOnlyPath_of_spawnCapable`).
-/

namespace RedRouter.Authz

open List JsString Regex Pattern

def localOnlyApiPrefixes : List JsString := [ "/api/mcp/", "/api/cli-tools/runtime/",
    "/api/cli-tools/omp-settings",
    "/api/cli-tools/letta-settings",
    "/api/cli-tools/grok-build-settings",
    "/api/cli-tools/forge-settings",
    "/api/cli-tools/jcode-settings",
    "/api/cli-tools/qwen-settings",
    "/api/cli-tools/all-statuses",
    "/api/cli-tools/claude-settings",
    "/api/cli-tools/cline-settings",
    "/api/cli-tools/codewhale-settings",
    "/api/cli-tools/codex-settings",
    "/api/cli-tools/crush-settings",
    "/api/cli-tools/deepseek-tui-settings",
    "/api/cli-tools/detect",
    "/api/cli-tools/droid-settings",
    "/api/cli-tools/kilo-settings",
    "/api/cli-tools/openclaw-settings",
    "/api/cli-tools/pi-settings",
    "/api/cli-tools/smelt-settings",
    "/api/cli-tools/status",
    "/api/services/",
    "/api/version-manager/",
    "/api/tunnels/cloudflared",
    "/api/tunnels/tailscale/disable",
    "/api/tunnels/tailscale/enable",
    "/api/tunnels/tailscale/install",
    "/api/tunnels/tailscale/login",
    "/api/tunnels/tailscale/start-daemon",
    "/api/tunnels/cloudflared-named",
    "/api/tunnels/tailscale-serve",
    "/api/settings/network",
    "/api/settings/wireguard-egress",
    "/api/tunnels/wireguard",
    "/dashboard/providers/services/",
    "/api/copilot/",
    "/api/tools/agent-bridge/",
    "/api/settings/mitm",
    "/api/cli-tools/antigravity-mitm",
    "/api/tools/traffic-inspector/",
    "/api/issue-agent/",
    "/api/plugins/",
    "/api/plugins",
    "/api/middleware/",
    "/api/system/version",
    "/api/db-backups/exportAll",
    "/api/db/health",
    "/api/local/",
    "/api/headroom/start",
    "/api/headroom/stop",
    "/api/jobs",
    "/api/jobs/",
    "/api/oauth/cursor/auto-import",
    "/api/oauth/kiro/auto-import",
    "/api/skills/collect/",
    "/api/skills/install",
    "/api/skills/executions",
    "/api/discovery/",
    "/api/vnc-session",
    "/api/acp/agents",
    "/api/resilience/connections",
    "/api/providers/cursor/agent-availability",
    "/api/modality-bridge/video/"].map js

def spawnCapablePrefixes : List JsString := [ "/api/cli-tools/runtime/",
    "/api/cli-tools/qwen-settings",
    "/api/cli-tools/all-statuses",
    "/api/cli-tools/claude-settings",
    "/api/cli-tools/cline-settings",
    "/api/cli-tools/codewhale-settings",
    "/api/cli-tools/codex-settings",
    "/api/cli-tools/crush-settings",
    "/api/cli-tools/deepseek-tui-settings",
    "/api/cli-tools/detect",
    "/api/cli-tools/droid-settings",
    "/api/cli-tools/kilo-settings",
    "/api/cli-tools/openclaw-settings",
    "/api/cli-tools/pi-settings",
    "/api/cli-tools/smelt-settings",
    "/api/cli-tools/status",
    "/api/services/",
    "/api/version-manager/",
    "/api/tunnels/cloudflared",
    "/api/tunnels/tailscale/disable",
    "/api/tunnels/tailscale/enable",
    "/api/tunnels/tailscale/install",
    "/api/tunnels/tailscale/login",
    "/api/tunnels/tailscale/start-daemon",
    "/api/tunnels/cloudflared-named",
    "/api/tunnels/tailscale-serve",
    "/api/tunnels/wireguard",
    "/api/settings/network",
    "/api/settings/wireguard-egress",
    "/api/tools/agent-bridge/",
    "/api/settings/mitm",
    "/api/cli-tools/antigravity-mitm",
    "/api/tools/traffic-inspector/",
    "/api/plugins/",
    "/api/local/",
    "/api/skills/collect/",
    "/api/skills/install",
    "/api/skills/executions",
    "/api/headroom/start",
    "/api/headroom/stop",
    "/api/vnc-session",
    "/api/modality-bridge/video/"].map js

/-! ## The patterns -/

/-- `[^/]+`. -/
def segment : Pattern := many1 (except (js "/"))

/-- `^` the patterns `\/?$`. -/
def route (parts : List Pattern) : Pattern :=
  cat ([atStart] ++ parts ++ [opt (lit (js "/")), atEnd])

def mcpPattern : Pattern := route [lit (js "/api/v1/mcp")]

def loginPattern : Pattern := route [lit (js "/api/providers/"), segment, lit (js "/login")]

/-- `/^\/api\/providers\/volcengine-plan\/connect(\/.*)?$/`. -/
def connectPattern : Pattern :=
  cat [atStart, lit (js "/api/providers/volcengine-plan/connect"),
    opt (group 1 (seq (lit (js "/")) (many dot))), atEnd]

def refreshCursorPattern : Pattern :=
  route [lit (js "/api/providers/"), segment, lit (js "/refresh-cursor")]

def agentAvailabilityPattern : Pattern :=
  route [lit (js "/api/providers/cursor/agent-availability")]

def codexDoctorPattern : Pattern :=
  route [lit (js "/api/providers/"), segment, lit (js "/chatgpt-web-codex-doctor")]

def localOnlyApiPatterns : List Pattern :=
  [mcpPattern, loginPattern, connectPattern, refreshCursorPattern, codexDoctorPattern]

def spawnCapablePatterns : List Pattern :=
  [mcpPattern, loginPattern, connectPattern, refreshCursorPattern, agentAvailabilityPattern,
    codexDoctorPattern]

/-! ## The guard -/

def localOnlyApiGetExemptions : List JsString := [ "/api/system/version", "/api/settings/network",
    "/api/version-manager/status",
    "/api/version-manager/check-update",
    "/api/tunnels/cloudflared",
    "/api/mcp/audit",
    "/api/mcp/audit/stats"].map js

/-- `toUpperCase`, as far as the result has ASCII letters. -/
def toUpperUnit (u : UInt16) : UInt16 :=
  if unit 'a' ≤ u && u ≤ unit 'z' then u - 32
  else if u = 0x131 then unit 'I'
  else if u = 0x17F then unit 'S'
  else u

/-- `SAFE_METHODS.has(method.toUpperCase())`. -/
def isSafeMethod (method : JsString) : Bool :=
  (["GET", "HEAD", "OPTIONS"].map js).contains (method.map toUpperUnit)

def isLocalOnlyPath (path : JsString) (method : Option JsString) : Bool :=
  if method.any isSafeMethod && localOnlyApiGetExemptions.contains path then false
  else
    localOnlyApiPrefixes.any (fun p => path == p || startsWith path p) ||
      localOnlyApiPatterns.any fun re => test re path

structure AuthzBypassSnapshot where
  enabled : Bool
  prefixes : List JsString

/-- A prefix that is the same as, a child of or a parent of a spawn-capable one. -/
def touchesSpawnCapable (p : JsString) : Bool :=
  spawnCapablePrefixes.any fun spawn => p == spawn || startsWith p spawn || startsWith spawn p

def isLocalOnlyBypassableByManageScope (snapshot : AuthzBypassSnapshot) (path : JsString) : Bool :=
  if spawnCapablePatterns.any fun re => test re path then false
  else if !snapshot.enabled then false
  else
    snapshot.prefixes.any fun p =>
      if touchesSpawnCapable p then false else path == p || startsWith path p

/-! ## Spawn-capable routes -/

/-- The path begins with a spawn-capable prefix or matches a spawn-capable pattern. -/
def SpawnCapable (path : JsString) : Prop :=
  (∃ spawn ∈ spawnCapablePrefixes, startsWith path spawn = true) ∨
    ∃ re ∈ spawnCapablePatterns, test re path = true

theorem startsWith_iff {s t : JsString} : startsWith s t = true ↔ t <+: s :=
  isPrefixOf_iff_prefix

theorem touchesSpawnCapable_of_common {path p spawn : JsString} (hspawn : spawn ∈ spawnCapablePrefixes)
    (hp : p <+: path) (h : spawn <+: path) : touchesSpawnCapable p = true := by
  refine any_eq_true.mpr ⟨spawn, hspawn, ?_⟩
  obtain hsub | hsub := prefix_or_prefix_of_prefix h hp
  all_goals simp [startsWith_iff.mpr hsub]

theorem not_spawnCapable_of_bypassable {snapshot : AuthzBypassSnapshot} {path : JsString}
    (h : isLocalOnlyBypassableByManageScope snapshot path = true) : ¬ SpawnCapable path := by
  unfold isLocalOnlyBypassableByManageScope at h
  split at h
  · cases h
  · rename_i hpatterns
    split at h
    · cases h
    · obtain ⟨p, -, hp⟩ := any_eq_true.mp h
      split at hp
      · cases hp
      · rename_i huntouched
        have hlead : p <+: path := by
          simp only [Bool.or_eq_true, beq_iff_eq] at hp
          obtain rfl | hp := hp
          · exact prefix_rfl
          · exact startsWith_iff.mp hp
        rintro (⟨spawn, hspawn, hstarts⟩ | ⟨re, hre, htest⟩)
        · exact huntouched (touchesSpawnCapable_of_common hspawn hlead (startsWith_iff.mp hstarts))
        · exact hpatterns (any_eq_true.mpr ⟨re, hre, htest⟩)

theorem spawnCapablePrefixes_local {spawn : JsString} (h : spawn ∈ spawnCapablePrefixes) :
    ∃ p ∈ localOnlyApiPrefixes, p <+: spawn := by
  have hall : spawnCapablePrefixes.all (fun spawn =>
      localOnlyApiPrefixes.any fun p => startsWith spawn p) = true := by
    decide +kernel
  obtain ⟨p, hp, hstarts⟩ := any_eq_true.mp (all_eq_true.mp hall spawn h)
  exact ⟨p, hp, startsWith_iff.mp hstarts⟩

theorem prefix_of_test_route {text path : JsString} {parts : List Pattern}
    (h : test (route (lit text :: parts)) path = true) : text <+: path := by
  obtain ⟨m, hm⟩ := Option.isSome_iff_exists.mp h
  obtain ⟨before, rest, rfl, hmatch⟩ := searchFrom_matchAt hm
  have hroute : route (lit text :: parts) =
      seq atStart (cat (lit text :: (parts ++ [opt (lit (js "/")), atEnd]))) := by
    simp [route, cat]
  rw [hroute] at hmatch
  unfold matchAt at hmatch
  simp only [run] at hmatch
  split at hmatch
  · rename_i hstart
    have hbefore : before = [] := by
      simpa [lastUnit] using hstart
    subst hbefore
    obtain ⟨first, later, hcat⟩ : ∃ first later,
        parts ++ [opt (lit (js "/")), atEnd] = first :: later := by
      cases parts <;> simp
    rw [hcat] at hmatch
    exact run_lit text hmatch
  · cases hmatch

theorem isLocalOnlyPath_of_prefix {p path : JsString} (hp : p ∈ localOnlyApiPrefixes)
    (h : p <+: path) : isLocalOnlyPath path none = true := by
  have hany : localOnlyApiPrefixes.any (fun p => path == p || startsWith path p) = true :=
    any_eq_true.mpr ⟨p, hp, by simp [startsWith_iff.mpr h]⟩
  simp [isLocalOnlyPath, hany]

theorem mem_spawnCapablePatterns {re : Pattern} (h : re ∈ spawnCapablePatterns) :
    re ∈ localOnlyApiPatterns ∨ re = agentAvailabilityPattern := by
  unfold spawnCapablePatterns at h
  unfold localOnlyApiPatterns
  simp only [mem_cons] at h ⊢
  obtain h | h | h | h | h | h := h
  · exact .inl (.inl h)
  · exact .inl (.inr (.inl h))
  · exact .inl (.inr (.inr (.inl h)))
  · exact .inl (.inr (.inr (.inr (.inl h))))
  · exact .inr h
  · exact .inl (.inr (.inr (.inr (.inr h))))

theorem isLocalOnlyPath_of_spawnCapable {path : JsString} (h : SpawnCapable path) :
    isLocalOnlyPath path none = true := by
  obtain ⟨spawn, hspawn, hstarts⟩ | ⟨re, hre, htest⟩ := h
  · obtain ⟨p, hp, hlead⟩ := spawnCapablePrefixes_local hspawn
    exact isLocalOnlyPath_of_prefix hp (hlead.trans (startsWith_iff.mp hstarts))
  · obtain hlocal | rfl := mem_spawnCapablePatterns hre
    · have hany : localOnlyApiPatterns.any (fun re => test re path) = true :=
        any_eq_true.mpr ⟨re, hlocal, htest⟩
      simp [isLocalOnlyPath, hany]
    · have hlead := prefix_of_test_route htest
      refine isLocalOnlyPath_of_prefix ?_ hlead
      decide +kernel

/-- The manage scope never bypasses the guard of a spawn-capable route, and
every such route is local. -/
theorem bypass_excludes_spawnCapable (snapshot : AuthzBypassSnapshot) (path : JsString) :
    (isLocalOnlyBypassableByManageScope snapshot path = true →
        (∀ spawn ∈ spawnCapablePrefixes, startsWith path spawn = false) ∧
          ∀ re ∈ spawnCapablePatterns, test re path = false) ∧
      ((∃ spawn ∈ spawnCapablePrefixes, startsWith path spawn = true) ∨
          (∃ re ∈ spawnCapablePatterns, test re path = true) →
        isLocalOnlyPath path none = true) := by
  refine ⟨?_, isLocalOnlyPath_of_spawnCapable⟩
  intro hbypass
  have hnot := not_spawnCapable_of_bypassable hbypass
  refine ⟨?_, ?_⟩
  · intro spawn hspawn
    by_contra hstarts
    exact hnot (.inl ⟨spawn, hspawn, by simpa using hstarts⟩)
  · intro re hre
    by_contra htest
    exact hnot (.inr ⟨re, hre, by simpa using htest⟩)

/-- The default bypass reaches the tools of the server, and a login of a
provider is local. -/
theorem bypass_excludes_spawnCapable_mcp :
    (∀ spawn ∈ spawnCapablePrefixes, startsWith (js "/api/mcp/tools") spawn = false) ∧
      isLocalOnlyPath (js "/api/providers/claude/login") none = true :=
  ⟨((bypass_excludes_spawnCapable ⟨true, [js "/api/mcp/"]⟩ (js "/api/mcp/tools")).1
      (by decide +kernel)).1,
    (bypass_excludes_spawnCapable ⟨true, []⟩ (js "/api/providers/claude/login")).2
      (.inr ⟨loginPattern, by simp [spawnCapablePatterns], by decide +kernel⟩)⟩

end RedRouter.Authz
