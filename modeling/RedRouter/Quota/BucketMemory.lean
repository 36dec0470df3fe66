import RedRouter.Lib.JsNumber
import RedRouter.Lib.Separators
import RedRouter.Quota.BoundedEviction

/-!
# Account buckets

The store of saturated quota windows, a bounded map from which only buckets that
have reset may be evicted.  How `Date.parse` reads a text is a function on which
nothing is assumed, with `none` for `NaN`.

`saturatedNow` is what is known of a bucket without any cap: the last usage
that was recorded of it saturates, and its reset time has not come.  The store
says the same in every run of a clock that does not go back
(`isBucketSaturated_eq`).

The key of a bucket is the account id and the window id with `::` between
them.  Ids without this separator still have one key for two buckets when a
single `:` stands at the border (`BorderColon`), and then one of the buckets
gives the answer of the other (`not_isBucketSaturated_eq`).
-/

namespace RedRouter.Quota

/-! ## The store of saturated windows -/

structure BucketEntry where
  saturated : Bool
  resetsAtMs : Int
deriving DecidableEq

def saturationThresholdPct : JsNumber := 100

def accountBucketsSoftCap : Nat := 4096

namespace AccountBuckets

def rolledOver (resetsAtMs nowMs : Int) : Bool := 0 < resetsAtMs && resetsAtMs ≤ nowMs

def config : BoundedMapConfig JsString BucketEntry where
  limit := accountBucketsSoftCap
  policy := .lru
  shouldEvict entry _ nowMs := rolledOver entry.resetsAtMs nowMs

abbrev Buckets := BoundedMap JsString BucketEntry

def storeKey (connectionId windowKey : JsString) : JsString :=
  connectionId ++ js "::" ++ windowKey

variable (parse : JsString → Option Int)

def parseResetAtMs : Option JsString → Int
  | none => 0
  | some resetAt =>
      if resetAt = [] then 0
      else
        match parse resetAt with
        | none => 0
        | some ms => if 0 < ms then ms else 0

def isBucketSaturated (connectionId windowKey : JsString) (nowMs : Int) (buckets : Buckets) :
    Bool × Buckets :=
  if connectionId = [] ∨ windowKey = [] then (false, buckets)
  else
    let key := storeKey connectionId windowKey
    match buckets.get config key nowMs with
    | (none, buckets) => (false, buckets)
    | (some entry, buckets) =>
        if rolledOver entry.resetsAtMs nowMs then (false, buckets.delete key)
        else (entry.saturated, buckets)

def saturates (usedPct : JsNumber) : Bool :=
  usedPct.isFinite && saturationThresholdPct ≤ usedPct

def recordUsage (connectionId windowKey : JsString) (usedPct : JsNumber)
    (resetAt : Option JsString) (nowMs : Int) (buckets : Buckets) : Buckets :=
  if connectionId = [] ∨ windowKey = [] then buckets
  else
    let key := storeKey connectionId windowKey
    let resetsAtMs := parseResetAtMs parse resetAt
    if rolledOver resetsAtMs nowMs then buckets.delete key
    else if saturates usedPct then buckets.set config key ⟨true, resetsAtMs⟩ nowMs
    else buckets.delete key

/-- A call on the store. -/
inductive Call where
  | recordUsage (connectionId windowKey : JsString) (usedPct : JsNumber)
      (resetAt : Option JsString) (nowMs : Int)
  | isBucketSaturated (connectionId windowKey : JsString) (nowMs : Int)

def Call.nowMs : Call → Int
  | .recordUsage _ _ _ _ nowMs => nowMs
  | .isBucketSaturated _ _ nowMs => nowMs

def Call.pair : Call → JsString × JsString
  | .recordUsage connectionId windowKey _ _ _ => (connectionId, windowKey)
  | .isBucketSaturated connectionId windowKey _ => (connectionId, windowKey)

def step (buckets : Buckets) : Call → Buckets
  | .recordUsage connectionId windowKey usedPct resetAt nowMs =>
      recordUsage parse connectionId windowKey usedPct resetAt nowMs buckets
  | .isBucketSaturated connectionId windowKey nowMs =>
      (isBucketSaturated connectionId windowKey nowMs buckets).2

def run (calls : List Call) : Buckets := calls.foldl (step parse) {}

end AccountBuckets

end RedRouter.Quota

namespace RedRouter.Quota.AccountBuckets

open List JsMap

variable (parse : JsString → Option Int)

def lastUsage (connectionId windowKey : JsString) (calls : List Call) :
    Option (JsNumber × Option JsString) :=
  calls.foldl (fun last call =>
      match call with
      | .recordUsage c w usedPct resetAt _ =>
          if (c, w) = (connectionId, windowKey) then some (usedPct, resetAt) else last
      | .isBucketSaturated .. => last)
    none

/-- The last recorded usage of a bucket saturates, and its reset time has not
come.  Nothing is recorded under an empty id. -/
def saturatedNow (connectionId windowKey : JsString) (calls : List Call) (nowMs : Int) : Bool :=
  connectionId ≠ [] && windowKey ≠ [] &&
    match lastUsage connectionId windowKey calls with
    | none => false
    | some (usedPct, resetAt) =>
        saturates usedPct && !rolledOver (parseResetAtMs parse resetAt) nowMs

/-! ## Keys -/

/-- A single colon at the border of two ids. -/
def BorderColon (p q : JsString × JsString) : Prop :=
  p.1 = q.1 ++ js ":" ∧ q.2 = js ":" ++ p.2

theorem storeKey_inj {p q : JsString × JsString} (hp : ¬ js "::" <:+: p.1)
    (hq : ¬ js "::" <:+: q.1) (hpq : ¬ BorderColon p q) (hqp : ¬ BorderColon q p)
    (h : storeKey p.1 p.2 = storeKey q.1 q.2) : p = q := by
  have hcolon : js "::" = [unit ':', unit ':'] := by decide
  have hsingle : js ":" = [unit ':'] := by decide
  unfold BorderColon at hpq hqp
  unfold storeKey at h
  rw [append_assoc, append_assoc] at h
  rcases Separators.doubled_cases hp hq h with ⟨hfirst, hsecond⟩ | hcase | hcase
  · exact Prod.ext hfirst hsecond
  · exact absurd hcase hpq
  · exact absurd hcase hqp

/-! ## Runs -/

theorem run_concat (calls : List Call) (call : Call) :
    run parse (calls ++ [call]) = step parse (run parse calls) call := by
  unfold run
  rw [foldl_append]
  rfl

theorem lastUsage_concat (connectionId windowKey : JsString) (calls : List Call) (call : Call) :
    lastUsage connectionId windowKey (calls ++ [call]) =
      match call with
      | .recordUsage c w usedPct resetAt _ =>
          if (c, w) = (connectionId, windowKey) then some (usedPct, resetAt)
          else lastUsage connectionId windowKey calls
      | .isBucketSaturated .. => lastUsage connectionId windowKey calls := by
  unfold lastUsage
  rw [foldl_append]
  rfl

/-- The bucket that the last recorded usage stands for. -/
def lastBucket (p : JsString × JsString) (calls : List Call) : Option BucketEntry :=
  match lastUsage p.1 p.2 calls with
  | none => none
  | some (usedPct, resetAt) =>
      if saturates usedPct then some ⟨true, parseResetAtMs parse resetAt⟩ else none

theorem lastBucket_concat (p : JsString × JsString) (calls : List Call) (call : Call) :
    lastBucket parse p (calls ++ [call]) =
      match call with
      | .recordUsage c w usedPct resetAt _ =>
          if (c, w) = p then
            if saturates usedPct then some ⟨true, parseResetAtMs parse resetAt⟩ else none
          else lastBucket parse p calls
      | .isBucketSaturated .. => lastBucket parse p calls := by
  unfold lastBucket
  rw [lastUsage_concat]
  cases call with
  | recordUsage c w usedPct resetAt nowMs =>
    by_cases hp : (c, w) = p
    · simp [hp]
    · simp [hp]
  | isBucketSaturated c w nowMs => rfl

theorem saturated_of_lastBucket {p : JsString × JsString} {calls : List Call}
    {bucket : BucketEntry} (h : lastBucket parse p calls = some bucket) :
    bucket.saturated = true := by
  unfold lastBucket at h
  split at h
  · cases h
  · split at h
    · rw [← Option.some.inj h]
    · cases h

theorem saturatedNow_eq (connectionId windowKey : JsString) (calls : List Call) (nowMs : Int) :
    saturatedNow parse connectionId windowKey calls nowMs = (connectionId ≠ [] && windowKey ≠ [] &&
        match lastBucket parse (connectionId, windowKey) calls with
        | none => false
        | some bucket => !rolledOver bucket.resetsAtMs nowMs) := by
  unfold saturatedNow lastBucket
  cases lastUsage connectionId windowKey calls with
  | none => rfl
  | some usage =>
    cases hsat : saturates usage.1 with
    | true => simp [hsat]
    | false => simp [hsat]

theorem rolledOver_later {resetsAtMs nowMs laterMs : Int} (h : rolledOver resetsAtMs nowMs = true)
    (hle : nowMs ≤ laterMs) : rolledOver resetsAtMs laterMs = true := by
  simp only [rolledOver, Bool.and_eq_true, decide_eq_true_eq] at h ⊢
  omega

/-- What the store has under the keys of some buckets at a time, when `last`
is what was recorded of them. -/
structure Tracks (pairs : List (JsString × JsString))
    (last : JsString × JsString → Option BucketEntry) (nowMs : Int) (buckets : Buckets) :
    Prop where
  nodup : (JsMap.keys buckets.inner).Nodup
  stored : ∀ p ∈ pairs, p.1 ≠ [] → p.2 ≠ [] → ∀ entry,
    buckets.inner.get (storeKey p.1 p.2) = some entry → last p = some entry.value
  kept : ∀ p ∈ pairs, p.1 ≠ [] → p.2 ≠ [] → ∀ bucket, last p = some bucket →
    (∃ entry, buckets.inner.get (storeKey p.1 p.2) = some entry) ∨
      rolledOver bucket.resetsAtMs nowMs = true

section Steps

variable {parse} {pairs : List (JsString × JsString)} {nowMs laterMs : Int} {buckets : Buckets}
  {last last' : JsString × JsString → Option BucketEntry} {p q : JsString × JsString}

section

variable (h : Tracks pairs last nowMs buckets)
include h

theorem Tracks.later (hle : nowMs ≤ laterMs) : Tracks pairs last laterMs buckets where
  nodup := h.nodup
  stored := h.stored
  kept p hp hc hw bucket hlast :=
    (h.kept p hp hc hw bucket hlast).imp_right fun hrolled => rolledOver_later hrolled hle

theorem Tracks.congr (hlast : ∀ q, q.1 ≠ [] → q.2 ≠ [] → last' q = last q) : Tracks pairs last' nowMs buckets where
  nodup := h.nodup
  stored q hq hc hw entry hget := (hlast q hc hw).trans (h.stored q hq hc hw entry hget)
  kept q hq hc hw bucket hbucket := h.kept q hq hc hw bucket (hlast q hc hw ▸ hbucket)

theorem Tracks.same {buckets' : Buckets} (hnodup : (JsMap.keys buckets'.inner).Nodup)
    (hsame : ∀ key, buckets'.inner.get key = buckets.inner.get key) :
    Tracks pairs last nowMs buckets' where
  nodup := hnodup
  stored p hp hc hw entry hget := h.stored p hp hc hw entry (hsame _ ▸ hget)
  kept p hp hc hw bucket hlast := by
    rw [hsame]
    exact h.kept p hp hc hw bucket hlast

section

variable (hkey : ∀ q ∈ pairs, storeKey p.1 p.2 = storeKey q.1 q.2 → p = q)
include hkey

theorem Tracks.delete (hlast : ∀ q, p ≠ q → last' q = last q)
    (hgone : ∀ bucket, last' p = some bucket → rolledOver bucket.resetsAtMs nowMs = true) :
    Tracks pairs last' nowMs (BoundedMap.delete (storeKey p.1 p.2) buckets) where
  nodup := nodup_keys_delete h.nodup
  stored q hq hc hw entry hget := by
    obtain ⟨hne, hget⟩ := get_delete_eq_some hget
    rw [hlast q fun heq => hne (heq ▸ rfl)]
    exact h.stored q hq hc hw entry hget
  kept q hq hc hw bucket hbucket := by
    by_cases hpq : p = q
    · subst hpq
      exact .inr (hgone bucket hbucket)
    · rw [hlast q hpq] at hbucket
      unfold BoundedMap.delete
      rw [get_delete, if_neg (fun heq => hpq (hkey q hq heq))]
      exact h.kept q hq hc hw bucket hbucket

theorem Tracks.set (hlast : ∀ q, p ≠ q → last' q = last q) {bucket : BucketEntry} (hnew : last' p = some bucket) :
    Tracks pairs last' nowMs (BoundedMap.set config (storeKey p.1 p.2) bucket nowMs buckets) where
  nodup := BoundedMap.nodup_set h.nodup
  stored q hq hc hw entry hget := by
    by_cases hpq : p = q
    · subst hpq
      rw [BoundedMap.get_set_self] at hget
      rw [hnew, ← Option.some.inj hget]
    · have hne : storeKey p.1 p.2 ≠ storeKey q.1 q.2 := fun heq => hpq (hkey q hq heq)
      rw [hlast q hpq]
      exact h.stored q hq hc hw entry (BoundedMap.get_of_set h.nodup hne hget)
  kept q hq hc hw other hother := by
    by_cases hpq : p = q
    · subst hpq
      exact .inl ⟨_, BoundedMap.get_set_self⟩
    · have hne : storeKey p.1 p.2 ≠ storeKey q.1 q.2 := fun heq => hpq (hkey q hq heq)
      rw [hlast q hpq] at hother
      rcases h.kept q hq hc hw other hother with ⟨entry, hentry⟩ | hrolled
      · rcases BoundedMap.get_set_of_ne h.nodup hne hentry with hget | hexpired | hevict
        · exact .inl ⟨entry, hget⟩
        · cases hexpired
        · have hvalue := h.stored q hq hc hw entry hentry
          rw [hother] at hvalue
          rw [Option.some.inj hvalue]
          exact .inr hevict
      · exact .inr hrolled

end

end

theorem step_tracks {calls : List Call} {call : Call}
    (h : Tracks pairs (lastBucket parse · calls) nowMs buckets) (hmem : call.pair ∈ pairs)
    (hkey : ∀ q ∈ pairs, storeKey call.pair.1 call.pair.2 = storeKey q.1 q.2 → call.pair = q)
    (hle : nowMs ≤ call.nowMs) :
    Tracks pairs (lastBucket parse · (calls ++ [call])) call.nowMs (step parse buckets call) := by
  have hlater := h.later hle
  cases call with
  | recordUsage c w usedPct resetAt now =>
    have hother : ∀ q : JsString × JsString, (c, w) ≠ q →
        lastBucket parse q (calls ++ [.recordUsage c w usedPct resetAt now]) =
          lastBucket parse q calls := by
      intro q hq
      rw [lastBucket_concat]
      exact if_neg hq
    have hself : lastBucket parse (c, w) (calls ++ [.recordUsage c w usedPct resetAt now]) =
        if saturates usedPct then some ⟨true, parseResetAtMs parse resetAt⟩ else none := by
      rw [lastBucket_concat]
      exact if_pos rfl
    simp only [step, recordUsage]
    split
    · rename_i hempty
      refine hlater.congr fun q hc hw => hother q ?_
      rintro rfl
      exact hempty.elim hc hw
    · split
      · rename_i hrolled
        refine hlater.delete (p := (c, w)) hkey hother ?_
        intro bucket hbucket
        rw [hself] at hbucket
        split at hbucket
        · rw [← Option.some.inj hbucket]
          exact hrolled
        · cases hbucket
      · split
        · rename_i hsat
          exact hlater.set (p := (c, w)) hkey hother (hself.trans (if_pos hsat))
        · rename_i hsat
          refine hlater.delete (p := (c, w)) hkey hother ?_
          intro bucket hbucket
          rw [hself, if_neg hsat] at hbucket
          cases hbucket
  | isBucketSaturated c w now =>
    have hsame : (fun q => lastBucket parse q (calls ++ [.isBucketSaturated c w now])) =
        fun q => lastBucket parse q calls := by
      funext q
      rw [lastBucket_concat]
    rw [hsame]
    have hread : ∀ k, (BoundedMap.get config (storeKey c w) now buckets).2.inner.get k =
        buckets.inner.get k := fun k => BoundedMap.get_snd rfl
    have hvalue := BoundedMap.get_fst config (storeKey c w) now buckets rfl
    have hlook := hlater.same (BoundedMap.nodup_get hlater.nodup) hread
    simp only [step, isBucketSaturated]
    split
    · exact hlater
    · rename_i hfull
      rw [not_or] at hfull
      cases hget : BoundedMap.get config (storeKey c w) now buckets with
      | mk value buckets' =>
        rw [hget] at hvalue hlook
        cases value with
        | none => exact hlook
        | some entry =>
          simp only
          split
          · rename_i hrolled
            refine hlook.delete (p := (c, w)) hkey (fun _ _ => rfl) ?_
            intro bucket hbucket
            obtain ⟨stored, hstored, rfl⟩ := Option.map_eq_some_iff.mp hvalue.symm
            have hlast := hlater.stored (c, w) hmem hfull.1 hfull.2 stored hstored
            rw [hbucket] at hlast
            rw [Option.some.inj hlast]
            exact hrolled
          · exact hlook

variable (parse) in
theorem run_tracks (nowMs : Int) (calls : List Call)
    (hkey : ∀ p ∈ pairs, ∀ q ∈ pairs, storeKey p.1 p.2 = storeKey q.1 q.2 → p = q)
    (hclock : (calls.map Call.nowMs).Pairwise (· ≤ ·)) (hmem : ∀ call ∈ calls, call.pair ∈ pairs)
    (hnow : ∀ call ∈ calls, call.nowMs ≤ nowMs) :
    Tracks pairs (lastBucket parse · calls) nowMs (run parse calls) := by
  induction calls using List.reverseRecOn generalizing nowMs with
  | nil =>
    refine ⟨nodup_nil, ?_, ?_⟩
    · intro p hp hc hw entry hget
      cases hget
    · intro p hp hc hw bucket hlast
      cases hlast
  | append_singleton calls call ih =>
    rw [map_append, pairwise_append] at hclock
    have hlast : call ∈ calls ++ [call] := by simp
    have hbefore := ih call.nowMs hclock.1 (fun c hc => hmem c (by simp [hc]))
      fun c hc => hclock.2.2 c.nowMs (mem_map_of_mem hc) call.nowMs (by simp)
    rw [run_concat]
    exact (step_tracks hbefore (hmem call hlast) (hkey _ (hmem call hlast)) (Int.le_refl _)).later
      (hnow call hlast)

theorem isBucketSaturated_of_tracks {c w : JsString} {calls : List Call}
    (h : Tracks pairs (lastBucket parse · calls) nowMs buckets) (hmem : (c, w) ∈ pairs) :
    (isBucketSaturated c w nowMs buckets).1 = saturatedNow parse c w calls nowMs := by
  rw [saturatedNow_eq]
  unfold isBucketSaturated
  by_cases hempty : c = [] ∨ w = []
  · rcases hempty with rfl | rfl
    · rfl
    · simp
  · rw [if_neg hempty]
    rw [not_or] at hempty
    obtain ⟨hc, hw⟩ := hempty
    have hstored := h.stored (c, w) hmem hc hw
    have hkept := h.kept (c, w) hmem hc hw
    have hvalue := BoundedMap.get_fst config (storeKey c w) nowMs buckets rfl
    have hfull : (decide (c ≠ []) && decide (w ≠ [])) = true := by simp [hc, hw]
    rw [hfull, Bool.true_and]
    cases hget : BoundedMap.get config (storeKey c w) nowMs buckets with
    | mk value buckets' =>
      rw [hget] at hvalue
      simp only [hget]
      cases value with
      | none =>
        have hnone := Option.map_eq_none_iff.mp hvalue.symm
        cases hlast : lastBucket parse (c, w) calls with
        | none => rfl
        | some bucket =>
          rcases hkept bucket hlast with ⟨entry, hentry⟩ | hrolled
          · rw [hnone] at hentry
            cases hentry
          · exact (congrArg (!·) hrolled).symm
      | some entry =>
        obtain ⟨stored, hentry, rfl⟩ := Option.map_eq_some_iff.mp hvalue.symm
        have hlast := hstored stored hentry
        have hsat := saturated_of_lastBucket parse hlast
        simp only [hlast]
        split
        · rename_i hrolled
          simp [hrolled]
        · rename_i hrolled
          simp [hrolled, hsat]

end Steps

/-- The store answers as if it had no cap. -/
theorem isBucketSaturated_eq (calls : List Call) (connectionId windowKey : JsString) (nowMs : Int)
    (hclock : ((calls ++ [Call.isBucketSaturated connectionId windowKey nowMs]).map
      Call.nowMs).Pairwise (· ≤ ·))
    (hids : ∀ call ∈ calls ++ [.isBucketSaturated connectionId windowKey nowMs],
      ¬ js "::" <:+: call.pair.1 ∧ ¬ js "::" <:+: call.pair.2)
    (hborder : ∀ call ∈ calls ++ [.isBucketSaturated connectionId windowKey nowMs],
      ∀ other ∈ calls ++ [.isBucketSaturated connectionId windowKey nowMs],
        ¬ BorderColon call.pair other.pair) :
    (isBucketSaturated connectionId windowKey nowMs (run parse calls)).1 =
      saturatedNow parse connectionId windowKey calls nowMs := by
  have hkey : ∀ p ∈ (calls ++ [Call.isBucketSaturated connectionId windowKey nowMs]).map Call.pair,
      ∀ q ∈ (calls ++ [Call.isBucketSaturated connectionId windowKey nowMs]).map Call.pair,
        storeKey p.1 p.2 = storeKey q.1 q.2 → p = q := by
    intro p hp q hq
    obtain ⟨call, hcall, rfl⟩ := mem_map.mp hp
    obtain ⟨other, hother, rfl⟩ := mem_map.mp hq
    exact storeKey_inj (hids call hcall).1 (hids other hother).1 (hborder call hcall other hother)
      (hborder other hother call hcall)
  rw [map_append, pairwise_append] at hclock
  have htracks := run_tracks parse nowMs calls hkey hclock.1
    (fun call hcall => mem_map_of_mem (mem_append_left _ hcall))
    fun call hcall => hclock.2.2 call.nowMs (mem_map_of_mem hcall) nowMs (by simp [Call.nowMs])
  exact isBucketSaturated_of_tracks htracks (by simp [Call.pair])

theorem isBucketSaturated_eq_five_hours : (isBucketSaturated (js "a") (js "5h") 1
      (run (fun _ => none) [.recordUsage (js "a") (js "5h") 100 none 0])).1 =
      saturatedNow (fun _ => none) (js "a") (js "5h")
        [.recordUsage (js "a") (js "5h") 100 none 0] 1 :=
  isBucketSaturated_eq _ _ _ _ _ (by decide) (by decide) (by
    intro call hcall other hother hborder
    have hpair : call.pair = (js "a", js "5h") := by
      rcases mem_pair.mp hcall with rfl | rfl <;> rfl
    have hpair' : other.pair = (js "a", js "5h") := by
      rcases mem_pair.mp hother with rfl | rfl <;> rfl
    rw [hpair, hpair'] at hborder
    exact absurd hborder.1 (by decide))

/-- Two buckets have one key when a colon stands at the border of their ids. -/
theorem not_isBucketSaturated_eq :
    ¬ ∀ (parse : JsString → Option Int) (calls : List Call) (connectionId windowKey : JsString)
      (nowMs : Int),
      ((calls ++ [Call.isBucketSaturated connectionId windowKey nowMs]).map
        Call.nowMs).Pairwise (· ≤ ·) →
      (∀ call ∈ calls ++ [.isBucketSaturated connectionId windowKey nowMs],
        ¬ js "::" <:+: call.pair.1 ∧ ¬ js "::" <:+: call.pair.2) →
      (isBucketSaturated connectionId windowKey nowMs (run parse calls)).1 =
        saturatedNow parse connectionId windowKey calls nowMs := by
  intro hall
  have hsame := hall (fun _ => none) [.recordUsage (js "a:") (js "b") 100 none 0] (js "a") (js ":b")
    0 (by decide) (by decide)
  have hstored : run (fun _ => none) [.recordUsage (js "a:") (js "b") 100 none 0] =
      ⟨[(js "a:::b", ⟨⟨true, 0⟩, 0⟩)], 0, 0⟩ := by
    decide
  exact absurd hsame (by decide)

end RedRouter.Quota.AccountBuckets
