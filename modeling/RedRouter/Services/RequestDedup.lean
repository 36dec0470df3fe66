import RedRouter.Lib.JsValue
import RedRouter.Lib.JsonCut
import RedRouter.Lib.Separators

/-!
# The hash of a request

`computeRequestHash` writes some fields of a request body as JSON, hashes the
text and puts the tenant in front.  Requests with one hash share one upstream
call.

The hash of the crypto library is `sha256`, on bytes.  `computeRequestHash_eq_iff`
says which requests share a hash: those of one tenant that are written alike in
the fields that are hashed (`HashedAlike`).  A field that is not among them does
not keep two requests apart.
-/

namespace RedRouter.Services

open List JsValue Separators

/-! ## The model -/

/-- `value.key`, of a value that is not `null`. -/
def member (key : JsString) : JsValue → JsValue
  | .obj members => ((members.find? fun m => m.1 == key).map Prod.snd).getD .undefined
  | _ => .undefined

/-- `value ?? null`. -/
def orNull : JsValue → JsValue
  | .undefined => .null
  | value => value

def asRecord : JsValue → Option JsValue
  | .obj members => some (.obj members)
  | _ => none

/-- `record?.key`. -/
def memberOf (key : JsString) (record : Option JsValue) : JsValue :=
  (record.map (member key)).getD .undefined

def extractPromptContent (body : JsValue) : JsValue :=
  if !(member (js "messages") body).isOmitted then member (js "messages") body
  else if !(member (js "contents") body).isOmitted then member (js "contents") body
  else if !(member (js "input") body).isOmitted then member (js "input") body
  else
    let request := asRecord (member (js "request") body)
    if !(memberOf (js "contents") request).isOmitted then memberOf (js "contents") request
    else
      let conversationState := asRecord (member (js "conversationState") body)
      let currentMessage := asRecord (memberOf (js "currentMessage") conversationState)
      let userInputMessage := asRecord (memberOf (js "userInputMessage") currentMessage)
      let history := memberOf (js "history") conversationState
      if userInputMessage.isSome || !history.isOmitted then
        .obj [(js "content", orNull (memberOf (js "content") userInputMessage)),
          (js "history", orNull history)]
      else .null

def extractSystemContent (body : JsValue) : JsValue :=
  if !(member (js "system") body).isOmitted then member (js "system") body
  else if !(member (js "instructions") body).isOmitted then member (js "instructions") body
  else if !(member (js "systemInstruction") body).isOmitted then
    member (js "systemInstruction") body
  else
    let request := asRecord (member (js "request") body)
    if !(memberOf (js "systemInstruction") request).isOmitted then
      memberOf (js "systemInstruction") request
    else .null

/-- A number, and 1 for anything else. -/
def temperatureOf (body : JsValue) : JsValue :=
  match member (js "temperature") body with
  | .num bits => .num bits
  | _ => .num 0x3FF0000000000000

/-- The context of an attempt, `none` for a field that is `null` or missing. -/
structure TrustedContext where
  originModel : Option JsString
  resolvedThinkingEffort : Option JsString
  defaultThinkingEffort : Option JsString
deriving DecidableEq

def nullable : Option JsString → JsValue
  | none => .null
  | some s => .str s

def requestIntent (body : JsValue) : List (JsString × JsValue) :=
  [(js "reasoning_effort", member (js "reasoning_effort") body),
    (js "reasoning", member (js "reasoning") body),
    (js "thinking", member (js "thinking") body),
    (js "output_config", member (js "output_config") body)]

def TrustedContext.members (context : TrustedContext) : List (JsString × JsValue) :=
  [(js "originModel", nullable context.originModel),
    (js "resolvedThinkingEffort", nullable context.resolvedThinkingEffort),
    (js "defaultThinkingEffort", nullable context.defaultThinkingEffort)]

/-- The members that are written for every request. -/
def canonicalFields (body : JsValue) : List (JsString × JsValue) :=
  [(js "model", orNull (member (js "model") body)), (js "messages", extractPromptContent body),
    (js "system", extractSystemContent body),
    (js "temperature", temperatureOf body),
    (js "tools", orNull (member (js "tools") body)),
    (js "tool_choice", orNull (member (js "tool_choice") body)),
    (js "max_tokens", orNull (member (js "max_tokens") body)),
    (js "response_format", orNull (member (js "response_format") body)),
    (js "top_p", orNull (member (js "top_p") body)),
    (js "frequency_penalty", orNull (member (js "frequency_penalty") body)),
    (js "presence_penalty", orNull (member (js "presence_penalty") body))]

def trustedFields (body : JsValue) : Option TrustedContext → List (JsString × JsValue)
  | none => []
  | some context =>
      [(js "requestIntent", .obj (requestIntent body)), (js "trustedContext", .obj context.members)]

def canonical (body : JsValue) (trustedContext : Option TrustedContext) :
    List (JsString × JsValue) :=
  canonicalFields body ++ trustedFields body trustedContext

variable (fmt : UInt64 → JsString) (sha256 : List UInt8 → List UInt8)

def canonicalText (body : JsValue) (trustedContext : Option TrustedContext) : JsString :=
  serialize fmt (.obj (canonical body trustedContext))

/-- `createHash("sha256").update(text).digest("hex").slice(0, 16)`. -/
def shortDigest (text : JsString) : JsString := (hex (sha256 (utf8 text))).take 16

def tenantNamespace (tenantId : Option JsString) : Option JsString :=
  tenantId.filter (fun t => !t.isEmpty)

def namespaced (digest : JsString) : Option JsString → JsString
  | some tenantId => tenantId ++ ([unit '.'] ++ digest)
  | none => digest

def computeRequestHash (body : JsValue) (tenantId : Option JsString)
    (trustedContext : Option TrustedContext) : JsString :=
  namespaced (shortDigest sha256 (canonicalText fmt body trustedContext)) (tenantNamespace tenantId)

/-! ## The tenant -/

theorem dot_not_mem_shortDigest (text : JsString) : unit '.' ∉ shortDigest sha256 text := by
  intro h
  exact not_mem_hex (by decide) _ (mem_of_mem_take h)

theorem namespaced_inj {digest digest' : JsString} (hdigest : unit '.' ∉ digest)
    (hdigest' : unit '.' ∉ digest') {tenant tenant' : Option JsString} :
    namespaced digest tenant = namespaced digest' tenant' ↔
      tenant = tenant' ∧ digest = digest' := by
  have hinside : ∀ t d : JsString, unit '.' ∈ t ++ ([unit '.'] ++ d) := fun t d =>
    mem_append_right t mem_cons_self
  cases tenant with
  | none =>
    cases tenant' with
    | none => simp [namespaced]
    | some t' =>
      refine iff_of_false ?_ (fun h => by cases h.1)
      intro h
      have h : digest = t' ++ ([unit '.'] ++ digest') := h
      exact hdigest (h ▸ hinside t' digest')
  | some t =>
    cases tenant' with
    | none =>
      refine iff_of_false ?_ (fun h => by cases h.1)
      intro h
      have h : t ++ ([unit '.'] ++ digest) = digest' := h
      exact hdigest' (h ▸ hinside t digest)
    | some t' =>
      constructor
      · intro h
        obtain ⟨htenant, hsame⟩ := separated_inj_last hdigest hdigest' h
        exact ⟨congrArg some htenant, hsame⟩
      · rintro ⟨htenant, hsame⟩
        rw [htenant, hsame]

variable {context context' : Option TrustedContext}

theorem computeRequestHash_split {body body' : JsValue} {tenantId tenantId' : Option JsString} :
    computeRequestHash fmt sha256 body tenantId context =
        computeRequestHash fmt sha256 body' tenantId' context' ↔
      tenantNamespace tenantId = tenantNamespace tenantId' ∧
        shortDigest sha256 (canonicalText fmt body context) =
          shortDigest sha256 (canonicalText fmt body' context') :=
  namespaced_inj (dot_not_mem_shortDigest sha256 _) (dot_not_mem_shortDigest sha256 _)

/-! ## The fields -/

def Alike (value value' : JsValue) : Prop := stringify fmt value = stringify fmt value'

/-- Two attempts are alike in what is hashed of their contexts. -/
def TrustedAlike (body body' : JsValue) : Option TrustedContext → Option TrustedContext → Prop
  | none, none => True
  | some context, some context' =>
      (∀ key ∈ [js "reasoning_effort", js "reasoning", js "thinking", js "output_config"],
        Alike fmt (member key body) (member key body')) ∧
      Alike fmt (nullable context.originModel) (nullable context'.originModel) ∧
      Alike fmt (nullable context.resolvedThinkingEffort)
        (nullable context'.resolvedThinkingEffort) ∧
      Alike fmt (nullable context.defaultThinkingEffort) (nullable context'.defaultThinkingEffort)
  | _, _ => False

/-- Two bodies are alike in the fields that are hashed. -/
structure FieldsAlike (body body' : JsValue) : Prop where
  messages : Alike fmt (extractPromptContent body) (extractPromptContent body')
  system : Alike fmt (extractSystemContent body) (extractSystemContent body')
  temperature : Alike fmt (temperatureOf body) (temperatureOf body')
  fields : ∀ key ∈ [js "model", js "tools", js "tool_choice", js "max_tokens",
      js "response_format", js "top_p", js "frequency_penalty", js "presence_penalty"],
    Alike fmt (orNull (member key body)) (orNull (member key body'))

variable {fmt}

theorem fieldsAlike_iff (body body' : JsValue) :
    List.Forall₂ (fun m m' => stringify fmt m.2 = stringify fmt m'.2) (canonicalFields body)
        (canonicalFields body') ↔ FieldsAlike fmt body body' := by
  simp only [canonicalFields, forall₂_cons]
  constructor
  · rintro ⟨hmodel, hmessages, hsystem, htemperature, htools, hchoice, htokens, hformat, htop,
      hfrequency, hpresence, -⟩
    refine ⟨hmessages, hsystem, htemperature, ?_⟩
    intro key hkey
    simp only [mem_cons, not_mem_nil, or_false] at hkey
    rcases hkey with rfl | rfl | rfl | rfl | rfl | rfl | rfl | rfl
    · exact hmodel
    · exact htools
    · exact hchoice
    · exact htokens
    · exact hformat
    · exact htop
    · exact hfrequency
    · exact hpresence
  · rintro ⟨hmessages, hsystem, htemperature, hfields⟩
    exact ⟨hfields (js "model") (by decide), hmessages, hsystem, htemperature,
      hfields (js "tools") (by decide), hfields (js "tool_choice") (by decide),
      hfields (js "max_tokens") (by decide), hfields (js "response_format") (by decide),
      hfields (js "top_p") (by decide), hfields (js "frequency_penalty") (by decide),
      hfields (js "presence_penalty") (by decide), .nil⟩

section

variable (hfmt : ∀ bits, ∀ c ∈ fmt bits, isPlain c = true)
include hfmt

/-- A text of objects with the same keys tells the texts of their members. -/
theorem alike_obj_iff {members members' : List (JsString × JsValue)}
    (hkeys : members.map Prod.fst = members'.map Prod.fst)
    (hnodup : (members.map fun m => quote m.1).Nodup) :
    serialize fmt (.obj members) = serialize fmt (.obj members') ↔
      List.Forall₂ (fun m m' => stringify fmt m.2 = stringify fmt m'.2) members members' := by
  rw [serialize_obj_inj hfmt, memberTexts_eq_iff hkeys hnodup]

theorem intentAlike_iff (body body' : JsValue) :
    serialize fmt (.obj (requestIntent body)) = serialize fmt (.obj (requestIntent body')) ↔
      ∀ key ∈ [js "reasoning_effort", js "reasoning", js "thinking", js "output_config"],
        Alike fmt (member key body) (member key body') := by
  have hnodup : ((requestIntent body).map fun m => quote m.1).Nodup := by
    show ([js "reasoning_effort", js "reasoning", js "thinking", js "output_config"].map
      quote).Nodup
    decide
  have hkeys : (requestIntent body).map Prod.fst = (requestIntent body').map Prod.fst := rfl
  rw [alike_obj_iff hfmt hkeys hnodup]
  simp only [requestIntent, forall₂_cons]
  constructor
  · rintro ⟨heffort, hreasoning, hthinking, houtput, -⟩ key hkey
    simp only [mem_cons, not_mem_nil, or_false] at hkey
    rcases hkey with rfl | rfl | rfl | rfl
    · exact heffort
    · exact hreasoning
    · exact hthinking
    · exact houtput
  · intro hall
    exact ⟨hall (js "reasoning_effort") (by decide), hall (js "reasoning") (by decide),
      hall (js "thinking") (by decide), hall (js "output_config") (by decide), .nil⟩

theorem contextAlike_iff (context context' : TrustedContext) :
    serialize fmt (.obj context.members) = serialize fmt (.obj context'.members) ↔
      Alike fmt (nullable context.originModel) (nullable context'.originModel) ∧
      Alike fmt (nullable context.resolvedThinkingEffort)
        (nullable context'.resolvedThinkingEffort) ∧
      Alike fmt (nullable context.defaultThinkingEffort)
        (nullable context'.defaultThinkingEffort) := by
  have hnodup : (context.members.map fun m => quote m.1).Nodup := by
    show ([js "originModel", js "resolvedThinkingEffort", js "defaultThinkingEffort"].map
      quote).Nodup
    decide
  have hkeys : context.members.map Prod.fst = context'.members.map Prod.fst := rfl
  rw [alike_obj_iff hfmt hkeys hnodup]
  simp only [TrustedContext.members, forall₂_cons]
  exact ⟨fun h => ⟨h.1, h.2.1, h.2.2.1⟩, fun h => ⟨h.1, h.2.1, h.2.2, .nil⟩⟩

end

theorem orNull_written (value : JsValue) : (orNull value).isOmitted = false := by
  cases value <;> rfl

theorem written_of_not {value : JsValue} (h : (!value.isOmitted) = true) :
    value.isOmitted = false := by simpa using h

variable (body : JsValue)

theorem extractPromptContent_written : (extractPromptContent body).isOmitted = false := by
  unfold extractPromptContent
  dsimp only
  split_ifs with h₁ h₂ h₃ h₄ h₅
  · exact written_of_not h₁
  · exact written_of_not h₂
  · exact written_of_not h₃
  · exact written_of_not h₄
  · rfl
  · rfl

theorem extractSystemContent_written : (extractSystemContent body).isOmitted = false := by
  unfold extractSystemContent
  dsimp only
  split_ifs with h₁ h₂ h₃ h₄
  · exact written_of_not h₁
  · exact written_of_not h₂
  · exact written_of_not h₃
  · exact written_of_not h₄
  · rfl

theorem temperatureOf_written : (temperatureOf body).isOmitted = false := by
  unfold temperatureOf
  split <;> rfl

theorem canonicalFields_written : ∀ m ∈ canonicalFields body, m.2.isOmitted = false := by
  simp only [canonicalFields, forall_mem_cons]
  exact ⟨orNull_written _, extractPromptContent_written body, extractSystemContent_written body,
    temperatureOf_written body, orNull_written _, orNull_written _, orNull_written _,
    orNull_written _, orNull_written _, orNull_written _, orNull_written _,
    fun _ h => absurd h not_mem_nil⟩

theorem memberTexts_trustedFields (context : TrustedContext) :
    memberTexts fmt (trustedFields body (some context)) =
      [(quote (js "requestIntent"), serialize fmt (.obj (requestIntent body))),
        (quote (js "trustedContext"), serialize fmt (.obj context.members))] := rfl

theorem trustedAlike_iff (hfmt : ∀ bits, ∀ c ∈ fmt bits, isPlain c = true) (body body' : JsValue)
    (context context' : Option TrustedContext) :
    memberTexts fmt (trustedFields body context) = memberTexts fmt (trustedFields body' context') ↔
      TrustedAlike fmt body body' context context' := by
  cases context with
  | none =>
    cases context' with
    | none => exact iff_of_true rfl trivial
    | some context' =>
      refine iff_of_false ?_ id
      exact fun h => by cases h
  | some context =>
    cases context' with
    | none =>
      refine iff_of_false ?_ id
      exact fun h => by cases h
    | some context' =>
      rw [memberTexts_trustedFields, memberTexts_trustedFields, TrustedAlike,
        ← intentAlike_iff hfmt, ← contextAlike_iff hfmt]
      simp

theorem canonicalText_eq_iff (hfmt : ∀ bits, ∀ c ∈ fmt bits, isPlain c = true)
    {body body' : JsValue} :
    canonicalText fmt body context = canonicalText fmt body' context' ↔
      FieldsAlike fmt body body' ∧ TrustedAlike fmt body body' context context' := by
  have hnodup : ((canonicalFields body).map fun m => quote m.1).Nodup := by
    show ([js "model", js "messages", js "system", js "temperature", js "tools",
      js "tool_choice", js "max_tokens", js "response_format", js "top_p",
      js "frequency_penalty", js "presence_penalty"].map quote).Nodup
    decide
  have hlength : (memberTexts fmt (canonicalFields body)).length =
      (memberTexts fmt (canonicalFields body')).length := by
    rw [length_memberTexts fmt (canonicalFields_written body),
      length_memberTexts fmt (canonicalFields_written body')]
    rfl
  have hkeys : (canonicalFields body).map Prod.fst = (canonicalFields body').map Prod.fst := rfl
  unfold canonicalText
  rw [serialize_obj_inj hfmt, canonical, canonical, memberTexts_append, memberTexts_append,
    ← trustedAlike_iff hfmt, ← fieldsAlike_iff, ← memberTexts_eq_iff hkeys hnodup]
  constructor
  · exact fun h => append_inj h hlength
  · rintro ⟨hfields, htrusted⟩
    rw [hfields, htrusted]

/-! ## Which requests share a hash -/

/-- Two requests are of one tenant, and alike in what is hashed. -/
structure HashedAlike (fmt : UInt64 → JsString) (body body' : JsValue)
    (tenantId tenantId' : Option JsString) (context context' : Option TrustedContext) : Prop where
  tenant : tenantNamespace tenantId = tenantNamespace tenantId'
  fields : FieldsAlike fmt body body'
  trusted : TrustedAlike fmt body body' context context'

/-- The digests of two texts do not collide. -/
def NoCollision (sha256 : List UInt8 → List UInt8) (text text' : JsString) : Prop :=
  shortDigest sha256 text = shortDigest sha256 text' → text = text'

theorem computeRequestHash_eq_iff (hfmt : ∀ bits, ∀ c ∈ fmt bits, isPlain c = true)
    {body body' : JsValue} {tenantId tenantId' : Option JsString}
    (hsha : NoCollision sha256 (canonicalText fmt body context)
      (canonicalText fmt body' context')) :
    computeRequestHash fmt sha256 body tenantId context =
        computeRequestHash fmt sha256 body' tenantId' context' ↔
      HashedAlike fmt body body' tenantId tenantId' context context' := by
  have hdigest : shortDigest sha256 (canonicalText fmt body context) =
        shortDigest sha256 (canonicalText fmt body' context') ↔
      FieldsAlike fmt body body' ∧ TrustedAlike fmt body body' context context' := by
    rw [← canonicalText_eq_iff hfmt]
    exact ⟨hsha, fun h => by rw [h]⟩
  rw [computeRequestHash_split, hdigest]
  exact ⟨fun h => ⟨h.1, h.2.1, h.2.2⟩, fun h => ⟨h.tenant, h.fields, h.trusted⟩⟩

/-- Two bodies agree in every field that can change the answer. -/
def AgreeOutside (fmt : UInt64 → JsString) (body body' : JsValue) : Prop :=
  ∀ key, key ∉ [js "stream", js "user", js "metadata"] →
    Alike fmt (member key body) (member key body')

/-- A shared hash means that the requests agree exactly when they differ in
something that is hashed, or agree in everything that is not. -/
theorem computeRequestHash_agrees_iff (hfmt : ∀ bits, ∀ c ∈ fmt bits, isPlain c = true)
    {body body' : JsValue} {tenantId tenantId' : Option JsString}
    {context context' : Option TrustedContext}
    (hsha : NoCollision sha256 (canonicalText fmt body context)
      (canonicalText fmt body' context')) :
    (computeRequestHash fmt sha256 body tenantId context =
        computeRequestHash fmt sha256 body' tenantId' context' → AgreeOutside fmt body body') ↔
      ¬ HashedAlike fmt body body' tenantId tenantId' context context' ∨
        AgreeOutside fmt body body' := by
  rw [computeRequestHash_eq_iff sha256 hfmt hsha]
  exact imp_iff_not_or

def chatBody (more : List (JsString × JsValue)) : JsValue :=
  .obj ([(js "model", .str (js "openai/gpt-5")),
    (js "messages", .arr [.obj [(js "role", .str (js "user")), (js "content", .str (js "count"))]]),
    (js "temperature", .num 0)] ++ more)

def chatContext : Option TrustedContext := some ⟨some (js "gpt-5"), none, none⟩

/-- The text of a number, for the numbers of the requests here. -/
def zeroText (_ : UInt64) : JsString := js "0"

theorem plain_zeroText : ∀ c ∈ js "0", isPlain c = true :=
  all_eq_true.mp (by decide)

/-- The digest of the text of such a request. -/
def countDigest : List UInt8 :=
  [0x1f, 0xe8, 0xea, 0x39, 0xc7, 0xf5, 0x68, 0x6c, 0xa4, 0x54, 0xb5, 0xad, 0x51, 0x38,
    0xd0, 0x99, 0x12, 0x57, 0xf0, 0x3b, 0x03, 0x75, 0x1b, 0x16, 0xb5, 0xda, 0xf6, 0xc8,
    0xd5, 0x73, 0xbc, 0x3a]

/-- A request with a stop sequence shares the hash of one without. -/
theorem computeRequestHash_ignores_stop : computeRequestHash zeroText (fun _ => countDigest)
        (chatBody [(js "stop", .arr [.str (js "3")])]) (some (js "key-1")) chatContext =
      computeRequestHash zeroText (fun _ => countDigest) (chatBody []) (some (js "key-1"))
        chatContext ∧
    ¬ AgreeOutside zeroText (chatBody [(js "stop", .arr [.str (js "3")])]) (chatBody []) := by
  refine ⟨rfl, ?_⟩
  intro hagree
  have hstop := hagree (js "stop") (by decide)
  have hwritten : (stringify zeroText (member (js "stop")
    (chatBody [(js "stop", .arr [.str (js "3")])]))).isSome = true := rfl
  rw [hstop] at hwritten
  exact absurd hwritten (by decide)

theorem computeRequestHash_agrees_stop : (computeRequestHash zeroText (fun _ => countDigest)
        (chatBody [(js "stop", .arr [.str (js "3")])]) (some (js "key-1")) chatContext =
      computeRequestHash zeroText (fun _ => countDigest) (chatBody []) (some (js "key-1"))
        chatContext →
        AgreeOutside zeroText (chatBody [(js "stop", .arr [.str (js "3")])]) (chatBody [])) ↔
      ¬ HashedAlike zeroText (chatBody [(js "stop", .arr [.str (js "3")])]) (chatBody [])
          (some (js "key-1")) (some (js "key-1")) chatContext chatContext ∨
        AgreeOutside zeroText (chatBody [(js "stop", .arr [.str (js "3")])]) (chatBody []) :=
  computeRequestHash_agrees_iff _ (fun _ => plain_zeroText) (fun _ => rfl)

end RedRouter.Services
