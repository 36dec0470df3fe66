import RedRouter.Chat.Chunk
import RedRouter.Lib.JsMap
import RedRouter.Response.ThinkTag

/-!
# Claude streams as chat streams

The model of `claudeToOpenAIResponse` in
`translator/response/claude-to-openai.ts`: one Claude event at a time, with
the state that the source keeps between the events.

A chunk of the source that announces a tool call shares its `function` object
with the state, where the arguments grow later.  The chunks here are the
values at the time of their emission, as the stream writer sends them.

Whether textual think tags are parsed depends on the provider and the model
of the stream.  That test is the field `parseTags` of the options.
-/

namespace RedRouter.Response.ClaudeToOpenai

open Chat ThinkTag

/-- The token counts of a Claude `usage`; a field that is not a number is
missing. -/
structure ClaudeUsage where
  inputTokens : Option Nat := none
  promptTokens : Option Nat := none
  outputTokens : Option Nat := none
  completionTokens : Option Nat := none
  cacheReadInputTokens : Option Nat := none
  cacheCreationInputTokens : Option Nat := none
  thinkingTokens : Option Nat := none

inductive StopReason where
  | endTurn
  | maxTokens
  | toolUse
  | stopSequence
  | refusal
  | pauseTurn
  | other (name : JsString)
deriving DecidableEq

/-- The `content_block` of a start event. -/
inductive StartBlock where
  | text
  | thinking
  | toolUse (id : Option JsString) (name : JsString)
  | other

/-- The `delta` of a delta event. -/
inductive BlockDelta where
  | text (text : JsString)
  | thinking (thinking : JsString)
  | inputJson (partialJson : JsString)
  | other

/-- One event of a Claude stream. -/
inductive Event where
  | messageStart (id model : Option JsString) (usage : Option ClaudeUsage)
  | blockStart (index : Nat) (block : StartBlock)
  | blockDelta (index : Nat) (delta : BlockDelta)
  | blockStop (index : Nat)
  | messageDelta (stopReason : Option StopReason) (explanation : Option JsString)
      (usage : Option ClaudeUsage)
  | messageStop
  | other

/-- The usage that the state keeps. -/
structure StateUsage where
  inputTokens : Nat
  outputTokens : Nat
  cacheReadInputTokens : Nat := 0
  cacheCreationInputTokens : Nat := 0
  reasoningTokens : Option Nat := none

structure OpenCall where
  index : Nat
  id : Option JsString
  name : JsString
  arguments : JsString

/-- What does not change during a stream. -/
structure Options where
  suppressThinkClose : Bool
  /-- The mapped tool names. -/
  toolNameMap : JsMap JsString JsString := []
  /-- `shouldParseTextualReasoningTags` for the provider of the stream. -/
  parseTags : Option JsString → Bool
  /-- Whether the state has a string `responseId`. -/
  hasResponseId : Bool := false

structure State where
  messageId : JsString := []
  model : Option JsString := none
  toolCallIndex : Nat := 0
  thinkState : Option ThinkState := none
  usage : Option StateUsage := none
  inThinkingBlock : Bool := false
  currentBlockIndex : Option Nat := none
  pendingThinkClose : Bool := false
  toolCalls : JsMap Nat OpenCall := []
  finishReason : Option FinishReason := none
  finishReasonSent : Bool := false

variable (nowMs : Nat)

def createChunk (s : State) (delta : Delta) : Chunk where
  id := js "chatcmpl-" ++ s.messageId
  created := nowMs / 1000
  model := s.model
  delta := delta

/-! ## Usage -/

/-- The usage that a `message_start` leaves. -/
def startUsage (usage : ClaudeUsage) : Option StateUsage :=
  let inputTokens := usage.inputTokens.getD (usage.promptTokens.getD 0)
  let outputTokens := usage.outputTokens.getD (usage.completionTokens.getD 0)
  let cacheRead := usage.cacheReadInputTokens.getD 0
  let cacheCreation := usage.cacheCreationInputTokens.getD 0
  if inputTokens > 0 ∨ outputTokens > 0 ∨ cacheRead > 0 ∨ cacheCreation > 0 then
    some
      { inputTokens := inputTokens + cacheRead
        outputTokens := outputTokens
        cacheReadInputTokens := cacheRead
        cacheCreationInputTokens := cacheCreation }
  else none

/-- The usage that a `message_delta` leaves. -/
def deltaUsage (usage : ClaudeUsage) (previous : Option StateUsage) : StateUsage :=
  let inputTokens := usage.inputTokens.getD 0
  let cacheRead := usage.cacheReadInputTokens.getD 0
  let cacheCreation := usage.cacheCreationInputTokens.getD 0
  let billable :=
    if inputTokens > 0 ∨ cacheRead > 0 ∨ cacheCreation > 0 then inputTokens + cacheRead
    else (previous.map StateUsage.inputTokens).getD 0
  { inputTokens := billable
    outputTokens := usage.outputTokens.getD 0
    cacheReadInputTokens :=
      if cacheRead > 0 then cacheRead else (previous.map StateUsage.cacheReadInputTokens).getD 0
    cacheCreationInputTokens :=
      if cacheCreation > 0 then cacheCreation
      else (previous.map StateUsage.cacheCreationInputTokens).getD 0
    reasoningTokens := usage.thinkingTokens }

def finalUsage (usage : StateUsage) : ChunkUsage where
  promptTokens := usage.inputTokens
  completionTokens := usage.outputTokens
  totalTokens := usage.inputTokens + usage.outputTokens
  reasoningTokens := usage.reasoningTokens
  cachedTokens := if usage.cacheReadInputTokens > 0 then some usage.cacheReadInputTokens else none
  cacheCreationTokens :=
    if usage.cacheCreationInputTokens > 0 then some usage.cacheCreationInputTokens else none

/-! ## The events -/

def convertStopReason : StopReason → FinishReason
  | .endTurn => .stop
  | .maxTokens => .length
  | .toolUse => .toolCalls
  | .stopSequence => .stop
  | .refusal => .contentFilter
  | .pauseTurn => .stop
  | .other _ => .stop

def finalChunk (s : State) (reason : FinishReason) : Chunk :=
  { createChunk nowMs s {} with
    finishReason := some reason
    usage := s.usage.map finalUsage }

variable (opts : Options)

/-- `toolNameMap.get(name) || name`. -/
def mappedName (name : JsString) : JsString :=
  match opts.toolNameMap.get name with
  | some (c :: cs) => c :: cs
  | _ => name

/-- `message_start`. -/
def onMessageStart (nowMs : Nat) (id model : Option JsString)
    (usage : Option ClaudeUsage) (s : State) : List Chunk × State :=
  let s := { s with
    messageId := (presentId id).getD (js "msg_" ++ JsString.ofNat nowMs)
    model := model
    toolCallIndex := 0
    thinkState := some { enabled := opts.parseTags model }
    usage := ((usage.bind startUsage).orElse fun _ => s.usage) }
  ([createChunk nowMs s { role := true }], s)

/-- `content_block_start`. -/
def onBlockStart (nowMs : Nat) (index : Nat) (block : StartBlock) (s : State) :
    List Chunk × State :=
  match block with
  | .text => ([], s)
  | .thinking =>
      let s := { s with inThinkingBlock := true, currentBlockIndex := some index }
      ([createChunk nowMs s { reasoningContent := some [] }], s)
  | .toolUse id name =>
      let call : OpenCall :=
        { index := s.toolCallIndex, id := id, name := mappedName opts name, arguments := [] }
      let s := { s with
        toolCallIndex := s.toolCallIndex + 1
        toolCalls := s.toolCalls.set index call }
      ([createChunk nowMs s
          { toolCalls := [⟨some call.index, call.id, some call.name, some call.arguments⟩] }], s)
  | .other => ([], s)

/-- The deferred `</think>` marker, which the options may suppress. -/
def thinkCloseChunks (nowMs : Nat) (s : State) : List Chunk :=
  if opts.suppressThinkClose then [] else [createChunk nowMs s { content := some (js "</think>") }]

def reasoningChunk (s : State) (text : JsString) : List Chunk :=
  if text.isEmpty then [] else [createChunk nowMs s { reasoningContent := some text }]

def contentChunk (s : State) (text : JsString) : List Chunk :=
  if text.isEmpty then [] else [createChunk nowMs s { content := some text }]

/-- A `text_delta` that is not empty. -/
def onText (nowMs : Nat) (text : JsString) (s : State) : List Chunk × State :=
  let marker := if s.pendingThinkClose then thinkCloseChunks opts nowMs s else []
  let s := { s with pendingThinkClose := false }
  match s.thinkState with
  | none => (marker ++ contentChunk nowMs s text, s)
  | some ctx =>
      let (out, ctx) := applyThinkTag text ctx
      let s := { s with thinkState := some ctx }
      (marker ++ reasoningChunk nowMs s out.reasoningDelta ++ contentChunk nowMs s out.contentDelta,
        s)

/-- An `input_json_delta` that is not empty. -/
def onInputJson (index : Nat) (fragment : JsString) (s : State) : List Chunk × State :=
  match s.toolCalls.get index with
  | none => ([], s)
  | some call =>
      let s := { s with
        toolCalls := s.toolCalls.set index { call with arguments := call.arguments ++ fragment } }
      ([createChunk nowMs s
          { toolCalls := [{ index := some call.index, arguments := some fragment }] }], s)

/-- `content_block_delta`. -/
def onBlockDelta (nowMs : Nat) (index : Nat) (delta : BlockDelta) (s : State) :
    List Chunk × State :=
  match delta with
  | .text text => if text.isEmpty then ([], s) else onText opts nowMs text s
  | .thinking thinking => (reasoningChunk nowMs s thinking, s)
  | .inputJson fragment => if fragment.isEmpty then ([], s) else onInputJson nowMs index fragment s
  | .other => ([], s)

/-- The texts that the think-tag parser still holds when a block stops. -/
def flushThink (s : State) : List Chunk × State :=
  match s.thinkState with
  | none => ([], s)
  | some ctx =>
      if ctx.active then
        let (out, ctx) := flushThinkBuffer ctx
        let s := { s with thinkState := some ctx }
        (reasoningChunk nowMs s out.reasoningDelta ++ contentChunk nowMs s out.contentDelta, s)
      else ([], s)

/-- `content_block_stop`. -/
def onBlockStop (index : Nat) (s : State) : List Chunk × State :=
  let (chunks, s) := flushThink nowMs s
  if s.inThinkingBlock ∧ s.currentBlockIndex = some index then
    (chunks, { s with pendingThinkClose := true, inThinkingBlock := false })
  else (chunks, s)

def presentReason : Option StopReason → Option StopReason
  | some (.other []) => none
  | reason => reason

def refusalChunks (reason : StopReason) (explanation : Option JsString) (s : State) : List Chunk :=
  if reason = .refusal then
    match explanation with
    | some text =>
        if (JsString.trim text).isEmpty then []
        else [createChunk nowMs s { content := some text }]
    | none => []
  else []

/-- `message_delta`. -/
def onMessageDelta (nowMs : Nat) (stopReason : Option StopReason)
    (explanation : Option JsString) (usage : Option ClaudeUsage) (s : State) :
    List Chunk × State :=
  let s := { s with
    usage :=
      match usage with
      | some usage => some (deltaUsage usage s.usage)
      | none => s.usage }
  match presentReason stopReason with
  | none => ([], s)
  | some reason =>
      let close := s.pendingThinkClose && s.toolCalls.isEmpty
      let marker := if close then thinkCloseChunks opts nowMs s else []
      let finishReason : FinishReason :=
        if reason = .pauseTurn ∧ opts.hasResponseId = true then .pauseTurn
        else convertStopReason reason
      let s := { s with
        pendingThinkClose := if close then false else s.pendingThinkClose
        finishReason := some finishReason
        finishReasonSent := true }
      (marker ++ refusalChunks nowMs reason explanation s ++ [finalChunk nowMs s finishReason], s)

/-- `message_stop`. -/
def onMessageStop (nowMs : Nat) (s : State) : List Chunk × State :=
  if s.finishReasonSent then ([], s)
  else
    let reason := s.finishReason.getD (if s.toolCalls.isEmpty then .stop else .toolCalls)
    ([finalChunk nowMs s reason], { s with finishReasonSent := true })

def claudeToOpenAIResponse (nowMs : Nat) (event : Event) (s : State) : List Chunk × State :=
  match event with
  | .messageStart id model usage => onMessageStart opts nowMs id model usage s
  | .blockStart index block => onBlockStart opts nowMs index block s
  | .blockDelta index delta => onBlockDelta opts nowMs index delta s
  | .blockStop index => onBlockStop nowMs index s
  | .messageDelta stopReason explanation usage =>
      onMessageDelta opts nowMs stopReason explanation usage s
  | .messageStop => onMessageStop nowMs s
  | .other => ([], s)

/-- The chunks of a stream of events, each with the time of its arrival. -/
def translate (opts : Options) : List (Nat × Event) → State → List Chunk × State
  | [], s => ([], s)
  | (nowMs, event) :: events, s =>
      let (chunks, s) := claudeToOpenAIResponse opts nowMs event s
      let (rest, s) := translate opts events s
      (chunks ++ rest, s)

/-! ## The usage of the last chunk -/

/-- The token counts that an event reports. -/
structure TokenCounts where
  inputTokens : Option Nat
  cacheReadInputTokens : Option Nat
  cacheCreationInputTokens : Option Nat
  outputTokens : Option Nat

def TokenCounts.usage (counts : TokenCounts) : ClaudeUsage where
  inputTokens := counts.inputTokens
  outputTokens := counts.outputTokens
  cacheReadInputTokens := counts.cacheReadInputTokens
  cacheCreationInputTokens := counts.cacheCreationInputTokens

variable (first later : TokenCounts)

/-- What the usage of the last chunk should be. -/
structure Billed (usage : ChunkUsage) : Prop where
  prompt : usage.promptTokens = later.inputTokens.getD (first.inputTokens.getD 0) +
    later.cacheReadInputTokens.getD (first.cacheReadInputTokens.getD 0)
  total : usage.totalTokens = usage.promptTokens + usage.completionTokens
  cached : usage.cachedTokens.getD 0 ≤ usage.promptTokens

/-- A later positive count stands in for both sums, and otherwise the first
event does. -/
def Complete : Prop :=
  let input := later.inputTokens.getD 0
  let read := later.cacheReadInputTokens.getD 0
  if input > 0 ∨ read > 0 ∨ later.cacheCreationInputTokens.getD 0 > 0 then
    (later.inputTokens = none → first.inputTokens.getD 0 = 0) ∧
      (later.cacheReadInputTokens = none → first.cacheReadInputTokens.getD 0 = 0) ∧
      (read = 0 → first.cacheReadInputTokens.getD 0 ≤ input)
  else
    (later.inputTokens ≠ none → first.inputTokens.getD 0 = 0) ∧
      (later.cacheReadInputTokens ≠ none → first.cacheReadInputTokens.getD 0 = 0)

theorem startUsage_counts :
    ((startUsage first.usage).map StateUsage.inputTokens).getD 0 =
        first.inputTokens.getD 0 + first.cacheReadInputTokens.getD 0 ∧
      ((startUsage first.usage).map StateUsage.cacheReadInputTokens).getD 0 =
        first.cacheReadInputTokens.getD 0 := by
  unfold startUsage TokenCounts.usage
  dsimp only [Option.getD_none]
  split
  · exact ⟨rfl, rfl⟩
  · show 0 = _ ∧ 0 = _
    omega

theorem billed_iff :
    Billed first later (finalUsage (deltaUsage later.usage (startUsage first.usage))) ↔
      Complete first later := by
  obtain ⟨hinput, hread⟩ := startUsage_counts first
  have hcached : ∀ usage : StateUsage,
      (finalUsage usage).cachedTokens.getD 0 = usage.cacheReadInputTokens := by
    intro usage
    unfold finalUsage
    dsimp only
    split
    · rfl
    · show 0 = _
      omega
  have hiff : Billed first later (finalUsage (deltaUsage later.usage (startUsage first.usage))) ↔
      _ ∧ _ := ⟨fun h => ⟨h.prompt, h.cached⟩, fun h => ⟨h.1, rfl, h.2⟩⟩
  rw [hiff, hcached]
  generalize startUsage first.usage = previous at hinput hread
  unfold finalUsage deltaUsage Complete TokenCounts.usage
  dsimp only
  rw [hinput, hread]
  cases later.inputTokens <;> cases later.cacheReadInputTokens <;>
    dsimp only [Option.getD_none, Option.getD_some] <;> split_ifs <;>
    simp only [reduceCtorEq, ne_eq, not_true_eq_false, not_false_eq_true, forall_const,
      false_imp_iff, true_and, and_true, iff_true] <;>
    omega

/-- The events of the blocks, which report no usage. -/
def Event.Inner : Event → Prop
  | .messageStart .. | .messageDelta .. | .messageStop => False
  | _ => True

def usages (chunks : List Chunk) : List ChunkUsage := chunks.filterMap Chunk.usage

theorem usages_append (xs ys : List Chunk) : usages (xs ++ ys) = usages xs ++ usages ys :=
  List.filterMap_append

theorem usages_thinkCloseChunks (nowMs : Nat) (s : State) :
    usages (thinkCloseChunks opts nowMs s) = [] := by
  unfold thinkCloseChunks
  split <;> rfl

/-- An event of a block leaves the usage alone. -/
theorem inner_quiet (nowMs : Nat) {event : Event} (h : event.Inner) (s : State) :
    usages (claudeToOpenAIResponse opts nowMs event s).1 = [] ∧
      (claudeToOpenAIResponse opts nowMs event s).2.usage = s.usage ∧
      (claudeToOpenAIResponse opts nowMs event s).2.finishReasonSent = s.finishReasonSent := by
  have hreasoning : ∀ s text, usages (reasoningChunk nowMs s text) = [] := by
    intro s text
    unfold reasoningChunk
    split <;> rfl
  have hcontent : ∀ s text, usages (contentChunk nowMs s text) = [] := by
    intro s text
    unfold contentChunk
    split <;> rfl
  cases event with
  | messageStart => cases h
  | blockStart index block => cases block <;> exact ⟨rfl, rfl, rfl⟩
  | blockDelta index delta =>
    cases delta with
    | text text =>
      simp only [claudeToOpenAIResponse, onBlockDelta, onText]
      split
      · exact ⟨rfl, rfl, rfl⟩
      · have hmarker : usages (if s.pendingThinkClose = true then thinkCloseChunks opts nowMs s
            else []) = [] := by
          split
          · exact usages_thinkCloseChunks opts nowMs s
          · rfl
        split <;>
          simp [usages_append, hmarker, hreasoning, hcontent]
    | thinking thinking => exact ⟨hreasoning _ _, rfl, rfl⟩
    | inputJson fragment =>
      simp only [claudeToOpenAIResponse, onBlockDelta, onInputJson]
      split
      · exact ⟨rfl, rfl, rfl⟩
      · split <;> exact ⟨rfl, rfl, rfl⟩
    | other => exact ⟨rfl, rfl, rfl⟩
  | blockStop index =>
    have hflush : usages (flushThink nowMs s).1 = [] ∧ (flushThink nowMs s).2.usage = s.usage ∧
        (flushThink nowMs s).2.finishReasonSent = s.finishReasonSent := by
      unfold flushThink
      split
      · exact ⟨rfl, rfl, rfl⟩
      · split
        · exact ⟨by simp only [usages_append, hreasoning, hcontent, List.append_nil], rfl, rfl⟩
        · exact ⟨rfl, rfl, rfl⟩
    simp only [claudeToOpenAIResponse, onBlockStop]
    split <;> exact hflush
  | messageDelta => cases h
  | messageStop => cases h
  | other => exact ⟨rfl, rfl, rfl⟩

abbrev InnerEvents := { events : List (Nat × Event) // ∀ entry ∈ events, entry.2.Inner }

theorem translate_inner (events : InnerEvents) (rest : List (Nat × Event)) (s : State) :
    ∃ s' : State, s'.usage = s.usage ∧ s'.finishReasonSent = s.finishReasonSent ∧
      usages (translate opts (events.1 ++ rest) s).1 = usages (translate opts rest s').1 := by
  obtain ⟨events, hinner⟩ := events
  induction events generalizing s with
  | nil => exact ⟨s, rfl, rfl, rfl⟩
  | cons entry events ih =>
    obtain ⟨nowMs, event⟩ := entry
    obtain ⟨hhead, htail⟩ := List.forall_mem_cons.mp hinner
    obtain ⟨hquiet, husage, hsent⟩ := inner_quiet opts nowMs hhead s
    obtain ⟨s', husage', hsent', hrest⟩ := ih (claudeToOpenAIResponse opts nowMs event s).2 htail
    refine ⟨s', husage'.trans husage, hsent'.trans hsent, ?_⟩
    show usages ((claudeToOpenAIResponse opts nowMs event s).1 ++ _) = _
    rw [usages_append, hquiet, ← hrest]
    rfl

theorem usages_finish (nowMs stopMs : Nat) (stopReason : Option StopReason)
    (explanation : Option JsString) (usage : ClaudeUsage) (after : InnerEvents) {s : State}
    (hsent : s.finishReasonSent = false) :
    usages (translate opts ((nowMs, .messageDelta stopReason explanation (some usage)) ::
      (after.1 ++ [(stopMs, .messageStop)])) s).1 = [finalUsage (deltaUsage usage s.usage)] := by
  have hrefusal : ∀ reason s, usages (refusalChunks nowMs reason explanation s) = [] := by
    intro reason s
    unfold refusalChunks
    split
    · split
      · split <;> rfl
      · rfl
    · rfl
  cases hdelta : onMessageDelta opts nowMs stopReason explanation (some usage) s with
  | mk chunks s' =>
    have hchunks : s'.usage = some (deltaUsage usage s.usage) ∧
        (s'.finishReasonSent = false ∧ usages chunks = [] ∨
          s'.finishReasonSent = true ∧
            usages chunks = [finalUsage (deltaUsage usage s.usage)]) := by
      unfold onMessageDelta at hdelta
      dsimp only at hdelta
      split at hdelta
      · cases hdelta
        exact ⟨rfl, .inl ⟨hsent, rfl⟩⟩
      · cases hdelta
        refine ⟨rfl, .inr ⟨rfl, ?_⟩⟩
        rw [usages_append, usages_append, hrefusal]
        split
        · rw [usages_thinkCloseChunks]
          rfl
        · rfl
    obtain ⟨husage, hchunks⟩ := hchunks
    obtain ⟨s'', husage', hsent', hafter⟩ := translate_inner opts after [(stopMs, .messageStop)] s'
    rw [translate, claudeToOpenAIResponse, hdelta]
    dsimp only
    rw [usages_append, hafter, translate, claudeToOpenAIResponse, onMessageStop]
    rcases hchunks with ⟨hunsent, hnil⟩ | ⟨hsent, hone⟩
    · rw [hnil, if_neg (by rw [hsent', hunsent]; decide)]
      show (s''.usage.map finalUsage).toList = _
      rw [husage', husage]
      rfl
    · rw [hone, if_pos (hsent'.trans hsent)]
      rfl

/-- The usage of a stream is right exactly when its second report is complete. -/
theorem usages_billed_iff (opts : Options) (id model : Option JsString)
    (stopReason : Option StopReason) (explanation : Option JsString) (before after : InnerEvents)
    (startMs nowMs stopMs : Nat) :
    (∀ usage ∈ usages (translate opts ((startMs, .messageStart id model (some first.usage)) ::
        (before.1 ++ (nowMs, .messageDelta stopReason explanation (some later.usage)) ::
          (after.1 ++ [(stopMs, .messageStop)]))) {}).1, Billed first later usage) ↔
      Complete first later := by
  have hone : usages (translate opts ((startMs, .messageStart id model (some first.usage)) ::
      (before.1 ++ (nowMs, .messageDelta stopReason explanation (some later.usage)) ::
        (after.1 ++ [(stopMs, .messageStop)]))) {}).1 =
      [finalUsage (deltaUsage later.usage (startUsage first.usage))] := by
    obtain ⟨s, husage, hsent, hbefore⟩ := translate_inner opts before
      ((nowMs, .messageDelta stopReason explanation (some later.usage)) ::
        (after.1 ++ [(stopMs, .messageStop)]))
      (onMessageStart opts startMs id model (some first.usage) {}).2
    have hstart : s.usage = startUsage first.usage := by
      rw [husage]
      show (startUsage first.usage).orElse _ = _
      cases startUsage first.usage <;> rfl
    rw [← hstart]
    exact hbefore.trans
      (usages_finish opts nowMs stopMs stopReason explanation later.usage after hsent)
  rw [hone, List.forall_mem_singleton]
  exact billed_iff first later

/-- The input tokens alone are reported again, below the cached ones. -/
theorem not_billed_partial :
    ¬ ∀ usage ∈ usages (translate { suppressThinkClose := true, parseTags := fun _ => false }
      [(0, .messageStart none none
          (some { inputTokens := some 100, cacheReadInputTokens := some 50 })),
        (1, .messageDelta (some .endTurn) none (some { inputTokens := some 10 })),
        (2, .messageStop)] {}).1,
      Billed ⟨some 100, some 50, none, none⟩ ⟨some 10, none, none, none⟩ usage := by
  intro h
  exact absurd (h _ (List.mem_singleton_self _)).cached (by decide)

end RedRouter.Response.ClaudeToOpenai
