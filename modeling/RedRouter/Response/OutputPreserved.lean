import RedRouter.Response.OutputParts

/-!
# OpenAI streams keep their output

The text, the thinking and the arguments that a stream shows are those of its
chunks, provided that its steps are faithful.

The finish choice that was held back is read a second time, so a step is not
faithful when that choice has something to say: it is said twice.  Arguments
that come before the id of their call are lost, and so is a suffix that is
still kept back when the stream ends after its finish.
-/

namespace RedRouter.Response.OpenaiToClaude

open List Blocks Chat MarkdownBoundary XmlInvoke DsmlToolCalls PreambleStripper ToolCallShim Bool

variable {opts : Options} {content reasoning : JsString} {arguments : Nat → JsString}
  {before : List ClaudeEvent} {a : Acc}

/-! ## The finish -/

/-- The part of the state that `Kept` is about. -/
def keptView (s : State) :=
  ((s.markdownBuffer, s.nextBlockIndex, s.toolCalls),
    (s.dsmlHoldback, s.xmlInvokeBuffer, s.strippers, s.pendingXmlToolCalls),
    s.textBlockStarted, s.textBlockClosed)

variable {s : State}

theorem Kept.of_view (h : Kept opts content reasoning arguments before a)
    (events : List ClaudeEvent) (hview : keptView s = keptView a.state) (htext : textOf events = [])
    (hthinking : thinkingOf events = []) (hjson : ∀ index, inputJsonOf index events = []) :
    Kept opts content reasoning arguments before { state := s, results := a.results ++ events } := by
  simp only [keptView, Prod.mk.injEq] at hview
  obtain ⟨⟨hbuffer, hnext, htools⟩, ⟨hholdback, hxml, hstrippers, hcalls⟩, hstarted, hclosed⟩ :=
    hview
  have hsame : ∀ index, inputJsonOf index (before ++ (a.results ++ events)) =
      inputJsonOf index (before ++ a.results) := by
    intro index
    rw [← append_assoc, inputJsonOf_append, hjson, append_nil]
  refine ⟨?_, ?_, ?_, ?_, ?_, ?_, ?_, ?_, ?_⟩
  · rw [← append_assoc, textOf_append, htext, append_nil, hbuffer]
    exact h.text
  · rw [← append_assoc, thinkingOf_append, hthinking, append_nil]
    exact h.thinking
  · intro idx info hget
    rw [htools] at hget
    have hcall := h.calls idx info hget
    refine ⟨hcall.argBuffer, ?_, hcall.shimmed, hnext ▸ hcall.bound⟩
    rw [hsame]
    exact hcall.inputJson
  · rw [htools]
    exact h.keys
  · rw [htools]
    exact h.distinct
  · rw [htools]
    exact h.unknown
  · intro index hindex
    rw [hsame]
    exact h.fresh index (hnext ▸ hindex)
  · exact ⟨hholdback.trans h.plain.dsmlHoldback, hxml.trans h.plain.xmlInvokeBuffer,
      hstrippers.trans h.plain.strippers, hcalls.trans h.plain.pendingXmlToolCalls⟩
  · intro hopen
    rw [hclosed]
    exact h.textOpen (hstarted ▸ hopen)

/-- The last events of a call show arguments only when the call is shimmed. -/
theorem finishToolCall_kept (opts : Options) (info : ToolInfo) :
    (finishToolCall opts info).2 = { info with startEmitted := true } ∧
      textOf (finishToolCall opts info).1 = [] ∧ thinkingOf (finishToolCall opts info).1 = [] ∧
      ∀ index, info.shimmed = false ∨ index ≠ info.blockIndex →
        inputJsonOf index (finishToolCall opts info).1 = [] := by
  unfold finishToolCall
  refine ⟨rfl, ?_, ?_, ?_⟩
  · split <;> split <;> rfl
  · split <;> split <;> rfl
  · intro index hindex
    cases hshimmed : info.shimmed with
    | false => split <;> rfl
    | true =>
      have hne : info.blockIndex ≠ index := by
        rcases hindex with hfalse | hne
        · rw [hshimmed] at hfalse
          cases hfalse
        · exact hne.symm
      split <;> simp [inputJsonOf, startToolBlock, hne]

theorem silent_flatMap {α : Type} {f : List ClaudeEvent → JsString} (hnil : f [] = [])
    (happend : ∀ xs ys, f (xs ++ ys) = f xs ++ f ys) {g : α → List ClaudeEvent} {l : List α}
    (h : ∀ e ∈ l, f (g e) = []) : f (l.flatMap g) = [] := by
  induction l with
  | nil => exact hnil
  | cons e l ih =>
    rw [flatMap_cons, happend, h e mem_cons_self, nil_append]
    exact ih fun e he => h e (mem_cons_of_mem _ he)

theorem kept_finishToolCalls (h : Kept opts content reasoning arguments before a) :
    Kept opts content reasoning arguments before (finishToolCalls opts a) := by
  have hget : ∀ idx info, JsMap.get idx (finishToolCalls opts a).state.toolCalls = some info →
      ∃ old, JsMap.get idx a.state.toolCalls = some old ∧
        info = { old with startEmitted := true } := by
    intro idx info hinfo
    have hmap : JsMap.get idx (finishToolCalls opts a).state.toolCalls =
        (JsMap.get idx a.state.toolCalls).map fun info => (finishToolCall opts info).2 :=
      JsMap.get_map (fun info => (finishToolCall opts info).2) idx a.state.toolCalls
    rw [hmap, Option.map_eq_some_iff] at hinfo
    obtain ⟨old, hold, rfl⟩ := hinfo
    exact ⟨old, hold, (finishToolCall_kept opts old).1⟩
  have hjson : ∀ index, (∀ entry ∈ a.state.toolCalls,
        entry.2.shimmed = false ∨ index ≠ entry.2.blockIndex) →
      inputJsonOf index (before ++ (finishToolCalls opts a).results) =
        inputJsonOf index (before ++ a.results) := by
    intro index hindex
    unfold finishToolCalls
    rw [← append_assoc, inputJsonOf_append]
    have hsilent := @silent_flatMap _ (inputJsonOf index) rfl (inputJsonOf_append index)
      (fun entry : Nat × ToolInfo => (finishToolCall opts entry.2).1) a.state.toolCalls
      fun entry hentry => (finishToolCall_kept opts entry.2).2.2.2 index (hindex entry hentry)
    rw [hsilent, append_nil]
  refine ⟨?_, ?_, ?_, ?_, ?_, ?_, ?_, ?_, h.textOpen⟩
  · rw [← h.text]
    unfold finishToolCalls
    rw [← append_assoc, textOf_append]
    have hsilent := @silent_flatMap _ textOf rfl textOf_append
      (fun entry : Nat × ToolInfo => (finishToolCall opts entry.2).1) a.state.toolCalls
      fun entry _ => (finishToolCall_kept opts entry.2).2.1
    rw [hsilent, append_nil]
  · rw [← h.thinking]
    unfold finishToolCalls
    rw [← append_assoc, thinkingOf_append]
    have hsilent := @silent_flatMap _ thinkingOf rfl thinkingOf_append
      (fun entry : Nat × ToolInfo => (finishToolCall opts entry.2).1) a.state.toolCalls
      fun entry _ => (finishToolCall_kept opts entry.2).2.2.1
    rw [hsilent, append_nil]
  · intro idx info hinfo
    obtain ⟨old, hold, rfl⟩ := hget idx info hinfo
    have hcall := h.calls idx old hold
    refine { hcall with inputJson := ?_ }
    intro hfalse
    rw [hjson]
    · exact hcall.inputJson hfalse
    · intro entry hentry
      have hentry' := JsMap.get_of_mem h.keys hentry
      by_cases hidx : entry.1 = idx
      · rw [hidx, hold] at hentry'
        rw [← Option.some.inj hentry']
        exact .inl hfalse
      · right
        intro hsame
        exact hidx (h.distinct entry.1 idx entry.2 old hentry' hold hsame.symm)
  · have hkeys : JsMap.keys (finishToolCalls opts a).state.toolCalls =
        JsMap.keys a.state.toolCalls := by
      simp [finishToolCalls, JsMap.keys]
    rw [hkeys]
    exact h.keys
  · intro i j info info' hinfo hinfo' hsame
    obtain ⟨old, hold, rfl⟩ := hget i info hinfo
    obtain ⟨old', hold', rfl⟩ := hget j info' hinfo'
    exact h.distinct i j old old' hold hold' hsame
  · intro idx hnone
    apply h.unknown idx
    have hmap : JsMap.get idx (finishToolCalls opts a).state.toolCalls =
        (JsMap.get idx a.state.toolCalls).map fun info => (finishToolCall opts info).2 :=
      JsMap.get_map (fun info => (finishToolCall opts info).2) idx a.state.toolCalls
    rw [hmap, Option.map_eq_none_iff] at hnone
    exact hnone
  · intro index hindex
    rw [hjson]
    · exact h.fresh index hindex
    · intro entry hentry
      have hbound := (h.calls entry.1 entry.2 (JsMap.get_of_mem h.keys hentry)).bound
      have hindex : a.state.nextBlockIndex ≤ index := hindex
      right
      omega
  · exact { h.plain with }

theorem emitPreamble_plain (h : a.state.strippers = {}) : emitPreamble a = a := by
  unfold emitPreamble
  rw [h]
  show { a with state := { a.state with strippers := {} } } = a
  rw [← h]

theorem emitReasoningAsText_plain (h : opts.requestedThinking ≠ some false) :
    emitReasoningAsText opts a = a := by
  unfold emitReasoningAsText
  rw [if_neg (by simp [h])]

/-- The finish says nothing new; the suffix that was kept back comes out. -/
theorem kept_finishMessage (hopts : PlainOptions opts) (finishReason : JsString)
    (h : Kept opts content reasoning arguments before a) :
    ∃ b, finishMessage opts finishReason a = some b ∧
      Kept opts content reasoning arguments before b ∧ b.state.markdownBuffer = [] ∧
      b.state.claudeFinishEmitted = true ∧
      b.state.messageStartSent = a.state.messageStartSent ∧
      b.state.pendingClaudeFinishChoice = a.state.pendingClaudeFinishChoice := by
  have hflag : Kept opts content reasoning arguments before
      { a with state := { a.state with claudeFinishEmitted := true } } := by
    have hview := h.of_view (s := { a.state with claudeFinishEmitted := true }) [] rfl rfl rfl
      fun _ => rfl
    rw [append_nil] at hview
    exact hview
  unfold finishMessage
  generalize hstate : { a with state := { a.state with claudeFinishEmitted := true } } = b
    at hflag ⊢
  have hemitted : b.state.claudeFinishEmitted = true ∧
      b.state.messageStartSent = a.state.messageStartSent ∧
      b.state.pendingClaudeFinishChoice = a.state.pendingClaudeFinishChoice := by
    rw [← hstate]
    exact ⟨rfl, rfl, rfl⟩
  have hthinking := speaks_stopThinkingBlock b
  have hstopped := hflag.speaks hthinking
  have hclosed := hstopped.speaks (speaks_stopTextBlock hstopped.textOpen)
  simp only [append_nil] at hclosed
  have hview := finishView_of_context ((contextView_stopTextBlock (stopThinkingBlock b)).trans
    (contextView_stopThinkingBlock b))
  have hbuffer := markdownBuffer_stopTextBlock (stopThinkingBlock b)
  dsimp only
  rw [emitPreamble_plain hstopped.plain.strippers, emitReasoningAsText_plain hopts.thinking]
  generalize stopTextBlock (stopThinkingBlock b) = c at hclosed hview hbuffer ⊢
  simp only [finishView, Prod.mk.injEq] at hview
  have htools := kept_finishToolCalls hclosed
  have hcalls : emitTextToolCalls opts (finishToolCalls opts c).state.pendingXmlToolCalls
      (finishToolCalls opts c) = some (finishToolCalls opts c) := by
    rw [htools.plain.pendingXmlToolCalls]
    rfl
  refine ⟨endMessage opts finishReason (finishToolCalls opts c), by simp [hcalls], ?_, hbuffer,
    hview.2.2.1.trans hemitted.1, hview.1.trans hemitted.2.1, hview.2.2.2.trans hemitted.2.2⟩
  unfold endMessage Acc.push
  dsimp only
  rw [append_assoc]
  exact htools.of_view _ rfl rfl rfl fun _ => rfl

/-! ## Faithful steps -/

/-- Whether a choice that is read again says nothing new: it has no reasoning and no
content, and its arguments are those that the call has already. -/
def replayIsNeutral (codec : JsonCodec) (choice : Choice) (s : State) : Bool :=
  (reasoningOf choice.delta).isEmpty && (presentId choice.delta.content).isNone &&
    choice.delta.toolCalls.all fun fragment =>
      match fragment.arguments.filter Json.truthy,
        JsMap.get (fragment.index.getD 0) s.toolCalls with
      | none, _ => true
      | some value, some info =>
          appendToolCallArgumentDelta codec info.argBuffer value == info.argBuffer
      | some _, none => false

/-- What a step has to meet, in the state before it.  The suffix that was kept back
makes no tool call with the content, and arguments come after the id of their
call.  A choice that is read again says nothing new.  At a flush after the
finish nothing is kept back. -/
def faithfulStep (opts : Options) (_ : List ClaudeEvent) (input : Input) (s : State) : Bool :=
  (match input.choice, s.pendingClaudeFinishChoice with
    | some choice, _ =>
        (firstMarker ((if showsReasoning opts choice.delta then [] else s.markdownBuffer) ++
          choice.delta.content.getD [])).isNone &&
          fragmentsKnown (fun i => JsMap.has i s.toolCalls) choice.delta.toolCalls
    | none, some choice => replayIsNeutral opts.codec choice s
    | none, none => true) &&
    (input.chunk.isSome || !s.claudeFinishEmitted || s.markdownBuffer.isEmpty)

/-- The delta of a chunk; without a choice it is empty. -/
def Input.delta (input : Input) : IncomingDelta := (input.choice.map Choice.delta).getD {}

def deltaContent (inputs : List Input) : JsString :=
  inputs.flatMap fun input => input.delta.content.getD []

def deltaReasoning (inputs : List Input) : JsString :=
  inputs.flatMap fun input => reasoningOf input.delta

/-- The arguments of the tool calls of some chunks, by their index. -/
def deltaArguments (codec : JsonCodec) (inputs : List Input) : Nat → JsString :=
  (inputs.flatMap fun input => input.delta.toolCalls).foldl (addFragment codec) fun _ => []

/-! ## Steps -/

theorem markdownBuffer_toolCalls (fragments : List ToolCallFragment)
    (h : a.state.markdownBuffer = []) :
    (fragments.foldl (onToolCall opts) a).state.markdownBuffer = [] := by
  induction fragments generalizing a with
  | nil => exact h
  | cons fragment fragments ih =>
    apply ih
    have hregister : (registerToolCall opts fragment a).state.markdownBuffer = [] := by
      unfold registerToolCall
      dsimp only
      split
      · exact markdownBuffer_stopTextBlock _
      · exact h
    unfold onToolCall
    dsimp only
    split <;> exact hregister

theorem kept_delta (hopts : PlainOptions opts) (input : Input) {delta : IncomingDelta}
    (hdelta : PlainDelta delta) (h : Kept opts content reasoning arguments before a)
    (hmarker : firstMarker ((if showsReasoning opts delta then [] else a.state.markdownBuffer) ++
      delta.content.getD []) = none)
    (hknown : fragmentsKnown (fun i => JsMap.has i a.state.toolCalls) delta.toolCalls = true) :
    ∃ b, onContent opts input delta (onReasoning opts delta a) = some b ∧
      Kept opts (content ++ delta.content.getD []) (reasoning ++ reasoningOf delta)
        (delta.toolCalls.foldl (addFragment opts.codec) arguments) before
        (delta.toolCalls.foldl (onToolCall opts) b) ∧
      finishView (delta.toolCalls.foldl (onToolCall opts) b).state = finishView a.state := by
  have hreasoning := h.speaks (speaks_onReasoning hopts.thinking hdelta.reasoning h.textOpen)
  have hbuffer : (onReasoning opts delta a).state.markdownBuffer =
      if showsReasoning opts delta then [] else a.state.markdownBuffer :=
    congrArg Buffers.markdownBuffer (buffers_onReasoning opts delta a)
  rw [← hbuffer] at hmarker
  obtain ⟨b, hcontent, hspeaks⟩ := speaks_onContent hopts input hdelta hreasoning.plain hmarker
  have hb := hreasoning.speaks hspeaks
  simp only [append_nil] at hb
  have hcontext := hspeaks.context.trans (contextView_onReasoning opts delta a)
  have htools : b.state.toolCalls = a.state.toolCalls := congrArg (fun view => view.2.1) hcontext
  rw [← htools] at hknown
  refine ⟨b, hcontent, kept_toolCalls delta.toolCalls hb (fun _ hi => hi) hknown, ?_⟩
  exact (finishView_toolCalls opts _ b).trans (finishView_of_context hcontext)

/-- The state between the chunks. -/
structure Live (opts : Options) (content reasoning : JsString) (arguments : Nat → JsString)
    (events : List ClaudeEvent) (s : State) : Prop where
  kept : Kept opts content reasoning arguments events { state := s }
  started : s.messageStartSent = true ∨ events = [] ∧ ∃ usage, s = { usage := usage }
  held : ∀ choice, s.pendingClaudeFinishChoice = some choice →
    (presentId choice.finishReason).isSome = true

/-- What the finish reason of a choice does to the state. -/
structure Finished (choice : Choice) (isReplay : Bool) (a b : Acc) : Prop where
  sent : b.state.messageStartSent = a.state.messageStartSent
  pending : b.state.pendingClaudeFinishChoice = a.state.pendingClaudeFinishChoice ∨
    b.state.pendingClaudeFinishChoice = some choice ∧ (presentId choice.finishReason).isSome = true
  stays : a.state.claudeFinishEmitted = true → b = a
  emits : a.state.claudeFinishEmitted = false → b.state.claudeFinishEmitted = true →
    b.state.markdownBuffer = []
  seen : (presentId choice.finishReason).isSome = true ∨ FinishSeen a.state → FinishSeen b.state
  replayed : (presentId choice.finishReason).isSome = true → isReplay = true →
    b.state.claudeFinishEmitted = true

theorem kept_onFinish (hopts : PlainOptions opts) (choice : Choice) (isReplay hasUsage : Bool)
    (h : Kept opts content reasoning arguments before a) :
    ∃ b, onFinish opts choice isReplay hasUsage a = some b ∧
      Kept opts content reasoning arguments before b ∧ Finished choice isReplay a b := by
  unfold onFinish
  cases hreason : presentId choice.finishReason with
  | none =>
    refine ⟨a, rfl, h, rfl, .inl rfl, fun _ => rfl, ?_, ?_, ?_⟩
    · intro hfalse htrue
      rw [hfalse] at htrue
      cases htrue
    · rw [hreason]
      rintro (hsome | hseen)
      · cases hsome
      · exact hseen
    · rw [hreason]
      intro hsome
      cases hsome
  | some reason =>
    dsimp only
    by_cases hemitted : a.state.claudeFinishEmitted = true
    · rw [if_pos hemitted]
      refine ⟨a, rfl, h, rfl, .inl rfl, fun _ => rfl, ?_, fun _ => .inl hemitted,
        fun _ _ => hemitted⟩
      intro hfalse
      rw [hemitted] at hfalse
      cases hfalse
    · rw [if_neg hemitted]
      split
      · rename_i hdefer
        simp only [and_eq_true] at hdefer
        have hkept := h.of_view (s := { a.state with pendingClaudeFinishChoice := some choice }) []
          rfl rfl rfl fun _ => rfl
        rw [append_nil] at hkept
        refine ⟨_, rfl, hkept, rfl, .inr ⟨rfl, by rw [hreason]; rfl⟩,
          fun htrue => absurd htrue hemitted, fun _ htrue => absurd htrue hemitted,
          fun _ => .inr rfl, ?_⟩
        intro _ hreplay
        rw [hreplay] at hdefer
        cases hdefer.2
      · obtain ⟨b, hfinish, hkept, hbuffer, hdone, hsent, hpending⟩ :=
          kept_finishMessage hopts reason h
        exact ⟨b, hfinish, hkept, hsent, .inl hpending, fun htrue => absurd htrue hemitted,
          fun _ _ => hbuffer, fun _ => .inl hdone, fun _ _ => hdone⟩

variable {input : Input}

/-- The choice of a chunk starts the message when it is the first one. -/
theorem kept_startMessage (h : Kept opts content reasoning arguments before { state := s })
    (hstarted : s.messageStartSent = true ∨
      input.chunk.isSome = true ∧ ∃ usage, s = { usage := usage }) :
    ∃ b, startMessage input s = some b ∧ Kept opts content reasoning arguments before b ∧
      b.state.messageStartSent = true ∧ b.state.markdownBuffer = s.markdownBuffer ∧
      b.state.toolCalls = s.toolCalls ∧
      b.state.pendingClaudeFinishChoice = s.pendingClaudeFinishChoice ∧
      b.state.claudeFinishEmitted = s.claudeFinishEmitted := by
  unfold startMessage
  rcases hstarted with hsent | ⟨hchunk, usage, rfl⟩
  · rw [if_pos hsent]
    exact ⟨_, rfl, h, hsent, rfl, rfl, rfl, rfl⟩
  · obtain ⟨chunk, hchunk⟩ := Option.isSome_iff_exists.mp hchunk
    rw [hchunk]
    refine ⟨_, rfl, ?_, rfl, rfl, rfl, rfl, rfl⟩
    exact h.of_view [.messageStart _ _] rfl rfl rfl fun _ => rfl

theorem Kept.settle (h : Kept opts content reasoning arguments before a) :
    Kept opts content reasoning arguments (before ++ a.results) { state := a.state } := by
  have hsame : (before ++ a.results) ++ [] = before ++ a.results := append_nil _
  refine ⟨?_, ?_, ?_, h.keys, h.distinct, h.unknown, ?_, h.plain, h.textOpen⟩
  · rw [hsame]
    exact h.text
  · rw [hsame]
    exact h.thinking
  · intro idx info hget
    rw [hsame]
    exact h.calls idx info hget
  · intro index hindex
    rw [hsame]
    exact h.fresh index hindex

theorem live_choice (hopts : PlainOptions opts) (input : Input) {choice : Choice} (hasUsage : Bool)
    (hchunk : input.chunk.isSome = true) (hplain : PlainDelta choice.delta)
    (h : Live opts content reasoning arguments before s)
    (hmarker : firstMarker ((if showsReasoning opts choice.delta then [] else s.markdownBuffer) ++
      choice.delta.content.getD []) = none)
    (hknown : fragmentsKnown (fun i => JsMap.has i s.toolCalls) choice.delta.toolCalls = true) :
    ∃ new s', onChoice opts input choice false hasUsage s = some (new, s') ∧
      Live opts (content ++ choice.delta.content.getD []) (reasoning ++ reasoningOf choice.delta)
        (choice.delta.toolCalls.foldl (addFragment opts.codec) arguments) (before ++ new) s' ∧
      ((presentId choice.finishReason).isSome = true ∨ FinishSeen s → FinishSeen s') := by
  have hstarted : s.messageStartSent = true ∨
      input.chunk.isSome = true ∧ ∃ usage, s = { usage := usage } := by
    rcases h.started with hsent | ⟨-, hidle⟩
    · exact .inl hsent
    · exact .inr ⟨hchunk, hidle⟩
  obtain ⟨a, hstart, ha, hsent, hbuffer, htools, hpending, hemitted⟩ :=
    kept_startMessage h.kept hstarted
  rw [← hbuffer] at hmarker
  rw [← htools] at hknown
  obtain ⟨b, hcontent, hb, hview⟩ := kept_delta hopts input hplain ha hmarker hknown
  obtain ⟨c, hfinish, hc, hfinished⟩ := kept_onFinish hopts choice false hasUsage hb
  simp only [finishView, Prod.mk.injEq] at hview
  obtain ⟨hsent', -, hemitted', hpending'⟩ := hview
  refine ⟨c.results, c.state, ?_, ⟨hc.settle, .inl ?_, ?_⟩, ?_⟩
  · unfold onChoice
    rw [hstart]
    show (onContent opts input choice.delta _ >>= _) = _
    rw [hcontent]
    show (onFinish opts choice false hasUsage _ >>= _) = _
    rw [hfinish]
    rfl
  · rw [hfinished.sent, hsent']
    exact hsent
  · intro held hheld
    rcases hfinished.pending with hsame | ⟨hsome, hreason⟩
    · rw [hsame, hpending', hpending] at hheld
      exact h.held held hheld
    · rw [hsome] at hheld
      rw [← Option.some.inj hheld]
      exact hreason
  · rintro (hreason | hseen)
    · exact hfinished.seen (.inl hreason)
    · apply hfinished.seen
      right
      unfold FinishSeen at hseen ⊢
      rw [hemitted', hpending', hemitted, hpending]
      exact hseen

theorem neutral_of_replay {choice : Choice} {fragment : ToolCallFragment}
    (h : Kept opts content reasoning arguments before { state := s })
    (hneutral : replayIsNeutral opts.codec choice s = true)
    (hmem : fragment ∈ choice.delta.toolCalls)
    (hsome : (fragment.arguments.filter Json.truthy).isSome = true) :
    (JsMap.get (fragment.index.getD 0) s.toolCalls).isSome = true ∧
      applyFragment opts.codec fragment (arguments (fragment.index.getD 0)) =
        arguments (fragment.index.getD 0) := by
  unfold replayIsNeutral at hneutral
  simp only [and_eq_true, all_eq_true] at hneutral
  have hfragment := hneutral.2 fragment hmem
  obtain ⟨value, hvalue⟩ := Option.isSome_iff_exists.mp hsome
  unfold applyFragment
  rw [hvalue] at hfragment ⊢
  cases hinfo : JsMap.get (fragment.index.getD 0) s.toolCalls with
  | none =>
    rw [hinfo] at hfragment
    cases hfragment
  | some info =>
    rw [hinfo] at hfragment
    rw [← (h.calls _ info hinfo).argBuffer]
    exact ⟨rfl, beq_iff_eq.mp hfragment⟩

/-- A choice that was held back and says nothing new ends the message. -/
theorem live_replay (hopts : PlainOptions opts) (input : Input) {choice : Choice} (hasUsage : Bool)
    (h : Live opts content reasoning arguments before s)
    (hpending : s.pendingClaudeFinishChoice = none)
    (hreason : (presentId choice.finishReason).isSome = true) (hsent : s.messageStartSent = true)
    (hneutral : replayIsNeutral opts.codec choice s = true) :
    ∃ new s', onChoice opts input choice true hasUsage s = some (new, s') ∧
      Live opts content reasoning arguments (before ++ new) s' ∧
      s'.claudeFinishEmitted = true ∧
      (s.claudeFinishEmitted = true → s.markdownBuffer = [] → s'.markdownBuffer = []) ∧
      (s.claudeFinishEmitted = false → s'.markdownBuffer = []) := by
  have hreplay := hneutral
  unfold replayIsNeutral at hreplay
  simp only [and_eq_true] at hreplay
  obtain ⟨⟨hreasoning, hcontent⟩, -⟩ := hreplay
  have hstart : startMessage input s = some { state := s } := by
    rw [startMessage, if_pos hsent]
  have hdelta : onContent opts input choice.delta (onReasoning opts choice.delta { state := s }) =
      some { state := s } := by
    unfold onReasoning
    dsimp only
    rw [hreasoning, Bool.true_or, if_pos rfl]
    unfold onContent
    rw [Option.isNone_iff_eq_none.mp hcontent]
  have htools := kept_replayedToolCalls choice.delta.toolCalls h.kept
    fun fragment hmem hsome => neutral_of_replay h.kept hneutral hmem hsome
  have hview := finishView_toolCalls opts choice.delta.toolCalls { state := s }
  have hbuffer := @markdownBuffer_toolCalls opts { state := s } choice.delta.toolCalls
  obtain ⟨b, hfinish, hb, hfinished⟩ := kept_onFinish hopts choice true hasUsage htools
  simp only [finishView, Prod.mk.injEq] at hview
  obtain ⟨hsent', -, hemitted', hpending'⟩ := hview
  refine ⟨b.results, b.state, ?_, ⟨hb.settle, .inl ?_, ?_⟩, hfinished.replayed hreason rfl, ?_, ?_⟩
  · unfold onChoice
    rw [hstart]
    show (onContent opts input choice.delta _ >>= _) = _
    rw [hdelta]
    show (onFinish opts choice true hasUsage _ >>= _) = _
    rw [hfinish]
    rfl
  · rw [hfinished.sent, hsent']
    exact hsent
  · intro held hheld
    rcases hfinished.pending with hsame | ⟨hsome, hreason⟩
    · rw [hsame, hpending', hpending] at hheld
      cases hheld
    · rw [hsome] at hheld
      rw [← Option.some.inj hheld]
      exact hreason
  · intro hemitted hempty
    rw [hfinished.stays (hemitted'.trans hemitted)]
    exact hbuffer hempty
  · intro hunfinished
    exact hfinished.emits (hemitted'.trans hunfinished) (hfinished.replayed hreason rfl)

/-- What a faithful step leaves behind. -/
structure Stepped (opts : Options) (content reasoning : JsString) (arguments : Nat → JsString)
    (before : List ClaudeEvent) (input : Input) (s : State) (new : List ClaudeEvent) (s' : State) :
    Prop where
  live : Live opts (content ++ input.delta.content.getD []) (reasoning ++ reasoningOf input.delta)
    (input.delta.toolCalls.foldl (addFragment opts.codec) arguments) (before ++ new) s'
  seen : FinishSeen s ∨ input.finishes → FinishSeen s'
  flushed : input.chunk = none → FinishSeen s → s'.markdownBuffer = []

theorem Live.of_view {s' : State} (h : Live opts content reasoning arguments before s)
    (hview : keptView s' = keptView s) (hsent : s'.messageStartSent = s.messageStartSent)
    (hidle : ∀ usage, s = { usage := usage } → ∃ usage, s' = { usage := usage })
    (hheld : ∀ choice, s'.pendingClaudeFinishChoice = some choice →
      s.pendingClaudeFinishChoice = some choice) :
    Live opts content reasoning arguments before s' where
  kept := by
    have hkept := h.kept.of_view [] hview rfl rfl fun _ => rfl
    exact hkept
  started := by
    rcases h.started with hstarted | ⟨hnil, usage, hs⟩
    · exact .inl (hsent.trans hstarted)
    · exact .inr ⟨hnil, hidle usage hs⟩
  held := fun choice hchoice => h.held choice (hheld choice hchoice)

theorem delta_of_no_choice (h : input.choice = none) : input.delta = ({} : IncomingDelta) := by
  unfold Input.delta
  rw [h]
  rfl

theorem not_finishes_of_no_choice (h : input.choice = none) : ¬ input.finishes := by
  rintro ⟨choice, hsome, -⟩
  rw [h] at hsome
  cases hsome

theorem live_step (hopts : PlainOptions opts) (hplain : PlainDelta input.delta)
    (h : Live opts content reasoning arguments before s)
    (hfaithful : faithfulStep opts before input s = true) :
    ∃ new s', openaiToClaudeResponse opts input s = some (new, s') ∧
      Stepped opts content reasoning arguments before input s new s' := by
  obtain ⟨usage, htracked⟩ := tracked_eq input s
  have htrack : Live opts content reasoning arguments before { s with usage := usage } := by
    refine h.of_view rfl rfl ?_ fun _ hchoice => hchoice
    rintro _ rfl
    exact ⟨usage, rfl⟩
  unfold faithfulStep at hfaithful
  rw [and_eq_true] at hfaithful
  obtain ⟨hfaithful, hflush⟩ := hfaithful
  unfold openaiToClaudeResponse
  rw [htracked]
  cases hchoice : input.choice with
  | some choice =>
    have hbind : input.chunk.bind IncomingChunk.choice = some choice := hchoice
    have hchunk : input.chunk.isSome = true := by
      cases hnone : input.chunk with
      | none =>
        rw [hnone] at hbind
        cases hbind
      | some chunk => rfl
    have hdelta : input.delta = choice.delta := by
      unfold Input.delta
      rw [hchoice]
      rfl
    rw [hchoice] at hfaithful
    simp only [and_eq_true, Option.isNone_iff_eq_none] at hfaithful
    rw [hdelta] at hplain
    rw [hbind]
    obtain ⟨new, s', hstep, hlive, hseen⟩ := live_choice hopts input
      (input.chunk.bind IncomingChunk.usage).isSome hchunk hplain htrack hfaithful.1 hfaithful.2
    refine ⟨new, s', hstep, ?_, ?_, ?_⟩
    · rw [hdelta]
      exact hlive
    · rintro (hs | ⟨c, hc, hfinish⟩)
      · exact hseen (.inr hs)
      · rw [hchoice] at hc
        rw [← Option.some.inj hc] at hfinish
        exact hseen (.inl hfinish)
    · intro hnone
      rw [hnone] at hchunk
      cases hchunk
  | none =>
    have hbind : input.chunk.bind IncomingChunk.choice = none := hchoice
    have hsilent : input.delta = ({} : IncomingDelta) := delta_of_no_choice hchoice
    have hflushed : input.chunk = none → s.claudeFinishEmitted = true → s.markdownBuffer = [] := by
      intro hnone hemitted
      simpa [hnone, hemitted] using hflush
    rw [hchoice] at hfaithful
    rw [hbind]
    cases hpending : s.pendingClaudeFinishChoice with
    | none =>
      refine ⟨[], _, rfl, ?_, ?_, ?_⟩
      · rw [hsilent, append_nil]
        show Live opts (content ++ []) (reasoning ++ []) arguments before _
        rw [append_nil, append_nil, ← hpending]
        exact htrack
      · rintro (hs | hfinishes)
        · unfold FinishSeen at hs ⊢
          rw [hpending] at hs
          exact hs
        · exact absurd hfinishes (not_finishes_of_no_choice hchoice)
      · rintro hnone (hemitted | hsome)
        · exact hflushed hnone hemitted
        · rw [hpending] at hsome
          cases hsome
    | some choice =>
      rw [hpending] at hfaithful
      have hheld : Live opts content reasoning arguments before
          { s with usage := usage, pendingClaudeFinishChoice := none } := by
        refine h.of_view rfl rfl ?_ ?_
        · rintro _ rfl
          exact ⟨usage, rfl⟩
        · intro _ hnone
          cases hnone
      have hsent : s.messageStartSent = true := by
        rcases h.started with hsent | ⟨-, _, rfl⟩
        · exact hsent
        · cases hpending
      obtain ⟨new, s', hstep, hlive, hemitted, hstays, hends⟩ := live_replay hopts input
        (input.chunk.bind IncomingChunk.usage).isSome hheld rfl (h.held choice hpending) hsent
        hfaithful
      refine ⟨new, s', hstep, ?_, fun _ => .inl hemitted, ?_⟩
      · rw [hsilent]
        show Live opts (content ++ []) (reasoning ++ []) arguments _ _
        rw [append_nil, append_nil]
        exact hlive
      · intro hnone _
        cases hfinish : s.claudeFinishEmitted with
        | true => exact hstays hfinish (hflushed hnone hfinish)
        | false => exact hends hfinish

/-! ## Runs -/

/-- A run of faithful steps that ends with a flush after a finish keeps what its
chunks say, and nothing is kept back. -/
theorem live_run (hopts : PlainOptions opts) {flush : Input} (hflush : flush.chunk = none)
    (inputs : List Input) (hplain : ∀ input ∈ inputs, PlainDelta input.delta)
    (h : Live opts content reasoning arguments before s)
    (hfinishes : FinishSeen s ∨ ∃ input ∈ inputs, input.finishes)
    (hfaithful : along opts (faithfulStep opts) before (inputs ++ [flush]) s = true) :
    ∃ events s', translate opts (inputs ++ [flush]) s = some (events, s') ∧
      Live opts (content ++ deltaContent inputs) (reasoning ++ deltaReasoning inputs)
        ((inputs.flatMap fun input => input.delta.toolCalls).foldl (addFragment opts.codec) arguments)
        (before ++ events) s' ∧ s'.markdownBuffer = [] := by
  induction inputs generalizing content reasoning arguments before s with
  | nil =>
    have hchoice : flush.choice = none := by
      unfold Input.choice
      rw [hflush]
      rfl
    have hsilent : flush.delta = ({} : IncomingDelta) := delta_of_no_choice hchoice
    have hseen : FinishSeen s := by
      rcases hfinishes with hseen | ⟨_, hmem, -⟩
      · exact hseen
      · cases hmem
    have hempty : PlainDelta flush.delta := by
      rw [hsilent]
      exact ⟨by decide +kernel, by decide +kernel, by decide +kernel⟩
    obtain ⟨new, s', hstep, hstepped⟩ := live_step hopts hempty h (along_cons hfaithful).1
    refine ⟨new, s', by simp [translate, hstep], ?_, hstepped.flushed hflush hseen⟩
    have hlive := hstepped.live
    rw [hsilent] at hlive
    exact hlive
  | cons input inputs ih =>
    obtain ⟨hfirst, hrest⟩ := along_cons hfaithful
    obtain ⟨new, s', hstep, hstepped⟩ :=
      live_step hopts (hplain input mem_cons_self) h hfirst
    have hseen : FinishSeen s' ∨ ∃ input ∈ inputs, input.finishes := by
      rcases hfinishes with hs | ⟨i, hmem, hfinish⟩
      · exact .inl (hstepped.seen (.inl hs))
      · rcases mem_cons.mp hmem with rfl | hmem
        · exact .inl (hstepped.seen (.inr hfinish))
        · exact .inr ⟨i, hmem, hfinish⟩
    obtain ⟨events, s'', hrun, hlive, hbuffer⟩ := ih
      (fun i hi => hplain i (mem_cons_of_mem _ hi)) hstepped.live hseen (hrest new s' hstep)
    refine ⟨new ++ events, s'', by simp [translate, hstep, hrun], ?_, hbuffer⟩
    unfold deltaContent deltaReasoning at hlive ⊢
    rw [append_assoc, append_assoc, append_assoc] at hlive
    rw [flatMap_cons, flatMap_cons, flatMap_cons, foldl_append]
    exact hlive

theorem live_start (opts : Options) : Live opts [] [] (fun _ => []) [] {} where
  kept := by
    refine ⟨rfl, rfl, ?_, nodup_nil, ?_, fun _ _ => rfl, fun _ _ => rfl, ⟨rfl, rfl, rfl, rfl⟩, ?_⟩
    · intro _ _ hget
      cases hget
    · intro _ _ _ _ hget
      cases hget
    · intro hfalse
      cases hfalse
  started := .inr ⟨rfl, none, rfl⟩
  held := by
    intro _ hnone
    cases hnone

/-- What a stream shows is what its chunks say: every text, all thinking, and the
arguments of every tool call that is not shimmed.  The calls that are not
registered have no arguments. -/
structure OutputPreserved (codec : JsonCodec) (chunks : List Input) (events : List ClaudeEvent)
    (s : State) : Prop where
  text : textOf events = deltaContent chunks
  thinking : thinkingOf events = deltaReasoning chunks
  inputJson : ∀ idx info, JsMap.get idx s.toolCalls = some info → info.shimmed = false →
    inputJsonOf info.blockIndex events = deltaArguments codec chunks idx
  unknown : ∀ idx, JsMap.get idx s.toolCalls = none → deltaArguments codec chunks idx = []

/-- A stream with a finish reason neither loses nor duplicates output, provided that
its steps are faithful. -/
theorem outputPreserved_of_faithful (opts : Options) (chunks : List Input) (flush : Input)
    (hopts : PlainOptions opts) (hflush : flush.chunk = none)
    (hplain : ∀ input ∈ chunks, PlainDelta input.delta)
    (hfinishes : ∃ input ∈ chunks, input.finishes)
    (hfaithful : along opts (faithfulStep opts) [] (chunks ++ [flush]) {} = true) :
    ∃ events s', translate opts (chunks ++ [flush]) {} = some (events, s') ∧
      OutputPreserved opts.codec chunks events s' := by
  obtain ⟨events, s', hrun, hlive, hbuffer⟩ :=
    live_run hopts hflush chunks hplain (live_start opts) (.inr hfinishes) hfaithful
  have hkept := hlive.kept
  refine ⟨events, s', hrun, ?_, ?_, ?_, hkept.unknown⟩
  · have htext := hkept.text
    rw [hbuffer] at htext
    simpa using htext
  · simpa using hkept.thinking
  · intro idx info hget hshimmed
    have hcall := (hkept.calls idx info hget).inputJson hshimmed
    rw [append_nil, nil_append] at hcall
    exact hcall

theorem mixedStream_preserved :
    ∃ events s', translate asciiOptions (mixedStream ++ [flushInput]) {} = some (events, s') ∧
      OutputPreserved textCodec mixedStream events s' := by
  refine outputPreserved_of_faithful asciiOptions mixedStream flushInput ⟨by decide, rfl, rfl⟩ rfl ?_
    ⟨_, mem_cons_of_mem _ (mem_cons_of_mem _ (mem_cons_of_mem _ mem_cons_self)),
      _, rfl, rfl⟩ (by decide +kernel)
  intro input hinput
  have hall : ∀ input ∈ mixedStream, isInternalReasoningPlaceholder (reasoningOf input.delta) = false ∧
      ¬ reasoningPlaceholder <:+: input.delta.content.getD [] ∧
      ¬ js "DSML" <:+: input.delta.content.getD [] := by decide +kernel
  obtain ⟨hreasoning, hplaceholder, hdsml⟩ := hall input hinput
  exact ⟨hreasoning, hplaceholder, hdsml⟩

/-- The finish comes with content and without a usage. -/
def contentAtFinish : List Input :=
  [choiceInput { content := some (js "A") } (some (js "stop")) none]

/-- The content of a finish choice that was held back is shown twice. -/
theorem not_preserved_contentAtFinish : PlainOptions asciiOptions ∧
      (∀ input ∈ contentAtFinish, PlainDelta input.delta ∧
        firstMarker (input.delta.content.getD []) = none) ∧
      (∃ input ∈ contentAtFinish, input.finishes) ∧
      ¬ ∃ events s', translate asciiOptions (contentAtFinish ++ [flushInput]) {} =
          some (events, s') ∧
        OutputPreserved textCodec contentAtFinish events s' := by
  refine ⟨⟨by decide, rfl, rfl⟩, ?_, ⟨_, mem_cons_self, _, rfl, rfl⟩, ?_⟩
  · intro input hinput
    rw [mem_singleton.mp hinput]
    exact ⟨⟨by decide +kernel, by decide +kernel, by decide +kernel⟩, by decide +kernel⟩
  · rintro ⟨events, s', hrun, hpreserved⟩
    have hshown : (translate asciiOptions (contentAtFinish ++ [flushInput]) {}).map
        (fun run => textOf run.1) = some (js "AA") := by decide +kernel
    rw [hrun] at hshown
    have hdoubled : textOf events = js "AA" := Option.some.inj hshown
    have hlength := congrArg List.length (hdoubled.symm.trans hpreserved.text)
    revert hlength
    decide +kernel

end RedRouter.Response.OpenaiToClaude
