import RedRouter.Response.OpenaiStream

/-!
# OpenAI streams are well formed while their steps are sound

A stream goes through three stages: nothing was sent, the message is running,
the message has ended.  A sound step leads from stage to stage, so that a run
of sound steps with a finish reason gives one well-formed message.

A step is not sound in three cases.  A choice that was held back for its
usage is still held after the message has ended, and the next chunk without a
choice brings its content out again.  The system stripper does not return.  A
tool call in the text has a name that is not a string, so that the finish
throws.
-/

namespace RedRouter.Response.OpenaiToClaude

open List Blocks Chat MarkdownBoundary XmlInvoke DsmlToolCalls PreambleStripper ToolCallShim Bool

/-! ## Sound steps -/

/-- Whether the reasoning of a delta goes to a thinking block. -/
def showsReasoning (opts : Options) (delta : IncomingDelta) : Bool :=
  let text := reasoningOf delta
  !(text.isEmpty || isInternalReasoningPlaceholder text) &&
    !decide (opts.requestedThinking = some false)

/-- The part of the state that the content of a delta is read with. -/
structure Buffers where
  strippers : Strippers
  dsmlHoldback : JsString
  xmlInvokeBuffer : JsString
  markdownBuffer : JsString

def State.buffers (s : State) : Buffers :=
  ⟨s.strippers, s.dsmlHoldback, s.xmlInvokeBuffer, s.markdownBuffer⟩

/-- The tool calls that the content of a delta has as text; `none` when a stripper
does not return. -/
def contentCalls (opts : Options) (input : Input) (delta : IncomingDelta) (b : Buffers) :
    Option (List TextToolCall) :=
  match presentId delta.content with
  | none => some []
  | some content =>
      let stripped := stripInternalReasoningPlaceholder content
      if stripped.isEmpty then some []
      else do
        let (scrubbed, _) ← scrubContent opts stripped b.strippers
        let (dsmlContent, _, _) := parseDsml input b.dsmlHoldback scrubbed
        return (extractXmlInvokeBlocks opts.codec input.nowMs b.xmlInvokeBuffer
          (b.markdownBuffer ++ dsmlContent)).toolCalls

/-- The stripper returns and the names of the text calls are strings. -/
def callsAreNamed (opts : Options) (input : Input) (delta : IncomingDelta) (b : Buffers) : Bool :=
  match contentCalls opts input delta b with
  | none => false
  | some calls => calls.all fun call => isName call.name

def isInert (delta : IncomingDelta) : Bool :=
  ((reasoningOf delta).isEmpty || isInternalReasoningPlaceholder (reasoningOf delta)) &&
    (stripInternalReasoningPlaceholder (delta.content.getD [])).isEmpty && delta.toolCalls.isEmpty

def Input.choice (input : Input) : Option Choice := input.chunk.bind IncomingChunk.choice

def handledChoice (input : Input) (s : State) : Option Choice :=
  input.choice.orElse fun _ => s.pendingClaudeFinishChoice

/-- What a step has to meet, in the state before it.  After the finish no choice
with something to say is held back.  The text calls of the content are named;
shown reasoning empties the Markdown buffer before the content is read. -/
def soundStep (opts : Options) (input : Input) (s : State) : Bool :=
  match handledChoice input s with
  | none => true
  | some choice =>
      (!s.claudeFinishEmitted || isInert choice.delta) && callsAreNamed opts input choice.delta
          { s.buffers with
            markdownBuffer := if showsReasoning opts choice.delta then [] else s.markdownBuffer }

variable {input : Input} {opts : Options} {s : State}

theorem soundStep_of_handled (h : soundStep opts input s = true) (choice : Choice)
    (hchoice : handledChoice input s = some choice) :
    (s.claudeFinishEmitted = true → isInert choice.delta = true) ∧
      callsAreNamed opts input choice.delta
        { s.buffers with
          markdownBuffer :=
            if showsReasoning opts choice.delta then [] else s.markdownBuffer } = true := by
  unfold soundStep at h
  rw [hchoice] at h
  simp only [and_eq_true, or_eq_true] at h
  refine ⟨?_, h.2⟩
  intro hemitted
  rcases h.1 with hfalse | hinert
  · rw [hemitted] at hfalse
    cases hfalse
  · exact hinert

/-- A condition on every step of a run: on the events before it, its input and the
state before it. -/
def along (opts : Options) (p : List ClaudeEvent → Input → State → Bool) :
    List ClaudeEvent → List Input → State → Bool
  | _, [], _ => true
  | events, input :: inputs, s =>
      p events input s &&
        match openaiToClaudeResponse opts input s with
        | none => true
        | some (new, s') => along opts p (events ++ new) inputs s'

theorem along_cons {p : List ClaudeEvent → Input → State → Bool} {events : List ClaudeEvent}
    {inputs : List Input} (h : along opts p events (input :: inputs) s = true) :
    p events input s = true ∧ ∀ new s', openaiToClaudeResponse opts input s = some (new, s') →
      along opts p (events ++ new) inputs s' = true := by
  rw [along, and_eq_true] at h
  refine ⟨h.1, ?_⟩
  intro new s' hstep
  have hrest := h.2
  rw [hstep] at hrest
  exact hrest

/-- No choice comes after the message has ended. -/
def quietAfterStop (events : List ClaudeEvent) (input : Input) (_ : State) : Bool :=
  !events.any ClaudeEvent.isMessageStop || input.choice.isNone

/-! ## Stages -/

variable {before : List ClaudeEvent} {held : Option Choice} {a : Acc}

/-- The message is running, with a choice that is held back or none. -/
structure Running (before : List ClaudeEvent) (held : Option Choice) (a : Acc) : Prop where
  holds : Holds before a
  sent : a.state.messageStartSent = true
  unfinished : a.state.claudeFinishEmitted = false
  names : ∀ call ∈ a.state.pendingXmlToolCalls, isName call.name = true
  pending : a.state.pendingClaudeFinishChoice = held
  finishes : ∀ choice, held = some choice → (presentId choice.finishReason).isSome = true

/-- The message has ended. -/
structure Ended (events : List ClaudeEvent) (s : State) : Prop where
  wellFormed : WellFormedStream events
  sent : s.messageStartSent = true
  emitted : s.claudeFinishEmitted = true

/-- The stages between the chunks. -/
inductive Stage (events : List ClaudeEvent) (s : State) : Prop where
  | idle (usage : Option ClaudeStreamUsage) : events = [] → s = { usage := usage } → Stage events s
  | running (held : Option Choice) : Running events held { state := s } → Stage events s
  | ended : Ended events s → Stage events s

/-- The part of the state that the stages are about. -/
def finishView (s : State) :=
  (s.messageStartSent, s.pendingXmlToolCalls, s.claudeFinishEmitted, s.pendingClaudeFinishChoice)

theorem finishView_of_context {s' : State} (h : contextView s' = contextView s) :
    finishView s' = finishView s := by
  simp only [contextView, Prod.mk.injEq] at h
  obtain ⟨hsent, -, hcalls, -, -, -, hfinish, hpending⟩ := h
  unfold finishView
  rw [hsent, hcalls, hfinish, hpending]

theorem Running.of_view (h : Running before held a) {a' : Acc} (hholds : Holds before a')
    (hview : finishView a'.state = finishView a.state) : Running before held a' := by
  simp only [finishView, Prod.mk.injEq] at hview
  obtain ⟨hsent, hcalls, hfinish, hpending⟩ := hview
  refine ⟨hholds, ?_, ?_, ?_, ?_, h.finishes⟩
  · rw [hsent]
    exact h.sent
  · rw [hfinish]
    exact h.unfinished
  · rw [hcalls]
    exact h.names
  · rw [hpending]
    exact h.pending

theorem WellFormedStream.stopped (h : WellFormedStream before) :
    before.any ClaudeEvent.isMessageStop = true := by
  obtain ⟨id, model, blocks, reason, usage, count, rfl, -⟩ := h.shape
  simp [ClaudeEvent.isMessageStop]

/-! ## The parts of a step -/

theorem running_onReasoning (opts : Options) (delta : IncomingDelta) (h : Running before held a) :
    Running before held (onReasoning opts delta a) :=
  h.of_view (holds_onReasoning opts delta h.holds)
    (finishView_of_context (contextView_onReasoning opts delta a))

theorem markdownBuffer_openTextBlock (a : Acc) :
    (openTextBlock a).state.markdownBuffer = a.state.markdownBuffer := by
  unfold openTextBlock
  split <;> rfl

theorem markdownBuffer_stopTextBlock (a : Acc) : (stopTextBlock a).state.markdownBuffer = [] := by
  have hflush : (flushMarkdownBuffer a).state.markdownBuffer = [] := by
    unfold flushMarkdownBuffer
    dsimp only
    split
    · rename_i hempty
      exact List.isEmpty_iff.mp hempty
    · split <;> exact markdownBuffer_openTextBlock _
  unfold stopTextBlock
  dsimp only
  split <;> exact hflush

theorem buffers_onReasoning (opts : Options) (delta : IncomingDelta) (a : Acc) :
    (onReasoning opts delta a).state.buffers =
      { a.state.buffers with
        markdownBuffer := if showsReasoning opts delta then [] else a.state.markdownBuffer } := by
  have hview := contextView_onReasoning opts delta a
  simp only [contextView, Prod.mk.injEq] at hview
  obtain ⟨-, -, -, hholdback, hxml, hstrippers, -⟩ := hview
  unfold State.buffers
  rw [hholdback, hxml, hstrippers, Buffers.mk.injEq]
  refine ⟨rfl, rfl, rfl, ?_⟩
  unfold onReasoning
  by_cases hsilent : ((reasoningOf delta).isEmpty ||
      isInternalReasoningPlaceholder (reasoningOf delta)) = true
  · have hshows : showsReasoning opts delta = false := by simp [showsReasoning, hsilent]
    rw [if_pos hsilent, hshows]
    rfl
  · rw [if_neg hsilent]
    by_cases hhidden : opts.requestedThinking = some false
    · have hshows : showsReasoning opts delta = false := by simp [showsReasoning, hhidden]
      rw [if_pos hhidden, hshows]
      rfl
    · have hshows : showsReasoning opts delta = true := by
        simpa [showsReasoning, hhidden] using hsilent
      rw [if_neg hhidden, hshows]
      show (emitThinking _ a).state.markdownBuffer = []
      rw [← markdownBuffer_stopTextBlock a]
      unfold emitThinking openThinkingBlock
      split <;> rfl

theorem isName_parseDsml (input : Input) (holdback scrubbed : JsString) :
    ∀ call ∈ (parseDsml input holdback scrubbed).2.1, isName call.name = true := by
  unfold parseDsml
  dsimp only
  split
  · intro call hcall
    obtain ⟨dsmlCall, -, rfl⟩ := mem_map.mp hcall
    rfl
  · intro call hcall
    cases hcall

theorem running_queueToolCalls {calls : List TextToolCall} (h : Running before held a)
    (hnames : ∀ call ∈ calls, isName call.name = true) :
    Running before held (queueToolCalls calls a) := by
  have hholds := holds_queueToolCalls calls h.holds
  unfold queueToolCalls at hholds ⊢
  split at hholds
  · rename_i hempty
    rw [if_pos hempty]
    exact h
  · rename_i hempty
    rw [if_neg hempty]
    have hstop : Running before held (stopTextBlock a) :=
      h.of_view (holds_stopTextBlock h.holds).1
        (finishView_of_context (contextView_stopTextBlock a))
    refine { hstop with holds := hholds, names := ?_ }
    intro call hcall
    rcases mem_append.mp hcall with hcall | hcall
    · exact hstop.names call hcall
    · exact hnames call hcall

theorem running_emitCleaned (cleaned : JsString) (h : Running before held a) :
    Running before held (emitCleaned cleaned a) := by
  refine h.of_view (holds_emitCleaned cleaned h.holds) ?_
  unfold emitCleaned
  dsimp only
  split
  · rfl
  · exact finishView_of_context (contextView_emitText _ _)

theorem running_onScrubbed (opts : Options) (input : Input) (scrubbed : JsString)
    (h : Running before held a)
    (hnames : ∀ call ∈ (extractXmlInvokeBlocks opts.codec input.nowMs a.state.xmlInvokeBuffer
      (a.state.markdownBuffer ++ (parseDsml input a.state.dsmlHoldback scrubbed).1)).toolCalls,
      isName call.name = true) :
    Running before held (onScrubbed opts input scrubbed a) := by
  have hview : contextView (if scrubbed.isEmpty then a else stopThinkingBlock a).state =
        contextView a.state ∧
      (if scrubbed.isEmpty then a else stopThinkingBlock a).state.markdownBuffer =
        a.state.markdownBuffer := by
    split
    · exact ⟨rfl, rfl⟩
    · refine ⟨contextView_stopThinkingBlock a, ?_⟩
      unfold stopThinkingBlock
      split <;> rfl
  have hthinking : Running before held (if scrubbed.isEmpty then a else stopThinkingBlock a) := by
    refine h.of_view ?_ (finishView_of_context hview.1)
    split
    · exact h.holds
    · exact holds_stopThinkingBlock h.holds
  obtain ⟨hcontext, hmarkdown⟩ := hview
  have hbuffers := hcontext
  simp only [contextView, Prod.mk.injEq] at hbuffers
  obtain ⟨-, -, -, hholdback, hxml, -⟩ := hbuffers
  rw [← hholdback, ← hxml, ← hmarkdown] at hnames
  unfold onScrubbed
  generalize (if scrubbed.isEmpty then a else stopThinkingBlock a) = a at hthinking hnames ⊢
  apply running_emitCleaned
  apply running_queueToolCalls
  · exact hthinking.of_view (hthinking.holds.of_view rfl) rfl
  · intro call hcall
    rcases mem_append.mp hcall with hcall | hcall
    · exact hnames call hcall
    · exact isName_parseDsml input _ _ call hcall

/-- The content of a delta whose text calls have names that are strings. -/
theorem running_onContent (opts : Options) (input : Input) (delta : IncomingDelta)
    (h : Running before held a) (hcalls : callsAreNamed opts input delta a.state.buffers = true) :
    ∃ a', onContent opts input delta a = some a' ∧ Running before held a' := by
  unfold callsAreNamed contentCalls at hcalls
  unfold onContent
  cases hcontent : presentId delta.content with
  | none => exact ⟨a, rfl, h⟩
  | some content =>
    rw [hcontent] at hcalls
    dsimp only at hcalls ⊢
    by_cases hempty : (stripInternalReasoningPlaceholder content).isEmpty = true
    · rw [if_pos hempty]
      exact ⟨a, rfl, h⟩
    · rw [if_neg hempty] at hcalls ⊢
      unfold State.buffers at hcalls
      cases hscrub : scrubContent opts (stripInternalReasoningPlaceholder content)
          a.state.strippers with
      | none =>
        rw [hscrub] at hcalls
        cases hcalls
      | some scrubbed =>
        rw [hscrub] at hcalls
        refine ⟨_, rfl, running_onScrubbed opts input scrubbed.1 ?_ ?_⟩
        · exact h.of_view (h.holds.of_view rfl) rfl
        · intro call hcall
          exact all_eq_true.mp hcalls call hcall

theorem finishView_onToolCall (opts : Options) (a : Acc) (fragment : ToolCallFragment) :
    finishView (onToolCall opts a fragment).state = finishView a.state := by
  have hregister : finishView (registerToolCall opts fragment a).state = finishView a.state := by
    unfold registerToolCall
    dsimp only
    split
    · show finishView (stopTextBlock (stopThinkingBlock a)).state = _
      exact finishView_of_context ((contextView_stopTextBlock _).trans
        (contextView_stopThinkingBlock a))
    · rfl
  rw [← hregister]
  unfold onToolCall
  dsimp only
  split <;> rfl

theorem finishView_toolCalls (opts : Options) (fragments : List ToolCallFragment) (a : Acc) :
    finishView (fragments.foldl (onToolCall opts) a).state = finishView a.state := by
  induction fragments generalizing a with
  | nil => rfl
  | cons fragment fragments ih => exact (ih _).trans (finishView_onToolCall opts a fragment)

theorem running_toolCalls (opts : Options) (fragments : List ToolCallFragment)
    (h : Running before held a) : Running before held (fragments.foldl (onToolCall opts) a) :=
  h.of_view (holds_toolCalls opts fragments h.holds) (finishView_toolCalls opts fragments a)

/-- The part of the state that the last texts leave alone. -/
def lastView (s : State) := (finishView s, s.thinkingBlockStarted)

theorem lastView_stopTextBlock (a : Acc) : lastView (stopTextBlock a).state = lastView a.state := by
  have hopen : ∀ a : Acc, lastView (openTextBlock a).state = lastView a.state := by
    intro a
    unfold openTextBlock
    split <;> rfl
  have hflush : lastView (flushMarkdownBuffer a).state = lastView a.state := by
    unfold flushMarkdownBuffer
    dsimp only
    split
    · rfl
    · split <;> exact hopen _
  rw [← hflush]
  unfold stopTextBlock
  dsimp only
  split <;> rfl

theorem lastView_emitPreamble (a : Acc) : lastView (emitPreamble a).state = lastView a.state := by
  unfold emitPreamble
  dsimp only
  split
  · rfl
  · split <;> rfl

theorem lastView_emitReasoningAsText (opts : Options) (a : Acc) :
    lastView (emitReasoningAsText opts a).state = lastView a.state := by
  unfold emitReasoningAsText
  split <;> rfl

theorem ended_finishMessage (opts : Options) (finishReason : JsString) (h : Running before held a) :
    ∃ a', finishMessage opts finishReason a = some a' ∧ Ended (before ++ a'.results) a'.state := by
  have hflag : Holds before { a with state := { a.state with claudeFinishEmitted := true } } :=
    h.holds.of_view rfl
  unfold finishMessage
  generalize hstate : { a with state := { a.state with claudeFinishEmitted := true } } = b at hflag ⊢
  -- The text and the thinking block end first.
  have hthinking := holds_stopThinkingBlock hflag
  have htext := holds_stopTextBlock (holds_emitReasoningAsText opts (holds_emitPreamble hthinking))
  have hview : lastView (stopTextBlock (emitReasoningAsText opts (emitPreamble
      (stopThinkingBlock b)))).state = lastView (stopThinkingBlock b).state := by
    rw [lastView_stopTextBlock, lastView_emitReasoningAsText, lastView_emitPreamble]
  have hstopped := stopThinkingBlock_stopped b
  have hfinish := finishView_of_context (contextView_stopThinkingBlock b)
  dsimp only
  generalize stopTextBlock (emitReasoningAsText opts (emitPreamble (stopThinkingBlock b))) = c
    at htext hview ⊢
  simp only [lastView, Prod.mk.injEq] at hview
  obtain ⟨hsame, hnone⟩ := hview
  rw [hstopped] at hnone
  rw [hfinish, ← hstate] at hsame
  simp only [finishView, Prod.mk.injEq] at hsame
  obtain ⟨hsent, hcalls, hemitted, -⟩ := hsame
  -- Then the tool calls, and those that came as text.
  have hclosed := closed_finishToolCalls opts htext.1 htext.2 hnone
  have hnames : ∀ call ∈ (finishToolCalls opts c).state.pendingXmlToolCalls,
      isName call.name = true := by
    intro call hcall
    have hcall : call ∈ c.state.pendingXmlToolCalls := hcall
    rw [hcalls] at hcall
    exact h.names call hcall
  obtain ⟨a', hemit, hclosed', hcontext⟩ := closed_emitTextToolCalls opts hnames hclosed
  have hlast := finishView_of_context hcontext
  simp only [finishView, Prod.mk.injEq] at hlast
  refine ⟨endMessage opts finishReason a', by simp [hemit],
    wellFormed_endMessage opts _ hclosed', ?_, ?_⟩
  · exact (hlast.1.trans hsent).trans h.sent
  · exact hlast.2.2.1.trans hemitted

/-- What the finish reason of a choice does once its delta has been read.  A
choice that is replayed ends the message. -/
theorem onFinish_cases (opts : Options) (choice : Choice) (isReplay hasUsage : Bool)
    (h : Running before held a) :
    ∃ a', onFinish opts choice isReplay hasUsage a = some a' ∧
      (Ended (before ++ a'.results) a'.state ∨
        ((presentId choice.finishReason).isSome = true ∧ isReplay = false ∧
          Running before (some choice) a') ∨
        (presentId choice.finishReason = none ∧ Running before held a')) := by
  unfold onFinish
  cases hreason : presentId choice.finishReason with
  | none => exact ⟨a, rfl, .inr (.inr ⟨rfl, h⟩)⟩
  | some reason =>
    dsimp only
    rw [if_neg (by simp [h.unfinished])]
    split
    · rename_i hdefer
      simp only [and_eq_true, not_eq_true'] at hdefer
      refine ⟨_, rfl, .inr (.inl ⟨rfl, hdefer.2, h.holds.of_view rfl, h.sent, h.unfinished, h.names,
        rfl, ?_⟩)⟩
      intro c hc
      rw [← Option.some.inj hc, hreason]
      rfl
    · obtain ⟨a', hfinish, hended⟩ := ended_finishMessage opts reason h
      exact ⟨a', hfinish, .inl hended⟩

variable {choice : Choice}

theorem onChoice_cases (isReplay hasUsage : Bool) (hstart : startMessage input s = some a)
    (h : Running before held a) (hcalls : callsAreNamed opts input choice.delta
      { a.state.buffers with
        markdownBuffer :=
          if showsReasoning opts choice.delta then [] else a.state.markdownBuffer } = true) :
    ∃ new s', onChoice opts input choice isReplay hasUsage s = some (new, s') ∧
      (Ended (before ++ new) s' ∨
        ((presentId choice.finishReason).isSome = true ∧ isReplay = false ∧
          Running (before ++ new) (some choice) { state := s' }) ∨
        (presentId choice.finishReason = none ∧ Running (before ++ new) held { state := s' })) := by
  have hsettle : ∀ {held : Option Choice} {a : Acc}, Running before held a →
      Running (before ++ a.results) held { state := a.state } := by
    intro held a h
    obtain ⟨id, model, blocks, hevents, hformed⟩ := h.holds
    refine ⟨⟨id, model, blocks, ?_, hformed⟩, h.sent, h.unfinished, h.names, h.pending, h.finishes⟩
    rw [append_nil]
    exact hevents
  have hreasoning := running_onReasoning opts choice.delta h
  rw [← buffers_onReasoning] at hcalls
  obtain ⟨b, hcontent, hb⟩ := running_onContent opts input choice.delta hreasoning hcalls
  have htools := running_toolCalls opts choice.delta.toolCalls hb
  obtain ⟨c, hfinish, hc⟩ := onFinish_cases opts choice isReplay hasUsage htools
  refine ⟨c.results, c.state, ?_, ?_⟩
  · unfold onChoice
    rw [hstart]
    show (onContent opts input choice.delta _ >>= _) = _
    rw [hcontent]
    show (onFinish opts choice isReplay hasUsage _ >>= _) = _
    rw [hfinish]
    rfl
  · rcases hc with hended | ⟨hsome, hreplay, hrunning⟩ | ⟨hnone, hrunning⟩
    · exact .inl hended
    · exact .inr (.inl ⟨hsome, hreplay, hsettle hrunning⟩)
    · exact .inr (.inr ⟨hnone, hsettle hrunning⟩)

theorem onChoice_inert (opts : Options) (input : Input) (isReplay hasUsage : Bool)
    (hsent : s.messageStartSent = true) (hemitted : s.claudeFinishEmitted = true)
    (h : isInert choice.delta = true) :
    onChoice opts input choice isReplay hasUsage s = some ([], s) := by
  unfold isInert at h
  simp only [and_eq_true] at h
  obtain ⟨⟨hreasoning, hcontent⟩, htools⟩ := h
  have hstart : startMessage input s = some { state := s } := by
    rw [startMessage, if_pos hsent]
  have hreason : onReasoning opts choice.delta { state := s } = { state := s } := by
    unfold onReasoning
    rw [if_pos hreasoning]
  have hcontent' : onContent opts input choice.delta { state := s } = some { state := s } := by
    unfold onContent
    cases hpresent : presentId choice.delta.content with
    | none => rfl
    | some content =>
      rw [(presentId_eq_some_iff.mp hpresent).1, Option.getD_some] at hcontent
      dsimp only
      rw [if_pos hcontent]
  have hfinish : onFinish opts choice isReplay hasUsage { state := s } = some { state := s } := by
    unfold onFinish
    cases presentId choice.finishReason with
    | none => rfl
    | some reason =>
      dsimp only
      rw [if_pos hemitted]
  unfold onChoice
  rw [hstart]
  show (onContent opts input choice.delta (onReasoning opts choice.delta { state := s }) >>= _) = _
  rw [hreason, hcontent', List.isEmpty_iff.mp htools]
  show (onFinish opts choice isReplay hasUsage { state := s } >>= _) = _
  rw [hfinish]
  rfl

/-! ## Steps and runs -/

/-- A finish reason has been seen: the message has ended, or its finish is held
back. -/
def FinishSeen (s : State) : Prop :=
  s.claudeFinishEmitted = true ∨ s.pendingClaudeFinishChoice.isSome = true

/-- A chunk whose choice has a finish reason. -/
def Input.finishes (input : Input) : Prop :=
  ∃ choice, input.choice = some choice ∧ (presentId choice.finishReason).isSome = true

theorem tracked_eq (input : Input) (s : State) :
    ∃ usage, (input.chunk.map fun chunk => trackUsageFromChunk chunk s).getD s =
      { s with usage := usage } := by
  cases input.chunk with
  | none => exact ⟨s.usage, rfl⟩
  | some chunk =>
    show ∃ usage, trackUsageFromChunk chunk s = _
    unfold trackUsageFromChunk
    cases chunk.usage with
    | none => exact ⟨s.usage, rfl⟩
    | some usage => exact ⟨_, rfl⟩

theorem running_startMessage (usage : Option ClaudeStreamUsage) (h : input.choice = some choice) :
    ∃ a, startMessage input { usage := usage } = some a ∧ Running [] none a ∧
      a.state.buffers = ({ usage := usage } : State).buffers := by
  unfold startMessage
  cases hchunk : input.chunk with
  | none =>
    unfold Input.choice at h
    rw [hchunk] at h
    cases h
  | some chunk =>
    refine ⟨_, rfl, ⟨⟨_, _, [], rfl, ?_, Ledger.nil, nodup_nil, ?_⟩, rfl, rfl, ?_, rfl, ?_⟩, rfl⟩
    · simp [OnlyBlocks]
    · intro hfalse
      cases hfalse
    · intro call hcall
      cases hcall
    · intro choice hfalse
      cases hfalse

theorem stage_of_cases {new : List ClaudeEvent} {s' : State} (hchoice : input.choice = some choice)
    (hheld : FinishSeen s → held.isSome = true) (h : Ended (before ++ new) s' ∨
      ((presentId choice.finishReason).isSome = true ∧ false = false ∧
        Running (before ++ new) (some choice) { state := s' }) ∨
      (presentId choice.finishReason = none ∧ Running (before ++ new) held { state := s' })) :
    Stage (before ++ new) s' ∧ (FinishSeen s ∨ input.finishes → FinishSeen s') := by
  rcases h with hended | ⟨-, -, hrunning⟩ | ⟨hnone, hrunning⟩
  · exact ⟨.ended hended, fun _ => .inl hended.emitted⟩
  · refine ⟨.running _ hrunning, fun _ => .inr ?_⟩
    rw [hrunning.pending]
    rfl
  · refine ⟨.running _ hrunning, fun hseen => .inr ?_⟩
    rcases hseen with hseen | ⟨c, hc, hfinish⟩
    · rw [hrunning.pending]
      exact hheld hseen
    · rw [hchoice] at hc
      rw [← Option.some.inj hc, hnone] at hfinish
      cases hfinish

/-- A sound step goes from stage to stage.  A finish reason that was seen stays
seen, and a step without a choice then ends the message. -/
theorem stage_step (h : Stage before s) (hquiet : quietAfterStop before input s = true)
    (hsound : soundStep opts input s = true) :
    ∃ new s', openaiToClaudeResponse opts input s = some (new, s') ∧ Stage (before ++ new) s' ∧
      (FinishSeen s ∨ input.finishes → FinishSeen s') ∧
      (FinishSeen s → input.choice = none → s'.claudeFinishEmitted = true) := by
  obtain ⟨usage, htracked⟩ := tracked_eq input s
  unfold openaiToClaudeResponse
  rw [htracked]
  cases h with
  | idle usage₀ hnil hs =>
    subst hnil hs
    cases hchoice : input.choice with
    | none =>
      have hbind : input.chunk.bind IncomingChunk.choice = none := hchoice
      rw [hbind]
      refine ⟨[], _, rfl, .idle usage rfl rfl, ?_, ?_⟩
      · rintro (hseen | ⟨choice, hsome, -⟩)
        · rcases hseen with hseen | hseen <;> cases hseen
        · rw [hchoice] at hsome
          cases hsome
      · rintro (hseen | hseen) <;> cases hseen
    | some choice =>
      have hbind : input.chunk.bind IncomingChunk.choice = some choice := hchoice
      rw [hbind]
      obtain ⟨a, hstart, hrunning, hbuffers⟩ := running_startMessage usage hchoice
      have hcalls := (soundStep_of_handled hsound choice (by simp [handledChoice, hchoice])).2
      have hmarkdown : a.state.markdownBuffer = ({ usage := usage } : State).markdownBuffer :=
        congrArg Buffers.markdownBuffer hbuffers
      have hnamed : callsAreNamed opts input choice.delta
          { a.state.buffers with
            markdownBuffer :=
              if showsReasoning opts choice.delta then [] else a.state.markdownBuffer } = true := by
        rw [hbuffers, hmarkdown]
        exact hcalls
      obtain ⟨new, s', hstep, hcases⟩ := onChoice_cases false
        (input.chunk.bind IncomingChunk.usage).isSome hstart hrunning hnamed
      obtain ⟨hstage, hseen⟩ := stage_of_cases (s := { usage := usage₀ }) hchoice (by
        rintro (hseen | hseen) <;> cases hseen) hcases
      exact ⟨new, s', hstep, hstage, hseen, by simp⟩
  | running held hrunning =>
    have htrack : Running before held { state := { s with usage := usage } } :=
      hrunning.of_view (hrunning.holds.of_view rfl) rfl
    have hseen : FinishSeen s → held.isSome = true := by
      rintro (hseen | hseen)
      · rw [hrunning.unfinished] at hseen
        cases hseen
      · rw [← hrunning.pending]
        exact hseen
    cases hchoice : input.choice with
    | some choice =>
      have hbind : input.chunk.bind IncomingChunk.choice = some choice := hchoice
      rw [hbind]
      have hcalls := (soundStep_of_handled hsound choice (by simp [handledChoice, hchoice])).2
      obtain ⟨new, s', hstep, hcases⟩ := onChoice_cases false
        (input.chunk.bind IncomingChunk.usage).isSome
        (by rw [startMessage, if_pos htrack.sent]) htrack hcalls
      obtain ⟨hstage, hfinish⟩ := stage_of_cases hchoice hseen hcases
      exact ⟨new, s', hstep, hstage, hfinish, by simp⟩
    | none =>
      have hbind : input.chunk.bind IncomingChunk.choice = none := hchoice
      rw [hbind]
      cases hpending : s.pendingClaudeFinishChoice with
      | none =>
        have hheld : held = none := hrunning.pending.symm.trans hpending
        refine ⟨[], _, rfl, ?_, ?_, ?_⟩
        · rw [append_nil]
          refine .running held (hrunning.of_view (hrunning.holds.of_view rfl) ?_)
          simp [finishView, hpending]
        · rintro (hs | ⟨choice, hsome, -⟩)
          · rw [hheld] at hseen
            cases hseen hs
          · rw [hchoice] at hsome
            cases hsome
        · intro hs
          rw [hheld] at hseen
          cases hseen hs
      | some choice =>
        -- The choice that was held back is read again and ends the message.
        have hheld : held = some choice := hrunning.pending.symm.trans hpending
        have hcalls := (soundStep_of_handled hsound choice (by simp [handledChoice, hchoice, hpending])).2
        have hreplay : Running before none
            { state := { s with usage := usage, pendingClaudeFinishChoice := none } } :=
          ⟨htrack.holds.of_view rfl, htrack.sent, htrack.unfinished, htrack.names, rfl, by simp⟩
        obtain ⟨new, s', hstep, hcases⟩ := onChoice_cases true
          (input.chunk.bind IncomingChunk.usage).isSome
          (by rw [startMessage, if_pos hreplay.sent]) hreplay hcalls
        have hfinishes := htrack.finishes choice hheld
        rcases hcases with hended | ⟨-, hfalse, -⟩ | ⟨hnone, -⟩
        · exact ⟨new, s', hstep, .ended hended, fun _ => .inl hended.emitted,
            fun _ _ => hended.emitted⟩
        · cases hfalse
        · rw [hnone] at hfinishes
          cases hfinishes
  | ended hended =>
    have hnone : input.choice = none := by
      unfold quietAfterStop at hquiet
      rw [hended.wellFormed.stopped] at hquiet
      simpa using hquiet
    have hbind : input.chunk.bind IncomingChunk.choice = none := hnone
    rw [hbind]
    cases hpending : s.pendingClaudeFinishChoice with
    | none =>
      refine ⟨[], _, rfl, ?_, fun _ => .inl hended.emitted, fun _ _ => hended.emitted⟩
      rw [append_nil]
      exact .ended { hended with }
    | some choice =>
      have hinert := (soundStep_of_handled hsound choice (by simp [handledChoice, hnone, hpending])).1
        hended.emitted
      refine ⟨[], _, onChoice_inert opts input _ _ hended.sent hended.emitted hinert, ?_,
        fun _ => .inl hended.emitted, fun _ _ => hended.emitted⟩
      rw [append_nil]
      exact .ended { hended with }

/-- A run of sound steps that ends with a flush gives one well-formed message. -/
theorem wellFormed_run {opts : Options} {flush : Input} (hflush : flush.choice = none)
    (inputs : List Input) {s : State} (h : Stage before s)
    (hfinishes : FinishSeen s ∨ ∃ input ∈ inputs, input.finishes)
    (hquiet : along opts quietAfterStop before (inputs ++ [flush]) s = true)
    (hsound : along opts (fun _ => soundStep opts) before (inputs ++ [flush]) s = true) :
    ∃ events s', translate opts (inputs ++ [flush]) s = some (events, s') ∧
      WellFormedStream (before ++ events) := by
  induction inputs generalizing before s with
  | nil =>
    have hquiet := (along_cons hquiet).1
    have hsound := (along_cons hsound).1
    have hseen : FinishSeen s := by
      rcases hfinishes with hseen | ⟨input, hmem, -⟩
      · exact hseen
      · cases hmem
    obtain ⟨new, s', hstep, hstage, -, hend⟩ := stage_step h hquiet hsound
    have hemitted := hend hseen hflush
    refine ⟨new, s', by simp [translate, hstep], ?_⟩
    cases hstage with
    | idle usage _ hs =>
      rw [hs] at hemitted
      cases hemitted
    | running held hrunning =>
      rw [hrunning.unfinished] at hemitted
      cases hemitted
    | ended hended => exact hended.wellFormed
  | cons input inputs ih =>
    obtain ⟨hquiet, hquietRest⟩ := along_cons hquiet
    obtain ⟨hsound, hsoundRest⟩ := along_cons hsound
    obtain ⟨new, s', hstep, hstage, hseen, -⟩ := stage_step h hquiet hsound
    have hrest : FinishSeen s' ∨ ∃ input ∈ inputs, input.finishes := by
      rcases hfinishes with hs | ⟨i, hmem, hfinish⟩
      · exact .inl (hseen (.inl hs))
      · rcases mem_cons.mp hmem with rfl | hmem
        · exact .inl (hseen (.inr hfinish))
        · exact .inr ⟨i, hmem, hfinish⟩
    obtain ⟨events, s'', hrun, hstream⟩ :=
      ih hstage hrest (hquietRest new s' hstep) (hsoundRest new s' hstep)
    refine ⟨new ++ events, s'', by simp [translate, hstep, hrun], ?_⟩
    rw [← append_assoc]
    exact hstream

/-- A stream with a finish reason and no choice after its end is one well-formed
message, provided that its steps are sound. -/
theorem wellFormedStream_of_sound (opts : Options) (chunks : List Input) (flush : Input)
    (hflush : flush.chunk = none) (hfinishes : ∃ input ∈ chunks, input.finishes)
    (hquiet : along opts quietAfterStop [] (chunks ++ [flush]) {} = true)
    (hsound : along opts (fun _ => soundStep opts) [] (chunks ++ [flush]) {} = true) :
    ∃ events s', translate opts (chunks ++ [flush]) {} = some (events, s') ∧
      WellFormedStream events := by
  have hnone : flush.choice = none := by
    unfold Input.choice
    rw [hflush]
    rfl
  exact @wellFormed_run [] opts flush hnone chunks {} (.idle none rfl rfl) (.inr hfinishes) hquiet
    hsound

/-! ## Two streams -/

/-- `JSON.parse` and `JSON.stringify` for streams without JSON values. -/
def textCodec : JsonCodec where
  parse := fun _ => none
  stringify := fun _ => []
  parse_nil := JsonCodec.parse_nil_of_none

def asciiOptions : Options where
  codec := textCodec
  names := { toLowerCase := fun text => text.map Regex.asciiLower }

def choiceInput (delta : IncomingDelta) (finishReason : Option JsString)
    (usage : Option IncomingUsage) : Input :=
  { chunk := some
      { id := some (js "chatcmpl-12345678")
        choice := some { delta := delta, finishReason := finishReason }
        usage := usage } }

def someUsage : IncomingUsage := { promptTokens := some 3, completionTokens := some 5 }

def listCall : ToolCallFragment where
  id := some (js "c1")
  name := some (js "ls")
  arguments := some (.str (js "[1]"))

def flushInput : Input where
  chunk := none

/-- Reasoning, text and a tool call, with the usage on a chunk of its own. -/
def mixedStream : List Input :=
  [choiceInput { reasoningContent := some (js "plan") } none none,
    choiceInput { content := some (js "see **") } none none,
    choiceInput { toolCalls := [listCall] } none none,
    choiceInput {} (some (js "tool_calls")) none,
    { chunk := some { usage := some someUsage } }]

theorem mixedStream_wellFormed :
    ∃ events s', translate asciiOptions (mixedStream ++ [flushInput]) {} = some (events, s') ∧
      WellFormedStream events :=
  wellFormedStream_of_sound asciiOptions mixedStream flushInput rfl
    ⟨_, mem_cons_of_mem _ (mem_cons_of_mem _ (mem_cons_of_mem _ mem_cons_self)), _, rfl, rfl⟩
    (by decide +kernel) (by decide +kernel)

/-- The finish comes twice, first with content and without a usage. -/
def repeatedFinish : List Input :=
  [choiceInput { content := some (js "A") } (some (js "stop")) none,
    choiceInput {} (some (js "stop")) (some someUsage)]

/-- The content that was held back with the first finish comes out again after the
end of the message. -/
theorem not_wellFormed_repeatedFinish : (∃ input ∈ repeatedFinish, input.finishes) ∧
      along asciiOptions quietAfterStop [] (repeatedFinish ++ [flushInput]) {} = true ∧
      ¬ ∃ events s', translate asciiOptions (repeatedFinish ++ [flushInput]) {} = some (events, s') ∧
        WellFormedStream events := by
  refine ⟨⟨_, mem_cons_self, _, rfl, rfl⟩, by decide +kernel, ?_⟩
  rintro ⟨events, s', hrun, hstream⟩
  obtain ⟨id, model, blocks, reason, usage, count, hevents, -⟩ := hstream.shape
  have hstop : events.getLast? = some .messageStop := by
    rw [hevents, ← cons_append, append_cons]
    exact getLast?_concat
  have hlast : ((translate asciiOptions (repeatedFinish ++ [flushInput]) {}).bind
      fun run => run.1.getLast?.map ClaudeEvent.isMessageStop) = some false := by decide +kernel
  rw [hrun, Option.bind_some, hstop] at hlast
  cases hlast

end RedRouter.Response.OpenaiToClaude
