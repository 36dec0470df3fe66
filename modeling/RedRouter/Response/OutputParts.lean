import RedRouter.Response.OpenaiWellFormed

/-!
# What the parts of a step say

What a stream says is what its deltas say: the texts, the thinking and the
arguments of every tool call that is not shimmed.  `Speaks` is what the parts
of a step do to the text and the thinking, and `Kept` is the invariant: the
text so far and the suffix that is kept back make up the content so far, and
the arguments of a call are those of its fragments.
-/

namespace RedRouter.Response.OpenaiToClaude

open List Blocks Chat MarkdownBoundary XmlInvoke DsmlToolCalls PreambleStripper ToolCallShim Option

/-! ## What the parts of a step say -/

def TextOpen (s : State) : Prop := s.textBlockStarted = true → s.textBlockClosed = false

/-- The events that a part of a step adds have some text and some thinking, and the
rest stays as it is. -/
structure Emits (text thinking : JsString) (a b : Acc) : Prop where
  text : textOf b.results = textOf a.results ++ text
  thinking : thinkingOf b.results = thinkingOf a.results ++ thinking
  inputJson : ∀ index, inputJsonOf index b.results = inputJsonOf index a.results
  context : contextView b.state = contextView a.state
  next : a.state.nextBlockIndex ≤ b.state.nextBlockIndex
  textOpen : TextOpen a.state → TextOpen b.state

theorem Emits.refl (a : Acc) : Emits [] [] a a :=
  ⟨(append_nil _).symm, (append_nil _).symm, fun _ => rfl, rfl, Nat.le_refl _, id⟩

variable {a : Acc} {text thinking : JsString}

theorem Emits.trans {text' thinking' : JsString} {b c : Acc} (h : Emits text thinking a b)
    (h' : Emits text' thinking' b c) :
    Emits (text ++ text') (thinking ++ thinking') a c where
  text := by rw [h'.text, h.text, append_assoc]
  thinking := by rw [h'.thinking, h.thinking, append_assoc]
  inputJson := fun index => (h'.inputJson index).trans (h.inputJson index)
  context := h'.context.trans h.context
  next := Nat.le_trans h.next h'.next
  textOpen := fun hopen => h'.textOpen (h.textOpen hopen)

theorem Emits.andThen {b c : Acc} (h : Emits text [] a b) (h' : Emits [] thinking b c) :
    Emits text thinking a c := by
  have hall := h.trans h'
  rw [append_nil] at hall
  exact hall

theorem emits_push {s : State} {event : ClaudeEvent} (htext : textOf [event] = text)
    (hthinking : thinkingOf [event] = thinking) (hjson : ∀ index, inputJsonOf index [event] = [])
    (hcontext : contextView s = contextView a.state)
    (hnext : a.state.nextBlockIndex ≤ s.nextBlockIndex) (hopen : TextOpen a.state → TextOpen s) :
    Emits text thinking a (Acc.push { a with state := s } event) where
  text := by rw [Acc.push, textOf_append, htext]
  thinking := by rw [Acc.push, thinkingOf_append, hthinking]
  inputJson := fun index => by rw [Acc.push, inputJsonOf_append, hjson, append_nil]
  context := hcontext
  next := hnext
  textOpen := hopen

theorem Emits.of_state {b : Acc} {s : State} (h : Emits text thinking { a with state := s } b)
    (hcontext : contextView s = contextView a.state)
    (hnext : s.nextBlockIndex = a.state.nextBlockIndex) (hopen : TextOpen a.state → TextOpen s) :
    Emits text thinking a b :=
  ⟨h.text, h.thinking, h.inputJson, h.context.trans hcontext, hnext ▸ h.next,
    fun htext => h.textOpen (hopen htext)⟩

theorem emits_stopThinkingBlock (a : Acc) : Emits [] [] a (stopThinkingBlock a) := by
  unfold stopThinkingBlock
  split
  · exact emits_push rfl rfl (fun _ => rfl) rfl (Nat.le_refl _) id
  · exact .refl a

theorem emits_startTextBlock (a : Acc) : Emits [] [] a (startTextBlock a) :=
  emits_push rfl rfl (fun _ => rfl) rfl (Nat.le_succ _) fun _ _ => rfl

theorem emits_openTextBlock (a : Acc) : Emits [] [] a (openTextBlock a) := by
  unfold openTextBlock
  split
  · exact .refl a
  · exact emits_startTextBlock a

theorem emits_textDelta (text : JsString) (a : Acc) : Emits text [] a (textDelta text a) :=
  emits_push (by simp [textOf]) rfl (fun _ => rfl) rfl (Nat.le_refl _) id

theorem emits_emitText (text : JsString) (a : Acc) : Emits text [] a (emitText text a) :=
  (emits_openTextBlock a).trans (emits_textDelta text _)

theorem emits_flushMarkdownBuffer (hopen : TextOpen a.state) :
    Emits a.state.markdownBuffer [] a (flushMarkdownBuffer a) := by
  unfold flushMarkdownBuffer
  dsimp only
  split
  · rename_i hempty
    rw [List.isEmpty_iff.mp hempty]
    exact (Emits.refl _).of_state rfl rfl id
  · have hstarted : ∀ a : Acc, (openTextBlock a).state.textBlockStarted = true := by
      intro a
      unfold openTextBlock
      split
      · assumption
      · rfl
    have hblock := emits_openTextBlock
      { a with state := { a.state with markdown := {}, markdownBuffer := [] } }
    have hclosed := hblock.textOpen hopen (hstarted _)
    rw [if_neg (by simp [hclosed])]
    exact (hblock.trans (emits_textDelta _ _)).of_state rfl rfl id

theorem emits_stopTextBlock (hopen : TextOpen a.state) :
    Emits a.state.markdownBuffer [] a (stopTextBlock a) := by
  have hflush := emits_flushMarkdownBuffer hopen
  unfold stopTextBlock
  dsimp only
  split
  · exact hflush
  · refine hflush.andThen (emits_push rfl rfl (fun _ => rfl) rfl (Nat.le_refl _) ?_)
    intro _ hfalse
    cases hfalse

theorem emits_openThinkingBlock (a : Acc) : Emits [] [] a (openThinkingBlock a) := by
  unfold openThinkingBlock
  split
  · exact .refl a
  · exact emits_push rfl rfl (fun _ => rfl) rfl (Nat.le_succ _) id

theorem emits_emitThinking (text : JsString) (hopen : TextOpen a.state) :
    Emits a.state.markdownBuffer text a (emitThinking text a) := by
  refine ((emits_stopTextBlock hopen).andThen (emits_openThinkingBlock _)).andThen ?_
  refine emits_push rfl ?_ (fun _ => rfl) rfl (Nat.le_refl _) id
  simp [thinkingOf]

/-- What a part of a step says: the text so far with the suffix that is kept back,
and the thinking. -/
structure Speaks (text thinking : JsString) (a b : Acc) : Prop where
  text : textOf b.results ++ b.state.markdownBuffer =
    textOf a.results ++ a.state.markdownBuffer ++ text
  thinking : thinkingOf b.results = thinkingOf a.results ++ thinking
  inputJson : ∀ index, inputJsonOf index b.results = inputJsonOf index a.results
  context : contextView b.state = contextView a.state
  next : a.state.nextBlockIndex ≤ b.state.nextBlockIndex
  textOpen : TextOpen a.state → TextOpen b.state

theorem Emits.speaks {emitted : JsString} {b : Acc} (h : Emits emitted thinking a b)
    (hbuffer : emitted ++ b.state.markdownBuffer = a.state.markdownBuffer ++ text) :
    Speaks text thinking a b where
  text := by rw [h.text, append_assoc, hbuffer, append_assoc]
  thinking := h.thinking
  inputJson := h.inputJson
  context := h.context
  next := h.next
  textOpen := h.textOpen

theorem speaks_stopThinkingBlock (a : Acc) : Speaks [] [] a (stopThinkingBlock a) := by
  apply (emits_stopThinkingBlock a).speaks
  rw [append_nil]
  unfold stopThinkingBlock
  split <;> rfl

theorem speaks_stopTextBlock (hopen : TextOpen a.state) : Speaks [] [] a (stopTextBlock a) := by
  apply (emits_stopTextBlock hopen).speaks
  rw [markdownBuffer_stopTextBlock]

variable {opts : Options}

theorem speaks_onReasoning {delta : IncomingDelta}
    (hrequested : opts.requestedThinking ≠ some false)
    (hplain : isInternalReasoningPlaceholder (reasoningOf delta) = false) (hopen : TextOpen a.state) :
    Speaks [] (reasoningOf delta) a (onReasoning opts delta a) := by
  unfold onReasoning
  dsimp only
  rw [hplain, Bool.or_false, if_neg hrequested]
  split
  · rename_i hempty
    rw [List.isEmpty_iff.mp hempty]
    apply (Emits.refl a).speaks
    rw [append_nil]
    rfl
  · have hthinking := emits_emitThinking (reasoningOf delta) hopen
    have hbuffer : (emitThinking (reasoningOf delta) a).state.markdownBuffer = [] := by
      rw [← markdownBuffer_stopTextBlock a]
      unfold emitThinking openThinkingBlock
      split <;> rfl
    have hspeaks : Speaks [] (reasoningOf delta) a (emitThinking (reasoningOf delta) a) := by
      apply hthinking.speaks
      rw [hbuffer]
    exact { hspeaks with }

/-! ## Plain content -/

/-- A delta whose texts the translator is meant to pass on as they are. -/
structure PlainDelta (delta : IncomingDelta) : Prop where
  reasoning : isInternalReasoningPlaceholder (reasoningOf delta) = false
  placeholder : ¬ reasoningPlaceholder <:+: delta.content.getD []
  dsml : ¬ js "DSML" <:+: delta.content.getD []

/-- Options without a preamble stripper, for a client that did not opt out of
thinking. -/
structure PlainOptions (opts : Options) : Prop where
  thinking : opts.requestedThinking ≠ some false
  directive : opts.directive = []
  stripSystemPreamble : opts.stripSystemPreamble = false

theorem hasDsmlToolCalls_eq_false (h : ¬ js "DSML" <:+: text) : hasDsmlToolCalls text = false := by
  unfold hasDsmlToolCalls Regex.test
  cases hsearch : Regex.search markPattern text with
  | none => rfl
  | some m =>
    obtain ⟨before, rest, previous, rfl, hat⟩ := Regex.search_cases hsearch
    obtain ⟨c, hslash, hpipe⟩ := Regex.run_cases (.opt (.lit (js "/"))) hat
    change Regex.run pipe c (fun d => Regex.run (.seq (.lit (js "DSML")) pipe) d _) = _ at hpipe
    obtain ⟨d, hsuffix, hlit⟩ := Regex.run_cases pipe hpipe
    have hprefix := Regex.run_lit (js "DSML") hlit
    refine absurd ?_ h
    have hrest : js "DSML" <:+: rest := hprefix.isInfix.trans ((hsuffix.trans hslash).isInfix)
    exact hrest.trans (suffix_append before rest).isInfix

/-- The buffers are empty while the content is plain. -/
structure PlainState (s : State) : Prop where
  dsmlHoldback : s.dsmlHoldback = []
  xmlInvokeBuffer : s.xmlInvokeBuffer = []
  strippers : s.strippers = {}
  pendingXmlToolCalls : s.pendingXmlToolCalls = []

theorem emits_emitCleaned (cleaned : JsString) (a : Acc) :
    ∃ emitted, Emits emitted [] a (emitCleaned cleaned a) ∧
      emitted ++ (emitCleaned cleaned a).state.markdownBuffer = cleaned := by
  have hsplit := emit_append_hold cleaned a.state.markdown
  unfold emitCleaned
  dsimp only
  generalize splitMarkdownBoundary cleaned a.state.markdown = split at hsplit ⊢
  split
  · rename_i hempty
    rw [List.isEmpty_iff.mp hempty] at hsplit
    exact ⟨[], (Emits.refl _).of_state rfl rfl id, hsplit⟩
  · refine ⟨split.emit, (emits_emitText split.emit _).of_state rfl rfl id, ?_⟩
    show split.emit ++ (openTextBlock _).state.markdownBuffer = cleaned
    rw [markdownBuffer_openTextBlock]
    exact hsplit

theorem speaks_onScrubbed (opts : Options) (input : Input) {content : JsString}
    (hstate : PlainState a.state) (hdsml : ¬ js "DSML" <:+: content)
    (hmarker : firstMarker (a.state.markdownBuffer ++ content) = none) :
    Speaks content [] a (onScrubbed opts input content a) := by
  have hthinking : Emits [] [] a (if content.isEmpty then a else stopThinkingBlock a) ∧
      (if content.isEmpty then a else stopThinkingBlock a).state.markdownBuffer =
        a.state.markdownBuffer := by
    split
    · exact ⟨.refl a, rfl⟩
    · refine ⟨emits_stopThinkingBlock a, ?_⟩
      unfold stopThinkingBlock
      split <;> rfl
  obtain ⟨hemits, hbuffer⟩ := hthinking
  have hcontext := hemits.context
  simp only [contextView, Prod.mk.injEq] at hcontext
  obtain ⟨-, -, -, hholdback, hxml, -⟩ := hcontext
  rw [hstate.dsmlHoldback] at hholdback
  rw [hstate.xmlInvokeBuffer] at hxml
  unfold onScrubbed
  dsimp only
  generalize (if content.isEmpty then a else stopThinkingBlock a) = b at hemits hbuffer hholdback hxml ⊢
  have hparse : parseDsml input b.state.dsmlHoldback content = (content, [], []) := by
    unfold parseDsml
    rw [hholdback, nil_append, if_neg (by simp [hasDsmlToolCalls_eq_false hdsml])]
  rw [hparse, hxml, hbuffer, extractXmlInvokeBlocks_plain _ _ hmarker]
  show Speaks content [] a (emitCleaned (a.state.markdownBuffer ++ content) _)
  have hcleaned := emits_emitCleaned (a.state.markdownBuffer ++ content)
    { b with state := { b.state with markdownBuffer := [], dsmlHoldback := [], xmlInvokeBuffer := [] } }
  obtain ⟨emitted, hout, hrest⟩ := hcleaned
  have hfrom : Emits emitted [] b _ :=
    hout.of_state (by simp [contextView, hholdback, hxml]) rfl id
  have hall := hemits.trans hfrom
  exact hall.speaks hrest

theorem scrubContent_plain (h : PlainOptions opts) (text : JsString) :
    scrubContent opts text {} = some (text, {}) := by
  unfold scrubContent createStrippers
  rw [h.directive, h.stripSystemPreamble]
  rfl

theorem stripInternalReasoningPlaceholder_plain (h : ¬ reasoningPlaceholder <:+: text) :
    stripInternalReasoningPlaceholder text = text := by
  unfold stripInternalReasoningPlaceholder
  rw [(JsString.includes_eq_false_iff text reasoningPlaceholder).mpr h]
  rfl

theorem speaks_onContent (hopts : PlainOptions opts) (input : Input) {delta : IncomingDelta}
    (hdelta : PlainDelta delta) (hstate : PlainState a.state)
    (hmarker : firstMarker (a.state.markdownBuffer ++ delta.content.getD []) = none) :
    ∃ b, onContent opts input delta a = some b ∧ Speaks (delta.content.getD []) [] a b := by
  unfold onContent
  cases hcontent : presentId delta.content with
  | none =>
    have hempty : delta.content.getD [] = [] := by
      cases hsome : delta.content with
      | none => rfl
      | some text =>
        rw [hsome] at hcontent
        cases text with
        | nil => rfl
        | cons c cs => cases hcontent
    refine ⟨a, rfl, ?_⟩
    rw [hempty]
    apply (Emits.refl a).speaks
    rw [append_nil]
    rfl
  | some content =>
    obtain ⟨hsome, hne⟩ := presentId_eq_some_iff.mp hcontent
    have hget : delta.content.getD [] = content := by rw [hsome, getD_some]
    have hplaceholder := hdelta.placeholder
    have hdsml := hdelta.dsml
    rw [hget] at hplaceholder hdsml hmarker ⊢
    dsimp only
    rw [stripInternalReasoningPlaceholder_plain hplaceholder,
      if_neg (by simpa using hne), hstate.strippers, scrubContent_plain hopts]
    refine ⟨_, rfl, ?_⟩
    have hsame : { a with state := { a.state with strippers := {} } } = a := by
      rw [← hstate.strippers]
    show Speaks content [] a (onScrubbed opts input content
      { a with state := { a.state with strippers := {} } })
    rw [hsame]
    exact speaks_onScrubbed opts input hstate hdsml hmarker

/-! ## The invariant -/

def applyFragment (codec : JsonCodec) (fragment : ToolCallFragment) (existing : JsString) :
    JsString :=
  match fragment.arguments.filter Json.truthy with
  | none => existing
  | some arguments => appendToolCallArgumentDelta codec existing arguments

def addFragment (codec : JsonCodec) (arguments : Nat → JsString) (fragment : ToolCallFragment) :
    Nat → JsString :=
  fun idx =>
    if idx = fragment.index.getD 0 then applyFragment codec fragment (arguments idx)
    else arguments idx

/-- The entry of a tool call: its arguments so far, which the events show when the
call is not shimmed. -/
structure KeptCall (opts : Options) (arguments : JsString) (next : Nat) (events : List ClaudeEvent)
    (info : ToolInfo) : Prop where
  argBuffer : info.argBuffer = arguments
  inputJson : info.shimmed = false → inputJsonOf info.blockIndex events = arguments
  shimmed : info.shimmed = hasToolCallShim opts.names info.name
  bound : info.blockIndex < next

/-- What has been said so far, in the events and in the state. -/
structure Kept (opts : Options) (content reasoning : JsString) (arguments : Nat → JsString)
    (before : List ClaudeEvent) (a : Acc) : Prop where
  text : textOf (before ++ a.results) ++ a.state.markdownBuffer = content
  thinking : thinkingOf (before ++ a.results) = reasoning
  calls : ∀ idx info, JsMap.get idx a.state.toolCalls = some info →
    KeptCall opts (arguments idx) a.state.nextBlockIndex (before ++ a.results) info
  keys : (JsMap.keys a.state.toolCalls).Nodup
  distinct : ∀ i j info info', JsMap.get i a.state.toolCalls = some info →
    JsMap.get j a.state.toolCalls = some info' → info.blockIndex = info'.blockIndex → i = j
  unknown : ∀ idx, JsMap.get idx a.state.toolCalls = none → arguments idx = []
  fresh : ∀ index, a.state.nextBlockIndex ≤ index → inputJsonOf index (before ++ a.results) = []
  plain : PlainState a.state
  textOpen : TextOpen a.state

theorem Kept.speaks {content reasoning : JsString} {arguments : Nat → JsString}
    {before : List ClaudeEvent} {b : Acc} (h : Kept opts content reasoning arguments before a)
    (hspeaks : Speaks text thinking a b) :
    Kept opts (content ++ text) (reasoning ++ thinking) arguments before b := by
  have hcontext := hspeaks.context
  simp only [contextView, Prod.mk.injEq] at hcontext
  obtain ⟨-, htools, hcalls, hholdback, hxml, hstrippers, -⟩ := hcontext
  have hjson : ∀ index, inputJsonOf index (before ++ b.results) =
      inputJsonOf index (before ++ a.results) := by
    intro index
    rw [inputJsonOf_append, inputJsonOf_append, hspeaks.inputJson]
  refine ⟨?_, ?_, ?_, ?_, ?_, ?_, ?_, ?_, hspeaks.textOpen h.textOpen⟩
  · rw [← h.text, textOf_append, textOf_append, append_assoc, hspeaks.text]
    simp only [append_assoc]
  · rw [← h.thinking, thinkingOf_append, thinkingOf_append, hspeaks.thinking, append_assoc]
  · intro idx info hget
    rw [htools] at hget
    have hcall := h.calls idx info hget
    refine ⟨hcall.argBuffer, ?_, hcall.shimmed, Nat.lt_of_lt_of_le hcall.bound hspeaks.next⟩
    rw [hjson]
    exact hcall.inputJson
  · rw [htools]
    exact h.keys
  · rw [htools]
    exact h.distinct
  · rw [htools]
    exact h.unknown
  · intro index hindex
    rw [hjson]
    exact h.fresh index (Nat.le_trans hspeaks.next hindex)
  · exact ⟨hholdback.trans h.plain.dsmlHoldback, hxml.trans h.plain.xmlInvokeBuffer,
      hstrippers.trans h.plain.strippers, hcalls.trans h.plain.pendingXmlToolCalls⟩

/-! ## Tool calls -/

section Registered

variable {opts : Options} {fragment : ToolCallFragment} {info : ToolInfo}

theorem captureId_kept (fragment : ToolCallFragment) (info : ToolInfo) :
    (captureId fragment info).blockIndex = info.blockIndex ∧
      (captureId fragment info).argBuffer = info.argBuffer ∧
      (captureId fragment info).name = info.name ∧
      (captureId fragment info).shimmed = info.shimmed := by
  unfold captureId
  split
  · split <;> exact ⟨rfl, rfl, rfl, rfl⟩
  · exact ⟨rfl, rfl, rfl, rfl⟩

theorem captureName_kept (h : info.shimmed = hasToolCallShim opts.names info.name) :
    (captureName opts fragment info).blockIndex = info.blockIndex ∧
      (captureName opts fragment info).argBuffer = info.argBuffer ∧
      (captureName opts fragment info).shimmed =
        hasToolCallShim opts.names (captureName opts fragment info).name ∧
      ((captureName opts fragment info).shimmed = false → info.shimmed = false) := by
  unfold captureName
  dsimp only
  split
  · rename_i hlate
    simp only [Bool.and_eq_true] at hlate
    refine ⟨rfl, rfl, rfl, ?_⟩
    intro _
    rw [h, List.isEmpty_iff.mp hlate.2]
    rfl
  · exact ⟨rfl, rfl, h, id⟩

theorem startWhenReady_kept (fragment : ToolCallFragment) (info : ToolInfo) :
    (startWhenReady fragment info).2 =
        { info with startEmitted := (startWhenReady fragment info).2.startEmitted } ∧
      (∀ index, inputJsonOf index (startWhenReady fragment info).1 = []) ∧
      textOf (startWhenReady fragment info).1 = [] ∧
      thinkingOf (startWhenReady fragment info).1 = [] := by
  unfold startWhenReady
  split <;> exact ⟨rfl, fun _ => rfl, rfl, rfl⟩

theorem appendArguments_kept : (appendArguments opts fragment info).2 =
        { info with argBuffer := applyFragment opts.codec fragment info.argBuffer } ∧
      (info.shimmed = false →
        info.argBuffer ++ inputJsonOf info.blockIndex (appendArguments opts fragment info).1 =
          applyFragment opts.codec fragment info.argBuffer) ∧
      (∀ index, index ≠ info.blockIndex →
        inputJsonOf index (appendArguments opts fragment info).1 = []) ∧
      textOf (appendArguments opts fragment info).1 = [] ∧
      thinkingOf (appendArguments opts fragment info).1 = [] := by
  unfold appendArguments applyFragment
  cases fragment.arguments.filter Json.truthy with
  | none => exact ⟨rfl, fun _ => append_nil _, fun _ _ => rfl, rfl, rfl⟩
  | some arguments =>
    have hgrow := appendToolCallArgumentDelta_eq_append opts.codec info.argBuffer arguments
    dsimp only
    split
    · rename_i hsilent
      refine ⟨rfl, ?_, fun _ _ => rfl, rfl, rfl⟩
      intro hshimmed
      rw [hshimmed, Bool.false_or] at hsilent
      rw [List.isEmpty_iff.mp hsilent] at hgrow
      exact hgrow
    · refine ⟨rfl, ?_, ?_, rfl, rfl⟩
      · intro _
        rw [← hgrow]
        simp [inputJsonOf]
      · intro index hindex
        simp [inputJsonOf, Ne.symm hindex]

/-- What a fragment does to a registered call, in its events and in its entry. -/
theorem onRegistered_kept (h : info.shimmed = hasToolCallShim opts.names info.name) :
    (onRegistered opts fragment info).2.blockIndex = info.blockIndex ∧
      (onRegistered opts fragment info).2.argBuffer =
        applyFragment opts.codec fragment info.argBuffer ∧
      (onRegistered opts fragment info).2.shimmed =
        hasToolCallShim opts.names (onRegistered opts fragment info).2.name ∧
      ((onRegistered opts fragment info).2.shimmed = false → info.shimmed = false ∧
        info.argBuffer ++ inputJsonOf info.blockIndex (onRegistered opts fragment info).1 =
          (onRegistered opts fragment info).2.argBuffer) ∧
      (∀ index, index ≠ info.blockIndex →
        inputJsonOf index (onRegistered opts fragment info).1 = []) ∧
      textOf (onRegistered opts fragment info).1 = [] ∧
      thinkingOf (onRegistered opts fragment info).1 = [] := by
  obtain ⟨hblock, hargs, hname, hshim⟩ := captureId_kept fragment info
  have hcapture : (captureId fragment info).shimmed =
      hasToolCallShim opts.names (captureId fragment info).name := by rw [hshim, hname, h]
  obtain ⟨hblock', hargs', hshim', hshimmed⟩ := captureName_kept hcapture
  rw [hblock] at hblock'
  rw [hargs] at hargs'
  rw [hshim] at hshimmed
  unfold onRegistered
  generalize captureName opts fragment (captureId fragment info) = named
    at hblock' hargs' hshim' hshimmed ⊢
  obtain ⟨hstarted, hjson, htext, hthinking⟩ := startWhenReady_kept fragment named
  generalize startWhenReady fragment named = started at hstarted hjson htext hthinking ⊢
  obtain ⟨happend, hshown, hother, htext', hthinking'⟩ :=
    @appendArguments_kept opts fragment started.2
  have hinfo : started.2.blockIndex = info.blockIndex ∧ started.2.argBuffer = info.argBuffer ∧
      started.2.shimmed = named.shimmed ∧ started.2.name = named.name := by
    rw [hstarted]
    exact ⟨hblock', hargs', rfl, rfl⟩
  obtain ⟨hblock'', hargs'', hshim'', hname''⟩ := hinfo
  rw [hblock'', hargs''] at hshown
  rw [hblock''] at hother
  rw [happend, hargs'']
  refine ⟨hblock'', rfl, ?_, ?_, ?_, ?_, ?_⟩
  · show started.2.shimmed = hasToolCallShim opts.names started.2.name
    rw [hshim'', hname'']
    exact hshim'
  · intro hfalse
    have hnamed : named.shimmed = false := hshim''.symm.trans hfalse
    refine ⟨hshimmed hnamed, ?_⟩
    rw [inputJsonOf_append, hjson, nil_append]
    exact hshown hfalse
  · intro index hindex
    rw [inputJsonOf_append, hjson, hother index hindex]
    rfl
  · rw [textOf_append, htext, htext']
    rfl
  · rw [thinkingOf_append, hthinking, hthinking']
    rfl

end Registered

section Calls

variable {opts : Options} {content reasoning : JsString} {arguments : Nat → JsString}
  {before : List ClaudeEvent} {a : Acc} (fragment : ToolCallFragment)

theorem kept_registerToolCall (h : Kept opts content reasoning arguments before a) :
    Kept opts content reasoning arguments before (registerToolCall opts fragment a) := by
  unfold registerToolCall
  dsimp only
  split
  · rename_i id hid hget
    have hthinking := speaks_stopThinkingBlock a
    have hstop := (h.speaks hthinking).speaks (speaks_stopTextBlock (hthinking.textOpen h.textOpen))
    simp only [append_nil] at hstop
    have htools : (stopTextBlock (stopThinkingBlock a)).state.toolCalls = a.state.toolCalls :=
      congrArg (fun view => view.2.1) ((contextView_stopTextBlock _).trans
        (contextView_stopThinkingBlock a))
    rw [← htools] at hget
    generalize stopTextBlock (stopThinkingBlock a) = b at hstop hget ⊢
    refine ⟨hstop.text, hstop.thinking, ?_, JsMap.nodup_keys_set hstop.keys, ?_, ?_, ?_, ?_,
      hstop.textOpen⟩
    all_goals dsimp only
    · intro idx info
      rw [JsMap.get_set]
      split
      · rename_i hidx
        intro hinfo
        rw [← Option.some.inj hinfo, ← hidx]
        have hempty := hstop.unknown _ hget
        refine ⟨hempty.symm, fun _ => ?_, rfl, Nat.lt_succ_self _⟩
        rw [hempty]
        exact hstop.fresh _ (Nat.le_refl _)
      · intro hinfo
        have hcall := hstop.calls idx info hinfo
        exact { hcall with bound := Nat.lt_succ_of_lt hcall.bound }
    · intro i j info info'
      rw [JsMap.get_set, JsMap.get_set]
      -- The number of the new block is above the numbers of the others.
      split
      · rename_i hi
        split
        · rename_i hj
          intro _ _ _
          rw [← hi, ← hj]
        · intro hinfo hinfo' hsame
          have hbound := (hstop.calls j info' hinfo').bound
          rw [← Option.some.inj hinfo] at hsame
          dsimp only at hsame
          omega
      · split
        · intro hinfo hinfo' hsame
          have hbound := (hstop.calls i info hinfo).bound
          rw [← Option.some.inj hinfo'] at hsame
          dsimp only at hsame
          omega
        · exact hstop.distinct i j info info'
    · intro idx
      rw [JsMap.get_set]
      split
      · intro hnone
        cases hnone
      · exact hstop.unknown idx
    · intro index hindex
      exact hstop.fresh index (by omega)
    · exact { hstop.plain with }
  · exact h

theorem get_registerToolCall {i : Nat} (h : (JsMap.get i a.state.toolCalls).isSome = true ∨
      (i = fragment.index.getD 0 ∧ (presentId fragment.id).isSome = true)) :
    (JsMap.get i (registerToolCall opts fragment a).state.toolCalls).isSome = true := by
  have htools : (stopTextBlock (stopThinkingBlock a)).state.toolCalls = a.state.toolCalls :=
    congrArg (fun view => view.2.1) ((contextView_stopTextBlock _).trans
      (contextView_stopThinkingBlock a))
  unfold registerToolCall
  dsimp only
  split
  · rw [JsMap.get_set, htools]
    split
    · rfl
    · rename_i hne
      rcases h with h | ⟨h, -⟩
      · exact h
      · exact absurd h.symm hne
  · rename_i hnot
    rcases h with h | ⟨rfl, h⟩
    · exact h
    · cases hget : JsMap.get (fragment.index.getD 0) a.state.toolCalls with
      | some info => rfl
      | none =>
        obtain ⟨id, hid⟩ := isSome_iff_exists.mp h
        exact absurd hget (hnot id hid)

theorem kept_onToolCall {fragment : ToolCallFragment}
    (h : Kept opts content reasoning arguments before a)
    (hknown : (fragment.arguments.filter Json.truthy).isSome = true →
      (JsMap.get (fragment.index.getD 0) a.state.toolCalls).isSome = true ∨
        (presentId fragment.id).isSome = true) :
    Kept opts content reasoning (addFragment opts.codec arguments fragment) before
      (onToolCall opts a fragment) := by
  have hregister := kept_registerToolCall fragment h
  have hget : (fragment.arguments.filter Json.truthy).isSome = true →
      (JsMap.get (fragment.index.getD 0)
        (registerToolCall opts fragment a).state.toolCalls).isSome = true := by
    intro htruthy
    apply get_registerToolCall fragment
    rcases hknown htruthy with hknown | hknown
    · exact .inl hknown
    · exact .inr ⟨rfl, hknown⟩
  unfold onToolCall
  dsimp only
  generalize registerToolCall opts fragment a = b at hregister hget ⊢
  cases hinfo : JsMap.get (fragment.index.getD 0) b.state.toolCalls with
  | none =>
    have hsame : addFragment opts.codec arguments fragment = arguments := by
      funext idx
      unfold addFragment
      split
      · unfold applyFragment
        cases harguments : fragment.arguments.filter Json.truthy with
        | none => rfl
        | some value =>
          rw [hinfo, harguments] at hget
          cases hget rfl
      · rfl
    rw [hsame]
    exact hregister
  | some info =>
    have hcall := hregister.calls _ info hinfo
    obtain ⟨hblock, hargs, hshim, hshown, hother, htext, hthinking⟩ :=
      @onRegistered_kept opts fragment info hcall.shimmed
    dsimp only
    generalize onRegistered opts fragment info = result
      at hblock hargs hshim hshown hother htext hthinking ⊢
    have hjson : ∀ index, inputJsonOf index (before ++ (b.results ++ result.1)) =
        inputJsonOf index (before ++ b.results) ++ inputJsonOf index result.1 := by
      intro index
      rw [← append_assoc, inputJsonOf_append]
    refine ⟨?_, ?_, ?_, JsMap.nodup_keys_set hregister.keys, ?_, ?_, ?_, ?_, hregister.textOpen⟩
    · rw [← hregister.text, ← append_assoc, textOf_append, htext, append_nil]
    · rw [← hregister.thinking, ← append_assoc, thinkingOf_append, hthinking, append_nil]
    · intro idx info'
      rw [JsMap.get_set]
      unfold addFragment
      split
      · rename_i hidx
        intro hinfo'
        rw [← Option.some.inj hinfo', ← hidx, if_pos rfl, ← hcall.argBuffer]
        refine ⟨hargs, ?_, hshim, hblock ▸ hcall.bound⟩
        intro hfalse
        obtain ⟨hshimmed, hgrow⟩ := hshown hfalse
        rw [hblock, hjson, hcall.inputJson hshimmed, ← hcall.argBuffer, hgrow, hargs]
      · rename_i hidx
        intro hinfo'
        have hcall' := hregister.calls idx info' hinfo'
        rw [if_neg (fun heq => hidx heq.symm)]
        refine { hcall' with inputJson := ?_ }
        intro hfalse
        have hne : info'.blockIndex ≠ info.blockIndex := fun heq =>
          hidx (hregister.distinct _ _ _ _ hinfo hinfo' heq.symm)
        rw [hjson, hother _ hne, append_nil]
        exact hcall'.inputJson hfalse
    · intro i j info₁ info₂
      have hmatch : ∀ k info', JsMap.get k (JsMap.set (fragment.index.getD 0) result.2
          b.state.toolCalls) = some info' →
          ∃ old, JsMap.get k b.state.toolCalls = some old ∧ old.blockIndex = info'.blockIndex := by
        intro k info'
        rw [JsMap.get_set]
        split
        · rename_i hk
          intro hinfo'
          rw [← Option.some.inj hinfo', ← hk]
          exact ⟨info, hinfo, hblock.symm⟩
        · intro hinfo'
          exact ⟨info', hinfo', rfl⟩
      intro hfirst hsecond hsame
      obtain ⟨old₁, hold₁, heq₁⟩ := hmatch i info₁ hfirst
      obtain ⟨old₂, hold₂, heq₂⟩ := hmatch j info₂ hsecond
      exact hregister.distinct i j old₁ old₂ hold₁ hold₂ (heq₁.trans (hsame.trans heq₂.symm))
    · intro idx
      rw [JsMap.get_set]
      split
      · intro hnone
        cases hnone
      · rename_i hidx
        intro hnone
        rw [addFragment, if_neg (fun heq => hidx heq.symm)]
        exact hregister.unknown idx hnone
    · intro index hindex
      have hne : index ≠ info.blockIndex := by
        have hbound := hcall.bound
        dsimp only at hindex
        omega
      rw [hjson, hother index hne, append_nil]
      exact hregister.fresh index hindex
    · exact { hregister.plain with }

theorem get_onToolCall {i : Nat} (h : (JsMap.get i a.state.toolCalls).isSome = true ∨
      (i = fragment.index.getD 0 ∧ (presentId fragment.id).isSome = true)) :
    (JsMap.get i (onToolCall opts a fragment).state.toolCalls).isSome = true := by
  have hregister := @get_registerToolCall opts a fragment i h
  unfold onToolCall
  dsimp only
  split
  · exact hregister
  · rw [JsMap.get_set]
    split
    · rfl
    · exact hregister

/-- Whether the fragments with arguments belong to calls whose id has been seen. -/
def fragmentsKnown : (Nat → Bool) → List ToolCallFragment → Bool
  | _, [] => true
  | known, fragment :: fragments =>
      let known := fun i =>
        known i || (i == fragment.index.getD 0 && (presentId fragment.id).isSome)
      ((fragment.arguments.filter Json.truthy).isNone || known (fragment.index.getD 0)) &&
        fragmentsKnown known fragments

theorem kept_toolCalls (fragments : List ToolCallFragment) {known : Nat → Bool}
    (h : Kept opts content reasoning arguments before a)
    (hknown : ∀ i, known i = true → (JsMap.get i a.state.toolCalls).isSome = true)
    (hall : fragmentsKnown known fragments = true) :
    Kept opts content reasoning (fragments.foldl (addFragment opts.codec) arguments) before
      (fragments.foldl (onToolCall opts) a) := by
  induction fragments generalizing a arguments known with
  | nil => exact h
  | cons fragment fragments ih =>
    rw [fragmentsKnown, Bool.and_eq_true] at hall
    obtain ⟨hfirst, hrest⟩ := hall
    have hstep := @kept_onToolCall opts content reasoning arguments before a fragment h (by
      intro hsome
      rw [Bool.or_eq_true] at hfirst
      rcases hfirst with hnone | hseen
      · rw [isNone_iff_eq_none.mp hnone] at hsome
        cases hsome
      · simp only [Bool.or_eq_true, beq_self_eq_true] at hseen
        rcases hseen with hseen | hseen
        · exact .inl (hknown _ hseen)
        · exact .inr hseen)
    refine ih hstep ?_ hrest
    intro i hi
    simp only [Bool.or_eq_true, Bool.and_eq_true, beq_iff_eq] at hi
    apply get_onToolCall
    rcases hi with hi | hi
    · exact .inl (hknown i hi)
    · exact .inr hi

theorem kept_replayedToolCalls (fragments : List ToolCallFragment)
    (h : Kept opts content reasoning arguments before a)
    (hneutral : ∀ fragment ∈ fragments, (fragment.arguments.filter Json.truthy).isSome = true →
      (JsMap.get (fragment.index.getD 0) a.state.toolCalls).isSome = true ∧
        applyFragment opts.codec fragment (arguments (fragment.index.getD 0)) =
          arguments (fragment.index.getD 0)) :
    Kept opts content reasoning arguments before (fragments.foldl (onToolCall opts) a) := by
  induction fragments generalizing a with
  | nil => exact h
  | cons fragment fragments ih =>
    have hstep := @kept_onToolCall opts content reasoning arguments before a fragment h
      fun hsome => .inl (hneutral fragment mem_cons_self hsome).1
    have hsame : addFragment opts.codec arguments fragment = arguments := by
      funext idx
      unfold addFragment
      split
      · rename_i hidx
        rw [hidx]
        cases harguments : fragment.arguments.filter Json.truthy with
        | none => rw [applyFragment, harguments]
        | some value => exact (hneutral fragment mem_cons_self (by rw [harguments]; rfl)).2
      · rfl
    rw [hsame] at hstep
    apply ih hstep
    intro f hf hsome
    obtain ⟨hget, happly⟩ := hneutral f (mem_cons_of_mem _ hf) hsome
    exact ⟨get_onToolCall fragment (.inl hget), happly⟩

end Calls

end RedRouter.Response.OpenaiToClaude
