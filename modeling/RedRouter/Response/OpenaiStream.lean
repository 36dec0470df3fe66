import RedRouter.Response.OpenaiToClaude

/-!
# OpenAI streams give whole Claude blocks

The events of a stream are one message whose blocks are whole, though they may
interleave. `Formed` ties the events so far to the state: the open text block,
the open thinking block and the tool calls are the entries of a ledger, and
all other blocks are done.
-/

namespace RedRouter.Response.OpenaiToClaude

open List Blocks Chat MarkdownBoundary XmlInvoke DsmlToolCalls PreambleStripper ToolCallShim

/-! ## The contract -/

/-- One message whose blocks are whole. -/
structure WellFormedStream (events : List ClaudeEvent) : Prop where
  shape : ∃ id model blocks reason usage count,
    events = .messageStart id model :: (blocks ++ [.messageDelta reason usage, .messageStop]) ∧
      OnlyBlocks blocks ∧ (∀ f ∈ framesOf blocks, f.key < count) ∧
      ∀ index < count, Lifecycle index (framesOf blocks)

/-! ## Blocks so far -/

/-- The block of a tool call: its number is given out before it starts. -/
def toolEntry (info : ToolInfo) : Nat × Phase :=
  (info.blockIndex, if info.startEmitted then .live else .fresh)

def textEntries (s : State) : List (Nat × Phase) :=
  if s.textBlockStarted then [(s.textBlockIndex, .live)] else []

def thinkingEntries (s : State) : List (Nat × Phase) :=
  if s.thinkingBlockStarted then [(s.thinkingBlockIndex, .live)] else []

def toolEntries (toolCalls : JsMap Nat ToolInfo) : List (Nat × Phase) :=
  toolCalls.map fun (_, info) => toolEntry info

def entries (s : State) : List (Nat × Phase) :=
  textEntries s ++ (thinkingEntries s ++ toolEntries s.toolCalls)

/-- The blocks of a message so far. -/
structure Formed (blocks : List ClaudeEvent) (s : State) : Prop where
  onlyBlocks : OnlyBlocks blocks
  ledger : Ledger (framesOf blocks) s.nextBlockIndex (entries s)
  keys : (JsMap.keys s.toolCalls).Nodup
  textOpen : s.textBlockStarted = true → s.textBlockClosed = false

/-- The message so far, with the results of the current chunk. -/
def Holds (before : List ClaudeEvent) (a : Acc) : Prop :=
  ∃ id model blocks, before ++ a.results = .messageStart id model :: blocks ∧ Formed blocks a.state

/-- The part of the state that says which blocks there are. -/
def blockView (s : State) :=
  (s.nextBlockIndex, (s.textBlockStarted, s.textBlockClosed, s.textBlockIndex),
    (s.thinkingBlockStarted, s.thinkingBlockIndex), s.toolCalls)

variable {before : List ClaudeEvent} {a : Acc}

theorem entries_of_view {s s' : State} (h : blockView s = blockView s') : entries s = entries s' := by
  simp only [blockView, Prod.mk.injEq] at h
  obtain ⟨-, ⟨hstarted, -, hindex⟩, ⟨hthinking, hthinkingIndex⟩, htools⟩ := h
  unfold entries textEntries thinkingEntries
  rw [hstarted, hindex, hthinking, hthinkingIndex, htools]

theorem Formed.of_view {blocks : List ClaudeEvent} {s s' : State} (h : Formed blocks s)
    (hview : blockView s' = blockView s) : Formed blocks s' := by
  have hentries := entries_of_view hview
  simp only [blockView, Prod.mk.injEq] at hview
  obtain ⟨hnext, ⟨hstarted, hclosed, -⟩, -, htools⟩ := hview
  refine ⟨h.onlyBlocks, ?_, ?_, ?_⟩
  · rw [hnext, hentries]
    exact h.ledger
  · rw [htools]
    exact h.keys
  · rw [hstarted, hclosed]
    exact h.textOpen

theorem Holds.text_stopped (h : Holds before a) :
    (!a.state.textBlockStarted || a.state.textBlockClosed) = !a.state.textBlockStarted := by
  obtain ⟨id, model, blocks, -, hformed⟩ := h
  cases hstarted : a.state.textBlockStarted with
  | false => rfl
  | true => exact hformed.textOpen hstarted

theorem Holds.of_view (h : Holds before a) {s : State} (hview : blockView s = blockView a.state) :
    Holds before { a with state := s } := by
  obtain ⟨id, model, blocks, hevents, hformed⟩ := h
  exact ⟨id, model, blocks, hevents, hformed.of_view hview⟩

theorem Holds.append (h : Holds before a) {s : State} {events : List ClaudeEvent}
    (honly : OnlyBlocks events)
    (hledger : ∀ frames, Ledger frames a.state.nextBlockIndex (entries a.state) →
      Ledger (frames ++ framesOf events) s.nextBlockIndex (entries s))
    (hkeys : (JsMap.keys a.state.toolCalls).Nodup → (JsMap.keys s.toolCalls).Nodup)
    (htext : (a.state.textBlockStarted = true → a.state.textBlockClosed = false) →
      s.textBlockStarted = true → s.textBlockClosed = false) :
    Holds before { state := s, results := a.results ++ events } := by
  obtain ⟨id, model, blocks, hevents, hformed⟩ := h
  refine ⟨id, model, blocks ++ events, ?_, ?_⟩
  · rw [← append_assoc, hevents]
    rfl
  · refine ⟨hformed.onlyBlocks.append honly, ?_, hkeys hformed.keys, htext hformed.textOpen⟩
    rw [framesOf_append]
    exact hledger _ hformed.ledger

/-! ## Text and thinking -/

theorem holds_stopThinkingBlock (h : Holds before a) : Holds before (stopThinkingBlock a) := by
  unfold stopThinkingBlock
  split
  · rename_i hstarted
    refine h.append (by simp [OnlyBlocks, frameOf]) ?_ id id
    intro frames hledger
    have hentries : entries a.state = textEntries a.state ++
        (a.state.thinkingBlockIndex, .live) :: toolEntries a.state.toolCalls := by
      simp [entries, thinkingEntries, hstarted]
    rw [hentries] at hledger
    exact (hledger.perm perm_middle).stop
  · exact h

theorem stopThinkingBlock_stopped (a : Acc) :
    (stopThinkingBlock a).state.thinkingBlockStarted = false := by
  unfold stopThinkingBlock
  split
  · rfl
  · rename_i hstarted
    simpa using hstarted

theorem holds_startTextBlock (h : Holds before a) (hstarted : a.state.textBlockStarted = false) :
    Holds before (startTextBlock a) := by
  refine h.append (by simp [OnlyBlocks, frameOf]) ?_ id fun _ _ => rfl
  intro frames hledger
  have hentries : entries a.state = thinkingEntries a.state ++ toolEntries a.state.toolCalls := by
    simp [entries, textEntries, hstarted]
  rw [hentries] at hledger
  exact hledger.begin

variable (text : JsString)

section

variable (h : Holds before a)
include h

theorem holds_textDelta (hstarted : a.state.textBlockStarted = true) : Holds before (textDelta text a) := by
  refine h.append (by simp [OnlyBlocks, frameOf]) ?_ id id
  intro frames hledger
  have hentries : entries a.state = (a.state.textBlockIndex, .live) ::
      (thinkingEntries a.state ++ toolEntries a.state.toolCalls) := by
    simp [entries, textEntries, hstarted]
  rw [hentries] at hledger ⊢
  exact hledger.delta

theorem holds_openTextBlock :
    Holds before (openTextBlock a) ∧ (openTextBlock a).state.textBlockStarted = true := by
  unfold openTextBlock
  split
  · rename_i hstarted
    exact ⟨h, hstarted⟩
  · rename_i hstarted
    exact ⟨holds_startTextBlock h (by simpa using hstarted), rfl⟩

theorem holds_emitText : Holds before (emitText text a) := by
  obtain ⟨hopen, hstarted⟩ := holds_openTextBlock h
  exact holds_textDelta text hopen hstarted

theorem holds_flushMarkdownBuffer : Holds before (flushMarkdownBuffer a) := by
  unfold flushMarkdownBuffer
  dsimp only
  split
  · exact h.of_view rfl
  · have hcleared : Holds before
        { a with state := { a.state with markdown := {}, markdownBuffer := [] } } := h.of_view rfl
    obtain ⟨hopen, hstarted⟩ := holds_openTextBlock hcleared
    split
    · exact hopen
    · exact holds_textDelta _ hopen hstarted

theorem holds_stopTextBlock :
    Holds before (stopTextBlock a) ∧ (stopTextBlock a).state.textBlockStarted = false := by
  have hflush := holds_flushMarkdownBuffer h
  have hstopped := hflush.text_stopped
  unfold stopTextBlock
  dsimp only
  generalize flushMarkdownBuffer a = a at hflush hstopped ⊢
  rw [hstopped]
  split
  · rename_i hstarted
    exact ⟨hflush, by simpa using hstarted⟩
  · rename_i hstarted
    have hstarted : a.state.textBlockStarted = true := by simpa using hstarted
    refine ⟨hflush.append (by simp [OnlyBlocks, frameOf]) ?_ id ?_, rfl⟩
    · intro frames hledger
      have hentries : entries a.state = (a.state.textBlockIndex, .live) ::
          (thinkingEntries a.state ++ toolEntries a.state.toolCalls) := by
        simp [entries, textEntries, hstarted]
      rw [hentries] at hledger
      exact hledger.stop
    · intro _ hfalse
      cases hfalse

theorem holds_openThinkingBlock :
    Holds before (openThinkingBlock a) ∧
      (openThinkingBlock a).state.thinkingBlockStarted = true := by
  unfold openThinkingBlock
  split
  · rename_i hstarted
    exact ⟨h, hstarted⟩
  · rename_i hstarted
    refine ⟨h.append (by simp [OnlyBlocks, frameOf]) ?_ id id, rfl⟩
    intro frames hledger
    have hentries : entries a.state = textEntries a.state ++ toolEntries a.state.toolCalls := by
      simp [entries, thinkingEntries, hstarted]
    rw [hentries] at hledger
    exact hledger.begin.perm perm_middle.symm

theorem holds_emitThinking : Holds before (emitThinking text a) := by
  obtain ⟨hopen, hstarted⟩ := holds_openThinkingBlock (holds_stopTextBlock h).1
  unfold emitThinking
  generalize openThinkingBlock (stopTextBlock a) = a at hopen hstarted ⊢
  refine hopen.append (by simp [OnlyBlocks, frameOf]) ?_ id id
  intro frames hledger
  have hentries : entries a.state = textEntries a.state ++
      (a.state.thinkingBlockIndex, .live) :: toolEntries a.state.toolCalls := by
    simp [entries, thinkingEntries, hstarted]
  rw [hentries] at hledger ⊢
  exact (hledger.perm perm_middle).delta.perm perm_middle.symm

end

variable (opts : Options)

theorem holds_onReasoning (delta : IncomingDelta) (h : Holds before a) :
    Holds before (onReasoning opts delta a) := by
  unfold onReasoning
  dsimp only
  split
  · exact h
  · split
    · exact h.of_view rfl
    · exact (holds_emitThinking _ h).of_view rfl

theorem holds_emitCleaned (cleaned : JsString) (h : Holds before a) :
    Holds before (emitCleaned cleaned a) := by
  unfold emitCleaned
  dsimp only
  split
  · exact h.of_view rfl
  · apply holds_emitText
    exact h.of_view rfl

theorem holds_queueToolCalls (calls : List TextToolCall) (h : Holds before a) :
    Holds before (queueToolCalls calls a) := by
  unfold queueToolCalls
  split
  · exact h
  · exact (holds_stopTextBlock h).1.of_view rfl

/-! ## What the blocks leave alone -/

/-- The part of the state that text and thinking blocks do not touch. -/
def contextView (s : State) :=
  (s.messageStartSent, s.toolCalls, s.pendingXmlToolCalls, s.dsmlHoldback, s.xmlInvokeBuffer,
    s.strippers, s.claudeFinishEmitted, s.pendingClaudeFinishChoice)

@[simp] theorem contextView_stopThinkingBlock (a : Acc) :
    contextView (stopThinkingBlock a).state = contextView a.state := by
  unfold stopThinkingBlock
  split <;> rfl

@[simp] theorem contextView_openTextBlock (a : Acc) :
    contextView (openTextBlock a).state = contextView a.state := by
  unfold openTextBlock
  split <;> rfl

@[simp] theorem contextView_emitText (a : Acc) :
    contextView (emitText text a).state = contextView a.state := contextView_openTextBlock a

@[simp] theorem contextView_flushMarkdownBuffer (a : Acc) :
    contextView (flushMarkdownBuffer a).state = contextView a.state := by
  unfold flushMarkdownBuffer
  dsimp only
  split
  · rfl
  · split <;> exact contextView_openTextBlock _

@[simp] theorem contextView_stopTextBlock (a : Acc) :
    contextView (stopTextBlock a).state = contextView a.state := by
  rw [← contextView_flushMarkdownBuffer a]
  unfold stopTextBlock
  dsimp only
  split <;> rfl

@[simp] theorem contextView_emitThinking (a : Acc) :
    contextView (emitThinking text a).state = contextView a.state := by
  rw [← contextView_stopTextBlock a]
  unfold emitThinking openThinkingBlock
  split <;> rfl

@[simp] theorem contextView_onReasoning (delta : IncomingDelta) (a : Acc) :
    contextView (onReasoning opts delta a).state = contextView a.state := by
  unfold onReasoning
  dsimp only
  split
  · rfl
  · split
    · rfl
    · exact contextView_emitThinking _ a

/-! ## Tool calls -/

/-- The entries other than that of one tool call. -/
def otherEntries (idx : Nat) (s : State) : List (Nat × Phase) :=
  textEntries s ++ (thinkingEntries s ++ toolEntries (JsMap.delete idx s.toolCalls))

theorem entries_perm {s : State} {idx : Nat} {info : ToolInfo}
    (h : s.toolCalls.Perm ((idx, info) :: JsMap.delete idx s.toolCalls)) :
    (entries s).Perm (toolEntry info :: otherEntries idx s) := by
  have htools : (toolEntries s.toolCalls).Perm
      (toolEntry info :: toolEntries (JsMap.delete idx s.toolCalls)) := h.map _
  refine ((htools.append_left _).append_left _).trans ?_
  exact (List.perm_middle.append_left _).trans perm_middle

variable (fragment : ToolCallFragment)

theorem holds_registerToolCall
    (h : Holds before a) : Holds before (registerToolCall opts fragment a) := by
  have hstop := (holds_stopTextBlock (holds_stopThinkingBlock h)).1
  unfold registerToolCall
  dsimp only
  split
  · rename_i id hid hget
    have htools : (stopTextBlock (stopThinkingBlock a)).state.toolCalls = a.state.toolCalls :=
      congrArg (fun view => view.2.1) ((contextView_stopTextBlock _).trans
        (contextView_stopThinkingBlock a))
    rw [← htools] at hget
    generalize stopTextBlock (stopThinkingBlock a) = a at hstop hget ⊢
    obtain ⟨msgId, model, blocks, hevents, hformed⟩ := hstop
    have hfresh := JsMap.get_eq_none_iff.mp hget
    refine ⟨msgId, model, blocks, hevents, hformed.onlyBlocks, ?_,
      JsMap.nodup_keys_set hformed.keys, hformed.textOpen⟩
    -- The number is given out; the block itself starts later.
    have hreserve := hformed.ledger.reserve
    refine hreserve.perm (List.Perm.symm ?_)
    have hperm := JsMap.set_perm (fragment.index.getD 0)
      ({ id := sanitizeToolId id
         name := incomingName opts fragment
         blockIndex := a.state.nextBlockIndex
         shimmed := hasToolCallShim opts.names (incomingName opts fragment) } : ToolInfo)
      hformed.keys
    rw [JsMap.delete_of_not_mem hfresh] at hperm
    refine (((hperm.map _).append_left _).append_left _).trans ?_
    exact (List.perm_middle.append_left _).trans perm_middle
  · exact h

theorem toolEntry_capture (info : ToolInfo) :
    toolEntry (captureName opts fragment (captureId fragment info)) = toolEntry info := by
  have hid : toolEntry (captureId fragment info) = toolEntry info := by
    unfold captureId
    split
    · split <;> rfl
    · rfl
  rw [← hid]
  unfold captureName
  dsimp only
  split <;> rfl

section Fragment

variable {frames : List (Frame Nat)} {next : Nat} {rest : List (Nat × Phase)} {info : ToolInfo}

theorem ledger_startWhenReady (fragment : ToolCallFragment)
    (h : Ledger frames next (toolEntry info :: rest)) :
    Ledger (frames ++ framesOf (startWhenReady fragment info).1) next
      (toolEntry (startWhenReady fragment info).2 :: rest) := by
  unfold startWhenReady
  split
  · rename_i hready
    have hstarted : info.startEmitted = false := by
      simp only [Bool.and_eq_true, Bool.not_eq_true'] at hready
      exact hready.1
    have hentry : toolEntry info = (info.blockIndex, .fresh) := by simp [toolEntry, hstarted]
    rw [hentry] at h
    exact h.start
  · rw [framesOf_nil, append_nil]
    exact h

theorem startWhenReady_started {fragment : ToolCallFragment} (h : hasArguments fragment = true) :
    (startWhenReady fragment info).2.startEmitted = true := by
  unfold startWhenReady
  split
  · rfl
  · rename_i hnot
    simpa [h] using hnot

theorem hasArguments_of_truthy {fragment : ToolCallFragment} {arguments : Json}
    (h : fragment.arguments.filter Json.truthy = some arguments) :
    hasArguments fragment = true := by
  obtain ⟨hsome, htruthy⟩ := Option.filter_eq_some_iff.mp h
  unfold hasArguments
  rw [hsome]
  cases arguments with
  | null => cases htruthy
  | bool _ => rfl
  | num _ => rfl
  | str _ => rfl
  | arr _ => rfl
  | obj _ => rfl

theorem ledger_appendArguments (opts : Options) {fragment : ToolCallFragment}
    (hstarted : hasArguments fragment = true → info.startEmitted = true)
    (h : Ledger frames next (toolEntry info :: rest)) :
    Ledger (frames ++ framesOf (appendArguments opts fragment info).1) next
      (toolEntry (appendArguments opts fragment info).2 :: rest) := by
  unfold appendArguments
  cases harguments : fragment.arguments.filter Json.truthy with
  | none =>
    rw [framesOf_nil, append_nil]
    exact h
  | some arguments =>
    have hlive : toolEntry info = (info.blockIndex, .live) := by
      simp [toolEntry, hstarted (hasArguments_of_truthy harguments)]
    dsimp only
    split
    · rw [framesOf_nil, append_nil]
      exact h
    · show Ledger _ next (toolEntry info :: rest)
      rw [hlive] at h ⊢
      exact h.delta

theorem ledger_onRegistered (opts : Options) (fragment : ToolCallFragment)
    (h : Ledger frames next (toolEntry info :: rest)) :
    Ledger (frames ++ framesOf (onRegistered opts fragment info).1) next
      (toolEntry (onRegistered opts fragment info).2 :: rest) := by
  rw [← toolEntry_capture opts fragment info] at h
  unfold onRegistered
  rw [framesOf_append, ← append_assoc]
  apply ledger_appendArguments opts
  · exact fun harguments => startWhenReady_started harguments
  · exact ledger_startWhenReady fragment h

end Fragment

theorem onlyBlocks_onRegistered (info : ToolInfo) :
    OnlyBlocks (onRegistered opts fragment info).1 := by
  unfold onRegistered
  apply OnlyBlocks.append
  · unfold startWhenReady
    split <;> simp [OnlyBlocks, startToolBlock, frameOf]
  · unfold appendArguments
    split
    · simp [OnlyBlocks]
    · dsimp only
      split <;> simp [OnlyBlocks, frameOf]

theorem holds_onToolCall (h : Holds before a) : Holds before (onToolCall opts a fragment) := by
  have hregister := holds_registerToolCall opts fragment h
  unfold onToolCall
  dsimp only
  generalize registerToolCall opts fragment a = a at hregister ⊢
  cases hget : JsMap.get (fragment.index.getD 0) a.state.toolCalls with
  | none => exact hregister
  | some info =>
    have hkeys : (JsMap.keys a.state.toolCalls).Nodup := by
      obtain ⟨id, model, blocks, -, hformed⟩ := hregister
      exact hformed.keys
    apply hregister.append (onlyBlocks_onRegistered opts fragment info)
    · intro frames hledger
      have hperm := entries_perm (JsMap.perm_of_get hkeys hget)
      have hset := JsMap.set_perm (fragment.index.getD 0) (onRegistered opts fragment info).2 hkeys
      refine (ledger_onRegistered opts fragment (hledger.perm hperm)).perm (List.Perm.symm ?_)
      refine (((hset.map _).append_left _).append_left _).trans ?_
      exact (List.perm_middle.append_left _).trans perm_middle
    · exact JsMap.nodup_keys_set
    · exact id

theorem holds_toolCalls (fragments : List ToolCallFragment)
    (h : Holds before a) : Holds before (fragments.foldl (onToolCall opts) a) := by
  induction fragments generalizing a with
  | nil => exact h
  | cons fragment fragments ih => exact ih (holds_onToolCall opts fragment h)

/-! ## The finish -/

theorem holds_emitPreamble (h : Holds before a) : Holds before (emitPreamble a) := by
  have hstopped := h.text_stopped
  unfold emitPreamble
  dsimp only
  have hflushed : Holds before
      { a with state := { a.state with strippers := (flushPreamble a.state.strippers).2 } } :=
    h.of_view rfl
  split
  · exact hflushed
  · rw [hstopped]
    split
    · rename_i hstarted
      exact holds_textDelta _ (holds_startTextBlock hflushed (by simpa using hstarted)) rfl
    · rename_i hstarted
      exact holds_textDelta _ hflushed (by simpa using hstarted)

theorem holds_emitReasoningAsText (h : Holds before a) :
    Holds before (emitReasoningAsText opts a) := by
  unfold emitReasoningAsText
  split
  · rename_i hcondition
    simp only [Bool.and_eq_true, Bool.not_eq_true'] at hcondition
    exact holds_textDelta _ (holds_startTextBlock h hcondition.1.1) rfl
  · exact h

/-- The message so far, when no block is open. -/
def Closed (before : List ClaudeEvent) (a : Acc) : Prop :=
  ∃ id model blocks, before ++ a.results = .messageStart id model :: blocks ∧
    OnlyBlocks blocks ∧ Ledger (framesOf blocks) a.state.nextBlockIndex []

theorem onlyBlocks_finishToolCall (info : ToolInfo) : OnlyBlocks (finishToolCall opts info).1 := by
  unfold finishToolCall
  apply OnlyBlocks.append
  · apply OnlyBlocks.append
    · split <;> simp [OnlyBlocks, startToolBlock, frameOf]
    · split <;> simp [OnlyBlocks, frameOf]
  · simp [OnlyBlocks, frameOf]

theorem ledger_finishToolCall {frames : List (Frame Nat)} {next : Nat}
    {rest : List (Nat × Phase)} {info : ToolInfo}
    (h : Ledger frames next (toolEntry info :: rest)) :
    Ledger (frames ++ framesOf (finishToolCall opts info).1) next rest := by
  unfold finishToolCall
  rw [framesOf_append, framesOf_append, ← append_assoc, ← append_assoc]
  have hstarted : Ledger
      (frames ++ framesOf (if info.startEmitted then [] else [startToolBlock info])) next
      ((info.blockIndex, .live) :: rest) := by
    cases hemitted : info.startEmitted with
    | true =>
      have hentry : toolEntry info = (info.blockIndex, .live) := by simp [toolEntry, hemitted]
      rw [hentry] at h
      rw [if_pos rfl, framesOf_nil, append_nil]
      exact h
    | false =>
      have hentry : toolEntry info = (info.blockIndex, .fresh) := by simp [toolEntry, hemitted]
      rw [hentry] at h
      exact h.start
  generalize frames ++ framesOf (if info.startEmitted then [] else [startToolBlock info]) = frames
    at hstarted ⊢
  split
  · exact hstarted.delta.stop
  · rw [framesOf_nil, append_nil]
    exact hstarted.stop

theorem ledger_finishToolCalls {next : Nat} (toolCalls : JsMap Nat ToolInfo)
    {frames : List (Frame Nat)} (h : Ledger frames next (toolEntries toolCalls)) :
    Ledger
      (frames ++ framesOf (toolCalls.flatMap fun (_, info) => (finishToolCall opts info).1)) next
      [] := by
  induction toolCalls generalizing frames with
  | nil =>
    rw [flatMap_nil, framesOf_nil, append_nil]
    exact h
  | cons entry toolCalls ih =>
    rw [flatMap_cons, framesOf_append, ← append_assoc]
    exact ih (ledger_finishToolCall opts h)

theorem closed_finishToolCalls (h : Holds before a)
    (htext : a.state.textBlockStarted = false) (hthinking : a.state.thinkingBlockStarted = false) :
    Closed before (finishToolCalls opts a) := by
  obtain ⟨id, model, blocks, hevents, hformed⟩ := h
  have hentries : entries a.state = toolEntries a.state.toolCalls := by
    simp [entries, textEntries, thinkingEntries, htext, hthinking]
  have hledger := hformed.ledger
  rw [hentries] at hledger
  refine ⟨id, model,
    blocks ++ a.state.toolCalls.flatMap fun (_, info) => (finishToolCall opts info).1, ?_, ?_, ?_⟩
  · unfold finishToolCalls
    rw [← append_assoc, hevents]
    rfl
  · apply hformed.onlyBlocks.append
    intro e he
    obtain ⟨entry, -, he⟩ := mem_flatMap.mp he
    exact onlyBlocks_finishToolCall opts entry.2 e he
  · rw [framesOf_append]
    exact ledger_finishToolCalls opts a.state.toolCalls hledger

theorem closed_emitTextToolCalls {calls : List TextToolCall}
    (hnames : ∀ call ∈ calls, isName call.name = true) (h : Closed before a) :
    ∃ a', emitTextToolCalls opts calls a = some a' ∧ Closed before a' ∧
      contextView a'.state = contextView a.state := by
  induction calls generalizing a with
  | nil => exact ⟨a, rfl, h, rfl⟩
  | cons call calls ih =>
    have hname := hnames call mem_cons_self
    rw [← restoreTextToolName_isSome opts.names] at hname
    obtain ⟨name, hname⟩ := Option.isSome_iff_exists.mp hname
    obtain ⟨id, model, blocks, hevents, honly, hledger⟩ := h
    have hnext : Closed before
        { state := { a.state with nextBlockIndex := a.state.nextBlockIndex + 1 }
          results := a.results ++
            [.blockStart a.state.nextBlockIndex (.toolUse call.id name call.args),
              .blockStop a.state.nextBlockIndex] } := by
      refine ⟨id, model, blocks ++
        [.blockStart a.state.nextBlockIndex (.toolUse call.id name call.args),
          .blockStop a.state.nextBlockIndex], ?_, ?_, ?_⟩
      · rw [← append_assoc, hevents]
        rfl
      · exact honly.append (by simp [OnlyBlocks, frameOf])
      · have hblock := hledger.begin.stop
        rw [append_assoc] at hblock
        rw [framesOf_append]
        exact hblock
    obtain ⟨a', hrest, hclosed, hview⟩ := ih (fun c hc => hnames c (mem_cons_of_mem _ hc)) hnext
    refine ⟨a', ?_, hclosed, hview⟩
    rw [emitTextToolCalls, hname]
    exact hrest

theorem wellFormed_endMessage (finishReason : JsString) (h : Closed before a) :
    WellFormedStream (before ++ (endMessage opts finishReason a).results) := by
  obtain ⟨id, model, blocks, hevents, honly, hledger⟩ := h
  unfold endMessage Acc.push
  dsimp only
  generalize convertFinishReason opts.names _ = reason
  generalize a.state.usage.getD ⟨0, 0, none, none⟩ = usage
  refine ⟨id, model, blocks, reason, usage, a.state.nextBlockIndex, ?_, honly, ?_, ?_⟩
  · rw [append_assoc, ← append_assoc, hevents]
    rfl
  · intro f hf
    exact hledger.key_lt hf
  · intro index hindex
    exact hledger.lifecycle hindex

end RedRouter.Response.OpenaiToClaude
