import RedRouter.Response.ItemCalls

/-!
# The lifecycle of the items of a Responses stream

A stream is in one of two stages: the items are filed, or the terminal event
has been sent.  A sound step leads from stage to stage, and the flush sends
the terminal event, so that a run of sound steps gives whole items.

A step is not sound when it moves an item that has been added or writes to
one that is done: reasoning that starts after another item or goes on after
its end, text that starts a message after a tool call, a tool call that is
added where a later message is, arguments for a call that is done, the end of
a call that was never added, and an end of the stream that leaves items open.
-/

namespace RedRouter.Response.OpenaiToResponses

open List Blocks Chat

variable {calls : List ToolCallFragment} {before : List Emitted} {a : Acc}

/-! ## Sound steps -/

/-- Reasoning is there already, or there is no other item. -/
def startable (s : State) : Bool := !s.reasoningId.isEmpty || noItems s

/-- Every call with an id has been added. -/
def closable (s : State) : Bool := s.toolCalls.all fun e => e.2.callId.isEmpty || e.2.itemAdded

def allClosed (s : State) : Bool :=
  !reasoningOpen s && (s.messages.all fun e => e.2.itemDone) &&
    s.toolCalls.all fun e => !e.2.itemAdded || e.2.itemDone

def reasoningSound (delta : IncomingDelta) (s : State) : Bool :=
  let reasoning := readableReasoning delta
  reasoning.isEmpty || isInternalReasoningPlaceholder reasoning || (startable s && !s.reasoningDone)

/-- Whether the tags of a content have reasoning in them. -/
def TagSplit.hasThinking (split : TagSplit) : Bool :=
  !(split.thinkPart.getD []).isEmpty || (split.inThinking && !split.content.isEmpty)

def tagsSound (content : JsString) (s : State) : Bool :=
  let split := splitTags s.inThinking content
  (!split.starts || startable s) &&
    (!split.hasThinking || reasoningOpen s || (split.starts && s.reasoningId.isEmpty))

def textSound (content : JsString) (s : State) : Bool :=
  content.isEmpty || JsMap.has (messageIndex s) s.messages || noneAdded s.toolCalls

def contentSound (delta : IncomingDelta) (a : Acc) : Bool :=
  let content := stripInternalReasoningPlaceholder (delta.content.getD [])
  if content.isEmpty then true
  else
    let a := endReasoning a
    if a.state.parseTextualReasoningTags then
      tagsSound content a.state &&
        textSound (onTaggedContent content a).2.1 (onTaggedContent content a).1.state
    else textSound content a.state

variable (opts : Options StreamFailure)

def fragmentsSound : List ToolCallFragment → Acc → Bool
  | [], _ => true
  | fragment :: fragments, a =>
      fragmentSound fragment a.state && fragmentsSound fragments (emitToolCall opts a fragment)

def toolsSound (delta : IncomingDelta) (a : Acc) : Bool :=
  let a := closeReasoning a
  fragmentsSound opts delta.toolCalls (closeMessage a (messageIndex a.state))

def finishSound (choice : Choice) (s : State) : Bool :=
  (presentId choice.finishReason).isNone || !s.sawGenerationTerminal || closable s

def choiceSound (chunk : IncomingChunk) (choice : Choice) (s : State) : Bool :=
  let a := startResponse chunk (readModel opts chunk s)
  reasoningSound choice.delta a.state &&
    let a := onReasoning choice.delta a
    contentSound choice.delta a &&
      let (a, isCut) := onContent choice.delta a
      isCut || (toolsSound opts choice.delta a &&
        finishSound choice (onToolCalls opts choice.delta a).state)

/-- What a step has to meet, in the states that it goes through. -/
def soundStep (chunk : Option IncomingChunk) (s : State) : Bool :=
  match chunk with
  | none => s.completedSent || closable s
  | some chunk =>
      if s.completedSent then true
      else if chunk.done then closable s
      else
        let s := trackChunk opts chunk s
        match chunk.choice with
        | some choice => choiceSound opts chunk choice s
        | none => chunk.error.isSome || !s.awaitingTrailingUsage || allClosed s

def soundRun : List (Option IncomingChunk) → State → Bool
  | [], _ => true
  | chunk :: chunks, s =>
      soundStep opts chunk s && soundRun chunks (openaiToOpenAIResponsesResponse opts chunk s).state

variable {opts : Options StreamFailure}

/-! ## Deltas -/

variable {s : State}

theorem holds_startResponse (chunk : IncomingChunk) (h : Holds calls before { state := s }) :
    Holds calls before (startResponse chunk s) ∧ (startResponse chunk s).state.started = true := by
  unfold startResponse
  cases hstarted : s.started with
  | true =>
    exact ⟨h, hstarted⟩
  | false =>
    refine ⟨?_, rfl⟩
    have hnil : s.messages = [] := h.shape.unstarted hstarted
    generalize responseIdOf chunk s = responseId
    have hcatalog := h.catalog
    unfold Filed at hcatalog
    rw [append_nil] at hcatalog
    have hcreated := hcatalog.other (s.seq + 1) (.created ⟨responseId, s.created, s.model⟩)
      rfl rfl rfl
    have hboth := hcreated.other (s.seq + 1 + 1) (.inProgress ⟨responseId, s.created, s.model⟩)
      rfl rfl rfl
    rw [append_assoc] at hboth
    refine @Holds.of_filed calls before _ (roster s) _ hboth (List.Perm.of_eq ?_) rfl ?_ h.pending
    · show roster s = reasoningEntries s ++ messageEntries responseId s.messages ++
        toolEntries (toolCallOutputIndexBase s) s.toolCalls
      unfold roster
      rw [hnil]
      rfl
    · exact { h.shape with unstarted := fun _ => hnil }

theorem startable_cases (h : startable s = true) :
    s.reasoningId.isEmpty = false ∨ noItems s = true := by
  unfold startable at h
  simpa using h

theorem started_startReasoning (idx : Nat) (a : Acc) :
    (startReasoning idx a).state.started = a.state.started := by
  unfold startReasoning
  split <;> rfl

theorem started_emitReasoningDelta (text : JsString) (a : Acc) :
    (emitReasoningDelta text a).state.started = a.state.started := by
  unfold emitReasoningDelta
  split <;> rfl

theorem started_closeReasoning (a : Acc) : (closeReasoning a).state.started = a.state.started := by
  unfold closeReasoning
  split <;> rfl

variable {delta : IncomingDelta}

theorem holds_onReasoning (h : Holds calls before a) (hsound : reasoningSound delta a.state = true) :
    Holds calls before (onReasoning delta a) ∧
      (onReasoning delta a).state.started = a.state.started := by
  unfold reasoningSound at hsound
  unfold onReasoning
  dsimp only at hsound ⊢
  cases hsilent : ((readableReasoning delta).isEmpty ||
      isInternalReasoningPlaceholder (readableReasoning delta)) with
  | true =>
    exact ⟨h, rfl⟩
  | false =>
    rw [hsilent, Bool.false_or, Bool.and_eq_true, Bool.not_eq_true'] at hsound
    rw [if_neg (by simp)]
    obtain ⟨hstart, hopen⟩ := holds_startReasoning h (startable_cases hsound.1)
    refine ⟨holds_emitReasoningDelta hstart (.inr (hopen hsound.2)), ?_⟩
    rw [started_emitReasoningDelta, started_startReasoning]

theorem holds_endReasoning (h : Holds calls before a) :
    Holds calls before (endReasoning a) ∧ (endReasoning a).state.started = a.state.started := by
  unfold endReasoning
  split
  · exact ⟨h, rfl⟩
  · exact ⟨holds_closeReasoning h, started_closeReasoning a⟩

theorem holds_startTags {split : TagSplit} (h : Holds calls before a)
    (hstarts : split.starts = true → startable a.state = true) :
    Holds calls before (if split.starts then startReasoning 0 a else a) ∧
      (if split.starts then startReasoning 0 a else a).state.started = a.state.started ∧
      (reasoningOpen a.state = true ∨ split.starts = true ∧ a.state.reasoningId.isEmpty = true →
        reasoningOpen (if split.starts then startReasoning 0 a else a).state = true) := by
  cases hsplit : split.starts with
  | false =>
    refine ⟨h, rfl, ?_⟩
    rintro (hopen | ⟨hfalse, -⟩)
    · exact hopen
    · cases hfalse
  | true =>
    obtain ⟨hstart, hopen⟩ := holds_startReasoning h (startable_cases (hstarts hsplit))
    refine ⟨hstart, started_startReasoning 0 a, ?_⟩
    intro hcases
    apply hopen
    rcases hcases with hopen | ⟨-, hempty⟩
    · unfold reasoningOpen at hopen
      simp only [Bool.and_eq_true, Bool.not_eq_true'] at hopen
      exact hopen.2
    · cases hdone : a.state.reasoningDone with
      | false => rfl
      | true =>
        have hsome := h.shape.reasoned hdone
        rw [hempty] at hsome
        cases hsome

theorem inThinking_splitTags {inThinking : Bool} {content thinkPart : JsString}
    (h : (splitTags inThinking content).thinkPart = some thinkPart) :
    (splitTags inThinking content).inThinking = false := by
  unfold splitTags at h ⊢
  dsimp only at h ⊢
  split at h
  · rfl
  · cases h

theorem holds_onTaggedContent {content : JsString} (h : Holds calls before a)
    (hsound : tagsSound content a.state = true) :
    Holds calls before (onTaggedContent content a).1 ∧
      (onTaggedContent content a).1.state.started = a.state.started := by
  unfold tagsSound at hsound
  unfold onTaggedContent
  dsimp only at hsound ⊢
  have hends := @inThinking_splitTags a.state.inThinking content
  generalize splitTags a.state.inThinking content = split at hsound hends ⊢
  rw [Bool.and_eq_true] at hsound
  obtain ⟨hstarts, hspeaks⟩ := hsound
  have hview := h.of_view (s := { a.state with inThinking := split.inThinking }) rfl
  obtain ⟨hstart, hstarted, hopen⟩ := @holds_startTags calls before
    { a with state := { a.state with inThinking := split.inThinking } } split hview (by
      intro hsplit
      have hstartable : startable a.state = true := by simpa [hsplit] using hstarts
      exact hstartable)
  have hthinking : split.hasThinking = true → reasoningOpen a.state = true ∨
      split.starts = true ∧ a.state.reasoningId.isEmpty = true := by
    intro hhas
    simpa [hhas] using hspeaks
  generalize (if split.starts then
    startReasoning 0 { a with state := { a.state with inThinking := split.inThinking } }
    else { a with state := { a.state with inThinking := split.inThinking } }) = b
    at hstart hstarted hopen ⊢
  have hspoken : split.hasThinking = true → reasoningOpen b.state = true :=
    fun hhas => hopen (hthinking hhas)
  unfold TagSplit.hasThinking at hspoken
  cases hpart : split.thinkPart with
  | none =>
    split
    · rename_i hgoes
      refine ⟨holds_emitReasoningDelta hstart (.inr (hspoken ?_)), ?_⟩
      · rw [hgoes, Bool.or_true]
      · rw [started_emitReasoningDelta]
        exact hstarted
    · exact ⟨hstart, hstarted⟩
  | some thinkPart =>
    have hguard : thinkPart.isEmpty = true ∨ reasoningOpen b.state = true := by
      cases hempty : thinkPart.isEmpty with
      | true => exact .inl rfl
      | false => exact .inr (hspoken (by simp [hpart, hempty]))
    have hclosed := holds_closeReasoning (holds_emitReasoningDelta hstart hguard)
    have hclosedStarted : (closeReasoning (emitReasoningDelta thinkPart b)).state.started =
        a.state.started := by
      rw [started_closeReasoning, started_emitReasoningDelta]
      exact hstarted
    rw [hends hpart, Bool.false_and, if_neg (by simp)]
    exact ⟨hclosed, hclosedStarted⟩

theorem holds_onText {content : JsString} (h : Holds calls before a)
    (hstarted : a.state.started = true) (hsound : textSound content a.state = true) :
    Holds calls before (onText content a) := by
  unfold textSound at hsound
  unfold onText
  cases hempty : content.isEmpty with
  | true =>
    exact h
  | false =>
    rw [hempty, Bool.false_or, Bool.or_eq_true] at hsound
    exact holds_emitTextContent content h hstarted hsound

theorem holds_onContent (h : Holds calls before a) (hstarted : a.state.started = true)
    (hsound : contentSound delta a = true) : Holds calls before (onContent delta a).1 := by
  unfold contentSound at hsound
  unfold onContent
  dsimp only at hsound ⊢
  generalize stripInternalReasoningPlaceholder (delta.content.getD []) = content at hsound ⊢
  obtain ⟨hend, hendStarted⟩ := holds_endReasoning h
  split
  · exact h
  · rename_i hempty
    rw [if_neg hempty] at hsound
    split at hsound
    · rename_i hparse
      rw [Bool.and_eq_true] at hsound
      obtain ⟨htags, htagsStarted⟩ := holds_onTaggedContent hend hsound.1
      rw [if_pos hparse]
      refine holds_onText htags ?_ hsound.2
      rw [htagsStarted, hendStarted]
      exact hstarted
    · rename_i hparse
      rw [if_neg hparse]
      exact holds_onText hend (hendStarted.trans hstarted) hsound

theorem holds_fragments (hids : KeepIds calls) (fragments : List ToolCallFragment)
    (h : Holds calls before a) (hmem : ∀ f ∈ fragments, f ∈ calls)
    (hsound : fragmentsSound opts fragments a = true) :
    Holds calls before (fragments.foldl (emitToolCall opts) a) := by
  induction fragments generalizing a with
  | nil => exact h
  | cons fragment fragments ih =>
    rw [fragmentsSound, Bool.and_eq_true] at hsound
    exact ih (holds_emitToolCall opts hids h (hmem fragment mem_cons_self) hsound.1)
      (fun f hf => hmem f (mem_cons_of_mem _ hf)) hsound.2

theorem holds_onToolCalls (hids : KeepIds calls) (h : Holds calls before a)
    (hmem : ∀ f ∈ delta.toolCalls, f ∈ calls) (hsound : toolsSound opts delta a = true) :
    Holds calls before (onToolCalls opts delta a) := by
  unfold onToolCalls
  split
  · exact h
  · exact holds_fragments hids delta.toolCalls (holds_closeMessage _ (holds_closeReasoning h)) hmem
      hsound

/-! ## The end of the items -/

theorem get_closeMessage (a : Acc) (idx j : Nat) :
    JsMap.get j (closeMessage a idx).state.messages =
      if j = idx then (JsMap.get j a.state.messages).map fun m => { m with itemDone := true }
      else JsMap.get j a.state.messages := by
  by_cases hj : j = idx
  · subst hj
    rw [if_pos rfl]
    unfold closeMessage
    cases hget : JsMap.get j a.state.messages with
    | none => exact hget
    | some message =>
      dsimp only
      split
      · rename_i hdone
        rw [hget, Option.map_some, ← hdone]
      · show JsMap.get j (JsMap.set j _ a.state.messages) = _
        rw [JsMap.get_set, if_pos rfl, Option.map_some]
  · rw [if_neg hj]
    unfold closeMessage
    cases hget : JsMap.get idx a.state.messages with
    | none => rfl
    | some message =>
      dsimp only
      split
      · rfl
      · show JsMap.get j (JsMap.set idx _ a.state.messages) = _
        rw [JsMap.get_set, if_neg (fun heq => hj heq.symm)]

theorem toolCalls_closeMessage (a : Acc) (idx : Nat) :
    (closeMessage a idx).state.toolCalls = a.state.toolCalls := by
  unfold closeMessage
  split
  · rfl
  · split <;> rfl

theorem closeMessages_spec (indexes : List Nat) (h : Holds calls before a) :
    Holds calls before (indexes.foldl closeMessage a) ∧
      (indexes.foldl closeMessage a).state.toolCalls = a.state.toolCalls ∧
      ∀ j m, JsMap.get j (indexes.foldl closeMessage a).state.messages = some m →
        (JsMap.get j a.state.messages).isSome = true ∧
          ((j ∈ indexes ∨ ∃ m', JsMap.get j a.state.messages = some m' ∧ m'.itemDone = true) →
            m.itemDone = true) := by
  induction indexes generalizing a with
  | nil =>
    refine ⟨h, rfl, ?_⟩
    intro j m hget
    refine ⟨by rw [show JsMap.get j a.state.messages = some m from hget]; rfl, ?_⟩
    rintro (hmem | ⟨m', hget', hdone⟩)
    · cases hmem
    · rw [show JsMap.get j a.state.messages = some m from hget] at hget'
      rw [Option.some.inj hget']
      exact hdone
  | cons idx indexes ih =>
    obtain ⟨hholds, htools, hdone⟩ := ih (holds_closeMessage idx h)
    refine ⟨hholds, htools.trans (toolCalls_closeMessage a idx), ?_⟩
    intro j m hget
    obtain ⟨hsome, hclosed⟩ := hdone j m hget
    rw [get_closeMessage] at hsome hclosed
    by_cases hj : j = idx
    · rw [if_pos hj] at hsome hclosed
      rw [Option.isSome_map] at hsome
      refine ⟨hsome, fun _ => hclosed (.inr ?_)⟩
      obtain ⟨old, hold⟩ := Option.isSome_iff_exists.mp hsome
      exact ⟨_, by rw [hold, Option.map_some], rfl⟩
    · rw [if_neg hj] at hsome hclosed
      refine ⟨hsome, ?_⟩
      rintro (hmem | hold)
      · rcases mem_cons.mp hmem with heq | hmem
        · exact absurd heq hj
        · exact hclosed (.inl hmem)
      · exact hclosed (.inr hold)

/-- The call at one index is done afterwards, if it has an id; the others stay. -/
theorem get_closeToolCall (a : Acc) (tcIdx j : Nat) :
    JsMap.get j (closeToolCall opts true a tcIdx).state.toolCalls =
      if j = tcIdx then (JsMap.get j a.state.toolCalls).map fun c =>
        if c.callId.isEmpty then c else { c with itemDone := true }
      else JsMap.get j a.state.toolCalls := by
  have hemit : ∀ (b : Acc) (events : List Event), (b.emitAll events).state.toolCalls =
      b.state.toolCalls := by
    intro b events
    rw [state_emitAll]
  by_cases hj : j = tcIdx
  · subst hj
    rw [if_pos rfl]
    unfold closeToolCall
    cases hget : JsMap.get j a.state.toolCalls with
    | none => exact hget
    | some call =>
      dsimp only
      split
      · rename_i hclosed
        rw [hget, Option.map_some]
        rcases Bool.or_eq_true_iff.mp hclosed with hempty | hdone
        · rw [if_pos hempty]
        · rw [← hdone, ite_self]
      · rename_i hopen
        rw [Bool.or_eq_true, not_or] at hopen
        show JsMap.get j (JsMap.set j _ (a.emitAll _).state.toolCalls) = _
        rw [JsMap.get_set, if_pos rfl, Option.map_some, if_neg hopen.1]
  · rw [if_neg hj]
    unfold closeToolCall
    cases hget : JsMap.get tcIdx a.state.toolCalls with
    | none => rfl
    | some call =>
      dsimp only
      split
      · rfl
      · show JsMap.get j (JsMap.set tcIdx _ (a.emitAll _).state.toolCalls) = _
        rw [JsMap.get_set, if_neg (fun heq => hj heq.symm), hemit]

/-- The items that the end of a tool call leaves alone. -/
def otherItems (s : State) := (s.messages, s.reasoningId, s.reasoningDone)

theorem otherItems_closeToolCall (a : Acc) (tcIdx : Nat) :
    otherItems (closeToolCall opts true a tcIdx).state = otherItems a.state := by
  unfold closeToolCall
  split
  · rfl
  · dsimp only
    split
    · rfl
    · unfold recordCompletedItem
      rw [state_emitAll]
      rfl

/-- Every call with an id has been added. -/
def Closable (s : State) : Prop :=
  ∀ j c, JsMap.get j s.toolCalls = some c → c.callId ≠ [] → c.itemAdded = true

theorem Closable.of_closable (h : closable s = true) : Closable s := by
  intro j c hget hne
  have hall := all_eq_true.mp h (j, c) (JsMap.mem_of_get hget)
  have hempty : c.callId.isEmpty = false := by simpa using hne
  simpa [hempty] using hall

theorem Closable.close {tcIdx : Nat} (h : Closable a.state) :
    Closable (closeToolCall opts true a tcIdx).state := by
  intro j c hget hne
  rw [get_closeToolCall] at hget
  split at hget
  · obtain ⟨old, hold, rfl⟩ := Option.map_eq_some_iff.mp hget
    split at hne
    · rename_i hempty
      rw [if_pos hempty]
      exact h j old hold hne
    · rename_i hempty
      rw [if_neg hempty]
      exact h j old hold hne
  · exact h j c hget hne

theorem closeToolCalls_spec (opts : Options StreamFailure) (indexes : List Nat) (h : Holds calls before a)
    (hclosable : Closable a.state) :
    Holds calls before (indexes.foldl (closeToolCall opts true) a) ∧
      otherItems (indexes.foldl (closeToolCall opts true) a).state = otherItems a.state ∧
      ∀ j c, JsMap.get j (indexes.foldl (closeToolCall opts true) a).state.toolCalls = some c →
        (JsMap.get j a.state.toolCalls).isSome = true ∧
          ((j ∈ indexes ∨ ∃ c', JsMap.get j a.state.toolCalls = some c' ∧
              (c'.callId = [] ∨ c'.itemDone = true)) →
            c.callId = [] ∨ c.itemDone = true) := by
  induction indexes generalizing a with
  | nil =>
    refine ⟨h, rfl, ?_⟩
    intro j c hget
    have hget : JsMap.get j a.state.toolCalls = some c := hget
    refine ⟨by rw [hget]; rfl, ?_⟩
    rintro (hmem | ⟨c', hget', hdone⟩)
    · cases hmem
    · rw [hget] at hget'
      rw [Option.some.inj hget']
      exact hdone
  | cons tcIdx indexes ih =>
    obtain ⟨hholds, hother, hdone⟩ :=
      ih (holds_closeToolCall opts tcIdx h (hclosable tcIdx)) hclosable.close
    refine ⟨hholds, hother.trans (otherItems_closeToolCall a tcIdx), ?_⟩
    intro j c hget
    obtain ⟨hsome, hclosed⟩ := hdone j c hget
    rw [get_closeToolCall] at hsome hclosed
    by_cases hj : j = tcIdx
    · rw [if_pos hj] at hsome hclosed
      rw [Option.isSome_map] at hsome
      refine ⟨hsome, fun _ => hclosed (.inr ?_)⟩
      obtain ⟨old, hold⟩ := Option.isSome_iff_exists.mp hsome
      refine ⟨_, by rw [hold, Option.map_some], ?_⟩
      split
      · rename_i hempty
        exact .inl (List.isEmpty_iff.mp hempty)
      · exact .inr rfl
    · rw [if_neg hj] at hsome hclosed
      refine ⟨hsome, ?_⟩
      rintro (hmem | hold)
      · rcases mem_cons.mp hmem with heq | hmem
        · exact absurd heq hj
        · exact hclosed (.inl hmem)
      · exact hclosed (.inr hold)

theorem closeReasoning_spec (a : Acc) :
    reasoningOpen (closeReasoning a).state = false ∧
      (closeReasoning a).state.messages = a.state.messages ∧
      (closeReasoning a).state.toolCalls = a.state.toolCalls := by
  unfold closeReasoning
  split
  · rename_i hclosed
    refine ⟨?_, rfl, rfl⟩
    unfold reasoningOpen
    simpa [or_iff_not_imp_left] using hclosed
  · refine ⟨?_, rfl, rfl⟩
    show (!a.state.reasoningId.isEmpty && !true) = false
    rw [Bool.not_true, Bool.and_false]

theorem done_of_closed (hshape : Shape calls s) (hreasoning : reasoningOpen s = false)
    (hmessages : ∀ j m, JsMap.get j s.messages = some m → m.itemDone = true)
    (htools : ∀ j c, JsMap.get j s.toolCalls = some c → c.itemAdded = true → c.itemDone = true) :
    ∀ e ∈ roster s, e.2 = .done := by
  intro e he
  rcases mem_roster he with ⟨hsome, rfl⟩ | ⟨m, hm, rfl⟩ | ⟨t, ht, hadded, rfl⟩
  · unfold reasoningOpen at hreasoning
    rw [hsome, Bool.not_false, Bool.true_and, Bool.not_eq_false'] at hreasoning
    show addedPhase s.reasoningDone = .done
    rw [hreasoning]
    rfl
  · show addedPhase m.2.itemDone = .done
    rw [hmessages m.1 m.2 (JsMap.get_of_mem hshape.messageKeys hm)]
    rfl
  · have hget := JsMap.get_of_mem hshape.callKeys (k := t.1) (v := t.2) ht
    show addedPhase t.2.itemDone = .done
    rw [htools t.1 t.2 hget hadded]
    rfl

theorem closeAll_spec (opts : Options StreamFailure) (h : Holds calls before a) (hclosable : Closable a.state) :
    Holds calls before (closeAll opts a) ∧ ∀ e ∈ roster (closeAll opts a).state, e.2 = .done := by
  unfold closeAll
  dsimp only
  obtain ⟨hmessages, htools, hdone⟩ :=
    closeMessages_spec ((JsMap.keys a.state.messages).insertionSort (· ≤ ·)) h
  have hall : ∀ j m, JsMap.get j (((JsMap.keys a.state.messages).insertionSort (· ≤ ·)).foldl
      closeMessage a).state.messages = some m → m.itemDone = true := by
    intro j m hget
    obtain ⟨hsome, hclosed⟩ := hdone j m hget
    exact hclosed (.inl ((mem_insertionSort (· ≤ ·)).mpr (JsMap.get_isSome_iff.mp hsome)))
  generalize ((JsMap.keys a.state.messages).insertionSort (· ≤ ·)).foldl closeMessage a = b
    at hmessages htools hall ⊢
  have hreasoning := holds_closeReasoning hmessages
  obtain ⟨hopen, hsame, hcalls⟩ := closeReasoning_spec b
  rw [← hsame] at hall
  have hclosable' : Closable (closeReasoning b).state := by
    unfold Closable
    rw [hcalls, htools]
    exact hclosable
  generalize closeReasoning b = c at hreasoning hopen hall hclosable' ⊢
  obtain ⟨hholds, hother, hclosed⟩ := closeToolCalls_spec opts
    ((JsMap.keys c.state.toolCalls).insertionSort (· ≤ ·)) hreasoning hclosable'
  refine ⟨hholds, done_of_closed hholds.shape ?_ ?_ ?_⟩
  · unfold otherItems at hother
    simp only [Prod.mk.injEq] at hother
    unfold reasoningOpen at hopen ⊢
    rw [hother.2.1, hother.2.2]
    exact hopen
  · unfold otherItems at hother
    simp only [Prod.mk.injEq] at hother
    rw [hother.1]
    exact hall
  · intro j d hget hadded
    obtain ⟨hsome, hdoneCall⟩ := hclosed j d hget
    rcases hdoneCall (.inl ((mem_insertionSort (· ≤ ·)).mpr
      (JsMap.get_isSome_iff.mp hsome))) with hempty | hdone
    · exact absurd hempty (hholds.shape.added j d hget hadded)
    · exact hdone

/-! ## The terminal event -/

/-- A catalog of items that are done has no two of them at one index. -/
theorem nodup_recorded {events : List Emitted} (h : Catalog events (roster s) (recordedItems s)) :
    (s.completedOutputItems.map CompletedItem.outputIndex).Nodup := by
  have hsub : (doneIndexes (roster s)).Sublist ((roster s).map fun e => e.1.outputIndex) :=
    filter_sublist.map _
  have hnodup := h.done.nodup_iff.mpr (h.indexes.sublist hsub)
  unfold recordedItems at hnodup
  rw [map_map] at hnodup
  have hcast : s.completedOutputItems.map
      (Prod.fst ∘ fun c : CompletedItem => ((c.outputIndex : Int), c.item)) =
      (s.completedOutputItems.map CompletedItem.outputIndex).map Int.ofNat := by
    rw [map_map]
    rfl
  rw [hcast] at hnodup
  exact List.Nodup.of_map _ hnodup

instance : Std.Total CompletedItem.before where
  total := by
    intro x y
    unfold CompletedItem.before
    omega

instance : IsTrans CompletedItem CompletedItem.before where
  trans := by
    intro x y z hxy hyz
    unfold CompletedItem.before at hxy hyz ⊢
    omega

theorem buildDenseOutput_spec {events : List Emitted}
    (h : Catalog events (roster s) (recordedItems s)) :
    ∃ items : List (Int × OutputItem), items.Perm (doneItems events) ∧
      items.Pairwise (fun x y => x.1 < y.1) ∧ buildDenseOutput s = items.map Prod.snd := by
  have hperm := perm_insertionSort CompletedItem.before s.completedOutputItems
  have hsorted := pairwise_insertionSort CompletedItem.before s.completedOutputItems
  have hnodup := (hperm.map CompletedItem.outputIndex).nodup_iff.mpr (nodup_recorded h)
  unfold buildDenseOutput
  generalize s.completedOutputItems.insertionSort CompletedItem.before = sorted
    at hperm hsorted hnodup ⊢
  refine ⟨sorted.map fun c => ((c.outputIndex : Int), c.item), ?_, ?_, ?_⟩
  · rw [← h.listed]
    exact hperm.map _
  · rw [pairwise_map]
    have hdistinct : sorted.Pairwise fun x y => x.outputIndex ≠ y.outputIndex :=
      pairwise_map.mp hnodup
    refine (hsorted.and hdistinct).imp ?_
    intro x y hxy
    unfold CompletedItem.before at hxy
    show (x.outputIndex : Int) < y.outputIndex
    omega
  · rw [map_map]
    rfl

theorem lifecycle_sendCompleted (opts : Options StreamFailure) (h : Holds calls before a)
    (hdone : ∀ e ∈ roster a.state, e.2 = .done) :
    ItemLifecycle (before ++ (sendCompleted opts a).events) ∧
      (sendCompleted opts a).state.completedSent = true := by
  have hcatalog : Catalog (before ++ a.events) (roster a.state) (recordedItems a.state) := h.catalog
  unfold sendCompleted
  rw [if_neg (by simp [h.pending])]
  refine ⟨?_, rfl⟩
  obtain ⟨items, hperm, hsorted, houtput⟩ := buildDenseOutput_spec hcatalog
  dsimp only
  generalize hresponse : FinalResponse.mk a.state.responseId a.state.created
    (a.state.upstreamError.map opts.projectError) (buildDenseOutput a.state) a.state.model
    a.state.usage (finalizeResponsesTerminalStatus a.state.finishReason
      a.state.upstreamError.isSome).2 = response
  show ItemLifecycle (before ++ (a.events ++ [⟨a.state.seq + 1, .terminal _ response⟩]))
  rw [← append_assoc]
  have hframes : framesOf (before ++ a.events ++ [⟨a.state.seq + 1,
      .terminal (finalizeResponsesTerminalStatus a.state.finishReason
        a.state.upstreamError.isSome).1 response⟩]) = framesOf (before ++ a.events) := by
    rw [framesOf_append]
    exact append_nil _
  refine ⟨?_, ?_, response, items, ?_, ?_, hsorted, ?_⟩
  · rw [hframes]
    intro f hf
    exact hcatalog.roster.lifecycle hdone hf
  · rw [hframes]
    intro f hf g hg
    obtain ⟨e, he, hekey⟩ := mem_map.mp (hcatalog.roster.key_mem hf)
    obtain ⟨d, hd, hdkey⟩ := mem_map.mp (hcatalog.roster.key_mem hg)
    rw [← hekey, ← hdkey]
    constructor
    · intro heq
      rw [inj_on_of_nodup_map hcatalog.indexes he hd heq]
    · intro heq
      rw [inj_on_of_nodup_map hcatalog.ids he hd heq]
  · rw [terminalResponses_append, hcatalog.unsent]
    rfl
  · rw [doneItems_append]
    exact hperm.trans (List.Perm.of_eq (append_nil _).symm)
  · rw [← hresponse]
    exact houtput

/-! ## Steps and runs -/

/-- The stages between the chunks. -/
inductive Stage (calls : List ToolCallFragment) (events : List Emitted) (s : State) : Prop where
  | filed : Holds calls events { state := s } → Stage calls events s
  | completed : ItemLifecycle events → s.completedSent = true → Stage calls events s

theorem Holds.settle (h : Holds calls before a) :
    Holds calls (before ++ a.events) { state := a.state } := by
  refine ⟨?_, h.shape, h.pending⟩
  have hcatalog : Catalog (before ++ a.events) (roster a.state) (recordedItems a.state) := h.catalog
  unfold Filed
  rw [append_nil]
  exact hcatalog

theorem lifecycle_flushEvents (opts : Options StreamFailure) (h : Holds calls before { state := s })
    (hclosable : closable s = true) :
    ItemLifecycle (before ++ (flushEvents opts s).events) ∧
      (flushEvents opts s).state.completedSent = true := by
  have hpending : s.completedSent = false := h.pending
  unfold flushEvents
  rw [if_neg (by simp [hpending])]
  dsimp only
  have hview : Holds calls before { state := if s.sawGenerationTerminal || s.sawExplicitDone ||
        s.upstreamError.isSome then s
      else { s with upstreamError := some incompleteStreamFailure } } ∧
      Closable (if s.sawGenerationTerminal || s.sawExplicitDone || s.upstreamError.isSome then s
      else { s with upstreamError := some incompleteStreamFailure }) := by
    split
    · exact ⟨h, Closable.of_closable hclosable⟩
    · exact ⟨h.of_view rfl, Closable.of_closable hclosable⟩
  obtain ⟨hholds, hdone⟩ := closeAll_spec opts hview.1 hview.2
  exact lifecycle_sendCompleted opts hholds hdone

theorem stage_onFinish {choice : Choice} (h : Holds calls before a)
    (hsound : finishSound choice a.state = true) :
    Stage calls (before ++ (onFinish opts choice a).events) (onFinish opts choice a).state := by
  unfold finishSound at hsound
  unfold onFinish
  cases hreason : presentId choice.finishReason with
  | none => exact .filed h.settle
  | some reason =>
    dsimp only
    have hview := h.of_view (s := { a.state with finishReason := some reason }) rfl
    by_cases hterminal : a.state.sawGenerationTerminal = true
    · rw [if_pos hterminal]
      have hclosable : closable a.state = true := by simpa [hreason, hterminal] using hsound
      obtain ⟨hholds, hdone⟩ := closeAll_spec opts hview
        (Closable.of_closable (s := { a.state with finishReason := some reason }) hclosable)
      split
      · obtain ⟨hlifecycle, hsent⟩ := lifecycle_sendCompleted opts hholds hdone
        exact .completed hlifecycle hsent
      · exact .filed (Holds.settle (a := { closeAll opts _ with state := _ }) (hholds.of_view rfl))
    · rw [if_neg hterminal]
      exact .filed hview.settle

/-- A sound step goes from stage to stage, and a flush completes the stream. -/
theorem stage_step (opts : Options StreamFailure) (hids : KeepIds calls)
    (chunk : Option IncomingChunk) (hmem : ∀ c choice, chunk = some c → c.choice = some choice →
      ∀ f ∈ choice.delta.toolCalls, f ∈ calls) (h : Stage calls before s)
    (hsound : soundStep opts chunk s = true) :
    Stage calls (before ++ (openaiToOpenAIResponsesResponse opts chunk s).events)
        (openaiToOpenAIResponsesResponse opts chunk s).state ∧
      (chunk = none →
        ItemLifecycle (before ++ (openaiToOpenAIResponsesResponse opts chunk s).events)) := by
  cases h with
  | completed hlifecycle hsent =>
    have hstep : openaiToOpenAIResponsesResponse opts chunk s = { state := s } := by
      unfold openaiToOpenAIResponsesResponse
      cases chunk with
      | none =>
        show flushEvents opts s = _
        rw [flushEvents, if_pos hsent]
      | some chunk =>
        dsimp only
        rw [if_pos hsent]
    rw [hstep, append_nil]
    exact ⟨.completed hlifecycle hsent, fun _ => hlifecycle⟩
  | filed hholds =>
    have hpending : s.completedSent = false := hholds.pending
    unfold soundStep at hsound
    unfold openaiToOpenAIResponsesResponse
    cases chunk with
    | none =>
      have hclosable : closable s = true := by simpa [hpending] using hsound
      obtain ⟨hlifecycle, hsent⟩ := lifecycle_flushEvents opts hholds hclosable
      exact ⟨.completed hlifecycle hsent, fun _ => hlifecycle⟩
    | some chunk =>
      refine ⟨?_, fun hnone => by cases hnone⟩
      dsimp only at hsound ⊢
      rw [if_neg (by simp [hpending])] at hsound ⊢
      split at hsound
      · rename_i hdone
        rw [if_pos hdone]
        obtain ⟨hlifecycle, hsent⟩ := lifecycle_flushEvents opts
          (hholds.of_view (s := { s with sawExplicitDone := true }) rfl) hsound
        exact .completed hlifecycle hsent
      · rename_i hdone
        rw [if_neg hdone]
        have htrack := hholds.of_view (s := trackChunk opts chunk s) rfl
        generalize trackChunk opts chunk s = t at htrack hsound ⊢
        cases hchoice : chunk.choice with
        | none =>
          rw [hchoice] at hsound
          unfold onNoChoice
          cases herror : chunk.error with
          | some error =>
            exact .filed (Holds.settle
              (a := { state := { t with upstreamError := some (upstreamFailure error) } })
              (htrack.of_view rfl))
          | none =>
            dsimp only
            split
            · rename_i hawaiting
              have hclosed : allClosed t = true := by simpa [herror, hawaiting] using hsound
              unfold allClosed at hclosed
              rw [Bool.and_eq_true, Bool.and_eq_true, Bool.not_eq_true'] at hclosed
              obtain ⟨⟨hreasoning, hmessages⟩, htools⟩ := hclosed
              have hdone := done_of_closed htrack.shape hreasoning
                (fun j m hget => all_eq_true.mp hmessages (j, m) (JsMap.mem_of_get hget))
                (fun j c hget hadded => by
                  have hall := all_eq_true.mp htools (j, c) (JsMap.mem_of_get hget)
                  simpa [hadded] using hall)
              obtain ⟨hlifecycle, hsent⟩ := lifecycle_sendCompleted opts htrack hdone
              exact .completed hlifecycle hsent
            · exact .filed htrack.settle
        | some choice =>
          rw [hchoice] at hsound
          unfold choiceSound at hsound
          unfold onChoice
          dsimp only at hsound ⊢
          rw [Bool.and_eq_true, Bool.and_eq_true] at hsound
          obtain ⟨hreasoning, hcontent, hrest⟩ := hsound
          obtain ⟨hstart, hstarted⟩ := holds_startResponse (s := readModel opts chunk t) chunk
            (htrack.of_view rfl)
          obtain ⟨hthink, hthinkStarted⟩ := holds_onReasoning hstart hreasoning
          have htext := holds_onContent hthink (hthinkStarted.trans hstarted) hcontent
          split
          · exact .filed htext.settle
          · rename_i hcut
            rw [Bool.or_eq_true, Bool.and_eq_true] at hrest
            rcases hrest with htrue | ⟨htools, hfinish⟩
            · exact absurd htrue hcut
            · exact stage_onFinish (holds_onToolCalls hids htext
                (hmem chunk choice rfl hchoice) htools) hfinish

def fragmentsOf (chunks : List IncomingChunk) : List ToolCallFragment :=
  chunks.flatMap fun chunk => (chunk.choice.map fun choice => choice.delta.toolCalls).getD []

theorem lifecycle_run (hids : KeepIds calls) (chunks : List IncomingChunk)
    (hmem : ∀ f ∈ fragmentsOf chunks, f ∈ calls) (h : Stage calls before s)
    (hsound : soundRun opts (chunks.map some ++ [none]) s = true) :
    ItemLifecycle (before ++ (translate opts (chunks.map some ++ [none]) s).1) := by
  induction chunks generalizing before s with
  | nil =>
    have hflush : soundStep opts none s = true := by simpa [soundRun] using hsound
    have hstep := stage_step opts hids none (fun _ _ hnone => by cases hnone) h hflush
    simpa [translate] using hstep.2 rfl
  | cons chunk chunks ih =>
    rw [map_cons, cons_append, soundRun, Bool.and_eq_true] at hsound
    have hstep := stage_step opts hids (some chunk) (by
      intro c choice hsome hchoice f hf
      apply hmem
      rw [← Option.some.inj hsome] at hchoice
      rw [fragmentsOf, flatMap_cons, mem_append, hchoice]
      exact .inl hf) h hsound.1
    have hrest := ih (fun f hf => hmem f (by
      rw [fragmentsOf, flatMap_cons, mem_append]
      exact .inr hf)) hstep.1 hsound.2
    rw [append_assoc] at hrest
    exact hrest

theorem holds_initState (calls : List ToolCallFragment) (nowMs : Nat) :
    Holds calls [] { state := initState nowMs } := by
  have hnone : ∀ i c, JsMap.get i (initState nowMs).toolCalls ≠ some c := by
    intro i c hget
    cases hget
  refine ⟨Catalog.nil, ⟨nodup_nil, nodup_nil, ?_, ?_, ?_, ?_, ?_, ?_, ?_, ?_, fun _ => rfl⟩, rfl⟩
  · intro i _ c _ hget
    exact absurd hget (hnone i c)
  · intro i c hget
    exact absurd hget (hnone i c)
  · intro i c hget
    exact absurd hget (hnone i c)
  · intro i c hget
    exact absurd hget (hnone i c)
  · intro i c hget
    exact absurd hget (hnone i c)
  · intro i c hget
    exact absurd hget (hnone i c)
  all_goals
    intro hfalse
    cases hfalse

/-- The items of a stream whose calls keep their ids are whole, provided that its
steps are sound. -/
theorem itemLifecycle_of_sound (opts : Options StreamFailure) (nowMs : Nat)
    (chunks : List IncomingChunk) (hids : KeepIds (fragmentsOf chunks))
    (hsound : soundRun opts (chunks.map some ++ [none]) (initState nowMs) = true) :
    ItemLifecycle (translate opts (chunks.map some ++ [none]) (initState nowMs)).1 :=
  lifecycle_run hids chunks (fun _ hf => hf) (.filed (holds_initState _ nowMs)) hsound

/-! ## Two streams -/

/-- Options for streams without JSON values. -/
def plainOptions : Options StreamFailure where
  codec :=
    { parse := fun _ => none
      stringify := fun _ => []
      parse_nil := JsonCodec.parse_nil_of_none }
  toLowerCase := fun text => text.map Regex.asciiLower
  arrayText := fun _ => []
  projectError := fun _ => .null

def deltaChunk (delta : IncomingDelta) : IncomingChunk where
  id := some (js "c1")
  choice := some { delta := delta }

def listFragment : ToolCallFragment where
  id := some (js "call1")
  name := some (js "ls")
  arguments := some (.str (js "[1"))

/-- Reasoning, text, a tool call in two parts, more text and the finish, with the
usage on a chunk of its own. -/
def itemStream : List IncomingChunk :=
  [deltaChunk { reasoningContent := some (js "plan") }, deltaChunk { content := some (js "see") },
    deltaChunk { toolCalls := [listFragment] },
    deltaChunk { toolCalls := [{ arguments := some (.str (js "]")) }] },
    deltaChunk { content := some (js "more") },
    { choice := some { finishReason := some (js "tool_calls") } },
    { usage := some { promptTokens := some 3, completionTokens := some 5 } }]

theorem itemStream_lifecycle :
    ItemLifecycle (translate plainOptions (itemStream.map some ++ [none]) (initState 1000)).1 :=
  itemLifecycle_of_sound plainOptions 1000 itemStream (by decide +kernel) (by decide +kernel)

def textAfterCall : List IncomingChunk :=
  [deltaChunk { toolCalls := [listFragment] }, deltaChunk { content := some (js "done") },
    { choice := some { finishReason := some (js "stop") } }]

/-- The message is added at the index of the tool call. -/
theorem not_lifecycle_textAfterCall :
    KeepIds (fragmentsOf textAfterCall) ∧
      ¬ ItemLifecycle
        (translate plainOptions (textAfterCall.map some ++ [none]) (initState 1000)).1 := by
  refine ⟨by decide +kernel, ?_⟩
  intro hlifecycle
  have hshared : ∃ f ∈ framesOf (translate plainOptions (textAfterCall.map some ++ [none])
      (initState 1000)).1, ∃ g ∈ framesOf (translate plainOptions
      (textAfterCall.map some ++ [none]) (initState 1000)).1,
      f.key.outputIndex = g.key.outputIndex ∧ f.key.itemId ≠ g.key.itemId := by decide +kernel
  obtain ⟨f, hf, g, hg, hindex, hid⟩ := hshared
  exact hid ((hlifecycle.indexes f hf g hg).mp hindex)

end RedRouter.Response.OpenaiToResponses
