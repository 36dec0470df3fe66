import RedRouter.Response.ItemRoster

/-!
# The tool calls of a Responses stream

The index of a tool call is computed anew at every event.  It stays the same
while the base does, and the base stays once a call has been added: reasoning
starts before all other items, and the message before all calls.

`KeepIds` is what the stream has to promise: every call has one id and every
id has one call.
-/

namespace RedRouter.Response.OpenaiToResponses

open List Blocks Chat

variable {calls : List ToolCallFragment} {before : List Emitted} {a : Acc}

/-! ## Tool calls -/

def KeepIds (calls : List ToolCallFragment) : Prop :=
  ∀ f ∈ calls, ∀ g ∈ calls, (presentId f.id).isSome = true → (presentId g.id).isSome = true →
    (f.index.getD 0 = g.index.getD 0 ↔ presentId f.id = presentId g.id)

instance (calls : List ToolCallFragment) : Decidable (KeepIds calls) :=
  inferInstanceAs (Decidable (∀ f ∈ calls, ∀ g ∈ calls, (presentId f.id).isSome = true →
    (presentId g.id).isSome = true →
    (f.index.getD 0 = g.index.getD 0 ↔ presentId f.id = presentId g.id)))

theorem KeepIds.iff {calls : List ToolCallFragment} (h : KeepIds calls) {f g : ToolCallFragment}
    {i j : JsString} (hf : f ∈ calls) (hg : g ∈ calls) (hi : presentId f.id = some i)
    (hj : presentId g.id = some j) : f.index.getD 0 = g.index.getD 0 ↔ i = j := by
  have hiff := h f hf g hg (by rw [hi]; rfl) (by rw [hj]; rfl)
  rw [hi, hj, Option.some.injEq] at hiff
  exact hiff

/-- Some events between the `added` and the `done` of an item. -/
def OnlyProgress (key : ItemKey) (events : List Event) : Prop :=
  ∀ e ∈ events, ∃ type text, e = .progress type key.itemId key.outputIndex text

theorem Filed.progressAll {entries : List (ItemKey × Phase)} {recorded : List (Int × OutputItem)}
    {key : ItemKey} {events : List Event}
    (h : Filed before a ((key, .live) :: entries) recorded) (hall : OnlyProgress key events) :
    Filed before (a.emitAll events) ((key, .live) :: entries) recorded := by
  induction events generalizing a with
  | nil => exact h
  | cons e events ih =>
    obtain ⟨type, text, rfl⟩ := hall e mem_cons_self
    exact ih (h.progress type text) fun e he => hall e (mem_cons_of_mem _ he)

theorem emitAll_append (a : Acc) (xs ys : List Event) :
    a.emitAll (xs ++ ys) = (a.emitAll xs).emitAll ys := foldl_append

theorem state_emitAll (a : Acc) (events : List Event) :
    (a.emitAll events).state = { a.state with seq := a.state.seq + events.length } := by
  induction events generalizing a with
  | nil => rfl
  | cons e events ih =>
    show ((a.emit e).emitAll events).state = _
    rw [ih]
    unfold Acc.emit
    rw [length_cons, Nat.add_comm events.length 1, ← Nat.add_assoc]

/-- The events depend on the state only through the number of the last one. -/
theorem events_emitAll {b c : Acc} (hevents : b.events = c.events)
    (hseq : b.state.seq = c.state.seq) (events : List Event) :
    (b.emitAll events).events = (c.emitAll events).events := by
  induction events generalizing b c with
  | nil => exact hevents
  | cons e events ih =>
    apply @ih (b.emit e) (c.emit e)
    · simp [Acc.emit, hevents, hseq]
    · simp [Acc.emit, hseq]

theorem Shape.setCall {s : State} {tcIdx : Nat} {call call' : ToolCall} (h : Shape calls s)
    (hget : JsMap.get tcIdx s.toolCalls = some call) (hlocal : call'.localIndex = call.localIndex)
    (hknown : call'.callId ≠ [] →
      ∃ f ∈ calls, f.index.getD 0 = tcIdx ∧ presentId f.id = some call'.callId)
    (hadded : call'.itemAdded = true → call'.callId ≠ [] ∧
      toolCallOutputIndexBase s + call'.localIndex ∈ s.funcAllocatedOutputIndexes)
    (hdone : call'.itemDone = true → call'.itemAdded = true) :
    Shape calls { s with toolCalls := JsMap.set tcIdx call' s.toolCalls } := by
  have hlocalOf : ∀ i c, JsMap.get i (JsMap.set tcIdx call' s.toolCalls) = some c →
      ∃ d, JsMap.get i s.toolCalls = some d ∧ d.localIndex = c.localIndex := by
    intro i c hc
    rcases JsMap.get_set_cases hc with ⟨rfl, rfl⟩ | hc
    · exact ⟨call, hget, hlocal.symm⟩
    · exact ⟨c, hc, rfl⟩
  refine ⟨h.messageKeys, JsMap.nodup_keys_set h.callKeys, ?_, ?_, ?_, ?_, ?_, ?_, h.reasoning,
    h.reasoned, h.unstarted⟩
  · intro i j c d hc hd heq
    obtain ⟨c', hc', hclocal⟩ := hlocalOf i c hc
    obtain ⟨d', hd', hdlocal⟩ := hlocalOf j d hd
    exact h.locals i j c' d' hc' hd' (hclocal.trans (heq.trans hdlocal.symm))
  · intro i c hc
    obtain ⟨c', hc', hclocal⟩ := hlocalOf i c hc
    rw [← hclocal]
    exact h.bound i c' hc'
  · intro i c hc hcadded
    rcases JsMap.get_set_cases hc with ⟨rfl, rfl⟩ | hc
    · exact (hadded hcadded).2
    · exact h.allocated i c hc hcadded
  · intro i c hc hid
    rcases JsMap.get_set_cases hc with ⟨rfl, rfl⟩ | hc
    · exact hknown hid
    · exact h.known i c hc hid
  · intro i c hc hcadded
    rcases JsMap.get_set_cases hc with ⟨rfl, rfl⟩ | hc
    · exact (hadded hcadded).1
    · exact h.added i c hc hcadded
  · intro i c hc hcdone
    rcases JsMap.get_set_cases hc with ⟨rfl, rfl⟩ | hc
    · exact hdone hcdone
    · exact h.doneAdded i c hc hcdone

theorem roster_setCall {s : State} (tcIdx : Nat) (h : Shape calls s) (call' : ToolCall) :
    (roster { s with toolCalls := JsMap.set tcIdx call' s.toolCalls }).Perm
      (toolEntry (toolCallOutputIndexBase s) (tcIdx, call') ++ restOfCall tcIdx s) :=
  perm_call (JsMap.set_perm tcIdx call' h.callKeys)

theorem holds_resolve (tcIdx : Nat) (h : Holds calls before a) :
    Holds calls before { a with state := (resolveLocalToolCallIndex tcIdx a.state).2 } ∧
      JsMap.get tcIdx (resolveLocalToolCallIndex tcIdx a.state).2.toolCalls =
        some (resolveLocalToolCallIndex tcIdx a.state).1 := by
  unfold resolveLocalToolCallIndex
  cases hget : JsMap.get tcIdx a.state.toolCalls with
  | some call => exact ⟨h, hget⟩
  | none =>
    generalize hcall : ({ localIndex := a.state.toolCallLocalIndexNext } : ToolCall) = call
    have hfresh : call.localIndex = a.state.toolCallLocalIndexNext ∧ call.callId = [] ∧
        call.itemAdded = false ∧ call.itemDone = false := by
      rw [← hcall]
      exact ⟨rfl, rfl, rfl, rfl⟩
    obtain ⟨hlocal, hid, hadded, hdone⟩ := hfresh
    refine ⟨?_, by rw [JsMap.get_set, if_pos rfl]⟩
    have hperm := roster_setCall tcIdx h.shape call
    have hrest : restOfCall tcIdx a.state = roster a.state := by
      unfold restOfCall roster
      rw [JsMap.delete_of_not_mem (JsMap.get_eq_none_iff.mp hget)]
    unfold toolEntry at hperm
    rw [if_neg (by simp [hadded]), nil_append, hrest] at hperm
    refine @Holds.of_filed calls before _ (roster a.state) _ h.catalog hperm.symm rfl ?_ h.pending
    refine ⟨h.shape.messageKeys, JsMap.nodup_keys_set h.shape.callKeys, ?_, ?_, ?_, ?_, ?_, ?_,
      h.shape.reasoning, h.shape.reasoned, h.shape.unstarted⟩
    · intro i j c d hc hd heq
      rcases JsMap.get_set_cases hc with ⟨rfl, rfl⟩ | hold
      · rcases JsMap.get_set_cases hd with ⟨rfl, -⟩ | hold
        · rfl
        · have hbound := h.shape.bound j d hold
          omega
      · rcases JsMap.get_set_cases hd with ⟨rfl, rfl⟩ | hold'
        · have hbound := h.shape.bound i c hold
          omega
        · exact h.shape.locals i j c d hold hold' heq
    · intro i c hc
      show c.localIndex < a.state.toolCallLocalIndexNext + 1
      rcases JsMap.get_set_cases hc with ⟨rfl, rfl⟩ | hc
      · omega
      · have hbound := h.shape.bound i c hc
        omega
    · intro i c hc hcadded
      rcases JsMap.get_set_cases hc with ⟨rfl, rfl⟩ | hc
      · rw [hadded] at hcadded
        cases hcadded
      · exact h.shape.allocated i c hc hcadded
    · intro i c hc hne
      rcases JsMap.get_set_cases hc with ⟨rfl, rfl⟩ | hc
      · exact absurd hid hne
      · exact h.shape.known i c hc hne
    · intro i c hc hcadded
      rcases JsMap.get_set_cases hc with ⟨rfl, rfl⟩ | hc
      · rw [hadded] at hcadded
        cases hcadded
      · exact h.shape.added i c hc hcadded
    · intro i c hc hcdone
      rcases JsMap.get_set_cases hc with ⟨rfl, rfl⟩ | hc
      · rw [hdone] at hcdone
        cases hcdone
      · exact h.shape.doneAdded i c hc hcdone

theorem holds_allocate (outputIndex : Nat) (h : Holds calls before a) : Holds calls before
      { a with
        state := { a.state with
          funcAllocatedOutputIndexes := outputIndex :: a.state.funcAllocatedOutputIndexes } } :=
  ⟨h.catalog, { h.shape with allocated := fun i c hget hadded => mem_cons_of_mem _ (h.shape.allocated i c hget hadded) }, h.pending⟩

variable {opts : Options StreamFailure} {fragment : ToolCallFragment} {call : ToolCall}

theorem supersede_eq {tcIdx : Nat} (hids : KeepIds calls) (h : Shape calls a.state)
    (hmem : fragment ∈ calls) (htcIdx : fragment.index.getD 0 = tcIdx)
    (hget : JsMap.get tcIdx a.state.toolCalls = some call) :
    supersede opts fragment tcIdx call a = (call, a) := by
  unfold supersede
  cases hid : presentId fragment.id with
  | none => rfl
  | some newCallId =>
    dsimp only
    by_cases hempty : call.callId = []
    · simp [hempty]
    · obtain ⟨f, hf, hindex, hfid⟩ := h.known tcIdx call hget hempty
      have hsame := (hids.iff hf hmem hfid hid).mp (hindex.trans htcIdx.symm)
      simp [hsame]

theorem identifyCall_spec (h : call.itemAdded = true → call.callId ≠ []) :
    (identifyCall fragment call).localIndex = call.localIndex ∧
      (identifyCall fragment call).itemAdded = call.itemAdded ∧
      (identifyCall fragment call).itemDone = call.itemDone ∧
      (call.itemAdded = true → (identifyCall fragment call).callId = call.callId) ∧
      ((identifyCall fragment call).callId ≠ [] → call.callId ≠ [] ∧
        (identifyCall fragment call).callId = call.callId ∨
        presentId fragment.id = some (identifyCall fragment call).callId) := by
  unfold identifyCall
  refine ⟨rfl, rfl, rfl, ?_, ?_⟩
  · intro hadded
    rw [if_neg (by simpa using h hadded)]
  · split
    · intro hne
      right
      cases hid : presentId fragment.id with
      | none =>
        rw [hid] at hne
        exact absurd rfl hne
      | some id => rfl
    · intro hne
      exact .inl ⟨hne, rfl⟩

theorem holds_setCall {tcIdx : Nat} {call' : ToolCall} {events : List Event}
    (h : Holds calls before a) (hget : JsMap.get tcIdx a.state.toolCalls = some call)
    (hshape : Shape calls { a.state with toolCalls := JsMap.set tcIdx call' a.state.toolCalls })
    (hfiled : Filed before a (toolEntry (toolCallOutputIndexBase a.state) (tcIdx, call) ++
        restOfCall tcIdx a.state) (recordedItems a.state) →
      Filed before (a.emitAll events) (toolEntry (toolCallOutputIndexBase a.state) (tcIdx, call') ++
        restOfCall tcIdx a.state) (recordedItems a.state)) :
    Holds calls before ({ a with
        state := { a.state with
          toolCalls := JsMap.set tcIdx call' a.state.toolCalls } }.emitAll events) := by
  have hold := Catalog.perm h.catalog (roster_call h.shape.callKeys hget)
  have hnew := roster_setCall tcIdx h.shape call'
  generalize hb : ({ a with
    state := { a.state with
      toolCalls := JsMap.set tcIdx call' a.state.toolCalls } } : Acc) = b at *
  have hstate : b.state = { a.state with
      toolCalls := JsMap.set tcIdx call' a.state.toolCalls } := by rw [← hb]
  have hcatalog : Filed before (b.emitAll events)
      (toolEntry (toolCallOutputIndexBase a.state) (tcIdx, call') ++ restOfCall tcIdx a.state)
      (recordedItems a.state) := by
    unfold Filed
    rw [events_emitAll (b := b) (c := a) (by rw [← hb]) (by rw [← hb])]
    exact hfiled hold
  have hview := state_emitAll b events
  rw [hstate] at hview
  refine Holds.of_filed hcatalog ?_ ?_ ?_ ?_
  · rw [hview]
    exact hnew.symm
  · rw [hview]
    rfl
  · rw [hview]
    exact hshape.of_view rfl
  · rw [hview]
    exact h.pending

theorem appendArguments_spec (opts : Options StreamFailure) (outputIndex : Nat)
    (fragment : ToolCallFragment) (call : ToolCall) :
    ((appendArguments opts outputIndex fragment call).2.localIndex = call.localIndex ∧
      (appendArguments opts outputIndex fragment call).2.callId = call.callId ∧
      (appendArguments opts outputIndex fragment call).2.itemAdded = call.itemAdded ∧
      (appendArguments opts outputIndex fragment call).2.itemDone = call.itemDone) ∧
    OnlyProgress ⟨toolItemId call.callId, outputIndex⟩
      (appendArguments opts outputIndex fragment call).1 ∧
    (call.itemAdded = false ∨ (fragment.arguments.filter Json.truthy).isNone = true →
      (appendArguments opts outputIndex fragment call).1 = []) := by
  unfold appendArguments
  cases hargs : fragment.arguments.filter Json.truthy with
  | none => exact ⟨⟨rfl, rfl, rfl, rfl⟩, fun _ he => (not_mem_nil he).elim, fun _ => rfl⟩
  | some arguments =>
    dsimp only
    refine ⟨⟨rfl, rfl, rfl, rfl⟩, ?_, ?_⟩
    · split
      · exact fun _ he => (not_mem_nil he).elim
      · intro e he
        exact ⟨_, _, mem_singleton.mp he⟩
    · rintro (hnot | hnone)
      · rw [if_pos (by simp [hnot])]
      · cases hnone

theorem addWhenReady_cases (opts : Options StreamFailure) (outputIndex : Nat) (call : ToolCall) :
    ((call.callId.isEmpty || call.name.isEmpty || call.itemAdded) = true ∧
      addWhenReady opts outputIndex call = ([], call)) ∨
    ((call.callId.isEmpty || call.name.isEmpty || call.itemAdded) = false ∧
      ∃ item events, item.id = toolItemId call.callId ∧
        OnlyProgress ⟨toolItemId call.callId, outputIndex⟩ events ∧
        addWhenReady opts outputIndex call =
          (.itemAdded outputIndex (.toolCall item) :: events, { call with itemAdded := true })) := by
  unfold addWhenReady
  cases hready : (call.callId.isEmpty || call.name.isEmpty || call.itemAdded) with
  | true => exact .inl ⟨rfl, by rw [if_pos rfl]⟩
  | false =>
    refine .inr ⟨rfl, addedToolItem opts call, _, rfl, ?_, by rw [if_neg (by simp)]⟩
    split
    · exact fun _ he => (not_mem_nil he).elim
    · intro e he
      exact ⟨_, _, mem_singleton.mp he⟩

/-- What a fragment has to meet: the index of a call that is added is not the index of
a message, and there are no arguments for a call that is done. -/
def fragmentSound (fragment : ToolCallFragment) (s : State) : Bool :=
  let (call, s) := resolveLocalToolCallIndex (fragment.index.getD 0) s
  let identified := identifyCall fragment call
  (call.itemAdded || identified.callId.isEmpty || identified.name.isEmpty ||
    !JsMap.has (toolCallOutputIndexBase s + call.localIndex) s.messages) &&
    (!call.itemDone || (fragment.arguments.filter Json.truthy).isNone)

theorem fresh_call {tcIdx : Nat} {callId : JsString} (hids : KeepIds calls) (h : Shape calls a.state)
    (hget : JsMap.get tcIdx a.state.toolCalls = some call) (hnot : call.itemAdded = false)
    (hknown : ∃ f ∈ calls, f.index.getD 0 = tcIdx ∧ presentId f.id = some callId)
    (hmessage : JsMap.has (toolCallOutputIndexBase a.state + call.localIndex)
      a.state.messages = false) :
    ∀ e ∈ roster a.state, e.1.itemId ≠ toolItemId callId ∧
      e.1.outputIndex ≠ (toolCallOutputIndexBase a.state + call.localIndex : Nat) := by
  obtain ⟨f, hf, hfindex, hfid⟩ := hknown
  intro e he
  rcases mem_roster he with ⟨hreasoning, hkey⟩ | ⟨m, hm, rfl⟩ | ⟨t, ht, hadded, rfl⟩
  · obtain ⟨hle, hprefix⟩ := h.reasoning hreasoning
    rw [hkey]
    refine ⟨(toolItemId_ne_reasoning callId hprefix).symm, ?_⟩
    have hbase : a.state.reasoningIndex < toolCallOutputIndexBase a.state := by
      have hindex : messageIndex a.state = a.state.reasoningIndex.toNat + 1 := by
        unfold messageIndex normalizeOutputIndex
        rw [if_neg (by simp [hreasoning])]
      unfold toolCallOutputIndexBase
      split <;> omega
    show a.state.reasoningIndex ≠ _
    omega
  · refine ⟨messageId_ne_toolItemId _ _ _, ?_⟩
    intro heq
    have hkey : m.1 = toolCallOutputIndexBase a.state + call.localIndex := Int.ofNat.inj heq
    rw [← hkey, has_of_get (JsMap.get_of_mem h.messageKeys (k := m.1) (v := m.2) hm)] at hmessage
    cases hmessage
  · have ht' := JsMap.get_of_mem h.callKeys ht
    have hne : t.1 ≠ tcIdx := by
      rintro rfl
      rw [hget] at ht'
      rw [← Option.some.inj ht', hnot] at hadded
      cases hadded
    refine ⟨?_, ?_⟩
    · intro heq
      have hsame : t.2.callId = callId := append_cancel_left heq
      obtain ⟨g, hg, hgindex, hgid⟩ := h.known t.1 t.2 ht' (h.added t.1 t.2 ht' hadded)
      have hindex := (hids.iff hg hf hgid hfid).mpr hsame
      exact hne (hgindex.symm.trans (hindex.trans hfindex))
    · intro heq
      have hsum : toolCallOutputIndexBase a.state + t.2.localIndex =
          toolCallOutputIndexBase a.state + call.localIndex := Int.ofNat.inj heq
      exact hne (h.locals t.1 tcIdx t.2 call ht' hget (by omega))

/-- A call between the id of a fragment and its arguments: it is still at its index, and
its id is one of the stream. -/
structure Identified (calls : List ToolCallFragment) (tcIdx outputIndex : Nat)
    (call identified : ToolCall) (s : State) : Prop where
  get : JsMap.get tcIdx s.toolCalls = some call
  base : toolCallOutputIndexBase s + call.localIndex = outputIndex
  allocated : outputIndex ∈ s.funcAllocatedOutputIndexes
  localIndex : identified.localIndex = call.localIndex
  itemAdded : identified.itemAdded = call.itemAdded
  itemDone : identified.itemDone = call.itemDone
  kept : call.itemAdded = true → identified.callId = call.callId
  known : identified.callId ≠ [] →
    ∃ f ∈ calls, f.index.getD 0 = tcIdx ∧ presentId f.id = some identified.callId

theorem identified_identifyCall {tcIdx outputIndex : Nat} (h : Shape calls a.state)
    (hmem : fragment ∈ calls) (htcIdx : fragment.index.getD 0 = tcIdx)
    (hget : JsMap.get tcIdx a.state.toolCalls = some call)
    (hbase : toolCallOutputIndexBase a.state + call.localIndex = outputIndex)
    (hallocated : outputIndex ∈ a.state.funcAllocatedOutputIndexes) :
    Identified calls tcIdx outputIndex call (identifyCall fragment call) a.state := by
  obtain ⟨hlocal, hadded, hdone, hkept, hid⟩ :=
    @identifyCall_spec fragment call (h.added tcIdx call hget)
  refine ⟨hget, hbase, hallocated, hlocal, hadded, hdone, hkept, ?_⟩
  intro hne
  rcases hid hne with ⟨hold, heq⟩ | hnew
  · rw [heq]
    exact h.known tcIdx call hget hold
  · exact ⟨fragment, hmem, htcIdx, hnew⟩

section Fragment

variable {tcIdx outputIndex : Nat} {identified : ToolCall}

/-- A fragment that does not add its call has progress of a call that is live, or none. -/
theorem holds_progressCall (opts : Options StreamFailure) (h : Holds calls before a)
    (hi : Identified calls tcIdx outputIndex call identified a.state)
    (hquiet : call.itemDone = true → (fragment.arguments.filter Json.truthy).isNone = true) :
    Holds calls before ({ a with
        state := { a.state with
          toolCalls := JsMap.set tcIdx (appendArguments opts outputIndex fragment identified).2
            a.state.toolCalls } }.emitAll
        (appendArguments opts outputIndex fragment identified).1) := by
  obtain ⟨⟨hlocal, hid, hadded, hdone⟩, hdeltas, hsilent⟩ :=
    appendArguments_spec opts outputIndex fragment identified
  generalize appendArguments opts outputIndex fragment identified = appended at *
  rw [hi.localIndex] at hlocal
  rw [hi.itemAdded] at hadded hsilent
  rw [hi.itemDone] at hdone
  refine holds_setCall h hi.get ?_ ?_
  · refine h.shape.setCall hi.get hlocal ?_ ?_ ?_
    · rw [hid]
      exact hi.known
    · rw [hadded, hlocal, hi.base, hid]
      intro hyes
      rw [hi.kept hyes]
      exact ⟨h.shape.added tcIdx call hi.get hyes, hi.allocated⟩
    · rw [hdone, hadded]
      exact h.shape.doneAdded tcIdx call hi.get
  · intro hfiled
    unfold toolEntry toolKey at hfiled ⊢
    rw [hadded, hdone, hlocal, hid, hi.base]
    rw [hi.base] at hfiled
    cases hyes : call.itemAdded with
    | false =>
      rw [hyes] at hfiled
      rw [hsilent (.inl hyes)]
      exact hfiled
    | true =>
      rw [hyes] at hfiled
      rw [hi.kept hyes] at hdeltas ⊢
      cases hclosed : call.itemDone with
      | false =>
        rw [hclosed] at hfiled
        exact hfiled.progressAll hdeltas
      | true =>
        rw [hclosed] at hfiled
        rw [hsilent (.inr (hquiet hclosed))]
        exact hfiled

/-- A fragment that adds its call: the item is new, and what comes after is its progress. -/
theorem holds_addCall (opts : Options StreamFailure) (h : Holds calls before a)
    (hi : Identified calls tcIdx outputIndex call identified a.state)
    (hnot : call.itemAdded = false) (hne : identified.callId ≠ [])
    (hfresh : ∀ e ∈ roster a.state, e.1.itemId ≠ toolItemId identified.callId ∧
      e.1.outputIndex ≠ (outputIndex : Nat))
    {item : ToolItem} {progress : List Event} (hitem : item.id = toolItemId identified.callId)
    (hprogress : OnlyProgress ⟨toolItemId identified.callId, outputIndex⟩ progress) :
    Holds calls before ({ a with
        state := { a.state with
          toolCalls := JsMap.set tcIdx
            (appendArguments opts outputIndex fragment { identified with itemAdded := true }).2
            a.state.toolCalls } }.emitAll
        (Event.itemAdded outputIndex (.toolCall item) :: progress ++
          (appendArguments opts outputIndex fragment { identified with itemAdded := true }).1)) := by
  have hopen : call.itemDone = false := by
    cases hclosed : call.itemDone with
    | false => rfl
    | true =>
      have hadded := h.shape.doneAdded tcIdx call hi.get hclosed
      rw [hnot] at hadded
      cases hadded
  obtain ⟨⟨hlocal, hid, hadded, hdone⟩, hdeltas, -⟩ :=
    appendArguments_spec opts outputIndex fragment { identified with itemAdded := true }
  generalize appendArguments opts outputIndex fragment { identified with itemAdded := true } =
    appended at *
  rw [hi.localIndex] at hlocal
  rw [hi.itemDone, hopen] at hdone
  refine holds_setCall h hi.get ?_ ?_
  · refine h.shape.setCall hi.get hlocal ?_ ?_ ?_
    · rw [hid]
      exact hi.known
    · intro _
      rw [hlocal, hi.base, hid]
      exact ⟨hne, hi.allocated⟩
    · intro _
      exact hadded
  · intro hfiled
    have hrest : ∀ e ∈ restOfCall tcIdx a.state, e ∈ roster a.state := by
      intro e he
      exact (roster_call h.shape.callKeys hi.get).mem_iff.mpr (mem_append_right _ he)
    unfold toolEntry toolKey at hfiled ⊢
    rw [hnot, if_neg (by simp), nil_append] at hfiled
    rw [hadded, hdone, hlocal, hid, hi.base, if_pos rfl]
    have hadd := @Filed.add before a _ _ ⟨toolItemId identified.callId, outputIndex⟩ hfiled
      (.toolCall item) hitem
      (fun hmem => by
        obtain ⟨e, he, heq⟩ := mem_map.mp hmem
        exact (hfresh e (hrest e he)).1 heq)
      (fun hmem => by
        obtain ⟨e, he, heq⟩ := mem_map.mp hmem
        exact (hfresh e (hrest e he)).2 heq)
    rw [emitAll_append]
    exact (hadd.progressAll hprogress).progressAll hdeltas

end Fragment

theorem holds_emitToolCall (opts : Options StreamFailure) (hids : KeepIds calls)
    (h : Holds calls before a) (hmem : fragment ∈ calls)
    (hsound : fragmentSound fragment a.state = true) :
    Holds calls before (emitToolCall opts a fragment) := by
  obtain ⟨hresolve, hget⟩ := holds_resolve (fragment.index.getD 0) h
  unfold fragmentSound at hsound
  unfold emitToolCall
  dsimp only at hsound ⊢
  generalize htcIdx : fragment.index.getD 0 = tcIdx at hresolve hget hsound ⊢
  generalize resolveLocalToolCallIndex tcIdx a.state = resolved at hresolve hget hsound ⊢
  obtain ⟨call, s⟩ := resolved
  have hallocate := holds_allocate (toolCallOutputIndexBase s + call.localIndex) hresolve
  generalize houtput : toolCallOutputIndexBase s + call.localIndex = outputIndex
    at hallocate hsound ⊢
  generalize hb : ({ a with
    state := { s with
      funcAllocatedOutputIndexes := outputIndex :: s.funcAllocatedOutputIndexes } } : Acc) = b
    at hallocate ⊢
  have hmessages : b.state.messages = s.messages := by rw [← hb]
  have hgetb : JsMap.get tcIdx b.state.toolCalls = some call := by
    rw [← hb]
    exact hget
  have hi : Identified calls tcIdx outputIndex call (identifyCall fragment call) b.state := by
    refine identified_identifyCall hallocate.shape hmem htcIdx hgetb ?_ ?_
    · rw [← houtput, ← hb]
      rfl
    · rw [← hb]
      exact mem_cons_self
  rw [supersede_eq hids hallocate.shape hmem htcIdx hgetb]
  generalize identifyCall fragment call = identified at *
  rw [Bool.and_eq_true] at hsound
  obtain ⟨hfree, hquiet⟩ := hsound
  rcases addWhenReady_cases opts outputIndex identified with
    ⟨hready, hsame⟩ | ⟨hready, item, progress, hitem, hprogress, hnew⟩
  · rw [hsame]
    refine holds_progressCall opts hallocate hi ?_
    intro hclosed
    rw [hclosed, Bool.not_true, Bool.false_or] at hquiet
    exact hquiet
  · rw [Bool.or_eq_false_iff, Bool.or_eq_false_iff] at hready
    obtain ⟨⟨hidentified, hname⟩, hnot⟩ := hready
    rw [hi.itemAdded] at hnot
    have hne : identified.callId ≠ [] := by simpa using hidentified
    rw [hnew]
    refine holds_addCall opts hallocate hi hnot hne ?_ hitem hprogress
    have hfresh := fresh_call hids hallocate.shape hgetb hnot (hi.known hne) (by
      rw [hi.base, hmessages]
      simpa [hnot, hidentified, hname] using hfree)
    rw [hi.base] at hfresh
    exact hfresh

theorem holds_closeToolCall (opts : Options StreamFailure) (tcIdx : Nat) (h : Holds calls before a)
    (hguard : ∀ call, JsMap.get tcIdx a.state.toolCalls = some call → call.callId ≠ [] →
      call.itemAdded = true) :
    Holds calls before (closeToolCall opts true a tcIdx) := by
  unfold closeToolCall
  cases hget : JsMap.get tcIdx a.state.toolCalls with
  | none => exact h
  | some call =>
    dsimp only
    split
    · exact h
    · rename_i hopen
      rw [Bool.or_eq_true, not_or, Bool.not_eq_true, Bool.not_eq_true] at hopen
      obtain ⟨hid, hdone⟩ := hopen
      have hne : call.callId ≠ [] := by simpa using hid
      have hadded := hguard call hget hne
      generalize hoi : toolCallOutputIndexBase a.state + call.localIndex = outputIndex
      generalize hitem : closedToolItem opts (closedStatus a.state) call = item
      have hitemId : item.id = toolItemId call.callId := by
        rw [← hitem]
        rfl
      have hold := Catalog.perm h.catalog (roster_call h.shape.callKeys hget)
      have hnew := roster_setCall tcIdx h.shape { call with itemDone := true }
      unfold toolEntry toolKey at hold hnew
      rw [if_pos hadded, hdone, hoi] at hold
      rw [if_pos hadded, hoi] at hnew
      have hfiled : Filed before a ((⟨toolItemId call.callId, outputIndex⟩, .live) ::
          restOfCall tcIdx a.state) (recordedItems a.state) := hold
      have hprogress : ∀ events : List Event, events = (if item.custom then
          [.progress .customInputDelta item.id outputIndex item.text,
            .progress .customInputDone item.id outputIndex item.text]
          else [.progress .argumentsDone item.id outputIndex item.text]) →
          OnlyProgress ⟨toolItemId call.callId, outputIndex⟩ events := by
        rintro _ rfl
        rw [hitemId]
        intro e he
        split at he
        · rcases mem_cons.mp he with rfl | he
          · exact ⟨_, _, rfl⟩
          · exact ⟨_, _, mem_singleton.mp he⟩
        · exact ⟨_, _, mem_singleton.mp he⟩
      have hclose : Filed before (a.emitAll (closingEvents outputIndex item))
          ((⟨toolItemId call.callId, outputIndex⟩, .done) :: restOfCall tcIdx a.state)
          (recordedItems a.state ++ [((outputIndex : Int), .toolCall item)]) := by
        unfold closingEvents
        rw [emitAll_append]
        exact (hfiled.progressAll (hprogress _ rfl)).close hitemId
      have hstate := state_emitAll a (closingEvents outputIndex item)
      generalize a.emitAll (closingEvents outputIndex item) = b at hclose hstate ⊢
      refine Holds.of_filed (a := { recordCompletedItem _ _ b with state := _ }) hclose ?_ ?_ ?_ ?_
      · refine hnew.symm.trans (List.Perm.of_eq ?_)
        unfold recordCompletedItem
        rw [hstate]
        rfl
      · have hrecorded := recordedItems_record outputIndex (.toolCall item) b
        have hsame : recordedItems b.state = recordedItems a.state := by
          rw [hstate]
          rfl
        rw [hsame] at hrecorded
        exact hrecorded.symm
      · have hshape := @Shape.setCall calls a.state tcIdx call { call with itemDone := true } h.shape
          hget rfl (h.shape.known tcIdx call hget)
          (fun _ => ⟨hne, h.shape.allocated tcIdx call hget hadded⟩) (fun _ => hadded)
        refine hshape.of_view ?_
        unfold recordCompletedItem
        rw [hstate]
        rfl
      · unfold recordCompletedItem
        rw [hstate]
        exact h.pending

end RedRouter.Response.OpenaiToResponses
