import RedRouter.Response.OpenaiToResponses

/-!
# The items of a Responses stream

`roster` reads off a state which items have been added and which of them are
done.  `Catalog` is what the events have to say about a roster: every item is
where the roster has it, no two items share an id or an index, and the items
that are done are the recorded ones.

`Holds` is the invariant: the catalog of the events so far, and `Shape`, the
part that is about the state alone.
-/

namespace RedRouter.Response.OpenaiToResponses

open List Blocks Chat JsMap

/-! ## Catalogs -/

def doneIndexes (entries : List (ItemKey × Phase)) : List Int :=
  (entries.filter fun e => e.2 = .done).map fun e => e.1.outputIndex

/-- What the events say about a roster and about the recorded items. -/
structure Catalog (events : List Emitted) (entries : List (ItemKey × Phase))
    (recorded : List (Int × OutputItem)) : Prop where
  roster : Roster (framesOf events) entries
  ids : (entries.map fun e => e.1.itemId).Nodup
  indexes : (entries.map fun e => e.1.outputIndex).Nodup
  listed : recorded = doneItems events
  done : (recorded.map Prod.fst).Perm (doneIndexes entries)
  unsent : terminalResponses events = []

namespace Catalog

variable {events : List Emitted} {entries : List (ItemKey × Phase)}
  {recorded : List (Int × OutputItem)} {key : ItemKey} {n : Nat}

theorem nil : Catalog [] [] [] :=
  ⟨Roster.nil, nodup_nil, nodup_nil, rfl, List.Perm.nil, rfl⟩

theorem perm (h : Catalog events entries recorded) {entries' : List (ItemKey × Phase)}
    (hperm : entries.Perm entries') : Catalog events entries' recorded where
  roster := h.roster.perm hperm
  ids := (hperm.map _).nodup_iff.mp h.ids
  indexes := (hperm.map _).nodup_iff.mp h.indexes
  listed := h.listed
  done := h.done.trans ((hperm.filter _).map _)
  unsent := h.unsent

theorem not_mem {p : Phase} (h : Catalog events ((key, p) :: entries) recorded) :
    key ∉ entries.map Prod.fst := by
  intro hmem
  obtain ⟨e, he, hkey⟩ := mem_map.mp hmem
  have hids := h.ids
  rw [map_cons, nodup_cons] at hids
  exact hids.1 (mem_map.mpr ⟨e, he, by rw [hkey]⟩)

/-- An event that is not about an item. -/
theorem other (h : Catalog events entries recorded) (n : Nat) (event : Event) (hframe : frameOf event = none)
    (hdone : doneItem event = none) (hterminal : terminalResponse event = none) :
    Catalog (events ++ [⟨n, event⟩]) entries recorded := by
  have hframes : framesOf [⟨n, event⟩] = [] := by simp [framesOf, hframe]
  have hdones : doneItems [⟨n, event⟩] = [] := by simp [doneItems, hdone]
  have hterminals : terminalResponses [⟨n, event⟩] = [] := by simp [terminalResponses, hterminal]
  refine ⟨?_, h.ids, h.indexes, ?_, h.done, ?_⟩
  · rw [framesOf_append, hframes, append_nil]
    exact h.roster
  · rw [doneItems_append, hdones, append_nil]
    exact h.listed
  · rw [terminalResponses_append, hterminals, append_nil]
    exact h.unsent

theorem add (h : Catalog events entries recorded) {item : OutputItem} (hid : item.id = key.itemId)
    (hids : key.itemId ∉ entries.map fun e => e.1.itemId)
    (hindexes : key.outputIndex ∉ entries.map fun e => e.1.outputIndex) :
    Catalog (events ++ [⟨n, .itemAdded key.outputIndex item⟩]) ((key, .live) :: entries)
      recorded := by
  have hnew : key ∉ entries.map Prod.fst := by
    intro hmem
    obtain ⟨e, he, hkey⟩ := mem_map.mp hmem
    exact hids (mem_map.mpr ⟨e, he, by rw [hkey]⟩)
  have hframes : framesOf [⟨n, .itemAdded key.outputIndex item⟩] = [.start key] := by
    simp [framesOf, frameOf, hid]
  refine ⟨?_, ?_, ?_, ?_, h.done, ?_⟩
  · rw [framesOf_append, hframes]
    exact h.roster.begin hnew
  · exact nodup_cons.mpr ⟨hids, h.ids⟩
  · exact nodup_cons.mpr ⟨hindexes, h.indexes⟩
  · rw [doneItems_append]
    exact h.listed.trans (append_nil _).symm
  · rw [terminalResponses_append]
    exact (append_nil _).trans h.unsent

/-- An event between the `added` and the `done` of an item. -/
theorem progress (h : Catalog events ((key, .live) :: entries) recorded) (type : ProgressType)
    (text : JsString) :
    Catalog (events ++ [⟨n, .progress type key.itemId key.outputIndex text⟩])
      ((key, .live) :: entries) recorded := by
  refine ⟨?_, h.ids, h.indexes, ?_, h.done, ?_⟩
  · rw [framesOf_append]
    exact h.roster.delta h.not_mem
  · rw [doneItems_append]
    exact h.listed.trans (append_nil _).symm
  · rw [terminalResponses_append]
    exact (append_nil _).trans h.unsent

theorem close (h : Catalog events ((key, .live) :: entries) recorded) {item : OutputItem}
    (hid : item.id = key.itemId) :
    Catalog (events ++ [⟨n, .itemDone key.outputIndex item⟩]) ((key, .done) :: entries)
      (recorded ++ [(key.outputIndex, item)]) := by
  have hframes : framesOf [⟨n, .itemDone key.outputIndex item⟩] = [.stop key] := by
    simp [framesOf, frameOf, hid]
  refine ⟨?_, h.ids, h.indexes, ?_, ?_, ?_⟩
  · rw [framesOf_append, hframes]
    exact h.roster.stop h.not_mem
  · rw [doneItems_append, h.listed]
    rfl
  · have hdone := h.done
    unfold doneIndexes at hdone ⊢
    rw [filter_cons_of_pos (by simp), map_cons, map_append]
    exact (perm_append_singleton _ _).trans (hdone.cons _)
  · rw [terminalResponses_append]
    exact (append_nil _).trans h.unsent

end Catalog

/-- The catalog after the events of a chunk so far. -/
def Filed (before : List Emitted) (a : Acc) (entries : List (ItemKey × Phase))
    (recorded : List (Int × OutputItem)) : Prop :=
  Catalog (before ++ a.events) entries recorded

namespace Filed

variable {before : List Emitted} {a : Acc} {entries : List (ItemKey × Phase)}
  {recorded : List (Int × OutputItem)} {key : ItemKey}

theorem add (h : Filed before a entries recorded) {item : OutputItem} (hid : item.id = key.itemId)
    (hids : key.itemId ∉ entries.map fun e => e.1.itemId)
    (hindexes : key.outputIndex ∉ entries.map fun e => e.1.outputIndex) :
    Filed before (a.emit (.itemAdded key.outputIndex item)) ((key, .live) :: entries) recorded := by
  unfold Filed Acc.emit
  rw [← append_assoc]
  exact Catalog.add h hid hids hindexes

theorem progress (h : Filed before a ((key, .live) :: entries) recorded) (type : ProgressType)
    (text : JsString) :
    Filed before (a.emit (.progress type key.itemId key.outputIndex text))
      ((key, .live) :: entries) recorded := by
  unfold Filed Acc.emit
  rw [← append_assoc]
  exact Catalog.progress h type text

theorem close (h : Filed before a ((key, .live) :: entries) recorded) {item : OutputItem}
    (hid : item.id = key.itemId) :
    Filed before (a.emit (.itemDone key.outputIndex item)) ((key, .done) :: entries)
      (recorded ++ [(key.outputIndex, item)]) := by
  unfold Filed Acc.emit
  rw [← append_assoc]
  exact Catalog.close h hid

end Filed

/-! ## Rosters -/

def addedPhase (itemDone : Bool) : Phase := if itemDone then .done else .live

def reasoningEntries (s : State) : List (ItemKey × Phase) :=
  if s.reasoningId.isEmpty then []
  else [(⟨s.reasoningId, s.reasoningIndex⟩, addedPhase s.reasoningDone)]

def messageEntry (responseId : JsString) (e : Nat × Message) : ItemKey × Phase :=
  (⟨messageId responseId e.1, e.1⟩, addedPhase e.2.itemDone)

def messageEntries (responseId : JsString) (messages : JsMap Nat Message) :
    List (ItemKey × Phase) :=
  messages.map (messageEntry responseId)

def toolKey (base : Nat) (call : ToolCall) : ItemKey :=
  ⟨toolItemId call.callId, (base + call.localIndex : Nat)⟩

def toolEntry (base : Nat) (e : Nat × ToolCall) : List (ItemKey × Phase) :=
  if e.2.itemAdded then [(toolKey base e.2, addedPhase e.2.itemDone)] else []

def toolEntries (base : Nat) (calls : JsMap Nat ToolCall) : List (ItemKey × Phase) :=
  calls.flatMap (toolEntry base)

/-- The items of a state that have been added. -/
def roster (s : State) : List (ItemKey × Phase) :=
  reasoningEntries s ++ messageEntries s.responseId s.messages ++
    toolEntries (toolCallOutputIndexBase s) s.toolCalls

def recordedItems (s : State) : List (Int × OutputItem) :=
  s.completedOutputItems.map fun c => ((c.outputIndex : Int), c.item)

def noneAdded (calls : JsMap Nat ToolCall) : Bool := calls.all fun e => !e.2.itemAdded

theorem toolEntries_of_noneAdded {calls : JsMap Nat ToolCall} (h : noneAdded calls = true)
    (base : Nat) : toolEntries base calls = [] := by
  unfold toolEntries
  rw [flatMap_eq_nil_iff]
  intro e he
  have hadded := all_eq_true.mp h e he
  unfold toolEntry
  rw [if_neg (by simpa using hadded)]

def restOfMessage (idx base : Nat) (s : State) : List (ItemKey × Phase) :=
  reasoningEntries s ++ messageEntries s.responseId (JsMap.delete idx s.messages) ++
    toolEntries base s.toolCalls

/-- The items other than one tool call. -/
def restOfCall (tcIdx : Nat) (s : State) : List (ItemKey × Phase) :=
  reasoningEntries s ++ messageEntries s.responseId s.messages ++
    toolEntries (toolCallOutputIndexBase s) (JsMap.delete tcIdx s.toolCalls)

theorem perm_message {s : State} {messages : JsMap Nat Message} {idx base : Nat} {message : Message}
    (h : messages.Perm ((idx, message) :: JsMap.delete idx s.messages)) :
    (reasoningEntries s ++ messageEntries s.responseId messages ++ toolEntries base s.toolCalls).Perm
      (messageEntry s.responseId (idx, message) :: restOfMessage idx base s) := by
  have hmap := h.map (messageEntry s.responseId)
  have hfront := (hmap.append_left (reasoningEntries s)).append_right (toolEntries base s.toolCalls)
  exact hfront.trans (List.perm_middle.append_right _)

variable {idx : Nat} {message : Message} {s : State}

theorem roster_message (hkeys : (JsMap.keys s.messages).Nodup)
    (h : JsMap.get idx s.messages = some message) :
    (roster s).Perm (messageEntry s.responseId (idx, message) ::
      restOfMessage idx (toolCallOutputIndexBase s) s) :=
  perm_message (perm_of_get hkeys h)

theorem perm_call {calls : JsMap Nat ToolCall} {tcIdx : Nat} {call : ToolCall}
    (h : calls.Perm ((tcIdx, call) :: JsMap.delete tcIdx s.toolCalls)) :
    (reasoningEntries s ++ messageEntries s.responseId s.messages ++
      toolEntries (toolCallOutputIndexBase s) calls).Perm
      (toolEntry (toolCallOutputIndexBase s) (tcIdx, call) ++ restOfCall tcIdx s) := by
  have hflat := h.flatMap_right (toolEntry (toolCallOutputIndexBase s))
  unfold restOfCall toolEntries
  rw [flatMap_cons] at hflat
  refine (hflat.append_left _).trans ?_
  rw [← append_assoc, ← append_assoc]
  exact List.perm_append_comm.append_right _

theorem roster_call {tcIdx : Nat} {call : ToolCall} (hkeys : (JsMap.keys s.toolCalls).Nodup)
    (h : JsMap.get tcIdx s.toolCalls = some call) :
    (roster s).Perm (toolEntry (toolCallOutputIndexBase s) (tcIdx, call) ++ restOfCall tcIdx s) :=
  perm_call (perm_of_get hkeys h)

/-- The base depends on the messages only through the one after the reasoning. -/
theorem base_setMessage {s : State} {idx : Nat} {message : Message}
    (h : JsMap.has idx s.messages = true ∨ JsMap.has (messageIndex s) s.messages = true) :
    toolCallOutputIndexBase { s with messages := JsMap.set idx message s.messages } =
      toolCallOutputIndexBase s := by
  have hhas : JsMap.has (messageIndex s) (JsMap.set idx message s.messages) =
      JsMap.has (messageIndex s) s.messages := by
    unfold JsMap.has at h ⊢
    rw [get_set]
    split
    · rename_i heq
      rw [heq] at h
      rcases h with h | h <;> rw [h] <;> rfl
    · rfl
  have hindex : messageIndex { s with messages := JsMap.set idx message s.messages } =
      messageIndex s := rfl
  unfold toolCallOutputIndexBase
  rw [hindex]
  show (if JsMap.has (messageIndex s) (JsMap.set idx message s.messages) = true then _ else _) = _
  rw [hhas]

/-! ## The invariant -/

/-- What holds of every state, whatever the events: `calls` are the fragments of the
stream. -/
structure Shape (calls : List ToolCallFragment) (s : State) : Prop where
  messageKeys : (JsMap.keys s.messages).Nodup
  callKeys : (JsMap.keys s.toolCalls).Nodup
  locals : ∀ i j c d, JsMap.get i s.toolCalls = some c → JsMap.get j s.toolCalls = some d →
    c.localIndex = d.localIndex → i = j
  bound : ∀ i c, JsMap.get i s.toolCalls = some c → c.localIndex < s.toolCallLocalIndexNext
  allocated : ∀ i c, JsMap.get i s.toolCalls = some c → c.itemAdded = true →
    toolCallOutputIndexBase s + c.localIndex ∈ s.funcAllocatedOutputIndexes
  known : ∀ i c, JsMap.get i s.toolCalls = some c → c.callId ≠ [] →
    ∃ f ∈ calls, f.index.getD 0 = i ∧ presentId f.id = some c.callId
  added : ∀ i c, JsMap.get i s.toolCalls = some c → c.itemAdded = true → c.callId ≠ []
  doneAdded : ∀ i c, JsMap.get i s.toolCalls = some c → c.itemDone = true → c.itemAdded = true
  reasoning : s.reasoningId.isEmpty = false → 0 ≤ s.reasoningIndex ∧ js "rs_" <+: s.reasoningId
  reasoned : s.reasoningDone = true → s.reasoningId.isEmpty = false
  unstarted : s.started = false → s.messages = []

/-- The part of the state that `Shape` is about. -/
def shapeView (s : State) :=
  ((s.messages, s.started), (s.reasoningId, s.reasoningIndex, s.reasoningDone),
    s.toolCalls, s.toolCallLocalIndexNext, s.funcAllocatedOutputIndexes)

theorem Shape.of_view {calls : List ToolCallFragment} {s' : State} (h : Shape calls s)
    (hview : shapeView s' = shapeView s) : Shape calls s' := by
  cases s
  cases s'
  obtain ⟨⟨rfl, rfl⟩, ⟨rfl, rfl, rfl⟩, rfl, rfl, rfl⟩ := hview
  exact { h with }

structure Holds (calls : List ToolCallFragment) (before : List Emitted) (a : Acc) : Prop where
  catalog : Filed before a (roster a.state) (recordedItems a.state)
  shape : Shape calls a.state
  pending : a.state.completedSent = false

/-- The part of the state that the invariant is about. -/
def itemView (s : State) :=
  ((s.responseId, s.started, s.messages), (s.reasoningId, s.reasoningIndex, s.reasoningDone),
    (s.toolCalls, s.toolCallLocalIndexNext, s.funcAllocatedOutputIndexes),
    (s.completedOutputItems, s.completedSent))

variable {calls : List ToolCallFragment} {before : List Emitted} {a : Acc}

theorem Holds.of_view (h : Holds calls before a) (hview : itemView s = itemView a.state) :
    Holds calls before { a with state := s } := by
  obtain ⟨old, events⟩ := a
  cases old
  cases s
  obtain ⟨⟨rfl, rfl, rfl⟩, ⟨rfl, rfl, rfl⟩, ⟨rfl, rfl, rfl⟩, rfl, rfl⟩ := hview
  exact ⟨h.catalog, h.shape.of_view rfl, h.pending⟩

theorem Holds.of_filed {entries : List (ItemKey × Phase)} {recorded : List (Int × OutputItem)}
    (hfiled : Filed before a entries recorded) (hroster : entries.Perm (roster a.state))
    (hrecorded : recorded = recordedItems a.state) (hshape : Shape calls a.state)
    (hpending : a.state.completedSent = false) : Holds calls before a :=
  ⟨hrecorded ▸ Catalog.perm hfiled hroster, hshape, hpending⟩

theorem recordedItems_record (outputIndex : Nat) (item : OutputItem) (a : Acc) :
    recordedItems (recordCompletedItem outputIndex item a).state =
      recordedItems a.state ++ [((outputIndex : Int), item)] := by
  simp [recordedItems, recordCompletedItem, normalizeOutputIndex]

/-! ## Reasoning -/

/-- No item has been added, apart from reasoning. -/
def noItems (s : State) : Bool := s.messages.isEmpty && noneAdded s.toolCalls

/-- The reasoning has been added and is not done. -/
def reasoningOpen (s : State) : Bool := !s.reasoningId.isEmpty && !s.reasoningDone

def restOfReasoning (s : State) : List (ItemKey × Phase) :=
  messageEntries s.responseId s.messages ++ toolEntries (toolCallOutputIndexBase s) s.toolCalls

theorem roster_reasoning (h : s.reasoningId.isEmpty = false) :
    roster s = (⟨s.reasoningId, s.reasoningIndex⟩, addedPhase s.reasoningDone) ::
      restOfReasoning s := by
  unfold roster reasoningEntries restOfReasoning
  rw [h]
  rfl

theorem roster_noItems (h : noItems s = true) : roster s = reasoningEntries s := by
  unfold noItems at h
  rw [Bool.and_eq_true, List.isEmpty_iff] at h
  unfold roster
  rw [h.1, toolEntries_of_noneAdded h.2, append_nil]
  exact append_nil _

theorem holds_startReasoning (h : Holds calls before a)
    (hguard : a.state.reasoningId.isEmpty = false ∨ noItems a.state = true) :
    Holds calls before (startReasoning 0 a) ∧
      (a.state.reasoningDone = false → reasoningOpen (startReasoning 0 a).state = true) := by
  unfold startReasoning
  cases hempty : a.state.reasoningId.isEmpty with
  | false =>
    refine ⟨h, ?_⟩
    intro hdone
    simp [reasoningOpen, hempty, hdone]
  | true =>
    rw [if_pos rfl]
    have hnone : noItems a.state = true := by
      rcases hguard with hsome | hnone
      · rw [hempty] at hsome
        cases hsome
      · exact hnone
    have hdone : a.state.reasoningDone = false := by
      cases hdone : a.state.reasoningDone with
      | false => rfl
      | true =>
        have hsome := h.shape.reasoned hdone
        rw [hempty] at hsome
        cases hsome
    have hroster : roster a.state = [] := by
      rw [roster_noItems hnone, reasoningEntries, hempty]
      rfl
    generalize hid : js "rs_" ++ a.state.responseId ++ js "_" ++ JsString.ofNat 0 = id
    have hprefix : js "rs_" <+: id := by
      rw [← hid, append_assoc, append_assoc]
      exact prefix_append _ _
    have hnonempty : id.isEmpty = false := by
      obtain ⟨rest, rfl⟩ := hprefix
      rfl
    have hfiled := h.catalog
    rw [hroster] at hfiled
    have hadded := @Filed.add before
      { a with state := { a.state with reasoningId := id, reasoningIndex := (0 : Nat) } } []
      (recordedItems a.state) ⟨id, (0 : Nat)⟩ hfiled (.reasoning id [] .inProgress) rfl
      not_mem_nil not_mem_nil
    have hpart := hadded.progress .reasoningPartAdded []
    refine ⟨⟨?_, ?_, h.pending⟩, ?_⟩
    · rw [roster_noItems]
      · unfold reasoningEntries
        rw [if_neg (by simp [Acc.emitAll, Acc.emit, hnonempty])]
        have hphase : addedPhase a.state.reasoningDone = .live := by
          rw [hdone]
          rfl
        show Filed before _ [(_, addedPhase a.state.reasoningDone)] _
        rw [hphase]
        exact hpart
      · exact hnone
    · have hnoneAdded : noneAdded a.state.toolCalls = true := by
        unfold noItems at hnone
        rw [Bool.and_eq_true] at hnone
        exact hnone.2
      refine { h.shape with allocated := ?_, reasoning := ?_, reasoned := ?_ }
      · intro i c hget hadded
        have hnot := all_eq_true.mp hnoneAdded (i, c) (mem_of_get hget)
        rw [hadded] at hnot
        cases hnot
      · intro _
        exact ⟨Int.natCast_nonneg 0, hprefix⟩
      · intro _
        exact hnonempty
    · intro _
      show (!id.isEmpty && !a.state.reasoningDone) = true
      rw [hnonempty, hdone]
      rfl

theorem holds_emitReasoningDelta {text : JsString} (h : Holds calls before a)
    (hguard : text.isEmpty = true ∨ reasoningOpen a.state = true) :
    Holds calls before (emitReasoningDelta text a) := by
  unfold emitReasoningDelta
  cases hempty : text.isEmpty with
  | true =>
    exact h
  | false =>
    have hopen : reasoningOpen a.state = true := by
      rcases hguard with htrue | hopen
      · rw [hempty] at htrue
        cases htrue
      · exact hopen
    unfold reasoningOpen at hopen
    simp only [Bool.and_eq_true, Bool.not_eq_true'] at hopen
    have hroster := roster_reasoning hopen.1
    have hfiled := h.catalog
    rw [hroster, hopen.2] at hfiled
    refine ⟨?_, h.shape.of_view rfl, h.pending⟩
    have hprogress := @Filed.progress before
      { a with state := { a.state with reasoningBuf := a.state.reasoningBuf ++ text } }
      (restOfReasoning a.state) (recordedItems a.state)
      ⟨a.state.reasoningId, a.state.reasoningIndex⟩ hfiled .reasoningTextDelta text
    show Filed before _ (roster a.state) (recordedItems a.state)
    rw [hroster, hopen.2]
    exact hprogress

theorem holds_closeReasoning (h : Holds calls before a) :
    Holds calls before (closeReasoning a) := by
  unfold closeReasoning
  split
  · exact h
  · rename_i hopen
    rw [Bool.or_eq_true, not_or, Bool.not_eq_true, Bool.not_eq_true] at hopen
    have hroster := roster_reasoning hopen.1
    have hfiled := h.catalog
    rw [hroster, hopen.2] at hfiled
    have hindex : ((normalizeOutputIndex a.state.reasoningIndex : Nat) : Int) =
        a.state.reasoningIndex := Int.toNat_of_nonneg (h.shape.reasoning hopen.1).1
    dsimp only
    generalize hitem : OutputItem.reasoning a.state.reasoningId [a.state.reasoningBuf]
      (closedStatus a.state) = item
    have hid : item.id = a.state.reasoningId := by
      rw [← hitem]
      rfl
    have htext := @Filed.progress before
      { a with state := { a.state with reasoningDone := true } } (restOfReasoning a.state)
      (recordedItems a.state) ⟨a.state.reasoningId, a.state.reasoningIndex⟩ hfiled
      .reasoningTextDone a.state.reasoningBuf
    have hclose := @Filed.close before _ _ _ ⟨a.state.reasoningId, a.state.reasoningIndex⟩
      (htext.progress .reasoningPartDone a.state.reasoningBuf) item hid
    have hdone : roster { a.state with reasoningDone := true } =
        (⟨a.state.reasoningId, a.state.reasoningIndex⟩, .done) :: restOfReasoning a.state :=
      roster_reasoning (s := { a.state with reasoningDone := true }) hopen.1
    refine Holds.of_filed (a := recordCompletedItem _ _ _) hclose (List.Perm.of_eq hdone.symm) ?_ ?_
      h.pending
    · have hrecorded := recordedItems_record (normalizeOutputIndex a.state.reasoningIndex) item
        (Acc.emitAll { a with state := { a.state with reasoningDone := true } }
          [.progress .reasoningTextDone a.state.reasoningId a.state.reasoningIndex
            a.state.reasoningBuf,
          .progress .reasoningPartDone a.state.reasoningId a.state.reasoningIndex
            a.state.reasoningBuf,
          .itemDone a.state.reasoningIndex item])
      rw [hindex] at hrecorded
      exact hrecorded.symm
    · exact { h.shape with reasoned := fun _ => hopen.1 }

/-! ## Ids and indexes -/

theorem messageId_inj {responseId : JsString} {i j : Nat}
    (h : messageId responseId i = messageId responseId j) : i = j :=
  JsString.ofNat_inj (append_cancel_left h)

theorem messageId_ne_toolItemId (responseId callId : JsString) (idx : Nat) :
    messageId responseId idx ≠ toolItemId callId := by
  intro h
  have hhead : some (unit 'm') = some (unit 'f') := congrArg List.head? h
  revert hhead
  decide

theorem messageId_ne_reasoning {responseId id : JsString} (idx : Nat) (h : js "rs_" <+: id) :
    messageId responseId idx ≠ id := by
  obtain ⟨rest, rfl⟩ := h
  intro heq
  have hhead : some (unit 'm') = some (unit 'r') := congrArg List.head? heq
  revert hhead
  decide

theorem toolItemId_ne_reasoning {id : JsString} (callId : JsString) (h : js "rs_" <+: id) :
    toolItemId callId ≠ id := by
  obtain ⟨rest, rfl⟩ := h
  intro heq
  have hhead : some (unit 'f') = some (unit 'r') := congrArg List.head? heq
  revert hhead
  decide

theorem mem_roster {e : ItemKey × Phase} (h : e ∈ roster s) : (s.reasoningId.isEmpty = false ∧
      e = (⟨s.reasoningId, s.reasoningIndex⟩, addedPhase s.reasoningDone)) ∨
      (∃ m ∈ s.messages, e = messageEntry s.responseId m) ∨
      ∃ t ∈ s.toolCalls, t.2.itemAdded = true ∧
        e = (toolKey (toolCallOutputIndexBase s) t.2, addedPhase t.2.itemDone) := by
  unfold roster at h
  rw [mem_append, mem_append] at h
  rcases h with (h | h) | h
  · unfold reasoningEntries at h
    split at h
    · cases h
    · rename_i hempty
      rw [mem_singleton.mp h]
      exact .inl ⟨by simpa using hempty, rfl⟩
  · obtain ⟨m, hm, rfl⟩ := mem_map.mp h
    exact .inr (.inl ⟨m, hm, rfl⟩)
  · obtain ⟨t, ht, hentry⟩ := mem_flatMap.mp h
    unfold toolEntry at hentry
    split at hentry
    · rename_i hadded
      exact .inr (.inr ⟨t, ht, hadded, mem_singleton.mp hentry⟩)
    · cases hentry

/-! ## Messages -/

theorem countP_succ_lt {claimed : List Nat} {c : Nat} (h : c ∈ claimed) :
    claimed.countP (fun i => decide (c + 1 ≤ i)) < claimed.countP fun i => decide (c ≤ i) := by
  induction claimed with
  | nil => cases h
  | cons d claimed ih =>
    have hle : claimed.countP (fun i => decide (c + 1 ≤ i)) ≤
        claimed.countP fun i => decide (c ≤ i) := by
      apply countP_mono_left
      intro i _ hi
      simp only [decide_eq_true_eq] at hi ⊢
      omega
    rw [countP_cons, countP_cons]
    simp only [decide_eq_true_eq]
    rcases mem_cons.mp h with rfl | h
    · rw [if_neg (by omega), if_pos (by omega)]
      omega
    · have hlt := ih h
      by_cases hd : c + 1 ≤ d
      · rw [if_pos hd, if_pos (by omega)]
        omega
      · rw [if_neg hd]
        omega

theorem firstFree_not_mem {claimed : List Nat} (fuel c : Nat)
    (h : claimed.countP (fun i => decide (c ≤ i)) ≤ fuel) : firstFree claimed fuel c ∉ claimed := by
  induction fuel generalizing c with
  | zero =>
    have hnone := countP_eq_zero.mp (Nat.le_zero.mp h)
    intro hmem
    have hlt := hnone c hmem
    simp at hlt
  | succ fuel ih =>
    rw [firstFree]
    split
    · rename_i hmem
      have hlt := countP_succ_lt (contains_iff_mem.mp hmem)
      exact ih (c + 1) (by omega)
    · rename_i hmem
      exact fun h => hmem (contains_iff_mem.mpr h)

theorem nextFreeMessageIndex_not_mem (s : State) (idx : Nat) :
    nextFreeMessageIndex s idx ∉ claimedIndexes s :=
  firstFree_not_mem _ _ countP_le_length

theorem holds_addMessage (h : Holds calls before a) (hstarted : a.state.started = true)
    (hnew : JsMap.get idx a.state.messages = none)
    (hindex : ∀ e ∈ roster a.state, e.1.outputIndex ≠ idx)
    (hbase : JsMap.has (messageIndex a.state) a.state.messages = true ∨
      noneAdded a.state.toolCalls = true) :
    Holds calls before (addMessage idx a) ∧
      JsMap.get idx (addMessage idx a).state.messages = some {} := by
  have hid : ∀ e ∈ roster a.state, e.1.itemId ≠ messageId a.state.responseId idx := by
    intro e he
    rcases mem_roster he with ⟨hreasoning, hkey⟩ | ⟨m, hm, rfl⟩ | ⟨t, ht, -, rfl⟩
    · rw [hkey]
      exact (messageId_ne_reasoning idx (h.shape.reasoning hreasoning).2).symm
    · intro heq
      have hkey : m.1 = idx := messageId_inj heq
      have hnot := get_eq_none_iff.mp hnew
      exact hnot (hkey ▸ mem_map.mpr ⟨m, hm, rfl⟩)
    · exact (messageId_ne_toolItemId a.state.responseId t.2.callId idx).symm
  -- Either the base stays or there are no tool calls to move.
  have htools : ∀ calls' : JsMap Nat Message, calls' = JsMap.set idx {} a.state.messages →
      toolEntries (toolCallOutputIndexBase { a.state with messages := calls' }) a.state.toolCalls =
        toolEntries (toolCallOutputIndexBase a.state) a.state.toolCalls := by
    rintro _ rfl
    rcases hbase with hhas | hnone
    · rw [base_setMessage (.inr hhas)]
    · rw [toolEntries_of_noneAdded hnone, toolEntries_of_noneAdded hnone]
  have hdelete : JsMap.delete idx a.state.messages = a.state.messages :=
    delete_of_not_mem (get_eq_none_iff.mp hnew)
  have hperm := @perm_message a.state _ idx (toolCallOutputIndexBase a.state) {}
    (set_perm idx {} h.shape.messageKeys)
  have hrest : restOfMessage idx (toolCallOutputIndexBase a.state) a.state = roster a.state := by
    unfold restOfMessage roster
    rw [hdelete]
  rw [hrest] at hperm
  have hhas : JsMap.has idx a.state.messages = false := by
    unfold JsMap.has
    rw [hnew]
    rfl
  unfold addMessage
  rw [if_neg (by simp [hhas])]
  refine ⟨?_, ?_⟩
  · have hadd := @Filed.add before
      { a with state := { a.state with messages := JsMap.set idx {} a.state.messages } }
      (roster a.state) (recordedItems a.state) ⟨messageId a.state.responseId idx, idx⟩ h.catalog
      (.message (messageId a.state.responseId idx) [] .inProgress) rfl
      (fun hmem => by
        obtain ⟨e, he, heq⟩ := mem_map.mp hmem
        exact hid e he heq)
      (fun hmem => by
        obtain ⟨e, he, heq⟩ := mem_map.mp hmem
        exact hindex e he heq)
    refine Holds.of_filed hadd ?_ rfl ?_ h.pending
    · refine hperm.symm.trans (List.Perm.of_eq ?_)
      show _ = reasoningEntries a.state ++
        messageEntries a.state.responseId (JsMap.set idx {} a.state.messages) ++
        toolEntries (toolCallOutputIndexBase
          { a.state with messages := JsMap.set idx {} a.state.messages }) a.state.toolCalls
      rw [htools _ rfl]
    · refine { h.shape with messageKeys := nodup_keys_set h.shape.messageKeys, allocated := ?_, unstarted := ?_ }
      · intro i c hget hadded
        rcases hbase with hhas | hnone
        · have hsame := @base_setMessage a.state idx {} (.inr hhas)
          show toolCallOutputIndexBase
            { a.state with messages := JsMap.set idx {} a.state.messages } + _ ∈ _
          rw [hsame]
          exact h.shape.allocated i c hget hadded
        · have hnot := all_eq_true.mp hnone (i, c) (mem_of_get hget)
          rw [hadded] at hnot
          cases hnot
      · intro hfalse
        have hstarted' : a.state.started = false := hfalse
        rw [hstarted] at hstarted'
        cases hstarted'
  · show JsMap.get idx (JsMap.set idx {} a.state.messages) = some {}
    rw [get_set, if_pos rfl]

theorem has_of_get {V : Type} {k : Nat} {v : V} {m : JsMap Nat V} (h : JsMap.get k m = some v) :
    JsMap.has k m = true := by
  unfold JsMap.has
  rw [h]
  rfl

theorem Shape.setMessage (h : Shape calls s) (hget : JsMap.get idx s.messages = some message)
    (message' : Message) :
    Shape calls { s with messages := JsMap.set idx message' s.messages } := by
  have hbase := @base_setMessage s idx message' (.inl (has_of_get hget))
  refine { h with messageKeys := nodup_keys_set h.messageKeys, allocated := ?_, unstarted := ?_ }
  · intro i c hc hadded
    rw [hbase]
    exact h.allocated i c hc hadded
  · intro hstarted
    have hnil : s.messages = [] := h.unstarted hstarted
    rw [hnil] at hget
    cases hget

theorem roster_setMessage (h : Shape calls s) (hget : JsMap.get idx s.messages = some message)
    (message' : Message) :
    (roster { s with messages := JsMap.set idx message' s.messages }).Perm
      (messageEntry s.responseId (idx, message') ::
        restOfMessage idx (toolCallOutputIndexBase s) s) := by
  have hbase := @base_setMessage s idx message' (.inl (has_of_get hget))
  have hperm := @perm_message s _ idx (toolCallOutputIndexBase s) message'
    (set_perm idx message' h.messageKeys)
  unfold roster
  rw [hbase]
  exact hperm

theorem holds_fillMessage (content : JsString) (h : Holds calls before a)
    (hget : JsMap.get idx a.state.messages = some message) (hlive : message.itemDone = false) :
    Holds calls before (fillMessage idx content a) := by
  unfold fillMessage
  rw [hget]
  dsimp only
  generalize hmessage' : { message with
    contentAdded := true, textBuf := message.textBuf ++ content } = message'
  have hlive' : message'.itemDone = false := by
    rw [← hmessage']
    exact hlive
  have hold := Catalog.perm h.catalog (roster_message h.shape.messageKeys hget)
  have hnew := roster_setMessage h.shape hget message'
  unfold messageEntry at hold hnew
  rw [hlive] at hold
  rw [hlive'] at hnew
  have hshape := h.shape.setMessage hget message'
  have hfiled : Filed before
      { a with state := { a.state with messages := JsMap.set idx message' a.state.messages } }
      ((⟨messageId a.state.responseId idx, idx⟩, .live) ::
        restOfMessage idx (toolCallOutputIndexBase a.state) a.state) (recordedItems a.state) := hold
  split
  · have hdelta := hfiled.progress .outputTextDelta content
    exact Holds.of_filed hdelta hnew.symm rfl (hshape.of_view rfl) h.pending
  · have hdelta := (hfiled.progress .contentPartAdded []).progress .outputTextDelta content
    exact Holds.of_filed hdelta hnew.symm rfl (hshape.of_view rfl) h.pending

/-- Text goes to the message after the reasoning.  When there is none yet, no tool
call may have been added. -/
theorem holds_emitTextContent (content : JsString) (h : Holds calls before a)
    (hstarted : a.state.started = true)
    (hguard : JsMap.has (messageIndex a.state) a.state.messages = true ∨
      noneAdded a.state.toolCalls = true) :
    Holds calls before (emitTextContent (messageIndex a.state) content a) := by
  unfold emitTextContent
  cases hget : JsMap.get (messageIndex a.state) a.state.messages with
  | none =>
    show Holds calls before (fillMessage (messageIndex a.state) content
      (addMessage (messageIndex a.state) a))
    have hhas : JsMap.has (messageIndex a.state) a.state.messages = false := by
      unfold JsMap.has
      rw [hget]
      rfl
    have hnone : noneAdded a.state.toolCalls = true := by
      rcases hguard with htrue | hnone
      · rw [hhas] at htrue
        cases htrue
      · exact hnone
    have hindex : ∀ e ∈ roster a.state, e.1.outputIndex ≠ (messageIndex a.state : Nat) := by
      intro e he
      rcases mem_roster he with ⟨hreasoning, hkey⟩ | ⟨m, hm, rfl⟩ | ⟨t, ht, hadded, -⟩
      · rw [hkey]
        unfold messageIndex normalizeOutputIndex
        rw [if_neg (by simp [hreasoning])]
        show a.state.reasoningIndex ≠ _
        omega
      · intro heq
        have hkey : m.1 = messageIndex a.state := Int.ofNat.inj heq
        have hnot := get_eq_none_iff.mp hget
        exact hnot (hkey ▸ mem_map.mpr ⟨m, hm, rfl⟩)
      · have hnot := all_eq_true.mp hnone t ht
        rw [hadded] at hnot
        cases hnot
    obtain ⟨hadd, hmessage⟩ := holds_addMessage h hstarted hget hindex (.inr hnone)
    exact holds_fillMessage content hadd hmessage rfl
  | some message =>
    cases hdone : message.itemDone with
    | false =>
      have hsame : addMessage (messageIndex a.state) a = a := by
        unfold addMessage
        rw [if_pos (has_of_get hget)]
      simp only [Option.map_some, Option.getD_some, hdone, Bool.false_eq_true, if_false]
      rw [hsame]
      exact holds_fillMessage content h hget hdone
    | true =>
      simp only [Option.map_some, hdone]
      have hfree := nextFreeMessageIndex_not_mem a.state (messageIndex a.state)
      generalize nextFreeMessageIndex a.state (messageIndex a.state) = idx at hfree ⊢
      unfold claimedIndexes at hfree
      rw [mem_append, mem_append, not_or, not_or] at hfree
      obtain ⟨⟨hkeys, htools⟩, hreason⟩ := hfree
      have hindex : ∀ e ∈ roster a.state, e.1.outputIndex ≠ (idx : Nat) := by
        intro e he
        rcases mem_roster he with ⟨hreasoning, hkey⟩ | ⟨m, hm, rfl⟩ | ⟨t, ht, hadded, rfl⟩
        · rw [if_neg (by simp [hreasoning]), mem_singleton] at hreason
          unfold normalizeOutputIndex at hreason
          rw [hkey]
          show a.state.reasoningIndex ≠ _
          omega
        · intro heq
          exact hkeys ((Int.ofNat.inj heq : m.1 = idx) ▸ mem_map.mpr ⟨m, hm, rfl⟩)
        · intro heq
          have hmem := h.shape.allocated t.1 t.2 (JsMap.get_of_mem h.shape.callKeys ht) hadded
          rw [(Int.ofNat.inj heq : toolCallOutputIndexBase a.state + t.2.localIndex = idx)] at hmem
          exact htools hmem
      obtain ⟨hadd, hmessage⟩ := holds_addMessage h hstarted (get_eq_none_iff.mpr hkeys) hindex
        (.inl (has_of_get hget))
      exact holds_fillMessage content hadd hmessage rfl

theorem holds_closeMessage (idx : Nat) (h : Holds calls before a) :
    Holds calls before (closeMessage a idx) := by
  unfold closeMessage
  cases hget : JsMap.get idx a.state.messages with
  | none => exact h
  | some message =>
    dsimp only
    cases hdone : message.itemDone with
    | true =>
      exact h
    | false =>
      generalize hmessage' : { message with itemDone := true } = message'
      have hdone' : message'.itemDone = true := by rw [← hmessage']
      have hold := Catalog.perm h.catalog (roster_message h.shape.messageKeys hget)
      have hnew := roster_setMessage h.shape hget message'
      unfold messageEntry at hold hnew
      rw [hdone] at hold
      rw [hdone'] at hnew
      have hfiled : Filed before
          { a with state := { a.state with messages := JsMap.set idx message' a.state.messages } }
          ((⟨messageId a.state.responseId idx, idx⟩, .live) ::
            restOfMessage idx (toolCallOutputIndexBase a.state) a.state)
          (recordedItems a.state) := hold
      have hclose := @Filed.close before _ _ _ ⟨messageId a.state.responseId idx, idx⟩
        ((hfiled.progress .outputTextDone message.textBuf).progress .contentPartDone
          message.textBuf)
        (.message (messageId a.state.responseId idx) [message.textBuf] (closedStatus a.state)) rfl
      refine Holds.of_filed (a := recordCompletedItem _ _ _) hclose hnew.symm ?_
        ((h.shape.setMessage hget message').of_view rfl) h.pending
      rw [recordedItems_record]
      rfl

end RedRouter.Response.OpenaiToResponses
