import RedRouter.Lib.Separators
import RedRouter.Compression.BodyAdapter

/-!
# Calls and outputs after a compaction

A compaction keeps some of the messages, and the items of the others are
dropped.  A call is dropped too when its output is.  `Paired` is what the
restored items are meant to be: a call is among them exactly when an output of
it is kept, and nothing is left without its other half.

The output of a call is looked for under `function_call_output`, except for a
custom tool call, and so the output of a local shell call or of a patch call
is never found. `Aligned` is the condition on the items and on the kept
messages under which the right output is found all the same.

An output that has nothing to compress has no message, and stays.
-/

namespace RedRouter.Compression.BodyAdapter

open List JsValue

variable {out : Outside}

/-! ## The kinds of calls -/

inductive Kind where
  | function
  | customTool
  | localShell
  | applyPatch
deriving DecidableEq

namespace Kind

def callType : Kind → JsString
  | function => js "function_call"
  | customTool => js "custom_tool_call"
  | localShell => js "local_shell_call"
  | applyPatch => js "apply_patch_call"

def answerType : Kind → JsString
  | function => js "function_call_output"
  | customTool => js "custom_tool_call_output"
  | localShell => js "local_shell_call_output"
  | applyPatch => js "apply_patch_call_output"

def lookedFor : Kind → Kind
  | customTool => customTool
  | _ => function

theorem outputType_callType (kind : Kind) :
    InputAdapter.outputType kind.callType = kind.lookedFor.answerType := by
  cases kind <;> rfl

theorem callType_mem (kind : Kind) : kind.callType ∈ toolCallTypes := by
  cases kind <;> decide

theorem answerType_mem (kind : Kind) : kind.answerType ∈ toolOutputTypes := by
  cases kind <;> decide

theorem exists_of_mem {type : JsString} (h : type ∈ toolOutputTypes) :
    ∃ kind : Kind, type = kind.answerType := by
  simp only [toolOutputTypes, mem_cons, not_mem_nil, or_false] at h
  rcases h with rfl | rfl | rfl | rfl
  · exact ⟨function, rfl⟩
  · exact ⟨customTool, rfl⟩
  · exact ⟨localShell, rfl⟩
  · exact ⟨applyPatch, rfl⟩

theorem answerType_not_call (kind : Kind) : kind.answerType ∉ toolCallTypes := by
  cases kind <;> decide

theorem callType_not_message (kind : Kind) : kind.callType ∉ responsesMessageTypes := by
  cases kind <;> decide

theorem answerType_inj {kind kind' : Kind} (h : kind.answerType = kind'.answerType) :
    kind = kind' := by
  revert h
  cases kind <;> cases kind' <;> decide

theorem colon_not_mem (kind : Kind) : unit ':' ∉ kind.answerType := by
  cases kind <;> decide

end Kind

variable {callId : JsString} {kind : Kind}

theorem pairKey_inj {kind' : Kind} {callId' : JsString}
    (h : InputAdapter.pairKey kind.answerType callId =
      InputAdapter.pairKey kind'.answerType callId') : kind = kind' ∧ callId = callId' := by
  have hcolon : js ":" = [unit ':'] := by decide
  unfold InputAdapter.pairKey at h
  rw [hcolon, append_assoc, append_assoc] at h
  obtain ⟨htype, hid⟩ := Separators.separated_inj_first kind.colon_not_mem kind'.colon_not_mem h
  exact ⟨Kind.answerType_inj htype, hid⟩

/-! ## What is meant -/

def Tagged (type callId : JsString) (item : JsValue) : Prop :=
  ∃ members, item = .obj members ∧ prop members (js "type") = .str type ∧
    prop members (js "call_id") = .str callId

def IsCall (kind : Kind) (callId : JsString) (item : JsValue) : Prop :=
  Tagged kind.callType callId item

def IsOutput (kind : Kind) (callId : JsString) (item : JsValue) : Prop :=
  Tagged kind.answerType callId item

/-- A body with the items, and with nothing that goes before them. -/
structure Responses (body : Body) (items : List JsValue) : Prop where
  input : prop body (js "input") = .arr items
  messages : ∀ messages, prop body (js "messages") ≠ .arr messages
  conversationState : ∀ state, prop body (js "conversationState") ≠ .obj state

/-- Every output has a call, with an id. -/
def Matched (items : List JsValue) : Prop :=
  ∀ members, .obj members ∈ items → ∀ kind : Kind, prop members (js "type") = .str kind.answerType →
    ∃ callId, callId ≠ [] ∧ prop members (js "call_id") = .str callId ∧
      ∃ call ∈ items, IsCall kind callId call

def Mapped (out : Outside) (item : JsValue) : Prop := (compressibleMessage out item).isSome = true

def Chosen (kept : List MessageLike) (index : Nat) : Prop :=
  ∃ message ∈ kept, message.inputIndex = some index

def KeptOutput (out : Outside) (items : List JsValue) (kept : List MessageLike) (kind : Kind)
    (callId : JsString) : Prop :=
  ∃ index item, items[index]? = some item ∧ IsOutput kind callId item ∧
    (Mapped out item → Chosen kept index)

def FoundOutput (out : Outside) (items : List JsValue) (kept : List MessageLike) (kind : Kind)
    (callId : JsString) : Prop :=
  ∃ index item, items[index]? = some item ∧ IsOutput kind callId item ∧ Mapped out item ∧
    Chosen kept index

/-- A call that had an output is there exactly when an output of it is kept.  An
output is there with its call, and a call that had an output with an output. -/
structure Paired (out : Outside) (items : List JsValue) (kept : List MessageLike)
    (restored : List JsValue) : Prop where
  calls : ∀ kind callId, callId ≠ [] → ∀ call ∈ items, IsCall kind callId call →
    (∃ output ∈ items, IsOutput kind callId output) →
    (call ∈ restored ↔ KeptOutput out items kept kind callId)
  no_orphan : ∀ kind callId, ∀ output ∈ restored, IsOutput kind callId output →
    ∃ call ∈ restored, IsCall kind callId call
  not_stripped : ∀ kind callId, callId ≠ [] → ∀ call ∈ restored, IsCall kind callId call →
    (∃ output ∈ items, IsOutput kind callId output) →
    ∃ output ∈ restored, IsOutput kind callId output

/-- The calls that had an output, and the id of some output with a message: the
output that is looked for is found exactly when an output of the call is kept. -/
def Aligned (out : Outside) (items : List JsValue) (kept : List MessageLike) : Prop :=
  ∀ (kind : Kind) (callId : JsString), callId ≠ [] → (∃ call ∈ items, IsCall kind callId call) →
    (∃ output ∈ items, IsOutput kind callId output) →
    (∃ kind', ∃ output ∈ items, IsOutput kind' callId output ∧ Mapped out output) →
    (FoundOutput out items kept kind.lookedFor callId ↔ KeptOutput out items kept kind callId)

/-! ## Items -/

theorem prop_set (item : Body) (key key' : JsString) (value : JsValue) :
    prop (item.set key value) key' = if key = key' then value else prop item key' := by
  unfold prop
  rw [JsMap.get_set]
  split <;> rfl

theorem prop_messageToResponsesItem (out : Outside) (message : MessageLike) (item : Body)
    {key : JsString} (houtput : key ≠ js "output") (hcontent : key ≠ js "content") :
    prop (messageToResponsesItem out message item) key = prop item key := by
  unfold messageToResponsesItem
  dsimp only
  split
  · rw [prop_set, if_neg]
    unfold responsesToolOutputField
    split
    · exact hcontent.symm
    · exact hcontent.symm
    · exact houtput.symm
  · rw [prop_set, if_neg hcontent.symm]

theorem Tagged.restored (out : Outside) {type : JsString} (message : MessageLike) {item : Body} :
    Tagged type callId (.obj (messageToResponsesItem out message item)) ↔
      Tagged type callId (.obj item) := by
  have htype : prop (messageToResponsesItem out message item) (js "type") = prop item (js "type") :=
    prop_messageToResponsesItem out message item (by decide) (by decide)
  have hid : prop (messageToResponsesItem out message item) (js "call_id") =
      prop item (js "call_id") :=
    prop_messageToResponsesItem out message item (by decide) (by decide)
  constructor
  · rintro ⟨members, hobj, hmembers, hcall⟩
    rw [← JsValue.obj.inj hobj, htype] at hmembers
    rw [← JsValue.obj.inj hobj, hid] at hcall
    exact ⟨item, rfl, hmembers, hcall⟩
  · rintro ⟨members, hobj, hmembers, hcall⟩
    obtain rfl := JsValue.obj.inj hobj
    exact ⟨_, rfl, htype.trans hmembers, hid.trans hcall⟩

theorem Tagged.typeOf {type : JsString} {members : Body} (h : Tagged type callId (.obj members)) :
    BodyAdapter.typeOf members = type ∧ (∀ types, hasType members types = types.contains type) ∧
      prop members (js "call_id") = .str callId := by
  obtain ⟨_, hobj, htype, hid⟩ := h
  obtain rfl := JsValue.obj.inj hobj
  unfold BodyAdapter.typeOf hasType
  rw [htype]
  exact ⟨rfl, fun _ => rfl, hid⟩

theorem exists_kind_of_hasType {members : Body} (h : hasType members toolOutputTypes = true) :
    ∃ kind : Kind, prop members (js "type") = .str kind.answerType := by
  unfold hasType at h
  split at h
  · rename_i type htype
    obtain ⟨kind, rfl⟩ := Kind.exists_of_mem (contains_iff_mem.mp h)
    exact ⟨kind, htype⟩
  · cases h

variable {item : JsValue}

theorem compressibleMessage_eq_some {members message : Body}
    (h : compressibleMessage out item = some (members, message)) :
    item = .obj members ∧ typeOf members ∈ responsesMessageTypes := by
  cases item with
  | obj found =>
    obtain ⟨made, hmade, hrest⟩ := Option.bind_eq_some_iff.mp h
    split at hrest
    · obtain rfl := congrArg Prod.fst (Option.some.inj hrest)
      refine ⟨rfl, ?_⟩
      unfold responsesItemToMessage at hmade
      dsimp only at hmade
      split at hmade
      · exact contains_iff_mem.mp (by assumption)
      · cases hmade
    · cases hrest
  | undefined => cases h
  | null => cases h
  | bool b => cases h
  | num bits => cases h
  | str s => cases h
  | arr items => cases h

theorem mapped_of_some {found : Body × Body} (h : compressibleMessage out item = some found) :
    Mapped out item := by
  unfold Mapped
  rw [h]
  rfl

theorem Mapped.exists_message (h : Mapped out item) : ∃ members message, item = .obj members ∧
      compressibleMessage out item = some (members, message) := by
  obtain ⟨⟨members, message⟩, hfound⟩ := Option.isSome_iff_exists.mp h
  exact ⟨members, message, (compressibleMessage_eq_some hfound).1, hfound⟩

theorem IsCall.not_mapped (h : IsCall kind callId item) : compressibleMessage out item = none := by
  cases hfound : compressibleMessage out item with
  | none => rfl
  | some found =>
    obtain ⟨rfl, hmessage⟩ := compressibleMessage_eq_some hfound
    rw [(Tagged.typeOf h).1] at hmessage
    exact absurd hmessage kind.callType_not_message

/-! ## The messages by index -/

variable {kept : List MessageLike}

theorem compressedMessagesByIndex_get {index : Nat} :
    ((compressedMessagesByIndex kept).get index).isSome = true ↔ Chosen kept index := by
  have hloop : ∀ byIndex : JsMap Nat MessageLike,
      ((kept.foldl indexMessage byIndex).get index).isSome = true ↔
        (byIndex.get index).isSome = true ∨ Chosen kept index := by
    induction kept with
    | nil => simp [Chosen]
    | cons message kept ih =>
      intro byIndex
      have hchosen : Chosen (message :: kept) index ↔
          message.inputIndex = some index ∨ Chosen kept index := by
        simp [Chosen]
      rw [foldl_cons, ih, hchosen, ← or_assoc]
      apply or_congr_left
      unfold indexMessage
      cases hindex : message.inputIndex with
      | none => simp
      | some index' =>
        rw [JsMap.get_set, Option.some.injEq]
        split <;> simp [*]
  exact (hloop []).trans (by simp)

/-! ## The adapter of a list of items -/

/-- The adapter has the mappings of the items. -/
structure Adapts (out : Outside) (items : List JsValue) (a : InputAdapter) : Prop where
  inputItems : a.inputItems = items
  mappings : a.mappings = (items.zipIdx.filterMap (adaptItem out)).map Prod.fst

namespace Adapts

variable {items : List JsValue} {a : InputAdapter}

theorem mem_mappings (h : Adapts out items a) {mapping : Mapping} :
    mapping ∈ a.mappings ↔ ∃ item message, items[mapping.index]? = some item ∧
      compressibleMessage out item = some (mapping.item, message) := by
  rw [h.mappings, mem_map]
  constructor
  · rintro ⟨adapted, hmem, rfl⟩
    obtain ⟨e, he, hadapted⟩ := mem_filterMap.mp hmem
    obtain ⟨found, hfound, rfl⟩ := Option.map_eq_some_iff.mp hadapted
    exact ⟨e.1, found.2, mem_zipIdx_iff_getElem?.mp he, hfound⟩
  · rintro ⟨item, message, hitem, hfound⟩
    refine ⟨(mapping, ⟨message, some mapping.index⟩), mem_filterMap.mpr ?_, rfl⟩
    refine ⟨(item, mapping.index), mem_zipIdx_iff_getElem?.mpr hitem, ?_⟩
    unfold adaptItem
    rw [hfound]
    rfl

theorem any_index (h : Adapts out items a) {index : Nat} {item : JsValue}
    (hitem : items[index]? = some item) :
    a.mappings.any (fun mapping => mapping.index = index) = true ↔ Mapped out item := by
  rw [any_eq_true]
  constructor
  · rintro ⟨mapping, hmem, hindex⟩
    obtain ⟨item', message, hitem', hfound⟩ := h.mem_mappings.mp hmem
    rw [of_decide_eq_true hindex, hitem] at hitem'
    rw [Option.some.inj hitem']
    exact mapped_of_some hfound
  · intro hmapped
    obtain ⟨members, message, -, hfound⟩ := hmapped.exists_message
    exact ⟨⟨index, members⟩, h.mem_mappings.mpr ⟨item, message, hitem, hfound⟩, decide_eq_true rfl⟩

theorem find_index (h : Adapts out items a) {index : Nat} {item : JsValue}
    {members message : Body} (hitem : items[index]? = some item)
    (hfound : compressibleMessage out item = some (members, message)) :
    ∃ mapping, a.mappings.find? (fun mapping => mapping.index = index) = some mapping ∧
      mapping.item = members := by
  have hmem : (⟨index, members⟩ : Mapping) ∈ a.mappings :=
    h.mem_mappings.mpr ⟨item, message, hitem, hfound⟩
  have hsome : (a.mappings.find? fun mapping => mapping.index = index).isSome = true :=
    find?_isSome.mpr ⟨_, hmem, decide_eq_true rfl⟩
  obtain ⟨mapping, hmapping⟩ := Option.isSome_iff_exists.mp hsome
  refine ⟨mapping, hmapping, ?_⟩
  have hindex := find?_some hmapping
  simp only [decide_eq_true_eq] at hindex
  obtain ⟨item', message', hitem', hfound'⟩ :=
    h.mem_mappings.mp (mem_of_find?_eq_some hmapping)
  rw [hindex, hitem] at hitem'
  rw [← Option.some.inj hitem', hfound] at hfound'
  exact (congrArg Prod.fst (Option.some.inj hfound')).symm

end Adapts

/-! ## The rebuilt items -/

def restoredItem (out : Outside) (byIndex : JsMap Nat MessageLike) (e : JsValue × Nat) :
    Option JsValue :=
  match compressibleMessage out e.1 with
  | none => some e.1
  | some (members, _) =>
      (byIndex.get e.2).map fun message => .obj (messageToResponsesItem out message members)

def restoredKey (out : Outside) (byIndex : JsMap Nat MessageLike) (e : JsValue × Nat) :
    Option JsString :=
  match compressibleMessage out e.1 with
  | none => none
  | some (members, _) => (byIndex.get e.2).bind fun message =>
      InputAdapter.survivingOutputKey (messageToResponsesItem out message members)

namespace InputAdapter

variable {items : List JsValue} {a : InputAdapter} {byIndex : JsMap Nat MessageLike}

theorem rebuildItem_eq (h : Adapts out items a) (s : Rebuilt) {e : JsValue × Nat}
    (he : items[e.2]? = some e.1) :
    a.rebuildItem out byIndex s e =
      { nextInput := s.nextInput ++ (restoredItem out byIndex e).toList
        survivingOutputKeys := s.survivingOutputKeys ++ (restoredKey out byIndex e).toList } := by
  unfold rebuildItem restoredItem restoredKey
  cases hfound : compressibleMessage out e.1 with
  | none =>
    have hnot : ¬ a.mappings.any (fun mapping => mapping.index = e.2) = true := by
      rw [h.any_index he, Mapped, hfound]
      exact Bool.false_ne_true
    rw [if_neg hnot]
    simp
  | some found =>
    obtain ⟨members, message⟩ := found
    have hany := (h.any_index he).mpr (mapped_of_some hfound)
    obtain ⟨mapping, hfind, rfl⟩ := h.find_index he hfound
    rw [if_pos hany, hfind]
    cases byIndex.get e.2 with
    | none => simp
    | some compressedMessage => rfl

theorem rebuild_eq (h : Adapts out items a) : a.rebuild out byIndex =
      { nextInput := items.zipIdx.filterMap (restoredItem out byIndex)
        survivingOutputKeys := items.zipIdx.filterMap (restoredKey out byIndex) } := by
  have hloop : ∀ entries : List (JsValue × Nat), (∀ e ∈ entries, items[e.2]? = some e.1) →
      ∀ s : Rebuilt, entries.foldl (a.rebuildItem out byIndex) s =
        { nextInput := s.nextInput ++ entries.filterMap (restoredItem out byIndex)
          survivingOutputKeys :=
            s.survivingOutputKeys ++ entries.filterMap (restoredKey out byIndex) } := by
    intro entries
    induction entries with
    | nil => simp
    | cons e entries ih =>
      intro hentries s
      have hrest : ∀ e' ∈ entries, items[e'.2]? = some e'.1 := fun e' he' =>
        hentries e' (mem_cons_of_mem e he')
      rw [foldl_cons, rebuildItem_eq h s (hentries e mem_cons_self), ih hrest,
        filterMap_cons, filterMap_cons]
      cases restoredItem out byIndex e <;> cases restoredKey out byIndex e <;> simp
  unfold rebuild
  rw [h.inputItems, hloop items.zipIdx (fun e he => mem_zipIdx_iff_getElem?.mp he)]
  rfl

variable {callId : JsString}

theorem hadMappedOutput_iff (h : Adapts out items a) : a.hadMappedOutput callId = true ↔
      ∃ kind, ∃ output ∈ items, IsOutput kind callId output ∧ Mapped out output := by
  unfold hadMappedOutput
  rw [any_eq_true]
  constructor
  · rintro ⟨mapping, hmem, houtput⟩
    obtain ⟨item, message, hitem, hfound⟩ := h.mem_mappings.mp hmem
    obtain ⟨rfl, -⟩ := compressibleMessage_eq_some hfound
    rw [Bool.and_eq_true] at houtput
    obtain ⟨kind, htype⟩ := exists_kind_of_hasType houtput.1
    have hid := houtput.2
    split at hid
    · rename_i id hidOf
      rw [of_decide_eq_true hid] at hidOf
      exact ⟨kind, _, mem_of_getElem? hitem, ⟨_, rfl, htype, hidOf⟩, mapped_of_some hfound⟩
    · cases hid
  · rintro ⟨kind, output, hmem, houtput, hmapped⟩
    obtain ⟨members, message, rfl, hfound⟩ := hmapped.exists_message
    obtain ⟨index, hindex⟩ := getElem?_of_mem hmem
    refine ⟨⟨index, members⟩, h.mem_mappings.mpr ⟨_, message, hindex, hfound⟩, ?_⟩
    obtain ⟨-, htypes, hid⟩ := Tagged.typeOf houtput
    rw [htypes, hid, contains_iff_mem.mpr kind.answerType_mem]
    simp

theorem survivingOutputKey_eq_some {restored : Body} {key : JsString}
    (h : survivingOutputKey restored = some key) :
    ∃ (kind : Kind) (callId : JsString), IsOutput kind callId (.obj restored) ∧
      key = pairKey kind.answerType callId := by
  unfold survivingOutputKey at h
  split at h
  · rename_i houtput
    split at h
    · rename_i callId hid
      obtain ⟨kind, htype⟩ := exists_kind_of_hasType houtput
      have htagged : IsOutput kind callId (.obj restored) := ⟨_, rfl, htype, hid⟩
      refine ⟨kind, callId, htagged, ?_⟩
      rw [← (Tagged.typeOf htagged).1]
      exact (Option.some.inj h).symm
    · cases h
  · cases h

variable {kept : List MessageLike} {kind : Kind}

theorem mem_survivingOutputKeys : pairKey kind.answerType callId ∈
        items.zipIdx.filterMap (restoredKey out (compressedMessagesByIndex kept)) ↔
      FoundOutput out items kept kind callId := by
  rw [mem_filterMap]
  constructor
  · rintro ⟨⟨item, index⟩, he, hkey⟩
    rw [mem_zipIdx_iff_getElem?] at he
    unfold restoredKey at hkey
    split at hkey
    · cases hkey
    · rename_i members message hfound
      obtain ⟨compressed, hget, hkey⟩ := Option.bind_eq_some_iff.mp hkey
      obtain ⟨kind', callId', houtput, hsame⟩ := survivingOutputKey_eq_some hkey
      obtain ⟨rfl, rfl⟩ := pairKey_inj hsame
      obtain ⟨hitem, -⟩ := compressibleMessage_eq_some hfound
      rw [hitem] at he hfound
      exact ⟨index, .obj members, he, (Tagged.restored out compressed).mp houtput,
        mapped_of_some hfound, compressedMessagesByIndex_get.mp (by rw [hget]; rfl)⟩
  · rintro ⟨index, item, hitem, houtput, hmapped, hchosen⟩
    obtain ⟨members, message, rfl, hfound⟩ := hmapped.exists_message
    obtain ⟨compressed, hget⟩ :=
      Option.isSome_iff_exists.mp (compressedMessagesByIndex_get.mpr hchosen)
    refine ⟨(.obj members, index), mem_zipIdx_iff_getElem?.mpr hitem, ?_⟩
    obtain ⟨htypeOf, htypes, hid⟩ :=
      Tagged.typeOf ((Tagged.restored out compressed).mpr houtput)
    unfold restoredKey
    rw [hfound]
    show ((compressedMessagesByIndex kept).get index).bind _ = _
    rw [hget, Option.bind_some]
    unfold survivingOutputKey
    rw [htypes, if_pos (contains_iff_mem.mpr kind.answerType_mem), hid, htypeOf]

theorem mem_nextInput_call {call : JsValue} (hcall : IsCall kind callId call) :
    call ∈ items.zipIdx.filterMap (restoredItem out byIndex) ↔ call ∈ items := by
  rw [mem_filterMap]
  constructor
  · rintro ⟨⟨item, index⟩, he, hrestored⟩
    rw [mem_zipIdx_iff_getElem?] at he
    unfold restoredItem at hrestored
    split at hrestored
    · rw [← Option.some.inj hrestored]
      exact mem_of_getElem? he
    · rename_i members message hfound
      obtain ⟨compressed, -, rfl⟩ := Option.map_eq_some_iff.mp hrestored
      obtain ⟨hitem, -⟩ := compressibleMessage_eq_some hfound
      have hmapped : IsCall kind callId item := by
        rw [show item = .obj members from hitem]
        exact (Tagged.restored out compressed).mp hcall
      rw [hmapped.not_mapped] at hfound
      cases hfound
  · intro hmem
    obtain ⟨index, hindex⟩ := getElem?_of_mem hmem
    refine ⟨(call, index), mem_zipIdx_iff_getElem?.mpr hindex, ?_⟩
    unfold restoredItem
    rw [hcall.not_mapped]

theorem exists_nextInput_output :
    (∃ output ∈ items.zipIdx.filterMap (restoredItem out (compressedMessagesByIndex kept)),
        IsOutput kind callId output) ↔ KeptOutput out items kept kind callId := by
  constructor
  · rintro ⟨output, hmem, houtput⟩
    obtain ⟨⟨item, index⟩, he, hrestored⟩ := mem_filterMap.mp hmem
    rw [mem_zipIdx_iff_getElem?] at he
    unfold restoredItem at hrestored
    split at hrestored
    · rename_i hunmapped
      rw [← Option.some.inj hrestored] at houtput
      refine ⟨index, item, he, houtput, ?_⟩
      intro hmapped
      rw [Mapped, show compressibleMessage out item = none from hunmapped] at hmapped
      cases hmapped
    · rename_i members message hfound
      obtain ⟨compressed, hget, rfl⟩ := Option.map_eq_some_iff.mp hrestored
      obtain ⟨hitem, -⟩ := compressibleMessage_eq_some hfound
      refine ⟨index, item, he, ?_, fun _ => compressedMessagesByIndex_get.mp (by rw [hget]; rfl)⟩
      rw [show item = .obj members from hitem]
      exact (Tagged.restored out compressed).mp houtput
  · rintro ⟨index, item, hitem, houtput, hkept⟩
    have he : (item, index) ∈ items.zipIdx := mem_zipIdx_iff_getElem?.mpr hitem
    cases hfound : compressibleMessage out item with
    | none =>
      refine ⟨item, mem_filterMap.mpr ⟨_, he, ?_⟩, houtput⟩
      unfold restoredItem
      rw [hfound]
    | some found =>
      obtain ⟨members, message⟩ := found
      obtain ⟨rfl, -⟩ := compressibleMessage_eq_some hfound
      obtain ⟨compressed, hget⟩ := Option.isSome_iff_exists.mp
        (compressedMessagesByIndex_get.mpr (hkept (mapped_of_some hfound)))
      refine ⟨.obj (messageToResponsesItem out compressed members),
        mem_filterMap.mpr ⟨_, he, ?_⟩, (Tagged.restored out compressed).mpr houtput⟩
      unfold restoredItem
      rw [hfound]
      show ((compressedMessagesByIndex kept).get index).map _ = _
      rw [hget]
      rfl

theorem keepsItem_call {call : JsValue} {keys : List JsString} (hcall : IsCall kind callId call)
    (hid : callId ≠ []) :
    a.keepsItem keys call = true ↔
      (a.hadMappedOutput callId = true → pairKey kind.lookedFor.answerType callId ∈ keys) := by
  obtain ⟨members, rfl, hmembers⟩ := id hcall
  obtain ⟨htypeOf, htypes, hcallId⟩ := Tagged.typeOf hcall
  have hnonempty : ¬ callId.isEmpty = true := by
    rw [List.isEmpty_iff]
    exact hid
  unfold keepsItem
  dsimp only
  rw [htypes, if_pos (contains_iff_mem.mpr kind.callType_mem), hcallId]
  dsimp only
  rw [if_neg hnonempty, htypeOf, kind.outputType_callType]
  split
  · rename_i hhad
    rw [contains_iff_mem]
    exact ⟨fun hmem _ => hmem, fun hmem => hmem hhad⟩
  · rename_i hhad
    exact ⟨fun _ hhad' => absurd hhad' hhad, fun _ => rfl⟩

theorem keepsItem_output {output : JsValue} {keys : List JsString}
    (houtput : IsOutput kind callId output) : a.keepsItem keys output = true := by
  obtain ⟨members, rfl, hmembers⟩ := id houtput
  obtain ⟨-, htypes, -⟩ := Tagged.typeOf houtput
  unfold keepsItem
  dsimp only
  rw [htypes, if_neg]
  rw [contains_iff_mem]
  exact kind.answerType_not_call

/-! ## Pairs -/

theorem mem_cleanedInput_call (h : Adapts out items a) {call : JsValue}
    (hcall : IsCall kind callId call) (hid : callId ≠ []) :
    call ∈ a.cleanedInput out (compressedMessagesByIndex kept) ↔ call ∈ items ∧
      ((∃ kind', ∃ output ∈ items, IsOutput kind' callId output ∧ Mapped out output) →
        FoundOutput out items kept kind.lookedFor callId) := by
  unfold cleanedInput
  rw [rebuild_eq h, mem_filter, mem_nextInput_call hcall, keepsItem_call hcall hid,
    hadMappedOutput_iff h, mem_survivingOutputKeys]

theorem exists_cleanedInput_output (h : Adapts out items a) :
    (∃ output ∈ a.cleanedInput out (compressedMessagesByIndex kept), IsOutput kind callId output) ↔
      KeptOutput out items kept kind callId := by
  rw [← exists_nextInput_output]
  unfold cleanedInput
  rw [rebuild_eq h]
  constructor
  · rintro ⟨output, hmem, houtput⟩
    exact ⟨output, (mem_filter.mp hmem).1, houtput⟩
  · rintro ⟨output, hmem, houtput⟩
    exact ⟨output, mem_filter.mpr ⟨hmem, keepsItem_output houtput⟩, houtput⟩

end InputAdapter

variable {items : List JsValue}

theorem KeptOutput.exists_output (h : KeptOutput out items kept kind callId) :
    ∃ output ∈ items, IsOutput kind callId output := by
  obtain ⟨index, item, hitem, houtput, -⟩ := h
  exact ⟨item, mem_of_getElem? hitem, houtput⟩

theorem keptOutput_of_unmapped (kept : List MessageLike)
    (houtput : ∃ output ∈ items, IsOutput kind callId output)
    (hunmapped : ¬ ∃ kind', ∃ output ∈ items, IsOutput kind' callId output ∧ Mapped out output) :
    KeptOutput out items kept kind callId := by
  obtain ⟨output, hmem, houtput⟩ := houtput
  obtain ⟨index, hindex⟩ := getElem?_of_mem hmem
  exact ⟨index, output, hindex, houtput, fun hmapped =>
    absurd ⟨kind, output, hmem, houtput, hmapped⟩ hunmapped⟩

theorem Matched.call (h : Matched items) (houtput : ∃ output ∈ items, IsOutput kind callId output) :
    callId ≠ [] ∧ ∃ call ∈ items, IsCall kind callId call := by
  obtain ⟨_, hmem, members, rfl, htype, hid⟩ := houtput
  obtain ⟨callId', hne, hid', hcall⟩ := h members hmem kind htype
  obtain rfl := JsValue.str.inj (hid.symm.trans hid')
  exact ⟨hne, hcall⟩

theorem paired_of_calls {restored : List JsValue} (hmatched : Matched items)
    (houtputs : ∀ kind callId, (∃ output ∈ restored, IsOutput kind callId output) ↔
      KeptOutput out items kept kind callId)
    (hsub : ∀ kind callId, ∀ call ∈ restored, IsCall kind callId call → call ∈ items)
    (hcalls : ∀ kind callId, callId ≠ [] → ∀ call ∈ items, IsCall kind callId call →
      (∃ output ∈ items, IsOutput kind callId output) →
      (call ∈ restored ↔ KeptOutput out items kept kind callId)) :
    Paired out items kept restored := by
  refine ⟨hcalls, ?_, ?_⟩
  · intro kind callId output hmem houtput
    have hkept := (houtputs kind callId).mp ⟨output, hmem, houtput⟩
    obtain ⟨hid, call, hcall, hkind⟩ := hmatched.call hkept.exists_output
    exact ⟨call, (hcalls kind callId hid call hcall hkind hkept.exists_output).mpr hkept, hkind⟩
  · intro kind callId hid call hmem hkind houtput
    have hcall := hsub kind callId call hmem hkind
    exact (houtputs kind callId).mpr ((hcalls kind callId hid call hcall hkind houtput).mp hmem)

theorem cleanedInput_paired_iff {a : InputAdapter} (h : Adapts out items a)
    (hmatched : Matched items) (kept : List MessageLike) :
    Paired out items kept (a.cleanedInput out (compressedMessagesByIndex kept)) ↔
      Aligned out items kept := by
  constructor
  · rintro hpaired kind callId hid ⟨call, hcall, hkind⟩ houtput hmapped
    rw [← hpaired.calls kind callId hid call hcall hkind houtput,
      InputAdapter.mem_cleanedInput_call h hkind hid]
    exact ⟨fun hfound => ⟨hcall, fun _ => hfound⟩, fun hrestored => hrestored.2 hmapped⟩
  · intro haligned
    apply paired_of_calls hmatched
    · exact fun kind callId => InputAdapter.exists_cleanedInput_output h
    · intro kind callId call hmem hkind
      unfold InputAdapter.cleanedInput at hmem
      rw [InputAdapter.rebuild_eq h] at hmem
      exact (InputAdapter.mem_nextInput_call hkind).mp (mem_filter.mp hmem).1
    · intro kind callId hid call hcall hkind houtput
      rw [InputAdapter.mem_cleanedInput_call h hkind hid]
      by_cases hmapped : ∃ kind', ∃ output ∈ items, IsOutput kind' callId output ∧ Mapped out output
      · rw [← haligned kind callId hid ⟨call, hcall, hkind⟩ houtput hmapped]
        exact ⟨fun hrestored => hrestored.2 hmapped, fun hfound => ⟨hcall, fun _ => hfound⟩⟩
      · exact ⟨fun _ => keptOutput_of_unmapped kept houtput hmapped,
          fun _ => ⟨hcall, fun hmapped' => absurd hmapped' hmapped⟩⟩

theorem paired_of_no_message (hmatched : Matched items) (hnone : ∀ item ∈ items, ¬ Mapped out item)
    (kept : List MessageLike) : Paired out items kept items := by
  have hunmapped : ∀ callId : JsString,
      ¬ ∃ kind', ∃ output ∈ items, IsOutput kind' callId output ∧ Mapped out output := by
    rintro callId ⟨kind', output, hmem, -, hmapped⟩
    exact hnone output hmem hmapped
  apply paired_of_calls hmatched
  · exact fun kind callId => ⟨fun houtput => keptOutput_of_unmapped kept houtput (hunmapped callId),
      KeptOutput.exists_output⟩
  · exact fun _ _ _ hmem _ => hmem
  · exact fun kind callId _ call hcall _ houtput =>
      ⟨fun _ => keptOutput_of_unmapped kept houtput (hunmapped callId), fun _ => hcall⟩

/-! ## Bodies -/

theorem adaptInput_cases (out : Outside) (body : Body) (items : List JsValue) :
    (adaptInput out body items = .whole body ∧ ∀ item ∈ items, ¬ Mapped out item) ∨
      ∃ a, adaptInput out body items = .input a ∧ Adapts out items a ∧
        a.input = prop body (js "input") := by
  unfold adaptInput
  dsimp only
  split
  · rename_i hempty
    refine .inl ⟨rfl, ?_⟩
    intro item hmem hmapped
    obtain ⟨members, message, rfl, hfound⟩ := hmapped.exists_message
    obtain ⟨index, hindex⟩ := getElem?_of_mem hmem
    have hadapted := filterMap_eq_nil_iff.mp (List.isEmpty_iff.mp hempty) (_, index)
      (mem_zipIdx_iff_getElem?.mpr hindex)
    unfold adaptItem at hadapted
    rw [hfound] at hadapted
    cases hadapted
  · exact .inr ⟨_, rfl, ⟨rfl, rfl⟩, rfl⟩

theorem Responses.adapt {body : Body} (h : Responses body items) :
    adaptBodyForCompression out body = some (adaptInput out body items) := by
  unfold adaptBodyForCompression
  split
  · rename_i messages hmessages
    exact absurd hmessages (h.messages messages)
  · split
    · rename_i state hstate
      exact absurd hstate (h.conversationState state)
    · rw [h.input]

theorem restore_input (out : Outside) {a : InputAdapter} (hinput : a.input = .arr items)
    (compressedBody : CompressionBody) :
    prop ((Adapter.input a).restore out compressedBody true) (js "input") = .arr (a.cleanedInput out
        (compressedMessagesByIndex (compressedBody.messages.getD []))) := by
  unfold Adapter.restore
  dsimp only
  rw [hinput]
  rw [prop_set, if_pos rfl, if_pos rfl]

/-- The engine keeps some of the messages, with any texts.  When every output
has a call, the restored items are in pairs exactly when the output that is
looked for is found for the calls that keep an output, and for no other. -/
theorem restore_paired_iff (out : Outside) {body : Body} {items : List JsValue}
    (hbody : Responses body items) (hmatched : Matched items) (kept : List MessageLike) :
    ∃ adapter restored, adaptBodyForCompression out body = some adapter ∧
      prop (adapter.restore out { adapter.body with messages := some kept } true) (js "input") =
          .arr restored ∧
        (Paired out items kept restored ↔ Aligned out items kept) := by
  rcases adaptInput_cases out body items with ⟨hwhole, hnone⟩ | ⟨a, hadapter, hadapts, hinput⟩
  · refine ⟨_, items, hbody.adapt, ?_, ?_⟩
    · rw [hwhole]
      exact hbody.input
    · refine ⟨?_, fun _ => paired_of_no_message hmatched hnone kept⟩
      rintro - kind callId - - - ⟨kind', output, hmem, -, hmapped⟩
      exact absurd hmapped (hnone output hmem)
  · refine ⟨_, _, hbody.adapt, ?_, cleanedInput_paired_iff hadapts hmatched kept⟩
    rw [hadapter, restore_input out (hinput.trans hbody.input)]
    rfl

/-- A shell call and its output, and nothing outside of the language. -/
def shellCall : Body :=
  [(js "type", .str (js "local_shell_call")), (js "call_id", .str (js "a"))]

def shellOutput : Body :=
  [(js "type", .str (js "local_shell_call_output")), (js "call_id", .str (js "a")),
    (js "output", .str (js "ok"))]

def shellItems : List JsValue := [.obj shellCall, .obj shellOutput]

def shellBody : Body := [(js "input", .arr shellItems)]

def shellOutside : Outside := ⟨fun _ => js "0", fun _ => none⟩

theorem shell_responses : Responses shellBody shellItems :=
  ⟨rfl, fun _ h => (by cases h), fun _ h => (by cases h)⟩

theorem shell_matched : Matched shellItems := by
  intro members hmem kind htype
  rcases mem_cons.mp hmem with hobj | hmem
  · obtain rfl := JsValue.obj.inj hobj
    have hcall : js "local_shell_call" = kind.answerType := JsValue.str.inj htype
    have houtput := kind.answerType_mem
    rw [← hcall] at houtput
    exact absurd houtput (by decide)
  · obtain rfl := JsValue.obj.inj (mem_singleton.mp hmem)
    have hkind : Kind.localShell = kind := Kind.answerType_inj (JsValue.str.inj htype)
    subst hkind
    exact ⟨js "a", by decide, rfl, _, mem_cons_self, _, rfl, rfl, rfl⟩

theorem shell_paired_iff :
    ∃ adapter restored, adaptBodyForCompression shellOutside shellBody = some adapter ∧
      prop (adapter.restore shellOutside { adapter.body with messages := some [] } true)
          (js "input") = .arr restored ∧
        (Paired shellOutside shellItems [] restored ↔ Aligned shellOutside shellItems []) :=
  restore_paired_iff shellOutside shell_responses shell_matched []

/-- All messages are kept, and the output is left without its call. -/
theorem shell_call_dropped : Responses shellBody shellItems ∧ Matched shellItems ∧
      ∃ adapter messages restored, adaptBodyForCompression shellOutside shellBody = some adapter ∧
          adapter.body.messages = some messages ∧
          prop (adapter.restore shellOutside adapter.body true) (js "input") = .arr restored ∧
          ¬ Paired shellOutside shellItems messages restored := by
  refine ⟨shell_responses, shell_matched, _, _, [.obj shellOutput], rfl, rfl, rfl, ?_⟩
  intro hpaired
  have houtput : IsOutput .localShell (js "a") (.obj shellOutput) := ⟨_, rfl, rfl, rfl⟩
  obtain ⟨call, hmem, hcall⟩ := hpaired.no_orphan _ _ _ mem_cons_self houtput
  rw [mem_singleton.mp hmem] at hcall
  have htypes : js "local_shell_call_output" = js "local_shell_call" :=
    (Tagged.typeOf houtput).1.symm.trans (Tagged.typeOf hcall).1
  exact absurd htypes (by decide)

end RedRouter.Compression.BodyAdapter
