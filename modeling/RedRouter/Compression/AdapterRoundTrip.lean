import Mathlib.Data.List.Forall2
import RedRouter.Compression.KiroRestore

/-!
# The round trip of the body adapter

A body is adapted and restored with the messages as they are.  `RoundTrips` is
what is meant: every item comes back, where an object that is the output of a
tool may come back as its JSON text, and so does every other member.  A result
with an error stays the same whatever the messages have become.

The envelope of Kiro always comes back.  Among the items of an `input` there are
three that do not.  A message without `content` gets one, when its text is read
from `output`.  A custom output whose text is JSON is written anew.  And with
`dropMissingMappedItems` a call is dropped when its output is looked for under
another type.  `roundTrips_iff` says that these are all.
-/

namespace RedRouter.Compression.BodyAdapter

open List JsValue

variable {out : Outside}

/-! ## What is meant -/

/-- The item, where an object that is the output of a tool may be its JSON text. -/
def SameItem (out : Outside) (restored original : JsValue) : Prop :=
  restored = original ∨ ∃ item members : Body, original = .obj item ∧
    hasType item toolOutputTypes = true ∧
    prop item (responsesToolOutputField item) = .obj members ∧
    restored = .obj (item.set (responsesToolOutputField item) (jsonText out members))

def SameInput (out : Outside) (restored : JsValue) : JsValue → Prop
  | .arr items => ∃ items', restored = .arr items' ∧ List.Forall₂ (SameItem out) items' items
  | original => restored = original

/-- The body that goes on when the messages are not modified. -/
def adaptAndRestore (out : Outside) (body : Body) (dropMissingMappedItems : Bool) : Body :=
  match adaptBodyForCompression out body with
  | some adapter => adapter.restore out adapter.body dropMissingMappedItems
  | none =>
      match prop body (js "conversationState") with
      | .obj state =>
          let adapter := adaptKiroBodyForCompression body state
          adapter.restore adapter.body
      | _ => body

/-- A body in the envelope of Kiro. -/
structure InEnvelope (body state : Body) : Prop where
  conversationState : prop body (js "conversationState") = .obj state
  messages : ∀ messages, prop body (js "messages") ≠ .arr messages

def KeepsErrors (state : Body) (restored : JsValue) : Prop :=
  ∃ nextState, restored = .obj nextState ∧ ∀ place i members,
    toolResultAt state place i = some (.obj members) → isErrorResult members = true →
    toolResultAt nextState place i = some (.obj members)

structure RoundTrips (out : Outside) (body : Body) (dropMissingMappedItems : Bool) : Prop where
  input : SameInput out (prop (adaptAndRestore out body dropMissingMappedItems) (js "input"))
    (prop body (js "input"))
  members : ∀ key, key ≠ js "input" → key ≠ js "messages" →
    prop (adaptAndRestore out body dropMissingMappedItems) key = prop body key
  /-- The engine answers any messages with places that it was given. -/
  errors : ∀ state, InEnvelope body state → ∀ messages, KeepsPlaces state messages →
    let adapter := adaptKiroBodyForCompression body state
    KeepsErrors state (prop (adapter.restore { adapter.body with messages := some messages })
      (js "conversationState"))

/-! ## When an item comes back -/

/-- A message has a content of its own, and the record in a custom output is
written as `JSON.stringify` writes it. -/
structure ItemReturns (out : Outside) (item : Body) : Prop where
  content : typeOf item = js "message" → prop item (js "content") ≠ .undefined
  custom : typeOf item = js "custom_tool_call_output" → ∀ text members output,
    prop item (responsesToolOutputField item) = .str text →
    (out.parse text).bind (textMember? (js "output")) = some (members, output) →
    jsonText out members = .str text

/-- The items with something to compress come back.  A call whose id is the one
of an output among them has an output of the type that is looked for. -/
structure ItemsReturn (out : Outside) (items : List JsValue) (dropMissingMappedItems : Bool) :
    Prop where
  mapped : ∀ item, .obj item ∈ items → Mapped out (.obj item) → ItemReturns out item
  calls : dropMissingMappedItems = true → ∀ (kind : Kind) (callId : JsString), callId ≠ [] →
    (∃ call ∈ items, IsCall kind callId call) →
    (∃ kind', ∃ output ∈ items, IsOutput kind' callId output ∧ Mapped out output) →
    ∃ output ∈ items, IsOutput kind.lookedFor callId output ∧ Mapped out output

/-! ## Items -/

theorem textMember?_eq_some {key text : JsString} {value : JsValue} {members : Body}
    (h : textMember? key value = some (members, text)) :
    value = .obj members ∧ prop members key = .str text := by
  unfold textMember? at h
  split at h
  · split at h
    · rename_i s htext
      obtain ⟨rfl, rfl⟩ := Prod.mk.inj (Option.some.inj h)
      exact ⟨rfl, htext⟩
    · cases h
  · cases h

theorem content_of_hasCompressibleContent {message : Body}
    (h : hasCompressibleContent message = true) :
    (∃ text, prop message (js "content") = .str text) ∨
      ∃ parts, prop message (js "content") = .arr parts := by
  unfold hasCompressibleContent hasTextContent hasInlineImageContent at h
  cases hcontent : prop message (js "content") with
  | str text => exact .inl ⟨text, rfl⟩
  | arr parts => exact .inr ⟨parts, rfl⟩
  | undefined => simp [hcontent] at h
  | null => simp [hcontent] at h
  | bool b => simp [hcontent] at h
  | num bits => simp [hcontent] at h
  | obj members => simp [hcontent] at h

theorem fromChatContent_self {content : JsValue}
    (h : (∃ text, content = .str text) ∨ ∃ parts, content = .arr parts) :
    fromChatContent content content = content := by
  rcases h with ⟨text, rfl⟩ | ⟨parts, rfl⟩
  · rfl
  · rfl

theorem toChatContent_undefined (content : JsValue) :
    toChatContent content .undefined = content := by
  unfold toChatContent
  split <;> rfl

/-- What the engine gets of the output of a custom tool, and how it goes back:
the output itself, or the member of a record, or of a record in its text. -/
theorem customToolOutput_cases (out : Outside) (rawOutput : JsValue) :
    (customToolOutputToChatContent out rawOutput = rawOutput ∧
        (∀ next, restoreCustomToolOutput out next rawOutput = fromChatContent next rawOutput) ∧
        ∀ text found, rawOutput = .str text →
          (out.parse text).bind (textMember? (js "output")) ≠ some found) ∨
      (∃ members output, rawOutput = .obj members ∧ prop members (js "output") = .str output ∧
        customToolOutputToChatContent out rawOutput = .str output ∧
        ∀ next, restoreCustomToolOutput out next rawOutput =
          .obj (JsMap.set (js "output") next members)) ∨
      ∃ text members output, rawOutput = .str text ∧
        (out.parse text).bind (textMember? (js "output")) = some (members, output) ∧
        customToolOutputToChatContent out rawOutput = .str output ∧
        ∀ next, restoreCustomToolOutput out next rawOutput =
          jsonText out (JsMap.set (js "output") next members) := by
  by_cases htext : ∃ text, rawOutput = .str text
  · obtain ⟨text, rfl⟩ := htext
    cases hparsed : (out.parse text).bind (textMember? (js "output")) with
    | none =>
      refine .inl ⟨?_, fun next => ?_, fun text' found htext' => ?_⟩
      · simp [customToolOutputToChatContent, hparsed]
      · simp [restoreCustomToolOutput, hparsed]
      · rw [← JsValue.str.inj htext', hparsed]
        exact (Option.some_ne_none found).symm
    | some found =>
      refine .inr (.inr ⟨text, found.1, found.2, rfl, hparsed, ?_, fun next => ?_⟩)
      · simp [customToolOutputToChatContent, hparsed]
      · simp [restoreCustomToolOutput, hparsed]
  · cases hmember : textMember? (js "output") rawOutput with
    | none =>
      refine .inl ⟨?_, fun next => ?_, fun text found htext' => absurd ⟨text, htext'⟩ htext⟩
      · unfold customToolOutputToChatContent
        split
        · exact absurd ⟨_, rfl⟩ htext
        · rw [hmember]
      · unfold restoreCustomToolOutput
        split
        · exact absurd ⟨_, rfl⟩ htext
        · rw [hmember]
    | some found =>
      obtain ⟨members, output⟩ := found
      obtain ⟨rfl, houtput⟩ := textMember?_eq_some hmember
      refine .inr (.inl ⟨members, output, rfl, houtput, ?_, fun next => ?_⟩)
      · simp [customToolOutputToChatContent, hmember]
      · simp [restoreCustomToolOutput, hmember]

theorem orElse_output_content (item : Body) :
    orElse (prop item (js "output")) (prop item (js "content")) =
      prop item (responsesToolOutputField item) := by
  unfold responsesToolOutputField
  split
  · rename_i houtput
    rw [houtput]
    rfl
  · rename_i houtput
    rw [houtput]
    rfl
  · rename_i hundefined hnull
    unfold orElse
    split
    · rename_i houtput
      exact absurd houtput hundefined
    · rename_i houtput
      exact absurd houtput hnull
    · rfl

theorem hasType_of_typeOf {item : Body} (h : typeOf item ∈ toolOutputTypes) :
    hasType item toolOutputTypes = true := by
  unfold typeOf at h
  unfold hasType
  split
  · rename_i type htype
    rw [htype] at h
    exact contains_iff_mem.mpr h
  · rename_i hnot
    split at h
    · rename_i type htype
      exact absurd htype (hnot type)
    · exact absurd h (by decide)

theorem typeOf_of_hasType {item : Body} (h : hasType item toolOutputTypes = true) :
    typeOf item ∈ toolOutputTypes := by
  unfold hasType at h
  unfold typeOf
  split at h
  · exact contains_iff_mem.mp h
  · cases h

theorem exists_callKind_of_hasType {members : Body} (h : hasType members toolCallTypes = true) :
    ∃ kind : Kind, prop members (js "type") = .str kind.callType := by
  unfold hasType at h
  split at h
  · rename_i type htype
    rw [contains_iff_mem] at h
    simp only [toolCallTypes, mem_cons, not_mem_nil, or_false] at h
    rcases h with rfl | rfl | rfl | rfl
    · exact ⟨.function, htype⟩
    · exact ⟨.customTool, htype⟩
    · exact ⟨.localShell, htype⟩
    · exact ⟨.applyPatch, htype⟩
  · cases h

theorem responsesItemToMessage_of_compressible {item message : Body}
    (h : compressibleMessage out (.obj item) = some (item, message)) :
    responsesItemToMessage out item = some message ∧ hasCompressibleContent message = true := by
  obtain ⟨made, hmade, hrest⟩ := Option.bind_eq_some_iff.mp h
  split at hrest
  · rename_i hcompressible
    obtain rfl := congrArg Prod.snd (Option.some.inj hrest)
    exact ⟨hmade, hcompressible⟩
  · cases hrest

def returned (out : Outside) (item message : Body) : Body :=
  messageToResponsesItem out ⟨message, none⟩ item

section Returned

variable {item message : Body}

theorem sameItem_message_iff (hmade : responsesItemToMessage out item = some message)
    (hcompressible : hasCompressibleContent message = true) (htype : typeOf item = js "message") :
    SameItem out (.obj (returned out item message)) (.obj item) ↔
      prop item (js "content") ≠ .undefined := by
  have hnot : toolOutputTypes.contains (typeOf item) = false := by
    rw [htype]
    decide
  have hcontent := content_of_hasCompressibleContent hcompressible
  have hmessage : prop message (js "content") =
      toChatContent (prop item (js "content")) (prop item (js "output")) := by
    unfold responsesItemToMessage at hmade
    rw [htype, if_pos (by decide), if_neg (by decide)] at hmade
    rw [← Option.some.inj hmade]
    rfl
  have hreturned : returned out item message =
      item.set (js "content") (fromChatContent (prop message (js "content"))
        (prop item (js "content"))) := by
    unfold returned messageToResponsesItem
    rw [if_neg (by rw [hnot]; exact Bool.false_ne_true)]
  constructor
  · intro hsame hundefined
    rcases hsame with heq | ⟨original, members, hobj, htool, -⟩
    · rw [hreturned, hundefined] at heq
      have hprop := congrArg (prop · (js "content")) (JsValue.obj.inj heq)
      rw [prop_set, if_pos rfl, hundefined] at hprop
      rcases hcontent with ⟨text, htext⟩ | ⟨parts, hparts⟩
      · rw [htext] at hprop
        cases hprop
      · rw [hparts] at hprop
        cases hprop
    · obtain rfl := JsValue.obj.inj hobj
      have hmem := typeOf_of_hasType htool
      rw [htype] at hmem
      exact absurd hmem (by decide)
  · intro hdefined
    left
    have hsame : prop message (js "content") = prop item (js "content") := by
      rw [hmessage]
      unfold toChatContent
      split
      · rename_i hundefined
        exact absurd hundefined hdefined
      · rfl
    rw [hreturned, hsame, fromChatContent_self (hsame ▸ hcontent), set_of_prop rfl hdefined]

theorem content_of_output (hmade : responsesItemToMessage out item = some message)
    (htool : typeOf item ∈ toolOutputTypes) :
    prop message (js "content") =
      if typeOf item = js "custom_tool_call_output" then
        customToolOutputToChatContent out (prop item (responsesToolOutputField item))
      else match prop item (responsesToolOutputField item) with
        | .obj members => jsonText out members
        | rawOutput => toChatContent rawOutput .undefined := by
  have hcontains : toolOutputTypes.contains (typeOf item) = true := contains_iff_mem.mpr htool
  unfold responsesItemToMessage at hmade
  rw [if_pos (by rw [responsesMessageTypes, contains_cons, hcontains, Bool.or_true]),
    if_pos hcontains, orElse_output_content] at hmade
  rw [← Option.some.inj hmade]
  rfl

theorem returned_output (out : Outside) (message : Body) (htool : typeOf item ∈ toolOutputTypes) :
    returned out item message = item.set (responsesToolOutputField item)
        (if typeOf item = js "custom_tool_call_output" then
          restoreCustomToolOutput out (prop message (js "content"))
            (prop item (responsesToolOutputField item))
        else fromChatContent (prop message (js "content"))
          (prop item (responsesToolOutputField item))) := by
  unfold returned messageToResponsesItem
  rw [if_pos (contains_iff_mem.mpr htool)]

theorem sameItem_of_output {value : JsValue}
    (hreturned : returned out item message = item.set (responsesToolOutputField item) value)
    (hvalue : prop item (responsesToolOutputField item) = value) (hdefined : value ≠ .undefined) :
    SameItem out (.obj (returned out item message)) (.obj item) := by
  rw [hreturned, set_of_prop hvalue hdefined]
  exact .inl rfl

theorem ne_undefined_of_content {content : JsValue}
    (h : (∃ text, content = .str text) ∨ ∃ parts, content = .arr parts) :
    content ≠ .undefined := by
  rcases h with ⟨text, rfl⟩ | ⟨parts, rfl⟩
  · simp
  · simp

/-- An output comes back, up to its JSON text, unless it is the one of a custom tool. -/
theorem sameItem_output (hmade : responsesItemToMessage out item = some message)
    (hcompressible : hasCompressibleContent message = true)
    (htool : typeOf item ∈ toolOutputTypes)
    (hcustom : typeOf item ≠ js "custom_tool_call_output") :
    SameItem out (.obj (returned out item message)) (.obj item) := by
  have hcontent := content_of_hasCompressibleContent hcompressible
  have hmessage := content_of_output hmade htool
  have hreturned := returned_output out message htool
  rw [if_neg hcustom] at hmessage hreturned
  split at hmessage
  · rename_i members hraw
    rw [hmessage, hraw] at hreturned
    exact .inr ⟨item, members, rfl, hasType_of_typeOf htool, hraw, by rw [hreturned]; rfl⟩
  · rw [toChatContent_undefined] at hmessage
    rw [hmessage] at hcontent hreturned
    rw [fromChatContent_self hcontent] at hreturned
    exact sameItem_of_output hreturned rfl (ne_undefined_of_content hcontent)

/-- The output of a custom tool comes back when the record in its text, if there
is one, is written in the same way. -/
theorem sameItem_custom_iff (hmade : responsesItemToMessage out item = some message)
    (hcompressible : hasCompressibleContent message = true)
    (htype : typeOf item = js "custom_tool_call_output") :
    SameItem out (.obj (returned out item message)) (.obj item) ↔
      ∀ text members output, prop item (responsesToolOutputField item) = .str text →
        (out.parse text).bind (textMember? (js "output")) = some (members, output) →
        jsonText out members = .str text := by
  have htool : typeOf item ∈ toolOutputTypes := by
    rw [htype]
    decide
  have hcontent := content_of_hasCompressibleContent hcompressible
  have hmessage := content_of_output hmade htool
  have hreturned := returned_output out message htool
  rw [if_pos htype] at hmessage hreturned
  rcases customToolOutput_cases out (prop item (responsesToolOutputField item)) with
    ⟨hplain, hrestore, hnone⟩ | ⟨members, output, hraw, houtput, hchat, hrestore⟩ |
      ⟨text, members, output, hraw, hparsed, hchat, hrestore⟩
  · refine iff_of_true ?_ (fun text members output htext hparsed => ?_)
    · rw [hplain] at hmessage
      rw [hmessage] at hcontent hreturned
      rw [hrestore, fromChatContent_self hcontent] at hreturned
      exact sameItem_of_output hreturned rfl (ne_undefined_of_content hcontent)
    · exact absurd hparsed (hnone text (members, output) htext)
  · refine iff_of_true ?_ (fun text members' output' htext => ?_)
    · rw [hrestore, hmessage, hchat, set_of_prop houtput (by simp)] at hreturned
      exact sameItem_of_output hreturned hraw (by simp)
    · rw [hraw] at htext
      cases htext
  · have hrecord : prop members (js "output") = .str output := by
      obtain ⟨value, -, hvalue⟩ := Option.bind_eq_some_iff.mp hparsed
      exact (textMember?_eq_some hvalue).2
    rw [hrestore, hmessage, hchat, set_of_prop hrecord (by simp)] at hreturned
    constructor
    · rintro (hsame | ⟨original, members', hobj, -, hobject, -⟩)
        text' members' output' htext hparsed'
      · rw [hraw] at htext
        obtain rfl := JsValue.str.inj htext
        rw [hparsed] at hparsed'
        obtain ⟨rfl, rfl⟩ := Prod.mk.inj (Option.some.inj hparsed')
        rw [hreturned] at hsame
        have hprop := congrArg (prop · (responsesToolOutputField item)) (JsValue.obj.inj hsame)
        rw [prop_set, if_pos rfl, hraw] at hprop
        exact hprop
      · obtain rfl := JsValue.obj.inj hobj
        rw [hraw] at hobject
        cases hobject
    · intro hwritten
      rw [hwritten text members output hraw hparsed] at hreturned
      exact sameItem_of_output hreturned hraw (by simp)

/-- The item of a message comes back under the conditions on its kind. -/
theorem sameItem_iff (hfound : compressibleMessage out (.obj item) = some (item, message)) :
    SameItem out (.obj (returned out item message)) (.obj item) ↔ ItemReturns out item := by
  obtain ⟨hmade, hcompressible⟩ := responsesItemToMessage_of_compressible hfound
  have hmem := (compressibleMessage_eq_some hfound).2
  rw [responsesMessageTypes, mem_cons] at hmem
  rcases hmem with htype | htool
  · have hcustom : typeOf item ≠ js "custom_tool_call_output" := by
      rw [htype]
      decide
    rw [sameItem_message_iff hmade hcompressible htype]
    exact ⟨fun hdefined => ⟨fun _ => hdefined, fun htype' => absurd htype' hcustom⟩,
      fun hreturns => hreturns.content htype⟩
  · have hmessage : typeOf item ≠ js "message" := by
      intro htype
      rw [htype] at htool
      exact absurd htool (by decide)
    by_cases hcustom : typeOf item = js "custom_tool_call_output"
    · rw [sameItem_custom_iff hmade hcompressible hcustom]
      exact ⟨fun hwritten => ⟨fun htype => absurd htype hmessage, fun _ => hwritten⟩,
        fun hreturns => hreturns.custom hcustom⟩
    · exact iff_of_true (sameItem_output hmade hcompressible htool hcustom)
        ⟨fun htype => absurd htype hmessage, fun htype => absurd htype hcustom⟩

end Returned

/-! ## Lists of items -/

theorem mem_of_get_compressedMessagesByIndex {kept : List MessageLike} {index : Nat}
    {message : MessageLike} (h : (compressedMessagesByIndex kept).get index = some message) :
    message ∈ kept ∧ message.inputIndex = some index := by
  have hloop : ∀ byIndex : JsMap Nat MessageLike,
      (kept.foldl indexMessage byIndex).get index = some message →
        byIndex.get index = some message ∨ message ∈ kept ∧ message.inputIndex = some index := by
    clear h
    induction kept with
    | nil => exact fun _ hget => .inl hget
    | cons first kept ih =>
      intro byIndex hget
      rcases ih _ hget with hround | ⟨hmem, hindex⟩
      · unfold indexMessage at hround
        split at hround
        · rename_i index' hindex
          rcases JsMap.get_set_cases hround with ⟨rfl, rfl⟩ | hget
          · exact .inr ⟨mem_cons_self, hindex⟩
          · exact .inl hget
        · exact .inl hround
      · exact .inr ⟨mem_cons_of_mem _ hmem, hindex⟩
  exact (hloop [] h).resolve_left (by simp)

/-- The adapter has the mappings and the messages of the items. -/
structure AdaptsAll (out : Outside) (items : List JsValue) (a : InputAdapter) : Prop
    extends Adapts out items a where
  messages : a.messages = (items.zipIdx.filterMap (adaptItem out)).map Prod.snd

/-- What an item is restored to by its own message. -/
def returnedItem (out : Outside) (item : JsValue) : JsValue :=
  match compressibleMessage out item with
  | none => item
  | some (members, message) => .obj (returned out members message)

namespace AdaptsAll

variable {items : List JsValue} {a : InputAdapter}

section

variable (h : AdaptsAll out items a)
include h

theorem mem_messages {message : MessageLike} :
    message ∈ a.messages ↔ ∃ index item members found, items[index]? = some item ∧
      compressibleMessage out item = some (members, found) ∧ message = ⟨found, some index⟩ := by
  rw [h.messages, mem_map]
  constructor
  · rintro ⟨adapted, hmem, rfl⟩
    obtain ⟨⟨item, index⟩, he, hadapted⟩ := mem_filterMap.mp hmem
    obtain ⟨⟨members, found⟩, hfound, rfl⟩ := Option.map_eq_some_iff.mp hadapted
    exact ⟨index, item, members, found, mem_zipIdx_iff_getElem?.mp he, hfound, rfl⟩
  · rintro ⟨index, item, members, found, hitem, hfound, rfl⟩
    refine ⟨(⟨index, members⟩, ⟨found, some index⟩), mem_filterMap.mpr ?_, rfl⟩
    refine ⟨(item, index), mem_zipIdx_iff_getElem?.mpr hitem, ?_⟩
    unfold adaptItem
    rw [hfound]
    rfl

theorem get_messages {index : Nat} {item : JsValue}
    {members message : Body} (hitem : items[index]? = some item)
    (hfound : compressibleMessage out item = some (members, message)) :
    (compressedMessagesByIndex a.messages).get index = some ⟨message, some index⟩ := by
  have hchosen : Chosen a.messages index :=
    ⟨_, h.mem_messages.mpr ⟨index, item, members, message, hitem, hfound, rfl⟩, rfl⟩
  obtain ⟨stored, hget⟩ := Option.isSome_iff_exists.mp (compressedMessagesByIndex_get.mpr hchosen)
  obtain ⟨hmem, hindex⟩ := mem_of_get_compressedMessagesByIndex hget
  obtain ⟨index', item', members', message', hitem', hfound', rfl⟩ := h.mem_messages.mp hmem
  obtain rfl : index' = index := Option.some.inj hindex
  rw [hitem] at hitem'
  rw [← Option.some.inj hitem', hfound] at hfound'
  obtain ⟨-, rfl⟩ := Prod.mk.inj (Option.some.inj hfound')
  exact hget

theorem restoredItem_messages {e : JsValue × Nat} (he : e ∈ items.zipIdx) :
    restoredItem out (compressedMessagesByIndex a.messages) e = some (returnedItem out e.1) := by
  unfold restoredItem returnedItem
  cases hfound : compressibleMessage out e.1 with
  | none => rfl
  | some found =>
    rw [h.get_messages (mem_zipIdx_iff_getElem?.mp he) hfound]
    rfl

theorem nextInput_messages :
    items.zipIdx.filterMap (restoredItem out (compressedMessagesByIndex a.messages)) =
      items.map (returnedItem out) := by
  rw [filterMap_eq_map_iff_forall_eq_some.mpr fun e he => h.restoredItem_messages he,
    ← zipIdx_map_fst 0 items, map_map, zipIdx_map_fst]
  rfl

end

theorem getElem?_foldl_set {α : Type} (value : Nat → α) (indexes : List Nat) (xs : List α)
    (k : Nat) :
    (indexes.foldl (fun xs i => xs.set i (value i)) xs)[k]? =
      if k ∈ indexes then xs[k]?.map fun _ => value k else xs[k]? := by
  induction indexes generalizing xs with
  | nil => simp
  | cons i indexes ih =>
    rw [foldl_cons, ih, getElem?_set']
    by_cases hi : i = k
    · subst hi
      cases xs[i]? <;> simp
    · have hk : ¬ k = i := fun h => hi h.symm
      simp [hi, hk]

theorem patchedInput_messages (h : AdaptsAll out items a) :
    a.patchedInput out (compressedMessagesByIndex a.messages) = items.map (returnedItem out) := by
  have hround : a.patchedInput out (compressedMessagesByIndex a.messages) =
      (a.mappings.map Mapping.index).foldl
        (fun xs i => xs.set i (returnedItem out (items[i]?.getD .undefined))) items := by
    unfold InputAdapter.patchedInput
    rw [h.inputItems, foldl_map]
    apply foldl_ext
    intro nextInput mapping hmem
    obtain ⟨item, message, hitem, hfound⟩ := h.mem_mappings.mp hmem
    have hreturned : returnedItem out item = .obj (returned out mapping.item message) := by
      unfold returnedItem
      rw [hfound]
    rw [h.get_messages hitem hfound, hitem, Option.getD_some, hreturned]
    rfl
  apply ext_getElem?
  intro index
  rw [hround, getElem?_foldl_set, getElem?_map]
  split
  · cases items[index]? <;> rfl
  · rename_i hnot
    cases hitem : items[index]? with
    | none => rfl
    | some item =>
      have hunmapped : compressibleMessage out item = none := by
        cases hfound : compressibleMessage out item with
        | none => rfl
        | some found =>
          have hmem : (⟨index, found.1⟩ : Mapping) ∈ a.mappings :=
            h.mem_mappings.mpr ⟨item, found.2, hitem, hfound⟩
          exact absurd (mem_map.mpr ⟨_, hmem, rfl⟩) hnot
      rw [Option.map_some]
      unfold returnedItem
      rw [hunmapped]

end AdaptsAll

theorem forall₂_returnedItem_iff {items : List JsValue} :
    List.Forall₂ (SameItem out) (items.map (returnedItem out)) items ↔
      ∀ item, .obj item ∈ items → Mapped out (.obj item) → ItemReturns out item := by
  rw [forall₂_map_left_iff, forall₂_same]
  constructor
  · intro hsame item hmem hmapped
    obtain ⟨members, message, hobj, hfound⟩ := hmapped.exists_message
    obtain rfl := JsValue.obj.inj hobj
    have hitem := hsame _ hmem
    rw [show returnedItem out (.obj item) = .obj (returned out item message) by
      unfold returnedItem; rw [hfound]] at hitem
    exact (sameItem_iff hfound).mp hitem
  · intro hreturns item hmem
    unfold returnedItem
    split
    · exact .inl rfl
    · rename_i members message hfound
      obtain ⟨rfl, -⟩ := compressibleMessage_eq_some hfound
      exact (sameItem_iff hfound).mpr (hreturns members hmem (mapped_of_some hfound))

theorem exists_call_of_not_keepsItem {a : InputAdapter} {keys : List JsString} {item : JsValue}
    (h : a.keepsItem keys item ≠ true) :
    ∃ (kind : Kind) (callId : JsString), callId ≠ [] ∧ IsCall kind callId item := by
  unfold InputAdapter.keepsItem at h
  split at h
  · rename_i members
    split at h
    · rename_i htypes
      split at h
      · rename_i callId hid
        split at h
        · exact absurd rfl h
        · rename_i hnonempty
          obtain ⟨kind, htype⟩ := exists_callKind_of_hasType htypes
          refine ⟨kind, callId, ?_, members, rfl, htype, hid⟩
          exact fun hnil => hnonempty (List.isEmpty_iff.mpr hnil)
      · exact absurd rfl h
    · exact absurd rfl h
  · exact absurd rfl h

namespace AdaptsAll

variable {items : List JsValue} {a : InputAdapter}

theorem found_messages_iff (h : AdaptsAll out items a) {kind : Kind} {callId : JsString} :
    FoundOutput out items a.messages kind callId ↔
      ∃ output ∈ items, IsOutput kind callId output ∧ Mapped out output := by
  constructor
  · rintro ⟨index, output, hitem, houtput, hmapped, -⟩
    exact ⟨output, mem_of_getElem? hitem, houtput, hmapped⟩
  · rintro ⟨output, hmem, houtput, hmapped⟩
    obtain ⟨index, hitem⟩ := getElem?_of_mem hmem
    obtain ⟨members, message, -, hfound⟩ := hmapped.exists_message
    exact ⟨index, output, hitem, houtput, hmapped, _,
      h.mem_messages.mpr ⟨index, output, members, message, hitem, hfound, rfl⟩, rfl⟩

/-- The items that are built anew come back when the calls are kept too. -/
theorem forall₂_cleanedInput_iff (h : AdaptsAll out items a) :
    List.Forall₂ (SameItem out) (a.cleanedInput out (compressedMessagesByIndex a.messages)) items ↔
      ItemsReturn out items true := by
  have hkeeps : ∀ {kind callId call}, IsCall kind callId call → callId ≠ [] →
      (a.keepsItem (items.zipIdx.filterMap
          (restoredKey out (compressedMessagesByIndex a.messages))) call = true ↔
        ((∃ kind', ∃ output ∈ items, IsOutput kind' callId output ∧ Mapped out output) →
          ∃ output ∈ items, IsOutput kind.lookedFor callId output ∧ Mapped out output)) := by
    intro kind callId call hcall hid
    rw [InputAdapter.keepsItem_call hcall hid, InputAdapter.hadMappedOutput_iff h.toAdapts,
      InputAdapter.mem_survivingOutputKeys, h.found_messages_iff]
  have hmem : ∀ {kind callId call}, IsCall kind callId call →
      (call ∈ items.map (returnedItem out) ↔ call ∈ items) := by
    intro kind callId call hcall
    rw [← h.nextInput_messages, InputAdapter.mem_nextInput_call hcall]
  unfold InputAdapter.cleanedInput
  rw [InputAdapter.rebuild_eq h.toAdapts]
  rw [h.nextInput_messages]
  constructor
  · intro hsame
    have hlength := hsame.length_eq.trans (length_map (returnedItem out)).symm
    rw [length_filter_eq_length_iff] at hlength
    rw [filter_eq_self.mpr hlength] at hsame
    refine ⟨forall₂_returnedItem_iff.mp hsame, ?_⟩
    rintro - kind callId hid ⟨call, hcall, hkind⟩ hmapped
    exact (hkeeps hkind hid).mp (hlength call ((hmem hkind).mpr hcall)) hmapped
  · intro hreturn
    rw [filter_eq_self.mpr]
    · exact forall₂_returnedItem_iff.mpr hreturn.mapped
    · intro item hitem
      by_contra hdropped
      obtain ⟨kind, callId, hid, hkind⟩ := exists_call_of_not_keepsItem hdropped
      exact hdropped ((hkeeps hkind hid).mpr
        (hreturn.calls rfl kind callId hid ⟨item, (hmem hkind).mp hitem, hkind⟩))

end AdaptsAll

/-! ## Bodies -/

section Bodies

variable {body : Body} {items : List JsValue} {drop : Bool}

def restoredItems (out : Outside) (a : InputAdapter) (drop : Bool) : List JsValue :=
  if drop then a.cleanedInput out (compressedMessagesByIndex a.messages)
  else a.patchedInput out (compressedMessagesByIndex a.messages)

variable {a : InputAdapter}

theorem AdaptsAll.restoredItems_iff (h : AdaptsAll out items a) :
    List.Forall₂ (SameItem out) (restoredItems out a drop) items ↔ ItemsReturn out items drop := by
  cases drop with
  | true => exact h.forall₂_cleanedInput_iff
  | false =>
    unfold restoredItems
    rw [if_neg Bool.false_ne_true, h.patchedInput_messages, forall₂_returnedItem_iff]
    exact ⟨fun hmapped => ⟨hmapped, fun hdrop => absurd hdrop Bool.false_ne_true⟩,
      fun hreturn => hreturn.mapped⟩

theorem adaptsAll_cases (out : Outside) (body : Body) (items : List JsValue) :
    (adaptInput out body items = .whole body ∧ ∀ item ∈ items, ¬ Mapped out item) ∨
      ∃ a, adaptInput out body items = .input a ∧ AdaptsAll out items a ∧
        a.input = prop body (js "input") ∧ a.members = body.delete (js "input") := by
  rcases adaptInput_cases out body items with hwhole | ⟨a, hadapter, hadapts, hinput⟩
  · exact .inl hwhole
  · refine .inr ⟨a, hadapter, ⟨hadapts, ?_⟩, hinput, ?_⟩
    all_goals
      unfold adaptInput at hadapter
      dsimp only at hadapter
      split at hadapter
      · cases hadapter
      · rw [← Adapter.input.inj hadapter]

theorem prop_delete (item : Body) (key key' : JsString) :
    prop (item.delete key) key' = if key = key' then .undefined else prop item key' := by
  unfold prop
  rw [JsMap.get_delete]
  split <;> rfl

theorem prop_delete_ne {item : Body} {key key' : JsString} (h : key' ≠ key) :
    prop (item.delete key) key' = prop item key' := by
  rw [prop_delete, if_neg h.symm]

def textItem (text : JsString) : Body :=
  [(js "type", .str (js "message")), (js "role", .str (js "user")), (js "content", .str text)]

/-- How a body is adapted: not at all, as an envelope, by its items or by its text. -/
theorem adaptBodyForCompression_cases (out : Outside) (body : Body) :
    (adaptBodyForCompression out body = some (.whole body) ∧
        (∀ items, ¬ Responses body items) ∧ ∀ state, ¬ InEnvelope body state) ∨
      (adaptBodyForCompression out body = none ∧ (∀ items, ¬ Responses body items) ∧
        ∃ state, InEnvelope body state) ∨
      (∃ items, Responses body items ∧ ∀ state, ¬ InEnvelope body state) ∨
      ∃ text, prop body (js "input") = .str text ∧
        adaptBodyForCompression out body = some (adaptInput out body [.obj (textItem text)]) ∧
        ∀ state, ¬ InEnvelope body state := by
  unfold adaptBodyForCompression
  split
  · rename_i messages hmessages
    exact .inl ⟨rfl, fun items h => h.messages messages hmessages,
      fun state h => h.messages messages hmessages⟩
  · rename_i hmessages
    split
    · rename_i state hstate
      exact .inr (.inl ⟨rfl, fun items h => h.conversationState state hstate, state, hstate,
        hmessages⟩)
    · rename_i hstate
      have hnot : ∀ state, ¬ InEnvelope body state := fun state h =>
        hstate state h.conversationState
      split
      · rename_i items hinput
        exact .inr (.inr (.inl ⟨items, ⟨hinput, hmessages, hstate⟩, hnot⟩))
      · rename_i text hinput
        exact .inr (.inr (.inr ⟨text, hinput, rfl, hnot⟩))
      · rename_i hitems htext
        exact .inl ⟨rfl, fun items h => hitems items h.input, hnot⟩

theorem sameInput_self (out : Outside) (input : JsValue) : SameInput out input input := by
  cases input with
  | arr items => exact ⟨items, rfl, forall₂_same.mpr fun _ _ => .inl rfl⟩
  | _ => rfl

/-- A member of the body that is neither the input nor the messages comes back. -/
theorem prop_restore_input (hmembers : a.members = body.delete (js "input"))
    {key : JsString} (hinput : key ≠ js "input") (hmessages : key ≠ js "messages") :
    prop ((Adapter.input a).restore out (Adapter.input a).body drop) key = prop body key := by
  have hrest : prop (((a.members.delete (js "messages")).delete (js "messages"))) key =
      prop body key := by
    rw [prop_delete_ne hmessages, prop_delete_ne hmessages, hmembers, prop_delete_ne hinput]
  unfold Adapter.restore
  dsimp only
  split
  all_goals
    rw [prop_set, if_neg hinput.symm]
    exact hrest

theorem prop_restore_items (hinput : a.input = .arr items) :
    prop ((Adapter.input a).restore out (Adapter.input a).body drop) (js "input") =
      .arr (restoredItems out a drop) := by
  unfold Adapter.restore
  dsimp only
  rw [hinput]
  rw [prop_set, if_pos rfl]
  rfl

theorem prop_restore_text {text : JsString} (hinput : a.input = .str text) :
    prop ((Adapter.input a).restore out (Adapter.input a).body drop) (js "input") =
      match (restoredItems out a drop).head? with
      | some (.obj first) => orElse (prop first (js "content")) (.str text)
      | _ => .str text := by
  unfold Adapter.restore
  dsimp only
  rw [hinput]
  rw [prop_set, if_pos rfl]
  rfl

theorem textItem_returns (out : Outside) (text : JsString) (drop : Bool) :
    ItemsReturn out [.obj (textItem text)] drop := by
  refine ⟨?_, ?_⟩
  · intro item hmem _
    obtain rfl := JsValue.obj.inj (mem_singleton.mp hmem)
    have htype : typeOf (textItem text) = js "message" := rfl
    have hcontent : prop (textItem text) (js "content") = .str text := rfl
    refine ⟨fun _ => ?_, fun hcustom => ?_⟩
    · rw [hcontent]
      simp
    · rw [htype] at hcustom
      exact absurd hcustom (by decide)
  · rintro - kind callId - ⟨call, hmem, hcall⟩
    rw [mem_singleton.mp hmem] at hcall
    have htype : js "message" = kind.callType := (Tagged.typeOf hcall).1
    have hmessage := kind.callType_not_message
    rw [← htype] at hmessage
    exact absurd hmessage (by decide)

theorem adaptInput_text (out : Outside) {text : JsString}
    (hinput : prop body (js "input") = .str text) (drop : Bool) :
    let adapter := adaptInput out body [.obj (textItem text)]
    prop (adapter.restore out adapter.body drop) (js "input") = .str text ∧
      ∀ key, key ≠ js "input" → key ≠ js "messages" →
        prop (adapter.restore out adapter.body drop) key = prop body key := by
  intro adapter
  rcases adaptsAll_cases out body [.obj (textItem text)] with
    ⟨hwhole, -⟩ | ⟨a, hadapter, hadapts, hsame, hmembers⟩
  · rw [show adapter = .whole body from hwhole]
    exact ⟨hinput, fun _ _ _ => rfl⟩
  · rw [show adapter = .input a from hadapter]
    refine ⟨?_, fun key => prop_restore_input hmembers⟩
    rw [prop_restore_text (hsame.trans hinput)]
    have hitems := hadapts.restoredItems_iff.mpr (textItem_returns out text drop)
    cases hrestored : restoredItems out a drop with
    | nil => rfl
    | cons first rest =>
      rw [hrestored] at hitems
      obtain ⟨hfirst, -⟩ := forall₂_cons.mp hitems
      rcases hfirst with rfl | ⟨item, members, hobj, htool, -⟩
      · rfl
      · obtain rfl := JsValue.obj.inj hobj
        have hmem := typeOf_of_hasType htool
        rw [show typeOf (textItem text) = js "message" from rfl] at hmem
        exact absurd hmem (by decide)

theorem Responses.sameInput_iff (h : Responses body items) :
    SameInput out (prop (adaptAndRestore out body drop) (js "input")) (prop body (js "input")) ↔
      ItemsReturn out items drop := by
  have hrestore : adaptAndRestore out body drop =
      (adaptInput out body items).restore out (adaptInput out body items).body drop := by
    unfold adaptAndRestore
    rw [h.adapt]
  rw [hrestore, h.input]
  rcases adaptsAll_cases out body items with
    ⟨hwhole, hnone⟩ | ⟨a, hadapter, hadapts, hsame, -⟩
  · rw [hwhole]
    refine iff_of_true ?_ ⟨fun item hmem hmapped => absurd hmapped (hnone _ hmem), ?_⟩
    · show SameInput out (prop body (js "input")) (.arr items)
      rw [h.input]
      exact sameInput_self out _
    · rintro - kind callId - - ⟨kind', output, hmem, -, hmapped⟩
      exact absurd hmapped (hnone output hmem)
  · rw [hadapter, prop_restore_items (hsame.trans h.input), ← hadapts.restoredItems_iff]
    constructor
    · rintro ⟨items', harr, hitems⟩
      rw [JsValue.arr.inj harr]
      exact hitems
    · intro hitems
      exact ⟨_, rfl, hitems⟩

theorem Responses.prop_adaptAndRestore (h : Responses body items) {key : JsString}
    (hinput : key ≠ js "input") (hmessages : key ≠ js "messages") :
    prop (adaptAndRestore out body drop) key = prop body key := by
  unfold adaptAndRestore
  rw [h.adapt]
  rcases adaptsAll_cases out body items with
    ⟨hwhole, -⟩ | ⟨a, hadapter, -, -, hmembers⟩
  · rw [hwhole]
    rfl
  · rw [hadapter]
    exact prop_restore_input hmembers hinput hmessages

theorem InEnvelope.prop_restore {state : Body} (h : InEnvelope body state) {key : JsString}
    (hmessages : key ≠ js "messages") :
    prop ((adaptKiroBodyForCompression body state).restore
      (adaptKiroBodyForCompression body state).body) key = prop body key := by
  rcases adaptKiroBodyForCompression_cases body state with
    hwhole | ⟨e, henvelope, hof, hmembers, hstate, hcollected⟩
  · rw [hwhole]
    rfl
  · rw [henvelope]
    unfold KiroAdapter.restore KiroAdapter.body
    dsimp only [Option.getD_some]
    rw [hcollected, ← hstate, nextState_unmodified hof, hstate, prop_set]
    split
    · rename_i hkey
      rw [← hkey, h.conversationState]
    · rw [prop_delete_ne hmessages, prop_delete_ne hmessages, hmembers]

/-- The results with an error stay, whatever the messages have become. -/
theorem InEnvelope.keepsErrors {state : Body} (h : InEnvelope body state)
    {messages : List KiroMessage} (hplaces : KeepsPlaces state messages) :
    KeepsErrors state (prop ((adaptKiroBodyForCompression body state).restore
      { (adaptKiroBodyForCompression body state).body with messages := some messages })
      (js "conversationState")) := by
  rcases adaptKiroBodyForCompression_cases body state with
    hwhole | ⟨e, henvelope, hof, -, rfl, -⟩
  · rw [hwhole]
    exact ⟨state, h.conversationState, fun _ _ _ hresult _ => hresult⟩
  · rw [henvelope]
    unfold KiroAdapter.restore KiroAdapter.body
    rw [prop_set, if_pos rfl]
    exact ⟨_, rfl, fun place i members hresult herror =>
      toolResultAt_nextState_of_error hof hplaces hresult herror⟩

/-- A body comes back exactly when the items of its `input` are not changed by
the adapter itself. -/
theorem roundTrips_iff (out : Outside) (body : Body) (dropMissingMappedItems : Bool) :
    RoundTrips out body dropMissingMappedItems ↔
      ∀ items, Responses body items → ItemsReturn out items dropMissingMappedItems := by
  constructor
  · intro h items hitems
    exact hitems.sameInput_iff.mp h.input
  · intro hreturn
    rcases adaptBodyForCompression_cases out body with
      ⟨hadapt, -, -⟩ | ⟨hadapt, -, state, hstate⟩ | ⟨items, hitems, -⟩ | ⟨text, hinput, hadapt, -⟩
    · have hsame : adaptAndRestore out body dropMissingMappedItems = body := by
        unfold adaptAndRestore
        rw [hadapt]
        rfl
      refine ⟨?_, fun key _ _ => by rw [hsame], fun _ hstate _ => hstate.keepsErrors⟩
      rw [hsame]
      exact sameInput_self out _
    · have hrestore : adaptAndRestore out body dropMissingMappedItems =
          (adaptKiroBodyForCompression body state).restore
            (adaptKiroBodyForCompression body state).body := by
        unfold adaptAndRestore
        rw [hadapt]
        rw [hstate.conversationState]
      refine ⟨?_, fun key _ hmessages => ?_, fun _ hstate _ => hstate.keepsErrors⟩
      · rw [hrestore, hstate.prop_restore (by decide)]
        exact sameInput_self out _
      · rw [hrestore]
        exact hstate.prop_restore hmessages
    · exact ⟨hitems.sameInput_iff.mpr (hreturn items hitems),
        fun key hkey hmessages => hitems.prop_adaptAndRestore hkey hmessages,
        fun _ hstate _ => hstate.keepsErrors⟩
    · obtain ⟨htext, hmembers⟩ := adaptInput_text out hinput dropMissingMappedItems
      have hrestore : adaptAndRestore out body dropMissingMappedItems =
          (adaptInput out body [.obj (textItem text)]).restore out
            (adaptInput out body [.obj (textItem text)]).body dropMissingMappedItems := by
        unfold adaptAndRestore
        rw [hadapt]
      refine ⟨?_, fun key hkey hmessages => ?_, fun _ hstate _ => hstate.keepsErrors⟩
      · rw [hrestore, htext, hinput]
        rfl
      · rw [hrestore]
        exact hmembers key hkey hmessages

end Bodies

/-- The text that a tool gives out, with the time that it took. -/
def wrappedText : JsString := js "\x7b\"output\":\"ok\",\"duration_seconds\":0.0\x7d"

def wrappedRecord : Body := [(js "output", .str (js "ok")), (js "duration_seconds", .num 0)]

def wrappedItem : Body :=
  [(js "type", .str (js "custom_tool_call_output")), (js "call_id", .str (js "a")),
    (js "output", .str wrappedText)]

def wrappedBody : Body := [(js "input", .arr [.obj wrappedItem])]

/-- The number zero, and the one text that is read. -/
def wrappedOutside : Outside :=
  ⟨fun _ => js "0", fun text => if text = wrappedText then some (.obj wrappedRecord) else none⟩

theorem wrapped_responses : Responses wrappedBody [.obj wrappedItem] :=
  ⟨rfl, fun _ h => (by cases h), fun _ h => (by cases h)⟩

theorem wrapped_parse : (wrappedOutside.parse wrappedText).bind (textMember? (js "output")) =
      some (wrappedRecord, js "ok") := by
  have hparse : wrappedOutside.parse wrappedText = some (.obj wrappedRecord) := by
    show (if wrappedText = wrappedText then some (JsValue.obj wrappedRecord) else none) = _
    exact if_pos rfl
  rw [hparse]
  rfl

theorem wrapped_written_anew : jsonText wrappedOutside wrappedRecord ≠ .str wrappedText := by
  intro h
  have htext := JsValue.str.inj h
  exact absurd htext (by decide +kernel)

/-- An output of a custom tool is changed, though its message is not. -/
theorem not_roundTrips_wrapped : ¬ RoundTrips wrappedOutside wrappedBody false := by
  intro h
  have hreturn := wrapped_responses.sameInput_iff.mp h.input
  have hmapped : Mapped wrappedOutside (.obj wrappedItem) := by
    show (compressibleMessage wrappedOutside (.obj wrappedItem)).isSome = true
    decide
  have hitem := hreturn.mapped wrappedItem mem_cons_self hmapped
  exact wrapped_written_anew
    (hitem.custom rfl wrappedText wrappedRecord (js "ok") rfl wrapped_parse)

end RedRouter.Compression.BodyAdapter
