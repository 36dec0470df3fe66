import RedRouter.Lib.JsMap
import RedRouter.Utils.JsonSize

/-!
# The body adapter

The model of the part of `open-sse/services/compression/bodyAdapter.ts` that is
about bodies with an `input`.  The compression engines work on messages, so the
items with text or images are given to them as messages, and what they answer
is put back into the items.

A message carries the index of its item under a symbol, which is
`MessageLike.inputIndex` here.  The mark that tells the engines which outputs
they may change is read by the engines only, and left out.  The text of a
number and `JSON.parse` are functions from outside.
-/

namespace RedRouter.Compression.BodyAdapter

open JsValue Regex

abbrev Body := JsMap JsString JsValue

structure Outside where
  fmt : UInt64 → JsString
  /-- There is no value for a text that is not JSON. -/
  parse : JsString → Option JsValue

structure MessageLike where
  members : Body
  inputIndex : Option Nat

/-- What an engine gets and answers: the messages, if it is an array of them,
and the other members. -/
structure CompressionBody where
  members : Body
  messages : Option (List MessageLike)

structure Mapping where
  index : Nat
  item : Body

def toolOutputTypes : List JsString :=
  [js "function_call_output", js "custom_tool_call_output", js "local_shell_call_output",
    js "apply_patch_call_output"]

def responsesMessageTypes : List JsString := js "message" :: toolOutputTypes

def toolCallTypes : List JsString :=
  [js "function_call", js "custom_tool_call", js "local_shell_call", js "apply_patch_call"]

/-! ## Values -/

/-- `item[key]`. -/
def prop (item : Body) (key : JsString) : JsValue := (item.get key).getD .undefined

/-- `a ?? b`. -/
def orElse (a b : JsValue) : JsValue :=
  match a with
  | .undefined => b
  | .null => b
  | a => a

def isText : JsValue → Bool
  | .str s => !s.isEmpty
  | _ => false

def textMember? (key : JsString) : JsValue → Option (Body × JsString)
  | .obj members =>
      match prop members key with
      | .str s => some (members, s)
      | _ => none
  | _ => none

variable (out : Outside)

/-- `JSON.stringify` of a record. -/
def jsonText (members : Body) : JsValue := .str ((stringify out.fmt (.obj members)).getD [])

def typeOf (item : Body) : JsString :=
  match prop item (js "type") with
  | .str type => type
  | _ => js "message"

def hasType (item : Body) (types : List JsString) : Bool :=
  match prop item (js "type") with
  | .str type => types.contains type
  | _ => false

/-! ## From an item to a message -/

def normalizeRole (role : JsValue) (fallback : JsString) : JsValue :=
  if isText role then role else .str fallback

def toChatContent (content fallbackOutput : JsValue) : JsValue :=
  match content with
  | .undefined => fallbackOutput
  | content => content

def customToolOutputToChatContent (rawOutput : JsValue) : JsValue :=
  match rawOutput with
  | .str text =>
      match (out.parse text).bind (textMember? (js "output")) with
      | some (_, output) => .str output
      | none => rawOutput
  | rawOutput =>
      match textMember? (js "output") rawOutput with
      | some (_, output) => .str output
      | none => rawOutput

def responsesItemToMessage (item : Body) : Option Body :=
  let type := typeOf item
  if responsesMessageTypes.contains type then
    if toolOutputTypes.contains type then
      let rawOutput := orElse (prop item (js "output")) (prop item (js "content"))
      let content :=
        if type = js "custom_tool_call_output" then customToolOutputToChatContent out rawOutput
        else match rawOutput with
          | .obj members => jsonText out members
          | rawOutput => toChatContent rawOutput .undefined
      some [(js "role", .str (js "tool")), (js "content", content)]
    else
      some [(js "role", normalizeRole (prop item (js "role")) (js "user")),
          (js "content", toChatContent (prop item (js "content")) (prop item (js "output")))]
  else none

/-! ## The messages that are worth compressing -/

def hasTextContent (message : Body) : Bool :=
  match prop message (js "content") with
  | .str text => !text.isEmpty
  | .arr parts => parts.any fun part => ((textMember? (js "text") part).any fun e => !e.2.isEmpty)
  | _ => false

/-- `/^data:image\/[a-zA-Z0-9.+-]+;base64,/`. -/
def inlineImage : Pattern :=
  Pattern.cat [.atStart, Pattern.lit (js "data:image/"), Pattern.many1 (.unit Utils.isMediaUnit),
      Pattern.lit (js ";base64,")]

def isInlineBase64ImageUrl : JsValue → Bool
  | .str url => test inlineImage url
  | _ => false

def isInlineImage : JsValue → Bool
  | .obj part =>
      if hasType part [js "input_image"] && isInlineBase64ImageUrl (prop part (js "image_url")) then
        true
      else if hasType part [js "image_url"] then
        isInlineBase64ImageUrl (prop part (js "image_url")) ||
          match prop part (js "image_url") with
          | .obj imageUrl => isInlineBase64ImageUrl (prop imageUrl (js "url"))
          | _ => false
      else if hasType part [js "image"] then
        isInlineBase64ImageUrl (prop part (js "image")) ||
          match prop part (js "source") with
          | .obj source => hasType source [js "base64"] &&
              (textMember? (js "data") (.obj source)).isSome
          | _ => false
      else
        (textMember? (js "data")
          (orElse (prop part (js "inlineData")) (prop part (js "inline_data")))).isSome
  | _ => false

def hasInlineImageContent (message : Body) : Bool :=
  match prop message (js "content") with
  | .arr parts => parts.any isInlineImage
  | _ => false

def hasCompressibleContent (message : Body) : Bool :=
  hasTextContent message || hasInlineImageContent message

/-! ## From a message to its item -/

/-- The parts with the text in the first of them that has a text, and no text in
the others, and whether there was one. -/
def replaceText (text : JsString) : Bool → List JsValue → List JsValue × Bool
  | replaced, [] => ([], replaced)
  | replaced, part :: parts =>
      match textMember? (js "text") part with
      | none =>
          let rest := replaceText text replaced parts
          (part :: rest.1, rest.2)
      | some (members, _) =>
          let rest := replaceText text true parts
          (.obj (members.set (js "text") (.str (if replaced then [] else text))) :: rest.1, rest.2)

def fromChatContent (nextContent originalContent : JsValue) : JsValue :=
  match originalContent, nextContent with
  | .arr parts, .str text =>
      let (mapped, replaced) := replaceText text false parts
      if replaced then .arr mapped else originalContent
  | _, _ => nextContent

def restoreCustomToolOutput (nextContent originalOutput : JsValue) : JsValue :=
  match originalOutput with
  | .str text =>
      match (out.parse text).bind (textMember? (js "output")) with
      | some (parsed, _) => jsonText out (parsed.set (js "output") nextContent)
      | none => fromChatContent nextContent originalOutput
  | originalOutput =>
      match textMember? (js "output") originalOutput with
      | some (members, _) => .obj (members.set (js "output") nextContent)
      | none => fromChatContent nextContent originalOutput

def responsesToolOutputField (item : Body) : JsString :=
  match prop item (js "output") with
  | .undefined => js "content"
  | .null => js "content"
  | _ => js "output"

def messageToResponsesItem (message : MessageLike) (originalItem : Body) : Body :=
  let type := typeOf originalItem
  let content := prop message.members (js "content")
  if toolOutputTypes.contains type then
    let outputField := responsesToolOutputField originalItem
    let originalOutput := prop originalItem outputField
    originalItem.set outputField
      (if type = js "custom_tool_call_output" then restoreCustomToolOutput out content originalOutput
      else fromChatContent content originalOutput)
  else
    originalItem.set (js "content") (fromChatContent content (prop originalItem (js "content")))

/-! ## The adapter -/

/-- What is mapped, and the messages for it.  `input` is the one of the body. -/
structure InputAdapter where
  input : JsValue
  members : Body
  inputItems : List JsValue
  mappings : List Mapping
  messages : List MessageLike

inductive Adapter where
  /-- The body is left as it is. -/
  | whole (body : Body)
  | input (adapter : InputAdapter)

def compressibleMessage : JsValue → Option (Body × Body)
  | .obj item => (responsesItemToMessage out item).bind fun message =>
      if hasCompressibleContent message then some (item, message) else none
  | _ => none

def adaptItem (e : JsValue × Nat) : Option (Mapping × MessageLike) :=
  (compressibleMessage out e.1).map fun found => (⟨e.2, found.1⟩, ⟨found.2, some e.2⟩)

/-- The part of `adaptBodyForCompression` for a body with an `input`. -/
def adaptInput (body : Body) (inputItems : List JsValue) : Adapter :=
  let adapted := inputItems.zipIdx.filterMap (adaptItem out)
  if adapted.isEmpty then .whole body
  else .input
    { input := prop body (js "input")
      members := body.delete (js "input")
      inputItems := inputItems
      mappings := adapted.map Prod.fst
      messages := adapted.map Prod.snd }

/-- A body in the envelope of Kiro is adapted by a function of its own, and has
no adapter here. -/
def adaptBodyForCompression (body : Body) : Option Adapter :=
  match prop body (js "messages") with
  | .arr _ => some (.whole body)
  | _ =>
      match prop body (js "conversationState") with
      | .obj _ => none
      | _ =>
          match prop body (js "input") with
          | .arr items => some (adaptInput out body items)
          | .str text => some (adaptInput out body
              [.obj [(js "type", .str (js "message")), (js "role", .str (js "user")),
                (js "content", .str text)]])
          | _ => some (.whole body)

def Adapter.body : Adapter → CompressionBody
  | whole body => ⟨body, none⟩
  | input adapter => ⟨adapter.members.delete (js "messages"), some adapter.messages⟩

/-! ## Restoring -/

/-- One round of the loop over the messages. -/
def indexMessage (byIndex : JsMap Nat MessageLike) (message : MessageLike) :
    JsMap Nat MessageLike :=
  match message.inputIndex with
  | some index => byIndex.set index message
  | none => byIndex

def compressedMessagesByIndex (messages : List MessageLike) : JsMap Nat MessageLike :=
  messages.foldl indexMessage []

variable (a : InputAdapter)

namespace InputAdapter

variable (byIndex : JsMap Nat MessageLike)

/-- Every item stays, and those with a message are patched. -/
def patchedInput : List JsValue :=
  a.mappings.foldl (fun nextInput mapping => match byIndex.get mapping.index with
      | none => nextInput
      | some message =>
          nextInput.set mapping.index (.obj (messageToResponsesItem out message mapping.item)))
    a.inputItems

/-- The items that are kept, and the keys of the outputs among them. -/
structure Rebuilt where
  nextInput : List JsValue := []
  survivingOutputKeys : List JsString := []

/-- `${type}:${call_id}`. -/
def pairKey (type callId : JsString) : JsString := type ++ js ":" ++ callId

def survivingOutputKey (restored : Body) : Option JsString :=
  if hasType restored toolOutputTypes then
    match prop restored (js "call_id") with
    | .str callId => some (pairKey (typeOf restored) callId)
    | _ => none
  else none

/-- One round of the loop over the items. -/
def rebuildItem (s : Rebuilt) (e : JsValue × Nat) : Rebuilt :=
  if a.mappings.any (fun mapping => mapping.index = e.2) then
    match byIndex.get e.2, a.mappings.find? (fun mapping => mapping.index = e.2) with
    | some compressedMessage, some mapping =>
        let restored := messageToResponsesItem out compressedMessage mapping.item
        { nextInput := s.nextInput ++ [.obj restored]
          survivingOutputKeys := s.survivingOutputKeys ++ (survivingOutputKey restored).toList }
    | _, _ => s
  else { s with nextInput := s.nextInput ++ [e.1] }

def rebuild : Rebuilt :=
  a.inputItems.zipIdx.foldl (a.rebuildItem out byIndex) {}

def hadMappedOutput (callId : JsString) : Bool :=
  a.mappings.any fun mapping =>
    hasType mapping.item toolOutputTypes &&
      match prop mapping.item (js "call_id") with
      | .str id => id = callId
      | _ => false

/-- The type of the output that the answer to a call is looked for under. -/
def outputType (type : JsString) : JsString :=
  if type = js "custom_tool_call" then js "custom_tool_call_output" else js "function_call_output"

/-- The filter of the calls whose outputs are gone. -/
def keepsItem (survivingOutputKeys : List JsString) : JsValue → Bool
  | .obj item =>
      if hasType item toolCallTypes then
        match prop item (js "call_id") with
        | .str callId =>
            if callId.isEmpty then true
            else if a.hadMappedOutput callId then
              survivingOutputKeys.contains (pairKey (outputType (typeOf item)) callId)
            else true
        | _ => true
      else true
  | _ => true

def cleanedInput : List JsValue :=
  let rebuilt := a.rebuild out byIndex
  rebuilt.nextInput.filter (a.keepsItem rebuilt.survivingOutputKeys)

end InputAdapter

def Adapter.restore (compressedBody : CompressionBody) (dropMissingMappedItems : Bool) :
    Adapter → Body
  | whole _ => compressedBody.members
  | input a =>
      let byIndex := compressedMessagesByIndex (compressedBody.messages.getD [])
      let items := if dropMissingMappedItems then a.cleanedInput out byIndex
        else a.patchedInput out byIndex
      let rest := compressedBody.members.delete (js "messages")
      match a.input with
      | .str _ =>
          rest.set (js "input") (match items.head? with
            | some (.obj first) => orElse (prop first (js "content")) a.input
            | _ => a.input)
      | _ => rest.set (js "input") (.arr items)

end RedRouter.Compression.BodyAdapter
