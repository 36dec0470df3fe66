import RedRouter.Chat.Chunk
import RedRouter.Lib.JsMap
import RedRouter.Lib.Regex
import Mathlib.Data.List.Sort
import RedRouter.Lib.Blocks
import RedRouter.Lib.Json

/-!
# Chat streams as Responses streams

The model of `openaiToOpenAIResponsesResponse` in
`translator/response/openai-responses.ts`: one chunk at a time, with the state
between the chunks.  A chunk has one choice at most, the one with index 0.

The index of a tool call in the output is not stored.  It is the sum of the
place of the call among the calls and of `toolCallOutputIndexBase`, which is
read off the reasoning and the message that are there at the time.
-/

namespace RedRouter.Response.OpenaiToResponses

open Blocks Regex Regex.Pattern Chat

/-! ## Responses streams

The events of a Responses stream, as the translator to Responses writes them.
The constant fields of the events are left out.

An item is known by its id and has a place in the output, its index.
`ItemLifecycle` is what a client of the stream relies on: every item is
added, filled and done once, at an index of its own, and the last event has
the items that are done in the order of their indexes.
-/

inductive ItemStatus where
  | inProgress
  | completed
  | incomplete
deriving DecidableEq

/-- A `function_call` or a `custom_tool_call` item. -/
structure ToolItem where
  custom : Bool
  id : JsString
  callId : JsString
  name : JsString
  toolNamespace : Option JsString
  /-- The `arguments` of a function call, the `input` of a custom one. -/
  text : JsString
  status : ItemStatus
  /-- Whether the empty list `encrypted_function_args` is there. -/
  plaintextMarker : Bool := false

inductive OutputItem where
  | reasoning (id : JsString) (summary : List JsString) (status : ItemStatus)
  | message (id : JsString) (content : List JsString) (status : ItemStatus)
  | toolCall (item : ToolItem)

def OutputItem.id : OutputItem → JsString
  | reasoning id _ _ => id
  | message id _ _ => id
  | toolCall item => item.id

/-- The events between the `added` and the `done` of an item; each has a text. -/
inductive ProgressType where
  | reasoningPartAdded
  | reasoningTextDelta
  | reasoningTextDone
  | reasoningPartDone
  | contentPartAdded
  | outputTextDelta
  | outputTextDone
  | contentPartDone
  | argumentsDelta
  | argumentsDone
  | customInputDelta
  | customInputDone

structure ResponsesUsage where
  inputTokens : Int
  cachedTokens : Int
  cacheCreationTokens : Option Int
  outputTokens : Int
  reasoningTokens : Int
  totalTokens : Int

/-- The terminal event; its name is the status of the response. -/
inductive TerminalType where
  | completed
  | incomplete
  | failed

/-- The `incomplete_details` of a response. -/
inductive IncompleteDetails where
  | noReason
  | maxOutputTokens
  | contentFilter

/-- The response of `created` and `in_progress`. -/
structure OpenResponse where
  id : JsString
  createdAt : Nat
  model : Option JsString

/-- The response of a terminal event. -/
structure FinalResponse where
  id : JsString
  createdAt : Nat
  error : Option Json
  output : List OutputItem
  model : Option JsString
  usage : Option ResponsesUsage
  incompleteDetails : Option IncompleteDetails

inductive Event where
  | created (response : OpenResponse)
  | inProgress (response : OpenResponse)
  | itemAdded (outputIndex : Int) (item : OutputItem)
  | progress (type : ProgressType) (itemId : JsString) (outputIndex : Int) (text : JsString)
  | itemDone (outputIndex : Int) (item : OutputItem)
  | terminal (type : TerminalType) (response : FinalResponse)

/-- An event with its `sequence_number`. -/
structure Emitted where
  sequenceNumber : Nat
  event : Event

/-! ## Items -/

/-- What an event of an item names it by. -/
structure ItemKey where
  itemId : JsString
  outputIndex : Int
deriving DecidableEq

def frameOf : Event → Option (Frame ItemKey)
  | .itemAdded outputIndex item => some (.start ⟨item.id, outputIndex⟩)
  | .progress _ itemId outputIndex _ => some (.delta ⟨itemId, outputIndex⟩)
  | .itemDone outputIndex item => some (.stop ⟨item.id, outputIndex⟩)
  | _ => none

def framesOf (events : List Emitted) : List (Frame ItemKey) :=
  events.filterMap fun e => frameOf e.event

@[simp] theorem framesOf_append (xs ys : List Emitted) :
    framesOf (xs ++ ys) = framesOf xs ++ framesOf ys := List.filterMap_append

def doneItem : Event → Option (Int × OutputItem)
  | .itemDone outputIndex item => some (outputIndex, item)
  | _ => none

/-- The items that are done, with their indexes, in the order of their done events. -/
def doneItems (events : List Emitted) : List (Int × OutputItem) :=
  events.filterMap fun e => doneItem e.event

@[simp] theorem doneItems_append (xs ys : List Emitted) :
    doneItems (xs ++ ys) = doneItems xs ++ doneItems ys := List.filterMap_append

def terminalResponse : Event → Option FinalResponse
  | .terminal _ response => some response
  | _ => none

def terminalResponses (events : List Emitted) : List FinalResponse :=
  events.filterMap fun e => terminalResponse e.event

@[simp] theorem terminalResponses_append (xs ys : List Emitted) :
    terminalResponses (xs ++ ys) = terminalResponses xs ++ terminalResponses ys :=
  List.filterMap_append

/-- Every item is whole, no two items share an index, no item has two, and the one
terminal event lists the items that are done in the order of their indexes. -/
structure ItemLifecycle (events : List Emitted) : Prop where
  whole : ∀ f ∈ framesOf events, Lifecycle f.key (framesOf events)
  indexes : ∀ f ∈ framesOf events, ∀ g ∈ framesOf events,
    f.key.outputIndex = g.key.outputIndex ↔ f.key.itemId = g.key.itemId
  terminal : ∃ (response : FinalResponse) (items : List (Int × OutputItem)),
    terminalResponses events = [response] ∧ items.Perm (doneItems events) ∧
    items.Pairwise (fun x y => x.1 < y.1) ∧
    response.output = items.map Prod.snd

/-! ## Tools of a Responses request

What the translator to Responses looks up about the tools of the request: the
namespace that a flattened name came from
(`openai-responses/requestToolIdentity.ts`) and whether a tool is a custom
one.  The repairs of the arguments are here too, and the models that write
their reasoning as `<think>` tags (`responseSanitizer/reasoning.ts`).
-/

/-! ## Names -/

/-- A namespace and the name of a tool in it; both are not empty. -/
structure ToolIdentity where
  toolNamespace : JsString
  name : JsString

/-- What does not change during a stream.  `toLowerCase` follows the Unicode tables,
`projectError` is `projectCompletedStreamError`, and `arrayText` is how the
repair of the tabs reads an array in place of a text. -/
structure Options (Failure : Type) where
  codec : JsonCodec
  toLowerCase : JsString → JsString
  arrayText : List Json → JsString
  projectError : Failure → Json
  expectedChoices : Option Nat := none
  /-- The tools with a schema in the request. -/
  toolSchemas : List JsString := []
  customToolNames : List JsString := []
  requestToolIdentityMap : JsMap JsString ToolIdentity := []

/-- `s.lastIndexOf(needle)`, with `none` for `-1`. -/
def lastIndexOf (needle : JsString) : JsString → Option Nat
  | [] => if needle.isEmpty then some 0 else none
  | c :: cs =>
      match lastIndexOf needle cs with
      | some i => some (i + 1)
      | none => if needle.isPrefixOf (c :: cs) then some 0 else none

def splitFlattenedNamespaceWireName (toolName : JsString) : Option ToolIdentity :=
  if toolName.startsWith (js "mcp__") then
    match lastIndexOf (js "__") toolName with
    | none => none
    | some lastSeparator =>
        let toolNamespace := toolName.take lastSeparator
        let name := toolName.drop (lastSeparator + 2)
        if toolNamespace.isEmpty || name.isEmpty then none else some ⟨toolNamespace, name⟩
  else none

variable {Failure : Type} (opts : Options Failure)

def resolveRequestToolIdentity (toolName : JsString) : Option ToolIdentity :=
  if toolName.isEmpty then none
  else
    match JsMap.get toolName opts.requestToolIdentityMap with
    | some identity => some identity
    | none =>
        match (JsMap.values opts.requestToolIdentityMap).find? fun identity =>
            identity.toolNamespace ++ js "." ++ identity.name == toolName with
        | some identity => some identity
        | none =>
            if opts.requestToolIdentityMap.isEmpty then splitFlattenedNamespaceWireName toolName
            else none

/-- Whether the calls of a tool are `custom_tool_call` items. -/
def isCustomTool (toolName : JsString) : Bool :=
  let lowerName := opts.toLowerCase toolName
  ((lowerName == js "apply_patch" || lowerName == js "applypatch") &&
    !opts.toolSchemas.contains toolName) || opts.customToolNames.contains toolName

def plaintextCollaborationFields (identity : Option ToolIdentity) : Bool :=
  match identity with
  | some identity =>
      identity.toolNamespace == js "collaboration" &&
        [js "spawn_agent", js "send_message", js "followup_task"].contains identity.name
  | none => false

/-! ## Arguments -/

/-- `JsonStringEscapeState`. -/
structure EscapeState where
  inString : Bool := false
  pendingEscape : Bool := false

def backslash : UInt16 := unit '\\'

def quote : UInt16 := unit '"'

/-- What `escapeJsonStringValues` writes for a unit. -/
def escapeUnit (ch : UInt16) (state : EscapeState) : JsString × EscapeState :=
  if state.pendingEscape then ([ch], { state with pendingEscape := false })
  else if state.inString && ch == backslash then ([ch], { state with pendingEscape := true })
  else if ch == quote then ([ch], { state with inString := !state.inString })
  else if state.inString && ch == unit '\n' then (js "\\n", state)
  else if state.inString && ch == unit '\r' then (js "\\r", state)
  else if state.inString && ch == unit '\t' then (js "\\t", state)
  else ([ch], state)

def escapeJsonStringValues : JsString → EscapeState → JsString × EscapeState
  | [], state => ([], state)
  | ch :: json, state =>
      let (text, state) := escapeUnit ch state
      let (rest, state) := escapeJsonStringValues json state
      (text ++ rest, state)

/-- The scan of `fixDoubleEscapedTabs`.  `fuel` bounds the number of scanned units. -/
def fixTabsAux : Nat → Bool → JsString → JsString
  | 0, _, json => json
  | _ + 1, _, [] => []
  | fuel + 1, inString, ch :: json =>
      if inString && (js "\\\\t").isPrefixOf (ch :: json) then
        js "\\t" ++ fixTabsAux fuel inString (json.drop 2)
      else if inString && ch == backslash then
        ch :: json.take 1 ++ fixTabsAux fuel inString (json.drop 1)
      else if ch == quote then ch :: fixTabsAux fuel (!inString) json
      else ch :: fixTabsAux fuel inString json

/-- `fixDoubleEscapedTabs`.  A value without a length gives the empty text. -/
def fixDoubleEscapedTabs : Json → JsString
  | .str json => fixTabsAux json.length false json
  | .arr items => opts.arrayText items
  | _ => []

/-! ## Reasoning tags -/

/-- `\b` after a word unit. -/
def wordEnd : Pattern := .alt .atEnd (.ahead (.unit fun u => !isWord u))

/-- `[chars]`. -/
def oneOf (chars : String) : Pattern := .unit fun u => (js chars).contains u

/-- `isAntigravityReasoningRoute` without a provider. -/
def isAntigravityReasoningRoute (modelId : JsString) : Bool :=
  modelId.includes (js "antigravity/") || modelId.startsWith (js "agy/")

/-- `isTextualReasoningTagNativeRoute` without a provider. -/
def isTextualReasoningTagNativeRoute (modelId : JsString) : Bool :=
  let routeId := js "/" ++ modelId
  test (cat [lit (js "deepseek"), opt (oneOf "-_/"), lit (js "r1"), wordEnd]) routeId ||
    test (cat [lit (js "r1"), opt (oneOf "-_/"), lit (js "distill"), wordEnd]) routeId ||
    test (cat [.alt .atStart (oneOf "/:_-"), lit (js "qwq"), .alt (oneOf "/._:-") .atEnd])
      routeId ||
    test (cat [.alt .atStart (oneOf "/_-"), lit (js "k3"), .alt (oneOf "/._:-") .atEnd]) modelId ||
    test (cat [lit (js "minimax"), opt (oneOf "-_"), lit (js "m3"), wordEnd]) routeId

/-- `shouldParseTextualReasoningTags` without a provider. -/
def shouldParseTextualReasoningTags (model : JsString) : Bool :=
  let modelId := opts.toLowerCase model
  !isAntigravityReasoningRoute modelId && isTextualReasoningTagNativeRoute modelId

/-- `StreamFailurePayload`. -/
structure StreamFailure where
  status : Int
  message : JsString
  type : JsString
  code : JsString

def incompleteStreamFailure : StreamFailure where
  status := 502
  message := js "Upstream stream ended before a terminal event"
  type := js "server_error"
  code := js "upstream_protocol_error"

/-- A message item that has been added: `msgContentAdded`, `msgItemDone` and
`msgTextBuf` at its index. -/
structure Message where
  contentAdded : Bool := false
  itemDone : Bool := false
  textBuf : JsString := []

/-- A tool call by its index in the deltas: `toolCallLocalIndex`, `funcCallIds`,
`funcNames`, `funcArgsBuf`, `funcArgsEscapeState`, `funcItemAdded` and
`funcItemDone`.  A text that is not there is empty. -/
structure ToolCall where
  localIndex : Nat
  callId : JsString := []
  name : JsString := []
  argsBuf : JsString := []
  escapeState : EscapeState := {}
  itemAdded : Bool := false
  itemDone : Bool := false

/-- An entry of `completedOutputItems`. -/
structure CompletedItem where
  outputIndex : Nat
  item : OutputItem
  seq : Nat

/-- The state of `initState` with the fields that the translator adds.
`choiceFinished` is the state of the terminal tracker. -/
structure State where
  responseId : JsString
  created : Nat
  seq : Nat := 0
  started : Bool := false
  model : Option JsString := none
  messages : JsMap Nat Message := []
  reasoningId : JsString := []
  reasoningIndex : Int := -1
  reasoningBuf : JsString := []
  reasoningDone : Bool := false
  inThinking : Bool := false
  parseTextualReasoningTags : Bool := false
  toolCalls : JsMap Nat ToolCall := []
  toolCallLocalIndexNext : Nat := 0
  funcAllocatedOutputIndexes : List Nat := []
  completedOutputItems : List CompletedItem := []
  completedSent : Bool := false
  awaitingTrailingUsage : Bool := false
  sawExplicitDone : Bool := false
  choiceFinished : Bool := false
  sawGenerationTerminal : Bool := false
  finishReason : Option JsString := none
  usage : Option ResponsesUsage := none
  upstreamError : Option StreamFailure := none

/-- The state with the events of the chunk so far. -/
structure Acc where
  state : State
  events : List Emitted := []

def Acc.emit (a : Acc) (event : Event) : Acc where
  state := { a.state with seq := a.state.seq + 1 }
  events := a.events ++ [⟨a.state.seq + 1, event⟩]

def Acc.emitAll (a : Acc) (events : List Event) : Acc := events.foldl Acc.emit a

variable (s : State)

def closedStatus : ItemStatus :=
  if s.upstreamError.isSome then .incomplete else .completed

def normalizeOutputIndex (outputIndex : Int) : Nat := outputIndex.toNat

def recordCompletedItem (outputIndex : Int) (item : OutputItem) (a : Acc) : Acc :=
  { a with
    state := { a.state with
      completedOutputItems := a.state.completedOutputItems ++
        [⟨normalizeOutputIndex outputIndex, item, a.state.seq⟩] } }

/-- The comparison of `buildDenseOutput`. -/
def CompletedItem.before (left right : CompletedItem) : Prop :=
  left.outputIndex < right.outputIndex ∨
    (left.outputIndex = right.outputIndex ∧ left.seq ≤ right.seq)

instance : DecidableRel CompletedItem.before := fun left right =>
  inferInstanceAs (Decidable (left.outputIndex < right.outputIndex ∨
    (left.outputIndex = right.outputIndex ∧ left.seq ≤ right.seq)))

def buildDenseOutput : List OutputItem :=
  (s.completedOutputItems.insertionSort CompletedItem.before).map CompletedItem.item

/-! ## Reasoning -/

def startReasoning (idx : Nat) (a : Acc) : Acc :=
  if a.state.reasoningId.isEmpty then
    let reasoningId := js "rs_" ++ a.state.responseId ++ js "_" ++ JsString.ofNat idx
    { a with state := { a.state with reasoningId := reasoningId, reasoningIndex := idx } }.emitAll
      [.itemAdded idx (.reasoning reasoningId [] .inProgress),
        .progress .reasoningPartAdded reasoningId idx []]
  else a

def emitReasoningDelta (text : JsString) (a : Acc) : Acc :=
  if text.isEmpty then a
  else
    { a with state := { a.state with reasoningBuf := a.state.reasoningBuf ++ text } }.emit
      (.progress .reasoningTextDelta a.state.reasoningId a.state.reasoningIndex text)

def closeReasoning (a : Acc) : Acc :=
  if a.state.reasoningId.isEmpty || a.state.reasoningDone then a
  else
    let s := a.state
    let item := .reasoning s.reasoningId [s.reasoningBuf] (closedStatus s)
    recordCompletedItem s.reasoningIndex item
      ({ a with state := { s with reasoningDone := true } }.emitAll
        [.progress .reasoningTextDone s.reasoningId s.reasoningIndex s.reasoningBuf,
          .progress .reasoningPartDone s.reasoningId s.reasoningIndex s.reasoningBuf,
          .itemDone s.reasoningIndex item])

/-! ## Messages -/

def messageId (responseId : JsString) (idx : Nat) : JsString :=
  js "msg_" ++ responseId ++ js "_" ++ JsString.ofNat idx

/-- Where a message goes: after the reasoning, if there is one. -/
def messageIndex : Nat :=
  if s.reasoningId.isEmpty then 0 else normalizeOutputIndex s.reasoningIndex + 1

/-- The indexes that `nextFreeMessageIndex` passes over. -/
def claimedIndexes : List Nat :=
  JsMap.keys s.messages ++ s.funcAllocatedOutputIndexes ++
    if s.reasoningId.isEmpty then [] else [normalizeOutputIndex s.reasoningIndex]

/-- The loop of `nextFreeMessageIndex`. -/
def firstFree (claimed : List Nat) : Nat → Nat → Nat
  | 0, candidate => candidate
  | fuel + 1, candidate =>
      if claimed.contains candidate then firstFree claimed fuel (candidate + 1) else candidate

/-- `nextFreeMessageIndex`.  Every round passes over one of the claimed indexes, so
their number is enough fuel. -/
def nextFreeMessageIndex (requestedIdx : Nat) : Nat :=
  firstFree (claimedIndexes s) (claimedIndexes s).length requestedIdx

def addMessage (idx : Nat) (a : Acc) : Acc :=
  if JsMap.has idx a.state.messages then a
  else
    { a with state := { a.state with messages := JsMap.set idx {} a.state.messages } }.emit
      (.itemAdded idx (.message (messageId a.state.responseId idx) [] .inProgress))

def fillMessage (idx : Nat) (content : JsString) (a : Acc) : Acc :=
  match JsMap.get idx a.state.messages with
  | none => a
  | some message =>
      let id := messageId a.state.responseId idx
      let added : List Event :=
        if message.contentAdded then [] else [.progress .contentPartAdded id idx []]
      let filled := { message with contentAdded := true, textBuf := message.textBuf ++ content }
      { a with state := { a.state with messages := JsMap.set idx filled a.state.messages } }.emitAll
        (added ++ [Event.progress .outputTextDelta id idx content])

/-- `emitTextContent`.  Content after the end of a message goes to a new one. -/
def emitTextContent (idx : Nat) (content : JsString) (a : Acc) : Acc :=
  let isDone := ((JsMap.get idx a.state.messages).map Message.itemDone).getD false
  let idx := if isDone then nextFreeMessageIndex a.state idx else idx
  fillMessage idx content (addMessage idx a)

def closeMessage (a : Acc) (idx : Nat) : Acc :=
  match JsMap.get idx a.state.messages with
  | none => a
  | some message =>
      if message.itemDone then a
      else
        let id := messageId a.state.responseId idx
        let item := .message id [message.textBuf] (closedStatus a.state)
        let closed := { message with itemDone := true }
        recordCompletedItem idx item ({ a with
            state := { a.state with
              messages := JsMap.set idx closed a.state.messages } }.emitAll
            [.progress .outputTextDone id idx message.textBuf,
              .progress .contentPartDone id idx message.textBuf,
              .itemDone idx item])

/-! ## Tool calls -/

variable (opts : Options StreamFailure)

def toolCallOutputIndexBase : Nat :=
  if JsMap.has (messageIndex s) s.messages then messageIndex s + 1 else messageIndex s

/-- `resolveLocalToolCallIndex`.  The first fragment of a call makes its entry. -/
def resolveLocalToolCallIndex (tcIdx : Nat) (s : State) : ToolCall × State :=
  match JsMap.get tcIdx s.toolCalls with
  | some call => (call, s)
  | none =>
      let call := { localIndex := s.toolCallLocalIndexNext }
      (call, { s with
        toolCalls := JsMap.set tcIdx call s.toolCalls
        toolCallLocalIndexNext := s.toolCallLocalIndexNext + 1 })

def toolItemId (callId : JsString) : JsString := js "fc_" ++ callId

/-- `buildResponsesToolCallItem` with the identity of the tool. -/
def addedToolItem (call : ToolCall) : ToolItem :=
  let identity := resolveRequestToolIdentity opts call.name
  { custom := isCustomTool opts call.name
    id := toolItemId call.callId
    callId := call.callId
    name := (identity.map ToolIdentity.name).getD call.name
    toolNamespace := identity.map ToolIdentity.toolNamespace
    text := []
    status := .inProgress }

/-- What a custom tool gets: the `input` of the arguments, or the arguments. -/
def customInput (args : JsString) : JsString :=
  (((opts.codec.parse args).bind (Json.get? (js "input"))).bind Json.str?).getD args

def closedToolItem (status : ItemStatus) (call : ToolCall) : ToolItem :=
  let custom := isCustomTool opts call.name
  let args := if call.argsBuf.isEmpty then js "\x7b\x7d" else call.argsBuf
  let identity := resolveRequestToolIdentity opts call.name
  { custom := custom
    id := toolItemId call.callId
    callId := call.callId
    name := (identity.map ToolIdentity.name).getD call.name
    toolNamespace := identity.map ToolIdentity.toolNamespace
    text := if custom then customInput opts args else args
    status := status
    plaintextMarker := !custom && plaintextCollaborationFields identity }

def closingEvents (outputIndex : Nat) (item : ToolItem) : List Event :=
  (if item.custom then
    [.progress .customInputDelta item.id outputIndex item.text,
      .progress .customInputDone item.id outputIndex item.text]
  else [.progress .argumentsDone item.id outputIndex item.text]) ++
    [.itemDone outputIndex (.toolCall item)]

def closeToolCall (recordAsCompleted : Bool) (a : Acc) (tcIdx : Nat) : Acc :=
  match JsMap.get tcIdx a.state.toolCalls with
  | none => a
  | some call =>
      if call.callId.isEmpty || call.itemDone then a
      else
        let outputIndex := toolCallOutputIndexBase a.state + call.localIndex
        let item := closedToolItem opts (closedStatus a.state) call
        let closed := { call with itemDone := true }
        let a := a.emitAll (closingEvents outputIndex item)
        let a := if recordAsCompleted then recordCompletedItem outputIndex (.toolCall item) a else a
        { a with state := { a.state with toolCalls := JsMap.set tcIdx closed a.state.toolCalls } }

/-- A call whose id changes ends, and a new one takes its place. -/
def supersede (fragment : ToolCallFragment) (tcIdx : Nat) (call : ToolCall) (a : Acc) :
    ToolCall × Acc :=
  match presentId fragment.id with
  | some newCallId =>
      if call.callId.isEmpty || call.callId == newCallId then (call, a)
      else
        let fresh := { localIndex := call.localIndex }
        let a := closeToolCall opts false a tcIdx
        (fresh,
          { a with state := { a.state with toolCalls := JsMap.set tcIdx fresh a.state.toolCalls } })
  | none => (call, a)

def identifyCall (fragment : ToolCallFragment) (call : ToolCall) : ToolCall :=
  { call with
    name := (presentId fragment.name).getD call.name
    callId := if call.callId.isEmpty then (presentId fragment.id).getD [] else call.callId }

/-- A call is added once it has an id and a name. -/
def addWhenReady (outputIndex : Nat) (call : ToolCall) : List Event × ToolCall :=
  if call.callId.isEmpty || call.name.isEmpty || call.itemAdded then ([], call)
  else
    let item := addedToolItem opts call
    (.itemAdded outputIndex (.toolCall item) :: (if call.argsBuf.isEmpty || item.custom then []
      else [.progress .argumentsDelta item.id outputIndex call.argsBuf]),
      { call with itemAdded := true })

def appendArguments (outputIndex : Nat) (fragment : ToolCallFragment) (call : ToolCall) :
    List Event × ToolCall :=
  match fragment.arguments.filter Json.truthy with
  | none => ([], call)
  | some arguments =>
      let (sanitized, escapeState) :=
        escapeJsonStringValues (fixDoubleEscapedTabs opts arguments) call.escapeState
      let nextArgs := appendToolCallArgumentDelta opts.codec call.argsBuf (.str sanitized)
      let emittedDelta := nextArgs.drop call.argsBuf.length
      (if call.callId.isEmpty || emittedDelta.isEmpty || isCustomTool opts call.name ||
          !call.itemAdded then []
        else [.progress .argumentsDelta (toolItemId call.callId) outputIndex emittedDelta],
        { call with argsBuf := nextArgs, escapeState := escapeState })

def emitToolCall (a : Acc) (fragment : ToolCallFragment) : Acc :=
  let tcIdx := fragment.index.getD 0
  let (call, s) := resolveLocalToolCallIndex tcIdx a.state
  let outputIndex := toolCallOutputIndexBase s + call.localIndex
  let a := { a with
    state := { s with
      funcAllocatedOutputIndexes := outputIndex :: s.funcAllocatedOutputIndexes } }
  let (call, a) := supersede opts fragment tcIdx call a
  let (added, call) := addWhenReady opts outputIndex (identifyCall fragment call)
  let (appended, call) := appendArguments opts outputIndex fragment call
  { a with state := { a.state with toolCalls := JsMap.set tcIdx call a.state.toolCalls } }.emitAll
    (added ++ appended)

/-! ## The end -/

def finalizeResponsesTerminalStatus (finishReason : Option JsString) (hasUpstreamError : Bool) :
    TerminalType × Option IncompleteDetails :=
  if hasUpstreamError then (.failed, none)
  else if finishReason = some (js "pause_turn") then (.incomplete, some .noReason)
  else if finishReason = some (js "length") then (.incomplete, some .maxOutputTokens)
  else if finishReason = some (js "content_filter") then (.incomplete, some .contentFilter)
  else (.completed, none)

def sendCompleted (a : Acc) : Acc :=
  if a.state.completedSent then a
  else
    let s := a.state
    let (type, incompleteDetails) :=
      finalizeResponsesTerminalStatus s.finishReason s.upstreamError.isSome
    { a with state := { s with completedSent := true } }.emit (.terminal type
        { id := s.responseId
          createdAt := s.created
          error := s.upstreamError.map opts.projectError
          output := buildDenseOutput s
          model := s.model
          usage := s.usage
          incompleteDetails := incompleteDetails })

/-- The items that are still open end: the messages, the reasoning and the tool
calls, each kind by ascending index. -/
def closeAll (a : Acc) : Acc :=
  let a := ((JsMap.keys a.state.messages).insertionSort (· ≤ ·)).foldl closeMessage a
  let a := closeReasoning a
  ((JsMap.keys a.state.toolCalls).insertionSort (· ≤ ·)).foldl (closeToolCall opts true) a

def flushEvents (s : State) : Acc :=
  if s.completedSent then { state := s }
  else
    let s :=
      if s.sawGenerationTerminal || s.sawExplicitDone || s.upstreamError.isSome then s
      else { s with upstreamError := some incompleteStreamFailure }
    sendCompleted opts (closeAll opts { state := s })

/-! ## Chunks -/

def responsesUsage (usage : IncomingUsage) : ResponsesUsage :=
  let inputTokens := (usage.inputTokens.orElse fun _ => usage.promptTokens).getD 0
  let outputTokens := (usage.outputTokens.orElse fun _ => usage.completionTokens).getD 0
  let cachedTokens := (usage.inputCachedTokens.orElse fun _ => usage.cachedTokens).getD 0
  let cacheCreationTokens :=
    (usage.cacheCreationInputTokens.orElse fun _ => usage.cacheCreationTokens).orElse
      fun _ => usage.cacheWriteTokens
  { inputTokens := inputTokens
    cachedTokens := cachedTokens
    cacheCreationTokens := cacheCreationTokens.filter (· != 0)
    outputTokens := outputTokens
    reasoningTokens :=
      (usage.outputReasoningTokens.orElse fun _ => usage.completionReasoningTokens).getD 0
    totalTokens := usage.totalTokens.getD (inputTokens + outputTokens) }

def upstreamFailure (error : IncomingError) : StreamFailure :=
  let status := (error.code.filter fun code => decide (400 ≤ code) && decide (code ≤ 599)).getD 502
  { status := status
    type := if status = 429 then js "rate_limit_error" else js "server_error"
    code := error.errorType.getD
      (if status = 429 then js "rate_limit_exceeded" else js "bad_gateway")
    message := error.message.getD (js "Upstream failure") }

variable (chunk : IncomingChunk)

/-- The terminal tracker and the usage of a chunk.  There is one choice, so that a
tracker for more choices never ends. -/
def trackChunk (s : State) : State :=
  let finished := s.choiceFinished || (presentId (chunk.choice.bind Choice.finishReason)).isSome
  let expected := (opts.expectedChoices.filter (0 < ·)).getD 1
  { s with
    choiceFinished := finished
    sawGenerationTerminal := s.sawGenerationTerminal || (finished && decide (expected ≤ 1))
    usage := (chunk.usage.map responsesUsage).orElse fun _ => s.usage }

/-- What a choice reads off its chunk: whether the model writes `<think>` tags, and
the model of the response. -/
def readModel (s : State) : State :=
  { s with
    parseTextualReasoningTags := s.parseTextualReasoningTags ||
      (chunk.model.map (shouldParseTextualReasoningTags opts)).getD false
    model := s.model.orElse fun _ => presentId (chunk.model.map JsString.trim) }

def responseIdOf (s : State) : JsString :=
  match presentId chunk.id with
  | some id => js "resp_" ++ id
  | none => s.responseId

/-- The first two events of a response. -/
def startResponse (s : State) : Acc :=
  if s.started then { state := s }
  else
    let responseId := responseIdOf chunk s
    let response := ⟨responseId, s.created, s.model⟩
    Acc.emitAll { state := { s with started := true, responseId := responseId } }
      [.created response, .inProgress response]

variable (delta : IncomingDelta)

/-- `getReadableReasoningValue`; the empty text when there is none. -/
def readableReasoning : JsString :=
  ((presentId delta.reasoningContent).orElse fun _ => presentId delta.reasoning).getD []

def onReasoning (a : Acc) : Acc :=
  let reasoning := readableReasoning delta
  if reasoning.isEmpty || isInternalReasoningPlaceholder reasoning then a
  else emitReasoningDelta reasoning (startReasoning 0 a)

def thinkOpen : JsString := js "<think>"

def thinkClose : JsString := js "</think>"

/-- What the tags make of a content: whether reasoning starts, the reasoning before
a closing tag, whether the content goes on as reasoning, and the content. -/
structure TagSplit where
  starts : Bool
  thinkPart : Option JsString
  inThinking : Bool
  content : JsString

def splitTags (inThinking : Bool) (content : JsString) : TagSplit :=
  let starts := content.includes thinkOpen
  let content := if starts then content.replaceAll thinkOpen [] else content
  match JsString.indexOf thinkClose content with
  | some i => ⟨starts, some (content.take i), false, content.drop (i + thinkClose.length)⟩
  | none => ⟨starts, none, inThinking || starts, content⟩

/-- The content of a model that writes `<think>` tags.  The result says whether the
rest of the delta is left out: that is so while the reasoning goes on. -/
def onTaggedContent (content : JsString) (a : Acc) : Acc × JsString × Bool :=
  let split := splitTags a.state.inThinking content
  let a := { a with state := { a.state with inThinking := split.inThinking } }
  let a := if split.starts then startReasoning 0 a else a
  let a :=
    match split.thinkPart with
    | some thinkPart => closeReasoning (emitReasoningDelta thinkPart a)
    | none => a
  if split.inThinking && !split.content.isEmpty then
    (emitReasoningDelta split.content a, [], true)
  else (a, split.content, false)

/-- The text of a delta, after the tags were taken out. -/
def onText (content : JsString) (a : Acc) : Acc :=
  if content.isEmpty then a else emitTextContent (messageIndex a.state) content a

/-- Content ends the reasoning, except inside of a `<think>` tag. -/
def endReasoning (a : Acc) : Acc :=
  if a.state.parseTextualReasoningTags && a.state.inThinking then a else closeReasoning a

/-- The content of a delta, and whether the rest of the delta is left out. -/
def onContent (a : Acc) : Acc × Bool :=
  let content := stripInternalReasoningPlaceholder (delta.content.getD [])
  if content.isEmpty then (a, false)
  else
    let a := endReasoning a
    let (a, content, isCut) :=
      if a.state.parseTextualReasoningTags then onTaggedContent content a else (a, content, false)
    (onText content a, isCut)

def onToolCalls (a : Acc) : Acc :=
  if delta.toolCalls.isEmpty then a
  else
    let a := closeReasoning a
    delta.toolCalls.foldl (emitToolCall opts) (closeMessage a (messageIndex a.state))

def onFinish (choice : Choice) (a : Acc) : Acc :=
  match presentId choice.finishReason with
  | none => a
  | some reason =>
      let a := { a with state := { a.state with finishReason := some reason } }
      if a.state.sawGenerationTerminal then
        let a := closeAll opts a
        if a.state.usage.isSome then sendCompleted opts a
        else { a with state := { a.state with awaitingTrailingUsage := true } }
      else a

def onChoice (choice : Choice) (s : State) : Acc :=
  let a := onReasoning choice.delta (startResponse chunk (readModel opts chunk s))
  let (a, isCut) := onContent choice.delta a
  if isCut then a else onFinish opts choice (onToolCalls opts choice.delta a)

def onNoChoice (s : State) : Acc :=
  match chunk.error with
  | some error => { state := { s with upstreamError := some (upstreamFailure error) } }
  | none => if s.awaitingTrailingUsage then sendCompleted opts { state := s } else { state := s }

/-- `openaiToOpenAIResponsesResponse`.  The flush has no chunk. -/
def openaiToOpenAIResponsesResponse (chunk : Option IncomingChunk) (s : State) : Acc :=
  match chunk with
  | none => flushEvents opts s
  | some chunk =>
      if s.completedSent then { state := s }
      else if chunk.done then flushEvents opts { s with sawExplicitDone := true }
      else
        let s := trackChunk opts chunk s
        match chunk.choice with
        | some choice => onChoice opts chunk choice s
        | none => onNoChoice opts chunk s

/-- `initState` for the Responses format. -/
def initState (nowMs : Nat) : State where
  responseId := js "resp_" ++ JsString.ofNat nowMs
  created := nowMs / 1000

def translate : List (Option IncomingChunk) → State → List Emitted × State
  | [], s => ([], s)
  | chunk :: chunks, s =>
      let a := openaiToOpenAIResponsesResponse opts chunk s
      let (rest, s) := translate chunks a.state
      (a.events ++ rest, s)

end RedRouter.Response.OpenaiToResponses
