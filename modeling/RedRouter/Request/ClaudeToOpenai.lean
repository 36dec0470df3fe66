import RedRouter.Chat.Message
import RedRouter.Lib.JsMap

/-!
# Claude requests as OpenAI chat requests

The model of the `messages` of `claudeToOpenAIRequest` in
`translator/request/claude-to-openai.ts`.  The other fields of the request
(sampling parameters, tools, tool choice, reasoning effort) are computed
from other fields of the body and do not read or write a message, so they are
left out.

The messages go through four passes:

* `systemMessages` and `appendInstruction` build the system message;
* `convertClaudeMessage` turns one Claude message into its chat messages;
* `regroupToolMessages` moves every tool message behind the assistant message
  that issued its call, and drops the ones that no assistant message issued;
* `fixMissingToolResponses` fills in a placeholder for every call that is
  still unanswered.
-/

namespace RedRouter.Request.ClaudeToOpenai

open Chat

/-! ## Claude messages -/

/-- The source of an image block. -/
inductive ImageSource where
  | base64 (mediaType data : JsString)
  | url (url : JsString)
  | other

/-- One element of an array content of a `tool_result` block. -/
inductive ResultPart where
  | text (text : JsString)
  | image (source : ImageSource)
  | other

/-- The content of a `tool_result` block.  The `raw` value of an array content
is the same array as a JSON value, which is only printed. -/
inductive ResultContent where
  | absent
  | str (s : JsString)
  | parts (ps : List ResultPart) (raw : Json)
  | other (value : Json)

inductive Block where
  | text (text : JsString) (cacheControl : Option Json)
  | image (source : ImageSource)
  | thinking (thinking text : Option JsString)
  | redactedThinking
  | toolUse (id : Option JsString) (name : JsString) (input : Option Json)
  | toolResult (toolUseId : Option JsString) (content : ResultContent)
  | other

inductive ClaudeContent where
  | str (s : JsString)
  | blocks (bs : List Block)
  | other

structure ClaudeMessage where
  role : Role
  content : ClaudeContent

/-- An element of an array `system` prompt. -/
inductive SystemBlock where
  | str (s : JsString)
  | block (text : Option JsString) (cacheControl : Option Json)

inductive SystemPrompt where
  | str (s : JsString)
  | blocks (bs : List SystemBlock)

structure Body where
  system : Option SystemPrompt
  messages : Option (List ClaudeMessage)

/-- What the request translator reads besides the body: the credentials'
flags and the trimmed `OMNIROUTE_SYSTEM_INSTRUCTION_APPEND`, empty when it is
not set. -/
structure Options where
  preserveCacheControl : Bool
  ensureUserTurn : Bool
  systemAppend : JsString

/-! ## The system message -/

/-- The ASCII lower case of a code unit. -/
def asciiLower (c : UInt16) : UInt16 := if 65 ≤ c && c ≤ 90 then c + 32 else c

/-- `x-anthropic-billing-header:` -/
def billingHeader : JsString := js "x-anthropic-billing-header:"

/-- Drop a leading billing header line, with its line end.  The greedy
`[^\n]*` of the source's pattern takes a carriage return along, so the line
end is the first line feed. -/
def stripAnthropicBillingHeader (text : JsString) : JsString :=
  if billingHeader.isPrefixOf (text.map asciiLower) then
    ((text.drop billingHeader.length).dropWhile (· != unit '\n')).drop 1
  else text

def SystemBlock.cacheControl : SystemBlock → Option Json
  | .str _ => none
  | .block _ cc => cc

/-- A system block that keeps its array shape. -/
def systemPart : SystemBlock → Part
  | .str s => .text (stripAnthropicBillingHeader s) none
  | .block text cc => .text (stripAnthropicBillingHeader (text.getD [])) cc

/-- The text of a system block that is joined into one string.  A string
element has no `text` property. -/
def systemText : SystemBlock → JsString
  | .str _ => stripAnthropicBillingHeader []
  | .block text _ => stripAnthropicBillingHeader (text.getD [])

/-- The content of the system message, if one is pushed. -/
def systemContent (preserveCacheControl : Bool) : SystemPrompt → Option Content
  | .str s =>
      let text := stripAnthropicBillingHeader s
      if text.isEmpty then none else some (.str text)
  | .blocks bs =>
      if preserveCacheControl && bs.any (fun b => b.cacheControl.isSome) then
        some (.parts (bs.map systemPart))
      else
        let text := JsString.join (js "\n") ((bs.map systemText).filter (fun t => !t.isEmpty))
        if text.isEmpty then none else some (.str text)

/-- The system message of the body.  An empty string is a falsy `system`. -/
def systemMessages (preserveCacheControl : Bool) (system : Option SystemPrompt) : List Message :=
  match system with
  | none => []
  | some (.str []) => []
  | some prompt =>
      match systemContent preserveCacheControl prompt with
      | none => []
      | some content => [{ role := .system, content := content }]

/-- The content of the system message with the operator's instruction at its
end. -/
def appendToContent (systemAppend : JsString) : Content → Content
  | .str s => .str (s ++ js "\n\n" ++ systemAppend)
  | .parts ps => .parts (ps ++ [.text systemAppend none])
  | .absent => .str systemAppend

/-- Append the operator's instruction to the first system message, or make
one. -/
def appendInstruction (systemAppend : JsString) (messages : List Message) : List Message :=
  if systemAppend.isEmpty then messages
  else
    match messages.findIdx? (fun m => m.role = .system) with
    | some i =>
        messages.modify i (fun m => { m with content := appendToContent systemAppend m.content })
    | none => { role := .system, content := .str systemAppend } :: messages

/-! ## One message -/

/-- The `image_url` of an image block. -/
def imageUrl : ImageSource → Option JsString
  | .base64 mediaType data => some (js "data:" ++ mediaType ++ js ";base64," ++ data)
  | .url url => some url
  | .other => none

/-- The `image_url` of an image inside a `tool_result`: an empty URL is
skipped there. -/
def resultImageUrl : ImageSource → Option JsString
  | .url [] => none
  | source => imageUrl source

def ResultPart.text? : ResultPart → Option JsString
  | .text t => some t
  | _ => none

def ResultPart.imagePart? : ResultPart → Option Part
  | .image source => (resultImageUrl source).map .imageUrl
  | _ => none

/-- The images that a `tool_result` lifts out into the user turn. -/
def resultImages : ResultContent → List Part
  | .parts ps _ => ps.filterMap ResultPart.imagePart?
  | _ => []

variable (codec : JsonCodec)

/-- The text of the tool message of a `tool_result`. -/
def resultContent : ResultContent → JsString
  | .absent => []
  | .str s => s
  | .parts ps raw =>
      let text := JsString.join (js "\n") (ps.filterMap ResultPart.text?)
      if text.isEmpty then
        if (ps.filterMap ResultPart.imagePart?).isEmpty then codec.stringify raw
        else js "[tool returned an image; see attached]"
      else text
  | .other value => if value.truthy then codec.stringify value else []

/-- The arguments string of a `tool_use` block. -/
def toolArguments (input : Option Json) : JsString :=
  match input with
  | some (.str s) => s
  | some v => if v.truthy then codec.stringify v else codec.stringify (.obj [])
  | none => codec.stringify (.obj [])

/-- What the loop over the blocks of a message has collected. -/
structure Collected where
  parts : List Part := []
  toolCalls : List ToolCall := []
  toolResults : List Message := []
  reasoningContent : Option JsString := none

/-- `a || b || ""` on two strings that may be missing. -/
def firstText (a b : Option JsString) : JsString :=
  ((presentId a).orElse fun _ => presentId b).getD []

/-- One round of the loop over the blocks. -/
def collectBlock (preserveCacheControl : Bool) (acc : Collected) : Block → Collected
  | .text text cc =>
      { acc with parts := acc.parts ++ [.text text (if preserveCacheControl then cc else none)] }
  | .image source => { acc with parts := acc.parts ++ ((imageUrl source).map Part.imageUrl).toList }
  | .thinking thinking text => { acc with reasoningContent := some (firstText thinking text) }
  | .redactedThinking => { acc with reasoningContent := some (acc.reasoningContent.getD []) }
  | .toolUse id name input =>
      { acc with toolCalls := acc.toolCalls ++ [⟨id, name, toolArguments codec input⟩] }
  | .toolResult toolUseId content =>
      { acc with
        parts := acc.parts ++ resultImages content
        toolResults := acc.toolResults ++
          [{ role := .tool, toolCallId := toolUseId,
             content := .str (resultContent codec content) }] }
  | .other => acc

def contentOfParts : List Part → Content
  | [.text text _] => .str text
  | ps => .parts ps

def convertRole : Role → Role
  | .user => .user
  | .tool => .user
  | .system => .system
  | _ => .assistant

def emitCollected (role : Role) (noBlocks : Bool) (acc : Collected) : List Message :=
  let reasoning := if role = .assistant then acc.reasoningContent else none
  if !acc.toolResults.isEmpty then
    if acc.parts.isEmpty then acc.toolResults
    else acc.toolResults ++ [{ role := .user, content := contentOfParts acc.parts }]
  else if !acc.toolCalls.isEmpty then
    [{ role := .assistant
       content := if acc.parts.isEmpty then .absent else contentOfParts acc.parts
       toolCalls := some acc.toolCalls
       reasoningContent := acc.reasoningContent }]
  else if !acc.parts.isEmpty then
    [{ role := role, content := contentOfParts acc.parts, reasoningContent := reasoning }]
  else if noBlocks then
    [{ role := role, content := .str [], reasoningContent := reasoning }]
  else if reasoning.isSome then
    [{ role := role, content := .str [], reasoningContent := reasoning }]
  else []

/-- The chat messages of one Claude message; none for the source's `null`. -/
def convertClaudeMessage (preserveCacheControl : Bool) (msg : ClaudeMessage) : List Message :=
  let role := convertRole msg.role
  match msg.content with
  | .str s => [{ role := role, content := .str s }]
  | .blocks bs =>
      emitCollected role bs.isEmpty (bs.foldl (collectBlock codec preserveCacheControl) {})
  | .other => []

/-- A system turn that is not the first message becomes a user turn. -/
def demoteMidSystem (result : List Message) (out : Message) : Message :=
  if out.role = .system ∧ result ≠ [] then { out with role := .user } else out

/-- One round of the conversion loop. -/
def pushConverted (preserveCacheControl : Bool) (result : List Message)
    (msg : ClaudeMessage) : List Message :=
  result ++ (convertClaudeMessage codec preserveCacheControl msg).map (demoteMidSystem result)

/-- The messages before the two tool passes. -/
def convertedMessages (opts : Options) (body : Body) : List Message :=
  (body.messages.getD []).foldl (pushConverted codec opts.preserveCacheControl)
    (appendInstruction opts.systemAppend (systemMessages opts.preserveCacheControl body.system))

/-! ## The tool passes -/

def callsOf (msg : Message) : List ToolCall :=
  if msg.role = .assistant then msg.toolCalls.getD [] else []

/-- Note one call of the assistant message at `idx`: the first issuer of an id
wins. -/
def noteCall (idx : Nat) (issuers : JsMap JsString Nat) (tc : ToolCall) : JsMap JsString Nat :=
  match presentId tc.id with
  | some id => if issuers.has id then issuers else issuers.set id idx
  | none => issuers

variable (messages : List Message)

/-- `callIdToAssistant`: the index of the assistant message that issued an id
first. -/
def callIdToAssistant : JsMap JsString Nat :=
  messages.zipIdx.foldl (fun issuers entry => (callsOf entry.1).foldl (noteCall entry.2) issuers) []

/-- Note one tool message: the first result of an id wins, and a result of an
unknown id is dropped. -/
def noteResult (issuers : JsMap JsString Nat) (groups : JsMap Nat (JsMap JsString Message))
    (msg : Message) : JsMap Nat (JsMap JsString Message) :=
  if msg.role = .tool then
    let callId := msg.toolCallId.getD []
    match issuers.get callId with
    | none => groups
    | some assistantIdx =>
        let group := (groups.get assistantIdx).getD []
        groups.set assistantIdx (if group.has callId then group else group.set callId msg)
  else groups

/-- `toolsByAssistant`: the results of every assistant message. -/
def toolsByAssistant : JsMap Nat (JsMap JsString Message) :=
  messages.foldl (noteResult (callIdToAssistant messages)) []

/-- The results of the message at `idx`, in the order of its calls. -/
def groupOf (groups : JsMap Nat (JsMap JsString Message)) (idx : Nat) (msg : Message) :
    List Message :=
  (callsOf msg).filterMap fun tc =>
    (presentId tc.id).bind fun id => (groups.get idx).bind (JsMap.get id)

/-- Put every tool message behind the assistant message that issued its call
first, and drop the other tool messages. -/
def regroupToolMessages : List Message :=
  messages.zipIdx.flatMap fun entry =>
    if entry.1.role = .tool then []
    else entry.1 :: groupOf (toolsByAssistant messages) entry.2 entry.1

/-- A tool message with an id: what counts as a response right after a call. -/
def isResponse (msg : Message) : Bool :=
  msg.role = .tool && (presentId msg.toolCallId).isSome

/-- The placeholder for a call without a response. -/
def placeholder (id : Option JsString) : Message :=
  { role := .tool, toolCallId := id, content := .str (js "[No response received]") }

/-- The placeholders of the calls that `responses` leave unanswered. -/
def missingResponses (calls : List ToolCall) (responses : List Message) : List Message :=
  ((calls.map ToolCall.id).filter
    (fun id => !(responses.map Message.toolCallId).contains id)).map placeholder

/-- Insert a placeholder for every call that the messages right after it do
not answer.  The loop of the source goes on behind the responses; those are
tool messages, and it leaves tool messages alone. -/
def fixMissingToolResponses : List Message → List Message
  | [] => []
  | msg :: rest =>
      let calls := callsOf msg
      if calls.isEmpty then msg :: fixMissingToolResponses rest
      else
        let responses := rest.takeWhile isResponse
        msg :: (responses ++ (missingResponses calls responses ++
          fixMissingToolResponses (rest.dropWhile isResponse)))
  termination_by messages => messages.length
  decreasing_by
    · simp
    · simp only [List.length_cons]
      have := (List.dropWhile_sublist isResponse (l := rest)).length_le
      omega

/-- A request without a user turn gets one at its end, when the upstream
insists on it. -/
def ensureUserTurn (enabled : Bool) (messages : List Message) : List Message :=
  if enabled && !messages.any (fun m => m.role = .user) then
    messages ++ [{ role := .user, content := .str (js "(continue)") }]
  else messages

/-- The messages of `claudeToOpenAIRequest`. -/
def claudeToOpenAIRequest (opts : Options) (body : Body) : List Message :=
  ensureUserTurn opts.ensureUserTurn
    (fixMissingToolResponses (regroupToolMessages (convertedMessages codec opts body)))

end RedRouter.Request.ClaudeToOpenai
