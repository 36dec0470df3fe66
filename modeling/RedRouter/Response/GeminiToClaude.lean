import RedRouter.Chat.Message
import RedRouter.Response.ClaudeStream
import RedRouter.Response.MarkdownBoundary
import RedRouter.Response.ToolNames
import RedRouter.Response.XmlInvoke

/-!
# Gemini streams as Claude streams

The model of `geminiToClaudeResponse` in
`translator/response/gemini-to-claude.ts`: one chunk at a time, with the state
between the chunks.  The functions push on the results of the chunk as the
source does.

A result of `none` is a `TypeError`, after which the events of the chunk are
lost.  The stored thought signatures are kept as a list of tool ids with
their signatures.
-/

namespace RedRouter.Response.GeminiToClaude

open MarkdownBoundary XmlInvoke

structure FunctionCall where
  id : Option JsString := none
  /-- The name, when it is a string. -/
  name : Option JsString := none
  args : Option Json := none

structure Part where
  text : Option JsString := none
  thought : Bool := false
  thoughtSignature : Option JsString := none
  functionCall : Option FunctionCall := none

structure Candidate where
  parts : List Part := []
  finishReason : Option JsString := none

/-- The token counts of a `usageMetadata`; a field that is not a number is
missing. -/
structure UsageMetadata where
  promptTokenCount : Option Nat := none
  candidatesTokenCount : Option Nat := none
  thoughtsTokenCount : Option Nat := none
  cachedContentTokenCount : Option Nat := none

structure Chunk where
  responseId : Option JsString := none
  modelVersion : Option JsString := none
  candidate : Option Candidate := none
  usage : Option UsageMetadata := none

/-- What does not change during a stream. -/
structure Options where
  codec : JsonCodec
  names : NameContext

structure State where
  messageId : Option JsString := none
  model : JsString := []
  contentBlockIndex : Nat := 0
  openTextBlockIdx : Option Nat := none
  markdownBuffer : JsString := []
  markdown : BacktickState := {}
  xmlInvokeBuffer : JsString := []
  pendingThoughtSignature : Option JsString := none
  storedSignatures : List (JsString × JsString) := []
  hasToolUse : Bool := false
  usage : Option ClaudeStreamUsage := none

/-- The state with the results of the chunk so far. -/
structure Acc where
  state : State
  results : List ClaudeEvent := []

def Acc.push (a : Acc) (event : ClaudeEvent) : Acc := { a with results := a.results ++ [event] }

/-- `message_start` at the first candidate. -/
def startMessage (nowMs : Nat) (chunk : Chunk) (s : State) : Acc :=
  match s.messageId with
  | some _ => { state := s }
  | none =>
      let id := (Chat.presentId chunk.responseId).getD (js "msg_" ++ JsString.ofNat nowMs)
      let model := (Chat.presentId chunk.modelVersion).getD (js "gemini")
      Acc.push
        { state := { s with
            messageId := some id
            model := model
            contentBlockIndex := 0
            openTextBlockIdx := none
            markdownBuffer := []
            markdown := {} } }
        (.messageStart id model)

/-! ## Text -/

def openText (a : Acc) : Nat × Acc :=
  match a.state.openTextBlockIdx with
  | some index => (index, a)
  | none =>
      let index := a.state.contentBlockIndex
      (index,
        Acc.push
          { a with
            state := { a.state with
              contentBlockIndex := index + 1
              openTextBlockIdx := some index } }
          (.blockStart index .text))

/-- A text delta in the open text block. -/
def emitText (text : JsString) (a : Acc) : Acc :=
  let (index, a) := openText a
  a.push (.blockDelta index (.text text))

def flushMarkdownBuffer (a : Acc) : Acc :=
  let buffered := a.state.markdownBuffer
  let a := { a with state := { a.state with markdown := {} } }
  if buffered.isEmpty then a
  else emitText buffered { a with state := { a.state with markdownBuffer := [] } }

/-- The open text block is flushed and closed. -/
def closeText (a : Acc) : Acc :=
  let a := flushMarkdownBuffer a
  match a.state.openTextBlockIdx with
  | some index =>
      Acc.push { a with state := { a.state with openTextBlockIdx := none } } (.blockStop index)
  | none => a

/-! ## Parts -/

def emitBlock (block : ClaudeBlock) (delta : ClaudeDelta) (a : Acc) : Acc :=
  let index := a.state.contentBlockIndex
  ((Acc.push { a with state := { a.state with contentBlockIndex := index + 1 } }
    (.blockStart index block)).push (.blockDelta index delta)).push (.blockStop index)

/-- The signature of a part, or else the pending one, is stored for a tool call. -/
def storeSignature (signature : Option JsString) (toolId : JsString) (s : State) : State :=
  match signature.orElse fun _ => Chat.presentId s.pendingThoughtSignature with
  | some signature =>
      { s with
        storedSignatures := s.storedSignatures ++ [(toolId, signature)]
        pendingThoughtSignature := none }
  | none => s

def emitToolUse (codec : JsonCodec) (signature : Option JsString) (toolId name : JsString)
    (args : Json) (a : Acc) : Acc :=
  let a := { a with
    state := { storeSignature signature toolId a.state with hasToolUse := true } }
  emitBlock (.toolUse toolId name (.obj [])) (.inputJson (codec.stringify args)) a

/-- `args || {}`. -/
def argsOrEmpty (args : Option Json) : Json :=
  match args with
  | some value => if value.truthy then value else .obj []
  | none => .obj []

variable (opts : Options)

/-- A `functionCall` part. -/
def onFunctionCall (nowMs : Nat) (signature : Option JsString) (fc : FunctionCall)
    (a : Acc) : Acc :=
  let a := closeText a
  let name := restoreClaudeToolName opts.names (fc.name.getD [])
  let index := a.state.contentBlockIndex
  let toolId := (Chat.presentId fc.id).getD
    (js "toolu_" ++ JsString.ofNat nowMs ++ js "_" ++ JsString.ofNat index)
  emitToolUse opts.codec signature toolId name (argsOrEmpty fc.args) a

def emitTextToolCalls (opts : Options) (signature : Option JsString) :
    List TextToolCall → Acc → Option Acc
  | [], a => some a
  | call :: calls, a => do
      let name ← restoreTextToolName opts.names call.name
      emitTextToolCalls opts signature calls
        (emitToolUse opts.codec signature call.id name (argsOrEmpty (some call.args)) a)

/-- The visible text, up to a suffix that is kept back. -/
def emitCleaned (cleaned : JsString) (a : Acc) : Acc :=
  if cleaned.isEmpty then a
  else
    let split := splitMarkdownBoundary (a.state.markdownBuffer ++ cleaned) a.state.markdown
    let a := { a with
      state := { a.state with markdownBuffer := split.hold, markdown := split.state } }
    if split.emit.isEmpty then a else emitText split.emit a

def onText (nowMs : Nat) (signature : Option JsString) (text : JsString)
    (a : Acc) : Option Acc := do
  let extracted := extractXmlInvokeBlocks opts.codec nowMs a.state.xmlInvokeBuffer text
  let a := { a with state := { a.state with xmlInvokeBuffer := extracted.buffer } }
  let a := if extracted.toolCalls.isEmpty then a else closeText a
  let a ← emitTextToolCalls opts signature extracted.toolCalls a
  return emitCleaned extracted.cleaned a

/-- What the source does with a part. -/
inductive PartKind where
  | thinking (text : JsString)
  /-- A signature alone, or nothing. -/
  | silent
  | functionCall (fc : FunctionCall)
  | text (text : JsString)

/-- The branches of the loop over the parts.  A text that is there is visible
text with or without a signature. -/
def partKind (part : Part) : PartKind :=
  match part.thought, Chat.presentId part.text, part.functionCall with
  | true, some text, _ => .thinking text
  | _, _, some fc => .functionCall fc
  | _, some text, none => .text text
  | _, none, none => .silent

def onPart (nowMs : Nat) (part : Part) (a : Acc) : Option Acc :=
  let signature := Chat.presentId part.thoughtSignature
  let a := { a with
    state := { a.state with
      pendingThoughtSignature := signature.orElse fun _ => a.state.pendingThoughtSignature } }
  match partKind part with
  | .thinking text => some (emitBlock .thinking (.thinking text) (closeText a))
  | .silent => some a
  | .functionCall fc => some (onFunctionCall opts nowMs signature fc a)
  | .text text => onText opts nowMs signature text a

def onParts (opts : Options) (nowMs : Nat) : List Part → Acc → Option Acc
  | [], a => some a
  | part :: parts, a => do
      let a ← onPart opts nowMs part a
      onParts opts nowMs parts a

/-! ## The end of a message -/

def chunkUsage (usage : UsageMetadata) : ClaudeStreamUsage :=
  let inputTokens := usage.promptTokenCount.getD 0
  let cachedTokens := usage.cachedContentTokenCount.getD 0
  { inputTokens := max 0 ((inputTokens : Int) - cachedTokens)
    outputTokens := usage.candidatesTokenCount.getD 0 + usage.thoughtsTokenCount.getD 0
    cacheReadInputTokens := if cachedTokens > 0 then some cachedTokens else none }

/-- The stop reason of a lower-case finish reason. -/
def stopReason (names : NameContext) (hasToolUse : Bool) (reason : JsString) : ClaudeStopReason :=
  if hasToolUse || reason == js "tool_calls" then .toolUse
  else if reason == js "max_tokens" || reason == js "length" then .maxTokens
  else if reason == js "safety" || reason == js "recitation" || reason == js "blocklist" then
    .endTurn
  else if isAbortFinishReason names reason then .toolUse
  else .endTurn

def onFinish (finishReason : JsString) (a : Acc) : Acc :=
  let a := closeText a
  let reason := stopReason opts.names a.state.hasToolUse (opts.names.toLowerCase finishReason)
  (a.push (.messageDelta reason (a.state.usage.getD ⟨0, 0, none, none⟩))).push .messageStop

def geminiToClaudeResponse (nowMs : Nat) (chunk : Chunk) (s : State) :
    Option (List ClaudeEvent × State) :=
  match chunk.candidate with
  | none => some ([], s)
  | some candidate => do
      let a ← onParts opts nowMs candidate.parts (startMessage nowMs chunk s)
      let a := { a with
        state := { a.state with usage := (chunk.usage.map chunkUsage).orElse fun _ => a.state.usage } }
      let a :=
        match Chat.presentId candidate.finishReason with
        | some reason => onFinish opts reason a
        | none => a
      return (a.results, a.state)

/-- The events of a stream of chunks, each with the time of its arrival. -/
def translate (opts : Options) : List (Nat × Chunk) → State → Option (List ClaudeEvent × State)
  | [], s => some ([], s)
  | (nowMs, chunk) :: chunks, s => do
      let (events, s) ← geminiToClaudeResponse opts nowMs chunk s
      let (rest, s) ← translate opts chunks s
      return (events ++ rest, s)

end RedRouter.Response.GeminiToClaude
