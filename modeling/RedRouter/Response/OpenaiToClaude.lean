import RedRouter.Chat.Chunk
import RedRouter.Response.ClaudeStream
import RedRouter.Response.DsmlToolCalls
import RedRouter.Response.MarkdownBoundary
import RedRouter.Response.PreambleStripper
import RedRouter.Response.ToolCallShim
import RedRouter.Response.XmlInvoke

/-!
# OpenAI streams as Claude streams

The model of `openaiToClaudeResponse` in
`translator/response/openai-to-claude.ts`: one chunk at a time, with the state
between the chunks.  The functions push on the results of the chunk as the
source does.  The end of the stream is a flush without a chunk.

A result of `none` is a call that throws or never returns; the events of the
chunk are lost then.
-/

namespace RedRouter.Response.OpenaiToClaude

open Chat MarkdownBoundary XmlInvoke DsmlToolCalls PreambleStripper ToolCallShim

/-- What does not change during a stream. -/
structure Options where
  codec : JsonCodec
  names : NameContext
  requestedThinking : Option Bool := none
  /-- The trimmed `OMNIROUTE_SYSTEM_INSTRUCTION_APPEND`. -/
  directive : JsString := []
  /-- Whether `OMNIROUTE_STRIP_SYSTEM_PREAMBLE` is `1`. -/
  stripSystemPreamble : Bool := false

/-- A chunk, or the flush, with the clock and the random ids of the call. -/
structure Input where
  nowMs : Nat := 0
  randomUUID : Nat → JsString := fun _ => []
  chunk : Option IncomingChunk := none

/-- An entry of `state.toolCalls`. -/
structure ToolInfo where
  id : JsString
  name : JsString
  blockIndex : Nat
  shimmed : Bool
  argBuffer : JsString := []
  startEmitted : Bool := false

/-- `state._directiveStripper` and `state._systemPreambleStripper`. -/
structure Strippers where
  directive : Option DirectiveStripper := none
  systemPreamble : Option SystemStripper := none

structure State where
  messageStartSent : Bool := false
  messageId : JsString := []
  model : JsString := []
  nextBlockIndex : Nat := 0
  textBlockStarted : Bool := false
  textBlockClosed : Bool := false
  textBlockIndex : Nat := 0
  thinkingBlockStarted : Bool := false
  thinkingBlockIndex : Nat := 0
  toolCalls : JsMap Nat ToolInfo := []
  pendingXmlToolCalls : List TextToolCall := []
  dsmlHoldback : JsString := []
  xmlInvokeBuffer : JsString := []
  markdownBuffer : JsString := []
  markdown : BacktickState := {}
  reasoningAccum : JsString := []
  strippers : Strippers := {}
  usage : Option ClaudeStreamUsage := none
  finishReason : Option JsString := none
  claudeFinishEmitted : Bool := false
  pendingClaudeFinishChoice : Option Choice := none

/-- The state with the results of the chunk so far. -/
structure Acc where
  state : State
  results : List ClaudeEvent := []

variable (a : Acc)

def Acc.push (event : ClaudeEvent) : Acc := { a with results := a.results ++ [event] }

/-! ## Blocks -/

def stopThinkingBlock : Acc :=
  if a.state.thinkingBlockStarted then
    Acc.push { a with state := { a.state with thinkingBlockStarted := false } }
      (.blockStop a.state.thinkingBlockIndex)
  else a

def startTextBlock : Acc :=
  let index := a.state.nextBlockIndex
  Acc.push
    { a with
      state := { a.state with
        textBlockIndex := index
        nextBlockIndex := index + 1
        textBlockStarted := true
        textBlockClosed := false } }
    (.blockStart index .text)

def openTextBlock : Acc := if a.state.textBlockStarted then a else startTextBlock a

def textDelta (text : JsString) (a : Acc) : Acc :=
  a.push (.blockDelta a.state.textBlockIndex (.text text))

/-- A text delta, in a new block when none is open. -/
def emitText (text : JsString) (a : Acc) : Acc := textDelta text (openTextBlock a)

def flushMarkdownBuffer : Acc :=
  let buffered := a.state.markdownBuffer
  let a := { a with state := { a.state with markdown := {} } }
  if buffered.isEmpty then a
  else
    let a := openTextBlock { a with state := { a.state with markdownBuffer := [] } }
    if a.state.textBlockClosed then a else textDelta buffered a

def stopTextBlock : Acc :=
  let a := flushMarkdownBuffer a
  if !a.state.textBlockStarted || a.state.textBlockClosed then a
  else
    Acc.push { a with state := { a.state with textBlockClosed := true, textBlockStarted := false } }
      (.blockStop a.state.textBlockIndex)

/-! ## Usage and the start -/

def trackUsageFromChunk (chunk : IncomingChunk) (s : State) : State :=
  match chunk.usage with
  | none => s
  | some usage =>
      let promptTokens := (usage.promptTokens.orElse fun _ => usage.inputTokens).getD 0
      let outputTokens := (usage.completionTokens.orElse fun _ => usage.outputTokens).getD 0
      let cacheReadTokens := usage.cachedTokens.getD 0
      let cacheCreateTokens := usage.cacheCreationTokens.getD 0
      { s with
        usage := some
          { inputTokens := promptTokens - cacheReadTokens - cacheCreateTokens
            outputTokens := outputTokens
            cacheReadInputTokens := if cacheReadTokens > 0 then some cacheReadTokens else none
            cacheCreationInputTokens :=
              if cacheCreateTokens > 0 then some cacheCreateTokens else none } }

/-- `s.replace(needle, "")` for a text. -/
def removeFirst (needle s : JsString) : JsString :=
  match JsString.indexOf needle s with
  | some i => s.take i ++ s.drop (i + needle.length)
  | none => s

def messageIdOf (nowMs : Nat) (chunk : IncomingChunk) : JsString :=
  let generated := js "msg_" ++ JsString.ofNat nowMs
  let id := (presentId (chunk.id.map (removeFirst (js "chatcmpl-")))).getD generated
  if id == js "chat" || decide (id.length < 8) then
    ((presentId chunk.requestId).orElse fun _ => presentId chunk.traceId).getD generated
  else id

/-- `message_start` before anything else.  A flush has no chunk to take the id
from. -/
def startMessage (input : Input) (s : State) : Option Acc :=
  if s.messageStartSent then some { state := s }
  else
    match input.chunk with
    | none => none
    | some chunk =>
        let id := messageIdOf input.nowMs chunk
        let model := (presentId chunk.model).getD (js "unknown")
        some (Acc.push
          { state := { s with
              messageStartSent := true
              messageId := id
              model := model
              nextBlockIndex := 0
              pendingXmlToolCalls := []
              dsmlHoldback := []
              xmlInvokeBuffer := []
              markdownBuffer := []
              markdown := {} } }
          (.messageStart id model))

/-! ## Reasoning -/

/-- The reasoning of a delta; it is empty when there is none. -/
def reasoningOf (delta : IncomingDelta) : JsString :=
  match presentId delta.reasoningContent, presentId delta.reasoning with
  | some text, _ => text
  | none, some text => text
  | none, none =>
      delta.reasoningDetails.flatMap fun detail =>
        ((presentId detail.text).orElse fun _ => presentId detail.content).getD []

def openThinkingBlock : Acc :=
  if a.state.thinkingBlockStarted then a
  else
    let index := a.state.nextBlockIndex
    Acc.push
      { a with
        state := { a.state with
          thinkingBlockIndex := index
          nextBlockIndex := index + 1
          thinkingBlockStarted := true } }
      (.blockStart index .thinking)

def emitThinking (text : JsString) (a : Acc) : Acc :=
  let a := openThinkingBlock (stopTextBlock a)
  a.push (.blockDelta a.state.thinkingBlockIndex (.thinking text))

variable (opts : Options)

def onReasoning (delta : IncomingDelta) (a : Acc) : Acc :=
  let text := reasoningOf delta
  if text.isEmpty || isInternalReasoningPlaceholder text then a
  else
    let a := if opts.requestedThinking = some false then a else emitThinking text a
    { a with state := { a.state with reasoningAccum := a.state.reasoningAccum ++ text } }

/-! ## Content -/

/-- The two strippers, each created at the first content. -/
def createStrippers (strippers : Strippers) : Strippers where
  directive :=
    if opts.directive.isEmpty then strippers.directive
    else strippers.directive.orElse fun _ => some { directive := opts.directive }
  systemPreamble :=
    if opts.stripSystemPreamble then strippers.systemPreamble.orElse fun _ => some {}
    else strippers.systemPreamble

def scrubContent (text : JsString) (strippers : Strippers) : Option (JsString × Strippers) := do
  let strippers := createStrippers opts strippers
  let (text, directive) :=
    match strippers.directive with
    | some stripper => ((stripper.push text).1, some (stripper.push text).2)
    | none => (text, none)
  match strippers.systemPreamble with
  | some stripper =>
      let (text, stripper) ← stripper.push text
      return (text, ⟨directive, some stripper⟩)
  | none => return (text, ⟨directive, none⟩)

/-- The DSML tool calls of a content with what was held back before. -/
def parseDsml (input : Input) (holdback scrubbed : JsString) :
    JsString × List TextToolCall × JsString :=
  let content := holdback ++ scrubbed
  if hasDsmlToolCalls content then
    let result := parseDsmlToolCalls input.randomUUID content
    (result.content, result.toolCalls.map fun call => ⟨call.id, .str call.name, call.args⟩,
      result.holdback)
  else (content, [], [])

/-- The tool calls of a content wait for the finish. -/
def queueToolCalls (calls : List TextToolCall) (a : Acc) : Acc :=
  if calls.isEmpty then a
  else
    let a := stopTextBlock a
    { a with
      state := { a.state with pendingXmlToolCalls := a.state.pendingXmlToolCalls ++ calls } }

/-- The text that remains, up to a suffix that is kept back. -/
def emitCleaned (cleaned : JsString) (a : Acc) : Acc :=
  let split := splitMarkdownBoundary cleaned a.state.markdown
  let a := { a with
    state := { a.state with markdownBuffer := split.hold, markdown := split.state } }
  if split.emit.isEmpty then a else emitText split.emit a

/-- Content after the placeholder and the preambles were taken out. -/
def onScrubbed (input : Input) (scrubbed : JsString) (a : Acc) : Acc :=
  let a := if scrubbed.isEmpty then a else stopThinkingBlock a
  let bufferedPrefix := a.state.markdownBuffer
  let (dsmlContent, dsmlToolCalls, holdback) := parseDsml input a.state.dsmlHoldback scrubbed
  let extracted :=
    extractXmlInvokeBlocks opts.codec input.nowMs a.state.xmlInvokeBuffer
      (bufferedPrefix ++ dsmlContent)
  let a := { a with
    state := { a.state with
      markdownBuffer := []
      dsmlHoldback := holdback
      xmlInvokeBuffer := extracted.buffer } }
  emitCleaned extracted.cleaned (queueToolCalls (extracted.toolCalls ++ dsmlToolCalls) a)

def onContent (input : Input) (delta : IncomingDelta) (a : Acc) : Option Acc :=
  match presentId delta.content with
  | none => some a
  | some content =>
      let stripped := stripInternalReasoningPlaceholder content
      if stripped.isEmpty then some a
      else do
        let (scrubbed, strippers) ← scrubContent opts stripped a.state.strippers
        return onScrubbed opts input scrubbed
          { a with state := { a.state with strippers := strippers } }

/-! ## Tool calls -/

def claudeOauthToolPrefix : JsString := js "proxy_"

/-- `sanitizeToolId` of an id that is not empty. -/
def sanitizeToolId (id : JsString) : JsString :=
  id.map fun c => if Regex.isWord c || c == unit '-' then c else unit '_'

variable (fragment : ToolCallFragment)

def incomingName : JsString :=
  let name := fragment.name.getD []
  restoreClaudeToolName opts.names
    (if name.startsWith claudeOauthToolPrefix then name.drop claudeOauthToolPrefix.length
    else name)

def registerToolCall (a : Acc) : Acc :=
  let idx := fragment.index.getD 0
  match presentId fragment.id, JsMap.get idx a.state.toolCalls with
  | some id, none =>
      let name := incomingName opts fragment
      let a := stopTextBlock (stopThinkingBlock a)
      let info : ToolInfo :=
        { id := sanitizeToolId id
          name := name
          blockIndex := a.state.nextBlockIndex
          shimmed := hasToolCallShim opts.names name }
      { a with
        state := { a.state with
          nextBlockIndex := a.state.nextBlockIndex + 1
          toolCalls := JsMap.set idx info a.state.toolCalls } }
  | _, _ => a

variable (info : ToolInfo)

def captureId : ToolInfo :=
  match presentId fragment.id with
  | some id => if info.id.isEmpty then { info with id := sanitizeToolId id } else info
  | none => info

def captureName : ToolInfo :=
  let name := incomingName opts fragment
  if !name.isEmpty && !info.startEmitted && info.name.isEmpty then
    { info with name := name, shimmed := hasToolCallShim opts.names name }
  else info

def startToolBlock : ClaudeEvent :=
  .blockStart info.blockIndex (.toolUse info.id info.name (.obj []))

/-- Whether a fragment has arguments that are not `null`. -/
def hasArguments : Bool :=
  match fragment.arguments with
  | some .null => false
  | some _ => true
  | none => false

/-- The start of a tool block, once there is a name or an argument. -/
def startWhenReady : List ClaudeEvent × ToolInfo :=
  if !info.startEmitted && (!info.name.isEmpty || hasArguments fragment) then
    ([startToolBlock info], { info with startEmitted := true })
  else ([], info)

def appendArguments : List ClaudeEvent × ToolInfo :=
  match fragment.arguments.filter Json.truthy with
  | none => ([], info)
  | some arguments =>
      let nextArgs := appendToolCallArgumentDelta opts.codec info.argBuffer arguments
      let deltaStr := nextArgs.drop info.argBuffer.length
      (if info.shimmed || deltaStr.isEmpty then []
        else [.blockDelta info.blockIndex (.inputJson deltaStr)],
        { info with argBuffer := nextArgs })

def onRegistered : List ClaudeEvent × ToolInfo :=
  let (started, info) := startWhenReady fragment (captureName opts fragment (captureId fragment info))
  let (appended, info) := appendArguments opts fragment info
  (started ++ appended, info)

/-- One fragment of `delta.tool_calls`. -/
def onToolCall (a : Acc) (fragment : ToolCallFragment) : Acc :=
  let idx := fragment.index.getD 0
  let a := registerToolCall opts fragment a
  match JsMap.get idx a.state.toolCalls with
  | none => a
  | some info =>
      let (events, info) := onRegistered opts fragment info
      { state := { a.state with toolCalls := JsMap.set idx info a.state.toolCalls }
        results := a.results ++ events }

/-! ## The finish -/

def flushPreamble (strippers : Strippers) : JsString × Strippers :=
  let directive := strippers.directive.map DirectiveStripper.flush
  let systemPreamble := strippers.systemPreamble.map SystemStripper.flush
  ((directive.map Prod.fst).getD [] ++ (systemPreamble.map Prod.fst).getD [],
    ⟨directive.map Prod.snd, systemPreamble.map Prod.snd⟩)

/-- The preamble that was held back is text after all. -/
def emitPreamble : Acc :=
  let (flushed, strippers) := flushPreamble a.state.strippers
  let a := { a with state := { a.state with strippers := strippers } }
  if flushed.isEmpty then a
  else
    textDelta flushed
      (if !a.state.textBlockStarted || a.state.textBlockClosed then startTextBlock a else a)

/-- Reasoning alone is text for a client that did not ask for thinking. -/
def emitReasoningAsText (a : Acc) : Acc :=
  if !a.state.textBlockStarted && !a.state.reasoningAccum.isEmpty &&
      opts.requestedThinking == some false then
    textDelta a.state.reasoningAccum (startTextBlock a)
  else a

def finishToolCall : List ClaudeEvent × ToolInfo :=
  let started := if info.startEmitted then [] else [startToolBlock info]
  let patched :=
    if info.shimmed then
      [.blockDelta info.blockIndex
        (.inputJson (applyToolCallShimToBuffer opts.codec opts.names info.name info.argBuffer))]
    else []
  (started ++ patched ++ [.blockStop info.blockIndex], { info with startEmitted := true })

def finishToolCalls (a : Acc) : Acc :=
  { state := { a.state with
      toolCalls := a.state.toolCalls.map fun (idx, info) => (idx, (finishToolCall opts info).2) }
    results := a.results ++
      a.state.toolCalls.flatMap fun (_, info) => (finishToolCall opts info).1 }

def emitTextToolCalls (opts : Options) : List TextToolCall → Acc → Option Acc
  | [], a => some a
  | call :: calls, a => do
      let index := a.state.nextBlockIndex
      let name ← restoreTextToolName opts.names call.name
      emitTextToolCalls opts calls
        { state := { a.state with nextBlockIndex := index + 1 }
          results := a.results ++
            [.blockStart index (.toolUse call.id name call.args), .blockStop index] }

def convertFinishReason (names : NameContext) (reason : JsString) : ClaudeStopReason :=
  if reason == js "stop" then .endTurn
  else if reason == js "length" then .maxTokens
  else if reason == js "tool_calls" then .toolUse
  else if reason == js "content_filter" then .refusal
  else if isAbortFinishReason names reason then .toolUse
  else .endTurn

def endMessage (finishReason : JsString) (a : Acc) : Acc :=
  let reason := if a.state.pendingXmlToolCalls.isEmpty then finishReason else js "tool_calls"
  let a := { a with state := { a.state with finishReason := some reason } }
  (a.push (.messageDelta (convertFinishReason opts.names reason)
    (a.state.usage.getD ⟨0, 0, none, none⟩))).push .messageStop

def finishMessage (finishReason : JsString) (a : Acc) : Option Acc := do
  let a := { a with state := { a.state with claudeFinishEmitted := true } }
  let a := stopTextBlock (emitReasoningAsText opts (emitPreamble (stopThinkingBlock a)))
  let a := finishToolCalls opts a
  let a ← emitTextToolCalls opts a.state.pendingXmlToolCalls a
  return endMessage opts finishReason a

/-- The finish reason of a choice.  Without a usage the finish waits for a chunk
without a choice. -/
def onFinish (choice : Choice) (isReplay hasUsage : Bool) (a : Acc) : Option Acc :=
  match presentId choice.finishReason with
  | none => some a
  | some reason =>
      if a.state.claudeFinishEmitted then some a
      else if !hasUsage && !isReplay then
        some { a with state := { a.state with pendingClaudeFinishChoice := some choice } }
      else finishMessage opts reason a

/-! ## Chunks -/

/-- A choice: the one of the chunk, or the one that was held back. -/
def onChoice (input : Input) (choice : Choice) (isReplay hasUsage : Bool)
    (s : State) : Option (List ClaudeEvent × State) := do
  let a ← startMessage input s
  let a ← onContent opts input choice.delta (onReasoning opts choice.delta a)
  let a := choice.delta.toolCalls.foldl (onToolCall opts) a
  let a ← onFinish opts choice isReplay hasUsage a
  return (a.results, a.state)

def openaiToClaudeResponse (input : Input) (s : State) : Option (List ClaudeEvent × State) :=
  let s := (input.chunk.map fun chunk => trackUsageFromChunk chunk s).getD s
  let hasUsage := (input.chunk.bind IncomingChunk.usage).isSome
  match input.chunk.bind IncomingChunk.choice, s.pendingClaudeFinishChoice with
  | some choice, _ => onChoice opts input choice false hasUsage s
  | none, some choice =>
      onChoice opts input choice true hasUsage { s with pendingClaudeFinishChoice := none }
  | none, none => some ([], s)

def translate (opts : Options) : List Input → State → Option (List ClaudeEvent × State)
  | [], s => some ([], s)
  | input :: inputs, s => do
      let (events, s) ← openaiToClaudeResponse opts input s
      let (rest, s) ← translate opts inputs s
      return (events ++ rest, s)

end RedRouter.Response.OpenaiToClaude
