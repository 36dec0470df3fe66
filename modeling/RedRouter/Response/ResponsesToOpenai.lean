import RedRouter.Chat.Chunk
import RedRouter.Lib.JsMap
import RedRouter.Response.ToolArgs

/-!
# Responses streams as chat streams

The model of `openaiResponsesToOpenAIResponse` in
`translator/response/openai-responses.ts`, with the synthesis of tool calls
from a completed response in `openai-responses/synthesizeCompletedToolCalls.ts`.

An in-flight function call has an entry under its call id.  Argument deltas
name a call by its item id or its output index, so two more maps lead from
those to the call id.  The arguments of a call are kept back until its done
event.
-/

namespace RedRouter.Response.ResponsesToOpenai

open Chat

/-- A `function_call` item. -/
structure FunctionCallItem where
  id : Option JsString := none
  callId : Option JsString := none
  name : JsString := []
  arguments : Option Json := none

/-- One entry of the `output` of a completed response. -/
inductive OutputItem where
  | functionCall (item : FunctionCallItem)
  | other

/-- The token counts of a `usage`; a field that is not there is missing. -/
structure ResponseUsage where
  inputTokens : Option Nat := none
  promptTokens : Option Nat := none
  outputTokens : Option Nat := none
  completionTokens : Option Nat := none
  cacheReadInputTokens : Option Nat := none
  inputCachedTokens : Option Nat := none
  promptCachedTokens : Option Nat := none
  cacheCreationInputTokens : Option Nat := none
  outputReasoningTokens : Option Nat := none
  completionReasoningTokens : Option Nat := none
  reasoningTokens : Option Nat := none

/-- A part of the `content` or of the `summary` of a reasoning item. -/
structure ReasoningPart where
  isReasoningText : Bool
  text : Option JsString

structure ReasoningItem where
  id : Option JsString := none
  content : List ReasoningPart := []
  summary : List ReasoningPart := []

/-- One event of a Responses stream. -/
inductive Event where
  | outputTextDelta (delta : JsString)
  | functionCallAdded (item : FunctionCallItem) (outputIndex : Option Nat)
  | argumentsDelta (itemId : Option JsString) (outputIndex : Option Nat) (delta : JsString)
  | functionCallDone (item : FunctionCallItem)
  | reasoningDelta (itemId : Option JsString) (delta : JsString)
  | reasoningSummaryDelta (itemId : Option JsString) (summaryIndex : Option Nat) (delta : JsString)
  | reasoningDone (item : ReasoningItem)
  | completed (output : List OutputItem) (usage : Option ResponseUsage)
  | failed
  | other

/-- An event with the time of its arrival and the model that it names. -/
structure Arrival where
  nowMs : Nat
  model : Option JsString := none
  event : Event

/-- An in-flight call. -/
structure Entry where
  index : Option Nat
  name : JsString
  argsBuffer : JsString
  deferred : Bool

/-- The summary of a closed call. -/
structure ClosedCall where
  id : JsString
  name : JsString
  arguments : JsString

/-- What does not change during a stream. -/
structure Options where
  codec : JsonCodec
  toolSchemas : JsMap JsString Json := []
  copilotCompatibleReasoning : Bool := false

structure State where
  started : Bool := false
  chatId : JsString := []
  created : Nat := 0
  model : Option JsString := none
  toolCallIndex : Nat := 0
  currentToolCallId : Option JsString := none
  toolCallByCallId : JsMap JsString Entry := []
  toolCallItemToCallId : JsMap JsString JsString := []
  toolCallOutputIndexToCallId : JsMap Nat JsString := []
  toolCallIdsSeen : List JsString := []
  toolCalls : JsMap Nat ClosedCall := []
  usage : Option ChunkUsage := none
  finishReasonSent : Bool := false
  finishReason : Option FinishReason := none
  roleEmitted : Bool := false
  accumulatedReasoning : JsString := []
  reasoningDeltaEmitted : Bool := false
  reasoningItemsWithDelta : List JsString := []
  /-- The last `summary_index` of an item, with `none` for `null`. -/
  reasoningSummaryIndex : JsMap JsString (Option Nat) := []
  upstreamFailed : Bool := false

variable (s : State)

/-- The fields that all chunks share. -/
def baseChunk (delta : Delta) : Chunk where
  id := s.chatId
  created := s.created
  model := some (s.model.getD (js "gpt-4"))
  delta := delta

def toolChunk (d : ToolCallDelta) : Chunk := baseChunk s { toolCalls := [d] }

/-- A chunk with the arguments of a call, when there are any. -/
def argumentsChunk (index : Option Nat) (text : JsString) : List Chunk :=
  if text.isEmpty then [] else [toolChunk s { index := index, arguments := some text }]

def computeFinishReason : FinishReason :=
  if s.toolCallIndex > 0 ∨ (presentId s.currentToolCallId).isSome then .toolCalls else .stop

/-- `fallbackToolCallId` without an index. -/
def fallbackToolCallId (nowMs : Nat) : JsString := js "call_" ++ JsString.ofNat nowMs

/-- `fallbackToolCallId` with an index. -/
def fallbackToolCallIdAt (index nowMs : Nat) : JsString :=
  js "call_" ++ JsString.ofNat index ++ js "_" ++ JsString.ofNat nowMs

/-! ## Function calls -/

/-- `response.output_item.added` of a function call. -/
def onAdded (nowMs : Nat) (item : FunctionCallItem) (outputIndex : Option Nat) (s : State) :
    List Chunk × State :=
  let callId := (presentId item.callId).getD (fallbackToolCallId nowMs)
  let toolName := normalizeToolName item.name
  let index := if toolName.isEmpty then none else some s.toolCallIndex
  let s := { s with
    currentToolCallId := some callId
    toolCallIndex := if toolName.isEmpty then s.toolCallIndex else s.toolCallIndex + 1
    toolCallByCallId := s.toolCallByCallId.set callId
      { index := index, name := toolName, argsBuffer := [], deferred := toolName.isEmpty }
    toolCallItemToCallId :=
      match presentId item.id with
      | some id => s.toolCallItemToCallId.set id callId
      | none => s.toolCallItemToCallId
    toolCallOutputIndexToCallId :=
      match outputIndex with
      | some outputIndex => s.toolCallOutputIndexToCallId.set outputIndex callId
      | none => s.toolCallOutputIndexToCallId
    toolCallIdsSeen := s.toolCallIdsSeen ++ [callId] }
  if toolName.isEmpty then ([], s)
  else ([toolChunk s ⟨index, some callId, some toolName, some []⟩], s)

variable (itemId : Option JsString)

def resolveDelta (outputIndex : Option Nat) (s : State) : Option JsString :=
  let byItem := presentId ((presentId itemId).bind fun id => s.toolCallItemToCallId.get id)
  let byIndex := presentId (outputIndex.bind fun i => s.toolCallOutputIndexToCallId.get i)
  let guess :=
    match s.toolCallByCallId with
    | [(callId, _)] => some callId
    | _ => s.currentToolCallId
  presentId ((byItem.orElse fun _ => byIndex).orElse fun _ => guess)

/-- `response.function_call_arguments.delta`. -/
def onArgumentsDelta (outputIndex : Option Nat) (delta : JsString)
    (s : State) : List Chunk × State :=
  if delta.isEmpty then ([], s)
  else
    match resolveDelta itemId outputIndex s with
    | none => ([], s)
    | some callId =>
        match s.toolCallByCallId.get callId with
        | none => ([], s)
        | some entry =>
            ([], { s with
              toolCallByCallId :=
                s.toolCallByCallId.set callId
                  { entry with argsBuffer := entry.argsBuffer ++ delta } })

/-- The arguments of a done item, or else the buffered ones. -/
def terminalArguments (arguments : Option Json) (buffered : JsString) : Json :=
  match present arguments with
  | some (.str []) => .str buffered
  | some value => value
  | none => .str buffered

/-- The arguments of the summary of a closed call. -/
def completedArguments (arguments : Option Json) (buffered : JsString) : Json :=
  match arguments with
  | some (.str (c :: cs)) => .str (c :: cs)
  | _ => .str buffered

def resolveDone (nowMs : Nat) (item : FunctionCallItem) (s : State) : JsString :=
  let byItem := (presentId item.id).bind fun id => s.toolCallItemToCallId.get id
  ((presentId item.callId).orElse fun _ => presentId byItem).getD
    ((presentId s.currentToolCallId).getD (fallbackToolCallId nowMs))

variable (opts : Options)

/-- The arguments that a done event delivers for a call that was not deferred. -/
def doneArguments (item : FunctionCallItem) (buffered toolName : JsString) : JsString :=
  let schema := opts.toolSchemas.get toolName
  if (toolName == agentTool || buffered.isEmpty) &&
      ((present item.arguments).isSome || !buffered.isEmpty) then
    strippedText opts.codec (terminalArguments item.arguments buffered) toolName schema
  else if !buffered.isEmpty then strippedText opts.codec (.str buffered) toolName schema
  else []

/-- `response.output_item.done` of a function call. -/
def onDone (nowMs : Nat) (item : FunctionCallItem) (s : State) : List Chunk × State :=
  let callId := resolveDone nowMs item s
  let entry := (s.toolCallByCallId.get callId).getD
    { index := none, name := [], argsBuffer := [], deferred := false }
  let toolName := normalizeToolName item.name
  let schema := opts.toolSchemas.get toolName
  let claims := entry.index.isNone && !toolName.isEmpty
  let index := if claims then some s.toolCallIndex else entry.index
  let s := { s with
    toolCallIndex := if claims then s.toolCallIndex + 1 else s.toolCallIndex
    toolCalls :=
      match index with
      | some index =>
          if toolName.isEmpty then s.toolCalls
          else s.toolCalls.set index ⟨callId, toolName,
            strippedText opts.codec (completedArguments item.arguments entry.argsBuffer) toolName
              schema⟩
      | none => s.toolCalls
    toolCallIdsSeen := s.toolCallIdsSeen ++ [callId]
    toolCallByCallId := s.toolCallByCallId.delete callId
    currentToolCallId := if s.currentToolCallId = some callId then none else s.currentToolCallId }
  if entry.deferred then
    if toolName.isEmpty then ([], s)
    else
      let text := strippedText opts.codec (terminalArguments item.arguments entry.argsBuffer)
        toolName schema
      ([toolChunk s ⟨index, some callId, some toolName, some text⟩], s)
  else (argumentsChunk s index (doneArguments opts item entry.argsBuffer toolName), s)

/-! ## The completed response -/

def firstCount (counts : List (Option Nat)) : Nat :=
  ((counts.filterMap id).find? (· ≠ 0)).getD 0

def positive (n : Nat) : Option Nat := if n > 0 then some n else none

def completedUsage (u : ResponseUsage) : ChunkUsage :=
  let inputTokens := firstCount [u.inputTokens, u.promptTokens]
  let outputTokens := firstCount [u.outputTokens, u.completionTokens]
  let cacheRead := firstCount [u.cacheReadInputTokens, u.inputCachedTokens, u.promptCachedTokens]
  let cacheCreation := firstCount [u.cacheCreationInputTokens]
  let reasoning :=
    firstCount [u.outputReasoningTokens, u.completionReasoningTokens, u.reasoningTokens]
  let promptTokens :=
    inputTokens + (if u.cacheReadInputTokens.isSome then cacheRead + cacheCreation else 0)
  { promptTokens := promptTokens
    completionTokens := outputTokens
    totalTokens := promptTokens + outputTokens
    reasoningTokens := positive reasoning
    cachedTokens := positive cacheRead
    cacheCreationTokens := positive cacheCreation }

def resolveArgsStr (arguments : Option Json) (toolName : JsString) : JsString :=
  match present arguments with
  | some value => strippedText opts.codec value toolName (opts.toolSchemas.get toolName)
  | none => []

def buildToolCallChunks (nowMs : Nat) (item : FunctionCallItem) (s : State) : List Chunk × State :=
  let callId := (presentId item.callId).getD (fallbackToolCallIdAt s.toolCallIndex nowMs)
  let toolName := normalizeToolName item.name
  let index := s.toolCallIndex
  (toolChunk s ⟨some index, some callId, some toolName, some []⟩ ::
      argumentsChunk s (some index) (resolveArgsStr opts item.arguments toolName),
    { s with toolCallIndex := index + 1, currentToolCallId := none })

/-- The loop of `synthesizeCompletedToolCalls`. -/
def buildAll (opts : Options) (nowMs : Nat) : List FunctionCallItem → State → List Chunk × State
  | [], s => ([], s)
  | item :: items, s =>
      let (chunks, s) := buildToolCallChunks opts nowMs item s
      let (rest, s) := buildAll opts nowMs items s
      (chunks ++ rest, s)

def OutputItem.functionCall? : OutputItem → Option FunctionCallItem
  | .functionCall item => some item
  | .other => none

/-- The function calls of the output that no earlier event announced. -/
def unseenCalls (output : List OutputItem) (s : State) : List FunctionCallItem :=
  (output.filterMap OutputItem.functionCall?).filter fun item =>
    !(item.callId.any s.toolCallIdsSeen.contains)

/-- The chunk with the finish reason, which ends a completed stream. -/
def finishChunk : List Chunk × State :=
  let reason := computeFinishReason s
  let s := { s with finishReasonSent := true, finishReason := some reason }
  ([{ baseChunk s {} with finishReason := some reason, usage := s.usage }], s)

/-- `response.completed`. -/
def onCompleted (nowMs : Nat) (output : List OutputItem)
    (usage : Option ResponseUsage) (s : State) : List Chunk × State :=
  let s := { s with usage := (usage.map completedUsage).orElse fun _ => s.usage }
  if s.finishReasonSent then ([], s)
  else
    let (chunks, s) := buildAll opts nowMs (unseenCalls output s) s
    let (last, s) := finishChunk s
    (chunks ++ last, s)

/-! ## Reasoning -/

def isInternalReasoningPlaceholder (text : JsString) : Bool :=
  JsString.trim text == js "(prior reasoning summary unavailable)"

def buildResponsesReasoningDeltaChunk (s : State) (text : JsString) : List Chunk :=
  if isInternalReasoningPlaceholder text then []
  else if opts.copilotCompatibleReasoning then [baseChunk s { reasoningText := some text }]
  else [baseChunk s { reasoningContent := some text }]

def markResponsesReasoningDeltaEmitted (s : State) : State :=
  { s with
    reasoningDeltaEmitted := true
    reasoningItemsWithDelta :=
      match presentId itemId with
      | some id => s.reasoningItemsWithDelta ++ [id]
      | none => s.reasoningItemsWithDelta }

/-- `a > b` with `null` as zero. -/
def indexAfter (a b : Option Nat) : Bool := a.getD 0 > b.getD 0

def buildResponsesReasoningSummaryDelta (summaryIndex : Option Nat)
    (delta : JsString) (s : State) : JsString × State :=
  match presentId itemId with
  | none => (delta, s)
  | some id =>
      let lastIndex := s.reasoningSummaryIndex.get id
      let advanced :=
        match lastIndex with
        | none => false
        | some last => summaryIndex.isSome && indexAfter summaryIndex last
      let text :=
        if advanced && s.reasoningItemsWithDelta.contains id then js "\n\n" ++ delta else delta
      let record :=
        match lastIndex with
        | none => true
        | some last => indexAfter summaryIndex last
      (text, { s with
        reasoningSummaryIndex :=
          if record then s.reasoningSummaryIndex.set id summaryIndex else s.reasoningSummaryIndex })

def extractReplayableResponsesReasoningText (item : ReasoningItem) : JsString :=
  JsString.join (js "\n\n") <|
    (item.content.map fun part => if part.isReasoningText then part.text.getD [] else []).filter
      fun text => !(JsString.trim text).isEmpty

def getVisibleResponsesReasoningSummaryText (item : ReasoningItem) : JsString :=
  JsString.join (js "\n\n") <|
    (item.summary.map fun part => part.text.getD []).filter fun text => !text.isEmpty

/-- `response.output_item.done` of a reasoning item. -/
def onReasoningDone (item : ReasoningItem) (s : State) : List Chunk × State :=
  let replayable := extractReplayableResponsesReasoningText item
  let s := { s with
    accumulatedReasoning :=
      if replayable.isEmpty then s.accumulatedReasoning
      else if s.accumulatedReasoning.isEmpty then replayable
      else s.accumulatedReasoning ++ js "\n\n" ++ replayable }
  let emittedForItem := (presentId item.id).any s.reasoningItemsWithDelta.contains
  let emittedWithoutItemId := s.reasoningDeltaEmitted && s.reasoningItemsWithDelta.isEmpty
  if emittedForItem || emittedWithoutItemId then ([], s)
  else if !replayable.isEmpty then (buildResponsesReasoningDeltaChunk opts s replayable, s)
  else
    let summaryText := getVisibleResponsesReasoningSummaryText item
    if summaryText.isEmpty then ([], s)
    else (buildResponsesReasoningDeltaChunk opts s summaryText, s)

/-! ## The stream -/

def begin (arrival : Arrival) (s : State) : State :=
  let s := { s with
    model := s.model.orElse fun _ => presentId (arrival.model.map JsString.trim) }
  if s.started then s
  else { s with
    started := true
    chatId := js "chatcmpl-" ++ JsString.ofNat arrival.nowMs
    created := arrival.nowMs / 1000
    toolCallIndex := 0
    currentToolCallId := none
    toolCallByCallId := []
    toolCallItemToCallId := []
    toolCallOutputIndexToCallId := [] }

def handle (nowMs : Nat) (event : Event) (s : State) : List Chunk × State :=
  match event with
  | .outputTextDelta delta =>
      if delta.isEmpty then ([], s) else ([baseChunk s { content := some delta }], s)
  | .functionCallAdded item outputIndex => onAdded nowMs item outputIndex s
  | .argumentsDelta itemId outputIndex delta => onArgumentsDelta itemId outputIndex delta s
  | .functionCallDone item => onDone opts nowMs item s
  | .reasoningDelta itemId delta =>
      if delta.isEmpty then ([], s)
      else
        let s := markResponsesReasoningDeltaEmitted itemId s
        ([baseChunk s { reasoningContent := some delta }], s)
  | .reasoningSummaryDelta itemId summaryIndex delta =>
      if delta.isEmpty then ([], s)
      else
        let s := markResponsesReasoningDeltaEmitted itemId s
        let (text, s) := buildResponsesReasoningSummaryDelta itemId summaryIndex delta s
        (buildResponsesReasoningDeltaChunk opts s text, s)
  | .reasoningDone item => onReasoningDone opts item s
  | .completed output usage => onCompleted opts nowMs output usage s
  | .failed => ([], { s with upstreamFailed := true, finishReasonSent := true })
  | .other => ([], s)

def withAssistantRoleOnFirstDelta : List Chunk × State → List Chunk × State
  | ([], s) => ([], s)
  | (chunk :: chunks, s) =>
      if s.roleEmitted then (chunk :: chunks, s)
      else
        ({ chunk with delta := { chunk.delta with role := true } } :: chunks,
          { s with roleEmitted := true })

/-- `openaiResponsesToOpenAIResponse` of an event. -/
def openaiResponsesToOpenAIResponse (arrival : Arrival) (s : State) : List Chunk × State :=
  withAssistantRoleOnFirstDelta (handle opts arrival.nowMs arrival.event (begin arrival s))

/-- The buffered arguments that a flush still delivers. -/
def pendingArguments (s : State) : List Chunk :=
  (s.toolCallByCallId.values.filter fun entry => !entry.argsBuffer.isEmpty).map fun entry =>
    toolChunk s
      { index := entry.index
        arguments := some (strippedText opts.codec (.str entry.argsBuffer) entry.name
          (opts.toolSchemas.get entry.name)) }

def flushStream (nowMs : Nat) (s : State) : List Chunk × State :=
  let pending := pendingArguments opts s
  if !pending.isEmpty then
    let last := { baseChunk s {} with finishReason := some .toolCalls }
    (pending ++ [last],
      { s with
        toolCallByCallId :=
          s.toolCallByCallId.map fun (callId, entry) => (callId, { entry with argsBuffer := [] })
        finishReasonSent := true
        finishReason := some .toolCalls })
  else if !s.finishReasonSent && s.started then
    let last : Chunk :=
      { id := if s.chatId.isEmpty then js "chatcmpl-" ++ JsString.ofNat nowMs else s.chatId
        created := if s.created = 0 then nowMs / 1000 else s.created
        model := some (s.model.getD (js "gpt-4"))
        delta := {}
        finishReason := some (computeFinishReason s) }
    ([last], { s with finishReasonSent := true })
  else ([], s)

/-- `openaiResponsesToOpenAIResponse` of the null flush. -/
def flush (nowMs : Nat) (s : State) : List Chunk × State :=
  withAssistantRoleOnFirstDelta (flushStream opts nowMs s)

def translate (opts : Options) : List Arrival → State → List Chunk × State
  | [], s => ([], s)
  | arrival :: arrivals, s =>
      let (chunks, s) := openaiResponsesToOpenAIResponse opts arrival s
      let (rest, s) := translate opts arrivals s
      (chunks ++ rest, s)

def stream (arrivals : List Arrival) (flushMs : Nat) : List Chunk :=
  let (chunks, s) := translate opts arrivals {}
  chunks ++ (flush opts flushMs s).1

end RedRouter.Response.ResponsesToOpenai
