import RedRouter.Lib.EventStream
import RedRouter.Lib.JsonText

/-!
# Streams that are recovered

The model of `open-sse/services/streamRecovery.ts`: the opening of a stream is
held back, so that a cut can be hidden by opening the stream again, and a later
cut is hidden by asking for the rest of the text.

The chunks of the upstream go to the client as they come.  What they say is
looked at event by event.  The hooks that only observe, and the cancel of the
client, are not part of the model.
-/

namespace RedRouter.Services

open JsValue

/-! ## What the stream says -/

/-- `fold`, and the result of a scan. -/
structure SseScanFold where
  text : JsString := []
  reasoningText : JsString := []
  sawToolCall : Bool := false
  toolCallFinished : Bool := false
  terminal : Bool := false
  finishReason : Option JsString := none
  parsedOpenAi : Bool := false
  parsedResponses : Bool := false
deriving DecidableEq

namespace SseScanFold

def sawToolCallInFlight (fold : SseScanFold) : Bool := fold.sawToolCall && !fold.toolCallFinished

def scanChatFinishReason (rawFinishReason : Option Json) (fold : SseScanFold) : SseScanFold :=
  match rawFinishReason with
  | none | some .null => fold
  | some (.str reason) =>
      if reason = js "tool_calls" then
        { fold with toolCallFinished := true, finishReason := some reason }
      else { fold with terminal := true, finishReason := some reason }
  | some _ => { fold with terminal := true }

def addText (s : Option Json) (fold : SseScanFold) : SseScanFold :=
  match s with
  | some (.str s) => { fold with text := fold.text ++ s }
  | _ => fold

def addReasoning (s : Option Json) (fold : SseScanFold) : SseScanFold :=
  match s with
  | some (.str s) => { fold with reasoningText := fold.reasoningText ++ s }
  | _ => fold

def scanToolCalls (toolCalls : Option Json) (fold : SseScanFold) : SseScanFold :=
  match toolCalls with
  | some (.arr (_ :: _)) => { fold with sawToolCall := true }
  | _ => fold

/-- `typeof v === "object"` for a value that is not `null`. -/
def isObject : Json → Bool
  | .obj _ => true
  | .arr _ => true
  | _ => false

def scanDelta (delta : Json) (fold : SseScanFold) : SseScanFold :=
  if isObject delta then
    { fold with parsedOpenAi := true }
      |>.addText (delta.get? (js "content"))
      |>.addReasoning (delta.get? (js "reasoning_content"))
      |>.scanToolCalls (delta.get? (js "tool_calls"))
  else fold

def scanChatChoice (choice : Json) (fold : SseScanFold) : SseScanFold :=
  let scanned :=
    match choice.get? (js "delta") with
    | some delta => fold.scanDelta delta
    | none => fold
  scanned.scanChatFinishReason (choice.get? (js "finish_reason"))

def markToolCall (finished : Bool) (fold : SseScanFold) : SseScanFold :=
  { fold with sawToolCall := true, toolCallFinished := fold.toolCallFinished || finished }

def markParsed (fold : SseScanFold) : SseScanFold := { fold with parsedResponses := true }

def scanResponsesOutputItem (finished : Bool) (json : Json) (fold : SseScanFold) : SseScanFold :=
  match (json.get? (js "item")).bind (Json.get? (js "type")) with
  | some (.str itemType) =>
      if itemType = js "function_call" then (fold.markToolCall finished).markParsed else fold
  | _ => fold

def scanResponsesEvent (json : Json) (fold : SseScanFold) : SseScanFold :=
  match json.get? (js "type") with
  | some (.str eventType) =>
      if eventType = js "response.output_text.delta" then
        (fold.addText (json.get? (js "delta"))).markParsed
      else if eventType = js "response.reasoning_summary_text.delta" then
        (fold.addReasoning (json.get? (js "delta"))).markParsed
      else if eventType = js "response.output_text.done" then fold
      else if eventType = js "response.function_call_arguments.delta" then
        (fold.markToolCall false).markParsed
      else if eventType = js "response.function_call_arguments.done" then
        (fold.markToolCall true).markParsed
      else if eventType = js "response.output_item.added" then
        fold.scanResponsesOutputItem false json
      else if eventType = js "response.output_item.done" then
        fold.scanResponsesOutputItem true json
      else if eventType = js "response.completed" || eventType = js "response.failed" ||
          eventType = js "response.incomplete" then
        { fold with terminal := true, parsedResponses := true }
      else fold
  | _ => fold

end SseScanFold

open SseScanFold

variable (number : JsString → UInt64)

/-- What follows `data:`.  The scan throws on `null`, which has no properties. -/
def scanPayload (payload : JsString) (fold : SseScanFold) : Option SseScanFold :=
  if payload = [] then some fold
  else if payload = js "[DONE]" then some { fold with terminal := true }
  else
    match JsonText.parse number payload with
    | none => some fold
    | some .null => none
    | some json =>
        match json.get? (js "choices") with
        | some (.arr choices) =>
            some (choices.foldl (fun fold choice => fold.scanChatChoice choice) fold)
        | _ => some (fold.scanResponsesEvent json)

def scanSseLine (fold : SseScanFold) (line : JsString) : Option SseScanFold :=
  let trimmed := JsString.trimStart line
  if JsString.startsWith trimmed (js "data:") then
    scanPayload number (JsString.trim (trimmed.drop 5)) fold
  else some fold

/-- `scanOpenAiSseText`, with `none` when it throws. -/
def scanOpenAiSseText (sse : JsString) : Option SseScanFold :=
  (sse.splitOn lf).foldlM (scanSseLine number) {}

/-! ## The continuation -/

/-- The search for the longest overlap, from `k` units on. -/
def trimFrom (emitted continuation : JsString) : Nat → JsString
  | 0 => continuation
  | k + 1 =>
      if JsString.endsWith emitted (continuation.take (k + 1)) then continuation.drop (k + 1)
      else trimFrom emitted continuation k

def trimContinuationOverlap (emitted continuation : JsString) : JsString :=
  if continuation = [] then []
  else if emitted = [] then continuation
  else trimFrom emitted continuation (min (min emitted.length continuation.length) 512)

/-- `STREAM_RECOVERY.MIN_CONTINUATION_OVERLAP_CHARS`. -/
def minContinuationOverlapChars : Nat := 8

/-- A continuation that repeats too little of the text is taken for a new one. -/
def isSuspectedRestart (emitted continuation : JsString) : Bool :=
  !emitted.isEmpty && !continuation.isEmpty &&
    decide (continuation.length - (trimContinuationOverlap emitted continuation).length <
      minContinuationOverlapChars)

/-- `JSON.stringify`; the only number in these objects is zero. -/
def stringifyChunk (chunk : JsValue) : JsString := serialize (fun _ => js "0") chunk

def chatChunk (suffix : JsString) : JsValue :=
  .obj [(js "choices", .arr [.obj [(js "index", .num 0),
    (js "delta", .obj [(js "content", .str suffix)])]])]

/-- The event of the Responses API with the text. -/
def responsesChunk (suffix : JsString) : JsValue :=
  .obj [(js "type", .str (js "response.output_text.delta")), (js "output_index", .num 0),
    (js "content_index", .num 0), (js "delta", .str suffix)]

def responsesTerminal : JsString :=
  js "\x7b\"type\":\"response.completed\"," ++
    js "\"response\":\x7b\"status\":\"completed\",\"output\":[]\x7d\x7d"

def chatTerminal : JsString :=
  js "\x7b\"choices\":[\x7b\"index\":0,\"delta\":\x7b\x7d,\"finish_reason\":\"stop\"\x7d]\x7d"

/-! ## The window that is held back -/

structure HoldbackBuffer where
  chunks : List (List UInt8) := []
  bytes : Nat := 0
  startedAt : Option Nat := none
  committed : Bool := false
deriving DecidableEq

structure RecoverableStreamOptions where
  holdbackMs : Nat := 750
  maxBytes : Nat := 65536
  maxEarlyRetries : Nat := 4
  maxContinuations : Nat := 4
  /-- what the call with this number gives for the text so far: no stream, or the
  chunks until it ends or breaks -/
  continueStream : Option (Nat → JsString → Option (List (List UInt8))) := none
  /-- `STREAM_RECOVERY_TOOLCALL_ORDER_FIX` -/
  toolCallOrderFix : Bool := false

/-- `continueStream(assistantSoFar)`. -/
def RecoverableStreamOptions.ask (o : RecoverableStreamOptions) (attempt : Nat)
    (assistantSoFar : JsString) : Option (List (List UInt8)) :=
  match o.continueStream with
  | some continueStream => continueStream attempt assistantSoFar
  | none => none

namespace HoldbackBuffer

def flush (b : HoldbackBuffer) : List (List UInt8) × HoldbackBuffer :=
  if b.committed then ([], b) else (b.chunks, { committed := true })

def discard (b : HoldbackBuffer) : HoldbackBuffer := { committed := b.committed }

def push (o : RecoverableStreamOptions) (now : Nat) (chunk : List UInt8) (b : HoldbackBuffer) :
    List (List UInt8) × HoldbackBuffer :=
  if b.committed then ([chunk], b)
  else
    let startedAt := b.startedAt.getD now
    let held : HoldbackBuffer :=
      { b with
        chunks := b.chunks ++ [chunk]
        bytes := b.bytes + chunk.length
        startedAt := some startedAt }
    if held.bytes ≥ o.maxBytes || now - startedAt ≥ o.holdbackMs then held.flush else ([], held)

end HoldbackBuffer

def hasTerminalMarker (bytes : List UInt8) : Bool :=
  let text := Utf8Decoder.decodeAll bytes
  !bytes.isEmpty &&
    (JsString.includes text (js "[DONE]") || JsString.includes text (js "message_stop") ||
      JsString.includes text (js "response.completed") ||
      JsString.includes text (js "response.failed") ||
      JsString.includes text (js "response.incomplete"))

/-! ## The stream -/

inductive StreamStatus where
  | open
  | closed
  | errored
deriving DecidableEq

/-- `enqueued` are the chunks that the client has. -/
structure RecoverableStream where
  holdback : HoldbackBuffer := {}
  retries : Nat := 0
  trackDecoder : Utf8Decoder := {}
  continuations : Nat := 0
  emittedTail : JsString := []
  emittedText : JsString := []
  emittedReasoningText : JsString := []
  emittedFinishReason : Option JsString := none
  emittedTerminal : Bool := false
  emittedToolCallInFlight : Bool := false
  emittedSawToolCall : Bool := false
  emittedToolCallFinish : Bool := false
  emittedParsedOpenAi : Bool := false
  emittedParsedResponses : Bool := false
  enqueued : List (List UInt8) := []
  status : StreamStatus := .open
deriving DecidableEq

/-- `s.lastIndexOf(needle)`, with `none` for `-1`. -/
def lastIndexOf (needle : JsString) : JsString → Option Nat
  | [] => if needle.isEmpty then some 0 else none
  | c :: rest =>
      match lastIndexOf needle rest with
      | some i => some (i + 1)
      | none => if needle.isPrefixOf (c :: rest) then some 0 else none

/-- What `tryContinue` comes to: it throws, returns `false` or returns `true`. -/
inductive Continuation where
  | threw (s : RecoverableStream)
  | refused (s : RecoverableStream)
  | stitched (s : RecoverableStream)
deriving DecidableEq

def Continuation.stream : Continuation → RecoverableStream
  | .threw s | .refused s | .stitched s => s

inductive ReadResult where
  /-- a chunk, the time, and whether the throughput watchdog aborts the attempt -/
  | chunk (value : List UInt8) (now : Nat) (abort : Bool)
  | done
  | error (retryable : Bool)

/-- What a read settles with, and whether `reopen` would give a stream then. -/
structure Read where
  result : ReadResult
  reopens : Bool := false

variable (s : RecoverableStream)

namespace RecoverableStream

variable (o : RecoverableStreamOptions)

def enqueue (chunk : List UInt8) (s : RecoverableStream) : RecoverableStream :=
  { s with enqueued := s.enqueued ++ [chunk] }

/-- What the scan of complete events adds. -/
def fold (scan : SseScanFold) (s : RecoverableStream) : RecoverableStream :=
  { s with
    emittedText := s.emittedText ++ scan.text
    emittedReasoningText := s.emittedReasoningText ++ scan.reasoningText
    emittedFinishReason := scan.finishReason.or s.emittedFinishReason
    emittedTerminal := s.emittedTerminal || scan.terminal
    emittedToolCallInFlight := s.emittedToolCallInFlight || scan.sawToolCallInFlight
    emittedSawToolCall := s.emittedSawToolCall || scan.sawToolCall
    emittedToolCallFinish :=
      s.emittedToolCallFinish || scan.finishReason == some (js "tool_calls")
    emittedParsedOpenAi := s.emittedParsedOpenAi || scan.parsedOpenAi
    emittedParsedResponses := s.emittedParsedResponses || scan.parsedResponses }

/-- The events that a chunk completes; a scan that throws errors the stream. -/
def track (chunk : List UInt8) (s : RecoverableStream) : RecoverableStream :=
  let (decoder, units) := s.trackDecoder.decode chunk
  let tail := s.emittedTail ++ units
  match lastIndexOf (js "\n\n") tail with
  | none => { s with trackDecoder := decoder, emittedTail := tail }
  | some boundary =>
      let next := { s with trackDecoder := decoder, emittedTail := tail.drop (boundary + 2) }
      match scanOpenAiSseText number (tail.take (boundary + 2)) with
      | some scan => next.fold scan
      | none => { next with status := .errored }

def emit (s : RecoverableStream) (chunk : List UInt8) : RecoverableStream :=
  if s.status = .open then
    if o.continueStream.isSome then (s.enqueue chunk).track number chunk else s.enqueue chunk
  else s

def flushHeld (s : RecoverableStream) : RecoverableStream :=
  s.holdback.flush.1.foldl (emit number o) { s with holdback := s.holdback.flush.2 }

def hallucinatedEmptyStop : Bool :=
  s.emittedFinishReason == some (js "stop") && !s.emittedSawToolCall && s.emittedText.isEmpty &&
    !s.emittedReasoningText.isEmpty

def toolCallBlocksContinuation (s : RecoverableStream) : Bool :=
  (s.emittedSawToolCall || s.emittedToolCallFinish) && o.toolCallOrderFix

def canContinue (s : RecoverableStream) : Bool :=
  o.continueStream.isSome && decide (s.continuations < o.maxContinuations) &&
    (s.emittedParsedOpenAi || s.emittedParsedResponses) && !s.emittedToolCallInFlight &&
    (if s.emittedText.isEmpty then s.hallucinatedEmptyStop else !s.emittedTerminal) &&
    !s.toolCallBlocksContinuation o

def isResponsesTurn : Bool :=
  s.emittedParsedResponses && !s.emittedParsedOpenAi

/-- `encoder.encode` of an event with the text. -/
def encodeEvent (text : JsString) : List UInt8 := utf8 (EventStream.event text)

def emitCleanTerminal : RecoverableStream :=
  if s.isResponsesTurn then s.enqueue (encodeEvent responsesTerminal)
  else (s.enqueue (encodeEvent chatTerminal)).enqueue (encodeEvent (js "[DONE]"))

/-- The suffix, as an event in the format of the turn. -/
def emitSuffix (suffix : JsString) (s : RecoverableStream) : RecoverableStream :=
  if suffix = [] then s
  else if s.isResponsesTurn then
    emit number o s (encodeEvent (stringifyChunk (responsesChunk suffix)))
  else emit number o s (encodeEvent (stringifyChunk (chatChunk suffix)))

/-- `if (await tryContinue(controller)) return true; emitCleanTerminal(controller); return true`. -/
def orClose : Continuation → Continuation
  | .refused s => .stitched s.emitCleanTerminal
  | other => other

def nextAttempt : RecoverableStream :=
  { s with continuations := s.continuations + 1 }

/-- `tryContinue`, with as much fuel as there are continuations left. -/
def tryContinue : Nat → RecoverableStream → Continuation
  | 0, s => .refused s
  | fuel + 1, s =>
      if s.canContinue o then
        let s := s.nextAttempt
        match o.ask s.continuations s.emittedText with
        | none => .refused s
        | some chunks =>
            match scanOpenAiSseText number (Utf8Decoder.decode {} chunks.flatten).2 with
            | none => .threw s
            | some scan =>
                if isSuspectedRestart s.emittedText scan.text then orClose (tryContinue fuel s)
                else
                  let s := s.emitSuffix number o (trimContinuationOverlap s.emittedText scan.text)
                  if s.status = .open then
                    if scan.terminal || scan.sawToolCall then .stitched s.emitCleanTerminal
                    else if scan.text.isEmpty && o.toolCallOrderFix then
                      .stitched s.emitCleanTerminal
                    else orClose (tryContinue fuel s)
                  else .threw s
      else .refused s

/-- `tryContinue` with the continuations that are left. -/
def continueCut (s : RecoverableStream) : Continuation :=
  s.tryContinue number o (o.maxContinuations - s.continuations)

def finish (status : StreamStatus) (s : RecoverableStream) : RecoverableStream :=
  if s.status = .open then { s with status := status } else s

def tryReopen (reopens : Bool) (s : RecoverableStream) : Bool × RecoverableStream :=
  if s.retries ≥ o.maxEarlyRetries then (false, s)
  else if reopens then (true, { s with retries := s.retries + 1, holdback := s.holdback.discard })
  else (false, { s with retries := s.retries + 1 })

/-- A cut while the opening is held back. -/
def reopenOrFlush (reopens : Bool) (s : RecoverableStream) : RecoverableStream :=
  match s.tryReopen o reopens with
  | (true, s) => s
  | (false, s) => (s.flushHeld number o).finish .closed

/-- A cut after that; `otherwise` is how the stream ends when it is not continued. -/
def continueOr (otherwise : StreamStatus) (s : RecoverableStream) : RecoverableStream :=
  match s.continueCut number o with
  | .threw s => s.finish .errored
  | .refused s => s.finish otherwise
  | .stitched s => s.finish .closed

/-- One turn of the loop of `pull`. -/
def step (s : RecoverableStream) (read : Read) : RecoverableStream :=
  if s.status = .open then
    match read.result with
    | .error retryable =>
        if s.holdback.committed then
          if retryable then s.continueOr number o .errored else s.finish .errored
        else if retryable then s.reopenOrFlush number o read.reopens
        else (s.flushHeld number o).finish .closed
    | .done =>
        if s.holdback.committed then s.continueOr number o .closed
        else if hasTerminalMarker s.holdback.chunks.flatten then
          (s.flushHeld number o).finish .closed
        else s.reopenOrFlush number o read.reopens
    | .chunk value now abort =>
        if abort then
          if s.holdback.committed then s.continueOr number o .errored
          else s.reopenOrFlush number o read.reopens
        else if s.holdback.committed then s.emit number o value
        else
          let (chunks, holdback) := s.holdback.push o now value
          chunks.foldl (emit number o) { s with holdback := holdback }
  else s

def run (reads : List Read) : RecoverableStream := reads.foldl (step number o) {}

end RecoverableStream

end RedRouter.Services
