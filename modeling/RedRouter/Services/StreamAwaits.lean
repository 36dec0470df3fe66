import RedRouter.Services.StreamRecovery

/-!
# The awaits of a recovered stream

The model of `createRecoverableStream` at each of its awaits, where the client
may cancel: the read of the upstream, the cancel of a dead reader, the request
for another stream and for a continuation, and the reads of the continuation.
What a promise settles with is an event, and so are the `pull` and the `cancel`
of the client.

Each upstream stream has a number, in the order in which they were obtained, and
the session knows what became of it.  An event that nothing waits for changes
nothing.  When the client has cancelled, the platform takes no more chunks:
`enqueue` throws, and with it the `pull` ends.
-/

namespace RedRouter.Services

inductive UpstreamFate where
  | live
  | ended
  | cancelled
deriving DecidableEq

/-- An upstream stream, with the chunks that were read from it.  The chunk at
which the watchdog aborts belongs to none. -/
structure Upstream where
  received : List (List UInt8) := []
  fate : UpstreamFate := .live
deriving DecidableEq

/-- Where `pull` stands.  A continuation knows how the stream ends when it is
refused, unless another continuation asked for it. -/
inductive PullPhase where
  | idle
  | reading
  /-- `await reader.cancel(error)` of `tryReopen` -/
  | cancellingOld
  | reopening
  /-- `await reader.cancel(error)` after a commit -/
  | cancellingActive
  | continuing (otherwise : Option StreamStatus)
  | draining (upstream : Nat) (raw : List UInt8)
  /-- the last `pull` has returned or thrown -/
  | returned
deriving DecidableEq

structure RecoverySession where
  stream : RecoverableStream := {}
  cancelled : Bool := false
  finalized : Bool := false
  /-- how often `options.finalize` was called -/
  finalizeCalls : Nat := 0
  /-- how often `reopen` was called -/
  reopenCalls : Nat := 0
  reader : Nat := 0
  upstreams : List Upstream := [{}]
  phase : PullPhase := .idle
deriving DecidableEq

inductive SessionEvent where
  | pull
  | readSettles (result : ReadResult)
  | cancelSettles
  | reopenSettles (stream : Bool)
  | continueSettles (stream : Bool)
  /-- a chunk, or the end or a break of the continuation -/
  | drainSettles (chunk : Option (List UInt8))
  /-- `queued`: a closed stream still has chunks, so that a cancel reaches it -/
  | clientCancel (queued : Bool)

/-- A read settles with the end of the stream. -/
def Upstream.finish (u : Upstream) : Upstream :=
  if u.fate = .live then { u with fate := .ended } else u

def Upstream.cancel (u : Upstream) : Upstream :=
  if u.fate = .live then { u with fate := .cancelled } else u

def Upstream.settle (u : Upstream) : ReadResult → Upstream
  | .chunk value _ abort => if abort then u else { u with received := u.received ++ [value] }
  | .done => u.finish
  | .error _ => u.finish

/-- What a read leaves of the continuation it is from. -/
def Upstream.drain (u : Upstream) : Option (List UInt8) → Upstream
  | some value => { u with received := u.received ++ [value] }
  | none => u.finish

variable (s : RecoverySession)

namespace RecoverySession

variable (number : JsString → UInt64) (o : RecoverableStreamOptions)

def runFinalize : RecoverySession :=
  if s.finalized then s
  else { s with finalized := true, finalizeCalls := s.finalizeCalls + 1 }

def setUpstream (id : Nat) (f : Upstream → Upstream) (s : RecoverySession) : RecoverySession :=
  { s with upstreams := s.upstreams.modify id f }

/-- `reader.cancel(…)`. -/
def cancelReader : RecoverySession :=
  s.setUpstream s.reader Upstream.cancel

/-- `runFinalize()`, and the stream closes or errors. -/
def finish (status : StreamStatus) (s : RecoverySession) : RecoverySession :=
  { s.runFinalize with stream := s.stream.finish status, phase := .returned }

def throw : RecoverySession :=
  { s with stream := s.stream.finish .errored, phase := .returned }

/-- Emit whatever was held, then close. -/
def flushAndClose (s : RecoverySession) : RecoverySession :=
  let stream := s.stream.flushHeld number o
  if stream.status = .errored then { s with stream := stream }.throw
  else finish .closed { s with stream := stream }

/-- `emitCleanTerminal(controller)`, and close. -/
def terminalAndClose : RecoverySession :=
  if s.stream.status = .open then finish .closed { s with stream := s.stream.emitCleanTerminal }
  else s.throw

/-- `tryReopen`, up to its first await; `otherwise` is taken when it returns
`false` at once. -/
def tryReopen (s otherwise : RecoverySession) : RecoverySession :=
  if s.cancelled || s.stream.retries ≥ o.maxEarlyRetries then otherwise
  else
    { s with
      stream := { s.stream with retries := s.stream.retries + 1 }
      phase := .cancellingOld }.cancelReader

/-- `tryContinue` returns `false`. -/
def refuseContinuation (otherwise : Option StreamStatus) (s : RecoverySession) : RecoverySession :=
  match otherwise with
  | some status => s.finish status
  | none => s.terminalAndClose

/-- `tryContinue`, up to its first await. -/
def tryContinue (otherwise : Option StreamStatus) (s : RecoverySession) : RecoverySession :=
  if s.stream.canContinue o then
    { s with stream := s.stream.nextAttempt, phase := .continuing otherwise }
  else s.refuseContinuation otherwise

/-- The chunks of the main stream reach the client, and the pull returns. -/
def emitAll (chunks : List (List UInt8)) (s : RecoverySession) : RecoverySession :=
  let stream := chunks.foldl (RecoverableStream.emit number o) s.stream
  if stream.status = .errored then { s with stream := stream }.throw
  else { s with stream := stream, phase := .idle }

/-- What `pull` does with a chunk that the watchdog does not abort at. -/
def onChunk (value : List UInt8) (now : Nat) (s : RecoverySession) : RecoverySession :=
  if s.stream.holdback.committed then s.emitAll number o [value]
  else
    let (chunks, holdback) := s.stream.holdback.push o now value
    let s := { s with stream := { s.stream with holdback := holdback } }
    if chunks.length > 0 then s.emitAll number o chunks else s

/-- What `pull` does when its read settles and the client has not cancelled. -/
def onRead (result : ReadResult) (s : RecoverySession) : RecoverySession :=
  match result with
  | .error retryable =>
      if s.stream.holdback.committed then
        if retryable then s.tryContinue o (some .errored) else s.finish .errored
      else if retryable then s.tryReopen o (s.flushAndClose number o)
      else s.flushAndClose number o
  | .done =>
      if s.stream.holdback.committed then s.tryContinue o (some .closed)
      else if hasTerminalMarker s.stream.holdback.chunks.flatten then s.flushAndClose number o
      else s.tryReopen o (s.flushAndClose number o)
  | .chunk value now abort =>
      if abort then
        if s.stream.holdback.committed then
          { s.cancelReader with phase := .cancellingActive }
        else s.tryReopen o (s.flushAndClose number o)
      else s.onChunk number o value now

/-- The continuation has been read to its end. -/
def onDrained (raw : List UInt8) (s : RecoverySession) : RecoverySession :=
  match scanOpenAiSseText number (Utf8Decoder.decode {} raw).2 with
  | none => s.throw
  | some scan =>
      if isSuspectedRestart s.stream.emittedText scan.text then s.tryContinue o none
      else
        let suffix := trimContinuationOverlap s.stream.emittedText scan.text
        let s := { s with stream := s.stream.emitSuffix number o suffix }
        if suffix ≠ [] ∧ s.stream.status ≠ .open then s.throw
        else if scan.terminal || scan.sawToolCall then s.terminalAndClose
        else if scan.text.isEmpty && o.toolCallOrderFix then s.terminalAndClose
        else s.tryContinue o none

/-- The `cancel` of the wrapped stream. -/
def onCancel : RecoverySession :=
  { s.runFinalize.cancelReader with
    cancelled := true
    stream := s.stream.finish .closed }

def step (s : RecoverySession) : SessionEvent → RecoverySession
  | .pull => if s.phase = .idle ∧ s.stream.status = .open then { s with phase := .reading } else s
  | .readSettles result =>
      if s.phase = .reading then
        let s := s.setUpstream s.reader (·.settle result)
        if s.cancelled then { s with phase := .returned } else s.onRead number o result
      else s
  | .cancelSettles =>
      match s.phase with
      | .cancellingOld => { s with phase := .reopening, reopenCalls := s.reopenCalls + 1 }
      | .cancellingActive => s.tryContinue o (some .errored)
      | _ => s
  | .reopenSettles stream =>
      if s.phase = .reopening then
        if stream then
          { s with
            stream := { s.stream with holdback := s.stream.holdback.discard }
            reader := s.upstreams.length
            upstreams := s.upstreams ++ [{}]
            phase := .reading }
        else s.flushAndClose number o
      else s
  | .continueSettles stream =>
      match s.phase with
      | .continuing otherwise =>
          if stream then
            { s with
              upstreams := s.upstreams ++ [{}]
              phase := .draining s.upstreams.length [] }
          else s.refuseContinuation otherwise
      | _ => s
  | .drainSettles chunk =>
      match s.phase with
      | .draining id raw =>
          let s := s.setUpstream id (·.drain chunk)
          match chunk with
          | some value => { s with phase := .draining id (raw ++ value) }
          | none => s.onDrained number o raw
      | _ => s
  | .clientCancel queued =>
      if !s.cancelled ∧ (s.stream.status = .open ∨ s.stream.status = .closed ∧ queued) then
        s.onCancel
      else s

def run (events : List SessionEvent) : RecoverySession := events.foldl (step number o) {}

end RecoverySession

end RedRouter.Services
