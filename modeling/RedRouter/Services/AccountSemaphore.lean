import Mathlib.Data.List.Sort
import RedRouter.Lib.JsMap
import RedRouter.Lib.JsString

/-!
# The account semaphore

Admission of requests through several gates at once: a request names the keys
it needs (global, provider, account), and is admitted when every gate has room
and it is the first in every queue.  Waiting takes no room in any gate.

A request that waits is in the queues of all its keys and in
`queuedRequests`.  A gate that is idle and not blocked is removed by a timer.

A block that is over is cleared when the code looks at it.  The model leaves
it, since `isBlocked` is false of it from then on.
-/

namespace RedRouter.Services.AccountSemaphore

inductive ErrorCode where
  | timeout
  | queueFull
deriving DecidableEq

structure SemaphoreError where
  code : ErrorCode
  message : JsString
deriving DecidableEq

/-- `AcquireRequest`.  A request is in `queuedRequests` as long as it is not
settled. -/
structure Request where
  id : Nat
  keys : List JsString
  timeoutMs : Nat
  dueAt : Nat
  /-- It has an abort signal. -/
  signal : Bool
deriving DecidableEq

structure AccountGate where
  running : Nat := 0
  maxConcurrency : Nat
  queue : List Request := []
  blockedUntil : Option Int := none
  /-- The timer of its cleanup is set. -/
  cleanupTimer : Bool := false
deriving DecidableEq

/-- A request that was admitted.  `released` is the flag of its release
function. -/
structure Grant where
  request : Request
  released : Bool := false
deriving DecidableEq

structure Semaphore where
  gates : JsMap JsString AccountGate := []
  queuedRequests : List Request := []
  grants : List Grant := []
  /-- The calls that came to the gates, in order of arrival. -/
  calls : List Request := []
  now : Nat := 0
deriving DecidableEq

structure Requirement where
  key : JsString
  /-- `none` for a limit that is missing or not finite. -/
  maxConcurrency : Option Rat
deriving DecidableEq

structure AcquireOptions where
  timeoutMs : Nat := 30000
  /-- The abort signal, and whether it is aborted already. -/
  signal : Option Bool := none
  maxQueueSize : Int := 20
  failFast : Bool := false
deriving DecidableEq

inductive Acquired where
  | bypassed
  | aborted
  | granted (grant : Nat)
  | rejected (error : SemaphoreError)
  | waiting (id : Nat)
deriving DecidableEq

def isBypassed : Option Rat → Bool
  | none => true
  | some maxConcurrency => maxConcurrency ≤ 0

/-- The keys with a limit, each with the smallest one. -/
def enabledLimits : List Requirement → JsMap JsString Nat → JsMap JsString Nat
  | [], enabled => enabled
  | requirement :: requirements, enabled =>
      match requirement.maxConcurrency with
      | none => enabledLimits requirements enabled
      | some maxConcurrency =>
          if isBypassed (some maxConcurrency) then enabledLimits requirements enabled
          else
            let limit := maxConcurrency.floor.toNat
            enabledLimits requirements (enabled.set requirement.key
                (min ((enabled.get requirement.key).getD limit) limit))

/-- `[...enabled.keys()].sort()`. -/
def sortedKeys (enabled : JsMap JsString Nat) : List JsString :=
  enabled.keys.insertionSort (· ≤ ·)

namespace AccountGate

def isBlocked (gate : AccountGate) (now : Nat) : Bool :=
  gate.blockedUntil.any fun blockedUntil => (now : Int) < blockedUntil

def isOpen (gate : AccountGate) (now : Nat) : Bool :=
  !gate.isBlocked now && gate.running < gate.maxConcurrency

/-- `scheduleCleanup` when the gate is idle. -/
def scheduleIfIdle (gate : AccountGate) : AccountGate :=
  if gate.running = 0 ∧ gate.queue = [] then { gate with cleanupTimer := true } else gate

end AccountGate

variable (key : JsString) (s : Semaphore) (request : Request)

namespace Semaphore

def ensureGate (maxConcurrency : Nat) (gates : JsMap JsString AccountGate) :
    JsMap JsString AccountGate :=
  match gates.get key with
  | some gate => gates.set key { gate with maxConcurrency := maxConcurrency }
  | none => gates.set key { maxConcurrency := maxConcurrency }

/-- The loop of `acquireMany` over its keys: `ensureGate` and
`clearCleanupTimer`. -/
def ensureGates (enabled : JsMap JsString Nat) (keys : List JsString)
    (gates : JsMap JsString AccountGate) : JsMap JsString AccountGate :=
  keys.foldl (fun gates key => (ensureGate key ((enabled.get key).getD 0) gates).modify key
      fun gate => { gate with cleanupTimer := false })
    gates

def cleanupGateIfIdle : Semaphore :=
  match s.gates.get key with
  | none => s
  | some gate =>
      if 0 < gate.running ∨ gate.queue ≠ [] ∨ gate.isBlocked s.now then s
      else { s with gates := s.gates.delete key }

/-- The cleanup timer of a gate fires. -/
def onCleanup : Semaphore :=
  match s.gates.get key with
  | none => s
  | some gate =>
      if gate.cleanupTimer then
        { s with gates := s.gates.set key { gate with cleanupTimer := false } }.cleanupGateIfIdle key
      else s

def removeRequest (s : Semaphore) : Semaphore :=
  { s with
    queuedRequests := s.queuedRequests.erase request
    gates := s.gates.modifyAll request.keys fun gate =>
      ({ gate with queue := gate.queue.erase request }).scheduleIfIdle }

/-- The request can be admitted: it is the first in all its queues, and all
its gates are open. -/
def canAcquire : Bool :=
  request.keys.all fun key =>
    match s.gates.get key with
    | none => false
    | some gate => gate.isOpen s.now && decide (gate.queue.head? = some request)

/-- Take a place in each gate. -/
def occupy (s : Semaphore) : Semaphore :=
  { s with
    gates := s.gates.modifyAll request.keys fun gate => { gate with running := gate.running + 1 }
    grants := s.grants ++ [⟨request, false⟩] }

/-- One round of `drainQueues`: the first request that can be admitted. -/
def drainOne : Option Semaphore :=
  (s.queuedRequests.find? s.canAcquire).map fun request => (s.removeRequest request).occupy request

def drainRounds : Nat → Semaphore → Semaphore
  | 0, s => s
  | rounds + 1, s =>
      match s.drainOne with
      | none => s
      | some s => drainRounds rounds s

/-- Every round takes a request out of `queuedRequests`. -/
def drainQueues : Semaphore := drainRounds s.queuedRequests.length s

def release (i : Nat) (s : Semaphore) : Semaphore :=
  match s.grants[i]? with
  | none => s
  | some grant =>
      if grant.released then s
      else
        let keys := grant.request.keys
        let s :=
          { s with
            grants := s.grants.set i { grant with released := true }
            gates := s.gates.modifyAll keys fun gate => { gate with running := gate.running - 1 } }
        let s := s.drainQueues
        { s with gates := s.gates.modifyAll keys AccountGate.scheduleIfIdle }

def failFastError (keys : List JsString) : SemaphoreError :=
  ⟨.queueFull, js "Semaphore busy (fail-fast) for " ++ keys.headD []⟩

def queueFullError (maxQueueSize : Int) (key : JsString) : SemaphoreError :=
  ⟨.queueFull, js "Semaphore queue full (" ++ JsString.ofNat maxQueueSize.toNat ++ js ") for " ++ key⟩

def timeoutError (timeoutMs : Nat) (keys : List JsString) : SemaphoreError :=
  ⟨.timeout, js "Semaphore timeout after " ++ JsString.ofNat timeoutMs ++ js "ms for " ++
    JsString.join (js ",") keys⟩

def findQueueRejection (keys : List JsString) (maxQueueSize : Int) (failFast : Bool)
    (s : Semaphore) : Option SemaphoreError :=
  if failFast then some (failFastError keys)
  else if maxQueueSize ≤ 0 then none
  else
    (keys.find? fun key =>
      maxQueueSize ≤ (((s.gates.get key).map AccountGate.queue).getD []).length).map
        (queueFullError maxQueueSize)

/-- Every gate is open and has no queue. -/
def canAcquireImmediately (keys : List JsString) (s : Semaphore) : Bool :=
  keys.all fun key =>
    match s.gates.get key with
    | none => false
    | some gate => decide (gate.queue = []) && gate.isOpen s.now

/-- A request enters `queuedRequests` and the queues of its keys. -/
def enqueue (s : Semaphore) : Semaphore :=
  { s with
    queuedRequests := s.queuedRequests ++ [request]
    gates := s.gates.modifyAll request.keys fun gate =>
      { gate with queue := gate.queue ++ [request] } }

/-- Acquire all enabled requirements as one reservation. -/
def acquireMany (requirements : List Requirement) (options : AcquireOptions) (s : Semaphore) :
    Acquired × Semaphore :=
  let enabled := enabledLimits requirements []
  if enabled.length = 0 then (.bypassed, s)
  else if options.signal = some true then (.aborted, s)
  else
    let keys := sortedKeys enabled
    let request : Request :=
      { id := s.calls.length
        keys := keys
        timeoutMs := options.timeoutMs
        dueAt := s.now + options.timeoutMs
        signal := options.signal.isSome }
    let s := { s with gates := ensureGates enabled keys s.gates, calls := s.calls ++ [request] }
    if s.canAcquireImmediately keys then (.granted s.grants.length, s.occupy request)
    else
      match s.findQueueRejection keys options.maxQueueSize options.failFast with
      | some error => (.rejected error, s)
      | none => (.waiting request.id, (s.enqueue request).drainQueues)

def acquire (maxConcurrency : Option Rat) (options : AcquireOptions)
    (s : Semaphore) : Acquired × Semaphore :=
  s.acquireMany [⟨key, maxConcurrency⟩] options

def giveUp (s : Semaphore) : Semaphore := (s.removeRequest request).drainQueues

def onTimeout (id : Nat) (s : Semaphore) : Option SemaphoreError × Semaphore :=
  match s.queuedRequests.find? fun request => request.id = id ∧ request.dueAt ≤ s.now with
  | none => (none, s)
  | some request => (some (timeoutError request.timeoutMs request.keys), s.giveUp request)

def onAbort (id : Nat) (s : Semaphore) : Semaphore :=
  match s.queuedRequests.find? fun request => request.id = id ∧ request.signal with
  | none => s
  | some request => s.giveUp request

/-- When a block ends: a date (`none` for an invalid one), or a delay. -/
inductive Until where
  | date (untilMs : Option Int)
  | delay (ms : Int)
deriving DecidableEq

def Until.untilMs (now : Nat) : Until → Option Int
  | .date untilMs => untilMs
  | .delay ms => some (now + max 0 ms)

def markBlocked (until_ : Until) (s : Semaphore) : Semaphore :=
  match until_.untilMs s.now with
  | none => s
  | some untilMs =>
      if untilMs ≤ s.now then s
      else
        let maxConcurrency := ((s.gates.get key).map AccountGate.maxConcurrency).getD 1
        { s with
          gates := (ensureGate key maxConcurrency s.gates).modify key fun gate =>
            { gate with cleanupTimer := false, blockedUntil := some untilMs } }

def unblock : Semaphore :=
  match s.gates.get key with
  | none => s
  | some gate =>
      ({ s with gates := s.gates.set key { gate with blockedUntil := none } }.drainQueues).cleanupGateIfIdle
        key

end Semaphore

inductive Event where
  | acquireMany (requirements : List Requirement) (options : AcquireOptions)
  | release (grant : Nat)
  | timeout (id : Nat)
  | abort (id : Nat)
  | markBlocked (key : JsString) (until_ : Semaphore.Until)
  | unblock (key : JsString)
  | cleanup (key : JsString)
  | advance (ms : Nat)

namespace Semaphore

def step : Event → Semaphore
  | .acquireMany requirements options => (s.acquireMany requirements options).2
  | .release grant => s.release grant
  | .timeout id => (s.onTimeout id).2
  | .abort id => s.onAbort id
  | .markBlocked key until_ => s.markBlocked key until_
  | .unblock key => s.unblock key
  | .cleanup key => s.onCleanup key
  | .advance ms => { s with now := s.now + ms }

def run (now : Nat) (events : List Event) : Semaphore := events.foldl step { now := now }

end Semaphore

end RedRouter.Services.AccountSemaphore
