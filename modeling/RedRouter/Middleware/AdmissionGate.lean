import Mathlib.Data.Rat.Floor
import RedRouter.Middleware.FairLanes

/-!
# The gate of an admission budget

What `ChatAdmissionController` and `IngestByteAdmissionController` share: a
limit, leases that charge it, and calls that wait for room.  A heavyweight
lease charges one slot, an ingest lease charges its bytes.

A waiting call is suspended in `Promise.race`.  A release takes one waiter out
of the queues and resolves its promise; one microtask later that settles the
race, unless the signal or the timer of the call has settled it first; later
still the call goes on.  Each of these is an event of its own, so that a run is
any interleaving of them.  The timer of a call may fire at any time.

The leases that the state holds are those that were not released.  Bytes and
slots are natural numbers.
-/

namespace RedRouter.Middleware

inductive ShedReason where
  | queueTimeout
  | queuedBytesBudget
  | bodyExceedsBudget
  | inflightBytesBudget
deriving DecidableEq

structure GateOptions where
  /-- `maxHeavyInFlight`, or `maxInflightBytes` -/
  limit : Nat
  maxQueuedBytes : Nat
  timeoutReason : ShedReason

/-- What a call that waits was called with. -/
structure WaitRequest where
  charge : Nat
  queuedBytes : Nat
  signal : Option Nat
  sessionKey : JsString
  deadline : Int
deriving DecidableEq

/-- A call that awaits its race. -/
structure SuspendedCall where
  waiter : AdmissionWaiter
  request : WaitRequest
  /-- `resolve()` was called -/
  woken : Bool := false
  /-- `timedOut`, once the race has settled -/
  settled : Option Bool := none
deriving DecidableEq

structure AdmissionLease where
  token : Nat
  charge : Nat
deriving DecidableEq

structure Gate where
  /-- `activeHeavy`, or `inflightBytes` -/
  inUse : Nat := 0
  queuedBytes : Nat := 0
  lanes : FairLanes := {}
  suspended : List SuspendedCall := []
  leases : List AdmissionLease := []
  abortedSignals : List Nat := []
  nextId : Nat := 0
  /-- the sheds that were recorded, each with its lane -/
  sheds : List (ShedReason × JsString) := []
deriving DecidableEq

/-- What a call has come to. -/
inductive Outcome where
  | acquired (lease : AdmissionLease)
  | refused
  | waiting (waiter : AdmissionWaiter)

variable (options : GateOptions)

namespace Gate

def aborted (g : Gate) (signal : Option Nat) : Bool :=
  match signal with
  | some signal => g.abortedSignals.contains signal
  | none => false

def recordShed (reason : ShedReason) (lane : JsString) (g : Gate) : Gate :=
  { g with sheds := g.sheds ++ [(reason, lane)] }

def tryAcquire (limit charge : Nat) (g : Gate) : Option AdmissionLease × Gate :=
  if limit < g.inUse + charge then (none, g)
  else
    let lease := { token := g.nextId, charge := charge }
    (some lease,
      { g with inUse := g.inUse + charge, leases := lease :: g.leases, nextId := g.nextId + 1 })

/-- `resolve()` of a waiter. -/
def resolve (waiter : AdmissionWaiter) (g : Gate) : Gate :=
  { g with
    suspended := g.suspended.map fun call =>
      if call.waiter = waiter then { call with woken := true } else call }

def dispatchFair (g : Gate) : Gate :=
  match g.lanes.dispatchFair with
  | (some waiter, lanes) => { g with lanes := lanes }.resolve waiter
  | (none, lanes) => { g with lanes := lanes }

/-- `release()` of a lease, which does nothing when it was released. -/
def release (token : Nat) (g : Gate) : Gate :=
  match g.leases.find? fun lease => lease.token == token with
  | none => g
  | some lease =>
      { g with inUse := g.inUse - lease.charge, leases := g.leases.erase lease }.dispatchFair

/-- The way into the race. -/
def park (request : WaitRequest) (g : Gate) : Outcome × Gate :=
  let waiter := { key := request.sessionKey, id := g.nextId }
  (.waiting waiter,
    { g with
      queuedBytes := g.queuedBytes + request.queuedBytes
      lanes := g.lanes.push waiter
      suspended := g.suspended ++ [{ waiter := waiter, request := request }]
      nextId := g.nextId + 1 })

/-- The loop of a waiting call, from its top up to its race. -/
def enter (request : WaitRequest) (now : Int) (g : Gate) : Outcome × Gate :=
  if g.aborted request.signal then (.refused, g)
  else
    match g.tryAcquire options.limit request.charge with
    | (some lease, g) => (.acquired lease, g)
    | (none, g) =>
        if request.deadline - now ≤ 0 then
          (.refused, g.recordShed options.timeoutReason request.sessionKey)
        else if 0 < request.queuedBytes ∧
            options.maxQueuedBytes < g.queuedBytes + request.queuedBytes then
          (.refused, g.recordShed .queuedBytesBudget request.sessionKey)
        else g.park request

/-- The call as a whole, up to its first race.  The clock is read twice. -/
def acquireWithin (charge queuedBytes : Nat) (timeoutMs : ℚ)
    (signal : Option Nat) (sessionKey : JsString) (start now : Int) (g : Gate) : Outcome × Gate :=
  g.enter options
    { charge := charge
      queuedBytes := queuedBytes
      signal := signal
      sessionKey := sessionKey
      deadline := start + max 0 ⌊timeoutMs⌋ } now

def leave (call : SuspendedCall) (g : Gate) : Gate :=
  { g with
    queuedBytes := g.queuedBytes - call.request.queuedBytes
    lanes := g.lanes.removeWaiter call.waiter
    suspended := g.suspended.erase call }

/-- A call whose race has settled goes on. -/
def resume (id : Nat) (now : Int) (g : Gate) : Option Outcome × Gate :=
  match g.suspended.find? fun call => call.waiter.id == id && call.settled.isSome with
  | none => (none, g)
  | some call =>
      let g := g.leave call
      if call.settled = some true then
        (some .refused,
          if g.aborted call.request.signal then g
          else g.recordShed options.timeoutReason call.request.sessionKey)
      else
        let (outcome, g) := g.enter options call.request now
        (some outcome, g)

/-- The race of some calls settles, where it has not. -/
def settle (timedOut : Bool) (which : SuspendedCall → Bool) (g : Gate) : Gate :=
  { g with
    suspended := g.suspended.map fun call =>
      if which call then { call with settled := call.settled.or (some timedOut) } else call }

/-- The `abort` event of a signal, which comes to each call that listens. -/
def abort (signal : Nat) (g : Gate) : Gate :=
  { g with abortedSignals := signal :: g.abortedSignals }.settle true
    fun call => call.request.signal == some signal

def timeout (id : Nat) (g : Gate) : Gate := g.settle true fun call => call.waiter.id == id

/-- The microtask after `resolve()`. -/
def wake (id : Nat) (g : Gate) : Gate :=
  g.settle false fun call => call.waiter.id == id && call.woken

inductive Event where
  | acquireWithin (charge queuedBytes : Nat) (timeoutMs : ℚ) (signal : Option Nat)
      (sessionKey : JsString) (start now : Int)
  | tryAcquire (charge : Nat)
  | release (token : Nat)
  | abort (signal : Nat)
  | timeout (id : Nat)
  | wake (id : Nat)
  | resume (id : Nat) (now : Int)
  | recordShed (reason : ShedReason) (lane : JsString)

def step (g : Gate) : Event → Gate
  | .acquireWithin charge queuedBytes timeoutMs signal sessionKey start now =>
      (g.acquireWithin options charge queuedBytes timeoutMs signal sessionKey start now).2
  | .tryAcquire charge => (g.tryAcquire options.limit charge).2
  | .release token => g.release token
  | .abort signal => g.abort signal
  | .timeout id => g.timeout id
  | .wake id => g.wake id
  | .resume id now => (g.resume options id now).2
  | .recordShed reason lane => g.recordShed reason lane

def run (events : List Event) : Gate := events.foldl (step options) {}

end Gate

end RedRouter.Middleware
