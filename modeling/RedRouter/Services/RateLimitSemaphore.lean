import RedRouter.Lib.JsMap
import RedRouter.Lib.JsString

/-!
# The rate-limit semaphore

A limiter of concurrent requests for each model, with a FIFO queue.  A model
that hit a rate limit is paused: nothing is granted until the cooldown is
over.

The gate of a model is an object.  Two kinds of timers keep a reference to it
(the timeout of a waiting request, and the drain after a cooldown), while the
operations look the gate up by the name of the model.  A gate that was removed
from `gates` and one that took its place are different objects, so the gates
live in a heap and `gates` maps a model to a reference.
-/

namespace RedRouter.Services.RateLimit

/-- A waiting request, named by its timer. -/
structure QueueItem where
  timer : Nat
deriving DecidableEq

structure ModelGate where
  running : Nat := 0
  max : Nat
  queue : List QueueItem := []
  rateLimitedUntil : Option Int := none
deriving DecidableEq

/-- The timeout of a waiting request. -/
structure WaitTimer where
  timer : Nat
  dueAt : Nat
  gate : Nat
  modelStr : JsString
  timeoutMs : Nat
deriving DecidableEq

/-- The drain that `markRateLimited` scheduled. -/
structure CooldownTimer where
  dueAt : Int
  gate : Nat
  modelStr : JsString
deriving DecidableEq

/-- A granted slot.  `released` is the flag of its release function. -/
structure Slot where
  modelStr : JsString
  grantedAt : Nat
  released : Bool := false
deriving DecidableEq

structure Semaphore where
  gates : JsMap JsString Nat := []
  /-- The gate behind a reference, and the number of references in use. -/
  heap : Nat → ModelGate := fun _ => { max := 3 }
  allocated : Nat := 0
  waitTimers : List WaitTimer := []
  cooldownTimers : List CooldownTimer := []
  slots : List Slot := []
  nextTimer : Nat := 0
  now : Nat := 0

structure AcquireOptions where
  maxConcurrency : Nat := 3
  timeoutMs : Nat := 30000
  maxQueueSize : Option Int := none
deriving DecidableEq

inductive ErrorCode where
  | timeout
  | queueFull
deriving DecidableEq

structure SemaphoreError where
  code : ErrorCode
  message : JsString
deriving DecidableEq

/-- What a call of `acquire` gives back. -/
inductive Acquired where
  | granted (slot : Nat)
  | waiting (timer : Nat)
  | rejected (error : SemaphoreError)
deriving DecidableEq

namespace ModelGate

/-- `isRateLimited`, and the gate after it: a cooldown that is over is
cleared. -/
def isRateLimited (gate : ModelGate) (now : Nat) : Bool × ModelGate :=
  match gate.rateLimitedUntil with
  | none => (false, gate)
  | some 0 => (false, gate)
  | some rateLimitedUntil =>
      if rateLimitedUntil ≤ now then (false, { gate with rateLimitedUntil := none })
      else (true, gate)

/-- `gate.running < gate.max && !isRateLimited(gate)`, and the gate after it. -/
def hasSlot (gate : ModelGate) (now : Nat) : Bool × ModelGate :=
  if gate.running < gate.max then
    let (limited, gate) := gate.isRateLimited now
    (!limited, gate)
  else (false, gate)

/-- The loop of `drainQueue`: the gate after it and the requests it granted. -/
def drain (now : Nat) : ModelGate → List QueueItem → ModelGate × List QueueItem
  | gate, [] => ({ gate with queue := [] }, [])
  | gate, next :: queue =>
      let (free, gate) := gate.hasSlot now
      if free then
        let (gate, granted) := drain now { gate with running := gate.running + 1 } queue
        (gate, next :: granted)
      else ({ gate with queue := next :: queue }, [])

end ModelGate

variable (modelStr : JsString)

namespace Semaphore

def put (g : Nat) (gate : ModelGate) (s : Semaphore) : Semaphore :=
  { s with heap := fun g' => if g' = g then gate else s.heap g' }

def gateOf (s : Semaphore) (modelStr : JsString) : Option ModelGate :=
  (s.gates.get modelStr).map s.heap

def getGate (maxConcurrency : Nat) (s : Semaphore) : Nat × Semaphore :=
  match s.gates.get modelStr with
  | some g => (g, s.put g { s.heap g with max := maxConcurrency })
  | none =>
      (s.allocated,
        { s.put s.allocated { max := maxConcurrency } with
          gates := s.gates.set modelStr s.allocated
          allocated := s.allocated + 1 })

/-- Resolve waiting requests: their timers are cleared and each gets a slot. -/
def resolve (granted : List QueueItem) (s : Semaphore) : Semaphore :=
  { s with
    waitTimers := s.waitTimers.filter fun t => ¬ (⟨t.timer⟩ : QueueItem) ∈ granted
    slots := s.slots ++ granted.map fun _ => ⟨modelStr, s.now, false⟩ }

def drainQueue (s : Semaphore) : Semaphore :=
  match s.gates.get modelStr with
  | none => s
  | some g =>
      let (gate, granted) := (s.heap g).drain s.now (s.heap g).queue
      let s := (s.put g gate).resolve modelStr granted
      if gate.running = 0 ∧ gate.queue = [] then { s with gates := s.gates.delete modelStr } else s

def giveBack (s : Semaphore) : Semaphore :=
  match s.gates.get modelStr with
  | none => s
  | some g =>
      if 0 < (s.heap g).running then
        let gate := { s.heap g with running := (s.heap g).running - 1 }
        if gate.running = 0 ∧ gate.queue = [] then
          { s.put g gate with gates := s.gates.delete modelStr }
        else (s.put g gate).drainQueue modelStr
      else s

def release (i : Nat) (s : Semaphore) : Semaphore :=
  match s.slots[i]? with
  | none => s
  | some slot =>
      if slot.released then s
      else { s with slots := s.slots.set i { slot with released := true } }.giveBack slot.modelStr

def queueFullError (maxQueueSize : Int) (modelStr : JsString) : SemaphoreError :=
  ⟨.queueFull, js "Semaphore queue full (" ++ JsString.ofNat maxQueueSize.toNat ++ js ") for " ++
    modelStr⟩

def timeoutError (timeoutMs : Nat) (modelStr : JsString) : SemaphoreError :=
  ⟨.timeout, js "Semaphore timeout after " ++ JsString.ofNat timeoutMs ++ js "ms for " ++ modelStr⟩

/-- The queue of the gate is as deep as the caller allows. -/
def queueFull (maxQueueSize : Option Int) (gate : ModelGate) : Option Int :=
  maxQueueSize.filter fun size => 0 ≤ size ∧ size ≤ gate.queue.length

def acquire (options : AcquireOptions) (s : Semaphore) : Acquired × Semaphore :=
  let (g, s) := s.getGate modelStr options.maxConcurrency
  let (free, gate) := (s.heap g).hasSlot s.now
  let s := s.put g gate
  if free then
    (.granted s.slots.length,
      { s.put g { gate with running := gate.running + 1 } with
        slots := s.slots ++ [⟨modelStr, s.now, false⟩] })
  else
    match queueFull options.maxQueueSize gate with
    | some maxQueueSize =>
        (.rejected (queueFullError maxQueueSize modelStr),
          if gate.running = 0 ∧ gate.queue = [] then { s with gates := s.gates.delete modelStr }
          else s)
    | none =>
        (.waiting s.nextTimer,
          { s.put g { gate with queue := gate.queue ++ [⟨s.nextTimer⟩] } with
            waitTimers := s.waitTimers ++
              [⟨s.nextTimer, s.now + options.timeoutMs, g, modelStr, options.timeoutMs⟩]
            nextTimer := s.nextTimer + 1 })

/-- The timeout of a waiting request fires.  Its request is rejected. -/
def onTimeout (timer : Nat) (s : Semaphore) : Option SemaphoreError × Semaphore :=
  match s.waitTimers.find? fun t => t.timer = timer ∧ t.dueAt ≤ s.now with
  | none => (none, s)
  | some t =>
      (some (timeoutError t.timeoutMs t.modelStr),
        { s.put t.gate { s.heap t.gate with queue := (s.heap t.gate).queue.erase ⟨timer⟩ } with
          waitTimers := s.waitTimers.filter fun t => ¬ t.timer = timer })

/-- Mark a model as rate-limited.  The gate keeps the limit it was acquired
with. -/
def markRateLimited (cooldownMs : Int) (s : Semaphore) : Semaphore :=
  let max := ((s.gateOf modelStr).map ModelGate.max).getD 3
  let (g, s) := s.getGate modelStr max
  { s.put g { s.heap g with rateLimitedUntil := some (s.now + cooldownMs) } with
    cooldownTimers := s.cooldownTimers ++ [⟨s.now + cooldownMs + 50, g, modelStr⟩] }

def cooldownOver (gate : ModelGate) (now : Nat) : Bool :=
  match gate.rateLimitedUntil with
  | none => false
  | some 0 => false
  | some rateLimitedUntil => rateLimitedUntil ≤ now

/-- The timer of a cooldown looks at the gate it was set for, and drains the
gate that the model has now. -/
def endCooldown (t : CooldownTimer) (s : Semaphore) : Semaphore :=
  if cooldownOver (s.heap t.gate) s.now then
    (s.put t.gate { s.heap t.gate with rateLimitedUntil := none }).drainQueue t.modelStr
  else s

def onCooldown (i : Nat) (s : Semaphore) : Semaphore :=
  match s.cooldownTimers[i]? with
  | none => s
  | some t =>
      if t.dueAt ≤ s.now then
        { s with cooldownTimers := s.cooldownTimers.eraseIdx i }.endCooldown t
      else s

end Semaphore

inductive Event where
  | acquire (modelStr : JsString) (options : AcquireOptions)
  | release (slot : Nat)
  | timeout (timer : Nat)
  | markRateLimited (modelStr : JsString) (cooldownMs : Int)
  | cooldown (i : Nat)
  | advance (ms : Nat)
deriving DecidableEq

namespace Semaphore

def step (s : Semaphore) : Event → Semaphore
  | .acquire modelStr options => (s.acquire modelStr options).2
  | .release slot => s.release slot
  | .timeout timer => (s.onTimeout timer).2
  | .markRateLimited modelStr cooldownMs => s.markRateLimited modelStr cooldownMs
  | .cooldown i => s.onCooldown i
  | .advance ms => { s with now := s.now + ms }

def run (now : Nat) (events : List Event) : Semaphore := events.foldl step { now := now }

end Semaphore

end RedRouter.Services.RateLimit
