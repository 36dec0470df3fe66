import RedRouter.Lib.JsMap
import RedRouter.Lib.JsString

/-!
# The fair cost queue

The model of `FairCostQueue` in `services/admission/queue.ts`: one bucket of
waiting entries for each tenant, and a cursor that goes round the tenants.

The entries of the source are objects, and `dequeue` counts the pass-overs in
the `skipCount` of the entries themselves.  Here the buckets hold the entries
as values, so a pass-over is an update of the head of a bucket.

`count` and `cost` are kept as integers, because the source subtracts from
them without a check.  That they never go below zero is a theorem about the
queue and not a property of the type.
-/

namespace RedRouter.Admission

/-- `Number.MAX_SAFE_INTEGER`. -/
def maxSafeInteger : Nat := 9007199254740991

def maxUnfittableSkips : Nat := 2

/-- One waiting request.  The number stands for the id of the source, which
`nextId` makes from a counter. -/
structure QueueEntry (T : Type) where
  id : Nat
  tenantKey : JsString
  cost : Nat
  enqueuedAtMs : Int
  deadlineMs : Int
  payload : T
  skipCount : Nat := 0

/-- The entry before anything passed it over. -/
def QueueEntry.fresh {T : Type} (e : QueueEntry T) : QueueEntry T := { e with skipCount := 0 }

def QueueEntry.passedOver {T : Type} (e : QueueEntry T) : QueueEntry T :=
  { e with skipCount := e.skipCount + 1 }

structure FairCostQueue (T : Type) where
  maxCount : Nat
  maxCost : Nat
  buckets : JsMap JsString (List (QueueEntry T)) := []
  order : List JsString := []
  cursor : Nat := 0
  count : Int := 0
  cost : Int := 0

variable (q : FairCostQueue T)

namespace FairCostQueue

variable {T : Type}

def size : Int := q.count

def totalCost : Int := q.cost

def canAccept (entryCost : Nat) : Bool :=
  if entryCost > maxSafeInteger ∨ entryCost = 0 then false
  else if q.count ≥ q.maxCount then false
  else if (entryCost : Int) > q.maxCost - q.cost then false
  else true

/-- The accepted entry goes to the end of the bucket of its tenant. -/
def push (q : FairCostQueue T) (entry : QueueEntry T) : FairCostQueue T :=
  match q.buckets.get entry.tenantKey with
  | some bucket =>
      { q with
        buckets := q.buckets.set entry.tenantKey (bucket ++ [entry])
        count := q.count + 1
        cost := q.cost + entry.cost }
  | none =>
      { q with
        buckets := q.buckets.set entry.tenantKey [entry]
        order := q.order ++ [entry.tenantKey]
        count := q.count + 1
        cost := q.cost + entry.cost }

/-- `queue.enqueue(entry)`, with `none` for `false`. -/
def enqueue (q : FairCostQueue T) (entry : QueueEntry T) : Option (FairCostQueue T) :=
  if q.canAccept entry.cost then some (q.push entry) else none

/-- The head of the bucket at a place of the order. -/
def headAt (q : FairCostQueue T) (idx : Nat) : Option (QueueEntry T) :=
  (q.order[idx]?).bind fun tenant => (q.buckets.get tenant).bind List.head?

/-- The places of the order, from the cursor on. -/
def scan : List Nat :=
  (List.range q.order.length).map fun i => (q.cursor + i) % q.order.length

/-- One round of the search for the reserved head: an aged head that was
enqueued before the best one so far takes its place. -/
def betterReserved (q : FairCostQueue T) (best : Option (Nat × QueueEntry T)) (idx : Nat) :
    Option (Nat × QueueEntry T) :=
  match q.headAt idx with
  | none => best
  | some entry =>
      if entry.skipCount ≥ maxUnfittableSkips then
        match best with
        | none => some (idx, entry)
        | some (_, other) => if entry.enqueuedAtMs < other.enqueuedAtMs then some (idx, entry) else best
      else best

/-- The reserved head, if there is one. -/
def reserved (q : FairCostQueue T) : Option (Nat × QueueEntry T) :=
  q.scan.foldl q.betterReserved none

/-- The first head of the scan that fits, with the places it passes over. -/
def firstFit (q : FairCostQueue T) (maxCost : Nat) : List Nat → List Nat → Option (Nat × List Nat)
  | [], _ => none
  | idx :: rest, bypassed =>
      match q.headAt idx with
      | none => firstFit q maxCost rest bypassed
      | some entry =>
          if entry.cost > maxCost then firstFit q maxCost rest (bypassed ++ [idx])
          else some (idx, bypassed)

/-- Count a pass-over of the head at a place. -/
def passOver (q : FairCostQueue T) (idx : Nat) : FairCostQueue T :=
  match q.order[idx]? with
  | none => q
  | some tenant =>
      match q.buckets.get tenant with
      | none => q
      | some bucket =>
          { q with buckets := q.buckets.set tenant (bucket.modifyHead QueueEntry.passedOver) }

/-- Take the head of the bucket at a place. -/
def takeAt (q : FairCostQueue T) (idx : Nat) : Option (QueueEntry T) × FairCostQueue T :=
  match q.order[idx]? with
  | none => (none, q)
  | some tenant =>
      match q.buckets.get tenant with
      | some (entry :: []) =>
          let order := q.order.eraseIdx idx
          (some entry.fresh,
            { q with
              buckets := q.buckets.delete tenant
              order := order
              cursor := if order.length = 0 then 0 else idx % order.length
              count := q.count - 1
              cost := q.cost - entry.cost })
      | some (entry :: next :: rest) =>
          (some entry.fresh,
            { q with
              buckets := q.buckets.set tenant (next :: rest)
              cursor := (idx + 1) % q.order.length
              count := q.count - 1
              cost := q.cost - entry.cost })
      | _ => (none, q)

/-- `queue.dequeue(maxCost)`.  A reserved head that does not fit blocks the
queue; otherwise the first head that fits leaves, and the heads it passes over
age. -/
def dequeue (q : FairCostQueue T) (maxCost : Nat) : Option (QueueEntry T) × FairCostQueue T :=
  if q.count = 0 then (none, q)
  else
    match q.reserved with
    | some (idx, entry) => if entry.cost > maxCost then (none, q) else q.takeAt idx
    | none =>
        match q.firstFit maxCost q.scan [] with
        | none => (none, q)
        | some (idx, bypassed) => (bypassed.foldl passOver q).takeAt idx

/-- The cursor after the bucket at `ti` was removed. -/
def cursorAfterRemoval (cursor ti remaining : Nat) : Nat :=
  if remaining = 0 then 0
  else if ti < cursor then cursor - 1
  else if cursor ≥ remaining then 0
  else cursor

def removeAt (q : FairCostQueue T) (ti : Nat) (tenant : JsString)
    (bucket : List (QueueEntry T)) (idx : Nat) (entry : QueueEntry T) : FairCostQueue T :=
  let bucket := bucket.eraseIdx idx
  if bucket.isEmpty then
    let order := q.order.eraseIdx ti
    { q with
      buckets := q.buckets.delete tenant
      order := order
      cursor := cursorAfterRemoval q.cursor ti order.length
      count := q.count - 1
      cost := q.cost - entry.cost }
  else
    { q with
      buckets := q.buckets.set tenant bucket
      count := q.count - 1
      cost := q.cost - entry.cost }

/-- The search of `removeById` from the place `ti` on. -/
def removeFrom (q : FairCostQueue T) (id : Nat) : List JsString → Nat →
    Option (QueueEntry T) × FairCostQueue T
  | [], _ => (none, q)
  | tenant :: rest, ti =>
      match q.buckets.get tenant with
      | none => removeFrom q id rest (ti + 1)
      | some bucket =>
          match bucket.findIdx? (fun e => e.id = id) with
          | none => removeFrom q id rest (ti + 1)
          | some idx =>
              match bucket[idx]? with
              | none => (none, q)
              | some entry => (some entry, q.removeAt ti tenant bucket idx entry)

/-- `queue.removeById(id)`. -/
def removeById (q : FairCostQueue T) (id : Nat) : Option (QueueEntry T) × FairCostQueue T :=
  q.removeFrom id q.order 0

/-- The stored entries, without their pass-overs. -/
def entries (q : FairCostQueue T) : List (QueueEntry T) :=
  q.buckets.values.flatten.map QueueEntry.fresh

/-- The loop of `drain`.  Every round takes an entry out, so the number of
stored entries is enough fuel. -/
def drainLoop : Nat → FairCostQueue T → List (QueueEntry T) × FairCostQueue T
  | 0, q => ([], q)
  | fuel + 1, q =>
      match q.dequeue maxSafeInteger with
      | (none, q) => ([], q)
      | (some entry, q) =>
          let (out, q) := drainLoop fuel q
          (entry :: out, q)

/-- `queue.drain()`. -/
def drain (q : FairCostQueue T) : List (QueueEntry T) × FairCostQueue T :=
  let (out, q) := drainLoop q.entries.length q
  (out, { q with cursor := 0 })

end FairCostQueue

end RedRouter.Admission
