import RedRouter.Admission.Config

/-!
# The admission controller

The model of `AdaptiveAdmissionController` in
`services/admission/controller.ts`.  Every public operation is a function on
the state of the controller, and `step` runs one event of a run.

What the controller reads from outside is explicit:

* `Env.clock` gives the value of every reading of the clock, and `reads`
  counts the readings;
* `aborted` holds the signals that were aborted, and `listeners` the abort
  listeners in the order in which they were added.

A deadline timer that was cleared fires on an entry that has left its queue,
and such an expiry changes nothing, so the timers themselves are left out and
an expiry may come at any time.

Three fields record the history of a run: `calls` counts the `acquire` calls
that did not throw, `settled` lists the settlements of their promises, and
`admissions` what every call of `admit` saw.  No operation reads them.
-/

namespace RedRouter.Admission

/-! ## The adaptive limit

The model of `services/admission/adaptation.ts`.  The limit, the integral and
the counters are natural numbers; the latency averages, the utilization and
the gradient are rounded rationals (`Rounding`).

`LimitBounds` is the invariant of the limit, and every update keeps it.
-/

inductive Pressure where
  | normal
  | high
  | critical
deriving DecidableEq

inductive ReleaseOutcome where
  | success
  | upstreamError
  | timeout
  | localReject
  | cancelled
deriving DecidableEq

structure AdaptationState where
  currentLimit : Nat
  recoveryCeiling : Nat
  shortLatencyEwma : ℚ := 0
  longLatencyEwma : ℚ := 0
  pressure : Pressure := .normal
  windowActiveCostIntegral : Int := 0
  windowCompleted : Nat := 0
  windowLatencySamples : Nat := 0
  windowStartMs : Int
  freezeGrowth : Bool := false
  criticalDecreaseConsumed : Bool := false
  utilization : ℚ := 0

/-- `clampLimit` of an integer. -/
def clampLimit (value minLimit maxLimit : Nat) : Nat := min maxLimit (max minLimit value)

def createAdaptationState (cfg : ValidatedConfig) (nowMs : Int) : AdaptationState where
  currentLimit := clampLimit cfg.initialLimit.1 cfg.minLimit.1 cfg.maxLimit.1
  recoveryCeiling := clampLimit cfg.initialLimit.1 cfg.minLimit.1 cfg.maxLimit.1
  windowStartMs := nowMs

def latencySample : RawNumber → ℚ
  | .finite q => if 0 ≤ q then q else 0
  | _ => 0

/-- `alpha * sample + (1 - alpha) * ewma`. -/
def ewma (R : Rounding) (alpha : UnitInterval) (sample average : ℚ) : ℚ :=
  R.fl (R.fl (alpha.1 * sample) + R.fl (R.fl (1 - alpha.1) * average))

def noteLatency (R : Rounding) (params : AdaptationParams) (latencyMs : RawNumber)
    (state : AdaptationState) : AdaptationState :=
  let sample := latencySample latencyMs
  let state := { state with windowLatencySamples := state.windowLatencySamples + 1 }
  if state.shortLatencyEwma ≤ 0 ∧ state.longLatencyEwma ≤ 0 then
    { state with shortLatencyEwma := sample, longLatencyEwma := sample }
  else
    { state with
      shortLatencyEwma := ewma R params.shortLatencyAlpha sample state.shortLatencyEwma
      longLatencyEwma := ewma R params.longLatencyAlpha sample state.longLatencyEwma }

def noteOutcome (outcome : ReleaseOutcome) (state : AdaptationState) : AdaptationState :=
  match outcome with
  | .upstreamError => { state with freezeGrowth := true }
  | .timeout => { state with freezeGrowth := true }
  | _ => state

def Pressure.severity : Pressure → Nat
  | .normal => 0
  | .high => 1
  | .critical => 2

/-- `setPressure`: the pressure of a window only rises. -/
def setPressure (pressure : Pressure) (state : AdaptationState) : AdaptationState :=
  if pressure.severity > state.pressure.severity then { state with pressure := pressure } else state

/-- The bounded step of a growing limit. -/
def increase (params : AdaptationParams) : Nat :=
  min params.increaseStep.1 params.maxIncreasePerWindow.1

def applyIdleRecovery (params : AdaptationParams) (state : AdaptationState) (next : Nat) : Nat :=
  if state.pressure ≠ .critical ∧ state.freezeGrowth = false ∧ state.windowCompleted = 0 ∧
      state.currentLimit < state.recoveryCeiling then
    min state.recoveryCeiling (next + increase params)
  else next

def windowUtilization (R : Rounding) (cfg : ValidatedConfig) (nowMs : Int)
    (state : AdaptationState) : ℚ :=
  let elapsed : Int := max 1 (min cfg.windowMs.1 (nowMs - state.windowStartMs))
  let avgActive := R.fl (state.windowActiveCostIntegral / elapsed)
  let util := if state.currentLimit > 0 then R.fl (avgActive / state.currentLimit) else 0
  max 0 (min 1 util)

def latencyGradient (R : Rounding) (state : AdaptationState) : ℚ :=
  if state.longLatencyEwma > 0 then
    R.fl (R.fl (state.shortLatencyEwma - state.longLatencyEwma) / state.longLatencyEwma)
  else 0

/-- The limit before the idle recovery and the clamp. -/
def adjustedLimit (R : Rounding) (params : AdaptationParams) (state : AdaptationState) : Nat :=
  if state.pressure = .critical then
    if state.criticalDecreaseConsumed then state.currentLimit
    else ⌊R.fl (state.currentLimit * params.criticalDecreaseFactor.1)⌋₊
  else if state.pressure = .high ∨ (state.windowLatencySamples > 0 ∧
        latencyGradient R state ≥ params.latencyGradientThreshold.1) then
    ⌊R.fl (state.currentLimit * params.decreaseFactor.1)⌋₊
  else if state.freezeGrowth = false ∧ state.pressure = .normal ∧
      state.utilization ≥ params.highUtilizationThreshold.1 ∧ state.windowCompleted > 0 then
    state.currentLimit + increase params
  else state.currentLimit

def closeAdaptationWindow (R : Rounding) (cfg : ValidatedConfig) (nowMs : Int)
    (state : AdaptationState) : AdaptationState :=
  let state := { state with utilization := windowUtilization R cfg nowMs state }
  let next := adjustedLimit R cfg.adaptation state
  let idle := state.utilization ≤ cfg.adaptation.lowUtilizationThreshold.1
  let next := if idle then applyIdleRecovery cfg.adaptation state next else next
  { state with
    shortLatencyEwma := if idle then state.longLatencyEwma else state.shortLatencyEwma
    currentLimit := clampLimit next cfg.minLimit.1 cfg.maxLimit.1
    windowActiveCostIntegral := 0
    windowCompleted := 0
    windowLatencySamples := 0
    windowStartMs := nowMs
    freezeGrowth := false
    criticalDecreaseConsumed := false
    pressure := .normal }

def sampleActiveIntegral (R : Rounding) (activeCost dtMs : Int) (state : AdaptationState) :
    AdaptationState :=
  if dtMs ≤ 0 ∨ activeCost ≤ 0 then state
  else
    let boundedActiveCost : Int := min activeCost state.currentLimit
    let contribution : Int :=
      if dtMs > ⌊R.fl (maxSafeInteger / boundedActiveCost)⌋ then maxSafeInteger
      else boundedActiveCost * dtMs
    { state with
      windowActiveCostIntegral :=
        if contribution ≥ maxSafeInteger - state.windowActiveCostIntegral then maxSafeInteger
        else state.windowActiveCostIntegral + contribution }

/-- The immediate decrease of `observePressure`. -/
def criticalDecrease (R : Rounding) (cfg : ValidatedConfig) (state : AdaptationState) :
    AdaptationState :=
  { state with
    currentLimit := max cfg.minLimit.1
      ⌊R.fl (state.currentLimit * cfg.adaptation.criticalDecreaseFactor.1)⌋₊
    criticalDecreaseConsumed := true }

/-! ## The bounds of the limit -/

/-- The limit stays between the configured bounds. -/
def LimitBounds (cfg : ValidatedConfig) (state : AdaptationState) : Prop :=
  cfg.minLimit.1 ≤ state.currentLimit ∧ state.currentLimit ≤ cfg.maxLimit.1

variable (cfg : ValidatedConfig)

theorem clampLimit_bounds (value : Nat) :
    cfg.minLimit.1 ≤ clampLimit value cfg.minLimit.1 cfg.maxLimit.1 ∧
      clampLimit value cfg.minLimit.1 cfg.maxLimit.1 ≤ cfg.maxLimit.1 := by
  have hle := cfg.min_le_max
  unfold clampLimit
  omega

theorem limitBounds_create (nowMs : Int) : LimitBounds cfg (createAdaptationState cfg nowMs) :=
  clampLimit_bounds cfg _

variable (R : Rounding)

theorem limitBounds_close (cfg : ValidatedConfig) (nowMs : Int) (state : AdaptationState) :
    LimitBounds cfg (closeAdaptationWindow R cfg nowMs state) :=
  clampLimit_bounds cfg _

theorem maxLimit_le : cfg.maxLimit.1 ≤ 2 ^ 53 := by
  have hle := cfg.maxLimit.2.2
  have hbound : maxAdmissionCostOrLimit ≤ 2 ^ 53 := by decide
  omega

theorem limitBounds_criticalDecrease (cfg : ValidatedConfig) {state : AdaptationState}
    (h : LimitBounds cfg state) : LimitBounds cfg (criticalDecrease R cfg state) := by
  obtain ⟨hlow, hhigh⟩ := h
  have hmax := maxLimit_le cfg
  have hfloor := R.floor_fl_mul_le (show state.currentLimit ≤ 2 ^ 53 by omega)
    cfg.adaptation.criticalDecreaseFactor.2.2.le
  unfold LimitBounds criticalDecrease
  dsimp only
  omega

@[simp] theorem currentLimit_noteLatency (params : AdaptationParams) (latencyMs : RawNumber)
    (state : AdaptationState) :
    (noteLatency R params latencyMs state).currentLimit = state.currentLimit := by
  unfold noteLatency
  dsimp only
  split <;> rfl

@[simp] theorem currentLimit_noteOutcome (outcome : ReleaseOutcome) (state : AdaptationState) :
    (noteOutcome outcome state).currentLimit = state.currentLimit := by
  cases outcome <;> rfl

@[simp] theorem currentLimit_setPressure (pressure : Pressure) (state : AdaptationState) :
    (setPressure pressure state).currentLimit = state.currentLimit := by
  unfold setPressure
  split <;> rfl

@[simp] theorem currentLimit_sampleActiveIntegral (activeCost dtMs : Int) (state : AdaptationState) :
    (sampleActiveIntegral R activeCost dtMs state).currentLimit = state.currentLimit := by
  unfold sampleActiveIntegral
  split <;> rfl

def admissionLaneTtlMs : Int := 60000

def admissionLaneMaxSessions : Nat := 1000

/-- What a run reads from outside: the readings of the clock, and the
rounding of the arithmetic. -/
structure Env where
  clock : Nat → Int
  rounding : Rounding

inductive VirtualDisposition where
  | active
  | queued
  | rejected
  | none
deriving DecidableEq

inductive RejectCode where
  | oversized
  | queueFull
  | deadline
  | aborted
  | laneEvicted
  | shutdown
deriving DecidableEq

structure ActiveLeaseRecord where
  id : Nat
  cost : Nat
  released : Bool
  admittedAtMs : Int
  virtualDisposition : VirtualDisposition

/-- The payload of a queued entry: the `acquire` call whose promise it
settles, and the signal of the request. -/
structure QueuedPayload where
  call : Nat
  signal : Option Nat

structure Lane where
  queue : FairCostQueue QueuedPayload
  lastUsedMs : Int

/-- How the promise of an `acquire` call was settled. -/
inductive Outcome where
  | admitted (lease : Nat)
  | rejected (code : RejectCode) (message : String)
deriving DecidableEq

/-- What a call of `admit` left behind. -/
structure AdmitStep where
  lease : Nat
  cost : Nat
  activeCost : Int
  activeCount : Nat
  currentLimit : Nat

structure Controller where
  config : ValidatedConfig
  adaptation : AdaptationState
  queue : FairCostQueue QueuedPayload
  virtualQueue : FairCostQueue Nat
  virtualLanes : JsMap JsString Lane := []
  /-- The lease records, whether they are active or released. -/
  records : JsMap Nat ActiveLeaseRecord := []
  /-- The keys of the `active` map. -/
  active : List Nat := []
  activeCost : Int := 0
  virtualActiveCost : Int := 0
  virtualActiveCount : Int := 0
  lastSampleMs : Int
  shutDown : Bool := false
  admittedCount : Nat := 0
  rejectedCount : Nat := 0
  wouldAdmitCount : Int := 0
  wouldQueueCount : Int := 0
  wouldRejectCount : Int := 0
  leaseSeq : Nat := 0
  reads : Nat := 0
  aborted : List Nat := []
  listeners : List (Nat × Nat) := []
  calls : Nat := 0
  settled : List (Nat × Outcome) := []
  admissions : List AdmitStep := []

structure Request where
  cost : Option RawNumber := none
  features : Option CostFeatures := none
  tenantKey : Option JsString := none
  maxWaitMs : Option RawNumber := none
  signal : Option Nat := none
  pressure : Option Pressure := none

/-- The `meta` argument of `release`. -/
structure ReleaseMeta where
  latencyMs : Option RawNumber := none
  pressure : Option Pressure := none

/-- What `acquire` returns.  `threw` carries the message of the error. -/
inductive AcquireResult where
  | admitted (lease : Nat)
  | queued
  | rejected (code : RejectCode) (message : String)
  | threw (message : String)
deriving DecidableEq

/-- `saturateSnapshotNumber` of an integer. -/
def saturateSnapshotNumber (value : Int) : Int :=
  if value ≤ 0 then 0 else if value ≥ maxSafeInteger then maxSafeInteger else value

def addSaturated (total delta : Int) : Int :=
  if delta ≤ 0 then saturateSnapshotNumber total
  else if total ≥ maxSafeInteger - delta then maxSafeInteger
  else total + delta

variable (env : Env) (s : Controller) (cfg : ValidatedConfig) (entry : QueueEntry QueuedPayload)
  (record : ActiveLeaseRecord) (tenantKey : JsString) (request : Request) (cost : Nat)

namespace Controller

def emptyQueue {T : Type} : FairCostQueue T :=
  { maxCount := cfg.maxQueueCount.1, maxCost := cfg.maxQueueCost.1 }

/-- The next reading of the clock. -/
def now : Int := env.clock s.reads

def readClock : Controller := { s with reads := s.reads + 1 }

def create : Controller where
  config := cfg
  adaptation := createAdaptationState cfg (env.clock 0)
  queue := emptyQueue cfg
  virtualQueue := emptyQueue cfg
  lastSampleMs := env.clock 0
  reads := 1

def sampleIntegral : Controller :=
  let now := s.now env
  let s := s.readClock
  let dt := now - s.lastSampleMs
  if dt > 0 then
    let limit : Int := s.adaptation.currentLimit
    let activeForIntegral := if s.activeCost ≥ limit then limit else s.activeCost
    { s with
      adaptation := sampleActiveIntegral env.rounding activeForIntegral dt s.adaptation
      lastSampleMs := now }
  else s

/-! ## Settling -/

def settle (call : Nat) (outcome : Outcome) (s : Controller) : Controller :=
  { s with settled := s.settled ++ [(call, outcome)] }

/-- `reject`, and the rejection of a queued entry. -/
def reject (call : Nat) (code : RejectCode) (message : String) (s : Controller) : Controller :=
  settle call (.rejected code message) { s with rejectedCount := s.rejectedCount + 1 }

/-- The accounting of `admit` for the lease with the next id. -/
def addLease (s : Controller) : Controller :=
  { s with
    leaseSeq := record.id
    records := s.records.set record.id record
    active := s.active ++ [record.id]
    activeCost := s.activeCost + record.cost
    admittedCount := s.admittedCount + 1
    admissions := s.admissions ++
      [{ lease := record.id
         cost := record.cost
         activeCost := s.activeCost + record.cost
         activeCount := s.active.length + 1
         currentLimit := s.adaptation.currentLimit }] }

/-- `admit`, with the settlement of the promise. -/
def admitLease (call cost : Nat) (disposition : VirtualDisposition) (s : Controller) : Controller :=
  let s := s.sampleIntegral env
  let record : ActiveLeaseRecord :=
    { id := s.leaseSeq + 1
      cost := cost
      released := false
      admittedAtMs := s.now env
      virtualDisposition := disposition }
  settle call (.admitted record.id) (s.readClock.addLease record)

/-- `admitVirtual`: mode off keeps no account. -/
def admitVirtual (call : Nat) (s : Controller) : Controller :=
  settle call (.admitted (s.leaseSeq + 1))
    { s with leaseSeq := s.leaseSeq + 1, admittedCount := s.admittedCount + 1 }

def detachAbort (entryId : Nat) (s : Controller) : Controller :=
  { s with listeners := s.listeners.filter (fun listener => listener.2 ≠ entryId) }

def failQueued (code : RejectCode) (message : String) (s : Controller) : Controller :=
  (s.detachAbort entry.id).reject entry.payload.call code message

/-! ## Lanes -/

def removeEmptyLane (s : Controller) : Controller :=
  match s.virtualLanes.get tenantKey with
  | some lane =>
      if lane.queue.size = 0 then { s with virtualLanes := s.virtualLanes.delete tenantKey } else s
  | none => s

/-- Put a lane back whose queue has changed. -/
def setLane (lane : Lane) (s : Controller) : Controller :=
  { s with virtualLanes := s.virtualLanes.set tenantKey lane }

def deleteLane (s : Controller) : Controller :=
  match s.virtualLanes.get tenantKey with
  | none => s
  | some lane =>
      let s := lane.queue.drain.1.foldl
        (fun s entry => s.failQueued entry .laneEvicted "connection lane evicted") s
      { s with virtualLanes := s.virtualLanes.delete tenantKey }

def oldestLaneKey : Option JsString :=
  (s.virtualLanes.foldl
    (fun (oldest : Option (JsString × Int)) lane =>
      match oldest with
      | none => some (lane.1, lane.2.lastUsedMs)
      | some (_, oldestMs) =>
          if lane.2.lastUsedMs ≤ oldestMs then some (lane.1, lane.2.lastUsedMs) else oldest)
    none).map Prod.fst

/-- Make room for one more lane. -/
def evictOldestLane : Controller :=
  if s.virtualLanes.length ≥ admissionLaneMaxSessions then
    match s.oldestLaneKey with
    | none => s
    | some [] => s
    | some key => s.deleteLane key
  else s

/-- `getOrCreateLane`; the lane is the one under the key afterwards. -/
def getOrCreateLane (s : Controller) : Lane × Controller :=
  match s.virtualLanes.get tenantKey with
  | some lane =>
      let lane := { lane with lastUsedMs := s.now env }
      (lane, s.readClock.setLane tenantKey lane)
  | none =>
      let s := s.evictOldestLane.readClock
      let lane : Lane := { queue := emptyQueue s.config, lastUsedMs := s.now env }
      (lane, s.readClock.setLane tenantKey lane)

def evictIdleLanes : Controller :=
  let now := s.now env
  let keysToDelete := (s.virtualLanes.filter
    (fun lane => now - lane.2.lastUsedMs ≥ admissionLaneTtlMs)).map Prod.fst
  keysToDelete.foldl (fun s key => s.deleteLane key) s.readClock

def laneTotalQueuedCount : Int :=
  s.virtualLanes.foldl (fun count lane => addSaturated count lane.2.queue.size) 0

/-! ## Dispatch -/

def isAborted (signal : Option Nat) : Bool :=
  (signal.map fun sig => s.aborted.contains sig).getD false

/-- Settle an entry that has just left its queue.  The flag says whether it
was admitted. -/
def settleDequeued (s : Controller) : Controller × Bool :=
  let s := s.detachAbort entry.id
  if s.isAborted entry.payload.signal then
    (s.reject entry.payload.call .aborted "request aborted while queued", false)
  else
    let now := s.now env
    let s := s.readClock
    if now ≥ entry.deadlineMs then
      (s.reject entry.payload.call .deadline "admission wait deadline exceeded", false)
    else (s.admitLease env entry.payload.call entry.cost .none, true)

def available : Int := s.adaptation.currentLimit - s.activeCost

/-- The loop of `dispatch` over the shared queue.  The flag says whether it
ran to its end, or returned early.  Every round takes an entry out of the
queue, so the number of entries is enough fuel. -/
def dispatchShared (env : Env) : Nat → Controller → Controller × Bool
  | 0, s => (s, true)
  | fuel + 1, s =>
      if s.queue.size > 0 then
        if s.available ≤ 0 then (s, false)
        else
          match s.queue.dequeue s.available.toNat with
          | (none, q) => ({ s with queue := q }, false)
          | (some entry, q) =>
              dispatchShared env fuel (settleDequeued env entry { s with queue := q }).1
      else (s, true)

/-- The inner loop of `dispatchLanes`.  The flag is false when the source
returns from the whole dispatch. -/
def dispatchLane (env : Env) (key : JsString) : Nat → Controller → Controller × Bool
  | 0, s => (s, true)
  | fuel + 1, s =>
      match s.virtualLanes.get key with
      | none => (s, true)
      | some lane =>
          if lane.queue.size > 0 then
            if s.available ≤ 0 then (s, false)
            else
              match lane.queue.dequeue s.available.toNat with
              | (none, q) => (s.setLane key { lane with queue := q }, true)
              | (some entry, q) =>
                  let (s, admitted) :=
                    settleDequeued env entry (s.setLane key { lane with queue := q })
                  if admitted then (s, true) else dispatchLane env key fuel s
          else (s, true)

/-- The outer loop of `dispatchLanes`. -/
def dispatchKeys (env : Env) : List JsString → Controller → Controller
  | [], s => s
  | key :: keys, s =>
      match s.virtualLanes.get key with
      | none => dispatchKeys env keys s
      | some lane =>
          match dispatchLane env key lane.queue.entries.length s with
          | (s, false) => s
          | (s, true) => dispatchKeys env keys (s.removeEmptyLane key)

/-- Whether `dispatch` and `dispatchLanes` do anything. -/
def dispatches : Bool := !s.shutDown && s.config.mode = .enforce

def dispatchLanes : Controller :=
  if s.dispatches then dispatchKeys env (JsMap.keys s.virtualLanes) s else s

def dispatch : Controller :=
  if s.dispatches then
    match dispatchShared env s.queue.entries.length s with
    | (s, false) => s
    | (s, true) => s.dispatchLanes env
  else s

/-! ## Shadow accounting -/

def activeRecord (id : Nat) : Option ActiveLeaseRecord :=
  if id ∈ s.active then s.records.get id else none

def setDisposition (id : Nat) (disposition : VirtualDisposition) (s : Controller) : Controller :=
  match s.records.get id with
  | none => s
  | some record =>
      { s with records := s.records.set id { record with virtualDisposition := disposition } }

/-- Count a record as virtually active. -/
def addVirtualActive (s : Controller) : Controller :=
  { s with
    virtualActiveCost := addSaturated s.virtualActiveCost cost
    virtualActiveCount := addSaturated s.virtualActiveCount 1 }

/-- The loop of `dispatchVirtual`. -/
def dispatchVirtualLoop : Nat → Controller → Controller
  | 0, s => s
  | fuel + 1, s =>
      if s.virtualQueue.size > 0 then
        let available : Int := s.adaptation.currentLimit - s.virtualActiveCost
        if available ≤ 0 then s
        else
          match s.virtualQueue.dequeue available.toNat with
          | (none, q) => { s with virtualQueue := q }
          | (some entry, q) =>
              let s := { s with virtualQueue := q }
              match s.activeRecord entry.payload with
              | none => dispatchVirtualLoop fuel s
              | some record =>
                  if record.released then dispatchVirtualLoop fuel s
                  else
                    dispatchVirtualLoop fuel
                      ((s.setDisposition entry.payload .active).addVirtualActive record.cost)
      else s

def dispatchVirtual : Controller :=
  dispatchVirtualLoop s.virtualQueue.entries.length s

def releaseVirtual (s : Controller) : Controller :=
  let s :=
    match record.virtualDisposition with
    | .active =>
        { s with
          virtualActiveCost := s.virtualActiveCost - record.cost
          virtualActiveCount := s.virtualActiveCount - 1 }
    | .queued => { s with virtualQueue := (s.virtualQueue.removeById record.id).2 }
    | _ => s
  (s.setDisposition record.id .none).dispatchVirtual

/-- The disposition of one record when the virtual state is rebuilt. -/
def rebuildRecord (id : Nat) : Controller :=
  match s.records.get id with
  | none => s
  | some record =>
      if record.cost > s.adaptation.currentLimit then s.setDisposition id .rejected
      else if (record.cost : Int) ≤ s.adaptation.currentLimit - s.virtualActiveCost then
        (s.setDisposition id .active).addVirtualActive record.cost
      else
        match s.virtualQueue.enqueue
            { id := record.id
              tenantKey := js "_existing"
              cost := record.cost
              enqueuedAtMs := record.admittedAtMs
              deadlineMs := maxSafeInteger
              payload := record.id } with
        | some q => { s.setDisposition id .queued with virtualQueue := q }
        | none => s.setDisposition id .rejected

def rebuildVirtualState (enable : Bool) (s : Controller) : Controller :=
  let s := { s with
    virtualQueue := emptyQueue s.config
    virtualActiveCost := 0
    virtualActiveCount := 0 }
  let s := s.active.foldl (fun s id => s.setDisposition id .none) s
  if enable then s.active.foldl rebuildRecord s else s

/-- The decision of `acquireShadow`, and the counters it moves. -/
def shadowDecision (s : Controller) : VirtualDisposition × Controller :=
  if cost > s.adaptation.currentLimit ∨ cost > maxSafeInteger then
    (.rejected, { s with wouldRejectCount := s.wouldRejectCount + 1 })
  else if s.virtualActiveCost + cost ≤ s.adaptation.currentLimit then
    (.active, { s.addVirtualActive cost with wouldAdmitCount := addSaturated s.wouldAdmitCount 1 })
  else if s.virtualQueue.canAccept cost then
    (.queued, { s with wouldQueueCount := s.wouldQueueCount + 1 })
  else (.rejected, { s with wouldRejectCount := s.wouldRejectCount + 1 })

def acquireShadow (call : Nat) (request : Request) (cost : Nat) (s : Controller) : Controller :=
  let (disposition, s) := s.shadowDecision cost
  let s := s.admitLease env call cost disposition
  if disposition = .queued then
    let entry : QueueEntry Nat :=
      { id := s.leaseSeq
        tenantKey := if request.tenantKey.getD [] = [] then js "_default" else request.tenantKey.getD []
        cost := cost
        enqueuedAtMs := s.now env
        deadlineMs := maxSafeInteger
        payload := s.leaseSeq }
    { s.readClock with virtualQueue := (s.virtualQueue.enqueue entry).getD s.virtualQueue }
  else s

/-! ## The public operations -/

def shouldAdmitSolo : Bool :=
  cost ≤ s.config.maxLimit.1 && s.active.length = 0 && s.queue.size = 0 &&
    s.laneTotalQueuedCount = 0 && s.adaptation.pressure = .normal

def resolveCost (s : Controller) : Except String Nat :=
  match request.cost with
  | some cost => normalizeRequestCost cost s.config.costConfig.maxRequestCost.1
  | none =>
      match request.features with
      | some features => .ok (estimateAdmissionCost env.rounding features s.config.costConfig)
      | none => .ok 1

/-- The next call number is given out. -/
def beginCall : Controller := { s with calls := s.calls + 1 }

/-- A rejected `acquire`. -/
def rejectAcquire (code : RejectCode) (message : String) (s : Controller) :
    AcquireResult × Controller :=
  (.rejected code message, s.beginCall.reject s.calls code message)

def queueEntry (id cost call maxWait : Nat) (now : Int) : QueueEntry QueuedPayload :=
  { id := id
    tenantKey := if request.tenantKey.getD [] = [] then js "_default" else request.tenantKey.getD []
    cost := cost
    enqueuedAtMs := now
    deadlineMs := min maxSafeInteger (now + maxWait)
    payload := { call := call, signal := request.signal } }

/-- Store an entry in the lane of its tenant or in the shared queue.  The
error is the message of the rejection. -/
def storeEntry (s : Controller) : Except String Unit × Controller :=
  if entry.tenantKey ≠ js "_default" ∧ s.config.virtualLanes = true then
    let (lane, s) := s.getOrCreateLane env entry.tenantKey
    match lane.queue.enqueue entry with
    | some q => (.ok (), s.setLane entry.tenantKey { lane with queue := q })
    | none => (.error "admission lane queue is full", s.removeEmptyLane entry.tenantKey)
  else
    match s.queue.enqueue entry with
    | some q => (.ok (), { s with queue := q })
    | none => (.error "admission queue is full", s)

/-- Add the abort listener of a request. -/
def attachAbort (signal : Option Nat) (entryId : Nat) (s : Controller) : Controller :=
  match signal with
  | some sig => { s with listeners := s.listeners ++ [(sig, entryId)] }
  | none => s

/-- The second part of `enqueue`: store the entry and dispatch. -/
def enqueueEntry (s : Controller) : AcquireResult × Controller :=
  match s.storeEntry env entry with
  | (.error message, s) =>
      (.rejected .queueFull message, s.reject entry.payload.call .queueFull message)
  | (.ok (), s) =>
      (.queued, ((s.dispatch env).attachAbort entry.payload.signal entry.id).dispatch env)

def takeId : Controller := { s with leaseSeq := s.leaseSeq + 1 }

def enqueue (s : Controller) : AcquireResult × Controller :=
  let s := s.takeId
  let wait := request.maxWaitMs.getD (.finite s.config.defaultMaxWaitMs.1)
  match normalizeRequestCost wait maxAdmissionWindowMs with
  | .error message => (.threw message, s)
  | .ok maxWait =>
      let entry := queueEntry request s.leaseSeq cost s.calls maxWait (s.now env)
      s.readClock.beginCall.enqueueEntry env entry

def notePressure (pressure : Option Pressure) (s : Controller) : Controller :=
  match pressure with
  | some pressure => { s with adaptation := setPressure pressure s.adaptation }
  | none => s

/-- The enforce branch of `acquire`. -/
def acquireEnforce (s : Controller) : AcquireResult × Controller :=
  if cost > s.adaptation.currentLimit then
    if s.shouldAdmitSolo cost then
      (.admitted (s.leaseSeq + 1), s.beginCall.admitLease env s.calls cost .none)
    else s.rejectAcquire .oversized "request cost exceeds max budget"
  else if s.queue.size = 0 ∧ s.activeCost + cost ≤ s.adaptation.currentLimit then
    (.admitted (s.leaseSeq + 1), s.beginCall.admitLease env s.calls cost .none)
  else if s.queue.canAccept cost then s.enqueue env request cost
  else s.rejectAcquire .queueFull "admission queue is full"

def acquire (env : Env) (request : Request) (s : Controller) : AcquireResult × Controller :=
  if s.shutDown then s.rejectAcquire .shutdown "admission controller is shut down"
  else if s.isAborted request.signal then
    s.rejectAcquire .aborted "request aborted before acquire"
  else
    let s := s.notePressure request.pressure
    match s.resolveCost env request with
    | .error message => (.threw message, s)
    | .ok cost =>
        match s.config.mode with
        | .off => (.admitted (s.leaseSeq + 1), s.beginCall.admitVirtual s.calls)
        | .shadow =>
            (.admitted (s.leaseSeq + 1), s.beginCall.acquireShadow env s.calls request cost)
        | .enforce => s.acquireEnforce env request cost

def leaseLatency (info : ReleaseMeta) (record : ActiveLeaseRecord) (s : Controller) :
    RawNumber × Controller :=
  match info.latencyMs with
  | some latency => (latency, s)
  | none => (.finite (max 0 (s.now env - record.admittedAtMs) : Int), s.readClock)

/-- Take a released lease out of the account. -/
def dropLease (s : Controller) : Controller :=
  if record.id ∈ s.active then
    { s with
      active := s.active.filter (· ≠ record.id)
      activeCost := s.activeCost - record.cost }
  else s

def noteRelease (outcome : ReleaseOutcome) (latency : RawNumber) (s : Controller) : Controller :=
  let adaptation := noteOutcome outcome
    (noteLatency env.rounding s.config.adaptation latency s.adaptation)
  { s with
    adaptation := { adaptation with windowCompleted := adaptation.windowCompleted + 1 } }

/-- The second part of `releaseLease`: what follows the accounting, up to the
dispatch. -/
def finishRelease (outcome : ReleaseOutcome) (info : ReleaseMeta) (s : Controller) : Controller :=
  let (latency, s) := s.leaseLatency env info record
  ((s.noteRelease env outcome latency).notePressure info.pressure).releaseVirtual record

/-- `releaseLease`.  A lease that was never granted has no record. -/
def release (lease : Nat) (outcome : ReleaseOutcome) (info : ReleaseMeta)
    (s : Controller) : Controller :=
  match s.records.get lease with
  | none => s
  | some record =>
      if record.released then s
      else
        let s := { s with records := s.records.set lease { record with released := true } }
        let s := (s.sampleIntegral env).dropLease record
        (s.finishRelease env record outcome info).dispatch env

def observePressure (pressure : Pressure) (s : Controller) : Controller :=
  let s := { s with adaptation := setPressure pressure s.adaptation }
  if pressure = .critical ∧ s.adaptation.criticalDecreaseConsumed = false then
    let s := { s with adaptation := criticalDecrease env.rounding s.config s.adaptation }
    (s.dispatch env).dispatchVirtual
  else s

def tick : Controller :=
  let s := (s.sampleIntegral env).evictIdleLanes env
  let now := s.now env
  let s := s.readClock
  let s := { s with adaptation := closeAdaptationWindow env.rounding s.config now s.adaptation }
  (s.dispatch env).dispatchVirtual

/-- The search of `expireEntry` in the lanes. -/
def removeFromLanes (id : Nat) : List JsString → Controller →
    Option (QueueEntry QueuedPayload) × Controller
  | [], s => (none, s)
  | key :: keys, s =>
      match s.virtualLanes.get key with
      | none => removeFromLanes id keys s
      | some lane =>
          match lane.queue.removeById id with
          | (some entry, q) =>
              (some entry, (s.setLane key { lane with queue := q }).removeEmptyLane entry.tenantKey)
          | (none, q) => removeFromLanes id keys (s.setLane key { lane with queue := q })

def expireEntry (id : Nat) (code : RejectCode) (message : String) (s : Controller) : Controller :=
  match s.queue.removeById id with
  | (some entry, q) => (({ s with queue := q }).failQueued entry code message).dispatch env
  | (none, q) =>
      match removeFromLanes id (JsMap.keys s.virtualLanes) { s with queue := q } with
      | (some entry, s) => (s.failQueued entry code message).dispatch env
      | (none, s) => s

/-- The deadline timer of an entry fires. -/
def expire (id : Nat) (s : Controller) : Controller :=
  s.expireEntry env id .deadline "admission wait deadline exceeded"

/-- One abort listener runs, unless it was removed in the meantime. -/
def runListener (listener : Nat × Nat) : Controller :=
  if listener ∈ s.listeners then
    ({ s with listeners := s.listeners.filter (· ≠ listener) }).expireEntry env listener.2 .aborted
      "request aborted while queued"
  else s

/-- A signal is aborted: its listeners run in the order of their
addition. -/
def abort (signal : Nat) (s : Controller) : Controller :=
  if s.aborted.contains signal then s
  else
    let s := { s with aborted := signal :: s.aborted }
    (s.listeners.filter (fun listener => listener.1 = signal)).foldl (runListener env) s

/-- What `updateConfig` does with one drained entry. -/
def requeue : Controller :=
  if s.config.mode ≠ .enforce then
    (s.detachAbort entry.id).admitLease env entry.payload.call entry.cost .none
  else if entry.cost > s.adaptation.currentLimit then
    s.failQueued entry .oversized "request cost exceeds max budget after config update"
  else
    match s.queue.enqueue entry with
    | some q => { s with queue := q }
    | none => s.failQueued entry .queueFull "queue capacity reduced"

def drained : List (QueueEntry QueuedPayload) :=
  s.queue.drain.1 ++ s.virtualLanes.flatMap (fun lane => lane.2.queue.drain.1)

def resetAdaptation (nowMs : Int) (state : AdaptationState) : AdaptationState :=
  { state with
    currentLimit := clampLimit state.currentLimit cfg.minLimit.1 cfg.maxLimit.1
    recoveryCeiling := clampLimit cfg.initialLimit.1 cfg.minLimit.1 cfg.maxLimit.1
    windowStartMs := nowMs
    windowActiveCostIntegral := 0
    windowCompleted := 0
    windowLatencySamples := 0
    freezeGrowth := false
    criticalDecreaseConsumed := false
    pressure := .normal }

/-- The first part of `updateConfig`: the new configuration and a new
window. -/
def adoptConfig (s : Controller) : Controller :=
  let s := s.sampleIntegral env
  let s := ({ s with
    config := cfg
    adaptation := resetAdaptation cfg (s.now env) s.adaptation }).readClock
  ({ s with lastSampleMs := s.now env }).readClock

/-- `updateConfig` with a validated configuration. -/
def applyConfig (s : Controller) : Controller :=
  let s := s.adoptConfig env cfg
  let s := s.drained.foldl (requeue env) { s with queue := emptyQueue cfg, virtualLanes := [] }
  let s := s.rebuildVirtualState (cfg.mode = .shadow)
  if cfg.mode = .enforce then s.dispatch env else s

/-- `updateConfig`.  A configuration that does not validate throws before
anything changes. -/
def updateConfig (config : RawConfig) (s : Controller) : Controller :=
  match validateConfig config with
  | .error _ => s
  | .ok cfg => s.applyConfig env cfg

def shutdown (s : Controller) : Controller :=
  if s.shutDown then s
  else
    let s' := s.drained.foldl
      (fun s entry => s.failQueued entry .shutdown "admission controller shut down")
      { s with shutDown := true }
    { s' with queue := s.queue.drain.2, virtualLanes := [] }

end Controller

/-! ## Runs -/

/-- One event of a run.  `idTaken` is another controller of the process that
takes the next id. -/
inductive Event where
  | acquire (request : Request)
  | release (lease : Nat) (outcome : ReleaseOutcome) (info : ReleaseMeta)
  | tick
  | observePressure (pressure : Pressure)
  | updateConfig (config : RawConfig)
  | expire (id : Nat)
  | abort (signal : Nat)
  | evictIdleLanes
  | shutdown
  | idTaken

namespace Controller

def step : Event → Controller
  | .acquire request => (s.acquire env request).2
  | .release lease outcome info => s.release env lease outcome info
  | .tick => s.tick env
  | .observePressure pressure => s.observePressure env pressure
  | .updateConfig config => s.updateConfig env config
  | .expire id => s.expire env id
  | .abort signal => s.abort env signal
  | .evictIdleLanes => s.evictIdleLanes env
  | .shutdown => s.shutdown
  | .idTaken => s.takeId

def run (events : List Event) : Controller :=
  events.foldl (step env) (create env cfg)

theorem step_tick : step env s .tick = s.tick env := rfl

theorem run_concat (events : List Event) (event : Event) :
    run env cfg (events ++ [event]) = step env (run env cfg events) event := by
  simp [run]

end Controller

end RedRouter.Admission
