import RedRouter.Admission.Arrivals

/-!
# The decision on a request

`acquire` tests a request four times in enforce mode: against the limit,
against what is left of it, against the shared queue, and against the queue
that it would wait in.

The third test is about the shared queue even when the request would wait in
the lane of its tenant.  `laneIsolated_iff` says when that refuses a tenant
whose own lane has room.

`acquireShadow` tests a request against the virtual accounts, and has neither
the solo rule nor the rule that nothing passes the queue.
`shadowPredicts_iff` says when it decides as `acquire` does in enforce mode on
the same accounts.
-/

namespace RedRouter.Admission.Controller

variable {env : Env} {s : Controller} {request : Request} {cost : Nat}

/-! ## The answer of acquire -/

def waitKey (request : Request) : JsString :=
  if request.tenantKey.getD [] = [] then js "_default" else request.tenantKey.getD []

/-- The queue that a request waits in under a key.  The first request of a
tenant has its lane made for it. -/
def queueOf (s : Controller) (key : JsString) : FairCostQueue QueuedPayload :=
  if key ≠ js "_default" ∧ s.config.virtualLanes = true then
    match s.virtualLanes.get key with
    | some lane => lane.queue
    | none => emptyQueue s.config
  else s.queue

def maxWait (s : Controller) (request : Request) : Except String Nat :=
  normalizeRequestCost (request.maxWaitMs.getD (.finite s.config.defaultMaxWaitMs.1))
    maxAdmissionWindowMs

/-- The message for a request that its own queue does not accept. -/
def fullMessage (s : Controller) (key : JsString) : String :=
  if key ≠ js "_default" ∧ s.config.virtualLanes = true then "admission lane queue is full"
  else "admission queue is full"

def storeAnswer (s : Controller) (key : JsString) (cost : Nat) : AcquireResult :=
  if (s.queueOf key).canAccept cost then .queued else .rejected .queueFull (s.fullMessage key)

/-- The answer of `enqueue`. -/
def waitAnswer (s : Controller) (request : Request) (cost : Nat) : AcquireResult :=
  match s.maxWait request with
  | .error message => .threw message
  | .ok _ => s.storeAnswer (waitKey request) cost

/-- The answer of `acquire` in enforce mode. -/
def enforceAnswer (s : Controller) (request : Request) (cost : Nat) : AcquireResult :=
  if cost > s.adaptation.currentLimit then
    if (s.notePressure request.pressure).shouldAdmitSolo cost then .admitted (s.leaseSeq + 1)
    else .rejected .oversized "request cost exceeds max budget"
  else if s.queue.size = 0 ∧ s.activeCost + cost ≤ s.adaptation.currentLimit then
    .admitted (s.leaseSeq + 1)
  else if s.queue.canAccept cost then s.waitAnswer request cost
  else .rejected .queueFull "admission queue is full"

theorem getOrCreateLane_queue (env : Env) (key : JsString) (s : Controller) :
    (s.getOrCreateLane env key).1.queue =
      match s.virtualLanes.get key with
      | some lane => lane.queue
      | none => emptyQueue s.config := by
  unfold getOrCreateLane
  cases s.virtualLanes.get key with
  | some lane => rfl
  | none =>
    have hconfig : s.evictOldestLane.config = s.config :=
      congrArg RestView.config (restView_evictOldestLane s)
    show emptyQueue s.evictOldestLane.config = emptyQueue s.config
    rw [hconfig]

theorem enqueueEntry_answer (env : Env) (entry : QueueEntry QueuedPayload) (s : Controller) :
    (s.enqueueEntry env entry).1 = s.storeAnswer entry.tenantKey entry.cost := by
  unfold enqueueEntry storeEntry storeAnswer queueOf fullMessage
  by_cases hlane : entry.tenantKey ≠ js "_default" ∧ s.config.virtualLanes = true
  · rw [if_pos hlane, if_pos hlane, if_pos hlane, ← getOrCreateLane_queue env entry.tenantKey s]
    dsimp only
    unfold FairCostQueue.enqueue
    by_cases haccept : (s.getOrCreateLane env entry.tenantKey).1.queue.canAccept entry.cost = true
    · rw [if_pos haccept, if_pos haccept]
    · rw [if_neg haccept, if_neg haccept]
  · rw [if_neg hlane, if_neg hlane, if_neg hlane]
    unfold FairCostQueue.enqueue
    by_cases haccept : s.queue.canAccept entry.cost = true
    · rw [if_pos haccept, if_pos haccept]
    · rw [if_neg haccept, if_neg haccept]

theorem enqueue_answer (env : Env) (request : Request) (cost : Nat) (s : Controller) :
    (s.enqueue env request cost).1 = s.waitAnswer request cost := by
  unfold enqueue waitAnswer
  show (match s.maxWait request with
    | .error message => (AcquireResult.threw message, s.takeId)
    | .ok maxWait => s.takeId.readClock.beginCall.enqueueEntry env
        (queueEntry request s.takeId.leaseSeq cost s.takeId.calls maxWait (s.takeId.now env))).1 = _
  cases s.maxWait request with
  | error message => rfl
  | ok maxWait => exact enqueueEntry_answer env _ _

theorem acquireEnforce_answer (env : Env) (request : Request) (cost : Nat) (s : Controller) :
    ((s.notePressure request.pressure).acquireEnforce env request cost).1 =
      s.enforceAnswer request cost := by
  obtain ⟨adaptation, hnoted, hlimit⟩ := notePressure_eq request.pressure s
  unfold acquireEnforce enforceAnswer
  rw [hnoted]
  rw [hlimit]
  split
  · split <;> rfl
  · split
    · rfl
    · split
      · exact enqueue_answer env request cost _
      · rfl

/-- The answers of `acquire`. -/
inductive Answers (env : Env) (s : Controller) (request : Request) : AcquireResult → Prop where
  | shutdown (hshut : s.shutDown = true) :
      Answers env s request (.rejected .shutdown "admission controller is shut down")
  | aborted (hlive : s.shutDown = false) (hsignal : s.isAborted request.signal = true) :
      Answers env s request (.rejected .aborted "request aborted before acquire")
  | threw {message : String} (hlive : s.shutDown = false)
      (hsignal : s.isAborted request.signal = false)
      (hresolve : s.resolveCost env request = .error message) :
      Answers env s request (.threw message)
  /-- The modes that never refuse a request. -/
  | granted {cost : Nat} (hlive : s.shutDown = false) (hsignal : s.isAborted request.signal = false)
      (hresolve : s.resolveCost env request = .ok cost) (hmode : s.config.mode ≠ .enforce) :
      Answers env s request (.admitted (s.leaseSeq + 1))
  | decided {cost : Nat} (hlive : s.shutDown = false) (hsignal : s.isAborted request.signal = false)
      (hresolve : s.resolveCost env request = .ok cost) (hmode : s.config.mode = .enforce) :
      Answers env s request (s.enforceAnswer request cost)

theorem acquire_answers (env : Env) (s : Controller) (request : Request) :
    Answers env s request (s.acquire env request).1 := by
  have hanswer := fun cost => acquireEnforce_answer env request cost s
  obtain ⟨adaptation, hnoted, -⟩ := notePressure_eq request.pressure s
  have hresolved : (s.notePressure request.pressure).resolveCost env request =
      s.resolveCost env request := by
    rw [hnoted]
    rfl
  have hconfig : (s.notePressure request.pressure).config = s.config := by rw [hnoted]
  have hseq : (s.notePressure request.pressure).leaseSeq = s.leaseSeq := by rw [hnoted]
  unfold acquire
  cases hlive : s.shutDown with
  | true => exact .shutdown hlive
  | false =>
    rw [if_neg Bool.false_ne_true]
    cases hsignal : s.isAborted request.signal with
    | true => exact .aborted hlive hsignal
    | false =>
      rw [if_neg Bool.false_ne_true]
      dsimp only
      rw [hresolved]
      cases hresolve : s.resolveCost env request with
      | error message => exact .threw hlive hsignal hresolve
      | ok cost =>
        rw [hconfig, hseq]
        cases hmode : s.config.mode with
        | off => exact .granted hlive hsignal hresolve (by rw [hmode]; decide)
        | shadow => exact .granted hlive hsignal hresolve (by rw [hmode]; decide)
        | enforce =>
          rw [hanswer cost]
          exact .decided hlive hsignal hresolve hmode

/-- A live controller in enforce mode decides on a request whose cost it can
resolve. -/
theorem acquire_answer (hlive : s.shutDown = false) (hsignal : s.isAborted request.signal = false)
    (hresolve : s.resolveCost env request = .ok cost) (hmode : s.config.mode = .enforce) :
    (s.acquire env request).1 = s.enforceAnswer request cost := by
  have hanswers := acquire_answers env s request
  generalize (s.acquire env request).1 = answer at hanswers
  cases hanswers with
  | shutdown hshut => exact absurd (hlive.symm.trans hshut) Bool.false_ne_true
  | aborted _ habort => exact absurd (hsignal.symm.trans habort) Bool.false_ne_true
  | threw _ _ herror => exact absurd (herror.symm.trans hresolve) (by simp)
  | granted _ _ _ hother => exact absurd hmode hother
  | decided _ _ hresolve' _ =>
    obtain rfl := Except.ok.inj (hresolve'.symm.trans hresolve)
    rfl

theorem waitAnswer_not_admitted (lease : Nat) : s.waitAnswer request cost ≠ .admitted lease := by
  unfold waitAnswer storeAnswer
  split
  · simp
  · split <;> simp

/-- A request is admitted by the solo rule, or because nothing waits and it
fits. -/
theorem enforceAnswer_admitted {lease : Nat} (h : s.enforceAnswer request cost = .admitted lease) :
    (s.notePressure request.pressure).shouldAdmitSolo cost = true ∨
      s.queue.size = 0 ∧ s.activeCost + cost ≤ s.adaptation.currentLimit := by
  unfold enforceAnswer at h
  split at h
  · split at h
    · rename_i hsolo
      exact Or.inl hsolo
    · exact absurd h (by simp)
  · split at h
    · rename_i hdirect
      exact Or.inr hdirect
    · split at h
      · exact absurd h (waitAnswer_not_admitted lease)
      · exact absurd h (by simp)

/-! ## Lane isolation -/

/-- A request is only rejected for a full queue when the queue that it would
wait in cannot accept it. -/
def LaneIsolated (env : Env) (s : Controller) (request : Request) : Prop :=
  ∀ cost message, s.resolveCost env request = .ok cost →
    (s.acquire env request).1 = .rejected .queueFull message →
    (s.queueOf (waitKey request)).canAccept cost = false

/-- The request has to wait, the shared queue cannot accept it, and the queue
that it would wait in can. -/
def SharedBlocks (env : Env) (s : Controller) (request : Request) : Prop :=
  s.shutDown = false ∧ s.isAborted request.signal = false ∧ s.config.mode = .enforce ∧
    ∃ cost, s.resolveCost env request = .ok cost ∧ cost ≤ s.adaptation.currentLimit ∧
      ¬ (s.queue.size = 0 ∧ s.activeCost + cost ≤ s.adaptation.currentLimit) ∧
      s.queue.canAccept cost = false ∧ (s.queueOf (waitKey request)).canAccept cost = true

/-- A request that is rejected for a full queue although its own queue has
room was stopped by the shared queue. -/
theorem enforceAnswer_queueFull {message : String}
    (hfull : s.enforceAnswer request cost = .rejected .queueFull message)
    (hown : (s.queueOf (waitKey request)).canAccept cost = true) :
    cost ≤ s.adaptation.currentLimit ∧
      ¬ (s.queue.size = 0 ∧ s.activeCost + cost ≤ s.adaptation.currentLimit) ∧
      s.queue.canAccept cost = false := by
  unfold enforceAnswer at hfull
  split at hfull
  · split at hfull
    all_goals exact absurd hfull (by simp)
  · split at hfull
    · exact absurd hfull (by simp)
    · rename_i hdirect
      split at hfull
      · unfold waitAnswer storeAnswer at hfull
        rw [if_pos hown] at hfull
        split at hfull
        all_goals exact absurd hfull (by simp)
      · rename_i hshared
        exact ⟨by omega, hdirect, by simpa using hshared⟩

/-- In every state a request is denied for the backlog of others exactly when
the shared queue blocks it. -/
theorem laneIsolated_iff (env : Env) (s : Controller) (request : Request) :
    LaneIsolated env s request ↔ ¬ SharedBlocks env s request := by
  constructor
  · rintro hisolated ⟨hlive, hsignal, hmode, cost, hresolve, hlimit, hdirect, hshared, hown⟩
    have hanswer := acquire_answer hlive hsignal hresolve hmode
    unfold enforceAnswer at hanswer
    rw [if_neg (by omega), if_neg hdirect, if_neg (by rw [hshared]; exact Bool.false_ne_true)]
      at hanswer
    have hfull := hisolated cost _ hresolve hanswer
    rw [hown] at hfull
    exact absurd hfull.symm Bool.false_ne_true
  · intro hblocks cost message hresolve hfull
    have hanswers := acquire_answers env s request
    generalize (s.acquire env request).1 = answer at hanswers hfull
    cases hanswers with
    | shutdown => exact absurd hfull (by simp)
    | aborted => exact absurd hfull (by simp)
    | threw => exact absurd hfull (by simp)
    | granted => exact absurd hfull (by simp)
    | decided hlive hsignal hresolve' hmode =>
      obtain rfl := Except.ok.inj (hresolve'.symm.trans hresolve)
      by_contra hown
      obtain ⟨hlimit, hdirect, hshared⟩ := enforceAnswer_queueFull hfull (by simpa using hown)
      exact hblocks ⟨hlive, hsignal, hmode, _, hresolve, hlimit, hdirect, hshared,
        by simpa using hown⟩

/-- A small enforcing configuration with virtual lanes. -/
def smallLanes : ValidatedConfig := { smallConfig with virtualLanes := true }

/-- Requests without a tenant fill the shared queue. -/
def backlogRun : List Event := List.replicate 6 (.acquire { cost := some (.finite 4) })

/-- The lane of the tenant is empty. -/
theorem not_laneIsolated_backlogRun : ¬ LaneIsolated ⟨Int.ofNat, Rounding.exact⟩
      (run ⟨Int.ofNat, Rounding.exact⟩ smallLanes backlogRun)
      { cost := some (.finite 1), tenantKey := some (js "a") } := by
  intro h
  have hfalse := h 1 "admission queue is full" (by decide +kernel) (by decide +kernel)
  exact absurd hfalse (by decide +kernel)

/-! ## Shadow decisions -/

/-- The decision on a request. -/
inductive Decision where
  | admitted
  | queued
  | rejected
deriving DecidableEq

def answerDecision : AcquireResult → Option Decision
  | .admitted _ => some .admitted
  | .queued => some .queued
  | .rejected _ _ => some .rejected
  | .threw _ => none

/-- The disposition of a record stands for the decision that `acquireShadow`
returns: each of its branches sets both. -/
def dispositionDecision : VirtualDisposition → Option Decision
  | .active => some .admitted
  | .queued => some .queued
  | .rejected => some .rejected
  | .none => none

/-- The shadow decision that `acquire` records with the lease it hands out. -/
def shadowRecorded (env : Env) (s : Controller) (request : Request) : Option Decision :=
  match s.acquire env request with
  | (.admitted lease, s') =>
      (s'.records.get lease).bind fun record => dispositionDecision record.virtualDisposition
  | _ => none

/-- The bounds and the contents of a queue, without the payloads. -/
structure QueueContents where
  maxCount : Nat
  maxCost : Nat
  buckets : List (JsString × List Nat)
  order : List JsString
  cursor : Nat
  count : Int
  cost : Int
deriving DecidableEq

def contents {T : Type} (q : FairCostQueue T) : QueueContents where
  maxCount := q.maxCount
  maxCost := q.maxCost
  buckets := q.buckets.map fun bucket => (bucket.1, bucket.2.map QueueEntry.cost)
  order := q.order
  cursor := q.cursor
  count := q.count
  cost := q.cost

/-- A shadow controller `d` whose virtual accounts are the accounts of an
enforcing controller `e`. -/
structure Mirrors (e d : Controller) : Prop where
  enforces : e.config.mode = .enforce
  shared : e.config.virtualLanes = false
  config : d.config = { e.config with mode := .shadow }
  limit : d.adaptation.currentLimit = e.adaptation.currentLimit
  pressure : d.adaptation.pressure = e.adaptation.pressure
  shutDown : d.shutDown = e.shutDown
  aborted : d.aborted = e.aborted
  activeCost : d.virtualActiveCost = e.activeCost
  activeCount : d.virtualActiveCount = e.active.length
  queue : contents d.virtualQueue = contents e.queue

/-- The shadow decision, if one is recorded, is the decision of the enforcing
controller. -/
def ShadowPredicts (env : Env) (e d : Controller) (request : Request) : Prop :=
  ∀ decision, shadowRecorded env d request = some decision →
    answerDecision (e.acquire env request).1 = some decision

/-- Neither the solo rule nor the rule that nothing passes the queue decides,
and a request that is to be queued has a valid `maxWaitMs`. -/
def SameRules (env : Env) (e : Controller) (request : Request) : Prop :=
  e.shutDown = false → e.isAborted request.signal = false →
    ∀ cost, e.resolveCost env request = .ok cost → ¬ (cost > e.adaptation.currentLimit ∧
          (e.notePressure request.pressure).shouldAdmitSolo cost = true) ∧
        ¬ (e.activeCost + cost ≤ e.adaptation.currentLimit ∧ cost ≤ e.adaptation.currentLimit ∧
          e.queue.size ≠ 0) ∧
        (cost ≤ e.adaptation.currentLimit → ¬ e.activeCost + cost ≤ e.adaptation.currentLimit →
          e.queue.canAccept cost = true → ∃ wait, e.maxWait request = .ok wait)

theorem canAccept_of_contents {T U : Type} {q : FairCostQueue T} {q' : FairCostQueue U}
    (h : contents q' = contents q) (cost : Nat) : q'.canAccept cost = q.canAccept cost := by
  have hmaxCount : q'.maxCount = q.maxCount := congrArg QueueContents.maxCount h
  have hmaxCost : q'.maxCost = q.maxCost := congrArg QueueContents.maxCost h
  have hcount : q'.count = q.count := congrArg QueueContents.count h
  have hcost : q'.cost = q.cost := congrArg QueueContents.cost h
  unfold FairCostQueue.canAccept
  rw [hmaxCount, hmaxCost, hcount, hcost]

theorem admitLease_record (env : Env) (call cost : Nat) (disposition : VirtualDisposition)
    (s : Controller) :
    ((s.admitLease env call cost disposition).records.get (s.leaseSeq + 1)).map
      ActiveLeaseRecord.virtualDisposition = some disposition := by
  obtain ⟨-, hseq⟩ := booksView_sampleIntegral env s
  unfold admitLease addLease settle
  rw [JsMap.get_set, if_pos (by rw [hseq])]
  rfl

theorem acquireShadow_record (env : Env) (call : Nat) (request : Request) (cost : Nat)
    (s : Controller) :
    ((s.acquireShadow env call request cost).records.get (s.leaseSeq + 1)).map
      ActiveLeaseRecord.virtualDisposition = some (s.shadowDecision cost).1 := by
  have hseq : (s.shadowDecision cost).2.leaseSeq = s.leaseSeq := by
    unfold shadowDecision
    split
    · rfl
    · split
      · rfl
      · split <;> rfl
  have hrecord := admitLease_record env call cost (s.shadowDecision cost).1 (s.shadowDecision cost).2
  rw [hseq] at hrecord
  unfold acquireShadow
  dsimp only
  split <;> exact hrecord

theorem shadowDecision_of_eq {t : Controller}
    (hlimit : t.adaptation.currentLimit = s.adaptation.currentLimit)
    (hcost : t.virtualActiveCost = s.virtualActiveCost) (hqueue : t.virtualQueue = s.virtualQueue)
    (cost : Nat) : (t.shadowDecision cost).1 = (s.shadowDecision cost).1 := by
  unfold shadowDecision
  rw [hlimit, hcost, hqueue]
  split
  · rfl
  · split
    · rfl
    · split <;> rfl

theorem shadowRecorded_live (hlive : s.shutDown = false)
    (hsignal : s.isAborted request.signal = false)
    (hresolve : s.resolveCost env request = .ok cost) (hmode : s.config.mode = .shadow) :
    shadowRecorded env s request = dispositionDecision (s.shadowDecision cost).1 := by
  obtain ⟨adaptation, hnoted, hlimit⟩ := notePressure_eq request.pressure s
  generalize ht : s.notePressure request.pressure = t at hnoted
  have hresolve' : t.resolveCost env request = .ok cost := by rw [hnoted]; exact hresolve
  have hmode' : t.config.mode = .shadow := by rw [hnoted]; exact hmode
  have hacquire : s.acquire env request =
      (.admitted (t.leaseSeq + 1), t.beginCall.acquireShadow env t.calls request cost) := by
    unfold acquire
    rw [if_neg (by rw [hlive]; exact Bool.false_ne_true),
      if_neg (by rw [hsignal]; exact Bool.false_ne_true), ht]
    dsimp only
    rw [hresolve']
    rw [hmode']
  have hrecord := acquireShadow_record env t.calls request cost t.beginCall
  have hdecision : (t.beginCall.shadowDecision cost).1 = (s.shadowDecision cost).1 := by
    refine shadowDecision_of_eq ?_ ?_ ?_ cost
    · rw [hnoted]
      exact hlimit
    all_goals
      rw [hnoted]
      rfl
  obtain ⟨record, hget, hdisposition⟩ := Option.map_eq_some_iff.mp hrecord
  unfold shadowRecorded
  rw [hacquire]
  dsimp only
  have hget' : (t.beginCall.acquireShadow env t.calls request cost).records.get (t.leaseSeq + 1) =
    some record := hget
  rw [hget', Option.bind_some, hdisposition, hdecision]

/-- Nothing is recorded for a request that is turned away before it is
decided on. -/
theorem shadowRecorded_cases (env : Env) (request : Request) (hmode : s.config.mode = .shadow) :
    shadowRecorded env s request = none ∧ (s.shutDown = true ∨ s.isAborted request.signal = true ∨
        ∃ message, s.resolveCost env request = .error message) ∨
      ∃ cost, s.shutDown = false ∧ s.isAborted request.signal = false ∧
        s.resolveCost env request = .ok cost ∧
        shadowRecorded env s request = dispositionDecision (s.shadowDecision cost).1 := by
  have hanswers := acquire_answers env s request
  have hnone : (∀ lease, (s.acquire env request).1 ≠ .admitted lease) →
      shadowRecorded env s request = none := by
    intro hother
    unfold shadowRecorded
    split
    · rename_i lease s' heq
      exact absurd (congrArg Prod.fst heq) (hother lease)
    · rfl
  generalize (s.acquire env request).1 = answer at hanswers hnone
  cases hanswers with
  | shutdown hshut => exact Or.inl ⟨hnone (by simp), Or.inl hshut⟩
  | aborted hlive hsignal => exact Or.inl ⟨hnone (by simp), Or.inr (Or.inl hsignal)⟩
  | threw hlive hsignal hresolve =>
    exact Or.inl ⟨hnone (by simp), Or.inr (Or.inr ⟨_, hresolve⟩)⟩
  | granted hlive hsignal hresolve _ =>
    exact Or.inr ⟨_, hlive, hsignal, hresolve, shadowRecorded_live hlive hsignal hresolve hmode⟩
  | decided _ _ _ henforce => exact absurd (hmode.symm.trans henforce) (by decide)

/-! ## The comparison -/

section Comparison

variable {e d : Controller}

section

variable (h : Mirrors e d)
include h

theorem Mirrors.mode : d.config.mode = .shadow := by rw [h.config]

theorem Mirrors.resolveCost : d.resolveCost env request = e.resolveCost env request := by
  unfold Controller.resolveCost
  rw [h.config]

theorem Mirrors.isAborted : d.isAborted request.signal = e.isAborted request.signal := by
  unfold Controller.isAborted
  rw [h.aborted]

/-- The decision of the shadow controller, over the accounts of the enforcing
one. -/
theorem Mirrors.decision (hresolve : e.resolveCost env request = .ok cost) :
    dispositionDecision (d.shadowDecision cost).1 =
      if cost > e.adaptation.currentLimit then some .rejected
      else if e.activeCost + cost ≤ e.adaptation.currentLimit then some .admitted
      else if e.queue.canAccept cost then some .queued
      else some .rejected := by
  have hle := (resolveCost_bounds hresolve).2
  have hmax := e.config.costConfig.maxRequestCost.2.2
  have hsafe : ¬ cost > maxSafeInteger := by
    have hdiv : maxAdmissionCostOrLimit ≤ maxSafeInteger := by decide
    omega
  unfold shadowDecision
  rw [h.limit, h.activeCost, canAccept_of_contents h.queue]
  by_cases hover : cost > e.adaptation.currentLimit
  · rw [if_pos (Or.inl hover), if_pos hover]
    rfl
  · rw [if_neg (by simp [hover, hsafe]), if_neg hover]
    split
    · rfl
    · split <;> rfl

theorem Mirrors.decides (hresolve : e.resolveCost env request = .ok cost) :
    ∃ decision, dispositionDecision (d.shadowDecision cost).1 = some decision := by
  rw [h.decision hresolve]
  split
  · exact ⟨_, rfl⟩
  · split
    · exact ⟨_, rfl⟩
    · split <;> exact ⟨_, rfl⟩

end

theorem admitted_of_decision {answer : AcquireResult}
    (h : answerDecision answer = some .admitted) : ∃ lease, answer = .admitted lease := by
  cases answer with
  | admitted lease => exact ⟨lease, rfl⟩
  | queued => exact absurd h (by decide)
  | rejected code message => exact absurd h (by simp [answerDecision])
  | threw message => exact absurd h (by simp [answerDecision])

theorem Mirrors.waitDecision (h : Mirrors e d) (haccept : e.queue.canAccept cost = true) :
    answerDecision (e.waitAnswer request cost) = some .queued ↔
      ∃ wait, e.maxWait request = .ok wait := by
  have hown : e.queueOf (waitKey request) = e.queue := by
    unfold queueOf
    rw [if_neg (by rw [h.shared]; simp)]
  unfold waitAnswer storeAnswer
  rw [hown, if_pos haccept]
  cases e.maxWait request with
  | error message => simp [answerDecision]
  | ok wait => simp [answerDecision]

theorem Mirrors.decision_iff (h : Mirrors e d) (hresolve : e.resolveCost env request = .ok cost) :
    answerDecision (e.enforceAnswer request cost) = dispositionDecision (d.shadowDecision cost).1 ↔
      ¬ (cost > e.adaptation.currentLimit ∧
          (e.notePressure request.pressure).shouldAdmitSolo cost = true) ∧
        ¬ (e.activeCost + cost ≤ e.adaptation.currentLimit ∧ cost ≤ e.adaptation.currentLimit ∧
          e.queue.size ≠ 0) ∧
        (cost ≤ e.adaptation.currentLimit → ¬ e.activeCost + cost ≤ e.adaptation.currentLimit →
          e.queue.canAccept cost = true → ∃ wait, e.maxWait request = .ok wait) := by
  rw [h.decision hresolve]
  unfold enforceAnswer
  by_cases hover : cost > e.adaptation.currentLimit
  · rw [if_pos hover, if_pos hover]
    have hnot : ¬ cost ≤ e.adaptation.currentLimit := by omega
    by_cases hsolo : (e.notePressure request.pressure).shouldAdmitSolo cost = true
    · simp [hsolo, hover, answerDecision]
    · simp [hsolo, hnot, answerDecision]
  · rw [if_neg hover, if_neg hover]
    have hle : cost ≤ e.adaptation.currentLimit := by omega
    by_cases hfits : e.activeCost + cost ≤ e.adaptation.currentLimit
    · by_cases hsize : e.queue.size = 0
      · simp [hsize, hfits, hover, answerDecision]
      · have hother : answerDecision (if e.queue.canAccept cost = true then
            e.waitAnswer request cost else .rejected .queueFull "admission queue is full") ≠
              some .admitted := by
          split
          · intro hadmitted
            obtain ⟨lease, hanswer⟩ := admitted_of_decision hadmitted
            exact waitAnswer_not_admitted lease hanswer
          · simp [answerDecision]
        simp [hother, hsize, hfits, hle]
    · rw [if_neg hfits, if_neg (fun hboth => hfits hboth.2)]
      by_cases haccept : e.queue.canAccept cost = true
      · rw [if_pos haccept, if_pos haccept, h.waitDecision haccept]
        simp [hfits, haccept, hle]
      · simp [hover, hfits, haccept, answerDecision]

/-- On equal accounts the shadow decision is the decision of the enforcing
controller exactly when the rules that `acquireShadow` lacks do not decide. -/
theorem shadowPredicts_iff (env : Env) (h : Mirrors e d) (request : Request) :
    ShadowPredicts env e d request ↔ SameRules env e request := by
  unfold ShadowPredicts SameRules
  rcases shadowRecorded_cases env request h.mode with ⟨hnone, hwhy⟩ |
    ⟨cost, hlive, hsignal, hresolve, hrecorded⟩
  · -- nothing is recorded, and the rules ask nothing
    rw [h.shutDown, h.isAborted, h.resolveCost] at hwhy
    rw [hnone]
    refine ⟨?_, fun _ _ hsome => absurd hsome.symm (Option.some_ne_none _)⟩
    intro _ hlive hsignal cost hresolve
    rcases hwhy with hshut | habort | ⟨message, herror⟩
    · exact absurd (hlive.symm.trans hshut) Bool.false_ne_true
    · exact absurd (hsignal.symm.trans habort) Bool.false_ne_true
    · exact absurd (herror.symm.trans hresolve) (by simp)
  · rw [h.shutDown] at hlive
    rw [h.isAborted] at hsignal
    rw [h.resolveCost] at hresolve
    have hiff := h.decision_iff hresolve
    rw [acquire_answer hlive hsignal hresolve h.enforces, hrecorded]
    constructor
    · intro hpredicts _ _ cost' hresolve'
      obtain rfl := Except.ok.inj (hresolve.symm.trans hresolve')
      apply hiff.mp
      obtain ⟨decision, hdecision⟩ := h.decides hresolve
      rw [hpredicts decision hdecision, hdecision]
    · intro hsame decision hdecision
      exact (hiff.mpr (hsame hlive hsignal cost hresolve)).trans hdecision

end Comparison

def smallMirror : ValidatedConfig := { smallConfig with mode := .shadow }

/-- One request is active and one is queued. -/
def mirrorRun : List Event :=
  [.acquire { cost := some (.finite 3) }, .acquire { cost := some (.finite 3) }]

theorem mirrors_mirrorRun : Mirrors (run ⟨Int.ofNat, Rounding.exact⟩ smallConfig mirrorRun)
    (run ⟨Int.ofNat, Rounding.exact⟩ smallMirror mirrorRun) where
  enforces := by decide +kernel
  shared := by decide +kernel
  config := rfl
  limit := by decide +kernel
  pressure := by decide +kernel
  shutDown := by decide +kernel
  aborted := by decide +kernel
  activeCost := by decide +kernel
  activeCount := by decide +kernel
  queue := by decide +kernel

theorem shadowPredicts_mirrorRun : ShadowPredicts ⟨Int.ofNat, Rounding.exact⟩
    (run ⟨Int.ofNat, Rounding.exact⟩ smallConfig mirrorRun)
    (run ⟨Int.ofNat, Rounding.exact⟩ smallMirror mirrorRun) { cost := some (.finite 2) } := by
  refine (shadowPredicts_iff ⟨Int.ofNat, Rounding.exact⟩ mirrors_mirrorRun _).mpr ?_
  intro _ _ cost hresolve
  have hcost : (run ⟨Int.ofNat, Rounding.exact⟩ smallConfig mirrorRun).resolveCost
    ⟨Int.ofNat, Rounding.exact⟩ { cost := some (.finite 2) } = .ok 2 := by decide +kernel
  obtain rfl := Except.ok.inj (hcost.symm.trans hresolve)
  refine ⟨by decide +kernel, by decide +kernel, ?_⟩
  exact fun _ _ _ => ⟨5000, by decide +kernel⟩

/-- Two fresh controllers differ on a request that only the solo rule
admits. -/
theorem not_shadowPredicts_solo : Mirrors (create ⟨Int.ofNat, Rounding.exact⟩ smallConfig)
        (create ⟨Int.ofNat, Rounding.exact⟩ smallMirror) ∧
      ¬ ShadowPredicts ⟨Int.ofNat, Rounding.exact⟩ (create ⟨Int.ofNat, Rounding.exact⟩ smallConfig)
        (create ⟨Int.ofNat, Rounding.exact⟩ smallMirror) { cost := some (.finite 5) } := by
  constructor
  · exact ⟨rfl, rfl, rfl, rfl, rfl, rfl, rfl, rfl, rfl, rfl⟩
  · intro h
    exact absurd (h .rejected (by decide +kernel)) (by decide +kernel)

end RedRouter.Admission.Controller
