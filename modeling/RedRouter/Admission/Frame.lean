import RedRouter.Admission.Controller

/-!
# What the stores leave alone

The queue, the lanes and the abort listeners are a part of the controller of
their own. An entry that is stored, taken out or rejected changes that part,
the clock and the settlements, and nothing else: `restView` is everything
else.
-/

namespace RedRouter.Admission.Controller

/-- What is neither stored nor settled. -/
structure RestView where
  config : ValidatedConfig
  adaptation : AdaptationState
  virtualQueue : FairCostQueue Nat
  records : JsMap Nat ActiveLeaseRecord
  active : List Nat
  activeCost : Int
  virtualActiveCost : Int
  virtualActiveCount : Int
  wouldAdmitCount : Int
  wouldQueueCount : Int
  wouldRejectCount : Int
  shutDown : Bool
  leaseSeq : Nat
  admissions : List AdmitStep

def restView (s : Controller) : RestView where
  config := s.config
  adaptation := s.adaptation
  virtualQueue := s.virtualQueue
  records := s.records
  active := s.active
  activeCost := s.activeCost
  virtualActiveCost := s.virtualActiveCost
  virtualActiveCount := s.virtualActiveCount
  wouldAdmitCount := s.wouldAdmitCount
  wouldQueueCount := s.wouldQueueCount
  wouldRejectCount := s.wouldRejectCount
  shutDown := s.shutDown
  leaseSeq := s.leaseSeq
  admissions := s.admissions

theorem restView_foldl {α : Type} {f : Controller → α → Controller}
    (hf : ∀ s a, restView (f s a) = restView s) (l : List α) (s : Controller) :
    restView (l.foldl f s) = restView s := by
  induction l generalizing s with
  | nil => rfl
  | cons a l ih => rw [List.foldl_cons, ih, hf]

theorem restView_readClock (s : Controller) : restView s.readClock = restView s := rfl

variable (key : JsString)

theorem restView_setLane (lane : Lane) (s : Controller) :
    restView (s.setLane key lane) = restView s := rfl

theorem setLane_get_self (lane : Lane) (s : Controller) :
    (s.setLane key lane).virtualLanes.get key = some lane := by
  rw [setLane, JsMap.get_set, if_pos rfl]

theorem setLane_get_other {key other : JsString} (h : other ≠ key) (lane : Lane) (s : Controller) :
    (s.setLane key lane).virtualLanes.get other = s.virtualLanes.get other := by
  rw [setLane, JsMap.get_set, if_neg h.symm]

theorem restView_failQueued (entry : QueueEntry QueuedPayload) (code : RejectCode)
    (message : String) (s : Controller) :
    restView (s.failQueued entry code message) = restView s := rfl

theorem restView_removeEmptyLane (s : Controller) :
    restView (s.removeEmptyLane key) = restView s := by
  unfold removeEmptyLane
  split
  · split <;> rfl
  · rfl

theorem restView_deleteLane (s : Controller) : restView (s.deleteLane key) = restView s := by
  unfold deleteLane
  split
  · rfl
  · exact restView_foldl
      (fun s entry => restView_failQueued entry .laneEvicted "connection lane evicted" s) _ s

theorem restView_evictIdleLanes (env : Env) (s : Controller) :
    restView (s.evictIdleLanes env) = restView s :=
  restView_foldl (fun s key => restView_deleteLane key s) _ s.readClock

theorem restView_evictOldestLane (s : Controller) : restView s.evictOldestLane = restView s := by
  unfold evictOldestLane
  split
  · split
    · rfl
    · rfl
    · exact restView_deleteLane _ s
  · rfl

theorem restView_getOrCreateLane (env : Env) (key : JsString) (s : Controller) :
    restView (s.getOrCreateLane env key).2 = restView s := by
  unfold getOrCreateLane
  split
  · rfl
  · rw [restView_setLane, restView_readClock, restView_readClock, restView_evictOldestLane]

theorem restView_storeEntry (env : Env) (entry : QueueEntry QueuedPayload) (s : Controller) :
    restView (s.storeEntry env entry).2 = restView s := by
  have hlane := restView_getOrCreateLane env entry.tenantKey s
  unfold storeEntry
  split
  · dsimp only
    split
    · exact hlane
    · exact (restView_removeEmptyLane _ _).trans hlane
  · split <;> rfl

theorem restView_attachAbort (signal : Option Nat) (entryId : Nat) (s : Controller) :
    restView (s.attachAbort signal entryId) = restView s := by
  unfold attachAbort
  split <;> rfl

theorem restView_removeFromLanes (id : Nat) (keys : List JsString) (s : Controller) :
    restView (removeFromLanes id keys s).2 = restView s := by
  induction keys generalizing s with
  | nil => rfl
  | cons key keys ih =>
    rw [removeFromLanes]
    split
    · exact ih s
    · split
      · exact restView_removeEmptyLane _ _
      · exact (ih _).trans rfl

theorem notePressure_eq (pressure : Option Pressure) (s : Controller) :
    ∃ adaptation, s.notePressure pressure = { s with adaptation := adaptation } ∧
      adaptation.currentLimit = s.adaptation.currentLimit := by
  unfold notePressure
  split
  · exact ⟨_, rfl, currentLimit_setPressure _ _⟩
  · exact ⟨s.adaptation, rfl, rfl⟩

end RedRouter.Admission.Controller
