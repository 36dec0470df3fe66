import RedRouter.Admission.Frame

/-!
# What only the adaptation changes

The limit, the pressure and the mode of a controller are written by `tick`,
`observePressure`, `updateConfig` and `shutdown`, and by a request or a
release that reports a pressure.  Everything else leaves `controlView` as it
is.
-/

namespace RedRouter.Admission.Controller

/-- The configuration and the part of the adaptation that decides about
admissions. -/
structure ControlView where
  config : ValidatedConfig
  shutDown : Bool
  currentLimit : Nat
  recoveryCeiling : Nat
  pressure : Pressure
  criticalDecreaseConsumed : Bool

def controlView (s : Controller) : ControlView where
  config := s.config
  shutDown := s.shutDown
  currentLimit := s.adaptation.currentLimit
  recoveryCeiling := s.adaptation.recoveryCeiling
  pressure := s.adaptation.pressure
  criticalDecreaseConsumed := s.adaptation.criticalDecreaseConsumed

variable {s s' : Controller}

section

variable (h : controlView s' = controlView s)
include h

theorem config_of_view : s'.config = s.config :=
  congrArg ControlView.config h

theorem limit_of_view : s'.adaptation.currentLimit = s.adaptation.currentLimit :=
  congrArg ControlView.currentLimit h

theorem dispatches_of_view : s'.dispatches = s.dispatches := by
  have hshut : s'.shutDown = s.shutDown := congrArg ControlView.shutDown h
  rw [dispatches, dispatches, hshut, config_of_view h]

end

theorem controlView_of_rest (h : restView s' = restView s) : controlView s' = controlView s :=
  congrArg (fun view : RestView => (⟨view.config, view.shutDown, view.adaptation.currentLimit,
    view.adaptation.recoveryCeiling, view.adaptation.pressure,
    view.adaptation.criticalDecreaseConsumed⟩ : ControlView)) h

theorem controlView_foldl {α : Type} {f : Controller → α → Controller}
    (hf : ∀ s a, controlView (f s a) = controlView s) (l : List α) (s : Controller) :
    controlView (l.foldl f s) = controlView s := by
  induction l generalizing s with
  | nil => rfl
  | cons a l ih => rw [List.foldl_cons, ih, hf]

/-! ## Settling and dispatch -/

variable (env : Env)

@[simp] theorem controlView_sampleIntegral (s : Controller) :
    controlView (s.sampleIntegral env) = controlView s := by
  have hsample : ∀ (t : Controller) (cost dt : Int),
      controlView { t with adaptation := sampleActiveIntegral env.rounding cost dt t.adaptation } =
        controlView t := by
    intro t cost dt
    unfold sampleActiveIntegral
    by_cases hnone : dt ≤ 0 ∨ cost ≤ 0
    · rw [if_pos hnone]
    · rw [if_neg hnone]
      rfl
  unfold sampleIntegral
  dsimp only
  split
  · exact hsample s.readClock _ _
  · rfl

variable (entry : QueueEntry QueuedPayload)

@[simp] theorem controlView_failQueued (code : RejectCode) (message : String) (s : Controller) :
    controlView (s.failQueued entry code message) = controlView s := rfl

@[simp] theorem controlView_admitLease (call cost : Nat) (disposition : VirtualDisposition)
    (s : Controller) : controlView (s.admitLease env call cost disposition) = controlView s :=
  controlView_sampleIntegral env s

@[simp] theorem controlView_settleDequeued (s : Controller) :
    controlView (s.settleDequeued env entry).1 = controlView s := by
  unfold settleDequeued
  dsimp only
  split
  · rfl
  · split
    · rfl
    · exact controlView_admitLease env _ _ _ _

theorem controlView_dispatchShared (fuel : Nat) (s : Controller) :
    controlView (dispatchShared env fuel s).1 = controlView s := by
  induction fuel generalizing s with
  | zero => rfl
  | succ fuel ih =>
    rw [dispatchShared]
    split
    · split
      · rfl
      · split
        · rfl
        · rw [ih, controlView_settleDequeued]
          rfl
    · rfl

theorem controlView_dispatchLane (key : JsString) (fuel : Nat) (s : Controller) :
    controlView (dispatchLane env key fuel s).1 = controlView s := by
  induction fuel generalizing s with
  | zero => rfl
  | succ fuel ih =>
    rw [dispatchLane]
    split
    · rfl
    · split
      · split
        · rfl
        · split
          · rfl
          · dsimp only
            split
            · rw [controlView_settleDequeued]
              rfl
            · rw [ih, controlView_settleDequeued]
              rfl
      · rfl

@[simp] theorem controlView_removeEmptyLane (key : JsString) (s : Controller) :
    controlView (s.removeEmptyLane key) = controlView s :=
  controlView_of_rest (restView_removeEmptyLane key s)

theorem controlView_dispatchKeys (keys : List JsString) (s : Controller) :
    controlView (dispatchKeys env keys s) = controlView s := by
  induction keys generalizing s with
  | nil => rfl
  | cons key keys ih =>
    rw [dispatchKeys]
    split
    · exact ih s
    · rename_i lane _
      have hlane := controlView_dispatchLane env key lane.queue.entries.length s
      split
      · rename_i heq
        rw [heq] at hlane
        exact hlane
      · rename_i heq
        rw [heq] at hlane
        rw [ih, controlView_removeEmptyLane]
        exact hlane

theorem controlView_dispatchLanes (s : Controller) :
    controlView (s.dispatchLanes env) = controlView s := by
  unfold dispatchLanes
  split
  · exact controlView_dispatchKeys env _ s
  · rfl

@[simp] theorem controlView_dispatch (s : Controller) :
    controlView (s.dispatch env) = controlView s := by
  unfold dispatch
  split
  · have hshared := controlView_dispatchShared env s.queue.entries.length s
    split
    · rename_i heq
      rw [heq] at hshared
      exact hshared
    · rename_i heq
      rw [heq] at hshared
      rw [controlView_dispatchLanes]
      exact hshared
  · rfl

/-! ## Shadow accounting -/

@[simp] theorem controlView_setDisposition (id : Nat) (disposition : VirtualDisposition)
    (s : Controller) : controlView (s.setDisposition id disposition) = controlView s := by
  unfold setDisposition
  split <;> rfl

theorem controlView_dispatchVirtualLoop (fuel : Nat) (s : Controller) :
    controlView (dispatchVirtualLoop fuel s) = controlView s := by
  induction fuel generalizing s with
  | zero => rfl
  | succ fuel ih =>
    rw [dispatchVirtualLoop]
    split
    · dsimp only
      split
      · rfl
      · split
        · rfl
        · split
          · rw [ih]
            rfl
          · split
            · rw [ih]
              rfl
            · rw [ih]
              exact controlView_setDisposition _ _ _
    · rfl

@[simp] theorem controlView_dispatchVirtual (s : Controller) :
    controlView s.dispatchVirtual = controlView s :=
  controlView_dispatchVirtualLoop _ s

variable (record : ActiveLeaseRecord)

@[simp] theorem controlView_releaseVirtual (s : Controller) :
    controlView (s.releaseVirtual record) = controlView s := by
  unfold releaseVirtual
  rw [controlView_dispatchVirtual, controlView_setDisposition]
  split <;> rfl

theorem controlView_shadowDecision (cost : Nat) (s : Controller) :
    controlView (s.shadowDecision cost).2 = controlView s := by
  unfold shadowDecision
  split
  · rfl
  · split
    · rfl
    · split <;> rfl

@[simp] theorem controlView_acquireShadow (call : Nat) (request : Request) (cost : Nat)
    (s : Controller) : controlView (s.acquireShadow env call request cost) = controlView s := by
  have hview : controlView ((s.shadowDecision cost).2.admitLease env call cost
      (s.shadowDecision cost).1) = controlView s := by
    rw [controlView_admitLease, controlView_shadowDecision]
  unfold acquireShadow
  dsimp only
  split <;> exact hview

/-! ## Lanes and entries -/

@[simp] theorem controlView_evictIdleLanes (s : Controller) :
    controlView (s.evictIdleLanes env) = controlView s :=
  controlView_of_rest (restView_evictIdleLanes env s)

@[simp] theorem controlView_storeEntry (s : Controller) :
    controlView (s.storeEntry env entry).2 = controlView s :=
  controlView_of_rest (restView_storeEntry env entry s)

@[simp] theorem controlView_attachAbort (signal : Option Nat) (entryId : Nat) (s : Controller) :
    controlView (s.attachAbort signal entryId) = controlView s :=
  controlView_of_rest (restView_attachAbort signal entryId s)

@[simp] theorem controlView_enqueueEntry (s : Controller) :
    controlView (s.enqueueEntry env entry).2 = controlView s := by
  have hview := controlView_storeEntry env entry s
  unfold enqueueEntry
  split
  · rename_i heq
    rw [heq] at hview
    exact hview
  · rename_i heq
    rw [heq] at hview
    rw [controlView_dispatch, controlView_attachAbort, controlView_dispatch]
    exact hview

@[simp] theorem controlView_enqueue (request : Request) (cost : Nat) (s : Controller) :
    controlView (s.enqueue env request cost).2 = controlView s := by
  unfold enqueue
  dsimp only
  split
  · rfl
  · rw [controlView_enqueueEntry]
    rfl

theorem controlView_removeFromLanes (id : Nat) (keys : List JsString) (s : Controller) :
    controlView (removeFromLanes id keys s).2 = controlView s :=
  controlView_of_rest (restView_removeFromLanes id keys s)

@[simp] theorem controlView_expireEntry (id : Nat) (code : RejectCode) (message : String)
    (s : Controller) : controlView (s.expireEntry env id code message) = controlView s := by
  unfold expireEntry
  split
  · rw [controlView_dispatch]
    rfl
  · rename_i q _
    have hview := controlView_removeFromLanes id (JsMap.keys s.virtualLanes) { s with queue := q }
    split
    · rename_i heq
      rw [heq] at hview
      rw [controlView_dispatch]
      exact hview
    · rename_i heq
      rw [heq] at hview
      exact hview

@[simp] theorem controlView_abort (signal : Nat) (s : Controller) :
    controlView (s.abort env signal) = controlView s := by
  have hlistener : ∀ (s : Controller) (listener : Nat × Nat),
      controlView (s.runListener env listener) = controlView s := by
    intro s listener
    unfold runListener
    split
    · exact controlView_expireEntry env _ _ _ _
    · rfl
  unfold abort
  split
  · rfl
  · exact controlView_foldl hlistener _ _

/-! ## Requests and releases -/

@[simp] theorem controlView_acquireEnforce (request : Request) (cost : Nat) (s : Controller) :
    controlView (s.acquireEnforce env request cost).2 = controlView s := by
  unfold acquireEnforce
  split
  · split
    · exact controlView_admitLease env _ _ _ _
    · rfl
  · split
    · exact controlView_admitLease env _ _ _ _
    · split
      · exact controlView_enqueue env request cost s
      · rfl

def reportedPressure (s : Controller) : Event → Option Pressure
  | .acquire request =>
      if s.shutDown || s.isAborted request.signal then none else request.pressure
  | .release lease _ info =>
      match s.records.get lease with
      | some record => if record.released then none else info.pressure
      | none => none
  | .observePressure pressure => some pressure
  | _ => none

theorem controlView_notePressure (h : controlView s' = controlView s) (pressure : Option Pressure) :
    controlView (s'.notePressure pressure) = controlView (s.notePressure pressure) := by
  have hpressure : s'.adaptation.pressure = s.adaptation.pressure :=
    congrArg ControlView.pressure h
  cases pressure with
  | none => exact h
  | some pressure =>
    unfold notePressure setPressure
    dsimp only
    rw [hpressure]
    split
    · unfold controlView at h ⊢
      simp only [ControlView.mk.injEq] at h ⊢
      exact ⟨h.1, h.2.1, h.2.2.1, h.2.2.2.1, trivial, h.2.2.2.2.2⟩
    · exact h

/-- A request notes its pressure and changes nothing else of the view. -/
theorem controlView_acquire (request : Request) (s : Controller) :
    controlView (s.acquire env request).2 =
      controlView (s.notePressure (s.reportedPressure (.acquire request))) := by
  unfold acquire reportedPressure
  dsimp only
  by_cases hshut : s.shutDown = true
  · rw [if_pos hshut, if_pos (by simp [hshut])]
    rfl
  · rw [if_neg hshut]
    by_cases hsignal : s.isAborted request.signal = true
    · rw [if_pos hsignal, if_pos (by simp [hsignal])]
      rfl
    · rw [if_neg hsignal, if_neg (by simp [hshut, hsignal])]
      split
      · rfl
      · split
        · rfl
        · rw [controlView_acquireShadow]
          rfl
        · exact controlView_acquireEnforce env request _ _

theorem controlView_finishRelease (outcome : ReleaseOutcome)
    (info : ReleaseMeta) (h : controlView s' = controlView s) :
    controlView (s'.finishRelease env record outcome info) =
      controlView (s.notePressure info.pressure) := by
  have hnote : ∀ (latency : RawNumber) (t : Controller),
      controlView (t.noteRelease env outcome latency) = controlView t := by
    intro latency t
    unfold noteRelease noteOutcome noteLatency
    dsimp only
    split <;> split <;> rfl
  have hlatency : controlView (s'.leaseLatency env info record).2 = controlView s' := by
    unfold leaseLatency
    split <;> rfl
  unfold finishRelease
  rw [controlView_releaseVirtual]
  exact controlView_notePressure ((hnote _ _).trans (hlatency.trans h)) info.pressure

theorem controlView_dropLease (s : Controller) :
    controlView (s.dropLease record) = controlView s := by
  unfold dropLease
  split <;> rfl

theorem controlView_release (lease : Nat) (outcome : ReleaseOutcome) (info : ReleaseMeta)
    (s : Controller) :
    controlView (s.release env lease outcome info) =
      controlView (s.notePressure (s.reportedPressure (.release lease outcome info))) := by
  unfold release reportedPressure
  dsimp only
  cases hget : s.records.get lease with
  | none => rfl
  | some record =>
    dsimp only
    by_cases hreleased : record.released = true
    · rw [if_pos hreleased, if_pos hreleased]
      rfl
    · rw [if_neg hreleased, if_neg hreleased, controlView_dispatch]
      refine controlView_finishRelease env record outcome info ?_
      rw [controlView_dropLease, controlView_sampleIntegral]
      rfl

end RedRouter.Admission.Controller
