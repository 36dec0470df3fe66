import RedRouter.Middleware.GateWakeUps

/-!
# Heavyweight chat admission

The model of `ChatAdmissionController` in `chatBodyAdmission.ts`, as far as it
hands out heavyweight leases.  A lease is one slot, and the queued bytes are the
sizes of the bodies that the waiting calls hold.

A call whose signal is aborted after a release has woken it returns without a
lease and wakes nobody in its place (`wakeUp_lost`).
-/

namespace RedRouter.Middleware

/-- What the constructor accepts. -/
structure ChatAdmissionOptions where
  maxHeavyInFlight : Nat := 1
  maxQueuedBytes : Nat
  positive : 0 < maxHeavyInFlight

variable (c : ChatAdmissionOptions)

namespace ChatAdmissionController

def gateOptions : GateOptions where
  limit := c.maxHeavyInFlight
  maxQueuedBytes := c.maxQueuedBytes
  timeoutReason := .queueTimeout

def tryAcquireHeavy (g : Gate) : Option AdmissionLease × Gate :=
  g.tryAcquire c.maxHeavyInFlight 1

def acquireHeavyWithin (timeoutMs : ℚ) (signal : Option Nat)
    (queuedBytes : Nat) (sessionKey : JsString) (start now : Int) (g : Gate) : Outcome × Gate :=
  g.acquireWithin (gateOptions c) 1 queuedBytes timeoutMs signal sessionKey start now

inductive Event where
  | acquireHeavyWithin (timeoutMs : ℚ) (signal : Option Nat) (queuedBytes : Nat)
      (sessionKey : JsString) (start now : Int)
  | tryAcquireHeavy
  | release (token : Nat)
  | abort (signal : Nat)
  | timeout (id : Nat)
  | wake (id : Nat)
  | resume (id : Nat) (now : Int)

def Event.toGate : Event → Gate.Event
  | .acquireHeavyWithin timeoutMs signal queuedBytes sessionKey start now =>
      .acquireWithin 1 queuedBytes timeoutMs signal sessionKey start now
  | .tryAcquireHeavy => .tryAcquire 1
  | .release token => .release token
  | .abort signal => .abort signal
  | .timeout id => .timeout id
  | .wake id => .wake id
  | .resume id now => .resume id now

def step (g : Gate) : Event → Gate
  | .acquireHeavyWithin timeoutMs signal queuedBytes sessionKey start now =>
      (acquireHeavyWithin c timeoutMs signal queuedBytes sessionKey start now g).2
  | .tryAcquireHeavy => (tryAcquireHeavy c g).2
  | .release token => g.release token
  | .abort signal => g.abort signal
  | .timeout id => g.timeout id
  | .wake id => g.wake id
  | .resume id now => (g.resume (gateOptions c) id now).2

def run (events : List Event) : Gate := events.foldl (step c) {}

theorem step_eq (g : Gate) (event : Event) :
    step c g event = g.step (gateOptions c) event.toGate := by
  cases event <;> rfl

theorem unitCharge_toGate (event : Event) : event.toGate.UnitCharge := by
  cases event <;> first | rfl | trivial

/-- What every event keeps. -/
structure Sound (c : ChatAdmissionOptions) (g : Gate) : Prop where
  lawful : g.Lawful (gateOptions c)
  unit : g.UnitCharges

theorem Sound.step {c : ChatAdmissionOptions} {g : Gate} (h : Sound c g) (event : Event) :
    Sound c (step c g event) := by
  rw [step_eq]
  exact ⟨h.lawful.step _, h.unit.step (unitCharge_toGate event)⟩

theorem sound_empty : Sound c {} :=
  ⟨Gate.lawful_empty _, by simp, by simp⟩

/-- With one slot for each lease the room in use is the number of leases. -/
theorem Sound.activeHeavy {c : ChatAdmissionOptions} {g : Gate} (h : Sound c g) :
    g.inUse = g.leases.length := by
  have hunit : g.leases.map AdmissionLease.charge = g.leases.map fun _ => 1 :=
    List.map_congr_left fun lease hlease => h.unit.leases lease hlease
  rw [h.lawful.inUse_eq, hunit]
  simp

/-- A call that was woken and gives up hands its wake-up on, or nobody needs it. -/
def HandsOn (c : ChatAdmissionOptions) (g : Gate) (event : Event) : Prop :=
  g.HandsOn c.maxHeavyInFlight event.toGate

instance (c : ChatAdmissionOptions) (g : Gate) (event : Event) : Decidable (HandsOn c g event) :=
  inferInstanceAs (Decidable (g.HandsOn c.maxHeavyInFlight event.toGate))

theorem covered_along {events : List Event} (hon : Runs.Along (step c) (HandsOn c) {} events) :
    Sound c (run c events) ∧ (run c events).Covered c.maxHeavyInFlight := by
  refine Runs.along_invariant (fun g => Sound c g ∧ g.Covered c.maxHeavyInFlight)
    (fun g event h hhands => ⟨h.1.step event, ?_⟩) ⟨sound_empty c, ?_⟩ hon
  · rw [step_eq]
    exact Gate.covered_step h.1.lawful h.1.unit h.2 (unitCharge_toGate event) hhands
  · rintro ⟨call, hcall, -⟩
    cases hcall

/-- In every run the active slots are the leases that were not released, at most
as many as there may be, and the queued bytes are those of the waiting calls,
within their budget.  In a run in which no woken call gives up while a slot is
free that a parked call waits for, no wake-up is lost: where none is pending, a
free slot means that no call is parked. -/
theorem heavy_admission (c : ChatAdmissionOptions) (events : List Event) :
    ((run c events).inUse = (run c events).leases.length ∧
      (run c events).inUse ≤ c.maxHeavyInFlight ∧
      (run c events).queuedBytes =
        ((run c events).suspended.map fun call => call.request.queuedBytes).sum ∧
      (run c events).queuedBytes ≤ c.maxQueuedBytes) ∧
    (Runs.Along (step c) (HandsOn c) {} events → (run c events).Quiescent →
      (run c events).inUse < c.maxHeavyInFlight →
      ∀ call ∈ (run c events).suspended, ¬ call.Parked) := by
  have hsound : Sound c (run c events) :=
    Runs.foldl_invariant (Sound c) (fun _ event h => h.step event) (sound_empty c) events
  refine ⟨⟨hsound.activeHeavy, hsound.lawful.inUse_le, hsound.lawful.queuedBytes_eq,
    hsound.lawful.queuedBytes_le⟩, fun hon hquiet hfree call hcall hparked => ?_⟩
  have hcovered := (covered_along c hon).2 ⟨call, hcall, hparked⟩
  have hnone : (run c events).wokenCount = 0 :=
    List.countP_eq_zero.mpr fun other hother => by simp [hquiet other hother]
  omega

/-- One slot, a lease that holds it, and two calls that wait. -/
def oneSlot : ChatAdmissionOptions := { maxQueuedBytes := 100, positive := Nat.one_pos }

def twoWaiting : List Event :=
  [.tryAcquireHeavy, .acquireHeavyWithin 1000 (some 1) 40 (js "a") 0 0,
    .acquireHeavyWithin 1000 (some 2) 40 (js "b") 0 0]

/-- The wake-up reaches the first of the two, and the slot is taken again. -/
def handedOn : List Event := twoWaiting ++ [.release 0, .wake 1, .resume 1 5]

theorem heavy_admission_handedOn :
    ((run oneSlot handedOn).inUse = 1 ∧ (run oneSlot handedOn).queuedBytes = 40) ∧
      (run oneSlot handedOn).Quiescent ∧
      ((run oneSlot handedOn).inUse < oneSlot.maxHeavyInFlight →
        ∀ call ∈ (run oneSlot handedOn).suspended, ¬ call.Parked) :=
  ⟨by decide, by decide, (heavy_admission oneSlot handedOn).2 (by decide) (by decide)⟩

theorem wakeUp_lost : ¬ ∀ events : List Event, (run oneSlot events).Quiescent →
    (run oneSlot events).inUse < oneSlot.maxHeavyInFlight →
    ∀ call ∈ (run oneSlot events).suspended, ¬ call.Parked := by
  intro h
  have hrun := h (twoWaiting ++ [.release 0, .abort 1, .resume 1 5])
  revert hrun
  decide

end ChatAdmissionController

end RedRouter.Middleware
