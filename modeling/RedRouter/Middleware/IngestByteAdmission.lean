import RedRouter.Middleware.GateWakeUps

/-!
# Ingest byte admission

The model of `IngestByteAdmissionController` in `ingestByteAdmission.ts`.  A
lease charges its bytes, and the bytes in flight stay within the budget.

A release wakes one call, as where a lease is one slot, though it may make
room for several calls, or for another one than the one it wakes.
-/

namespace RedRouter.Middleware.IngestByteAdmissionController

def normalizeCharge (bytes : ℚ) : Nat := (max 0 ⌊bytes⌋).toNat

variable (maxInflightBytes : Nat)

def gateOptions : GateOptions where
  limit := maxInflightBytes
  maxQueuedBytes := 0
  timeoutReason := .inflightBytesBudget

def canFit (bytes : ℚ) : Bool := normalizeCharge bytes ≤ maxInflightBytes

def tryAcquire (maxInflightBytes : Nat) (bytes : ℚ) (g : Gate) : Option AdmissionLease × Gate :=
  g.tryAcquire maxInflightBytes (normalizeCharge bytes)

/-- What `acquireWithin` has come to. -/
inductive AcquireResult where
  | bodyExceedsBudget
  | entered (outcome : Outcome)

def acquireWithin (maxInflightBytes : Nat) (bytes timeoutMs : ℚ) (signal : Option Nat)
    (sessionKey : JsString) (start now : Int) (g : Gate) : AcquireResult × Gate :=
  if !canFit maxInflightBytes bytes then
    (.bodyExceedsBudget, g.recordShed .bodyExceedsBudget sessionKey)
  else
    let (outcome, g) := g.acquireWithin (gateOptions maxInflightBytes) (normalizeCharge bytes) 0
      timeoutMs signal sessionKey start now
    (.entered outcome, g)

inductive Event where
  | acquireWithin (bytes timeoutMs : ℚ) (signal : Option Nat) (sessionKey : JsString)
      (start now : Int)
  | tryAcquire (bytes : ℚ)
  | release (token : Nat)
  | abort (signal : Nat)
  | timeout (id : Nat)
  | wake (id : Nat)
  | resume (id : Nat) (now : Int)

def Event.toGate : Event → Gate.Event
  | .acquireWithin bytes timeoutMs signal sessionKey start now =>
      if !canFit maxInflightBytes bytes then .recordShed .bodyExceedsBudget sessionKey
      else .acquireWithin (normalizeCharge bytes) 0 timeoutMs signal sessionKey start now
  | .tryAcquire bytes => .tryAcquire (normalizeCharge bytes)
  | .release token => .release token
  | .abort signal => .abort signal
  | .timeout id => .timeout id
  | .wake id => .wake id
  | .resume id now => .resume id now

def step (g : Gate) : Event → Gate
  | .acquireWithin bytes timeoutMs signal sessionKey start now =>
      (acquireWithin maxInflightBytes bytes timeoutMs signal sessionKey start now g).2
  | .tryAcquire bytes => (tryAcquire maxInflightBytes bytes g).2
  | .release token => g.release token
  | .abort signal => g.abort signal
  | .timeout id => g.timeout id
  | .wake id => g.wake id
  | .resume id now => (g.resume (gateOptions maxInflightBytes) id now).2

def run (events : List Event) : Gate :=
  events.foldl (step maxInflightBytes) {}

theorem step_eq (g : Gate) (event : Event) : step maxInflightBytes g event =
      g.step (gateOptions maxInflightBytes) (event.toGate maxInflightBytes) := by
  cases event with
  | acquireWithin bytes timeoutMs signal sessionKey start now =>
    simp only [step, acquireWithin, Event.toGate]
    split <;> rfl
  | _ => rfl

theorem lawful_step {maxInflightBytes : Nat} {g : Gate} (h : g.Lawful (gateOptions maxInflightBytes))
    (event : Event) : (step maxInflightBytes g event).Lawful (gateOptions maxInflightBytes) := by
  rw [step_eq]
  exact h.step _

/-- The last woken call that goes on leaves no room for a parked one. -/
def LeavesNoRoom (maxInflightBytes : Nat) (g : Gate) (event : Event) : Prop :=
  g.LeavesNoRoom maxInflightBytes (event.toGate maxInflightBytes)

/-- In every run the bytes in flight are the charges of the leases that were not
released, within the budget.  At every point of a run at which no wake-up is
pending no parked call fits into what the budget has left, exactly when the
last woken call that goes on never leaves room for a parked one. -/
theorem workConserving_iff (maxInflightBytes : Nat) (events : List Event) :
    (∀ before, before <+: events → (run maxInflightBytes before).inUse =
          ((run maxInflightBytes before).leases.map AdmissionLease.charge).sum ∧
        (run maxInflightBytes before).inUse ≤ maxInflightBytes) ∧
    ((∀ before, before <+: events → (run maxInflightBytes before).WorkConserving maxInflightBytes) ↔
      ∀ before event, before ++ [event] <+: events →
        LeavesNoRoom maxInflightBytes (run maxInflightBytes before) event) := by
  have hlawful : ∀ s event, s.Lawful (gateOptions maxInflightBytes) → True →
      (step maxInflightBytes s event).Lawful (gateOptions maxInflightBytes) :=
    fun _ event h _ => lawful_step h event
  constructor
  · intro before _
    have h : (run maxInflightBytes before).Lawful (gateOptions maxInflightBytes) :=
      Runs.foldl_invariant (Gate.Lawful (gateOptions maxInflightBytes))
        (fun _ event h => lawful_step h event) (Gate.lawful_empty _) before
    exact ⟨h.inUse_eq, h.inUse_le⟩
  · refine Runs.along_prefixes_iff (Gate.WorkConserving maxInflightBytes)
      (Gate.Lawful (gateOptions maxInflightBytes)) hlawful (fun g event h _ hw => ?_)
      (Gate.lawful_empty _) ?_ (Runs.along_trivial _ _ _)
    · rw [step_eq]
      exact Gate.workConserving_step_iff h hw _
    · intro _ call hcall
      cases hcall

/-- One release of ten bytes, for which two calls of three bytes each wait. -/
def twoFit : List Event :=
  [.tryAcquire 10, .acquireWithin 3 1000 none (js "a") 0 0, .acquireWithin 3 1000 none (js "a") 0 0,
    .release 0, .wake 1, .resume 1 5]

theorem room_left : ¬ ∀ events : List Event, (run 10 events).WorkConserving 10 := by
  intro h
  have hroom := h twoFit
  revert hroom
  unfold Gate.WorkConserving
  decide

end RedRouter.Middleware.IngestByteAdmissionController
