import RedRouter.Middleware.GateAccounting

/-!
# Wake-ups of the gate

What each event does to the room in use and to the calls that wait, and from it
when free room reaches the calls that wait for it.

A release wakes one call.  Where a lease is one slot, that is enough as long as
the woken call is not given up: the slots that are free are at most as many as
the calls that were woken for them (`Covered`).  Where the charges differ, it is
not: what the last woken call leaves may be room for a call that nobody wakes
(`workConserving_step_iff`).
-/

namespace RedRouter.Middleware

open List

/-- The call stands in its queue, and nothing has ended its wait. -/
def SuspendedCall.Parked (call : SuspendedCall) : Prop := call.woken = false ∧ call.settled = none

instance (call : SuspendedCall) : Decidable call.Parked := inferInstanceAs (Decidable (_ ∧ _))

variable (limit : Nat)

namespace Gate

/-- No wake-up is pending. -/
def Quiescent (g : Gate) : Prop := ∀ call ∈ g.suspended, call.woken = false

instance (g : Gate) : Decidable g.Quiescent := List.decidableBAll _ _

/-- At a quiescent point no parked call has room. -/
def WorkConserving (g : Gate) : Prop :=
  g.Quiescent → ∀ call ∈ g.suspended, call.Parked → limit < g.inUse + call.request.charge

/-- What a call takes that stands at the top of its loop: nothing, when it was
aborted or has no room. -/
def takesAtEntry (g : Gate) (request : WaitRequest) : Nat :=
  if g.aborted request.signal = true ∨ limit < g.inUse + request.charge then 0
  else request.charge

/-- What a call takes when it goes on: nothing, when it was timed out. -/
def takes (g : Gate) (call : SuspendedCall) : Nat :=
  if call.settled = some true then 0 else g.takesAtEntry limit call.request

variable {options : GateOptions} {g : Gate}

/-! ## What the events do -/

theorem enter_spec (options : GateOptions) (g : Gate) (request : WaitRequest) (now : Int) :
    ∃ added, (g.enter options request now).2.suspended = g.suspended ++ added ∧
      (g.enter options request now).2.inUse = g.inUse + g.takesAtEntry options.limit request ∧
      ∀ new ∈ added, new.woken = false ∧ new.request = request ∧
        options.limit < (g.enter options request now).2.inUse + new.request.charge := by
  unfold enter takesAtEntry
  by_cases haborted : g.aborted request.signal = true
  · exact ⟨[], by simp [haborted]⟩
  · by_cases hroom : options.limit < g.inUse + request.charge
    · by_cases hlate : request.deadline - now ≤ 0
      · exact ⟨[], by simp [haborted, hroom, tryAcquire, hlate, recordShed]⟩
      · by_cases hvalve : 0 < request.queuedBytes ∧
            options.maxQueuedBytes < g.queuedBytes + request.queuedBytes
        · exact ⟨[], by simp [haborted, hroom, tryAcquire, hlate, hvalve, recordShed]⟩
        · simp only [haborted, hroom, tryAcquire, hlate, hvalve, if_true]
          exact ⟨[{ waiter := _, request := request }], rfl, rfl, by simpa [park] using hroom⟩
    · exact ⟨[], by simp [haborted, hroom, tryAcquire]⟩

theorem resume_cases (options : GateOptions) (g : Gate) (id : Nat) (now : Int) :
    (g.resume options id now).2 = g ∧
      (∀ call ∈ g.suspended, call.waiter.id = id → call.settled = none) ∨
    ∃ call ∈ g.suspended, call.waiter.id = id ∧ call.settled ≠ none ∧
      ∃ added, (g.resume options id now).2.suspended = g.suspended.erase call ++ added ∧
        (g.resume options id now).2.inUse = g.inUse + g.takes options.limit call ∧
        ∀ new ∈ added, new.woken = false ∧ new.request = call.request ∧
          options.limit < (g.resume options id now).2.inUse + new.request.charge := by
  unfold resume
  split
  · rename_i hfind
    refine .inl ⟨rfl, fun call hcall hid => ?_⟩
    have hnot := find?_eq_none.mp hfind call hcall
    simpa [hid] using hnot
  · rename_i call hfind
    have hfound := find?_some hfind
    simp only [Bool.and_eq_true, beq_iff_eq, Option.isSome_iff_ne_none] at hfound
    refine .inr ⟨call, mem_of_find?_eq_some hfind, hfound.1, hfound.2, ?_⟩
    by_cases hsettled : call.settled = some true
    · refine ⟨[], ?_⟩
      simp only [hsettled, if_true, takes]
      split <;> simp [leave, recordShed]
    · simp only [if_neg hsettled, takes]
      exact enter_spec options (g.leave call) call.request now

theorem release_cases (h : Lawful options g) (token : Nat) : g.release token = g ∨
    ∃ lease ∈ g.leases, (g.release token).inUse + lease.charge = g.inUse ∧
      (((g.release token).suspended = g.suspended ∧ ∀ call ∈ g.suspended, call.woken = true) ∨
        ∃ call ∈ g.suspended, call.woken = false ∧ (g.release token).suspended.Perm
            ({ call with woken := true } :: g.suspended.erase call)) := by
  unfold release
  split
  · exact .inl rfl
  · rename_i lease hfind
    have hmem := mem_of_find?_eq_some hfind
    have hsum := ((perm_cons_erase hmem).map AdmissionLease.charge).sum_eq
    rw [map_cons, sum_cons, ← h.inUse_eq] at hsum
    have hle := h.inUse_le
    have hgiven : Lawful options
        { g with inUse := g.inUse - lease.charge, leases := g.leases.erase lease } :=
      { h with inUse_eq := by simp only; omega, inUse_le := by simp only; omega }
    refine .inr ⟨lease, hmem, ?_⟩
    rcases hgiven.dispatchFair_cases with ⟨heq, hall⟩ | ⟨call, hcall, hnot, lanes, -, -, heq⟩
    · rw [heq]
      exact ⟨by simp only; omega, .inl ⟨rfl, hall⟩⟩
    · rw [heq]
      exact ⟨by simp only [resolve]; omega, .inr ⟨call, hcall, hnot, hgiven.resolve_perm hcall⟩⟩

theorem parked_of_settle {timedOut : Bool} {which : SuspendedCall → Bool} {call : SuspendedCall}
    (hcall : call ∈ (g.settle timedOut which).suspended) (hparked : call.Parked) :
    call ∈ g.suspended := by
  obtain ⟨before, hbefore, rfl⟩ := mem_map.mp hcall
  split
  · rename_i hwhich
    rw [if_pos hwhich] at hparked
    have hsettled := hparked.2
    simp at hsettled
  · exact hbefore

/-! ## Charges that differ -/

/-- The last woken call that goes on leaves no room for a parked one: neither
beside what it takes, nor when it takes nothing. -/
def LeavesNoRoom (g : Gate) : Event → Prop
  | .resume id _ =>
      ∀ call ∈ g.suspended, call.waiter.id = id → call.woken = true → call.settled ≠ none →
        (∀ other ∈ g.suspended, other.woken = true → other = call) →
        ∀ other ∈ g.suspended, other.Parked →
          limit < g.inUse + g.takes limit call + other.request.charge
  | _ => True

/-- A step that takes no room away and wakes no call, and of which each parked
call was parked before or has no room. -/
theorem WorkConserving.mono {limit : Nat} {g' : Gate} (h : WorkConserving limit g)
    (hquiet : g'.Quiescent → g.Quiescent) (hinUse : g.inUse ≤ g'.inUse)
    (hparked : ∀ call ∈ g'.suspended, call.Parked →
      call ∈ g.suspended ∨ limit < g'.inUse + call.request.charge) :
    WorkConserving limit g' := by
  intro hq call hcall hpark
  rcases hparked call hcall hpark with hold | hno
  · exact lt_of_lt_of_le (h (hquiet hq) call hold hpark) (Nat.add_le_add_right hinUse _)
  · exact hno

theorem WorkConserving.settle {limit : Nat} (h : WorkConserving limit g) (timedOut : Bool)
    (which : SuspendedCall → Bool) : WorkConserving limit (g.settle timedOut which) := by
  refine h.mono (fun hq call hcall => ?_) (Nat.le_refl _)
    fun call hcall hparked => .inl (parked_of_settle hcall hparked)
  have hquiet := hq _ (mem_map_of_mem hcall)
  split at hquiet <;> exact hquiet

theorem WorkConserving.acquireWithin (h : WorkConserving options.limit g) (request : WaitRequest)
    (now : Int) : WorkConserving options.limit (g.enter options request now).2 := by
  obtain ⟨added, hsuspended, hinUse, hadded⟩ :=
    enter_spec options g request now
  refine h.mono (fun hq call hcall => hq call ?_) (by rw [hinUse]; exact Nat.le_add_right _ _)
    fun call hcall _ => ?_
  · rw [hsuspended]
    exact mem_append_left _ hcall
  · rw [hsuspended] at hcall
    exact (mem_append.mp hcall).imp_right fun hnew => (hadded call hnew).2.2

theorem WorkConserving.tryAcquire {limit : Nat} (h : WorkConserving limit g) (charge : Nat) :
    WorkConserving limit (g.tryAcquire limit charge).2 := by
  unfold Gate.tryAcquire
  split
  · exact h
  · exact h.mono (fun hq => hq) (Nat.le_add_right _ _) fun call hcall _ => .inl hcall

theorem workConserving_release (h : Lawful options g) (hw : WorkConserving options.limit g)
    (token : Nat) : WorkConserving options.limit (g.release token) := by
  rcases release_cases h token with heq | ⟨lease, -, -, ⟨hsame, hall⟩ | ⟨call, -, -, hperm⟩⟩
  · rw [heq]
    exact hw
  · intro _ call hcall hparked
    rw [hsame] at hcall
    exact absurd (hall call hcall) (by simp [hparked.1])
  · intro hq
    have hwoken := hq _ (hperm.mem_iff.mpr mem_cons_self)
    cases hwoken

theorem workConserving_resume_iff (h : Lawful options g) (hw : WorkConserving options.limit g)
    (id : Nat) (now : Int) :
    WorkConserving options.limit (g.resume options id now).2 ↔
      LeavesNoRoom options.limit g (.resume id now) := by
  rcases resume_cases options g id now with
    ⟨heq, hnone⟩ | ⟨call, hcall, hid, hsettled, added, hsuspended, hinUse, hadded⟩
  · rw [heq]
    refine iff_of_true hw fun call hcall hid _ hsettled => ?_
    exact absurd (hnone call hcall hid) hsettled
  · have hothers : ∀ other, other ∈ g.suspended.erase call ↔ other ≠ call ∧ other ∈ g.suspended :=
      fun other => h.nodup.mem_erase_iff
    have hmem : ∀ other ∈ g.suspended, other ≠ call →
        other ∈ (g.resume options id now).2.suspended := by
      intro other hother hne
      rw [hsuspended]
      exact mem_append_left _ ((hothers other).mpr ⟨hne, hother⟩)
    constructor
    · intro hafter call' hcall' hid' hwoken' _ hlast other hother hparked
      obtain rfl := h.eq_of_id hcall' hcall (hid'.trans hid.symm)
      have hquiet : (g.resume options id now).2.Quiescent := by
        intro c hc
        rw [hsuspended] at hc
        rcases mem_append.mp hc with hold | hnew
        · obtain ⟨hne, hold⟩ := (hothers c).mp hold
          exact Bool.eq_false_iff.mpr fun hwoken => hne (hlast c hold hwoken)
        · exact (hadded c hnew).1
      have hne : other ≠ call' := by
        rintro rfl
        rw [hparked.1] at hwoken'
        cases hwoken'
      rw [← hinUse]
      exact hafter hquiet other (hmem other hother hne) hparked
    · intro hleaves hquiet other hother hparked
      rw [hsuspended] at hother
      rcases mem_append.mp hother with hold | hnew
      · obtain ⟨hne, hold⟩ := (hothers other).mp hold
        have hlast : ∀ c ∈ g.suspended, c.woken = true → c = call := by
          intro c hc hwoken
          by_contra hcne
          rw [hquiet c (hmem c hc hcne)] at hwoken
          cases hwoken
        rw [hinUse]
        by_cases hwoken : call.woken = true
        · exact hleaves call hcall hid hwoken hsettled hlast other hold hparked
        · have hbefore : g.Quiescent := fun c hc =>
            Bool.eq_false_iff.mpr fun hc' => hwoken (hlast c hc hc' ▸ hc')
          have hno := hw hbefore other hold hparked
          omega
      · exact (hadded other hnew).2.2

/-- Room reaches the parked calls at every quiescent point up to the first step
in which a woken call leaves some. -/
theorem workConserving_step_iff (h : Lawful options g) (hw : WorkConserving options.limit g)
    (event : Event) :
    WorkConserving options.limit (g.step options event) ↔ LeavesNoRoom options.limit g event := by
  cases event with
  | acquireWithin charge queuedBytes timeoutMs signal sessionKey start now =>
    exact iff_of_true (hw.acquireWithin _ _) trivial
  | tryAcquire charge => exact iff_of_true (hw.tryAcquire charge) trivial
  | release token => exact iff_of_true (workConserving_release h hw token) trivial
  | abort signal =>
    exact iff_of_true
      (WorkConserving.settle (g := { g with abortedSignals := signal :: g.abortedSignals }) hw _ _)
      trivial
  | timeout id => exact iff_of_true (hw.settle _ _) trivial
  | wake id => exact iff_of_true (hw.settle _ _) trivial
  | resume id now => exact workConserving_resume_iff h hw id now
  | recordShed reason lane => exact iff_of_true hw trivial

/-! ## One slot for each lease -/

/-- Every lease, also the one a call waits for, is one slot. -/
structure UnitCharges (g : Gate) : Prop where
  leases : ∀ lease ∈ g.leases, lease.charge = 1
  suspended : ∀ call ∈ g.suspended, call.request.charge = 1

def Event.UnitCharge : Event → Prop
  | .acquireWithin charge _ _ _ _ _ _ => charge = 1
  | .tryAcquire charge => charge = 1
  | _ => True

def wokenCount (g : Gate) : Nat := g.suspended.countP fun call => call.woken

/-- While a call is parked, each free slot has a call that was woken for it. -/
def Covered (g : Gate) : Prop :=
  (∃ call ∈ g.suspended, call.Parked) → limit ≤ g.inUse + g.wokenCount

/-- The call goes on only to return without a lease. -/
def givesUp (g : Gate) (call : SuspendedCall) : Prop :=
  call.settled = some true ∨ g.aborted call.request.signal = true

instance (g : Gate) (call : SuspendedCall) : Decidable (g.givesUp call) :=
  inferInstanceAs (Decidable (_ ∨ _))

/-- A woken call that gives up leaves no slot that a parked call waits for: no
call is parked, or each slot that is free has another call that was woken. -/
def HandsOn (g : Gate) : Event → Prop
  | .resume id _ =>
      ∀ call ∈ g.suspended, call.waiter.id = id → call.settled ≠ none → call.woken = true →
        g.givesUp call → (∃ other ∈ g.suspended, other.Parked) → limit < g.inUse + g.wokenCount
  | _ => True

instance (limit : Nat) (g : Gate) (event : Event) : Decidable (g.HandsOn limit event) := by
  cases event <;> unfold HandsOn <;> infer_instance

section

variable (h : UnitCharges g)
include h

theorem UnitCharges.enter {request : WaitRequest} (hrequest : request.charge = 1)
    (now : Int) : UnitCharges (g.enter options request now).2 := by
  unfold Gate.enter Gate.tryAcquire
  split
  · exact h
  · split
    · rename_i htry
      split at htry <;> cases htry
      exact ⟨by simpa [hrequest] using h.leases, h.suspended⟩
    · rename_i htry
      split at htry <;> cases htry
      split
      · exact ⟨h.leases, h.suspended⟩
      · split
        · exact ⟨h.leases, h.suspended⟩
        · refine ⟨h.leases, fun call hcall => ?_⟩
          rcases mem_append.mp hcall with hold | hnew
          · exact h.suspended call hold
          · rw [mem_singleton.mp hnew]
            exact hrequest

theorem UnitCharges.map {f : SuspendedCall → SuspendedCall}
    (hrequest : ∀ call, (f call).request = call.request) :
    UnitCharges { g with suspended := g.suspended.map f } := by
  refine ⟨h.leases, fun call hcall => ?_⟩
  obtain ⟨before, hbefore, rfl⟩ := mem_map.mp hcall
  rw [hrequest]
  exact h.suspended before hbefore

theorem UnitCharges.settle (timedOut : Bool) (which : SuspendedCall → Bool) :
    UnitCharges (g.settle timedOut which) :=
  h.map fun call => by split <;> rfl

theorem UnitCharges.dispatchFair : UnitCharges g.dispatchFair := by
  unfold Gate.dispatchFair
  split
  · rename_i waiter lanes _
    exact UnitCharges.map (g := { g with lanes := lanes }) ⟨h.leases, h.suspended⟩
      fun call => by split <;> rfl
  · exact ⟨h.leases, h.suspended⟩

theorem UnitCharges.step {event : Event} (hevent : event.UnitCharge) :
    UnitCharges (g.step options event) := by
  cases event with
  | acquireWithin charge queuedBytes timeoutMs signal sessionKey start now =>
    exact h.enter (show charge = 1 from hevent) _
  | tryAcquire charge =>
    simp only [Gate.step, Gate.tryAcquire]
    split
    · exact h
    · exact ⟨by simpa using ⟨hevent, h.leases⟩, h.suspended⟩
  | release token =>
    simp only [Gate.step, Gate.release]
    split
    · exact h
    · exact UnitCharges.dispatchFair
        ⟨fun lease hlease => h.leases lease (mem_of_mem_erase hlease), h.suspended⟩
  | abort signal =>
    exact UnitCharges.settle (g := { g with abortedSignals := signal :: g.abortedSignals })
      ⟨h.leases, h.suspended⟩ _ _
  | timeout id => exact h.settle _ _
  | wake id => exact h.settle _ _
  | resume id now =>
    simp only [Gate.step, Gate.resume]
    split
    · exact h
    · rename_i call hfind
      have hleft : UnitCharges (g.leave call) :=
        ⟨h.leases, fun other hother => h.suspended other (mem_of_mem_erase hother)⟩
      split
      · split
        · exact hleft
        · exact ⟨hleft.leases, hleft.suspended⟩
      · exact hleft.enter (h.suspended call (mem_of_find?_eq_some hfind)) _
  | recordShed reason lane => exact ⟨h.leases, h.suspended⟩

end

theorem wokenCount_eq (g : Gate) (call : SuspendedCall) (hcall : call ∈ g.suspended) :
    g.wokenCount =
      (g.suspended.erase call).countP (fun other => other.woken) + if call.woken then 1 else 0 := by
  rw [wokenCount, (perm_cons_erase hcall).countP_eq, countP_cons]

theorem Covered.settle {limit : Nat} (h : Covered limit g) (timedOut : Bool)
    (which : SuspendedCall → Bool) : Covered limit (g.settle timedOut which) := by
  rintro ⟨call, hcall, hparked⟩
  have hcount : (g.settle timedOut which).wokenCount = g.wokenCount := by
    rw [wokenCount, wokenCount, Gate.settle, countP_map]
    refine countP_congr fun other _ => ?_
    simp only [Function.comp_apply]
    split <;> exact Iff.rfl
  rw [hcount]
  exact h ⟨call, parked_of_settle hcall hparked, hparked⟩

theorem Covered.enter (h : Covered options.limit g) {request : WaitRequest}
    (hrequest : request.charge = 1) (now : Int) :
    Covered options.limit (g.enter options request now).2 := by
  obtain ⟨added, hsuspended, hinUse, hadded⟩ :=
    enter_spec options g request now
  rintro ⟨call, hcall, hparked⟩
  rw [hsuspended] at hcall
  rcases mem_append.mp hcall with hold | hnew
  · have hcount : g.wokenCount ≤ (g.enter options request now).2.wokenCount := by
      rw [wokenCount, wokenCount, hsuspended, countP_append]
      exact Nat.le_add_right _ _
    have hle := h ⟨call, hold, hparked⟩
    omega
  · obtain ⟨-, hsame, hno⟩ := hadded call hnew
    rw [hsame, hrequest] at hno
    omega

theorem covered_release (h : Lawful options g) (hunit : UnitCharges g)
    (hc : Covered options.limit g) (token : Nat) : Covered options.limit (g.release token) := by
  rcases release_cases h token with
    heq | ⟨lease, hlease, hinUse, ⟨hsame, hall⟩ | ⟨call, hcall, hnot, hperm⟩⟩
  · rw [heq]
    exact hc
  · rintro ⟨call, hcall, hparked⟩
    rw [hsame] at hcall
    exact absurd (hall call hcall) (by simp [hparked.1])
  · rintro ⟨parked, hmem, hparked⟩
    rw [hunit.leases lease hlease] at hinUse
    have hbefore : parked ∈ g.suspended := by
      rcases mem_cons.mp (hperm.mem_iff.mp hmem) with rfl | hother
      · cases hparked.1
      · exact mem_of_mem_erase hother
    have hle := hc ⟨parked, hbefore, hparked⟩
    rw [wokenCount_eq g call hcall, hnot] at hle
    rw [wokenCount, hperm.countP_eq, countP_cons_of_pos rfl]
    simp only [Bool.false_eq_true, if_false] at hle
    omega

theorem covered_resume (hunit : UnitCharges g) (hc : Covered options.limit g) {id : Nat}
    {now : Int} (hon : HandsOn options.limit g (.resume id now)) :
    Covered options.limit (g.resume options id now).2 := by
  rcases resume_cases options g id now with
    ⟨heq, -⟩ | ⟨call, hcall, hid, hsettled, added, hsuspended, hinUse, hadded⟩
  · rw [heq]
    exact hc
  · rintro ⟨parked, hmem, hparked⟩
    rw [hsuspended] at hmem
    rcases mem_append.mp hmem with hold | hnew
    · have hbefore : ∃ other ∈ g.suspended, other.Parked :=
        ⟨parked, mem_of_mem_erase hold, hparked⟩
      have hle := hc hbefore
      have hgiven := hon call hcall hid hsettled
      have hcount : (g.suspended.erase call).countP (fun other => other.woken) ≤
          (g.resume options id now).2.wokenCount := by
        rw [wokenCount, hsuspended, countP_append]
        exact Nat.le_add_right _ _
      rw [wokenCount_eq g call hcall] at hle hgiven
      by_cases hwoken : call.woken = true
      · by_cases hgives : g.givesUp call
        · have hlt := hgiven hwoken hgives hbefore
          simp only [hwoken, if_true] at hlt
          omega
        · -- a call that does not give up takes the slot, or there is none
          have htakes : options.limit ≤ g.inUse ∨ g.takes options.limit call = 1 := by
            rw [givesUp, not_or] at hgives
            rw [takes, if_neg hgives.1, takesAtEntry, hunit.suspended call hcall]
            by_cases hroom : options.limit < g.inUse + 1
            · exact .inl (Nat.le_of_lt_succ hroom)
            · exact .inr (by simp [hgives.2, hroom])
          simp only [hwoken, if_true] at hle
          rcases htakes with hfull | htakes <;> omega
      · rw [if_neg hwoken] at hle
        omega
    · obtain ⟨-, hsame, hno⟩ := hadded parked hnew
      rw [hsame, hunit.suspended call hcall] at hno
      omega

theorem covered_step (h : Lawful options g) (hunit : UnitCharges g) (hc : Covered options.limit g)
    {event : Event} (hevent : event.UnitCharge) (hon : HandsOn options.limit g event) :
    Covered options.limit (g.step options event) := by
  cases event with
  | acquireWithin charge queuedBytes timeoutMs signal sessionKey start now =>
    exact hc.enter (show charge = 1 from hevent) _
  | tryAcquire charge =>
    simp only [Gate.step, Gate.tryAcquire]
    split
    · exact hc
    · exact fun hparked => (hc hparked).trans (Nat.add_le_add_right (Nat.le_add_right _ _) _)
  | release token => exact covered_release h hunit hc token
  | abort signal =>
    exact Covered.settle (g := { g with abortedSignals := signal :: g.abortedSignals }) hc _ _
  | timeout id => exact hc.settle _ _
  | wake id => exact hc.settle _ _
  | resume id now => exact covered_resume hunit hc hon
  | recordShed reason lane => exact hc

end Gate

end RedRouter.Middleware
