import RedRouter.Lib.Runs
import RedRouter.Middleware.AdmissionGate

/-!
# The accounts of the gate

What every event keeps (`Lawful`): the room in use is the sum of the leases that
were not released, the queued bytes are those of the calls that wait, both stay
within their limits, and the lanes hold the calls that were not woken.
-/

namespace RedRouter.Middleware.Gate

open List

structure Lawful (options : GateOptions) (g : Gate) : Prop where
  lanes : g.lanes.Lawful
  queued_iff : ∀ w, g.lanes.Queued w ↔ ∃ call ∈ g.suspended, call.waiter = w ∧ call.woken = false
  ids_nodup : (g.suspended.map fun call => call.waiter.id).Nodup
  ids_lt : ∀ call ∈ g.suspended, call.waiter.id < g.nextId
  inUse_eq : g.inUse = (g.leases.map AdmissionLease.charge).sum
  inUse_le : g.inUse ≤ options.limit
  queuedBytes_eq : g.queuedBytes = (g.suspended.map fun call => call.request.queuedBytes).sum
  queuedBytes_le : g.queuedBytes ≤ options.maxQueuedBytes

variable {options : GateOptions} {g : Gate}

theorem lawful_empty (options : GateOptions) : Lawful options {} where
  lanes := FairLanes.lawful_empty
  queued_iff w := iff_of_false FairLanes.not_queued_empty (by simp)
  ids_nodup := nodup_nil
  ids_lt := by simp
  inUse_eq := rfl
  inUse_le := Nat.zero_le _
  queuedBytes_eq := rfl
  queuedBytes_le := Nat.zero_le _

section

variable (h : Lawful options g)
include h

theorem Lawful.eq_of_id {call call' : SuspendedCall}
    (hcall : call ∈ g.suspended) (hcall' : call' ∈ g.suspended)
    (hid : call.waiter.id = call'.waiter.id) : call = call' :=
  inj_on_of_nodup_map h.ids_nodup hcall hcall' hid

theorem Lawful.nodup : g.suspended.Nodup := h.ids_nodup.of_map

theorem Lawful.recordShed (reason : ShedReason) (lane : JsString) :
    Lawful options (g.recordShed reason lane) :=
  { h with }

/-- Changes of the calls that keep who they are and what they were called with. -/
theorem Lawful.mapSuspended {lanes : FairLanes} (hlanes : lanes.Lawful)
    {f : SuspendedCall → SuspendedCall} (hwaiter : ∀ call, (f call).waiter = call.waiter)
    (hrequest : ∀ call, (f call).request = call.request)
    (hqueued : ∀ w, lanes.Queued w ↔
      ∃ call ∈ g.suspended, call.waiter = w ∧ (f call).woken = false) :
    Lawful options { g with lanes := lanes, suspended := g.suspended.map f } :=
  { h with
    lanes := hlanes
    queued_iff := by simpa [hwaiter] using hqueued
    ids_nodup := by simpa [Function.comp_def, hwaiter] using h.ids_nodup
    ids_lt := by simpa [hwaiter] using h.ids_lt
    queuedBytes_eq := by simpa [Function.comp_def, hrequest] using h.queuedBytes_eq }

end

/-! ## Leases -/

section

variable (h : Lawful options g)
include h

theorem Lawful.tryAcquire (charge : Nat) :
    Lawful options (g.tryAcquire options.limit charge).2 := by
  unfold Gate.tryAcquire
  split
  · exact h
  · rename_i hroom
    exact { h with
      ids_lt := fun call hcall => Nat.lt_succ_of_lt (h.ids_lt call hcall)
      inUse_eq := by simp [h.inUse_eq, Nat.add_comm]
      inUse_le := Nat.not_lt.mp hroom }

/-- Whom a dispatch wakes: a call that was not woken, whenever there is one. -/
theorem Lawful.dispatchFair_cases : (g.dispatchFair = g ∧ ∀ call ∈ g.suspended, call.woken = true) ∨
    ∃ call ∈ g.suspended, call.woken = false ∧ ∃ lanes : FairLanes, lanes.Lawful ∧
      (∀ w, lanes.Queued w ↔ g.lanes.Queued w ∧ w ≠ call.waiter) ∧
      g.dispatchFair = { g with lanes := lanes }.resolve call.waiter := by
  by_cases hsome : ∃ w, g.lanes.Queued w
  · obtain ⟨woken, lanes, hdispatch, hwoken, hlawful, hqueued⟩ :=
      FairLanes.dispatchFair_some h.lanes hsome
    obtain ⟨call, hcall, rfl, hnot⟩ := (h.queued_iff woken).mp hwoken
    refine .inr ⟨call, hcall, hnot, lanes, hlawful, hqueued, ?_⟩
    rw [Gate.dispatchFair, hdispatch]
  · have hnone : ∀ w, ¬ g.lanes.Queued w := fun w hw => hsome ⟨w, hw⟩
    refine .inl ⟨?_, fun call hcall => ?_⟩
    · rw [Gate.dispatchFair, FairLanes.dispatchFair_none h.lanes hnone]
    · by_contra hnot
      exact hnone call.waiter ((h.queued_iff _).mpr ⟨call, hcall, rfl, Bool.eq_false_iff.mpr hnot⟩)

theorem Lawful.resolve_perm {call : SuspendedCall} (hcall : call ∈ g.suspended) :
    (g.resolve call.waiter).suspended.Perm
      ({ call with woken := true } :: g.suspended.erase call) := by
  have hothers : (g.suspended.erase call).map
      (fun c => if c.waiter = call.waiter then { c with woken := true } else c) =
        g.suspended.erase call := by
    refine (map_congr_left fun other hother => ?_).trans (map_id _)
    obtain ⟨hne, hmem⟩ := (h.nodup.mem_erase_iff).mp hother
    exact if_neg fun hwaiter => hne (h.eq_of_id hmem hcall (congrArg AdmissionWaiter.id hwaiter))
  have hperm := (perm_cons_erase hcall).map
    fun c => if c.waiter = call.waiter then { c with woken := true } else c
  rw [map_cons, if_pos rfl, hothers] at hperm
  exact hperm

theorem Lawful.dispatchFair : Lawful options g.dispatchFair := by
  rcases h.dispatchFair_cases with ⟨heq, -⟩ | ⟨call, hcall, hnot, lanes, hlanes, hqueued, heq⟩
  · rw [heq]
    exact h
  · rw [heq]
    refine h.mapSuspended hlanes (fun c => ?_) (fun c => ?_) fun w => ?_
    · split <;> rfl
    · split <;> rfl
    · rw [hqueued, h.queued_iff]
      constructor
      · rintro ⟨⟨other, hother, rfl, hwoken⟩, hne⟩
        exact ⟨other, hother, rfl, by rwa [if_neg hne]⟩
      · rintro ⟨other, hother, rfl, hwoken⟩
        split at hwoken
        · cases hwoken
        · rename_i hne
          exact ⟨⟨other, hother, rfl, hwoken⟩, hne⟩

theorem Lawful.release (token : Nat) : Lawful options (g.release token) := by
  unfold Gate.release
  split
  · exact h
  · rename_i lease hfind
    have hmem := mem_of_find?_eq_some hfind
    have hsum := ((perm_cons_erase hmem).map AdmissionLease.charge).sum_eq
    rw [map_cons, sum_cons, ← h.inUse_eq] at hsum
    have hle := h.inUse_le
    exact Lawful.dispatchFair { h with
      inUse_eq := by simp only; omega
      inUse_le := by simp only; omega }

end

/-! ## Waiting -/

section

variable (h : Lawful options g)
include h

theorem Lawful.park {request : WaitRequest}
    (hroom : ¬ (0 < request.queuedBytes ∧
      options.maxQueuedBytes < g.queuedBytes + request.queuedBytes)) :
    Lawful options (g.park request).2 := by
  have hfresh : ∀ call ∈ g.suspended,
      call.waiter ≠ { key := request.sessionKey, id := g.nextId } := by
    intro call hcall heq
    have hlt := h.ids_lt call hcall
    rw [heq] at hlt
    exact Nat.lt_irrefl _ hlt
  have hnew : ¬ g.lanes.Queued { key := request.sessionKey, id := g.nextId } := by
    rw [h.queued_iff]
    rintro ⟨call, hcall, heq, -⟩
    exact hfresh call hcall heq
  refine { h with
    lanes := h.lanes.push hnew
    queued_iff := fun w => ?_
    ids_nodup := ?_
    ids_lt := ?_
    queuedBytes_eq := ?_
    queuedBytes_le := ?_ }
  · show (g.lanes.push _).Queued w ↔ _
    rw [FairLanes.queued_push, h.queued_iff]
    simp only [Gate.park, mem_append, mem_singleton]
    constructor
    · rintro (⟨call, hcall, hw⟩ | rfl)
      · exact ⟨call, .inl hcall, hw⟩
      · exact ⟨_, .inr rfl, rfl, rfl⟩
    · rintro ⟨call, hcall | rfl, hw, hwoken⟩
      · exact .inl ⟨call, hcall, hw, hwoken⟩
      · exact .inr hw.symm
  · simp only [Gate.park, map_append, map_cons, map_nil]
    rw [nodup_append]
    refine ⟨h.ids_nodup, nodup_singleton _, ?_⟩
    rintro id hid _ hother rfl
    obtain ⟨call, hcall, rfl⟩ := mem_map.mp hid
    rw [mem_singleton] at hother
    exact Nat.lt_irrefl _ (hother ▸ h.ids_lt call hcall)
  · intro call hcall
    rcases mem_append.mp hcall with hold | hlast
    · exact Nat.lt_succ_of_lt (h.ids_lt call hold)
    · rw [mem_singleton.mp hlast]
      exact Nat.lt_succ_self _
  · simp [Gate.park, h.queuedBytes_eq]
  · have hle := h.queuedBytes_le
    simp only [Gate.park]
    omega

theorem Lawful.enter (request : WaitRequest) (now : Int) :
    Lawful options (g.enter options request now).2 := by
  have hacquire := h.tryAcquire request.charge
  unfold Gate.enter
  split
  · exact h
  · split
    · rename_i lease g' htry
      rw [htry] at hacquire
      exact hacquire
    · rename_i g' htry
      rw [htry] at hacquire
      split
      · exact hacquire.recordShed _ _
      · split
        · exact hacquire.recordShed _ _
        · rename_i hroom
          exact hacquire.park hroom

theorem Lawful.leave {call : SuspendedCall} (hcall : call ∈ g.suspended) :
    Lawful options (g.leave call) := by
  have hsum := ((perm_cons_erase hcall).map fun call => call.request.queuedBytes).sum_eq
  rw [map_cons, sum_cons, ← h.queuedBytes_eq] at hsum
  have hle := h.queuedBytes_le
  refine { h with
    lanes := h.lanes.removeWaiter call.waiter
    queued_iff := fun w => ?_
    ids_nodup := h.ids_nodup.sublist (erase_sublist.map _)
    ids_lt := fun other hother => h.ids_lt other (mem_of_mem_erase hother)
    queuedBytes_eq := by simp only [Gate.leave]; omega
    queuedBytes_le := by simp only [Gate.leave]; omega }
  show (g.lanes.removeWaiter call.waiter).Queued w ↔ _
  rw [FairLanes.queued_removeWaiter h.lanes, h.queued_iff]
  simp only [Gate.leave, h.nodup.mem_erase_iff]
  constructor
  · rintro ⟨⟨other, hother, rfl, hwoken⟩, hne⟩
    refine ⟨other, ⟨?_, hother⟩, rfl, hwoken⟩
    rintro rfl
    exact hne rfl
  · rintro ⟨other, ⟨hne, hother⟩, rfl, hwoken⟩
    refine ⟨⟨other, hother, rfl, hwoken⟩, fun heq => hne ?_⟩
    exact h.eq_of_id hother hcall (congrArg AdmissionWaiter.id heq)

theorem Lawful.resume (id : Nat) (now : Int) : Lawful options (g.resume options id now).2 := by
  unfold Gate.resume
  split
  · exact h
  · rename_i call hfind
    have hleft := h.leave (mem_of_find?_eq_some hfind)
    simp only
    split
    · split
      · exact hleft
      · exact hleft.recordShed _ _
    · exact hleft.enter _ _

theorem Lawful.settle (timedOut : Bool) (which : SuspendedCall → Bool) :
    Lawful options (g.settle timedOut which) := by
  refine h.mapSuspended h.lanes (fun call => ?_) (fun call => ?_) fun w => ?_
  · split <;> rfl
  · split <;> rfl
  · rw [h.queued_iff]
    refine exists_congr fun call => and_congr_right fun _ => and_congr_right fun _ => ?_
    split <;> exact Iff.rfl

theorem Lawful.abort (signal : Nat) : Lawful options (g.abort signal) :=
  Lawful.settle (g := { g with abortedSignals := signal :: g.abortedSignals }) { h with } _ _

theorem Lawful.step (event : Event) : Lawful options (g.step options event) := by
  cases event with
  | acquireWithin charge queuedBytes timeoutMs signal sessionKey start now => exact h.enter _ _
  | tryAcquire charge => exact h.tryAcquire charge
  | release token => exact h.release token
  | abort signal => exact h.abort signal
  | timeout id => exact h.settle _ _
  | wake id => exact h.settle _ _
  | resume id now => exact h.resume id now
  | recordShed reason lane => exact h.recordShed reason lane

end

/-- In every run the rotation names each session key that has a call in a lane,
once, and no other. -/
theorem fairKeys_run (options : GateOptions) (events : List Event) :
    (run options events).lanes.fairKeys.Nodup ∧
      ∀ key, key ∈ (run options events).lanes.fairKeys ↔
        ∃ call ∈ (run options events).suspended, call.waiter.key = key ∧ call.woken = false := by
  have h : Lawful options (run options events) :=
    Runs.foldl_invariant _ (fun _ event h => h.step event) (lawful_empty options) events
  refine ⟨h.lanes.nodup_fairKeys, fun key => ?_⟩
  rw [h.lanes.mem_fairKeys, Option.isSome_iff_exists]
  constructor
  · rintro ⟨queue, hget⟩
    obtain ⟨waiter, hmem⟩ := exists_mem_of_ne_nil _ (h.lanes.queue_ne_nil key queue hget)
    obtain rfl := h.lanes.queue_key key queue hget waiter hmem
    obtain ⟨call, hcall, rfl, hwoken⟩ := (h.queued_iff waiter).mp ⟨queue, hget, hmem⟩
    exact ⟨call, hcall, rfl, hwoken⟩
  · rintro ⟨call, hcall, rfl, hwoken⟩
    obtain ⟨queue, hget, -⟩ := (h.queued_iff call.waiter).mpr ⟨call, hcall, rfl, hwoken⟩
    exact ⟨queue, hget⟩

end RedRouter.Middleware.Gate
