import RedRouter.Admission.Controller
import RedRouter.Admission.QueueInvariant

/-!
# Exactly-once settlement

Every `acquire` call that did not throw is in exactly one place: its promise
is settled, or its entry waits in the shared queue or in a lane.  `Account`
is that invariant.  It carries a list of calls that are in the hands of the
running operation: an operation takes entries out of a queue, and settles or
stores them again before it ends.
-/

namespace RedRouter.Admission.Controller

open List

/-! ## The invariant -/

def queueCalls (q : FairCostQueue QueuedPayload) : List Nat :=
  q.entries.map (fun entry => entry.payload.call)

def laneCalls (lanes : JsMap JsString Lane) : List Nat :=
  lanes.flatMap (fun lane => queueCalls lane.2.queue)

def settledCalls (s : Controller) : List Nat := s.settled.map Prod.fst

/-- Where the first `n` calls are.  The pending ones are in the hands of the
operation that runs. -/
structure Account (n : Nat) (pending : List Nat) (s : Controller) : Prop where
  calls : s.calls = n
  queue_wf : s.queue.Wf
  lanes_wf : ∀ lane ∈ s.virtualLanes, lane.2.queue.Wf
  lanes_nodup : (JsMap.keys s.virtualLanes).Nodup
  counts : s.admittedCount + s.rejectedCount = s.settled.length
  perm : (pending ++ (settledCalls s ++ (queueCalls s.queue ++ laneCalls s.virtualLanes))).Perm
    (List.range n)

/-- The part of the state that the account is about. -/
structure AccountView where
  queue : FairCostQueue QueuedPayload
  virtualLanes : JsMap JsString Lane
  counts : Nat × Nat
  settled : List (Nat × Outcome)
  calls : Nat

def accountView (s : Controller) : AccountView where
  queue := s.queue
  virtualLanes := s.virtualLanes
  counts := (s.admittedCount, s.rejectedCount)
  settled := s.settled
  calls := s.calls

variable {n : Nat}

variable {pending : List Nat} {s s' : Controller}

theorem Account.of_view (h : Account n pending s) (hview : accountView s' = accountView s) :
    Account n pending s' := by
  have hqueue : s'.queue = s.queue := congrArg AccountView.queue hview
  have hlanes : s'.virtualLanes = s.virtualLanes := congrArg AccountView.virtualLanes hview
  have hcounts : (s'.admittedCount, s'.rejectedCount) = (s.admittedCount, s.rejectedCount) :=
    congrArg AccountView.counts hview
  obtain ⟨hadmitted, hrejected⟩ := Prod.mk.inj hcounts
  have hsettled : s'.settled = s.settled := congrArg AccountView.settled hview
  have hcalls : s'.calls = s.calls := congrArg AccountView.calls hview
  refine ⟨?_, ?_, ?_, ?_, ?_, ?_⟩
  · rw [hcalls]
    exact h.calls
  · rw [hqueue]
    exact h.queue_wf
  · rw [hlanes]
    exact h.lanes_wf
  · rw [hlanes]
    exact h.lanes_nodup
  · rw [hadmitted, hrejected, hsettled]
    exact h.counts
  · rw [settledCalls, hsettled, hqueue, hlanes]
    exact h.perm

variable (env : Env)

theorem accountView_sampleIntegral (s : Controller) :
    accountView (s.sampleIntegral env) = accountView s := by
  unfold sampleIntegral
  dsimp only
  split <;> rfl

theorem accountView_notePressure (pressure : Option Pressure) (s : Controller) :
    accountView (s.notePressure pressure) = accountView s := by
  unfold notePressure
  split <;> rfl

/-! ## Settling one call -/

theorem Account.settle {call : Nat} (h : Account n (call :: pending) s) (outcome : Outcome)
    (hqueue : s'.queue = s.queue) (hlanes : s'.virtualLanes = s.virtualLanes)
    (hcalls : s'.calls = s.calls) (hsettled : s'.settled = s.settled ++ [(call, outcome)])
    (hcounts : s'.admittedCount + s'.rejectedCount = s.admittedCount + s.rejectedCount + 1) :
    Account n pending s' := by
  refine ⟨hcalls.trans h.calls, hqueue ▸ h.queue_wf, hlanes ▸ h.lanes_wf, hlanes ▸ h.lanes_nodup, ?_, ?_⟩
  · rw [hcounts, h.counts, hsettled, length_append, length_singleton]
  · rw [settledCalls, hsettled, hqueue, hlanes, map_append, append_assoc]
    refine List.Perm.trans ?_ h.perm
    refine List.Perm.trans ?_ perm_middle
    exact List.Perm.append_left pending perm_middle

theorem account_reject {call : Nat} (h : Account n (call :: pending) s) (code : RejectCode)
    (message : String) : Account n pending (s.reject call code message) :=
  h.settle (.rejected code message) rfl rfl rfl rfl (Nat.add_assoc ..).symm

theorem account_detachAbort (h : Account n pending s) (entryId : Nat) :
    Account n pending (s.detachAbort entryId) :=
  h.of_view rfl

theorem account_readClock (h : Account n pending s) : Account n pending s.readClock :=
  h.of_view rfl

variable {entry : QueueEntry QueuedPayload}

theorem account_failQueued (h : Account n (entry.payload.call :: pending) s) (code : RejectCode)
    (message : String) : Account n pending (s.failQueued entry code message) :=
  account_reject (account_detachAbort h entry.id) code message

theorem account_admitLease {env : Env} {call : Nat} {pending : List Nat} {s : Controller}
    (h : Account n (call :: pending) s) (cost : Nat) (disposition : VirtualDisposition) :
    Account n pending (s.admitLease env call cost disposition) := by
  have hsample := h.of_view (accountView_sampleIntegral env s)
  unfold admitLease
  generalize s.sampleIntegral env = t at hsample
  refine hsample.settle (.admitted (t.leaseSeq + 1)) rfl rfl rfl rfl ?_
  exact Nat.add_right_comm ..

theorem account_settleDequeued {env : Env} {entry : QueueEntry QueuedPayload}
    {pending : List Nat} {s : Controller} (h : Account n (entry.payload.call :: pending) s) :
    Account n pending (settleDequeued env entry s).1 := by
  have hdetached := account_detachAbort h entry.id
  unfold settleDequeued
  dsimp only
  split
  · exact account_reject hdetached _ _
  · split
    · exact account_reject (account_readClock hdetached) _ _
    · exact account_admitLease (account_readClock hdetached) _ _

theorem account_foldl_failQueued {entries : List (QueueEntry QueuedPayload)} (code : RejectCode)
    (message : String) (h : Account n (entries.map (fun entry => entry.payload.call) ++ pending) s) :
    Account n pending (entries.foldl (fun s entry => s.failQueued entry code message) s) := by
  induction entries generalizing s with
  | nil => exact h
  | cons entry entries ih => exact ih (account_failQueued h code message)

/-! ## Taking entries out and putting them in -/

variable {q : FairCostQueue QueuedPayload}

theorem queueCalls_perm {q' : FairCostQueue QueuedPayload}
    (h : q.entries.Perm (entry :: q'.entries)) :
    (queueCalls q).Perm (entry.payload.call :: queueCalls q') := by
  exact h.map _

variable {key : JsString} {lane : Lane} {lanes : JsMap JsString Lane}

theorem laneCalls_of_get (h : (JsMap.keys lanes).Nodup) (hget : lanes.get key = some lane) :
    (laneCalls lanes).Perm (queueCalls lane.queue ++ laneCalls (lanes.delete key)) :=
  (JsMap.perm_of_get h hget).flatMap_right _

theorem laneCalls_set (h : (JsMap.keys lanes).Nodup) (key : JsString) (lane : Lane) :
    (laneCalls (lanes.set key lane)).Perm (queueCalls lane.queue ++ laneCalls (lanes.delete key)) :=
  (JsMap.set_perm key lane h).flatMap_right _

theorem Account.setQueue {pending' : List Nat} (h : Account n pending s) (hwf : q.Wf)
    (hperm : (pending' ++ queueCalls q).Perm (pending ++ queueCalls s.queue)) :
    Account n pending' { s with queue := q } := by
  refine ⟨h.calls, hwf, h.lanes_wf, h.lanes_nodup, h.counts, ?_⟩
  show (pending' ++ (settledCalls s ++ (queueCalls q ++ laneCalls s.virtualLanes))).Perm
    (List.range n)
  rw [perm_iff_count]
  intro call
  have hold := h.perm.count_eq call
  have hnew := hperm.count_eq call
  simp only [count_append] at hold hnew ⊢
  omega

theorem Account.setLane {pending' : List Nat} (h : Account n pending s) {lane' : Lane}
    (hget : s.virtualLanes.get key = some lane) (hwf : lane'.queue.Wf)
    (hperm : (pending' ++ queueCalls lane'.queue).Perm (pending ++ queueCalls lane.queue)) :
    Account n pending' (s.setLane key lane') := by
  refine ⟨h.calls, h.queue_wf, ?_, JsMap.nodup_keys_set h.lanes_nodup, h.counts, ?_⟩
  · intro l hl
    rcases mem_cons.mp ((JsMap.set_perm key lane' h.lanes_nodup).subset hl) with rfl | hl
    · exact hwf
    · exact h.lanes_wf l ((JsMap.delete_sublist key s.virtualLanes).subset hl)
  · show (pending' ++ (settledCalls s ++ (queueCalls s.queue ++
      laneCalls (s.virtualLanes.set key lane')))).Perm (List.range n)
    rw [perm_iff_count]
    intro call
    have hold := h.perm.count_eq call
    have hnew := hperm.count_eq call
    have hget' := (laneCalls_of_get h.lanes_nodup hget).count_eq call
    have hset := (laneCalls_set h.lanes_nodup key lane').count_eq call
    simp only [count_append] at hold hnew hget' hset ⊢
    omega

theorem Account.deleteLane (h : Account n pending s) (hget : s.virtualLanes.get key = some lane) :
    Account n (queueCalls lane.queue ++ pending)
      { s with virtualLanes := s.virtualLanes.delete key } := by
  refine ⟨h.calls, h.queue_wf, ?_, ?_, h.counts, ?_⟩
  · exact fun l hl => h.lanes_wf l ((JsMap.delete_sublist key s.virtualLanes).subset hl)
  · exact JsMap.nodup_keys_delete h.lanes_nodup
  · show ((queueCalls lane.queue ++ pending) ++ (settledCalls s ++ (queueCalls s.queue ++
      laneCalls (s.virtualLanes.delete key)))).Perm (List.range n)
    rw [perm_iff_count]
    intro call
    have hold := h.perm.count_eq call
    have hget' := (laneCalls_of_get h.lanes_nodup hget).count_eq call
    simp only [count_append] at hold hget' ⊢
    omega

theorem Account.takeQueue (h : Account n pending s) (hwf : q.Wf)
    (hperm : s.queue.entries.Perm (entry :: q.entries)) :
    Account n (entry.payload.call :: pending) { s with queue := q } := by
  refine h.setQueue hwf ?_
  exact perm_middle.symm.trans ((queueCalls_perm hperm).symm.append_left pending)

theorem Account.takeLane (h : Account n pending s) (hget : s.virtualLanes.get key = some lane)
    (hwf : q.Wf) (hperm : lane.queue.entries.Perm (entry :: q.entries)) :
    Account n (entry.payload.call :: pending) (s.setLane key { lane with queue := q }) := by
  refine h.setLane hget hwf ?_
  exact perm_middle.symm.trans ((queueCalls_perm hperm).symm.append_left pending)

theorem Account.touchLane {pending : List Nat} {s : Controller} (h : Account n pending s)
    {key : JsString} {lane lane' : Lane} (hget : s.virtualLanes.get key = some lane)
    (hqueue : lane'.queue = lane.queue) : Account n pending (s.setLane key lane') := by
  refine h.setLane hget ?_ ?_
  · rw [hqueue]
    exact h.lanes_wf _ (JsMap.mem_of_get hget)
  · rw [hqueue]

theorem account_removeEmptyLane (h : Account n pending s) (key : JsString) :
    Account n pending (s.removeEmptyLane key) := by
  unfold removeEmptyLane
  cases hget : s.virtualLanes.get key with
  | none => exact h
  | some lane =>
    dsimp only
    split
    · rename_i hsize
      have hwf := h.lanes_wf _ (JsMap.mem_of_get hget)
      rw [FairCostQueue.size_eq hwf] at hsize
      have hnil : queueCalls lane.queue = [] := by
        rw [queueCalls, length_eq_zero_iff.mp (Int.ofNat_eq_zero.mp hsize), map_nil]
      have hdel := h.deleteLane hget
      rwa [hnil, nil_append] at hdel
    · exact h

/-! ## The loops -/

theorem account_dispatchShared (fuel : Nat) (h : Account n pending s) :
    Account n pending (dispatchShared env fuel s).1 := by
  induction fuel generalizing s with
  | zero => exact h
  | succ fuel ih =>
    rw [dispatchShared]
    split
    · split
      · exact h
      · rcases FairCostQueue.dequeue_cases h.queue_wf s.available.toNat with
          hnone | ⟨entry, q, hdeq, hwf, hperm, -⟩
        · rw [hnone]
          exact h.of_view rfl
        · rw [hdeq]
          exact ih (account_settleDequeued (h.takeQueue hwf hperm))
    · exact h

theorem account_dispatchLane (key : JsString) (fuel : Nat) (h : Account n pending s) :
    Account n pending (dispatchLane env key fuel s).1 := by
  induction fuel generalizing s with
  | zero => exact h
  | succ fuel ih =>
    rw [dispatchLane]
    cases hget : s.virtualLanes.get key with
    | none => exact h
    | some lane =>
      dsimp only
      split
      · split
        · exact h
        · have hlane := h.lanes_wf _ (JsMap.mem_of_get hget)
          rcases FairCostQueue.dequeue_cases hlane s.available.toNat with
            hnone | ⟨entry, q, hdeq, hwf, hperm, -⟩
          · rw [hnone]
            exact h.touchLane hget rfl
          · rw [hdeq]
            have hsettled := @account_settleDequeued n env _ _ _ (h.takeLane hget hwf hperm)
            dsimp only
            split
            · exact hsettled
            · exact ih hsettled
      · exact h

theorem account_dispatchKeys (keys : List JsString) (h : Account n pending s) :
    Account n pending (dispatchKeys env keys s) := by
  induction keys generalizing s with
  | nil => exact h
  | cons key keys ih =>
    rw [dispatchKeys]
    cases hget : s.virtualLanes.get key with
    | none => exact ih h
    | some lane =>
      dsimp only
      have hlane := account_dispatchLane env key lane.queue.entries.length h
      split
      · rename_i heq
        rw [heq] at hlane
        exact hlane
      · rename_i heq
        rw [heq] at hlane
        exact ih (account_removeEmptyLane hlane key)

theorem account_dispatch (h : Account n pending s) : Account n pending (s.dispatch env) := by
  unfold dispatch
  split
  · have hshared := account_dispatchShared env s.queue.entries.length h
    split
    · rename_i heq
      rw [heq] at hshared
      exact hshared
    · rename_i heq
      rw [heq] at hshared
      unfold dispatchLanes
      split
      · exact account_dispatchKeys env _ hshared
      · exact hshared
  · exact h

/-! ## The lanes -/

theorem foldl_failQueued_stores (entries : List (QueueEntry QueuedPayload)) (code : RejectCode)
    (message : String) (q : FairCostQueue QueuedPayload) (lanes : JsMap JsString Lane)
    (s : Controller) :
    entries.foldl (fun s entry => s.failQueued entry code message)
        { s with queue := q, virtualLanes := lanes } =
      { entries.foldl (fun s entry => s.failQueued entry code message) s with
        queue := q, virtualLanes := lanes } := by
  induction entries generalizing s with
  | nil => rfl
  | cons entry entries ih =>
    rw [foldl_cons, foldl_cons, ← ih]
    rfl

theorem foldl_failQueued_eq (entries : List (QueueEntry QueuedPayload)) (code : RejectCode)
    (message : String) (s : Controller) :
    (entries.foldl (fun s entry => s.failQueued entry code message) s).queue = s.queue ∧
      (entries.foldl (fun s entry => s.failQueued entry code message) s).virtualLanes =
        s.virtualLanes := by
  induction entries generalizing s with
  | nil => exact ⟨rfl, rfl⟩
  | cons entry entries ih => exact ih (s.failQueued entry code message)

theorem account_deleteLane (h : Account n pending s) (key : JsString) :
    Account n pending (s.deleteLane key) := by
  unfold deleteLane
  cases hget : s.virtualLanes.get key with
  | none => exact h
  | some lane =>
    dsimp only
    have hwf := h.lanes_wf _ (JsMap.mem_of_get hget)
    obtain ⟨hqueue, hlanes⟩ := foldl_failQueued_eq lane.queue.drain.1 .laneEvicted
      "connection lane evicted" s
    have hcommute := foldl_failQueued_stores lane.queue.drain.1 .laneEvicted
      "connection lane evicted" s.queue (s.virtualLanes.delete key) s
    have hdrained : (lane.queue.drain.1.map (fun entry => entry.payload.call)).Perm
        (queueCalls lane.queue) :=
      ((FairCostQueue.drain_spec hwf).1.map _).symm
    have hdel := h.deleteLane hget
    have hpending : Account n (lane.queue.drain.1.map (fun entry => entry.payload.call) ++ pending)
        { s with virtualLanes := s.virtualLanes.delete key } :=
      { hdel with perm := ((hdrained.append_right pending).append_right _).trans hdel.perm }
    have hfold := account_foldl_failQueued .laneEvicted "connection lane evicted" hpending
    refine hfold.of_view ?_
    rw [show ({ s with virtualLanes := s.virtualLanes.delete key } : Controller) =
      { s with queue := s.queue, virtualLanes := s.virtualLanes.delete key } from rfl, hcommute]
    rw [accountView, accountView, hqueue, hlanes]

theorem account_foldl_deleteLane (keys : List JsString) (h : Account n pending s) :
    Account n pending (keys.foldl (fun s key => s.deleteLane key) s) := by
  induction keys generalizing s with
  | nil => exact h
  | cons key keys ih => exact ih (account_deleteLane h key)

theorem account_evictIdleLanes (h : Account n pending s) :
    Account n pending (s.evictIdleLanes env) :=
  account_foldl_deleteLane _ (account_readClock h)

theorem account_evictOldestLane (h : Account n pending s) :
    Account n pending s.evictOldestLane := by
  unfold evictOldestLane
  split
  · split
    · exact h
    · exact h
    · exact account_deleteLane h _
  · exact h

theorem Account.newLane (h : Account n pending s) (hget : s.virtualLanes.get key = none)
    (hwf : lane.queue.Wf) (hempty : lane.queue.entries = []) :
    Account n pending (s.setLane key lane) := by
  have hfresh : key ∉ JsMap.keys s.virtualLanes := JsMap.get_eq_none_iff.mp hget
  refine ⟨h.calls, h.queue_wf, ?_, JsMap.nodup_keys_set h.lanes_nodup, h.counts, ?_⟩
  · intro l hl
    rcases mem_cons.mp ((JsMap.set_perm key lane h.lanes_nodup).subset hl) with rfl | hl
    · exact hwf
    · exact h.lanes_wf l ((JsMap.delete_sublist key s.virtualLanes).subset hl)
  · have hset := laneCalls_set h.lanes_nodup key lane
    rw [queueCalls, hempty, map_nil, nil_append, JsMap.delete_of_not_mem hfresh] at hset
    exact (((hset.append_left _).append_left _).append_left _).trans h.perm

theorem get_delete_of_none {key' : JsString} (h : lanes.get key = none) :
    (lanes.delete key').get key = none := by
  rw [JsMap.get_delete]
  split
  · rfl
  · exact h

theorem evictOldestLane_get (h : s.virtualLanes.get key = none) :
    s.evictOldestLane.virtualLanes.get key = none := by
  unfold evictOldestLane
  split
  · split
    · exact h
    · exact h
    · rename_i oldest _ _
      unfold deleteLane
      cases hget : s.virtualLanes.get oldest with
      | none => exact h
      | some lane =>
        dsimp only
        rw [(foldl_failQueued_eq _ _ _ s).2]
        exact get_delete_of_none h
  · exact h

variable (cfg : ValidatedConfig)

theorem emptyQueue_wf {T : Type} : (emptyQueue cfg : FairCostQueue T).Wf :=
  FairCostQueue.wf_empty _ _

theorem account_getOrCreateLane (key : JsString) (h : Account n pending s) :
    Account n pending (s.getOrCreateLane env key).2 ∧
      (s.getOrCreateLane env key).2.virtualLanes.get key = some (s.getOrCreateLane env key).1 := by
  unfold getOrCreateLane
  cases hget : s.virtualLanes.get key with
  | some lane =>
    refine ⟨Account.touchLane (account_readClock h) hget rfl, ?_⟩
    exact (JsMap.get_set key key _ _).trans (if_pos rfl)
  | none =>
    refine ⟨?_, (JsMap.get_set key key _ _).trans (if_pos rfl)⟩
    have hevict := account_readClock (account_readClock (account_evictOldestLane h))
    exact hevict.newLane (evictOldestLane_get hget) (emptyQueue_wf _) rfl

/-! ## The shadow accounting -/

theorem accountView_setDisposition (id : Nat) (disposition : VirtualDisposition)
    (s : Controller) : accountView (s.setDisposition id disposition) = accountView s := by
  unfold setDisposition
  split <;> rfl

theorem accountView_dispatchVirtualLoop (fuel : Nat) (s : Controller) :
    accountView (dispatchVirtualLoop fuel s) = accountView s := by
  induction fuel generalizing s with
  | zero => rfl
  | succ fuel ih =>
    rw [dispatchVirtualLoop]
    split
    · dsimp only
      split
      · rfl
      · split
        · rfl
        · split
          · rw [ih]
            rfl
          · split
            · rw [ih]
              rfl
            · rw [ih]
              exact accountView_setDisposition _ _ _
    · rfl

theorem accountView_dispatchVirtual (s : Controller) :
    accountView s.dispatchVirtual = accountView s :=
  accountView_dispatchVirtualLoop _ s

variable (record : ActiveLeaseRecord)

theorem accountView_releaseVirtual (s : Controller) :
    accountView (s.releaseVirtual record) = accountView s := by
  unfold releaseVirtual
  rw [accountView_dispatchVirtual, accountView_setDisposition]
  split <;> rfl

theorem accountView_rebuildRecord (s : Controller) (id : Nat) :
    accountView (s.rebuildRecord id) = accountView s := by
  unfold rebuildRecord
  split
  · rfl
  · split
    · exact accountView_setDisposition _ _ _
    · split
      · exact accountView_setDisposition _ _ _
      · split <;> exact accountView_setDisposition _ _ _

theorem accountView_foldl {α : Type} {f : Controller → α → Controller}
    (hf : ∀ s a, accountView (f s a) = accountView s) (l : List α) (s : Controller) :
    accountView (l.foldl f s) = accountView s := by
  induction l generalizing s with
  | nil => rfl
  | cons a l ih => rw [foldl_cons, ih, hf]

theorem accountView_rebuildVirtualState (enable : Bool) (s : Controller) :
    accountView (s.rebuildVirtualState enable) = accountView s := by
  unfold rebuildVirtualState
  have hreset : ∀ (ids : List Nat) (s : Controller),
      accountView (ids.foldl (fun s id => s.setDisposition id .none) s) = accountView s :=
    accountView_foldl (fun s id => accountView_setDisposition id .none s)
  split
  · rw [accountView_foldl accountView_rebuildRecord, hreset]
    rfl
  · rw [hreset]
    rfl

theorem accountView_shadowDecision (cost : Nat) (s : Controller) :
    accountView (s.shadowDecision cost).2 = accountView s := by
  unfold shadowDecision
  split
  · rfl
  · split
    · rfl
    · split <;> rfl

theorem account_acquireShadow {call : Nat} (request : Request) (cost : Nat)
    (h : Account n (call :: pending) s) :
    Account n pending (s.acquireShadow env call request cost) := by
  have hdecision := h.of_view (accountView_shadowDecision cost s)
  have hadmit := @account_admitLease n env _ _ _ hdecision cost (s.shadowDecision cost).1
  unfold acquireShadow
  dsimp only
  split
  · exact hadmit.of_view rfl
  · exact hadmit

/-! ## The operations -/

theorem account_removeFromLanes (id : Nat) (keys : List JsString)
    {found : Option (QueueEntry QueuedPayload)} (h : Account n pending s)
    (heq : removeFromLanes id keys s = (found, s')) :
    Account n (found.toList.map (fun entry => entry.payload.call) ++ pending) s' := by
  induction keys generalizing s with
  | nil =>
    obtain ⟨rfl, rfl⟩ := Prod.mk.inj heq
    exact h
  | cons key keys ih =>
    rw [removeFromLanes] at heq
    cases hget : s.virtualLanes.get key with
    | none =>
      rw [hget] at heq
      exact ih h heq
    | some lane =>
      rw [hget] at heq
      dsimp only at heq
      rcases FairCostQueue.removeById_cases (h.lanes_wf _ (JsMap.mem_of_get hget)) id with
        hnone | ⟨entry, q, hrem, hwf, hperm, -⟩
      · rw [hnone] at heq
        exact ih (h.touchLane hget rfl) heq
      · rw [hrem] at heq
        obtain ⟨rfl, rfl⟩ := Prod.mk.inj heq
        exact account_removeEmptyLane (h.takeLane hget hwf hperm) _

theorem account_expireEntry (id : Nat) (code : RejectCode) (message : String)
    (h : Account n pending s) : Account n pending (s.expireEntry env id code message) := by
  unfold expireEntry
  rcases FairCostQueue.removeById_cases h.queue_wf id with
    hnone | ⟨entry, q, hrem, hwf, hperm, -⟩
  · rw [hnone]
    dsimp only
    split
    · rename_i heq
      have hfound := account_removeFromLanes id _ h heq
      exact account_dispatch env (account_failQueued hfound code message)
    · rename_i heq
      exact account_removeFromLanes id _ h heq
  · rw [hrem]
    exact account_dispatch env (account_failQueued (h.takeQueue hwf hperm) code message)

theorem account_runListener (h : Account n pending s) (listener : Nat × Nat) :
    Account n pending (runListener env s listener) := by
  unfold runListener
  split
  · exact account_expireEntry env _ _ _ (h.of_view rfl)
  · exact h

theorem account_abort (signal : Nat) (h : Account n pending s) :
    Account n pending (s.abort env signal) := by
  unfold abort
  split
  · exact h
  · refine List.foldlRecOn _ (runListener env) (h.of_view rfl) ?_
    exact fun s' h' listener _ => account_runListener env h' listener

theorem Account.storeQueue (h : Account n (entry.payload.call :: pending) s)
    (hq : s.queue.enqueue entry = some q) : Account n pending { s with queue := q } := by
  unfold FairCostQueue.enqueue at hq
  split at hq
  · rename_i haccept
    obtain rfl := Option.some.inj hq
    refine h.setQueue (FairCostQueue.wf_push h.queue_wf haccept) ?_
    have hperm := queueCalls_perm (FairCostQueue.entries_push h.queue_wf entry)
    exact (hperm.append_left pending).trans perm_middle
  · exact absurd hq.symm (Option.some_ne_none _)

theorem Account.storeLane (h : Account n (entry.payload.call :: pending) s)
    (hget : s.virtualLanes.get key = some lane) (hq : lane.queue.enqueue entry = some q) :
    Account n pending (s.setLane key { lane with queue := q }) := by
  have hlane := h.lanes_wf _ (JsMap.mem_of_get hget)
  unfold FairCostQueue.enqueue at hq
  split at hq
  · rename_i haccept
    obtain rfl := Option.some.inj hq
    refine h.setLane hget (FairCostQueue.wf_push hlane haccept) ?_
    have hperm := queueCalls_perm (FairCostQueue.entries_push hlane entry)
    exact (hperm.append_left pending).trans perm_middle
  · exact absurd hq.symm (Option.some_ne_none _)

theorem account_requeue (h : Account n (entry.payload.call :: pending) s) :
    Account n pending (s.requeue env entry) := by
  unfold requeue
  split
  · exact account_admitLease (account_detachAbort h entry.id) _ _
  · split
    · exact account_failQueued h _ _
    · split
      · rename_i q hq
        exact h.storeQueue hq
      · exact account_failQueued h _ _

theorem account_foldl_requeue {entries : List (QueueEntry QueuedPayload)}
    (h : Account n (entries.map (fun entry => entry.payload.call) ++ pending) s) :
    Account n pending (entries.foldl (requeue env) s) := by
  induction entries generalizing s with
  | nil => exact h
  | cons entry entries ih => exact ih (account_requeue env h)

theorem drained_perm (h : Account n pending s) :
    (s.drained.map (fun entry => entry.payload.call)).Perm
      (queueCalls s.queue ++ laneCalls s.virtualLanes) := by
  unfold drained
  rw [map_append, map_flatMap]
  refine List.Perm.append ((FairCostQueue.drain_spec h.queue_wf).1.map _).symm ?_
  refine List.Perm.flatMap_left _ ?_
  intro lane hlane
  exact ((FairCostQueue.drain_spec (h.lanes_wf lane hlane)).1.map _).symm

theorem Account.drainAll (h : Account n pending s) (hwf : q.Wf) (hempty : q.entries = []) :
    Account n (s.drained.map (fun entry => entry.payload.call) ++ pending)
      { s with queue := q, virtualLanes := [] } := by
  refine ⟨h.calls, hwf, fun _ hl => absurd hl not_mem_nil, nodup_nil, h.counts, ?_⟩
  show ((_ ++ pending) ++ (settledCalls s ++ (queueCalls q ++ laneCalls []))).Perm (List.range n)
  rw [perm_iff_count]
  intro call
  have hold := h.perm.count_eq call
  have hdrained := (drained_perm h).count_eq call
  have hq : queueCalls q = [] := by rw [queueCalls, hempty, map_nil]
  have hl : laneCalls [] = [] := rfl
  rw [hq, hl]
  simp only [count_append, count_nil] at hold hdrained ⊢
  omega

theorem accountView_adoptConfig (s : Controller) :
    accountView (s.adoptConfig env cfg) = accountView s :=
  accountView_sampleIntegral env s

theorem account_applyConfig (h : Account n pending s) :
    Account n pending (s.applyConfig env cfg) := by
  have hadopt := h.of_view (accountView_adoptConfig env cfg s)
  have hdrained := hadopt.drainAll (emptyQueue_wf cfg) rfl
  have hrequeued := account_foldl_requeue env hdrained
  have hrebuilt := hrequeued.of_view (accountView_rebuildVirtualState (cfg.mode = .shadow) _)
  unfold applyConfig
  split
  · exact account_dispatch env hrebuilt
  · exact hrebuilt

theorem account_shutdown (h : Account n pending s) : Account n pending s.shutdown := by
  unfold shutdown
  split
  · exact h
  · obtain ⟨-, hwf, hempty⟩ := FairCostQueue.drain_spec h.queue_wf
    have hdown : Account n pending { s with shutDown := true } := h.of_view rfl
    have hdrained := hdown.drainAll hwf hempty
    have hfold := account_foldl_failQueued .shutdown "admission controller shut down" hdrained
    rw [foldl_failQueued_stores] at hfold
    exact hfold

theorem accountView_dropLease (s : Controller) :
    accountView (s.dropLease record) = accountView s := by
  unfold dropLease
  split <;> rfl

theorem accountView_finishRelease (outcome : ReleaseOutcome) (info : ReleaseMeta) (s : Controller) :
    accountView (s.finishRelease env record outcome info) = accountView s := by
  unfold finishRelease
  rw [accountView_releaseVirtual, accountView_notePressure]
  show accountView (s.leaseLatency env info record).2 = accountView s
  unfold leaseLatency
  split <;> rfl

theorem account_released (record : ActiveLeaseRecord) (outcome : ReleaseOutcome)
    (info : ReleaseMeta) (h : Account n pending s) (records : JsMap Nat ActiveLeaseRecord) :
    Account n pending (((sampleIntegral env { s with records := records }).dropLease
      record).finishRelease env record outcome info) := by
  refine h.of_view ?_
  rw [accountView_finishRelease, accountView_dropLease, accountView_sampleIntegral]
  rfl

theorem account_release (lease : Nat) (outcome : ReleaseOutcome) (info : ReleaseMeta)
    (h : Account n pending s) : Account n pending (s.release env lease outcome info) := by
  unfold release
  split
  · exact h
  · split
    · exact h
    · exact account_dispatch env (account_released env _ outcome info h _)

theorem account_observePressure (pressure : Pressure) (h : Account n pending s) :
    Account n pending (s.observePressure env pressure) := by
  unfold observePressure
  dsimp only
  split
  · refine Account.of_view ?_ (accountView_dispatchVirtual _)
    exact account_dispatch env (h.of_view rfl)
  · exact h.of_view rfl

theorem account_tick (h : Account n pending s) : Account n pending (s.tick env) := by
  have hevict := account_evictIdleLanes env (h.of_view (accountView_sampleIntegral env s))
  unfold tick
  refine Account.of_view ?_ (accountView_dispatchVirtual _)
  exact account_dispatch env (hevict.of_view rfl)

/-! ## Acquire -/

theorem account_beginCall (h : Account n [] s) : Account (n + 1) [s.calls] s.beginCall := by
  refine { h with calls := congrArg (· + 1) h.calls, perm := ?_ }
  rw [h.calls, range_succ]
  exact perm_append_comm.trans (h.perm.append_right _)

theorem account_rejectAcquire (h : Account n [] s) (code : RejectCode) (message : String) :
    Account (n + 1) [] (s.rejectAcquire code message).2 :=
  account_reject (account_beginCall h) code message

/-- The number of calls that an `acquire` adds. -/
def AcquireResult.calls : AcquireResult → Nat
  | .threw _ => 0
  | _ => 1

theorem account_storeEntry_ok (h : Account n [entry.payload.call] s)
    (hstore : s.storeEntry env entry = (.ok (), s')) : Account n [] s' := by
  unfold storeEntry at hstore
  split at hstore
  · obtain ⟨hlane, hget⟩ := account_getOrCreateLane env entry.tenantKey h
    dsimp only at hstore
    split at hstore
    · rename_i q hq
      obtain ⟨-, rfl⟩ := Prod.mk.inj hstore
      exact hlane.storeLane hget hq
    · exact absurd (Prod.mk.inj hstore).1 (by simp)
  · split at hstore
    · rename_i q hq
      obtain ⟨-, rfl⟩ := Prod.mk.inj hstore
      exact h.storeQueue hq
    · exact absurd (Prod.mk.inj hstore).1 (by simp)

theorem account_storeEntry_error {message : String} (h : Account n [entry.payload.call] s)
    (hstore : s.storeEntry env entry = (.error message, s')) :
    Account n [entry.payload.call] s' := by
  unfold storeEntry at hstore
  split at hstore
  · obtain ⟨hlane, -⟩ := account_getOrCreateLane env entry.tenantKey h
    dsimp only at hstore
    split at hstore
    · exact absurd (Prod.mk.inj hstore).1 (by simp)
    · obtain ⟨-, rfl⟩ := Prod.mk.inj hstore
      exact account_removeEmptyLane hlane _
  · split at hstore
    · exact absurd (Prod.mk.inj hstore).1 (by simp)
    · obtain ⟨-, rfl⟩ := Prod.mk.inj hstore
      exact h

theorem account_attachAbort (h : Account n pending s) (signal : Option Nat) (entryId : Nat) :
    Account n pending (s.attachAbort signal entryId) := by
  refine h.of_view ?_
  unfold attachAbort
  split <;> rfl

theorem account_enqueueEntry (h : Account n [entry.payload.call] s) :
    Account n [] (s.enqueueEntry env entry).2 ∧
      AcquireResult.calls (s.enqueueEntry env entry).1 = 1 := by
  unfold enqueueEntry
  split
  · rename_i heq
    exact ⟨account_reject (account_storeEntry_error env h heq) _ _, rfl⟩
  · rename_i heq
    have hstored := account_dispatch env (account_storeEntry_ok env h heq)
    exact ⟨account_dispatch env (account_attachAbort hstored _ _), rfl⟩

theorem account_enqueue (request : Request) (cost : Nat) (h : Account n [] s) :
    Account (n + AcquireResult.calls (s.enqueue env request cost).1) []
      (s.enqueue env request cost).2 := by
  have htake : Account n [] s.takeId := h.of_view rfl
  unfold enqueue
  dsimp only
  split
  · exact htake
  · rename_i maxWait _
    have hpending : Account (n + 1)
        [(queueEntry request s.takeId.leaseSeq cost s.takeId.calls maxWait
          (s.takeId.now env)).payload.call] s.takeId.readClock.beginCall :=
      account_beginCall (account_readClock htake)
    obtain ⟨hentry, hcalls⟩ := account_enqueueEntry env hpending
    rw [hcalls]
    exact hentry

theorem account_acquireEnforce (request : Request) (cost : Nat) (h : Account n [] s) :
    Account (n + AcquireResult.calls (s.acquireEnforce env request cost).1) []
      (s.acquireEnforce env request cost).2 := by
  unfold acquireEnforce
  split
  · split
    · exact account_admitLease (account_beginCall h) _ _
    · exact account_rejectAcquire h _ _
  · split
    · exact account_admitLease (account_beginCall h) _ _
    · split
      · exact account_enqueue env request cost h
      · exact account_rejectAcquire h _ _

theorem account_acquire (request : Request) (h : Account n [] s) :
    Account (n + AcquireResult.calls (s.acquire env request).1) [] (s.acquire env request).2 := by
  unfold acquire
  split
  · exact account_rejectAcquire h _ _
  · split
    · exact account_rejectAcquire h _ _
    · have hnoted := h.of_view (accountView_notePressure request.pressure s)
      dsimp only
      split
      · exact hnoted
      · rename_i cost _
        split
        · exact (account_beginCall hnoted).settle (.admitted _) rfl rfl rfl rfl
            (Nat.add_right_comm ..)
        · exact account_acquireShadow env request cost (account_beginCall hnoted)
        · exact account_acquireEnforce env request cost hnoted

/-! ## Runs -/

/-- The number of calls that an event adds: one for an `acquire` that does not
throw. -/
def answered (env : Env) (s : Controller) : Event → Nat
  | .acquire request => AcquireResult.calls (s.acquire env request).1
  | _ => 0

/-- The number of `acquire` calls of a run that did not throw. -/
def answeredCalls (env : Env) : Controller → List Event → Nat
  | _, [] => 0
  | s, event :: events => answered env s event + answeredCalls env (step env s event) events

theorem account_create : Account 0 [] (create env cfg) :=
  ⟨rfl, emptyQueue_wf cfg, fun _ hl => absurd hl not_mem_nil, nodup_nil, rfl, List.Perm.refl _⟩

theorem account_step (h : Account n [] s) (event : Event) :
    Account (n + answered env s event) [] (step env s event) := by
  cases event with
  | acquire request => exact account_acquire env request h
  | release lease outcome info => exact account_release env lease outcome info h
  | tick => exact account_tick env h
  | observePressure pressure => exact account_observePressure env pressure h
  | updateConfig config =>
    show Account n [] (s.updateConfig env config)
    unfold updateConfig
    split
    · exact h
    · exact account_applyConfig env _ h
  | expire id => exact account_expireEntry env id _ _ h
  | abort signal => exact account_abort env signal h
  | evictIdleLanes => exact account_evictIdleLanes env h
  | shutdown => exact account_shutdown h
  | idTaken => exact h.of_view rfl

theorem account_foldl_step (h : Account n [] s) (events : List Event) :
    Account (n + answeredCalls env s events) [] (events.foldl (step env) s) := by
  induction events generalizing n s with
  | nil => exact h
  | cons event events ih =>
    rw [answeredCalls, ← Nat.add_assoc]
    exact ih (account_step env h event)

theorem length_queueCalls (h : q.Wf) : ((queueCalls q).length : Int) = q.size := by
  rw [FairCostQueue.size_eq h, queueCalls, length_map]

theorem length_laneCalls (h : ∀ lane ∈ lanes, lane.2.queue.Wf) :
    ((laneCalls lanes).length : Int) = (lanes.map (fun lane => lane.2.queue.size)).sum := by
  induction lanes with
  | nil => rfl
  | cons lane lanes ih =>
    have htail := ih (fun l hl => h l (mem_cons_of_mem _ hl))
    have hhead := length_queueCalls (h lane mem_cons_self)
    have hcons : laneCalls (lane :: lanes) = queueCalls lane.2.queue ++ laneCalls lanes := rfl
    rw [hcons, length_append, map_cons, sum_cons, ← htail, ← hhead]
    exact Int.natCast_add ..

/-- In every run, from a controller of any mode, no promise is settled twice,
and every `acquire` call that did not throw is admitted, rejected or waiting
in exactly one queue. -/
theorem settledOnce (env : Env) (cfg : ValidatedConfig) (events : List Event) :
    (settledCalls (run env cfg events)).Nodup ∧
      ((run env cfg events).admittedCount : Int) + (run env cfg events).rejectedCount +
          (run env cfg events).queue.size +
          ((run env cfg events).virtualLanes.map (fun lane => lane.2.queue.size)).sum =
        answeredCalls env (create env cfg) events ∧
      (settledCalls (run env cfg events) ++ (queueCalls (run env cfg events).queue ++
          laneCalls (run env cfg events).virtualLanes)).Perm
        (List.range (answeredCalls env (create env cfg) events)) := by
  have h : Account (answeredCalls env (create env cfg) events) [] (run env cfg events) := by
    have hrun := account_foldl_step env (account_create env cfg) events
    rwa [Nat.zero_add] at hrun
  have hperm := h.perm
  rw [nil_append] at hperm
  refine ⟨?_, ?_, hperm⟩
  · have hnodup := hperm.nodup_iff.mpr nodup_range
    exact (nodup_append.mp hnodup).1
  · have hlen := hperm.length_eq
    have hsettled : (settledCalls (run env cfg events)).length =
        (run env cfg events).settled.length := length_map ..
    have hqueue := length_queueCalls h.queue_wf
    have hlanes := length_laneCalls h.lanes_wf
    have hcounts := h.counts
    rw [length_append, length_append, length_range] at hlen
    omega

end RedRouter.Admission.Controller
