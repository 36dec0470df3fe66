import RedRouter.Admission.Waiting

/-!
# Arrivals

A request that is neither admitted nor rejected right away joins the requests
that wait, in the shared queue or in the lane of its tenant, and the whole is
dispatched.
-/

namespace RedRouter.Admission.Controller

open List JsMap

theorem getOrCreateLane_load (env : Env) (tenantKey : JsString) (s : Controller) :
    (s.getOrCreateLane env tenantKey).2.queue = s.queue ∧
      (s.getOrCreateLane env tenantKey).2.virtualLanes.get tenantKey =
        some (s.getOrCreateLane env tenantKey).1 ∧
      (∀ key lane', key ≠ tenantKey →
        (s.getOrCreateLane env tenantKey).2.virtualLanes.get key = some lane' →
          ∃ lane, s.virtualLanes.get key = some lane ∧ lane'.queue = lane.queue) ∧
      ((∃ lane, s.virtualLanes.get tenantKey = some lane ∧
          (s.getOrCreateLane env tenantKey).1.queue = lane.queue) ∨
        s.virtualLanes.get tenantKey = none ∧
          (s.getOrCreateLane env tenantKey).1.queue.entries = []) := by
  unfold getOrCreateLane
  cases hget : s.virtualLanes.get tenantKey with
  | some lane =>
    refine ⟨rfl, ?_, ?_, Or.inl ⟨lane, rfl, rfl⟩⟩
    · exact setLane_get_self tenantKey _ _
    · intro key lane' hne hlane'
      rcases get_set_cases hlane' with ⟨rfl, -⟩ | hold
      · exact absurd rfl hne
      · exact ⟨lane', hold, rfl⟩
  | none =>
    obtain ⟨hqueue, hlanes⟩ := evictOldestLane_kept s
    refine ⟨hqueue, ?_, ?_, Or.inr ⟨rfl, rfl⟩⟩
    · exact setLane_get_self tenantKey _ _
    · intro key lane' hne hlane'
      rcases get_set_cases hlane' with ⟨rfl, -⟩ | hold
      · exact absurd rfl hne
      · exact hlanes key lane' hold

/-- A stored request is one more in the shared queue or in the lane of its
tenant. -/
theorem storeEntry_ok_load {env : Env} {entry : QueueEntry QueuedPayload} {n : Nat}
    {pending : List Nat} {s s' : Controller} (h : Account n pending s)
    (hstore : s.storeEntry env entry = (.ok (), s')) :
    (sharedCosts s').Subperm (entry.cost :: sharedCosts s) ∧
      ∀ key, (laneCosts s' key).Subperm (laneCosts s key ++
        if entry.tenantKey ≠ js "_default" ∧ entry.tenantKey = key then [entry.cost] else []) := by
  have hpush : ∀ {q q' : FairCostQueue QueuedPayload}, q.Wf → q.enqueue entry = some q' →
      (q'.entries.map QueueEntry.cost).Perm (entry.cost :: q.entries.map QueueEntry.cost) := by
    intro q q' hwf henqueue
    unfold FairCostQueue.enqueue at henqueue
    split at henqueue
    · obtain rfl := Option.some.inj henqueue
      exact (FairCostQueue.entries_push hwf entry).map QueueEntry.cost
    · exact absurd henqueue.symm (Option.some_ne_none _)
  unfold storeEntry at hstore
  split at hstore
  · rename_i hlane
    dsimp only at hstore
    obtain ⟨hqueue, hget, hothers, hown⟩ := getOrCreateLane_load env entry.tenantKey s
    have hacc := (account_getOrCreateLane env entry.tenantKey h).1
    generalize s.getOrCreateLane env entry.tenantKey = r at hstore hqueue hget hothers hown hacc
    split at hstore
    · rename_i q henqueue
      obtain ⟨-, rfl⟩ := Prod.mk.inj hstore
      have hwf := hacc.lanes_wf _ (mem_of_get hget)
      refine ⟨?_, ?_⟩
      · show (r.2.queue.entries.map _).Subperm _
        rw [hqueue]
        exact (sublist_cons_self _ _).subperm
      · intro key
        by_cases hkey : key = entry.tenantKey
        · subst hkey
          have hstored := setLane_get_self entry.tenantKey { r.1 with queue := q } r.2
          rw [if_pos ⟨hlane.1, rfl⟩, laneCosts_of_get hstored]
          refine ((hpush hwf henqueue).trans ?_).subperm
          have hold : r.1.queue.entries.map QueueEntry.cost = laneCosts s entry.tenantKey := by
            rcases hown with ⟨lane, hlane', hsame⟩ | ⟨hnone, hnil⟩
            · rw [laneCosts_of_get hlane', hsame]
            · rw [laneCosts, hnone, hnil]
              rfl
          rw [hold]
          exact (perm_append_singleton _ _).symm
        · rw [if_neg (fun hboth => hkey hboth.2.symm), append_nil]
          have hrest : laneCosts (r.2.setLane entry.tenantKey { r.1 with queue := q }) key =
              laneCosts r.2 key := by
            rw [laneCosts, laneCosts, setLane_get_other hkey]
          rw [hrest]
          cases hkeyed : r.2.virtualLanes.get key with
          | none =>
            rw [laneCosts, hkeyed]
            exact nil_subperm
          | some lane' =>
            obtain ⟨lane, hlane', hsame⟩ := hothers key lane' hkey hkeyed
            rw [laneCosts_of_get hkeyed, laneCosts_of_get hlane', hsame]
    · exact absurd (Prod.mk.inj hstore).1 (by simp)
  · split at hstore
    · rename_i q henqueue
      obtain ⟨-, rfl⟩ := Prod.mk.inj hstore
      refine ⟨(hpush h.queue_wf henqueue).subperm, ?_⟩
      exact fun key => (sublist_append_left _ _).subperm
    · exact absurd (Prod.mk.inj hstore).1 (by simp)

theorem storeEntry_error_load {env : Env} {entry : QueueEntry QueuedPayload} {message : String}
    {n : Nat} {pending : List Nat} {s s' : Controller} (h : Account n pending s)
    (hstore : s.storeEntry env entry = (.error message, s')) :
    s'.queue = s.queue ∧ LanesKept s s' := by
  unfold storeEntry at hstore
  split at hstore
  · dsimp only at hstore
    obtain ⟨hqueue, hget, hothers, hown⟩ := getOrCreateLane_load env entry.tenantKey s
    have hacc := (account_getOrCreateLane env entry.tenantKey h).1
    generalize s.getOrCreateLane env entry.tenantKey = r at hstore hqueue hget hothers hown hacc
    split at hstore
    · exact absurd (Prod.mk.inj hstore).1 (by simp)
    · obtain ⟨-, rfl⟩ := Prod.mk.inj hstore
      refine ⟨(removeEmptyLane_load r.2 entry.tenantKey).1.trans hqueue, ?_⟩
      intro key lane' hlane'
      by_cases hkey : key = entry.tenantKey
      · subst hkey
        rcases hown with ⟨lane, hlane, hsame⟩ | ⟨-, hnil⟩
        · have hlane₁ := removeEmptyLane_get hlane'
          rw [hget] at hlane₁
          exact ⟨lane, hlane, (Option.some.inj hlane₁) ▸ hsame⟩
        · -- the new lane is empty, so it is removed again
          unfold removeEmptyLane at hlane'
          rw [hget] at hlane'
          dsimp only at hlane'
          have hsize : r.1.queue.size = 0 := by
            rw [FairCostQueue.size_eq (hacc.lanes_wf _ (mem_of_get hget)), hnil]
            rfl
          rw [if_pos hsize] at hlane'
          rw [get_delete, if_pos rfl] at hlane'
          exact absurd hlane'.symm (Option.some_ne_none _)
      · exact hothers key lane' hkey (removeEmptyLane_get hlane')
  · split at hstore
    · exact absurd (Prod.mk.inj hstore).1 (by simp)
    · obtain ⟨-, rfl⟩ := Prod.mk.inj hstore
      exact ⟨rfl, LanesKept.of_eq rfl⟩

theorem tenantKey_of_queueEntry {request : Request} {id cost call maxWait : Nat} {now : Int}
    {key : JsString} (h : (queueEntry request id cost call maxWait now).tenantKey ≠ js "_default")
    (hkey : (queueEntry request id cost call maxWait now).tenantKey = key) :
    request.tenantKey = some key := by
  unfold queueEntry at h hkey
  split at h
  · exact absurd rfl h
  · rename_i hne
    rw [if_neg hne] at hkey
    cases htenant : request.tenantKey with
    | none =>
      rw [htenant] at hne
      exact absurd rfl hne
    | some tenant =>
      rw [htenant] at hkey
      exact congrArg some hkey

theorem turn_joined {env : Env} {n : Nat} {s t : Controller} {request : Request} {cost : Nat}
    (hstored : Account n [] t) (hdispatches : t.dispatches = true)
    (hshared : (sharedCosts t).Subperm (cost :: sharedCosts s))
    (hlanes : ∀ key, (laneCosts t key).Subperm
      (laneCosts s key ++ arriving env s key (.acquire request)))
    (hgrows : Grows s t) (hfits : cost ≤ s.adaptation.currentLimit)
    (hwaits : sharedCosts s ≠ [] ∨ s.available < cost) (signal : Option Nat) (entryId : Nat) :
    Turn env s (.acquire request) (((t.dispatch env).attachAbort signal entryId).dispatch env) := by
  have hresult := dispatch_result env hstored hdispatches
  have hattached := account_attachAbort (account_dispatch env hstored) signal entryId
  have hview : loadView ((t.dispatch env).attachAbort signal entryId) =
      loadView (t.dispatch env) := by
    unfold attachAbort
    split <;> rfl
  have hcontrol : controlView ((t.dispatch env).attachAbort signal entryId) = controlView t := by
    rw [controlView_attachAbort, controlView_dispatch]
  generalize (t.dispatch env).attachAbort signal entryId = u at hattached hview hcontrol ⊢
  have hqueue : u.queue = (t.dispatch env).queue := congrArg LoadView.queue hview
  have hlanesEq : u.virtualLanes = (t.dispatch env).virtualLanes :=
    congrArg LoadView.virtualLanes hview
  have hfewer : Fewer t u := hresult.fewer.trans ((LanesKept.of_eq hlanesEq).fewer hqueue)
  have hgrows' : Grows s u := by
    refine (hgrows.trans hresult.grows).trans (Grows.of_eq ?_ ?_ ?_)
    · exact congrArg LoadView.active hview
    · exact congrArg LoadView.activeCost hview
    · rw [limit_of_view hcontrol, limit_of_view (controlView_dispatch env t)]
  refine Turn.joined ⟨⟨n, hattached⟩, (dispatches_of_view hcontrol).trans hdispatches, rfl,
    controlView_dispatch env u⟩ (hfewer.shared.trans hshared) ?_ hgrows'.available
    (fun hnil => (hgrows'.idle hnil).1) hfits hwaits
  exact fun key => (hfewer.lanes key).trans (hlanes key)

theorem turn_enqueue (env : Env) {n : Nat} {s r : Controller} {request : Request} {cost : Nat}
    (hacc : Account n [] s) (hdispatches : s.dispatches = true)
    (hcost : r.resolveCost env request = .ok cost) (hload : loadView s = loadView r)
    (hlimit : s.adaptation.currentLimit = r.adaptation.currentLimit)
    (hsame : s.dispatches = r.dispatches) (hfits : cost ≤ s.adaptation.currentLimit)
    (hwaits : ¬ (s.queue.size = 0 ∧ s.activeCost + cost ≤ s.adaptation.currentLimit)) :
    Turn env r (.acquire request) (s.enqueue env request cost).2 := by
  have hqueue : s.queue = r.queue := congrArg LoadView.queue hload
  have hlanes : s.virtualLanes = r.virtualLanes := congrArg LoadView.virtualLanes hload
  have hactive : s.active = r.active := congrArg LoadView.active hload
  have hactiveCost : s.activeCost = r.activeCost := congrArg LoadView.activeCost hload
  have hgrows : ∀ {t : Controller}, restView t = restView s.takeId → Grows r t := by
    intro t ht
    refine Grows.of_eq ?_ ?_ ?_
    · exact (congrArg RestView.active ht).trans hactive
    · exact (congrArg RestView.activeCost ht).trans hactiveCost
    · exact (limit_of_view (controlView_of_rest ht)).trans hlimit
  have hacc' : Account n [] s.takeId := hacc.of_view rfl
  unfold enqueue
  dsimp only
  split
  · exact Turn.quiet ⟨hqueue, LanesKept.of_eq hlanes, hgrows rfl, hsame⟩
  · rename_i maxWait _
    have hpending : Account (n + 1)
        [(queueEntry request s.takeId.leaseSeq cost s.takeId.calls maxWait
          (s.takeId.now env)).payload.call] s.takeId.readClock.beginCall :=
      account_beginCall (account_readClock hacc')
    have hkey : ∀ {key : JsString},
        (queueEntry request s.takeId.leaseSeq cost s.takeId.calls maxWait
          (s.takeId.now env)).tenantKey ≠ js "_default" →
        (queueEntry request s.takeId.leaseSeq cost s.takeId.calls maxWait
          (s.takeId.now env)).tenantKey = key → request.tenantKey = some key :=
      fun hne heq => tenantKey_of_queueEntry hne heq
    have hentryCost : (queueEntry request s.takeId.leaseSeq cost s.takeId.calls maxWait
        (s.takeId.now env)).cost = cost := rfl
    generalize queueEntry request s.takeId.leaseSeq cost s.takeId.calls maxWait
      (s.takeId.now env) = entry at hpending hkey hentryCost ⊢
    unfold enqueueEntry
    have hrest := restView_storeEntry env entry s.takeId.readClock.beginCall
    cases hstore : s.takeId.readClock.beginCall.storeEntry env entry with
    | mk result t =>
      rw [hstore] at hrest
      have hrestT : restView t = restView s.takeId := hrest
      have hcontrolT : controlView t = controlView s := (controlView_of_rest hrestT).trans rfl
      have hdispatchesT := dispatches_of_view hcontrolT
      cases result with
      | error message =>
        obtain ⟨hqueueT, hlanesT⟩ := storeEntry_error_load hpending hstore
        refine Turn.quiet ⟨hqueueT.trans hqueue, ?_, hgrows hrestT, hdispatchesT.trans hsame⟩
        have hkept : LanesKept r s.takeId.readClock.beginCall := LanesKept.of_eq hlanes
        exact hkept.trans hlanesT
      | ok _ =>
        obtain ⟨hsharedT, hlanesT⟩ := storeEntry_ok_load hpending hstore
        have hstored := account_storeEntry_ok env hpending hstore
        have hsharedEq : sharedCosts s.takeId.readClock.beginCall = sharedCosts r :=
          congrArg (fun q : FairCostQueue QueuedPayload => q.entries.map QueueEntry.cost) hqueue
        have hlaneEq : ∀ key, laneCosts s.takeId.readClock.beginCall key = laneCosts r key := by
          intro key
          unfold laneCosts
          rw [← hlanes]
          rfl
        refine @turn_joined env _ r t request cost hstored (hdispatchesT.trans hdispatches) ?_ ?_
          (hgrows hrestT) (hlimit ▸ hfits) ?_ entry.payload.signal entry.id
        · rw [hsharedEq, hentryCost] at hsharedT
          exact hsharedT
        · intro key
          have hsub := hlanesT key
          rw [hlaneEq] at hsub
          refine hsub.trans ?_
          by_cases hown : entry.tenantKey ≠ js "_default" ∧ entry.tenantKey = key
          · rw [if_pos hown, arriving, if_pos (hkey hown.1 hown.2), hcost, hentryCost]
          · rw [if_neg hown, append_nil]
            exact (sublist_append_left _ _).subperm
        · by_cases hnil : sharedCosts r = []
          · right
            rw [← hsharedEq] at hnil
            have hsize : s.queue.size = 0 := by
              rw [FairCostQueue.size_eq hacc.queue_wf]
              exact congrArg Int.ofNat (congrArg List.length (map_eq_nil_iff.mp hnil))
            unfold available
            omega
          · exact Or.inl hnil

theorem kept_admitLease (env : Env) (call cost : Nat) (disposition : VirtualDisposition)
    (s : Controller) : Kept s (s.admitLease env call cost disposition) := by
  obtain ⟨hqueue, hlanes, -, -⟩ := admitLease_load env call cost disposition s
  exact ⟨hqueue, LanesKept.of_eq hlanes, grows_admitLease env call cost disposition s,
    dispatches_of_view (controlView_admitLease env call cost disposition s)⟩

theorem Kept.of_load {s s' : Controller} (hload : loadView s' = loadView s)
    (hlimit : s'.adaptation.currentLimit = s.adaptation.currentLimit)
    (hdispatches : s'.dispatches = s.dispatches) : Kept s s' :=
  ⟨congrArg LoadView.queue hload, LanesKept.of_eq (congrArg LoadView.virtualLanes hload),
    Grows.of_eq (congrArg LoadView.active hload) (congrArg LoadView.activeCost hload) hlimit,
    hdispatches⟩

theorem Kept.trans {s s' s'' : Controller} (h : Kept s s') (h' : Kept s' s'') : Kept s s'' :=
  ⟨h'.queue.trans h.queue, h.lanes.trans h'.lanes, h.grows.trans h'.grows,
    h'.dispatches.trans h.dispatches⟩

theorem kept_acquireShadow (env : Env) (call : Nat) (request : Request) (cost : Nat)
    (s : Controller) : Kept s (s.acquireShadow env call request cost) := by
  have hdecision : Kept s (s.shadowDecision cost).2 := by
    unfold shadowDecision
    split
    · exact Kept.of_load rfl rfl rfl
    · split
      · exact Kept.of_load rfl rfl rfl
      · split <;> exact Kept.of_load rfl rfl rfl
  have hadmitted := hdecision.trans
    (kept_admitLease env call cost (s.shadowDecision cost).1 (s.shadowDecision cost).2)
  unfold acquireShadow
  dsimp only
  split
  · exact hadmitted.trans (Kept.of_load rfl rfl rfl)
  · exact hadmitted

theorem kept_notePressure (pressure : Option Pressure) (s : Controller) :
    Kept s (s.notePressure pressure) := by
  obtain ⟨hdispatches, hlimit⟩ := notePressure_control pressure s
  exact Kept.of_load (loadView_notePressure pressure s) hlimit hdispatches

theorem turn_acquire (env : Env) {n : Nat} {s : Controller} (hacc : Account n [] s)
    (request : Request) : Turn env s (.acquire request) (s.acquire env request).2 := by
  unfold acquire
  by_cases hshut : s.shutDown = true
  · rw [if_pos hshut]
    exact Turn.quiet (Kept.of_load rfl rfl rfl)
  · rw [if_neg hshut]
    by_cases haborted : s.isAborted request.signal = true
    · rw [if_pos haborted]
      exact Turn.quiet (Kept.of_load rfl rfl rfl)
    · rw [if_neg haborted]
      dsimp only
      have hkept := kept_notePressure request.pressure s
      have hload := loadView_notePressure request.pressure s
      have hacc' := hacc.of_view (accountView_notePressure request.pressure s)
      obtain ⟨adaptation, hnoted, -⟩ := notePressure_eq request.pressure s
      have hshut' : (s.notePressure request.pressure).shutDown = s.shutDown := by rw [hnoted]
      have hresolve : (s.notePressure request.pressure).resolveCost env request =
          s.resolveCost env request := by
        rw [hnoted]
        rfl
      rw [hresolve]
      generalize s.notePressure request.pressure = r at hkept hload hacc' hshut' ⊢
      cases hcost : s.resolveCost env request with
      | error message => exact Turn.quiet hkept
      | ok cost =>
        have hbegin : Kept s r.beginCall := hkept.trans (Kept.of_load rfl rfl rfl)
        cases hmode : r.config.mode with
        | off => exact Turn.quiet (hkept.trans (Kept.of_load rfl rfl rfl))
        | shadow => exact Turn.quiet (hbegin.trans (kept_acquireShadow env _ request cost _))
        | enforce =>
          have hdispatches : r.dispatches = true := by
            unfold dispatches
            rw [hshut', hmode]
            simp [hshut]
          show Turn env s (.acquire request) (r.acquireEnforce env request cost).2
          unfold acquireEnforce
          split
          · split
            · exact Turn.quiet (hbegin.trans (kept_admitLease env _ cost .none _))
            · exact Turn.quiet (hkept.trans (Kept.of_load rfl rfl rfl))
          · rename_i hfits
            split
            · exact Turn.quiet (hbegin.trans (kept_admitLease env _ cost .none _))
            · rename_i hwaits
              split
              · exact turn_enqueue env hacc' hdispatches hcost hload hkept.grows.limit
                  hkept.dispatches (Nat.le_of_not_lt hfits) hwaits
              · exact Turn.quiet (hkept.trans (Kept.of_load rfl rfl rfl))

end RedRouter.Admission.Controller
