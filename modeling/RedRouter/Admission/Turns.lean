import RedRouter.Admission.Arrivals
import RedRouter.Lib.Runs

/-!
# Turns of every step

`turn_step` is the one walk over the operations: every event is a turn.  Only
an abort is a sequence of turns, one for each of its listeners, so `step_keeps`
has the induction that carries a property of the waiting requests over a step,
and `run_keeps` the one that carries it over a run.
-/

namespace RedRouter.Admission.Controller

open List

/-! ## Configurations and shutdown -/

theorem foldl_requeue_admits (env : Env) (entries : List (QueueEntry QueuedPayload)) {s : Controller}
    (hmode : s.config.mode ≠ .enforce) :
    (entries.foldl (requeue env) s).queue = s.queue ∧
      (entries.foldl (requeue env) s).virtualLanes = s.virtualLanes := by
  induction entries generalizing s with
  | nil => exact ⟨rfl, rfl⟩
  | cons entry entries ih =>
    rw [foldl_cons]
    have hstep : s.requeue env entry =
        (s.detachAbort entry.id).admitLease env entry.payload.call entry.cost .none := by
      rw [requeue, if_pos hmode]
    have hconfig : (s.requeue env entry).config = s.config := by
      rw [hstep]
      exact config_of_view (controlView_admitLease env _ _ _ _)
    obtain ⟨hqueue, hlanes, -, -⟩ := admitLease_load env entry.payload.call entry.cost .none
      (s.detachAbort entry.id)
    obtain ⟨hqueue', hlanes'⟩ := @ih (s.requeue env entry) (by rw [hconfig]; exact hmode)
    rw [hstep] at hqueue' hlanes' ⊢
    exact ⟨hqueue'.trans hqueue, hlanes'.trans hlanes⟩

/-- In enforce mode the drained requests go to the shared queue, or are
rejected. -/
theorem foldl_requeue_stores (env : Env) (entries : List (QueueEntry QueuedPayload)) {s : Controller}
    (hmode : s.config.mode = .enforce) (hwf : s.queue.Wf) :
    (entries.foldl (requeue env) s).virtualLanes = s.virtualLanes ∧
      (entries.foldl (requeue env) s).active = s.active ∧
      controlView (entries.foldl (requeue env) s) = controlView s ∧
      ∀ cost ∈ sharedCosts (entries.foldl (requeue env) s),
        cost ∈ sharedCosts s ∨ cost ∈ entries.map QueueEntry.cost := by
  induction entries generalizing s with
  | nil => exact ⟨rfl, rfl, rfl, fun _ hcost => Or.inl hcost⟩
  | cons entry entries ih =>
    rw [foldl_cons]
    have hskip : ∀ t : Controller, t.config = s.config → t.queue = s.queue →
        t.virtualLanes = s.virtualLanes → t.active = s.active → controlView t = controlView s →
        (entries.foldl (requeue env) t).virtualLanes = s.virtualLanes ∧
          (entries.foldl (requeue env) t).active = s.active ∧
          controlView (entries.foldl (requeue env) t) = controlView s ∧
          ∀ cost ∈ sharedCosts (entries.foldl (requeue env) t),
            cost ∈ sharedCosts s ∨ cost ∈ (entry :: entries).map QueueEntry.cost := by
      intro t hconfig hqueue hlanes hactive hcontrol
      obtain ⟨hlanes', hactive', hcontrol', hcosts⟩ :=
        @ih t (by rw [hconfig]; exact hmode) (by rw [hqueue]; exact hwf)
      refine ⟨hlanes'.trans hlanes, hactive'.trans hactive, hcontrol'.trans hcontrol, ?_⟩
      intro cost hcost
      rcases hcosts cost hcost with hold | hnew
      · rw [sharedCosts, hqueue] at hold
        exact Or.inl hold
      · exact Or.inr (mem_cons_of_mem _ hnew)
    unfold requeue
    rw [if_neg (by rw [hmode]; simp)]
    split
    · exact hskip _ rfl rfl rfl rfl rfl
    · unfold FairCostQueue.enqueue
      by_cases haccept : s.queue.canAccept entry.cost = true
      · rw [if_pos haccept]
        obtain ⟨hlanes', hactive', hcontrol', hcosts⟩ :=
          @ih { s with queue := s.queue.push entry } hmode (FairCostQueue.wf_push hwf haccept)
        refine ⟨hlanes', hactive', hcontrol', ?_⟩
        intro cost hcost
        rcases hcosts cost hcost with hold | hnew
        · have hperm := (FairCostQueue.entries_push hwf entry).map QueueEntry.cost
          rcases mem_cons.mp (hperm.subset hold) with rfl | hold
          · exact Or.inr mem_cons_self
          · exact Or.inl hold
        · exact Or.inr (mem_cons_of_mem _ hnew)
      · rw [if_neg haccept]
        exact hskip _ rfl rfl rfl rfl rfl

variable {s : Controller}

theorem waits_of_mem_drained {n : Nat} {pending : List Nat} (h : Account n pending s)
    {entry : QueueEntry QueuedPayload} (hentry : entry ∈ s.drained) : Waits s entry.cost := by
  rcases mem_drained h hentry with hshared | ⟨lane, hlane, hmem⟩
  · exact Or.inl (mem_map_of_mem hshared)
  · have hget := JsMap.get_of_mem h.lanes_nodup (k := lane.1) (v := lane.2) hlane
    refine Or.inr ⟨lane.1, ?_⟩
    rw [laneCosts_of_get hget]
    exact mem_map_of_mem hmem

theorem rebuildVirtualState_views (enable : Bool) (s : Controller) :
    loadView (s.rebuildVirtualState enable) = loadView s ∧
      controlView (s.rebuildVirtualState enable) = controlView s := by
  have hloop : ∀ {f : Controller → Nat → Controller},
      (∀ t id, loadView (f t id) = loadView t ∧ controlView (f t id) = controlView t) →
      ∀ (ids : List Nat) (t : Controller),
        loadView (ids.foldl f t) = loadView t ∧ controlView (ids.foldl f t) = controlView t := by
    intro f hf ids
    induction ids with
    | nil => exact fun t => ⟨rfl, rfl⟩
    | cons id ids ih =>
      intro t
      obtain ⟨hload, hcontrol⟩ := ih (f t id)
      exact ⟨hload.trans (hf t id).1, hcontrol.trans (hf t id).2⟩
  have hset : ∀ (disposition : VirtualDisposition) (t : Controller) (id : Nat),
      loadView (t.setDisposition id disposition) = loadView t ∧
        controlView (t.setDisposition id disposition) = controlView t :=
    fun disposition t id =>
      ⟨loadView_setDisposition id disposition t, controlView_setDisposition id disposition t⟩
  have hrebuild : ∀ (t : Controller) (id : Nat), loadView (t.rebuildRecord id) = loadView t ∧
        controlView (t.rebuildRecord id) = controlView t := by
    intro t id
    unfold rebuildRecord
    split
    · exact ⟨rfl, rfl⟩
    · split
      · exact hset .rejected t id
      · split
        · exact hset .active t id
        · split
          · exact hset .queued t id
          · exact hset .rejected t id
  unfold rebuildVirtualState
  obtain ⟨hload, hcontrol⟩ := hloop (hset .none) s.active { s with
    virtualQueue := emptyQueue s.config, virtualActiveCost := 0, virtualActiveCount := 0 }
  split
  · obtain ⟨hload', hcontrol'⟩ := hloop hrebuild _ (s.active.foldl
      (fun s id => s.setDisposition id .none) { s with
        virtualQueue := emptyQueue s.config, virtualActiveCost := 0, virtualActiveCount := 0 })
    exact ⟨hload'.trans hload, hcontrol'.trans hcontrol⟩
  · exact ⟨hload, hcontrol⟩

theorem turn_applyConfig (env : Env) {n : Nat} (hparked : Parked s) (hacc : Account n [] s)
    (event : Event) (cfg : ValidatedConfig) : Turn env s event (s.applyConfig env cfg) := by
  have hload : loadView (s.adoptConfig env cfg) = loadView s := loadView_sampleIntegral env s
  have hconfig : (s.adoptConfig env cfg).config = cfg := rfl
  have hshut : (s.adoptConfig env cfg).shutDown = s.shutDown :=
    congrArg ControlView.shutDown (controlView_sampleIntegral env s)
  have hadopted := hacc.of_view (accountView_adoptConfig env cfg s)
  unfold applyConfig
  generalize s.adoptConfig env cfg = r at hload hconfig hshut hadopted ⊢
  have hqueue : r.queue = s.queue := congrArg LoadView.queue hload
  have hlanes : r.virtualLanes = s.virtualLanes := congrArg LoadView.virtualLanes hload
  have hactive : r.active = s.active := congrArg LoadView.active hload
  have hrequeued := account_foldl_requeue env (hadopted.drainAll (emptyQueue_wf cfg) rfl)
  by_cases hmode : cfg.mode = .enforce
  · rw [if_pos hmode]
    obtain ⟨hlanesU, hactiveU, hcontrolU, hcostsU⟩ := @foldl_requeue_stores env r.drained
      { r with queue := emptyQueue cfg, virtualLanes := [] } (by dsimp only; rw [hconfig]; exact hmode)
      (emptyQueue_wf cfg)
    generalize r.drained.foldl (requeue env) { r with queue := emptyQueue cfg, virtualLanes := [] } = u
      at hrequeued hlanesU hactiveU hcontrolU hcostsU ⊢
    have haccount := hrequeued.of_view (accountView_rebuildVirtualState (cfg.mode = .shadow) u)
    obtain ⟨hloadT, hcontrolT⟩ := rebuildVirtualState_views (cfg.mode = .shadow) u
    generalize u.rebuildVirtualState (cfg.mode = .shadow) = t at haccount hloadT hcontrolT ⊢
    have hqueueT : t.queue = u.queue := congrArg LoadView.queue hloadT
    have hlanesT : t.virtualLanes = [] := (congrArg LoadView.virtualLanes hloadT).trans hlanesU
    have hactiveT : t.active = s.active :=
      (congrArg LoadView.active hloadT).trans (hactiveU.trans hactive)
    have hdispatches : t.dispatches = !s.shutDown := by
      have hshutT : t.shutDown = r.shutDown :=
        congrArg ControlView.shutDown (hcontrolT.trans hcontrolU)
      have hconfigT : t.config = r.config := config_of_view (hcontrolT.trans hcontrolU)
      rw [dispatches, hshutT, hconfigT, hshut, hconfig, hmode]
      simp
    have hwaits : ∀ cost, Waits t cost → Waits s cost := by
      intro cost hcost
      rcases hcost with hshared | ⟨key, hlane⟩
      · rw [sharedCosts, hqueueT] at hshared
        rcases hcostsU cost hshared with hnil | hdrained
        · exact absurd hnil not_mem_nil
        · obtain ⟨entry, hentry, rfl⟩ := mem_map.mp hdrained
          have hold := waits_of_mem_drained hadopted hentry
          unfold Waits sharedCosts laneCosts at hold ⊢
          rw [hqueue, hlanes] at hold
          exact hold
      · rw [laneCosts, hlanesT] at hlane
        exact absurd hlane not_mem_nil
    cases hstopped : s.shutDown with
    | false =>
      rw [hstopped] at hdispatches
      exact Turn.moved ⟨⟨n, haccount⟩, hdispatches, rfl, controlView_dispatch env t⟩ hlanesT hwaits
        (fun hnil => hactiveT ▸ hnil)
    | true =>
      rw [hstopped] at hdispatches
      rw [dispatch_eq_self env hdispatches]
      obtain ⟨hqueueS, hlanesS⟩ := hparked (by rw [dispatches, hstopped]; rfl)
      refine Turn.emptied (eq_nil_iff_forall_not_mem.mpr ?_) hlanesT
      intro entry hentry
      exact not_waits_of_empty hqueueS hlanesS entry.cost
        (hwaits entry.cost (Or.inl (mem_map_of_mem hentry)))
  · rw [if_neg hmode]
    obtain ⟨hqueueU, hlanesU⟩ := @foldl_requeue_admits env r.drained
      { r with queue := emptyQueue cfg, virtualLanes := [] } (by dsimp only; rw [hconfig]; exact hmode)
    generalize r.drained.foldl (requeue env) { r with queue := emptyQueue cfg, virtualLanes := [] } = u
      at hqueueU hlanesU ⊢
    obtain ⟨hloadT, -⟩ := rebuildVirtualState_views (cfg.mode = .shadow) u
    refine Turn.emptied ?_ ((congrArg LoadView.virtualLanes hloadT).trans hlanesU)
    have hqueueT := (congrArg LoadView.queue hloadT).trans hqueueU
    exact congrArg FairCostQueue.entries hqueueT

theorem turn_shutdown (env : Env) {n : Nat} (hacc : Account n [] s) (event : Event) :
    Turn env s event s.shutdown := by
  unfold shutdown
  split
  · exact Turn.quiet (Kept.of_load rfl rfl rfl)
  · exact Turn.emptied (FairCostQueue.drain_spec hacc.queue_wf).2.2 rfl

/-! ## Steps -/

/-- What holds in every state of every run. -/
structure Sane (s : Controller) : Prop where
  account : ∃ n, Account n [] s
  parked : Parked s
  books : Books s

/-- A sequence of turns that each expire a request, or nothing. -/
abbrev Expiries (env : Env) : Controller → Controller → Prop :=
  Relation.ReflTransGen (fun s s' => Sane s' ∧ ∃ id, Turn env s (.expire id) s')

theorem sane_of_turn {env : Env} {s' : Controller} {event : Event} (h : Sane s)
    (hacc : ∃ n, Account n [] s') (hpath : Path env s s') (hturn : Turn env s event s') : Sane s' :=
  ⟨hacc, parked_turn h.parked hturn, hpath.keeps books_move h.books⟩

/-- An abort expires the requests of its listeners, one after the other. -/
theorem expiries_abort (env : Env) (signal : Nat) (h : Sane s) :
    Sane (s.abort env signal) ∧ Expiries env s (s.abort env signal) := by
  have hquiet : ∀ {t t' : Controller}, Sane t → accountView t' = accountView t →
      restView t' = restView t → loadView t' = loadView t →
      Sane t' ∧ Turn env t (.expire 0) t' := by
    intro t t' ht haccount hrest hload
    obtain ⟨n, hacc⟩ := ht.account
    have hcontrol := controlView_of_rest hrest
    have hturn : Turn env t (.expire 0) t' :=
      Turn.quiet (Kept.of_load hload (limit_of_view hcontrol) (dispatches_of_view hcontrol))
    exact ⟨sane_of_turn ht ⟨n, hacc.of_view haccount⟩ (path_of_rest hrest) hturn, hturn⟩
  have hlistener : ∀ (t : Controller) (listener : Nat × Nat), Sane t →
      Sane (runListener env t listener) ∧ Expiries env t (runListener env t listener) := by
    intro t listener ht
    unfold runListener
    split
    · obtain ⟨hsane, hturn⟩ := @hquiet t
        { t with listeners := t.listeners.filter (· ≠ listener) } ht rfl rfl rfl
      obtain ⟨n, hacc⟩ := hsane.account
      have hexpire := turn_expireEntry env hsane.parked hacc listener.2 .aborted
        "request aborted while queued"
      have hsane' := sane_of_turn hsane ⟨n, account_expireEntry env _ _ _ hacc⟩
        ((path_carried env _).expireEntry _ _ _ hacc Relation.ReflTransGen.refl) hexpire
      exact ⟨hsane', (Relation.ReflTransGen.single ⟨hsane, 0, hturn⟩).tail
        ⟨hsane', listener.2, hexpire⟩⟩
    · exact ⟨ht, Relation.ReflTransGen.refl⟩
  have hloop : ∀ (listeners : List (Nat × Nat)) (t : Controller), Sane t →
      Sane (listeners.foldl (runListener env) t) ∧
        Expiries env t (listeners.foldl (runListener env) t) := by
    intro listeners
    induction listeners with
    | nil => exact fun t ht => ⟨ht, Relation.ReflTransGen.refl⟩
    | cons listener listeners ih =>
      intro t ht
      obtain ⟨hsane, hfirst⟩ := hlistener t listener ht
      obtain ⟨hsane', hrest⟩ := ih _ hsane
      exact ⟨hsane', hfirst.trans hrest⟩
  unfold abort
  split
  · exact ⟨h, Relation.ReflTransGen.refl⟩
  · obtain ⟨hsane, hturn⟩ := @hquiet s { s with aborted := signal :: s.aborted } h rfl rfl rfl
    obtain ⟨hsane', hrest⟩ := hloop (s.listeners.filter (fun listener => listener.1 = signal))
      { s with aborted := signal :: s.aborted } hsane
    exact ⟨hsane', (Relation.ReflTransGen.single ⟨hsane, 0, hturn⟩).trans hrest⟩

theorem turn_step (env : Env) (h : Sane s) (event : Event) : Turn env s event (step env s event) ∨
      (∃ signal, event = .abort signal) ∧ Expiries env s (step env s event) := by
  obtain ⟨n, hacc⟩ := h.account
  cases event with
  | acquire request => exact Or.inl (turn_acquire env hacc request)
  | release lease outcome info =>
    exact Or.inl (turn_release env h.parked hacc h.books.recorded lease outcome info)
  | tick => exact Or.inl (turn_tick env h.parked hacc)
  | observePressure pressure => exact Or.inl (turn_observePressure env h.parked hacc pressure)
  | updateConfig config =>
    left
    show Turn env s (.updateConfig config) (s.updateConfig env config)
    unfold updateConfig
    split
    · exact Turn.quiet (Kept.of_load rfl rfl rfl)
    · exact turn_applyConfig env h.parked hacc _ _
  | expire id => exact Or.inl (turn_expireEntry env h.parked hacc id _ _)
  | abort signal => exact Or.inr ⟨⟨signal, rfl⟩, (expiries_abort env signal h).2⟩
  | evictIdleLanes =>
    obtain ⟨hqueue, hlanes⟩ := evictIdleLanes_kept env s
    have hrest := restView_evictIdleLanes env s
    have hcontrol := controlView_of_rest hrest
    exact Or.inl (Turn.quiet ⟨hqueue, hlanes, Grows.of_eq (congrArg RestView.active hrest)
      (congrArg RestView.activeCost hrest) (limit_of_view hcontrol), dispatches_of_view hcontrol⟩)
  | shutdown => exact Or.inl (turn_shutdown env hacc _)
  | idTaken => exact Or.inl (Turn.quiet (Kept.of_load rfl rfl rfl))

theorem sane_create (env : Env) (cfg : ValidatedConfig) : Sane (create env cfg) :=
  ⟨⟨0, account_create env cfg⟩, fun _ => ⟨rfl, rfl⟩, books_create env cfg⟩

theorem sane_step (env : Env) (h : Sane s) (event : Event) : Sane (step env s event) := by
  obtain ⟨n, hacc⟩ := h.account
  rcases turn_step env h event with hturn | ⟨⟨signal, rfl⟩, -⟩
  · exact sane_of_turn h ⟨_, account_step env hacc event⟩ (path_step event hacc h.books.limit_le)
      hturn
  · exact (expiries_abort env signal h).1

section Runs

variable {env : Env} {P : Controller → Prop} {C : Event → Controller → Prop}

section

variable (hturn : ∀ {s s' : Controller} {event : Event}, Sane s → Sane s' → C event s → Turn env s event s' → P s → P s')
include hturn

section

variable (habort : ∀ {s : Controller} {signal : Nat}, C (.abort signal) s → ∀ id, C (.expire id) s)
include habort

section

variable (hexpire : ∀ {s s' : Controller} {id : Nat}, Sane s → (∀ other, C (.expire other) s) → Turn env s (.expire id) s' → ∀ other, C (.expire other) s')
include hexpire

/-- A property that every turn keeps under a condition is kept by a step that
meets the condition.  What an abort needs is that the condition of an expiry
survives the expiries before it. -/
theorem step_keeps {s : Controller} (h : Sane s) {event : Event} (hevent : C event s) (hs : P s) :
    P (step env s event) := by
  rcases turn_step env h event with hone | ⟨⟨signal, rfl⟩, hmany⟩
  · exact hturn h (sane_step env h event) hevent hone hs
  · have hchain : ∀ t, Expiries env s t → Sane t ∧ P t ∧ ∀ id, C (.expire id) t := by
      intro t hmany
      induction hmany with
      | refl => exact ⟨h, hs, habort hevent⟩
      | tail _ hlast ih =>
        obtain ⟨hsane, hP, hC⟩ := ih
        obtain ⟨hsane', id, hone⟩ := hlast
        exact ⟨hsane', hturn hsane hsane' (hC id) hone hP, hexpire hsane hC hone⟩
    exact (hchain _ hmany).2.1

/-- The same over a whole run: every event meets the condition in the state it
finds. -/
theorem run_keeps {cfg : ValidatedConfig} (hcreate : P (create env cfg)) {events : List Event}
    (hevents : ∀ before event after, events = before ++ event :: after →
      C event (run env cfg before)) :
    Sane (run env cfg events) ∧ P (run env cfg events) := by
  induction events using List.reverseRecOn with
  | nil => exact ⟨sane_create env cfg, hcreate⟩
  | append_singleton events event ih =>
    obtain ⟨hsane, hP⟩ := ih (fun before event' after heq =>
      hevents before event' (after ++ [event]) (by rw [heq, append_assoc]; rfl))
    have hcondition := hevents events event [] rfl
    unfold run at hsane hP hcondition ⊢
    rw [foldl_append]
    exact ⟨sane_step env hsane event, step_keeps hturn habort hexpire hsane hcondition hP⟩

end

end

end

end Runs

/-- A controller that was shut down, or is not in enforce mode, has nothing that waits, and
has settled every call that it answered. -/
theorem dispatches_or_settled (env : Env) (cfg : ValidatedConfig) (events : List Event) :
    let s := run env cfg events
    s.dispatches = true ∨ s.queue.entries = [] ∧ s.virtualLanes = [] ∧
      (settledCalls s).Perm (List.range (answeredCalls env (create env cfg) events)) := by
  intro s
  cases hdispatches : s.dispatches with
  | true => exact .inl rfl
  | false =>
    have hsane : Sane s := Runs.foldl_invariant Sane (fun _ event h => sane_step env h event)
      (sane_create env cfg) events
    obtain ⟨hqueue, hlanes⟩ := hsane.parked hdispatches
    have hperm := (account_foldl_step env (account_create env cfg) events).perm
    have hwaiting : queueCalls s.queue ++ laneCalls s.virtualLanes = [] := by
      rw [queueCalls, hqueue, hlanes]
      rfl
    rw [Nat.zero_add, nil_append] at hperm
    change (settledCalls s ++ (queueCalls s.queue ++ laneCalls s.virtualLanes)).Perm _ at hperm
    rw [hwaiting, append_nil] at hperm
    exact .inr ⟨hqueue, hlanes, hperm⟩

end RedRouter.Admission.Controller
