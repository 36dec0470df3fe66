import RedRouter.Admission.Decision
import RedRouter.Admission.Turns

/-!
# Work conservation

A queue is settled for a budget when one of its heads is reserved, or none of
them fits.  The shared queue is settled in every state of every run
(`sharedSettled`).

The lanes are not: a visit of `dispatchLanes` ends at the first admission, so
a lane that holds two requests which fit together keeps the second one
waiting; and `acquire` looks at the shared queue only, so a request may pass
the ones that wait in the lane of its own tenant.  `lanesConserved` says that
these are the only ways: in a run where no lane ever holds two requests that
fit the budget of a step together, and no request that fits arrives at a lane
that is not empty, the lanes are settled and nothing is passed.
-/

namespace RedRouter.Admission.Controller

open List JsMap

/-- A head is reserved, or no head fits. -/
def Settled (q : FairCostQueue QueuedPayload) (budget : Int) : Prop :=
  (∃ idx e, q.headAt idx = some e ∧ e.isAged = true) ∨
    ∀ idx e, q.headAt idx = some e → budget < e.cost

variable {q : FairCostQueue QueuedPayload}

theorem Settled.mono {budget budget' : Int}
    (h : Settled q budget) (hle : budget' ≤ budget) : Settled q budget' := by
  rcases h with haged | hnone
  · exact Or.inl haged
  · refine Or.inr ?_
    intro idx e he
    have hover := hnone idx e he
    omega

theorem settled_of_costs {budget : Int}
    (h : ∀ cost ∈ q.entries.map QueueEntry.cost, budget < cost) : Settled q budget := by
  refine Or.inr ?_
  intro idx e he
  have hmem := mem_map_of_mem (f := QueueEntry.cost) (FairCostQueue.fresh_mem_entries he)
  exact h e.fresh.cost hmem

theorem settled_of_nonpos (hwf : q.Wf) {budget : Int} (h : budget ≤ 0) : Settled q budget := by
  apply settled_of_costs
  intro cost hcost
  obtain ⟨e, he, rfl⟩ := mem_map.mp hcost
  have hpos := (FairCostQueue.cost_of_mem_entries hwf he).1
  omega

theorem settled_of_stuck (hwf : q.Wf) {budget : Int} (h : Stuck q budget) : Settled q budget := by
  rcases h with hnonpos | hnone
  · exact settled_of_nonpos hwf hnonpos
  · rcases FairCostQueue.dequeue_none_cases hwf hnone with haged | hover
    · exact Or.inl haged
    · refine Or.inr ?_
      intro idx e he
      have hlt := hover idx e he
      omega

/-! ## The shared queue -/

variable {env : Env} {s t s' : Controller}

theorem Serving.settled (h : Serving env t s') : Settled s'.queue s'.available := by
  obtain ⟨n, hacc⟩ := h.account
  have hresult := dispatch_result env hacc h.dispatches
  have hwf := (account_dispatch env hacc).queue_wf
  have hqueue : s'.queue = (t.dispatch env).queue := congrArg LoadView.queue h.load
  rw [hqueue, h.available]
  rcases hresult.stopped with ⟨-, hstuck⟩ | ⟨hnil, -⟩
  · exact settled_of_stuck hwf hstuck
  · apply settled_of_costs
    rw [hnil]
    exact fun _ hcost => absurd hcost not_mem_nil

theorem settled_turn {event : Event} (hturn : Turn env s event s')
    (h : Settled s.queue s.available) : Settled s'.queue s'.available := by
  cases hturn with
  | quiet hkept =>
    rw [hkept.queue]
    exact h.mono hkept.grows.available
  | emptied hqueue _ =>
    apply settled_of_costs
    rw [hqueue]
    exact fun _ hcost => absurd hcost not_mem_nil
  | served hserving _ _ _ => exact hserving.settled
  | joined hserving _ _ _ _ _ _ => exact hserving.settled
  | moved hserving _ _ _ => exact hserving.settled

/-- In every state of every run a head of the shared queue is reserved, or no
head fits what is left of the budget. -/
theorem sharedSettled (env : Env) (cfg : ValidatedConfig) (events : List Event) :
    let s := run env cfg events
    (∃ idx e, s.queue.headAt idx = some e ∧ maxUnfittableSkips ≤ e.skipCount) ∨
      ∀ idx e, s.queue.headAt idx = some e →
        ¬ (e.cost : Int) ≤ s.adaptation.currentLimit - s.activeCost := by
  intro s
  have hsettled : Settled s.queue s.available := by
    refine (@run_keeps env (fun t => Settled t.queue t.available) (fun _ _ => True)
      (fun _ _ _ hturn h => settled_turn hturn h) (fun _ _ => trivial) (fun _ _ _ _ => trivial) cfg
      ?_ events (fun _ _ _ _ => trivial)).2
    exact settled_of_costs (fun _ hcost => absurd hcost not_mem_nil)
  rcases hsettled with ⟨idx, e, he, haged⟩ | hnone
  · exact Or.inl ⟨idx, e, he, by simpa [QueueEntry.isAged] using haged⟩
  · refine Or.inr ?_
    intro idx e he
    have hover := hnone idx e he
    unfold available at hover
    omega

/-- With the lanes disabled the shared queue is the only one: a request that
fits leaves it with the next release. -/
example :
    let s := run ⟨Int.ofNat, Rounding.exact⟩ smallConfig
      [.acquire { cost := some (.finite 3) }, .acquire { cost := some (.finite 2) },
        .release 1 .success {}]
    s.activeCost = 2 ∧ s.queue.size = 0 := by
  decide +kernel

/-! ## The lanes -/

/-- The lanes are settled when the shared queue is empty. -/
def LanesSettled (s : Controller) : Prop :=
  s.queue.entries = [] →
    ∀ key lane, s.virtualLanes.get key = some lane → Settled lane.queue s.available

/-- Two costs exceed a budget together. -/
def Exceed (budget : Int) (a b : Nat) : Prop := budget < (a : Int) + b

/-- No two requests of a lane fit the budget of a step together, not even with
the one that arrives. -/
def Apart (env : Env) (event : Event) (s : Controller) : Prop :=
  ∀ key, (laneCosts s key ++ arriving env s key event).Pairwise (Exceed (budget env s event))

theorem pairwise_of_subperm {α : Type} {R : α → α → Prop} (hsymm : ∀ {a b}, R a b → R b a)
    {l l' : List α} (h : l.Subperm l') (hl' : l'.Pairwise R) : l.Pairwise R := by
  obtain ⟨m, hperm, hsub⟩ := h
  exact (hperm.pairwise_iff hsymm).mp (hl'.sublist hsub)

theorem pairwise_apart {costs costs' : List Nat} {budget budget' : Int}
    (h : costs'.Pairwise (Exceed budget)) (hsub : costs.Subperm costs')
    (hle : budget' ≤ budget) : costs.Pairwise (Exceed budget') := by
  have hsymm : ∀ {a b : Nat}, Exceed budget a b → Exceed budget b a := by
    intro a b hab
    unfold Exceed at hab ⊢
    omega
  refine (pairwise_of_subperm hsymm hsub h).imp ?_
  intro a b hab
  unfold Exceed at hab ⊢
  omega

theorem Visited.settled {q q' : FairCostQueue QueuedPayload} (h : Visited t s' q q') (hwf : q'.Wf)
    (hapart : (q.entries.map QueueEntry.cost).Pairwise (Exceed t.available)) :
    Settled q' s'.available := by
  rcases h with hdone | ⟨e, rest, hperm, -, hle⟩ | ⟨budget, hstuck, hle, -⟩
  · exact settled_of_nonpos hwf hdone
  · apply settled_of_costs
    intro cost hcost
    -- the admitted request and the one that is left were apart
    have hpair := pairwise_apart hapart (hperm.symm.map QueueEntry.cost).subperm (le_refl _)
    rw [map_append, map_cons, pairwise_append] at hpair
    have hover := rel_of_pairwise_cons hpair.2.1 hcost
    unfold Exceed at hover
    omega
  · exact (settled_of_stuck hwf hstuck).mono hle

theorem Serving.lanesSettled (h : Serving env t s')
    (hapart : ∀ key, (laneCosts t key).Pairwise (Exceed t.available)) :
    LanesSettled s' := by
  obtain ⟨n, hacc⟩ := h.account
  have hresult := dispatch_result env hacc h.dispatches
  have hacc' := account_dispatch env hacc
  have hqueue : s'.queue = (t.dispatch env).queue := congrArg LoadView.queue h.load
  have hlanes : s'.virtualLanes = (t.dispatch env).virtualLanes :=
    congrArg LoadView.virtualLanes h.load
  have havailable : s'.available = (t.dispatch env).available := h.available
  intro hnil key lane hget
  rw [hlanes] at hget
  rw [hqueue] at hnil
  rcases hresult.stopped with ⟨hne, -⟩ | ⟨-, hvisited⟩
  · exact absurd hnil hne
  · obtain ⟨lane₀, hlane₀, hvisit⟩ := hvisited key lane hget
    have hcosts := hapart key
    rw [laneCosts_of_get hlane₀] at hcosts
    rw [havailable]
    exact hvisit.settled (hacc'.lanes_wf _ (mem_of_get hget)) hcosts

theorem lanesSettled_turn {event : Event} (hapart : Apart env event s)
    (hturn : Turn env s event s') (h : LanesSettled s) : LanesSettled s' := by
  cases hturn with
  | quiet hkept =>
    intro hnil key lane' hget
    obtain ⟨lane, hlane, hsame⟩ := hkept.lanes key lane' hget
    rw [hkept.queue] at hnil
    rw [hsame]
    exact (h hnil key lane hlane).mono hkept.grows.available
  | emptied _ hlanes =>
    intro _ key lane' hget
    rw [hlanes] at hget
    exact absurd hget.symm (Option.some_ne_none _)
  | served hserving hfewer hbudget _ =>
    refine hserving.lanesSettled fun key => ?_
    exact pairwise_apart (hapart key)
      ((hfewer.lanes key).trans (sublist_append_left _ _).subperm) hbudget
  | joined hserving _ hlanes hbudget _ _ _ =>
    exact hserving.lanesSettled fun key => pairwise_apart (hapart key) (hlanes key) hbudget
  | moved hserving hlanes _ _ =>
    refine hserving.lanesSettled fun key => ?_
    rw [laneCosts, hlanes]
    exact List.Pairwise.nil

theorem apart_turn {id : Nat} (hapart : ∀ other, Apart env (.expire other) s)
    (hturn : Turn env s (.expire id) s') (other : Nat) : Apart env (.expire other) s' := by
  have hkept : ∀ {t : Controller}, Fewer s t → t.available ≤ s.available →
      Apart env (.expire other) t := by
    intro t hfewer hle key
    have hcosts := hapart other key
    show (laneCosts t key ++ []).Pairwise (Exceed t.available)
    rw [append_nil]
    exact pairwise_apart hcosts ((hfewer.lanes key).trans (sublist_append_left _ _).subperm) hle
  have hnone : ∀ {t : Controller}, t.virtualLanes = [] → Apart env (.expire other) t := by
    intro t hnil key
    rw [laneCosts, hnil]
    exact List.Pairwise.nil
  cases hturn with
  | quiet hquiet => exact hkept (hquiet.lanes.fewer hquiet.queue) hquiet.grows.available
  | emptied _ hlanes => exact hnone hlanes
  | served hserving hfewer hbudget _ =>
    obtain ⟨hfewer', hle⟩ := hserving.fewer
    exact hkept (hfewer.trans hfewer') (hle.trans hbudget)
  | moved hserving hlanes _ _ =>
    refine hnone ?_
    obtain ⟨n, hacc⟩ := hserving.account
    have hresult := dispatch_result env hacc hserving.dispatches
    have hlanes' : s'.virtualLanes = _ := congrArg LoadView.virtualLanes hserving.load
    rw [hlanes']
    refine lanes_nil ?_ hlanes
    intro key lane' hget
    obtain ⟨lane, hlane, -⟩ := hresult.lanes key lane' hget
    exact ⟨lane, hlane⟩

/-! ## Direct admissions -/

theorem foldl_addSaturated_zero {lanes : JsMap JsString Lane}
    (hwf : ∀ lane ∈ lanes, lane.2.queue.Wf) {count : Int} (hcount : 0 ≤ count)
    (h : lanes.foldl (fun count lane => addSaturated count lane.2.queue.size) count = 0) :
    count = 0 ∧ ∀ lane ∈ lanes, lane.2.queue.entries = [] := by
  have hmax : (0 : Int) < maxSafeInteger := by decide
  induction lanes generalizing count with
  | nil => exact ⟨h, fun _ hlane => absurd hlane not_mem_nil⟩
  | cons lane lanes ih =>
    have hsize := FairCostQueue.size_eq (hwf lane mem_cons_self)
    have hnonneg : 0 ≤ addSaturated count lane.2.queue.size := by
      rw [hsize]
      exact addSaturated_nonneg hcount _
    obtain ⟨hzero, hrest⟩ := ih (fun l hl => hwf l (mem_cons_of_mem _ hl)) hnonneg h
    unfold addSaturated saturateSnapshotNumber at hzero
    have hboth : count = 0 ∧ lane.2.queue.size = 0 := by
      split at hzero
      · split at hzero
        · constructor <;> omega
        · split at hzero
          all_goals omega
      · split at hzero
        all_goals omega
    refine ⟨hboth.1, ?_⟩
    intro l hl
    rcases mem_cons.mp hl with rfl | hl
    · rw [hboth.2] at hsize
      exact length_eq_zero_iff.mp (Int.ofNat_eq_zero.mp hsize.symm)
    · exact hrest l hl

theorem laneCosts_of_total {n : Nat} {pending : List Nat} (h : Account n pending s)
    (hzero : s.laneTotalQueuedCount = 0) (key : JsString) : laneCosts s key = [] := by
  obtain ⟨-, hempty⟩ := foldl_addSaturated_zero h.lanes_wf (le_refl 0) hzero
  cases hget : s.virtualLanes.get key with
  | none => rw [laneCosts, hget]
  | some lane =>
    rw [laneCosts_of_get hget, hempty _ (mem_of_get hget)]
    rfl

/-- A request is admitted while another one waits in the lane of its
tenant. -/
def Barges (env : Env) (s : Controller) (request : Request) : Prop :=
  ∃ key, request.tenantKey = some key ∧ laneCosts s key ≠ [] ∧
    ∃ lease, (s.acquire env request).1 = .admitted lease

/-- A request that comes to a lane that is not empty finds the shared queue
not empty either, or does not fit. -/
def Behind (env : Env) (event : Event) (s : Controller) : Prop :=
  ∀ request key cost, event = .acquire request → request.tenantKey = some key →
    laneCosts s key ≠ [] → s.resolveCost env request = .ok cost →
    sharedCosts s ≠ [] ∨ s.available < cost

theorem not_barges (h : Sane s) {request : Request} (hbehind : Behind env (.acquire request) s) :
    ¬ Barges env s request := by
  rintro ⟨key, htenant, hlane, lease, hadmitted⟩
  obtain ⟨n, hacc⟩ := h.account
  have hmode : s.config.mode = .enforce := by
    by_contra hother
    have hparked : s.dispatches = false := by simp [dispatches, hother]
    obtain ⟨-, hnil⟩ := h.parked hparked
    rw [laneCosts, hnil] at hlane
    exact hlane rfl
  have hanswers := acquire_answers env s request
  rw [hadmitted] at hanswers
  generalize hanswer : AcquireResult.admitted lease = answer at hanswers
  cases hanswers with
  | shutdown => exact absurd hanswer (by simp)
  | aborted => exact absurd hanswer (by simp)
  | threw => exact absurd hanswer (by simp)
  | granted _ _ _ hother => exact hother hmode
  | @decided cost _ _ hresolve _ =>
    rcases enforceAnswer_admitted hanswer.symm with hsolo | ⟨hsize, hfits⟩
    · -- the solo rule finds every lane empty
      refine hlane ?_
      obtain ⟨adaptation, hnoted, -⟩ := notePressure_eq request.pressure s
      rw [hnoted] at hsolo
      unfold shouldAdmitSolo at hsolo
      simp only [Bool.and_eq_true, decide_eq_true_eq] at hsolo
      exact laneCosts_of_total hacc hsolo.1.2 key
    · rcases hbehind request key cost rfl htenant hlane hresolve with hshared | hover
      · refine hshared ?_
        rw [FairCostQueue.size_eq hacc.queue_wf] at hsize
        rw [sharedCosts, length_eq_zero_iff.mp (Int.ofNat_eq_zero.mp hsize)]
        rfl
      · unfold available at hover
        omega

/-- When the shared queue is empty and no head of a lane is reserved, no head
of a lane fits what is left of the budget. -/
def LaneConserving (s : Controller) : Prop :=
  s.queue.entries = [] →
    (∀ key lane idx e, s.virtualLanes.get key = some lane → lane.queue.headAt idx = some e →
      e.skipCount < maxUnfittableSkips) →
    ∀ key lane idx e, s.virtualLanes.get key = some lane → lane.queue.headAt idx = some e →
      ¬ (e.cost : Int) ≤ s.adaptation.currentLimit - s.activeCost

theorem LanesSettled.conserving (h : LanesSettled s) : LaneConserving s := by
  intro hnil hyoung key lane idx e hget hhead
  rcases h hnil key lane hget with ⟨idx', e', hhead', haged⟩ | hnone
  · have hskips := hyoung key lane idx' e' hget hhead'
    simp only [QueueEntry.isAged, decide_eq_true_eq] at haged
    omega
  · have hover := hnone idx e hhead
    unfold available at hover
    omega

/-- Work conservation of the lanes, and no barging, in every run whose steps
all keep the requests of a lane apart and the arrivals behind them. -/
theorem lanesConserved (env : Env) (cfg : ValidatedConfig) (events : List Event)
    (hevents : ∀ before event after, events = before ++ event :: after →
      Apart env event (run env cfg before) ∧ Behind env event (run env cfg before)) :
    LaneConserving (run env cfg events) ∧
      ∀ before request after, events = before ++ .acquire request :: after →
        ¬ Barges env (run env cfg before) request := by
  have hkeeps : ∀ events : List Event, (∀ before event after, events = before ++ event :: after →
      Apart env event (run env cfg before)) →
      Sane (run env cfg events) ∧ LanesSettled (run env cfg events) := by
    intro events hevents
    refine @run_keeps env LanesSettled (Apart env) (fun _ _ hapart hturn h =>
      lanesSettled_turn hapart hturn h) (fun hapart _ => hapart)
      (fun _ hapart hturn => apart_turn hapart hturn) cfg ?_ events hevents
    exact fun _ key lane hget => absurd hget.symm (Option.some_ne_none _)
  refine ⟨(hkeeps events fun before event after heq =>
    (hevents before event after heq).1).2.conserving, ?_⟩
  intro before request after heq
  refine not_barges (hkeeps before ?_).1 (hevents before _ after heq).2
  intro before' event after' heq'
  refine (hevents before' event (after' ++ .acquire request :: after) ?_).1
  rw [heq, heq', append_assoc]
  rfl

/-- One request waits in the lane of its tenant, and is admitted by the
release. -/
def laneRun : List Event :=
  [.acquire { cost := some (.finite 4) },
    .acquire { cost := some (.finite 3), tenantKey := some (js "a") }, .release 1 .success {}]

theorem arriving_length_le (env : Env) (s : Controller) (key : JsString) (event : Event) :
    (arriving env s key event).length ≤ 1 := by
  unfold arriving
  split
  · split
    · split
      · exact le_refl _
      · exact Nat.zero_le _
    · exact Nat.zero_le _
  · exact Nat.zero_le _

theorem pairwise_of_length_le {R : Nat → Nat → Prop} {costs : List Nat} (h : costs.length ≤ 1) :
    costs.Pairwise R := by
  match costs with
  | [] => exact List.Pairwise.nil
  | [_] => exact pairwise_singleton _ _
  | _ :: _ :: _ => simp at h

theorem lanesConserved_laneRun :
    LaneConserving (run ⟨Int.ofNat, Rounding.exact⟩ smallLanes laneRun) := by
  refine (lanesConserved ⟨Int.ofNat, Rounding.exact⟩ smallLanes laneRun ?_).1
  have hnone : ∀ s : Controller, s.virtualLanes.length = 0 → ∀ event,
      Apart ⟨Int.ofNat, Rounding.exact⟩ event s ∧ Behind ⟨Int.ofNat, Rounding.exact⟩ event s := by
    intro s hlength event
    have hnil := length_eq_zero_iff.mp hlength
    have hcosts : ∀ key, laneCosts s key = [] := by
      intro key
      rw [laneCosts, hnil]
      rfl
    constructor
    · intro key
      rw [hcosts key]
      exact pairwise_of_length_le (arriving_length_le _ s key event)
    · exact fun _ key _ _ _ hlane _ => absurd (hcosts key) hlane
  intro before event after heq
  rcases before with _ | ⟨first, _ | ⟨second, _ | ⟨third, rest⟩⟩⟩
  · exact hnone _ (by decide +kernel) event
  · obtain ⟨rfl, -⟩ := List.cons.inj heq
    exact hnone _ (by decide +kernel) event
  · obtain ⟨rfl, htail⟩ := List.cons.inj heq
    obtain ⟨rfl, hlast⟩ := List.cons.inj htail
    obtain ⟨rfl, -⟩ := List.cons.inj hlast
    constructor
    · intro key
      have hall : ((run ⟨Int.ofNat, Rounding.exact⟩ smallLanes (laneRun.take 2)).virtualLanes.all
          (fun lane => lane.2.queue.entries.length ≤ 1)) = true := by decide +kernel
      apply pairwise_of_length_le
      show (laneCosts _ key ++ []).length ≤ 1
      rw [append_nil]
      cases hget : (run ⟨Int.ofNat, Rounding.exact⟩ smallLanes (laneRun.take 2)).virtualLanes.get
          key with
      | none =>
        have hcosts : laneCosts (run ⟨Int.ofNat, Rounding.exact⟩ smallLanes (laneRun.take 2)) key =
          [] := by rw [laneCosts, hget]
        exact (congrArg List.length hcosts).trans_le (Nat.zero_le 1)
      | some lane =>
        have hle := all_eq_true.mp hall _ (mem_of_get hget)
        have hcosts := laneCosts_of_get hget
        refine (congrArg List.length hcosts).trans_le ?_
        simpa using hle
    · exact fun request _ _ hevent => absurd hevent (by simp)
  · obtain ⟨-, htail⟩ := List.cons.inj heq
    obtain ⟨-, hlast⟩ := List.cons.inj htail
    obtain ⟨-, hnil⟩ := List.cons.inj hlast
    exact absurd hnil.symm (by simp)

/-- Two requests of one tenant wait, and the release leaves room for both. -/
def crowdedRun : List Event :=
  [.acquire { cost := some (.finite 4) },
    .acquire { cost := some (.finite 1), tenantKey := some (js "a") },
    .acquire { cost := some (.finite 1), tenantKey := some (js "a") }, .release 1 .success {}]

/-- The second request keeps waiting, and a third one of the same tenant is
admitted ahead of it. -/
theorem not_conserved_crowdedRun :
    ¬ LaneConserving (run ⟨Int.ofNat, Rounding.exact⟩ smallLanes crowdedRun) ∧
      Barges ⟨Int.ofNat, Rounding.exact⟩ (run ⟨Int.ofNat, Rounding.exact⟩ smallLanes crowdedRun)
        { cost := some (.finite 1), tenantKey := some (js "a") } := by
  have hlane : ((run ⟨Int.ofNat, Rounding.exact⟩ smallLanes crowdedRun).virtualLanes.get
      (js "a")).isSome = true := by decide +kernel
  obtain ⟨lane, hget⟩ := Option.isSome_iff_exists.mp hlane
  have hall : ((run ⟨Int.ofNat, Rounding.exact⟩ smallLanes crowdedRun).virtualLanes.all
      (fun lane => lane.2.queue.buckets.all (fun bucket => bucket.2.all
        (fun e => e.skipCount < maxUnfittableSkips)))) = true := by decide +kernel
  have hhead : (((run ⟨Int.ofNat, Rounding.exact⟩ smallLanes crowdedRun).virtualLanes.get
      (js "a")).bind (fun lane => lane.queue.headAt 0)).map QueueEntry.cost = some 1 := by
    decide +kernel
  constructor
  · intro hconserving
    rw [hget] at hhead
    obtain ⟨e, he, hcost⟩ := Option.map_eq_some_iff.mp hhead
    refine hconserving (by decide +kernel) ?_ (js "a") lane 0 e hget he ?_
    · intro key lane' idx e' hget' he'
      obtain ⟨tenant, rest, -, hbucket⟩ := FairCostQueue.headAt_eq_some he'
      have hlanes := all_eq_true.mp hall _ (mem_of_get hget')
      have hbuckets := all_eq_true.mp hlanes _ (mem_of_get hbucket)
      simpa using all_eq_true.mp hbuckets e' mem_cons_self
    · rw [hcost]
      decide +kernel
  · refine ⟨js "a", rfl, ?_, 5, by decide +kernel⟩
    have hlength : (laneCosts (run ⟨Int.ofNat, Rounding.exact⟩ smallLanes crowdedRun)
        (js "a")).length = 1 := by decide +kernel
    intro hnil
    rw [hnil] at hlength
    exact absurd hlength (by decide)

end RedRouter.Admission.Controller
