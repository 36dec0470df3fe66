import RedRouter.Admission.Turns

/-!
# Idle progress

An idle controller should not keep a request waiting.  The direct path of
`acquire` sees to that: a request above the current limit is admitted solo
when nothing is active and nothing waits.  `dispatch` has no such rule.  A
request that was queued under a higher limit stays in its queue when the last
active lease is released after the limit has fallen below its cost.

`idleProgress` says that there is no other way: in a run where the last active
lease is only released while every waiting request costs at most the current
limit, nothing waits at an idle controller.
-/

namespace RedRouter.Admission.Controller

open List

variable {env : Env} {s t s' : Controller}

def IdleEmpty (s : Controller) : Prop := s.active = [] → ∀ cost, ¬ Waits s cost

/-- The last active lease is only released while every waiting request costs
at most the limit. -/
def WithinLimit (event : Event) (s : Controller) : Prop :=
  ∀ lease outcome info, event = .release lease outcome info → s.active = [lease] →
    ∀ cost, Waits s cost → cost ≤ s.adaptation.currentLimit

theorem entries_nil_of_stuck {q : FairCostQueue QueuedPayload} (hwf : q.Wf) {budget : Int}
    (hpos : 0 < budget) (hfits : ∀ e ∈ q.entries, (e.cost : Int) ≤ budget) (h : Stuck q budget) :
    q.entries = [] := by
  rcases h with hnonpos | hnone
  · omega
  · by_contra hne
    refine FairCostQueue.dequeue_ne_none hwf hne ?_ hnone
    intro e he
    have hle := hfits e he
    omega

/-- An idle dispatch of requests within the limit leaves none of them. -/
theorem Serving.idleEmpty (h : Serving env t s') (hsane : Sane s')
    (hwithin : ∀ cost, Waits t cost → cost ≤ t.adaptation.currentLimit) : IdleEmpty s' := by
  intro hidle
  obtain ⟨n, hacc⟩ := h.account
  have hresult := dispatch_result env hacc h.dispatches
  have hacc' := account_dispatch env hacc
  have hqueue : s'.queue = (t.dispatch env).queue := congrArg LoadView.queue h.load
  have hlanes : s'.virtualLanes = (t.dispatch env).virtualLanes :=
    congrArg LoadView.virtualLanes h.load
  have hactive : (t.dispatch env).active = [] :=
    (congrArg LoadView.active h.load).symm.trans hidle
  have hlimit : s'.adaptation.currentLimit = t.adaptation.currentLimit := limit_of_view h.control
  -- nothing is charged, so the whole limit is available
  have havailable : (t.dispatch env).available = t.adaptation.currentLimit := by
    have hzero := hsane.books.recorded.activeCost_eq_zero hidle
    rw [← h.available, Controller.available, hzero, hlimit]
    omega
  have hpos : 0 < (t.dispatch env).available := by
    have := hsane.books.limit_pos
    omega
  have hfits : ∀ cost, Waits (t.dispatch env) cost → (cost : Int) ≤ (t.dispatch env).available := by
    intro cost hcost
    have := hwithin cost (hresult.fewer.waits hcost)
    omega
  have hshared : (t.dispatch env).queue.entries = [] := by
    rcases hresult.stopped with ⟨-, hstuck⟩ | ⟨hnil, -⟩
    · refine entries_nil_of_stuck hacc'.queue_wf hpos ?_ hstuck
      exact fun e he => hfits e.cost (Or.inl (mem_map_of_mem he))
    · exact hnil
  have hlane : ∀ key lane, (t.dispatch env).virtualLanes.get key = some lane →
      lane.queue.entries = [] := by
    intro key lane hget
    rcases hresult.stopped with ⟨hne, -⟩ | ⟨-, hvisited⟩
    · exact absurd hshared hne
    · obtain ⟨lane₀, -, hvisit⟩ := hvisited key lane hget
      rcases hvisit with hdone | ⟨e, rest, -, hbusy, -⟩ | ⟨budget, hstuck, -, hbudget⟩
      · omega
      · exact absurd hactive hbusy
      · rw [← hbudget hactive] at hstuck
        refine entries_nil_of_stuck (hacc'.lanes_wf _ (JsMap.mem_of_get hget)) hpos ?_ hstuck
        intro e he
        refine hfits e.cost (Or.inr ⟨key, ?_⟩)
        rw [laneCosts_of_get hget]
        exact mem_map_of_mem he
  intro cost hwaits
  rcases hwaits with hcost | ⟨key, hcost⟩
  · rw [sharedCosts, hqueue, hshared] at hcost
    exact absurd hcost not_mem_nil
  · unfold laneCosts at hcost
    rw [hlanes] at hcost
    split at hcost
    · rename_i lane hget
      rw [hlane key lane hget] at hcost
      exact absurd hcost not_mem_nil
    · exact absurd hcost not_mem_nil

theorem Serving.idleEmpty_of_none (h : Serving env t s') (hnone : ∀ cost, ¬ Waits t cost) :
    IdleEmpty s' :=
  fun _ cost hcost => hnone cost (h.fewer.1.waits hcost)

theorem idleEmpty_turn {event : Event} (hs : Sane s) (hs' : Sane s')
    (hwithin : WithinLimit event s) (hturn : Turn env s event s') (h : IdleEmpty s) :
    IdleEmpty s' := by
  cases hturn with
  | quiet hkept =>
    intro hidle cost hcost
    exact h (hkept.grows.idle hidle).1 cost ((hkept.lanes.fewer hkept.queue).waits hcost)
  | emptied hqueue hlanes => exact fun _ => not_waits_of_empty hqueue hlanes
  | @served _ _ t hserving hfewer _ hidle =>
    intro hidle'
    have hactive : t.active = [] := hserving.idle hidle'
    rcases hidle hactive with hnil | ⟨hlimit, lease, outcome, info, hevent, hlast⟩
    · exact hserving.idleEmpty_of_none (fun cost hcost => h hnil cost (hfewer.waits hcost)) hidle'
    · refine hserving.idleEmpty hs' ?_ hidle'
      intro cost hcost
      rw [hlimit]
      exact hwithin lease outcome info hevent hlast cost (hfewer.waits hcost)
  | @joined _ _ _ cost hserving _ _ _ hidle hfits hwaits =>
    intro hidle'
    have hnil : s.active = [] := hidle (hserving.idle hidle')
    -- an idle controller has admitted the request right away
    rcases hwaits with hshared | hover
    · obtain ⟨other, hother⟩ := exists_mem_of_ne_nil _ hshared
      exact absurd (Or.inl hother) (h hnil other)
    · have hzero := hs.books.recorded.activeCost_eq_zero hnil
      unfold available at hover
      omega
  | moved hserving _ hwaits hidle =>
    intro hidle'
    have hnil := hidle (hserving.idle hidle')
    exact hserving.idleEmpty_of_none (fun cost hcost => h hnil cost (hwaits cost hcost)) hidle'

/-- At an idle controller under normal pressure no request waits whose cost is
within the maximal limit. -/
def IdleProgress (s : Controller) : Prop :=
  s.dispatches = true → s.active = [] → s.adaptation.pressure = .normal →
    (∀ e ∈ s.queue.entries, ¬ e.cost ≤ s.config.maxLimit.1) ∧
      ∀ key lane, s.virtualLanes.get key = some lane →
        ∀ e ∈ lane.queue.entries, ¬ e.cost ≤ s.config.maxLimit.1

/-- Idle progress in every run whose releases of the last active lease all
find the waiting requests within the limit. -/
theorem idleProgress (env : Env) (cfg : ValidatedConfig) (events : List Event)
    (hevents : ∀ before event after, events = before ++ event :: after →
      WithinLimit event (run env cfg before)) : IdleProgress (run env cfg events) := by
  have hcreate : IdleEmpty (create env cfg) := fun _ => not_waits_of_empty rfl rfl
  have hempty : IdleEmpty (run env cfg events) :=
    (@run_keeps env IdleEmpty WithinLimit
      (fun hs hs' hwithin hturn h => idleEmpty_turn hs hs' hwithin hturn h)
      (fun _ _ _ _ _ hevent => absurd hevent (by simp))
      (fun _ _ _ _ _ _ _ hevent => absurd hevent (by simp)) cfg hcreate events hevents).2
  intro _ hidle _
  refine ⟨?_, ?_⟩
  · intro e he
    exact absurd (Or.inl (mem_map_of_mem he)) (hempty hidle e.cost)
  · intro key lane hget e he
    refine absurd (Or.inr ⟨key, ?_⟩) (hempty hidle e.cost)
    rw [laneCosts_of_get hget]
    exact mem_map_of_mem he

/-- The second request waits, and is admitted by the release. -/
def idleRun : List Event :=
  [.acquire { cost := some (.finite 3) }, .acquire { cost := some (.finite 2) },
    .release 1 .success {}]

theorem idleProgress_idleRun :
    IdleProgress (run ⟨Int.ofNat, Rounding.exact⟩ smallConfig idleRun) := by
  refine idleProgress ⟨Int.ofNat, Rounding.exact⟩ smallConfig idleRun ?_
  intro before event after heq lease outcome info hevent _ cost hcost
  match before with
  | [] =>
    obtain ⟨rfl, -⟩ := List.cons.inj heq
    exact absurd hevent (by simp)
  | [_] =>
    obtain ⟨-, htail⟩ := List.cons.inj heq
    obtain ⟨rfl, -⟩ := List.cons.inj htail
    exact absurd hevent (by simp)
  | [first, second] =>
    obtain ⟨rfl, htail⟩ := List.cons.inj heq
    obtain ⟨rfl, -⟩ := List.cons.inj htail
    have hlimit : (run ⟨Int.ofNat, Rounding.exact⟩ smallConfig
        (idleRun.take 2)).adaptation.currentLimit = 4 := by decide +kernel
    have hshared : sharedCosts (run ⟨Int.ofNat, Rounding.exact⟩ smallConfig (idleRun.take 2)) =
        [2] := by decide +kernel
    have hlanes : (run ⟨Int.ofNat, Rounding.exact⟩ smallConfig
        (idleRun.take 2)).virtualLanes.length = 0 := by decide +kernel
    refine le_trans ?_ hlimit.ge
    rcases hcost with hcost | ⟨key, hcost⟩
    · have hmem := hshared ▸ hcost
      rw [mem_singleton.mp hmem]
      decide
    · have hnone : laneCosts (run ⟨Int.ofNat, Rounding.exact⟩ smallConfig (idleRun.take 2)) key =
          [] := by rw [laneCosts, length_eq_zero_iff.mp hlanes]; rfl
      exact absurd (hnone ▸ hcost) not_mem_nil
  | _ :: _ :: _ :: _ =>
    obtain ⟨-, htail⟩ := List.cons.inj heq
    obtain ⟨-, hlast⟩ := List.cons.inj htail
    obtain ⟨-, hnil⟩ := List.cons.inj hlast
    exact absurd hnil.symm (by simp)

/-- The limit for two requests of the maximal cost. -/
def wideConfig : ValidatedConfig := { smallConfig with initialLimit := smallConfig.maxLimit }

/-- The second request is queued under a limit of 10.  When the first one is
released, the limit has fallen to 5. -/
def fallenRun : List Event :=
  [.acquire { cost := some (.finite 10) }, .acquire { cost := some (.finite 10) },
    .observePressure .critical, .tick, .release 1 .success {}]

theorem not_idleProgress_fallenRun :
    ¬ IdleProgress (run ⟨Int.ofNat, Rounding.exact⟩ wideConfig fallenRun) := by
  have hlength : (run ⟨Int.ofNat, Rounding.exact⟩ wideConfig fallenRun).queue.entries.length = 1 := by
    decide +kernel
  have hall : (run ⟨Int.ofNat, Rounding.exact⟩ wideConfig fallenRun).queue.entries.all
      (fun e => e.cost ≤ (run ⟨Int.ofNat, Rounding.exact⟩ wideConfig fallenRun).config.maxLimit.1) =
        true := by decide +kernel
  intro h
  obtain ⟨hshared, -⟩ := h (by decide +kernel) (by decide +kernel) (by decide +kernel)
  obtain ⟨e, he⟩ := exists_mem_of_length_pos (Nat.lt_of_lt_of_eq Nat.zero_lt_one hlength.symm)
  exact hshared e he (by simpa using all_eq_true.mp hall e he)

end RedRouter.Admission.Controller
