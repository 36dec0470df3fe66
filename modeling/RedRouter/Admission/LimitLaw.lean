import RedRouter.Admission.Accounting
import RedRouter.Admission.ControlView

/-!
# The limit of an adaptation window

The limit goes down by a factor and up by a step, at most once for each
adaptation window.  A critical pressure lowers it at once, and the closing of
the window then leaves it alone; every other decrease and every increase
happens when the window closes.

`InWindow` is the invariant of a window: either nothing has lowered the limit
yet, or a critical pressure has and the pressure is still critical.
-/

namespace RedRouter.Admission

open List

/-! ## The closing of a window -/

/-- How often the closing of a window applies a decrease factor. -/
def closingDecreases (R : Rounding) (params : AdaptationParams) (state : AdaptationState) : Nat :=
  if state.pressure = .critical then
    if state.criticalDecreaseConsumed then 0 else 1
  else if state.pressure = .high ∨ (state.windowLatencySamples > 0 ∧
        latencyGradient R state ≥ params.latencyGradientThreshold.1) then 1
  else 0

def criticalLimit (R : Rounding) (cfg : ValidatedConfig) (limit : Nat) : Nat :=
  max cfg.minLimit.1 ⌊R.fl (limit * cfg.adaptation.criticalDecreaseFactor.1)⌋₊

theorem floor_critical_le_decrease (R : Rounding) (params : AdaptationParams) (limit : Nat) :
    ⌊R.fl (limit * params.criticalDecreaseFactor.1)⌋₊ ≤
      ⌊R.fl (limit * params.decreaseFactor.1)⌋₊ := by
  apply Nat.floor_le_floor
  apply R.mono
  exact mul_le_mul_of_nonneg_left params.critical_le (Nat.cast_nonneg _)

/-- The limit that the closing computes is at least the critical decrease, and
it only grows by one step, in a window with completions. -/
theorem adjustedLimit_bounds (R : Rounding) (params : AdaptationParams) {state : AdaptationState}
    (hlimit : state.currentLimit ≤ 2 ^ 53) :
    ⌊R.fl (state.currentLimit * params.criticalDecreaseFactor.1)⌋₊ ≤ adjustedLimit R params state ∧
      (adjustedLimit R params state ≤ state.currentLimit ∨
        adjustedLimit R params state = state.currentLimit + increase params ∧
          0 < state.windowCompleted) := by
  have hdecrease := R.floor_fl_mul_le hlimit params.decreaseFactor.2.2.le
  have hle := floor_critical_le_decrease R params state.currentLimit
  unfold adjustedLimit
  split
  · split <;> omega
  · split
    · omega
    · split
      · rename_i hgrow
        omega
      · omega

/-- The idle recovery adds at most one step, in a window without
completions. -/
theorem applyIdleRecovery_bounds (params : AdaptationParams) (state : AdaptationState)
    (next : Nat) :
    min next state.currentLimit ≤ applyIdleRecovery params state next ∧
      (applyIdleRecovery params state next = next ∨
        applyIdleRecovery params state next ≤ next + increase params ∧
          state.windowCompleted = 0) := by
  unfold applyIdleRecovery
  split
  · rename_i h
    omega
  · omega

/-- The limit after the closing of a window, whatever happened in it. -/
theorem close_bounds (R : Rounding) (cfg : ValidatedConfig) (nowMs : Int)
    {state : AdaptationState} (h : LimitBounds cfg state) :
    criticalLimit R cfg state.currentLimit ≤
        (closeAdaptationWindow R cfg nowMs state).currentLimit ∧
      (closeAdaptationWindow R cfg nowMs state).currentLimit ≤
        min cfg.maxLimit.1 (state.currentLimit + increase cfg.adaptation) := by
  have hmax := maxLimit_le cfg
  obtain ⟨hlow, hhigh⟩ := h
  have hcritical := R.floor_fl_mul_le (show state.currentLimit ≤ 2 ^ 53 by omega)
    cfg.adaptation.criticalDecreaseFactor.2.2.le
  obtain ⟨hfloor, hgrow⟩ := @adjustedLimit_bounds R cfg.adaptation
    { state with utilization := windowUtilization R cfg nowMs state } (by dsimp only; omega)
  obtain ⟨hrecover, hrecovered⟩ := applyIdleRecovery_bounds cfg.adaptation
    { state with utilization := windowUtilization R cfg nowMs state }
    (adjustedLimit R cfg.adaptation
      { state with utilization := windowUtilization R cfg nowMs state })
  unfold closeAdaptationWindow criticalLimit clampLimit
  dsimp only at hfloor hgrow hrecover hrecovered ⊢
  split <;> omega

theorem close_consumed (R : Rounding) (cfg : ValidatedConfig) (nowMs : Int)
    {state : AdaptationState} (h : LimitBounds cfg state) (hpressure : state.pressure = .critical)
    (hconsumed : state.criticalDecreaseConsumed = true) :
    (closeAdaptationWindow R cfg nowMs state).currentLimit = state.currentLimit := by
  obtain ⟨hlow, hhigh⟩ := h
  unfold closeAdaptationWindow adjustedLimit applyIdleRecovery clampLimit
  simp only [hpressure, hconsumed, if_true, ne_eq, not_true_eq_false, false_and, if_false, ite_self]
  omega

theorem closingDecreases_le (R : Rounding) (params : AdaptationParams) (state : AdaptationState) :
    closingDecreases R params state ≤ 1 := by
  unfold closingDecreases
  split <;> split <;> omega

def Event.isTick : Event → Bool
  | .tick => true
  | _ => false

namespace Controller

/-! ## Decreases in a run -/

/-- How often an event applies a decrease factor to the limit. -/
def decreases (env : Env) (s : Controller) : Event → Nat
  | .tick =>
      closingDecreases env.rounding s.config.adaptation
        ((s.sampleIntegral env).evictIdleLanes env).adaptation
  | .observePressure .critical => if s.adaptation.criticalDecreaseConsumed then 0 else 1
  | _ => 0

def windowDecreases (env : Env) : Controller → List Event → Nat
  | _, [] => 0
  | s, event :: events => decreases env s event + windowDecreases env (step env s event) events

theorem windowDecreases_append (env : Env) (s : Controller) (xs ys : List Event) :
    windowDecreases env s (xs ++ ys) =
      windowDecreases env s xs + windowDecreases env (xs.foldl (step env) s) ys := by
  induction xs generalizing s with
  | nil => simp [windowDecreases]
  | cons x xs ih =>
    rw [cons_append, windowDecreases, windowDecreases, ih, foldl_cons]
    omega

/-- A window that opened with a limit, after some decreases. -/
structure InWindow (R : Rounding) (cfg : ValidatedConfig) (limit decreased : Nat)
    (s : Controller) : Prop where
  config : s.config = cfg
  opened : cfg.minLimit.1 ≤ limit ∧ limit ≤ cfg.maxLimit.1
  bounds : LimitBounds cfg s.adaptation
  phase : (s.adaptation.criticalDecreaseConsumed = false ∧ s.adaptation.currentLimit = limit ∧
        decreased = 0) ∨
      (s.adaptation.criticalDecreaseConsumed = true ∧ s.adaptation.pressure = .critical ∧
        s.adaptation.currentLimit = criticalLimit R cfg limit ∧ decreased = 1)

variable {R : Rounding} {cfg : ValidatedConfig} {limit decreased : Nat}

variable {s : Controller}

theorem InWindow.of_view {s' : Controller} (h : InWindow R cfg limit decreased s)
    (hview : controlView s' = controlView s) : InWindow R cfg limit decreased s' := by
  have hlimit := limit_of_view hview
  have hpressure : s'.adaptation.pressure = s.adaptation.pressure :=
    congrArg ControlView.pressure hview
  have hconsumed : s'.adaptation.criticalDecreaseConsumed = s.adaptation.criticalDecreaseConsumed :=
    congrArg ControlView.criticalDecreaseConsumed hview
  refine ⟨(config_of_view hview).trans h.config, h.opened, ?_, ?_⟩
  · unfold LimitBounds
    rw [hlimit]
    exact h.bounds
  · rw [hlimit, hpressure, hconsumed]
    exact h.phase

theorem inWindow_notePressure (h : InWindow R cfg limit decreased s) (pressure : Option Pressure) :
    InWindow R cfg limit decreased (s.notePressure pressure) := by
  cases pressure with
  | none => exact h
  | some pressure =>
    unfold notePressure setPressure
    dsimp only
    split
    · rename_i hrises
      refine ⟨h.config, h.opened, h.bounds, ?_⟩
      rcases h.phase with hbefore | ⟨hconsumed, hpressure, hlimit, hone⟩
      · exact Or.inl hbefore
      · rw [hpressure] at hrises
        cases pressure <;> simp [Pressure.severity] at hrises
    · exact h

variable {env : Env}

theorem inWindow_criticalDecrease (h : InWindow env.rounding cfg limit decreased s)
    (hpressure : s.adaptation.pressure = .critical)
    (hconsumed : s.adaptation.criticalDecreaseConsumed = false) :
    InWindow env.rounding cfg limit (decreased + 1)
      { s with adaptation := criticalDecrease env.rounding s.config s.adaptation } := by
  obtain ⟨hlimit, hzero⟩ : s.adaptation.currentLimit = limit ∧ decreased = 0 := by
    rcases h.phase with ⟨-, hlimit, hzero⟩ | ⟨hused, -⟩
    · exact ⟨hlimit, hzero⟩
    · rw [hconsumed] at hused
      exact absurd hused Bool.false_ne_true
  refine ⟨h.config, h.opened, ?_, Or.inr ⟨rfl, hpressure, ?_, by omega⟩⟩
  · rw [h.config]
    exact limitBounds_criticalDecrease env.rounding cfg h.bounds
  · unfold criticalDecrease criticalLimit
    rw [h.config, hlimit]

theorem inWindow_observePressure (h : InWindow env.rounding cfg limit decreased s)
    (pressure : Pressure) :
    InWindow env.rounding cfg limit (decreased + decreases env s (.observePressure pressure))
      (s.observePressure env pressure) := by
  have hnoted := inWindow_notePressure h (some pressure)
  have hconsumed : (setPressure pressure s.adaptation).criticalDecreaseConsumed =
      s.adaptation.criticalDecreaseConsumed := by
    unfold setPressure
    split <;> rfl
  unfold observePressure
  dsimp only
  split
  · rename_i hcritical
    obtain ⟨rfl, hfree⟩ := hcritical
    have hpressure : (setPressure .critical s.adaptation).pressure = .critical := by
      unfold setPressure
      split
      · rfl
      · rename_i hrises
        cases hp : s.adaptation.pressure with
        | critical => rfl
        | normal => simp [hp, Pressure.severity] at hrises
        | high => simp [hp, Pressure.severity] at hrises
    have hone : decreases env s (.observePressure .critical) = 1 := by
      rw [decreases, if_neg (by rw [← hconsumed, hfree]; exact Bool.false_ne_true)]
    rw [hone]
    refine (inWindow_criticalDecrease hnoted hpressure hfree).of_view ?_
    rw [controlView_dispatchVirtual, controlView_dispatch]
    rfl
  · rename_i hnot
    have hzero : decreases env s (.observePressure pressure) = 0 := by
      cases pressure with
      | critical =>
        have hused : s.adaptation.criticalDecreaseConsumed = true := by
          rw [hconsumed] at hnot
          simpa using hnot
        rw [decreases, if_pos hused]
      | normal => rfl
      | high => rfl
    rw [hzero]
    exact hnoted

theorem inWindow_shutdown (h : InWindow R cfg limit decreased s) :
    InWindow R cfg limit decreased s.shutdown := by
  unfold shutdown
  split
  · exact h
  · have hshut : InWindow R cfg limit decreased { s with shutDown := true } :=
      { h with }
    refine hshut.of_view ?_
    exact controlView_foldl
      (fun s entry => controlView_failQueued entry .shutdown "admission controller shut down" s)
      s.drained _

section

variable (h : InWindow env.rounding cfg limit decreased s)
include h

theorem inWindow_step {event : Event}
    (hconfig : Event.keepsConfig event = true) (htick : event.isTick = false) :
    InWindow env.rounding cfg limit (decreased + decreases env s event) (step env s event) := by
  cases event with
  | acquire request =>
    exact (inWindow_notePressure h _).of_view (controlView_acquire env request s)
  | release lease outcome info =>
    exact (inWindow_notePressure h _).of_view (controlView_release env lease outcome info s)
  | tick => exact absurd htick (by simp [Event.isTick])
  | observePressure pressure => exact inWindow_observePressure h pressure
  | updateConfig config => exact absurd hconfig (by simp [Event.keepsConfig])
  | expire id => exact h.of_view (controlView_expireEntry env id _ _ s)
  | abort signal => exact h.of_view (controlView_abort env signal s)
  | evictIdleLanes => exact h.of_view (controlView_evictIdleLanes env s)
  | shutdown => exact inWindow_shutdown h
  | idTaken => exact h.of_view rfl

theorem inWindow_foldl {events : List Event}
    (hevents : ∀ event ∈ events, Event.keepsConfig event = true ∧ event.isTick = false) :
    InWindow env.rounding cfg limit (decreased + windowDecreases env s events)
      (events.foldl (step env) s) := by
  induction events generalizing s decreased with
  | nil => exact h
  | cons event events ih =>
    obtain ⟨hconfig, htick⟩ := hevents event mem_cons_self
    have hrest := ih (inWindow_step h hconfig htick) (fun e he => hevents e (mem_cons_of_mem _ he))
    rw [windowDecreases, ← Nat.add_assoc]
    exact hrest

theorem tick_bounds :
    criticalLimit env.rounding cfg limit ≤ (s.tick env).adaptation.currentLimit ∧
      (s.tick env).adaptation.currentLimit ≤ min cfg.maxLimit.1 (limit + increase cfg.adaptation) ∧
      decreased + decreases env s .tick ≤ 1 := by
  have hview : controlView ((s.sampleIntegral env).evictIdleLanes env) = controlView s := by
    rw [controlView_evictIdleLanes, controlView_sampleIntegral]
  have hin := h.of_view hview
  have hlimit : (s.tick env).adaptation.currentLimit = (closeAdaptationWindow env.rounding cfg
        (((s.sampleIntegral env).evictIdleLanes env).now env)
        ((s.sampleIntegral env).evictIdleLanes env).adaptation).currentLimit := by
    unfold tick
    rw [limit_of_view (controlView_dispatchVirtual _), limit_of_view (controlView_dispatch env _)]
    show (closeAdaptationWindow env.rounding ((s.sampleIntegral env).evictIdleLanes env).config
      _ _).currentLimit = _
    rw [hin.config]
    rfl
  rw [hlimit, decreases]
  rcases hin.phase with ⟨-, hopen, rfl⟩ | ⟨hconsumed, hpressure, hdown, rfl⟩
  · obtain ⟨hlow, hhigh⟩ := close_bounds env.rounding cfg
      (((s.sampleIntegral env).evictIdleLanes env).now env) hin.bounds
    have hone := closingDecreases_le env.rounding s.config.adaptation
      ((s.sampleIntegral env).evictIdleLanes env).adaptation
    rw [hopen] at hlow hhigh
    exact ⟨hlow, hhigh, by omega⟩
  · have hzero : closingDecreases env.rounding s.config.adaptation
        ((s.sampleIntegral env).evictIdleLanes env).adaptation = 0 := by
      rw [closingDecreases, if_pos hpressure, if_pos hconsumed]
    rw [close_consumed env.rounding cfg _ hin.bounds hpressure hconsumed, hdown, hzero]
    have hmax := maxLimit_le cfg
    obtain ⟨hlow, hhigh⟩ := hin.opened
    have hfloor := env.rounding.floor_fl_mul_le (show limit ≤ 2 ^ 53 by omega)
      cfg.adaptation.criticalDecreaseFactor.2.2.le
    refine ⟨le_refl _, ?_, by omega⟩
    unfold criticalLimit
    omega

end

/-- A window opens with the creation of the controller and with every
`tick`. -/
theorem inWindow_create (env : Env) (cfg : ValidatedConfig) :
    InWindow env.rounding cfg (create env cfg).adaptation.currentLimit 0 (create env cfg) :=
  ⟨rfl, limitBounds_create cfg _, limitBounds_create cfg _, Or.inl ⟨rfl, rfl, rfl⟩⟩

theorem inWindow_tick (hconfig : s.config = cfg) :
    InWindow env.rounding cfg (s.tick env).adaptation.currentLimit 0 (s.tick env) := by
  have hview : (((s.sampleIntegral env).evictIdleLanes env)).config = cfg := by
    rw [config_of_view (controlView_evictIdleLanes env _),
      config_of_view (controlView_sampleIntegral env s)]
    exact hconfig
  generalize hbefore : (s.sampleIntegral env).evictIdleLanes env = t at hview
  have htick : controlView (s.tick env) = controlView
      { t.readClock with
        adaptation := closeAdaptationWindow env.rounding t.config (t.now env) t.adaptation } := by
    unfold tick
    rw [controlView_dispatchVirtual, controlView_dispatch, hbefore]
    rfl
  have hbounds := limitBounds_close env.rounding cfg (t.now env) t.adaptation
  rw [limit_of_view htick]
  rw [← hview] at hbounds ⊢
  refine InWindow.of_view ?_ htick
  exact ⟨rfl, hbounds, hbounds, Or.inl ⟨rfl, rfl, rfl⟩⟩

/-- Every state of a run with a fixed configuration is inside a window. -/
theorem exists_inWindow {env : Env} {events : List Event}
    (hevents : ∀ event ∈ events, Event.keepsConfig event = true) :
    ∃ limit decreased, InWindow env.rounding cfg limit decreased (run env cfg events) := by
  induction events using List.reverseRecOn with
  | nil => exact ⟨_, 0, inWindow_create env cfg⟩
  | append_singleton events event ih =>
    obtain ⟨limit, decreased, hin⟩ :=
      ih (fun e he => hevents e (mem_append_left _ he))
    have hlast := hevents event (mem_append_right _ (mem_singleton_self event))
    rw [run_concat]
    by_cases htick : event.isTick = true
    · cases event with
      | tick =>
        exact ⟨_, 0, inWindow_tick hin.config⟩
      | _ => exact absurd htick (by simp [Event.isTick])
    · exact ⟨limit, _, inWindow_step hin hlast (by simpa using htick)⟩

theorem inWindow_opened {env : Env} {before : List Event}
    (hopen : before = [] ∨ ∃ events, before = events ++ [.tick])
    (hbefore : ∀ event ∈ before, Event.keepsConfig event = true) :
    InWindow env.rounding cfg (run env cfg before).adaptation.currentLimit 0
      (run env cfg before) := by
  rcases hopen with rfl | ⟨events, rfl⟩
  · exact inWindow_create env cfg
  · obtain ⟨limit, decreased, hin⟩ := @exists_inWindow cfg env events
      (fun e he => hbefore e (mem_append_left _ he))
    rw [run_concat, step_tick]
    exact inWindow_tick hin.config

/-- In every run with a fixed configuration the limit stays between its
bounds, and a window that opens with a limit closes at no less than the
critical decrease of that limit and no more than one step above it; the limit
is decreased by a factor at most once in the window. -/
theorem limitLaw (clock : Nat → Int) (cfg : ValidatedConfig) (before window : List Event)
    (hopen : before = [] ∨ ∃ events, before = events ++ [.tick])
    (hbefore : ∀ event ∈ before, Event.keepsConfig event = true)
    (hwindow : ∀ event ∈ window, Event.keepsConfig event = true ∧ event.isTick = false) :
    let env : Env := ⟨clock, Rounding.exact⟩
    let limit := (run env cfg before).adaptation.currentLimit
    let closed := (run env cfg (before ++ window ++ [.tick])).adaptation.currentLimit
    LimitBounds cfg (run env cfg (before ++ window)).adaptation ∧
      max cfg.minLimit.1 ⌊(limit : ℚ) * cfg.adaptation.criticalDecreaseFactor.1⌋₊ ≤ closed ∧
      closed ≤ min cfg.maxLimit.1 (limit + min cfg.adaptation.increaseStep.1
        cfg.adaptation.maxIncreasePerWindow.1) ∧
      windowDecreases env (run env cfg before) (window ++ [.tick]) ≤ 1 := by
  intro env limit closed
  have hin := inWindow_foldl (@inWindow_opened cfg env before hopen hbefore) hwindow
  have hrun : run env cfg (before ++ window) = window.foldl (step env) (run env cfg before) := by
    rw [run, foldl_append]
    rfl
  have hclosed : closed = ((run env cfg (before ++ window)).tick env).adaptation.currentLimit := by
    show (run env cfg (before ++ window ++ [.tick])).adaptation.currentLimit = _
    rw [run_concat, step_tick]
  rw [← hrun] at hin
  obtain ⟨hlow, hhigh, hdecreases⟩ := tick_bounds hin
  rw [windowDecreases_append, ← hrun, hclosed]
  refine ⟨hin.bounds, hlow, hhigh, ?_⟩
  rw [windowDecreases, windowDecreases]
  omega

/-- A window with two critical observations, after one that closed. -/
def criticalWindow : List Event :=
  [.observePressure .high, .acquire { cost := some (.finite 3) }, .observePressure .critical,
    .release 1 .success {}, .observePressure .critical]

theorem limitLaw_criticalWindow : (run ⟨Int.ofNat, Rounding.exact⟩ smallConfig
        ([.tick] ++ criticalWindow ++ [.tick])).adaptation.currentLimit = 2 ∧
      windowDecreases ⟨Int.ofNat, Rounding.exact⟩
        (run ⟨Int.ofNat, Rounding.exact⟩ smallConfig [.tick]) (criticalWindow ++ [.tick]) ≤ 1 := by
  refine ⟨by decide +kernel, ?_⟩
  exact (limitLaw Int.ofNat smallConfig [.tick] criticalWindow (Or.inr ⟨[], rfl⟩)
    (by simp [Event.keepsConfig]) (by simp [criticalWindow, Event.keepsConfig, Event.isTick])).2.2.2

end Controller

end RedRouter.Admission
