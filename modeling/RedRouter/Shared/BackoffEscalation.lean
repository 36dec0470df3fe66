import RedRouter.Shared.Recovery

/-!
# The backoff of a breaker that does not recover

A half-open breaker that fails is open again, and one more open cycle is
counted. From a number of cycles on the reset timeout doubles with each, up to
a multiple of it.

The threshold of a failure kind opens the circuit from the half-open state as
well, and no cycle is counted then.  `Escalating` is the condition on an event
that excludes it, and `escalates_iff` says that nothing else goes wrong.
-/

namespace RedRouter.Shared

open List

namespace CircuitBreaker

variable {opts : BreakerOptions} {now : Int} {b : CircuitBreaker}

/-- `later < earlier`, which is false for no number. -/
def Shorter (later earlier : Option Int) : Prop :=
  ∃ x y, later = some x ∧ earlier = some y ∧ x < y

/-- The open cycles go from `n` to `n'`.  A multiple of zero times would be
reached at the first escalation. -/
def Climbs (opts : BreakerOptions) (n n' : Nat) : Prop :=
  n ≤ n' ∧ (n ≤ opts.backoffEscalationCount → opts.backoffEscalationCount < n' →
    0 < opts.maxBackoffMultiplier ∨ opts.resetTimeout = 0)

theorem climbs_refl (opts : BreakerOptions) (n : Nat) : Climbs opts n n := by
  refine ⟨le_rfl, ?_⟩
  intro hle hlt
  omega

theorem Climbs.trans {n m k : Nat} (h : Climbs opts n m) (h' : Climbs opts m k) :
    Climbs opts n k := by
  refine ⟨h.1.trans h'.1, ?_⟩
  intro hle hlt
  by_cases hm : m ≤ opts.backoffEscalationCount
  · exact h'.2 hm hlt
  · exact h.2 hle (by omega)

theorem pow2_mono {n m f g : Nat} (h : n ≤ m) (hf : pow2 n = some f) (hg : pow2 m = some g) :
    f ≤ g := by
  unfold pow2 at hf hg
  split at hf
  · split at hg
    · cases hf
      cases hg
      exact Nat.pow_le_pow_right (by omega) h
    · cases hg
  · cases hf

theorem escalated_cases {t : Nat} {x : Int} (h : b.escalated opts t = some x) :
    (b.openCycleCount ≤ opts.backoffEscalationCount ∧ x = t) ∨
      (opts.backoffEscalationCount < b.openCycleCount ∧
        ((∃ factor, pow2 (b.openCycleCount - opts.backoffEscalationCount) = some factor ∧
            x = (min (t * factor) (t * opts.maxBackoffMultiplier) : Nat)) ∨
          (pow2 (b.openCycleCount - opts.backoffEscalationCount) = none ∧
            x = (t * opts.maxBackoffMultiplier : Nat)))) := by
  unfold escalated at h
  split at h
  · rename_i hle
    cases h
    exact .inl ⟨hle, rfl⟩
  · refine .inr ⟨by omega, ?_⟩
    split at h
    · rename_i factor hfactor
      cases h
      exact .inl ⟨factor, hfactor, rfl⟩
    · rename_i hinfinite
      split at h
      · cases h
      · cases h
        exact .inr ⟨hinfinite, rfl⟩

theorem pow2_none_mono {n m : Nat} (h : n ≤ m) (hnone : pow2 n = none) : pow2 m = none := by
  unfold pow2 at hnone ⊢
  split at hnone
  · cases hnone
  · rw [if_neg (by omega)]

theorem one_le_of_pow2 {n f : Nat} (h : pow2 n = some f) : 1 ≤ f := by
  unfold pow2 at h
  split at h
  · cases h
    exact Nat.one_le_two_pow
  · cases h

theorem not_shorter_of_climbs {b' : CircuitBreaker}
    (h : Climbs opts b.openCycleCount b'.openCycleCount) :
    ¬ Shorter (b'.effectiveResetTimeout opts) (b.effectiveResetTimeout opts) := by
  rintro ⟨x, y, hx, hy, hlt⟩
  obtain ⟨hle, hcross⟩ := h
  obtain ⟨hlow', rfl⟩ | ⟨hhigh', hx'⟩ := escalated_cases hx
  · obtain ⟨-, rfl⟩ | ⟨hhigh, -⟩ := escalated_cases hy
    all_goals omega
  · obtain ⟨hlow, rfl⟩ | ⟨hhigh, hy'⟩ := escalated_cases hy
    · have hmultiple : opts.resetTimeout ≤ opts.resetTimeout * opts.maxBackoffMultiplier := by
        obtain hpos | hzero := hcross hlow hhigh'
        · exact Nat.le_mul_of_pos_right _ hpos
        · omega
      obtain ⟨factor, hfactor, rfl⟩ | ⟨-, rfl⟩ := hx'
      · have hdouble : opts.resetTimeout ≤ opts.resetTimeout * factor :=
          Nat.le_mul_of_pos_right _ (one_le_of_pow2 hfactor)
        omega
      · omega
    · obtain ⟨factor', hfactor', rfl⟩ | ⟨hnone', rfl⟩ := hx'
      · obtain ⟨factor, hfactor, rfl⟩ | ⟨hnone, -⟩ := hy'
        · have hgrown : opts.resetTimeout * factor ≤ opts.resetTimeout * factor' :=
            Nat.mul_le_mul_left _ (pow2_mono (by omega) hfactor hfactor')
          omega
        · have hinfinite := pow2_none_mono (m := b'.openCycleCount - opts.backoffEscalationCount)
            (by omega) hnone
          rw [hinfinite] at hfactor'
          cases hfactor'
      · obtain ⟨factor, -, rfl⟩ | ⟨-, rfl⟩ := hy'
        all_goals omega

/-- A failure of a half-open breaker opens it, and counts a cycle unless the
threshold of its kind is reached. -/
theorem onFailure_halfOpen (kind : Option FailureKind) (h : b.state = .halfOpen) :
    (b.onFailure opts now kind).state = .opened ∧ (TripsKind opts now kind b →
        (b.onFailure opts now kind).openCycleCount = b.openCycleCount) ∧
      (¬ TripsKind opts now kind b →
        (b.onFailure opts now kind).openCycleCount = b.openCycleCount + 1) := by
  have hstate : (b.countFailure now kind).state = .halfOpen := by
    rw [← h]
    cases kind <;> rfl
  have hcycles : (b.countFailure now kind).openCycleCount = b.openCycleCount := by
    cases kind <;> rfl
  unfold TripsKind onFailure
  rw [← hcycles]
  generalize b.countFailure now kind = c at hstate
  by_cases htrips : c.kindTrips opts kind = true
  · rw [if_pos htrips]
    exact ⟨rfl, fun _ => rfl, fun hnot => absurd htrips hnot⟩
  · rw [if_neg htrips]
    simp only [failureTransition, hstate]
    exact ⟨rfl, fun htrips' => absurd htrips' htrips, fun _ => rfl⟩

theorem onFailure_openCycleCount (kind : Option FailureKind) (h : b.state ≠ .halfOpen) :
    (b.onFailure opts now kind).openCycleCount = b.openCycleCount := by
  have hstate : (b.countFailure now kind).state = b.state := by cases kind <;> rfl
  have hcycles : (b.countFailure now kind).openCycleCount = b.openCycleCount := by
    cases kind <;> rfl
  rw [← hstate] at h
  unfold onFailure
  rw [← hcycles]
  generalize b.countFailure now kind = c at h
  dsimp only
  split
  · rfl
  · unfold failureTransition
    split
    · rfl
    · rename_i hhalfOpen
      exact absurd hhalfOpen h
    · split <;> rfl
    · split
      · rfl
      · split <;> rfl

theorem refreshOpenState_cycles (opts : BreakerOptions) (now : Int) (b : CircuitBreaker) :
    (b.refreshOpenState opts now).openCycleCount = b.openCycleCount ∧
      (b.state = .closed → (b.refreshOpenState opts now).state = .closed) ∧
      (b.state = .halfOpen → (b.refreshOpenState opts now).state = .halfOpen) := by
  unfold refreshOpenState
  split
  · rename_i hopened
    refine ⟨rfl, ?_, ?_⟩ <;> simp [hopened.1]
  · split <;> exact ⟨rfl, id, id⟩

theorem onSuccess_cycles (opts : BreakerOptions) (now : Int) (b : CircuitBreaker) :
    (b.onSuccess opts now).state = .closed ∨
      ((b.onSuccess opts now).openCycleCount = b.openCycleCount ∧ b.state = .degraded) := by
  unfold onSuccess
  dsimp only
  split
  · exact .inl rfl
  · exact .inl rfl
  · rename_i hclosed
    exact .inl hclosed
  · rename_i hdegraded
    split
    · exact .inl rfl
    · exact .inr ⟨rfl, hdegraded⟩

end CircuitBreaker

namespace System

open CircuitBreaker

variable {opts : BreakerOptions}

/-- The event opens the breaker again that was half-open. -/
def FailsRecovery (opts : BreakerOptions) (w : System) (event : BreakerEvent) : Prop :=
  w.breaker.state = .halfOpen ∧ (step opts w event).breaker.state = .opened

/-- A failure that a half-open breaker accounts does not reach the threshold of
its kind, and the first escalation does not multiply the timeout by zero. -/
def Escalating (opts : BreakerOptions) (w : System) (event : BreakerEvent) : Prop :=
  w.breaker.state = .halfOpen → ∀ kind, w.failureOf event = some kind →
    ¬ TripsKind opts w.now kind w.breaker ∧
      (w.breaker.openCycleCount = opts.backoffEscalationCount →
        0 < opts.maxBackoffMultiplier ∨ opts.resetTimeout = 0)

/-- Every failed recovery counts one cycle, and the reset timeout does not
shrink between two states without a close. -/
structure Escalates (opts : BreakerOptions) (saved : Option SavedBreaker) (now : Int)
    (events : List BreakerEvent) : Prop where
  counted : ∀ before event, before ++ [event] <+: events →
    FailsRecovery opts (run opts saved now before) event →
      (run opts saved now (before ++ [event])).breaker.openCycleCount =
        (run opts saved now before).breaker.openCycleCount + 1
  lengthened : ∀ before later, before ++ later <+: events →
    (∀ part, part <+: later → (run opts saved now (before ++ part)).breaker.state ≠ .closed) →
      ¬ Shorter ((run opts saved now (before ++ later)).breaker.effectiveResetTimeout opts)
        ((run opts saved now before).breaker.effectiveResetTimeout opts)

theorem run_concat (opts : BreakerOptions) (saved : Option SavedBreaker) (now : Int)
    (events : List BreakerEvent) (event : BreakerEvent) :
    run opts saved now (events ++ [event]) = step opts (run opts saved now events) event := by
  simp [run]

theorem FailsRecovery.failureOf {w : System} {event : BreakerEvent}
    (h : FailsRecovery opts w event) : ∃ kind, w.failureOf event = some kind := by
  obtain ⟨hhalfOpen, hopened⟩ := h
  cases hkind : w.failureOf event with
  | some kind => exact ⟨kind, rfl⟩
  | none =>
    have hafter : (step opts w event).breaker.state = .halfOpen ∨
        (step opts w event).breaker.state = .closed := by
      refine step_keeps (fun b => b.state = .halfOpen ∨ b.state = .closed) ?_ ?_ ?_ ?_ event ?_
        (.inl hhalfOpen)
      · intro b hb
        obtain ⟨-, hclosed, hhalf⟩ := refreshOpenState_cycles opts w.now b
        exact hb.imp hhalf hclosed
      · exact fun b allowed started hb => hb
      · intro _
        obtain hclosed | ⟨-, hdegraded⟩ := onSuccess_cycles opts w.now w.breaker
        · exact .inr hclosed
        · rw [hhalfOpen] at hdegraded
          cases hdegraded
      · exact fun _ => .inr rfl
      · intro kind hsome
        rw [hkind] at hsome
        cases hsome
    obtain hhalf | hclosed := hafter
    · rw [hhalf] at hopened
      cases hopened
    · rw [hclosed] at hopened
      cases hopened

theorem climbs_step {w : System} {event : BreakerEvent} (h : Escalating opts w event) :
    (step opts w event).breaker.state = .closed ∨
      Climbs opts w.breaker.openCycleCount (step opts w event).breaker.openCycleCount := by
  refine step_keeps (fun b => b.state = .closed ∨ Climbs opts w.breaker.openCycleCount
    b.openCycleCount) ?_ ?_ ?_ ?_ event ?_ (.inr (climbs_refl opts _))
  · intro b hb
    obtain ⟨hcycles, hclosed, -⟩ := refreshOpenState_cycles opts w.now b
    rw [hcycles]
    exact hb.imp_left hclosed
  · exact fun b allowed started hb => hb
  · intro _
    obtain hclosed | ⟨hcycles, -⟩ := onSuccess_cycles opts w.now w.breaker
    · exact .inl hclosed
    · rw [hcycles]
      exact .inr (climbs_refl opts _)
  · exact fun _ => .inl rfl
  · intro kind hkind _
    refine .inr ?_
    by_cases hstate : w.breaker.state = .halfOpen
    · obtain ⟨hbelow, hmultiple⟩ := h hstate kind hkind
      rw [(onFailure_halfOpen kind hstate).2.2 hbelow]
      refine ⟨by omega, ?_⟩
      intro hle hlt
      exact hmultiple (by omega)
    · rw [onFailure_openCycleCount kind hstate]
      exact climbs_refl opts _

theorem climbs_run {saved : Option SavedBreaker} {now : Int} {events : List BreakerEvent}
    (hall : ∀ before event, before ++ [event] <+: events →
      Escalating opts (run opts saved now before) event)
    {before : List BreakerEvent} (later : List BreakerEvent) (hlead : before ++ later <+: events)
    (hopen : ∀ part, part <+: later →
      (run opts saved now (before ++ part)).breaker.state ≠ .closed) :
    Climbs opts (run opts saved now before).breaker.openCycleCount
      (run opts saved now (before ++ later)).breaker.openCycleCount := by
  induction later using List.reverseRecOn with
  | nil =>
    rw [append_nil]
    exact climbs_refl opts _
  | append_singleton later event ih =>
    rw [← append_assoc] at hlead ⊢
    have hbefore := ih ((prefix_append _ _).trans hlead)
      fun part hpart => hopen part (hpart.trans (prefix_append _ _))
    refine hbefore.trans ?_
    have hlast := hopen (later ++ [event]) prefix_rfl
    rw [← append_assoc, run_concat] at hlast
    rw [run_concat]
    exact (climbs_step (hall _ event hlead)).resolve_left hlast

/-- The backoff of a run escalates exactly when every event of it meets the
condition. -/
theorem escalates_iff (opts : BreakerOptions) (saved : Option SavedBreaker) (now : Int)
    (events : List BreakerEvent) :
    Escalates opts saved now events ↔ ∀ before event, before ++ [event] <+: events →
        Escalating opts (run opts saved now before) event := by
  constructor
  · intro h before event hlead hstate kind hkind
    have hstep : (step opts (run opts saved now before) event).breaker =
        (run opts saved now before).breaker.onFailure opts (run opts saved now before).now kind :=
      step_of_failure hkind
    obtain ⟨hopened, htripped, hcounted⟩ :
        ((run opts saved now before).breaker.onFailure opts (run opts saved now before).now
          kind).state = .opened ∧ _ ∧ _ := onFailure_halfOpen kind hstate
    have hcount := h.counted before event hlead ⟨hstate, by rw [hstep, hopened]⟩
    rw [run_concat, hstep] at hcount
    have hbelow : ¬ TripsKind opts (run opts saved now before).now kind
        (run opts saved now before).breaker := by
      intro htrips
      have hsame := htripped htrips
      omega
    refine ⟨hbelow, ?_⟩
    intro hfirst
    by_contra hzero
    have hshrunk := h.lengthened before [event] hlead ?_
    · rw [run_concat, hstep] at hshrunk
      refine hshrunk ⟨0, opts.resetTimeout, ?_, ?_, by omega⟩
      · have hone : opts.backoffEscalationCount + 1 - opts.backoffEscalationCount = 1 := by omega
        have hmultiplier : opts.maxBackoffMultiplier = 0 := by omega
        have hbeyond : ¬ opts.backoffEscalationCount + 1 ≤ opts.backoffEscalationCount := by omega
        simp [effectiveResetTimeout, escalated, hcounted hbelow, hfirst, hbeyond, hone, hmultiplier,
          pow2]
      · simp [effectiveResetTimeout, escalated, hfirst]
    · intro part hpart
      rw [← nil_append [event], prefix_concat_iff] at hpart
      obtain hpart | hpart := hpart
      · rw [hpart, nil_append, run_concat, hstep, hopened]
        decide
      · rw [prefix_nil.mp hpart, append_nil, hstate]
        decide
  · intro hall
    refine ⟨?_, ?_⟩
    · intro before event hlead hfails
      obtain ⟨kind, hkind⟩ := hfails.failureOf
      rw [run_concat, step_of_failure hkind]
      exact (onFailure_halfOpen kind hfails.1).2.2 (hall before event hlead hfails.1 kind hkind).1
    · intro before later hlead hopen
      exact not_shorter_of_climbs (climbs_run hall later hlead hopen)

/-- Exhausted quota opens a half-open breaker, and no cycle is counted. -/
theorem not_escalates_quota : ¬ Escalates quotaOptions none 1000
      [.onFailure (some .quotaExhausted), .advance 30000, .canExecute,
        .onFailure (some .quotaExhausted)] := by
  intro h
  have hcount := h.counted [.onFailure (some .quotaExhausted), .advance 30000, .canExecute]
    (.onFailure (some .quotaExhausted)) prefix_rfl ⟨by decide, by decide⟩
  exact absurd hcount (by decide)

end System

end RedRouter.Shared
