import RedRouter.Shared.Recovery

/-!
# The failure count of a breaker

A failure raises the failure count and a success takes it back.  `Fits` is what
the state says of the count when no kind of failure has a threshold of its own:
a closed breaker is at most at the threshold of degradation, a degraded one at
least there, and both are below the threshold that opens the circuit.
-/

namespace RedRouter.Shared

def Fits (opts : BreakerOptions) (state : CircuitState) (count : Nat) : Prop :=
  (state = .closed → count ≤ opts.degradationThreshold ∧ count < opts.failureThreshold) ∧
    (state = .degraded → opts.degradationThreshold ≤ count ∧ count < opts.failureThreshold)

namespace CircuitBreaker

variable {opts : BreakerOptions} {now : Int} {b : CircuitBreaker}

/-- The counts of the breaker and of its row fit. -/
structure CountsFit (opts : BreakerOptions) (b : CircuitBreaker) : Prop where
  memory : Fits opts b.state b.failureCount
  row : ∀ row, b.saved = some row → Fits opts row.state row.failureCount

theorem fits_zero (hlt : opts.degradationThreshold < opts.failureThreshold) :
    Fits opts .closed 0 := by
  refine ⟨fun _ => ⟨?_, ?_⟩, ?_⟩
  · omega
  · omega
  · simp

theorem fits_of_open {state : CircuitState} (h : state = .opened ∨ state = .halfOpen)
    (count : Nat) : Fits opts state count := by
  obtain rfl | rfl := h <;> simp [Fits]

theorem countsFit_persistToDb (h : Fits opts b.state b.failureCount) :
    CountsFit opts (b.persistToDb opts) := by
  refine ⟨h, ?_⟩
  intro row hrow
  cases hrow
  exact h

theorem countsFit_create (hlt : opts.degradationThreshold < opts.failureThreshold)
    {saved : Option SavedBreaker}
    (h : ∀ row, saved = some row → Fits opts row.state row.failureCount) :
    CountsFit opts (create opts saved) := by
  cases saved with
  | none =>
    refine ⟨fits_zero hlt, ?_⟩
    intro row hrow
    cases hrow
  | some row =>
    refine ⟨h row rfl, ?_⟩
    intro row' hrow
    cases hrow
    exact h row rfl

theorem countsFit_refreshOpenState (h : CountsFit opts b) :
    CountsFit opts (b.refreshOpenState opts now) := by
  unfold refreshOpenState
  split
  · exact countsFit_persistToDb (fits_of_open (.inr rfl) _)
  · split
    · exact ⟨h.memory, h.row⟩
    · exact h

/-- A success takes one failure back.  A degraded breaker that comes down to the
threshold of degradation is closed, and the thresholds are apart. -/
theorem countsFit_onSuccess (hlt : opts.degradationThreshold < opts.failureThreshold)
    (h : CountsFit opts b) : CountsFit opts (b.onSuccess opts now) := by
  apply countsFit_persistToDb
  have hclosed := h.memory.1
  have hdegraded := h.memory.2
  split
  · exact fits_zero hlt
  · exact fits_zero hlt
  · rename_i hstate
    have hcount := hclosed hstate
    refine ⟨fun _ => ⟨?_, ?_⟩, ?_⟩
    · show b.failureCount - 1 ≤ _
      omega
    · show b.failureCount - 1 < _
      omega
    · simp [hstate]
  · rename_i hstate
    have hcount := hdegraded hstate
    dsimp only
    split
    · rename_i hlow
      refine ⟨fun _ => ⟨hlow, ?_⟩, ?_⟩
      · show b.failureCount - 1 < _
        omega
      · simp [transition]
    · refine ⟨?_, fun _ => ⟨?_, ?_⟩⟩
      · simp [hstate]
      · show _ ≤ b.failureCount - 1
        omega
      · show b.failureCount - 1 < _
        omega

theorem fits_failureTransition {kind : Option FailureKind} (h : Fits opts b.state b.failureCount) :
    Fits opts ((b.countFailure now kind).failureTransition opts now kind).state
      ((b.countFailure now kind).failureTransition opts now kind).failureCount := by
  have hstate : (b.countFailure now kind).state = b.state := by cases kind <;> rfl
  have hcount := (countFailure_counts now kind b).1
  rw [← hstate] at h
  generalize b.countFailure now kind = c at h hcount
  unfold failureTransition
  split
  · rename_i hopened
    exact fits_of_open (.inl hopened) _
  · exact fits_of_open (.inl rfl) _
  · rename_i hdegraded
    have hbefore := h.2 hdegraded
    split
    · exact fits_of_open (.inl rfl) _
    · refine ⟨?_, fun _ => ⟨?_, ?_⟩⟩
      · simp [hdegraded]
      all_goals omega
  · rename_i hclosed
    split
    · exact fits_of_open (.inl rfl) _
    · split
      · rename_i hbelow helevated
        refine ⟨?_, fun _ => ⟨?_, ?_⟩⟩
        · simp [transition]
        · exact helevated
        · show c.failureCount < _
          omega
      · refine ⟨fun _ => ⟨?_, ?_⟩, ?_⟩
        · omega
        · omega
        · simp [hclosed]

theorem countsFit_onFailure (hkinds : ∀ kind, opts.kindThresholds kind = none)
    (kind : Option FailureKind) (h : CountsFit opts b) :
    CountsFit opts (b.onFailure opts now kind) := by
  have hbelow : (b.countFailure now kind).kindTrips opts kind ≠ true := by
    cases kind with
    | none => simp [kindTrips]
    | some kind => simp [kindTrips, hkinds]
  simp only [onFailure, if_neg hbelow]
  exact countsFit_persistToDb (fits_failureTransition h.memory)

end CircuitBreaker

namespace System

open CircuitBreaker

variable {opts : BreakerOptions}

theorem countsFit_step (hkinds : ∀ kind, opts.kindThresholds kind = none)
    (hlt : opts.degradationThreshold < opts.failureThreshold) (w : System) (event : BreakerEvent)
    (h : CountsFit opts w.breaker) : CountsFit opts (step opts w event).breaker := by
  refine step_keeps (CountsFit opts) ?_ ?_ ?_ ?_ event ?_ h
  · exact fun b hb => countsFit_refreshOpenState hb
  · exact fun b allowed started hb => ⟨hb.memory, hb.row⟩
  · exact countsFit_onSuccess hlt
  · exact fun _ => countsFit_persistToDb (fits_zero hlt)
  · exact fun kind _ hb => countsFit_onFailure hkinds kind hb

theorem countsFit_run (hkinds : ∀ kind, opts.kindThresholds kind = none)
    (hlt : opts.degradationThreshold < opts.failureThreshold) {saved : Option SavedBreaker}
    (hsaved : Restorable opts saved) (now : Int) (events : List BreakerEvent) :
    CountsFit opts (run opts saved now events).breaker := by
  have hcreated : ∀ {row now events}, (∀ r, row = some r → Fits opts r.state r.failureCount) →
      CountsFit opts (run opts row now events).breaker := fun hrow =>
    Runs.foldl_invariant (fun w : System => CountsFit opts w.breaker) (countsFit_step hkinds hlt)
      (countsFit_create hlt hrow) _
  induction hsaved generalizing now events with
  | none =>
    apply hcreated
    intro row hrow
    cases hrow
  | left now' events' _ ih =>
    apply hcreated
    intro row hrow
    obtain ⟨row', hrow', rfl⟩ := Option.map_eq_some_iff.mp hrow
    exact (ih now' events').row row' hrow'

/-- A closed or degraded breaker never carries a failure count that should have
opened it, or that belongs to the other state. -/
theorem failureCount_fits (opts : BreakerOptions) (hkinds : ∀ kind, opts.kindThresholds kind = none)
    (hlt : opts.degradationThreshold < opts.failureThreshold) {saved : Option SavedBreaker}
    (hsaved : Restorable opts saved) (now : Int) (events : List BreakerEvent) :
    ((run opts saved now events).breaker.state = .closed →
        (run opts saved now events).breaker.failureCount ≤ opts.degradationThreshold ∧
          (run opts saved now events).breaker.failureCount < opts.failureThreshold) ∧
      ((run opts saved now events).breaker.state = .degraded →
        opts.degradationThreshold ≤ (run opts saved now events).breaker.failureCount ∧
          (run opts saved now events).breaker.failureCount < opts.failureThreshold) :=
  (countsFit_run hkinds hlt hsaved now events).memory

/-- Three failures degrade a breaker with the default thresholds. -/
theorem failureCount_fits_default :
    (run {} none 1000 [.onFailure none, .onFailure none, .onFailure none]).breaker.state =
        .degraded ∧
      3 ≤ (run {} none 1000 [.onFailure none, .onFailure none, .onFailure none]).breaker.failureCount ∧
      (run {} none 1000 [.onFailure none, .onFailure none, .onFailure none]).breaker.failureCount <
        5 :=
  ⟨by decide, (failureCount_fits {} (fun _ => rfl) (by decide) .none 1000
    [.onFailure none, .onFailure none, .onFailure none]).2 (by decide)⟩

end System

end RedRouter.Shared
