import RedRouter.Shared.Persistence

/-!
# A recovered breaker and a new one

The registry evicts a breaker that is closed and has no failures, and a later
call creates it anew.  Whether a caller can tell the two apart depends on what
the closed breaker still carries.  The open cycles do not matter: they are 0 in
every closed breaker (`Calm`).  The counters of the failure kinds do: a success
takes the failure count back, and it leaves these as they are.

`Alike` says which fields two breakers must share to behave alike, and it is
kept by every use (`observe_eq_of_alike`).  In the other direction a counter
that is left over is told by filling it up to the threshold of its kind
(`observe_fill`).
-/

namespace RedRouter.Shared

def kindCount (kind : FailureKind) (counts : JsMap FailureKind Nat) : Nat :=
  (counts.get kind).getD 0

def KindThresholds.opensAt (opts : BreakerOptions) (config : KindThresholds) : Nat :=
  let threshold := CircuitBreaker.thresholdOr config.threshold opts.failureThreshold
  if config.immediateOpen then min (CircuitBreaker.thresholdOr config.threshold 1) threshold
  else threshold

namespace CircuitBreaker

variable {opts : BreakerOptions} {now : Int} {b b' : CircuitBreaker}

theorem kindTrips_iff (kind : FailureKind) (b : CircuitBreaker) :
    b.kindTrips opts (some kind) = true ↔ ∃ config, opts.kindThresholds kind = some config ∧
      config.opensAt opts ≤ kindCount kind b.kindFailureCounts := by
  cases hconfig : opts.kindThresholds kind with
  | none => simp [kindTrips, hconfig]
  | some config =>
    cases himmediate : config.immediateOpen with
    | false =>
      simp [kindTrips, hconfig, himmediate, KindThresholds.opensAt, kindCount]
    | true =>
      simp only [kindTrips, hconfig, himmediate, KindThresholds.opensAt, kindCount, Bool.true_and,
        Bool.or_eq_true, decide_eq_true_eq, if_true, Option.some.injEq, exists_eq_left']
      omega

theorem kindCount_countFailure (k : FailureKind) (kind : Option FailureKind) (b : CircuitBreaker) :
    kindCount k (b.countFailure now kind).kindFailureCounts =
      kindCount k b.kindFailureCounts + if kind = some k then 1 else 0 := by
  cases kind with
  | none => simp [countFailure]
  | some kind =>
    simp only [countFailure, kindCount, JsMap.get_set, Option.some.injEq]
    split
    · rename_i heq
      rw [heq]
      rfl
    · rfl

/-! ## Closed breakers are calm -/

/-- What a breaker that is not open carries: no open cycles, and of a kind with
a threshold either no failures or fewer than open the circuit.  With a failure
threshold of 1 every failure opens it. -/
def Calm (opts : BreakerOptions) (state : CircuitState) (cycles : Nat)
    (counts : JsMap FailureKind Nat) : Prop :=
  state = .closed ∨ state = .degraded →
    cycles = 0 ∧ ∀ kind config, opts.kindThresholds kind = some config →
      kindCount kind counts = 0 ∨
        2 ≤ opts.failureThreshold ∧ kindCount kind counts < config.opensAt opts

/-- The breaker and its row are calm. -/
structure Orderly (opts : BreakerOptions) (b : CircuitBreaker) : Prop where
  memory : Calm opts b.state b.openCycleCount b.kindFailureCounts
  row : ∀ row, b.saved = some row → Calm opts row.state row.openCycleCount row.kindFailureCounts

theorem calm_empty (opts : BreakerOptions) (state : CircuitState) : Calm opts state 0 [] :=
  fun _ => ⟨rfl, fun _ _ _ => .inl rfl⟩

theorem orderly_persistToDb (h : Calm opts b.state b.openCycleCount b.kindFailureCounts) :
    Orderly opts (b.persistToDb opts) := by
  refine ⟨h, ?_⟩
  intro row hrow
  cases hrow
  exact h

theorem orderly_create {saved : Option SavedBreaker}
    (h : ∀ row, saved = some row → Calm opts row.state row.openCycleCount row.kindFailureCounts) :
    Orderly opts (create opts saved) := by
  cases saved with
  | none =>
    refine ⟨calm_empty opts .closed, ?_⟩
    intro row hrow
    cases hrow
  | some saved =>
    refine ⟨h saved rfl, ?_⟩
    intro row hrow
    cases hrow
    exact h saved rfl

theorem orderly_refreshOpenState (h : Orderly opts b) :
    Orderly opts (b.refreshOpenState opts now) := by
  unfold refreshOpenState
  split
  · apply orderly_persistToDb
    intro hstate
    simp [transition] at hstate
  · split
    · exact ⟨h.memory, h.row⟩
    · exact h

theorem orderly_onSuccess (h : Orderly opts b) : Orderly opts (b.onSuccess opts now) := by
  apply orderly_persistToDb
  have hcalm := h.memory
  split
  · exact calm_empty opts .closed
  · exact calm_empty opts .closed
  · exact hcalm
  · rename_i hstate
    dsimp only
    split
    · exact fun _ => hcalm (.inr hstate)
    · exact hcalm

/-- A failure that leaves the circuit closed was below both thresholds. -/
theorem calm_failureTransition (kind : Option FailureKind)
    (h : Calm opts b.state b.openCycleCount b.kindFailureCounts)
    (hbelow : (b.countFailure now kind).kindTrips opts kind = false) :
    Calm opts ((b.countFailure now kind).failureTransition opts now kind).state
      ((b.countFailure now kind).failureTransition opts now kind).openCycleCount
      ((b.countFailure now kind).failureTransition opts now kind).kindFailureCounts := by
  intro hafter
  have hview : b.state = .closed ∨ b.state = .degraded →
      b.failureCount + 1 < opts.failureThreshold →
      b.openCycleCount = 0 ∧ ∀ k config, opts.kindThresholds k = some config →
        kindCount k (b.countFailure now kind).kindFailureCounts = 0 ∨
          2 ≤ opts.failureThreshold ∧
            kindCount k (b.countFailure now kind).kindFailureCounts < config.opensAt opts := by
    intro hstate hlow
    obtain ⟨hcycles, hcounts⟩ := h hstate
    refine ⟨hcycles, ?_⟩
    intro k config hconfig
    by_cases hkind : kind = some k
    · subst hkind
      refine .inr ⟨by omega, ?_⟩
      by_contra hreached
      have htrips := (kindTrips_iff k (b.countFailure now (some k))).mpr ⟨config, hconfig, by omega⟩
      rw [hbelow] at htrips
      exact absurd htrips (by decide)
    · rw [kindCount_countFailure, if_neg hkind]
      exact hcounts k config hconfig
  have hcycles : (b.countFailure now kind).openCycleCount = b.openCycleCount := by
    cases kind <;> rfl
  have hbefore : (b.countFailure now kind).state = b.state := by cases kind <;> rfl
  have hcount := (countFailure_counts now kind b).1
  unfold failureTransition at hafter ⊢
  split at hafter
  · rename_i hstate
    rw [hstate] at hafter
    simp at hafter
  · simp [transition] at hafter
  · rename_i hstate
    by_cases hreached : (b.countFailure now kind).failureCount ≥ opts.failureThreshold
    · rw [if_pos hreached] at hafter
      simp [openCircuit, transition] at hafter
    · simp only [if_neg hreached, hcycles]
      exact hview (.inr (hbefore ▸ hstate)) (by omega)
  · rename_i hstate
    by_cases hreached : (b.countFailure now kind).failureCount ≥ opts.failureThreshold
    · rw [if_pos hreached] at hafter
      simp [openCircuit, transition] at hafter
    · have hcalm := hview (.inl (hbefore ▸ hstate)) (by omega)
      simp only [if_neg hreached]
      split
      · rw [← hcycles] at hcalm
        exact hcalm
      · rw [hcycles]
        exact hcalm

theorem orderly_onFailure (kind : Option FailureKind) (h : Orderly opts b) :
    Orderly opts (b.onFailure opts now kind) := by
  unfold onFailure
  dsimp only
  split
  · refine ⟨?_, ?_⟩
    · intro hstate
      simp [openCircuit, transition] at hstate
    · show ∀ row, (b.countFailure now kind).saved = some row → _
      rw [(countFailure_counts now kind b).2]
      exact h.row
  · rename_i hbelow
    exact orderly_persistToDb (calm_failureTransition kind h.memory (by simpa using hbelow))

/-! ## Breakers that behave alike -/

/-- What two breakers share that cannot be told apart.  The time and the kind
of the last failure are read while the circuit is open, the probes while it is
half-open. -/
structure Alike (opts : BreakerOptions) (b b' : CircuitBreaker) : Prop where
  state : b'.state = b.state
  failureCount : b'.failureCount = b.failureCount
  openCycleCount : b'.openCycleCount = b.openCycleCount
  counts : ∀ kind, opts.kindThresholds kind ≠ none →
    kindCount kind b'.kindFailureCounts = kindCount kind b.kindFailureCounts
  last : b.state = .opened →
    b'.lastFailureTime = b.lastFailureTime ∧ b'.lastFailureKind = b.lastFailureKind
  probes : b.state = .halfOpen → b'.halfOpenAllowed = b.halfOpenAllowed ∧
    b'.halfOpenProbeStartedAt = b.halfOpenProbeStartedAt

theorem Alike.persistToDb (h : Alike opts b b') :
    Alike opts (b.persistToDb opts) (b'.persistToDb opts) :=
  { h with }

theorem Alike.transition {newState : CircuitState} {reason reason' : Option String}
    (hcount : b'.failureCount = b.failureCount) (hcycles : b'.openCycleCount = b.openCycleCount)
    (hkinds : ∀ kind, opts.kindThresholds kind ≠ none →
      kindCount kind b'.kindFailureCounts = kindCount kind b.kindFailureCounts)
    (hlast : newState = .opened →
      b'.lastFailureTime = b.lastFailureTime ∧ b'.lastFailureKind = b.lastFailureKind) :
    Alike opts (b.transition opts now newState reason) (b'.transition opts now newState reason') := by
  refine ⟨rfl, hcount, hcycles, hkinds, hlast, ?_⟩
  intro hstate
  have hnew : newState = .halfOpen := hstate
  simp [CircuitBreaker.transition, hnew]

theorem alike_of_closed (hstate : b.state = .closed) (hstate' : b'.state = .closed)
    (hcount : b'.failureCount = b.failureCount) (hcycles : b'.openCycleCount = b.openCycleCount)
    (hkinds : ∀ kind, opts.kindThresholds kind ≠ none →
      kindCount kind b'.kindFailureCounts = kindCount kind b.kindFailureCounts) :
    Alike opts b b' := by
  refine ⟨hstate'.trans hstate.symm, hcount, hcycles, hkinds, ?_, ?_⟩
  · intro hopened
    rw [hstate] at hopened
    cases hopened
  · intro hhalf
    rw [hstate] at hhalf
    cases hhalf

section

variable (h : Alike opts b b')
include h

theorem Alike.shouldAttemptReset (hopened : b.state = .opened) :
    b'.shouldAttemptReset opts now = b.shouldAttemptReset opts now := by
  obtain ⟨htime, hkind⟩ := h.last hopened
  have hbase : b'.baseCooldown opts = b.baseCooldown opts := by
    unfold baseCooldown
    rw [hkind]
  have hcooldown : b'.effectiveCooldown opts = b.effectiveCooldown opts := by
    unfold effectiveCooldown escalated
    rw [hbase, h.openCycleCount]
  unfold CircuitBreaker.shouldAttemptReset
  rw [htime, hcooldown]

theorem Alike.probesExpired (hhalf : b.state = .halfOpen) :
    b'.probesExpired opts now = b.probesExpired opts now := by
  obtain ⟨hallowed, hstarted⟩ := h.probes hhalf
  simp [CircuitBreaker.probesExpired, hallowed, hstarted]

theorem Alike.refreshOpenState :
    Alike opts (b.refreshOpenState opts now) (b'.refreshOpenState opts now) := by
  unfold CircuitBreaker.refreshOpenState
  rw [h.state]
  cases hstate : b.state with
  | closed => simpa using h
  | degraded => simpa using h
  | opened =>
    rw [h.shouldAttemptReset hstate]
    by_cases hreset : b.shouldAttemptReset opts now = true
    · simp only [hreset]
      exact (Alike.transition h.failureCount h.openCycleCount h.counts
        (fun hnew => by cases hnew)).persistToDb
    · simpa [hreset] using h
  | halfOpen =>
    rw [h.probesExpired hstate]
    by_cases hexpired : b.probesExpired opts now = true
    · simp only [hexpired]
      exact ⟨h.state, h.failureCount, h.openCycleCount, h.counts, h.last, fun _ => ⟨rfl, rfl⟩⟩
    · simpa [hexpired] using h

theorem Alike.canExecute : (b'.canExecute opts now).1 = (b.canExecute opts now).1 := by
  have hrefreshed : Alike opts (b.refreshOpenState opts now) (b'.refreshOpenState opts now) :=
    h.refreshOpenState
  simp only [CircuitBreaker.canExecute]
  generalize b.refreshOpenState opts now = r at hrefreshed
  generalize b'.refreshOpenState opts now = r' at hrefreshed
  rw [hrefreshed.state]
  cases hstate : r.state with
  | closed => rfl
  | degraded => rfl
  | opened => rfl
  | halfOpen =>
    simp only [(hrefreshed.probes hstate).1]

theorem Alike.onSuccess : Alike opts (b.onSuccess opts now) (b'.onSuccess opts now) := by
  apply Alike.persistToDb
  rw [h.state]
  cases hstate : b.state with
  | opened => exact alike_of_closed rfl rfl rfl rfl fun _ _ => rfl
  | halfOpen => exact alike_of_closed rfl rfl rfl rfl fun _ _ => rfl
  | closed =>
    exact alike_of_closed rfl rfl (congrArg (· - 1) h.failureCount) h.openCycleCount h.counts
  | degraded =>
    dsimp only
    rw [h.failureCount]
    split
    · exact alike_of_closed rfl rfl rfl h.openCycleCount h.counts
    · refine ⟨rfl, rfl, h.openCycleCount, h.counts, ?_, ?_⟩
      · intro hopened
        cases hopened
      · intro hhalf
        cases hhalf

variable (kind : Option FailureKind)

theorem Alike.countFailure : Alike opts (b.countFailure now kind) (b'.countFailure now kind) := by
  refine ⟨?_, ?_, ?_, ?_, ?_, ?_⟩
  · cases kind <;> exact h.state
  · rw [(countFailure_counts now kind b).1, (countFailure_counts now kind b').1, h.failureCount]
  · cases kind <;> exact h.openCycleCount
  · intro k hk
    rw [kindCount_countFailure, kindCount_countFailure, h.counts k hk]
  · cases kind <;> exact fun _ => ⟨rfl, rfl⟩
  · cases kind <;> exact h.probes

theorem Alike.kindTrips : b'.kindTrips opts kind = b.kindTrips opts kind := by
  cases kind with
  | none => rfl
  | some kind =>
    rw [Bool.eq_iff_iff, kindTrips_iff, kindTrips_iff]
    constructor
    all_goals
      rintro ⟨config, hconfig, hreached⟩
      have hcount := h.counts kind (by simp [hconfig])
      exact ⟨config, hconfig, by omega⟩

theorem Alike.onFailure : Alike opts (b.onFailure opts now kind) (b'.onFailure opts now kind) := by
  have hcounted : Alike opts (b.countFailure now kind) (b'.countFailure now kind) :=
    h.countFailure kind
  have hlast : (b'.countFailure now kind).lastFailureTime =
      (b.countFailure now kind).lastFailureTime ∧ (b'.countFailure now kind).lastFailureKind =
      (b.countFailure now kind).lastFailureKind := by
    cases kind <;> exact ⟨rfl, rfl⟩
  unfold CircuitBreaker.onFailure
  dsimp only
  generalize b.countFailure now kind = c at hcounted hlast
  generalize b'.countFailure now kind = c' at hcounted hlast
  have hopen : Alike opts (c.openCircuit opts now kind) (c'.openCircuit opts now kind) :=
    Alike.transition hcounted.failureCount hcounted.openCycleCount hcounted.counts fun _ => hlast
  rw [hcounted.kindTrips]
  split
  · exact hopen
  · apply Alike.persistToDb
    unfold failureTransition
    rw [hcounted.state]
    cases hstate : c.state with
    | opened => exact hcounted
    | halfOpen =>
      exact Alike.transition hcounted.failureCount
        (congrArg (· + 1) hcounted.openCycleCount) hcounted.counts fun _ => hlast
    | degraded =>
      dsimp only
      rw [hcounted.failureCount]
      split
      · exact hopen
      · exact hcounted
    | closed =>
      dsimp only
      rw [hcounted.failureCount]
      split
      · exact hopen
      · split
        · exact Alike.transition hcounted.failureCount hcounted.openCycleCount hcounted.counts
            fun hopened => by cases hopened
        · exact hcounted

end

end CircuitBreaker

/-! ## What a caller sees -/

/-- What can happen to a recovered breaker. -/
inductive Use where
  | success
  | failure (kind : Option FailureKind)
  | advance (ms : Nat)
  | canExecute
deriving DecidableEq

def Use.event : Use → BreakerEvent
  | .success => .onSuccess
  | .failure kind => .onFailure kind
  | .advance ms => .advance ms
  | .canExecute => .canExecute

namespace System

open CircuitBreaker

variable {opts : BreakerOptions} {w w' : System}

def answer (opts : BreakerOptions) (w : System) : Use → Option Bool
  | .canExecute => some (w.breaker.canExecute opts w.now).1
  | _ => none

def observe (opts : BreakerOptions) (w : System) : List Use → List (CircuitState × Option Bool)
  | [] => []
  | use :: uses =>
      let w' := step opts w use.event
      (w'.breaker.state, w.answer opts use) :: observe opts w' uses

/-- A breaker that is created now, with no row in the database. -/
def fresh (opts : BreakerOptions) (w : System) : System := start opts none w.now

theorem alike_step (use : Use) (hnow : w'.now = w.now) (h : Alike opts w.breaker w'.breaker) :
    (step opts w' use.event).now = (step opts w use.event).now ∧
      w'.answer opts use = w.answer opts use ∧
      Alike opts (step opts w use.event).breaker (step opts w' use.event).breaker := by
  cases use with
  | success => exact ⟨hnow, rfl, by simpa only [Use.event, step, hnow] using h.onSuccess⟩
  | failure kind => exact ⟨hnow, rfl, by simpa only [Use.event, step, hnow] using h.onFailure kind⟩
  | advance ms => exact ⟨by simp [Use.event, step, hnow], rfl, h⟩
  | canExecute =>
    refine ⟨hnow, ?_, ?_⟩
    · simp [answer, hnow, h.canExecute]
    · simp only [step, hnow]
      exact h.refreshOpenState

/-- Breakers that are alike stay so, and a caller sees no difference. -/
theorem observe_eq_of_alike (uses : List Use) (hnow : w'.now = w.now)
    (h : Alike opts w.breaker w'.breaker) : observe opts w' uses = observe opts w uses := by
  induction uses generalizing w w' with
  | nil => rfl
  | cons use uses ih =>
    obtain ⟨hnow', hanswer, halike⟩ := alike_step use hnow h
    simp only [observe]
    rw [halike.state, hanswer, ih hnow' halike]

/-! ## Filling a counter -/

/-- A closed breaker with no failures and a failure threshold that one failure
does not reach. -/
structure Recovered (opts : BreakerOptions) (w : System) : Prop where
  state : w.breaker.state = .closed
  failureCount : w.breaker.failureCount = 0
  threshold : 2 ≤ opts.failureThreshold

theorem state_failure_below {kind : FailureKind} (h : Recovered opts w)
    (hbelow : ∀ config, opts.kindThresholds kind = some config →
      kindCount kind w.breaker.kindFailureCounts + 1 < config.opensAt opts) :
    (step opts w (.onFailure (some kind))).breaker.failureCount = 1 ∧
      kindCount kind (step opts w (.onFailure (some kind))).breaker.kindFailureCounts =
        kindCount kind w.breaker.kindFailureCounts + 1 ∧
      ((step opts w (.onFailure (some kind))).breaker.state = .closed ∨
        (step opts w (.onFailure (some kind))).breaker.state = .degraded) := by
  have hcount : kindCount kind (w.breaker.countFailure w.now (some kind)).kindFailureCounts =
      kindCount kind w.breaker.kindFailureCounts + 1 := by
    rw [kindCount_countFailure, if_pos rfl]
  have hnot : (w.breaker.countFailure w.now (some kind)).kindTrips opts (some kind) ≠ true := by
    intro htrips
    obtain ⟨config, hconfig, hreached⟩ := (kindTrips_iff kind _).mp htrips
    have := hbelow config hconfig
    omega
  have hone : (w.breaker.countFailure w.now (some kind)).failureCount = 1 := by
    rw [(countFailure_counts w.now (some kind) w.breaker).1, h.failureCount]
  have hstate : (w.breaker.countFailure w.now (some kind)).state = .closed := h.state
  simp only [step, onFailure, if_neg hnot]
  generalize w.breaker.countFailure w.now (some kind) = c at hcount hone hstate
  have hlow : ¬ c.failureCount ≥ opts.failureThreshold := by
    have := h.threshold
    omega
  simp only [failureTransition, hstate, if_neg hlow]
  split
  · exact ⟨hone, hcount, .inr rfl⟩
  · exact ⟨hone, hcount, .inl hstate⟩

theorem recovered_pair {kind : FailureKind} (h : Recovered opts w)
    (hbelow : ∀ config, opts.kindThresholds kind = some config →
      kindCount kind w.breaker.kindFailureCounts + 1 < config.opensAt opts) :
    Recovered opts (step opts (step opts w (.onFailure (some kind))) .onSuccess) ∧
      kindCount kind
          (step opts (step opts w (.onFailure (some kind))) .onSuccess).breaker.kindFailureCounts =
        kindCount kind w.breaker.kindFailureCounts + 1 := by
  obtain ⟨hone, hcount, hstate⟩ := state_failure_below h hbelow
  generalize step opts w (.onFailure (some kind)) = v at hone hcount hstate
  obtain hstate | hstate := hstate
  · refine ⟨⟨?_, ?_, h.threshold⟩, ?_⟩ <;>
      simp [step, onSuccess, hstate, hone, hcount, persistToDb]
  · refine ⟨⟨?_, ?_, h.threshold⟩, ?_⟩ <;>
      simp [step, onSuccess, hstate, hone, hcount, persistToDb, transition]

def fill (kind : FailureKind) : Nat → List Use
  | 0 => [.failure (some kind)]
  | n + 1 => .failure (some kind) :: .success :: fill kind n

/-- The last failure opens the circuit exactly when it is the one that reaches
the threshold of the kind. -/
theorem observe_fill {kind : FailureKind} {config : KindThresholds}
    (hconfig : opts.kindThresholds kind = some config) (n : Nat) (h : Recovered opts w)
    (hroom : kindCount kind w.breaker.kindFailureCounts + n < config.opensAt opts) :
    (observe opts w (fill kind n)).getLast? = some (.opened, none) ↔
      kindCount kind w.breaker.kindFailureCounts + n + 1 = config.opensAt opts := by
  induction n generalizing w with
  | zero =>
    by_cases hreached : kindCount kind w.breaker.kindFailureCounts + 1 = config.opensAt opts
    · have htrips := (kindTrips_iff kind (w.breaker.countFailure w.now (some kind))).mpr
        ⟨config, hconfig, by rw [kindCount_countFailure, if_pos rfl]; omega⟩
      refine iff_of_true ?_ hreached
      simp [fill, observe, Use.event, step, onFailure, htrips, openCircuit, transition, answer]
    · have hbelow : ∀ config', opts.kindThresholds kind = some config' →
          kindCount kind w.breaker.kindFailureCounts + 1 < config'.opensAt opts := by
        intro config' hconfig'
        rw [hconfig] at hconfig'
        cases hconfig'
        omega
      obtain ⟨-, -, hstate⟩ := state_failure_below h hbelow
      refine iff_of_false ?_ hreached
      obtain hstate | hstate := hstate <;>
        simp [fill, observe, Use.event, hstate]
  | succ n ih =>
    have hbelow : ∀ config', opts.kindThresholds kind = some config' →
        kindCount kind w.breaker.kindFailureCounts + 1 < config'.opensAt opts := by
      intro config' hconfig'
      rw [hconfig] at hconfig'
      cases hconfig'
      omega
    obtain ⟨hrecovered, hcount⟩ := recovered_pair h hbelow
    have hrest := ih hrecovered (by omega)
    have hlast : (observe opts w (fill kind (n + 1))).getLast? =
        (observe opts (step opts (step opts w (.onFailure (some kind))) .onSuccess)
          (fill kind n)).getLast? := by
      cases n <;> simp [fill, observe, Use.event]
    rw [hlast, hrest]
    omega

/-! ## Recovered breakers -/

/-- The rows that the database can hold: none, or the one that a run has
left. -/
inductive Restorable (opts : BreakerOptions) : Option SavedBreaker → Prop where
  | none : Restorable opts none
  | left {saved : Option SavedBreaker} (now : Int) (events : List BreakerEvent)
      (h : Restorable opts saved) :
      Restorable opts ((run opts saved now events).breaker.saved.map SavedBreaker.load)

theorem orderly_step (w : System) (event : BreakerEvent) (h : Orderly opts w.breaker) :
    Orderly opts (step opts w event).breaker := by
  refine step_keeps (Orderly opts) ?_ ?_ ?_ ?_ event ?_ h
  · exact fun b hb => orderly_refreshOpenState hb
  · exact fun b allowed started hb => ⟨hb.memory, hb.row⟩
  · exact orderly_onSuccess
  · exact fun _ => orderly_persistToDb (calm_empty opts .closed)
  · exact fun kind _ hb => orderly_onFailure kind hb

theorem orderly_run {saved : Option SavedBreaker} (hsaved : Restorable opts saved) (now : Int)
    (events : List BreakerEvent) : Orderly opts (run opts saved now events).breaker := by
  induction hsaved generalizing now events with
  | none =>
    refine Runs.foldl_invariant (fun w : System => Orderly opts w.breaker) orderly_step ?_ events
    show Orderly opts (create opts none)
    apply orderly_create
    intro row hrow
    cases hrow
  | left now' events' _ ih =>
    refine Runs.foldl_invariant (fun w : System => Orderly opts w.breaker) orderly_step ?_ events
    show Orderly opts (create opts _)
    apply orderly_create
    intro row hrow
    obtain ⟨row', hrow', rfl⟩ := Option.map_eq_some_iff.mp hrow
    exact (ih now' events').row row' hrow'

/-- A breaker that is closed and has no failures behaves as a new one exactly
when it counts no failure of a kind that has a threshold. -/
theorem recovered_iff (opts : BreakerOptions) {saved : Option SavedBreaker}
    (hsaved : Restorable opts saved) (now : Int) (events : List BreakerEvent)
    (hclosed : (run opts saved now events).breaker.state = .closed)
    (hzero : (run opts saved now events).breaker.failureCount = 0) :
    (∀ uses, observe opts (run opts saved now events) uses =
        observe opts (fresh opts (run opts saved now events)) uses) ↔
      ∀ kind, opts.kindThresholds kind ≠ none →
        kindCount kind (run opts saved now events).breaker.kindFailureCounts = 0 := by
  obtain ⟨hcycles, hcalm⟩ := (orderly_run hsaved now events).memory (.inl hclosed)
  generalize run opts saved now events = w at *
  constructor
  · intro hsame kind hkind
    obtain ⟨config, hconfig⟩ := Option.ne_none_iff_exists'.mp hkind
    obtain hnone | ⟨hthreshold, hbelow⟩ := hcalm kind config hconfig
    · exact hnone
    · by_contra hleft
      -- Enough failures to reach the threshold from what is left, and no more.
      have hfilled := observe_fill hconfig
        (config.opensAt opts - kindCount kind w.breaker.kindFailureCounts - 1)
        ⟨hclosed, hzero, hthreshold⟩ (by omega)
      have hempty : kindCount kind (fresh opts w).breaker.kindFailureCounts = 0 := rfl
      have hfresh := observe_fill (w := fresh opts w) hconfig
        (config.opensAt opts - kindCount kind w.breaker.kindFailureCounts - 1)
        ⟨rfl, rfl, hthreshold⟩ (by omega)
      rw [hsame, hfresh] at hfilled
      omega
  · intro hnone uses
    have halike : Alike opts w.breaker (fresh opts w).breaker := by
      apply alike_of_closed hclosed rfl hzero.symm hcycles.symm
      intro kind hkind
      rw [hnone kind hkind]
      rfl
    have hnow : (fresh opts w).now = w.now := rfl
    exact (observe_eq_of_alike uses hnow halike).symm

/-- Two rate limits open the circuit. -/
def rateLimitOptions : BreakerOptions :=
  { kindThresholds := fun kind =>
      if kind = .rateLimit then some { threshold := some 2 } else none }

/-- A failure that has no threshold, and a success after it. -/
theorem recovered_iff_transient :
    (run rateLimitOptions none 1000 [.onFailure (some .transient), .onSuccess]).breaker.state =
        .closed ∧
      ∀ uses, observe rateLimitOptions
          (run rateLimitOptions none 1000 [.onFailure (some .transient), .onSuccess]) uses =
        observe rateLimitOptions (fresh rateLimitOptions
          (run rateLimitOptions none 1000 [.onFailure (some .transient), .onSuccess])) uses := by
  refine ⟨by decide, (recovered_iff rateLimitOptions .none 1000 _ (by decide) (by decide)).mpr ?_⟩
  intro kind hkind
  cases kind with
  | rateLimit => decide
  | quotaExhausted => exact absurd rfl hkind
  | transient => exact absurd rfl hkind

/-- A rate limit and a success leave a closed breaker with no failures, and the
next rate limit opens it.  A new breaker stays closed. -/
theorem not_recovered_rateLimit :
    ¬ ∀ (opts : BreakerOptions) (now : Int) (events : List BreakerEvent),
      (run opts none now events).breaker.state = .closed →
      (run opts none now events).breaker.failureCount = 0 →
      ∀ uses, observe opts (run opts none now events) uses =
        observe opts (fresh opts (run opts none now events)) uses := by
  intro h
  have hsame := h rateLimitOptions 1000 [.onFailure (some .rateLimit), .onSuccess] (by decide)
    (by decide) [.failure (some .rateLimit)]
  exact absurd hsame (by decide)

end System

end RedRouter.Shared
