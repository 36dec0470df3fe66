import RedRouter.Lib.Runs
import RedRouter.Shared.ProbeSafety

/-!
# What the database knows of a breaker

A breaker writes a row to the database at the end of an operation, and a
breaker that is created again begins with that row.  `Persisted` says that the
row has the state, the failure count and the time of the last failure that the
breaker has in memory, and that a restart would begin with them.

Every operation leaves the two in step except one: a failure that reaches the
threshold of its kind opens the circuit and returns before it writes.
-/

namespace RedRouter.Shared

/-! ## What an event does to the breaker -/

namespace System

variable {opts : BreakerOptions} {w : System}

def accounts (w : System) (call : Call) : Bool :=
  call.probe = none || call.probe = some w.breaker.halfOpenProbeGeneration

def failureOf (w : System) : BreakerEvent → Option (Option FailureKind)
  | .onFailure kind => some kind
  | .settle id (.resolved (some .failure)) =>
      (w.find id).bind fun call => if w.accounts call then some none else none
  | .settle id (.threw true kind) =>
      (w.find id).bind fun call => if w.accounts call then some kind else none
  | _ => none

/-- A failure that is accounted is all that the event does to the breaker. -/
theorem step_of_failure {event : BreakerEvent} {kind : Option FailureKind}
    (h : w.failureOf event = some kind) :
    (step opts w event).breaker = w.breaker.onFailure opts w.now kind := by
  have haccounted : ∀ {id settled}, (∀ b, CircuitBreaker.recordSettled opts w.now settled b =
      b.onFailure opts w.now kind) → ∀ call, w.find id = some call → w.accounts call = true →
      (step opts w (.settle id settled)).breaker = w.breaker.onFailure opts w.now kind := by
    intro id settled hrecord call hcall hcounts
    simp only [accounts, Bool.or_eq_true, decide_eq_true_eq] at hcounts
    simp [step, settle, hcall, CircuitBreaker.settleExecute, if_pos hcounts, hrecord]
  unfold failureOf at h
  split at h
  · cases h
    rfl
  · obtain ⟨call, hcall, hkind⟩ := Option.bind_eq_some_iff.mp h
    split at hkind
    · rename_i hcounts
      cases hkind
      exact haccounted (fun b => rfl) call hcall hcounts
    · cases hkind
  · obtain ⟨call, hcall, hkind⟩ := Option.bind_eq_some_iff.mp h
    split at hkind
    · rename_i hcounts
      cases hkind
      exact haccounted (fun b => rfl) call hcall hcounts
    · cases hkind
  · cases h

/-- A property of the breaker is kept by an event when the operations keep it
that an event can do. -/
theorem step_keeps (inv : CircuitBreaker → Prop)
    (hrefresh : ∀ b, inv b → inv (b.refreshOpenState opts w.now))
    (hpermit : ∀ b allowed started, inv b →
      inv { b with halfOpenAllowed := allowed, halfOpenProbeStartedAt := started })
    (hsuccess : inv w.breaker → inv (w.breaker.onSuccess opts w.now))
    (hreset : inv w.breaker → inv (w.breaker.reset opts w.now)) (event : BreakerEvent)
    (hfailure : ∀ kind, w.failureOf event = some kind → inv w.breaker →
      inv (w.breaker.onFailure opts w.now kind))
    (h : inv w.breaker) : inv (step opts w event).breaker := by
  cases event with
  | advance ms => exact h
  | execute =>
    have hrefreshed := hrefresh w.breaker h
    simp only [step, execute, CircuitBreaker.beginExecute]
    generalize w.breaker.refreshOpenState opts w.now = b at hrefreshed
    cases hstate : b.state with
    | opened => exact hrefreshed
    | closed => exact hrefreshed
    | degraded => exact hrefreshed
    | halfOpen =>
      by_cases hnone : b.halfOpenAllowed ≤ 0
      · rw [if_pos hnone]
        exact hrefreshed
      · rw [if_neg hnone]
        have htaken := hpermit b (b.halfOpenAllowed - 1)
          (some (b.halfOpenProbeStartedAt.getD w.now)) hrefreshed
        rw [hstate] at htaken
        exact htaken
  | canExecute => exact hrefresh w.breaker h
  | getRetryAfterMs => exact hrefresh w.breaker h
  | getStatus => exact hrefresh _ (hrefresh w.breaker h)
  | settle id settled =>
    cases hkind : w.failureOf (.settle id settled) with
    | some kind =>
      rw [step_of_failure hkind]
      exact hfailure kind hkind h
    | none =>
      simp only [step, settle]
      cases hcall : w.find id with
      | none => exact h
      | some call =>
        simp only [CircuitBreaker.settleExecute]
        by_cases hcounts : call.probe = none ∨ call.probe = some w.breaker.halfOpenProbeGeneration
        · have haccounts : w.accounts call = true := by
            simpa [accounts] using hcounts
          rw [if_pos hcounts]
          cases settled with
          | resolved outcome =>
            cases outcome with
            | none => exact hsuccess h
            | some outcome =>
              cases outcome with
              | success => exact hsuccess h
              | failure => simp [failureOf, hcall, haccounts] at hkind
              | ignore => exact h
          | threw isFailure kind =>
            cases isFailure with
            | true => simp [failureOf, hcall, haccounts] at hkind
            | false => exact h
        · rw [if_neg hcounts]
          exact h
  | onSuccess => exact hsuccess h
  | onFailure kind => exact hfailure kind rfl h
  | reset => exact hreset h

end System

/-! ## The row and the memory -/

/-- What `loadCircuitBreakerState` returns for a row: a time of 0 is read as
none. -/
def SavedBreaker.load (row : SavedBreaker) : SavedBreaker :=
  { row with lastFailureTime := if row.lastFailureTime = some 0 then none else row.lastFailureTime }

namespace CircuitBreaker

variable {opts : BreakerOptions} {now : Int} {b : CircuitBreaker}

def reload (opts : BreakerOptions) (b : CircuitBreaker) : CircuitBreaker :=
  create opts (b.saved.map SavedBreaker.load)

/-- The row is what the breaker has in memory, and a restart would begin with
it.  The code does not tell a last failure at time 0 from none. -/
structure Persisted (opts : BreakerOptions) (b : CircuitBreaker) : Prop where
  row : ∀ row, b.saved = some row → row.state = b.state ∧ row.failureCount = b.failureCount ∧
    row.lastFailureTime = b.lastFailureTime
  state : (b.reload opts).state = b.state
  failureCount : (b.reload opts).failureCount = b.failureCount
  lastFailureTime : (b.reload opts).lastFailureTime.getD 0 = b.lastFailureTime.getD 0

theorem load_lastFailureTime (row : SavedBreaker) :
    row.load.lastFailureTime.getD 0 = row.lastFailureTime.getD 0 := by
  unfold SavedBreaker.load
  split
  · rename_i hzero
    rw [hzero]
    rfl
  · rfl

theorem persisted_of_row {row : SavedBreaker} (hsaved : b.saved = some row)
    (hrow : row.state = b.state ∧ row.failureCount = b.failureCount ∧
      row.lastFailureTime = b.lastFailureTime) : Persisted opts b := by
  have hreload : b.reload opts = create opts (some row.load) := by rw [reload, hsaved]; rfl
  refine ⟨?_, ?_, ?_, ?_⟩
  · intro row' hrow'
    rw [hsaved] at hrow'
    cases hrow'
    exact hrow
  · rw [hreload]
    exact hrow.1
  · rw [hreload]
    exact hrow.2.1
  · rw [hreload, ← hrow.2.2]
    exact load_lastFailureTime row

theorem persisted_persistToDb (b : CircuitBreaker) : Persisted opts (b.persistToDb opts) :=
  persisted_of_row rfl ⟨rfl, rfl, rfl⟩

/-- Only the row, the state, the failure count and the time are looked at. -/
theorem Persisted.of_view {b' : CircuitBreaker} (h : Persisted opts b) (hsaved : b'.saved = b.saved)
    (hstate : b'.state = b.state) (hcount : b'.failureCount = b.failureCount)
    (htime : b'.lastFailureTime = b.lastFailureTime) : Persisted opts b' := by
  have hreload : b'.reload opts = b.reload opts := by rw [reload, reload, hsaved]
  refine ⟨?_, ?_, ?_, ?_⟩
  · rw [hsaved, hstate, hcount, htime]
    exact h.row
  · rw [hreload, hstate]
    exact h.state
  · rw [hreload, hcount]
    exact h.failureCount
  · rw [hreload, htime]
    exact h.lastFailureTime

theorem persisted_create (saved : Option SavedBreaker) : Persisted opts (create opts saved) := by
  cases saved with
  | none =>
    refine ⟨?_, rfl, rfl, rfl⟩
    intro row hrow
    cases hrow
  | some row => exact persisted_of_row rfl ⟨rfl, rfl, rfl⟩

theorem persisted_refreshOpenState (h : Persisted opts b) :
    Persisted opts (b.refreshOpenState opts now) := by
  unfold refreshOpenState
  split
  · exact persisted_persistToDb _
  · split
    · exact h.of_view rfl rfl rfl rfl
    · exact h

/-- The threshold of the kind is reached with this failure. -/
def TripsKind (opts : BreakerOptions) (now : Int) (kind : Option FailureKind)
    (b : CircuitBreaker) : Prop :=
  (b.countFailure now kind).kindTrips opts kind = true

theorem countFailure_counts (now : Int) (kind : Option FailureKind) (b : CircuitBreaker) :
    (b.countFailure now kind).failureCount = b.failureCount + 1 ∧
      (b.countFailure now kind).saved = b.saved := by
  cases kind <;> exact ⟨rfl, rfl⟩

/-- A failure is persisted unless it reaches the threshold of its kind: then the
failure count in memory is ahead of the row. -/
theorem persisted_onFailure (kind : Option FailureKind) (h : Persisted opts b) :
    Persisted opts (b.onFailure opts now kind) ↔ ¬ TripsKind opts now kind b := by
  unfold TripsKind onFailure
  dsimp only
  obtain ⟨hcount, hsaved⟩ := countFailure_counts now kind b
  split
  · rename_i htrips
    refine iff_of_false ?_ (fun hnot => hnot htrips)
    intro hpersisted
    have hreload : ((b.countFailure now kind).openCircuit opts now kind).reload opts =
        b.reload opts := by
      show create opts ((b.countFailure now kind).saved.map _) = _
      rw [hsaved]
      rfl
    have hahead := hpersisted.failureCount
    have hbefore := h.failureCount
    rw [hreload, hbefore] at hahead
    have hopened : ((b.countFailure now kind).openCircuit opts now kind).failureCount =
        (b.countFailure now kind).failureCount := rfl
    omega
  · rename_i htrips
    exact iff_of_true (persisted_persistToDb _) htrips

end CircuitBreaker

/-! ## Runs -/

namespace System

variable {opts : BreakerOptions}

/-- The event does not account a failure that reaches the threshold of its
kind. -/
def BelowThreshold (opts : BreakerOptions) (w : System) (event : BreakerEvent) : Prop :=
  ∀ kind, w.failureOf event = some kind → ¬ CircuitBreaker.TripsKind opts w.now kind w.breaker

theorem persisted_step (w : System) (event : BreakerEvent)
    (h : CircuitBreaker.Persisted opts w.breaker) :
    CircuitBreaker.Persisted opts (step opts w event).breaker ↔ BelowThreshold opts w event := by
  constructor
  · intro hafter kind hkind
    rw [step_of_failure hkind] at hafter
    exact (CircuitBreaker.persisted_onFailure kind h).mp hafter
  · intro hbelow
    refine step_keeps (CircuitBreaker.Persisted opts) ?_ ?_ ?_ ?_ event ?_ h
    · exact fun b hb => CircuitBreaker.persisted_refreshOpenState hb
    · exact fun b allowed started hb => hb.of_view rfl rfl rfl rfl
    · exact fun _ => CircuitBreaker.persisted_persistToDb _
    · exact fun _ => CircuitBreaker.persisted_persistToDb _
    · exact fun kind hkind hb =>
        (CircuitBreaker.persisted_onFailure kind hb).mpr (hbelow kind hkind)

/-- The row and the memory are in step in every state of a run exactly when no
failure of it reaches the threshold of its kind. -/
theorem persisted_iff (opts : BreakerOptions) (saved : Option SavedBreaker) (now : Int)
    (events : List BreakerEvent) :
    (∀ before, before <+: events →
        CircuitBreaker.Persisted opts (run opts saved now before).breaker) ↔
      ∀ before event, before ++ [event] <+: events →
        BelowThreshold opts (run opts saved now before) event :=
  Runs.prefixes_iff (fun w : System => CircuitBreaker.Persisted opts w.breaker) persisted_step
    (CircuitBreaker.persisted_create saved) events

/-- Exhausted quota opens the circuit at once. -/
def quotaOptions : BreakerOptions :=
  { kindThresholds := fun kind =>
      if kind = .quotaExhausted then some { threshold := some 1, immediateOpen := true } else none }

/-- A breaker that was opened by its first failure is closed after a restart. -/
theorem not_persisted_quota :
    ¬ ∀ before, before <+: [BreakerEvent.onFailure (some .quotaExhausted)] →
      CircuitBreaker.Persisted quotaOptions (run quotaOptions none 1000 before).breaker := by
  intro h
  have hstate := (h _ List.prefix_rfl).state
  exact absurd hstate (by decide)

end System

end RedRouter.Shared
