import RedRouter.Lib.Permits
import RedRouter.Shared.CircuitBreaker

/-!
# Probes of a half-open breaker

A half-open breaker lets a number of probes through.  They can be out for any
time, and a probe that does not come back within the reset timeout is given
up: the breaker starts a new generation with new permits.

`System` is a breaker together with the calls that are out.  Its probes are a
pool of permits (`pool`), and what an operation does to them is one of two
things (`Shift`): nothing, or a new generation.

A call that is let through by a closed or degraded breaker is no probe and
keeps no generation.  Its result counts whenever it comes, and so it can close
a breaker that was opened after the call.
-/

namespace RedRouter.Shared

open List Option

/-- A call that is out: the probe generation it keeps, and the generation of
the breaker when it was let through. -/
structure Call where
  id : Nat
  probe : Option Nat
  generation : Nat
deriving DecidableEq

structure System where
  breaker : CircuitBreaker
  calls : List Call := []
  issued : Nat := 0
  now : Int := 0
deriving DecidableEq

inductive BreakerEvent where
  | advance (ms : Nat)
  | execute
  | canExecute
  | getRetryAfterMs
  | getStatus
  | settle (id : Nat) (settled : Settled)
  /-- A caller reports a success or a failure of its own. -/
  | onSuccess
  | onFailure (kind : Option FailureKind)
  | reset

namespace System

variable {opts : BreakerOptions} {w : System}

def find (w : System) (id : Nat) : Option Call := w.calls.find? (fun call => call.id = id)

def execute (opts : BreakerOptions) (w : System) : System :=
  match w.breaker.beginExecute opts w.now with
  | (.error _, b) => { w with breaker := b }
  | (.ok probe, b) =>
      { w with
        breaker := b
        calls := w.calls ++ [⟨w.issued, probe, b.halfOpenProbeGeneration⟩]
        issued := w.issued + 1 }

def settle (opts : BreakerOptions) (id : Nat) (settled : Settled) (w : System) : System :=
  match w.find id with
  | none => w
  | some call =>
      { w with
        breaker := w.breaker.settleExecute opts w.now call.probe settled
        calls := w.calls.filter (fun call => call.id ≠ id) }

def step (opts : BreakerOptions) (w : System) : BreakerEvent → System
  | .advance ms => { w with now := w.now + ms }
  | .execute => w.execute opts
  | .canExecute => { w with breaker := (w.breaker.canExecute opts w.now).2 }
  | .getRetryAfterMs => { w with breaker := (w.breaker.getRetryAfterMs opts w.now).2 }
  | .getStatus => { w with breaker := (w.breaker.getStatus opts w.now).2 }
  | .settle id settled => w.settle opts id settled
  | .onSuccess => { w with breaker := w.breaker.onSuccess opts w.now }
  | .onFailure kind => { w with breaker := w.breaker.onFailure opts w.now kind }
  | .reset => { w with breaker := w.breaker.reset opts w.now }

/-- A breaker that is new or restored, at some time. -/
def start (opts : BreakerOptions) (saved : Option SavedBreaker) (now : Int) : System :=
  { breaker := CircuitBreaker.create opts saved, now := now }

def run (opts : BreakerOptions) (saved : Option SavedBreaker) (now : Int)
    (events : List BreakerEvent) : System :=
  events.foldl (step opts) (start opts saved now)

end System

/-! ## What an operation does to the probes -/

namespace CircuitBreaker

variable {opts : BreakerOptions} {now : Int} {b b' : CircuitBreaker}

/-- What an operation does to the probes. -/
inductive Shift (opts : BreakerOptions) (b b' : CircuitBreaker) : Prop where
  | still (hstate : b'.state = b.state) (hallowed : b'.halfOpenAllowed = b.halfOpenAllowed)
      (hstarted : b'.halfOpenProbeStartedAt = b.halfOpenProbeStartedAt)
      (hgeneration : b'.halfOpenProbeGeneration = b.halfOpenProbeGeneration) : Shift opts b b'
  | renewed (hallowed : b'.halfOpenAllowed =
        if b'.state = .halfOpen then opts.halfOpenRequests else b.halfOpenAllowed)
      (hstarted : b'.halfOpenProbeStartedAt = none)
      (hgeneration : b'.halfOpenProbeGeneration = b.halfOpenProbeGeneration + 1) : Shift opts b b'

theorem shift_refl (opts : BreakerOptions) (b : CircuitBreaker) : Shift opts b b :=
  .still rfl rfl rfl rfl

theorem shift_transition (newState : CircuitState) (reason : Option String) :
    Shift opts b (b.transition opts now newState reason) := .renewed rfl rfl rfl

theorem shift_refreshOpenState (opts : BreakerOptions) (now : Int) (b : CircuitBreaker) :
    Shift opts b (b.refreshOpenState opts now) := by
  unfold refreshOpenState
  split
  · exact .renewed rfl rfl rfl
  · split
    · rename_i hexpired
      exact .renewed (if_pos hexpired.1).symm rfl rfl
    · exact shift_refl opts b

theorem shift_onSuccess (opts : BreakerOptions) (now : Int) (b : CircuitBreaker) :
    Shift opts b (b.onSuccess opts now) := by
  unfold onSuccess
  dsimp only
  split
  · exact .renewed rfl rfl rfl
  · exact .renewed rfl rfl rfl
  · exact .still rfl rfl rfl rfl
  · split
    · exact .renewed rfl rfl rfl
    · exact .still rfl rfl rfl rfl

theorem countFailure_probes (now : Int) (kind : Option FailureKind) (b : CircuitBreaker) :
    (b.countFailure now kind).state = b.state ∧
      (b.countFailure now kind).halfOpenAllowed = b.halfOpenAllowed ∧
      (b.countFailure now kind).halfOpenProbeStartedAt = b.halfOpenProbeStartedAt ∧
      (b.countFailure now kind).halfOpenProbeGeneration = b.halfOpenProbeGeneration := by
  unfold countFailure
  split <;> exact ⟨rfl, rfl, rfl, rfl⟩

theorem shift_onFailure (opts : BreakerOptions) (now : Int) (kind : Option FailureKind)
    (b : CircuitBreaker) : Shift opts b (b.onFailure opts now kind) := by
  obtain ⟨hstate, hallowed, hstarted, hgeneration⟩ := countFailure_probes now kind b
  unfold onFailure
  dsimp only
  generalize b.countFailure now kind = c at hstate hallowed hstarted hgeneration
  have hmoved : ∀ d, Shift opts c d → Shift opts b d := by
    intro d hshift
    cases hshift with
    | still hs ha hst hg =>
      exact .still (hs.trans hstate) (ha.trans hallowed) (hst.trans hstarted) (hg.trans hgeneration)
    | renewed ha hst hg =>
      rw [hallowed] at ha
      rw [hgeneration] at hg
      exact .renewed ha hst hg
  apply hmoved
  split
  · exact shift_transition _ _
  · unfold failureTransition
    split
    · exact .still rfl rfl rfl rfl
    · exact .renewed rfl rfl rfl
    · split
      · exact .renewed rfl rfl rfl
      · exact .still rfl rfl rfl rfl
    · split
      · exact .renewed rfl rfl rfl
      · split
        · exact .renewed rfl rfl rfl
        · exact .still rfl rfl rfl rfl

theorem shift_settleExecute (opts : BreakerOptions) (now : Int) (probe : Option Nat)
    (settled : Settled) (b : CircuitBreaker) :
    Shift opts b (b.settleExecute opts now probe settled) := by
  unfold settleExecute recordSettled
  split
  · split
    · split
      · exact shift_onSuccess opts now b
      · exact shift_onFailure opts now none b
      · exact shift_refl opts b
    · split
      · exact shift_onFailure opts now _ b
      · exact shift_refl opts b
  · exact shift_refl opts b

theorem shift_reset (opts : BreakerOptions) (now : Int) (b : CircuitBreaker) :
    Shift opts b (b.reset opts now) := .renewed rfl rfl rfl

end CircuitBreaker

/-! ## The pool of probes -/

namespace System

variable {opts : BreakerOptions} {w : System}

def probes (w : System) : List Nat := w.calls.filterMap Call.probe

def pool (w : System) : Permits.Pool :=
  ⟨w.breaker.halfOpenProbeGeneration, w.breaker.halfOpenAllowed, w.probes⟩

/-- The probes are bounded, the time of the first one is known, and each keeps
the generation it was let through in. -/
structure Guarded (opts : BreakerOptions) (w : System) : Prop where
  sound : Permits.Sound opts.halfOpenRequests w.pool
  started : w.breaker.state = .halfOpen → w.breaker.halfOpenAllowed < opts.halfOpenRequests →
    w.breaker.halfOpenProbeStartedAt ≠ none
  kept : ∀ call ∈ w.calls, ∀ g, call.probe = some g → g = call.generation

section

variable (h : Guarded opts w)
include h

theorem Guarded.shift (hrequests : 1 ≤ opts.halfOpenRequests)
    {b : CircuitBreaker} (hshift : CircuitBreaker.Shift opts w.breaker b) :
    Guarded opts { w with breaker := b } := by
  cases hshift with
  | still hstate hallowed hstarted hgeneration =>
    refine ⟨?_, ?_, h.kept⟩
    · show Permits.Sound _ ⟨b.halfOpenProbeGeneration, b.halfOpenAllowed, w.probes⟩
      rw [hgeneration, hallowed]
      exact h.sound
    · show b.state = _ → b.halfOpenAllowed < _ → b.halfOpenProbeStartedAt ≠ none
      rw [hstate, hallowed, hstarted]
      exact h.started
  | renewed hallowed hstarted hgeneration =>
    have hnonneg := h.sound.free_nonneg
    have hle := h.sound.free_le
    have hbounds : 0 ≤ b.halfOpenAllowed ∧ b.halfOpenAllowed ≤ opts.halfOpenRequests := by
      rw [hallowed]
      split
      · omega
      · exact ⟨hnonneg, hle⟩
    refine ⟨?_, ?_, h.kept⟩
    · refine h.sound.renew ?_ hbounds.1 hbounds.2
      show w.breaker.halfOpenProbeGeneration < b.halfOpenProbeGeneration
      omega
    · intro hstate hless
      have hfull : b.halfOpenAllowed = opts.halfOpenRequests := by rw [hallowed, if_pos hstate]
      exact absurd hfull (Int.ne_of_lt hless)

theorem Guarded.giveBack {calls : List Call} (hsub : calls.Sublist w.calls) :
    Guarded opts { w with calls := calls } :=
  ⟨h.sound.giveBack (hsub.filterMap Call.probe), h.started,
    fun call hcall => h.kept call (hsub.subset hcall)⟩

theorem Guarded.pass {call : Call} (hprobe : call.probe = none)
    (issued : Nat) : Guarded opts { w with calls := w.calls ++ [call], issued := issued } := by
  refine ⟨?_, h.started, ?_⟩
  · have hprobes : (w.calls ++ [call]).filterMap Call.probe = w.probes := by
      rw [filterMap_append, filterMap_cons, hprobe]
      exact append_nil _
    show Permits.Sound _ ⟨_, _, (w.calls ++ [call]).filterMap Call.probe⟩
    rw [hprobes]
    exact h.sound
  · intro other hother g hg
    rcases mem_append.mp hother with hold | hnew
    · exact h.kept other hold g hg
    · rw [mem_singleton.mp hnew, hprobe] at hg
      exact absurd hg.symm (some_ne_none _)

theorem Guarded.takeProbe (hfree : 0 < w.breaker.halfOpenAllowed) (startedAt : Int) :
    Guarded opts
      { w with
        breaker :=
          { w.breaker with
            halfOpenAllowed := w.breaker.halfOpenAllowed - 1
            halfOpenProbeStartedAt := some startedAt }
        calls := w.calls ++ [⟨w.issued, some w.breaker.halfOpenProbeGeneration,
          w.breaker.halfOpenProbeGeneration⟩]
        issued := w.issued + 1 } := by
  refine ⟨?_, fun _ _ => some_ne_none _, ?_⟩
  · have htaken := h.sound.take hfree
    show Permits.Sound _ ⟨_, _, (w.calls ++ [_]).filterMap Call.probe⟩
    rw [filterMap_append]
    exact htaken
  · intro other hother g hg
    rcases mem_append.mp hother with hold | hnew
    · exact h.kept other hold g hg
    · rw [mem_singleton.mp hnew] at hg ⊢
      exact (Option.some.inj hg).symm

end

section

variable (hrequests : 1 ≤ opts.halfOpenRequests)
include hrequests

theorem guarded_start (saved : Option SavedBreaker)
    (now : Int) : Guarded opts (start opts saved now) := by
  have hbounds : 0 ≤ (CircuitBreaker.create opts saved).halfOpenAllowed ∧
      (CircuitBreaker.create opts saved).halfOpenAllowed ≤ opts.halfOpenRequests := by
    cases saved with
    | none =>
      show (0 : Int) ≤ 0 ∧ 0 ≤ opts.halfOpenRequests
      omega
    | some saved =>
      show 0 ≤ (if saved.state = .halfOpen then opts.halfOpenRequests else 0) ∧ _
      unfold CircuitBreaker.create
      dsimp only
      split <;> omega
  refine ⟨?_, ?_, fun call hcall => absurd hcall not_mem_nil⟩
  · refine ⟨hbounds.1, fun g hg => absurd hg not_mem_nil, ?_⟩
    show (([] : List Nat).count _ : Int) + (CircuitBreaker.create opts saved).halfOpenAllowed ≤ _
    rw [count_nil]
    push_cast
    omega
  · intro hstate hless
    cases saved with
    | none => exact absurd hstate (by simp [start, CircuitBreaker.create])
    | some saved =>
      have hfull : (CircuitBreaker.create opts (some saved)).halfOpenAllowed =
        opts.halfOpenRequests := if_pos hstate
      exact absurd hfull (Int.ne_of_lt hless)

theorem guarded_execute (h : Guarded opts w) : Guarded opts (w.execute opts) := by
  have hrefreshed := h.shift hrequests (CircuitBreaker.shift_refreshOpenState opts w.now w.breaker)
  unfold execute CircuitBreaker.beginExecute
  dsimp only
  generalize w.breaker.refreshOpenState opts w.now = b at hrefreshed
  cases hstate : b.state with
  | opened => exact hrefreshed
  | closed => exact hrefreshed.pass rfl _
  | degraded => exact hrefreshed.pass rfl _
  | halfOpen =>
    by_cases hnone : b.halfOpenAllowed ≤ 0
    · rw [if_pos hnone]
      exact hrefreshed
    · rw [if_neg hnone]
      have htaken := hrefreshed.takeProbe (by show 0 < b.halfOpenAllowed; omega)
        (b.halfOpenProbeStartedAt.getD w.now)
      dsimp only at htaken
      rw [hstate] at htaken
      exact htaken

theorem guarded_step (event : BreakerEvent)
    (h : Guarded opts w) : Guarded opts (step opts w event) := by
  cases event with
  | advance ms => exact { h with }
  | execute => exact guarded_execute hrequests h
  | canExecute => exact h.shift hrequests (CircuitBreaker.shift_refreshOpenState opts w.now _)
  | getRetryAfterMs => exact h.shift hrequests (CircuitBreaker.shift_refreshOpenState opts w.now _)
  | getStatus =>
    have hrefreshed := h.shift hrequests
      (CircuitBreaker.shift_refreshOpenState opts w.now w.breaker)
    exact hrefreshed.shift hrequests (CircuitBreaker.shift_refreshOpenState opts w.now _)
  | settle id settled =>
    show Guarded opts (w.settle opts id settled)
    unfold settle
    split
    · exact h
    · rename_i call _
      have hsettled := h.shift hrequests
        (CircuitBreaker.shift_settleExecute opts w.now call.probe settled w.breaker)
      exact hsettled.giveBack (filter_sublist)
  | onSuccess => exact h.shift hrequests (CircuitBreaker.shift_onSuccess opts w.now _)
  | onFailure kind => exact h.shift hrequests (CircuitBreaker.shift_onFailure opts w.now kind _)
  | reset => exact h.shift hrequests (CircuitBreaker.shift_reset opts w.now _)

theorem guarded_run (saved : Option SavedBreaker)
    (now : Int) (events : List BreakerEvent) : Guarded opts (run opts saved now events) := by
  have hloop : ∀ (events : List BreakerEvent) (w : System), Guarded opts w →
      Guarded opts (events.foldl (step opts) w) := by
    intro events
    induction events with
    | nil => exact fun _ h => h
    | cons event events ih => exact fun w h => ih _ (guarded_step hrequests event h)
  exact hloop events _ (guarded_start hrequests saved now)

end

/-! ## Recovery -/

/-- A breaker that turns a call away names a time at which it lets one
through. -/
def Recovers (opts : BreakerOptions) (w : System) : Prop :=
  (w.breaker.canExecute opts w.now).1 = false →
    ∃ ms, ((w.breaker.canExecute opts w.now).2.getRetryAfterMs opts w.now).1 = some ms ∧
      (((w.breaker.canExecute opts w.now).2.getRetryAfterMs opts w.now).2.canExecute opts
        (w.now + ms)).1 = true

/-- The backoff factor of a cooldown of zero is finite. -/
def Paced (opts : BreakerOptions) (b : CircuitBreaker) : Prop :=
  b.baseCooldown opts = 0 → b.openCycleCount < opts.backoffEscalationCount + 1024

end System

namespace CircuitBreaker

variable {opts : BreakerOptions} {now : Int} {b : CircuitBreaker}

theorem effectiveCooldown_of_paced (h : System.Paced opts b) :
    ∃ ms, b.effectiveCooldown opts = some ms := by
  unfold effectiveCooldown escalated pow2
  split
  · exact ⟨_, rfl⟩
  · by_cases hzero : b.baseCooldown opts = 0
    · have hcycles := h hzero
      rw [if_pos (by omega)]
      exact ⟨_, rfl⟩
    · rw [if_neg hzero]
      split <;> exact ⟨_, rfl⟩

theorem elapsed_remaining {cooldown since : Int} :
    ∃ ms, remaining (some cooldown) since now = some ms ∧
      elapsed (some cooldown) since (now + ms) = true := by
  refine ⟨_, rfl, ?_⟩
  simp only [elapsed, decide_eq_true_eq]
  omega

section

variable (hrequests : 1 ≤ opts.halfOpenRequests)
include hrequests

/-- A refreshed breaker that turns a call away was not changed by it: it is
open before its time, or its probes are all out and not expired. -/
theorem refresh_of_blocked (h : (b.canExecute opts now).1 = false) :
    b.refreshOpenState opts now = b ∧ (b.state = .opened ∧ b.shouldAttemptReset opts now = false ∨
        b.state = .halfOpen ∧ b.halfOpenAllowed ≤ 0) := by
  unfold canExecute refreshOpenState at h
  unfold refreshOpenState
  by_cases hreset : b.state = .opened ∧ b.shouldAttemptReset opts now = true
  · rw [if_pos hreset] at h
    have hallowed : ¬ opts.halfOpenRequests > 0 := by simpa [transition, persistToDb] using h
    omega
  · rw [if_neg hreset] at h ⊢
    by_cases hexpired : b.state = .halfOpen ∧ b.probesExpired opts now = true
    · rw [if_pos hexpired] at h
      have hallowed : ¬ opts.halfOpenRequests > 0 := by simpa [rearm, hexpired.1] using h
      omega
    · rw [if_neg hexpired] at h ⊢
      refine ⟨rfl, ?_⟩
      cases hstate : b.state with
      | closed => simp [hstate] at h
      | degraded => simp [hstate] at h
      | opened =>
        refine Or.inl ⟨rfl, ?_⟩
        simpa [hstate] using hreset
      | halfOpen =>
        refine Or.inr ⟨rfl, ?_⟩
        simpa [hstate] using h

theorem canExecute_of_reset (hstate : b.state = .opened)
    (hreset : b.shouldAttemptReset opts now = true) : (b.canExecute opts now).1 = true := by
  unfold canExecute refreshOpenState
  rw [if_pos ⟨hstate, hreset⟩]
  show decide (opts.halfOpenRequests > 0) = true
  exact decide_eq_true (by omega)

/-- A half-open breaker whose probes are expired lets a call through. -/
theorem canExecute_of_expired (hstate : b.state = .halfOpen) (hexpired : b.probesExpired opts now = true) :
    (b.canExecute opts now).1 = true := by
  unfold canExecute refreshOpenState
  rw [if_neg (by rw [hstate]; simp), if_pos ⟨hstate, hexpired⟩]
  have hallowed : opts.halfOpenRequests > 0 := by omega
  simp [rearm, hstate, hallowed]

theorem recovers_of_opened (hpaced : System.Paced opts b)
    (hstate : b.state = .opened) (hwaits : b.shouldAttemptReset opts now = false) :
    ∃ ms, b.timeUntilReset opts now = some ms ∧ (b.canExecute opts (now + ms)).1 = true := by
  obtain ⟨cooldown, hcooldown⟩ := effectiveCooldown_of_paced hpaced
  unfold shouldAttemptReset at hwaits
  by_cases hnever : b.lastFailureTime.getD 0 = 0
  · rw [if_pos hnever] at hwaits
    exact absurd hwaits.symm Bool.false_ne_true
  · obtain ⟨ms, hms, helapsed⟩ := @elapsed_remaining now cooldown (b.lastFailureTime.getD 0)
    refine ⟨ms, ?_, canExecute_of_reset hrequests hstate ?_⟩
    · unfold timeUntilReset
      rw [hstate]
      rw [if_neg hnever, hcooldown]
      exact hms
    · unfold shouldAttemptReset
      rw [if_neg hnever, hcooldown]
      exact helapsed

theorem recovers_of_halfOpen (hstate : b.state = .halfOpen) (hnone : b.halfOpenAllowed ≤ 0)
    (hstarted : b.halfOpenProbeStartedAt ≠ none) :
    ∃ ms, b.timeUntilReset opts now = some ms ∧ (b.canExecute opts (now + ms)).1 = true := by
  obtain ⟨startedAt, hstartedAt⟩ := ne_none_iff_exists'.mp hstarted
  obtain ⟨ms, hms, helapsed⟩ := @elapsed_remaining now opts.resetTimeout startedAt
  refine ⟨ms, ?_, canExecute_of_expired hrequests hstate ?_⟩
  · unfold timeUntilReset
    rw [hstate, hstartedAt]
    exact hms
  · unfold probesExpired
    rw [hstartedAt]
    simp only [Bool.and_eq_true, decide_eq_true_eq]
    exact ⟨hnone, helapsed⟩

end

end CircuitBreaker

/-! ## Probe safety -/

namespace System

variable {opts : BreakerOptions} {w : System}

theorem Guarded.recovers (h : Guarded opts w) (hrequests : 1 ≤ opts.halfOpenRequests)
    (hpaced : Paced opts w.breaker) : Recovers opts w := by
  intro hblocked
  obtain ⟨hsame, hcases⟩ := CircuitBreaker.refresh_of_blocked hrequests hblocked
  have hfirst : (w.breaker.canExecute opts w.now).2 = w.breaker := hsame
  have hsecond : (w.breaker.getRetryAfterMs opts w.now).2 = w.breaker := hsame
  have hretry : (w.breaker.getRetryAfterMs opts w.now).1 = w.breaker.timeUntilReset opts w.now := by
    unfold CircuitBreaker.getRetryAfterMs
    dsimp only
    rw [hsame]
    rcases hcases with ⟨hstate, -⟩ | ⟨hstate, -⟩
    all_goals rw [hstate]
  rw [hfirst, hsecond, hretry]
  rcases hcases with ⟨hstate, hwaits⟩ | ⟨hstate, hnone⟩
  · exact CircuitBreaker.recovers_of_opened hrequests hpaced hstate hwaits
  · exact CircuitBreaker.recovers_of_halfOpen hrequests hstate hnone (h.started hstate (by omega))

def counters (b : CircuitBreaker) : CircuitState × Nat × Nat × Nat × JsMap FailureKind Nat × Int :=
  (b.state, b.failureCount, b.successCount, b.openCycleCount, b.kindFailureCounts,
    b.halfOpenAllowed)

/-- The results of the calls of an older generation change neither the state
nor the counters. -/
def StaleIgnored (opts : BreakerOptions) (fenced : Call → Prop) (w : System) : Prop :=
  ∀ call ∈ w.calls, fenced call → call.generation < w.breaker.halfOpenProbeGeneration →
    ∀ settled, counters (w.breaker.settleExecute opts w.now call.probe settled) = counters w.breaker

def Bounded (opts : BreakerOptions) (w : System) : Prop :=
  0 ≤ w.breaker.halfOpenAllowed ∧
    (w.probes.count w.breaker.halfOpenProbeGeneration : Int) ≤ max 1 opts.halfOpenRequests ∧
    (w.breaker.state = .halfOpen → w.breaker.halfOpenAllowed ≤ 0 →
      w.breaker.halfOpenProbeStartedAt ≠ none)

theorem Guarded.bounded (h : Guarded opts w) (hrequests : 1 ≤ opts.halfOpenRequests) :
    Bounded opts w := by
  refine ⟨h.sound.free_nonneg, ?_, ?_⟩
  · have hcount := h.sound.count_le
    exact Int.le_trans hcount (Int.le_max_right _ _)
  · intro hstate hnone
    exact h.started hstate (by omega)

theorem Guarded.staleIgnored (h : Guarded opts w) :
    StaleIgnored opts (fun call => call.probe ≠ none) w := by
  intro call hcall hprobe hold settled
  obtain ⟨g, hg⟩ := ne_none_iff_exists'.mp hprobe
  have hkept := h.kept call hcall g hg
  unfold CircuitBreaker.settleExecute
  rw [if_neg]
  rintro (hnone | hcurrent)
  · exact hprobe hnone
  · rw [hg] at hcurrent
    have hsame := Option.some.inj hcurrent
    omega

/-- A breaker that lets at least one probe through bounds and times its probes
in every state of every run, ignores those of older generations, and recovers
as long as its cooldown is a number. -/
theorem probesSafe (opts : BreakerOptions) (hrequests : 1 ≤ opts.halfOpenRequests)
    (saved : Option SavedBreaker) (now : Int) (events : List BreakerEvent) :
    Bounded opts (run opts saved now events) ∧
      StaleIgnored opts (fun call => call.probe ≠ none) (run opts saved now events) ∧
      (Paced opts (run opts saved now events).breaker →
        Recovers opts (run opts saved now events)) := by
  have hguarded := guarded_run hrequests saved now events
  exact ⟨hguarded.bounded hrequests, hguarded.staleIgnored,
    fun hpaced => hguarded.recovers hrequests hpaced⟩

/-- The probe of the first generation is given up, and that of the second is
out as well. -/
def probeRun : List BreakerEvent :=
  [.execute, .settle 0 (.threw true none), .advance 30000, .execute, .advance 30000, .execute]

theorem probesSafe_probeRun : (run { failureThreshold := 1 } none 1000 probeRun).probes = [2, 3] ∧
      Bounded { failureThreshold := 1 } (run { failureThreshold := 1 } none 1000 probeRun) ∧
      Recovers { failureThreshold := 1 } (run { failureThreshold := 1 } none 1000 probeRun) := by
  obtain ⟨hbounded, -, hrecovers⟩ :=
    probesSafe { failureThreshold := 1 } (by decide) none 1000 probeRun
  refine ⟨by decide +kernel, hbounded, hrecovers ?_⟩
  intro hzero
  exact absurd hzero (by decide +kernel)

/-- What is asked of every call, probe or not. -/
def ProbeSafe (opts : BreakerOptions) (w : System) : Prop :=
  Bounded opts w ∧ StaleIgnored opts (fun _ => True) w ∧ Recovers opts w

/-- Two calls of a closed breaker, of which one fails. -/
def lateRun : List BreakerEvent := [.execute, .execute, .settle 1 (.threw true none)]

/-- A breaker that lets no probe through becomes half-open. -/
def wedgedRun : List BreakerEvent :=
  [.execute, .settle 0 (.threw true none), .advance 30000, .canExecute]

/-- A breaker that was opened for the 1028th time. -/
def worn : SavedBreaker where
  state := .opened
  failureCount := 1028
  lastFailureTime := some 1000
  failureThreshold := 1
  resetTimeout := 0
  halfOpenRequests := 1
  lastFailureKind := none
  openCycleCount := 1027
  kindFailureCounts := []

/-- The late success of the first call closes the opened breaker; a breaker
without probes stays half-open; a cooldown of zero is no number after 1024
escalations. -/
theorem not_probeSafe : ¬ ProbeSafe { failureThreshold := 1 }
        (run { failureThreshold := 1 } none 1000 lateRun) ∧
      ¬ ProbeSafe { failureThreshold := 1, halfOpenRequests := 0 }
        (run { failureThreshold := 1, halfOpenRequests := 0 } none 1000 wedgedRun) ∧
      ¬ ProbeSafe { failureThreshold := 1, resetTimeout := 0 }
        (run { failureThreshold := 1, resetTimeout := 0 } (some worn) 1000 [.advance 5000]) := by
  refine ⟨?_, ?_, ?_⟩
  · rintro ⟨-, hstale, -⟩
    have hsame := hstale ⟨0, none, 0⟩ (by decide +kernel) trivial (by decide +kernel)
      (.resolved none)
    exact absurd (congrArg Prod.fst hsame) (by decide +kernel)
  · rintro ⟨⟨-, -, htimed⟩, -, -⟩
    exact absurd (htimed (by decide +kernel) (by decide +kernel)) (by decide +kernel)
  · rintro ⟨-, -, hrecovers⟩
    obtain ⟨ms, hms, -⟩ := hrecovers (by decide +kernel)
    have hnan : (((run { failureThreshold := 1, resetTimeout := 0 } (some worn) 1000
        [.advance 5000]).breaker.canExecute { failureThreshold := 1, resetTimeout := 0 }
        6000).2.getRetryAfterMs { failureThreshold := 1, resetTimeout := 0 } 6000).1 = none := by
      decide +kernel
    exact absurd (hnan.symm.trans hms).symm (some_ne_none _)

end System

end RedRouter.Shared
