import RedRouter.Lib.Runs
import RedRouter.Utils.ResourcePressure

/-!
# The hysteresis of the pressure tracker

The severity rises after a number of samples of one level and falls after a
number of samples that are recovered, and the thresholds of the two are apart:
a sample with a level is not recovered (`isRecovered_of_level`).

`Observed` is what a streak means: the last samples of the run were of the
pending level, or recovered.
-/

namespace RedRouter.Utils

open Runs Option

/-! ## The thresholds -/

/-- What the proofs use of thresholds that are accepted. -/
structure Accepted (t : ResourcePressureThresholds) : Prop where
  ratio_high : t.recoveryRatio < t.highRatio
  ratio_critical : t.highRatio < t.criticalRatio
  psi_high : t.recoveryPsiAvg10 < t.highPsiAvg10
  psi_critical : t.highPsiAvg10 < t.criticalPsiAvg10

theorem bind_eq_ok {ε α β : Type} {x : Except ε α} {f : α → Except ε β} {b : β}
    (h : (x >>= f) = .ok b) : ∃ c, x = .ok c ∧ f c = .ok b := by
  cases x with
  | error e => cases h
  | ok c => exact ⟨c, rfl, h⟩

theorem of_requireOrder {name : String} {recovery high critical : JsNumber} {u : Unit}
    (h : requireOrder name recovery high critical = .ok u) : recovery < high ∧ high < critical := by
  unfold requireOrder at h
  split at h
  · assumption
  · cases h

theorem accepted_of_resolve {t t' : ResourcePressureThresholds}
    (h : resolveResourcePressureThresholds t = .ok t') : t' = t ∧ Accepted t := by
  obtain ⟨-, -, h⟩ := bind_eq_ok h
  obtain ⟨-, -, h⟩ := bind_eq_ok h
  obtain ⟨-, -, h⟩ := bind_eq_ok h
  obtain ⟨_, hratio, h⟩ := bind_eq_ok h
  obtain ⟨-, -, h⟩ := bind_eq_ok h
  obtain ⟨-, -, h⟩ := bind_eq_ok h
  obtain ⟨-, -, h⟩ := bind_eq_ok h
  obtain ⟨_, hpsi, h⟩ := bind_eq_ok h
  obtain ⟨-, -, h⟩ := bind_eq_ok h
  obtain ⟨-, -, h⟩ := bind_eq_ok h
  obtain ⟨-, -, h⟩ := bind_eq_ok h
  obtain ⟨-, -, h⟩ := bind_eq_ok h
  obtain ⟨hhigh, hcritical⟩ := of_requireOrder hratio
  obtain ⟨hpsiHigh, hpsiCritical⟩ := of_requireOrder hpsi
  cases h
  exact ⟨rfl, hhigh, hcritical, hpsiHigh, hpsiCritical⟩

theorem resolve_default : resolveResourcePressureThresholds defaultResourcePressureThresholds =
      .ok defaultResourcePressureThresholds := by
  decide +kernel

/-! ## A level excludes recovery -/

variable {a : Arithmetic} {t : ResourcePressureThresholds}

theorem aboveRecovery_of_ratioLevel (hacc : Accepted t) {used limit : Option JsNumber}
    {reason : PressureReason} {level : RawLevel}
    (h : ratioLevel a t used limit reason = some level) :
    aboveRecovery a t used limit = true := by
  cases used with
  | none => cases h
  | some used =>
    cases limit with
    | none => cases h
    | some limit =>
      simp only [ratioLevel] at h
      split at h
      · cases h
      · rename_i hvalid
        have habove : t.highRatio ≤ a.div used limit ∨ t.criticalRatio ≤ a.div used limit := by
          split at h
          · exact .inr ‹_›
          · split at h
            · exact .inl ‹_›
            · cases h
        have hratio : t.recoveryRatio < a.div used limit := by
          obtain hhigh | hcritical := habove
          · exact JsNumber.lt_trans_le hacc.ratio_high hhigh
          · exact JsNumber.lt_trans_le (JsNumber.lt_trans_lt hacc.ratio_high hacc.ratio_critical)
              hcritical
        have hlimit : limit ≠ .nan := by
          rintro rfl
          rw [a.div_nan] at hratio
          exact JsNumber.not_lt_nan _ hratio
        have hpositive : (0 : JsNumber) < limit := by
          refine JsNumber.lt_of_not_le (fun hle => hvalid (.inr hle)) hlimit ?_
          intro hzero
          cases hzero
        simp [aboveRecovery, hpositive, hratio]

theorem aboveRecovery_of_cgroupHighLevel (hacc : Accepted t) {signals : ResourceSignals}
    {previous : Option ThrottleCounters} {level : RawLevel}
    (h : cgroupHighLevel a t signals previous = some level) :
    aboveRecovery a t signals.currentBytes signals.highBytes = true := by
  cases hratio : ratioLevel a t signals.currentBytes signals.highBytes .cgroupHigh with
  | some level => exact aboveRecovery_of_ratioLevel hacc hratio
  | none =>
    simp only [cgroupHighLevel, hratio] at h
    cases h

theorem aboveRecovery_of_psiLevel (hacc : Accepted t) {value : Option JsNumber}
    {reason : PressureReason} {level : RawLevel} (h : psiLevel t value reason = some level) :
    value.any (t.recoveryPsiAvg10 < ·) = true := by
  cases value with
  | none => cases h
  | some value =>
    have hvalue : t.recoveryPsiAvg10 < value := by
      simp only [psiLevel] at h
      split at h
      · cases h
      · split at h
        · rename_i hcritical
          exact JsNumber.lt_trans_le (JsNumber.lt_trans_lt hacc.psi_high hacc.psi_critical) hcritical
        · split at h
          · exact JsNumber.lt_trans_le hacc.psi_high ‹_›
          · cases h
    simp [hvalue]

/-- A recovered sample has no level: some metric of a sample with a level is
above its recovery threshold. -/
theorem level_of_isRecovered (hacc : Accepted t) {signals : ResourceSignals}
    (h : isRecovered a t signals = true) (previous : Option ThrottleCounters) :
    classifyAdaptiveResourcePressureWithHistory a t signals previous = ⟨.normal, .none⟩ := by
  unfold isRecovered at h
  split at h
  · cases h
  · rename_i hratios
    simp only [Bool.or_eq_true, not_or] at hratios
    obtain ⟨⟨hheap, hset⟩, hmark⟩ := hratios
    have hlevels : ratioLevel a t (some signals.heapUsedBytes) (some signals.heapLimitBytes)
          .v8HeapRatio = none ∧
        ratioLevel a t (workingSetBytes a signals) signals.maxBytes .cgroupRatio = none ∧
        cgroupHighLevel a t signals previous = none := by
      refine ⟨?_, ?_, ?_⟩
      · exact eq_none_iff_forall_ne_some.mpr fun level hlevel =>
          hheap (aboveRecovery_of_ratioLevel hacc hlevel)
      · exact eq_none_iff_forall_ne_some.mpr fun level hlevel =>
          hset (aboveRecovery_of_ratioLevel hacc hlevel)
      · exact eq_none_iff_forall_ne_some.mpr fun level hlevel =>
          hmark (aboveRecovery_of_cgroupHighLevel hacc hlevel)
    obtain ⟨hlevel1, hlevel2, hlevel3⟩ := hlevels
    simp only [classifyAdaptiveResourcePressureWithHistory, hlevel1, hlevel2, hlevel3, maxLevel]
    split at h
    · cases h
    · split at h
      · rename_i hdisabled
        rw [if_pos hdisabled]
      · simp only [Bool.not_eq_true', Bool.or_eq_false_iff] at h
        obtain ⟨hsome, hfull⟩ := h
        have hpsi : psiLevel t (signals.psi.bind (·.someAvg10)) .psiSome = none ∧
            psiLevel t (signals.psi.bind (·.fullAvg10)) .psiFull = none := by
          refine ⟨?_, ?_⟩
          · refine eq_none_iff_forall_ne_some.mpr fun level hlevel => ?_
            rw [aboveRecovery_of_psiLevel hacc hlevel] at hsome
            cases hsome
          · refine eq_none_iff_forall_ne_some.mpr fun level hlevel => ?_
            rw [aboveRecovery_of_psiLevel hacc hlevel] at hfull
            cases hfull
        simp [hpsi.1, hpsi.2]

/-! ## What a sample does -/

namespace ResourcePressureTracker

variable {tr : ResourcePressureTracker} {signals : ResourceSignals}

@[simp] theorem observe_severity (tr : ResourcePressureTracker) (signals : ResourceSignals) :
    (tr.observe a t signals).state.severity = (tr.advance a t signals).1.severity := rfl

@[simp] theorem observe_elevatedStreak (tr : ResourcePressureTracker) (signals : ResourceSignals) :
    (tr.observe a t signals).state.elevatedStreak = (tr.advance a t signals).1.elevatedStreak := rfl

@[simp] theorem observe_recoveryStreak (tr : ResourcePressureTracker) (signals : ResourceSignals) :
    (tr.observe a t signals).state.recoveryStreak = (tr.advance a t signals).1.recoveryStreak := rfl

@[simp] theorem observe_pending (tr : ResourcePressureTracker) (signals : ResourceSignals) :
    (tr.observe a t signals).pending = (tr.advance a t signals).2 := rfl

theorem advanceNormal_rises {raw : RawLevel} (hnormal : tr.state.severity = .normal)
    (h : (tr.advanceNormal t raw).1.severity ≠ .normal) :
    (tr.advanceNormal t raw).1.severity = raw.severity ∧
      sustained t raw.severity ≤ tr.streakWith raw := by
  unfold advanceNormal at h ⊢
  split
  · rename_i hlevel
    rw [if_pos hlevel] at h
    exact absurd hnormal h
  · rename_i hlevel
    rw [if_neg hlevel] at h
    split
    · exact ⟨rfl, ‹_›⟩
    · rename_i hfew
      rw [if_neg hfew] at h
      exact absurd hnormal h

/-- What stays pending at a normal severity is the level of the sample. -/
theorem advanceNormal_pending {raw level : RawLevel} (h : (tr.advanceNormal t raw).2 = some level) :
    raw = level ∧ (tr.advanceNormal t raw).1.elevatedStreak = tr.streakWith level := by
  unfold advanceNormal at h ⊢
  split
  · rename_i hlevel
    rw [if_pos hlevel] at h
    cases h
  · rename_i hlevel
    rw [if_neg hlevel] at h
    split
    · rename_i henough
      rw [if_pos henough] at h
      cases h
    · rename_i hfew
      rw [if_neg hfew] at h
      cases h
      exact ⟨rfl, rfl⟩

theorem advanceNormal_recoveryStreak (tr : ResourcePressureTracker) (raw : RawLevel) :
    (tr.advanceNormal t raw).1.recoveryStreak = 0 := by
  unfold advanceNormal
  split
  · rfl
  · split <;> rfl

/-- An elevated severity falls to normal on enough recovered samples; else
nothing is pending at a normal severity. -/
theorem advanceElevated_recovers {raw : RawLevel} (helevated : tr.state.severity ≠ .normal)
    (h : (tr.advanceElevated a t raw signals).1.severity = .normal) :
    isRecovered a t signals = true ∧
      t.sustainedSamplesRecovery ≤ (tr.state.recoveryStreak + 1 : Nat) ∧
      (tr.advanceElevated a t raw signals).2 = none := by
  unfold advanceElevated at h ⊢
  by_cases hhigh : tr.state.severity = .high ∧ raw.severity = .critical
  · rw [if_pos hhigh] at h
    split at h
    · cases h
    · exact absurd h helevated
  · rw [if_neg hhigh] at h ⊢
    by_cases hsame : raw.severity = tr.state.severity
    · rw [if_pos hsame] at h
      exact absurd h helevated
    · rw [if_neg hsame] at h ⊢
      by_cases hrecovered : isRecovered a t signals = true
      · rw [if_pos hrecovered] at h ⊢
        split at h
        · rename_i henough
          rw [if_pos henough]
          exact ⟨hrecovered, henough, rfl⟩
        · exact absurd h helevated
      · rw [if_neg hrecovered] at h
        exact absurd h helevated

theorem advanceElevated_of_critical {raw : RawLevel} (hcritical : tr.state.severity = .critical) :
    (tr.advanceElevated a t raw signals).1.severity ≠ .high := by
  unfold advanceElevated
  rw [if_neg (by simp [hcritical])]
  split
  · simp [hcritical]
  · split
    · split
      · simp
      · simp [hcritical]
    · simp [hcritical]

theorem advanceElevated_recoveryStreak (tr : ResourcePressureTracker) (raw : RawLevel)
    (signals : ResourceSignals) :
    (tr.advanceElevated a t raw signals).1.recoveryStreak = 0 ∨ (isRecovered a t signals = true ∧
        (tr.advanceElevated a t raw signals).1.recoveryStreak = tr.state.recoveryStreak + 1) := by
  unfold advanceElevated
  dsimp only
  split
  · split <;> exact .inl rfl
  · split
    · exact .inl rfl
    · split
      · rename_i hrecovered
        split
        · exact .inl rfl
        · exact .inr ⟨hrecovered, rfl⟩
      · exact .inl rfl

theorem advance_of_oom (h : tr.oomEvent signals = true) :
    (tr.advance a t signals).1.severity = .critical ∧
      (tr.advance a t signals).1.recoveryStreak = 0 := by
  rw [advance, if_pos h]
  exact ⟨rfl, rfl⟩

theorem advance_of_normal (hoom : tr.oomEvent signals = false) (h : tr.state.severity = .normal) :
    tr.advance a t signals = tr.advanceNormal t (tr.rawLevel a t signals) := by
  rw [advance, if_neg (by simp [hoom]), if_pos h]

theorem advance_of_elevated (hoom : tr.oomEvent signals = false) (h : tr.state.severity ≠ .normal) :
    tr.advance a t signals = tr.advanceElevated a t (tr.rawLevel a t signals) signals := by
  rw [advance, if_neg (by simp [hoom]), if_neg h]

/-- A level is pending at a normal severity only when it was the level of this
sample at a normal severity. -/
theorem advance_pending {level : RawLevel} (h : (tr.advance a t signals).2 = some level)
    (hnormal : (tr.advance a t signals).1.severity = .normal) :
    tr.state.severity = .normal ∧ tr.rawLevel a t signals = level ∧
      (tr.advance a t signals).1.elevatedStreak = tr.streakWith level := by
  cases hoom : tr.oomEvent signals with
  | true =>
    rw [(advance_of_oom hoom).1] at hnormal
    cases hnormal
  | false =>
    by_cases hbefore : tr.state.severity = .normal
    · rw [advance_of_normal hoom hbefore] at h ⊢
      exact ⟨hbefore, advanceNormal_pending h⟩
    · rw [advance_of_elevated hoom hbefore] at h hnormal
      rw [(advanceElevated_recovers hbefore hnormal).2.2] at h
      cases h

/-- The recovery streak is broken or goes on with a recovered sample. -/
theorem advance_recoveryStreak (tr : ResourcePressureTracker) (signals : ResourceSignals) :
    (tr.advance a t signals).1.recoveryStreak = 0 ∨
      (tr.state.severity ≠ .normal ∧ isRecovered a t signals = true ∧
        (tr.advance a t signals).1.recoveryStreak = tr.state.recoveryStreak + 1) := by
  cases hoom : tr.oomEvent signals with
  | true => exact .inl (advance_of_oom hoom).2
  | false =>
    by_cases hbefore : tr.state.severity = .normal
    · rw [advance_of_normal hoom hbefore]
      exact .inl (advanceNormal_recoveryStreak tr _)
    · rw [advance_of_elevated hoom hbefore]
      exact (advanceElevated_recoveryStreak tr _ signals).imp_right fun h => ⟨hbefore, h⟩

/-! ## What the streaks mean -/

/-- The samples that the streaks count. -/
structure Observed (a : Arithmetic) (t : ResourcePressureThresholds)
    (samples : List ResourceSignals) : Prop where
  elevated : ∀ level, (run a t samples).pending = some level →
    (run a t samples).state.severity = .normal →
      Lately (observe a t) (fun tr signals => tr.rawLevel a t signals = level) {} samples
        (run a t samples).state.elevatedStreak
  recovering : Lately (observe a t)
    (fun tr signals => tr.state.severity ≠ .normal ∧ isRecovered a t signals = true) {} samples
    (run a t samples).state.recoveryStreak
  counters : (run a t samples).previousOom =
      (samples.getLast?.bind (·.events)).map MemoryEvents.ooms ∧
    (run a t samples).previousEvents = (samples.getLast?.bind (·.events)).map MemoryEvents.throttle

theorem run_concat (samples : List ResourceSignals) (signals : ResourceSignals) :
    run a t (samples ++ [signals]) = (run a t samples).observe a t signals := by
  simp [run]

theorem lately_streakWith {samples : List ResourceSignals} {level : RawLevel}
    (h : Observed a t samples) (hnormal : (run a t samples).state.severity = .normal)
    (hlevel : (run a t samples).rawLevel a t signals = level) :
    Lately (observe a t) (fun tr signals => tr.rawLevel a t signals = level) {}
      (samples ++ [signals]) ((run a t samples).streakWith level) := by
  unfold streakWith
  split
  · rename_i hpending
    exact (h.elevated level hpending hnormal).concat hlevel
  · exact lately_one hlevel

theorem observed_run (samples : List ResourceSignals) : Observed a t samples := by
  induction samples using List.reverseRecOn with
  | nil =>
    refine ⟨?_, lately_zero _ _, rfl, rfl⟩
    intro level hpending
    cases hpending
  | append_singleton samples signals ih =>
    refine ⟨?_, ?_, ?_⟩
    · intro level hpending hnormal
      rw [run_concat] at hpending hnormal ⊢
      obtain ⟨hbefore, hlevel, hstreak⟩ := advance_pending hpending hnormal
      rw [observe_elevatedStreak, hstreak]
      exact lately_streakWith ih hbefore hlevel
    · rw [run_concat, observe_recoveryStreak]
      obtain hzero | ⟨helevated, hrecovered, hnext⟩ :=
        advance_recoveryStreak (a := a) (t := t) (run a t samples) signals
      · rw [hzero]
        exact lately_zero _ _
      · rw [hnext]
        exact ih.recovering.concat ⟨helevated, hrecovered⟩
    · rw [run_concat]
      simp [observe]

/-! ## Counters that are reset -/

/-- The counters went down since the last sample, or at least not up. -/
structure NoIncrease (previous current : MemoryEvents) : Prop where
  ooms : countersReset previous.ooms current.ooms = true ∨
    hasCounterIncrease previous.ooms current.ooms = false
  throttle : throttleCountersReset previous.throttle current.throttle = true ∨
    hasCounterIncreaseGeneric previous.throttle current.throttle = false

theorem increased_self (counter : Option JsNumber) : increased counter counter = false := by
  cases counter with
  | none => rfl
  | some counter => simp [increased, JsNumber.not_lt_self]

theorem not_reset_self (counters : ThrottleCounters) :
    throttleCountersReset counters counters = false := by
  simp [throttleCountersReset, increased_self]

theorem not_increase_self (counters : ThrottleCounters) :
    hasCounterIncreaseGeneric counters counters = false := by
  simp [hasCounterIncreaseGeneric, increased_self]

theorem noIncrease_self (events : MemoryEvents) : NoIncrease events events := by
  refine ⟨.inr ?_, .inr (not_increase_self _)⟩
  simp [hasCounterIncrease, increased_self]

/-- Counters that do not go up prove nothing, so only the stall information of
the control group does. -/
theorem hasKernelThrottleProof_of_noIncrease {previous current : MemoryEvents}
    (hno : NoIncrease previous current) (htr : tr.previousEvents = some previous.throttle)
    (hevents : signals.events = some current) :
    hasKernelThrottleProof signals (tr.comparedEvents signals) =
      if signals.psi.isNone || signals.psiDisabled then some false
      else some ((signals.psi.any fun psi => psi.psiSource = some .cgroup) &&
        signals.psi.any StallInformation.aboveZero) := by
  have hquiet : ∀ compared, throttleCountersReset compared current.throttle = false →
      hasCounterIncreaseGeneric compared current.throttle = false →
      hasKernelThrottleProof signals (some compared) =
        if signals.psi.isNone || signals.psiDisabled then some false
        else some ((signals.psi.any fun psi => psi.psiSource = some .cgroup) &&
          signals.psi.any StallInformation.aboveZero) := by
    intro compared hreset hincrease
    simp [hasKernelThrottleProof, hevents, hreset, hincrease]
  simp only [comparedEvents, htr, hevents]
  split
  · exact hquiet _ (not_reset_self _) (not_increase_self _)
  · rename_i hreset
    exact hquiet _ (by simpa using hreset) (hno.throttle.resolve_left hreset)

theorem oomEvent_of_noIncrease {previous current : MemoryEvents}
    (hno : NoIncrease previous current) (htr : tr.previousOom = some previous.ooms)
    (hevents : signals.events = some current) : tr.oomEvent signals = false := by
  simp only [oomEvent, htr, hevents]
  obtain hreset | hincrease := hno.ooms
  · simp [hreset]
  · simp [hincrease]

/-- A sample whose counters do not go up does what it would do with the
counters of the sample before. -/
theorem advance_of_noIncrease {previous current : MemoryEvents}
    (hno : NoIncrease previous current) (hooms : tr.previousOom = some previous.ooms)
    (hthrottle : tr.previousEvents = some previous.throttle)
    (hevents : signals.events = some current) :
    tr.advance a t signals = tr.advance a t { signals with events := some previous } := by
  have hoom := oomEvent_of_noIncrease hno hooms hevents
  have hoom' : tr.oomEvent { signals with events := some previous } = false :=
    oomEvent_of_noIncrease (noIncrease_self previous) hooms rfl
  have hproof := hasKernelThrottleProof_of_noIncrease hno hthrottle hevents
  have hproof' := @hasKernelThrottleProof_of_noIncrease tr
    { signals with events := some previous } previous previous (noIncrease_self previous) hthrottle
    rfl
  have hhigh : cgroupHighLevel a t signals (tr.comparedEvents signals) =
      cgroupHighLevel a t { signals with events := some previous }
        (tr.comparedEvents { signals with events := some previous }) := by
    unfold cgroupHighLevel
    rw [hproof, hproof']
  have hraw : tr.rawLevel a t signals =
      tr.rawLevel a t { signals with events := some previous } := by
    unfold rawLevel classifyAdaptiveResourcePressureWithHistory
    rw [hoom, hoom', hhigh]
    rfl
  unfold advance
  rw [hoom, hoom', hraw]
  rfl

/-! ## The law of a run -/

/-- The sample counts more allocation failures than the one before. -/
def OomIncrease (before : List ResourceSignals) (signals : ResourceSignals) : Prop :=
  ∃ last previous current, before.getLast? = some last ∧ last.events = some previous ∧
    signals.events = some current ∧ hasCounterIncrease previous.ooms current.ooms = true

/-- What a sample of a run may do to the severity. -/
structure Hysteresis (a : Arithmetic) (t : ResourcePressureThresholds)
    (before : List ResourceSignals) (signals : ResourceSignals) : Prop where
  rises : (run a t before).state.severity = .normal →
    (run a t (before ++ [signals])).state.severity ≠ .normal →
      (OomIncrease before signals ∧ (run a t (before ++ [signals])).state.severity = .critical) ∨
        ∃ level n, level.severity = (run a t (before ++ [signals])).state.severity ∧
          sustained t level.severity ≤ (n : Nat) ∧
          Lately (observe a t) (fun tr signals => tr.rawLevel a t signals = level) {}
            (before ++ [signals]) n
  recovers : (run a t before).state.severity ≠ .normal →
    (run a t (before ++ [signals])).state.severity = .normal →
      (run a t before).rawLevel a t signals = ⟨.normal, .none⟩ ∧
        ∃ n : Nat, t.sustainedSamplesRecovery ≤ n ∧ Lately (observe a t)
            (fun tr signals => tr.state.severity ≠ .normal ∧ isRecovered a t signals = true) {}
            (before ++ [signals]) n
  stays : (run a t before).state.severity = .critical →
    (run a t (before ++ [signals])).state.severity ≠ .high
  reset : ∀ last previous current, before.getLast? = some last → last.events = some previous →
    signals.events = some current → NoIncrease previous current →
      (run a t (before ++ [signals])).state =
        (run a t (before ++ [{ signals with events := some previous }])).state

theorem oomIncrease_of_oomEvent {before : List ResourceSignals}
    (h : (run a t before).oomEvent signals = true) : OomIncrease before signals := by
  unfold oomEvent at h
  rw [(observed_run before).counters.1] at h
  cases hlast : before.getLast? with
  | none => simp [hlast] at h
  | some last =>
    cases hprevious : last.events with
    | none => simp [hlast, hprevious] at h
    | some previous =>
      cases hcurrent : signals.events with
      | none => simp [hcurrent] at h
      | some current =>
        simp [hlast, hprevious, hcurrent] at h
        exact ⟨last, previous, current, hlast, hprevious, hcurrent, h.2⟩

/-- Every sample of a run of a tracker with accepted thresholds keeps to the
law. -/
theorem observe_hysteresis (a : Arithmetic) {thresholds t : ResourcePressureThresholds}
    (h : resolveResourcePressureThresholds thresholds = .ok t) (before : List ResourceSignals)
    (signals : ResourceSignals) : Hysteresis a t before signals := by
  have hacc : Accepted t := by
    obtain ⟨rfl, hacc⟩ := accepted_of_resolve h
    exact hacc
  have hobserved := observed_run (a := a) (t := t) before
  refine ⟨?_, ?_, ?_, ?_⟩
  · intro hnormal hrisen
    rw [run_concat, observe_severity] at hrisen ⊢
    cases hoom : (run a t before).oomEvent signals with
    | true => exact .inl ⟨oomIncrease_of_oomEvent hoom, (advance_of_oom hoom).1⟩
    | false =>
      rw [advance_of_normal hoom hnormal] at hrisen ⊢
      obtain ⟨hseverity, henough⟩ := advanceNormal_rises hnormal hrisen
      exact .inr ⟨_, _, hseverity.symm, henough, lately_streakWith hobserved hnormal rfl⟩
  · intro helevated hnormal
    rw [run_concat, observe_severity] at hnormal
    cases hoom : (run a t before).oomEvent signals with
    | true =>
      rw [(advance_of_oom hoom).1] at hnormal
      cases hnormal
    | false =>
      rw [advance_of_elevated hoom helevated] at hnormal
      obtain ⟨hrecovered, henough, -⟩ := advanceElevated_recovers helevated hnormal
      refine ⟨?_, _, henough, hobserved.recovering.concat ⟨helevated, hrecovered⟩⟩
      rw [rawLevel, if_neg (by simp [hoom])]
      exact level_of_isRecovered hacc hrecovered _
  · intro hcritical
    rw [run_concat, observe_severity]
    cases hoom : (run a t before).oomEvent signals with
    | true =>
      rw [(advance_of_oom hoom).1]
      decide
    | false =>
      rw [advance_of_elevated hoom (by simp [hcritical])]
      exact advanceElevated_of_critical hcritical
  · intro last previous current hlast hprevious hcurrent hno
    obtain ⟨hooms, hthrottle⟩ := hobserved.counters
    rw [hlast] at hooms hthrottle
    simp only [bind_some, hprevious, map_some] at hooms hthrottle
    rw [run_concat, run_concat]
    unfold observe
    rw [advance_of_noIncrease hno hooms hthrottle hcurrent]

def fullHeap : ResourceSignals where
  observedAtMs := 0
  heapUsedBytes := 90
  heapLimitBytes := 100
  currentBytes := none
  maxBytes := none
  highBytes := none
  fileBytes := none
  events := none
  psi := none
  psiDisabled := false

theorem observe_hysteresis_default :
    Hysteresis .exact defaultResourcePressureThresholds [fullHeap] fullHeap :=
  observe_hysteresis .exact resolve_default [fullHeap] fullHeap

/-- The second sample of a level raises the severity. -/
example : (run .exact defaultResourcePressureThresholds [fullHeap]).state.severity = .normal ∧
    (run .exact defaultResourcePressureThresholds [fullHeap, fullHeap]).state.severity = .high := by
  decide +kernel

end ResourcePressureTracker

end RedRouter.Utils
