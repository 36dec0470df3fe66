import RedRouter.Utils.PressureHysteresis

/-!
# Pressure that lasts

A tracker at a normal severity counts the samples of one level, with its
reason, and begins anew when the level or the reason changes.  So a run of
samples with a level is noticed when enough of them in a row have the same
(`elevated_of_stretch`), and stays noticed until a sample has none
(`observe_elevated`).  Samples that alternate between two levels can go on for
ever at a normal severity (`not_elevated_of_levels`).
-/

namespace RedRouter.Utils.ResourcePressureTracker

open Runs

variable {a : Arithmetic} {t : ResourcePressureThresholds} {tr : ResourcePressureTracker}
  {signals : ResourceSignals} {level : RawLevel}

theorem of_requirePositiveInteger {name : String} {value : Int} {u : Unit}
    (h : requirePositiveInteger name value = .ok u) : 1 ≤ value := by
  unfold requirePositiveInteger at h
  split at h
  · cases h
  · rename_i hrange
    simp only [Bool.or_eq_true, decide_eq_true_eq, not_or, not_lt] at hrange
    exact hrange.1

theorem sustained_pos {thresholds : ResourcePressureThresholds}
    (h : resolveResourcePressureThresholds thresholds = .ok t) (severity : PressureSeverity) :
    1 ≤ sustained t severity := by
  obtain ⟨rfl, -⟩ := accepted_of_resolve h
  obtain ⟨-, -, h⟩ := bind_eq_ok h
  obtain ⟨-, -, h⟩ := bind_eq_ok h
  obtain ⟨-, -, h⟩ := bind_eq_ok h
  obtain ⟨-, -, h⟩ := bind_eq_ok h
  obtain ⟨-, -, h⟩ := bind_eq_ok h
  obtain ⟨-, -, h⟩ := bind_eq_ok h
  obtain ⟨-, -, h⟩ := bind_eq_ok h
  obtain ⟨-, -, h⟩ := bind_eq_ok h
  obtain ⟨_, hhigh, h⟩ := bind_eq_ok h
  obtain ⟨_, hcritical, h⟩ := bind_eq_ok h
  unfold sustained
  split
  · exact of_requirePositiveInteger hcritical
  · exact of_requirePositiveInteger hhigh

theorem observe_elevated (hacc : Accepted t) (helevated : tr.state.severity ≠ .normal)
    (hlevel : (tr.rawLevel a t signals).severity ≠ .normal) :
    (tr.observe a t signals).state.severity ≠ .normal := by
  rw [observe_severity]
  cases hoom : tr.oomEvent signals with
  | true =>
    rw [(advance_of_oom hoom).1]
    decide
  | false =>
    rw [advance_of_elevated hoom helevated]
    intro hnormal
    obtain ⟨hrecovered, -, -⟩ := advanceElevated_recovers helevated hnormal
    rw [rawLevel, hoom, if_neg Bool.false_ne_true, level_of_isRecovered hacc hrecovered] at hlevel
    exact hlevel rfl

theorem foldl_elevated (hacc : Accepted t) {samples : List ResourceSignals}
    (helevated : tr.state.severity ≠ .normal)
    (hlevels : Along (observe a t) (fun tr signals => (tr.rawLevel a t signals).severity ≠ .normal)
      tr samples) :
    (samples.foldl (observe a t) tr).state.severity ≠ .normal :=
  along_invariant (fun tr => tr.state.severity ≠ .normal)
    (fun _ _ helevated hlevel => observe_elevated hacc helevated hlevel) helevated hlevels

/-- A sample at a normal severity raises it, or its level is pending. -/
theorem observe_normal (hnormal : tr.state.severity = .normal)
    (hlevel : tr.rawLevel a t signals = level) (hraised : level.severity ≠ .normal) :
    (tr.observe a t signals).state.severity ≠ .normal ∨
      (tr.streakWith level < sustained t level.severity ∧
        (tr.observe a t signals).pending = some level ∧
        (tr.observe a t signals).state.elevatedStreak = tr.streakWith level) := by
  rw [observe_severity, observe_pending, observe_elevatedStreak]
  cases hoom : tr.oomEvent signals with
  | true =>
    rw [(advance_of_oom hoom).1]
    exact .inl (by decide)
  | false =>
    rw [advance_of_normal hoom hnormal, hlevel]
    unfold advanceNormal
    rw [if_neg hraised]
    split
    · exact .inl hraised
    · exact .inr ⟨by omega, rfl, rfl⟩

theorem foldl_stretch (hacc : Accepted t) {samples : List ResourceSignals}
    (hstretch : Along (observe a t) (fun tr signals => tr.rawLevel a t signals = level) tr samples)
    (hraised : level.severity ≠ .normal) :
    (samples.foldl (observe a t) tr).state.severity ≠ .normal ∨ samples = [] ∨
      ((samples.foldl (observe a t) tr).pending = some level ∧
        samples.length ≤ (samples.foldl (observe a t) tr).state.elevatedStreak ∧
        (samples.foldl (observe a t) tr).state.elevatedStreak < sustained t level.severity) := by
  induction samples using List.reverseRecOn with
  | nil => exact .inr (.inl rfl)
  | append_singleton samples signals ih =>
    rw [along_concat] at hstretch
    obtain ⟨hbefore, hlevel⟩ := hstretch
    have hstep : (samples ++ [signals]).foldl (observe a t) tr =
        (samples.foldl (observe a t) tr).observe a t signals := by
      rw [List.foldl_append]
      rfl
    rw [hstep, List.length_append]
    by_cases hnormal : (samples.foldl (observe a t) tr).state.severity = .normal
    · obtain hrises | ⟨hfew, hpending, hstreak⟩ := observe_normal hnormal hlevel hraised
      · exact .inl hrises
      · refine .inr (.inr ⟨hpending, ?_, by rw [hstreak]; exact hfew⟩)
        rw [hstreak, streakWith]
        obtain helevated | hnil | ⟨hpending', hcount, -⟩ := ih hbefore
        · exact absurd hnormal helevated
        · rw [hnil]
          split <;> simp
        · rw [if_pos hpending']
          exact Nat.succ_le_succ hcount
    · exact .inl (observe_elevated hacc hnormal (hlevel ▸ hraised))

/-- A run of samples with a level is noticed when enough of them in a row have
the same. -/
theorem elevated_of_stretch (a : Arithmetic) {thresholds t : ResourcePressureThresholds}
    (h : resolveResourcePressureThresholds thresholds = .ok t)
    (before first mid last : List ResourceSignals) (level : RawLevel)
    (hlevels : Along (observe a t) (fun tr signals => (tr.rawLevel a t signals).severity ≠ .normal)
      (run a t before) (first ++ mid ++ last))
    (hstretch : Along (observe a t) (fun tr signals => tr.rawLevel a t signals = level)
      (run a t (before ++ first)) mid)
    (henough : sustained t level.severity ≤ mid.length) :
    (run a t (before ++ (first ++ mid ++ last))).state.severity ≠ .normal := by
  have hacc : Accepted t := by
    obtain ⟨rfl, hacc⟩ := accepted_of_resolve h
    exact hacc
  have hpos := sustained_pos h level.severity
  have hrun : ∀ samples, run a t (before ++ samples) =
      samples.foldl (observe a t) (run a t before) := by
    intro samples
    unfold run
    rw [List.foldl_append]
  rw [along_append, along_append] at hlevels
  obtain ⟨⟨-, hmid⟩, hlast⟩ := hlevels
  rw [hrun] at hstretch
  rw [hrun, List.foldl_append]
  refine foldl_elevated hacc ?_ hlast
  rw [List.foldl_append]
  cases mid with
  | nil => exact absurd henough (by simp only [List.length_nil]; omega)
  | cons signals mid =>
    have hraised : level.severity ≠ .normal := hstretch.1 ▸ hmid.1
    obtain helevated | hnil | ⟨-, hcount, hfew⟩ := foldl_stretch hacc hstretch hraised
    · exact helevated
    · exact absurd hnil (List.cons_ne_nil _ _)
    · omega

/-- A heap that is 95 hundredths full. -/
def fullerHeap : ResourceSignals := { fullHeap with heapUsedBytes := 95 }

theorem elevated_of_stretch_full : (run .exact defaultResourcePressureThresholds
      ([] ++ ([fullerHeap] ++ [fullHeap, fullHeap] ++ [fullerHeap]))).state.severity ≠ .normal :=
  elevated_of_stretch .exact resolve_default [] [fullerHeap] [fullHeap, fullHeap] [fullerHeap]
    ⟨.high, .v8HeapRatio⟩ (by decide +kernel) (by decide +kernel) (by decide)

/-- Two samples of different levels are not noticed. -/
theorem not_elevated_of_levels : ¬ ∀ (a : Arithmetic) (thresholds t : ResourcePressureThresholds),
      resolveResourcePressureThresholds thresholds = .ok t →
      ∀ before samples : List ResourceSignals,
        max t.sustainedSamplesHigh t.sustainedSamplesCritical ≤ samples.length →
        Along (observe a t) (fun tr signals => (tr.rawLevel a t signals).severity ≠ .normal)
          (run a t before) samples →
        (run a t (before ++ samples)).state.severity ≠ .normal := by
  intro hall
  have hnoticed := hall .exact _ _ resolve_default [] [fullHeap, fullerHeap] (by decide)
    (by decide +kernel)
  exact hnoticed (by decide +kernel)

end RedRouter.Utils.ResourcePressureTracker
