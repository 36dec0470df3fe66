import RedRouter.Admission.Config

/-!
# The cost of a request

`estimateAdmissionCost` caps its sum after every feature.
`foldl_addBounded` says that one cap at the end gives the same, and the
bounds and the monotonicity are read off that form.
-/

namespace RedRouter.Admission

theorem foldl_addBounded {maximum total : Nat} (h : total ≤ maximum) (contributions : List Nat) :
    contributions.foldl (addBounded maximum) total = min maximum (total + contributions.sum) := by
  induction contributions generalizing total with
  | nil =>
    simp
    omega
  | cons contribution contributions ih =>
    have hle : addBounded maximum total contribution ≤ maximum := by
      unfold addBounded
      split <;> omega
    rw [List.foldl_cons, List.sum_cons, ih hle]
    unfold addBounded
    split <;> omega

theorem finiteNonNegative_nonneg (value : RawNumber) : 0 ≤ finiteNonNegative value := by
  unfold finiteNonNegative
  split
  · split
    · exact le_rfl
    · apply le_min
      · linarith
      · exact Nat.cast_nonneg _
  · exact le_rfl

variable (R : Rounding)

theorem unitsFrom_eq {amount : ℚ} (h : 0 ≤ amount) (quantum : Quantum) :
    unitsFrom R amount quantum = ⌈R.fl (amount / quantum.1)⌉₊ := by
  unfold unitsFrom
  split
  · have hzero : amount = 0 := by linarith
    have hfl := R.natCast 0 (Nat.zero_le _)
    rw [Nat.cast_zero] at hfl
    rw [hzero, zero_div, hfl, Nat.ceil_zero]
  · rfl

/-- What a request costs before the cap. -/
def uncappedCost (features : CostFeatures) (cfg : CostConfig) : Nat :=
  cfg.baseCost.1 +
    (⌈R.fl (finiteNonNegative features.bodyBytes / cfg.bodyBytesPerUnit.1)⌉₊ +
      ⌈R.fl (finiteNonNegative features.estimatedInputTokens / cfg.tokensPerUnit.1)⌉₊ +
      ⌈R.fl (finiteNonNegative features.messageCount / cfg.messagesPerUnit.1)⌉₊ +
      ⌈R.fl (finiteNonNegative features.toolCount / cfg.toolsPerUnit.1)⌉₊ +
      ⌈R.fl (max 1 (finiteNonNegative features.requestedFanout) / cfg.fanoutPerUnit.1)⌉₊) +
    if features.streaming then cfg.streamingClassCost.1 else cfg.nonStreamingClassCost.1

theorem estimateAdmissionCost_eq (features : CostFeatures) (cfg : CostConfig) :
    estimateAdmissionCost R features cfg =
      min cfg.maxRequestCost.1 (uncappedCost R features cfg) := by
  have hfanout : (0 : ℚ) ≤ max 1 (finiteNonNegative features.requestedFanout) :=
    le_max_of_le_left zero_le_one
  unfold estimateAdmissionCost uncappedCost
  dsimp only
  rw [foldl_addBounded (min_le_right _ _)]
  simp only [unitsFrom_eq R (finiteNonNegative_nonneg _), unitsFrom_eq R hfanout, List.sum_cons,
    List.sum_nil]
  omega

/-- The order of the values of a feature: one that is missing or not finite
counts as 0. -/
def RawNumber.AtMost : RawNumber → RawNumber → Prop
  | .finite p, .finite q => p ≤ q
  | .finite p, _ => p ≤ 0
  | _, .finite q => 0 ≤ q
  | _, _ => True

structure CostFeatures.AtMost (features more : CostFeatures) : Prop where
  bodyBytes : features.bodyBytes.AtMost more.bodyBytes
  estimatedInputTokens : features.estimatedInputTokens.AtMost more.estimatedInputTokens
  messageCount : features.messageCount.AtMost more.messageCount
  toolCount : features.toolCount.AtMost more.toolCount
  requestedFanout : features.requestedFanout.AtMost more.requestedFanout
  streaming : features.streaming = more.streaming

theorem RawNumber.AtMost.finiteNonNegative_le {x y : RawNumber} (h : x.AtMost y) :
    finiteNonNegative x ≤ finiteNonNegative y := by
  cases x with
  | finite p =>
    cases y with
    | finite q =>
      have hle : p ≤ q := h
      unfold finiteNonNegative
      dsimp only
      split
      · exact finiteNonNegative_nonneg (.finite q)
      · rw [if_neg (by linarith)]
        exact min_le_min_right _ hle
    | _ =>
      have hle : p ≤ 0 := h
      show (if p < 0 then 0 else min p maxSafeInteger) ≤ 0
      split
      · exact le_rfl
      · exact (min_le_left _ _).trans hle
  | _ => exact finiteNonNegative_nonneg y

theorem CostFeatures.AtMost.uncappedCost_le {features more : CostFeatures}
    (h : features.AtMost more) (cfg : CostConfig) :
    uncappedCost R features cfg ≤ uncappedCost R more cfg := by
  have hunits : ∀ {amount amount' : ℚ} (quantum : Quantum), amount ≤ amount' →
      ⌈R.fl (amount / quantum.1)⌉₊ ≤ ⌈R.fl (amount' / quantum.1)⌉₊ := by
    intro amount amount' quantum hle
    apply Nat.ceil_mono
    apply R.mono
    exact div_le_div_of_nonneg_right hle (Nat.cast_nonneg _)
  have hbody := hunits cfg.bodyBytesPerUnit h.bodyBytes.finiteNonNegative_le
  have htokens := hunits cfg.tokensPerUnit h.estimatedInputTokens.finiteNonNegative_le
  have hmessages := hunits cfg.messagesPerUnit h.messageCount.finiteNonNegative_le
  have htools := hunits cfg.toolsPerUnit h.toolCount.finiteNonNegative_le
  have hfanout := hunits cfg.fanoutPerUnit
    (max_le_max_left 1 h.requestedFanout.finiteNonNegative_le)
  unfold uncappedCost
  rw [h.streaming]
  omega

theorem estimateAdmissionCost_spec (features : CostFeatures) (cfg : CostConfig) :
    estimateAdmissionCost R features cfg = min cfg.maxRequestCost.1 (uncappedCost R features cfg) ∧
      1 ≤ estimateAdmissionCost R features cfg ∧
      estimateAdmissionCost R features cfg ≤ cfg.maxRequestCost.1 ∧
      ∀ more : CostFeatures, features.AtMost more →
        estimateAdmissionCost R features cfg ≤ estimateAdmissionCost R more cfg := by
  have hbase := cfg.baseCost.2.1
  have hmaximum := cfg.maxRequestCost.2.1
  have hle : cfg.baseCost.1 ≤ uncappedCost R features cfg := by
    unfold uncappedCost
    omega
  simp only [estimateAdmissionCost_eq]
  refine ⟨trivial, by omega, min_le_left _ _, ?_⟩
  intro more hmore
  exact min_le_min_left _ (hmore.uncappedCost_le R cfg)

theorem quantum_one : 1 ≤ 1 ∧ 1 ≤ maxAdmissionCostOrLimit := by decide

theorem quantum_thousand : 1 ≤ 1000 ∧ 1000 ≤ maxAdmissionCostOrLimit := by decide

def unitCosts : CostConfig :=
  let one : Quantum := ⟨1, quantum_one⟩
  { baseCost := one, bodyBytesPerUnit := one, tokensPerUnit := one, messagesPerUnit := one,
    toolsPerUnit := one, fanoutPerUnit := one, streamingClassCost := one,
    nonStreamingClassCost := one, maxRequestCost := ⟨1000, quantum_thousand⟩ }

/-- An infinite body is cheaper than a body of one byte. -/
theorem infinite_lt_finite :
    estimateAdmissionCost .exact { bodyBytes := .infinity } unitCosts <
      estimateAdmissionCost .exact { bodyBytes := .finite 1 } unitCosts := by
  decide +kernel

end RedRouter.Admission
