import Mathlib.Algebra.Order.Field.Rat
import Mathlib.Tactic.Linarith

/-!
# Thinking budgets

The model of `translator/request/openai-to-claude/thinkingBudget.ts`.  The cap
of the model is what `safeCapMaxOutputTokens` found for it, and a thinking
object keeps the fields that are not its budget.
-/

namespace RedRouter.Request

variable {Fields : Type}

/-- The `thinking` of a request; its budget is `Number(budget_tokens) || 0`. -/
structure Thinking (Fields : Type) where
  budgetTokens : ℚ
  fields : Fields

/-- The cap of a model, which is positive. -/
abbrev ModelCap := Option { cap : ℚ // 0 < cap }

def minClaudeThinkingBudget : ℚ := 1024

def minResponseRoom : ℚ := 1024

def capped (modelCap : ModelCap) (tokens : ℚ) : ℚ :=
  match modelCap with
  | none => tokens
  | some cap => min tokens cap.1

def fitThinkingToMaxTokens (modelCap : ModelCap) (callerMaxTokens : ℚ)
    (thinking : Option (Thinking Fields)) : ℚ × Option (Thinking Fields) :=
  match thinking with
  | none => (capped modelCap (max callerMaxTokens 1), none)
  | some t =>
      if t.budgetTokens ≤ 0 then (capped modelCap (max callerMaxTokens 1), some t)
      else
        let responseRoom := max callerMaxTokens minResponseRoom
        let target := capped modelCap (responseRoom + t.budgetTokens)
        let shrink :=
          target - responseRoom < minClaudeThinkingBudget ∧ responseRoom > minResponseRoom
        let responseRoom := if shrink then minResponseRoom else responseRoom
        let target := capped modelCap (responseRoom + t.budgetTokens)
        let fittedBudget := target - responseRoom
        if fittedBudget < minClaudeThinkingBudget then
          ((modelCap.map Subtype.val).getD (max callerMaxTokens 1), none)
        else
          (target,
            some (if fittedBudget < t.budgetTokens then { t with budgetTokens := fittedBudget }
              else t))

/-! ## What is fitted -/

variable {modelCap : ModelCap} {room budget : ℚ}

theorem capped_le (modelCap : ModelCap) (tokens : ℚ) : capped modelCap tokens ≤ tokens := by
  cases modelCap with
  | none => exact le_rfl
  | some cap => exact min_le_left _ _

theorem capped_le_cap {cap : { cap : ℚ // 0 < cap }} (h : cap ∈ modelCap) (tokens : ℚ) :
    capped modelCap tokens ≤ cap.1 := by
  obtain rfl := h
  exact min_le_right _ _

theorem le_capped_iff {tokens bound : ℚ} :
    bound ≤ capped modelCap tokens ↔ bound ≤ tokens ∧ ∀ cap ∈ modelCap, bound ≤ cap.1 := by
  cases modelCap <;> simp [capped]

/-- A response room leaves enough for thinking. -/
theorem fits_iff : 1024 ≤ capped modelCap (room + budget) - room ↔
    1024 ≤ budget ∧ ∀ cap ∈ modelCap, room + 1024 ≤ cap.1 := by
  rw [le_sub_iff_add_le', le_capped_iff, add_le_add_iff_left]

/-- Whether the request can keep its thinking. -/
def Thinkable (modelCap : ModelCap) (budget : ℚ) : Prop :=
  1024 ≤ budget ∧ ∀ cap ∈ modelCap, 2048 ≤ cap.1

theorem fitThinkingToMaxTokens_spec (modelCap : ModelCap) (caller : ℚ) {t : Thinking Fields}
    (h : 0 < t.budgetTokens) :
    ¬ Thinkable modelCap t.budgetTokens ∧ fitThinkingToMaxTokens modelCap caller (some t) =
        ((modelCap.map Subtype.val).getD (max caller 1), none) ∨
      Thinkable modelCap t.budgetTokens ∧ ∃ room fitted : ℚ, 1024 ≤ room ∧ 1024 ≤ fitted ∧
        fitted ≤ t.budgetTokens ∧ capped modelCap (room + t.budgetTokens) = room + fitted ∧
        fitThinkingToMaxTokens modelCap caller (some t) =
          (room + fitted, some { t with budgetTokens := fitted }) := by
  unfold fitThinkingToMaxTokens minClaudeThinkingBudget minResponseRoom
  dsimp only
  rw [if_neg (not_le.mpr h)]
  generalize hroom : (if capped modelCap (max caller 1024 + t.budgetTokens) - max caller 1024 <
    1024 ∧ max caller 1024 > 1024 then (1024 : ℚ) else max caller 1024) = room
  have hle : 1024 ≤ room := by
    rw [← hroom]
    split
    · exact le_rfl
    · exact le_max_right _ _
  -- the room is the smallest one, or leaves enough for thinking
  have hfits : 1024 ≤ capped modelCap (room + t.budgetTokens) - room ↔
      Thinkable modelCap t.budgetTokens := by
    rw [fits_iff, Thinkable]
    refine and_congr_right fun _ => ⟨fun hcap cap hmem => ?_, fun hcap => ?_⟩
    · linarith [hcap cap hmem]
    · split at hroom
      · intro cap hmem
        linarith [hcap cap hmem]
      · rename_i hkeep
        by_cases henough : 1024 ≤ capped modelCap (room + t.budgetTokens) - room
        · exact (fits_iff.mp henough).2
        · rw [hroom] at hkeep
          have hsmall : room = 1024 :=
            le_antisymm (not_lt.mp fun hlt => hkeep ⟨not_le.mp henough, hlt⟩) hle
          intro cap hmem
          linarith [hcap cap hmem]
  split
  · rename_i hdrop
    exact .inl ⟨fun hthink => absurd (hfits.mpr hthink) (not_le.mpr hdrop), rfl⟩
  · rename_i hkeep
    have hbudget := capped_le modelCap (room + t.budgetTokens)
    refine .inr ⟨hfits.mp (not_lt.mp hkeep), room,
      capped modelCap (room + t.budgetTokens) - room, hle, not_lt.mp hkeep, by linarith,
      (add_sub_cancel _ _).symm, ?_⟩
    rw [add_sub_cancel]
    split
    · rfl
    · have hsame : capped modelCap (room + t.budgetTokens) - room = t.budgetTokens := by linarith
      rw [hsame]

/-- The thinking of a request is kept whenever it can be, it fits, and without it
the request gets what a request without thinking gets. -/
structure Fitted (modelCap : ModelCap) (caller : ℚ) (t : Thinking Fields) : Prop where
  kept : (fitThinkingToMaxTokens modelCap caller (some t)).2.isSome = true ↔
    Thinkable modelCap t.budgetTokens
  fits : ∀ t' ∈ (fitThinkingToMaxTokens modelCap caller (some t)).2,
    1024 ≤ t'.budgetTokens ∧ t'.budgetTokens ≤ t.budgetTokens ∧
      1024 ≤ (fitThinkingToMaxTokens modelCap caller (some t)).1 - t'.budgetTokens ∧
      ∀ cap ∈ modelCap, (fitThinkingToMaxTokens modelCap caller (some t)).1 ≤ cap.1
  dropped : (fitThinkingToMaxTokens modelCap caller (some t)).2 = none →
    (fitThinkingToMaxTokens modelCap caller (some t)).1 =
      (fitThinkingToMaxTokens modelCap caller (none : Option (Thinking Fields))).1

/-- A request that loses its thinking gets the whole cap, so the caller must have
asked for that much. -/
theorem fitted_iff (modelCap : ModelCap) (caller : ℤ) (budget : { budget : ℤ // 0 < budget })
    (fields : Fields) : Fitted modelCap caller ⟨budget.1, fields⟩ ↔
      Thinkable modelCap budget.1 ∨ ∀ cap ∈ modelCap, cap.1 ≤ max caller 1 := by
  have hpos : 0 < (⟨budget.1, fields⟩ : Thinking Fields).budgetTokens :=
    Int.cast_pos.mpr budget.2
  rcases fitThinkingToMaxTokens_spec modelCap caller hpos with
    ⟨hnot, heq⟩ | ⟨hthink, room, fitted, hroom, hmin, hle, htarget, heq⟩
  · have hiff : Fitted modelCap caller ⟨budget.1, fields⟩ ↔
        (modelCap.map Subtype.val).getD (max (caller : ℚ) 1) =
          capped modelCap (max (caller : ℚ) 1) := by
      constructor
      · intro h
        have hdropped := h.dropped (by rw [heq])
        rwa [heq] at hdropped
      · intro h
        refine ⟨?_, ?_, fun _ => ?_⟩
        · rw [heq]
          exact iff_of_false (by simp) hnot
        · rw [heq]
          exact fun _ hmem => absurd hmem (by simp)
        · rw [heq]
          exact h
    rw [hiff, or_iff_right hnot]
    cases modelCap with
    | none => simp [capped]
    | some cap => simp [capped]
  · refine iff_of_true ⟨?_, ?_, ?_⟩ (.inl hthink)
    · rw [heq]
      exact iff_of_true rfl hthink
    · rw [heq]
      rintro _ ⟨⟩
      refine ⟨hmin, hle, ?_, fun cap hmem => ?_⟩
      · dsimp only
        linarith
      · rw [← htarget]
        exact capped_le_cap hmem _
    · rw [heq]
      exact fun h => absurd h (by simp)

theorem largeCap_pos : (0 : ℚ) < 4000 := by norm_num

/-- A small budget under a large cap. -/
theorem not_fitted_small : ¬ Fitted (some ⟨4000, largeCap_pos⟩) 100 (⟨500, ()⟩ : Thinking Unit) := by
  intro h
  have hdropped := h.dropped (by decide +kernel)
  exact absurd hdropped (by decide +kernel)

end RedRouter.Request
