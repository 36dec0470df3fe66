import RedRouter.Combo.RequestCompatibility

/-!
# What the compatibility filter keeps

Each path of `filterTargetsByRequestCompatibility` returns the targets that pass
some test, in their order or tier by tier.  `Kept` is what all of them owe: no
target is made up or repeated, none without vision gets an image, and a context
window alone removes none.  A target may still be returned that cannot serve the
request: an image leaves the whole pool with vision when nothing is compatible.
-/

namespace RedRouter.Combo.Compatibility

open List JsString Structure Bool

variable {Ref : Type} {c : Catalog} {load : Ref → ResolvedComboTarget}
  {requirements : RequestCompatibilityRequirements} {target : Ref} {targets kept : List Ref}

/-! ## Reasons -/

theorem contextWindow_of_soft {reason : CompatReason}
    (h : ¬ HARD_COMPAT_REASONS.contains reason) : reason = .contextWindow := by
  cases reason <;> simp [HARD_COMPAT_REASONS] at h ⊢

theorem hasHardCapabilityFailure_eq_false {reasons : List CompatReason} :
    hasHardCapabilityFailure reasons = false ↔ ∀ reason ∈ reasons, reason = .contextWindow := by
  rw [hasHardCapabilityFailure, any_eq_false]
  constructor
  · intro h reason hm
    exact contextWindow_of_soft (h reason hm)
  · intro h reason hm
    rw [h reason hm]
    decide

theorem vision_mem_reasons : .vision ∈ targetReasons c load requirements target ↔
      isVisionIncompatibleTarget c (load target) requirements = true := by
  simp only [targetReasons, getTargetCompatibilityFailures, isVisionIncompatibleTarget, mem_append]
  constructor
  · rintro ((((h | h) | h) | h) | h)
    all_goals split at h <;> simp_all
  · intro h
    rw [if_pos h]
    simp

theorem mem_compatibleOf : target ∈ compatibleOf c load requirements targets ↔
      target ∈ targets ∧
        ∀ reason ∈ targetReasons c load requirements target, reason = .contextWindow := by
  rw [compatibleOf, mem_filter, not_eq_true', hasHardCapabilityFailure_eq_false]

theorem vision_of_compatible (hv : requirements.requiresVision)
    (h : ∀ reason ∈ targetReasons c load requirements target, reason = .contextWindow) :
    (capabilitiesOf c (load target)).supportsVision = some true := by
  by_contra hn
  have hi : isVisionIncompatibleTarget c (load target) requirements = true := by
    simp [isVisionIncompatibleTarget, hv, hn]
  exact CompatReason.noConfusion (h _ (vision_mem_reasons.mpr hi))

/-! ## What a path owes -/

structure Kept (c : Catalog) (load : Ref → ResolvedComboTarget)
    (requirements : RequestCompatibilityRequirements) (targets kept : List Ref) : Prop where
  sublist : ∃ sub, sub.Sublist targets ∧ kept.Perm sub
  vision : requirements.requiresVision →
    ∀ target ∈ kept, (capabilitiesOf c (load target)).supportsVision = some true
  context : ∀ target ∈ targets,
    (∀ reason ∈ targetReasons c load requirements target, reason = .contextWindow) → target ∈ kept

namespace Kept

theorem of_perm {kept' : List Ref} (h : Kept c load requirements targets kept)
    (hp : kept'.Perm kept) : Kept c load requirements targets kept' where
  sublist := by
    obtain ⟨sub, hs, hk⟩ := h.sublist
    exact ⟨sub, hs, hp.trans hk⟩
  vision := fun hv target hm => h.vision hv target (hp.mem_iff.mp hm)
  context := fun target hm hr => hp.mem_iff.mpr (h.context target hm hr)

theorem filter {p : Ref → Bool} (hv : requirements.requiresVision → ∀ target, p target →
      (capabilitiesOf c (load target)).supportsVision = some true)
    (hc : ∀ target ∈ targets,
      (∀ reason ∈ targetReasons c load requirements target, reason = .contextWindow) → p target) :
    Kept c load requirements targets (targets.filter p) where
  sublist := ⟨_, filter_sublist, List.Perm.refl _⟩
  vision := fun h target hm => hv h target (mem_filter.mp hm).2
  context := fun target hm hr => mem_filter.mpr ⟨hm, hc target hm hr⟩

theorem all (hv : ¬ requirements.requiresVision) : Kept c load requirements targets targets where
  sublist := ⟨targets, List.Sublist.refl _, List.Perm.refl _⟩
  vision := fun h => absurd h hv
  context := fun _ hm _ => hm

theorem none (h : compatibleOf c load requirements targets = []) :
    Kept c load requirements targets [] where
  sublist := ⟨[], nil_sublist _, List.Perm.refl _⟩
  vision := fun _ _ hm => absurd hm not_mem_nil
  context := fun target hm hr => by
    rw [← h]
    exact mem_compatibleOf.mpr ⟨hm, hr⟩

theorem compatible : Kept c load requirements targets (compatibleOf c load requirements targets) :=
  filter (fun hv _ h =>
      vision_of_compatible hv (hasHardCapabilityFailure_eq_false.mp (not_eq_true' _ |>.mp h)))
    (fun _ _ h => not_eq_true' _ |>.mpr (hasHardCapabilityFailure_eq_false.mpr h))

theorem visionSafe (hv : requirements.requiresVision) :
    Kept c load requirements targets (visionSafeOf c load requirements targets) := by
  apply filter
  · intro _ target h
    simpa [isVisionIncompatibleTarget, hv] using h
  · intro target _ h
    simp [isVisionIncompatibleTarget, vision_of_compatible hv h]

end Kept

/-! ## The paths -/

theorem tiers_perm (first known trusted : Ref → Bool) (l : List Ref) :
    ((l.filter known).filter first ++ (l.filter fun x => !known x).filter trusted ++
        ((l.filter known).filter fun x => !first x) ++
      (l.filter fun x => !known x).filter fun x => !trusted x).Perm l := by
  have hk := filter_append_perm first (l.filter known)
  have hu := filter_append_perm trusted (l.filter fun x => !known x)
  refine .trans ?_ ((hk.append hu).trans (filter_append_perm known l))
  simp only [append_assoc]
  apply List.Perm.append_left
  simp only [← append_assoc]
  exact List.perm_append_comm.append_right _

theorem reordered_perm [DecidableEq Ref] (compatible : List Ref) :
    (reordered c load requirements compatible).Perm compatible := by
  let first := fun target : Ref =>
    (getModelContextOverrideValue c (load target).modelStr).isSome
  let known := fun target : Ref => hasKnownCompatibleContextLimit c (load target) requirements
  let trusted := fun target : Ref =>
    (targetReasons c load requirements target).contains .contextWindow &&
      isNearBoundaryOverrideReject c (load target) requirements
  have hmem : ∀ target ∈ compatible, (compatible.filter known).contains target = known target := by
    intro target hm
    rw [Bool.eq_iff_iff, contains_iff_mem, mem_filter]
    exact and_iff_right hm
  have ht : preferredTier c load requirements compatible = (compatible.filter known).filter first ++
        (compatible.filter fun x => !known x).filter trusted ++
        (compatible.filter known).filter fun x => !first x := by
    unfold preferredTier
    dsimp only
    congr 2
    rw [filter_filter]
    apply filter_congr
    intro target hm
    rw [hmem target hm, Bool.and_assoc, Bool.and_comm]
  have hr : (compatible.filter fun target =>
        !(preferredTier c load requirements compatible).contains target) =
      (compatible.filter fun x => !known x).filter fun x => !trusted x := by
    rw [filter_filter]
    apply filter_congr
    intro target hm
    rw [ht, Bool.eq_iff_iff]
    simp only [contains_eq_mem, mem_append, mem_filter]
    cases known target <;> cases trusted target <;> cases first target <;> simp [hm]
  unfold reordered
  dsimp only
  rw [hr, ht]
  exact tiers_perm first known trusted compatible

theorem exhaustedPool_kept (h : compatibleOf c load requirements targets = []) (failOpen : Bool) :
    Kept c load requirements targets (exhaustedPool c load requirements targets failOpen) := by
  unfold exhaustedPool
  by_cases hv : requirements.requiresVision
  · rw [if_pos hv]
    dsimp only
    split
    · exact .none h
    · rw [ite_self]
      exact .visionSafe hv
  · rw [if_neg hv]
    split
    · exact .all hv
    · exact .none h

theorem remainingPool_kept : Kept c load requirements targets
      (remainingPool c load requirements targets (compatibleOf c load requirements targets)) := by
  unfold remainingPool
  split
  · split
    · by_cases hv : requirements.requiresVision
      · rw [if_pos hv]
        dsimp only
        split
        · exact .visionSafe hv
        · exact .compatible
      · rw [if_neg hv]
        dsimp only
        split
        · exact .all hv
        · exact .compatible
    · exact .compatible
  · exact .compatible

/-! ## A request that nothing can serve -/

theorem exists_fin_of_isFinite {x : JsNumber} (h : x.isFinite) : ∃ q, x = .fin q := by
  match x, h with
  | .value (some (some q)), _ => exact ⟨q, rfl⟩
  | .value (some none), h => exact absurd h (by decide)
  | .value none, h => exact absurd h (by decide)

theorem fin_lt_fin {p q : ℚ} : JsNumber.fin p < .fin q ↔ p < q := by
  rw [JsNumber.fin, JsNumber.fin, JsNumber.value_lt_value, WithBot.coe_lt_coe, WithTop.coe_lt_coe]

theorem fin_le_fin {p q : ℚ} : JsNumber.fin p ≤ .fin q ↔ p ≤ q := by
  rw [JsNumber.fin, JsNumber.fin, JsNumber.value_le_value, WithBot.coe_le_coe, WithTop.coe_le_coe]

theorem zero_eq_fin : (0 : JsNumber) = .fin 0 := rfl

theorem exists_getPositiveTokenCount (c : Catalog) (value : Option Json) :
    ∃ q, 0 ≤ q ∧ getPositiveTokenCount c value = .fin q := by
  unfold getPositiveTokenCount
  dsimp only
  split
  · rename_i h
    obtain ⟨q, hq⟩ := exists_fin_of_isFinite h.1
    have hp : 0 < q := by
      have := h.2
      rwa [hq, zero_eq_fin, fin_lt_fin] at this
    refine ⟨q.ceil, hp.le.trans Rat.le_ceil, ?_⟩
    rw [hq]
    rfl
  · exact ⟨0, le_refl 0, rfl⟩

theorem requiredContextTokens_pos (c : Catalog) (body : Json) (maxOutputTokens : Option JsNumber)
    (h : exceedsKnownOutputLimit
      (deriveRequestCompatibilityRequirements c body).requestedOutputTokens maxOutputTokens) :
    0 < (deriveRequestCompatibilityRequirements c body).requiredContextTokens := by
  have hq : ∃ q, 0 ≤ q ∧
      (deriveRequestCompatibilityRequirements c body).requestedOutputTokens = .fin q := by
    unfold deriveRequestCompatibilityRequirements
    dsimp only
    split <;> exact exists_getPositiveTokenCount c _
  obtain ⟨q, -, hq⟩ := hq
  have hp : 0 < q := by
    cases maxOutputTokens with
    | none => exact absurd h Bool.false_ne_true
    | some limit =>
      simp only [exceedsKnownOutputLimit, and_eq_true, not_eq_true', decide_eq_false_iff_not] at h
      rw [hq, zero_eq_fin, fin_le_fin] at h
      exact not_le.mp h.1
  show 0 < c.add _ (deriveRequestCompatibilityRequirements c body).requestedOutputTokens
  rw [hq]
  exact c.add_pos (Nat.cast_nonneg _) hp

theorem reasons_of_not_needsFiltering {body : Json}
    (h : needsFiltering (deriveRequestCompatibilityRequirements c body) = false) (target : Ref) :
    targetReasons c load (deriveRequestCompatibilityRequirements c body) target = [] := by
  simp only [needsFiltering, or_eq_false_iff, decide_eq_false_iff_not] at h
  obtain ⟨⟨⟨ht, hv⟩, hs⟩, hc⟩ := h
  have ho := fun maxOutputTokens => mt (requiredContextTokens_pos c body maxOutputTokens) hc
  simp [targetReasons, getTargetCompatibilityFailures, ht, hv, hs, hc, ho]

theorem filterTargets_kept [DecidableEq Ref] (c : Catalog) (load : Ref → ResolvedComboTarget)
    (targets : List Ref) (body : Json) (failOpen : Bool) :
    Kept c load (deriveRequestCompatibilityRequirements c body) targets
      (filterTargetsByRequestCompatibility c load targets body failOpen) := by
  unfold filterTargetsByRequestCompatibility
  dsimp only
  split
  · rename_i h
    obtain rfl := List.isEmpty_iff.mp h
    exact .none rfl
  · split
    · rename_i h
      rw [not_eq_true'] at h
      apply Kept.all
      simp only [needsFiltering, or_eq_false_iff] at h
      exact eq_false_iff.mp h.1.1.2
    · split
      · exact Kept.compatible.of_perm (reordered_perm _)
      · split
        · rename_i h
          have hs : compatibleOf c load (deriveRequestCompatibilityRequirements c body) targets =
              targets := List.filter_sublist.eq_of_length h
          have hk : Kept c load (deriveRequestCompatibilityRequirements c body) targets
            (compatibleOf c load (deriveRequestCompatibilityRequirements c body) targets) :=
              .compatible
          rwa [hs] at hk
        · split
          · rename_i h
            exact exhaustedPool_kept (List.isEmpty_iff.mp h) failOpen
          · exact remainingPool_kept

theorem filterTargets_exhausted [DecidableEq Ref] {body : Json} (hne : targets ≠ [])
    (h : ∀ target ∈ targets, hasHardCapabilityFailure
      (targetReasons c load (deriveRequestCompatibilityRequirements c body) target))
    (failOpen : Bool) :
    filterTargetsByRequestCompatibility c load targets body failOpen =
      exhaustedPool c load (deriveRequestCompatibilityRequirements c body) targets failOpen := by
  have hc : compatibleOf c load (deriveRequestCompatibilityRequirements c body) targets = [] := by
    apply filter_eq_nil_iff.mpr
    intro target hm
    rw [h target hm]
    exact Bool.false_ne_true
  have hn : needsFiltering (deriveRequestCompatibilityRequirements c body) = true := by
    by_contra hn
    obtain ⟨target, hm⟩ := exists_mem_of_ne_nil targets hne
    have := h target hm
    rw [reasons_of_not_needsFiltering (eq_false_iff.mpr hn)] at this
    exact Bool.false_ne_true this
  have hl : ¬ 0 = targets.length := fun h => hne (length_eq_zero_iff.mp h.symm)
  simp [filterTargetsByRequestCompatibility, hc, hn, hne, hl]

theorem visionSafeOf_eq_nil (hv : requirements.requiresVision) :
    visionSafeOf c load requirements targets = [] ↔
      ∀ target ∈ targets, (capabilitiesOf c (load target)).supportsVision ≠ some true := by
  rw [visionSafeOf, filter_eq_nil_iff]
  apply forall₂_congr
  intro target _
  simp [isVisionIncompatibleTarget, hv]

/-! ## The filter -/

/-- Soundness: the targets kept are some of the given ones, each once. -/
theorem filterTargets_sound [DecidableEq Ref] (c : Catalog) (load : Ref → ResolvedComboTarget)
    (targets : List Ref) (hd : targets.Nodup) (body : Json) (failOpen : Bool) :
    let requirements := deriveRequestCompatibilityRequirements c body
    let kept := filterTargetsByRequestCompatibility c load targets body failOpen
    (kept.Nodup ∧ ∃ sub, sub.Sublist targets ∧ kept.Perm sub) ∧
      (requirements.requiresVision = true →
        ∀ target ∈ kept, (capabilitiesOf c (load target)).supportsVision = some true) ∧
      ∀ target ∈ targets, (∀ reason ∈ getTargetCompatibilityFailures c (load target) requirements,
          reason = .contextWindow) → target ∈ kept := by
  intro requirements kept
  have hk : Kept c load requirements targets kept := filterTargets_kept c load targets body failOpen
  refine ⟨⟨?_, hk.sublist⟩, hk.vision, hk.context⟩
  obtain ⟨sub, hs, hp⟩ := hk.sublist
  exact hp.nodup_iff.mpr (hs.nodup hd)

/-- Models that see but call no tools. -/
def seeing : Catalog where
  getResolvedModelCapabilities _ _ :=
    { toolCalling := false
      supportsTools := some false
      supportsVision := some true
      structuredOutput := none
      contextWindow := none
      maxInputTokens := none
      maxOutputTokens := none }
  toolCallingEmulated _ := false
  lookupOverrideWithEffortInheritance _ := none
  estimateTokens _ := 40
  number _ := .nan
  add := Arithmetic.lift (· + ·)
  mul := Arithmetic.lift (· * ·)
  add_pos := by
    intro p q hp hq
    exact fin_lt_fin.mpr (add_pos_of_nonneg_of_pos hp hq)

def seeingTarget (index : Nat) : ResolvedComboTarget where
  stepId := js "step"
  executionKey := [UInt16.ofNat index]
  modelStr := js "openai/sees"
  provider := js "openai"
  providerId := none
  connectionId := none
  allowedConnectionIds := []
  weight := 0
  label := none
  prompt := none
  fallbackOnlyOnQuotaExhaustion := false

def imageWithTool : Json :=
  .obj [(js "messages", .arr [.obj [(js "content", .arr [.obj
      [(js "type", .str (js "image_url")), (js "image_url", .str (js "u"))]])]]),
    (js "tools", .arr [.obj []])]

theorem filterTargets_sound_two : [0, 1].Nodup ∧
      (let requirements := deriveRequestCompatibilityRequirements seeing imageWithTool
      let kept := filterTargetsByRequestCompatibility seeing seeingTarget [0, 1] imageWithTool false
      (kept.Nodup ∧ ∃ sub, sub.Sublist [0, 1] ∧ kept.Perm sub) ∧
        (requirements.requiresVision = true →
          ∀ target ∈ kept, (capabilitiesOf seeing (seeingTarget target)).supportsVision =
            some true) ∧
        ∀ target ∈ [0, 1],
          (∀ reason ∈ getTargetCompatibilityFailures seeing (seeingTarget target) requirements,
            reason = .contextWindow) → target ∈ kept) :=
  ⟨by decide, filterTargets_sound seeing seeingTarget [0, 1] (by decide) imageWithTool false⟩

/-- A pool without a compatible target is refused unless the request has an
image and some target sees: then all that see are kept, whatever else they lack. -/
theorem filterTargets_closed_iff [DecidableEq Ref] (c : Catalog) (load : Ref → ResolvedComboTarget)
    (targets : List Ref) (body : Json)
    (h : ∀ target ∈ targets, hasHardCapabilityFailure (getTargetCompatibilityFailures c
      (load target) (deriveRequestCompatibilityRequirements c body)) = true) :
    filterTargetsByRequestCompatibility c load targets body false = [] ↔
      ((deriveRequestCompatibilityRequirements c body).requiresVision = false ∨
        ∀ target ∈ targets, (capabilitiesOf c (load target)).supportsVision ≠ some true) := by
  by_cases hne : targets = []
  · subst hne
    simp [filterTargetsByRequestCompatibility]
  rw [filterTargets_exhausted hne h]
  unfold exhaustedPool
  by_cases hv : (deriveRequestCompatibilityRequirements c body).requiresVision
  · rw [if_pos hv, ← visionSafeOf_eq_nil hv, hv]
    simp
  · have hr : targets.any (fun target => hasHardCapabilityFailure
        (targetReasons c load (deriveRequestCompatibilityRequirements c body) target)) = true := by
      obtain ⟨target, hm⟩ := exists_mem_of_ne_nil targets hne
      exact any_eq_true.mpr ⟨target, hm, h target hm⟩
    rw [if_neg hv, hr]
    simp [hv]

theorem imageWithTool_needs :
    (deriveRequestCompatibilityRequirements seeing imageWithTool).requiresTools = true ∧
      (deriveRequestCompatibilityRequirements seeing imageWithTool).requiresVision = true := by
  decide

theorem seeing_reasons (target : Nat) :
    hasHardCapabilityFailure (getTargetCompatibilityFailures seeing (seeingTarget target)
      (deriveRequestCompatibilityRequirements seeing imageWithTool)) = true := by
  apply any_eq_true.mpr
  refine ⟨.tools, ?_, rfl⟩
  have hc : (capabilitiesOf seeing (seeingTarget target)).toolCalling = false := rfl
  have hp : providerSupportsEmulatedToolCalling seeing (seeingTarget target).provider = false :=
    Bool.and_false _
  simp [getTargetCompatibilityFailures, imageWithTool_needs.1, hc, hp]

theorem filterTargets_closed_iff_seeing :
    filterTargetsByRequestCompatibility seeing seeingTarget [0, 1] imageWithTool false = [] ↔
      ((deriveRequestCompatibilityRequirements seeing imageWithTool).requiresVision = false ∨
        ∀ target ∈ [0, 1], (capabilitiesOf seeing (seeingTarget target)).supportsVision ≠
          some true) :=
  filterTargets_closed_iff seeing seeingTarget [0, 1] imageWithTool
    fun target _ => seeing_reasons target

/-- None of the models calls tools, and yet the request goes to one. -/
theorem not_filterTargets_closed :
    ¬ ∀ (c : Catalog) (load : Nat → ResolvedComboTarget) (targets : List Nat) (body : Json),
      (∀ target ∈ targets, hasHardCapabilityFailure (getTargetCompatibilityFailures c
        (load target) (deriveRequestCompatibilityRequirements c body)) = true) →
      filterTargetsByRequestCompatibility c load targets body false = [] := by
  intro h
  have hn := h seeing seeingTarget [0] imageWithTool fun target _ => seeing_reasons target
  rw [filterTargets_exhausted (by decide) fun target _ => seeing_reasons target] at hn
  unfold exhaustedPool at hn
  rw [if_pos imageWithTool_needs.2] at hn
  dsimp only at hn
  have hv : visionSafeOf seeing seeingTarget
      (deriveRequestCompatibilityRequirements seeing imageWithTool) [0] = [] := by
    split at hn
    · rename_i he
      exact List.isEmpty_iff.mp he
    · exact hn
  rw [visionSafeOf_eq_nil imageWithTool_needs.2] at hv
  exact hv 0 (mem_singleton.mpr rfl) rfl

end RedRouter.Combo.Compatibility
