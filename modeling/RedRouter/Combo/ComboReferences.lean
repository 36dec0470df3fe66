import RedRouter.Lib.Walks
import RedRouter.Lib.DepthFirst
import RedRouter.Lib.Search
import RedRouter.Combo.ComboStructure

/-!
# What the validation takes for a reference

The expansion of a combo follows the entries that are read as references
(`RefersTo`).  The validation follows every entry whose target is the name of a
combo, whatever the entry is: a model whose name, with its provider, is that of
a combo, a pattern for the models of a provider, or an entry that cannot be
read, when there is a combo without a name.

Where no such entry has the name of a combo for a target, the validation
throws for cycles and for depth only (`overruns_of_error`), and it takes
nothing but references for references exactly there (`validation_agrees_iff`).
-/

namespace RedRouter.Combo.Structure

open List JsString DepthFirst Walks

/-! ## Complete expansion of a validated combo

Where the walk of the references stands is a combo and the steps that led to
it, and `branches` is what its entries are there.  A combo that passes
`validateComboDAG` is no deeper than the walk may go, and its expansion has one
target for each place at which the references lead to a model.

What carries the proof is that an entry which the expansion takes for a
reference has for the validation the name of the same combo
(`target_of_comboRef`); the validation may see references where the expansion
has a model.
-/

/-! ## Collections -/

theorem trimmedText_eq_some_iff {s t : JsString} :
    trimmedText s = some t ↔ trim s = t ∧ t ≠ [] := by
  rw [trimmedText]
  split
  · rename_i h
    refine iff_of_false nofun ?_
    rintro ⟨rfl, hne⟩
    exact hne (List.isEmpty_iff.mp h)
  · rename_i h
    rw [Option.some.injEq]
    refine (and_iff_left_of_imp ?_).symm
    rintro rfl hnil
    exact h (List.isEmpty_iff.mpr hnil)

theorem toTrimmedString_spec {value : Option Json} {t : JsString}
    (h : toTrimmedString value = some t) : trim t = t ∧ t ≠ [] := by
  cases value with
  | none => cases h
  | some value =>
    cases value with
    | str s =>
      obtain ⟨rfl, hne⟩ := trimmedText_eq_some_iff.mp h
      exact ⟨trim_trim s, hne⟩
    | _ => cases h

theorem toTrimmedString_str {value : Option Json} {t : JsString}
    (h : toTrimmedString value = some t) : toTrimmedString (some (.str t)) = some t :=
  trimmedText_eq_some_iff.mpr (toTrimmedString_spec h)

theorem recordOrNull_recordOrNull (value : Option Json) :
    recordOrNull (recordOrNull value) = recordOrNull value := by
  cases value with
  | none => rfl
  | some value => cases value <;> rfl

theorem toComboLike_toInput (combo : ComboInput) :
    toComboLike (toComboLike combo).toInput = toComboLike combo := by
  have hname : (toTrimmedString (some (.str (toComboLike combo).name))).getD [] =
      (toComboLike combo).name := by
    cases h : toTrimmedString combo.name with
    | none =>
      rw [toComboLike, h]
      rfl
    | some name =>
      rw [toComboLike, h, Option.getD_some, toTrimmedString_str h, Option.getD_some]
  have hconfig := recordOrNull_recordOrNull combo.config
  exact ComboLike.mk.injEq .. |>.mpr ⟨hname, rfl, hconfig⟩

theorem getCombosArray_toInput (allCombos : List ComboInput) :
    getCombosArray ((getCombosArray allCombos).map ComboLike.toInput) =
      getCombosArray allCombos := by
  simp only [getCombosArray, map_map]
  exact map_congr_left fun combo _ => toComboLike_toInput combo

/-- The names that the combos of a collection can be referred to by. -/
def comboNames (combos : List ComboLike) : List JsString :=
  (combos.map ComboLike.name).filter (!·.isEmpty)

theorem collectComboNames_eq (allCombos : List ComboInput) :
    collectComboNames allCombos = comboNames (getCombosArray allCombos) := by
  induction allCombos with
  | nil => rfl
  | cons combo rest ih =>
    simp only [collectComboNames, comboNames, getCombosArray, map_cons] at ih ⊢
    rw [filterMap_cons, filter_cons, ih]
    cases h : toTrimmedString combo.name with
    | none => simp [toComboLike, h]
    | some name =>
      have hne := (toTrimmedString_spec h).2
      simp [toComboLike, h, hne]

/-! ## What an entry is for the two walks -/

section Reading

variable {toWeight : Option Json → UInt64}
variable {getTargetProvider : JsString → Option JsString → JsString}

variable {options : NormalizeComboStepOptions}

theorem normalizeText_comboRef {target : JsString} {step : ComboRefStep}
    (h : normalizeText target options = .comboRef step) : step.comboName = target := by
  unfold normalizeText at h
  split at h
  · cases h
    rfl
  · split at h <;> cases h

theorem no_provider_of_comboRef {target : JsString} {providerId : Option JsString}
    (h : shouldTreatAsComboRef target providerId options = true) : providerId = none := by
  cases providerId with
  | none => rfl
  | some providerId => simp [shouldTreatAsComboRef] at h

/-- An entry that is a reference for the expansion names its combo for the
validation too. -/
theorem target_of_comboRef {entry : Json} {step : ComboRefStep}
    (h : normalizeComboStep toWeight entry options = some (.comboRef step)) :
    getComboStepTarget entry {} = some step.comboName := by
  cases entry with
  | str s =>
    simp only [normalizeComboStep, Option.map_eq_some_iff] at h
    obtain ⟨target, htarget, hstep⟩ := h
    rw [normalizeText_comboRef hstep]
    exact htarget
  | obj members =>
    simp only [normalizeComboStep, normalizeObject] at h
    simp only [getComboStepTarget]
    split at h
    · rename_i hkind
      obtain ⟨name, hname, hstep⟩ := Option.map_eq_some_iff.mp h
      cases hstep
      rw [if_pos hkind, hname]
    · rename_i hkind
      rw [if_neg hkind]
      split at h
      · obtain ⟨providerId, -, hstep⟩ := Option.map_eq_some_iff.mp h
        cases hstep
      · rename_i hwildcard
        rw [if_neg hwildcard]
        obtain ⟨rawModel, hmodel, hstep⟩ := Option.map_eq_some_iff.mp h
        split at hstep
        · cases hstep
        · split at hstep
          · rename_i href
            rw [Bool.and_eq_true] at href
            cases hstep
            -- without a provider the whole model text is the raw one
            rw [hmodel, Option.map_some, no_provider_of_comboRef href.2, toFullModelString_none,
              (toTrimmedString_spec hmodel).1, ite_self]
          · cases hstep
  | _ => cases h

/-- A runtime reference comes from an entry that the validation reads as the
name of the same combo. -/
theorem normalizeModelEntry_of_ref {entry : Json} {comboName : JsString} {index : Nat}
    {names path : List JsString} {step : ComboRefRuntimeStep}
    (h : normalizeRuntimeStep toWeight getTargetProvider entry comboName index names path =
      some (.comboRef step)) :
    normalizeModelEntry entry = step.comboName := by
  unfold normalizeRuntimeStep at h
  split at h
  · rename_i read hread
    cases h
    rw [normalizeModelEntry, target_of_comboRef hread, Option.getD_some]
  · obtain ⟨_, _, hstep⟩ := Option.map_eq_some_iff.mp h
    cases hstep
  · cases h

end Reading

/-! ## Validation -/

theorem validateEntries_ok {validate : JsString → Option (Except JsString Unit)}
    {combos : List ComboLike} {entries : List Json}
    (h : validateEntries validate combos entries = some (.ok ())) :
    ∀ entry ∈ entries, (findCombo combos (normalizeModelEntry entry)).isSome →
      validate (normalizeModelEntry entry) = some (.ok ()) := by
  induction entries with
  | nil => simp
  | cons first rest ih =>
    rw [validateEntries] at h
    have hfirst : (findCombo combos (normalizeModelEntry first)).isSome →
        validate (normalizeModelEntry first) = some (.ok ()) := by
      intro hfound
      obtain ⟨nested, hnested⟩ := Option.isSome_iff_exists.mp hfound
      simp only [hnested] at h
      split at h
      · assumption
      · rename_i hstopped
        exact absurd h hstopped
    have hrest : validateEntries validate combos rest = some (.ok ()) := by
      cases hnested : findCombo combos (normalizeModelEntry first) with
      | none => simpa only [hnested] using h
      | some nested => simpa only [hnested, hfirst (by simp [hnested])] using h
    simpa using ⟨hfirst, ih hrest⟩

theorem validateComboDAG_ok {maxDepth fuel depth : Nat} {name : JsString}
    {allCombos : List ComboInput} {visited : Visited} {combo : ComboLike}
    (hcombo : findCombo (getCombosArray allCombos) name = some combo)
    (h : validateComboDAG maxDepth fuel name allCombos visited depth = some (.ok ())) :
    depth ≤ maxDepth ∧ name ∉ visited ∧ ∃ fuel', ∀ entry ∈ combo.models,
        (findCombo (getCombosArray allCombos) (normalizeModelEntry entry)).isSome →
          validateComboDAG maxDepth fuel' (normalizeModelEntry entry)
            ((getCombosArray allCombos).map ComboLike.toInput) (name :: visited) (depth + 1) =
              some (.ok ()) := by
  cases fuel with
  | zero => cases h
  | succ fuel =>
    rw [validateComboDAG] at h
    split at h
    · cases h
    · split at h
      · cases h
      · rename_i hvisited
        simp only [hcombo] at h
        refine ⟨by omega, by simpa using hvisited, fuel, ?_⟩
        exact validateEntries_ok h

/-! ## Termination -/

theorem mapM_eq_some_map {α β : Type} {l : List α} {f : α → Option β} {g : α → β}
    (h : ∀ x ∈ l, f x = some (g x)) : l.mapM f = some (l.map g) := by
  induction l with
  | nil => rfl
  | cons x xs ih =>
    have hx := h x mem_cons_self
    have hxs := ih fun y hy => h y (mem_cons_of_mem _ hy)
    simp [hx, hxs]

section Expansion

variable (toWeight : Option Json → UInt64)
variable (getTargetProvider : JsString → Option JsString → JsString)

/-- The walk comes to its end, whatever the collection: at each level it is one
deeper, and it does not go below the depth limit. -/
theorem resolveNestedComboTargets_terminates (maxDepth : Nat) {rounds depth : Nat}
    (hrounds : maxDepth + 2 ≤ rounds + depth) (hpos : 0 < rounds) (combo : ComboLike)
    (allCombos : List ComboInput) (visited : Visited) (path : List JsString) :
    ∃ targets, ∀ fuel, rounds ≤ fuel →
      resolveNestedComboTargets toWeight getTargetProvider maxDepth fuel combo allCombos visited
        depth path = some targets := by
  induction rounds generalizing depth combo allCombos visited path with
  | zero => omega
  | succ rounds ih =>
    by_cases hdepth : maxDepth < depth
    · refine ⟨directTargets toWeight getTargetProvider combo path, fun fuel hfuel => ?_⟩
      obtain ⟨fuel, rfl⟩ := Nat.exists_eq_add_of_le' (show 1 ≤ fuel by omega)
      rw [resolveNestedComboTargets, if_pos hdepth]
    · by_cases hvisited : visited.contains combo.name = true
      · refine ⟨[], fun fuel hfuel => ?_⟩
        obtain ⟨fuel, rfl⟩ := Nat.exists_eq_add_of_le' (show 1 ≤ fuel by omega)
        rw [resolveNestedComboTargets, if_neg hdepth, if_pos hvisited]
      · have hstep : ∀ step : ComboRuntimeStep, ∃ targets, ∀ fuel, rounds ≤ fuel →
            resolveStep (fun step => expandRuntimeStep
                (resolveNestedComboTargets toWeight getTargetProvider maxDepth fuel) maxDepth step
                allCombos (combo.name :: visited) depth path) step = some targets := by
          intro step
          cases step with
          | model target => exact ⟨[target], fun _ _ => rfl⟩
          | comboRef step =>
            simp only [resolveStep, expandRuntimeStep, if_neg hdepth]
            split
            · exact ⟨[], fun _ _ => rfl⟩
            · split
              · exact ⟨[], fun _ _ => rfl⟩
              · exact ih (by omega) (by omega) _ _ _ _
        choose targetsOf htargets using hstep
        refine ⟨((getOrderedTopLevelRuntimeSteps toWeight getTargetProvider combo allCombos path).map
          targetsOf).flatten, fun fuel hfuel => ?_⟩
        obtain ⟨fuel, rfl⟩ := Nat.exists_eq_add_of_le' (show 1 ≤ fuel by omega)
        rw [resolveNestedComboTargets, if_neg hdepth, if_neg hvisited]
        simp only []
        rw [mapM_eq_some_map fun step _ => htargets step fuel (by omega), Option.map_some]

/-! ## Completeness -/

/-- A combo, and the steps that the walk came to it by. -/
abbrev Standpoint := ComboLike × List JsString

/-- What a step is for the walk: a target, another combo, or nothing. -/
def branchOf (combos : List ComboLike) (path : List JsString) :
    ComboRuntimeStep → Branch Standpoint ResolvedComboTarget
  | .model target => .leaf target
  | .comboRef step =>
      match findCombo combos step.comboName with
      | some nestedCombo => .node (nestedCombo, path ++ [step.stepId])
      | none => .nothing

def branches (combos : List ComboLike) (standpoint : Standpoint) :
    List (Branch Standpoint ResolvedComboTarget) :=
  let (combo, path) := standpoint
  combo.models.zipIdx.map fun (entry, index) =>
    ((normalizeRuntimeStep toWeight getTargetProvider entry combo.name index (comboNames combos)
      path).map (branchOf combos path)).getD .nothing

variable {toWeight getTargetProvider}

variable {combo : ComboLike}

theorem getOrderedTopLevelRuntimeSteps_of_no_tiers
    (htiers : hasCompositeTierRuntimeOrder combo = false) (allCombos : List ComboInput)
    (path : List JsString) :
    getOrderedTopLevelRuntimeSteps toWeight getTargetProvider combo allCombos path =
      getTopLevelRuntimeSteps toWeight getTargetProvider combo allCombos path := by
  have hnone : (getCompositeTierStepOrder combo).length = 0 := by
    simpa [hasCompositeTierRuntimeOrder] using htiers
  rw [getOrderedTopLevelRuntimeSteps, orderRuntimeStepsByCompositeTiers]
  simp [hnone]

theorem flatMap_filterMap {α β γ : Type} (g : α → Option β) (f : β → List γ) (l : List α) :
    (l.filterMap g).flatMap f = l.flatMap fun x => ((g x).map f).getD [] := by
  induction l with
  | nil => rfl
  | cons x xs ih =>
    rw [filterMap_cons, flatMap_cons, ← ih]
    cases g x <;> simp

variable {combos : List ComboLike} {name : JsString}

theorem findCombo_name (h : findCombo combos name = some combo) : combo.name = name := by
  simpa using find?_some h

theorem mem_of_findCombo (h : findCombo combos name = some combo) : combo ∈ combos :=
  mem_of_find?_eq_some h

variable {allCombos : List ComboInput}

theorem getCombosArray_nested (hcombos : getCombosArray allCombos = combos) :
    getCombosArray (combos.map ComboLike.toInput) = combos := by
  rw [← hcombos, getCombosArray_toInput]

/-- The combo that an entry refers to was validated below the one that has the
entry. -/
theorem validated_ref {maxDepth fuel depth : Nat} {nestedCombo : ComboLike} {visited : Visited}
    {path : List JsString} {entry : Json} {index : Nat} {step : ComboRefRuntimeStep}
    (hcombos : getCombosArray allCombos = combos) (hcombo : findCombo combos name = some combo)
    (hvalid : validateComboDAG maxDepth fuel name allCombos visited depth = some (.ok ()))
    (hentry : (entry, index) ∈ combo.models.zipIdx)
    (hstep : normalizeRuntimeStep toWeight getTargetProvider entry combo.name index
      (comboNames combos) path = some (.comboRef step))
    (hnested : findCombo combos step.comboName = some nestedCombo) :
    ∃ fuel', validateComboDAG maxDepth fuel' step.comboName (combos.map ComboLike.toInput)
      (combo.name :: visited) (depth + 1) = some (.ok ()) := by
  subst hcombos
  obtain ⟨-, -, fuel', hentries⟩ := validateComboDAG_ok hcombo hvalid
  have hvalidEntry := hentries entry (fst_mem_of_mem_zipIdx hentry)
  rw [normalizeModelEntry_of_ref hstep, hnested, ← findCombo_name hcombo] at hvalidEntry
  exact ⟨fuel', hvalidEntry rfl⟩

/-- A combo that was validated at its depth has no chain of references that goes
below the depth limit. -/
theorem withinDepth_of_validated {maxDepth : Nat} {levels depth fuel : Nat} {visited : Visited}
    (path : List JsString) (hcombos : getCombosArray allCombos = combos)
    (hcombo : findCombo combos name = some combo) (hlevels : levels + depth = maxDepth + 1)
    (hvalid : validateComboDAG maxDepth fuel name allCombos visited depth = some (.ok ())) :
    WithinDepth (branches toWeight getTargetProvider combos) levels (combo, path) := by
  induction levels generalizing depth fuel name combo allCombos visited path with
  | zero =>
    obtain ⟨hdepth, -, -⟩ := validateComboDAG_ok (hcombos ▸ hcombo) hvalid
    omega
  | succ levels ih =>
    refine .intro fun next hnext => ?_
    obtain ⟨⟨entry, index⟩, hentry, hbranch⟩ := mem_map.mp hnext
    cases hstep : normalizeRuntimeStep toWeight getTargetProvider entry combo.name index
        (comboNames combos) path with
    | none => simp [hstep] at hbranch
    | some step =>
      cases step with
      | model target => simp [hstep, branchOf] at hbranch
      | comboRef step =>
        cases hfound : findCombo combos step.comboName with
        | none => simp [hstep, branchOf, hfound] at hbranch
        | some nestedCombo =>
          simp only [hstep, branchOf, hfound, Option.map_some, Option.getD_some,
            Branch.node.injEq] at hbranch
          obtain ⟨fuel', hnested⟩ := validated_ref hcombos hcombo hvalid hentry hstep hfound
          rw [← hbranch]
          exact ih _ (getCombosArray_nested hcombos) hfound (by omega) hnested

/-- The expansion of a combo that was validated at its depth is the list of its
leaves.  Neither the depth limit nor the visited set takes any of them away: the
validation comes to the same combos with the same limit and the same names. -/
theorem resolve_of_validated {maxDepth : Nat}
    (htiers : ∀ combo ∈ combos, hasCompositeTierRuntimeOrder combo = false)
    {levels depth fuel vfuel : Nat} {visited : Visited} {path : List JsString}
    (hcombos : getCombosArray allCombos = combos) (hcombo : findCombo combos name = some combo)
    (hlevels : levels + depth = maxDepth + 1) (hfuel : levels < fuel)
    (hvalid : validateComboDAG maxDepth vfuel name allCombos visited depth = some (.ok ())) :
    resolveNestedComboTargets toWeight getTargetProvider maxDepth fuel combo allCombos visited
      depth path =
        some (leaves (branches toWeight getTargetProvider combos) levels (combo, path)) := by
  induction levels generalizing depth fuel vfuel name combo allCombos visited path with
  | zero =>
    obtain ⟨hdepth, -, -⟩ := validateComboDAG_ok (hcombos ▸ hcombo) hvalid
    omega
  | succ levels ih =>
    obtain ⟨hdepth, hvisited, -⟩ := validateComboDAG_ok (hcombos ▸ hcombo) hvalid
    obtain ⟨fuel, rfl⟩ := Nat.exists_eq_add_of_le' (show 1 ≤ fuel by omega)
    have hall := getCombosArray_nested hcombos
    have hsteps : ∀ step ∈ getTopLevelRuntimeSteps toWeight getTargetProvider combo allCombos path,
        resolveStep (fun step => expandRuntimeStep
            (resolveNestedComboTargets toWeight getTargetProvider maxDepth fuel) maxDepth step
            allCombos (combo.name :: visited) depth path) step =
          some ((branchOf combos path step).leaves
            (leaves (branches toWeight getTargetProvider combos) levels)) := by
      intro step hstep
      cases step with
      | model target => rfl
      | comboRef step =>
        obtain ⟨⟨entry, index⟩, hentry, hread⟩ := mem_filterMap.mp hstep
        rw [collectComboNames_eq, hcombos] at hread
        simp only [resolveStep, expandRuntimeStep, if_neg (show ¬ maxDepth < depth by omega),
          hcombos, branchOf]
        cases hfound : findCombo combos step.comboName with
        | none => rfl
        | some nestedCombo =>
          obtain ⟨vfuel', hnested⟩ := validated_ref hcombos hcombo hvalid hentry hread hfound
          obtain ⟨-, hfresh, -⟩ := validateComboDAG_ok (hall ▸ hfound) hnested
          simp only []
          rw [if_neg (by simpa using hfresh)]
          exact ih hall hfound (by omega) (by omega) hnested
    rw [resolveNestedComboTargets, if_neg (by omega),
      if_neg (by simpa [findCombo_name hcombo] using hvisited),
      getOrderedTopLevelRuntimeSteps_of_no_tiers (htiers combo (mem_of_findCombo hcombo))]
    simp only []
    rw [mapM_eq_some_map hsteps, Option.map_some, ← flatMap_def, getTopLevelRuntimeSteps,
      flatMap_filterMap, collectComboNames_eq, hcombos, leaves, branches, flatMap_map]
    congr 2
    funext pair
    obtain ⟨entry, index⟩ := pair
    simp only []
    cases normalizeRuntimeStep toWeight getTargetProvider entry combo.name index
      (comboNames combos) path <;> rfl

end Expansion

/-- `validateComboDAG(name, allCombos)` comes to its end and does not throw. -/
def Validated (maxDepth : Nat) (name : JsString) (allCombos : List ComboInput) : Prop :=
  ∃ fuel, validateComboDAG maxDepth fuel name allCombos [] 0 = some (.ok ())

/-- The expansion of any combo of any collection comes to its end, also when the
references form a cycle.  The expansion of a combo that was validated, where no
combo has tiers that order its steps, has one target for each place at which
references lead from the combo to a model, in depth-first order.  The combo is
the one that its name finds: the names of the stored combos are unique. -/
theorem validated_expansion_complete (toWeight : Option Json → UInt64)
    (getTargetProvider : JsString → Option JsString → JsString) (maxDepth : Nat)
    (allCombos : List ComboInput) :
    (∀ combo visited depth path, ∃ targets, ∀ fuel, maxDepth + 2 ≤ fuel →
      resolveNestedComboTargets toWeight getTargetProvider maxDepth fuel combo allCombos visited
        depth path = some targets) ∧
    ∀ name combo, findCombo (getCombosArray allCombos) name = some combo →
      Validated maxDepth name allCombos →
      (∀ other ∈ getCombosArray allCombos, hasCompositeTierRuntimeOrder other = false) →
      ∃ targets, (∀ fuel, maxDepth + 2 ≤ fuel →
          resolveNestedComboTargets toWeight getTargetProvider maxDepth fuel combo allCombos [] 0
            [] = some targets) ∧
        ListsLeaves (branches toWeight getTargetProvider (getCombosArray allCombos)) (combo, [])
          targets := by
  constructor
  · intro combo visited depth path
    exact resolveNestedComboTargets_terminates toWeight getTargetProvider maxDepth (by omega)
      (by omega) combo allCombos visited path
  · intro name combo hcombo hvalidated htiers
    obtain ⟨vfuel, hvalid⟩ := hvalidated
    have hdepth : WithinDepth (branches toWeight getTargetProvider (getCombosArray allCombos))
        (maxDepth + 1) (combo, []) :=
      withinDepth_of_validated [] rfl hcombo (Nat.add_zero (maxDepth + 1)) hvalid
    refine ⟨_, fun fuel hfuel => ?_, leaves_listsLeaves hdepth⟩
    exact resolve_of_validated htiers rfl hcombo (Nat.add_zero (maxDepth + 1)) (by omega) hvalid

/-- Two references to one combo, of which one is a text. -/
def sharedCombos : List ComboInput :=
  [ { name := some (.str (js "main"))
      models := some (.arr [ .str (js "p/a"),
          .obj [(js "kind", .str (js "combo-ref")), (js "comboName", .str (js "shared"))],
          .str (js "shared") ])
      config := none },
    { name := some (.str (js "shared")), models := some (.arr [.str (js "p/b")]), config := none } ]

theorem validated_expansion_complete_shared : Validated maxComboDepth (js "main") sharedCombos ∧
    ∃ combo targets, findCombo (getCombosArray sharedCombos) (js "main") = some combo ∧
      ListsLeaves (branches (fun _ => 0) (fun _ providerId => providerId.getD (js "unknown"))
          (getCombosArray sharedCombos)) (combo, []) targets := by
  have hvalidated : Validated maxComboDepth (js "main") sharedCombos := ⟨5, rfl⟩
  have htiers : ∀ other ∈ getCombosArray sharedCombos,
      hasCompositeTierRuntimeOrder other = false := by
    simp [sharedCombos, getCombosArray, toComboLike, recordOrNull, hasCompositeTierRuntimeOrder,
      getCompositeTierStepOrder]
  obtain ⟨targets, -, hleaves⟩ :=
    (validated_expansion_complete (fun _ => 0) (fun _ providerId => providerId.getD (js "unknown"))
      maxComboDepth sharedCombos).2 (js "main") _ rfl hvalidated htiers
  exact ⟨hvalidated, _, targets, rfl, hleaves⟩

/-! ## Entries that are no references -/

/-- The kind, the provider or the lack of a text keeps an entry from being a
reference. -/
def namesNoCombo : Json → Bool
  | .str s => (trimmedText s).isNone
  | .obj members =>
      let value := Json.obj members
      if hasKind value "combo-ref" then (toTrimmedString (value.get? (js "comboName"))).isNone
      else if hasKind value "provider-wildcard" || hasKind value "model" then true
      else
        match toTrimmedString (value.get? (js "model")) with
        | none => true
        | some rawModel => (entryProvider value rawModel).isSome
  | _ => true

/-- The validation finds a combo under the target of the entry. -/
def takenForReference (combos : List ComboLike) (entry : Json) : Bool :=
  (findCombo combos (normalizeModelEntry entry)).isSome

section Reading

variable {toWeight : Option Json → UInt64} {combos : List ComboLike} {entry : Json}
  {options : NormalizeComboStepOptions}

theorem shouldTreatAsComboRef_of_found {name : JsString} (hname : name ≠ [])
    (h : (findCombo combos name).isSome = true) (hnames : options.comboNames = comboNames combos) :
    shouldTreatAsComboRef name none options = true := by
  obtain ⟨combo, hcombo⟩ := Option.isSome_iff_exists.mp h
  have hmem := mem_of_find?_eq_some hcombo
  have hcontains : (comboNames combos).contains name = true := by
    rw [contains_iff_mem, comboNames, mem_filter]
    refine ⟨mem_map.mpr ⟨combo, hmem, findCombo_name hcombo⟩, ?_⟩
    simpa using hname
  unfold shouldTreatAsComboRef
  rw [hnames, hcontains]
  rfl

theorem wildcard_of_no_provider {model : JsString} (h : parseProviderId model = none) :
    parseProviderWildcardPattern model = none := by
  unfold parseProviderId at h
  unfold parseProviderWildcardPattern
  split at h
  · simp only [*]
  · rfl

theorem namesNoCombo_of_comboRef {step : ComboRefStep}
    (h : normalizeComboStep toWeight entry options = some (.comboRef step)) :
    namesNoCombo entry = false := by
  cases entry with
  | str s =>
    simp only [normalizeComboStep, Option.map_eq_some_iff] at h
    obtain ⟨target, htarget, -⟩ := h
    simp [namesNoCombo, htarget]
  | obj members =>
    simp only [normalizeComboStep, normalizeObject] at h
    simp only [namesNoCombo]
    split at h
    · rename_i hkind
      obtain ⟨name, hname, -⟩ := Option.map_eq_some_iff.mp h
      rw [if_pos hkind, hname]
      rfl
    · rename_i hkind
      rw [if_neg hkind]
      split at h
      · obtain ⟨providerId, -, hstep⟩ := Option.map_eq_some_iff.mp h
        cases hstep
      · rename_i hwildcard
        obtain ⟨rawModel, hmodel, hstep⟩ := Option.map_eq_some_iff.mp h
        split at hstep
        · cases hstep
        · split at hstep
          · rename_i href
            rw [Bool.and_eq_true, Bool.not_eq_true'] at href
            rw [if_neg (by simp [hwildcard, href.1]), hmodel]
            simp only
            rw [no_provider_of_comboRef href.2]
            rfl
          · cases hstep
  | _ => cases h

/-- An entry that the validation takes for a reference is one, unless it is
kept from being one. -/
theorem comboRef_of_takenForReference (htaken : takenForReference combos entry = true)
    (hnames : options.comboNames = comboNames combos) (h : namesNoCombo entry = false) :
    ∃ step, normalizeComboStep toWeight entry options = some (.comboRef step) := by
  unfold takenForReference normalizeModelEntry at htaken
  cases entry with
  | str s =>
    obtain ⟨target, htarget⟩ : ∃ target, trimmedText s = some target := by
      rw [← Option.isSome_iff_exists, ← Option.not_isNone]
      simpa [namesNoCombo] using h
    have href := shouldTreatAsComboRef_of_found (trimmedText_eq_some_iff.mp htarget).2
      (by simpa [getComboStepTarget, htarget] using htaken) hnames
    simp only [normalizeComboStep, htarget, Option.map_some, normalizeText]
    rw [if_pos href]
    exact ⟨_, rfl⟩
  | obj members =>
    simp only [namesNoCombo] at h
    simp only [normalizeComboStep, normalizeObject]
    split at h
    · rename_i hkind
      obtain ⟨name, hname⟩ := Option.isSome_iff_exists.mp (by simpa using h)
      rw [if_pos hkind, hname]
      exact ⟨_, rfl⟩
    · rename_i hkind
      rw [if_neg hkind]
      split at h
      · cases h
      · rename_i hplain
        rw [Bool.or_eq_true, not_or] at hplain
        rw [if_neg hplain.1]
        split at h
        · cases h
        · rename_i rawModel hmodel
          have hprovider : entryProvider (.obj members) rawModel = none :=
            Option.isNone_iff_eq_none.mp (Option.isSome_eq_false_iff.mp h)
          have hparse : parseProviderId rawModel = none :=
            (Option.or_eq_none_iff.mp hprovider).2
          obtain ⟨htrim, hne⟩ := toTrimmedString_spec hmodel
          have htarget : getComboStepTarget (.obj members) {} = some rawModel := by
            simp only [getComboStepTarget]
            rw [if_neg hkind, if_neg hplain.1, hmodel, Option.map_some, hprovider,
              toFullModelString_none, htrim, ite_self]
          rw [htarget, Option.getD_some] at htaken
          have href := shouldTreatAsComboRef_of_found hne htaken hnames
          rw [hmodel, Option.map_some, wildcard_of_no_provider hparse, hprovider]
          rw [if_pos (by simp [hplain.2, href])]
          exact ⟨_, rfl⟩
  | _ => cases h

end Reading

/-! ## The references between combos -/

variable (toWeight : Option Json → UInt64) (combos : List ComboLike)

/-- What `normalizeComboStep` is called with for an entry of a combo. -/
def readingOptions (combo : ComboLike) (index : Nat) : NormalizeComboStepOptions where
  comboName := some combo.name
  index := index
  comboNames := comboNames combos

/-- A combo has an entry that is read as a reference to another one. -/
def RefersTo (name refName : JsString) : Prop :=
  ∃ combo, findCombo combos name = some combo ∧ ∃ e ∈ combo.models.zipIdx, ∃ step,
    normalizeComboStep toWeight e.1 (readingOptions combos combo e.2) = some (.comboRef step) ∧
      step.comboName = refName

/-- A combo that references lead to without going too deep. -/
def WithinReach (maxDepth : Nat) (name : JsString) (combo : ComboLike) : Prop :=
  ∃ n refName, n ≤ maxDepth ∧ Walk (RefersTo toWeight combos) n name refName ∧
    findCombo combos refName = some combo

/-- In the combos within reach, nothing but references is taken for one. -/
def CountsReferences (maxDepth : Nat) (name : JsString) : Prop :=
  ∀ combo, WithinReach toWeight combos maxDepth name combo → ∀ e ∈ combo.models.zipIdx,
    takenForReference combos e.1 = true → ∃ step,
      normalizeComboStep toWeight e.1 (readingOptions combos combo e.2) = some (.comboRef step)

/-- In the combos within reach, no entry that is kept from being a reference
has the name of a combo for a target. -/
def NoCoincidence (maxDepth : Nat) (name : JsString) : Prop :=
  ∀ combo, WithinReach toWeight combos maxDepth name combo → ∀ entry ∈ combo.models,
    namesNoCombo entry = true → takenForReference combos entry = false

variable {toWeight combos}

theorem countsReferences_iff {maxDepth : Nat} {name : JsString} :
    CountsReferences toWeight combos maxDepth name ↔
      NoCoincidence toWeight combos maxDepth name := by
  constructor
  · intro hcounts combo hreach entry hentry hnames
    by_contra htaken
    obtain ⟨index, hindex⟩ := mem_iff_getElem?.mp hentry
    obtain ⟨step, hstep⟩ := hcounts combo hreach (entry, index)
      (mk_mem_zipIdx_iff_getElem?.mpr hindex) (by simpa using htaken)
    rw [namesNoCombo_of_comboRef hstep] at hnames
    cases hnames
  · intro hno combo hreach e he htaken
    have hentry : e.1 ∈ combo.models := fst_mem_of_mem_zipIdx he
    refine comboRef_of_takenForReference htaken rfl ?_
    by_contra hnames
    rw [hno combo hreach e.1 hentry (by simpa using hnames)] at htaken
    cases htaken

/-! ## Errors -/

theorem validateEntries_error {validate : JsString → Option (Except JsString Unit)}
    {entries : List Json} {e : JsString}
    (h : validateEntries validate combos entries = some (.error e)) :
    ∃ entry ∈ entries, takenForReference combos entry = true ∧
      validate (normalizeModelEntry entry) = some (.error e) := by
  induction entries with
  | nil => cases h
  | cons entry rest ih =>
    rw [validateEntries] at h
    have hlater : validateEntries validate combos rest = some (.error e) →
        ∃ other ∈ entry :: rest, takenForReference combos other = true ∧
          validate (normalizeModelEntry other) = some (.error e) := by
      intro hrest
      obtain ⟨other, hother, hfound⟩ := ih hrest
      exact ⟨other, mem_cons_of_mem _ hother, hfound⟩
    cases hfind : findCombo combos (normalizeModelEntry entry) with
    | none =>
      simp only [hfind] at h
      exact hlater h
    | some nested =>
      simp only [hfind] at h
      split at h
      · exact hlater h
      · exact ⟨entry, mem_cons_self, by simp [takenForReference, hfind], h⟩

theorem overruns_of_error {maxDepth : Nat} {root : JsString}
    (hcounts : CountsReferences toWeight combos maxDepth root) {fuel depth : Nat}
    {name : JsString} {allCombos : List ComboInput} {visited : Visited} {e : JsString}
    (hcombos : getCombosArray allCombos = combos)
    (htrail : Trail (RefersTo toWeight combos) root visited depth name)
    (h : validateComboDAG maxDepth fuel name allCombos visited depth = some (.error e)) :
    Overruns (RefersTo toWeight combos) maxDepth root := by
  induction fuel generalizing name allCombos visited depth with
  | zero => cases h
  | succ fuel ih =>
    rw [validateComboDAG] at h
    split at h
    · rename_i hdepth
      exact htrail.overruns_of_lt hdepth
    · split at h
      · rename_i hvisited
        exact htrail.overruns_of_mem (contains_iff_mem.mp hvisited)
      · simp only [hcombos] at h
        split at h
        · cases h
        · rename_i combo hcombo
          obtain ⟨entry, hentry, htaken, hnested⟩ := validateEntries_error h
          obtain ⟨index, hindex⟩ := mem_iff_getElem?.mp hentry
          have hmem := mk_mem_zipIdx_iff_getElem?.mpr hindex
          obtain ⟨step, hstep⟩ := hcounts combo
            ⟨depth, name, by omega, htrail.walk, hcombo⟩ (entry, index) hmem htaken
          have hname : normalizeModelEntry entry = step.comboName := by
            rw [normalizeModelEntry, target_of_comboRef hstep, Option.getD_some]
          have hnext : RefersTo toWeight combos name (normalizeModelEntry entry) :=
            ⟨combo, hcombo, (entry, index), hmem, step, hstep, hname.symm⟩
          refine ih ?_ (htrail.step hnext) hnested
          rw [← hcombos]
          exact getCombosArray_toInput allCombos

/-- The validation takes nothing but references for references, and throws for
an overrun of them only, exactly when no other entry has the name of a combo
for a target. -/
theorem validation_agrees_iff (toWeight : Option Json → UInt64) (allCombos : List ComboInput)
    (maxDepth : Nat) (name : JsString) :
    (CountsReferences toWeight (getCombosArray allCombos) maxDepth name ∧
      ((∃ fuel e, validateComboDAG maxDepth fuel name allCombos [] 0 = some (.error e)) →
        Overruns (RefersTo toWeight (getCombosArray allCombos)) maxDepth name)) ↔
      NoCoincidence toWeight (getCombosArray allCombos) maxDepth name := by
  constructor
  · rintro ⟨hcounts, -⟩
    exact countsReferences_iff.mp hcounts
  · intro hno
    have hcounts := countsReferences_iff.mpr hno
    refine ⟨hcounts, ?_⟩
    rintro ⟨fuel, e, herror⟩
    exact overruns_of_error hcounts rfl Trail.nil herror

def namesake : ComboInput where
  name := some (.str (js "gpt"))
  models := some (.arr [.obj [(js "kind", .str (js "model")), (js "model", .str (js "gpt"))]])
  config := none

/-- The validation throws for a combo without any reference. -/
theorem not_overruns_of_error :
    ¬ ∀ (toWeight : Option Json → UInt64) (allCombos : List ComboInput) (maxDepth : Nat)
      (name : JsString),
      (∃ fuel e, validateComboDAG maxDepth fuel name allCombos [] 0 = some (.error e)) →
        Overruns (RefersTo toWeight (getCombosArray allCombos)) maxDepth name := by
  intro hall
  have hthrows : validateComboDAG maxComboDepth 2 (js "gpt") [namesake] [] 0 =
      some (.error (circularReference (js "gpt"))) := by
    rfl
  refine not_overruns_of_no_step ?_ (hall (fun _ => 0) [namesake] maxComboDepth (js "gpt")
    ⟨2, _, hthrows⟩)
  rintro x y ⟨combo, hcombo, e, he, step, hstep, -⟩
  have hmem := mem_of_find?_eq_some hcombo
  obtain rfl := mem_singleton.mp hmem
  obtain rfl := mem_singleton.mp he
  have hplain := namesNoCombo_of_comboRef hstep
  exact absurd hplain (by decide)

end RedRouter.Combo.Structure
