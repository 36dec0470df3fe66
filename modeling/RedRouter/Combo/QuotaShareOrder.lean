import RedRouter.Combo.QuotaShareStrategy
import RedRouter.Lib.FirstMax

/-!
# The order of the quota-share strategy

`orderedTargets` is a permutation of the targets, and none stands in front of a target of
a better tier: a target with room, one at its cap, and one with a saturated bucket.

A target of weight 0 gains nothing in the round-robin, but it can win.  It does so
when no target of positive weight has room, when the deficits that are left over put it
first, and when it is the runner-up and has fewer requests in flight than the first
(`selectQuotaShareTarget_ordered_iff`).
-/

namespace RedRouter.Combo

open List

/-! ## Loads -/

def loadOf (nowMs : Int) (inflight : InflightMap) (connectionId : JsString) : Nat :=
  (getInflight connectionId nowMs inflight).1

/-- The maps that differ in expired leases only. -/
def SameLoads (nowMs : Int) (m m' : InflightMap) : Prop :=
  ∀ connectionId, loadOf nowMs m' connectionId = loadOf nowMs m connectionId

theorem SameLoads.trans {nowMs : Int} {m m' m'' : InflightMap} (h : SameLoads nowMs m m')
    (h' : SameLoads nowMs m' m'') : SameLoads nowMs m m'' :=
  fun connectionId => (h' connectionId).trans (h connectionId)

theorem loadOf_eq (nowMs : Int) (m : InflightMap) (connectionId : JsString) :
    loadOf nowMs m connectionId =
      if connectionId = [] then 0
      else ((m.get connectionId).map fun slot => (retireExpired slot nowMs).leases.length).getD 0 := by
  unfold loadOf getInflight
  split
  · rfl
  · cases m.get connectionId with
    | none => rfl
    | some slot => rfl

theorem sameLoads_getInflight (connectionId : JsString) (nowMs : Int) (m : InflightMap) :
    SameLoads nowMs m (getInflight connectionId nowMs m).2 := by
  intro other
  by_cases hempty : connectionId = []
  · rw [getInflight, if_pos hempty]
  cases hget : m.get connectionId with
  | none => simp [getInflight, hget]
  | some slot =>
    have hread : (getInflight connectionId nowMs m).2 =
        m.set connectionId (retireExpired slot nowMs) := by
      simp [getInflight, if_neg hempty, hget]
    rw [hread, loadOf_eq, loadOf_eq, JsMap.get_set]
    by_cases hother : connectionId = other
    · subst hother
      simp [hget, retireExpired_leases]
    · rw [if_neg hother]

/-! ## Tiers -/

def isFull (caps : ConnectionCaps) (nowMs : Int) (inflight : InflightMap)
    (target : ResolvedComboTarget) : Bool :=
  match resolveConnectionCap (target.connectionId.getD []) caps with
  | none => false
  | some cap => decide (cap ≤ loadOf nowMs inflight (target.connectionId.getD []))

theorem SameLoads.isFull_eq {nowMs : Int} {m m' : InflightMap} (h : SameLoads nowMs m m')
    (caps : ConnectionCaps) : isFull caps nowMs m' = isFull caps nowMs m := by
  funext target
  unfold isFull
  rw [h]

theorem partitionLoop_spec (caps : ConnectionCaps) (nowMs : Int)
    (targets : List ResolvedComboTarget) (inflight : InflightMap) :
    (partitionLoop caps nowMs targets inflight).1 =
        targets.filter (fun t => !isFull caps nowMs inflight t) ∧
      (partitionLoop caps nowMs targets inflight).2.1 =
        targets.filter (isFull caps nowMs inflight) ∧
      SameLoads nowMs inflight (partitionLoop caps nowMs targets inflight).2.2 := by
  induction targets generalizing inflight with
  | nil => exact ⟨rfl, rfl, fun _ => rfl⟩
  | cons target rest ih =>
    cases hcap : resolveConnectionCap (target.connectionId.getD []) caps with
    | none =>
      have hfull : isFull caps nowMs inflight target = false := by
        rw [isFull, hcap]
      obtain ⟨hroom, hatCap, hloads⟩ := ih inflight
      rw [filter_cons_of_pos (by rw [hfull]; rfl), filter_cons_of_neg (by simp [hfull]),
        ← hroom, ← hatCap]
      simp only [partitionLoop, hcap, true_and]
      exact hloads
    | some cap =>
      have hfull : isFull caps nowMs inflight target =
          decide (cap ≤ loadOf nowMs inflight (target.connectionId.getD [])) := by
        rw [isFull, hcap]
      have hread := sameLoads_getInflight (target.connectionId.getD []) nowMs inflight
      obtain ⟨hroom, hatCap, hloads⟩ :=
        ih (getInflight (target.connectionId.getD []) nowMs inflight).2
      rw [hread.isFull_eq] at hroom hatCap
      simp only [partitionLoop, hcap]
      by_cases hle : cap ≤ (getInflight (target.connectionId.getD []) nowMs inflight).1
      · have hfull : isFull caps nowMs inflight target = true := hfull.trans (decide_eq_true hle)
        rw [filter_cons_of_neg (by simp [hfull]), ← hroom,
          filter_cons_of_pos hfull, ← hatCap, if_pos hle]
        exact ⟨rfl, rfl, hread.trans hloads⟩
      · have hfull : isFull caps nowMs inflight target = false := hfull.trans (decide_eq_false hle)
        rw [filter_cons_of_pos (by simp [hfull]), ← hroom,
          filter_cons_of_neg (by simp [hfull]), ← hatCap, if_neg hle]
        exact ⟨rfl, rfl, hread.trans hloads⟩

namespace QuotaShareCall

variable (call : QuotaShareCall) (target : ResolvedComboTarget)

def isSaturated : Bool :=
  let connId := target.connectionId.getD []
  let modelName := bareModelName call.modelStr
  connId != [] &&
    (call.isBucketSaturated connId (js "5h") || call.isBucketSaturated connId (js "7d") ||
      (modelName != [] && call.isBucketSaturated connId (js "7d:" ++ modelName)))

def isAtCap : Bool :=
  match call.maxConcurrentByConnection with
  | none => false
  | some caps => isFull caps call.nowMs call.inflight target

/-- 0 for a target with room, 1 for one at its cap, 2 for a saturated one. -/
def tier : Nat :=
  if call.isSaturated target then 2 else if call.isAtCap target then 1 else 0

/-- The requests in flight of the target's connection. -/
def load : Nat :=
  loadOf call.nowMs call.inflight (target.connectionId.getD [])

theorem eligible_filter :
    call.eligible = if 0 < (call.targets.filter (fun t => !call.isSaturated t)).length then
      call.targets.filter (fun t => !call.isSaturated t) else call.targets := by
  have hfilter : (call.targets.filter fun target =>
      let connId := target.connectionId.getD []
      connId == [] ||
        !(call.isBucketSaturated connId (js "5h") || call.isBucketSaturated connId (js "7d") ||
          (bareModelName call.modelStr != [] &&
            call.isBucketSaturated connId (js "7d:" ++ bareModelName call.modelStr)))) =
      call.targets.filter (fun t => !call.isSaturated t) := by
    refine filter_congr fun target _ => ?_
    simp [isSaturated, bne]
  unfold eligible filterEligibleBySaturation
  dsimp only at hfilter ⊢
  rw [hfilter]

theorem eligible_eq : call.eligible = call.targets.filter (fun t => !call.isSaturated t) ∨
      call.eligible = call.targets ∧ ∀ t ∈ call.targets, call.isSaturated t = true := by
  rw [eligible_filter]
  split
  · exact Or.inl rfl
  · rename_i hnone
    refine Or.inr ⟨rfl, fun t ht => ?_⟩
    have hnil := length_eq_zero_iff.mp (Nat.eq_zero_of_not_pos hnone)
    have hnot := filter_eq_nil_iff.mp hnil t ht
    simpa using hnot

theorem eligible_ne_nil (hne : call.targets ≠ []) : call.eligible ≠ [] := by
  rw [eligible_filter]
  split
  · rename_i hsome
    exact length_pos_iff.mp hsome
  · exact hne

/-- The targets that the code puts behind all others. -/
def saturatedDeprioritized : List ResolvedComboTarget :=
  call.targets.filter (fun t => !call.eligible.contains t)

theorem eligible_perm : (call.eligible ++ call.saturatedDeprioritized).Perm call.targets := by
  rcases call.eligible_eq with heligible | ⟨heligible, -⟩
  · have hrest : call.saturatedDeprioritized =
        call.targets.filter (fun t => !!call.isSaturated t) := by
      refine filter_congr fun target htarget => ?_
      have hmem : target ∈ call.targets.filter (fun t => !call.isSaturated t) ↔
          (!call.isSaturated target) = true := by
        rw [mem_filter, and_iff_right htarget]
      rw [heligible, contains_eq_mem, Bool.eq_iff_iff, Bool.not_eq_true', decide_eq_false_iff_not,
        hmem, Bool.not_not, Bool.not_eq_true', Bool.not_eq_false]
    rw [heligible, hrest]
    exact filter_append_perm _ _
  · have hrest : call.saturatedDeprioritized = [] := by
      refine filter_eq_nil_iff.mpr fun target htarget => ?_
      rw [heligible, contains_eq_mem, decide_eq_true htarget]
      exact Bool.false_ne_true
    rw [hrest, heligible, append_nil]

/-- The targets of the round-robin have room, and the others are at their cap.  When all are
at their cap, all take part. -/
def Split (withRoom atCap : List ResolvedComboTarget) : Prop :=
  ((∀ t ∈ withRoom, call.isAtCap t = false) ∧ ∀ t ∈ atCap, call.isAtCap t = true) ∨
    (∀ t ∈ withRoom, call.isAtCap t = true) ∧ atCap = []

theorem partition_spec :
    ∃ atCap inflight, partitionByConcurrencyCap call.eligible call.maxConcurrentByConnection
        call.nowMs call.inflight = (call.withRoom, atCap, inflight) ∧
      SameLoads call.nowMs call.inflight inflight ∧
      (call.withRoom ++ atCap).Perm call.eligible ∧ call.Split call.withRoom atCap ∧
      (call.eligible ≠ [] → call.withRoom ≠ []) := by
  -- nobody is at a cap
  have hfree : ∀ caps, call.maxConcurrentByConnection = caps →
      partitionByConcurrencyCap call.eligible caps call.nowMs call.inflight =
        (call.eligible, [], call.inflight) → (∀ t, call.isAtCap t = false) →
      ∃ atCap inflight, partitionByConcurrencyCap call.eligible call.maxConcurrentByConnection
          call.nowMs call.inflight = (call.withRoom, atCap, inflight) ∧
        SameLoads call.nowMs call.inflight inflight ∧
        (call.withRoom ++ atCap).Perm call.eligible ∧ call.Split call.withRoom atCap ∧
        (call.eligible ≠ [] → call.withRoom ≠ []) := by
    rintro caps hcaps hpartition hnone
    have hroom : call.withRoom = call.eligible := by
      rw [withRoom, hcaps, hpartition]
    rw [hcaps, hpartition, hroom]
    refine ⟨[], call.inflight, rfl, fun _ => rfl, ?_,
      Or.inl ⟨fun t _ => hnone t, fun t ht => ?_⟩, id⟩
    · rw [append_nil]
    · exact absurd ht not_mem_nil
  cases hcaps : call.maxConcurrentByConnection with
  | none =>
    rw [← hcaps]
    refine hfree none hcaps rfl fun t => ?_
    rw [isAtCap, hcaps]
  | some caps =>
    by_cases hempty : caps.length = 0
    · rw [← hcaps]
      refine hfree (some caps) hcaps ?_ fun t => ?_
      · rw [partitionByConcurrencyCap, if_pos hempty]
      · have hnil := length_eq_zero_iff.mp hempty
        subst hnil
        have hcap : resolveConnectionCap (t.connectionId.getD []) [] = none := by
          unfold resolveConnectionCap
          split <;> rfl
        rw [isAtCap, hcaps]
        simp [isFull, hcap]
    · obtain ⟨hroom, hatCap, hloads⟩ :=
        partitionLoop_spec caps call.nowMs call.eligible call.inflight
      have hfull : ∀ t, call.isAtCap t = isFull caps call.nowMs call.inflight t := by
        intro t
        rw [isAtCap, hcaps]
      have hpartition : partitionByConcurrencyCap call.eligible (some caps) call.nowMs call.inflight =
          if (partitionLoop caps call.nowMs call.eligible call.inflight).1.length = 0 then
            (call.eligible, [], (partitionLoop caps call.nowMs call.eligible call.inflight).2.2)
          else partitionLoop caps call.nowMs call.eligible call.inflight := by
        rw [partitionByConcurrencyCap, if_neg hempty]
      have hwithRoom : call.withRoom = (partitionByConcurrencyCap call.eligible (some caps)
          call.nowMs call.inflight).1 := by
        rw [withRoom, hcaps]
      rw [hwithRoom, hpartition]
      split
      · rename_i hall
        have hnil := length_eq_zero_iff.mp hall
        rw [hroom] at hnil
        refine ⟨[], _, rfl, hloads, ?_, Or.inr ⟨fun t ht => ?_, rfl⟩, id⟩
        · rw [append_nil]
        · have hnot := filter_eq_nil_iff.mp hnil t ht
          rw [hfull]
          simpa using hnot
      · rename_i hsome
        refine ⟨_, _, rfl, hloads, ?_, Or.inl ⟨fun t ht => ?_, fun t ht => ?_⟩,
          fun _ hnil => hsome (length_eq_zero_iff.mpr hnil)⟩
        · rw [hroom, hatCap]
          exact (perm_append_comm).trans (filter_append_perm _ _)
        · rw [hroom] at ht
          rw [hfull]
          simpa using (mem_filter.mp ht).2
        · rw [hatCap] at ht
          rw [hfull]
          exact (mem_filter.mp ht).2

end QuotaShareCall

/-! ## The selection -/

variable {targets : List ResolvedComboTarget}

section

variable (hkeys : (targets.map ResolvedComboTarget.executionKey).Nodup)
include hkeys

theorem others_eq_erase {winner : ResolvedComboTarget} (hwinner : winner ∈ targets) :
    targets.filter (fun t => t.executionKey != winner.executionKey) = targets.erase winner := by
  rw [hkeys.of_map.erase_eq_filter]
  refine filter_congr fun target htarget => ?_
  rw [Bool.eq_iff_iff, bne_iff_ne, bne_iff_ne, not_iff_not]
  exact ⟨fun h => inj_on_of_nodup_map hkeys htarget hwinner h, fun h => h ▸ rfl⟩

/-- The order of two targets or more: the first by the deficits, and then the others. -/
theorem applyDrr_eq (comboName : JsString) (s : DrrState) (hlength : 2 ≤ targets.length) :
    ∃ lead, FirstMax (fun t => drrDeficit comboName s t + quantum targets t) targets lead ∧
      (applyDrr targets comboName s).1 = lead :: targets.erase lead := by
  match targets, hkeys, hlength with
  | first :: second :: rest, hkeys, _ =>
    have hgained : ∀ target ∈ first :: second :: rest,
        drrDeficit comboName s target + quantum (first :: second :: rest) target =
          deficitOf (addQuanta (first :: second :: rest) (first :: second :: rest)
            (getDrrDeficits comboName s).2) target := by
      intro target hmem
      rw [deficitOf_addQuanta _ hkeys hmem, getDrrDeficits_snd]
      rfl
    have hfold := firstMax_foldl (deficitOf (addQuanta (first :: second :: rest)
      (first :: second :: rest) (getDrrDeficits comboName s).2)) first (second :: rest)
    refine ⟨_, hfold.congr hgained, ?_⟩
    rw [← others_eq_erase hkeys hfold.mem]
    rfl

theorem applyDrr_perm (comboName : JsString) (s : DrrState) : (applyDrr targets comboName s).1.Perm targets := by
  by_cases hlength : 2 ≤ targets.length
  · obtain ⟨lead, hlead, horder⟩ := applyDrr_eq hkeys comboName s hlength
    rw [horder]
    exact (perm_cons_erase hlead.mem).symm
  · match targets, hlength with
    | [], _ => exact List.Perm.refl _
    | [target], _ => exact List.Perm.refl _
    | _ :: _ :: _, h => simp at h

end

theorem orderByInflight_eq (first second : ResolvedComboTarget) (rest : List ResolvedComboTarget)
    (nowMs : Int) (inflight : InflightMap) :
    (orderByInflight (first :: second :: rest) nowMs inflight).1 =
      if loadOf nowMs inflight (second.connectionId.getD []) <
          loadOf nowMs inflight (first.connectionId.getD [])
      then second :: first :: rest else first :: second :: rest := by
  have hpick : (pickByInflightP2C first second nowMs inflight).1 =
      decide (loadOf nowMs inflight (second.connectionId.getD []) <
        loadOf nowMs inflight (first.connectionId.getD [])) := by
    rw [← sameLoads_getInflight (first.connectionId.getD []) nowMs inflight
      (second.connectionId.getD [])]
    rfl
  have horder : (orderByInflight (first :: second :: rest) nowMs inflight).1 =
      if (pickByInflightP2C first second nowMs inflight).1 = true
      then second :: first :: rest else first :: second :: rest := rfl
  rw [horder, hpick]
  simp only [decide_eq_true_eq]

theorem orderByInflight_perm (ordered : List ResolvedComboTarget) (nowMs : Int)
    (inflight : InflightMap) : (orderByInflight ordered nowMs inflight).1.Perm ordered := by
  match ordered with
  | [] => exact List.Perm.refl _
  | [_] => exact List.Perm.refl _
  | first :: second :: rest =>
    rw [orderByInflight_eq]
    split
    · exact List.Perm.swap first second rest
    · exact List.Perm.refl _

namespace QuotaShareCall

variable (call : QuotaShareCall) (drr : DrrState)

def credit (target : ResolvedComboTarget) : ℚ :=
  drrDeficit call.comboName drr target + quantum call.withRoom target

theorem select_spec (hne : call.targets ≠ []) : ∃ ordered atCap inflight,
      (selectQuotaShareTarget call drr).orderedTargets =
        (orderByInflight ordered call.nowMs inflight).1 ++ atCap ++ call.saturatedDeprioritized ∧
      (selectQuotaShareTarget call drr).target =
        (orderByInflight ordered call.nowMs inflight).1.head? ∧
      ordered = (applyDrr call.withRoom call.comboName drr).1 ∧
      SameLoads call.nowMs call.inflight inflight ∧
      (call.withRoom ++ atCap).Perm call.eligible ∧ call.Split call.withRoom atCap := by
  obtain ⟨atCap, inflight, hpartition, hloads, hperm, hsplit, -⟩ := call.partition_spec
  refine ⟨_, atCap, inflight, ?_, ?_, rfl, hloads, hperm, hsplit⟩
  · unfold selectQuotaShareTarget
    split
    · rename_i hnil
      exact absurd hnil hne
    · rw [hpartition]
      rfl
  · unfold selectQuotaShareTarget
    split
    · rename_i hnil
      exact absurd hnil hne
    · rw [hpartition]

theorem withRoom_ne_nil (hne : call.targets ≠ []) : call.withRoom ≠ [] := by
  obtain ⟨-, -, -, -, -, -, hroom⟩ := call.partition_spec
  exact hroom (call.eligible_ne_nil hne)

/-- The targets that take part, those at their cap and the saturated ones are all. -/
theorem withRoom_nodup (hkeys : (call.targets.map ResolvedComboTarget.executionKey).Nodup) :
    (call.withRoom.map ResolvedComboTarget.executionKey).Nodup := by
  obtain ⟨atCap, inflight, -, -, hperm, -, -⟩ := call.partition_spec
  have hall := ((hperm.append_right call.saturatedDeprioritized).trans call.eligible_perm).map
    ResolvedComboTarget.executionKey
  have hnodup := hall.nodup_iff.mpr hkeys
  rw [append_assoc, map_append] at hnodup
  exact (nodup_append.mp hnodup).1

/-- No target of weight 0 comes first by its credit, unless the runner-up has a positive
weight and fewer requests in flight, and none is such a runner-up of a target of positive
weight.  A target of positive weight has room. -/
structure ZeroHeldBack : Prop where
  roomy : ∃ t ∈ call.withRoom, 0 < normalizeWeight t.weight
  lead : ∀ lead second, FirstMax (call.credit drr) call.withRoom lead →
    (call.withRoom.erase lead).head? = some second → normalizeWeight lead.weight = 0 →
    0 < normalizeWeight second.weight ∧ call.load second < call.load lead
  second : ∀ lead second, FirstMax (call.credit drr) call.withRoom lead →
    (call.withRoom.erase lead).head? = some second → normalizeWeight second.weight = 0 →
    0 < normalizeWeight lead.weight → call.load lead ≤ call.load second

theorem winner_pos_iff (hne : call.targets ≠ [])
    (hkeys : (call.targets.map ResolvedComboTarget.executionKey).Nodup) :
    (∀ w, (selectQuotaShareTarget call drr).target = some w → 0 < normalizeWeight w.weight) ↔
      call.ZeroHeldBack drr := by
  obtain ⟨ordered, atCap, inflight, -, htarget, horder, hloads, -, -⟩ := call.select_spec drr hne
  have hnodup := call.withRoom_nodup hkeys
  have hroom := call.withRoom_ne_nil hne
  have hzero : ∀ t : ResolvedComboTarget, ¬ 0 < normalizeWeight t.weight →
      normalizeWeight t.weight = 0 :=
    fun t ht => le_antisymm (not_lt.mp ht) (normalizeWeight_nonneg t.weight)
  by_cases hlength : 2 ≤ call.withRoom.length
  · obtain ⟨lead, hlead, hlist⟩ := applyDrr_eq hnodup call.comboName drr hlength
    obtain ⟨second, rest, hrest⟩ : ∃ second rest, call.withRoom.erase lead = second :: rest := by
      refine exists_cons_of_ne_nil (ne_nil_of_length_pos ?_)
      rw [length_erase_of_mem hlead.mem]
      omega
    have hsecond : second ∈ call.withRoom := mem_of_mem_erase (hrest ▸ mem_cons_self)
    have hwinner : (selectQuotaShareTarget call drr).target =
        some (if call.load second < call.load lead then second else lead) := by
      rw [htarget, horder, hlist, hrest, orderByInflight_eq, hloads, hloads]
      show (if call.load second < call.load lead then _ else _ : List ResolvedComboTarget).head? = _
      split <;> rfl
    rw [hwinner]
    constructor
    · intro hpos
      have hpos := hpos _ rfl
      refine ⟨?_, ?_, ?_⟩
      · refine ⟨_, ?_, hpos⟩
        split
        · exact hsecond
        · exact hlead.mem
      · intro lead' second' hlead' hsecond' hweight
        cases hlead.unique hlead'
        rw [hrest] at hsecond'
        cases Option.some.inj hsecond'
        split at hpos
        · rename_i hlight
          exact ⟨hpos, hlight⟩
        · rw [hweight] at hpos
          exact absurd hpos (lt_irrefl 0)
      · intro lead' second' hlead' hsecond' hweight _
        cases hlead.unique hlead'
        rw [hrest] at hsecond'
        cases Option.some.inj hsecond'
        split at hpos
        · rw [hweight] at hpos
          exact absurd hpos (lt_irrefl 0)
        · rename_i hheavy
          exact Nat.le_of_not_lt hheavy
    · rintro ⟨-, hleads, hseconds⟩ w hw
      cases Option.some.inj hw
      have hhead : (call.withRoom.erase lead).head? = some second := by
        rw [hrest]
        rfl
      by_contra hnot
      have hweight := hzero _ hnot
      split at hweight
      · rename_i hlight
        by_cases hleadpos : 0 < normalizeWeight lead.weight
        · exact absurd (hseconds lead second hlead hhead hweight hleadpos) (Nat.not_le_of_lt hlight)
        · have hpos := (hleads lead second hlead hhead (hzero lead hleadpos)).1
          rw [hweight] at hpos
          exact absurd hpos (lt_irrefl 0)
      · rename_i hheavy
        exact absurd (hleads lead second hlead hhead hweight).2 hheavy
  · obtain ⟨t, ht⟩ : ∃ t, call.withRoom = [t] := by
      match call.withRoom, hroom, hlength with
      | [t], _, _ => exact ⟨t, rfl⟩
      | _ :: _ :: _, _, h => simp at h
    have hwinner : (selectQuotaShareTarget call drr).target = some t := by
      rw [htarget, horder, ht]
      rfl
    rw [hwinner]
    constructor
    · intro hpos
      refine ⟨⟨t, ht ▸ mem_singleton_self t, hpos t rfl⟩, ?_, ?_⟩
      all_goals
        intro lead second hlead hsecond
        have heq : lead = t := mem_singleton.mp (ht ▸ hlead.mem)
        rw [ht, heq, erase_cons_head] at hsecond
        cases hsecond
    · rintro ⟨⟨t', ht', hpos⟩, -, -⟩ w hw
      cases Option.some.inj hw
      have heq : t' = t := mem_singleton.mp (ht ▸ ht')
      rw [← heq]
      exact hpos

/-- A target of weight 0 does not win while an eligible one has a positive weight. -/
def ZeroNotSelected : Prop :=
  ∀ winner, (selectQuotaShareTarget call drr).target = some winner →
    (∃ t ∈ call.eligible, 0 < normalizeWeight t.weight) → normalizeWeight winner.weight ≠ 0

/-- The winner, then the targets with room, those at their cap and the saturated ones. -/
structure Ordered : Prop where
  perm : (selectQuotaShareTarget call drr).orderedTargets.Perm call.targets
  winner : (selectQuotaShareTarget call drr).target =
    (selectQuotaShareTarget call drr).orderedTargets.head?
  tiers : (selectQuotaShareTarget call drr).orderedTargets.Pairwise
    (fun a b => call.tier a ≤ call.tier b)
  zero : call.ZeroNotSelected drr

/-! ## The order -/

variable {target : ResolvedComboTarget}

theorem tier_of_not_saturated (h : call.isSaturated target = false) :
    call.tier target = if call.isAtCap target then 1 else 0 := by
  simp [tier, h]

theorem tier_of_saturated (h : call.isSaturated target = true) : call.tier target = 2 := by
  simp [tier, h]

theorem tier_le_two (target : ResolvedComboTarget) : call.tier target ≤ 2 := by
  unfold tier
  split
  · exact le_refl 2
  · split <;> decide

theorem saturated_of_deprioritized (h : target ∈ call.saturatedDeprioritized) :
    call.isSaturated target = true := by
  obtain ⟨hmem, hnot⟩ := mem_filter.mp h
  by_contra hfree
  have hineligible : target ∉ call.eligible := by
    simpa using hnot
  rcases call.eligible_eq with heligible | ⟨heligible, -⟩
  · refine hineligible ?_
    rw [heligible, mem_filter]
    exact ⟨hmem, by simpa using hfree⟩
  · exact hineligible (heligible ▸ hmem)

theorem tiers_of_parts {ordered atCap : List ResolvedComboTarget}
    (heligible : ∀ t ∈ ordered ++ atCap, t ∈ call.eligible) (hsplit : call.Split ordered atCap) :
    (ordered ++ atCap ++ call.saturatedDeprioritized).Pairwise
      (fun a b => call.tier a ≤ call.tier b) := by
  have hlast : ∀ a, ∀ b ∈ call.saturatedDeprioritized, call.tier a ≤ call.tier b := by
    intro a b hb
    rw [call.tier_of_saturated (call.saturated_of_deprioritized hb)]
    exact call.tier_le_two a
  rw [pairwise_append, pairwise_append]
  refine ⟨?_, pairwise_of_forall_mem_list fun a _ b hb => hlast a b hb,
    fun a _ b hb => hlast a b hb⟩
  rcases call.eligible_eq with hfilter | ⟨hall, hsaturated⟩
  · have htier : ∀ t ∈ ordered ++ atCap, call.tier t = if call.isAtCap t then 1 else 0 := by
      intro t ht
      have hmem := heligible t ht
      rw [hfilter] at hmem
      exact call.tier_of_not_saturated (by simpa using (mem_filter.mp hmem).2)
    rcases hsplit with ⟨hroom, hfull⟩ | ⟨hroom, rfl⟩
    · have hzero : ∀ t ∈ ordered, call.tier t = 0 := by
        intro t ht
        rw [htier t (mem_append_left _ ht), hroom t ht]
        rfl
      have hone : ∀ t ∈ atCap, call.tier t = 1 := by
        intro t ht
        rw [htier t (mem_append_right _ ht), hfull t ht]
        rfl
      refine ⟨pairwise_of_forall_mem_list fun a ha b hb => ?_,
        pairwise_of_forall_mem_list fun a ha b hb => ?_, fun a ha b hb => ?_⟩
      · rw [hzero a ha, hzero b hb]
      · rw [hone a ha, hone b hb]
      · rw [hzero a ha, hone b hb]
        exact Nat.zero_le 1
    · have hone : ∀ t ∈ ordered, call.tier t = 1 := by
        intro t ht
        rw [htier t (mem_append_left _ ht), hroom t ht]
        rfl
      refine ⟨pairwise_of_forall_mem_list fun a ha b hb => ?_, List.Pairwise.nil,
        fun a _ b hb => absurd hb not_mem_nil⟩
      rw [hone a ha, hone b hb]
  · have htwo : ∀ t ∈ ordered ++ atCap, call.tier t = 2 := by
      intro t ht
      exact call.tier_of_saturated (hsaturated t (hall ▸ heligible t ht))
    rw [← pairwise_append]
    refine pairwise_of_forall_mem_list fun a ha b hb => ?_
    rw [htwo a ha, htwo b hb]

theorem Split.perm {call : QuotaShareCall} {withRoom ordered atCap : List ResolvedComboTarget}
    (h : call.Split withRoom atCap) (hperm : ordered.Perm withRoom) : call.Split ordered atCap := by
  rcases h with ⟨hroom, hfull⟩ | ⟨hroom, hnil⟩
  · exact Or.inl ⟨fun t ht => hroom t (hperm.mem_iff.mp ht), hfull⟩
  · exact Or.inr ⟨fun t ht => hroom t (hperm.mem_iff.mp ht), hnil⟩

/-- The order of the call: its winner, and the three parts behind it. -/
theorem orderedTargets_spec (hne : call.targets ≠ [])
    (hkeys : (call.targets.map ResolvedComboTarget.executionKey).Nodup) :
    ∃ ordered atCap, (selectQuotaShareTarget call drr).orderedTargets =
        ordered ++ atCap ++ call.saturatedDeprioritized ∧
      (selectQuotaShareTarget call drr).target = ordered.head? ∧ ordered ≠ [] ∧
      (ordered ++ atCap).Perm call.eligible ∧ call.Split ordered atCap := by
  obtain ⟨ordered, atCap, inflight, horder, htarget, hdrr, -, hperm, hsplit⟩ :=
    call.select_spec drr hne
  have hsame : (orderByInflight ordered call.nowMs inflight).1.Perm call.withRoom :=
    (orderByInflight_perm ordered call.nowMs inflight).trans
      (hdrr ▸ applyDrr_perm (call.withRoom_nodup hkeys) call.comboName drr)
  refine ⟨_, atCap, horder, htarget, fun hnil => ?_, (hsame.append_right atCap).trans hperm,
    hsplit.perm hsame⟩
  rw [hnil] at hsame
  exact call.withRoom_ne_nil hne (nil_perm.mp hsame)

end QuotaShareCall

/-- The order is a permutation by tiers, and a target of weight 0 wins where one of positive
weight is eligible unless it is held back. -/
theorem selectQuotaShareTarget_ordered_iff (call : QuotaShareCall) (drr : DrrState)
    (hkeys : (call.targets.map ResolvedComboTarget.executionKey).Nodup) :
    call.Ordered drr ↔
      ((∃ t ∈ call.eligible, 0 < normalizeWeight t.weight) → call.ZeroHeldBack drr) := by
  by_cases hnil : call.targets = []
  · have hresult : selectQuotaShareTarget call drr = ⟨none, [], call.inflight, drr⟩ := by
      unfold selectQuotaShareTarget
      split
      · rfl
      · rename_i htargets
        rw [hnil] at htargets
        cases htargets
    have heligible : call.eligible = [] := by
      rw [call.eligible_filter, hnil]
      rfl
    constructor
    · rintro - ⟨t, ht, -⟩
      rw [heligible] at ht
      exact absurd ht not_mem_nil
    · intro _
      refine ⟨?_, ?_, ?_, ?_⟩
      · rw [hresult, hnil]
      · rw [hresult]
        rfl
      · rw [hresult]
        exact List.Pairwise.nil
      · intro winner hwinner
        rw [hresult] at hwinner
        cases hwinner
  · have hzero : call.ZeroNotSelected drr ↔
        ((∃ t ∈ call.eligible, 0 < normalizeWeight t.weight) → call.ZeroHeldBack drr) := by
      constructor
      · intro h hpos
        refine (call.winner_pos_iff drr hnil hkeys).mp fun winner hwinner => ?_
        exact lt_of_le_of_ne (normalizeWeight_nonneg _) (h winner hwinner hpos).symm
      · intro h winner hwinner hpos
        exact ((call.winner_pos_iff drr hnil hkeys).mpr (h hpos) winner hwinner).ne'
    rw [← hzero]
    refine ⟨fun h => h.zero, fun h => ?_⟩
    obtain ⟨ordered, atCap, horder, htarget, hordered, hperm, hsplit⟩ :=
      call.orderedTargets_spec drr hnil hkeys
    refine ⟨?_, ?_, ?_, h⟩
    · rw [horder]
      exact (hperm.append_right _).trans call.eligible_perm
    · rw [horder, htarget, append_assoc, head?_append_of_ne_nil _ hordered]
    · rw [horder]
      exact call.tiers_of_parts (fun t ht => hperm.mem_iff.mp ht) hsplit

/-- A target with a request in flight, and one that the operator has set to 0. -/
def disabledCall : QuotaShareCall where
  targets := [⟨js "a", some (js "c1"), some 1⟩, ⟨js "b", some (js "c2"), some 0⟩]
  comboName := js "qtSd/pool"
  modelStr := js "openai/gpt-5"
  nowMs := 0
  maxConcurrentByConnection := none
  isBucketSaturated := fun _ _ => false
  inflight := (incrementInflight (js "c1") defaultLeaseMs 0 []).1

theorem selectQuotaShareTarget_ordered_iff_disabled : disabledCall.Ordered [] ↔
      ((∃ t ∈ disabledCall.eligible, 0 < normalizeWeight t.weight) →
        disabledCall.ZeroHeldBack []) :=
  selectQuotaShareTarget_ordered_iff disabledCall [] (by decide)

/-- The disabled target is the runner-up, and it wins as it has no request in flight. -/
theorem not_ordered_disabled : ¬ disabledCall.Ordered [] := by
  intro h
  have hwinner : (selectQuotaShareTarget disabledCall []).target =
      some ⟨js "b", some (js "c2"), some 0⟩ := by
    decide +kernel
  have heligible : (⟨js "a", some (js "c1"), some 1⟩ : ResolvedComboTarget) ∈
      disabledCall.eligible := by
    decide
  exact h.zero _ hwinner ⟨_, heligible, by decide +kernel⟩ (by decide +kernel)

end RedRouter.Combo
