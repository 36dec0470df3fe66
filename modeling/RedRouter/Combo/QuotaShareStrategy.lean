import RedRouter.Lib.Credits
import RedRouter.Lib.Runs
import RedRouter.Combo.QuotaShareInflight

/-!
# The quota-share strategy

`selectQuotaShareTarget` takes the targets that no saturated bucket and no
concurrency cap holds back, orders them by deficit round-robin, and lets the
runner-up win where it has fewer requests in flight.

The deficits of a combo are credits: a round adds to each target the part of
its weight and takes one from the winner.

A reading of the saturation buckets is part of a call.  So is the in-flight
map, as other requests move it between two calls.
-/

namespace RedRouter.Combo

open List Credits Runs

def maxDrrCombos : Nat := 200

/-- A weight that is no finite number is `none`, like one that is not set. -/
structure ResolvedComboTarget where
  executionKey : JsString
  connectionId : Option JsString
  weight : Option ℚ
deriving DecidableEq

abbrev Deficits := JsMap JsString ℚ

/-- `_drrState`: the deficits of each combo. -/
abbrev DrrState := JsMap JsString Deficits

def getDrrDeficits (comboName : JsString) (s : DrrState) : DrrState × Deficits :=
  match s.get comboName with
  | some deficits => (s, deficits)
  | none =>
      let s : DrrState := if maxDrrCombos ≤ s.length then s.tail else s
      (s.set comboName [], [])

/-! ## Gates -/

def bareModelName (modelStr : JsString) : JsString :=
  match JsString.indexOf (js "/") modelStr with
  | some slash => modelStr.drop (slash + 1)
  | none => modelStr

/-- `isBucketSaturated` is the reading of the buckets at the time of the call. -/
def filterEligibleBySaturation (isBucketSaturated : JsString → JsString → Bool)
    (targets : List ResolvedComboTarget) (modelStr : JsString) : List ResolvedComboTarget :=
  let modelName := bareModelName modelStr
  let eligible := targets.filter fun target =>
    let connId := target.connectionId.getD []
    connId == [] || !(isBucketSaturated connId (js "5h") || isBucketSaturated connId (js "7d") ||
        (modelName != [] && isBucketSaturated connId (js "7d:" ++ modelName)))
  if 0 < eligible.length then eligible else targets

/-- The cap of each connection, `none` for no cap.  A cap that is no finite
number is no cap either. -/
abbrev ConnectionCaps := JsMap JsString (Option ℚ)

def resolveConnectionCap (connectionId : JsString) (caps : ConnectionCaps) : Option ℚ :=
  if connectionId = [] then none
  else
    match caps.get connectionId with
    | some (some cap) => if cap ≤ 0 then none else some cap
    | _ => none

/-- The loop over the targets: those with room, those at their cap, and the
in-flight map without the leases that were found expired. -/
def partitionLoop (caps : ConnectionCaps) (nowMs : Int) : List ResolvedComboTarget → InflightMap →
      List ResolvedComboTarget × List ResolvedComboTarget × InflightMap
  | [], inflight => ([], [], inflight)
  | target :: rest, inflight =>
      let connId := target.connectionId.getD []
      match resolveConnectionCap connId caps with
      | none =>
          let (withRoom, atCap, inflight) := partitionLoop caps nowMs rest inflight
          (target :: withRoom, atCap, inflight)
      | some cap =>
          let (load, inflight) := getInflight connId nowMs inflight
          let (withRoom, atCap, inflight) := partitionLoop caps nowMs rest inflight
          if cap ≤ load then (withRoom, target :: atCap, inflight)
          else (target :: withRoom, atCap, inflight)

def partitionByConcurrencyCap (targets : List ResolvedComboTarget) (caps : Option ConnectionCaps)
    (nowMs : Int) (inflight : InflightMap) :
    List ResolvedComboTarget × List ResolvedComboTarget × InflightMap :=
  match caps with
  | none => (targets, [], inflight)
  | some caps =>
      if caps.length = 0 then (targets, [], inflight)
      else
        let (withRoom, atCap, inflight) := partitionLoop caps nowMs targets inflight
        if withRoom.length = 0 then (targets, [], inflight) else (withRoom, atCap, inflight)

/-! ## Deficit round-robin -/

/-- Weights default to 1.  An explicit 0 stays 0. -/
def normalizeWeight : Option ℚ → ℚ
  | none => 1
  | some weight => if weight = 0 then 0 else if 0 < weight then weight else 1

def weightedTotal (targets : List ResolvedComboTarget) : ℚ :=
  (targets.map fun t => normalizeWeight t.weight).sum

def quantum (targets : List ResolvedComboTarget) (target : ResolvedComboTarget) : ℚ :=
  if weightedTotal targets ≤ 0 then 1 / targets.length
  else normalizeWeight target.weight / weightedTotal targets

variable (deficits : Deficits)

def deficitOf (target : ResolvedComboTarget) : ℚ :=
  (deficits.get target.executionKey).getD 0

/-- Add the quantum of each target of `rest` to its deficit. -/
def addQuanta (targets : List ResolvedComboTarget) (rest : List ResolvedComboTarget)
    (deficits : Deficits) : Deficits :=
  rest.foldl (fun deficits target =>
    deficits.set target.executionKey (deficitOf deficits target + quantum targets target)) deficits

variable (first : ResolvedComboTarget) (rest : List ResolvedComboTarget)

def largestDeficit : ResolvedComboTarget :=
  rest.foldl (fun winner target =>
    if deficitOf deficits winner < deficitOf deficits target then target else winner) first

def applyDrr (targets : List ResolvedComboTarget) (comboName : JsString) (s : DrrState) :
    List ResolvedComboTarget × DrrState :=
  match targets with
  | [] => ([], s)
  | [target] => ([target], s)
  | first :: rest =>
      let (s, deficits) := getDrrDeficits comboName s
      let deficits := addQuanta (first :: rest) (first :: rest) deficits
      let winner := largestDeficit deficits first rest
      -- the leftover credit carries into the next round
      let deficits := deficits.set winner.executionKey (deficitOf deficits winner - 1)
      (winner :: (first :: rest).filter (fun t => t.executionKey != winner.executionKey),
        s.set comboName deficits)

/-! ## The selection -/

/-- The runner-up has fewer requests in flight than the winner. -/
def pickByInflightP2C (second : ResolvedComboTarget) (nowMs : Int) (inflight : InflightMap) :
    Bool × InflightMap :=
  let (loadFirst, inflight) := getInflight (first.connectionId.getD []) nowMs inflight
  let (loadSecond, inflight) := getInflight (second.connectionId.getD []) nowMs inflight
  (decide (loadSecond < loadFirst), inflight)

/-- The order after the choice between the first two. -/
def orderByInflight (ordered : List ResolvedComboTarget) (nowMs : Int) (inflight : InflightMap) :
    List ResolvedComboTarget × InflightMap :=
  match ordered with
  | first :: second :: rest =>
      let (runnerUp, inflight) := pickByInflightP2C first second nowMs inflight
      (if runnerUp then second :: first :: rest else first :: second :: rest, inflight)
  | ordered => (ordered, inflight)

/-- A call, with what it reads. -/
structure QuotaShareCall where
  targets : List ResolvedComboTarget
  comboName : JsString
  modelStr : JsString
  nowMs : Int
  maxConcurrentByConnection : Option ConnectionCaps
  isBucketSaturated : JsString → JsString → Bool
  inflight : InflightMap

structure QuotaShareResult where
  target : Option ResolvedComboTarget
  orderedTargets : List ResolvedComboTarget
  inflight : InflightMap
  drr : DrrState

def QuotaShareCall.eligible (call : QuotaShareCall) : List ResolvedComboTarget :=
  filterEligibleBySaturation call.isBucketSaturated call.targets call.modelStr

def QuotaShareCall.withRoom (call : QuotaShareCall) : List ResolvedComboTarget :=
  (partitionByConcurrencyCap call.eligible call.maxConcurrentByConnection call.nowMs
    call.inflight).1

def selectQuotaShareTarget (call : QuotaShareCall) (drr : DrrState) : QuotaShareResult :=
  match call.targets with
  | [] => ⟨none, [], call.inflight, drr⟩
  | _ :: _ =>
      let saturatedDeprioritized := call.targets.filter (fun t => !call.eligible.contains t)
      let (withRoom, atCap, inflight) := partitionByConcurrencyCap call.eligible
        call.maxConcurrentByConnection call.nowMs call.inflight
      let (ordered, drr) := applyDrr withRoom call.comboName drr
      let (ordered, inflight) := orderByInflight ordered call.nowMs inflight
      let winnerConnectionId := (ordered.head?.bind ResolvedComboTarget.connectionId).getD []
      let inflight :=
        (incrementInflight winnerConnectionId defaultLeaseMs call.nowMs inflight).1
      ⟨ordered.head?, ordered ++ atCap ++ saturatedDeprioritized, inflight, drr⟩

/-- Calls one after another: the deficits after them, and what they selected. -/
def quotaShareRun (drr : DrrState) : List QuotaShareCall → DrrState × List (Option ResolvedComboTarget)
  | [] => (drr, [])
  | call :: calls =>
      let result := selectQuotaShareTarget call drr
      let (drr, selected) := quotaShareRun result.drr calls
      (drr, result.target :: selected)

/-- `_getDrrDeficitForTest`. -/
def drrDeficit (comboName : JsString) (s : DrrState) (target : ResolvedComboTarget) : ℚ :=
  deficitOf ((s.get comboName).getD []) target

/-! ## A round of the deficits -/

theorem getDrrDeficits_snd (comboName : JsString) (s : DrrState) :
    (getDrrDeficits comboName s).2 = (s.get comboName).getD [] := by
  unfold getDrrDeficits
  cases hget : s.get comboName with
  | none => rfl
  | some deficits => rfl

theorem deficitOf_set (target target' : ResolvedComboTarget) (d : ℚ) :
    deficitOf (deficits.set target.executionKey d) target' =
      if target'.executionKey = target.executionKey then d else deficitOf deficits target' := by
  unfold deficitOf
  rw [JsMap.get_set]
  by_cases h : target'.executionKey = target.executionKey
  · rw [if_pos h, if_pos h.symm, Option.getD_some]
  · rw [if_neg h, if_neg (Ne.symm h)]

theorem addQuanta_cons (targets : List ResolvedComboTarget) (target : ResolvedComboTarget)
    (rest : List ResolvedComboTarget) (deficits : Deficits) :
    addQuanta targets (target :: rest) deficits = addQuanta targets rest
      (deficits.set target.executionKey (deficitOf deficits target + quantum targets target)) := rfl

variable {target : ResolvedComboTarget}

theorem deficitOf_addQuanta_of_not_mem (targets : List ResolvedComboTarget)
    {rest : List ResolvedComboTarget}
    (h : target.executionKey ∉ rest.map ResolvedComboTarget.executionKey) (deficits : Deficits) :
    deficitOf (addQuanta targets rest deficits) target = deficitOf deficits target := by
  induction rest generalizing deficits with
  | nil => rfl
  | cons other rest ih =>
    simp only [map_cons, mem_cons, not_or] at h
    rw [addQuanta_cons, ih h.2, deficitOf_set, if_neg h.1]

theorem deficitOf_addQuanta (targets : List ResolvedComboTarget) {rest : List ResolvedComboTarget}
    (hkeys : (rest.map ResolvedComboTarget.executionKey).Nodup) (hmem : target ∈ rest)
    (deficits : Deficits) :
    deficitOf (addQuanta targets rest deficits) target =
      deficitOf deficits target + quantum targets target := by
  induction rest generalizing deficits with
  | nil => simp at hmem
  | cons other rest ih =>
    rw [map_cons, nodup_cons] at hkeys
    rw [addQuanta_cons]
    rcases mem_cons.mp hmem with rfl | hrest
    · rw [deficitOf_addQuanta_of_not_mem targets hkeys.1, deficitOf_set, if_pos rfl]
    · have hne : target.executionKey ≠ other.executionKey := by
        intro heq
        exact hkeys.1 (heq ▸ mem_map_of_mem hrest)
      rw [ih hkeys.2 hrest, deficitOf_set, if_neg hne]

theorem largestDeficit_mem : largestDeficit deficits first rest ∈ first :: rest := by
  induction rest generalizing first with
  | nil => exact mem_cons_self
  | cons target rest ih =>
    show largestDeficit deficits
      (if deficitOf deficits first < deficitOf deficits target then target else first) rest ∈ _
    split
    · exact mem_cons_of_mem _ (ih target)
    · rcases mem_cons.mp (ih first) with heq | hrest
      · rw [heq]
        exact mem_cons_self
      · exact mem_cons_of_mem _ (mem_cons_of_mem _ hrest)

theorem le_largestDeficit : ∀ target ∈ first :: rest, deficitOf deficits target ≤
      deficitOf deficits (largestDeficit deficits first rest) := by
  induction rest generalizing first with
  | nil => simp [largestDeficit]
  | cons other rest ih =>
    intro target hmem
    show _ ≤ deficitOf deficits (largestDeficit deficits
      (if deficitOf deficits first < deficitOf deficits other then other else first) rest)
    split
    · rename_i hlt
      have hother := ih other other mem_cons_self
      rcases mem_cons.mp hmem with rfl | hmem
      · exact hlt.le.trans hother
      · exact ih other target hmem
    · rename_i hle
      have hfirst := ih first first mem_cons_self
      rcases mem_cons.mp hmem with rfl | hmem
      · exact hfirst
      · rcases mem_cons.mp hmem with rfl | hrest
        · exact (not_lt.mp hle).trans hfirst
        · exact ih first target (mem_cons_of_mem _ hrest)

theorem normalizeWeight_nonneg (weight : Option ℚ) : 0 ≤ normalizeWeight weight := by
  cases weight with
  | none => exact zero_le_one
  | some weight =>
    unfold normalizeWeight
    by_cases hzero : weight = 0
    · simp [hzero]
    · by_cases hpos : 0 < weight
      · simpa [hzero, hpos] using hpos.le
      · simp [hzero, hpos]

theorem weightedTotal_nonneg (targets : List ResolvedComboTarget) : 0 ≤ weightedTotal targets := by
  apply sum_nonneg
  intro w hw
  obtain ⟨target, -, rfl⟩ := mem_map.mp hw
  exact normalizeWeight_nonneg target.weight

variable {targets : List ResolvedComboTarget}

theorem quantum_perm {targets' : List ResolvedComboTarget} (h : targets.Perm targets') :
    quantum targets = quantum targets' := by
  have htotal : weightedTotal targets = weightedTotal targets' := (h.map _).sum_eq
  funext target
  unfold quantum
  rw [htotal, h.length_eq]

theorem sum_quantum (hne : targets ≠ []) : (targets.map (quantum targets)).sum = 1 := by
  by_cases hzero : weightedTotal targets ≤ 0
  · have hlength : (targets.length : ℚ) ≠ 0 := by
      simpa using hne
    have hconst : targets.map (quantum targets) =
        targets.map (fun _ => (1 / targets.length : ℚ)) := by
      apply map_congr_left
      intro target _
      rw [quantum, if_pos hzero]
    rw [hconst, map_const', sum_replicate, nsmul_eq_mul]
    exact mul_one_div_cancel hlength
  · have hconst : targets.map (quantum targets) =
        targets.map (fun t => normalizeWeight t.weight / weightedTotal targets) := by
      apply map_congr_left
      intro target _
      rw [quantum, if_neg hzero]
    rw [hconst]
    simp only [div_eq_mul_inv]
    rw [sum_map_mul_right]
    exact mul_inv_cancel₀ (ne_of_gt (not_le.mp hzero))

theorem quantum_nonneg (targets : List ResolvedComboTarget) (target : ResolvedComboTarget) :
    0 ≤ quantum targets target := by
  unfold quantum
  split
  · positivity
  · exact div_nonneg (normalizeWeight_nonneg _) (weightedTotal_nonneg _)

theorem shares_quantum (hne : targets ≠ [])
    (hkeys : (targets.map ResolvedComboTarget.executionKey).Nodup) :
    Shares targets.toFinset (quantum targets) where
  whole := by
    rw [sum_toFinset _ hkeys.of_map]
    exact sum_quantum hne
  nonneg := fun target _ => quantum_nonneg targets target

theorem applyDrr_round (hkeys : (targets.map ResolvedComboTarget.executionKey).Nodup)
    (comboName : JsString) (s : DrrState) {winner : ResolvedComboTarget}
    (hwinner : (applyDrr targets comboName s).1.head? = some winner) :
    Round targets.toFinset (quantum targets) (drrDeficit comboName s)
      (drrDeficit comboName (applyDrr targets comboName s).2) winner := by
  match targets, hkeys, hwinner with
  | [], _, hwinner => simp [applyDrr] at hwinner
  | [target], hkeys, hwinner =>
    have hwhole := sum_quantum (cons_ne_nil target [])
    have heq : target = winner := by simpa [applyDrr] using hwinner
    subst heq
    have hone : quantum [target] target = 1 := by simpa using hwhole
    constructor
    · simp
    · simp
    · simp [applyDrr, hone]
  | first :: second :: rest, hkeys, hwinner =>
    have heq := hwinner
    simp only [applyDrr, head?_cons, Option.some.injEq] at heq
    have hgained : ∀ target ∈ first :: second :: rest,
        deficitOf (addQuanta (first :: second :: rest) (first :: second :: rest)
          (getDrrDeficits comboName s).2) target =
        drrDeficit comboName s target + quantum (first :: second :: rest) target := by
      intro target hmem
      rw [deficitOf_addQuanta _ hkeys hmem, getDrrDeficits_snd]
      rfl
    have hmem : winner ∈ first :: second :: rest := by
      rw [← heq]
      exact largestDeficit_mem _ _ _
    constructor
    · exact mem_toFinset.mpr hmem
    · intro target htarget
      have htarget := mem_toFinset.mp htarget
      rw [← hgained target htarget, ← hgained winner hmem, ← heq]
      exact le_largestDeficit _ _ _ target htarget
    · intro target htarget
      have htarget := mem_toFinset.mp htarget
      have hkey : target.executionKey = winner.executionKey ↔ target = winner :=
        ⟨fun h => inj_on_of_nodup_map hkeys htarget hmem h, fun h => h ▸ rfl⟩
      have hafter : drrDeficit comboName (applyDrr (first :: second :: rest) comboName s).2 target =
          deficitOf ((addQuanta (first :: second :: rest) (first :: second :: rest)
            (getDrrDeficits comboName s).2).set winner.executionKey
              (deficitOf (addQuanta (first :: second :: rest) (first :: second :: rest)
                (getDrrDeficits comboName s).2) winner - 1)) target := by
        rw [← heq]
        simp [applyDrr, drrDeficit, JsMap.get_set]
      rw [hafter, deficitOf_set]
      by_cases hwin : target = winner
      · rw [if_pos (hkey.mpr hwin), if_pos hwin, hgained winner hmem, hwin]
      · rw [if_neg (fun h => hwin (hkey.mp h)), if_neg hwin, hgained target htarget, sub_zero]

/-! ## Runs -/

def drrStep (s : DrrState) (call : QuotaShareCall) : DrrState := (selectQuotaShareTarget call s).drr

/-- A round of the deficits among the targets: no gate holds one of them back,
and the target that the deficits favour is taken. -/
structure DrrRound (targets : List ResolvedComboTarget) (comboName : JsString) (s : DrrState)
    (call : QuotaShareCall) : Prop where
  sameTargets : call.targets.Perm targets
  sameCombo : call.comboName = comboName
  withRoom : call.withRoom = call.targets
  winner : (selectQuotaShareTarget call s).target = (applyDrr call.targets comboName s).1.head?

instance (targets : List ResolvedComboTarget) (comboName : JsString) (s : DrrState)
    (call : QuotaShareCall) : Decidable (DrrRound targets comboName s call) :=
  decidable_of_iff
    (call.targets.Perm targets ∧ call.comboName = comboName ∧ call.withRoom = call.targets ∧
      (selectQuotaShareTarget call s).target = (applyDrr call.targets comboName s).1.head?)
    ⟨fun h => ⟨h.1, h.2.1, h.2.2.1, h.2.2.2⟩,
      fun h => ⟨h.sameTargets, h.sameCombo, h.withRoom, h.winner⟩⟩

theorem quotaShareRun_fst (s : DrrState) (calls : List QuotaShareCall) :
    (quotaShareRun s calls).1 = calls.foldl drrStep s := by
  induction calls generalizing s with
  | nil => rfl
  | cons call calls ih => exact ih _

variable {comboName : JsString} {s : DrrState}

theorem selectQuotaShareTarget_drr {call : QuotaShareCall} (h : DrrRound targets comboName s call)
    (hne : call.targets ≠ []) :
    (selectQuotaShareTarget call s).drr = (applyDrr call.targets comboName s).2 := by
  have hroom : (partitionByConcurrencyCap call.eligible call.maxConcurrentByConnection call.nowMs
    call.inflight).1 = call.targets := h.withRoom
  unfold selectQuotaShareTarget
  cases htargets : call.targets with
  | nil => exact absurd htargets hne
  | cons first rest =>
    show (applyDrr (partitionByConcurrencyCap call.eligible call.maxConcurrentByConnection
      call.nowMs call.inflight).1 call.comboName s).2 = _
    rw [hroom, h.sameCombo, htargets]

theorem applyDrr_head (hne : targets ≠ []) (comboName : JsString) (s : DrrState) :
    ∃ winner, (applyDrr targets comboName s).1.head? = some winner := by
  match targets, hne with
  | [target], _ => exact ⟨target, rfl⟩
  | first :: second :: rest, _ => exact ⟨_, rfl⟩

section

variable (hkeys : (targets.map ResolvedComboTarget.executionKey).Nodup)
include hkeys

theorem DrrRound.round {call : QuotaShareCall} (hne : targets ≠ [])
    (h : DrrRound targets comboName s call) :
    ∃ winner, (selectQuotaShareTarget call s).target = some winner ∧
      Round targets.toFinset (quantum targets) (drrDeficit comboName s)
        (drrDeficit comboName (drrStep s call)) winner := by
  have hcall : call.targets ≠ [] := by
    intro hnil
    exact hne (nil_perm.mp (hnil ▸ h.sameTargets))
  have hkeys' : (call.targets.map ResolvedComboTarget.executionKey).Nodup :=
    (h.sameTargets.map _).nodup_iff.mpr hkeys
  obtain ⟨winner, hwinner⟩ := applyDrr_head hcall comboName s
  refine ⟨winner, h.winner.trans hwinner, ?_⟩
  have hround := applyDrr_round hkeys' comboName s hwinner
  rw [quantum_perm h.sameTargets, toFinset_eq_of_perm _ _ h.sameTargets] at hround
  rw [drrStep, selectQuotaShareTarget_drr h hcall]
  exact hround

theorem rounds_of_run (hne : targets ≠ []) {calls : List QuotaShareCall}
    (h : Along drrStep (DrrRound targets comboName) s calls) :
    ∃ winners : List ResolvedComboTarget, (quotaShareRun s calls).2 = winners.map some ∧
      Rounds targets.toFinset (quantum targets) (drrDeficit comboName s) winners
        (drrDeficit comboName (quotaShareRun s calls).1) := by
  induction calls generalizing s with
  | nil => exact ⟨[], rfl, .nil⟩
  | cons call calls ih =>
    obtain ⟨hround, hrest⟩ := h
    obtain ⟨winner, hselected, hhead⟩ := hround.round hkeys hne
    obtain ⟨winners, hwinners, hrounds⟩ := ih hrest
    refine ⟨winner :: winners, ?_, .cons hhead hrounds⟩
    show (selectQuotaShareTarget call s).target :: (quotaShareRun (drrStep s call) calls).2 = _
    rw [hselected, hwinners, map_cons]

end

theorem quotaShareRun_length (s : DrrState) (calls : List QuotaShareCall) :
    (quotaShareRun s calls).2.length = calls.length := by
  induction calls generalizing s with
  | nil => rfl
  | cons call calls ih =>
    show (quotaShareRun (drrStep s call) calls).2.length + 1 = _
    rw [ih, length_cons]

theorem drrDeficit_fresh (h : s.get comboName = none) : drrDeficit comboName s = fun _ => 0 := by
  funext target
  simp [drrDeficit, deficitOf, h]

theorem quantum_of_pos (hpos : ∀ target ∈ targets, 0 < normalizeWeight target.weight)
    (hmem : target ∈ targets) :
    quantum targets target = normalizeWeight target.weight / weightedTotal targets := by
  have hle : normalizeWeight target.weight ≤ weightedTotal targets :=
    single_le_sum (fun w hw => by
      obtain ⟨other, -, rfl⟩ := mem_map.mp hw
      exact normalizeWeight_nonneg other.weight) _ (mem_map_of_mem hmem)
  rw [quantum, if_neg (not_le.mpr ((hpos target hmem).trans_le hle))]

section

variable (hkeys : (targets.map ResolvedComboTarget.executionKey).Nodup)
include hkeys

theorem sum_drrDeficit (f : ResolvedComboTarget → ℚ) : (targets.map f).sum = ∑ target ∈ targets.toFinset, f target :=
  (sum_toFinset f hkeys.of_map).symm

theorem card_targets : (targets.toFinset.card : ℚ) = targets.length := by
  rw [toFinset_card_of_nodup hkeys.of_map]

end

/-- Proportional fairness.  Rounds keep the sum of the deficits.  When the
deficits are those of a combo that started with none, every deficit stays
within the number of the targets, and what a target is selected in any stretch
of rounds differs by no more than that from its part of the rounds. -/
theorem selectQuotaShareTarget_fair {targets : List ResolvedComboTarget}
    (hkeys : (targets.map ResolvedComboTarget.executionKey).Nodup)
    (hpos : ∀ target ∈ targets, 0 < normalizeWeight target.weight) {comboName : JsString}
    {s : DrrState} {earlier calls : List QuotaShareCall}
    (hrounds : Along drrStep (DrrRound targets comboName) s (earlier ++ calls)) :
    let before := (quotaShareRun s earlier).1
    let after := (quotaShareRun before calls).1
    let selected := (quotaShareRun before calls).2
    (targets.map (drrDeficit comboName after)).sum =
      (targets.map (drrDeficit comboName before)).sum ∧
    (s.get comboName = none → ∀ target ∈ targets,
      |drrDeficit comboName after target| ≤ targets.length ∧
      |(selected.count (some target) : ℚ) -
        calls.length * (normalizeWeight target.weight / weightedTotal targets)| ≤
          targets.length) := by
  intro before after selected
  rw [along_append, ← quotaShareRun_fst] at hrounds
  obtain ⟨hearlier, hcalls⟩ := hrounds
  by_cases hne : targets = []
  · simp [hne]
  have hshares := shares_quantum hne hkeys
  obtain ⟨_, _, hfirst⟩ := rounds_of_run hkeys hne hearlier
  obtain ⟨winners, hwinners, hrun⟩ := rounds_of_run hkeys hne hcalls
  have hlength : winners.length = calls.length := by
    rw [← quotaShareRun_length before calls, hwinners, length_map]
  constructor
  · rw [sum_drrDeficit hkeys, sum_drrDeficit hkeys]
    exact hrun.sum_eq hshares
  · intro hfresh target hmem
    have hmem' := mem_toFinset.mpr hmem
    have hstart : Balanced targets.toFinset (drrDeficit comboName s) := by
      rw [drrDeficit_fresh hfresh]
      exact balanced_zero
    have hbefore := hstart.rounds hshares hfirst
    have hcount : selected.count (some target) = winners.count target := by
      show (quotaShareRun before calls).2.count (some target) = _
      rw [hwinners, count_map_of_injective _ _ (Option.some_injective _)]
    have hnear := hrun.count_near hshares hbefore hmem'
    rw [card_targets hkeys, hlength, quantum_of_pos hpos hmem] at hnear
    refine ⟨?_, ?_⟩
    · rw [← card_targets hkeys]
      exact (hbefore.rounds hshares hrun).magnitude_le hmem'
    · rw [hcount]
      exact hnear

/-- A call for two targets, the second with three times the weight. -/
def weightedCall : QuotaShareCall where
  targets := [⟨js "a", none, some 1⟩, ⟨js "b", none, some 3⟩]
  comboName := js "qtSd/pool"
  modelStr := js "openai/gpt-5"
  nowMs := 0
  maxConcurrentByConnection := none
  isBucketSaturated := fun _ _ => false
  inflight := []

theorem selectQuotaShareTarget_fair_weighted :
    let before := (quotaShareRun [] [weightedCall]).1
    let after := (quotaShareRun before [weightedCall, weightedCall]).1
    let selected := (quotaShareRun before [weightedCall, weightedCall]).2
    (weightedCall.targets.map (drrDeficit weightedCall.comboName after)).sum =
      (weightedCall.targets.map (drrDeficit weightedCall.comboName before)).sum ∧
    (JsMap.get weightedCall.comboName ([] : DrrState) = none → ∀ target ∈ weightedCall.targets,
      |drrDeficit weightedCall.comboName after target| ≤ weightedCall.targets.length ∧
      |(selected.count (some target) : ℚ) - [weightedCall, weightedCall].length *
        (normalizeWeight target.weight / weightedTotal weightedCall.targets)| ≤
          weightedCall.targets.length) :=
  selectQuotaShareTarget_fair (by decide) (by decide +kernel) (by decide +kernel)

end RedRouter.Combo
