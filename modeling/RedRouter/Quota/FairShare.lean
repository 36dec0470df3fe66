import Mathlib.Data.Rat.Defs
import Mathlib.Algebra.Order.Field.Rat
import Mathlib.Tactic.Linarith
import RedRouter.Lib.JsMap
import RedRouter.Quota.Dimensions

/-!
# The fair-share decision

`decideFairShare` looks at the dimensions of a pool one after another and
leaves at the first one that blocks the key.  The cap and the global limit
block under every policy.  The share of the key blocks under `hard` alone;
under `soft` it only marks the request.

`decideFairShare_kind` says which dimensions block, without the order in which
they are looked at.
-/

namespace RedRouter.Quota

inductive Policy where
  | hard
  | soft
  | burst
deriving DecidableEq

structure FairShareDimension where
  key : DimensionKey
  limit : ℚ
  consumedTotal : ℚ
  globalUsedPercent : ℚ
deriving DecidableEq

/-- `policy` is the stored text: a corrupted row can hold any. -/
structure FairShareAllocation where
  weight : ℚ
  capValue : Option ℚ
  capUnit : Option QuotaUnit
  policy : JsString
deriving DecidableEq

structure FairShareInput where
  dimensions : List FairShareDimension
  allocation : FairShareAllocation
  consumedByThisKey : JsMap JsString ℚ
  saturationThreshold : ℚ

inductive Kind where
  | allow
  | block
deriving DecidableEq

inductive Reason where
  | ok
  | fairShare
  | capAbsolute
  | globalSaturated
deriving DecidableEq

/-- `penalized` is absent in the source where it is `false` here. -/
structure FairShareDecision where
  kind : Kind
  reason : Reason
  penalized : Bool
deriving DecidableEq

/-- Any text outside of the known ones is the most restrictive policy. -/
def normalizePolicy (policy : JsString) : Policy :=
  if policy == js "soft" then .soft
  else if policy == js "burst" then .burst
  else .hard

namespace FairShareInput

def consumed (input : FairShareInput) (dim : FairShareDimension) : ℚ :=
  (input.consumedByThisKey.get (dimensionKeyToString dim.key)).getD 0

def fairShare (input : FairShareInput) (dim : FairShareDimension) : ℚ :=
  input.allocation.weight / 100 * dim.limit

/-- The absolute cap of this key is reached in a dimension. -/
def capReached (input : FairShareInput) (dim : FairShareDimension) : Bool :=
  match input.allocation.capValue with
  | none => false
  | some capValue =>
      input.allocation.capUnit == some dim.key.unit && decide (capValue ≤ input.consumed dim)

def isStrict (input : FairShareInput) (dim : FairShareDimension) : Bool :=
  decide (input.saturationThreshold ≤ dim.globalUsedPercent)

end FairShareInput

/-- One round of the loop: the reason for which it returns, or the new value
of `anyPenalized`. -/
def checkDimension (input : FairShareInput) (effectivePolicy : Policy)
    (dim : FairShareDimension) (anyPenalized : Bool) : Except Reason Bool :=
  if input.capReached dim then .error .capAbsolute
  else if dim.limit ≤ dim.consumedTotal then .error .globalSaturated
  else if input.isStrict dim then
    match effectivePolicy with
    | .hard =>
        if input.fairShare dim ≤ input.consumed dim then .error .fairShare else .ok anyPenalized
    | .soft => .ok (anyPenalized || decide (input.fairShare dim ≤ input.consumed dim))
    | .burst => .ok anyPenalized
  else
    match effectivePolicy with
    | .hard => if dim.limit ≤ input.consumed dim then .error .globalSaturated else .ok anyPenalized
    | .soft => .ok (anyPenalized || decide (input.fairShare dim ≤ input.consumed dim))
    | .burst => .ok anyPenalized

def checkDimensions (input : FairShareInput) (effectivePolicy : Policy) (anyPenalized : Bool) :
    List FairShareDimension → FairShareDecision
  | [] => ⟨.allow, .ok, anyPenalized⟩
  | dim :: rest =>
      match checkDimension input effectivePolicy dim anyPenalized with
      | .error reason => ⟨.block, reason, false⟩
      | .ok anyPenalized => checkDimensions input effectivePolicy anyPenalized rest

def decideFairShare (input : FairShareInput) : FairShareDecision :=
  match input.dimensions with
  | [] => ⟨.allow, .ok, false⟩
  | dim :: rest =>
      checkDimensions input (normalizePolicy input.allocation.policy) false (dim :: rest)

/-! ## Which dimensions block -/

/-- What the key may consume in a dimension under `hard`. -/
def FairShareInput.hardLimit (input : FairShareInput) (dim : FairShareDimension) : ℚ :=
  if input.isStrict dim then input.fairShare dim else dim.limit

def Blocks (input : FairShareInput) (policy : Policy) (dim : FairShareDimension) : Prop :=
  input.capReached dim = true ∨ dim.limit ≤ dim.consumedTotal ∨
    policy = .hard ∧ input.hardLimit dim ≤ input.consumed dim

theorem checkDimension_cases (input : FairShareInput) (policy : Policy)
    (dim : FairShareDimension) (anyPenalized : Bool) :
    (Blocks input policy dim ∧
      ∃ reason, checkDimension input policy dim anyPenalized = .error reason) ∨
    (¬ Blocks input policy dim ∧
      ∃ penalized, checkDimension input policy dim anyPenalized = .ok penalized) := by
  unfold checkDimension Blocks FairShareInput.hardLimit
  by_cases hcap : input.capReached dim = true
  · exact Or.inl ⟨Or.inl hcap, .capAbsolute, by simp [hcap]⟩
  by_cases hlimit : dim.limit ≤ dim.consumedTotal
  · exact Or.inl ⟨Or.inr (Or.inl hlimit), .globalSaturated, by simp [hcap, hlimit]⟩
  cases hstrict : input.isStrict dim with
  | true =>
    cases policy with
    | hard =>
      by_cases hshare : input.fairShare dim ≤ input.consumed dim
      all_goals simp [hcap, hlimit, hshare]
    | soft => simp [hcap, hlimit]
    | burst => simp [hcap, hlimit]
  | false =>
    cases policy with
    | hard =>
      by_cases hfull : dim.limit ≤ input.consumed dim
      all_goals simp [hcap, hlimit, hfull]
    | soft => simp [hcap, hlimit]
    | burst => simp [hcap, hlimit]

theorem checkDimensions_kind (input : FairShareInput) (policy : Policy) (anyPenalized : Bool)
    (dims : List FairShareDimension) :
    (checkDimensions input policy anyPenalized dims).kind = .block ↔
      ∃ dim ∈ dims, Blocks input policy dim := by
  induction dims generalizing anyPenalized with
  | nil => simp [checkDimensions]
  | cons dim rest ih =>
    unfold checkDimensions
    rcases checkDimension_cases input policy dim anyPenalized with
      ⟨hblocks, reason, hreturn⟩ | ⟨hpasses, penalized, hgoes⟩
    · rw [hreturn]
      simp [hblocks]
    · rw [hgoes]
      simp [ih, hpasses]

theorem decideFairShare_kind (input : FairShareInput) : (decideFairShare input).kind = .block ↔
      ∃ dim ∈ input.dimensions, Blocks input (normalizePolicy input.allocation.policy) dim := by
  unfold decideFairShare
  cases hdims : input.dimensions with
  | nil => simp
  | cons dim rest => exact checkDimensions_kind _ _ _ _

theorem Kind.eq_allow_iff {kind : Kind} : kind = .allow ↔ ¬ kind = .block := by
  cases kind <;> simp

theorem Kind.eq_of_block_iff {kind other : Kind} (h : kind = .block ↔ other = .block) :
    kind = other := by
  cases kind <;> cases other <;> simp_all

theorem decideFairShare_allow (input : FairShareInput) : (decideFairShare input).kind = .allow ↔
      ∀ dim ∈ input.dimensions, ¬ Blocks input (normalizePolicy input.allocation.policy) dim := by
  rw [Kind.eq_allow_iff, decideFairShare_kind]
  simp

/-! ## Order of the dimensions -/

theorem decideFairShare_perm (input : FairShareInput) {dims : List FairShareDimension}
    (hperm : dims.Perm input.dimensions) :
    (decideFairShare { input with dimensions := dims }).kind = (decideFairShare input).kind := by
  apply Kind.eq_of_block_iff
  rw [decideFairShare_kind, decideFairShare_kind]
  constructor
  · rintro ⟨dim, hmem, hblocks⟩
    exact ⟨dim, hperm.mem_iff.mp hmem, hblocks⟩
  · rintro ⟨dim, hmem, hblocks⟩
    exact ⟨dim, hperm.mem_iff.mpr hmem, hblocks⟩

/-! ## Raising what was consumed -/

/-- The same dimension, with a total that is at least the old one. -/
structure RaisedTotal (dim dim' : FairShareDimension) : Prop where
  key : dim'.key = dim.key
  limit : dim'.limit = dim.limit
  globalUsedPercent : dim'.globalUsedPercent = dim.globalUsedPercent
  consumedTotal : dim.consumedTotal ≤ dim'.consumedTotal

/-- The same request, with totals and consumptions of the key that are at
least the old ones. -/
structure Raised (input input' : FairShareInput) : Prop where
  dimensions : List.Forall₂ RaisedTotal input.dimensions input'.dimensions
  allocation : input'.allocation = input.allocation
  saturationThreshold : input'.saturationThreshold = input.saturationThreshold
  consumedByThisKey : ∀ key, (input.consumedByThisKey.get key).getD 0 ≤
    (input'.consumedByThisKey.get key).getD 0

variable {dim dim' : FairShareDimension} {input input' : FairShareInput}

section

variable (h : Raised input input')
include h

section

variable (hdim : RaisedTotal dim dim')
include hdim

theorem Raised.consumed_le : input.consumed dim ≤ input'.consumed dim' := by
  unfold FairShareInput.consumed
  rw [hdim.key]
  exact h.consumedByThisKey _

theorem Raised.capReached (hcap : input.capReached dim = true) : input'.capReached dim' = true := by
  unfold FairShareInput.capReached at hcap ⊢
  rw [h.allocation, hdim.key]
  cases hvalue : input.allocation.capValue with
  | none => simp [hvalue] at hcap
  | some capValue =>
    simp only [hvalue, Bool.and_eq_true, decide_eq_true_eq] at hcap ⊢
    exact ⟨hcap.1, hcap.2.trans (h.consumed_le hdim)⟩

theorem Raised.hardLimit : input'.hardLimit dim' = input.hardLimit dim := by
  unfold FairShareInput.hardLimit FairShareInput.isStrict FairShareInput.fairShare
  rw [h.allocation, h.saturationThreshold, hdim.globalUsedPercent, hdim.limit]

theorem Raised.blocks {policy : Policy}
    (hblocks : Blocks input policy dim) : Blocks input' policy dim' := by
  rcases hblocks with hcap | hlimit | ⟨hhard, hshare⟩
  · exact Or.inl (h.capReached hdim hcap)
  · refine Or.inr (Or.inl ?_)
    rw [hdim.limit]
    exact hlimit.trans hdim.consumedTotal
  · refine Or.inr (Or.inr ⟨hhard, ?_⟩)
    rw [h.hardLimit hdim]
    exact hshare.trans (h.consumed_le hdim)

end

end

/-- In two lists that agree element by element, an element of the first has
its match in the second. -/
theorem exists_of_forall₂ {α β : Type} {R : α → β → Prop} {xs : List α} {ys : List β}
    (h : List.Forall₂ R xs ys) {x : α} (hx : x ∈ xs) : ∃ y ∈ ys, R x y := by
  induction h with
  | nil => simp at hx
  | cons hhead _ ih =>
    rcases List.mem_cons.mp hx with rfl | hrest
    · exact ⟨_, List.mem_cons_self, hhead⟩
    · obtain ⟨y, hy, hR⟩ := ih hrest
      exact ⟨y, List.mem_cons_of_mem _ hy, hR⟩

theorem block_of_forall₂ {R : FairShareDimension → FairShareDimension → Prop}
    (hallocation : input'.allocation = input.allocation)
    (hdims : List.Forall₂ R input.dimensions input'.dimensions)
    (hblocks : ∀ policy dim dim', R dim dim' → Blocks input policy dim → Blocks input' policy dim')
    (hblock : (decideFairShare input).kind = .block) : (decideFairShare input').kind = .block := by
  rw [decideFairShare_kind] at hblock ⊢
  obtain ⟨dim, hmem, hdim⟩ := hblock
  obtain ⟨dim', hmem', hR⟩ := exists_of_forall₂ hdims hmem
  rw [hallocation]
  exact ⟨dim', hmem', hblocks _ dim dim' hR hdim⟩

theorem decideFairShare_raised (h : Raised input input')
    (hblock : (decideFairShare input).kind = .block) : (decideFairShare input').kind = .block :=
  block_of_forall₂ h.allocation h.dimensions
    (fun _ _ _ hdim hblocks => h.blocks hdim hblocks) hblock

/-! ## Policies -/

def FairShareInput.withPolicy (input : FairShareInput) (policy : JsString) : FairShareInput :=
  { input with allocation := { input.allocation with policy := policy } }

theorem normalizePolicy_soft : normalizePolicy (js "soft") = .soft := by decide

theorem normalizePolicy_burst : normalizePolicy (js "burst") = .burst := by decide

theorem allow_of_withPolicy (input : FairShareInput) {text text' : JsString}
    (hnot : normalizePolicy text' ≠ .hard)
    (h : (decideFairShare (input.withPolicy text)).kind = .allow) :
    (decideFairShare (input.withPolicy text')).kind = .allow := by
  rw [decideFairShare_allow] at h ⊢
  intro dim hmem hblocks
  apply h dim hmem
  rcases hblocks with hcap | hlimit | ⟨hhard, -⟩
  · exact Or.inl hcap
  · exact Or.inr (Or.inl hlimit)
  · exact absurd hhard hnot

/-- The laws of the decision: it does not depend on the order of the
dimensions, a block stays one when more is consumed, an allow means that no
cap and no global limit is reached, and `soft` and `burst` allow what a
stricter policy allows. -/
theorem decideFairShare_laws (input : FairShareInput) :
    (∀ dims : List FairShareDimension, dims.Perm input.dimensions →
      (decideFairShare { input with dimensions := dims }).kind = (decideFairShare input).kind) ∧
    (∀ input' : FairShareInput, Raised input input' →
      (decideFairShare input).kind = .block → (decideFairShare input').kind = .block) ∧
    ((decideFairShare input).kind = .allow → ∀ dim ∈ input.dimensions,
      input.capReached dim = false ∧ dim.consumedTotal < dim.limit) ∧
    ((decideFairShare (input.withPolicy (js "hard"))).kind = .allow →
      (decideFairShare (input.withPolicy (js "soft"))).kind = .allow) ∧
    ((decideFairShare (input.withPolicy (js "soft"))).kind = .allow →
      (decideFairShare (input.withPolicy (js "burst"))).kind = .allow) := by
  refine ⟨?_, ?_, ?_, ?_, ?_⟩
  · intro dims hperm
    exact decideFairShare_perm input hperm
  · intro input' hraised hblock
    exact decideFairShare_raised hraised hblock
  · intro hallow dim hmem
    have hnot := (decideFairShare_allow input).mp hallow dim hmem
    refine ⟨Bool.eq_false_iff.mpr fun hcap => hnot (Or.inl hcap), ?_⟩
    exact lt_of_not_ge fun hlimit => hnot (Or.inr (Or.inl hlimit))
  · exact allow_of_withPolicy input (by rw [normalizePolicy_soft]; decide)
  · exact allow_of_withPolicy input (by rw [normalizePolicy_burst]; decide)

end RedRouter.Quota
