import Mathlib.Algebra.BigOperators.Ring.Finset
import Mathlib.Algebra.Order.BigOperators.Group.Finset
import Mathlib.Algebra.Order.Field.Basic
import Mathlib.Tactic.Linarith
import Mathlib.Tactic.Ring

/-!
# Credits

In every round each member is credited its share, the shares being parts of a
whole, and a member that then has the most credit wins the round and pays one.
So the credits always sum to what they summed to before.  A member that wins
has a positive credit when it pays, so no credit falls to minus one, and as
the others then hold at least that little, none rises above the number of the
members.

What a member has won is its credit read backwards: `count_near` says that it
is within the number of the members of what its share promises.
-/

namespace RedRouter.Credits

variable {ι K : Type} [DecidableEq ι] [Field K] [LinearOrder K] [IsStrictOrderedRing K]
variable {members : Finset ι} {share credit credit' : ι → K}

/-- A round that `winner` wins. -/
structure Round (members : Finset ι) (share credit credit' : ι → K) (winner : ι) : Prop where
  mem : winner ∈ members
  most : ∀ i ∈ members, credit i + share i ≤ credit winner + share winner
  paid : ∀ i ∈ members, credit' i = credit i + share i - if i = winner then 1 else 0

/-- The shares are parts of a whole. -/
structure Shares (members : Finset ι) (share : ι → K) : Prop where
  whole : ∑ i ∈ members, share i = 1
  nonneg : ∀ i ∈ members, 0 ≤ share i

/-- The credits that a run from nothing can reach. -/
structure Balanced (members : Finset ι) (credit : ι → K) : Prop where
  sum : ∑ i ∈ members, credit i = 0
  low : ∀ i ∈ members, -1 < credit i

omit [DecidableEq ι] in
theorem balanced_zero : Balanced members (fun _ => 0 : ι → K) where
  sum := by simp
  low := by intro i _; linarith [zero_lt_one (α := K)]

omit [IsStrictOrderedRing K] in
theorem Round.sum_eq {winner : ι} (hshare : Shares members share)
    (h : Round members share credit credit' winner) :
    ∑ i ∈ members, credit' i = ∑ i ∈ members, credit i := by
  calc ∑ i ∈ members, credit' i
      = ∑ i ∈ members, (credit i + share i - if i = winner then 1 else 0) :=
        Finset.sum_congr rfl h.paid
    _ = ∑ i ∈ members, credit i + ∑ i ∈ members, share i -
          ∑ i ∈ members, (if i = winner then 1 else 0) := by
        rw [Finset.sum_sub_distrib, Finset.sum_add_distrib]
    _ = ∑ i ∈ members, credit i := by
        rw [hshare.whole, Finset.sum_ite_eq' members winner, if_pos h.mem]
        ring

theorem Round.winner_pos {winner : ι} (hshare : Shares members share)
    (hcredit : Balanced members credit) (h : Round members share credit credit' winner) :
    0 < credit winner + share winner := by
  by_contra hnot
  have hle : ∑ i ∈ members, (credit i + share i) ≤ 0 :=
    Finset.sum_nonpos fun i hi => (h.most i hi).trans (not_lt.mp hnot)
  rw [Finset.sum_add_distrib, hcredit.sum, hshare.whole] at hle
  linarith [zero_lt_one (α := K)]

theorem Balanced.round {winner : ι} (hshare : Shares members share)
    (hcredit : Balanced members credit) (h : Round members share credit credit' winner) :
    Balanced members credit' where
  sum := by rw [h.sum_eq hshare, hcredit.sum]
  low := by
    intro i hi
    rw [h.paid i hi]
    by_cases hwin : i = winner
    · have hpos := h.winner_pos hshare hcredit
      rw [if_pos hwin, hwin]
      linarith
    · have hlow := hcredit.low i hi
      have hnonneg := hshare.nonneg i hi
      rw [if_neg hwin]
      linarith

theorem Balanced.high (hcredit : Balanced members credit) {i : ι} (hi : i ∈ members) :
    credit i ≤ members.card - 1 := by
  have hsplit : credit i + ∑ j ∈ members.erase i, credit j = 0 := by
    rw [Finset.add_sum_erase members credit hi, hcredit.sum]
  have howed : ∑ j ∈ members.erase i, (-1 : K) ≤ ∑ j ∈ members.erase i, credit j :=
    Finset.sum_le_sum fun j hj => (hcredit.low j (Finset.mem_of_mem_erase hj)).le
  have hcard : ((members.erase i).card : K) = members.card - 1 := by
    rw [Finset.card_erase_of_mem hi, Nat.cast_sub (Finset.card_pos.mpr ⟨i, hi⟩), Nat.cast_one]
  rw [Finset.sum_const, nsmul_eq_mul, hcard] at howed
  linarith

theorem Balanced.magnitude_le (hcredit : Balanced members credit) {i : ι} (hi : i ∈ members) :
    |credit i| ≤ members.card := by
  have hlow := hcredit.low i hi
  have hhigh := hcredit.high hi
  have hcard : (1 : K) ≤ members.card := by
    exact_mod_cast Finset.card_pos.mpr ⟨i, hi⟩
  apply abs_le.mpr
  constructor <;> linarith

/-! ## Runs -/

/-- The rounds that these members won, one after another. -/
inductive Rounds (members : Finset ι) (share : ι → K) : (ι → K) → List ι → (ι → K) → Prop where
  | nil {credit : ι → K} : Rounds members share credit [] credit
  | cons {credit credit' credit'' : ι → K} {winner : ι} {winners : List ι}
      (head : Round members share credit credit' winner)
      (rest : Rounds members share credit' winners credit'') :
      Rounds members share credit (winner :: winners) credit''

variable {winners : List ι}

omit [IsStrictOrderedRing K] in
theorem Rounds.sum_eq (hshare : Shares members share)
    (h : Rounds members share credit winners credit') :
    ∑ i ∈ members, credit' i = ∑ i ∈ members, credit i := by
  induction h with
  | nil => rfl
  | cons head _ ih => rw [ih, head.sum_eq hshare]

theorem Balanced.rounds (hshare : Shares members share) (hcredit : Balanced members credit)
    (h : Rounds members share credit winners credit') : Balanced members credit' := by
  induction h with
  | nil => exact hcredit
  | cons head _ ih => exact ih (hcredit.round hshare head)

omit [IsStrictOrderedRing K] in
theorem Rounds.credit_eq (h : Rounds members share credit winners credit') {i : ι}
    (hi : i ∈ members) :
    credit' i = credit i + winners.length * share i - winners.count i := by
  induction h with
  | nil => simp
  | @cons _ _ _ winner winners head _ ih =>
    rw [ih, head.paid i hi, List.length_cons, List.count_cons]
    by_cases hwin : i = winner
    · rw [if_pos hwin, if_pos (beq_iff_eq.mpr hwin.symm)]
      push_cast
      ring
    · rw [if_neg hwin, if_neg (by simpa using fun h => hwin h.symm)]
      push_cast
      ring

/-- What a member wins is what its share promises, up to the number of the
members. -/
theorem Rounds.count_near (hshare : Shares members share) (hcredit : Balanced members credit)
    (h : Rounds members share credit winners credit') {i : ι} (hi : i ∈ members) :
    |(winners.count i : K) - winners.length * share i| ≤ members.card := by
  have hafter := hcredit.rounds hshare h
  have heq := h.credit_eq hi
  have hlow := hcredit.low i hi
  have hhigh := hcredit.high hi
  have hlow' := hafter.low i hi
  have hhigh' := hafter.high hi
  apply abs_le.mpr
  constructor <;> linarith

end RedRouter.Credits
