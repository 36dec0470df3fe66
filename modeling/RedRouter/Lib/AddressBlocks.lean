import Mathlib.Data.Nat.Bitwise
import Mathlib.Tactic.Ring

/-!
# Blocks of addresses

An address is a natural number of a fixed width, and it is often written as groups
of 16 bits, the highest first (`ofGroups`).  A block has the addresses that agree in
their first bits (`InBlock`).  A program tests this with a mask on one group
(`and_mask_eq_iff`, `inBlock_first_iff`), or group by group
(`inBlock_groups_iff`).
-/

namespace RedRouter.AddressBlocks

open List

/-- The address with these groups of 16 bits. -/
def ofGroups (groups : List Nat) : Nat := groups.foldl (fun n g => 65536 * n + g) 0

/-- The first `length` of the `width` bits of the address are those of `base`. -/
def InBlock (width base length address : Nat) : Prop :=
  address / 2 ^ (width - length) = base / 2 ^ (width - length)

instance (width base length address : Nat) : Decidable (InBlock width base length address) :=
  inferInstanceAs (Decidable (_ = _))

theorem foldl_groups (groups : List Nat) (n : Nat) :
    groups.foldl (fun n g => 65536 * n + g) n = n * 65536 ^ groups.length + ofGroups groups := by
  induction groups generalizing n with
  | nil => simp [ofGroups]
  | cons g groups ih =>
    rw [ofGroups, foldl_cons, foldl_cons, ih, ih (65536 * 0 + g), length_cons]
    ring

theorem ofGroups_append (high low : List Nat) :
    ofGroups (high ++ low) = ofGroups high * 65536 ^ low.length + ofGroups low := by
  rw [ofGroups, foldl_append, foldl_groups]
  rfl

theorem ofGroups_singleton (g : Nat) : ofGroups [g] = g := by simp [ofGroups]

theorem ofGroups_cons (g : Nat) (low : List Nat) :
    ofGroups (g :: low) = g * 65536 ^ low.length + ofGroups low := by
  rw [← singleton_append, ofGroups_append, ofGroups_singleton]

theorem ofGroups_lt {groups : List Nat} (h : ∀ g ∈ groups, g < 65536) :
    ofGroups groups < 65536 ^ groups.length := by
  induction groups with
  | nil => simp [ofGroups]
  | cons g groups ih =>
    have hg := h g mem_cons_self
    have hrest := ih fun x hx => h x (mem_cons_of_mem g hx)
    rw [ofGroups_cons, length_cons, pow_succ']
    have hle : g * 65536 ^ groups.length ≤ 65535 * 65536 ^ groups.length :=
      Nat.mul_le_mul_right _ (Nat.le_of_lt_succ hg)
    omega

/-- The high groups are the quotient, and the low ones the remainder. -/
theorem ofGroups_append_div {high low : List Nat} (hlow : ∀ g ∈ low, g < 65536) :
    ofGroups (high ++ low) / 65536 ^ low.length = ofGroups high := by
  have hpos : 0 < 65536 ^ low.length := Nat.pow_pos (by decide)
  rw [ofGroups_append, Nat.mul_comm, Nat.mul_add_div hpos, Nat.div_eq_of_lt (ofGroups_lt hlow),
    Nat.add_zero]

theorem ofGroups_append_mod {high low : List Nat} (hlow : ∀ g ∈ low, g < 65536) :
    ofGroups (high ++ low) % 65536 ^ low.length = ofGroups low := by
  rw [ofGroups_append, Nat.mul_comm, Nat.mul_add_mod, Nat.mod_eq_of_lt (ofGroups_lt hlow)]

theorem ofGroups_cons_div (g : Nat) {low : List Nat} (hlow : ∀ g ∈ low, g < 65536) :
    ofGroups (g :: low) / 65536 ^ low.length = g :=
  (ofGroups_append_div (by exact hlow) : ofGroups ([g] ++ low) / _ = _).trans (ofGroups_singleton g)

theorem ofGroups_cons_mod (g : Nat) {low : List Nat} (hlow : ∀ g ∈ low, g < 65536) :
    ofGroups (g :: low) % 65536 ^ low.length = ofGroups low :=
  (ofGroups_append_mod hlow : ofGroups ([g] ++ low) % _ = _)

theorem ofGroups_inj {x y : List Nat} (hlength : x.length = y.length)
    (hx : ∀ g ∈ x, g < 65536) (hy : ∀ g ∈ y, g < 65536) (h : ofGroups x = ofGroups y) : x = y := by
  induction x generalizing y with
  | nil => exact (length_eq_zero_iff.mp hlength.symm).symm
  | cons g x ih =>
    cases y with
    | nil => cases hlength
    | cons g' y =>
      have hlen : x.length = y.length := Nat.succ.inj hlength
      have hx' : ∀ u ∈ x, u < 65536 := fun u hu => hx u (mem_cons_of_mem g hu)
      have hy' : ∀ u ∈ y, u < 65536 := fun u hu => hy u (mem_cons_of_mem g' hu)
      have hhigh : g = g' := by
        rw [← ofGroups_cons_div g hx', h, hlen, ofGroups_cons_div g' hy']
      have hlow : ofGroups x = ofGroups y := by
        rw [← ofGroups_cons_mod g hx', h, hlen, ofGroups_cons_mod g' hy']
      rw [hhigh, ih hlen hx' hy' hlow]

theorem ofGroups_replicate_zero (n : Nat) : ofGroups (List.replicate n 0) = 0 := by
  induction n with
  | zero => rfl
  | succ n ih => rw [replicate_succ, ofGroups_cons, ih, Nat.zero_mul]

theorem ofGroups_eq_zero_iff {groups : List Nat} (h : ∀ g ∈ groups, g < 65536) :
    ofGroups groups = 0 ↔ groups = List.replicate groups.length 0 := by
  constructor
  · intro hzero
    refine ofGroups_inj (length_replicate).symm h ?_ ?_
    · intro g hg
      rw [eq_of_mem_replicate hg]
      decide
    · rw [hzero, ofGroups_replicate_zero]
  · intro hzero
    rw [hzero, ofGroups_replicate_zero]

/-! ## Tests for a block -/

theorem two_pow_groups (n : Nat) : 2 ^ (16 * n) = 65536 ^ n := pow_mul 2 16 n

theorem inBlock_first_iff {g base : Nat} {low low' : List Nat} {width length : Nat}
    (hlow : ∀ g ∈ low, g < 65536) (hlow' : ∀ g ∈ low', g < 65536)
    (hsame : low'.length = low.length) (hwidth : width = 16 * low.length + 16)
    (hlength : length ≤ 16) :
    InBlock width (ofGroups (base :: low')) length (ofGroups (g :: low)) ↔
      g / 2 ^ (16 - length) = base / 2 ^ (16 - length) := by
  have hsplit : 2 ^ (width - length) = 65536 ^ low.length * 2 ^ (16 - length) := by
    rw [← two_pow_groups, ← pow_add]
    congr 1
    omega
  rw [InBlock, hsplit, ← Nat.div_div_eq_div_mul, ← Nat.div_div_eq_div_mul,
    ofGroups_cons_div g hlow, ← hsame, ofGroups_cons_div base hlow']

theorem inBlock_groups_iff {high high' low low' : List Nat} {width length : Nat}
    (hhigh : ∀ g ∈ high, g < 65536) (hhigh' : ∀ g ∈ high', g < 65536)
    (hlow : ∀ g ∈ low, g < 65536) (hlow' : ∀ g ∈ low', g < 65536)
    (hsame : high.length = high'.length) (hsame' : low'.length = low.length)
    (hlength : width - length = 16 * low.length) :
    InBlock width (ofGroups (high' ++ low')) length (ofGroups (high ++ low)) ↔ high = high' := by
  rw [InBlock, hlength, two_pow_groups, ofGroups_append_div hlow, ← hsame',
    ofGroups_append_div hlow']
  exact ⟨ofGroups_inj hsame hhigh hhigh', fun h => by rw [h]⟩

theorem and_mask_eq_iff {x m k n : Nat} (hx : x < 2 ^ (k + m)) :
    x &&& (2 ^ m - 1) <<< k = n <<< k ↔ x / 2 ^ k = n := by
  have hmask : x &&& (2 ^ m - 1) <<< k = (x / 2 ^ k) <<< k := by
    apply Nat.eq_of_testBit_eq
    intro i
    rw [Nat.testBit_and, Nat.testBit_shiftLeft, Nat.testBit_shiftLeft, Nat.testBit_two_pow_sub_one,
      Nat.testBit_div_two_pow]
    by_cases hi : k ≤ i
    · by_cases hbit : i < k + m
      · simp [hi, show i - k < m by omega]
      · have hhigh : x.testBit i = false :=
          Nat.testBit_lt_two_pow (hx.trans_le (Nat.pow_le_pow_right (by decide) (by omega)))
        simp [hi, hhigh]
    · simp [hi]
  rw [hmask, Nat.shiftLeft_eq, Nat.shiftLeft_eq]
  exact Nat.mul_left_inj (Nat.pow_pos (by decide)).ne'

end RedRouter.AddressBlocks
