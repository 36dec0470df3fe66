import Mathlib.Data.Rat.Floor

/-!
# Rounded arithmetic

A finite double of the source is a rational number, and an operation of the
source is the exact operation followed by a rounding.  `Rounding` says what
the proofs use of that rounding: it is monotone, and it keeps the integers up
to `2 ^ 53`.  The rounding of IEEE 754 is one, and so is exact arithmetic.
-/

namespace RedRouter

structure Rounding where
  fl : ℚ → ℚ
  mono : Monotone fl
  natCast : ∀ n : ℕ, n ≤ 2 ^ 53 → fl n = n

namespace Rounding

def exact : Rounding where
  fl := id
  mono := monotone_id
  natCast := fun _ _ => rfl

variable (R : Rounding)

theorem fl_mul_le {n : ℕ} (hn : n ≤ 2 ^ 53) {factor : ℚ} (h : factor ≤ 1) :
    R.fl (n * factor) ≤ n := by
  have hle : (n : ℚ) * factor ≤ n := mul_le_of_le_one_right (Nat.cast_nonneg n) h
  calc R.fl (n * factor) ≤ R.fl n := R.mono hle
    _ = n := R.natCast n hn

/-- Rounding a product with such a factor down gives an integer that is no
larger. -/
theorem floor_fl_mul_le {n : ℕ} (hn : n ≤ 2 ^ 53) {factor : ℚ} (h : factor ≤ 1) :
    ⌊R.fl (n * factor)⌋₊ ≤ n := by
  have hle := Nat.floor_le_floor (R.fl_mul_le hn h)
  rwa [Nat.floor_natCast] at hle

end Rounding

end RedRouter
