import Mathlib.Algebra.Order.Field.Rat
import Mathlib.Order.WithBot

/-!
# Numbers of JavaScript

A number is a rational, an infinity or NaN.  A comparison with NaN is false
whichever way it is asked, so `¬ x < y` does not say `y ≤ x`.

The operations round.  `Arithmetic` is what a development takes them to be: it
says nothing of how they round.
-/

namespace RedRouter

inductive JsNumber where
  | nan
  | value (x : WithBot (WithTop ℚ))
deriving DecidableEq

namespace JsNumber

def fin (q : ℚ) : JsNumber := .value ((q : WithTop ℚ) : WithBot (WithTop ℚ))

instance (n : Nat) : OfNat JsNumber n := ⟨fin n⟩

instance : LT JsNumber where
  lt x y :=
    match x, y with
    | .value x, .value y => x < y
    | _, _ => False

instance : LE JsNumber where
  le x y :=
    match x, y with
    | .value x, .value y => x ≤ y
    | _, _ => False

instance : DecidableLT JsNumber := fun x y =>
  match x, y with
  | .value x, .value y => inferInstanceAs (Decidable (x < y))
  | .nan, _ => isFalse not_false
  | .value _, .nan => isFalse not_false

instance : DecidableLE JsNumber := fun x y =>
  match x, y with
  | .value x, .value y => inferInstanceAs (Decidable (x ≤ y))
  | .nan, _ => isFalse not_false
  | .value _, .nan => isFalse not_false

def isFinite : JsNumber → Bool
  | .nan => false
  | .value x => x != ⊥ && x != (⊤ : WithTop ℚ)

@[simp] theorem value_lt_value {x y : WithBot (WithTop ℚ)} :
    JsNumber.value x < .value y ↔ x < y := Iff.rfl

@[simp] theorem value_le_value {x y : WithBot (WithTop ℚ)} :
    JsNumber.value x ≤ .value y ↔ x ≤ y := Iff.rfl

@[simp] theorem not_lt_nan (x : JsNumber) : ¬ x < .nan := by
  cases x <;> exact id

@[simp] theorem not_le_nan (x : JsNumber) : ¬ x ≤ .nan := by
  cases x <;> exact id

theorem not_lt_self (x : JsNumber) : ¬ x < x := by
  cases x with
  | nan => exact not_lt_nan _
  | value x => exact lt_irrefl x

theorem lt_trans_le {x y z : JsNumber} (h : x < y) (h' : y ≤ z) : x < z := by
  cases x with
  | nan => exact h.elim
  | value x =>
    cases y with
    | nan => exact h.elim
    | value y =>
      cases z with
      | nan => exact h'.elim
      | value z => exact value_lt_value.mpr ((value_lt_value.mp h).trans_le (value_le_value.mp h'))

theorem lt_trans_lt {x y z : JsNumber} (h : x < y) (h' : y < z) : x < z := by
  cases x with
  | nan => exact h.elim
  | value x =>
    cases y with
    | nan => exact h.elim
    | value y =>
      cases z with
      | nan => exact h'.elim
      | value z => exact value_lt_value.mpr ((value_lt_value.mp h).trans (value_lt_value.mp h'))

theorem lt_of_not_le {x y : JsNumber} (h : ¬ x ≤ y) (hx : x ≠ .nan) (hy : y ≠ .nan) : y < x := by
  cases x with
  | nan => exact absurd rfl hx
  | value x =>
    cases y with
    | nan => exact absurd rfl hy
    | value y => exact value_lt_value.mpr (not_le.mp h)

end JsNumber

/-- The operations that round, and the quotient by NaN. -/
structure Arithmetic where
  sub : JsNumber → JsNumber → JsNumber
  mul : JsNumber → JsNumber → JsNumber
  div : JsNumber → JsNumber → JsNumber
  div_nan : ∀ x, div x .nan = .nan

namespace Arithmetic

/-- The exact operation on finite numbers; what an infinity gives is NaN here. -/
def lift (f : ℚ → ℚ → ℚ) : JsNumber → JsNumber → JsNumber
  | .value (some (some x)), .value (some (some y)) => .fin (f x y)
  | _, _ => .nan

def exact : Arithmetic where
  sub := lift (· - ·)
  mul := lift (· * ·)
  div := lift (· / ·)
  div_nan := by
    intro x
    unfold lift
    split
    · rename_i h
      cases h
    · rfl

end Arithmetic

end RedRouter
