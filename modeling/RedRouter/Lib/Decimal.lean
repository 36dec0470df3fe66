import RedRouter.Lib.JsString

/-!
# Decimal numerals

A number that is part of a key is written with its decimal digits and read
back with `Number`.  `readNat_ofNat` is the round trip, and `not_mem_ofNat`
says that a numeral holds nothing but digits, so a key can be cut where it ends.
-/

namespace RedRouter.JsString

open List

/-- A code unit from `0` to `9`. -/
def isDecimal (u : UInt16) : Bool := unit '0' ≤ u && u ≤ unit '9'

/-- `Number(text)` for a text of decimal digits, which is 0 for the empty one.
Any other text is taken as no number. -/
def readNat (text : JsString) : Option Nat :=
  if text.all isDecimal then
    some (text.foldl (fun n u => 10 * n + (u.toNat - (unit '0').toNat)) 0)
  else none

/-- The decimal digits of a whole number, as `String(n)` writes them. -/
def ofInt (n : Int) : JsString := if n < 0 then js "-" ++ ofNat (-n).toNat else ofNat n.toNat

theorem ofNat_digit : ∀ d : Fin 10, ofNat d.val = [(48 + d.val).toUInt16] := by decide

theorem length_ofNat (n : Nat) : (ofNat n).length = (Nat.toDigits 10 n).length := by
  rw [ofNat, length_flatMap, map_congr_left fun c hc => ?_, map_const,
    sum_replicate_nat, Nat.mul_one]
  rw [(utf16_of_isDigit (Nat.isDigit_of_mem_toDigits (by decide) (by decide) hc)).2]
  rfl

theorem ofNat_append {n d : Nat} (hn : 0 < n) (hd : d < 10) :
    ofNat (10 * n + d) = ofNat n ++ ofNat d := by
  rw [ofNat, ← Nat.toDigits_append_toDigits (by decide) hn hd, flatMap_append]
  rfl

theorem isDecimal_of_mem {n : Nat} {u : UInt16} (h : u ∈ ofNat n) : isDecimal u = true := by
  obtain ⟨c, hc, hu⟩ := mem_flatMap.mp h
  have hdigit := Nat.isDigit_of_mem_toDigits (by decide) (by decide) hc
  obtain ⟨hle, hunits⟩ := utf16_of_isDigit hdigit
  have hge : 48 ≤ c.toNat := (Char.isDigit_iff_toNat.mp hdigit).1
  rw [hunits, mem_singleton] at hu
  subst hu
  have hdecimal : ∀ n < 58, 48 ≤ n → isDecimal n.toUInt16 = true := by decide
  exact hdecimal c.toNat (by omega) hge

theorem not_mem_ofNat {n : Nat} {u : UInt16} (h : isDecimal u = false) : u ∉ ofNat n := by
  intro hmem
  rw [isDecimal_of_mem hmem] at h
  cases h

theorem ofInt_natCast (n : Nat) : ofInt n = ofNat n := by
  unfold ofInt
  rw [if_neg (Int.not_lt.mpr (Int.natCast_nonneg n)), Int.toNat_natCast]

theorem not_mem_ofInt {n : Int} {u : UInt16} (h : isDecimal u = false) (hminus : u ≠ unit '-') :
    u ∉ ofInt n := by
  unfold ofInt
  have hsign : js "-" = [unit '-'] := by decide
  split
  · rw [hsign, mem_append, mem_singleton, not_or]
    exact ⟨hminus, not_mem_ofNat h⟩
  · exact not_mem_ofNat h

theorem foldl_units {digits : List Char} (h : ∀ c ∈ digits, c.isDigit = true) (n : Nat) :
    (digits.flatMap utf16).foldl (fun n u => 10 * n + (u.toNat - (unit '0').toNat)) n =
      Nat.ofDigitChars 10 digits n := by
  induction digits generalizing n with
  | nil => rfl
  | cons c digits ih =>
    obtain ⟨hle, hunits⟩ := utf16_of_isDigit (h c mem_cons_self)
    have hvalue : c.toNat.toUInt16.toNat = c.toNat := by
      simp only [UInt16.toNat_ofNat']
      omega
    rw [flatMap_cons, hunits, singleton_append, foldl_cons, hvalue,
      ih (fun d hd => h d (mem_cons_of_mem _ hd)), Nat.ofDigitChars_cons]
    rfl

theorem readNat_ofNat (n : Nat) : readNat (ofNat n) = some n := by
  unfold readNat
  rw [if_pos (all_eq_true.mpr fun _ h => isDecimal_of_mem h), ofNat,
    foldl_units fun _ hc => Nat.isDigit_of_mem_toDigits (by decide) (by decide) hc,
    Nat.ofDigitChars_toDigits (by decide) (by decide)]

end RedRouter.JsString
