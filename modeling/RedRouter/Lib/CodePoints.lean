import RedRouter.Lib.JsString

/-!
# Code points and UTF-8

The code units of a string are read as code points: two surrogates that form a
pair are one code point, and every other unit is one.  `utf8` is the encoding
of the code points, where a lone surrogate becomes U+FFFD.

A text that is handed over in chunks is encoded chunk by chunk.  This gives
the encoding of the whole text as long as no pair is cut.  There are two
reasons for that: what comes first is `Whole`, or what comes next does not
begin with the second half of a pair (`codePoints_append`).
-/

namespace RedRouter

open List Option

/-- The first half of a surrogate pair. -/
def isHigh (u : UInt16) : Bool := 0xD800 ≤ u && u ≤ 0xDBFF

/-- The second half of a surrogate pair. -/
def isLow (u : UInt16) : Bool := 0xDC00 ≤ u && u ≤ 0xDFFF

def codePoints : JsString → List JsString
  | [] => []
  | [c] => [[c]]
  | c :: d :: rest =>
      if isHigh c && isLow d then [c, d] :: codePoints rest else [c] :: codePoints (d :: rest)

/-- The UTF-8 bytes of a scalar value. -/
def utf8Scalar (n : Nat) : List UInt8 :=
  if n < 0x80 then [n.toUInt8]
  else if n < 0x800 then [(0xC0 + n / 64).toUInt8, (0x80 + n % 64).toUInt8]
  else if n < 0x10000 then
    [(0xE0 + n / 4096).toUInt8, (0x80 + n / 64 % 64).toUInt8, (0x80 + n % 64).toUInt8]
  else
    [(0xF0 + n / 262144).toUInt8, (0x80 + n / 4096 % 64).toUInt8, (0x80 + n / 64 % 64).toUInt8,
      (0x80 + n % 64).toUInt8]

def utf8CodePoint : JsString → List UInt8
  | [c] => utf8Scalar (if isHigh c || isLow c then 0xFFFD else c.toNat)
  | [c, d] => utf8Scalar (0x10000 + (c.toNat - 0xD800) * 0x400 + (d.toNat - 0xDC00))
  | _ => []

/-- The UTF-8 bytes of a string. -/
def utf8 (s : JsString) : List UInt8 := (codePoints s).flatMap utf8CodePoint

theorem utf8Scalar_ne_nil (n : Nat) : utf8Scalar n ≠ [] := by
  unfold utf8Scalar
  split
  · exact cons_ne_nil _ _
  · split
    · exact cons_ne_nil _ _
    · split <;> exact cons_ne_nil _ _

theorem utf8_ne_nil {s : JsString} (h : s ≠ []) : utf8 s ≠ [] := by
  unfold utf8
  match s with
  | [] => exact absurd rfl h
  | [c] =>
    exact append_ne_nil_of_left_ne_nil (utf8Scalar_ne_nil _) _
  | c :: d :: rest =>
    rw [codePoints]
    split <;> exact append_ne_nil_of_left_ne_nil (utf8Scalar_ne_nil _) _

def beginsPair (c : UInt16) (rest : JsString) : Bool :=
  isHigh c && (rest.head?.map isLow).getD false

theorem codePoints_pair {c : UInt16} {rest : JsString} (h : beginsPair c rest = true) :
    ∃ d rest', rest = d :: rest' ∧ isLow d = true ∧
      codePoints (c :: rest) = [c, d] :: codePoints rest' := by
  cases rest with
  | nil => simp [beginsPair] at h
  | cons d rest =>
    simp only [beginsPair, head?_cons, map_some, getD_some] at h
    have hlow : isLow d = true := by
      rw [Bool.and_eq_true] at h
      exact h.2
    refine ⟨d, rest, rfl, hlow, ?_⟩
    rw [codePoints, if_pos h]

theorem codePoints_unit {c : UInt16} {rest : JsString} (h : beginsPair c rest = false) :
    codePoints (c :: rest) = [c] :: codePoints rest := by
  cases rest with
  | nil => rfl
  | cons d rest =>
    simp only [beginsPair, head?_cons, map_some, getD_some] at h
    simp [codePoints, h]

/-- A text that ends with a code point, whatever comes next. -/
def Whole (a : JsString) : Prop := ∀ b, codePoints (a ++ b) = codePoints a ++ codePoints b

theorem whole_nil : Whole [] := fun _ => rfl

theorem Whole.append {a a' : JsString} (h : Whole a) (h' : Whole a') : Whole (a ++ a') := by
  intro b
  rw [append_assoc, h, h' b, h a', append_assoc]

theorem whole_unit {c : UInt16} (h : isHigh c = false) : Whole [c] := by
  intro b
  cases b with
  | nil => rfl
  | cons d rest => simp [codePoints, h]

theorem whole_pair {c d : UInt16} (hc : isHigh c = true) (hd : isLow d = true) : Whole [c, d] := by
  intro b
  simp [codePoints, hc, hd]

theorem whole_of_units {a : JsString} (h : ∀ c ∈ a, isHigh c = false) : Whole a := by
  induction a with
  | nil => exact whole_nil
  | cons c cs ih =>
    exact (whole_unit (h c mem_cons_self)).append (ih fun d hd => h d (mem_cons_of_mem _ hd))

/-- A text whose first unit is not the second half of a pair. -/
def Fresh (b : JsString) : Prop := ∀ d ∈ b.head?, isLow d = false

theorem fresh_cons {d : UInt16} {rest : JsString} (h : isLow d = false) : Fresh (d :: rest) := by
  intro e he
  cases Option.some.inj he
  exact h

theorem codePoints_append (a : JsString) {b : JsString} (h : Fresh b) :
    codePoints (a ++ b) = codePoints a ++ codePoints b := by
  induction a using codePoints.induct with
  | case1 => rfl
  | case2 c =>
    cases b with
    | nil => rfl
    | cons d rest =>
      have hd : isLow d = false := h d rfl
      simp [codePoints, hd]
  | case3 c d rest hpair ih =>
    simp [codePoints, hpair, ih]
  | case4 c d rest hpair ih =>
    rw [cons_append] at ih
    simp [codePoints, hpair, ih]

theorem utf8_whole {a : JsString} (h : Whole a) (b : JsString) : utf8 (a ++ b) = utf8 a ++ utf8 b := by
  rw [utf8, h b, flatMap_append]
  rfl

theorem utf8_fresh (a : JsString) {b : JsString} (h : Fresh b) : utf8 (a ++ b) = utf8 a ++ utf8 b := by
  rw [utf8, codePoints_append a h, flatMap_append]
  rfl

end RedRouter
