import Mathlib.Data.List.Infix

/-!
# Strings of UTF-16 code units

A string of the source language is a sequence of UTF-16 code units, and every
length, index and slice of the source counts those units.  `JsString` is the
list of the units.  Concatenation is `++`, a slice is `take` and `drop`, and
a lone surrogate is a value like any other.

`js` turns a Lean literal into its code units.  It is only used on literals,
so that a definition shows the text that the source has at that place.

The searches are the ones the source uses: `startsWith`, `indexOf`, `includes`
and `replaceAll`. `includes_iff` is the fact that every later proof about a
search uses: a search succeeds exactly when the needle is a contiguous part of
the text.
-/

namespace RedRouter

open List

/-- A string of the source: its UTF-16 code units. -/
abbrev JsString := List UInt16

instance : LawfulBEq JsString := inferInstance

/-- The UTF-16 code units of one character. -/
def utf16 (c : Char) : JsString :=
  if c.toNat < 0x10000 then [c.toNat.toUInt16]
  else
    [(0xD800 + (c.toNat - 0x10000) / 0x400).toUInt16,
      (0xDC00 + (c.toNat - 0x10000) % 0x400).toUInt16]

/-- The code units of a literal. -/
def js (s : String) : JsString := s.toList.flatMap utf16

/-- The code unit of a character literal. -/
def unit (c : Char) : UInt16 := c.toNat.toUInt16

namespace JsString

/-- `s.startsWith(t)`. -/
def startsWith (s t : JsString) : Bool := t.isPrefixOf s

/-- `s.endsWith(t)`. -/
def endsWith (s t : JsString) : Bool := t.isSuffixOf s

/-- `s.indexOf(needle)`, with `none` for `-1`. -/
def indexOf (needle : JsString) : JsString → Option Nat
  | [] => if needle.isEmpty then some 0 else none
  | c :: cs =>
      if needle.isPrefixOf (c :: cs) then some 0
      else (indexOf needle cs).map (· + 1)

/-- `s.includes(needle)`. -/
def includes (s needle : JsString) : Bool := (indexOf needle s).isSome

/-- The scan of `replaceAll`.  `fuel` bounds the number of scanned units. -/
def replaceAllAux (needle repl : JsString) : Nat → JsString → JsString
  | 0, s => s
  | _ + 1, [] => []
  | fuel + 1, c :: cs =>
      if needle.isPrefixOf (c :: cs) then
        repl ++ replaceAllAux needle repl fuel ((c :: cs).drop needle.length)
      else c :: replaceAllAux needle repl fuel cs

/-- `s.replaceAll(needle, repl)` for a non-empty `needle`.  Every step of the
scan drops at least one unit, so the length of `s` is enough fuel. -/
def replaceAll (s needle repl : JsString) : JsString :=
  replaceAllAux needle repl s.length s

/-- White space and line terminators: what `trim` strips and what `\s`
matches. -/
def isSpace (c : UInt16) : Bool :=
  (0x09 ≤ c && c ≤ 0x0D) || c == 0x20 || c == 0xA0 || c == 0x1680 ||
    (0x2000 ≤ c && c ≤ 0x200A) || c == 0x2028 || c == 0x2029 ||
    c == 0x202F || c == 0x205F || c == 0x3000 || c == 0xFEFF

/-- `s.trimStart()`. -/
def trimStart (s : JsString) : JsString := s.dropWhile isSpace

/-- `s.trim()`. -/
def trim (s : JsString) : JsString := (trimStart s).reverse.dropWhile isSpace |>.reverse

/-- `parts.join(sep)`. -/
def join (sep : JsString) (parts : List JsString) : JsString :=
  (parts.intersperse sep).flatten

/-- The decimal digits of a natural number, as `String(n)` writes them. -/
def ofNat (n : Nat) : JsString := (Nat.toDigits 10 n).flatMap utf16

theorem indexOf_isSome_iff (needle s : JsString) :
    (indexOf needle s).isSome = true ↔ needle <:+: s := by
  induction s with
  | nil =>
    cases needle with
    | nil => simp [indexOf]
    | cons a needle => simp [indexOf]
  | cons c cs ih =>
    rw [indexOf, infix_cons_iff]
    split
    · rename_i hpre
      exact iff_of_true rfl (Or.inl ( isPrefixOf_iff_prefix.mp hpre))
    · rename_i hpre
      rw [Option.isSome_map, ih]
      have hne : ¬ needle <+: c :: cs := fun h =>
        hpre ( isPrefixOf_iff_prefix.mpr h)
      exact ⟨Or.inr, fun h => h.resolve_left hne⟩

/-- A search succeeds exactly when the needle is a contiguous part of the
text. -/
theorem includes_iff (s needle : JsString) : includes s needle = true ↔ needle <:+: s :=
  indexOf_isSome_iff needle s

theorem includes_eq_false_iff (s needle : JsString) :
    includes s needle = false ↔ ¬ needle <:+: s := by
  rw [← includes_iff, Bool.not_eq_true]

theorem utf16_of_isDigit {c : Char} (h : c.isDigit = true) :
    c.toNat ≤ 57 ∧ utf16 c = [c.toNat.toUInt16] := by
  have hle : c.toNat ≤ 57 := (Char.isDigit_iff_toNat.mp h).2
  refine ⟨hle, ?_⟩
  unfold utf16
  rw [if_pos (by omega)]

theorem digits_inj {s t : List Char} (hs : ∀ c ∈ s, c.isDigit = true)
    (ht : ∀ c ∈ t, c.isDigit = true) (h : s.flatMap utf16 = t.flatMap utf16) : s = t := by
  induction s generalizing t with
  | nil =>
    cases t with
    | nil => rfl
    | cons d t =>
      rw [flatMap_cons, (utf16_of_isDigit (ht d mem_cons_self)).2] at h
      cases h
  | cons c s ih =>
    obtain ⟨hc, hunit⟩ := utf16_of_isDigit (hs c mem_cons_self)
    cases t with
    | nil =>
      rw [flatMap_cons, hunit] at h
      cases h
    | cons d t =>
      obtain ⟨hd, hunit'⟩ := utf16_of_isDigit (ht d mem_cons_self)
      rw [flatMap_cons, flatMap_cons, hunit, hunit'] at h
      obtain ⟨hhead, htail⟩ := List.cons.inj h
      have hnat := congrArg UInt16.toNat hhead
      have hsame : c.toNat = d.toNat := by
        simp only [UInt16.toNat_ofNat'] at hnat
        omega
      rw [Char.toNat_inj.mp hsame, ih (fun x hx => hs x (mem_cons_of_mem _ hx))
        (fun x hx => ht x (mem_cons_of_mem _ hx)) htail]

theorem ofNat_inj {m n : Nat} (h : ofNat m = ofNat n) : m = n := by
  have hdigits : Nat.toDigits 10 m = Nat.toDigits 10 n :=
    digits_inj (fun _ hc => Nat.isDigit_of_mem_toDigits (by decide) (by decide) hc)
      (fun _ hc => Nat.isDigit_of_mem_toDigits (by decide) (by decide) hc) h
  have hvalue := congrArg (fun digits => Nat.ofDigitChars 10 digits 0) hdigits
  simpa only [Nat.ofDigitChars_toDigits (by decide : 1 < 10) (by decide : 10 ≤ 10)] using hvalue

end JsString

end RedRouter
