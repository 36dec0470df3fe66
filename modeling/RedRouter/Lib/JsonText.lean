import RedRouter.Lib.Json
import RedRouter.Lib.JsMap
import RedRouter.Lib.JsValue
import RedRouter.Lib.Utf8Decoder

/-!
# Reading JSON text

`JSON.parse`, as the grammar of JSON has it.  A reader returns a value and the
text behind it.  The double of a number is given by a function `number`, on
which nothing is assumed.

The rules below read back what `JSON.stringify` writes: a string (`value_quote`),
and the last and the other members and items of an object and an array.
-/

namespace RedRouter.JsonText

open List JsValue

/-! ## The reader -/

def isWhite (c : UInt16) : Bool := c == 0x20 || c == 0x09 || c == 0x0A || c == 0x0D

variable (s : JsString)

def skipWhite : JsString := s.dropWhile isWhite

def isDigit (c : UInt16) : Bool := 0x30 ≤ c && c ≤ 0x39

def hexValue (c : UInt16) : Option Nat :=
  if isDigit c then some (c.toNat - 48)
  else if 0x61 ≤ c && c ≤ 0x66 then some (c.toNat - 87)
  else if 0x41 ≤ c && c ≤ 0x46 then some (c.toNat - 55)
  else none

/-- The four digits behind `\u`. -/
def hexUnit (a b c d : UInt16) : Option UInt16 := do
  let a ← hexValue a
  let b ← hexValue b
  let c ← hexValue c
  let d ← hexValue d
  return (((a * 16 + b) * 16 + c) * 16 + d).toUInt16

/-- What one letter behind a backslash stands for. -/
def unescape (c : UInt16) : Option UInt16 :=
  if c = unit '"' || c = unit '\\' || c = unit '/' then some c
  else if c = unit 'b' then some 0x08
  else if c = unit 'f' then some 0x0C
  else if c = unit 'n' then some 0x0A
  else if c = unit 'r' then some 0x0D
  else if c = unit 't' then some 0x09
  else none

def push (c : UInt16) : Option (JsString × JsString) → Option (JsString × JsString)
  | some (text, rest) => some (c :: text, rest)
  | none => none

/-- A string up to its closing quote. -/
def chars : JsString → Option (JsString × JsString)
  | [] => none
  | c :: rest =>
      if c = unit '"' then some ([], rest)
      else if c = unit '\\' then
        match rest with
        | [] => none
        | e :: rest =>
            if e = unit 'u' then
              match rest with
              | a :: b :: c :: d :: rest =>
                  match hexUnit a b c d with
                  | some code => push code (chars rest)
                  | none => none
              | _ => none
            else
              match unescape e with
              | some code => push code (chars rest)
              | none => none
      else if c < 0x20 then none
      else push c (chars rest)

def digits : Option (JsString × JsString) :=
  if s.takeWhile isDigit = [] then none else some (s.takeWhile isDigit, s.dropWhile isDigit)

/-- The digits before the point: a zero stands alone. -/
def integer : Option (JsString × JsString) :=
  if s.head? = some (unit '0') then some (js "0", s.drop 1) else digits s

def fraction : Option (JsString × JsString) :=
  if s.head? = some (unit '.') then
    (digits (s.drop 1)).map fun r => (unit '.' :: r.1, r.2)
  else some ([], s)

def exponent : Option (JsString × JsString) :=
  if s.head? = some (unit 'e') || s.head? = some (unit 'E') then
    let signed := s.drop 1
    if signed.head? = some (unit '+') || signed.head? = some (unit '-') then
      (digits (signed.drop 1)).map fun r => (s.take 2 ++ r.1, r.2)
    else (digits signed).map fun r => (s.take 1 ++ r.1, r.2)
  else some ([], s)

def numberText : Option (JsString × JsString) := do
  let sign := if s.head? = some (unit '-') then js "-" else []
  let (whole, s) ← integer (s.drop sign.length)
  let (part, s) ← fraction s
  let (power, s) ← exponent s
  return (sign ++ (whole ++ (part ++ power)), s)

/-- The rest of a text that begins with a word. -/
def word (w : JsString) (v : Json) (s : JsString) : Option (Json × JsString) :=
  if JsString.startsWith s w then some (v, s.drop w.length) else none

variable (number : JsString → UInt64)

mutual

/-- A value.  Each step reads a unit at least, so the length of the text is
enough fuel. -/
def value : Nat → JsString → Option (Json × JsString)
  | 0, _ => none
  | fuel + 1, s =>
      match skipWhite s with
      | [] => none
      | c :: rest =>
          if c = unit '\x7b' then
            if (skipWhite rest).head? = some (unit '\x7d') then
              some (.obj [], (skipWhite rest).drop 1)
            else (members fuel [] rest).map fun r => (.obj r.1, r.2)
          else if c = unit '[' then
            if (skipWhite rest).head? = some (unit ']') then some (.arr [], (skipWhite rest).drop 1)
            else (items fuel [] rest).map fun r => (.arr r.1, r.2)
          else if c = unit '"' then (chars rest).map fun r => (.str r.1, r.2)
          else if c = unit 't' then word (js "true") (.bool true) (c :: rest)
          else if c = unit 'f' then word (js "false") (.bool false) (c :: rest)
          else if c = unit 'n' then word (js "null") .null (c :: rest)
          else (numberText (c :: rest)).map fun r => (.num (number r.1), r.2)

/-- The members of an object; of two with one key the later one counts. -/
def members : Nat → JsMap JsString Json → JsString → Option (JsMap JsString Json × JsString)
  | 0, _, _ => none
  | fuel + 1, read, s =>
      match skipWhite s with
      | [] => none
      | c :: rest =>
          if c = unit '"' then
            match chars rest with
            | none => none
            | some (key, rest) =>
                if (skipWhite rest).head? = some (unit ':') then
                  match value fuel ((skipWhite rest).drop 1) with
                  | none => none
                  | some (v, rest) =>
                      match skipWhite rest with
                      | [] => none
                      | c :: rest =>
                          if c = unit ',' then members fuel (read.set key v) rest
                          else if c = unit '\x7d' then some (read.set key v, rest)
                          else none
                else none
          else none

def items : Nat → List Json → JsString → Option (List Json × JsString)
  | 0, _, _ => none
  | fuel + 1, read, s =>
      match value fuel s with
      | none => none
      | some (v, rest) =>
          match skipWhite rest with
          | [] => none
          | c :: rest =>
              if c = unit ',' then items fuel (read ++ [v]) rest
              else if c = unit ']' then some (read ++ [v], rest)
              else none

end

/-- `JSON.parse(text)`, with `none` for a `SyntaxError`. -/
def parse (text : JsString) : Option Json :=
  match value number (text.length + 1) text with
  | some (v, rest) => if skipWhite rest = [] then some v else none
  | none => none

/-! ## Strings -/

theorem chars_close (t : JsString) : chars (unit '"' :: t) = some ([], t) := by
  rw [chars.eq_def]
  dsimp only
  rw [if_pos rfl]

variable {c : UInt16}

theorem chars_unit (hquote : c ≠ unit '"') (hescape : c ≠ unit '\\') (hcontrol : ¬ c < 0x20)
    (t : JsString) : chars (c :: t) = push c (chars t) := by
  rw [chars.eq_def]
  dsimp only
  rw [if_neg hquote, if_neg hescape, if_neg hcontrol]

theorem chars_escape {e code : UInt16} (hletter : e ≠ unit 'u') (h : unescape e = some code)
    (t : JsString) : chars (unit '\\' :: e :: t) = push code (chars t) := by
  rw [chars.eq_def]
  dsimp only
  rw [if_neg (by decide), if_pos rfl, if_neg hletter, h]

theorem hexValue_hexDigit {n : Nat} (h : n < 16) : hexValue (hexDigit n) = some n := by
  have hall : ∀ i : Fin 16, hexValue (hexDigit i.val) = some i.val := by decide
  exact hall ⟨n, h⟩

theorem chars_unicode (c : UInt16) (t : JsString) :
    chars (js "\\u" ++ hex4 c ++ t) = push c (chars t) := by
  have hdigit : ∀ n, hexValue (hexDigit (n % 16)) = some (n % 16) :=
    fun n => hexValue_hexDigit (Nat.mod_lt n (by decide))
  have hcode : hexUnit (hexDigit (c.toNat / 4096 % 16)) (hexDigit (c.toNat / 256 % 16))
      (hexDigit (c.toNat / 16 % 16)) (hexDigit (c.toNat % 16)) = some c := by
    have hmax := UInt16.toNat_lt c
    have hvalue : ((c.toNat / 4096 % 16 * 16 + c.toNat / 256 % 16) * 16 + c.toNat / 16 % 16) * 16 +
        c.toNat % 16 = c.toNat := by omega
    unfold hexUnit
    simp only [hdigit, Option.bind_eq_bind, Option.bind_some, hvalue]
    simp
  show chars (unit '\\' :: unit 'u' :: (hex4 c ++ t)) = _
  rw [chars.eq_def]
  dsimp only [hex4, cons_append, nil_append]
  rw [if_neg (by decide), if_pos rfl, if_pos rfl, hcode]

theorem chars_singleEscape {escape : JsString} (h : singleEscape c = some escape) (t : JsString) :
    chars (escape ++ t) = push c (chars t) := by
  unfold singleEscape at h
  split_ifs at h with h1 h2 h3 h4 h5 h6 h7
  all_goals
    subst_vars
    obtain rfl := Option.some.inj h
    exact chars_escape (by decide) rfl t

theorem chars_quoteCodePoint (c : UInt16) (t : JsString) :
    chars (quoteCodePoint [c] ++ t) = push c (chars t) := by
  cases hsingle : singleEscape c with
  | some escape =>
    simp only [quoteCodePoint, hsingle]
    exact chars_singleEscape hsingle t
  | none =>
    simp only [quoteCodePoint, hsingle]
    split
    · exact chars_unicode c t
    · rename_i hplain
      refine chars_unit ?_ ?_ ?_ t
      · rintro rfl
        exact absurd hsingle (by decide)
      · rintro rfl
        exact absurd hsingle (by decide)
      · intro hcontrol
        simp [hcontrol] at hplain

theorem chars_surrogate (h : isHigh c = true ∨ isLow c = true) (t : JsString) :
    chars (c :: t) = push c (chars t) := by
  refine chars_unit ?_ ?_ ?_ t
  · rintro rfl
    exact absurd h (by decide)
  · rintro rfl
    exact absurd h (by decide)
  · intro hcontrol
    have hsmall : c.toNat < 32 := hcontrol
    rw [isHigh_iff, isLow_iff] at h
    omega

theorem chars_quote (t : JsString) :
    chars ((codePoints s).flatMap quoteCodePoint ++ unit '"' :: t) = some (s, t) := by
  induction s using codePoints.induct with
  | case1 => exact chars_close t
  | case2 c =>
    rw [codePoints, flatMap_cons, append_assoc, chars_quoteCodePoint]
    show push c (chars (unit '"' :: t)) = _
    rw [chars_close]
    rfl
  | case3 c d rest hpair ih =>
    rw [codePoints, if_pos hpair, flatMap_cons, append_assoc]
    rw [Bool.and_eq_true] at hpair
    show chars (c :: d :: ((codePoints rest).flatMap quoteCodePoint ++ unit '"' :: t)) = _
    rw [chars_surrogate (.inl hpair.1), chars_surrogate (.inr hpair.2), ih]
    rfl
  | case4 c d rest hpair ih =>
    rw [codePoints, if_neg hpair, flatMap_cons, append_assoc, chars_quoteCodePoint, ih]
    rfl

/-- What holds of a quoted text: of a unit that stands for itself, of a pair, and
of texts one after the other. -/
theorem quote_of {P : JsString → Prop} (happend : ∀ {a b}, P a → P b → P (a ++ b))
    (hunit : ∀ c, 0x20 ≤ c → isHigh c = false → isLow c = false → P [c])
    (hpair : ∀ c d, isHigh c = true → isLow d = true → P [c, d]) (s : JsString) : P (quote s) := by
  have hquote : P (js "\"") := hunit 0x22 (by decide) (by decide) (by decide)
  have hplain : ∀ c : UInt16, 0x20 ≤ c.toNat → c.toNat < 0x80 → P [c] := by
    intro c hlow hhigh
    refine hunit c (UInt16.le_iff_toNat_le.mpr hlow) ?_ ?_
    · rw [← Bool.not_eq_true, isHigh_iff]
      omega
    · rw [← Bool.not_eq_true, isLow_iff]
      omega
  have hescape : P (js "\\") := hplain 0x5c (by decide) (by decide)
  have hhex : ∀ n, P [hexDigit (n % 16)] := by
    intro n
    have hall : ∀ i : Fin 16, 0x20 ≤ (hexDigit i.val).toNat ∧ (hexDigit i.val).toNat < 0x80 := by
      decide
    obtain ⟨hlow, hhigh⟩ := hall ⟨n % 16, Nat.mod_lt n (by decide)⟩
    exact hplain _ hlow hhigh
  have hsingle : ∀ {c escape}, singleEscape c = some escape → P escape := by
    intro c escape h
    unfold singleEscape at h
    split_ifs at h
    all_goals
      obtain rfl := Option.some.inj h
      exact happend hescape (hplain _ (by decide) (by decide))
  have hpoint : ∀ c, P (quoteCodePoint [c]) := by
    intro c
    cases hc : singleEscape c with
    | some escape =>
      simp only [quoteCodePoint, hc]
      exact hsingle hc
    | none =>
      simp only [quoteCodePoint, hc]
      split
      · refine happend (happend hescape (hplain (unit 'u') (by decide) (by decide))) ?_
        exact happend (happend (happend (hhex _) (hhex _)) (hhex _)) (hhex _)
      · rename_i hbare
        simp only [Bool.or_eq_true, decide_eq_true_eq, not_or, Bool.not_eq_true] at hbare
        exact hunit c (UInt16.not_lt.mp hbare.1.1) hbare.1.2 hbare.2
  refine happend hquote ?_
  induction s using codePoints.induct with
  | case1 => exact hquote
  | case2 c =>
    rw [codePoints, flatMap_cons, append_assoc]
    exact happend (hpoint c) hquote
  | case3 c d rest hc ih =>
    rw [codePoints, if_pos hc, flatMap_cons, append_assoc]
    rw [Bool.and_eq_true] at hc
    exact happend (hpair c d hc.1 hc.2) ih
  | case4 c d rest hc ih =>
    rw [codePoints, if_neg hc, flatMap_cons, append_assoc]
    exact happend (hpoint c) ih

/-! ## Values -/

variable {number : JsString → UInt64}

theorem skipWhite_cons (h : isWhite c = false) (t : JsString) : skipWhite (c :: t) = c :: t := by
  unfold skipWhite
  rw [dropWhile_cons, h]
  rfl

theorem quote_append (t : JsString) :
    quote s ++ t = unit '"' :: ((codePoints s).flatMap quoteCodePoint ++ unit '"' :: t) := by
  have hquote : js "\"" = [unit '"'] := rfl
  unfold quote
  rw [hquote]
  simp

theorem value_quote (fuel : Nat) (s t : JsString) :
    value number (fuel + 1) (quote s ++ t) = some (.str s, t) := by
  rw [quote_append, value, skipWhite_cons (by decide)]
  dsimp only
  rw [if_neg (by decide), if_neg (by decide), if_pos rfl, chars_quote]
  rfl

theorem value_zero (fuel : Nat) {c : UInt16} (hc : c = unit ',' ∨ c = unit '\x7d') (t : JsString) :
    value number (fuel + 1) (unit '0' :: c :: t) = some (.num (number (js "0")), c :: t) := by
  rcases hc with rfl | rfl <;> rfl

theorem value_emptyObj (fuel : Nat) (t : JsString) :
    value number (fuel + 1) (unit '\x7b' :: unit '\x7d' :: t) = some (.obj [], t) := by
  rw [value, skipWhite_cons (by decide)]
  dsimp only
  rfl

theorem value_emptyArr (fuel : Nat) (t : JsString) :
    value number (fuel + 1) (unit '[' :: unit ']' :: t) = some (.arr [], t) := by
  rw [value, skipWhite_cons (by decide)]
  dsimp only
  rfl

variable {fuel : Nat} {rest t : JsString}

theorem members_next {v : Json} (h : value number fuel t = some (v, c :: rest))
    (hc : isWhite c = false) (read : JsMap JsString Json) (key : JsString) :
    members number (fuel + 1) read (quote key ++ unit ':' :: t) =
      if c = unit ',' then members number fuel (read.set key v) rest
      else if c = unit '\x7d' then some (read.set key v, rest)
      else none := by
  rw [quote_append, members, skipWhite_cons (by decide)]
  dsimp only
  rw [if_pos rfl, chars_quote]
  dsimp only
  rw [skipWhite_cons (by decide), head?_cons, if_pos rfl, drop_succ_cons, drop_zero, h]
  dsimp only
  rw [skipWhite_cons hc]

theorem members_last {v : Json} (h : value number fuel t = some (v, unit '\x7d' :: rest))
    (read : JsMap JsString Json) (key : JsString) :
    members number (fuel + 1) read (quote key ++ unit ':' :: t) = some (read.set key v, rest) := by
  rw [members_next h (by decide), if_neg (by decide), if_pos rfl]

theorem members_more {v : Json} (h : value number fuel t = some (v, unit ',' :: rest))
    (read : JsMap JsString Json) (key : JsString) :
    members number (fuel + 1) read (quote key ++ unit ':' :: t) =
      members number fuel (read.set key v) rest := by
  rw [members_next h (by decide), if_pos rfl]

theorem value_obj {key : JsString} {read : JsMap JsString Json}
    (h : members number fuel [] (quote key ++ t) = some (read, rest)) :
    value number (fuel + 1) (unit '\x7b' :: (quote key ++ t)) = some (.obj read, rest) := by
  rw [value, skipWhite_cons (by decide)]
  dsimp only
  rw [if_pos rfl, h, quote_append, skipWhite_cons (by decide), head?_cons, if_neg (by decide)]
  rfl

theorem value_single {fuel : Nat} {text t : JsString} {v : Json}
    (h : value number fuel (unit '\x7b' :: text) = some (v, unit ']' :: t)) :
    value number (fuel + 2) (unit '[' :: unit '\x7b' :: text) = some (.arr [v], t) := by
  rw [value, skipWhite_cons (by decide)]
  dsimp only
  rw [if_neg (by decide), if_pos rfl, skipWhite_cons (by decide), head?_cons,
    if_neg (by decide), items, h]
  dsimp only
  rw [skipWhite_cons (by decide)]
  dsimp only
  rfl

theorem parse_of_value {text : JsString} {v : Json} (hfuel : text.length + 1 = fuel)
    (h : value number fuel text = some (v, [])) : parse number text = some v := by
  unfold parse
  rw [hfuel, h]
  rfl

end RedRouter.JsonText
