import RedRouter.Lib.JsValue
import RedRouter.Lib.Regex
import Mathlib.Tactic.SplitIfs

/-!
# The length of a JSON text

The model of `utils/jsonSize.ts`: the length of `JSON.stringify(value)`,
counted without building the text.  `stripBase64` leaves out the data URIs of
images.

`encodedStringLength_eq` is the fact about strings: the scan over the code
units counts what the code points are written as.
-/

namespace RedRouter.Utils

open List Regex JsValue

/-! ## The model -/

/-- `[a-z0-9.+-]` under the `i` flag. -/
def isMediaUnit (u : UInt16) : Bool :=
  (unit 'a' ≤ asciiLower u && asciiLower u ≤ unit 'z') || isDigit u || u == unit '.' ||
    u == unit '+' || u == unit '-'

/-- `[A-Za-z0-9+/=]`. -/
def isBase64Unit (u : UInt16) : Bool :=
  (unit 'a' ≤ asciiLower u && asciiLower u ≤ unit 'z') || isDigit u || u == unit '+' ||
    u == unit '/' || u == unit '='

def base64DataUri : Pattern :=
  Pattern.cat [litIgnoreCase (js "data:image/"), Pattern.many1 (.unit isMediaUnit),
      litIgnoreCase (js ";base64,"), Pattern.many1 (.unit isBase64Unit)]

/-- The loop of `encodedStringLength` over the units that are left.  Every round
takes a unit, so their number is enough fuel. -/
def encodedLengthLoop : Nat → JsString → Nat → Nat
  | 0, _, len => len
  | _ + 1, [], len => len
  | fuel + 1, code :: rest, len =>
      if code = 0x22 || code = 0x5c then encodedLengthLoop fuel rest (len + 2)
      else if code = 0x08 || code = 0x09 || code = 0x0a || code = 0x0c || code = 0x0d then
        encodedLengthLoop fuel rest (len + 2)
      else if code < 0x20 then encodedLengthLoop fuel rest (len + 6)
      else if isHigh code || isLow code then
        if beginsPair code rest then encodedLengthLoop fuel (rest.drop 1) (len + 2)
        else encodedLengthLoop fuel rest (len + 6)
      else encodedLengthLoop fuel rest (len + 1)

def encodedStringLength (value : JsString) (stripBase64 : Bool) : Nat :=
  let target := if stripBase64 then removeAll base64DataUri value else value
  encodedLengthLoop target.length target 2

variable (fmt : UInt64 → JsString)

mutual

def lengthOf (stripBase64 : Bool) : JsValue → Nat
  | .null => 4
  | .str s => encodedStringLength s stripBase64
  | .bool b => if b then 4 else 5
  | .num bits => if isFinite bits then (fmt bits).length else 4
  | .undefined => 0
  | .arr items => lengthOfItems stripBase64 true 2 items
  | .obj members => lengthOfMembers stripBase64 true 2 members

/-- The loop over the items of an array. -/
def lengthOfItems (stripBase64 first : Bool) (len : Nat) : List JsValue → Nat
  | [] => len
  | item :: items =>
      lengthOfItems stripBase64 false (len + (if first then 0 else 1) +
          (if item.isOmitted then 4 else lengthOf stripBase64 item)) items

/-- The loop over the members of an object. -/
def lengthOfMembers (stripBase64 first : Bool) (len : Nat) : List (JsString × JsValue) → Nat
  | [] => len
  | (key, item) :: members =>
      if item.isOmitted then lengthOfMembers stripBase64 first len members
      else
        lengthOfMembers stripBase64 false (len + (if first then 0 else 1) +
            (encodedStringLength key false + 1 + lengthOf stripBase64 item)) members

end

def jsonLength (value : JsValue) : Nat := lengthOf fmt false value

def jsonLengthStrippingBase64DataUris (value : JsValue) : Nat := lengthOf fmt true value

def rawLengthStrippingBase64DataUris (value : JsString) : Nat :=
  (removeAll base64DataUri value).length

/-! ## Strings -/

theorem length_quoteCodePoint (code : UInt16) : (quoteCodePoint [code]).length =
      if code = 0x22 || code = 0x5c then 2
      else if code = 0x08 || code = 0x09 || code = 0x0a || code = 0x0c || code = 0x0d then 2
      else if code < 0x20 then 6
      else if isHigh code || isLow code then 6
      else 1 := by
  have hescape : (js "\\u" ++ hex4 code).length = 6 := rfl
  by_cases h1 : code = 0x22
  · subst h1; rfl
  by_cases h2 : code = 0x5c
  · subst h2; rfl
  by_cases h3 : code = 0x08
  · subst h3; rfl
  by_cases h4 : code = 0x09
  · subst h4; rfl
  by_cases h5 : code = 0x0a
  · subst h5; rfl
  by_cases h6 : code = 0x0c
  · subst h6; rfl
  by_cases h7 : code = 0x0d
  · subst h7; rfl
  simp only [quoteCodePoint, singleEscape, h1, h2, h3, h4, h5, h6, h7]
  by_cases hsmall : code < 0x20
  · simp [hsmall, hescape]
  · by_cases hsurrogate : (isHigh code || isLow code) = true
    · simp [hsmall, hsurrogate, hescape]
    · simp [hsmall, hsurrogate]

theorem surrogate_plain {code : UInt16} (h : isHigh code = true ∨ isLow code = true) :
    ¬ (code = 0x22 ∨ code = 0x5c) ∧
      ¬ (code = 0x08 ∨ code = 0x09 ∨ code = 0x0a ∨ code = 0x0c ∨ code = 0x0d) ∧ ¬ code < 0x20 := by
  have hle : 0xD800 ≤ code.toNat := by
    simp only [isHigh, isLow, UInt16.le_iff_toNat_le] at h
    simp at h
    omega
  simp only [← UInt16.toNat_inj, UInt16.lt_iff_toNat_lt]
  simp
  omega

theorem encodedLengthLoop_eq (fuel : Nat) (s : JsString) (len : Nat) (hfuel : s.length ≤ fuel) :
    encodedLengthLoop fuel s len = len + ((codePoints s).flatMap quoteCodePoint).length := by
  induction fuel generalizing s len with
  | zero =>
    have hs : s = [] := length_eq_zero_iff.mp (by omega)
    simp [hs, encodedLengthLoop, codePoints]
  | succ fuel ih =>
    cases s with
    | nil => simp [encodedLengthLoop, codePoints]
    | cons code rest =>
      simp only [length_cons] at hfuel
      by_cases hpair : beginsPair code rest = true
      · -- a pair is written as its two units
        obtain ⟨next, rest', rfl, -, hpoints⟩ := codePoints_pair hpair
        have hhigh : isHigh code = true := by
          rw [beginsPair, Bool.and_eq_true] at hpair
          exact hpair.1
        obtain ⟨hquote, hshort, hsmall⟩ := surrogate_plain (Or.inl hhigh)
        simp only [length_cons] at hfuel
        rw [encodedLengthLoop]
        simp only [Bool.or_eq_true, decide_eq_true_eq, hquote, or_assoc, hshort, hsmall, if_false,
          hhigh, true_or, hpair, if_true, hpoints, drop_succ_cons, drop_zero]
        rw [ih rest' (len + 2) (by omega), flatMap_cons, length_append]
        simp only [quoteCodePoint, length_cons, length_nil]
        omega
      · rw [Bool.not_eq_true] at hpair
        have hscan : encodedLengthLoop (fuel + 1) (code :: rest) len =
            encodedLengthLoop fuel rest (len + (quoteCodePoint [code]).length) := by
          rw [encodedLengthLoop, length_quoteCodePoint, hpair]
          simp only [Bool.false_eq_true, if_false]
          split_ifs <;> rfl
        rw [hscan, codePoints_unit hpair, ih rest _ (by omega), flatMap_cons,
          length_append, Nat.add_assoc]

theorem encodedStringLength_eq (s : JsString) : encodedStringLength s false = (quote s).length := by
  simp only [encodedStringLength, Bool.false_eq_true, if_false]
  rw [encodedLengthLoop_eq _ _ _ (Nat.le_refl _), quote, length_append, length_append,
    show (js "\"").length = 1 from rfl]
  omega

/-! ## Values -/

def separated (first : Bool) (parts : List JsString) : JsString :=
  if first then JsString.join (js ",") parts else parts.flatMap fun part => js "," ++ part

theorem separated_nil (first : Bool) : separated first [] = [] := by
  cases first <;> rfl

theorem separated_cons (first : Bool) (part : JsString) (parts : List JsString) :
    separated first (part :: parts) =
      (if first then [] else js ",") ++ (part ++ separated false parts) := by
  cases first with
  | true => simp [separated, JsString.join_cons]
  | false => simp [separated]

mutual

theorem lengthOf_eq (value : JsValue) : lengthOf fmt false value = (serialize fmt value).length := by
  cases value with
  | undefined => rfl
  | null => rfl
  | bool b => cases b <;> rfl
  | num bits =>
    rw [lengthOf, serialize]
    split <;> rfl
  | str s =>
    exact encodedStringLength_eq s
  | arr items =>
    rw [lengthOf, serialize, lengthOfItems_eq]
    simp only [separated, if_true, length_append, show (js "[").length = 1 from rfl,
      show (js "]").length = 1 from rfl]
    omega
  | obj members =>
    rw [lengthOf, serialize, lengthOfMembers_eq]
    simp only [separated, if_true, length_append, show (js "\x7b").length = 1 from rfl,
      show (js "\x7d").length = 1 from rfl]
    omega

theorem lengthOfItems_eq (items : List JsValue) (first : Bool) (len : Nat) :
    lengthOfItems fmt false first len items =
      len + (separated first (serializeItems fmt items)).length := by
  cases items with
  | nil => simp [lengthOfItems, serializeItems, separated_nil]
  | cons item items =>
    have hitem : (if item.isOmitted then 4 else lengthOf fmt false item) =
        (if item.isOmitted then js "null" else serialize fmt item).length := by
      split
      · rfl
      · exact lengthOf_eq item
    have hcomma : (if first then 0 else 1) = (if first then [] else js ",").length := by
      cases first <;> rfl
    rw [lengthOfItems, lengthOfItems_eq items, serializeItems, separated_cons, hitem, hcomma]
    simp only [length_append]
    omega

theorem lengthOfMembers_eq (members : List (JsString × JsValue)) (first : Bool) (len : Nat) :
    lengthOfMembers fmt false first len members =
      len + (separated first (serializeMembers fmt members)).length := by
  cases members with
  | nil => simp [lengthOfMembers, serializeMembers, separated_nil]
  | cons member members =>
    obtain ⟨key, item⟩ := member
    rw [lengthOfMembers, serializeMembers]
    split
    · exact lengthOfMembers_eq members first len
    · have hcomma : (if first then 0 else 1) = (if first then [] else js ",").length := by
        cases first <;> rfl
      rw [lengthOfMembers_eq members, separated_cons, encodedStringLength_eq, lengthOf_eq item,
        hcomma]
      simp only [length_append, show (js ":").length = 1 from rfl]
      omega

end

/-- `jsonLength` is the length of the JSON text, and 0 where there is none. -/
theorem jsonLength_eq (value : JsValue) :
    jsonLength fmt value = ((stringify fmt value).getD []).length := by
  rw [stringify_getD]
  exact lengthOf_eq fmt value

end RedRouter.Utils
