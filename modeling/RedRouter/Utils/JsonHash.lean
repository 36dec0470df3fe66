import RedRouter.Utils.JsonSize

/-!
# The hash of a JSON text

The model of `utils/jsonHash.ts`: the JSON text of a value is fed to a hash in
chunks, and is never built as a whole.  The chunks are what `hash.update` is
called with.  It encodes each of them in UTF-8, where a lone surrogate is
replaced, so a pair must not be cut between two chunks.

`flatten_writeValue` says that the chunks are the text of the value.
`Encoded` says that the bytes of the chunks are the bytes of their text, and
`encoded_writeValue` that this holds for every value.
-/

namespace RedRouter.Utils

open List JsValue

/-! ## The model -/

/-- `appendEscapedChar`: what is written for a unit, and whether the next unit
is written with it. -/
def appendEscapedChar (code : UInt16) (rest : JsString) : JsString × Bool :=
  match singleEscape code with
  | some single => (single, false)
  | none =>
      if code < 0x20 then (js "\\u" ++ hex4 code, false)
      else if isHigh code || isLow code then
        if beginsPair code rest then (code :: rest.take 1, true)
        else (js "\\u" ++ hex4 code, false)
      else ([code], false)

/-- The loop of `writeEncodedString` over the units that are left.  Every round
takes a unit, so one more than their number is enough fuel. -/
def writeEncodedLoop : Nat → JsString → JsString → Nat → List JsString
  | 0, _, out, _ => [out ++ js "\""]
  | _ + 1, [], out, _ => [out ++ js "\""]
  | fuel + 1, code :: rest, out, buffered =>
      let (text, both) := appendEscapedChar code rest
      let rest := if both then rest.drop 1 else rest
      let buffered := buffered + (if both then 2 else 1)
      if buffered > 8192 then (out ++ text) :: writeEncodedLoop fuel rest [] 0
      else writeEncodedLoop fuel rest (out ++ text) buffered

def writeEncodedString (value : JsString) : List JsString :=
  writeEncodedLoop (value.length + 1) value (js "\"") 0

variable (fmt : UInt64 → JsString)

mutual

/-- `writeValue`: the chunks that go to the hash. -/
def writeValue : JsValue → List JsString
  | .null => [js "null"]
  | .str s => writeEncodedString s
  | .bool b => [if b then js "true" else js "false"]
  | .num bits => [if isFinite bits then fmt bits else js "null"]
  | .undefined => []
  | .arr items => js "[" :: (writeArray true items ++ [js "]"])
  | .obj members => js "\x7b" :: (writePlainObject true members ++ [js "\x7d"])

/-- The loop of `writeArray`. -/
def writeArray (first : Bool) : List JsValue → List JsString
  | [] => []
  | item :: items =>
      (if first then [] else [js ","]) ++
        ((if item.isOmitted then [js "null"] else writeValue item) ++ writeArray false items)

/-- The loop of `writePlainObject`. -/
def writePlainObject (first : Bool) : List (JsString × JsValue) → List JsString
  | [] => []
  | (key, item) :: members =>
      if item.isOmitted then writePlainObject first members
      else
        (if first then [] else [js ","]) ++
          (writeEncodedString key ++ (js ":" :: (writeValue item ++ writePlainObject false members)))

end

def hashedBytes (value : JsValue) : List UInt8 := (writeValue fmt value).flatMap utf8

/-- `jsonSha256`, for the digest of the bytes that have been fed. -/
def jsonSha256 (digest : List UInt8 → JsString) (value : JsValue) : JsString :=
  digest (hashedBytes fmt value)

/-! ## The text of the chunks -/

theorem appendEscapedChar_pair {code : UInt16} {rest : JsString} (h : beginsPair code rest = true) :
    appendEscapedChar code rest = (code :: rest.take 1, true) := by
  have hhigh : isHigh code = true := by
    rw [beginsPair, Bool.and_eq_true] at h
    exact h.1
  obtain ⟨hquote, hshort, hsmall⟩ := surrogate_plain (Or.inl hhigh)
  have hsingle : singleEscape code = none := by
    simp only [not_or] at hquote hshort
    simp [singleEscape, hquote, hshort]
  simp [appendEscapedChar, hsingle, hsmall, hhigh, h]

theorem appendEscapedChar_unit {code : UInt16} {rest : JsString}
    (h : beginsPair code rest = false) :
    appendEscapedChar code rest = (quoteCodePoint [code], false) := by
  rw [appendEscapedChar, quoteCodePoint]
  cases singleEscape code with
  | some single => rfl
  | none =>
    by_cases hsmall : code < 0x20
    · simp [hsmall]
    · by_cases hsurrogate : (isHigh code || isLow code) = true
      · simp [hsmall, hsurrogate, h]
      · simp [hsmall, hsurrogate]

theorem flatten_writeEncodedLoop (fuel : Nat) (s out : JsString) (buffered : Nat)
    (hfuel : s.length ≤ fuel) :
    (writeEncodedLoop fuel s out buffered).flatten =
      out ++ ((codePoints s).flatMap quoteCodePoint ++ js "\"") := by
  induction fuel generalizing s out buffered with
  | zero =>
    have hs : s = [] := length_eq_zero_iff.mp (by omega)
    simp [hs, writeEncodedLoop, codePoints]
  | succ fuel ih =>
    cases s with
    | nil => simp [writeEncodedLoop, codePoints]
    | cons code rest =>
      simp only [length_cons] at hfuel
      rw [writeEncodedLoop]
      by_cases hpair : beginsPair code rest = true
      · obtain ⟨next, rest', rfl, -, hpoints⟩ := codePoints_pair hpair
        simp only [length_cons] at hfuel
        rw [appendEscapedChar_pair hpair, hpoints]
        simp only [if_true, drop_succ_cons, drop_zero]
        split
        · rw [List.flatten_cons, ih _ _ _ (by omega)]
          simp [quoteCodePoint]
        · rw [ih _ _ _ (by omega)]
          simp [quoteCodePoint]
      · rw [Bool.not_eq_true] at hpair
        rw [appendEscapedChar_unit hpair, codePoints_unit hpair]
        simp only [Bool.false_eq_true, if_false]
        split
        · rw [List.flatten_cons, ih _ _ _ (by omega)]
          simp
        · rw [ih _ _ _ (by omega)]
          simp

theorem flatten_writeEncodedString (s : JsString) : (writeEncodedString s).flatten = quote s := by
  rw [writeEncodedString, flatten_writeEncodedLoop _ _ _ _ (by omega), quote]

mutual

theorem flatten_writeValue (value : JsValue) :
    (writeValue fmt value).flatten = serialize fmt value := by
  cases value with
  | undefined => rfl
  | null => rfl
  | bool b => simp [writeValue, serialize]
  | num bits => simp [writeValue, serialize]
  | str s =>
    exact flatten_writeEncodedString s
  | arr items =>
    rw [writeValue, serialize, List.flatten_cons, flatten_append, flatten_writeArray]
    simp [separated]
  | obj members =>
    rw [writeValue, serialize, List.flatten_cons, flatten_append, flatten_writePlainObject]
    simp [separated]

theorem flatten_writeArray (items : List JsValue) (first : Bool) :
    (writeArray fmt first items).flatten = separated first (serializeItems fmt items) := by
  cases items with
  | nil => simp [writeArray, serializeItems, separated_nil]
  | cons item items =>
    have hitem : (if item.isOmitted then [js "null"] else writeValue fmt item).flatten =
        if item.isOmitted then js "null" else serialize fmt item := by
      split
      · rfl
      · exact flatten_writeValue item
    rw [writeArray, serializeItems, separated_cons, flatten_append, flatten_append, hitem,
      flatten_writeArray items]
    cases first <;> rfl

theorem flatten_writePlainObject (members : List (JsString × JsValue)) (first : Bool) :
    (writePlainObject fmt first members).flatten =
      separated first (serializeMembers fmt members) := by
  cases members with
  | nil => simp [writePlainObject, serializeMembers, separated_nil]
  | cons member members =>
    obtain ⟨key, item⟩ := member
    rw [writePlainObject, serializeMembers]
    split
    · exact flatten_writePlainObject members first
    · rw [separated_cons, flatten_append, flatten_append, List.flatten_cons,
        flatten_append, flatten_writeEncodedString, flatten_writeValue item,
        flatten_writePlainObject members]
      cases first <;> simp

end

/-! ## The bytes of the chunks -/

/-- The bytes of the chunks are the bytes of their text. -/
def Encoded (chunks : List JsString) : Prop := chunks.flatMap utf8 = utf8 chunks.flatten

theorem encoded_nil : Encoded [] := rfl

theorem encoded_single (chunk : JsString) : Encoded [chunk] := by
  simp [Encoded]

variable {chunks : List JsString}

theorem Encoded.after_whole {more : List JsString} (h : Encoded chunks) (h' : Encoded more)
    (hwhole : Whole chunks.flatten) : Encoded (chunks ++ more) := by
  rw [Encoded, flatMap_append, h, h', flatten_append, utf8_whole hwhole]

theorem Encoded.before_fresh {more : List JsString} (h : Encoded chunks) (h' : Encoded more)
    (hfresh : Fresh more.flatten) : Encoded (chunks ++ more) := by
  rw [Encoded, flatMap_append, h, h', flatten_append, utf8_fresh _ hfresh]

theorem isHigh_hexDigit {n : Nat} (h : n < 16) : isHigh (hexDigit n) = false := by
  have hall : ∀ m : Fin 16, isHigh (hexDigit m) = false := by decide
  exact hall ⟨n, h⟩

theorem whole_unicodeEscape (code : UInt16) : Whole (js "\\u" ++ hex4 code) := by
  have hmod : ∀ n, n % 16 < 16 := fun n => Nat.mod_lt n (by decide)
  apply whole_of_units
  intro u hu
  rcases mem_append.mp hu with hu | hu
  · have hall : ((js "\\u").all fun v => !isHigh v) = true := by decide
    simpa using all_eq_true.mp hall u hu
  · simp only [hex4, mem_cons, not_mem_nil, or_false] at hu
    rcases hu with rfl | rfl | rfl | rfl
    all_goals exact isHigh_hexDigit (hmod _)

theorem whole_singleEscape {code : UInt16} {single : JsString} (h : singleEscape code = some single) :
    Whole single := by
  have hall : (single.all fun v => !isHigh v) = true := by
    unfold singleEscape at h
    split_ifs at h <;> cases h <;> decide
  apply whole_of_units
  intro u hu
  simpa using all_eq_true.mp hall u hu

theorem whole_appendEscapedChar (code : UInt16) (rest : JsString) :
    Whole (appendEscapedChar code rest).1 := by
  by_cases hpair : beginsPair code rest = true
  · rw [appendEscapedChar_pair hpair]
    obtain ⟨next, rest', rfl, hlow, -⟩ := codePoints_pair hpair
    have hhigh : isHigh code = true := by
      rw [beginsPair, Bool.and_eq_true] at hpair
      exact hpair.1
    exact whole_pair hhigh hlow
  · rw [Bool.not_eq_true] at hpair
    rw [appendEscapedChar_unit hpair, quoteCodePoint]
    cases hsingle : singleEscape code with
    | some single => exact whole_singleEscape hsingle
    | none =>
      dsimp only
      split
      · exact whole_unicodeEscape code
      · rename_i hplain
        apply whole_unit
        simp only [Bool.or_eq_true, not_or, Bool.not_eq_true] at hplain
        exact hplain.1.2

theorem whole_quoteMark : Whole (js "\"") := whole_unit (by decide)

theorem writeEncodedLoop_whole (fuel : Nat) (s out : JsString) (buffered : Nat) (h : Whole out) :
    Encoded (writeEncodedLoop fuel s out buffered) ∧
      Whole (writeEncodedLoop fuel s out buffered).flatten := by
  induction fuel generalizing s out buffered with
  | zero =>
    refine ⟨encoded_single _, ?_⟩
    simpa [writeEncodedLoop] using h.append whole_quoteMark
  | succ fuel ih =>
    cases s with
    | nil =>
      refine ⟨encoded_single _, ?_⟩
      simpa [writeEncodedLoop] using h.append whole_quoteMark
    | cons code rest =>
      have hout := h.append (whole_appendEscapedChar code rest)
      rw [writeEncodedLoop]
      dsimp only
      generalize (if (appendEscapedChar code rest).2 then rest.drop 1 else rest) = left
      generalize buffered + (if (appendEscapedChar code rest).2 then 2 else 1) = count
      split
      · obtain ⟨hencoded, hwhole⟩ := ih left [] 0 whole_nil
        refine ⟨?_, ?_⟩
        · exact (encoded_single _).after_whole hencoded (by simpa using hout)
        · exact hout.append hwhole
      · exact ih _ _ _ hout

theorem encoded_writeEncodedString (s : JsString) : Encoded (writeEncodedString s) :=
  (writeEncodedLoop_whole _ _ _ _ whole_quoteMark).1

theorem whole_writeEncodedString (s : JsString) : Whole (writeEncodedString s).flatten :=
  (writeEncodedLoop_whole _ _ _ _ whole_quoteMark).2

theorem Encoded.after_mark (h : Encoded chunks) {mark : UInt16}
    (hmark : isHigh mark = false) : Encoded ([mark] :: chunks) :=
  (encoded_single [mark]).after_whole h (by simpa using whole_unit hmark)

theorem fresh_writeArray (items : List JsValue) : Fresh (writeArray fmt false items).flatten := by
  rw [flatten_writeArray]
  cases items with
  | nil => intro d hd; simp [serializeItems, separated] at hd
  | cons item items =>
    exact fresh_cons (by decide)

theorem fresh_writePlainObject (members : List (JsString × JsValue)) :
    Fresh (writePlainObject fmt false members).flatten := by
  rw [flatten_writePlainObject]
  cases serializeMembers fmt members with
  | nil => intro d hd; simp [separated] at hd
  | cons part parts =>
    exact fresh_cons (by decide)

theorem Encoded.close (h : Encoded chunks) {mark : UInt16}
    (hmark : isLow mark = false) : Encoded (chunks ++ [[mark]]) :=
  h.before_fresh (encoded_single _) (by simpa using fresh_cons hmark)

theorem Encoded.after_comma (h : Encoded chunks) (first : Bool) :
    Encoded ((if first then [] else [js ","]) ++ chunks) := by
  cases first with
  | true => exact h
  | false => exact h.after_mark (by decide)

mutual

theorem encoded_writeValue (value : JsValue) : Encoded (writeValue fmt value) := by
  cases value with
  | undefined => exact encoded_nil
  | null => exact encoded_single _
  | bool b => exact encoded_single _
  | num bits => exact encoded_single _
  | str s =>
    exact encoded_writeEncodedString s
  | arr items =>
    exact ((encoded_writeArray items true).close (by decide)).after_mark (by decide)
  | obj members =>
    exact ((encoded_writePlainObject members true).close (by decide)).after_mark (by decide)

theorem encoded_writeArray (items : List JsValue) (first : Bool) :
    Encoded (writeArray fmt first items) := by
  cases items with
  | nil =>
    exact encoded_nil
  | cons item items =>
    have hitem : Encoded (if item.isOmitted then [js "null"] else writeValue fmt item) := by
      split
      · exact encoded_single _
      · exact encoded_writeValue item
    exact (hitem.before_fresh (encoded_writeArray items false)
      (fresh_writeArray fmt items)).after_comma first

theorem encoded_writePlainObject (members : List (JsString × JsValue)) (first : Bool) :
    Encoded (writePlainObject fmt first members) := by
  cases members with
  | nil =>
    exact encoded_nil
  | cons member members =>
    obtain ⟨key, item⟩ := member
    rw [writePlainObject]
    split
    · exact encoded_writePlainObject members first
    · have hrest := (encoded_writeValue item).before_fresh (encoded_writePlainObject members false)
        (fresh_writePlainObject fmt members)
      have hmember := (encoded_writeEncodedString key).after_whole
        (hrest.after_mark (show isHigh (unit ':') = false by decide))
        (whole_writeEncodedString key)
      exact hmember.after_comma first

end

/-! ## Exactness -/

/-- The hash is fed the UTF-8 bytes of the JSON text, and the length is the
length of the text. -/
theorem json_exact (value : JsValue) :
    hashedBytes fmt value = utf8 ((stringify fmt value).getD []) ∧
      jsonLength fmt value = ((stringify fmt value).getD []).length := by
  refine ⟨?_, jsonLength_eq fmt value⟩
  rw [stringify_getD, ← flatten_writeValue]
  exact encoded_writeValue fmt value

end RedRouter.Utils
