import RedRouter.Lib.CodePoints

/-!
# Values and their JSON text

The values that are built from plain objects and arrays, with `undefined`
among them.  Functions and symbols are treated like `undefined` by
`JSON.stringify`, and stand under it here.  A value is a tree, so the
detection of cycles has nothing to find.

`stringify` is `JSON.stringify(value)`, as the language defines it: the text
of a string by its code points (`quote`), the members of an object without the
undefined ones, and the parts of an array or object joined with commas.  The
text of a finite number is given by a function `fmt`, on which nothing is
assumed.
-/

namespace RedRouter

/-- A value.  A number is the bit pattern of its double. -/
inductive JsValue where
  | undefined
  | null
  | bool (b : Bool)
  | num (bits : UInt64)
  | str (s : JsString)
  | arr (items : List JsValue)
  | obj (members : List (JsString × JsValue))

namespace JsValue

/-- `Number.isFinite`: the exponent is not the largest one. -/
def isFinite (bits : UInt64) : Bool := bits &&& 0x7FF0000000000000 != 0x7FF0000000000000

/-- `undefined`, a function or a symbol. -/
def isOmitted : JsValue → Bool
  | undefined => true
  | _ => false

/-- A digit of `toString(16)`. -/
def hexDigit (n : Nat) : UInt16 := (if n < 10 then 48 + n else 87 + n).toUInt16

/-- `code.toString(16).padStart(4, "0")` for a code unit. -/
def hex4 (code : UInt16) : JsString :=
  [hexDigit (code.toNat / 4096 % 16), hexDigit (code.toNat / 256 % 16),
    hexDigit (code.toNat / 16 % 16), hexDigit (code.toNat % 16)]

/-- The code points that are written with one letter. -/
def singleEscape (code : UInt16) : Option JsString :=
  if code = 0x22 then some (js "\\\"")
  else if code = 0x5c then some (js "\\\\")
  else if code = 0x08 then some (js "\\b")
  else if code = 0x09 then some (js "\\t")
  else if code = 0x0a then some (js "\\n")
  else if code = 0x0c then some (js "\\f")
  else if code = 0x0d then some (js "\\r")
  else none

def quoteCodePoint : JsString → JsString
  | [c] =>
      match singleEscape c with
      | some escape => escape
      | none => if c < 0x20 || isHigh c || isLow c then js "\\u" ++ hex4 c else [c]
  | units => units

/-- `QuoteJSONString`. -/
def quote (s : JsString) : JsString :=
  js "\"" ++ ((codePoints s).flatMap quoteCodePoint ++ js "\"")

variable (fmt : UInt64 → JsString)

mutual

/-- The text of a value that is not `undefined`. -/
def serialize : JsValue → JsString
  | undefined => []
  | null => js "null"
  | bool b => if b then js "true" else js "false"
  | num bits => if isFinite bits then fmt bits else js "null"
  | str s => quote s
  | arr items => js "[" ++ (JsString.join (js ",") (serializeItems items) ++ js "]")
  | obj members => js "\x7b" ++ (JsString.join (js ",") (serializeMembers members) ++ js "\x7d")

def serializeItems : List JsValue → List JsString
  | [] => []
  | item :: items =>
      (if item.isOmitted then js "null" else serialize item) :: serializeItems items

def serializeMembers : List (JsString × JsValue) → List JsString
  | [] => []
  | (key, item) :: members =>
      if item.isOmitted then serializeMembers members
      else (quote key ++ (js ":" ++ serialize item)) :: serializeMembers members

end

/-- `JSON.stringify(value)`. -/
def stringify (value : JsValue) : Option JsString :=
  if value.isOmitted then none else some (serialize fmt value)

theorem stringify_getD (value : JsValue) : (stringify fmt value).getD [] = serialize fmt value := by
  cases value <;> simp [stringify, isOmitted, serialize]

end JsValue

theorem JsString.join_cons (sep part : JsString) (parts : List JsString) :
    JsString.join sep (part :: parts) = part ++ parts.flatMap (fun next => sep ++ next) := by
  induction parts generalizing part with
  | nil => simp [JsString.join]
  | cons next parts ih =>
    have hnext := ih next
    simp only [JsString.join] at hnext ⊢
    rw [List.intersperse_cons_cons, List.flatten_cons, List.flatten_cons, hnext, List.flatMap_cons,
      List.append_assoc]

/-! ## Bytes in hex -/

def hexByte (b : UInt8) : JsString :=
  [JsValue.hexDigit (b.toNat / 16), JsValue.hexDigit (b.toNat % 16)]

/-- `digest("hex")`. -/
def hex (bytes : List UInt8) : JsString := bytes.flatMap hexByte

theorem hexDigit_mem {n : Nat} (h : n < 16) : JsValue.hexDigit n ∈ js "0123456789abcdef" := by
  have hall : ∀ i : Fin 16, JsValue.hexDigit i.val ∈ js "0123456789abcdef" := by decide
  exact hall ⟨n, h⟩

theorem byte_lt (b : UInt8) : b.toNat / 16 < 16 := by
  have hbound := b.toNat_lt
  omega

theorem not_mem_hex {c : UInt16} (hc : c ∉ js "0123456789abcdef") (bytes : List UInt8) :
    c ∉ hex bytes := by
  intro h
  obtain ⟨b, -, hb⟩ := List.mem_flatMap.mp h
  rcases List.mem_cons.mp hb with rfl | hb
  · exact hc (hexDigit_mem (byte_lt b))
  · rw [List.mem_singleton] at hb
    subst hb
    exact hc (hexDigit_mem (Nat.mod_lt _ (by decide)))

end RedRouter
