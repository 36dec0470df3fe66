import RedRouter.Lib.JsString

/-!
# JSON values

The values that `JSON.parse` returns.  A number is the bit pattern of its
IEEE 754 double, so that two values are equal exactly when the source's
values are, up to the sign of zero and the payload of a NaN.  An object keeps
its members in insertion order.

`JSON.parse` and `JSON.stringify` themselves are the two fields of
`JsonCodec`.  A definition that parses or prints takes the codec as an
argument, and what is proved of it holds for every codec.
-/

namespace RedRouter

/-- A JSON value. -/
inductive Json where
  | null
  | bool (b : Bool)
  | num (bits : UInt64)
  | str (s : JsString)
  | arr (items : List Json)
  | obj (members : List (JsString × Json))

namespace Json

/-- The zeros and the NaNs are the falsy numbers. -/
def numTruthy (bits : UInt64) : Bool :=
  let magnitude := bits &&& 0x7FFFFFFFFFFFFFFF
  magnitude != 0 && magnitude ≤ 0x7FF0000000000000

/-- `Boolean(v)`. -/
def truthy : Json → Bool
  | null => false
  | bool b => b
  | num bits => numTruthy bits
  | str s => !s.isEmpty
  | arr _ => true
  | obj _ => true

/-- `v.key` of a value that is not `null`, with `none` for `undefined`.  Only
an object has members of its own. -/
def get? (key : JsString) : Json → Option Json
  | obj members => (members.find? (fun m => m.1 == key)).map Prod.snd
  | _ => none

def str? : Json → Option JsString
  | str s => some s
  | _ => none

/-- `a || b` on two properties that may be missing. -/
def orElse (a b : Option Json) : Option Json :=
  if (a.map truthy).getD false then a else b

end Json

/-- `JSON.parse`, with `none` for a `SyntaxError`, and `JSON.stringify`.  The
empty text is not a JSON text. -/
structure JsonCodec where
  parse : JsString → Option Json
  stringify : Json → JsString
  parse_nil : parse [] = none

theorem JsonCodec.parse_nil_of_none : (fun _ : JsString => (none : Option Json)) [] = none := rfl

end RedRouter
