import Mathlib.Algebra.Group.Nat.Defs
import RedRouter.Response.ToolNames
import RedRouter.Lib.Regex

/-!
# Shims for tool arguments

The model of `translator/helpers/toolCallShim.ts`: the arguments of two tools
are corrected once they are complete.  Numbers are the bit patterns of
doubles, as in `Json`.
-/

namespace RedRouter.Response.ToolCallShim

open Regex

/-! ## Numbers -/

/-- The double nearest to a natural number, ties to even. -/
def doubleOfNat (n : Nat) : UInt64 :=
  if n = 0 then 0
  else
    let e := n.log2
    let significand :=
      if e ≤ 52 then n <<< (52 - e)
      else
        let q := n >>> (e - 52)
        let r := n % 2 ^ (e - 52)
        let half := 2 ^ (e - 53)
        if r > half ∨ (r = half ∧ q % 2 = 1) then q + 1 else q
    -- A significand that has grown to 2^53 carries into the exponent.
    let bits := ((e + 1022) <<< 52) + significand
    (min bits 0x7FF0000000000000).toUInt64

/-- The value of a text of decimal digits. -/
def natOfDigits (digits : JsString) : Nat :=
  digits.foldl (fun n c => 10 * n + (c.toNat - (unit '0').toNat)) 0

/-- The order of doubles that are not NaN. -/
def doubleKey (bits : UInt64) : Int :=
  let magnitude : Int := (bits &&& 0x7FFFFFFFFFFFFFFF).toNat
  if bits ≥ 0x8000000000000000 then -magnitude else magnitude

def readMaxLimit : UInt64 := doubleOfNat 2000

/-- `/^\d+$/`. -/
def isDigits (text : JsString) : Bool := !text.isEmpty && text.all isDigit

/-- `Number(text)` for a text that matches `/^\d+$/`. -/
def limitNumber (text : JsString) : Option UInt64 :=
  if isDigits text then some (doubleOfNat (natOfDigits text)) else none

/-- `Number(text)` for a text that matches `/^-?\d+$/`. -/
def offsetNumber (text : JsString) : Option UInt64 :=
  match text with
  | c :: digits =>
      if c == unit '-' then
        if isDigits digits then some (doubleOfNat (natOfDigits digits) ||| 0x8000000000000000)
        else none
      else limitNumber (c :: digits)
  | [] => none

/-! ## The shims -/

def coerceNumber (read : JsString → Option UInt64) : Json → Json
  | .str text =>
      match read text with
      | some bits => .num bits
      | none => .str text
  | value => value

def isValidPdfPagesArg (ctx : NameContext) (filePath pages : Option Json) : Bool :=
  match filePath.bind Json.str?, pages.bind Json.str? with
  | some path, some pages =>
      JsString.endsWith (ctx.toLowerCase path) (js ".pdf") &&
        match JsString.indexOf (js "-") pages with
        | none => isDigits pages
        | some dash => isDigits (pages.take dash) && isDigits (pages.drop (dash + 1))
  | _, _ => false

/-- The member of a key after a change that may drop it. -/
def update (key : JsString) (f : Json → Option Json) (args : JsMap JsString Json) :
    JsMap JsString Json :=
  match JsMap.get key args with
  | none => args
  | some value =>
      match f value with
      | some value => JsMap.set key value args
      | none => JsMap.delete key args

/-- The checks of `limit`. -/
def cleanLimit (value : Json) : Option Json :=
  match coerceNumber limitNumber value with
  | .num bits =>
      if doubleKey bits > doubleKey readMaxLimit then some (.num readMaxLimit)
      else if doubleKey bits < doubleKey (doubleOfNat 1) then none
      else some (.num bits)
  | value => some value

/-- The checks of `offset`. -/
def cleanOffset (value : Json) : Option Json :=
  match coerceNumber offsetNumber value with
  | .num bits => if doubleKey bits < 0 then some (.num 0) else some (.num bits)
  | value => some value

def sanitizeReadArgs (ctx : NameContext) (args : JsMap JsString Json) : JsMap JsString Json :=
  let args := update (js "offset") cleanOffset (update (js "limit") cleanLimit args)
  update (js "pages") (fun pages =>
      if isValidPdfPagesArg ctx (JsMap.get (js "file_path") args) (some pages) then some pages
      else none)
    args

def coerceToArray (codec : JsonCodec) : Option Json → Json
  | some (.arr items) => .arr items
  | some (.str (c :: cs)) =>
      match codec.parse (c :: cs) with
      | some (.arr items) => .arr items
      | _ => .arr []
  | _ => .arr []

/-- The keys of `TOOL_SHIMS`. -/
inductive Shim where
  | read
  | submitPrReview

def Shim.key : Shim → JsString
  | read => js "Read"
  | submitPrReview => js "submit_pr_review"

def Shim.apply (codec : JsonCodec) (ctx : NameContext) (shim : Shim) : Json → Json
  | .obj members =>
      match shim with
      | read => .obj (sanitizeReadArgs ctx members)
      | submitPrReview =>
          .obj ([js "functionalChanges", js "findings"].foldl (fun patched key =>
              JsMap.set key (coerceToArray codec (JsMap.get key patched)) patched)
            members)
  | input => input

def resolveToolCallShim (ctx : NameContext) (name : JsString) : Option Shim :=
  if name.isEmpty then none
  else
    let shims := [Shim.read, Shim.submitPrReview]
    match shims.find? fun shim => shim.key == name with
    | some shim => some shim
    | none => shims.find? fun shim => ctx.toLowerCase shim.key == ctx.toLowerCase name

def hasToolCallShim (ctx : NameContext) (name : JsString) : Bool :=
  (resolveToolCallShim ctx name).isSome

def applyToolCallShimToBuffer (codec : JsonCodec) (ctx : NameContext) (name raw : JsString) :
    JsString :=
  match resolveToolCallShim ctx name with
  | none => raw
  | some shim =>
      let parsed := if raw.isEmpty then .obj [] else (codec.parse raw).getD (.obj [])
      codec.stringify (shim.apply codec ctx parsed)

example : doubleOfNat 2000 = 0x409F400000000000 := by decide

end RedRouter.Response.ToolCallShim
