import Mathlib.Data.Nat.Bitwise
import Mathlib.Tactic.Ring

/-!
# The protobuf wire format

The model of `utils/cursorAgentProtobuf/wire.ts`: variable-length integers,
tags, length-delimited values, and the walk over the fields of a message.

A `bigint` is a Lean integer, and a `Buffer` is the list of its bytes.  The
tag is packed with the 32-bit shift of the source, which is exact for field
numbers below `2 ^ 28`.  A field number is read back with `Number`, which
rounds only from `2 ^ 53` on; it is exact here.
-/

namespace RedRouter.Utils.ProtobufWire

open List

abbrev Bytes := List UInt8

def wtVarint : Nat := 0

def wtLen : Nat := 2

/-! ## Encoders -/

def encodeVarint (v : Int) : Bytes :=
  if 0x7f < v then UInt8.ofNat ((v.toNat &&& 0x7f) ||| 0x80) :: encodeVarint (v >>> (7 : Nat))
  else [UInt8.ofInt v]
termination_by v.toNat
decreasing_by
  rw [Int.shiftRight_eq_div_pow]
  omega

/-- `encodeTag`, with the shift on 32-bit integers. -/
def encodeTag (fieldNumber wireType : Nat) : Bytes :=
  encodeVarint (BitVec.ofNat 32 fieldNumber <<< 3 ||| BitVec.ofNat 32 wireType).toInt

def encodeBytes (fieldNumber : Nat) (value : Bytes) : Bytes :=
  encodeTag fieldNumber wtLen ++ (encodeVarint value.length ++ value)

def encodeMessage (fieldNumber : Nat) (parts : List Bytes) : Bytes :=
  encodeTag fieldNumber wtLen ++ (encodeVarint parts.flatten.length ++ parts.flatten)

def encodeUInt32Field (fieldNumber : Nat) (value : Int) : Bytes :=
  encodeTag fieldNumber wtVarint ++ encodeVarint value

def encodeBoolField (fieldNumber : Nat) (value : Bool) : Bytes :=
  encodeTag fieldNumber wtVarint ++ encodeVarint (if value then 1 else 0)

/-! ## Decoders -/

/-- The loop of `decodeVarint` over the bytes that are left. -/
def decodeVarintLoop : Bytes → (result shift pos : Nat) → Except String (Nat × Nat)
  | [], _, _, _ => .error "varint truncated"
  | byte :: rest, result, shift, pos =>
      let result := result ||| ((byte.toNat &&& 0x7f) <<< shift)
      if byte.toNat &&& 0x80 = 0 then .ok (result, pos + 1)
      else decodeVarintLoop rest result (shift + 7) (pos + 1)

/-- `decodeVarint`: the value and the position after it. -/
def decodeVarint (buf : Bytes) (offset : Nat) : Except String (Nat × Nat) :=
  decodeVarintLoop (buf.drop offset) 0 0 offset

inductive Field where
  | varint (fieldNumber : Nat) (varint : Nat)
  | bytes (fieldNumber : Nat) (bytes : Bytes)
deriving DecidableEq

def checkedLen (len pos : Nat) (buf : Bytes) : Except String Nat :=
  if (len : Int) > (buf.length : Int) - pos then
    .error ("length-delimited field overruns buffer (len=" ++ toString len ++ ", remaining=" ++
      toString ((buf.length : Int) - pos) ++ ")")
  else .ok len

/-- The loop of `decodeFields`.  Every round reads a byte, so the length of the
buffer is enough fuel. -/
def decodeFieldsLoop (buf : Bytes) : Nat → Nat → List Field → Except String (List Field)
  | 0, _, fields => .ok fields
  | fuel + 1, pos, fields =>
      if pos < buf.length then do
        let (tag, pos) ← decodeVarint buf pos
        let fieldNumber := tag >>> 3
        let wireType := tag &&& 7
        if wireType = wtVarint then
          let (v, pos) ← decodeVarint buf pos
          decodeFieldsLoop buf fuel pos (fields ++ [.varint fieldNumber v])
        else if wireType = wtLen then
          let (len, pos) ← decodeVarint buf pos
          let len ← checkedLen len pos buf
          decodeFieldsLoop buf fuel (pos + len)
            (fields ++ [.bytes fieldNumber ((buf.drop pos).take len)])
        else if wireType = 5 then decodeFieldsLoop buf fuel (pos + 4) fields
        else if wireType = 1 then decodeFieldsLoop buf fuel (pos + 8) fields
        else .error ("unsupported wireType " ++ toString wireType)
      else .ok fields

def decodeFields (buf : Bytes) : Except String (List Field) :=
  decodeFieldsLoop buf buf.length 0 []

/-! ## Variable-length integers -/

theorem and_127 (n : Nat) : n &&& 0x7f = n % 128 := Nat.and_two_pow_sub_one_eq_mod n 7

theorem or_128 {n : Nat} (h : n < 128) : n ||| 0x80 = n + 128 := by
  have hor : 2 ^ 7 * 1 + n = 2 ^ 7 * 1 ||| n := Nat.two_pow_add_eq_or_of_lt h 1
  rw [Nat.or_comm, show (0x80 : Nat) = 2 ^ 7 * 1 from rfl, ← hor]
  omega

theorem and_128_of_lt {n : Nat} (h : n < 128) : n &&& 0x80 = 0 := by
  have hbit := Nat.testBit_lt_two_pow (i := 7) h
  simpa [hbit] using Nat.and_two_pow n 7

theorem and_128_of_le {n : Nat} (hle : 128 ≤ n) (hlt : n < 256) : n &&& 0x80 ≠ 0 := by
  have hbit := Nat.testBit_of_two_pow_le_and_two_pow_add_one_gt (i := 7) hle hlt
  have hand := Nat.and_two_pow n 7
  rw [hbit, Bool.toNat_true] at hand
  rw [show (0x80 : Nat) = 2 ^ 7 from rfl, hand]
  decide

theorem encodeVarint_natCast (n : Nat) : encodeVarint n =
      if 128 ≤ n then UInt8.ofNat (n % 128 + 128) :: encodeVarint (n / 128 : Nat)
      else [UInt8.ofNat n] := by
  rw [encodeVarint]
  by_cases h : 128 ≤ n
  · rw [if_pos (by omega), if_pos h, Int.toNat_natCast, and_127, or_128 (by omega),
      Int.shiftRight_eq_div_pow]
    rfl
  · rw [if_neg (by omega), if_neg h]
    have hbyte : UInt8.ofInt n = UInt8.ofNat n := by
      rw [UInt8.ofInt]
      congr 1
      omega
    rw [hbyte]

theorem encodeVarint_ne_nil (n : Nat) : encodeVarint n ≠ [] := by
  rw [encodeVarint_natCast]
  split <;> simp

/-- Reading on after some bits gives the rest of the number above them. -/
theorem decodeVarintLoop_encode (n : Nat) (rest : Bytes) {result shift : Nat}
    (hresult : result < 2 ^ shift) (pos : Nat) :
    decodeVarintLoop (encodeVarint n ++ rest) result shift pos =
      .ok (result + n * 2 ^ shift, pos + (encodeVarint n).length) := by
  have hor : ∀ low, result ||| low <<< shift = result + low * 2 ^ shift := by
    intro low
    rw [Nat.or_comm, ← Nat.shiftLeft_add_eq_or_of_lt hresult, Nat.shiftLeft_eq, Nat.add_comm]
  induction n using Nat.strongRecOn generalizing result shift pos with
  | ind n ih =>
    rw [encodeVarint_natCast]
    by_cases h : 128 ≤ n
    · have hbyte : (UInt8.ofNat (n % 128 + 128)).toNat = n % 128 + 128 := by
        rw [UInt8.toNat_ofNat']
        omega
      have hlow : (n % 128 + 128) % 128 = n % 128 := by omega
      have hnext : result + n % 128 * 2 ^ shift < 2 ^ (shift + 7) := by
        have hmul : n % 128 * 2 ^ shift ≤ 127 * 2 ^ shift := Nat.mul_le_mul_right _ (by omega)
        rw [Nat.pow_add]
        omega
      rw [if_pos h, cons_append, decodeVarintLoop, hbyte,
        if_neg (and_128_of_le (by omega) (by omega)), and_127, hlow, hor]
      have hrest := ih (n / 128) (by omega) hnext (pos + 1) (fun low => by
        rw [Nat.or_comm, ← Nat.shiftLeft_add_eq_or_of_lt hnext, Nat.shiftLeft_eq, Nat.add_comm])
      rw [hrest]
      have hvalue : result + n % 128 * 2 ^ shift + n / 128 * 2 ^ (shift + 7) =
          result + n * 2 ^ shift := by
        have hdiv := Nat.div_add_mod n 128
        calc result + n % 128 * 2 ^ shift + n / 128 * 2 ^ (shift + 7)
            = result + (128 * (n / 128) + n % 128) * 2 ^ shift := by rw [Nat.pow_add]; ring
          _ = result + n * 2 ^ shift := by rw [hdiv]
      rw [hvalue, length_cons]
      congr 2
      omega
    · have hbyte : (UInt8.ofNat n).toNat = n := by
        rw [UInt8.toNat_ofNat']
        omega
      rw [if_neg h, singleton_append, decodeVarintLoop, hbyte,
        if_pos (and_128_of_lt (by omega)), and_127, Nat.mod_eq_of_lt (by omega), hor]
      rfl

theorem decodeVarint_encode (done : Bytes) (n : Nat) (rest : Bytes) :
    decodeVarint (done ++ (encodeVarint n ++ rest)) done.length =
      .ok (n, done.length + (encodeVarint n).length) := by
  rw [decodeVarint, drop_left, decodeVarintLoop_encode n rest (by simp) done.length]
  simp

/-! ## Fields -/

def Field.encode : Field → Bytes
  | .varint fieldNumber v => encodeUInt32Field fieldNumber v
  | .bytes fieldNumber value => encodeBytes fieldNumber value

def Field.fieldNumber : Field → Nat
  | .varint fieldNumber _ => fieldNumber
  | .bytes fieldNumber _ => fieldNumber

theorem encodeTag_eq (fieldNumber : Nat) {wireType : Nat} (hfield : fieldNumber < 2 ^ 28)
    (hwire : wireType < 8) :
    encodeTag fieldNumber wireType = encodeVarint (fieldNumber * 8 + wireType : Nat) := by
  have hpacked : (BitVec.ofNat 32 fieldNumber <<< 3 ||| BitVec.ofNat 32 wireType).toNat =
      fieldNumber * 8 + wireType := by
    have hor := Nat.shiftLeft_add_eq_or_of_lt (i := 3) hwire fieldNumber
    rw [Nat.shiftLeft_eq] at hor
    rw [BitVec.toNat_or, BitVec.toNat_shiftLeft, BitVec.toNat_ofNat, BitVec.toNat_ofNat,
      Nat.mod_eq_of_lt (a := fieldNumber) (by omega), Nat.mod_eq_of_lt (a := wireType) (by omega),
      Nat.shiftLeft_eq, Nat.mod_eq_of_lt (by omega), ← hor]
  rw [encodeTag, BitVec.toInt_eq_toNat_of_lt (by omega), hpacked]

theorem tag_fieldNumber (fieldNumber : Nat) {wireType : Nat} (hwire : wireType < 8) :
    (fieldNumber * 8 + wireType) >>> 3 = fieldNumber := by
  omega

theorem tag_wireType (fieldNumber : Nat) {wireType : Nat} (hwire : wireType < 8) :
    (fieldNumber * 8 + wireType) &&& 7 = wireType := by
  have hmod := Nat.and_two_pow_sub_one_eq_mod (fieldNumber * 8 + wireType) 3
  simp only [Nat.reducePow, Nat.reduceSub] at hmod
  omega

theorem encode_ne_nil {field : Field} (h : field.fieldNumber < 2 ^ 28) : field.encode ≠ [] := by
  cases field with
  | varint fieldNumber v =>
    have htag := encodeTag_eq fieldNumber h (show wtVarint < 8 by decide)
    simp [Field.encode, encodeUInt32Field, encodeVarint_ne_nil]
  | bytes fieldNumber value =>
    have htag := encodeTag_eq fieldNumber h (show wtLen < 8 by decide)
    simp [Field.encode, encodeBytes, encodeVarint_ne_nil]

theorem decodeVarint_encodeTag (fieldNumber : Nat) {wireType : Nat} (hfield : fieldNumber < 2 ^ 28)
    (hwire : wireType < 8) (done rest : Bytes) :
    decodeVarint (done ++ (encodeTag fieldNumber wireType ++ rest)) done.length =
      .ok (fieldNumber * 8 + wireType, (done ++ encodeTag fieldNumber wireType).length) := by
  rw [encodeTag_eq fieldNumber hfield hwire, decodeVarint_encode, length_append]

section Rounds

variable {buf : Bytes} {pos pos' pos'' fieldNumber fuel : Nat} {fields : List Field}

theorem decodeFieldsLoop_varint {v : Nat} (hpos : pos < buf.length)
    (htag : decodeVarint buf pos = .ok (fieldNumber * 8 + wtVarint, pos'))
    (hvalue : decodeVarint buf pos' = .ok (v, pos'')) :
    decodeFieldsLoop buf (fuel + 1) pos fields =
      decodeFieldsLoop buf fuel pos'' (fields ++ [.varint fieldNumber v]) := by
  have hwire := tag_wireType fieldNumber (show wtVarint < 8 by decide)
  have hfield := tag_fieldNumber fieldNumber (show wtVarint < 8 by decide)
  rw [decodeFieldsLoop, if_pos hpos, htag]
  simp [bind, Except.bind, hwire, hfield, hvalue]

theorem decodeFieldsLoop_bytes {len : Nat} (hpos : pos < buf.length)
    (htag : decodeVarint buf pos = .ok (fieldNumber * 8 + wtLen, pos'))
    (hlen : decodeVarint buf pos' = .ok (len, pos'')) (hfits : pos'' + len ≤ buf.length) :
    decodeFieldsLoop buf (fuel + 1) pos fields = decodeFieldsLoop buf fuel (pos'' + len)
        (fields ++ [.bytes fieldNumber ((buf.drop pos'').take len)]) := by
  have hwire := tag_wireType fieldNumber (show wtLen < 8 by decide)
  have hfield := tag_fieldNumber fieldNumber (show wtLen < 8 by decide)
  have hchecked : checkedLen len pos'' buf = .ok len := by
    rw [checkedLen, if_neg (by omega)]
  rw [decodeFieldsLoop, if_pos hpos, htag]
  simp [bind, Except.bind, hwire, hfield, hlen, hchecked,
    if_neg (show ¬ wtLen = wtVarint by decide)]

end Rounds

theorem decodeFieldsLoop_encode {field : Field} (h : field.fieldNumber < 2 ^ 28)
    (done rest : Bytes) (fuel : Nat) (fields : List Field) :
    decodeFieldsLoop (done ++ (field.encode ++ rest)) (fuel + 1) done.length fields =
      decodeFieldsLoop (done ++ (field.encode ++ rest)) fuel (done ++ field.encode).length
        (fields ++ [field]) := by
  have hpos : done.length < (done ++ (field.encode ++ rest)).length := by
    have := length_pos_iff.mpr (encode_ne_nil h)
    simp only [length_append]
    omega
  cases field with
  | varint fieldNumber v =>
    have hread := decodeVarint_encodeTag fieldNumber h (show wtVarint < 8 by decide) done
      (encodeVarint v ++ rest)
    have hvalue := decodeVarint_encode (done ++ encodeTag fieldNumber wtVarint) v rest
    have hbuf : done ++ ((Field.varint fieldNumber v).encode ++ rest) =
        done ++ (encodeTag fieldNumber wtVarint ++ (encodeVarint v ++ rest)) := by
      simp [Field.encode, encodeUInt32Field]
    rw [append_assoc, ← hbuf] at hvalue
    rw [← hbuf] at hread
    rw [decodeFieldsLoop_varint hpos hread hvalue]
    congr 1
    simp only [Field.encode, encodeUInt32Field, length_append]
    omega
  | bytes fieldNumber value =>
    have hread := decodeVarint_encodeTag fieldNumber h (show wtLen < 8 by decide) done
      (encodeVarint value.length ++ (value ++ rest))
    have hlen := decodeVarint_encode (done ++ encodeTag fieldNumber wtLen) value.length
      (value ++ rest)
    have hbuf : done ++ ((Field.bytes fieldNumber value).encode ++ rest) =
        done ++ (encodeTag fieldNumber wtLen ++
          (encodeVarint value.length ++ (value ++ rest))) := by
      simp [Field.encode, encodeBytes]
    have hvalue : ((done ++ ((Field.bytes fieldNumber value).encode ++ rest)).drop
        ((done ++ encodeTag fieldNumber wtLen).length +
          (encodeVarint value.length).length)).take value.length = value := by
      rw [hbuf, ← append_assoc done, ← drop_drop, drop_left, drop_left, take_left]
    rw [append_assoc, ← hbuf] at hlen
    rw [← hbuf] at hread
    rw [decodeFieldsLoop_bytes hpos hread hlen, hvalue]
    · congr 1
      simp only [Field.encode, encodeBytes, length_append]
      omega
    · rw [hbuf]
      simp only [length_append]
      omega

theorem decodeFieldsLoop_run (rest : List Field) (h : ∀ field ∈ rest, field.fieldNumber < 2 ^ 28)
    (done : Bytes) (fuel : Nat) (hfuel : rest.length ≤ fuel) (fields : List Field) :
    decodeFieldsLoop (done ++ rest.flatMap Field.encode) fuel done.length fields =
      .ok (fields ++ rest) := by
  induction rest generalizing done fuel fields with
  | nil =>
    cases fuel with
    | zero => simp [decodeFieldsLoop]
    | succ fuel => simp [decodeFieldsLoop]
  | cons field rest ih =>
    cases fuel with
    | zero => simp at hfuel
    | succ fuel =>
      simp only [length_cons] at hfuel
      rw [flatMap_cons, decodeFieldsLoop_encode (h field mem_cons_self), ← append_assoc,
        ih (fun f hf => h f (mem_cons_of_mem _ hf)) _ fuel (by omega), append_assoc]
      rfl

theorem length_le_encode {fields : List Field} (h : ∀ field ∈ fields, field.fieldNumber < 2 ^ 28) :
    fields.length ≤ (fields.flatMap Field.encode).length := by
  induction fields with
  | nil => simp
  | cons field fields ih =>
    have hpos := length_pos_iff.mpr (encode_ne_nil (h field mem_cons_self))
    have hrest := ih (fun f hf => h f (mem_cons_of_mem _ hf))
    rw [flatMap_cons, length_append, length_cons]
    omega

/-- The fields that were written are read back, in order and unchanged. -/
theorem decodeFields_encode (fields : List Field)
    (h : ∀ field ∈ fields, field.fieldNumber < 2 ^ 28) :
    decodeFields (fields.flatMap Field.encode) = .ok fields := by
  have hrun := decodeFieldsLoop_run fields h [] (fields.flatMap Field.encode).length
    (length_le_encode h) []
  exact hrun

/-- Two fields, one with a number above `2 ^ 32`. -/
theorem decodeFields_encode_large :
    decodeFields ([Field.varint 3 (2 ^ 40 + 5), Field.bytes 268435455 [1, 255]].flatMap
      Field.encode) = .ok [Field.varint 3 (2 ^ 40 + 5), Field.bytes 268435455 [1, 255]] := by
  apply decodeFields_encode
  intro field hfield
  simp only [mem_cons, not_mem_nil, or_false] at hfield
  rcases hfield with rfl | rfl
  all_goals decide

/-- A field whose number `encodeTag` writes exactly. -/
abbrev WireField := {field : Field // field.fieldNumber < 2 ^ 28}

def encodeAll (fields : List WireField) : Bytes := (fields.map Subtype.val).flatMap Field.encode

end RedRouter.Utils.ProtobufWire
