import RedRouter.Network.LiteralDecode

/-!
# The IP filter

`matchesCIDR` compares two IPv4 addresses under a mask of 32 bits.  The mask is
made with a shift, and JavaScript takes the count of a shift modulo 32.  So the
comparison is about the first `bits` bits for every length from 1 to 32, and for
the length 0 it is about all of them (`matchesCIDR_iff`).

`prefixMask` of the WireGuard schemas is the same mask, with a test for the length 0
(`matchesMask_prefixMask_iff`).
-/

namespace RedRouter.Network

open List JsString AddressBlocks

/-! ## The program -/

/-- `parseInt(text, 10)`, with `none` for `NaN`. -/
def parseDecimal (text : JsString) : Option Int :=
  match trimStart text with
  | [] => none
  | sign :: digits =>
      if sign = unit '-' then (parseInt 10 digits).map fun n => -(n : Int)
      else if sign = unit '+' then (parseInt 10 digits).map fun n => (n : Int)
      else (parseInt 10 (sign :: digits)).map fun n => (n : Int)

/-- `value << count`. -/
def shl (value : BitVec 32) (count : Nat) : BitVec 32 := value <<< (count % 32)

def ipToNum (ip : JsString) : Option (BitVec 32) :=
  let parts := ip.splitOn (unit '.')
  if parts.length ≠ 4 then none
  else
    parts.foldlM (fun num p =>
      match parseDecimal p with
      | none => none
      | some n => if n < 0 ∨ n > 255 then none else some (shl num 8 ||| BitVec.ofInt 32 n)) 0

/-- `(ipNum & maskBits) === (rangeNum & maskBits)` -/
def matchesMask (maskBits ipNum rangeNum : BitVec 32) : Bool :=
  ipNum &&& maskBits == rangeNum &&& maskBits

def matchesCIDR (ip cidr : JsString) : Bool :=
  match cidr.splitOn (unit '/') with
  | range :: bits :: _ =>
      match parseDecimal bits with
      | none => false
      | some mask =>
          if mask < 0 ∨ mask > 32 then false
          else
            match ipToNum ip, ipToNum range with
            | some ipNum, some rangeNum => matchesMask (shl (-1) (32 - mask).toNat) ipNum rangeNum
            | _, _ => false
  | _ => false -- without a `/` the bits are `undefined`, and `parseInt` is `NaN`

/-- The mask of `wireguardSchemas.ts`. -/
def prefixMask (length : Nat) : BitVec 32 :=
  if length = 0 then 0 else shl 0xffffffff (32 - length)

/-! ## Numbers -/

theorem parseDecimal_ofNat (n : Fin 256) : parseDecimal (ofNat n.val) = some (n.val : Int) := by
  have hall : ∀ n : Fin 256, parseDecimal (ofNat n.val) = some (n.val : Int) := by decide +kernel
  exact hall n

theorem shl_or (n : Nat) (d : Fin 256) :
    shl (BitVec.ofNat 32 n) 8 ||| BitVec.ofInt 32 (d.val : Int) =
      BitVec.ofNat 32 (256 * n + d.val) := by
  have hshift : shl (BitVec.ofNat 32 n) 8 = BitVec.ofNat 32 (n <<< 8) := by
    rw [shl, BitVec.shiftLeft_eq_mul_twoPow, Nat.shiftLeft_eq, BitVec.ofNat_mul]
    rfl
  rw [hshift, BitVec.ofInt_natCast, ← BitVec.ofNat_or,
    ← Nat.shiftLeft_add_eq_or_of_lt (by exact d.isLt), Nat.shiftLeft_eq, Nat.mul_comm]

variable (v : Ipv4Address)

theorem number_eq : v.number = 256 * (256 * (256 * (256 * 0 + v.a.val) + v.b) + v.c) + v.d := by
  rw [Ipv4Address.number, Ipv4Address.groups, ofGroups_cons, ofGroups_singleton]
  simp only [length_singleton]
  omega

theorem number_lt : v.number < 2 ^ 32 := by
  rw [number_eq]
  omega

theorem ipToNum_text : ipToNum v.text = some (BitVec.ofNat 32 v.number) := by
  have hpart : ∀ d : Fin 256, ¬ ((d.val : Int) < 0 ∨ (d.val : Int) > 255) := by
    intro d
    omega
  rw [ipToNum, splitOn_ipv4, number_eq]
  simp only [foldlM_cons, parseDecimal_ofNat, if_neg (hpart _)]
  simp only [← shl_or]
  rfl

/-! ## Masks -/

theorem matchesMask_ones_iff {x y : BitVec 32} {k : Nat} (hk : k < 32) :
    matchesMask (shl (-1) k) x y = true ↔ x.toNat / 2 ^ k = y.toNat / 2 ^ k := by
  have hones : shl (-1) k = BitVec.allOnes 32 <<< k := by
    rw [shl, Nat.mod_eq_of_lt hk]
    rfl
  rw [matchesMask, beq_iff_eq, hones, ← BitVec.shiftLeft_ushiftRight,
    ← BitVec.shiftLeft_ushiftRight, ← Nat.shiftRight_eq_div_pow, ← Nat.shiftRight_eq_div_pow,
    ← BitVec.toNat_ushiftRight, ← BitVec.toNat_ushiftRight, BitVec.toNat_inj]
  constructor
  · intro h
    apply BitVec.eq_of_getLsbD_eq
    intro i hi
    have hbit := congrArg (fun z => z.getLsbD (k + i)) h
    by_cases hlow : k + i < 32
    · simpa [hlow] using hbit
    · simp [Nat.le_of_not_lt hlow]
  · intro h
    rw [h]

theorem matchesMask_allOnes_iff {x y : BitVec 32} : matchesMask (-1) x y = true ↔ x = y := by
  have hones : (-1 : BitVec 32) = BitVec.allOnes 32 := rfl
  rw [matchesMask, beq_iff_eq, hones, BitVec.and_allOnes, BitVec.and_allOnes]

theorem toNat_number : (BitVec.ofNat 32 v.number).toNat = v.number := by
  rw [BitVec.toNat_ofNat, Nat.mod_eq_of_lt (number_lt v)]

variable (w : Ipv4Address)

theorem matchesMask_shl_iff {length : Nat} (h : length ≤ 32) :
    matchesMask (shl (-1) (32 - length)) (BitVec.ofNat 32 v.number) (BitVec.ofNat 32 w.number) =
        true ↔
      if length = 0 then v.number = w.number else InBlock 32 w.number length v.number := by
  split
  · rename_i hzero
    subst hzero
    have hmask : shl (-1) (32 - 0) = -1 := by decide
    rw [hmask, matchesMask_allOnes_iff, ← BitVec.toNat_inj, toNat_number, toNat_number]
  · rw [matchesMask_ones_iff (by omega), toNat_number, toNat_number, InBlock]

theorem inBlock_zero : InBlock 32 w.number 0 v.number := by
  rw [InBlock, Nat.div_eq_of_lt (number_lt v), Nat.div_eq_of_lt (number_lt w)]

theorem matchesMask_prefixMask_iff (length : Fin 33) :
    matchesMask (prefixMask length) (BitVec.ofNat 32 v.number) (BitVec.ofNat 32 w.number) = true ↔
      InBlock 32 w.number length v.number := by
  unfold prefixMask
  split
  · rename_i hzero
    rw [hzero]
    refine iff_of_true ?_ (inBlock_zero v w)
    rw [matchesMask, beq_iff_eq]
    exact BitVec.and_zero.trans BitVec.and_zero.symm
  · rename_i hlength
    have hones : (0xffffffff : BitVec 32) = -1 := by decide
    rw [hones, matchesMask_shl_iff v w (by omega), if_neg hlength]

/-! ## Texts -/

/-- A network with its prefix length. -/
def cidrText (bits : Nat) : JsString := w.text ++ js "/" ++ ofNat bits

theorem slash_not_mem_ipv4 : unit '/' ∉ w.text := by
  have hdigits : ∀ n : Nat, unit '/' ∉ ofNat n := fun n => not_mem_ofNat (by decide)
  have hdot : unit '/' ∉ js "." := by decide
  simp [Ipv4Address.text, hdigits, hdot]

theorem splitOn_cidr (bits : Nat) :
    (cidrText w bits).splitOn (unit '/') = [w.text, ofNat bits] := by
  have htext : cidrText w bits = w.text ++ unit '/' :: ofNat bits := by
    rw [cidrText, append_assoc]
    rfl
  rw [htext, splitOn_append_cons_self_of_not_mem (slash_not_mem_ipv4 w),
    splitOn_eq_singleton (not_mem_ofNat (by decide))]

theorem matchesCIDR_text (bits : Fin 33) : matchesCIDR v.text (cidrText w bits) =
      matchesMask (shl (-1) (32 - bits)) (BitVec.ofNat 32 v.number) (BitVec.ofNat 32 w.number) := by
  have hbits : parseDecimal (ofNat bits.val) = some (bits.val : Int) :=
    parseDecimal_ofNat ⟨bits, by omega⟩
  have hrange : ¬ ((bits.val : Int) < 0 ∨ (bits.val : Int) > 32) := by omega
  have hcount : (32 - (bits.val : Int)).toNat = 32 - bits.val := by omega
  unfold matchesCIDR
  rw [splitOn_cidr]
  simp only [hbits, if_neg hrange, ipToNum_text, hcount]

/-- A match is about the first `bits` bits, unless `bits` is 0 and the addresses differ. -/
theorem matchesCIDR_iff (v w : Ipv4Address) (bits : Fin 33) :
    (matchesCIDR v.text (cidrText w bits) = true ↔ InBlock 32 w.number bits v.number) ↔
      bits.val ≠ 0 ∨ v.number = w.number := by
  rw [matchesCIDR_text, matchesMask_shl_iff v w (by omega)]
  split
  · rename_i hzero
    rw [hzero, iff_true_right (inBlock_zero v w), or_iff_right (not_not_intro rfl)]
  · rename_i hlength
    exact iff_of_true Iff.rfl (Or.inl hlength)

/-- `0.0.0.0/0` does not match `10.0.0.1`. -/
theorem not_matchesCIDR_zero : ¬ (matchesCIDR (js "10.0.0.1") (js "0.0.0.0/0") = true ↔
        InBlock 32 (Ipv4Address.number ⟨0, 0, 0, 0⟩) 0 (Ipv4Address.number ⟨10, 0, 0, 1⟩)) ∧
      Ipv4Address.text ⟨10, 0, 0, 1⟩ = js "10.0.0.1" ∧
      cidrText ⟨0, 0, 0, 0⟩ 0 = js "0.0.0.0/0" := by
  decide

end RedRouter.Network
