import RedRouter.Lib.CodePoints

/-!
# The decoder of UTF-8

`TextDecoder` takes its bytes in chunks and keeps the bytes of a code point
that is not complete.  `decode` is one fold over the bytes, so that the chunks
play no part.  A byte that cannot come next ends the code point under way with
U+FFFD, and a byte order mark is dropped at the beginning.

`decode_utf8` reads a text back that has no lone surrogate.
-/

namespace RedRouter

open List Bool

/-- `needed` bytes of the code point under way are missing, the next of them
from `lower` to `upper`; `scalar` is what the bytes before them give. -/
structure Utf8Decoder where
  started : Bool := false
  scalar : Nat := 0
  needed : Nat := 0
  lower : Nat := 0x80
  upper : Nat := 0xBF
deriving DecidableEq

/-- The code units of a scalar value. -/
def utf16Scalar (n : Nat) : JsString :=
  if n < 0x10000 then [n.toUInt16]
  else [(0xD800 + (n - 0x10000) / 0x400).toUInt16, (0xDC00 + (n - 0x10000) % 0x400).toUInt16]

namespace Utf8Decoder

def emit (d : Utf8Decoder) (n : Nat) : Utf8Decoder × JsString :=
  ({ started := true }, if !d.started && n == 0xFEFF then [] else utf16Scalar n)

/-- The first byte of a code point. -/
def first (d : Utf8Decoder) (b : Nat) : Utf8Decoder × JsString :=
  if b < 0x80 then d.emit b
  else if 0xC2 ≤ b ∧ b ≤ 0xDF then
    ({ started := d.started, scalar := b - 0xC0, needed := 1 }, [])
  else if 0xE0 ≤ b ∧ b ≤ 0xEF then
    ({ started := d.started, scalar := b - 0xE0, needed := 2
       lower := if b = 0xE0 then 0xA0 else 0x80
       upper := if b = 0xED then 0x9F else 0xBF }, [])
  else if 0xF0 ≤ b ∧ b ≤ 0xF4 then
    ({ started := d.started, scalar := b - 0xF0, needed := 3
       lower := if b = 0xF0 then 0x90 else 0x80
       upper := if b = 0xF4 then 0x8F else 0xBF }, [])
  else d.emit 0xFFFD

def step (d : Utf8Decoder) (byte : UInt8) : Utf8Decoder × JsString :=
  let b := byte.toNat
  if d.needed = 0 then d.first b
  else if d.lower ≤ b ∧ b ≤ d.upper then
    let scalar := d.scalar * 64 + (b - 0x80)
    if d.needed = 1 then d.emit scalar
    else ({ started := d.started, scalar := scalar, needed := d.needed - 1 }, [])
  else
    -- the byte is looked at again, as the first one of the next code point
    let (d', out) := d.emit 0xFFFD
    let (d'', out') := d'.first b
    (d'', out ++ out')

/-- `decoder.decode(bytes, { stream: true })`. -/
def decode (d : Utf8Decoder) : List UInt8 → Utf8Decoder × JsString
  | [] => (d, [])
  | b :: bytes =>
      let (d', out) := d.step b
      let (d'', rest) := d'.decode bytes
      (d'', out ++ rest)

/-- What the end of the bytes adds. -/
def flush (d : Utf8Decoder) : JsString := if d.needed = 0 then [] else [0xFFFD]

/-- `new TextDecoder().decode(bytes)`. -/
def decodeAll (bytes : List UInt8) : JsString :=
  let (d, out) := decode {} bytes
  out ++ d.flush

variable {d : Utf8Decoder}

theorem decode_cons (b : UInt8) (bytes : List UInt8) : d.decode (b :: bytes) =
      (((d.step b).1.decode bytes).1, (d.step b).2 ++ ((d.step b).1.decode bytes).2) :=
  rfl

theorem decode_append (bytes more : List UInt8) : d.decode (bytes ++ more) =
      (((d.decode bytes).1.decode more).1,
        (d.decode bytes).2 ++ ((d.decode bytes).1.decode more).2) := by
  induction bytes generalizing d with
  | nil => rfl
  | cons b bytes ih =>
    rw [cons_append, decode_cons, ih, decode_cons, append_assoc]

/-- The code units of a prefix of the bytes are a prefix of the code units. -/
theorem decode_prefix {bytes all : List UInt8} (h : bytes <+: all) :
    (d.decode bytes).2 <+: (d.decode all).2 := by
  obtain ⟨more, rfl⟩ := h
  rw [decode_append]
  exact prefix_append _ _

/-! ## What was encoded is read back -/

/-- A code point that is not a surrogate. -/
def IsScalar (n : Nat) : Prop := n < 0xD800 ∨ 0xE000 ≤ n ∧ n < 0x110000

theorem toNat_toUInt8 {n : Nat} (h : n < 0x100) : n.toUInt8.toNat = n := by
  exact Nat.mod_eq_of_lt h

theorem step_tail {b : Nat} (hb : b < 0x100) (hlower : d.lower ≤ b) (hupper : b ≤ d.upper)
    (hneeded : 1 < d.needed) :
    d.step b.toUInt8 =
      ({ started := d.started, scalar := d.scalar * 64 + (b - 0x80), needed := d.needed - 1 },
        []) := by
  unfold step
  simp only [toNat_toUInt8 hb]
  rw [if_neg (by omega), if_pos ⟨hlower, hupper⟩, if_neg (by omega)]

theorem step_last {b : Nat} (hb : b < 0x100) (hlower : d.lower ≤ b) (hupper : b ≤ d.upper)
    (hneeded : d.needed = 1) : d.step b.toUInt8 = d.emit (d.scalar * 64 + (b - 0x80)) := by
  unfold step
  simp only [toNat_toUInt8 hb]
  rw [if_neg (by omega), if_pos ⟨hlower, hupper⟩, if_pos hneeded]

theorem step_first {b : Nat} (hb : b < 0x100) (hready : d.needed = 0) :
    d.step b.toUInt8 = d.first b := by
  unfold step
  simp only [toNat_toUInt8 hb]
  rw [if_pos hready]

theorem emit_eq {d' : Utf8Decoder} {m n : Nat} (hstarted : d'.started = d.started) (h : m = n) :
    d'.emit m = d.emit n := by
  unfold emit
  rw [hstarted, h]

theorem decode_silent {b : UInt8} {d' : Utf8Decoder} (h : d.step b = (d', []))
    (bytes : List UInt8) :
    d.decode (b :: bytes) = d'.decode bytes := by
  rw [decode_cons, h]
  rfl

theorem decode_single (b : UInt8) : d.decode [b] = d.step b := by
  show ((d.step b).1, (d.step b).2 ++ []) = d.step b
  rw [append_nil]

theorem decode_two {n : Nat} (hlow : 0x80 ≤ n) (hhigh : n < 0x800) (hready : d.needed = 0) :
    d.decode [(0xC0 + n / 64).toUInt8, (0x80 + n % 64).toUInt8] = d.emit n := by
  have hfirst : d.step (0xC0 + n / 64).toUInt8 =
      ({ started := d.started, scalar := n / 64, needed := 1 }, []) := by
    rw [step_first (by omega) hready]
    unfold first
    rw [if_neg (by omega), if_pos (by omega), Nat.add_sub_cancel_left]
  rw [decode_silent hfirst, decode_single,
    step_last (by omega) (by show 0x80 ≤ _; omega) (by show _ ≤ 0xBF; omega) rfl]
  refine emit_eq rfl ?_
  show n / 64 * 64 + (0x80 + n % 64 - 0x80) = n
  omega

theorem decode_three {n : Nat} (hn : IsScalar n) (hlow : 0x800 ≤ n) (hhigh : n < 0x10000)
    (hready : d.needed = 0) :
    d.decode [(0xE0 + n / 4096).toUInt8, (0x80 + n / 64 % 64).toUInt8, (0x80 + n % 64).toUInt8] =
      d.emit n := by
  unfold IsScalar at hn
  have hfirst := step_first (d := d) (b := 0xE0 + n / 4096) (by omega) hready
  unfold first at hfirst
  rw [if_neg (by omega), if_neg (by omega), if_pos (by omega), Nat.add_sub_cancel_left] at hfirst
  rw [decode_silent hfirst]
  have hlower : (if 0xE0 + n / 4096 = 0xE0 then 0xA0 else 0x80) ≤ 0x80 + n / 64 % 64 := by
    split <;> omega
  have hupper : 0x80 + n / 64 % 64 ≤ if 0xE0 + n / 4096 = 0xED then 0x9F else 0xBF := by
    split <;> omega
  rw [decode_silent (step_tail (by omega) hlower hupper (by show 1 < 2; omega)), decode_single,
    step_last (by omega) (by show 0x80 ≤ _; omega) (by show _ ≤ 0xBF; omega) rfl]
  refine emit_eq rfl ?_
  show (n / 4096 * 64 + (0x80 + n / 64 % 64 - 0x80)) * 64 + (0x80 + n % 64 - 0x80) = n
  omega

theorem decode_four {n : Nat} (hlow : 0x10000 ≤ n) (hhigh : n < 0x110000) (hready : d.needed = 0) :
    d.decode [(0xF0 + n / 262144).toUInt8, (0x80 + n / 4096 % 64).toUInt8,
      (0x80 + n / 64 % 64).toUInt8, (0x80 + n % 64).toUInt8] = d.emit n := by
  have hfirst := step_first (d := d) (b := 0xF0 + n / 262144) (by omega) hready
  unfold first at hfirst
  rw [if_neg (by omega), if_neg (by omega), if_neg (by omega), if_pos (by omega),
    Nat.add_sub_cancel_left] at hfirst
  rw [decode_silent hfirst]
  have hlower : (if 0xF0 + n / 262144 = 0xF0 then 0x90 else 0x80) ≤ 0x80 + n / 4096 % 64 := by
    split <;> omega
  have hupper : 0x80 + n / 4096 % 64 ≤ if 0xF0 + n / 262144 = 0xF4 then 0x8F else 0xBF := by
    split <;> omega
  rw [decode_silent (step_tail (by omega) hlower hupper (by show 1 < 3; omega)),
    decode_silent (step_tail (by omega) (by show 0x80 ≤ _; omega) (by show _ ≤ 0xBF; omega)
      (by show 1 < 2; omega)), decode_single,
    step_last (by omega) (by show 0x80 ≤ _; omega) (by show _ ≤ 0xBF; omega) rfl]
  refine emit_eq rfl ?_
  show ((n / 262144 * 64 + (0x80 + n / 4096 % 64 - 0x80)) * 64 + (0x80 + n / 64 % 64 - 0x80)) * 64 +
    (0x80 + n % 64 - 0x80) = n
  omega

theorem decode_utf8Scalar {n : Nat} (hn : IsScalar n) (hready : d.needed = 0) :
    d.decode (utf8Scalar n) = d.emit n := by
  unfold utf8Scalar
  split
  · rename_i hone
    rw [decode_single, step_first (by omega) hready]
    unfold first
    rw [if_pos hone]
  · split
    · exact decode_two (by omega) (by omega) hready
    · split
      · exact decode_three hn (by omega) (by omega) hready
      · refine decode_four (by omega) ?_ hready
        unfold IsScalar at hn
        omega

end Utf8Decoder

/-! ## Texts without lone surrogates -/

open Utf8Decoder

/-- A text of scalar values. -/
def WellFormed (s : JsString) : Prop :=
  ∃ ns : List Nat, (∀ n ∈ ns, IsScalar n) ∧ s = ns.flatMap utf16Scalar

theorem wellFormed_nil : WellFormed [] := ⟨[], by simp, rfl⟩

theorem WellFormed.append {s t : JsString} (hs : WellFormed s) (ht : WellFormed t) :
    WellFormed (s ++ t) := by
  obtain ⟨ns, hns, rfl⟩ := hs
  obtain ⟨ms, hms, rfl⟩ := ht
  refine ⟨ns ++ ms, ?_, flatMap_append.symm⟩
  intro n hn
  exact (mem_append.mp hn).elim (hns n) (hms n)

theorem wellFormed_scalar {n : Nat} (hn : IsScalar n) : WellFormed (utf16Scalar n) :=
  ⟨[n], by simpa using hn, by simp⟩

theorem isHigh_iff {c : UInt16} : isHigh c = true ↔ 0xD800 ≤ c.toNat ∧ c.toNat ≤ 0xDBFF := by
  unfold isHigh
  rw [and_eq_true, decide_eq_true_iff, decide_eq_true_iff, UInt16.le_iff_toNat_le,
    UInt16.le_iff_toNat_le]
  exact Iff.rfl

theorem isLow_iff {c : UInt16} : isLow c = true ↔ 0xDC00 ≤ c.toNat ∧ c.toNat ≤ 0xDFFF := by
  unfold isLow
  rw [and_eq_true, decide_eq_true_iff, decide_eq_true_iff, UInt16.le_iff_toNat_le,
    UInt16.le_iff_toNat_le]
  exact Iff.rfl

theorem toNat_toUInt16 {n : Nat} (h : n < 0x10000) : n.toUInt16.toNat = n := by
  exact Nat.mod_eq_of_lt h

theorem wellFormed_unit {c : UInt16} (hhigh : isHigh c = false) (hlow : isLow c = false) :
    WellFormed [c] := by
  rw [← not_eq_true, isHigh_iff] at hhigh
  rw [← not_eq_true, isLow_iff] at hlow
  have hc : IsScalar c.toNat ∧ c.toNat < 0x10000 := by
    have hmax := UInt16.toNat_lt c
    unfold IsScalar
    omega
  have hunits : utf16Scalar c.toNat = [c] := by
    unfold utf16Scalar
    rw [if_pos hc.2]
    simp
  rw [← hunits]
  exact wellFormed_scalar hc.1

theorem wellFormed_units {s : JsString} (h : ∀ c ∈ s, isHigh c = false ∧ isLow c = false) :
    WellFormed s := by
  induction s with
  | nil => exact wellFormed_nil
  | cons c s ih =>
    obtain ⟨hhigh, hlow⟩ := h c mem_cons_self
    exact (wellFormed_unit hhigh hlow).append (ih fun d hd => h d (mem_cons_of_mem c hd))

theorem wellFormed_pair {c d : UInt16} (hc : isHigh c = true) (hd : isLow d = true) :
    WellFormed [c, d] := by
  rw [isHigh_iff] at hc
  rw [isLow_iff] at hd
  have hunits :
      utf16Scalar (0x10000 + (c.toNat - 0xD800) * 0x400 + (d.toNat - 0xDC00)) = [c, d] := by
    unfold utf16Scalar
    rw [if_neg (by omega)]
    have hfirst : 0xD800 + (0x10000 + (c.toNat - 0xD800) * 0x400 + (d.toNat - 0xDC00) - 0x10000) / 0x400 =
        c.toNat := by omega
    have hsecond : 0xDC00 + (0x10000 + (c.toNat - 0xD800) * 0x400 + (d.toNat - 0xDC00) - 0x10000) % 0x400 =
        d.toNat := by omega
    rw [hfirst, hsecond]
    simp
  rw [← hunits]
  refine wellFormed_scalar ?_
  unfold IsScalar
  omega

theorem whole_utf16Scalar {n : Nat} (hn : IsScalar n) :
    Whole (utf16Scalar n) ∧ utf8 (utf16Scalar n) = utf8Scalar n := by
  unfold IsScalar at hn
  unfold utf16Scalar
  split
  · have hunit : n.toUInt16.toNat = n := toNat_toUInt16 (by omega)
    have hhigh : isHigh n.toUInt16 = false := by
      rw [← not_eq_true, isHigh_iff, hunit]
      omega
    have hlow : isLow n.toUInt16 = false := by
      rw [← not_eq_true, isLow_iff, hunit]
      omega
    refine ⟨whole_unit hhigh, ?_⟩
    simp [utf8, codePoints, utf8CodePoint, hhigh, hlow, hunit]
  · have hc : (0xD800 + (n - 0x10000) / 0x400).toUInt16.toNat = 0xD800 + (n - 0x10000) / 0x400 :=
      toNat_toUInt16 (by omega)
    have hd : (0xDC00 + (n - 0x10000) % 0x400).toUInt16.toNat = 0xDC00 + (n - 0x10000) % 0x400 :=
      toNat_toUInt16 (by omega)
    have hhigh : isHigh (0xD800 + (n - 0x10000) / 0x400).toUInt16 = true := by
      rw [isHigh_iff, hc]
      omega
    have hlow : isLow (0xDC00 + (n - 0x10000) % 0x400).toUInt16 = true := by
      rw [isLow_iff, hd]
      omega
    refine ⟨whole_pair hhigh hlow, ?_⟩
    have hscalar : 0x10000 + (0xD800 + (n - 0x10000) / 0x400 - 0xD800) * 0x400 +
        (0xDC00 + (n - 0x10000) % 0x400 - 0xDC00) = n := by omega
    unfold utf8
    rw [codePoints, if_pos (by rw [hhigh, hlow]; rfl), flatMap_cons, codePoints,
      flatMap_nil, append_nil, utf8CodePoint, hc, hd, hscalar]

theorem utf8_scalars {ns : List Nat} (hns : ∀ n ∈ ns, IsScalar n) :
    utf8 (ns.flatMap utf16Scalar) = ns.flatMap utf8Scalar := by
  induction ns with
  | nil => rfl
  | cons n ns ih =>
    obtain ⟨hwhole, hbytes⟩ := whole_utf16Scalar (hns n mem_cons_self)
    rw [flatMap_cons, flatMap_cons, utf8_whole hwhole, hbytes,
      ih fun m hm => hns m (mem_cons_of_mem n hm)]

/-- The decoder reads an encoded text back once it is past the byte order mark. -/
theorem decode_utf8 {s : JsString} (hs : WellFormed s) :
    ({ started := true } : Utf8Decoder).decode (utf8 s) = ({ started := true }, s) := by
  obtain ⟨ns, hns, rfl⟩ := hs
  rw [utf8_scalars hns]
  induction ns with
  | nil => rfl
  | cons n ns ih =>
    rw [flatMap_cons, flatMap_cons, decode_append, decode_utf8Scalar (hns n mem_cons_self) rfl]
    show ((decode { started := true } (ns.flatMap utf8Scalar)).1,
      utf16Scalar n ++ (decode { started := true } (ns.flatMap utf8Scalar)).2) = _
    rw [ih fun m hm => hns m (mem_cons_of_mem n hm)]

/-! ## A code point under way -/

namespace Utf8Decoder

variable {d : Utf8Decoder}

/-- The code point under way is not ASCII, whatever the bytes are that come next:
from its least to its largest value. -/
def Valid (d : Utf8Decoder) : Prop :=
  d.needed = 0 ∨ 0x80 ≤ d.lower ∧
      (d.needed = 1 ∧ 0x80 ≤ d.scalar * 64 + (d.lower - 0x80) ∧
          d.scalar * 64 + (d.upper - 0x80) < 0x110000 ∨
        d.needed = 2 ∧ 0x80 ≤ (d.scalar * 64 + (d.lower - 0x80)) * 64 ∧
          (d.scalar * 64 + (d.upper - 0x80)) * 64 + 63 < 0x110000 ∨
        d.needed = 3 ∧ 0x80 ≤ ((d.scalar * 64 + (d.lower - 0x80)) * 64) * 64 ∧
          ((d.scalar * 64 + (d.upper - 0x80)) * 64 + 63) * 64 + 63 < 0x110000)

theorem valid_emit (n : Nat) : (d.emit n).1.Valid := .inl rfl

theorem valid_first (b : Nat) : (d.first b).1.Valid := by
  unfold first
  split
  · exact valid_emit b
  · split
    · refine .inr ⟨Nat.le_refl _, .inl ⟨rfl, ?_, ?_⟩⟩
      · show 0x80 ≤ (b - 0xC0) * 64 + (0x80 - 0x80)
        omega
      · show (b - 0xC0) * 64 + (0xBF - 0x80) < 0x110000
        omega
    · split
      · refine .inr ⟨?_, .inr (.inl ⟨rfl, ?_, ?_⟩)⟩
        all_goals
          dsimp only
          split <;> omega
      · split
        · refine .inr ⟨?_, .inr (.inr ⟨rfl, ?_, ?_⟩)⟩
          all_goals
            dsimp only
            split <;> omega
        · exact valid_emit _

theorem emit_head (hstarted : d.started = true) {n : Nat} (hlow : 0x80 ≤ n) (hhigh : n < 0x110000) :
    ∃ c rest, (d.emit n).2 = c :: rest ∧ 0x80 ≤ c.toNat := by
  have hunits : (d.emit n).2 = utf16Scalar n := by
    unfold emit
    rw [hstarted]
    rfl
  rw [hunits]
  unfold utf16Scalar
  split
  · exact ⟨_, _, rfl, by rw [toNat_toUInt16 (by omega)]; exact hlow⟩
  · exact ⟨_, _, rfl, by rw [toNat_toUInt16 (by omega)]; omega⟩

/-- A byte of a code point under way leaves it under way, or units come out that
do not begin with ASCII. -/
theorem step_pending (hvalid : d.Valid) (hpending : d.needed ≠ 0) (byte : UInt8) :
    (∃ d', d.step byte = (d', []) ∧ d'.started = d.started ∧ d'.Valid ∧ d'.needed ≠ 0) ∨
      (d.step byte).1.Valid ∧
        (d.started = true → ∃ c rest, (d.step byte).2 = c :: rest ∧ 0x80 ≤ c.toNat) := by
  obtain hready | ⟨hlower, hvalue⟩ := hvalid
  · exact absurd hready hpending
  unfold step
  dsimp only
  rw [if_neg hpending]
  split
  · split
    · refine .inr ⟨valid_emit _, fun hstarted => emit_head hstarted ?_ ?_⟩
      all_goals omega
    · refine .inl ⟨_, rfl, rfl, .inr ⟨Nat.le_refl _, ?_⟩, ?_⟩
      all_goals
        dsimp only
        omega
  · refine .inr ⟨valid_first _, fun hstarted => ?_⟩
    obtain ⟨c, rest, hunits, hc⟩ := emit_head hstarted (n := 0xFFFD) (by omega) (by omega)
    rw [hunits]
    exact ⟨c, _, rfl, hc⟩

theorem valid_step (hvalid : d.Valid) (byte : UInt8) : (d.step byte).1.Valid := by
  by_cases hready : d.needed = 0
  · unfold step
    rw [if_pos hready]
    exact valid_first _
  · rcases step_pending hvalid hready byte with ⟨d', hstep, -, hvalid', -⟩ | ⟨hvalid', -⟩
    · rw [hstep]
      exact hvalid'
    · exact hvalid'

/-- The units that a byte gives, of which only the last one can be ASCII. -/
def AsciiLast (out : JsString) : Prop :=
  out = [] ∨ ∃ units c, out = units ++ [c] ∧ ∀ u ∈ units, 0x80 ≤ u.toNat

theorem asciiLast_emit {n : Nat} (hn : n < 0x110000) : AsciiLast (d.emit n).2 := by
  unfold emit
  split
  · exact .inl rfl
  · refine .inr ?_
    unfold utf16Scalar
    split
    · exact ⟨[], _, rfl, fun u hu => absurd hu not_mem_nil⟩
    · refine ⟨[_], _, rfl, fun u hu => ?_⟩
      rw [mem_singleton.mp hu, toNat_toUInt16 (by omega)]
      omega

theorem asciiLast_first (b : Nat) : AsciiLast (d.first b).2 := by
  unfold first
  split
  · exact asciiLast_emit (by omega)
  split
  · exact .inl rfl
  split
  · exact .inl rfl
  split
  · exact .inl rfl
  · exact asciiLast_emit (by omega)

theorem asciiLast_step (hvalid : d.Valid) (byte : UInt8) : AsciiLast (d.step byte).2 := by
  unfold step
  dsimp only
  split
  · exact asciiLast_first _
  rename_i hpending
  obtain hready | ⟨hlower, hvalue⟩ := hvalid
  · exact absurd hready hpending
  split
  · split
    · exact asciiLast_emit (by omega)
    · exact .inl rfl
  · have hout : (d.emit 0xFFFD).2 = [0xFFFD] := by simp [emit, utf16Scalar]
    rw [hout]
    rcases asciiLast_first (d := (d.emit 0xFFFD).1) byte.toNat with hnil | ⟨units, c, hunits, hhigh⟩
    · exact .inr ⟨[], 0xFFFD, by rw [hnil]; rfl, fun u hu => absurd hu not_mem_nil⟩
    · refine .inr ⟨0xFFFD :: units, c, by rw [hunits]; rfl, fun u hu => ?_⟩
      rcases mem_cons.mp hu with rfl | hu
      · decide
      · exact hhigh u hu

theorem valid_decode (hvalid : d.Valid) (bytes : List UInt8) : (d.decode bytes).1.Valid := by
  induction bytes generalizing d with
  | nil => exact hvalid
  | cons b bytes ih =>
    exact ih (valid_step hvalid b)

/-- What comes out after a code point under way does not begin with ASCII. -/
theorem decode_pending (hstarted : d.started = true) (hvalid : d.Valid) (hpending : d.needed ≠ 0)
    (bytes : List UInt8) : ∀ c ∈ (d.decode bytes).2.head?, 0x80 ≤ c.toNat := by
  induction bytes generalizing d with
  | nil =>
    intro c hc
    cases hc
  | cons b bytes ih =>
    rcases step_pending hvalid hpending b with ⟨d', hstep, hstarted', hvalid', hpending'⟩ | ⟨-, hunits⟩
    · rw [decode_silent hstep]
      exact ih (hstarted'.trans hstarted) hvalid' hpending'
    · obtain ⟨c, rest, hout, hc⟩ := hunits hstarted
      rw [decode_cons, hout]
      intro c' hc'
      cases Option.some.inj hc'
      exact hc

theorem step_ascii (hvalid : d.Valid) {b : Nat} (hb : b < 0x80) :
    d.step b.toUInt8 = ({ started := true }, d.flush ++ [b.toUInt16]) := by
  have hemit : ∀ d : Utf8Decoder, d.first b = ({ started := true }, [b.toUInt16]) := by
    intro d
    have hmark : (!d.started && b == 0xFEFF) = false := by
      rw [and_eq_false_iff]
      exact .inr (beq_eq_false_iff_ne.mpr (by omega))
    unfold first emit utf16Scalar
    rw [if_pos hb, hmark, if_pos (show b < 0x10000 by omega)]
    rfl
  unfold step flush
  simp only [toNat_toUInt8 (show b < 0x100 by omega)]
  obtain hready | ⟨hlower, -⟩ := hvalid
  · rw [if_pos hready, if_pos hready]
    exact hemit d
  · by_cases hready : d.needed = 0
    · rw [if_pos hready, if_pos hready]
      exact hemit d
    · rw [if_neg hready, if_neg hready, if_neg (by omega), hemit]
      unfold emit utf16Scalar
      simp

/-- A text that begins with ASCII is read back whatever was read before it. -/
theorem decode_utf8_ascii (hvalid : d.Valid) {c : UInt16} (hc : c.toNat < 0x80) {s : JsString}
    (hs : WellFormed s) :
    d.decode (utf8 (c :: s)) = ({ started := true }, d.flush ++ c :: s) := by
  have hhigh : isHigh c = false := by
    rw [← not_eq_true, isHigh_iff]
    omega
  have hlow : isLow c = false := by
    rw [← not_eq_true, isLow_iff]
    omega
  have hbyte : utf8 [c] = [c.toNat.toUInt8] := by
    simp [utf8, codePoints, utf8CodePoint, utf8Scalar, hhigh, hlow, hc]
  have hunit : c.toNat.toUInt16 = c := by simp
  have hbytes : utf8 (c :: s) = c.toNat.toUInt8 :: utf8 s := by
    rw [show c :: s = [c] ++ s from rfl, utf8_whole (whole_unit hhigh), hbyte]
    rfl
  rw [hbytes, decode_cons, step_ascii hvalid hc, decode_utf8 hs, hunit, append_assoc]
  rfl

theorem started_first (b : Nat) :
    (d.first b).1.started = true ∨ (d.first b).2 = [] ∧ (d.first b).1.started = d.started := by
  unfold first
  split
  · exact .inl rfl
  · split
    · exact .inr ⟨rfl, rfl⟩
    · split
      · exact .inr ⟨rfl, rfl⟩
      · split
        · exact .inr ⟨rfl, rfl⟩
        · exact .inl rfl

theorem started_step (byte : UInt8) : (d.step byte).1.started = true ∨
      (d.step byte).2 = [] ∧ (d.step byte).1.started = d.started := by
  unfold step
  dsimp only
  split
  · exact started_first _
  · split
    · split
      · exact .inl rfl
      · exact .inr ⟨rfl, rfl⟩
    · rcases started_first (d := (d.emit 0xFFFD).1) byte.toNat with hstarted | ⟨-, hstarted⟩
      all_goals exact .inl hstarted

theorem started_decode (bytes : List UInt8) : (d.decode bytes).1.started = true ∨
      (d.decode bytes).2 = [] ∧ (d.decode bytes).1.started = d.started := by
  induction bytes generalizing d with
  | nil => exact .inr ⟨rfl, rfl⟩
  | cons b bytes ih =>
    rw [decode_cons]
    rcases ih (d := (d.step b).1) with hstarted | ⟨hunits, hsame⟩
    · exact .inl hstarted
    · rcases started_step (d := d) b with hstarted | ⟨hstep, hsame'⟩
      · exact .inl (hsame.trans hstarted)
      · refine .inr ⟨?_, hsame.trans hsame'⟩
        rw [hstep, hunits]
        rfl

end Utf8Decoder

end RedRouter
