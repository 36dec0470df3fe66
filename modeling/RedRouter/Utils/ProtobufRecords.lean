import RedRouter.Utils.ProtobufWire

/-!
# What `decodeFields` accepts

A message is a row of records: a tag and the payload of its wire type.  `Complete` says
this of the bytes alone, without a position or a buffer.

The varint and the length-delimited payloads are tested against the end of the buffer, and
those of fixed size are not.  So what `decodeFields` accepts are the complete messages, and
those that end within a payload of fixed size (`decodeFields_ok_iff`).  No message is both
(`Complete.not_truncated`), since the bytes tell where each record ends (`record_unique`).
-/

namespace RedRouter.Utils.ProtobufWire

open List

/-! ## Records -/

/-- The bytes of a number: all but the last one have the continuation bit. -/
inductive Varint : Bytes → Nat → Prop where
  | last {byte : UInt8} (h : byte.toNat < 128) : Varint [byte] byte.toNat
  | more {byte : UInt8} {rest : Bytes} {v : Nat} (h : 128 ≤ byte.toNat) (hrest : Varint rest v) :
      Varint (byte :: rest) (byte.toNat % 128 + 128 * v)

/-- The payload of a wire type. -/
inductive Payload : Nat → Bytes → Prop where
  | varint {bs : Bytes} {v : Nat} (h : Varint bs v) : Payload wtVarint bs
  | fixed64 {bs : Bytes} (h : bs.length = 8) : Payload 1 bs
  | lengthDelimited {size bs : Bytes} (h : Varint size bs.length) : Payload wtLen (size ++ bs)
  | fixed32 {bs : Bytes} (h : bs.length = 4) : Payload 5 bs

/-- A tag, and a payload of its wire type. -/
inductive Record : Bytes → Prop where
  | intro {tag payload : Bytes} {t : Nat} (htag : Varint tag t) (h : Payload (t % 8) payload) :
      Record (tag ++ payload)

def Complete (buf : Bytes) : Prop :=
  ∃ records : List Bytes, (∀ r ∈ records, Record r) ∧ buf = records.flatten

/-- Fewer bytes than the fixed size of the wire type. -/
def Short (wireType : Nat) (payload : Bytes) : Prop :=
  (wireType = 1 ∧ payload.length < 8) ∨ (wireType = 5 ∧ payload.length < 4)

/-- Complete records, and then one that ends within a payload of fixed size. -/
def TruncatedFixed (buf : Bytes) : Prop :=
  ∃ done tag payload t, buf = done ++ (tag ++ payload) ∧ Complete done ∧ Varint tag t ∧
    Short (t % 8) payload

/-! ## Where a record ends -/

theorem Varint.ne_nil {bs : Bytes} {v : Nat} (h : Varint bs v) : bs ≠ [] := by
  cases h with
  | last _ => exact cons_ne_nil _ _
  | more _ _ => exact cons_ne_nil _ _

theorem varint_unique {a a' b b' : Bytes} {v v' : Nat} (h : Varint a v) (h' : Varint a' v')
    (heq : a ++ b = a' ++ b') : a = a' ∧ v = v' ∧ b = b' := by
  induction h generalizing a' v' with
  | last hbyte =>
    cases h' with
    | last _ =>
      obtain ⟨rfl, rfl⟩ := List.cons.inj heq
      exact ⟨rfl, rfl, rfl⟩
    | more hbyte' _ =>
      obtain ⟨rfl, -⟩ := List.cons.inj heq
      omega
  | more hbyte _ ih =>
    cases h' with
    | last hbyte' =>
      obtain ⟨rfl, -⟩ := List.cons.inj heq
      omega
    | more _ hrest' =>
      obtain ⟨rfl, hrest⟩ := List.cons.inj heq
      obtain ⟨rfl, rfl, rfl⟩ := ih hrest' hrest
      exact ⟨rfl, rfl, rfl⟩

theorem payload_unique {wireType : Nat} {a a' b b' : Bytes} (h : Payload wireType a)
    (h' : Payload wireType a') (heq : a ++ b = a' ++ b') : a = a' ∧ b = b' := by
  cases h with
  | varint hv =>
    cases h' with
    | varint hv' =>
      obtain ⟨ha, -, hb⟩ := varint_unique hv hv' heq
      exact ⟨ha, hb⟩
  | fixed64 hlength =>
    cases h' with
    | fixed64 hlength' => exact append_inj heq (hlength.trans hlength'.symm)
  | lengthDelimited hsize =>
    cases h' with
    | lengthDelimited hsize' =>
      rw [append_assoc, append_assoc] at heq
      obtain ⟨rfl, hlength, hrest⟩ := varint_unique hsize hsize' heq
      obtain ⟨rfl, rfl⟩ := append_inj hrest hlength
      exact ⟨rfl, rfl⟩
  | fixed32 hlength =>
    cases h' with
    | fixed32 hlength' => exact append_inj heq (hlength.trans hlength'.symm)

theorem record_unique {r r' rest rest' : Bytes} (h : Record r) (h' : Record r')
    (heq : r ++ rest = r' ++ rest') : r = r' ∧ rest = rest' := by
  obtain ⟨htag, hpayload⟩ := h
  obtain ⟨htag', hpayload'⟩ := h'
  rw [append_assoc, append_assoc] at heq
  obtain ⟨rfl, rfl, heq⟩ := varint_unique htag htag' heq
  obtain ⟨rfl, rfl⟩ := payload_unique hpayload hpayload' heq
  exact ⟨rfl, rfl⟩

theorem Short.not_payload {wireType : Nat} {short payload rest : Bytes} (h : Short wireType short)
    (hpayload : Payload wireType payload) (heq : short = payload ++ rest) : False := by
  have hlength := congrArg List.length heq
  rw [length_append] at hlength
  rcases h with ⟨rfl, hshort⟩ | ⟨rfl, hshort⟩
  all_goals
    cases hpayload
    omega

/-! ## Messages -/

theorem complete_nil : Complete [] := ⟨[], fun _ hr => absurd hr not_mem_nil, rfl⟩

theorem complete_iff {buf : Bytes} :
    Complete buf ↔ buf = [] ∨ ∃ r rest, buf = r ++ rest ∧ Record r ∧ Complete rest := by
  constructor
  · rintro ⟨records, hrecords, rfl⟩
    cases records with
    | nil => exact Or.inl rfl
    | cons r records =>
      exact Or.inr ⟨r, records.flatten, rfl, hrecords r mem_cons_self, records,
        fun q hq => hrecords q (mem_cons_of_mem r hq), rfl⟩
  · rintro (rfl | ⟨r, rest, rfl, hr, records, hrecords, rfl⟩)
    · exact complete_nil
    · refine ⟨r :: records, fun q hq => ?_, rfl⟩
      rcases mem_cons.mp hq with rfl | hq
      · exact hr
      · exact hrecords q hq

theorem truncatedFixed_iff {buf : Bytes} : TruncatedFixed buf ↔
      (∃ tag payload t, buf = tag ++ payload ∧ Varint tag t ∧ Short (t % 8) payload) ∨
        ∃ r rest, buf = r ++ rest ∧ Record r ∧ TruncatedFixed rest := by
  constructor
  · rintro ⟨done, tag, payload, t, rfl, hdone, htag, hshort⟩
    rcases complete_iff.mp hdone with rfl | ⟨r, rest, rfl, hr, hrest⟩
    · exact Or.inl ⟨tag, payload, t, rfl, htag, hshort⟩
    · exact Or.inr ⟨r, rest ++ (tag ++ payload), append_assoc _ _ _, hr, rest, tag, payload, t,
        rfl, hrest, htag, hshort⟩
  · rintro (⟨tag, payload, t, rfl, htag, hshort⟩ |
      ⟨r, rest, rfl, hr, done, tag, payload, t, rfl, hdone, htag, hshort⟩)
    · exact ⟨[], tag, payload, t, rfl, complete_nil, htag, hshort⟩
    · exact ⟨r ++ done, tag, payload, t, (append_assoc _ _ _).symm,
        complete_iff.mpr (Or.inr ⟨r, done, rfl, hr, hdone⟩), htag, hshort⟩

theorem Complete.not_truncated {buf : Bytes} (h : Complete buf) : ¬ TruncatedFixed buf := by
  obtain ⟨records, hrecords, rfl⟩ := h
  induction records with
  | nil =>
    rintro ⟨done, tag, payload, t, hnil, -, htag, -⟩
    have htagnil := (append_eq_nil_iff.mp (append_eq_nil_iff.mp hnil.symm).2).1
    exact htag.ne_nil htagnil
  | cons r records ih =>
    intro htruncated
    have hr := hrecords r mem_cons_self
    rw [List.flatten_cons] at htruncated
    rcases truncatedFixed_iff.mp htruncated with
      ⟨tag, payload, t, heq, htag, hshort⟩ | ⟨r', rest, heq, hr', hrest⟩
    · obtain ⟨htag', hpayload⟩ := hr
      rw [append_assoc] at heq
      obtain ⟨rfl, rfl, heq⟩ := varint_unique htag' htag heq
      exact hshort.not_payload hpayload heq.symm
    · obtain ⟨rfl, rfl⟩ := record_unique hr hr' heq
      exact ih (fun q hq => hrecords q (mem_cons_of_mem r hq)) hrest

/-! ## What is written -/

/-! ## What is accepted -/

def Accepted (buf : Bytes) : Prop := Complete buf ∨ TruncatedFixed buf

theorem accepted_iff {buf : Bytes} :
    Accepted buf ↔ buf = [] ∨ (∃ r rest, buf = r ++ rest ∧ Record r ∧ Accepted rest) ∨
      ∃ tag payload t, buf = tag ++ payload ∧ Varint tag t ∧ Short (t % 8) payload := by
  constructor
  · rintro (h | h)
    · rcases complete_iff.mp h with rfl | ⟨r, rest, rfl, hr, hrest⟩
      · exact Or.inl rfl
      · exact Or.inr (Or.inl ⟨r, rest, rfl, hr, Or.inl hrest⟩)
    · rcases truncatedFixed_iff.mp h with hshort | ⟨r, rest, rfl, hr, hrest⟩
      · exact Or.inr (Or.inr hshort)
      · exact Or.inr (Or.inl ⟨r, rest, rfl, hr, Or.inr hrest⟩)
  · rintro (rfl | ⟨r, rest, rfl, hr, hrest | hrest⟩ | hshort)
    · exact Or.inl complete_nil
    · exact Or.inl (complete_iff.mpr (Or.inr ⟨r, rest, rfl, hr, hrest⟩))
    · exact Or.inr (truncatedFixed_iff.mpr (Or.inr ⟨r, rest, rfl, hr, hrest⟩))
    · exact Or.inr (truncatedFixed_iff.mpr (Or.inl hshort))

def AcceptedAfter (wireType : Nat) (tail : Bytes) : Prop :=
  (wireType = wtVarint ∧ ∃ bs v rest, tail = bs ++ rest ∧ Varint bs v ∧ Accepted rest) ∨
    (wireType = wtLen ∧ ∃ size len rest, tail = size ++ rest ∧ Varint size len ∧
      len ≤ rest.length ∧ Accepted (rest.drop len)) ∨
    (wireType = 5 ∧ Accepted (tail.drop 4)) ∨ (wireType = 1 ∧ Accepted (tail.drop 8))

theorem accepted_fixed {wireType size : Nat} {tail : Bytes}
    (hpayload : ∀ {bs : Bytes}, bs.length = size → Payload wireType bs)
    (hshort : tail.length < size → Short wireType tail) {tag : Bytes} {t : Nat}
    (htag : Varint tag t) (ht : t % 8 = wireType) (h : Accepted (tail.drop size)) :
    Accepted (tag ++ tail) := by
  by_cases hlength : size ≤ tail.length
  · refine accepted_iff.mpr (Or.inr (Or.inl ⟨tag ++ tail.take size, tail.drop size, ?_, ?_, h⟩))
    · rw [append_assoc, take_append_drop]
    · exact Record.intro htag (ht ▸ hpayload (length_take_of_le hlength))
  · exact accepted_iff.mpr (Or.inr (Or.inr ⟨tag, tail, t, rfl, htag, ht ▸ hshort (by omega)⟩))

theorem accepted_tag_iff {tag tail : Bytes} {t : Nat} (htag : Varint tag t) :
    Accepted (tag ++ tail) ↔ AcceptedAfter (t % 8) tail := by
  constructor
  · intro h
    rcases accepted_iff.mp h with hnil | ⟨r, rest, heq, hr, hrest⟩ |
      ⟨tag', payload, t', heq, htag', hshort⟩
    · exact absurd (append_eq_nil_iff.mp hnil).1 htag.ne_nil
    · obtain ⟨htag', hpayload⟩ := hr
      rw [append_assoc] at heq
      obtain ⟨rfl, rfl, rfl⟩ := varint_unique htag htag' heq
      generalize t % 8 = wireType at hpayload
      cases hpayload with
      | varint hv => exact Or.inl ⟨rfl, _, _, rest, rfl, hv, hrest⟩
      | fixed64 hlength =>
        refine Or.inr (Or.inr (Or.inr ⟨rfl, ?_⟩))
        rw [← hlength, drop_left]
        exact hrest
      | @lengthDelimited size bs hsize =>
        refine Or.inr (Or.inl ⟨rfl, size, bs.length, bs ++ rest, append_assoc _ _ _, hsize, ?_, ?_⟩)
        · rw [length_append]
          exact Nat.le_add_right _ _
        · rw [drop_left]
          exact hrest
      | fixed32 hlength =>
        refine Or.inr (Or.inr (Or.inl ⟨rfl, ?_⟩))
        rw [← hlength, drop_left]
        exact hrest
    · obtain ⟨rfl, rfl, rfl⟩ := varint_unique htag htag' heq
      rcases hshort with ⟨hwire, hlength⟩ | ⟨hwire, hlength⟩
      · refine Or.inr (Or.inr (Or.inr ⟨hwire, ?_⟩))
        rw [drop_of_length_le (by omega)]
        exact Or.inl complete_nil
      · refine Or.inr (Or.inr (Or.inl ⟨hwire, ?_⟩))
        rw [drop_of_length_le (by omega)]
        exact Or.inl complete_nil
  · rintro (⟨hwire, bs, v, rest, rfl, hv, hrest⟩ |
      ⟨hwire, size, len, rest, rfl, hsize, hlen, hrest⟩ | ⟨hwire, hrest⟩ | ⟨hwire, hrest⟩)
    · refine accepted_iff.mpr (Or.inr (Or.inl ⟨tag ++ bs, rest, ?_, ?_, hrest⟩))
      · exact (append_assoc _ _ _).symm
      · exact Record.intro htag (hwire ▸ Payload.varint hv)
    · have hpayload : Payload wtLen (size ++ rest.take len) :=
        Payload.lengthDelimited (by rw [length_take_of_le hlen]; exact hsize)
      refine accepted_iff.mpr
        (Or.inr (Or.inl ⟨tag ++ (size ++ rest.take len), rest.drop len, ?_, ?_, hrest⟩))
      · simp
      · exact Record.intro htag (hwire ▸ hpayload)
    · exact accepted_fixed Payload.fixed32 (fun h => Or.inr ⟨rfl, h⟩) htag hwire hrest
    · exact accepted_fixed Payload.fixed64 (fun h => Or.inl ⟨rfl, h⟩) htag hwire hrest

/-! ## The decoder -/

theorem decodeVarintLoop_ok_iff {rest : Bytes} {result shift pos v pos' : Nat}
    (hresult : result < 2 ^ shift) :
    decodeVarintLoop rest result shift pos = .ok (v, pos') ↔
      ∃ bs n tail, rest = bs ++ tail ∧ Varint bs n ∧ v = result + n * 2 ^ shift ∧
        pos' = pos + bs.length := by
  induction rest generalizing result shift pos with
  | nil =>
    constructor
    · intro h
      cases h
    · rintro ⟨bs, n, tail, hnil, hbs, -⟩
      exact absurd (append_eq_nil_iff.mp hnil.symm).1 hbs.ne_nil
  | cons byte rest ih =>
    have hor : result ||| (byte.toNat % 128) <<< shift = result + byte.toNat % 128 * 2 ^ shift := by
      rw [Nat.or_comm, ← Nat.shiftLeft_add_eq_or_of_lt hresult, Nat.shiftLeft_eq, Nat.add_comm]
    rw [decodeVarintLoop, and_127]
    simp only [hor]
    by_cases hbyte : byte.toNat < 128
    · rw [if_pos (and_128_of_lt hbyte), Nat.mod_eq_of_lt hbyte]
      constructor
      · intro h
        cases h
        exact ⟨[byte], byte.toNat, rest, rfl, Varint.last hbyte, rfl, rfl⟩
      · rintro ⟨bs, n, tail, heq, hbs, rfl, rfl⟩
        cases hbs with
        | last _ =>
          obtain ⟨rfl, -⟩ := List.cons.inj heq
          rfl
        | more hle _ =>
          obtain ⟨rfl, -⟩ := List.cons.inj heq
          omega
    · have hnext : result + byte.toNat % 128 * 2 ^ shift < 2 ^ (shift + 7) := by
        have hmul : byte.toNat % 128 * 2 ^ shift ≤ 127 * 2 ^ shift :=
          Nat.mul_le_mul_right _ (by omega)
        rw [Nat.pow_add]
        omega
      have hvalue : ∀ n, result + byte.toNat % 128 * 2 ^ shift + n * 2 ^ (shift + 7) =
          result + (byte.toNat % 128 + 128 * n) * 2 ^ shift := by
        intro n
        ring
      rw [if_neg (and_128_of_le (by omega) byte.toNat_lt), ih hnext]
      constructor
      · rintro ⟨bs, n, tail, rfl, hbs, rfl, rfl⟩
        refine ⟨byte :: bs, _, tail, rfl, Varint.more (by omega) hbs, hvalue n, ?_⟩
        rw [length_cons]
        omega
      · rintro ⟨bs, n, tail, heq, hbs, rfl, rfl⟩
        cases hbs with
        | last hlt =>
          obtain ⟨rfl, -⟩ := List.cons.inj heq
          omega
        | @more _ bs n _ hbs =>
          obtain ⟨rfl, rfl⟩ := List.cons.inj heq
          refine ⟨bs, n, tail, rfl, hbs, (hvalue n).symm, ?_⟩
          rw [length_cons]
          omega

theorem decodeVarint_ok_iff {buf : Bytes} {pos v pos' : Nat} :
    decodeVarint buf pos = .ok (v, pos') ↔
      ∃ bs tail, buf.drop pos = bs ++ tail ∧ Varint bs v ∧ pos' = pos + bs.length := by
  rw [decodeVarint, decodeVarintLoop_ok_iff (Nat.one_pos)]
  constructor
  · rintro ⟨bs, n, tail, hdrop, hbs, rfl, rfl⟩
    rw [Nat.zero_add, Nat.pow_zero, Nat.mul_one]
    exact ⟨bs, tail, hdrop, hbs, rfl⟩
  · rintro ⟨bs, tail, hdrop, hbs, rfl⟩
    exact ⟨bs, v, tail, hdrop, hbs, by rw [Nat.zero_add, Nat.pow_zero, Nat.mul_one], rfl⟩

theorem and_7 (n : Nat) : n &&& 7 = n % 8 := Nat.and_two_pow_sub_one_eq_mod n 3

theorem decodeVarint_cases (buf : Bytes) (pos : Nat) :
    (∃ bs v tail, buf.drop pos = bs ++ tail ∧ Varint bs v ∧
        decodeVarint buf pos = .ok (v, pos + bs.length) ∧
        buf.drop (pos + bs.length) = tail) ∨
      (∃ message, decodeVarint buf pos = .error message) ∧
        ∀ bs v tail, buf.drop pos = bs ++ tail → ¬ Varint bs v := by
  cases h : decodeVarint buf pos with
  | ok read =>
    obtain ⟨v, pos'⟩ := read
    obtain ⟨bs, tail, hdrop, hbs, rfl⟩ := decodeVarint_ok_iff.mp h
    refine Or.inl ⟨bs, v, tail, hdrop, hbs, rfl, ?_⟩
    rw [← drop_drop, hdrop, drop_left]
  | error message =>
    refine Or.inr ⟨⟨message, rfl⟩, fun bs v tail hdrop hbs => ?_⟩
    have hok := decodeVarint_ok_iff.mpr ⟨bs, tail, hdrop, hbs, rfl⟩
    rw [h] at hok
    cases hok

section Loop

variable {buf : Bytes} {fuel pos : Nat} {fields : List Field}

/-- The loop ends without an error. -/
def LoopOk (buf : Bytes) (fuel pos : Nat) (fields : List Field) : Prop :=
  ∃ out, decodeFieldsLoop buf fuel pos fields = .ok out

theorem loopOk_tag_iff {tag tail : Bytes} {t : Nat} (hpos : pos < buf.length)
    (hread : decodeVarint buf pos = .ok (t, pos + tag.length))
    (htail : buf.drop (pos + tag.length) = tail)
    (ih : ∀ pos' fields', pos + tag.length ≤ pos' →
      (LoopOk buf fuel pos' fields' ↔ Accepted (buf.drop pos'))) :
    LoopOk buf (fuel + 1) pos fields ↔ AcceptedAfter (t % 8) tail := by
  have hdrop : ∀ n, buf.drop (pos + tag.length + n) = tail.drop n := by
    intro n
    rw [← drop_drop, htail]
  have hloop : ∀ out, decodeFieldsLoop buf (fuel + 1) pos fields = .ok out ↔
      (if t % 8 = wtVarint then
        decodeVarint buf (pos + tag.length) >>= fun next =>
        decodeFieldsLoop buf fuel next.2 (fields ++ [.varint (t >>> 3) next.1])
      else if t % 8 = wtLen then
        decodeVarint buf (pos + tag.length) >>= fun next =>
        checkedLen next.1 next.2 buf >>= fun len =>
        decodeFieldsLoop buf fuel (next.2 + len)
          (fields ++ [.bytes (t >>> 3) ((buf.drop next.2).take len)])
      else if t % 8 = 5 then decodeFieldsLoop buf fuel (pos + tag.length + 4) fields
      else if t % 8 = 1 then decodeFieldsLoop buf fuel (pos + tag.length + 8) fields
      else .error ("unsupported wireType " ++ toString (t % 8))) = .ok out := by
    intro out
    rw [decodeFieldsLoop, if_pos hpos, hread]
    simp [bind, Except.bind, and_7]
  unfold LoopOk
  simp only [hloop]
  generalize t % 8 = wireType
  by_cases h0 : wireType = wtVarint
  · subst h0
    simp only [AcceptedAfter, true_and, show ¬ wtVarint = wtLen by decide,
      show ¬ wtVarint = 5 by decide, show ¬ wtVarint = 1 by decide, false_and, or_false]
    rcases decodeVarint_cases buf (pos + tag.length) with
      ⟨bs, v, rest, hbs, hv, hread', hrest⟩ | ⟨⟨message, herror⟩, hnone⟩
    · simp only [hread']
      refine (ih _ _ (Nat.le_add_right _ _)).trans ?_
      rw [hrest]
      constructor
      · intro h
        exact ⟨bs, v, rest, htail.symm.trans hbs, hv, h⟩
      · rintro ⟨bs', v', rest', heq, hv', h⟩
        obtain ⟨-, -, rfl⟩ := varint_unique hv hv' (hbs.symm.trans (htail.trans heq))
        exact h
    · simp only [herror]
      constructor
      · rintro ⟨out, hout⟩
        cases hout
      · rintro ⟨bs, v, rest, heq, hv, -⟩
        exact absurd hv (hnone bs v rest (htail.trans heq))
  by_cases h2 : wireType = wtLen
  · subst h2
    simp only [AcceptedAfter, true_and, h0, show ¬ wtLen = 5 by decide, show ¬ wtLen = 1 by decide,
      false_and, or_false, false_or]
    rcases decodeVarint_cases buf (pos + tag.length) with
      ⟨size, len, rest, hsize, hlen, hread', hrest⟩ | ⟨⟨message, herror⟩, hnone⟩
    · have hlength : rest.length = buf.length - (pos + tag.length + size.length) := by
        rw [← hrest, length_drop]
      have hsplit := htail.symm.trans hsize
      have hend : pos + tag.length + size.length ≤ buf.length := by
        have htotal := congrArg List.length hsize
        rw [length_append, length_drop] at htotal
        have hpositive := length_pos_iff.mpr hlen.ne_nil
        omega
      simp only [hread', bind, Except.bind, checkedLen]
      by_cases hfits : len ≤ rest.length
      · simp only [if_neg (show ¬ (len : Int) >
          (buf.length : Int) - (pos + tag.length + size.length : Nat) by omega)]
        refine (ih _ _ (by omega)).trans ?_
        rw [← drop_drop, hrest]
        constructor
        · intro h
          exact ⟨size, len, rest, hsplit, hlen, hfits, h⟩
        · rintro ⟨size', len', rest', heq, hlen', -, h⟩
          obtain ⟨-, rfl, rfl⟩ := varint_unique hlen hlen' (hsplit.symm.trans heq)
          exact h
      · simp only [if_pos (show (len : Int) >
          (buf.length : Int) - (pos + tag.length + size.length : Nat) by omega)]
        constructor
        · rintro ⟨out, hout⟩
          cases hout
        · rintro ⟨size', len', rest', heq, hlen', hfits', -⟩
          obtain ⟨-, rfl, rfl⟩ := varint_unique hlen hlen' (hsplit.symm.trans heq)
          exact absurd hfits' hfits
    · simp only [herror]
      constructor
      · rintro ⟨out, hout⟩
        cases hout
      · rintro ⟨size, len, rest, heq, hlen, -⟩
        exact absurd hlen (hnone size len rest (htail.trans heq))
  by_cases h5 : wireType = 5
  · subst h5
    simp only [AcceptedAfter, true_and, h0, h2, show ¬ (5 : Nat) = 1 by decide, false_and, or_false,
      false_or]
    rw [← hdrop]
    exact ih _ _ (Nat.le_add_right _ _)
  by_cases h1 : wireType = 1
  · subst h1
    simp only [AcceptedAfter, true_and, h0, h2, h5, false_and, false_or]
    rw [← hdrop]
    exact ih _ _ (Nat.le_add_right _ _)
  · simp only [AcceptedAfter, h0, h2, h5, h1, false_and, or_self, iff_false]
    rintro ⟨out, hout⟩
    cases hout

theorem loopOk_iff (hfuel : buf.length - pos ≤ fuel) :
    LoopOk buf fuel pos fields ↔ Accepted (buf.drop pos) := by
  induction fuel generalizing pos fields with
  | zero =>
    rw [drop_of_length_le (by omega)]
    exact iff_of_true ⟨fields, rfl⟩ (Or.inl complete_nil)
  | succ fuel ih =>
    by_cases hpos : pos < buf.length
    · rcases decodeVarint_cases buf pos with
        ⟨tag, t, tail, hdrop, htag, hread, htail⟩ | ⟨⟨message, herror⟩, hnone⟩
      · have hpositive := length_pos_iff.mpr htag.ne_nil
        rw [hdrop, accepted_tag_iff htag]
        exact loopOk_tag_iff hpos hread htail fun pos' fields' hle => ih (by omega)
      · refine iff_of_false ?_ ?_
        · rintro ⟨out, hout⟩
          rw [decodeFieldsLoop, if_pos hpos, herror] at hout
          cases hout
        · intro h
          rcases accepted_iff.mp h with hnil | ⟨r, rest, heq, hr, -⟩ |
            ⟨tag, payload, t, heq, htag, -⟩
          · rw [drop_eq_nil_iff] at hnil
            omega
          · obtain ⟨htag, -⟩ := hr
            rw [append_assoc] at heq
            exact hnone _ _ _ heq htag
          · exact hnone _ _ _ heq htag
    · rw [drop_of_length_le (by omega)]
      refine iff_of_true ⟨fields, ?_⟩ (Or.inl complete_nil)
      rw [decodeFieldsLoop, if_neg hpos]

end Loop

/-- The complete messages are accepted, and those that end within a payload of fixed size. -/
theorem decodeFields_ok_iff (buf : Bytes) :
    (∃ fields, decodeFields buf = .ok fields) ↔ Complete buf ∨ TruncatedFixed buf := by
  have hloop : LoopOk buf buf.length 0 [] ↔ Accepted (buf.drop 0) := loopOk_iff (by omega)
  exact hloop

/-- A success tells a complete message, unless the bytes end within a payload of fixed size. -/
theorem decodeFields_complete_iff (buf : Bytes) :
    ((∃ fields, decodeFields buf = .ok fields) ↔ Complete buf) ↔ ¬ TruncatedFixed buf := by
  rw [decodeFields_ok_iff]
  constructor
  · intro h htruncated
    exact (h.mp (Or.inr htruncated)).not_truncated htruncated
  · intro h
    exact or_iff_left h

/-- A tag of the wire type 5, without its four bytes. -/
theorem decodeFields_truncated :
    ¬ ((∃ fields, decodeFields [0x0d] = .ok fields) ↔ Complete [0x0d]) := by
  have htag : Varint [0x0d] 13 := Varint.last (by decide)
  have htruncated : TruncatedFixed [0x0d] :=
    ⟨[], [0x0d], [], 13, rfl, complete_nil, htag, Or.inr ⟨rfl, by decide⟩⟩
  intro h
  exact (h.mp ⟨[], rfl⟩).not_truncated htruncated

end RedRouter.Utils.ProtobufWire
