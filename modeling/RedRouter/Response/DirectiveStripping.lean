import RedRouter.Response.PreambleStripper

/-!
# The directive stripper over a whole stream

A stream is a text cut into chunks.  `strip` gives every chunk to the directive
stripper and flushes it at the end.  It is meant to give the text without the
leading directive (`withoutDirective`), wherever the chunks are cut.

It does so for a text that begins with the directive (`strip_of_beginning`).  Any
other text departs from the directive somewhere, and the stripper gives out
what it has held back together with the whole chunk it is in.  The part of
this chunk that still agreed with the directive is among what was held back,
so it comes out twice (`strip_repeats`).  It is empty exactly when the
departure is at a chunk boundary.
-/

namespace RedRouter.Response.PreambleStripper

open List

namespace DirectiveStripper

def pushAll (s : DirectiveStripper) : List JsString → JsString × DirectiveStripper
  | [] => ([], s)
  | chunk :: chunks =>
      let (out, s) := s.push chunk
      let (rest, s) := s.pushAll chunks
      (out ++ rest, s)

/-- What comes out for the chunks and at the flush. -/
def output (s : DirectiveStripper) (chunks : List JsString) : JsString :=
  let (out, s) := s.pushAll chunks
  out ++ s.flush.1

end DirectiveStripper

def strip (directive : JsString) (chunks : List JsString) : JsString :=
  DirectiveStripper.output { directive := directive } chunks

def withoutDirective (directive text : JsString) : JsString :=
  if text.startsWith directive then text.drop directive.length else text

/-- Whether a chunk ends at the offset, or the first one begins there. -/
def IsBoundary (chunks : List JsString) (offset : Nat) : Prop :=
  ∃ before, before <+: chunks ∧ before.flatten.length = offset

/-! ## Agreement of two texts -/

theorem commonLength_le_left (a b : JsString) : commonLength a b ≤ a.length := by
  induction a generalizing b with
  | nil => simp [commonLength]
  | cons c cs ih =>
    cases b with
    | nil => simp [commonLength]
    | cons d ds =>
      have := ih ds
      simp only [commonLength, length_cons]
      split <;> omega

theorem commonLength_le_right (a b : JsString) : commonLength a b ≤ b.length := by
  induction a generalizing b with
  | nil => simp [commonLength]
  | cons c cs ih =>
    cases b with
    | nil => simp [commonLength]
    | cons d ds =>
      have := ih ds
      simp only [commonLength, length_cons]
      split <;> omega

theorem take_commonLength (a b : JsString) :
    a.take (commonLength a b) = b.take (commonLength a b) := by
  induction a generalizing b with
  | nil => simp [commonLength]
  | cons c cs ih =>
    cases b with
    | nil => simp [commonLength]
    | cons d ds =>
      simp only [commonLength]
      split
      · rename_i heq
        simp [eq_of_beq heq, ih ds]
      · simp

theorem prefix_iff_commonLength (a b : JsString) : a <+: b ↔ commonLength a b = a.length := by
  constructor
  · rintro ⟨rest, rfl⟩
    induction a with
    | nil => simp [commonLength]
    | cons c cs ih => simpa [commonLength] using ih
  · intro h
    have htake := take_commonLength a b
    rw [h, take_length] at htake
    rw [htake]
    exact take_prefix _ _

/-- Two texts agree beyond a common beginning as far as their rests do. -/
theorem commonLength_append (a b rest : JsString) :
    commonLength (a ++ b) (a ++ rest) = a.length + commonLength b rest := by
  induction a with
  | nil => simp
  | cons c cs ih =>
    simp only [cons_append, commonLength, beq_self_eq_true, if_true, length_cons]
    omega

theorem commonLength_of_lt {a b : JsString} (rest : JsString) (ha : commonLength a b < a.length)
    (hb : commonLength a b < b.length) : commonLength a (b ++ rest) = commonLength a b := by
  induction a generalizing b with
  | nil => simp at ha
  | cons c cs ih =>
    cases b with
    | nil => simp at hb
    | cons d ds =>
      simp only [cons_append, commonLength] at ha hb ⊢
      split
      · rename_i heq
        rw [if_pos heq] at ha hb
        simp only [length_cons] at ha hb
        rw [ih (by omega) (by omega)]
      · rfl

/-! ## Boundaries -/

theorem isBoundary_zero (chunks : List JsString) : IsBoundary chunks 0 :=
  ⟨[], nil_prefix, rfl⟩

theorem isBoundary_cons {chunk : JsString} {chunks : List JsString} {offset : Nat} :
    IsBoundary (chunk :: chunks) offset ↔
      offset = 0 ∨ ∃ later, IsBoundary chunks later ∧ offset = chunk.length + later := by
  constructor
  · rintro ⟨before, hprefix, rfl⟩
    cases before with
    | nil => simp
    | cons first before =>
      obtain ⟨rfl, hrest⟩ := cons_prefix_cons.mp hprefix
      right
      exact ⟨before.flatten.length, ⟨before, hrest, rfl⟩, by simp⟩
  · rintro (rfl | ⟨later, ⟨before, hprefix, rfl⟩, rfl⟩)
    · exact isBoundary_zero _
    · exact ⟨chunk :: before, cons_prefix_cons.mpr ⟨rfl, hprefix⟩, by simp⟩

/-! ## One chunk -/

namespace DirectiveStripper

variable {s : DirectiveStripper}

theorem output_nil (s : DirectiveStripper) : s.output [] = s.flush.1 := by
  simp [output, pushAll]

theorem output_cons (s : DirectiveStripper) (chunk : JsString) (chunks : List JsString) :
    s.output (chunk :: chunks) = (s.push chunk).1 ++ (s.push chunk).2.output chunks := by
  simp [output, pushAll]

theorem output_of_done (hdone : s.done = true) (chunks : List JsString) :
    s.output chunks = chunks.flatten := by
  induction chunks with
  | nil => simp [output_nil, flush, hdone]
  | cons chunk chunks ih =>
    have hpush : s.push chunk = (chunk, s) := by simp [push, hdone]
    rw [output_cons, hpush, ih, List.flatten_cons]

theorem push_held (hdone : s.done = false) {chunk : JsString}
    (hchunk : chunk <+: s.directive.drop s.position)
    (hmore : chunk.length < (s.directive.drop s.position).length) :
    s.push chunk = ([], { s with position := s.position + chunk.length }) := by
  have hcommon : commonLength (s.directive.drop s.position) chunk = chunk.length := by
    obtain ⟨rest, hrest⟩ := hchunk
    have := commonLength_append chunk rest []
    rw [append_nil, hrest] at this
    simpa [commonLength] using this
  have hlen := length_drop (i := s.position) (l := s.directive)
  by_cases hempty : chunk = []
  · simp [push, hempty]
  · have hnonempty : chunk.isEmpty = false := by simpa using hempty
    have hposition : s.position + chunk.length ≠ s.directive.length := by omega
    simp [push, hdone, hnonempty, hcommon, hposition]

theorem push_completed (hdone : s.done = false) (hposition : s.position ≤ s.directive.length)
    {chunk : JsString} (hchunk : s.directive.drop s.position <+: chunk) (hempty : chunk ≠ []) :
    s.push chunk = (chunk.drop (s.directive.drop s.position).length,
        { s with done := true, position := s.directive.length }) := by
  have hcommon := ( prefix_iff_commonLength _ _).mp hchunk
  have hlen := length_drop (i := s.position) (l := s.directive)
  have hnonempty : chunk.isEmpty = false := by simpa using hempty
  have hend : s.position + (s.directive.length - s.position) = s.directive.length := by omega
  simp [push, hdone, hnonempty, hcommon, hend]

/-- The chunk with the departure comes out whole, after everything that agreed
with the directive. -/
theorem push_departed (hdone : s.done = false) {chunk : JsString}
    (hdirective : commonLength (s.directive.drop s.position) chunk <
      (s.directive.drop s.position).length)
    (hchunk : commonLength (s.directive.drop s.position) chunk < chunk.length) :
    (s.push chunk).1 = s.directive.take s.position ++
          (chunk.take (commonLength (s.directive.drop s.position) chunk) ++ chunk) ∧
      (s.push chunk).2.done = true := by
  have hlen := length_drop (i := s.position) (l := s.directive)
  have hnonempty : chunk.isEmpty = false := by
    cases chunk with
    | nil => simp at hchunk
    | cons c cs => rfl
  have hposition : s.position + commonLength (s.directive.drop s.position) chunk <
      s.directive.length := by omega
  have htake : s.directive.take (s.position + commonLength (s.directive.drop s.position) chunk) =
      s.directive.take s.position ++
        chunk.take (commonLength (s.directive.drop s.position) chunk) := by
    rw [take_add, take_commonLength]
  simp [push, hdone, hnonempty, hposition, hchunk, htake]

theorem chunk_cases (s : DirectiveStripper) (chunk : JsString) :
    (chunk <+: s.directive.drop s.position ∧ chunk.length < (s.directive.drop s.position).length) ∨
      s.directive.drop s.position <+: chunk ∨
      (commonLength (s.directive.drop s.position) chunk < (s.directive.drop s.position).length ∧
        commonLength (s.directive.drop s.position) chunk < chunk.length) := by
  have hleft := commonLength_le_left (s.directive.drop s.position) chunk
  have hright := commonLength_le_right (s.directive.drop s.position) chunk
  by_cases hwhole : commonLength (s.directive.drop s.position) chunk =
      (s.directive.drop s.position).length
  · exact .inr (.inl (( prefix_iff_commonLength _ _).mpr hwhole))
  · by_cases hchunk : commonLength (s.directive.drop s.position) chunk = chunk.length
    · left
      have htake := take_commonLength (s.directive.drop s.position) chunk
      rw [hchunk, take_length] at htake
      refine ⟨?_, by omega⟩
      rw [← htake]
      exact take_prefix _ _
    · exact .inr (.inr ⟨by omega, by omega⟩)

/-! ## A stream -/

theorem output_of_prefix (hdone : s.done = false) (hposition : s.position ≤ s.directive.length)
    (chunks : List JsString) (htext : s.directive.drop s.position <+: chunks.flatten)
    (hheld : s.position < s.directive.length ∨ s.directive = []) :
    s.output chunks = chunks.flatten.drop (s.directive.drop s.position).length := by
  induction chunks generalizing s with
  | nil =>
    have hend : s.directive.drop s.position = [] := prefix_nil.mp htext
    have hempty : s.directive = [] := by
      rcases hheld with hlt | hempty
      · have := congrArg List.length hend
        simp only [length_drop, length_nil] at this
        omega
      · exact hempty
    simp [output_nil, flush, hdone, hempty]
  | cons chunk chunks ih =>
    rw [output_cons, List.flatten_cons]
    rw [List.flatten_cons] at htext
    rcases chunk_cases s chunk with ⟨hchunk, hmore⟩ | hcompleted | ⟨hdirective, hdeparts⟩
    · -- the chunk is held back, the rest of the directive is still to come
      obtain ⟨rest, hrest⟩ := hchunk
      have hlen := length_drop (i := s.position) (l := s.directive)
      have hnext : s.directive.drop (s.position + chunk.length) = rest := by
        rw [← drop_drop, ← hrest, drop_left]
      rw [push_held hdone ⟨rest, hrest⟩ hmore]
      rw [← hrest, prefix_append_right_inj] at htext
      have hheld' := ih (s := { s with position := s.position + chunk.length }) hdone
        (by show s.position + chunk.length ≤ s.directive.length; omega)
        (by show s.directive.drop (s.position + chunk.length) <+: _; rw [hnext]; exact htext)
        (Or.inl (by show s.position + chunk.length < s.directive.length; omega))
      rw [hheld', hnext, ← hrest, length_append, nil_append, ← drop_drop, drop_left]
    · by_cases hempty : chunk = []
      · -- an empty chunk completes only the empty directive
        have hend : s.directive.drop s.position = [] := by
          rw [hempty] at hcompleted
          exact prefix_nil.mp hcompleted
        have hnone : s.directive = [] := by
          rcases hheld with hlt | hnone
          · have := congrArg List.length hend
            simp only [length_drop, length_nil] at this
            omega
          · exact hnone
        have hpush : s.push chunk = ([], s) := by simp [push, hempty]
        rw [hpush, ih hdone hposition (by rw [hend]; exact nil_prefix) (Or.inr hnone)]
        simp [hempty]
      · rw [push_completed hdone hposition hcompleted hempty, output_of_done rfl,
          drop_append_of_le_length hcompleted.length_le]
    · have hcommon := commonLength_of_lt chunks.flatten hdirective hdeparts
      have hwhole := ( prefix_iff_commonLength _ _).mp htext
      omega

/-- A text that is not the directive comes out with the part of one chunk
repeated: the part that still agreed with the directive in the chunk in which
the text departs from it. -/
theorem output_repeats (hdone : s.done = false) (chunks : List JsString)
    (htext : ¬ s.directive.drop s.position <+: chunks.flatten) :
    ∃ before agreed rest, chunks.flatten = before ++ (agreed ++ rest) ∧
      s.output chunks = s.directive.take s.position ++ (before ++ (agreed ++ (agreed ++ rest))) ∧
      before.length + agreed.length = commonLength (s.directive.drop s.position) chunks.flatten ∧
      (agreed = [] ↔ IsBoundary chunks (before.length + agreed.length)) := by
  induction chunks generalizing s with
  | nil =>
    refine ⟨[], [], [], rfl, ?_, ?_, ?_⟩
    · simp [output_nil, flush, hdone]
    · cases s.directive.drop s.position <;> simp [commonLength]
    · exact iff_of_true rfl (isBoundary_zero _)
  | cons chunk chunks ih =>
    rw [List.flatten_cons] at htext ⊢
    rw [output_cons]
    rcases chunk_cases s chunk with ⟨hchunk, hmore⟩ | hcompleted | ⟨hdirective, hdeparts⟩
    · obtain ⟨next, hnext⟩ := hchunk
      have hdrop : s.directive.drop (s.position + chunk.length) = next := by
        rw [← drop_drop, ← hnext, drop_left]
      have htake : s.directive.take (s.position + chunk.length) =
          s.directive.take s.position ++ chunk := by
        rw [take_add, ← hnext, take_left]
      rw [push_held hdone ⟨next, hnext⟩ hmore]
      rw [← hnext, prefix_append_right_inj] at htext
      obtain ⟨before, agreed, rest, hflat, hout, hcommon, hboundary⟩ :=
        ih (s := { s with position := s.position + chunk.length }) hdone
          (by dsimp only; rw [hdrop]; exact htext)
      rw [hdrop] at hcommon
      refine ⟨chunk ++ before, agreed, rest, ?_, ?_, ?_, ?_⟩
      · rw [hflat, append_assoc]
      · rw [hout, htake, nil_append]
        simp only [append_assoc]
      · rw [← hnext, commonLength_append, ← hcommon, length_append]
        omega
      · rw [hboundary, isBoundary_cons, length_append]
        constructor
        · intro h
          exact .inr ⟨_, h, by omega⟩
        · rintro (hzero | ⟨later, hlater, heq⟩)
          · rw [show before.length + agreed.length = 0 by omega]
            exact isBoundary_zero _
          · rw [show before.length + agreed.length = later by omega]
            exact hlater
    · exact absurd (hcompleted.trans (prefix_append chunk _)) htext
    · obtain ⟨hout, hpassing⟩ := push_departed hdone hdirective hdeparts
      have hcommon := commonLength_of_lt chunks.flatten hdirective hdeparts
      have hsplit := take_append_drop (commonLength (s.directive.drop s.position) chunk) chunk
      have hlen : (chunk.take (commonLength (s.directive.drop s.position) chunk)).length =
          commonLength (s.directive.drop s.position) chunk := by
        rw [length_take]
        omega
      refine ⟨[], chunk.take (commonLength (s.directive.drop s.position) chunk),
        chunk.drop (commonLength (s.directive.drop s.position) chunk) ++ chunks.flatten,
        ?_, ?_, ?_, ?_⟩
      · rw [nil_append, ← append_assoc, hsplit]
      · rw [hout, output_of_done hpassing, nil_append,
          ← append_assoc (chunk.take _) (chunk.drop _), hsplit]
        simp only [append_assoc]
      · rw [hcommon, hlen, length_nil]
        omega
      · rw [length_nil, Nat.zero_add, isBoundary_cons, hlen]
        constructor
        · intro hnone
          left
          rw [← hlen, hnone, length_nil]
        · rintro (hzero | ⟨later, -, heq⟩)
          · rw [hzero, take_zero]
          · omega

end DirectiveStripper

/-! ## Exactness -/

/-- A text that begins with the directive loses exactly the directive. -/
theorem strip_of_beginning {directive : JsString} {chunks : List JsString}
    (h : directive <+: chunks.flatten) :
    strip directive chunks = chunks.flatten.drop directive.length := by
  refine DirectiveStripper.output_of_prefix rfl (Nat.zero_le _) chunks h ?_
  cases directive with
  | nil => exact .inr rfl
  | cons c cs => exact .inl (Nat.zero_lt_succ _)

theorem strip_repeats {directive : JsString} {chunks : List JsString}
    (h : ¬ directive <+: chunks.flatten) :
    ∃ before agreed rest, chunks.flatten = before ++ (agreed ++ rest) ∧
      strip directive chunks = before ++ (agreed ++ (agreed ++ rest)) ∧
      before.length + agreed.length = commonLength directive chunks.flatten ∧
      (agreed = [] ↔ IsBoundary chunks (before.length + agreed.length)) :=
  DirectiveStripper.output_repeats (s := { directive := directive }) rfl chunks h

/-- The stripper is exact on the texts that begin with the directive and on
those that depart from it, or end, at a chunk boundary. -/
theorem strip_exact_iff (directive : JsString) (chunks : List JsString) :
    strip directive chunks = withoutDirective directive chunks.flatten ↔
      directive <+: chunks.flatten ∨ IsBoundary chunks (commonLength directive chunks.flatten) := by
  unfold withoutDirective JsString.startsWith
  by_cases hprefix : directive <+: chunks.flatten
  · rw [if_pos ( isPrefixOf_iff_prefix.mpr hprefix)]
    exact iff_of_true (strip_of_beginning hprefix) (.inl hprefix)
  · rw [if_neg (fun h => hprefix ( isPrefixOf_iff_prefix.mp h))]
    obtain ⟨before, agreed, rest, hflat, hout, hcommon, hboundary⟩ := strip_repeats hprefix
    rw [← hcommon, ← hboundary, hout, hflat]
    constructor
    · intro heq
      right
      have hlen := congrArg List.length heq
      simp only [length_append] at hlen
      exact length_eq_zero_iff.mp (by omega)
    · rintro (h | rfl)
      · exact absurd (hflat ▸ h) hprefix
      · simp

/-- One chunk that departs from the directive after two units repeats them. -/
theorem strip_not_exact_oneChunk : strip (js "abc") [js "abx"] = js "ababx" ∧
      strip (js "abc") [js "abx"] ≠ withoutDirective (js "abc") [js "abx"].flatten := by
  decide

end RedRouter.Response.PreambleStripper
