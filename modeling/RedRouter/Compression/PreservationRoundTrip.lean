import RedRouter.Lib.Holes
import RedRouter.Compression.Preservation

/-!
# What the restoration gives back

`restorePreservedBlocks` replaces the placeholders in the order in which they
were put.  A block that holds an earlier placeholder brings it back when its
turn is over, and there it stays.

* `Represents` ties an extraction to a template, and `Represents.takeOut` is the
  step for one pass over the text.
* The patterns skip a match that holds a placeholder, so their passes take out
  no placeholder (`exists_replacePatterns`).
* `extractFencedCodeBlocks` has no such guard.  Its blocks begin and end with
  lines, so they do not cut a placeholder, but they can hold one
  (`exists_extractFencedCodeBlocks`).

`restored_iff` puts these together: the text comes back exactly when no fenced
code holds a placeholder.  A pattern of the user can also match a part of an
earlier placeholder, and `PatternsUncut` is the condition that none does.
-/

namespace RedRouter.Compression.Preservation

open List RedRouter.Regex

/-! ## Patterns and placeholders

A placeholder is made of the units of identifiers between two zero units, and
the later passes run over texts that hold placeholders.  No pattern of the
source has a match that begins or ends inside one: `uncut_of_safe` says so for
every pattern that passes two tests, and `patterns_safe` evaluates these.

A match can begin inside a placeholder only at a unit of it. At its end a
match either has a unit that no placeholder has, or stays before the zero
unit, or goes on to the end of the line or of a class of units that holds all
of a placeholder.
-/

open RedRouter.Holes

/-! ## Placeholders as marks -/

/-- The units of the body before the seed. -/
def bodyPrefix : JsString := js "OMNI_CAVEMAN_"

/-- A placeholder without its zero units. -/
def body (seed : Seed) (counter : Nat) : JsString :=
  bodyPrefix ++ (seed.units ++ (js "_" ++ JsString.ofNat counter))

def sentinelUnits : List UInt16 :=
  0 :: js "ABCDEFGHIJKLMNOPQRSTUVWXYZabcdefghijklmnopqrstuvwxyz0123456789_"

theorem isWord_ofNat {n : Nat} {u : UInt16} (h : u ∈ JsString.ofNat n) : isWord u = true := by
  obtain ⟨c, hc, hu⟩ := mem_flatMap.mp h
  have hdigit := Nat.isDigit_of_mem_toDigits (by decide) (by decide) hc
  obtain ⟨hle, hunits⟩ := JsString.utf16_of_isDigit hdigit
  have hge : 48 ≤ c.toNat := (Char.isDigit_iff_toNat.mp hdigit).1
  rw [hunits, mem_singleton] at hu
  subst hu
  have hword : ∀ n < 58, 48 ≤ n → isWord n.toUInt16 = true := by decide
  exact hword c.toNat (by omega) hge

theorem isWord_seed (seed : Seed) {u : UInt16} (h : u ∈ seed.units) : isWord u = true := by
  obtain rfl | h := mem_cons.mp h
  · decide
  · obtain hdigit | hletter := seed.lower u h
    · simp [isWord, hdigit]
    · simp [isWord, hletter]

theorem isWord_body {seed : Seed} {k : Nat} {u : UInt16} (h : u ∈ body seed k) :
    isWord u = true := by
  have hprefix : bodyPrefix.all isWord = true := by decide
  obtain h | h := mem_append.mp h
  · exact all_eq_true.mp hprefix u h
  · obtain h | h := mem_append.mp h
    · exact isWord_seed seed h
    · obtain h | h := mem_append.mp h
      · have hscore : (js "_").all isWord = true := by decide
        exact all_eq_true.mp hscore u h
      · exact isWord_ofNat h

def marks (seed : Seed) : Marks where
  delim := 0
  body := body seed
  delim_not_mem k h := absurd (isWord_body h) (by decide)
  body_inj h := by
    simp only [body, append_cancel_left_eq] at h
    exact JsString.ofNat_inj h

theorem placeholder_eq (seed : Seed) (k : Nat) : placeholder seed k = (marks seed).mark k := by
  have hprefix : sentinelPrefix ++ js "_" = 0 :: bodyPrefix := by decide
  rw [placeholder, Marks.mark, ← append_assoc, hprefix]
  simp [marks, body]

theorem mem_sentinelUnits {u : UInt16} (h : isWord u = true) : u ∈ sentinelUnits := by
  have hrange : ∀ n < 128, isWord (UInt16.ofNat n) = true → UInt16.ofNat n ∈ sentinelUnits := by
    decide +kernel
  have hsmall : u.toNat < 128 := by
    by_contra hlarge
    have hout : ∀ v : UInt16, v.toNat < 128 → ¬ u ≤ v := by
      intro v hv hu
      have hle := UInt16.le_iff_toNat_le.mp hu
      omega
    have hscore : u ≠ unit '_' := by
      rintro rfl
      exact hlarge (by decide)
    simp [isWord, hscore, hout (unit 'Z') (by decide), hout (unit 'z') (by decide),
      hout (unit '9') (by decide)] at h
  have hu := hrange u.toNat hsmall
  rw [UInt16.ofNat_toNat] at hu
  exact hu h

theorem mem_mark {seed : Seed} {k : Nat} {u : UInt16} (h : u ∈ (marks seed).mark k) :
    u ∈ sentinelUnits := by
  obtain rfl | h := mem_cons.mp h
  · exact mem_cons_self
  · obtain h | h := mem_append.mp h
    · exact mem_sentinelUnits (isWord_body h)
    · rw [mem_singleton.mp h]
      exact mem_cons_self

/-- Where a placeholder is cut at a word boundary: after its first unit or before
its last one. -/
theorem mark_boundary {seed : Seed} {k : Nat} {a b : JsString} (ha : a ≠ []) (hb : b ≠ [])
    (hmark : (marks seed).mark k = a ++ b)
    (hboundary : (a.getLast?.map isWord).getD false ≠ (b.head?.map isWord).getD false) :
    b = [0] ∨ b = body seed k ++ [0] := by
  obtain ⟨first, a, rfl⟩ := exists_cons_of_ne_nil ha
  obtain ⟨b, last, rfl⟩ := eq_nil_or_concat b |>.resolve_left hb
  rw [Marks.mark, concat_eq_append, cons_append, ← append_assoc] at hmark
  obtain ⟨hfirst, hrest⟩ := List.cons.inj hmark
  obtain ⟨hbody, hlast⟩ := append_inj' hrest rfl
  have hzero : last = 0 := (singleton_inj.mp hlast).symm
  subst hzero
  have hword : ∀ u ∈ a ++ b, isWord u = true := by
    intro u hu
    rw [← hbody] at hu
    exact isWord_body hu
  rw [concat_eq_append]
  cases ha' : a.getLast? with
  | none =>
    rw [getLast?_eq_none_iff.mp ha', nil_append] at hbody
    exact .inr (by rw [← hbody]; rfl)
  | some u =>
    cases b with
    | nil => exact .inl rfl
    | cons v b =>
      have hu := hword u (mem_append_left _ (mem_of_getLast? ha'))
      have hv := hword v (mem_append_right _ mem_cons_self)
      rw [getLast?_cons, ha'] at hboundary
      simp [hu, hv] at hboundary

/-! ## Safe patterns -/

/-- No match begins inside a placeholder. -/
def startSafe (p : Pattern) : Bool :=
  p.sticks sentinelUnits 0 || p.startsAtWord && (!p.nullable true && p.firstAvoids [0, unit 'O']) ||
    p.startsAtWord && (p.endsAtWord && p.avoids [0, unit 'r'])

/-- No match that begins outside a placeholder ends inside one. -/
def endSafe (p : Pattern) : Bool :=
  p.lastAvoids sentinelUnits || p.avoids [0] || p.endsAtLine ||
    (p.tailUnit.map fun q => sentinelUnits.all q).getD false

theorem patterns_safe : ∀ pattern ∈ envelopes ++ builtIns,
    (startSafe pattern.1 && endSafe pattern.1) = true := by
  decide

variable {seed : Seed} {p : Pattern} {count : Nat} {before text rest : JsString}

theorem cut_units {k : Nat} {a b after : JsString} (ha : a ≠ []) (hb : b ≠ [])
    (hmark : (marks seed).mark k = a ++ b) (hbefore : a <:+ before) (hafter : b <+: after) :
    lastUnit none before ≠ none ∧ lastUnit none before = a.getLast? ∧ after.head? = b.head? ∧
      b.getLast? = some 0 := by
  have hlast : lastUnit none before = a.getLast? := by
    obtain ⟨more, rfl⟩ := hbefore
    simp [lastUnit, getLast?_append_of_ne_nil _ ha]
  refine ⟨?_, hlast, ?_, ?_⟩
  · rw [hlast]
    simpa using ha
  · obtain ⟨more, rfl⟩ := hafter
    exact head?_append_of_ne_nil _ hb
  · have hend : ((marks seed).mark k).getLast? = some 0 := by
      rw [Marks.mark, ← cons_append, getLast?_concat]
      rfl
    rw [hmark, getLast?_append_of_ne_nil _ hb] at hend
    exact hend

/-- A match between word boundaries does not get over the `r` of the seed, and
there is no word boundary before it. -/
theorem not_prefix_body (h : Derives p (lastUnit none before) text rest) (htext : text ≠ [])
    (hend : p.endsAtWord = true) (havoids : p.avoids [0, unit 'r'] = true) (k : Nat) :
    ¬ body seed k ++ [0] <+: text ++ rest := by
  intro hbody
  have hword : ∀ u ∈ bodyPrefix ++ [unit 'r'], isWord u = true :=
    all_eq_true.mp (by decide)
  have hnot : unit 'r' ∉ text := fun hmem => h.avoids havoids _ hmem (by simp)
  have hhead : bodyPrefix ++ [unit 'r'] <+: text ++ rest :=
    List.IsPrefix.trans ⟨seed.digits ++ (js "_" ++ JsString.ofNat k) ++ [0], by
      simp [body, Seed.units]⟩ hbody
  obtain hlong | ⟨more, hmore⟩ :=
    prefix_or_prefix_of_prefix hhead (prefix_append text rest)
  · exact hnot (hlong.subset (by simp))
  · have hne : more ≠ [] := by
      rintro rfl
      rw [append_nil] at hmore
      exact hnot (by rw [hmore]; simp)
    obtain ⟨u, more, rfl⟩ := exists_cons_of_ne_nil hne
    rw [← hmore, prefix_append_right_inj] at hhead
    obtain ⟨last, hlast⟩ : ∃ last, text.getLast? = some last :=
      ⟨_, getLast?_eq_some_getLast htext⟩
    have hboundary := h.endsAtWord hend
    have hu : isWord u = true := hword u (by rw [← hmore]; simp)
    have hlastWord : isWord last = true :=
      hword last (by rw [← hmore]; exact mem_append_left _ (mem_of_getLast? hlast))
    obtain ⟨after, rfl⟩ := hhead
    simp [lastUnit, hlast, hu, hlastWord] at hboundary

open Bool in
theorem not_cut_start (hsafe : startSafe p = true)
    (h : Derives p (lastUnit none before) text rest) (htext : text ≠ []) :
    ¬ Cut (marks seed) count before (text ++ rest) := by
  rintro ⟨k, -, a, b, ha, hb, hmark, hbefore, hafter⟩
  obtain ⟨hprevious, hlast, hhead, hzero⟩ := cut_units ha hb hmark hbefore hafter
  have hplace : p.startsAtWord = true → b = [0] ∨ b = body seed k ++ [0] := by
    intro hstart
    have hboundary := h.startsAtWord hstart
    rw [hlast, hhead] at hboundary
    exact mark_boundary ha hb hmark hboundary
  rw [startSafe, or_eq_true, or_eq_true, and_eq_true, and_eq_true,
    and_eq_true, and_eq_true, not_eq_true'] at hsafe
  obtain (hsticks | ⟨hstart, hnull, hfirst⟩) | ⟨hstart, hend, havoids⟩ := hsafe
  · have hunits : ∀ u ∈ b, u ∈ sentinelUnits := by
      intro u hu
      exact mem_mark (by rw [hmark]; exact mem_append_right a hu)
    rw [h.sticks hprevious hunits hzero hafter] at hsticks
    cases hsticks
  · obtain rfl | rfl := hplace hstart
    · exact h.first_not_mem hprevious hnull hfirst hhead (by simp)
    · exact h.first_not_mem hprevious hnull hfirst hhead (by decide)
  · obtain rfl | rfl := hplace hstart
    · obtain ⟨u, text, rfl⟩ := exists_cons_of_ne_nil htext
      cases hhead
      exact h.avoids havoids 0 mem_cons_self (by simp)
    · exact not_prefix_body h htext hend havoids k hafter

open Bool in
theorem not_cut_end (hsafe : endSafe p = true) (h : Derives p (lastUnit none before) text rest)
    (htext : text ≠ []) (htail : ∀ q, p.tailUnit = some q → (rest.head?.map q).getD false = false)
    (hstart : ¬ Cut (marks seed) count before (text ++ rest)) :
    ¬ Cut (marks seed) count (before ++ text) rest := by
  rintro ⟨k, hk, a, b, ha, hb, hmark, hbefore, hafter⟩
  obtain ⟨-, hlast, hhead, hzero⟩ := cut_units ha hb hmark hbefore hafter
  obtain ⟨u, b, rfl⟩ := exists_cons_of_ne_nil hb
  have hu : u ∈ sentinelUnits := mem_mark (by rw [hmark]; simp)
  rw [endSafe, or_eq_true, or_eq_true, or_eq_true] at hsafe
  obtain ((hsafe | hsafe) | hsafe) | hsafe := hsafe
  · -- the last unit of the match is one of the placeholder
    obtain ⟨last, hget⟩ : ∃ last, text.getLast? = some last :=
      ⟨_, getLast?_eq_some_getLast htext⟩
    have hsame : a.getLast? = some last := by
      rw [← hlast, lastUnit, getLast?_append_of_ne_nil _ htext, hget]
      rfl
    have hmem : last ∈ (marks seed).mark k := by
      rw [hmark]
      exact mem_append_left _ (mem_of_getLast? hsame)
    exact h.lastAvoids hsafe last hget (mem_mark hmem)
  · -- the match has no zero unit, so the placeholder begins before it
    have hzeroMem : (0 : UInt16) ∈ a := by
      obtain ⟨first, a, rfl⟩ := exists_cons_of_ne_nil ha
      rw [← (List.cons.inj hmark).1]
      exact mem_cons_self
    obtain hlong | ⟨before', hshort⟩ :=
      suffix_or_suffix_of_suffix hbefore (suffix_append before text)
    · exact h.avoids hsafe 0 (hlong.subset hzeroMem) (by simp)
    · subst hshort
      rw [append_assoc] at hmark
      refine hstart ⟨k, hk, before', text ++ u :: b, ?_, by simp, hmark, ?_, ?_⟩
      · rintro rfl
        exact h.avoids hsafe 0 (by simpa using hzeroMem) (by simp)
      · obtain ⟨more, hmore⟩ := hbefore
        exact ⟨more, append_cancel_right (by rw [append_assoc, hmore])⟩
      · exact (prefix_append_right_inj text).mpr hafter
  · -- a placeholder has no line terminator
    have hline := h.endsAtLine hsafe
    have hunits : (sentinelUnits.all fun u => !isLineTerminator u) = true := by decide
    have hnot : isLineTerminator u = false := by
      simpa using all_eq_true.mp hunits u hu
    rw [hhead] at hline
    simp [hnot] at hline
  · -- the last class of the match holds the units of a placeholder
    cases htailUnit : p.tailUnit with
    | none => simp [htailUnit] at hsafe
    | some q =>
      have hstop := htail q htailUnit
      rw [htailUnit, Option.map_some, Option.getD_some] at hsafe
      have hq : q u = true := all_eq_true.mp hsafe u hu
      rw [hhead] at hstop
      simp [hq] at hstop

open Bool in
theorem uncut_of_safe (hsafe : (startSafe p && endSafe p) = true) (text : JsString) :
    Uncut (marks seed) count (Regex.pieces p text) := by
  rw [and_eq_true] at hsafe
  intro before piece after hpieces
  obtain ⟨index, m, hmatch, hlength, hne⟩ := matchAt_of_pieces hpieces
  obtain ⟨found, rest, hsplit, -, hfound, hderives, htail⟩ := matchAt_cases hmatch
  obtain ⟨rfl, rfl⟩ := append_inj hsplit (by rw [← hlength, hfound])
  have hstart : ¬ Cut (marks seed) count (Piece.joined before) (piece ++ Piece.joined after) :=
    not_cut_start hsafe.1 hderives hne
  exact ⟨hstart, not_cut_end hsafe.2 hderives hne htail hstart⟩

variable {seed : Seed} {kind : BlockKind} {original : JsString} {e : Extraction} {t : Template}

/-! ## Extractions and templates -/

/-- Each block has the placeholder of its place in the list. -/
def Numbered (seed : Seed) (blocks : List PreservedBlock) : Prop :=
  ∀ (k : Nat) block, blocks[k]? = some block → block.placeholder = placeholder seed k

/-- The extraction is a rendering of the template. -/
structure Represents (seed : Seed) (original : JsString) (e : Extraction) (t : Template) :
    Prop where
  valid : t.Valid original
  text : e.text = render (marks seed) t.segs
  contents : e.blocks.map PreservedBlock.content = t.contents.map (render (marks seed))
  numbered : Numbered seed e.blocks

/-- Nothing that was taken out holds a placeholder. -/
def HoleFree (t : Template) : Prop := ∀ content ∈ t.contents, ∀ k, Seg.hole k ∉ content

theorem represents_start (seed : Seed) (text : JsString) :
    Represents seed text { text := text } { segs := ofText text } where
  valid := Template.valid_ofText text
  text := (render_ofText text).symm
  contents := rfl
  numbered := by simp [Numbered]

theorem Represents.length_eq (h : Represents seed original e t) :
    t.contents.length = e.blocks.length := by
  have hlength := congrArg List.length h.contents
  simpa using hlength.symm

/-! ## One pass -/

variable (pieces : List Piece)

theorem takeOut_text (blocks : List PreservedBlock) :
    (takeOut seed kind pieces blocks).text = cutOut (marks seed) blocks.length pieces := by
  induction pieces generalizing blocks with
  | nil => rfl
  | cons piece pieces ih =>
    cases piece with
    | kept text => rw [takeOut, cutOut, ih]
    | found text =>
      rw [takeOut, cutOut, ← placeholder_eq]
      rw [ih, length_append, length_singleton]

theorem takeOut_contents (blocks : List PreservedBlock) :
    (takeOut seed kind pieces blocks).blocks.map PreservedBlock.content =
      blocks.map PreservedBlock.content ++ Piece.foundTexts pieces := by
  induction pieces generalizing blocks with
  | nil => simp [takeOut, Piece.foundTexts]
  | cons piece pieces ih =>
    cases piece with
    | kept text => exact ih blocks
    | found text =>
      rw [takeOut, Piece.foundTexts]
      rw [ih]
      simp

theorem Numbered.concat {blocks : List PreservedBlock} (h : Numbered seed blocks)
    (content : JsString) :
    Numbered seed (blocks ++ [⟨placeholder seed blocks.length, content, kind⟩]) := by
  intro k block hblock
  obtain ⟨-, hblock⟩ | ⟨rfl, rfl⟩ := Template.getElem?_concat_cases hblock
  · exact h k block hblock
  · rfl

theorem numbered_takeOut {blocks : List PreservedBlock} (h : Numbered seed blocks) :
    Numbered seed (takeOut seed kind pieces blocks).blocks := by
  induction pieces generalizing blocks with
  | nil => exact h
  | cons piece pieces ih =>
    cases piece with
    | kept text => exact ih h
    | found text => exact ih (h.concat text)

/-- Pieces that do not cut a placeholder are taken out of the template. -/
theorem Represents.takeOut (h : Represents seed original e t) (kind : BlockKind)
    {pieces : List Piece} (hpieces : Piece.joined pieces = e.text)
    (huncut : Uncut (marks seed) e.blocks.length pieces) :
    ∃ t' news, Represents seed original (takeOut seed kind pieces e.blocks) t' ∧
      t'.contents = t.contents ++ news ∧ news.map (render (marks seed)) = Piece.foundTexts pieces ∧
      ∀ content ∈ news, ∀ k, Seg.hole k ∈ content → k < e.blocks.length := by
  rw [← h.length_eq] at huncut
  obtain ⟨t', news, hvalid, hrender, hcontents, hnews, hholes⟩ :=
    exists_cutOut h.valid (by rw [hpieces, h.text]) huncut
  refine ⟨t', news, ⟨hvalid, ?_, ?_, numbered_takeOut pieces h.numbered⟩, hcontents, hnews, ?_⟩
  · rw [takeOut_text, hrender, h.length_eq]
  · rw [takeOut_contents, hcontents, map_append, hnews, h.contents]
  · rw [← h.length_eq]
    exact hholes

theorem holeFree_append {t' : Template} {news : List (List Seg)}
    (h : t'.contents = t.contents ++ news) :
    HoleFree t' ↔ HoleFree t ∧ ∀ content ∈ news, ∀ k, Seg.hole k ∉ content := by
  unfold HoleFree
  rw [h]
  exact forall_mem_append

/-! ## The passes of the patterns -/

theorem guardPiece_text (piece : Piece) : (guardPiece piece).text = piece.text := by
  cases piece with
  | kept text => rfl
  | found text =>
    rw [guardPiece]
    split <;> rfl

theorem joined_guard : Piece.joined (pieces.map guardPiece) = Piece.joined pieces := by
  induction pieces with
  | nil => rfl
  | cons piece pieces ih =>
    rw [map_cons, Piece.joined_cons, guardPiece_text, ih, Piece.joined_cons]

theorem guardPiece_eq_found {piece : Piece} {text : JsString} (h : guardPiece piece = .found text) :
    piece = .found text ∧ ¬ sentinelPrefix <:+: text := by
  cases piece with
  | kept s => cases h
  | found s =>
    rw [guardPiece] at h
    split at h
    · cases h
    · rename_i hguard
      cases h
      rw [Bool.or_eq_true, not_or] at hguard
      exact ⟨rfl, fun hheld => hguard.2 ((JsString.includes_iff _ _).mpr hheld)⟩

theorem map_guard_cases {pieces before after : List Piece} {text : JsString}
    (h : pieces.map guardPiece = before ++ .found text :: after) :
    ∃ before' after', pieces = before' ++ .found text :: after' ∧
      Piece.joined before = Piece.joined before' ∧ Piece.joined after = Piece.joined after' ∧
      ¬ sentinelPrefix <:+: text := by
  obtain ⟨before', rest, rfl, rfl, hrest⟩ := map_eq_append_iff.mp h
  obtain ⟨piece, after', rfl, hpiece, rfl⟩ := map_eq_cons_iff.mp hrest
  obtain ⟨rfl, hguard⟩ := guardPiece_eq_found hpiece
  exact ⟨before', after', rfl, joined_guard before', joined_guard after', hguard⟩

theorem uncut_guard {count : Nat} {pieces : List Piece} (h : Uncut (marks seed) count pieces) :
    Uncut (marks seed) count (pieces.map guardPiece) := by
  intro before text after hpieces
  obtain ⟨before', after', hpieces, hbefore, hafter, -⟩ := map_guard_cases hpieces
  rw [hbefore, hafter]
  exact h before' text after' hpieces

theorem sentinelPrefix_inside_mark (seed : Seed) (k : Nat) :
    sentinelPrefix <:+: (marks seed).mark k := by
  rw [← placeholder_eq]
  exact (prefix_append _ _).isInfix

theorem Represents.replacePattern (h : Represents seed original e t) {matcher : Matcher}
    (kind : BlockKind)
    (huncut : Uncut (marks seed) e.blocks.length ((matcher.pieces e.text).map guardPiece)) :
    ∃ t', Represents seed original (replacePattern seed matcher kind e) t' ∧
      (HoleFree t' ↔ HoleFree t) := by
  have hjoined : Piece.joined ((matcher.pieces e.text).map guardPiece) = e.text := by
    rw [joined_guard, matcher.joined_pieces]
  obtain ⟨t', news, hrep, hcontents, hnews, -⟩ := h.takeOut kind hjoined huncut
  refine ⟨t', hrep, ?_⟩
  rw [holeFree_append hcontents, and_iff_left]
  intro content hcontent k hk
  have hmem : render (marks seed) content ∈
      Piece.foundTexts ((matcher.pieces e.text).map guardPiece) := by
    rw [← hnews]
    exact mem_map_of_mem hcontent
  obtain ⟨before, after, hpieces⟩ := Piece.mem_foundTexts.mp hmem
  obtain ⟨-, -, -, -, -, hguard⟩ := map_guard_cases hpieces
  exact hguard ((sentinelPrefix_inside_mark seed k).trans (mark_infix_of_hole hk))

/-- No match that is taken out begins or ends inside a placeholder of an earlier
pass. -/
def PatternsUncut (seed : Seed) : List (Matcher × BlockKind) → Extraction → Prop
  | [], _ => True
  | pattern :: patterns, e =>
      Uncut (marks seed) e.blocks.length ((pattern.1.pieces e.text).map guardPiece) ∧
        PatternsUncut seed patterns (replacePattern seed pattern.1 pattern.2 e)

theorem patternsUncut_append {patterns patterns' : List (Matcher × BlockKind)} :
    PatternsUncut seed (patterns ++ patterns') e ↔ PatternsUncut seed patterns e ∧
        PatternsUncut seed patterns' (replacePatterns seed patterns e) := by
  induction patterns generalizing e with
  | nil => simp [PatternsUncut, replacePatterns]
  | cons pattern patterns ih =>
    rw [cons_append, PatternsUncut, PatternsUncut, ih, and_assoc]
    rfl

theorem patternsUncut_compiled {patterns : List (Pattern × BlockKind)}
    (hpatterns : ∀ pattern ∈ patterns, pattern ∈ envelopes ++ builtIns) (e : Extraction) :
    PatternsUncut seed (compiled patterns) e := by
  induction patterns generalizing e with
  | nil => exact trivial
  | cons pattern patterns ih =>
    refine ⟨uncut_guard ?_, ih (fun p hp => hpatterns p (mem_cons_of_mem _ hp)) _⟩
    exact uncut_of_safe (patterns_safe pattern (hpatterns pattern mem_cons_self)) e.text

theorem exists_replacePatterns {patterns : List (Matcher × BlockKind)}
    (h : Represents seed original e t) (huncut : PatternsUncut seed patterns e) :
    ∃ t', Represents seed original (replacePatterns seed patterns e) t' ∧
      (HoleFree t' ↔ HoleFree t) := by
  induction patterns generalizing e t with
  | nil => exact ⟨t, h, Iff.rfl⟩
  | cons pattern patterns ih =>
    obtain ⟨t₁, hrep, hfree⟩ := h.replacePattern pattern.2 huncut.1
    obtain ⟨t₂, hrep', hfree'⟩ := ih hrep huncut.2
    exact ⟨t₂, hrep', hfree'.trans hfree⟩

/-! ## The front matter -/

theorem uncut_zero : Uncut (marks seed) 0 pieces := by
  have hnone : ∀ before after, ¬ Cut (marks seed) 0 before after := by
    rintro before after ⟨k, hk, -⟩
    omega
  exact fun _ _ _ _ => ⟨hnone _ _, hnone _ _⟩

theorem exists_extractFrontmatter (seed : Seed) (text : JsString) :
    ∃ t, Represents seed text (extractFrontmatter seed { text := text }) t ∧ HoleFree t := by
  have hstart := represents_start seed text
  rw [extractFrontmatter]
  split
  · exact ⟨_, hstart, by simp [HoleFree]⟩
  · rename_i last _
    have hjoined : Piece.joined [.found (text.take last), .kept (text.drop last)] = text := by
      simp [Piece.text]
    obtain ⟨t', news, hrep, hcontents, -, hholes⟩ :=
      hstart.takeOut .frontmatter hjoined (uncut_zero _)
    refine ⟨t', hrep, (holeFree_append hcontents).mpr ⟨by simp [HoleFree], ?_⟩⟩
    intro content hcontent k hk
    simpa using hholes content hcontent k hk

/-! ## Fenced code -/

def Lined : List JsString → Prop
  | [] => True
  | line :: lines => (line.getLast? = some (unit '\n') ∨ lines.flatten = []) ∧ Lined lines

/-- Each piece but the last ends with a newline. -/
def LinedPieces : List Piece → Prop
  | [] => True
  | piece :: pieces =>
      (piece.text.getLast? = some (unit '\n') ∨ Piece.joined pieces = []) ∧ LinedPieces pieces

theorem flatten_fullLines (text : JsString) : (fullLines text).flatten = text := by
  induction text with
  | nil => rfl
  | cons c cs ih =>
    rw [fullLines]
    split
    · rw [List.flatten_cons, ih, singleton_append]
    · split
      · rename_i hnil
        rw [hnil] at ih
        rw [← ih]
        rfl
      · rename_i line lines hlines
        rw [hlines] at ih
        rw [← ih]
        rfl

theorem Lined.concat_nil {lines : List JsString} (h : Lined lines) : Lined (lines ++ [[]]) := by
  induction lines with
  | nil => simp [Lined]
  | cons line lines ih =>
    rw [cons_append]
    refine ⟨?_, ih h.2⟩
    rw [flatten_append, append_eq_nil_iff]
    exact h.1.imp_right fun hrest => ⟨hrest, rfl⟩

theorem lined_fullLines (text : JsString) : Lined (fullLines text) := by
  induction text with
  | nil => trivial
  | cons c cs ih =>
    rw [fullLines]
    split
    · rename_i hc
      exact ⟨.inl (by rw [hc]; rfl), ih⟩
    · split
      · exact ⟨.inr rfl, trivial⟩
      · rename_i line lines hlines
        rw [hlines] at ih
        refine ⟨ih.1.imp_left fun hlast => ?_, ih.2⟩
        rw [getLast?_cons, hlast]
        rfl

theorem closeFence_cases {fence block : JsString} {lines rest : List JsString}
    (hlined : Lined lines) (h : closeFence fence lines = some (block, rest)) :
    lines.flatten = block ++ rest.flatten ∧ Lined rest ∧
      (block.getLast? = some (unit '\n') ∨ rest.flatten = []) := by
  induction lines generalizing block with
  | nil => cases h
  | cons line lines ih =>
    rw [closeFence] at h
    split at h
    · cases h
      exact ⟨rfl, hlined.2, hlined.1⟩
    · obtain ⟨⟨block', rest'⟩, hclose, heq⟩ := Option.map_eq_some_iff.mp h
      cases heq
      obtain ⟨hflatten, hrest, hlast⟩ := ih hlined.2 hclose
      refine ⟨?_, hrest, hlast.imp_left fun hlast => ?_⟩
      · rw [List.flatten_cons, hflatten, append_assoc]
      · rw [getLast?_append, hlast]
        rfl

theorem fencedPieces_lined (fuel : Nat) {lines : List JsString} (h : Lined lines) :
    Piece.joined (fencedPieces fuel lines) = lines.flatten ∧
      LinedPieces (fencedPieces fuel lines) := by
  induction fuel generalizing lines with
  | zero => exact ⟨append_nil _, .inr rfl, trivial⟩
  | succ fuel ih =>
    cases lines with
    | nil => exact ⟨rfl, trivial⟩
    | cons line lines =>
      obtain ⟨hjoined, hpieces⟩ := ih h.2
      have hkept : Piece.joined (.kept line :: fencedPieces fuel lines) = (line :: lines).flatten ∧
          LinedPieces (.kept line :: fencedPieces fuel lines) := by
        refine ⟨?_, ?_, hpieces⟩
        · rw [Piece.joined_cons, hjoined]
          rfl
        · rw [hjoined]
          exact h.1
      rw [fencedPieces]
      split
      · rename_i hend
        rw [hend.1, hend.2]
        exact ⟨rfl, trivial⟩
      · split
        · exact hkept
        · split
          · exact hkept
          · rename_i block rest hclose
            obtain ⟨hflatten, hrest, hlast⟩ := closeFence_cases h.2 hclose
            obtain ⟨hjoined', hpieces'⟩ := ih hrest
            refine ⟨?_, ?_, hpieces'⟩
            · rw [Piece.joined_cons, hjoined', Piece.text, append_assoc, ← hflatten]
              rfl
            · rw [hjoined', Piece.text]
              refine hlast.imp_left fun hlast => ?_
              rw [getLast?_append, hlast]
              rfl

theorem fencedCode_lined (text : JsString) :
    Piece.joined (fencedCode text) = text ∧ LinedPieces (fencedCode text) := by
  have hlined : Lined (matchedLines text) := (lined_fullLines text).concat_nil
  obtain ⟨hjoined, hpieces⟩ := fencedPieces_lined (matchedLines text).length hlined
  refine ⟨?_, hpieces⟩
  rw [fencedCode, hjoined, matchedLines, flatten_append, flatten_fullLines]
  exact append_nil text

/-- A place between two pieces is at the beginning, after a newline or at the
end. -/
theorem LinedPieces.ends {before after : List Piece} (h : LinedPieces (before ++ after)) :
    Piece.joined before = [] ∨ (Piece.joined before).getLast? = some (unit '\n') ∨
      Piece.joined after = [] := by
  induction before with
  | nil => exact .inl rfl
  | cons piece before ih =>
    rw [cons_append] at h
    obtain hempty | hlast | hafter := ih h.2
    · rw [Piece.joined_cons, hempty, append_nil]
      refine .inr (h.1.imp_right fun hrest => ?_)
      rw [Piece.joined_append, hempty] at hrest
      exact hrest
    · refine .inr (.inl ?_)
      rw [Piece.joined_cons, getLast?_append, hlast]
      rfl
    · exact .inr (.inr hafter)

theorem not_cut_of_newline {count : Nat} {before after : JsString}
    (h : before = [] ∨ before.getLast? = some (unit '\n') ∨ after = []) :
    ¬ Cut (marks seed) count before after := by
  rintro ⟨k, -, a, b, ha, hb, hmark, hbefore, hafter⟩
  obtain rfl | hlast | rfl := h
  · exact ha (suffix_nil.mp hbefore)
  · obtain ⟨more, rfl⟩ := hbefore
    rw [getLast?_append_of_ne_nil _ ha] at hlast
    have hmem : unit '\n' ∈ (marks seed).mark k := by
      rw [hmark]
      exact mem_append_left b (mem_of_getLast? hlast)
    exact absurd (mem_mark hmem) (by decide)
  · exact hb (prefix_nil.mp hafter)

theorem LinedPieces.uncut {pieces : List Piece} (h : LinedPieces pieces) (count : Nat) :
    Uncut (marks seed) count pieces := by
  rintro before text after rfl
  refine ⟨not_cut_of_newline h.ends, not_cut_of_newline ?_⟩
  rw [← singleton_append, ← append_assoc] at h
  simpa [Piece.text] using h.ends

theorem body_not_inside (hfresh : ¬ seed.units <:+: original) (k : Nat) :
    ¬ (marks seed).body k <:+: original := by
  intro hbody
  have hunits : seed.units <:+: body seed k :=
    ⟨bodyPrefix, js "_" ++ JsString.ofNat k, append_assoc _ _ _⟩
  exact hfresh (hunits.trans hbody)

theorem exists_extractFencedCodeBlocks (h : Represents seed original e t)
    (hfresh : ¬ seed.units <:+: original) :
    ∃ t', Represents seed original (extractFencedCodeBlocks seed e) t' ∧
      (HoleFree t' ↔ HoleFree t ∧ ∀ code ∈ Piece.foundTexts (fencedCode e.text),
        ∀ block ∈ e.blocks, ¬ block.placeholder <:+: code) := by
  obtain ⟨hjoined, hpieces⟩ := fencedCode_lined e.text
  obtain ⟨t', news, hrep, hcontents, hnews, hholes⟩ :=
    h.takeOut .fencedCode hjoined (hpieces.uncut _)
  refine ⟨t', hrep, ?_⟩
  rw [holeFree_append hcontents, ← hnews]
  refine and_congr_right' ⟨?_, ?_⟩
  · intro hfree code hcode block hblock hheld
    obtain ⟨content, hcontent, rfl⟩ := mem_map.mp hcode
    obtain ⟨k, hk⟩ := getElem?_of_mem hblock
    have horiginal : render (marks seed) content <:+: original := by
      refine hrep.valid.render_inside ?_ (hfree content hcontent)
      rw [hcontents]
      exact mem_append_right _ hcontent
    rw [h.numbered k block hk, placeholder_eq] at hheld
    exact body_not_inside hfresh k ((body_infix_mark k).trans (hheld.trans horiginal))
  · intro hclear content hcontent k hk
    have hlt := hholes content hcontent k hk
    have hblock : e.blocks[k]? = some e.blocks[k] := getElem?_eq_getElem hlt
    refine hclear _ (mem_map_of_mem hcontent) _ (getElem_mem hlt) ?_
    rw [h.numbered k _ hblock, placeholder_eq]
    exact mark_infix_of_hole hk

/-! ## Restoration -/

theorem restorePreservedBlocks_eq {i : Nat} {blocks : List PreservedBlock}
    (h : ∀ (k : Nat) block, blocks[k]? = some block → block.placeholder = placeholder seed (i + k))
    (text : JsString) :
    restorePreservedBlocks text blocks =
      restoreFrom (marks seed) i (blocks.map PreservedBlock.content) text := by
  induction blocks generalizing i text with
  | nil => rfl
  | cons block blocks ih =>
    have hfirst : block.placeholder = (marks seed).mark i := by
      rw [h 0 block rfl, Nat.add_zero, placeholder_eq]
    have hrest : ∀ (k : Nat) block, blocks[k]? = some block →
        block.placeholder = placeholder seed (i + 1 + k) := by
      intro k block hblock
      rw [h (k + 1) block hblock, Nat.add_assoc, Nat.add_comm 1 k]
    rw [map_cons, restoreFrom, ← hfirst, ← ih hrest]
    rfl

theorem Represents.restore_eq_iff (h : Represents seed original e t)
    (hfresh : ¬ seed.units <:+: original) :
    restorePreservedBlocks e.text e.blocks = original ↔ HoleFree t := by
  have hnumbered : ∀ (k : Nat) block, e.blocks[k]? = some block →
      block.placeholder = placeholder seed (0 + k) := by
    intro k block hblock
    rw [Nat.zero_add]
    exact h.numbered k block hblock
  rw [restorePreservedBlocks_eq hnumbered, h.contents, h.text]
  exact Template.restoreFrom_eq_iff h.valid (body_not_inside hfresh)

/-! ## The round trip -/

/-- No match of a pattern of the user that is taken out begins or ends inside a
placeholder. -/
def UserUncut (seed : Seed) (preservePatterns : List (Option Matcher)) (text : JsString) : Prop :=
  PatternsUncut seed (compileUserPatterns preservePatterns)
    (extractFrontmatter seed { text := text })

/-- No closed fence has a placeholder between its lines when the fenced code is
taken out. -/
def FencesClear (seed : Seed) (preservePatterns : List (Option Matcher)) (text : JsString) : Prop :=
  let e := extractRegions seed preservePatterns text
  ∀ code ∈ Piece.foundTexts (fencedCode e.text), ∀ block ∈ e.blocks, ¬ block.placeholder <:+: code

instance (seed : Seed) (preservePatterns : List (Option Matcher)) (text : JsString) :
    Decidable (FencesClear seed preservePatterns text) :=
  inferInstanceAs (Decidable (∀ code ∈ Piece.foundTexts
    (fencedCode (extractRegions seed preservePatterns text).text),
    ∀ block ∈ (extractRegions seed preservePatterns text).blocks, ¬ block.placeholder <:+: code))

theorem exists_extractRegions {preservePatterns : List (Option Matcher)} {text : JsString}
    (huser : UserUncut seed preservePatterns text) :
    ∃ t, Represents seed text (extractRegions seed preservePatterns text) t ∧ HoleFree t := by
  obtain ⟨t, hrep, hfree⟩ := exists_extractFrontmatter seed text
  have henvelopes : ∀ e, PatternsUncut seed (compiled envelopes) e :=
    patternsUncut_compiled fun pattern hpattern => mem_append_left _ hpattern
  obtain ⟨t', hrep', hfree'⟩ :=
    exists_replacePatterns hrep (patternsUncut_append.mpr ⟨huser, henvelopes _⟩)
  exact ⟨t', hrep', hfree'.mpr hfree⟩

/-- The restoration gives the text back exactly when no fenced code holds a
placeholder. -/
theorem restored_iff (seed : Seed) (preservePatterns : List (Option Matcher)) (text : JsString)
    (hfresh : ¬ seed.units <:+: text) (huser : UserUncut seed preservePatterns text) :
    restorePreservedBlocks (extractPreservedBlocks seed preservePatterns text).text
        (extractPreservedBlocks seed preservePatterns text).blocks = text ↔
      FencesClear seed preservePatterns text := by
  obtain ⟨t, hregions, hfree⟩ := exists_extractRegions huser
  obtain ⟨t₁, hfenced, hfenced_iff⟩ := exists_extractFencedCodeBlocks hregions hfresh
  have hbuiltIns : ∀ e, PatternsUncut seed (compiled builtIns) e :=
    patternsUncut_compiled fun pattern hpattern => mem_append_right _ hpattern
  obtain ⟨t₂, hrep, hrep_iff⟩ := exists_replacePatterns hfenced (hbuiltIns _)
  calc restorePreservedBlocks (extractPreservedBlocks seed preservePatterns text).text
        (extractPreservedBlocks seed preservePatterns text).blocks = text
    _ ↔ HoleFree t₂ := hrep.restore_eq_iff hfresh
    _ ↔ HoleFree t₁ := hrep_iff
    _ ↔ HoleFree t ∧ FencesClear seed preservePatterns text := hfenced_iff
    _ ↔ FencesClear seed preservePatterns text := and_iff_right hfree

def sampleSeed : Seed where
  digits := js "4f"
  lower c hc := by
    obtain rfl | hc := mem_cons.mp hc
    · decide
    · rw [mem_singleton.mp hc]
      decide

/-- Fenced code with an instruction envelope in it. -/
def fencedReminder : JsString := js "```\n<system-reminder>x</system-reminder>\n```\n"

/-- Fenced code, an instruction envelope and a word of the user. -/
def separateBlocks : JsString := js "```\nx\n```\n<instruction>y</instruction> z"

def userWord (word : JsString) : Option Matcher := some (.ofPattern (.lit word))

theorem restored_iff_separateBlocks : UserUncut sampleSeed [userWord (js "z")] separateBlocks ∧
      FencesClear sampleSeed [userWord (js "z")] separateBlocks ∧
      restorePreservedBlocks
          (extractPreservedBlocks sampleSeed [userWord (js "z")] separateBlocks).text
          (extractPreservedBlocks sampleSeed [userWord (js "z")] separateBlocks).blocks =
        separateBlocks := by
  have huser : UserUncut sampleSeed [userWord (js "z")] separateBlocks := ⟨uncut_zero _, trivial⟩
  have hclear : FencesClear sampleSeed [userWord (js "z")] separateBlocks := by decide +kernel
  exact ⟨huser, hclear, (restored_iff _ _ _ (by decide) huser).mpr hclear⟩

-- The second pattern matches a part of the placeholder for `z`.
example : FencesClear sampleSeed [userWord (js "z"), userWord (js "OMNI")] (js "z") ∧
      restorePreservedBlocks
          (extractPreservedBlocks sampleSeed [userWord (js "z"), userWord (js "OMNI")] (js "z")).text
          (extractPreservedBlocks sampleSeed [userWord (js "z"), userWord (js "OMNI")]
            (js "z")).blocks ≠ js "z" := by
  decide +kernel

/-- The envelope is taken out first, the fenced code with its placeholder, and
the placeholder comes back too late. -/
theorem not_restored_fencedReminder : ¬ sampleSeed.units <:+: fencedReminder ∧
      restorePreservedBlocks (extractPreservedBlocks sampleSeed [] fencedReminder).text
          (extractPreservedBlocks sampleSeed [] fencedReminder).blocks ≠ fencedReminder := by
  decide +kernel

end RedRouter.Compression.Preservation
