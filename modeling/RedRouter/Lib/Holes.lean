import RedRouter.Lib.Pieces

/-!
# Texts with holes

Pieces of a text are taken out, one after the other, and a mark with a number
stands for each.  What is taken out later can hold earlier marks.  A text with
marks is the rendering of a list of units and holes (`Seg`), and a `Template`
keeps with it what was taken out.

A mark is only read as one where it was put, as long as the body of no mark
occurs in the text itself: `replaceAll_render` says what the replacement of a
mark does to the units and holes.  Pieces whose ends do not fall inside a mark
are taken out of the list in the same way (`exists_cutOut`).

The marks are replaced again in the order in which they were put.  A mark that
was taken out with a later piece comes back when its own turn is over, so the
text is whole again exactly when no piece held a mark (`restoreFrom_eq_iff`).
-/

namespace RedRouter

open List

/-! ## Replacing all occurrences -/

namespace JsString

variable {needle repl : JsString}

theorem replaceAllAux_of_length_le (hne : needle ≠ []) (fuel : Nat) {s : JsString}
    (h : s.length ≤ fuel) : replaceAllAux needle repl fuel s = replaceAll s needle repl := by
  have hpos : 0 < needle.length := length_pos_iff.mpr hne
  induction fuel using Nat.strongRecOn generalizing s with
  | ind fuel ih =>
    cases s with
    | nil =>
      cases fuel with
      | zero => rfl
      | succ fuel => rfl
    | cons c cs =>
      obtain ⟨fuel, rfl⟩ : ∃ n, fuel = n + 1 := ⟨fuel - 1, by simp at h; omega⟩
      simp only [length_cons] at h
      rw [replaceAll, length_cons, replaceAllAux, replaceAllAux]
      have hdrop : ((c :: cs).drop needle.length).length ≤ cs.length := by
        simp only [length_drop, length_cons]
        omega
      split
      · rw [ih fuel (by omega) (Nat.le_trans hdrop (by omega)), ih cs.length (by omega) hdrop]
      · rw [ih fuel (by omega) (by omega), replaceAll]

theorem replaceAll_cons {c : UInt16} {cs : JsString} (h : ¬ needle <+: c :: cs) :
    replaceAll (c :: cs) needle repl = c :: replaceAll cs needle repl := by
  rw [replaceAll, length_cons, replaceAllAux,
    if_neg (fun hpre => h ( isPrefixOf_iff_prefix.mp hpre)), replaceAll]

theorem replaceAll_at_needle (hne : needle ≠ []) (rest : JsString) :
    replaceAll (needle ++ rest) needle repl = repl ++ replaceAll rest needle repl := by
  obtain ⟨c, cs, rfl⟩ := exists_cons_of_ne_nil hne
  have hpre : (c :: cs).isPrefixOf (c :: (cs ++ rest)) = true :=
    isPrefixOf_iff_prefix.mpr (prefix_append (c :: cs) rest)
  rw [replaceAll, cons_append, length_cons, replaceAllAux, if_pos hpre,
    replaceAllAux_of_length_le hne]
  · rw [← cons_append, drop_left]
  · rw [← cons_append, drop_left, length_append]
    omega

theorem replaceAll_skip {d : UInt16} {ds : JsString} {text : JsString} (h : d ∉ text)
    (rest : JsString) :
    replaceAll (text ++ rest) (d :: ds) repl = text ++ replaceAll rest (d :: ds) repl := by
  induction text with
  | nil => rfl
  | cons c cs ih =>
    rw [mem_cons, not_or] at h
    rw [cons_append, replaceAll_cons, ih h.2, cons_append]
    intro hpre
    exact h.1 (cons_prefix_cons.mp hpre).1

end JsString

variable (origs : List JsString)

namespace Holes

/-! ## Marks -/

/-- The marks: a body between two units that do not occur in it. -/
structure Marks where
  delim : UInt16
  body : Nat → JsString
  delim_not_mem : ∀ k, delim ∉ body k
  body_inj : ∀ {j k}, body j = body k → j = k

def Marks.mark (M : Marks) (k : Nat) : JsString := M.delim :: (M.body k ++ [M.delim])

/-- A unit of the text, or a hole. -/
inductive Seg where
  | unit (u : UInt16)
  | hole (k : Nat)
deriving DecidableEq

variable {M : Marks}

def Seg.render (M : Marks) : Seg → JsString
  | unit u => [u]
  | hole k => M.mark k

def render (M : Marks) (segs : List Seg) : JsString := segs.flatMap (Seg.render M)

def Seg.expand : Seg → JsString
  | unit u => [u]
  | hole k => origs.getD k []

/-- The text with the original texts in the holes. -/
def expand (origs : List JsString) (segs : List Seg) : JsString := segs.flatMap (Seg.expand origs)

def ofText (text : JsString) : List Seg := text.map Seg.unit

def subst (i : Nat) (content segs : List Seg) : List Seg :=
  segs.flatMap fun s => if s = .hole i then content else [s]

@[simp] theorem render_nil : render M [] = [] := rfl

@[simp] theorem render_cons (s : Seg) (segs : List Seg) :
    render M (s :: segs) = s.render M ++ render M segs := rfl

@[simp] theorem render_append (segs segs' : List Seg) :
    render M (segs ++ segs') = render M segs ++ render M segs' := flatMap_append

@[simp] theorem expand_append (segs segs' : List Seg) :
    expand origs (segs ++ segs') = expand origs segs ++ expand origs segs' := flatMap_append

@[simp] theorem expand_cons (s : Seg) (segs : List Seg) :
    expand origs (s :: segs) = s.expand origs ++ expand origs segs := rfl

@[simp] theorem subst_cons (i : Nat) (content : List Seg) (s : Seg) (segs : List Seg) :
    subst i content (s :: segs) =
      (if s = .hole i then content else [s]) ++ subst i content segs := rfl

theorem render_ofText (text : JsString) : render M (ofText text) = text := by
  induction text with
  | nil => rfl
  | cons u text ih => rw [ofText, map_cons, render_cons, ← ofText, ih]; rfl

theorem expand_ofText (text : JsString) : expand origs (ofText text) = text := by
  induction text with
  | nil => rfl
  | cons u text ih => rw [ofText, map_cons, expand_cons, ← ofText, ih]; rfl

theorem hole_not_mem_ofText (k : Nat) (text : JsString) : Seg.hole k ∉ ofText text := by
  simp [ofText]

variable {segs : List Seg}

theorem eq_ofText_of_no_hole (h : ∀ k, Seg.hole k ∉ segs) : segs = ofText (render M segs) := by
  induction segs with
  | nil => rfl
  | cons s segs ih =>
    cases s with
    | unit u =>
      have hrest := ih fun k hk => h k (mem_cons_of_mem _ hk)
      rw [render_cons, Seg.render, singleton_append, ofText, map_cons, ← ofText, ← hrest]
    | hole k => exact absurd mem_cons_self (h k)

theorem mark_infix_of_hole {k : Nat} (h : Seg.hole k ∈ segs) : M.mark k <:+: render M segs := by
  obtain ⟨before, after, rfl⟩ := append_of_mem h
  exact ⟨render M before, render M after, by simp [Seg.render]⟩

theorem body_infix_mark (k : Nat) : M.body k <:+: M.mark k :=
  ⟨[M.delim], [M.delim], by simp [Marks.mark]⟩

/-! ## Marks are read where they were put -/

/-- No stretch of units contains the body of a mark. -/
def Clean (M : Marks) (segs : List Seg) : Prop :=
  ∀ text, ofText text <:+: segs → ∀ k, ¬ M.body k <:+: text

theorem Clean.tail {s : Seg} (h : Clean M (s :: segs)) : Clean M segs :=
  fun text htext => h text (htext.trans (suffix_cons s segs).isInfix)

theorem prefix_units {text : JsString} (hdelim : M.delim ∉ text) (h : text <+: render M segs) :
    ∃ units, ofText units <+: segs ∧ text <+: units := by
  induction segs generalizing text with
  | nil => exact ⟨[], prefix_rfl, h⟩
  | cons s segs ih =>
    cases text with
    | nil => exact ⟨[], nil_prefix, nil_prefix⟩
    | cons c text =>
      cases s with
      | unit u =>
        rw [render_cons, Seg.render, singleton_append, cons_prefix_cons] at h
        obtain ⟨rfl, hrest⟩ := h
        obtain ⟨units, hunits, htext⟩ := ih (fun hmem => hdelim (mem_cons_of_mem _ hmem)) hrest
        refine ⟨c :: units, ?_, ?_⟩
        · exact cons_prefix_cons.mpr ⟨rfl, hunits⟩
        · exact cons_prefix_cons.mpr ⟨rfl, htext⟩
      | hole k =>
        rw [render_cons, Seg.render, Marks.mark, cons_append, cons_prefix_cons] at h
        rw [← h.1] at hdelim
        exact absurd mem_cons_self hdelim

theorem Clean.body_not_ahead (h : Clean M segs) (k : Nat) : ¬ M.body k <+: render M segs := by
  intro hpre
  obtain ⟨units, hunits, hbody⟩ := prefix_units (M.delim_not_mem k) hpre
  exact h units hunits.isInfix k hbody.isInfix

theorem Clean.mark_not_ahead (h : Clean M segs) (u : UInt16) (k : Nat) :
    ¬ M.mark k <+: u :: render M segs := by
  intro hpre
  rw [Marks.mark, cons_prefix_cons] at hpre
  exact h.body_not_ahead k ((prefix_append _ _).trans hpre.2)

theorem eq_of_prefix_delim {d : UInt16} {a b rest : JsString} (ha : d ∉ a) (hb : d ∉ b)
    (h : a ++ [d] <+: b ++ d :: rest) : a = b := by
  induction a generalizing b with
  | nil =>
    cases b with
    | nil => rfl
    | cons c b =>
      rw [nil_append, cons_append, cons_prefix_cons] at h
      rw [← h.1] at hb
      exact absurd mem_cons_self hb
  | cons c a ih =>
    cases b with
    | nil =>
      rw [cons_append, nil_append, cons_prefix_cons] at h
      rw [← h.1] at ha
      exact absurd mem_cons_self ha
    | cons c' b =>
      rw [cons_append, cons_append, cons_prefix_cons] at h
      rw [h.1, ih (fun hmem => ha (mem_cons_of_mem _ hmem))
        (fun hmem => hb (mem_cons_of_mem _ hmem)) h.2]

theorem replaceAll_mark {i k : Nat} (hne : k ≠ i) (h : Clean M segs) (repl : JsString) :
    JsString.replaceAll (M.mark k ++ render M segs) (M.mark i) repl =
      M.mark k ++ JsString.replaceAll (render M segs) (M.mark i) repl := by
  have hfirst : ¬ M.mark i <+: M.delim :: (M.body k ++ M.delim :: render M segs) := by
    intro hpre
    rw [Marks.mark, cons_prefix_cons] at hpre
    exact hne (M.body_inj (eq_of_prefix_delim (M.delim_not_mem i) (M.delim_not_mem k) hpre.2)).symm
  have hmark : M.mark k ++ render M segs =
      M.delim :: (M.body k ++ M.delim :: render M segs) := by simp [Marks.mark]
  rw [hmark, JsString.replaceAll_cons hfirst]
  conv_lhs => rw [Marks.mark]
  rw [JsString.replaceAll_skip (M.delim_not_mem k), ← Marks.mark,
    JsString.replaceAll_cons (h.mark_not_ahead M.delim i)]
  simp [Marks.mark]

theorem replaceAll_render (h : Clean M segs) (i : Nat) (content : List Seg) :
    JsString.replaceAll (render M segs) (M.mark i) (render M content) =
      render M (subst i content segs) := by
  induction segs with
  | nil => rfl
  | cons s segs ih =>
    cases s with
    | unit u =>
      rw [render_cons, Seg.render, singleton_append,
        JsString.replaceAll_cons (h.tail.mark_not_ahead u i), ih h.tail]
      simp [Seg.render]
    | hole k =>
      rw [render_cons, Seg.render, subst_cons]
      by_cases hk : k = i
      · subst hk
        rw [JsString.replaceAll_at_needle (by simp [Marks.mark]), ih h.tail, if_pos rfl, render_append]
      · rw [replaceAll_mark hk h.tail, ih h.tail, if_neg (by simpa using hk)]
        simp [Seg.render]

/-! ## Templates -/

/-- A text with holes, what was taken out for each, and the texts that these
were in the beginning. -/
structure Template where
  segs : List Seg
  contents : List (List Seg) := []
  origs : List JsString := []

namespace Template

/-- The template is one of the text. -/
structure Valid (text : JsString) (t : Template) : Prop where
  length : t.origs.length = t.contents.length
  whole : expand t.origs t.segs = text
  orig : ∀ (k : Nat) content, t.contents[k]? = some content → t.origs[k]? = some (expand t.origs content)
  inside : ∀ orig ∈ t.origs, orig <:+: text
  bounded : ∀ k, Seg.hole k ∈ t.segs → k < t.contents.length
  earlier : ∀ (i : Nat) content, t.contents[i]? = some content → ∀ k, Seg.hole k ∈ content → k < i
  used : ∀ k < t.contents.length, Seg.hole k ∈ t.segs ∨
    ∃ (i : Nat) (content : List Seg), k < i ∧ t.contents[i]? = some content ∧ Seg.hole k ∈ content

def take (t : Template) (before piece after : List Seg) : Template where
  segs := before ++ .hole t.contents.length :: after
  contents := t.contents ++ [piece]
  origs := t.origs ++ [expand t.origs piece]

theorem valid_ofText (text : JsString) : Valid text { segs := ofText text } where
  length := rfl
  whole := expand_ofText [] text
  orig := by simp
  inside := by simp
  bounded := fun k hk => absurd hk (hole_not_mem_ofText k text)
  earlier := by simp
  used := by simp

theorem expand_append_origs {origs more : List JsString} {segs : List Seg}
    (h : ∀ k, Seg.hole k ∈ segs → k < origs.length) :
    expand (origs ++ more) segs = expand origs segs := by
  induction segs with
  | nil => rfl
  | cons s segs ih =>
    rw [expand_cons, expand_cons, ih fun k hk => h k (mem_cons_of_mem _ hk)]
    cases s with
    | unit u => rfl
    | hole k =>
      have hk := h k mem_cons_self
      simp [Seg.expand, getElem?_append_left hk]

theorem getElem?_concat_cases {α : Type} {l : List α} {x y : α} {k : Nat}
    (h : (l ++ [x])[k]? = some y) : k < l.length ∧ l[k]? = some y ∨ k = l.length ∧ y = x := by
  rw [getElem?_append] at h
  split at h
  · rename_i hk
    exact .inl ⟨hk, h⟩
  · rw [getElem?_singleton] at h
    split at h
    · exact .inr ⟨by omega, (Option.some.inj h).symm⟩
    · cases h

theorem Valid.take {text : JsString} {t : Template} (h : Valid text t)
    {before piece after : List Seg} (hsegs : t.segs = before ++ (piece ++ after)) :
    Valid text (t.take before piece after) := by
  have hlength := h.length
  have hbound : ∀ k, Seg.hole k ∈ before ++ (piece ++ after) → k < t.origs.length := by
    intro k hk
    rw [hlength]
    exact h.bounded k (by rw [hsegs]; exact hk)
  have hsame : ∀ part, (∀ k, Seg.hole k ∈ part → Seg.hole k ∈ before ++ (piece ++ after)) →
      expand (t.origs ++ [expand t.origs piece]) part = expand t.origs part :=
    fun part hpart => expand_append_origs fun k hk => hbound k (hpart k hk)
  refine ⟨?_, ?_, ?_, ?_, ?_, ?_, ?_⟩
  · simp [Template.take, hlength]
  · have hhole : Seg.expand (t.origs ++ [expand t.origs piece]) (.hole t.contents.length) =
        expand t.origs piece := by
      rw [Seg.expand, ← hlength]
      simp
    have hwhole := h.whole
    rw [hsegs, expand_append, expand_append] at hwhole
    rw [Template.take, expand_append, expand_cons, hhole,
      hsame before fun k hk => mem_append_left _ hk,
      hsame after fun k hk => mem_append_right _ (mem_append_right _ hk)]
    exact hwhole
  · intro k content hcontent
    rw [Template.take] at hcontent ⊢
    obtain ⟨hk, hcontent⟩ | ⟨hk, rfl⟩ := getElem?_concat_cases hcontent
    · have hbounds : ∀ j, Seg.hole j ∈ content → j < t.origs.length := by
        intro j hj
        have := h.earlier k content hcontent j hj
        omega
      rw [getElem?_append_left (by omega), h.orig k content hcontent, expand_append_origs hbounds]
    · rw [hsame content fun k hk => mem_append_right _ (mem_append_left _ hk), hk, ← hlength]
      simp
  · intro orig horig
    obtain horig | horig := mem_append.mp horig
    · exact h.inside orig horig
    · rw [mem_singleton.mp horig, ← h.whole, hsegs]
      exact ⟨expand t.origs before, expand t.origs after, by simp⟩
  · intro k hk
    simp only [Template.take, length_append, length_singleton] at hk ⊢
    obtain hk | hk := mem_append.mp hk
    · have := hbound k (mem_append_left _ hk)
      omega
    · obtain hk | hk := mem_cons.mp hk
      · cases hk
        omega
      · have := hbound k (mem_append_right _ (mem_append_right _ hk))
        omega
  · intro i content hcontent k hk
    rw [Template.take] at hcontent
    obtain ⟨-, hcontent⟩ | ⟨hi, rfl⟩ := getElem?_concat_cases hcontent
    · exact h.earlier i content hcontent k hk
    · have := hbound k (mem_append_right _ (mem_append_left _ hk))
      omega
  · intro k hk
    simp only [Template.take, length_append, length_singleton] at hk ⊢
    obtain hlt | heq := Nat.lt_or_ge k t.contents.length
    · obtain hin | ⟨i, content, hi, hcontent, hin⟩ := h.used k hlt
      · rw [hsegs] at hin
        obtain hin | hin := mem_append.mp hin
        · exact .inl (mem_append_left _ hin)
        · obtain hin | hin := mem_append.mp hin
          · refine .inr ⟨t.contents.length, piece, hlt, ?_, hin⟩
            simp
          · exact .inl (mem_append_right _ (mem_cons_of_mem _ hin))
      · refine .inr ⟨i, content, hi, ?_, hin⟩
        have hlen := (List.getElem?_eq_some_iff.mp hcontent).1
        rw [getElem?_append_left hlen]
        exact hcontent
    · have hkn : k = t.contents.length := by omega
      subst hkn
      exact .inl (mem_append_right _ mem_cons_self)

end Template

/-! ## Taking pieces out -/

/-- A mark goes over the place between two texts. -/
def Cut (M : Marks) (count : Nat) (before after : JsString) : Prop :=
  ∃ k < count, ∃ a b, a ≠ [] ∧ b ≠ [] ∧ M.mark k = a ++ b ∧ a <:+ before ∧ b <+: after

/-- No end of a found piece falls inside a mark. -/
def Uncut (M : Marks) (count : Nat) (pieces : List Piece) : Prop :=
  ∀ before text after, pieces = before ++ .found text :: after →
    ¬ Cut M count (Piece.joined before) (text ++ Piece.joined after) ∧
      ¬ Cut M count (Piece.joined before ++ text) (Piece.joined after)

/-- The text with marks for the found pieces, numbered from `n` on. -/
def cutOut (M : Marks) : Nat → List Piece → JsString
  | _, [] => []
  | n, .kept text :: pieces => text ++ cutOut M n pieces
  | n, .found _ :: pieces => M.mark n ++ cutOut M (n + 1) pieces

/-- A text with marks is cut at a place by its units and holes, or inside a
mark. -/
theorem render_split {before after : JsString} (h : render M segs = before ++ after) :
    (∃ left right, segs = left ++ right ∧ render M left = before ∧ render M right = after) ∨
      ∃ k a b, Seg.hole k ∈ segs ∧ a ≠ [] ∧ b ≠ [] ∧ M.mark k = a ++ b ∧ a <:+ before ∧
        b <+: after := by
  induction segs generalizing before with
  | nil =>
    obtain ⟨rfl, rfl⟩ := append_eq_nil_iff.mp h.symm
    exact .inl ⟨[], [], rfl, rfl, rfl⟩
  | cons s segs ih =>
    by_cases hnil : before = []
    · subst hnil
      exact .inl ⟨[], s :: segs, rfl, rfl, h⟩
    · obtain ⟨rest, hbefore, hrest⟩ | ⟨rest, hmark, hafter⟩ := append_eq_append_iff.mp h
      · -- the segment stands before the place
        obtain ⟨left, right, rfl, hleft, hright⟩ | ⟨k, a, b, hk, ha, hb, hab, hsuffix, hprefix⟩ :=
          ih hrest
        · refine .inl ⟨s :: left, right, rfl, ?_, hright⟩
          rw [render_cons, hleft, hbefore]
        · refine .inr ⟨k, a, b, mem_cons_of_mem _ hk, ha, hb, hab, ?_, hprefix⟩
          rw [hbefore]
          exact hsuffix.trans (suffix_append _ _)
      · by_cases hempty : rest = []
        · subst hempty
          exact .inl ⟨[s], segs, rfl, by simpa using hmark, hafter.symm⟩
        · cases s with
          | unit u =>
            rw [Seg.render] at hmark
            have hlength := congrArg List.length hmark
            have hpos := length_pos_iff.mpr hnil
            have hpos' := length_pos_iff.mpr hempty
            simp only [length_singleton, length_append] at hlength
            omega
          | hole k =>
            refine .inr ⟨k, before, rest, mem_cons_self, hnil, hempty, hmark, suffix_rfl, ?_⟩
            rw [hafter]
            exact prefix_append _ _

theorem Cut.of_suffix {count : Nat} {before before' after : JsString} (h : before <:+ before')
    (hcut : Cut M count before after) : Cut M count before' after := by
  obtain ⟨k, hk, a, b, ha, hb, hab, hsuffix, hprefix⟩ := hcut
  exact ⟨k, hk, a, b, ha, hb, hab, hsuffix.trans h, hprefix⟩

theorem split_of_not_cut {count : Nat} {before after : JsString}
    (hbound : ∀ k, Seg.hole k ∈ segs → k < count) (hcut : ¬ Cut M count before after)
    (h : render M segs = before ++ after) :
    ∃ left right, segs = left ++ right ∧ render M left = before ∧ render M right = after := by
  obtain hsplit | ⟨k, a, b, hk, ha, hb, hab, hsuffix, hprefix⟩ := render_split h
  · exact hsplit
  · exact absurd ⟨k, hbound k hk, a, b, ha, hb, hab, hsuffix, hprefix⟩ hcut

/-- The loop over the pieces: `done` has its marks, `rest` has not, and
`pending` is the text of `rest` that is kept so far. -/
theorem exists_cutOut_from {text : JsString} {t : Template} (hvalid : t.Valid text)
    (done rest : List Seg) (pending : JsString) {count : Nat} {pieces : List Piece}
    (hsegs : t.segs = done ++ rest) (hrest : render M rest = pending ++ Piece.joined pieces)
    (hbound : ∀ k, Seg.hole k ∈ rest → k < count)
    (huncut : ∀ before piece after, pieces = before ++ .found piece :: after →
      ¬ Cut M count (pending ++ Piece.joined before) (piece ++ Piece.joined after) ∧
        ¬ Cut M count (pending ++ (Piece.joined before ++ piece)) (Piece.joined after)) :
    ∃ t' : Template, ∃ news, t'.Valid text ∧
      render M t'.segs = render M done ++ (pending ++ cutOut M t.contents.length pieces) ∧
      t'.contents = t.contents ++ news ∧ news.map (render M) = Piece.foundTexts pieces ∧
      ∀ content ∈ news, ∀ k, Seg.hole k ∈ content → k < count := by
  induction pieces generalizing t done rest pending with
  | nil =>
    refine ⟨t, [], hvalid, ?_, by simp, rfl, by simp⟩
    rw [hsegs, render_append, hrest]
    rfl
  | cons piece pieces ih =>
    cases piece with
    | kept s =>
      have hgo := ih hvalid done rest (pending ++ s) hsegs
        (by rw [hrest, Piece.joined_cons, Piece.text, append_assoc]) hbound
        (by
          intro before piece after hpieces
          have hcut := huncut (.kept s :: before) piece after (by rw [hpieces]; rfl)
          simpa only [Piece.joined_cons, Piece.text, append_assoc] using hcut)
      obtain ⟨t', news, hvalid', hrender, hcontents, hnews⟩ := hgo
      refine ⟨t', news, hvalid', ?_, hcontents, hnews⟩
      rw [hrender, cutOut, append_assoc]
    | found s =>
      obtain ⟨hstart, hend⟩ := huncut [] s pieces rfl
      simp only [Piece.joined_nil, append_nil] at hstart hend
      obtain ⟨left, right, rfl, hleft, hright⟩ := split_of_not_cut hbound hstart hrest
      have hboundRight : ∀ k, Seg.hole k ∈ right → k < count :=
        fun k hk => hbound k (mem_append_right _ hk)
      have hendRight : ¬ Cut M count s (Piece.joined pieces) :=
        fun hcut => hend (hcut.of_suffix (suffix_append _ _))
      obtain ⟨taken, later, rfl, htaken, hlater⟩ := split_of_not_cut hboundRight hendRight hright
      have hsplit : t.segs = (done ++ left) ++ (taken ++ later) := by
        rw [hsegs, append_assoc]
      have hgo := ih (hvalid.take hsplit) (done ++ left ++ [.hole t.contents.length]) later []
        (by simp [Template.take]) (by simpa using hlater)
        (fun k hk => hboundRight k (mem_append_right _ hk))
        (by
          intro before piece after hpieces
          obtain ⟨hstart', hend'⟩ := huncut (.found s :: before) piece after (by rw [hpieces]; rfl)
          simp only [Piece.joined_cons, append_assoc] at hstart' hend'
          refine ⟨fun hcut => hstart' (hcut.of_suffix ?_), fun hcut => hend' (hcut.of_suffix ?_)⟩
          · exact (suffix_append s _).trans (suffix_append pending _)
          · exact (suffix_append s _).trans (suffix_append pending _))
      obtain ⟨t', news, hvalid', hrender, hcontents, hnews, hholes⟩ := hgo
      refine ⟨t', taken :: news, hvalid', ?_, ?_, ?_, ?_⟩
      · rw [hrender, cutOut]
        simp [Template.take, Seg.render, hleft]
      · rw [hcontents]
        simp [Template.take]
      · rw [map_cons, htaken, hnews, Piece.foundTexts]
      · intro content hcontent k hk
        obtain rfl | hcontent := mem_cons.mp hcontent
        · exact hboundRight k (mem_append_left _ hk)
        · exact hholes content hcontent k hk

/-- Pieces whose ends are not inside a mark are taken out of the template. -/
theorem exists_cutOut {text : JsString} {t : Template} (hvalid : t.Valid text) {pieces : List Piece}
    (hpieces : render M t.segs = Piece.joined pieces)
    (huncut : Uncut M t.contents.length pieces) :
    ∃ t' : Template, ∃ news, t'.Valid text ∧ render M t'.segs = cutOut M t.contents.length pieces ∧
      t'.contents = t.contents ++ news ∧ news.map (render M) = Piece.foundTexts pieces ∧
      ∀ content ∈ news, ∀ k, Seg.hole k ∈ content → k < t.contents.length := by
  have hgo := exists_cutOut_from hvalid [] t.segs [] rfl hpieces hvalid.bounded (by
      intro before piece after heq
      exact huncut before piece after heq)
  simpa using hgo

/-! ## Filling the holes again -/

/-- The marks from `i` on are replaced, one after the other. -/
def restoreFrom (M : Marks) : Nat → List JsString → JsString → JsString
  | _, [], text => text
  | i, content :: contents, text =>
      restoreFrom M (i + 1) contents (JsString.replaceAll text (M.mark i) content)

/-- The holes from `i` on are filled, one after the other. -/
def substFrom : Nat → List (List Seg) → List Seg → List Seg
  | _, [], segs => segs
  | i, content :: contents, segs => substFrom (i + 1) contents (subst i content segs)

theorem mem_subst {i : Nat} {content : List Seg} {s : Seg} : s ∈ subst i content segs ↔
      s ∈ segs ∧ s ≠ .hole i ∨ Seg.hole i ∈ segs ∧ s ∈ content := by
  simp only [subst, mem_flatMap]
  constructor
  · rintro ⟨x, hx, hs⟩
    split at hs
    · rename_i heq
      rw [heq] at hx
      exact .inr ⟨hx, hs⟩
    · rename_i hne
      rw [mem_singleton.mp hs]
      exact .inl ⟨hx, hne⟩
  · rintro (⟨hs, hne⟩ | ⟨hi, hs⟩)
    · exact ⟨s, hs, by rw [if_neg hne]; exact mem_singleton_self s⟩
    · exact ⟨.hole i, hi, by rw [if_pos rfl]; exact hs⟩

variable {contents : List (List Seg)}

theorem mem_substFrom_of_lt {i k : Nat} (hk : k < i) (h : Seg.hole k ∈ segs) :
    Seg.hole k ∈ substFrom i contents segs := by
  induction contents generalizing i segs with
  | nil => exact h
  | cons content contents ih =>
    refine ih (by omega) (mem_subst.mpr (.inl ⟨h, ?_⟩))
    rw [Ne, Seg.hole.injEq]
    omega

/-- A hole in a content that is still to be filled in comes back too late. -/
theorem mem_substFrom_of_nested {i j k : Nat} {content : List Seg} (hj : Seg.hole (i + j) ∈ segs)
    (hcontent : contents[j]? = some content) (hk : Seg.hole k ∈ content) (hlt : k < i + j) :
    Seg.hole k ∈ substFrom i contents segs := by
  induction contents generalizing i j segs with
  | nil => simp at hcontent
  | cons first contents ih =>
    cases j with
    | zero =>
      simp only [getElem?_cons_zero, Option.some.injEq] at hcontent
      subst hcontent
      show Seg.hole k ∈ substFrom (i + 1) contents (subst i first segs)
      exact mem_substFrom_of_lt (by omega) (mem_subst.mpr (.inr ⟨hj, hk⟩))
    | succ j =>
      have hnext : Seg.hole (i + 1 + j) ∈ subst i first segs := by
        refine mem_subst.mpr (.inl ⟨?_, ?_⟩)
        · rw [show i + 1 + j = i + (j + 1) by omega]
          exact hj
        · rw [Ne, Seg.hole.injEq]
          omega
      exact ih hnext hcontent (by omega)

theorem no_hole_substFrom {i : Nat} (hcontents : ∀ content ∈ contents, ∀ k, Seg.hole k ∉ content)
    (hsegs : ∀ k, Seg.hole k ∈ segs → i ≤ k ∧ k < i + contents.length) (k : Nat) :
    Seg.hole k ∉ substFrom i contents segs := by
  induction contents generalizing i segs with
  | nil =>
    intro hk
    have := hsegs k hk
    simp only [length_nil] at this
    omega
  | cons content contents ih =>
    refine ih (fun c hc => hcontents c (mem_cons_of_mem _ hc)) ?_
    intro j hj
    obtain ⟨hj, hne⟩ | ⟨-, hj⟩ := mem_subst.mp hj
    · have hrange := hsegs j hj
      have hij : j ≠ i := fun heq => hne (by rw [heq])
      simp only [length_cons] at hrange
      omega
    · exact absurd hj (hcontents content mem_cons_self j)

namespace Template

variable {text : JsString} {t : Template}

theorem clean_of_expand {origs : List JsString} {segs : List Seg}
    (hwhole : expand origs segs = text) (hfresh : ∀ k, ¬ M.body k <:+: text) : Clean M segs := by
  rintro units ⟨before, after, rfl⟩ k hbody
  refine hfresh k (hbody.trans ⟨expand origs before, expand origs after, ?_⟩)
  rw [← hwhole, expand_append, expand_append, expand_ofText]

variable {content : List Seg}

theorem expand_subst {origs : List JsString} {i : Nat}
    (horig : origs[i]? = some (expand origs content)) (segs : List Seg) :
    expand origs (subst i content segs) = expand origs segs := by
  induction segs with
  | nil => rfl
  | cons s segs ih =>
    rw [subst_cons, expand_append, expand_cons, ih]
    split
    · rename_i heq
      rw [heq, Seg.expand, getD_eq_getElem?_getD, horig]
      rfl
    · simp [expand]

section

variable (hvalid : t.Valid text)
include hvalid

theorem Valid.render_inside (hcontent : content ∈ t.contents)
    (hfree : ∀ k, Seg.hole k ∉ content) : render M content <:+: text := by
  obtain ⟨i, hi⟩ := getElem?_of_mem hcontent
  have horig := hvalid.orig i content hi
  rw [eq_ofText_of_no_hole (M := M) hfree, expand_ofText] at horig
  exact hvalid.inside _ (mem_of_getElem? horig)

/-- The replacement of the marks fills the holes, and the text stays whole. -/
theorem restoreFrom_render (hfresh : ∀ k, ¬ M.body k <:+: text)
    {i : Nat} {contents : List (List Seg)} (hcontents : t.contents.drop i = contents)
    {segs : List Seg} (hwhole : expand t.origs segs = text) :
    restoreFrom M i (contents.map (render M)) (render M segs) =
        render M (substFrom i contents segs) ∧
      expand t.origs (substFrom i contents segs) = text := by
  induction contents generalizing i segs with
  | nil => exact ⟨rfl, hwhole⟩
  | cons content contents ih =>
    have hhead : t.contents[i]? = some content := by
      rw [← head?_drop, hcontents]
      rfl
    have htail : t.contents.drop (i + 1) = contents := by
      rw [← drop_drop, hcontents]
      rfl
    rw [map_cons, restoreFrom, replaceAll_render (clean_of_expand hwhole hfresh), substFrom]
    refine ih htail ?_
    rw [expand_subst (hvalid.orig i content hhead), hwhole]

/-- When a content has a hole, so has one whose own hole is in the text. -/
theorem exists_outer {i k : Nat} (hcontent : t.contents[i]? = some content)
    (hk : Seg.hole k ∈ content) :
    ∃ (j : Nat) (content' : List Seg) (k' : Nat), Seg.hole j ∈ t.segs ∧
      t.contents[j]? = some content' ∧ Seg.hole k' ∈ content' := by
  induction hn : t.contents.length - i using Nat.strongRecOn generalizing i k content with
  | ind n ih =>
    have hi := (List.getElem?_eq_some_iff.mp hcontent).1
    obtain hin | ⟨m, content', hm, hcontent', hin⟩ := hvalid.used i hi
    · exact ⟨i, content, k, hin, hcontent, hk⟩
    · exact ih (t.contents.length - m) (by omega) hcontent' hin rfl

/-- The text is whole again exactly when nothing that was taken out held a
mark. -/
theorem restoreFrom_eq_iff (hfresh : ∀ k, ¬ M.body k <:+: text) :
    restoreFrom M 0 (t.contents.map (render M)) (render M t.segs) = text ↔
      ∀ content ∈ t.contents, ∀ k, Seg.hole k ∉ content := by
  obtain ⟨hrestore, hwhole⟩ :=
    restoreFrom_render hvalid hfresh (i := 0) (drop_zero) hvalid.whole
  rw [hrestore]
  constructor
  · intro heq content hmem k hk
    obtain ⟨i, hi⟩ := getElem?_of_mem hmem
    obtain ⟨j, content', k', hj, hcontent', hk'⟩ := exists_outer hvalid hi hk
    have hlate : Seg.hole k' ∈ substFrom 0 t.contents t.segs :=
      mem_substFrom_of_nested (by rwa [Nat.zero_add]) hcontent' hk'
        (by rw [Nat.zero_add]; exact hvalid.earlier j content' hcontent' k' hk')
    refine hfresh k' ((body_infix_mark k').trans ?_)
    rw [← heq]
    exact mark_infix_of_hole hlate
  · intro hnone
    have hno := no_hole_substFrom (i := 0) hnone
      (fun k hk => ⟨Nat.zero_le k, by simpa using hvalid.bounded k hk⟩)
    have hunits := eq_ofText_of_no_hole (M := M) hno
    rw [hunits, expand_ofText] at hwhole
    exact hwhole

end

end Template

end Holes

end RedRouter
