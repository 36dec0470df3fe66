import Mathlib.Data.List.Basic

/-!
# Lists cut into segments

A segment is a head and the items that belong to it.  `flatten` writes the
segments of a list one after the other.  When a predicate `p` holds of every
head and of no other item, the segments can be read back from the flat list:
`exists_of_flatten_eq_head` finds the segment of a head, and
`exists_of_flatten_eq_body` finds the segment of an item.
-/

namespace RedRouter.Segments

open List

variable {α : Type}

def flatten (segs : List (α × List α)) : List α :=
  segs.flatMap (fun s => s.1 :: s.2)

@[simp] theorem flatten_nil : flatten ([] : List (α × List α)) = [] := rfl

@[simp] theorem flatten_cons (s : α × List α) (segs : List (α × List α)) :
    flatten (s :: segs) = s.1 :: (s.2 ++ flatten segs) := rfl

/-- `p` holds of the heads and of no other item. -/
def CutBy (p : α → Bool) (segs : List (α × List α)) : Prop :=
  ∀ s ∈ segs, p s.1 = true ∧ ∀ x ∈ s.2, p x = false

variable {p : α → Bool}

variable {segs : List (α × List α)}

theorem CutBy.tail {s : α × List α} (h : CutBy p (s :: segs)) : CutBy p segs :=
  fun t ht => h t (mem_cons_of_mem _ ht)

theorem CutBy.head {s : α × List α} (h : CutBy p (s :: segs)) :
    p s.1 = true ∧ ∀ x ∈ s.2, p x = false :=
  h s mem_cons_self

theorem filter_flatten (h : CutBy p segs) : (flatten segs).filter p = segs.map Prod.fst := by
  induction segs with
  | nil => rfl
  | cons s segs ih =>
    have hbody : s.2.filter p = [] := by
      rw [filter_eq_nil_iff]
      intro x hx
      simp [h.head.2 x hx]
    rw [flatten_cons, filter_cons, if_pos h.head.1, filter_append, hbody,
      ih h.tail, nil_append, map_cons]

theorem takeWhile_body {body : List α} (hbody : ∀ x ∈ body, p x = false) (h : CutBy p segs) :
    (body ++ flatten segs).takeWhile (fun x => !p x) = body := by
  rw [takeWhile_append_of_pos (by intro x hx; simp [hbody x hx])]
  cases segs with
  | nil => simp
  | cons s segs => simp [h.head.1]

/-- A place of the flat list where `p` holds is the head of a segment. -/
theorem exists_of_flatten_eq_head (h : CutBy p segs) {pre post : List α} {a : α}
    (heq : flatten segs = pre ++ a :: post) (ha : p a = true) :
    ∃ before body after, segs = before ++ (a, body) :: after ∧
      pre = flatten before ∧ post = body ++ flatten after := by
  induction segs generalizing pre with
  | nil => simp at heq
  | cons s segs ih =>
    cases pre with
    | nil =>
      obtain ⟨rfl, rfl⟩ := List.cons.inj heq
      exact ⟨[], s.2, segs, rfl, rfl, rfl⟩
    | cons x pre =>
      obtain ⟨rfl, hrest'⟩ := List.cons.inj heq
      rcases append_eq_append_iff.mp hrest' with ⟨l, hpre, hrest⟩ | ⟨l, hbody, hrest⟩
      · obtain ⟨before, body, after, hsegs, hbefore, hpost⟩ := ih h.tail hrest
        refine ⟨s :: before, body, after, ?_, ?_, hpost⟩
        · rw [hsegs]
          rfl
        · rw [flatten_cons, hpre, hbefore]
      · -- the head would be an item of the first segment
        cases l with
        | nil =>
          obtain ⟨before, body, after, hsegs, hbefore, hpost⟩ :=
            ih h.tail (hrest.symm.trans (nil_append _).symm)
          refine ⟨s :: before, body, after, ?_, ?_, hpost⟩
          · rw [hsegs]
            rfl
          · rw [flatten_cons, ← hbefore, hbody]
            simp
        | cons y l =>
          obtain ⟨rfl, -⟩ := List.cons.inj hrest
          have := h.head.2 a (by rw [hbody]; simp)
          rw [ha] at this
          exact Bool.noConfusion this

/-- A place of the flat list where `p` fails lies in the body of a segment,
and only items of that body stand between the head and the place. -/
theorem exists_of_flatten_eq_body (h : CutBy p segs) {pre post : List α} {t : α}
    (heq : flatten segs = pre ++ t :: post) (ht : p t = false) :
    ∃ before s after earlier later, segs = before ++ s :: after ∧
      s.2 = earlier ++ t :: later ∧ pre = flatten before ++ s.1 :: earlier := by
  induction segs generalizing pre with
  | nil => simp at heq
  | cons s segs ih =>
    cases pre with
    | nil =>
      obtain ⟨rfl, -⟩ := List.cons.inj heq
      rw [h.head.1] at ht
      exact Bool.noConfusion ht
    | cons x pre =>
      obtain ⟨rfl, hrest'⟩ := List.cons.inj heq
      rcases append_eq_append_iff.mp hrest' with ⟨l, hpre, hrest⟩ | ⟨l, hbody, hrest⟩
      · obtain ⟨before, s', after, earlier, later, hsegs, hs, hpre'⟩ := ih h.tail hrest
        refine ⟨s :: before, s', after, earlier, later, ?_, hs, ?_⟩
        · rw [hsegs]
          rfl
        · rw [flatten_cons, hpre, hpre']
          simp
      · cases l with
        | nil =>
          obtain ⟨before, s', after, earlier, later, hsegs, hs, hpre'⟩ :=
            ih h.tail (hrest.symm.trans (nil_append _).symm)
          refine ⟨s :: before, s', after, earlier, later, ?_, hs, ?_⟩
          · rw [hsegs]
            rfl
          · rw [flatten_cons, cons_append, append_assoc, ← hpre', hbody]
            simp
        | cons y l =>
          obtain ⟨rfl, -⟩ := List.cons.inj hrest
          exact ⟨[], s, segs, pre, l, rfl, hbody, rfl⟩

end RedRouter.Segments
