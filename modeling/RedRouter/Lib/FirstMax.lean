import Mathlib.Data.List.Basic
import Mathlib.Order.Lattice

/-!
# The first maximum of a list

A loop that keeps the best element so far, and changes it for a better one only, ends
with the first of the best (`firstMax_foldl`).  A list has one first maximum
(`FirstMax.unique`).
-/

namespace RedRouter

open List

variable {α β : Type} [LinearOrder β]

/-- Better than what is before it, and as good as what is after it. -/
def FirstMax (value : α → β) (l : List α) (x : α) : Prop :=
  ∃ before after, l = before ++ x :: after ∧ (∀ y ∈ before, value y < value x) ∧
    ∀ y ∈ after, value y ≤ value x

namespace FirstMax

variable {value : α → β} {l : List α} {x y : α}

theorem mem (h : FirstMax value l x) : x ∈ l := by
  obtain ⟨before, after, rfl, -, -⟩ := h
  exact mem_append_right _ mem_cons_self

theorem congr {value' : α → β} (h : FirstMax value l x) (hvalue : ∀ y ∈ l, value' y = value y) :
    FirstMax value' l x := by
  have hx := hvalue x h.mem
  obtain ⟨before, after, rfl, hbefore, hafter⟩ := h
  refine ⟨before, after, rfl, fun y hy => ?_, fun y hy => ?_⟩
  · rw [hvalue y (mem_append_left _ hy), hx]
    exact hbefore y hy
  · rw [hvalue y (mem_append_right _ (mem_cons_of_mem _ hy)), hx]
    exact hafter y hy

/-- Of two, the one that stands behind would be better and not better than the other. -/
theorem unique (hx : FirstMax value l x) (hy : FirstMax value l y) : x = y := by
  obtain ⟨before, after, rfl, hbefore, hafter⟩ := hx
  obtain ⟨before', after', heq, hbefore', hafter'⟩ := hy
  rcases append_eq_append_iff.mp heq with ⟨between, rfl, hrest⟩ | ⟨between, rfl, hrest⟩
  · cases between with
    | nil => exact (List.cons.inj hrest).1
    | cons z between =>
      obtain ⟨rfl, rfl⟩ := List.cons.inj hrest
      have hlt := hbefore' x (mem_append_right _ mem_cons_self)
      have hle := hafter y (mem_append_right _ mem_cons_self)
      exact absurd hlt (not_lt.mpr hle)
  · cases between with
    | nil => exact (List.cons.inj hrest).1.symm
    | cons z between =>
      obtain ⟨rfl, rfl⟩ := List.cons.inj hrest
      have hlt := hbefore y (mem_append_right _ mem_cons_self)
      have hle := hafter' x (mem_append_right _ mem_cons_self)
      exact absurd hlt (not_lt.mpr hle)

end FirstMax

theorem firstMax_foldl (value : α → β) (first : α) (rest : List α) : FirstMax value (first :: rest)
      (rest.foldl (fun best x => if value best < value x then x else best) first) := by
  induction rest generalizing first with
  | nil => exact ⟨[], [], rfl, fun y hy => (nomatch hy), fun y hy => (nomatch hy)⟩
  | cons x rest ih =>
    rw [foldl_cons]
    split
    · rename_i hlt
      obtain ⟨before, after, heq, hbefore, hafter⟩ := ih x
      refine ⟨first :: before, after, congrArg (first :: ·) heq, fun y hy => ?_, hafter⟩
      rcases mem_cons.mp hy with rfl | hy
      · cases before with
        | nil =>
          rw [← (List.cons.inj heq).1]
          exact hlt
        | cons z before =>
          obtain ⟨rfl, -⟩ := List.cons.inj heq
          exact lt_trans hlt (hbefore _ mem_cons_self)
      · exact hbefore y hy
    · rename_i hle
      obtain ⟨before, after, heq, hbefore, hafter⟩ := ih first
      cases before with
      | nil =>
        obtain ⟨hbest, rfl⟩ := List.cons.inj heq
        rw [← hbest]
        refine ⟨[], x :: rest, rfl, fun y hy => (nomatch hy), fun y hy => ?_⟩
        rcases mem_cons.mp hy with rfl | hy
        · exact not_lt.mp hle
        · rw [hbest]
          exact hafter y hy
      | cons z before =>
        obtain ⟨rfl, hrest⟩ := List.cons.inj heq
        refine ⟨first :: x :: before, after, ?_, fun y hy => ?_, hafter⟩
        · exact congrArg (first :: x :: ·) hrest
        · have hfirst := hbefore first mem_cons_self
          rcases mem_cons.mp hy with rfl | hy
          · exact hfirst
          rcases mem_cons.mp hy with rfl | hy
          · exact lt_of_le_of_lt (not_lt.mp hle) hfirst
          · exact hbefore y (mem_cons_of_mem _ hy)

end RedRouter
