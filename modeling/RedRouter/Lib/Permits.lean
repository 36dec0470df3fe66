import Mathlib.Data.List.Basic

/-!
# Permits of a generation

A pool hands out a number of permits in each generation.  Whoever takes a
permit keeps the generation it was taken in, and may come back with it late,
or never.  A new generation hands out permits anew and forgets the old ones
without waiting for them.

`Sound` is what bounds the permits that are out: those of the current
generation and the free ones are together at most the capacity.  It is kept by
the three things that happen to a pool: `take`, `giveBack` and `renew`.
-/

namespace RedRouter.Permits

/-- The current generation, its free permits, and the generations of the
permits that are out. -/
structure Pool where
  generation : Nat
  free : Int
  out : List Nat

structure Sound (capacity : Int) (p : Pool) : Prop where
  free_nonneg : 0 ≤ p.free
  out_le : ∀ g ∈ p.out, g ≤ p.generation
  bound : (p.out.count p.generation : Int) + p.free ≤ capacity

variable {capacity : Int} {p : Pool}

section

variable (h : Sound capacity p)
include h

theorem Sound.free_le : p.free ≤ capacity := by
  have hbound := h.bound
  omega

/-- The permits of the current generation that are out are at most the
capacity. -/
theorem Sound.count_le : (p.out.count p.generation : Int) ≤ capacity := by
  have hfree := h.free_nonneg
  have hbound := h.bound
  omega

theorem Sound.take (hfree : 0 < p.free) :
    Sound capacity ⟨p.generation, p.free - 1, p.out ++ [p.generation]⟩ := by
  refine ⟨?_, ?_, ?_⟩
  · show 0 ≤ p.free - 1
    omega
  · intro g hg
    rcases List.mem_append.mp hg with hold | hnew
    · exact h.out_le g hold
    · exact Nat.le_of_eq (List.mem_singleton.mp hnew)
  · show ((p.out ++ [p.generation]).count p.generation : Int) + (p.free - 1) ≤ capacity
    have hbound := h.bound
    rw [List.count_append, List.count_singleton_self]
    push_cast
    omega

theorem Sound.giveBack {out : List Nat} (hsub : out.Sublist p.out) :
    Sound capacity ⟨p.generation, p.free, out⟩ := by
  refine ⟨h.free_nonneg, fun g hg => h.out_le g (hsub.subset hg), ?_⟩
  show (out.count p.generation : Int) + p.free ≤ capacity
  have hcount := hsub.count_le p.generation
  have hbound := h.bound
  omega

theorem Sound.renew {generation : Nat} {free : Int}
    (hlater : p.generation < generation) (hnonneg : 0 ≤ free) (hfree : free ≤ capacity) :
    Sound capacity ⟨generation, free, p.out⟩ := by
  have hnone : p.out.count generation = 0 := by
    rw [List.count_eq_zero]
    intro hmem
    have hle := h.out_le generation hmem
    omega
  refine ⟨hnonneg, ?_, ?_⟩
  · intro g hg
    have hle := h.out_le g hg
    show g ≤ generation
    omega
  · show (p.out.count generation : Int) + free ≤ capacity
    omega

end

end RedRouter.Permits
