import Mathlib.Data.List.Basic

/-!
# Walks of a relation

`Walk r n a b` says that `n` steps of `r` lead from `a` to `b`, and
`Overruns r limit a` that from `a` a walk longer than `limit` or a cycle can be
reached.

A depth-first search that keeps the places it has come through follows a
`Trail`.  It finds an overrun when it is too deep (`Trail.overruns_of_lt`) or
comes to a place again (`Trail.overruns_of_mem`).
-/

namespace RedRouter.Walks

variable {α : Type} (r : α → α → Prop)

def Walk : Nat → α → α → Prop
  | 0, a, b => a = b
  | n + 1, a, b => ∃ c, Walk n a c ∧ r c b

/-- A cycle can be reached, or a walk is longer than the limit. -/
def Overruns (limit : Nat) (a : α) : Prop :=
  (∃ m n b, Walk r m a b ∧ 0 < n ∧ Walk r n b b) ∨ ∃ n b, limit < n ∧ Walk r n a b

/-- A walk from `a`, with the places before its end, the last one first. -/
inductive Trail (a : α) : List α → Nat → α → Prop where
  | nil : Trail a [] 0 a
  | step {visited : List α} {n : Nat} {b c : α} (before : Trail a visited n b) (next : r b c) :
      Trail a (b :: visited) (n + 1) c

variable {r} {a b : α} {visited : List α} {n limit : Nat}

section

variable (h : Trail r a visited n b)
include h

theorem Trail.walk : Walk r n a b := by
  induction h with
  | nil => rfl
  | step before next ih => exact ⟨_, ih, next⟩

theorem Trail.through {c : α} (hc : c ∈ visited) : ∃ m k, Walk r m a c ∧ 0 < k ∧ Walk r k c b := by
  induction h with
  | nil => cases hc
  | @step visited n b d before next ih =>
    rcases List.mem_cons.mp hc with rfl | hc
    · exact ⟨n, 1, before.walk, Nat.one_pos, c, rfl, next⟩
    · obtain ⟨m, k, hfirst, hk, hlast⟩ := ih hc
      exact ⟨m, k + 1, hfirst, Nat.succ_pos k, b, hlast, next⟩

theorem Trail.overruns_of_lt (hlt : limit < n) : Overruns r limit a :=
  .inr ⟨n, b, hlt, h.walk⟩

theorem Trail.overruns_of_mem (hb : b ∈ visited) : Overruns r limit a := by
  obtain ⟨m, k, hfirst, hk, hlast⟩ := h.through hb
  exact .inl ⟨m, k, b, hfirst, hk, hlast⟩

end

theorem not_overruns_of_no_step (h : ∀ x y, ¬ r x y) : ¬ Overruns r limit a := by
  rintro (⟨m, n, b, -, hn, hwalk⟩ | ⟨n, b, hn, hwalk⟩)
  · cases n with
    | zero => exact absurd hn (Nat.lt_irrefl 0)
    | succ n =>
      obtain ⟨c, -, hstep⟩ := hwalk
      exact h c b hstep
  · cases n with
    | zero => exact absurd hn (Nat.not_lt_zero limit)
    | succ n =>
      obtain ⟨c, -, hstep⟩ := hwalk
      exact h c b hstep

end RedRouter.Walks
