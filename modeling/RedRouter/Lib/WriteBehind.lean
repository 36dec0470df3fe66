/-!
# Writes that are performed later

Writes to a table wait in a queue and are performed in the order in which they
came.  Some of them create a certain row and some clear it.  `outcome` says
whether the row will be there when the whole queue has been performed, from
whether it is there now.

The rules are the ones for a new write (`outcome_concat`), for the performed
one (`outcome_cons`) and for a table that has lost the row on another way
(`outcome_mono`).  `eq_false_of_outcome` reads the table of today off the
outcome, when no clearing write waits.
-/

namespace RedRouter.WriteBehind

variable {W : Type} (creates clears : W → Bool)

def perform (there : Bool) (w : W) : Bool :=
  if clears w then false else there || creates w

/-- Whether the row is there after all the writes. -/
def outcome (there : Bool) (queue : List W) : Bool := queue.foldl (perform creates clears) there

variable {creates clears} {there : Bool} {queue : List W} {w : W}

theorem outcome_cons : outcome creates clears there (w :: queue) =
      outcome creates clears (perform creates clears there w) queue := rfl

theorem outcome_concat : outcome creates clears there (queue ++ [w]) =
      perform creates clears (outcome creates clears there queue) w := by
  simp [outcome]

theorem outcome_mono {there' : Bool} (hle : there' = true → there = true)
    (h : outcome creates clears there queue = false) :
    outcome creates clears there' queue = false := by
  induction queue generalizing there there' with
  | nil =>
    cases there' with
    | false => rfl
    | true => exact (hle rfl).symm.trans h
  | cons w queue ih =>
    refine ih ?_ h
    intro hperform
    unfold perform at hperform ⊢
    cases hclears : clears w with
    | true =>
      rw [hclears, if_pos rfl] at hperform
      cases hperform
    | false =>
      rw [hclears, if_neg Bool.false_ne_true, Bool.or_eq_true] at hperform
      rw [if_neg Bool.false_ne_true, Bool.or_eq_true]
      exact hperform.imp_left hle

theorem eq_false_of_outcome (h : outcome creates clears there queue = false)
    (hclears : ∀ w ∈ queue, clears w = false) : there = false := by
  induction queue generalizing there with
  | nil => exact h
  | cons w queue ih =>
    have hnext := ih h fun w' hw' => hclears w' (List.mem_cons_of_mem _ hw')
    rw [perform, hclears w List.mem_cons_self] at hnext
    simp only [Bool.false_eq_true, if_false, Bool.or_eq_false_iff] at hnext
    exact hnext.1

end RedRouter.WriteBehind
