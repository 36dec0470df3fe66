import Mathlib.Data.List.Nodup

/-!
# A cursor that goes round a list

A round starts at the cursor and goes round the places of a list.  `ahead` is
the number of places that the round visits before a given place.  Taking the
place at a step of the round, with or without its removal from the list,
brings the cursor closer to every place that lies further ahead, and so does
the removal of any other place.
-/

namespace RedRouter.Cyclic

/-- How many places the round from the cursor visits before a place. -/
def ahead (cursor place n : Nat) : Nat :=
  if cursor ≤ place then place - cursor else n - cursor + place

theorem mod_of_lt_two {a n : Nat} (h : a < n + n) : a % n = if a < n then a else a - n := by
  split
  · exact Nat.mod_eq_of_lt ‹_›
  · rw [Nat.mod_eq_sub_mod (by omega), Nat.mod_eq_of_lt (by omega)]

theorem ahead_lt {cursor place n : Nat} (hcursor : cursor < n) (hplace : place < n) :
    ahead cursor place n < n := by
  unfold ahead
  split <;> omega

theorem add_ahead_mod {cursor place n : Nat} (hcursor : cursor < n) (hplace : place < n) :
    (cursor + ahead cursor place n) % n = place := by
  rw [mod_of_lt_two (by have := ahead_lt hcursor hplace; omega)]
  unfold ahead
  split <;> split <;> omega

/-- The cursor behind a step of the round that lies before the place. -/
theorem ahead_next {cursor place i n : Nat} (hcursor : cursor < n) (hplace : place < n)
    (hi : i < ahead cursor place n) :
    ahead (((cursor + i) % n + 1) % n) place n < ahead cursor place n := by
  have hlt := ahead_lt hcursor hplace
  rw [mod_of_lt_two (show cursor + i < n + n by omega)]
  unfold ahead at hi hlt ⊢
  split at hi <;> split <;> rw [mod_of_lt_two (by omega)] <;> split <;> split <;> omega

def placeAfter (removed place : Nat) : Nat := if removed < place then place - 1 else place

theorem getElem?_eraseIdx_placeAfter {α : Type} {l : List α} {removed place : Nat} {x : α}
    (hplace : l[place]? = some x) (hne : removed ≠ place) :
    (l.eraseIdx removed)[placeAfter removed place]? = some x := by
  unfold placeAfter
  split
  · rw [List.getElem?_eraseIdx_of_ge (by omega), Nat.sub_add_cancel (by omega)]
    exact hplace
  · rw [List.getElem?_eraseIdx_of_lt (by omega)]
    exact hplace

/-- The cursor at the place that follows a removed step of the round. -/
theorem ahead_removed {cursor place i n : Nat} (hcursor : cursor < n) (hplace : place < n)
    (hi : i < ahead cursor place n) :
    ahead ((cursor + i) % n % (n - 1)) (placeAfter ((cursor + i) % n) place) (n - 1) <
      ahead cursor place n := by
  have hlt := ahead_lt hcursor hplace
  rw [mod_of_lt_two (show cursor + i < n + n by omega)]
  unfold ahead at hi hlt ⊢
  unfold placeAfter
  split at hi <;> split <;> rw [mod_of_lt_two (by omega)] <;> split <;> split <;> split <;> omega

end RedRouter.Cyclic
