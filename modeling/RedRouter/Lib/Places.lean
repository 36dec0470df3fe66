import Mathlib.Data.List.Basic

/-!
# Records that are named by their place

A system that keeps its records in the order in which they came names a record
by its place. A step changes the record of one place or adds one at the end,
and no place is given twice.
-/

namespace RedRouter.Places

variable {α : Type} {records : List α} {i j : Nat} {r r' new : α} {f : α → α}

theorem lt_length (h : records[i]? = some r) : i < records.length :=
  (List.getElem?_eq_some_iff.mp h).1

theorem unique (h : records[i]? = some r) (h' : records[i]? = some r') : r = r' :=
  Option.some.inj (h.symm.trans h')

theorem modify_cases (h : (records.modify i f)[j]? = some r') :
    ∃ r, records[j]? = some r ∧ ((j = i ∧ r' = f r) ∨ (j ≠ i ∧ r' = r)) := by
  simp only [List.getElem?_modify, Option.map_eq_map, Option.map_eq_some_iff] at h
  obtain ⟨r, hr, rfl⟩ := h
  by_cases hij : i = j
  · exact ⟨r, hr, Or.inl ⟨hij.symm, if_pos hij⟩⟩
  · exact ⟨r, hr, Or.inr ⟨fun h => hij h.symm, if_neg hij⟩⟩

theorem modify_self (h : records[i]? = some r) : (records.modify i f)[i]? = some (f r) := by
  rw [List.getElem?_modify, h]
  simp

theorem modify_other (h : records[j]? = some r) (hij : i ≠ j) :
    (records.modify i f)[j]? = some r := by
  rw [List.getElem?_modify, h]
  simp [hij]

theorem modify_keeps (h : records[j]? = some r) :
    ∃ r', (records.modify i f)[j]? = some r' ∧ ((j = i ∧ r' = f r) ∨ (j ≠ i ∧ r' = r)) := by
  by_cases hij : j = i
  · subst hij
    exact ⟨f r, modify_self h, Or.inl ⟨rfl, rfl⟩⟩
  · exact ⟨r, modify_other h (fun h => hij h.symm), Or.inr ⟨hij, rfl⟩⟩

theorem append_cases (h : (records ++ [new])[j]? = some r) :
    records[j]? = some r ∨ (j = records.length ∧ r = new) := by
  rcases Nat.lt_trichotomy j records.length with hlt | rfl | hgt
  · rw [List.getElem?_append_left hlt] at h
    exact Or.inl h
  · simp at h
    exact Or.inr ⟨rfl, h.symm⟩
  · rw [List.getElem?_append_right (by omega), List.getElem?_eq_none (by simp; omega)] at h
    cases h

theorem append_old (h : records[j]? = some r) : (records ++ [new])[j]? = some r := by
  rw [List.getElem?_append_left (lt_length h), h]

theorem append_new : (records ++ [new])[records.length]? = some new := by
  simp

end RedRouter.Places
