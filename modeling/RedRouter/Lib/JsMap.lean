import Mathlib.Data.List.Perm.Basic
import Mathlib.Data.List.Nodup

/-!
# Insertion-ordered maps

A `Map` of the source iterates over its entries in the order in which the
keys were first inserted.  `JsMap` is the list of the entries in that order.
`set` replaces the value of a present key in place and appends a new one, as
the source's `Map` does, and `delete` drops the entry.
-/

namespace RedRouter

open List

/-- The entries of a `Map`, in insertion order. -/
abbrev JsMap (K V : Type) := List (K × V)

namespace JsMap

variable {K V : Type} [DecidableEq K]

/-- `m.get(k)`. -/
def get (k : K) : JsMap K V → Option V
  | [] => none
  | (k', v) :: m => if k' = k then some v else get k m

/-- `m.has(k)`. -/
def has (k : K) (m : JsMap K V) : Bool := (get k m).isSome

/-- `m.set(k, v)`. -/
def set (k : K) (v : V) : JsMap K V → JsMap K V
  | [] => [(k, v)]
  | (k', v') :: m => if k' = k then (k, v) :: m else (k', v') :: set k v m

/-- `m.delete(k)`. -/
def delete (k : K) : JsMap K V → JsMap K V
  | [] => []
  | (k', v) :: m => if k' = k then delete k m else (k', v) :: delete k m

/-- Change the value of a key, if there is one. -/
def modify (k : K) (f : V → V) (m : JsMap K V) : JsMap K V :=
  match get k m with
  | none => m
  | some v => set k (f v) m

/-- Change the values of some keys, one after the other. -/
def modifyAll (ks : List K) (f : V → V) (m : JsMap K V) : JsMap K V :=
  ks.foldl (fun m k => modify k f m) m

def keys (m : JsMap K V) : List K := m.map Prod.fst

def values (m : JsMap K V) : List V := m.map Prod.snd

@[simp] theorem get_nil (k : K) : get k ([] : JsMap K V) = none := rfl

omit [DecidableEq K] in
@[simp] theorem keys_nil : keys ([] : JsMap K V) = [] := rfl

omit [DecidableEq K] in
@[simp] theorem keys_cons (e : K × V) (m : JsMap K V) : keys (e :: m) = e.1 :: keys m := rfl

theorem get_set (k k' : K) (v : V) (m : JsMap K V) :
    get k (set k' v m) = if k' = k then some v else get k m := by
  induction m with
  | nil => simp [set, get]
  | cons e m ih =>
    obtain ⟨x, w⟩ := e
    by_cases hx : x = k'
    · subst hx
      by_cases h : x = k
      · subst h
        simp [set, get]
      · simp [set, get, h]
    · by_cases h : k' = k
      · subst h
        simp [set, get, hx, ih]
      · simp only [set, hx, if_false, get, h]
        rw [ih, if_neg h]

variable {k : K} {m : JsMap K V} {v : V}

theorem set_of_get (h : get k m = some v) : set k v m = m := by
  induction m with
  | nil => exact absurd h.symm (Option.some_ne_none v)
  | cons e m ih =>
    obtain ⟨x, w⟩ := e
    rw [get] at h
    split at h
    · rename_i hx
      rw [set, if_pos hx, hx, Option.some.inj h]
    · rename_i hx
      rw [set, if_neg hx, ih h]

theorem get_set_cases {k' : K} {w : V} (h : get k (set k' v m) = some w) :
    (k = k' ∧ w = v) ∨ get k m = some w := by
  rw [get_set] at h
  split at h
  · rename_i heq
    exact .inl ⟨heq.symm, (Option.some.inj h).symm⟩
  · exact .inr h

theorem get_delete (k k' : K) (m : JsMap K V) :
    get k (delete k' m) = if k' = k then none else get k m := by
  induction m with
  | nil => simp [delete]
  | cons e m ih =>
    obtain ⟨x, w⟩ := e
    by_cases hx : x = k'
    · subst hx
      by_cases h : x = k
      · subst h
        simp [delete, ih]
      · simp [delete, get, h, ih]
    · by_cases h : k' = k
      · subst h
        simp [delete, get, hx, ih]
      · simp only [delete, hx, if_false, get, h]
        rw [ih, if_neg h]

theorem get_delete_eq_some {k' : K} (h : get k (delete k' m) = some v) :
    k' ≠ k ∧ get k m = some v := by
  rw [get_delete] at h
  split at h
  · exact absurd h.symm (Option.some_ne_none v)
  · rename_i hne
    exact ⟨hne, h⟩

theorem get_modify (k k' : K) (f : V → V) (m : JsMap K V) :
    get k (modify k' f m) = if k' = k then (get k m).map f else get k m := by
  unfold modify
  cases hget : get k' m with
  | none =>
    show get k m = _
    split
    · rename_i hk
      rw [← hk, hget]
      rfl
    · rfl
  | some v =>
    show get k (set k' (f v) m) = _
    rw [get_set]
    split
    · rename_i hk
      rw [← hk, hget]
      rfl
    · rfl

theorem get_modifyAll {ks : List K} (hks : ks.Nodup) (k : K) (f : V → V) (m : JsMap K V) :
    get k (modifyAll ks f m) = if k ∈ ks then (get k m).map f else get k m := by
  induction ks generalizing m with
  | nil => simp [modifyAll]
  | cons k' ks ih =>
    obtain ⟨hnot, hks⟩ := nodup_cons.mp hks
    have hfold : modifyAll (k' :: ks) f m = modifyAll ks f (modify k' f m) := rfl
    rw [hfold, ih hks, get_modify]
    by_cases hk : k' = k
    · subst hk
      rw [if_neg hnot, if_pos rfl, if_pos mem_cons_self]
    · have hmem : k ∈ k' :: ks ↔ k ∈ ks := by
        rw [mem_cons, or_iff_right (fun h => hk h.symm)]
      simp [hmem, if_neg hk]

theorem mem_of_get (h : get k m = some v) : (k, v) ∈ m := by
  induction m with
  | nil => exact absurd h.symm (Option.some_ne_none v)
  | cons e m ih =>
    obtain ⟨x, w⟩ := e
    rw [get] at h
    split at h
    · rename_i hx
      subst hx
      rw [Option.some.inj h]
      exact mem_cons_self
    · exact mem_cons_of_mem _ (ih h)

theorem get_of_mem (hkeys : (keys m).Nodup) (h : (k, v) ∈ m) : get k m = some v := by
  induction m with
  | nil => cases h
  | cons e m ih =>
    obtain ⟨x, w⟩ := e
    rw [keys_cons, nodup_cons] at hkeys
    rw [get]
    rcases mem_cons.mp h with heq | hmem
    · obtain ⟨rfl, rfl⟩ := Prod.mk.inj heq
      exact if_pos rfl
    · have hne : x ≠ k := fun heq => hkeys.1 (mem_map.mpr ⟨(k, v), hmem, heq.symm⟩)
      rw [if_neg hne]
      exact ih hkeys.2 hmem

theorem get_map {W : Type} (f : V → W) (k : K) (m : JsMap K V) :
    get k (m.map fun e => (e.1, f e.2)) = (get k m).map f := by
  induction m with
  | nil => rfl
  | cons e m ih =>
    rw [map_cons, get, get]
    split
    · rfl
    · exact ih

theorem get_filter (p : V → Bool) (k : K) (hkeys : (keys m).Nodup) :
    get k (m.filter fun e => p e.2) = (get k m).filter p := by
  induction m with
  | nil => rfl
  | cons e m ih =>
    obtain ⟨x, w⟩ := e
    rw [keys_cons, nodup_cons] at hkeys
    have hrest := ih hkeys.2
    rw [filter_cons, get]
    by_cases hx : x = k
    · subst hx
      have hgone : get x (m.filter fun e => p e.2) = none := by
        rw [hrest]
        cases hget : get x m with
        | none => rfl
        | some v => exact absurd (mem_map.mpr ⟨(x, v), mem_of_get hget, rfl⟩) hkeys.1
      cases hw : p w with
      | true => simp [get, Option.filter, hw]
      | false => simp [hgone, Option.filter, hw]
    · rw [if_neg hx, ← hrest]
      split
      · rw [get, if_neg hx]
      · rfl

theorem get_filter_key (p : K → Bool) (m : JsMap K V) :
    get k (m.filter fun e => p e.1) = if p k then get k m else none := by
  induction m with
  | nil => simp
  | cons e m ih =>
    obtain ⟨x, w⟩ := e
    rw [filter_cons, get]
    by_cases hx : x = k
    · subst hx
      cases hp : p x with
      | true => simp [get]
      | false => simpa [hp] using ih
    · rw [if_neg hx, ← ih]
      split
      · rw [get, if_neg hx]
      · rfl

theorem get_isSome_iff : (get k m).isSome = true ↔ k ∈ keys m := by
  induction m with
  | nil => simp
  | cons e m ih =>
    obtain ⟨x, w⟩ := e
    rw [get]
    by_cases hx : x = k
    · simp [hx]
    · have hx' : ¬ k = x := fun h => hx h.symm
      simp [hx, ih, hx']

theorem get_eq_none_iff : get k m = none ↔ k ∉ keys m := by
  rw [← get_isSome_iff, Bool.not_eq_true, Option.isSome_eq_false_iff, Option.isNone_iff_eq_none]

theorem keys_set (k : K) (v : V) (m : JsMap K V) :
    keys (set k v m) = if k ∈ keys m then keys m else keys m ++ [k] := by
  induction m with
  | nil => simp [set]
  | cons e m ih =>
    obtain ⟨x, w⟩ := e
    by_cases hx : x = k
    · subst hx
      simp [set]
    · have hx' : ¬ k = x := fun h => hx h.symm
      rw [set, if_neg hx, keys_cons, ih, keys_cons]
      by_cases hk : k ∈ keys m
      · rw [if_pos hk, if_pos (mem_cons_of_mem _ hk)]
      · rw [if_neg hk, if_neg (by simp [hx', hk]), cons_append]

theorem nodup_keys_set (h : (keys m).Nodup) : (keys (set k v m)).Nodup := by
  rw [keys_set]
  split
  · exact h
  · rename_i hk
    rw [nodup_append]
    refine ⟨h, pairwise_singleton _ k, ?_⟩
    intro a ha b hb hab
    rw [mem_singleton] at hb
    exact hk (hb ▸ hab ▸ ha)

theorem delete_of_not_mem (h : k ∉ keys m) : delete k m = m := by
  induction m with
  | nil => rfl
  | cons e m ih =>
    rw [keys_cons, mem_cons, not_or] at h
    rw [delete, if_neg (fun hx => h.1 hx.symm), ih h.2]

theorem set_of_not_mem (h : k ∉ keys m) : set k v m = m ++ [(k, v)] := by
  induction m with
  | nil => rfl
  | cons e m ih =>
    rw [keys_cons, mem_cons, not_or] at h
    rw [set, if_neg (fun hx => h.1 hx.symm), ih h.2, cons_append]

theorem not_mem_keys_delete (k : K) (m : JsMap K V) : k ∉ keys (delete k m) := by
  rw [← get_eq_none_iff, get_delete, if_pos rfl]

theorem delete_append (k : K) (m m' : JsMap K V) :
    delete k (m ++ m') = delete k m ++ delete k m' := by
  induction m with
  | nil => rfl
  | cons e m ih =>
    rw [cons_append, delete, delete, ih]
    split <;> rfl

theorem mem_keys_delete {k' : K} : k ∈ keys (delete k' m) ↔ k' ≠ k ∧ k ∈ keys m := by
  rw [← get_isSome_iff, ← get_isSome_iff, get_delete]
  split <;> simp [*]

theorem delete_sublist (k : K) (m : JsMap K V) : (delete k m).Sublist m := by
  induction m with
  | nil => exact List.Sublist.refl _
  | cons e m ih =>
    obtain ⟨x, w⟩ := e
    rw [delete]
    split
    · exact ih.cons (x, w)
    · exact ih.cons_cons (x, w)

theorem nodup_keys_delete (h : (keys m).Nodup) : (keys (delete k m)).Nodup :=
  h.sublist ((delete_sublist k m).map Prod.fst)

theorem keys_delete (k : K) (h : (keys m).Nodup) : keys (delete k m) = (keys m).erase k := by
  induction m with
  | nil => rfl
  | cons e m ih =>
    obtain ⟨x, w⟩ := e
    rw [keys_cons, nodup_cons] at h
    by_cases hx : x = k
    · subst hx
      rw [delete, if_pos rfl, delete_of_not_mem h.1, keys_cons, erase_cons_head]
    · rw [delete, if_neg hx, keys_cons, keys_cons, ih h.2, erase_cons_tail (by simpa using hx)]

theorem keys_set_of_mem (h : k ∈ keys m) : keys (set k v m) = keys m := by
  rw [keys_set, if_pos h]

theorem perm_of_get (h : (keys m).Nodup) (hget : get k m = some v) :
    m.Perm ((k, v) :: delete k m) := by
  induction m with
  | nil => exact absurd hget.symm (Option.some_ne_none v)
  | cons e m ih =>
    obtain ⟨x, w⟩ := e
    rw [keys_cons, nodup_cons] at h
    rw [get] at hget
    split at hget
    · rename_i hx
      subst hx
      rw [delete, if_pos rfl, delete_of_not_mem h.1, Option.some.inj hget]
    · rename_i hx
      rw [delete, if_neg hx]
      exact ((ih h.2 hget).cons (x, w)).trans (List.Perm.swap ..)

theorem set_perm (k : K) (v : V) (h : (keys m).Nodup) :
    (set k v m).Perm ((k, v) :: delete k m) := by
  induction m with
  | nil => exact List.Perm.refl _
  | cons e m ih =>
    obtain ⟨x, w⟩ := e
    rw [keys_cons, nodup_cons] at h
    by_cases hx : x = k
    · subst hx
      rw [set, if_pos rfl, delete, if_pos rfl, delete_of_not_mem h.1]
    · rw [set, if_neg hx, delete, if_neg hx]
      exact ((ih h.2).cons (x, w)).trans (List.Perm.swap ..)

end JsMap

end RedRouter
