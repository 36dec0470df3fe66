import Mathlib.Algebra.BigOperators.Group.List.Basic
import Mathlib.Algebra.GroupWithZero.Nat
import RedRouter.Lib.JsMap

/-!
# The weight of a map

A store with a size limit keeps a running total of the sizes of its entries.
`weight` is what the total should be: the sum of the sizes over the values of
the map.  A total for each group of entries is the weight for the size that is
zero outside the group.
-/

namespace RedRouter.JsMap

open List

variable {K V : Type} (size : V → Nat)

/-- The sum of the sizes of the values. -/
def weight (m : JsMap K V) : Nat := (m.values.map size).sum

@[simp] theorem weight_cons (e : K × V) (m : JsMap K V) :
    weight size (e :: m) = size e.2 + weight size m := by
  simp [weight, values]

theorem weight_of_perm {m m' : JsMap K V} (h : m.Perm m') : weight size m = weight size m' :=
  ((h.map Prod.snd).map size).sum_eq

theorem weight_group (p : V → Bool) (m : JsMap K V) :
    weight (fun v => if p v then size v else 0) m = weight size (m.filter fun e => p e.2) := by
  induction m with
  | nil => rfl
  | cons e m ih =>
    rw [weight_cons, ih, filter_cons]
    cases p e.2 with
    | true => simp
    | false => simp

variable [DecidableEq K] {k : K} {v : V} {m : JsMap K V}

theorem weight_of_get (hkeys : (keys m).Nodup) (hget : get k m = some v) :
    weight size m = size v + weight size (delete k m) := by
  rw [weight_of_perm size (perm_of_get hkeys hget), weight_cons]

theorem weight_set (v : V) (hkeys : (keys m).Nodup) :
    weight size (set k v m) = size v + weight size (delete k m) := by
  rw [weight_of_perm size (set_perm k v hkeys), weight_cons]

theorem delete_of_get_none (hget : get k m = none) : delete k m = m :=
  delete_of_not_mem (get_eq_none_iff.mp hget)

theorem weight_set_new (v : V) (hkeys : (keys m).Nodup) (hget : get k m = none) :
    weight size (set k v m) = size v + weight size m := by
  rw [weight_set size v hkeys, delete_of_get_none hget]

theorem weight_reset {w : V} (hkeys : (keys m).Nodup) (hget : get k m = some v)
    (hsize : size w = size v) : weight size (set k w (delete k m)) = weight size m := by
  have hgone : get k (delete k m) = none := by rw [get_delete, if_pos rfl]
  rw [weight_set_new size w (nodup_keys_delete hkeys) hgone, weight_of_get size hkeys hget, hsize]

theorem length_of_get (hkeys : (keys m).Nodup) (hget : get k m = some v) :
    m.length = (delete k m).length + 1 := by
  rw [(perm_of_get hkeys hget).length_eq, length_cons]

theorem length_set_new (v : V) (hkeys : (keys m).Nodup) (hget : get k m = none) :
    (set k v m).length = m.length + 1 := by
  rw [(set_perm k v hkeys).length_eq, length_cons, delete_of_get_none hget]

theorem length_reset {w : V} (hkeys : (keys m).Nodup) (hget : get k m = some v) :
    (set k w (delete k m)).length = m.length := by
  have hgone : get k (delete k m) = none := by rw [get_delete, if_pos rfl]
  rw [length_set_new w (nodup_keys_delete hkeys) hgone, length_of_get hkeys hget]

theorem weight_delete_le (hkeys : (keys m).Nodup) : weight size (delete k m) ≤ weight size m := by
  cases hget : get k m with
  | none => exact Nat.le_of_eq (by rw [delete_of_get_none hget])
  | some v =>
    have h := weight_of_get size hkeys hget
    omega

/-! ## Deletions as filters -/

theorem delete_eq_filter (k : K) (m : JsMap K V) :
    delete k m = m.filter fun e => decide (e.1 ≠ k) := by
  induction m with
  | nil => rfl
  | cons e m ih =>
    obtain ⟨x, w⟩ := e
    rw [delete, filter_cons, ih]
    by_cases hx : x = k
    all_goals simp

theorem foldl_delete (p : K × V → Bool) (hkeys : (keys m).Nodup) :
    m.foldl (fun m' e => if p e then delete e.1 m' else m') m = m.filter fun e => !p e := by
  have hloop : ∀ entries m' : JsMap K V,
      entries.foldl (fun m' e => if p e then delete e.1 m' else m') m' =
        m'.filter fun e => decide (∀ e' ∈ entries, p e' = true → e.1 ≠ e'.1) := by
    intro entries
    induction entries with
    | nil =>
      intro m'
      simp
    | cons e entries ih =>
      intro m'
      rw [foldl_cons, ih]
      cases hp : p e with
      | true =>
        rw [if_pos rfl, delete_eq_filter, filter_filter]
        refine filter_congr fun e' _ => ?_
        rw [← Bool.decide_and, decide_eq_decide, forall_mem_cons, and_comm]
        simp [hp]
      | false =>
        refine filter_congr fun e' _ => ?_
        rw [decide_eq_decide, forall_mem_cons]
        simp [hp]
  rw [hloop]
  refine filter_congr fun e he => ?_
  cases hp : p e with
  | true =>
    rw [Bool.not_true, decide_eq_false_iff_not]
    intro h
    exact h e he hp rfl
  | false =>
    rw [Bool.not_false, decide_eq_true_eq]
    intro e' he' hp' heq
    have hsame : e' = e := by
      have hget := get_of_mem hkeys (show (e.1, e.2) ∈ m from he)
      have hget' := get_of_mem hkeys (show (e'.1, e'.2) ∈ m from he')
      rw [← heq, hget] at hget'
      exact (Prod.ext heq (Option.some.inj hget')).symm
    rw [hsame, hp] at hp'
    exact Bool.false_ne_true hp'

theorem filter_delete_find {p : K × V → Bool} {e : K × V} (hkeys : (keys m).Nodup)
    (hfind : m.find? p = some e) : (delete e.1 m).filter p = (m.filter p).drop 1 := by
  induction m with
  | nil => cases hfind
  | cons e' m ih =>
    obtain ⟨x, w⟩ := e'
    rw [keys_cons, nodup_cons] at hkeys
    cases hp : p (x, w) with
    | true =>
      rw [find?_cons_of_pos hp, Option.some.injEq] at hfind
      subst hfind
      rw [delete, if_pos rfl, delete_of_not_mem hkeys.1, filter_cons_of_pos hp]
      rfl
    | false =>
      have hnot : ¬ p (x, w) = true := by
        rw [hp]
        exact Bool.false_ne_true
      rw [find?_cons_of_neg hnot] at hfind
      have hne : x ≠ e.1 := fun heq =>
        hkeys.1 (mem_map.mpr ⟨e, mem_of_find?_eq_some hfind, heq.symm⟩)
      rw [delete, if_neg hne, filter_cons_of_neg hnot, filter_cons_of_neg hnot, ih hkeys.2 hfind]

end RedRouter.JsMap
