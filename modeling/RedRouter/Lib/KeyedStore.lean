import Mathlib.Data.List.Induction
import RedRouter.Lib.JsMap

/-!
# Maps that are filled by a loop

Two loops that fill a map from a list of entries.  In `store` the entries that
have a value write it under their key, and the last one with a key stays.  In
`claim` an entry writes only when its key is not taken, and the first one
stays.

An entry finds something under its key when it wrote there itself
(`exists_get_store`), and what it finds was written by some entry with that
key (`get_store_mem`).
-/

namespace RedRouter.KeyedStore

open JsMap Option

variable {E K V W : Type} [DecidableEq K] {key : E → K} {value : E → Option V}

/-- The entries with a value write it under their key. -/
def store (key : E → K) (value : E → Option V) (entries : List E) : JsMap K V :=
  entries.foldl (fun m e => match value e with
      | some v => m.set (key e) v
      | none => m) []

/-- Each key is written by its first entry. -/
def claim (key : E → K) (value : E → V) (entries : List E) : JsMap K V :=
  entries.foldl (fun m e => if m.has (key e) then m else m.set (key e) (value e)) []

theorem store_concat (entries : List E) (e : E) :
    store key value (entries ++ [e]) = match value e with
      | some v => (store key value entries).set (key e) v
      | none => store key value entries := by
  simp [store]

theorem get_store_mem {entries : List E} {k : K} {v : V}
    (h : (store key value entries).get k = some v) :
    ∃ e ∈ entries, key e = k ∧ value e = some v := by
  induction entries using List.reverseRecOn with
  | nil => simp [store] at h
  | append_singleton entries e ih =>
    rw [store_concat] at h
    cases hvalue : value e with
    | none =>
      simp only [hvalue] at h
      obtain ⟨e', hmem, hkey⟩ := ih h
      exact ⟨e', by simp [hmem], hkey⟩
    | some w =>
      simp only [hvalue] at h
      obtain ⟨hk, hv⟩ | hbefore := get_set_cases h
      · exact ⟨e, by simp, hk.symm, by rw [hvalue, hv]⟩
      · obtain ⟨e', hmem, hkey⟩ := ih hbefore
        exact ⟨e', by simp [hmem], hkey⟩

theorem isSome_get_store {entries : List E} {e : E} (he : e ∈ entries)
    (hvalue : (value e).isSome = true) :
    ((store key value entries).get (key e)).isSome = true := by
  induction entries using List.reverseRecOn with
  | nil => simp at he
  | append_singleton entries last ih =>
    rw [store_concat]
    obtain hmem | hmem := List.mem_append.mp he
    · cases hlast : value last with
      | none => exact ih hmem
      | some w =>
        simp only [get_set]
        split
        · rfl
        · exact ih hmem
    · rw [List.mem_singleton] at hmem
      subst hmem
      obtain ⟨v, hv⟩ := isSome_iff_exists.mp hvalue
      simp [hv, get_set]

theorem get_store_map (f : V → W) (entries : List E) (k : K) :
    (store key (fun e => (value e).map f) entries).get k =
      ((store key value entries).get k).map f := by
  induction entries using List.reverseRecOn with
  | nil => rfl
  | append_singleton entries e ih =>
    rw [store_concat, store_concat]
    cases hvalue : value e with
    | none => simpa using ih
    | some v =>
      simp only [map_some, get_set]
      split
      · rfl
      · exact ih

theorem store_eq_nil_iff (entries : List E) :
    store key value entries = [] ↔ ∀ e ∈ entries, value e = none := by
  constructor
  · intro hnil e he
    by_contra hvalue
    have hsome : ((store key value entries).get (key e)).isSome = true :=
      isSome_get_store he (isSome_iff_ne_none.mpr hvalue)
    rw [hnil] at hsome
    simp at hsome
  · intro hnone
    induction entries using List.reverseRecOn with
    | nil => rfl
    | append_singleton entries e ih =>
      rw [store_concat, hnone e (by simp)]
      exact ih fun e' he' => hnone e' (by simp [he'])

/-- What is found under a key is the value of the first entry with it. -/
theorem get_claim {value : E → V} (entries : List E) (k : K) :
    (claim key value entries).get k = (entries.find? fun e => key e = k).map value := by
  induction entries using List.reverseRecOn with
  | nil => rfl
  | append_singleton entries e ih =>
    have hconcat : claim key value (entries ++ [e]) =
        if (claim key value entries).has (key e) then claim key value entries
        else (claim key value entries).set (key e) (value e) := by
      unfold claim
      rw [List.foldl_append]
      rfl
    rw [hconcat, List.find?_append]
    cases hfound : entries.find? (fun e => key e = k) with
    | some first =>
      rw [hfound] at ih
      split
      · rw [ih]
        rfl
      · rename_i htaken
        rw [get_set]
        split
        · rename_i hk
          rw [JsMap.has, hk, ih] at htaken
          simp at htaken
        · rw [ih]
          rfl
    | none =>
      rw [hfound] at ih
      by_cases hk : key e = k
      · have hfree : ¬ (claim key value entries).has (key e) = true := by
          rw [JsMap.has, hk, ih]
          simp
        rw [if_neg hfree, get_set, if_pos hk]
        simp [hk]
      · have hrest : ([e].find? fun e => key e = k) = none := by simp [hk]
        rw [hrest]
        split
        · rw [ih]
          rfl
        · rw [get_set, if_neg hk, ih]
          rfl

end RedRouter.KeyedStore
