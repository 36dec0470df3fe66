import Mathlib.Data.List.Basic

/-!
# Recency

A key is used by some of the events of a run.  `idle` counts the events since
the last one that used it, and `ByLastUse` says that some keys stand in the
order of their last uses, the one that was not used for the longest time first.

A list of keys keeps this order when keys leave it and when the key that an
event uses moves to its end (`ByLastUse.unused`, `ByLastUse.used`).
-/

namespace RedRouter.Recency

variable {Event K : Type} {uses : Event → K → Bool} {events : List Event} {e : Event}
  {keys : List K} {k : K}

/-- How many events ago a key was last used. -/
def idle (uses : Event → K → Bool) (events : List Event) (k : K) : Nat :=
  events.reverse.findIdx fun e => uses e k

def ByLastUse (uses : Event → K → Bool) (events : List Event) (keys : List K) : Prop :=
  keys.Pairwise fun k k' => idle uses events k' < idle uses events k

theorem idle_concat_of_used (h : uses e k = true) : idle uses (events ++ [e]) k = 0 := by
  unfold idle
  rw [List.reverse_concat, List.findIdx_cons, h]
  rfl

theorem idle_concat_of_unused (h : uses e k = false) :
    idle uses (events ++ [e]) k = idle uses events k + 1 := by
  unfold idle
  rw [List.reverse_concat, List.findIdx_cons, h]
  rfl

section

variable (h : ByLastUse uses events keys)
include h

theorem ByLastUse.nodup : keys.Nodup :=
  List.Pairwise.imp (fun hlt heq => absurd (heq ▸ hlt) (Nat.lt_irrefl _)) h

theorem ByLastUse.sublist {keys' : List K} (hsub : keys'.Sublist keys) : ByLastUse uses events keys' :=
  List.Pairwise.sublist hsub h

theorem ByLastUse.unused (he : ∀ k ∈ keys, uses e k = false) :
    ByLastUse uses (events ++ [e]) keys := by
  refine List.Pairwise.imp_of_mem ?_ h
  intro k k' hk hk' hlt
  rw [idle_concat_of_unused (he k hk), idle_concat_of_unused (he k' hk')]
  exact Nat.succ_lt_succ hlt

theorem ByLastUse.used (he : ∀ k ∈ keys, uses e k = false)
    (hk : uses e k = true) : ByLastUse uses (events ++ [e]) (keys ++ [k]) := by
  have hkeys := h.unused he
  refine List.pairwise_append.mpr ⟨hkeys, List.pairwise_singleton _ _, ?_⟩
  intro k₁ hk₁ k₂ hk₂
  rw [List.mem_singleton.mp hk₂, idle_concat_of_used hk, idle_concat_of_unused (he k₁ hk₁)]
  exact Nat.succ_pos _

end

end RedRouter.Recency
