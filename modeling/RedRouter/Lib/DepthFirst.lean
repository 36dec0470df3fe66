import Mathlib.Data.List.Basic
import Mathlib.Data.List.Lex

/-!
# Depth-first unfolding

A node has branches: a leaf, another node, or nothing.  A list of indices leads
from a node along its branches, and the last one has to lead to a leaf
(`leafAt`).  The nodes may be shared and may form cycles, so that a node can
have leaves at infinitely many places.

Where no chain of nodes is longer than `n` (`WithinDepth`), `leaves n` lists
the leaves of a node, and it has one entry for each place, in the order of the
places (`leaves_listsLeaves`).
-/

namespace RedRouter.DepthFirst

open List

inductive Branch (σ τ : Type) where
  | nothing
  | leaf (value : τ)
  | node (next : σ)

variable {σ τ : Type} (branches : σ → List (Branch σ τ))

def leafAt : σ → List Nat → Option τ
  | _, [] => none
  | s, i :: place =>
      match (branches s)[i]? with
      | some (.leaf value) => if place.isEmpty then some value else none
      | some (.node next) => leafAt next place
      | _ => none

/-- At most `n` nodes stand in a chain that begins with this one. -/
inductive WithinDepth : Nat → σ → Prop where
  | intro {n : Nat} {s : σ} (below : ∀ next, .node next ∈ branches s → WithinDepth n next) :
      WithinDepth (n + 1) s

def Branch.leaves (below : σ → List τ) : Branch σ τ → List τ
  | .nothing => []
  | .leaf value => [value]
  | .node next => below next

/-- The leaves of a node, as far as `n` nodes deep. -/
def leaves : Nat → σ → List τ
  | 0, _ => []
  | n + 1, s => (branches s).flatMap (Branch.leaves (leaves n))

/-- The places of the leaves of one branch, the one at index `i`. -/
def Branch.places (below : σ → List (List Nat)) (i : Nat) : Branch σ τ → List (List Nat)
  | .nothing => []
  | .leaf _ => [[i]]
  | .node next => (below next).map (i :: ·)

def places : Nat → σ → List (List Nat)
  | 0, _ => []
  | n + 1, s => (branches s).zipIdx.flatMap fun b => b.1.places (places n) b.2

/-- There is one value for each place that leads to a leaf, in the order of the
places. -/
def ListsLeaves (s : σ) (values : List τ) : Prop :=
  ∃ places : List (List Nat), places.Pairwise (· < ·) ∧
    (∀ place, place ∈ places ↔ (leafAt branches s place).isSome) ∧
    values.map some = places.map (leafAt branches s)

variable {branches} {s : σ} {n : Nat}

theorem WithinDepth.next {next : σ} (h : WithinDepth branches (n + 1) s)
    (hnext : .node next ∈ branches s) : WithinDepth branches n next := by
  cases h with
  | intro below => exact below next hnext

theorem pairwise_zipIdx {α : Type} (l : List α) : l.zipIdx.Pairwise (fun a b => a.2 < b.2) := by
  rw [pairwise_iff_getElem]
  intro i j hi hj hij
  simpa using hij

theorem head_of_mem_places {below : σ → List (List Nat)} {i : Nat} {b : Branch σ τ}
    {place : List Nat} (h : place ∈ b.places below i) : place.head? = some i := by
  cases b with
  | nothing => simp [Branch.places] at h
  | leaf value =>
    rw [Branch.places, mem_singleton] at h
    rw [h, head?_cons]
  | node next =>
    rw [Branch.places, mem_map] at h
    obtain ⟨rest, -, rfl⟩ := h
    rfl

theorem lt_of_head_lt {i j : Nat} {p q : List Nat} (hp : p.head? = some i)
    (hq : q.head? = some j) (h : i < j) : p < q := by
  cases p with
  | nil => cases hp
  | cons a p =>
    cases q with
    | nil => cases hq
    | cons b q =>
      cases hp
      cases hq
      exact List.Lex.rel h

theorem places_pairwise (n : Nat) (s : σ) : (places branches n s).Pairwise (· < ·) := by
  induction n generalizing s with
  | zero => exact List.Pairwise.nil
  | succ n ih =>
    rw [places, pairwise_flatMap]
    constructor
    · rintro ⟨b, i⟩ -
      cases b with
      | nothing => exact List.Pairwise.nil
      | leaf value => exact pairwise_singleton _ _
      | node next => exact (ih next).map _ fun _ _ h => List.Lex.cons h
    · refine (pairwise_zipIdx _).imp fun hlt p hp q hq => ?_
      exact lt_of_head_lt (head_of_mem_places hp) (head_of_mem_places hq) hlt

section

variable (h : WithinDepth branches n s)
include h

theorem mem_places_iff (place : List Nat) :
    place ∈ places branches n s ↔ (leafAt branches s place).isSome := by
  induction n generalizing s place with
  | zero => cases h
  | succ n ih =>
    simp only [places, mem_flatMap, Prod.exists, mk_mem_zipIdx_iff_getElem?]
    cases place with
    | nil =>
      refine iff_of_false ?_ (by simp [leafAt])
      rintro ⟨b, i, -, hmem⟩
      cases head_of_mem_places hmem
    | cons i rest =>
      have hsplit : (∃ (b : Branch σ τ) (j : Nat), (branches s)[j]? = some b ∧
          i :: rest ∈ b.places (places branches n) j) ↔
          ∃ b : Branch σ τ, (branches s)[i]? = some b ∧ i :: rest ∈ b.places (places branches n) i := by
        constructor
        · rintro ⟨b, j, hb, hmem⟩
          cases head_of_mem_places hmem
          exact ⟨b, hb, hmem⟩
        · rintro ⟨b, hb⟩
          exact ⟨b, i, hb⟩
      rw [hsplit, leafAt]
      cases hb : (branches s)[i]? with
      | none => simp
      | some b =>
        cases b with
        | nothing => simp [Branch.places]
        | leaf value => simp [Branch.places]
        | node next =>
          have hnext := ih (h.next (mem_of_getElem? hb)) rest
          simpa [Branch.places] using hnext

theorem map_leaves :
    (leaves branches n s).map some = (places branches n s).map (leafAt branches s) := by
  induction n generalizing s with
  | zero => cases h
  | succ n ih =>
    rw [leaves, places, map_flatMap, map_flatMap]
    conv_lhs => rw [← zipIdx_map_fst 0 (branches s), flatMap_map]
    refine flatMap_congr fun b hb => ?_
    obtain ⟨b, i⟩ := b
    have hat : (branches s)[i]? = some b := mk_mem_zipIdx_iff_getElem?.mp hb
    cases b with
    | nothing => rfl
    | leaf value => simp [Branch.leaves, Branch.places, leafAt, hat]
    | node next =>
      simp only [Branch.leaves, Branch.places, map_map]
      rw [ih (h.next (mem_of_getElem? hat))]
      refine map_congr_left fun place _ => ?_
      simp [leafAt, hat]

theorem leaves_listsLeaves : ListsLeaves branches s (leaves branches n s) :=
  ⟨places branches n s, places_pairwise n s, mem_places_iff h, map_leaves h⟩

end

end RedRouter.DepthFirst
