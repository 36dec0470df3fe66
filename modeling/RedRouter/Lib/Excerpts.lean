import Mathlib.Data.List.Nodup
import Mathlib.Data.List.Range

/-!
# Excerpts of consecutive blocks

A list of consecutive blocks of positions.  Of each block a head is kept, from its start on,
and a tail, up to its stop.  The head can end behind the block, and the tail can start before
it.

The kept positions are strictly increasing if and only if no head reaches over a tail, where
every head holds a position (`sorted_iff_of_heads`).  Where no block has a head of its own, a
tail can also start in blocks of which nothing is kept (`sorted_iff_of_no_heads`).
-/

namespace RedRouter

open List

/-- A block of positions, the end of its head and the start of its tail. -/
structure Excerpt where
  start : Nat
  stop : Nat
  headEnd : Nat
  tailStart : Nat
deriving DecidableEq

namespace Excerpt

def kept (b : Excerpt) : List Nat :=
  List.range' b.start (b.headEnd - b.start) ++ List.range' b.tailStart (b.stop - b.tailStart)

/-- Nothing of the block is kept. -/
def Silent (b : Excerpt) : Prop := b.headEnd = b.start ∧ b.tailStart = b.stop

/-- The blocks follow one another from a position to another one. -/
def Consecutive : Nat → List Excerpt → Nat → Prop
  | i, [], n => i = n
  | i, b :: blocks, n => b.start = i ∧ b.start < b.stop ∧ Consecutive b.stop blocks n

variable {b b' : Excerpt} {blocks : List Excerpt} {i n k : Nat}

theorem mem_kept : k ∈ b.kept ↔ (b.start ≤ k ∧ k < b.headEnd) ∨ (b.tailStart ≤ k ∧ k < b.stop) := by
  unfold kept
  rw [mem_append, mem_range'_1, mem_range'_1]
  constructor
  all_goals
    rintro (⟨hle, hlt⟩ | ⟨hle, hlt⟩)
    · left
      omega
    · right
      omega

theorem kept_sorted_iff : b.kept.Pairwise (· < ·) ↔
    ∀ k, b.start ≤ k → k < b.headEnd → b.tailStart < b.stop → k < b.tailStart := by
  unfold kept
  rw [pairwise_append]
  constructor
  · rintro ⟨-, -, hcross⟩ k hle hlt htail
    refine hcross k ?_ b.tailStart ?_
    all_goals
      rw [mem_range'_1]
      omega
  · intro h
    refine ⟨pairwise_lt_range', pairwise_lt_range', fun p hp q hq => ?_⟩
    rw [mem_range'_1] at hp hq
    have hlt := h p hp.1 (by omega) (by omega)
    omega

namespace Consecutive

section

variable (h : Consecutive i blocks n)
include h

theorem le : i ≤ n := by
  induction blocks generalizing i with
  | nil => exact Nat.le_of_eq h
  | cons b blocks ih =>
    obtain ⟨hstart, hlt, hrest⟩ := h
    have hle := ih hrest
    omega

theorem bounds (hb : b ∈ blocks) : i ≤ b.start ∧ b.start < b.stop ∧ b.stop ≤ n := by
  induction blocks generalizing i with
  | nil => exact absurd hb not_mem_nil
  | cons first blocks ih =>
    obtain ⟨hstart, hlt, hrest⟩ := h
    rcases mem_cons.mp hb with rfl | hb
    · exact ⟨Nat.le_of_eq hstart.symm, hlt, hrest.le⟩
    · obtain ⟨hle, hlt', hstop⟩ := ih hrest hb
      exact ⟨by omega, hlt', hstop⟩

theorem exists_block (hi : i ≤ k) (hk : k < n) : ∃ b ∈ blocks, b.start ≤ k ∧ k < b.stop := by
  induction blocks generalizing i with
  | nil =>
    have hend : i = n := h
    omega
  | cons b blocks ih =>
    obtain ⟨hstart, hlt, hrest⟩ := h
    by_cases hin : k < b.stop
    · exact ⟨b, mem_cons_self, by omega, hin⟩
    · obtain ⟨b', hb', hmem⟩ := ih hrest (by omega)
      exact ⟨b', mem_cons_of_mem _ hb', hmem⟩

theorem sorted : blocks.Pairwise (fun b b' => b.start < b.stop ∧ b.stop ≤ b'.start) := by
  induction blocks generalizing i with
  | nil => exact List.Pairwise.nil
  | cons b blocks ih =>
    obtain ⟨-, hlt, hrest⟩ := h
    exact pairwise_cons.mpr ⟨fun b' hb' => ⟨hlt, (hrest.bounds hb').1⟩, ih hrest⟩

/-- A relation of every block to the next ones holds of a block and one that starts later. -/
theorem of_lt {P : Excerpt → Excerpt → Prop} (hP : blocks.Pairwise P)
    (hb : b ∈ blocks) (hb' : b' ∈ blocks) (hlt : b.start < b'.start) : P b b' := by
  have hforth : blocks.Pairwise (fun b b' => b.start < b'.start → P b b') :=
    hP.imp fun hp => fun _ => hp
  have hback : blocks.Pairwise (flip fun b b' => b.start < b'.start → P b b') := by
    refine h.sorted.imp fun {b b'} hsorted => ?_
    show b'.start < b.start → _
    intro hlt
    omega
  exact List.Pairwise.forall_of_forall_of_flip (fun _ _ hlt => absurd hlt (Nat.lt_irrefl _))
    hforth hback hb hb' hlt

theorem stop_le (hb : b ∈ blocks) (hb' : b' ∈ blocks)
    (hlt : b.start < b'.start) : b.stop ≤ b'.start :=
  (h.of_lt h.sorted hb hb' hlt).2

theorem unique (hb : b ∈ blocks) (hb' : b' ∈ blocks)
    (hk : b.start ≤ k ∧ k < b.stop) (hk' : b'.start ≤ k ∧ k < b'.stop) : b = b' := by
  have hnodup : (blocks.map start).Nodup := by
    rw [List.Nodup, pairwise_map]
    exact h.sorted.imp fun hsorted => by omega
  refine inj_on_of_nodup_map hnodup hb hb' ?_
  rcases Nat.lt_trichotomy b.start b'.start with hlt | heq | hgt
  · have hle := h.stop_le hb hb' hlt
    omega
  · exact heq
  · have hle := h.stop_le hb' hb hgt
    omega

theorem exists_next (hb : b ∈ blocks) (hlt : b.stop < n) : ∃ b' ∈ blocks, b'.start = b.stop := by
  induction blocks generalizing i with
  | nil => exact absurd hb not_mem_nil
  | cons first blocks ih =>
    obtain ⟨-, -, hrest⟩ := h
    rcases mem_cons.mp hb with rfl | hb
    · cases blocks with
      | nil =>
        have hend : b.stop = n := hrest
        omega
      | cons b' blocks => exact ⟨b', by simp, hrest.1⟩
    · obtain ⟨b', hb', hstart⟩ := ih hrest hb
      exact ⟨b', mem_cons_of_mem _ hb', hstart⟩

end

end Consecutive

/-- The positions that are kept of all blocks, in the order of the blocks. -/
theorem Consecutive.sorted_flatMap_iff (h : Consecutive i blocks n) :
    (blocks.flatMap kept).Pairwise (· < ·) ↔ (∀ b ∈ blocks, b.kept.Pairwise (· < ·)) ∧
      ∀ b ∈ blocks, ∀ b' ∈ blocks, b.start < b'.start → ∀ p ∈ b.kept, ∀ q ∈ b'.kept, p < q := by
  rw [pairwise_flatMap]
  refine and_congr Iff.rfl ⟨fun hacross b hb b' hb' hlt => h.of_lt hacross hb hb' hlt, ?_⟩
  intro hall
  refine h.sorted.imp_of_mem fun hb hb' hsorted => ?_
  exact hall _ hb _ hb' (by omega)

/-- When every head holds a position, the kept positions are increasing if and only if every
head ends before its tail starts. -/
theorem Consecutive.sorted_iff_of_heads (h : Consecutive i blocks n)
    (hheads : ∀ b ∈ blocks, b.start < b.headEnd ∧ b.headEnd ≤ n ∧ b.tailStart ≤ b.stop) :
    (blocks.flatMap kept).Pairwise (· < ·) ↔ ∀ b ∈ blocks, b.headEnd ≤ b.tailStart := by
  rw [h.sorted_flatMap_iff]
  constructor
  · rintro ⟨hinside, hacross⟩ b hb
    obtain ⟨hhead, hend, htail⟩ := hheads b hb
    obtain ⟨-, hlt, -⟩ := h.bounds hb
    by_contra hover
    by_cases hempty : b.tailStart = b.stop
    · -- the head reaches into the next block, which keeps its start
      obtain ⟨b', hb', hstart⟩ := h.exists_next hb (by omega)
      have hnext : b.start < b'.start := by omega
      have hpair := hacross b hb b' hb' hnext b.stop (mem_kept.mpr (Or.inl (by omega)))
        b'.start (mem_kept.mpr (Or.inl ⟨Nat.le_refl _, (hheads b' hb').1⟩))
      omega
    · have hpair := kept_sorted_iff.mp (hinside b hb) (b.headEnd - 1) (by omega) (by omega)
        (by omega)
      omega
  · intro hapart
    refine ⟨fun b hb => kept_sorted_iff.mpr fun k _ hlt _ => ?_, fun b hb b' hb' hlt p hp q hq => ?_⟩
    · exact Nat.lt_of_lt_of_le hlt (hapart b hb)
    · have hle := h.stop_le hb hb' hlt
      have hfirst := hapart b hb
      have hsecond := hapart b' hb'
      have htail := (hheads b hb).2.2
      have hhead := (hheads b' hb').1
      rw [mem_kept] at hp hq
      omega

/-- When every block has no head or is kept as a whole, the kept positions are increasing if and
only if a tail that starts before its block starts in silent blocks. -/
theorem Consecutive.sorted_iff_of_no_heads (h : Consecutive 0 blocks n)
    (hheads : ∀ b ∈ blocks, b.tailStart ≤ b.stop ∧
      (b.headEnd = b.start ∨ b.headEnd = b.stop ∧ b.tailStart = b.stop)) :
    (blocks.flatMap kept).Pairwise (· < ·) ↔
      ∀ b ∈ blocks, ∀ k, b.tailStart ≤ k → k < b.headEnd →
        ∃ b' ∈ blocks, b'.Silent ∧ b'.start ≤ k ∧ k < b'.stop := by
  rw [h.sorted_flatMap_iff]
  constructor
  · rintro ⟨-, hacross⟩ b hb k htail hhead
    have hbounds := h.bounds hb
    obtain ⟨hle, hcase⟩ := hheads b hb
    obtain ⟨b', hb', hin⟩ := h.exists_block (k := k) (by omega) (by omega)
    refine ⟨b', hb', ?_, hin⟩
    by_contra hloud
    -- the last position of the block is kept, and the tail keeps it again
    have hlast : b'.stop - 1 ∈ b'.kept := by
      obtain ⟨hle', hcase'⟩ := hheads b' hb'
      rw [mem_kept]
      unfold Silent at hloud
      omega
    have hbefore : b'.start < b.start := by omega
    have hstop := h.stop_le hb' hb hbefore
    have hagain : b'.stop - 1 ∈ b.kept := mem_kept.mpr (Or.inr (by omega))
    exact absurd (hacross b' hb' b hb hbefore _ hlast _ hagain) (Nat.lt_irrefl _)
  · intro hsilent
    refine ⟨fun b hb => kept_sorted_iff.mpr fun k hle hlt htail => ?_,
      fun b hb b' hb' hlt p hp q hq => ?_⟩
    · obtain ⟨-, hcase⟩ := hheads b hb
      omega
    · have hstop := h.stop_le hb hb' hlt
      have hbounds := h.bounds hb
      obtain ⟨hle, hcase⟩ := hheads b hb
      obtain ⟨hle', hcase'⟩ := hheads b' hb'
      have hp' := mem_kept.mp hp
      have hq' := mem_kept.mp hq
      by_contra hover
      -- the tail starts at or before a position that is kept, in a silent block
      have hpoint : ∃ k, b.start ≤ k ∧ k < b.stop ∧ q ≤ k := by
        by_cases hin : b.start ≤ p
        · exact ⟨p, hin, by omega, by omega⟩
        · exact ⟨b.start, Nat.le_refl _, hbounds.2.1, by omega⟩
      obtain ⟨k, hstart, hend, hqk⟩ := hpoint
      obtain ⟨b'', hb'', ⟨hhead, htail⟩, hin⟩ := hsilent b' hb' k (by omega) (by omega)
      have heq := h.unique hb hb'' ⟨hstart, hend⟩ hin
      subst heq
      omega

/-- What lies between the start of a tail and the end of its head is in silent blocks. -/
def Apart (blocks : List Excerpt) : Prop :=
  ∀ b ∈ blocks, ∀ k, b.tailStart ≤ k → k < b.headEnd →
    ∃ b' ∈ blocks, b'.Silent ∧ b'.start ≤ k ∧ k < b'.stop

theorem Consecutive.sorted_iff (h : Consecutive 0 blocks n)
    (hheads : (∀ b ∈ blocks, b.start < b.headEnd ∧ b.headEnd ≤ n ∧ b.tailStart ≤ b.stop) ∨
      ∀ b ∈ blocks, b.tailStart ≤ b.stop ∧
        (b.headEnd = b.start ∨ b.headEnd = b.stop ∧ b.tailStart = b.stop)) :
    (blocks.flatMap kept).Pairwise (· < ·) ↔ Apart blocks := by
  rcases hheads with hheads | hheads
  · rw [h.sorted_iff_of_heads hheads]
    constructor
    · intro hapart b hb k htail hhead
      have hle := hapart b hb
      omega
    · intro hapart b hb
      by_contra hover
      obtain ⟨b', hb', ⟨hhead, -⟩, -⟩ := hapart b hb b.tailStart (Nat.le_refl _) (by omega)
      have hheld := (hheads b' hb').1
      omega
  · exact h.sorted_iff_of_no_heads hheads

end Excerpt

end RedRouter
