import Mathlib.Data.List.Basic
import Mathlib.Data.List.Induction

/-!
# Blocks of a stream

A stream of blocks is a list of frames: a block starts, gets deltas, and
stops.  Frames of different blocks may interleave.

`phase` reads off where a block is, and `lifecycle_of_done` says what it means
for a block to be done: one start, then its deltas, then one stop. `Ledger`
keeps the phases of numbered blocks that may interleave; its rules `reserve`,
`start`, `delta` and `stop` follow one block each, and the others stay as they
are. `Roster` is the same for blocks with any keys that start at once.
`Sequential` is the stricter form without interleaving, for blocks that are
numbered in the order of their start.
-/

namespace RedRouter.Blocks

open List

variable {κ : Type}

inductive Frame (κ : Type) where
  | start (key : κ)
  | delta (key : κ)
  | stop (key : κ)

def Frame.key : Frame κ → κ
  | start key => key
  | delta key => key
  | stop key => key

/-! ## One block at a time -/

/-- The frames of the blocks `0, 1, 2, …`, each with a number of deltas. -/
def sequence (sizes : List Nat) : List (Frame Nat) :=
  sizes.zipIdx.flatMap fun (size, index) =>
    .start index :: (List.replicate size (.delta index) ++ [.stop index])

theorem sequence_concat (sizes : List Nat) (size : Nat) :
    sequence (sizes ++ [size]) = sequence sizes ++ .start sizes.length ::
        (List.replicate size (.delta sizes.length) ++ [.stop sizes.length]) := by
  simp [sequence, zipIdx_append]

/-- Complete blocks, and the block that is open, if there is one. -/
structure Sequential (frames : List (Frame Nat)) (count : Nat) (isOpen : Bool) : Prop where
  shape : ∃ sizes : List Nat, sizes.length = count ∧
    if isOpen = true then ∃ size, frames = sequence sizes ++
      .start count :: List.replicate size (.delta count)
    else frames = sequence sizes

namespace Sequential

variable {frames : List (Frame Nat)} {count : Nat}

theorem nil : Sequential [] 0 false := ⟨[], rfl, rfl⟩

theorem start (h : Sequential frames count false) :
    Sequential (frames ++ [.start count]) count true := by
  obtain ⟨sizes, hlength, rfl⟩ := h.shape
  exact ⟨sizes, hlength, 0, rfl⟩

theorem delta (h : Sequential frames count true) :
    Sequential (frames ++ [.delta count]) count true := by
  obtain ⟨sizes, hlength, size, rfl⟩ := h.shape
  refine ⟨sizes, hlength, size + 1, ?_⟩
  rw [replicate_succ', append_assoc]
  rfl

theorem stop (h : Sequential frames count true) :
    Sequential (frames ++ [.stop count]) (count + 1) false := by
  obtain ⟨sizes, rfl, size, rfl⟩ := h.shape
  refine ⟨sizes ++ [size], by simp, ?_⟩
  rw [if_neg (by simp), sequence_concat, append_assoc]
  rfl

theorem block (h : Sequential frames count false) :
    Sequential (frames ++ [.start count, .delta count, .stop count]) (count + 1) false := by
  have hblock := h.start.delta.stop
  rw [append_assoc, append_assoc] at hblock
  exact hblock

end Sequential

/-! ## Interleaved blocks -/

inductive Phase where
  | fresh
  | live
  | done
  | broken
deriving DecidableEq

def Phase.next : Phase → Frame κ → Phase
  | fresh, .start _ => live
  | live, .delta _ => live
  | live, .stop _ => done
  | _, _ => broken

variable [DecidableEq κ]

/-- Where a block is after some frames. -/
def phase (key : κ) (frames : List (Frame κ)) : Phase :=
  (frames.filter fun f => f.key = key).foldl Phase.next .fresh

@[simp] theorem phase_nil (key : κ) : phase key [] = .fresh := rfl

theorem phase_concat (key : κ) (frames : List (Frame κ)) (f : Frame κ) : phase key (frames ++ [f]) =
      if f.key = key then (phase key frames).next f else phase key frames := by
  unfold phase
  by_cases h : f.key = key
  all_goals simp [h]

/-- A whole block: one start, its deltas, one stop. -/
def Lifecycle (key : κ) (frames : List (Frame κ)) : Prop :=
  ∃ size, frames.filter (fun f => f.key = key) =
    .start key :: (List.replicate size (.delta key) ++ [.stop key])

theorem frames_of_phase (key : κ) (frames : List (Frame κ)) :
    (phase key frames = .fresh → frames.filter (fun f => f.key = key) = []) ∧
    (phase key frames = .live → ∃ size, frames.filter (fun f => f.key = key) =
      .start key :: List.replicate size (.delta key)) ∧
    (phase key frames = .done → Lifecycle key frames) := by
  induction frames using List.reverseRecOn with
  | nil => simp
  | append_singleton frames f ih =>
    obtain ⟨hfresh, hlive, hdone⟩ := ih
    have hfilter : (frames ++ [f]).filter (fun f => f.key = key) =
        frames.filter (fun f => f.key = key) ++ if f.key = key then [f] else [] := by
      by_cases h : f.key = key
      all_goals simp [h]
    rw [phase_concat]
    unfold Lifecycle at hdone ⊢
    rw [hfilter]
    by_cases h : f.key = key
    · rw [if_pos h, if_pos h]
      cases hphase : phase key frames with
      | fresh =>
        cases f with
        | start k =>
          have hk : k = key := h
          refine ⟨by simp [Phase.next], fun _ => ⟨0, ?_⟩, by simp [Phase.next]⟩
          rw [hfresh hphase, hk]
          rfl
        | delta k => simp [Phase.next]
        | stop k => simp [Phase.next]
      | live =>
        obtain ⟨size, hframes⟩ := hlive hphase
        cases f with
        | start k => simp [Phase.next]
        | delta k =>
          have hk : k = key := h
          refine ⟨by simp [Phase.next], fun _ => ⟨size + 1, ?_⟩, by simp [Phase.next]⟩
          rw [hframes, hk, replicate_succ']
          rfl
        | stop k =>
          have hk : k = key := h
          refine ⟨by simp [Phase.next], by simp [Phase.next], fun _ => ⟨size, ?_⟩⟩
          rw [hframes, hk]
          rfl
      | done => cases f <;> simp [Phase.next]
      | broken => cases f <;> simp [Phase.next]
    · rw [if_neg h, if_neg h, append_nil]
      exact ⟨hfresh, hlive, hdone⟩

theorem lifecycle_of_done {key : κ} {frames : List (Frame κ)} (h : phase key frames = .done) :
    Lifecycle key frames := (frames_of_phase key frames).2.2 h

theorem filter_of_fresh {key : κ} {frames : List (Frame κ)} (h : phase key frames = .fresh) :
    frames.filter (fun f => f.key = key) = [] := (frames_of_phase key frames).1 h

/-! ## A ledger of interleaved blocks -/

/-- The blocks with a number below `next` are done, except for the listed ones,
which are in the phase that stands beside them.  The others are fresh. -/
structure Ledger (frames : List (Frame Nat)) (next : Nat) (entries : List (Nat × Phase)) :
    Prop where
  nodup : (entries.map Prod.fst).Nodup
  bound : ∀ e ∈ entries, e.1 < next
  phases : ∀ e ∈ entries, phase e.1 frames = e.2
  closed : ∀ i < next, i ∉ entries.map Prod.fst → phase i frames = .done
  fresh : ∀ i, next ≤ i → phase i frames = .fresh

namespace Ledger

variable {frames : List (Frame Nat)} {next index : Nat} {entries : List (Nat × Phase)} {p : Phase}

theorem nil : Ledger [] 0 [] := by
  refine ⟨nodup_nil, ?_, ?_, ?_, ?_⟩ <;> simp

theorem perm (h : Ledger frames next entries) {entries' : List (Nat × Phase)}
    (hperm : entries.Perm entries') : Ledger frames next entries' := by
  have hkeys := hperm.map Prod.fst
  refine ⟨hkeys.nodup_iff.mp h.nodup, ?_, ?_, ?_, h.fresh⟩
  · intro e he
    exact h.bound e (hperm.mem_iff.mpr he)
  · intro e he
    exact h.phases e (hperm.mem_iff.mpr he)
  · intro i hi hnot
    exact h.closed i hi fun hmem => hnot (hkeys.mem_iff.mp hmem)

/-- A number is given out before the block has started. -/
theorem reserve (h : Ledger frames next entries) :
    Ledger frames (next + 1) ((next, .fresh) :: entries) := by
  refine ⟨?_, ?_, ?_, ?_, ?_⟩
  · rw [map_cons, nodup_cons]
    refine ⟨?_, h.nodup⟩
    intro hmem
    obtain ⟨e, he, hkey⟩ := mem_map.mp hmem
    have hbound := h.bound e he
    omega
  · intro e he
    rcases mem_cons.mp he with rfl | he
    · exact Nat.lt_succ_self next
    · exact Nat.lt_succ_of_lt (h.bound e he)
  · intro e he
    rcases mem_cons.mp he with rfl | he
    · exact h.fresh next (Nat.le_refl next)
    · exact h.phases e he
  · intro i hi hnot
    rw [map_cons, mem_cons, not_or] at hnot
    exact h.closed i (by omega) hnot.2
  · intro i hi
    exact h.fresh i (by omega)

/-- One more frame of a listed block. -/
theorem frame (h : Ledger frames next ((index, p) :: entries)) {f : Frame Nat}
    (hkey : f.key = index) : Ledger (frames ++ [f]) next ((index, p.next f) :: entries) := by
  have hother : ∀ i, i ≠ index → phase i (frames ++ [f]) = phase i frames := by
    intro i hi
    rw [phase_concat, if_neg]
    rw [hkey]
    exact fun heq => hi heq.symm
  have hnodup := h.nodup
  rw [map_cons, nodup_cons] at hnodup
  refine ⟨h.nodup, ?_, ?_, ?_, ?_⟩
  · intro e he
    rcases mem_cons.mp he with rfl | he
    · exact h.bound (index, p) mem_cons_self
    · exact h.bound e (mem_cons_of_mem _ he)
  · intro e he
    rcases mem_cons.mp he with rfl | he
    · rw [phase_concat, if_pos hkey, h.phases (index, p) mem_cons_self]
    · have hne : e.1 ≠ index := fun heq => hnodup.1 (mem_map.mpr ⟨e, he, heq⟩)
      rw [hother e.1 hne]
      exact h.phases e (mem_cons_of_mem _ he)
  · intro i hi hnot
    have hne : i ≠ index := by
      intro heq
      exact hnot (by simp [heq])
    rw [hother i hne]
    exact h.closed i hi hnot
  · intro i hi
    have hbound := h.bound (index, p) mem_cons_self
    rw [hother i (by dsimp only at hbound; omega)]
    exact h.fresh i hi

theorem start (h : Ledger frames next ((index, .fresh) :: entries)) :
    Ledger (frames ++ [.start index]) next ((index, .live) :: entries) := h.frame rfl

theorem delta (h : Ledger frames next ((index, .live) :: entries)) :
    Ledger (frames ++ [.delta index]) next ((index, .live) :: entries) := h.frame rfl

/-- A block that has stopped is not listed any more. -/
theorem stop (h : Ledger frames next ((index, .live) :: entries)) :
    Ledger (frames ++ [.stop index]) next entries := by
  have hstop : Ledger (frames ++ [.stop index]) next ((index, .done) :: entries) := h.frame rfl
  have hnodup := hstop.nodup
  rw [map_cons, nodup_cons] at hnodup
  refine ⟨hnodup.2, ?_, ?_, ?_, hstop.fresh⟩
  · intro e he
    exact hstop.bound e (mem_cons_of_mem _ he)
  · intro e he
    exact hstop.phases e (mem_cons_of_mem _ he)
  · intro i hi hnot
    by_cases heq : i = index
    · rw [heq]
      exact hstop.phases (index, .done) mem_cons_self
    · apply hstop.closed i hi
      rw [map_cons, mem_cons, not_or]
      exact ⟨heq, hnot⟩

/-- A new block with the next number. -/
theorem begin (h : Ledger frames next entries) :
    Ledger (frames ++ [.start next]) (next + 1) ((next, .live) :: entries) := h.reserve.start

/-- When no block is listed, all blocks are whole. -/
theorem lifecycle (h : Ledger frames next []) {i : Nat} (hi : i < next) : Lifecycle i frames :=
  lifecycle_of_done (h.closed i hi (by simp))

theorem key_lt (h : Ledger frames next entries) {f : Frame Nat} (hf : f ∈ frames) :
    f.key < next := by
  by_contra hle
  have hnone := filter_of_fresh (h.fresh f.key (by omega))
  have hmem : f ∈ frames.filter fun g => g.key = f.key := by simp [hf]
  rw [hnone] at hmem
  cases hmem

end Ledger

/-! ## A roster of interleaved blocks -/

/-- The blocks that have started, each with its phase.  The others are fresh. -/
structure Roster (frames : List (Frame κ)) (entries : List (κ × Phase)) : Prop where
  phases : ∀ e ∈ entries, phase e.1 frames = e.2
  fresh : ∀ key, key ∉ entries.map Prod.fst → phase key frames = .fresh

namespace Roster

variable {frames : List (Frame κ)} {key : κ} {entries : List (κ × Phase)} {p : Phase}

theorem nil : Roster ([] : List (Frame κ)) [] := by
  refine ⟨?_, ?_⟩ <;> simp

theorem perm (h : Roster frames entries) {entries' : List (κ × Phase)}
    (hperm : entries.Perm entries') : Roster frames entries' := by
  refine ⟨?_, ?_⟩
  · intro e he
    exact h.phases e (hperm.mem_iff.mpr he)
  · intro k hk
    exact h.fresh k fun hmem => hk ((hperm.map Prod.fst).mem_iff.mp hmem)

theorem phase_other {f : Frame κ} {k : κ} (hkey : f.key = key) (hne : k ≠ key) :
    phase k (frames ++ [f]) = phase k frames := by
  rw [phase_concat, if_neg]
  intro heq
  exact hne (heq.symm.trans hkey)

theorem begin (h : Roster frames entries) (hnew : key ∉ entries.map Prod.fst) :
    Roster (frames ++ [.start key]) ((key, .live) :: entries) := by
  refine ⟨?_, ?_⟩
  · intro e he
    rcases mem_cons.mp he with rfl | he
    · have hkey : (Frame.start key).key = key := rfl
      show phase key (frames ++ [.start key]) = .live
      rw [phase_concat, if_pos hkey, h.fresh key hnew]
      rfl
    · have hne : e.1 ≠ key := fun heq => hnew (mem_map.mpr ⟨e, he, heq⟩)
      rw [phase_other rfl hne]
      exact h.phases e he
  · intro k hk
    rw [map_cons, mem_cons, not_or] at hk
    rw [phase_other rfl hk.1]
    exact h.fresh k hk.2

theorem frame (h : Roster frames ((key, p) :: entries)) (hnodup : key ∉ entries.map Prod.fst)
    {f : Frame κ} (hkey : f.key = key) : Roster (frames ++ [f]) ((key, p.next f) :: entries) := by
  refine ⟨?_, ?_⟩
  · intro e he
    rcases mem_cons.mp he with rfl | he
    · rw [phase_concat, if_pos hkey, h.phases (key, p) mem_cons_self]
    · have hne : e.1 ≠ key := fun heq => hnodup (mem_map.mpr ⟨e, he, heq⟩)
      rw [phase_other hkey hne]
      exact h.phases e (mem_cons_of_mem _ he)
  · intro k hk
    have hne : k ≠ key := by
      intro heq
      exact hk (by simp [heq])
    rw [phase_other hkey hne]
    exact h.fresh k hk

theorem delta (h : Roster frames ((key, .live) :: entries)) (hnodup : key ∉ entries.map Prod.fst) :
    Roster (frames ++ [.delta key]) ((key, .live) :: entries) := h.frame hnodup rfl

theorem stop (h : Roster frames ((key, .live) :: entries)) (hnodup : key ∉ entries.map Prod.fst) :
    Roster (frames ++ [.stop key]) ((key, .done) :: entries) := h.frame hnodup rfl

/-- Every frame belongs to a block on the roster. -/
theorem key_mem (h : Roster frames entries) {f : Frame κ} (hf : f ∈ frames) :
    f.key ∈ entries.map Prod.fst := by
  by_contra hnot
  have hnone := filter_of_fresh (h.fresh f.key hnot)
  have hmem : f ∈ frames.filter fun g => g.key = f.key := by simp [hf]
  rw [hnone] at hmem
  cases hmem

theorem lifecycle (h : Roster frames entries) (hdone : ∀ e ∈ entries, e.2 = .done) {f : Frame κ}
    (hf : f ∈ frames) : Lifecycle f.key frames := by
  obtain ⟨e, he, hkey⟩ := mem_map.mp (h.key_mem hf)
  apply lifecycle_of_done
  rw [← hkey, h.phases e he]
  exact hdone e he

end Roster

end RedRouter.Blocks
