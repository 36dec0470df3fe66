import Mathlib.Data.List.Basic

/-!
# Texts joined with a separator

A text is cut at its first separator in one way when the part before it has no
separator (`separated_inj_first`), and at its last one in one way when the part
after it has none (`separated_inj_last`).  `cutLast` is the cut at the last one.
A separator that is doubled can also be cut one place further when there is a
third one (`doubled_cases`).
-/

namespace RedRouter.Separators

open List

variable {α : Type} {c : α} {a b x y : List α}

theorem cut_middle {mid : List α} (hrest : [c] ++ x = mid ++ ([c] ++ y)) :
    mid = [] ∧ x = y ∨ ∃ rest, mid = c :: rest ∧ x = rest ++ ([c] ++ y) := by
  cases mid with
  | nil => exact .inl ⟨rfl, (List.cons.inj hrest).2⟩
  | cons d rest =>
    obtain ⟨rfl, htail⟩ := List.cons.inj hrest
    exact .inr ⟨rest, rfl, htail⟩

theorem separated_inj_last (hx : c ∉ x) (hy : c ∉ y) (h : a ++ ([c] ++ x) = b ++ ([c] ++ y)) :
    a = b ∧ x = y := by
  have hinside : ∀ rest z : List α, c ∈ rest ++ ([c] ++ z) := fun rest z =>
    mem_append_right rest mem_cons_self
  rcases append_eq_append_iff.mp h with ⟨mid, hlong, hrest⟩ | ⟨mid, hlong, hrest⟩
  · rcases cut_middle hrest with ⟨rfl, hsame⟩ | ⟨rest, -, hcut⟩
    · rw [append_nil] at hlong
      exact ⟨hlong.symm, hsame⟩
    · rw [hcut] at hx
      exact absurd (hinside rest y) hx
  · rcases cut_middle hrest with ⟨rfl, hsame⟩ | ⟨rest, -, hcut⟩
    · rw [append_nil] at hlong
      exact ⟨hlong, hsame.symm⟩
    · rw [hcut] at hy
      exact absurd (hinside rest x) hy

theorem separated_inj_first (ha : c ∉ a) (hb : c ∉ b) (h : a ++ ([c] ++ x) = b ++ ([c] ++ y)) :
    a = b ∧ x = y := by
  have hinside : ∀ z rest : List α, c ∈ z ++ c :: rest := fun z rest =>
    mem_append_right z mem_cons_self
  rcases append_eq_append_iff.mp h with ⟨mid, hlong, hrest⟩ | ⟨mid, hlong, hrest⟩
  · rcases cut_middle hrest with ⟨rfl, hsame⟩ | ⟨rest, rfl, -⟩
    · rw [append_nil] at hlong
      exact ⟨hlong.symm, hsame⟩
    · rw [hlong] at hb
      exact absurd (hinside a rest) hb
  · rcases cut_middle hrest with ⟨rfl, hsame⟩ | ⟨rest, rfl, -⟩
    · rw [append_nil] at hlong
      exact ⟨hlong, hsame.symm⟩
    · rw [hlong] at ha
      exact absurd (hinside b rest) ha

/-- One of two cuts at a doubled separator is longer by one separator at most. -/
theorem doubled_longer {mid : List α} (hmid : ¬ [c, c] <:+: mid)
    (h : mid ++ ([c, c] ++ x) = [c, c] ++ y) : mid = [] ∧ x = y ∨ mid = [c] ∧ y = c :: x := by
  cases mid with
  | nil => exact .inl ⟨rfl, (List.cons.inj (List.cons.inj h).2).2⟩
  | cons d mid =>
    obtain ⟨rfl, htail⟩ := List.cons.inj h
    cases mid with
    | nil => exact .inr ⟨rfl, (List.cons.inj htail).2.symm⟩
    | cons d' mid =>
      obtain ⟨rfl, -⟩ := List.cons.inj htail
      exact absurd ⟨[], mid, rfl⟩ hmid

theorem doubled_cases (ha : ¬ [c, c] <:+: a) (hb : ¬ [c, c] <:+: b)
    (h : a ++ ([c, c] ++ x) = b ++ ([c, c] ++ y)) :
    a = b ∧ x = y ∨ a = b ++ [c] ∧ y = c :: x ∨ b = a ++ [c] ∧ x = c :: y := by
  rcases append_eq_append_iff.mp h with ⟨mid, rfl, hrest⟩ | ⟨mid, rfl, hrest⟩
  · have hmid : ¬ [c, c] <:+: mid := fun hin => hb (hin.trans (suffix_append a mid).isInfix)
    rcases doubled_longer hmid hrest.symm with ⟨rfl, hsame⟩ | ⟨rfl, hsame⟩
    · exact .inl ⟨(append_nil a).symm, hsame.symm⟩
    · exact .inr (.inr ⟨rfl, hsame⟩)
  · have hmid : ¬ [c, c] <:+: mid := fun hin => ha (hin.trans (suffix_append b mid).isInfix)
    rcases doubled_longer hmid hrest.symm with ⟨rfl, hsame⟩ | ⟨rfl, hsame⟩
    · exact .inl ⟨append_nil b, hsame⟩
    · exact .inr (.inl ⟨rfl, hsame⟩)

def cutLast [DecidableEq α] (c : α) : List α → Option (List α × List α)
  | [] => none
  | x :: rest =>
      match cutLast c rest with
      | some (before, after) => some (x :: before, after)
      | none => if x = c then some ([], rest) else none

theorem cutLast_eq_none [DecidableEq α] (hx : c ∉ x) : cutLast c x = none := by
  induction x with
  | nil => rfl
  | cons y x ih =>
    rw [mem_cons, not_or] at hx
    rw [cutLast, ih hx.2]
    exact if_neg (fun h => hx.1 h.symm)

theorem cutLast_append [DecidableEq α] (hx : c ∉ x) :
    cutLast c (a ++ ([c] ++ x)) = some (a, x) := by
  induction a with
  | nil =>
    show cutLast c (c :: x) = some ([], x)
    rw [cutLast, cutLast_eq_none hx]
    exact if_pos rfl
  | cons y a ih => rw [cons_append, cutLast, ih]

theorem cutLast_eq_some [DecidableEq α] {before after : List α}
    (h : cutLast c a = some (before, after)) : a = before ++ ([c] ++ after) := by
  induction a generalizing before with
  | nil => cases h
  | cons x a ih =>
    rw [cutLast] at h
    split at h
    · rename_i before' after' hrest
      cases h
      rw [ih hrest]
      rfl
    · split at h
      · rename_i hx
        cases h
        rw [hx]
        rfl
      · cases h

end RedRouter.Separators
