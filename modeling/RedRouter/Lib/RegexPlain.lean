import Mathlib.Computability.Language
import RedRouter.Lib.Regex

/-!
# Plain patterns

A plain pattern has no star, group, back reference or assertion.  It matches a
whole text exactly when the text is in its language (`test_whole`): the order in
which the matcher tries the alternatives does not matter then.
-/

namespace RedRouter.Regex

open List Pattern Option

def Pattern.language : Pattern → Language UInt16
  | .empty => 1
  | .unit p => { text | ∃ u, text = [u] ∧ p u = true }
  | .seq a b => a.language * b.language
  | .alt a b => a.language + b.language
  | _ => 0

def Pattern.plain : Pattern → Bool
  | .empty => true
  | .unit _ => true
  | .seq a b => a.plain && b.plain
  | .alt a b => a.plain && b.plain
  | _ => false

/-- `^`, the pattern and `$`. -/
def Pattern.whole (p : Pattern) : Pattern := cat [.atStart, p, .atEnd]

variable {a b p : Pattern} {s : JsString}

theorem mem_language_unit {q : UInt16 → Bool} :
    s ∈ (Pattern.unit q).language ↔ ∃ u, s = [u] ∧ q u = true := Iff.rfl

theorem mem_language_seq :
    s ∈ (Pattern.seq a b).language ↔ ∃ t ∈ a.language, ∃ r ∈ b.language, t ++ r = s :=
  Language.mem_mul

theorem mem_language_alt : s ∈ (Pattern.alt a b).language ↔ s ∈ a.language ∨ s ∈ b.language :=
  Language.mem_add _ _ _

theorem mem_language_cat {rest : List Pattern} : s ∈ (cat (a :: b :: rest)).language ↔
      ∃ t ∈ a.language, ∃ r ∈ (cat (b :: rest)).language, t ++ r = s :=
  Language.mem_mul

/-! ## The matcher -/

@[simp] theorem advance_zero (c : Cursor) : c.advance 0 = c := by
  cases c
  simp [Cursor.advance]

theorem advance_advance (c : Cursor) (m n : Nat) : (c.advance m).advance n = c.advance (m + n) := by
  simp [Cursor.advance, take_add, Option.or_assoc]

/-- The matcher gets through a plain pattern if its continuation goes on after
one of the texts. -/
theorem run_plain {α : Type} (hp : p.plain = true) (c : Cursor) (k : Cursor → Option α) :
    (run p c k).isSome = true ↔
      ∃ s ∈ p.language, s <+: c.rest ∧ (k (c.advance s.length)).isSome = true := by
  induction p generalizing α c with
  | empty =>
    simp only [run]
    constructor
    · intro h
      exact ⟨[], rfl, nil_prefix, by simpa using h⟩
    · rintro ⟨s, rfl, -, h⟩
      simpa using h
  | unit q =>
    simp only [run]
    constructor
    · intro h
      split at h
      · rename_i u rest hrest
        split at h
        · rename_i hu
          refine ⟨[u], ⟨u, rfl, hu⟩, ?_, h⟩
          rw [hrest]
          exact prefix_append [u] rest
        · cases h
      · cases h
    · rintro ⟨s, ⟨u, rfl, hu⟩, ⟨rest, hrest⟩, h⟩
      rw [← hrest]
      simp only [singleton_append, hu]
      exact h
  | seq a b iha ihb =>
    rw [Pattern.plain, Bool.and_eq_true] at hp
    simp only [run, iha hp.1, ihb hp.2]
    constructor
    · rintro ⟨s, hs, hprefix, t, ht, htprefix, h⟩
      rw [advance_advance, ← length_append] at h
      refine ⟨s ++ t, ⟨s, hs, t, ht, rfl⟩, ?_, h⟩
      obtain ⟨rest, hrest⟩ := hprefix
      rw [Cursor.advance, ← hrest, drop_left] at htprefix
      rw [← hrest]
      exact (prefix_append_right_inj s).mpr htprefix
    · rintro ⟨_, ⟨s, hs, t, ht, rfl⟩, hprefix, h⟩
      refine ⟨s, hs, (prefix_append s t).trans hprefix, t, ht, ?_, ?_⟩
      · obtain ⟨rest, hrest⟩ := hprefix
        rw [Cursor.advance, ← hrest, append_assoc]
        simp
      · rw [advance_advance, ← length_append]
        exact h
  | alt a b iha ihb =>
    rw [Pattern.plain, Bool.and_eq_true] at hp
    simp only [run]
    have hor : ((run a c k).orElse fun _ => run b c k).isSome = true ↔
        (run a c k).isSome = true ∨ (run b c k).isSome = true := by
      cases run a c k <;> simp
    rw [hor, iha hp.1, ihb hp.2]
    constructor
    · rintro (⟨s, hs, h⟩ | ⟨s, hs, h⟩)
      · exact ⟨s, .inl hs, h⟩
      · exact ⟨s, .inr hs, h⟩
    · rintro ⟨s, hs | hs, h⟩
      · exact .inl ⟨s, hs, h⟩
      · exact .inr ⟨s, hs, h⟩
  | _ => cases hp

theorem matchAt_whole (hp : p.plain = true) (index : Nat) (previous : Option UInt16) :
    (matchAt p.whole index previous s).isSome = true ↔ previous = none ∧ s ∈ p.language := by
  unfold matchAt Pattern.whole
  simp only [cat, run]
  cases previous with
  | some u => simp
  | none =>
    simp only [isNone_none, if_true, run_plain hp, true_and]
    constructor
    · rintro ⟨t, ht, ⟨rest, hrest⟩, h⟩
      subst hrest
      split at h
      · rename_i hend
        rw [Cursor.advance] at hend
        simp only [drop_left, List.isEmpty_iff] at hend
        rw [hend, append_nil]
        exact ht
      · cases h
    · intro hs
      exact ⟨s, hs, prefix_rfl, by simp [Cursor.advance]⟩

theorem test_whole (hp : p.plain = true) : test p.whole s = true ↔ s ∈ p.language := by
  unfold test
  constructor
  · intro h
    obtain ⟨m, hm⟩ := isSome_iff_exists.mp h
    obtain ⟨before, rest, rfl, hmatch⟩ := searchFrom_matchAt hm
    obtain ⟨hfirst, hrest⟩ := (matchAt_whole hp _ _).mp (isSome_of_eq_some hmatch)
    cases before with
    | nil => exact hrest
    | cons u before => exact absurd hfirst (by simp [lastUnit])
  · intro hs
    have hmatch := (matchAt_whole hp 0 none).mpr ⟨rfl, hs⟩
    unfold search
    cases s with
    | nil => exact hmatch
    | cons u rest =>
      rw [searchFrom]
      obtain ⟨m, hm⟩ := isSome_iff_exists.mp hmatch
      rw [hm]
      rfl

/-! ## The languages of the shorthands -/

theorem mem_language_opt : s ∈ (opt a).language ↔ s ∈ a.language ∨ s = [] :=
  Language.mem_add _ _ _

theorem mem_language_lit {text : JsString} : s ∈ (lit text).language ↔ s = text := by
  induction text generalizing s with
  | nil => exact Iff.rfl
  | cons u text ih =>
    constructor
    · rintro ⟨_, ⟨v, rfl, hv⟩, r, hr, rfl⟩
      rw [ih.mp hr, show v = u by simpa using hv]
      rfl
    · rintro rfl
      exact ⟨[u], ⟨u, rfl, by simp⟩, text, ih.mpr rfl, rfl⟩

theorem language_times (n : Nat) : (times a b n).language = a.language ^ n * b.language := by
  induction n with
  | zero => rw [pow_zero, one_mul, times]
  | succ n ih =>
    show a.language * (times a b n).language = _
    rw [ih, pow_succ', mul_assoc]

theorem mem_language_upTo {n : Nat} :
    s ∈ (upTo true a n).language ↔ ∃ i ≤ n, s ∈ a.language ^ i := by
  induction n generalizing s with
  | zero =>
    constructor
    · intro h
      exact ⟨0, Nat.le_refl 0, h⟩
    · rintro ⟨i, hi, h⟩
      rw [Nat.le_zero.mp hi] at h
      exact h
  | succ n ih =>
    constructor
    · rintro (⟨t, ht, r, hr, rfl⟩ | h)
      · obtain ⟨i, hi, hpow⟩ := ih.mp hr
        refine ⟨i + 1, Nat.succ_le_succ hi, ?_⟩
        rw [pow_succ']
        exact Language.append_mem_mul ht hpow
      · exact ⟨0, Nat.zero_le _, h⟩
    · rintro ⟨i, hi, h⟩
      cases i with
      | zero => exact .inr h
      | succ i =>
        rw [pow_succ', Language.mem_mul] at h
        obtain ⟨t, ht, r, hr, rfl⟩ := h
        exact .inl ⟨t, ht, r, ih.mpr ⟨i, Nat.le_of_succ_le_succ hi, hr⟩, rfl⟩

theorem mem_language_unit_pow {q : UInt16 → Bool} (n : Nat) :
    s ∈ (Pattern.unit q).language ^ n ↔ s.length = n ∧ ∀ u ∈ s, q u = true := by
  induction n generalizing s with
  | zero =>
    constructor
    · rintro rfl
      exact ⟨rfl, fun u hu => absurd hu not_mem_nil⟩
    · rintro ⟨hlength, -⟩
      exact length_eq_zero_iff.mp hlength
  | succ n ih =>
    rw [pow_succ', Language.mem_mul]
    constructor
    · rintro ⟨_, ⟨u, rfl, hu⟩, t, ht, rfl⟩
      obtain ⟨hlength, hall⟩ := ih.mp ht
      refine ⟨by simp [hlength], fun v hv => ?_⟩
      rcases mem_cons.mp hv with rfl | hv
      · exact hu
      · exact hall v hv
    · rintro ⟨hlength, hall⟩
      obtain ⟨u, t, rfl⟩ := exists_cons_of_length_eq_add_one hlength
      refine ⟨[u], ⟨u, rfl, hall u mem_cons_self⟩, t, ih.mpr ⟨Nat.succ.inj hlength, ?_⟩, rfl⟩
      exact fun v hv => hall v (mem_cons_of_mem u hv)

theorem mem_language_units {q : UInt16 → Bool} {n : Nat} :
    s ∈ (Pattern.seq (.unit q) (upTo true (.unit q) n)).language ↔
      s ≠ [] ∧ s.length ≤ n + 1 ∧ ∀ u ∈ s, q u = true := by
  rw [mem_language_seq]
  constructor
  · rintro ⟨_, ⟨u, rfl, hu⟩, t, ht, rfl⟩
    obtain ⟨i, hi, hpow⟩ := mem_language_upTo.mp ht
    obtain ⟨hlength, hall⟩ := (mem_language_unit_pow i).mp hpow
    refine ⟨by simp, by simp; omega, fun v hv => ?_⟩
    rcases mem_cons.mp hv with rfl | hv
    · exact hu
    · exact hall v hv
  · rintro ⟨hne, hlength, hall⟩
    obtain ⟨u, t, rfl⟩ := exists_cons_of_ne_nil hne
    refine ⟨[u], ⟨u, rfl, hall u mem_cons_self⟩, t, ?_, rfl⟩
    rw [length_cons] at hlength
    exact mem_language_upTo.mpr ⟨t.length, by omega, (mem_language_unit_pow _).mpr
      ⟨rfl, fun v hv => hall v (mem_cons_of_mem u hv)⟩⟩

theorem mem_language_pow {γ : Type} {word : γ → JsString}
    (h : ∀ s, s ∈ a.language ↔ ∃ g, word g = s) (n : Nat) :
    s ∈ a.language ^ n ↔ ∃ gs : List γ, gs.length = n ∧ gs.flatMap word = s := by
  induction n generalizing s with
  | zero =>
    rw [pow_zero, Language.mem_one]
    constructor
    · rintro rfl
      exact ⟨[], rfl, rfl⟩
    · rintro ⟨gs, hlength, rfl⟩
      rw [length_eq_zero_iff.mp hlength]
      rfl
  | succ n ih =>
    rw [pow_succ', Language.mem_mul]
    constructor
    · rintro ⟨t, ht, r, hr, rfl⟩
      obtain ⟨g, rfl⟩ := (h t).mp ht
      obtain ⟨gs, rfl, rfl⟩ := ih.mp hr
      exact ⟨g :: gs, rfl, rfl⟩
    · rintro ⟨gs, hlength, rfl⟩
      obtain ⟨g, gs, rfl⟩ := exists_cons_of_length_eq_add_one hlength
      exact ⟨word g, (h _).mpr ⟨g, rfl⟩, gs.flatMap word, ih.mpr ⟨gs, Nat.succ.inj hlength, rfl⟩,
        rfl⟩

end RedRouter.Regex
