import RedRouter.Lib.Regex

/-!
# Tests of a pattern

The tests read a fact off a pattern: which units it does not consume at all, or
as the first or the last of a match, and what must stand at its ends.  Each
comes with the rule that it is sound for (`Derives`).  `run_tailUnit` is the one
fact that needs the order of the matcher: a greedy star over one class that ends
a pattern stops where the class does.
-/

namespace RedRouter.Regex

open List Bool

/-! ## Tests of a pattern -/

namespace Pattern

/-- The pattern may consume nothing.  Inside a text the beginning is never
met. -/
def nullable (inside : Bool) : Pattern → Bool
  | .unit _ => false
  | .seq a b => a.nullable inside && b.nullable inside
  | .alt a b => a.nullable inside || b.nullable inside
  | .group _ a => a.nullable inside
  | .atStart => !inside
  | _ => true

/-- No unit of `units` is consumed. -/
def avoids (units : List UInt16) : Pattern → Bool
  | .unit p => units.all fun u => !p u
  | .seq a b => a.avoids units && b.avoids units
  | .alt a b => a.avoids units && b.avoids units
  | .star _ a => a.avoids units
  | .group _ a => a.avoids units
  | .backref _ => false
  | _ => true

/-- No match inside a text begins with a unit of `units`. -/
def firstAvoids (units : List UInt16) : Pattern → Bool
  | .unit p => units.all fun u => !p u
  | .seq a b => a.firstAvoids units && (!a.nullable true || b.firstAvoids units)
  | .alt a b => a.firstAvoids units && b.firstAvoids units
  | .star _ a => a.firstAvoids units
  | .group _ a => a.firstAvoids units
  | .backref _ => false
  | _ => true

/-- No match ends with a unit of `units`. -/
def lastAvoids (units : List UInt16) : Pattern → Bool
  | .unit p => units.all fun u => !p u
  | .seq a b => b.lastAvoids units && (!b.nullable false || a.lastAvoids units)
  | .alt a b => a.lastAvoids units && b.lastAvoids units
  | .star _ a => a.lastAvoids units
  | .group _ a => a.lastAvoids units
  | .backref _ => false
  | _ => true

/-- The pattern begins with `\b`. -/
def startsAtWord : Pattern → Bool
  | .seq a _ => a.startsAtWord
  | .wordBoundary => true
  | _ => false

/-- The pattern ends with `\b`. -/
def endsAtWord : Pattern → Bool
  | .seq _ b => b.endsAtWord
  | .wordBoundary => true
  | _ => false

/-- The pattern ends with `$` under the `m` flag. -/
def endsAtLine : Pattern → Bool
  | .seq _ b => b.endsAtLine
  | .lineEnd => true
  | _ => false

/-- No match begins inside a run of `units` that ends with `stop`: up to some
part the pattern does not get past `stop`, and that part cannot begin with a unit
of the run. -/
def sticks (units : List UInt16) (stop : UInt16) : Pattern → Bool
  | .seq a b =>
      !(Pattern.seq a b).nullable true && (Pattern.seq a b).firstAvoids units ||
        a.avoids [stop] && b.sticks units stop
  | p => !p.nullable true && p.firstAvoids units

def tailUnit : Pattern → Option (UInt16 → Bool)
  | .seq _ b => b.tailUnit
  | .star true (.unit p) => some p
  | _ => none

end Pattern

variable {p : Pattern} {previous : Option UInt16} {text rest : JsString}

variable {q : UInt16 → Bool} {units : List UInt16}

theorem not_mem_of_all {u : UInt16} (h : (units.all fun u => !q u) = true) (hu : q u = true) :
    u ∉ units := by
  intro hmem
  have hnot := all_eq_true.mp h u hmem
  simp [hu] at hnot

section

variable (h : Derives p previous text rest)
include h

theorem Derives.ne_nil {inside : Bool}
    (hinside : inside = true → previous ≠ none) (hp : p.nullable inside = false) : text ≠ [] := by
  induction h with
  | empty => simp [Pattern.nullable] at hp
  | unit h => simp
  | seq ha hb iha ihb =>
    rw [Pattern.nullable, and_eq_false_iff] at hp
    obtain hp | hp := hp
    · simp [iha hinside hp]
    · simp [ihb (fun h => lastUnit_ne_none (hinside h) _) hp]
  | altLeft h ih =>
    rw [Pattern.nullable, or_eq_false_iff] at hp
    exact ih hinside hp.1
  | altRight h ih =>
    rw [Pattern.nullable, or_eq_false_iff] at hp
    exact ih hinside hp.2
  | group h ih => exact ih hinside hp
  | atStart =>
    rw [Pattern.nullable, not_eq_false'] at hp
    exact absurd rfl (hinside hp)
  | starDone => simp [Pattern.nullable] at hp
  | starMore ha hb iha ihb => simp [Pattern.nullable] at hp
  | backref => simp [Pattern.nullable] at hp
  | ahead => simp [Pattern.nullable] at hp
  | notAhead => simp [Pattern.nullable] at hp
  | notBehind => simp [Pattern.nullable] at hp
  | wordBoundary h => simp [Pattern.nullable] at hp
  | atEnd => simp [Pattern.nullable] at hp
  | lineStart => simp [Pattern.nullable] at hp
  | lineEnd h => simp [Pattern.nullable] at hp

theorem Derives.avoids (hp : p.avoids units = true) : ∀ u ∈ text, u ∉ units := by
  induction h with
  | unit h =>
    intro u hu
    rw [mem_singleton.mp hu]
    exact not_mem_of_all hp h
  | seq ha hb iha ihb =>
    rw [Pattern.avoids, and_eq_true] at hp
    intro u hu
    obtain hu | hu := mem_append.mp hu
    · exact iha hp.1 u hu
    · exact ihb hp.2 u hu
  | altLeft h ih =>
    rw [Pattern.avoids, and_eq_true] at hp
    exact ih hp.1
  | altRight h ih =>
    rw [Pattern.avoids, and_eq_true] at hp
    exact ih hp.2
  | starMore ha hb iha ihb =>
    intro u hu
    obtain hu | hu := mem_append.mp hu
    · exact iha hp u hu
    · exact ihb hp u hu
  | group h ih => exact ih hp
  | backref => simp [Pattern.avoids] at hp
  | _ => simp

theorem Derives.firstAvoids (hprevious : previous ≠ none)
    (hp : p.firstAvoids units = true) : ∀ u, text.head? = some u → u ∉ units := by
  induction h with
  | unit h =>
    intro u hu
    cases hu
    exact not_mem_of_all hp h
  | seq ha hb iha ihb =>
    rw [Pattern.firstAvoids, and_eq_true, or_eq_true, not_eq_true'] at hp
    intro u hu
    rename_i s t rest
    cases hs : s with
    | nil =>
      rw [hs] at ha hu ihb
      have hnull := hp.2.resolve_left fun hfull =>
        ha.ne_nil (fun _ => hprevious) hfull rfl
      exact ihb hprevious hnull u hu
    | cons v s =>
      rw [hs] at hu iha
      exact iha hprevious hp.1 u hu
  | altLeft h ih =>
    rw [Pattern.firstAvoids, and_eq_true] at hp
    exact ih hprevious hp.1
  | altRight h ih =>
    rw [Pattern.firstAvoids, and_eq_true] at hp
    exact ih hprevious hp.2
  | starMore ha hb iha ihb =>
    intro u hu
    rename_i s t rest
    cases hs : s with
    | nil =>
      rw [hs] at hu ihb
      exact ihb hprevious hp u hu
    | cons v s =>
      rw [hs] at hu iha
      exact iha hprevious hp u hu
  | group h ih => exact ih hprevious hp
  | backref => simp [Pattern.firstAvoids] at hp
  | _ => simp

theorem Derives.lastAvoids (hp : p.lastAvoids units = true) :
    ∀ u, text.getLast? = some u → u ∉ units := by
  induction h with
  | unit h =>
    intro u hu
    cases hu
    exact not_mem_of_all hp h
  | seq ha hb iha ihb =>
    rw [Pattern.lastAvoids, and_eq_true, or_eq_true, not_eq_true'] at hp
    intro u hu
    rename_i s t rest
    cases ht : t.getLast? with
    | none =>
      rw [getLast?_append, ht, Option.none_or] at hu
      rw [getLast?_eq_none_iff.mp ht] at hb
      have hnull := hp.2.resolve_left fun hfull =>
        hb.ne_nil (fun h => absurd h (by decide)) hfull rfl
      exact iha hnull u hu
    | some v =>
      rw [getLast?_append, ht, Option.some_or] at hu
      cases hu
      exact ihb hp.1 u ht
  | altLeft h ih =>
    rw [Pattern.lastAvoids, and_eq_true] at hp
    exact ih hp.1
  | altRight h ih =>
    rw [Pattern.lastAvoids, and_eq_true] at hp
    exact ih hp.2
  | starMore ha hb iha ihb =>
    intro u hu
    rename_i s t rest
    cases ht : t.getLast? with
    | none =>
      rw [getLast?_append, ht, Option.none_or] at hu
      exact iha hp u hu
    | some v =>
      rw [getLast?_append, ht, Option.some_or] at hu
      cases hu
      exact ihb hp u ht
  | group h ih => exact ih hp
  | backref => simp [Pattern.lastAvoids] at hp
  | _ => simp

theorem Derives.startsAtWord (hp : p.startsAtWord = true) :
    (previous.map isWord).getD false ≠ ((text ++ rest).head?.map isWord).getD false := by
  induction h with
  | seq ha hb iha ihb =>
    rw [append_assoc]
    exact iha hp
  | wordBoundary h => exact h
  | _ => simp [Pattern.startsAtWord] at hp

theorem Derives.endsAtWord (hp : p.endsAtWord = true) :
    ((lastUnit previous text).map isWord).getD false ≠ (rest.head?.map isWord).getD false := by
  induction h with
  | seq ha hb iha ihb =>
    rw [lastUnit_append]
    exact ihb hp
  | wordBoundary h => exact h
  | _ => simp [Pattern.endsAtWord] at hp

theorem Derives.endsAtLine (hp : p.endsAtLine = true) :
    (rest.head?.map isLineTerminator).getD true = true := by
  induction h with
  | seq ha hb iha ihb => exact ihb hp
  | lineEnd h => exact h
  | _ => simp [Pattern.endsAtLine] at hp

section

variable (hprevious : previous ≠ none)
include hprevious

/-- A pattern that must consume something, and nothing of `units`, does not
match before one of these. -/
theorem Derives.first_not_mem (hnull : p.nullable true = false) (hfirst : p.firstAvoids units = true) {u : UInt16}
    (hu : (text ++ rest).head? = some u) : u ∉ units := by
  have hne := h.ne_nil (fun _ => hprevious) hnull
  obtain ⟨v, text, rfl⟩ := exists_cons_of_ne_nil hne
  cases hu
  exact h.firstAvoids hprevious hfirst _ rfl

/-- What a pattern that consumes something does at the beginning of a run of
`units`. -/
theorem Derives.not_begin {run : List UInt16} (hunits : ∀ u ∈ run, u ∈ units) (hne : run ≠ [])
    (hrun : run <+: text ++ rest) : (!p.nullable true && p.firstAvoids units) = false := by
  obtain ⟨u, run, rfl⟩ := exists_cons_of_ne_nil hne
  obtain ⟨more, hmore⟩ := hrun
  have hfirst : (text ++ rest).head? = some u := by
    rw [← hmore]
    rfl
  by_contra htest
  rw [not_eq_false, and_eq_true, not_eq_true'] at htest
  exact h.first_not_mem hprevious htest.1 htest.2 hfirst (hunits u mem_cons_self)

theorem Derives.sticks {stop : UInt16} {run : JsString} (hunits : ∀ u ∈ run, u ∈ units)
    (hstop : run.getLast? = some stop) (hrun : run <+: text ++ rest) :
    p.sticks units stop = false := by
  have hne : run ≠ [] := by
    rintro rfl
    simp at hstop
  induction p generalizing previous text rest run with
  | seq a b iha ihb =>
    rw [Pattern.sticks, or_eq_false_iff]
    refine ⟨h.not_begin hprevious hunits hne hrun, ?_⟩
    cases h with
    | seq ha hb =>
      rename_i s t
      rw [and_eq_false_iff, or_iff_not_imp_left, not_eq_false]
      intro havoids
      have hnot : stop ∉ s := fun hmem => ha.avoids havoids stop hmem (mem_singleton_self _)
      have hlast : stop ∈ run := mem_of_getLast? hstop
      rw [append_assoc] at hrun
      obtain hshort | hshort := prefix_or_prefix_of_prefix hrun (prefix_append s (t ++ rest))
      · exact absurd (hshort.subset hlast) hnot
      · obtain ⟨run', rfl⟩ := hshort
        have hne' : run' ≠ [] := by
          rintro rfl
          rw [append_nil] at hlast
          exact hnot hlast
        rw [prefix_append_right_inj] at hrun
        rw [getLast?_append_of_ne_nil _ hne'] at hstop
        exact ihb hb (lastUnit_ne_none hprevious s)
          (fun u hu => hunits u (mem_append_right _ hu)) hstop hrun hne'
  | _ => exact h.not_begin hprevious hunits hne hrun

end

end

/-! ## Greedy ends -/

theorem runStar_greedy_isSome {α : Type} (step : Cursor → (Cursor → Option α) → Option α)
    (f : Cursor → α) (fuel : Nat) (c : Cursor) :
    ∃ x, runStar step true fuel c (fun c => some (f c)) = some x := by
  cases fuel with
  | zero => exact ⟨f c, rfl⟩
  | succ fuel =>
    unfold runStar
    cases step c fun c' => runStar step true fuel c' fun c => some (f c) with
    | some x => exact ⟨x, rfl⟩
    | none => exact ⟨f c, rfl⟩

theorem run_unit_cons {α : Type} {c : Cursor} {u : UInt16} (hrest : c.rest = u :: rest)
    (k : Cursor → Option α) : run (.unit q) c k = if q u then k (c.advance 1) else none := by
  unfold run
  rw [hrest]

theorem runStar_unit_end {α : Type} {f : Cursor → α} {x : α} (fuel : Nat) {c : Cursor}
    (hfuel : c.rest.length ≤ fuel)
    (h : runStar (run (.unit q)) true fuel c (fun c => some (f c)) = some x) :
    ∃ c', c'.rest <:+ c.rest ∧ x = f c' ∧ (c'.rest.head?.map q).getD false = false := by
  induction fuel generalizing c with
  | zero =>
    have hnil := length_eq_zero_iff.mp (Nat.le_zero.mp hfuel)
    exact ⟨c, suffix_rfl, (Option.some.inj h).symm, by rw [hnil]; rfl⟩
  | succ fuel ih =>
    unfold runStar at h
    cases hrest : c.rest with
    | nil =>
      have hfail : run (.unit q) c (fun c' => runStar (run (.unit q)) true fuel c'
          fun c => some (f c)) = none := by
        unfold run
        rw [hrest]
      rw [hfail] at h
      exact ⟨c, by rw [hrest], (Option.some.inj h).symm, by rw [hrest]; rfl⟩
    | cons u rest =>
      rw [run_unit_cons hrest] at h
      by_cases hu : q u = true
      · rw [if_pos hu] at h
        have hlength : (c.advance 1).rest.length ≤ fuel := by
          simp only [Cursor.advance, length_drop]
          omega
        obtain ⟨y, hgo⟩ := runStar_greedy_isSome (run (.unit q)) f fuel (c.advance 1)
        rw [hgo] at h
        cases h
        obtain ⟨c', hsuffix, hx, hstop⟩ := ih hlength hgo
        rw [← hrest]
        exact ⟨c', hsuffix.trans (drop_suffix 1 c.rest), hx, hstop⟩
      · rw [if_neg hu] at h
        exact ⟨c, by rw [hrest], (Option.some.inj h).symm, by rw [hrest]; simpa using hu⟩

/-- A pattern that ends with a greedy star over a class stops where the class
does. -/
theorem run_tailUnit {α : Type} (p : Pattern) (hp : p.tailUnit = some q) {c : Cursor}
    {f : Cursor → α} {x : α} (h : run p c (fun c => some (f c)) = some x) :
    ∃ c', c'.rest <:+ c.rest ∧ x = f c' ∧ (c'.rest.head?.map q).getD false = false := by
  induction p generalizing c with
  | seq a b iha ihb =>
    obtain ⟨c₁, hsuffix, hb⟩ := run_cases a h
    obtain ⟨c₂, hsuffix', hx, hstop⟩ := ihb hp hb
    exact ⟨c₂, hsuffix'.trans hsuffix, hx, hstop⟩
  | star greedy a ih =>
    cases greedy with
    | false => simp [Pattern.tailUnit] at hp
    | true =>
      cases a with
      | unit q' =>
        cases hp
        exact runStar_unit_end _ (Nat.le_refl _) h
      | _ => simp [Pattern.tailUnit] at hp
  | _ => simp [Pattern.tailUnit] at hp

/-! ## Found matches -/

/-- What is found at a place: a text that the pattern can consume there, up to
where its greedy end stops. -/
theorem matchAt_cases {index : Nat} {m : Match} (h : matchAt p index previous rest = some m) :
    ∃ text after, rest = text ++ after ∧ m.index = index ∧ m.length = text.length ∧
      Derives p previous text after ∧
      ∀ q, p.tailUnit = some q → (after.head?.map q).getD false = false := by
  obtain ⟨text, c, hderives, hrest, -, hm⟩ := run_derives p h
  cases hm
  dsimp only at hrest hderives h
  refine ⟨text, c.rest, hrest, rfl, ?_, hderives, ?_⟩
  · rw [hrest, length_append]
    simp
  · intro q hq
    obtain ⟨c', ⟨before, hbefore⟩, hmatch, hstop⟩ := run_tailUnit p hq h
    dsimp only at hbefore
    have hlength := congrArg Match.length hmatch
    dsimp only at hlength
    have hle := congrArg List.length hbefore
    have hle' := congrArg List.length hrest
    have hsame : c.rest = c'.rest := by
      have hdrop : c.rest = rest.drop (rest.length - c.rest.length) := by
        rw [hrest, length_append, Nat.add_sub_cancel, drop_left]
      have hdrop' : c'.rest = rest.drop (rest.length - c'.rest.length) := by
        rw [← hbefore, length_append, Nat.add_sub_cancel, drop_left]
      rw [hdrop, hdrop', hlength]
    rw [hsame]
    exact hstop

end RedRouter.Regex
