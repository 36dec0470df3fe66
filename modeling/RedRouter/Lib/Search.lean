import RedRouter.Lib.JsString

/-!
# Where a search finds its needle

`indexOf` finds the first place at which the text goes on with the needle.
`indexOf_eq_some_iff` says so, and the other rules are derived from it: a found
place stays when the text grows (`indexOf_append`), and a part of the text in
which the needle does not begin can be skipped (`indexOf_skip`).

The last rule is the one for a search in a text that comes in pieces.  When the
needle is not in what has come, only the last units can belong to it, one less
than the needle has (`indexOf_hold`).
-/

namespace RedRouter.JsString

open List

variable {needle s : JsString}

theorem indexOf_eq_some_iff {i : Nat} : indexOf needle s = some i ↔
      i ≤ s.length ∧ needle <+: s.drop i ∧ ∀ j < i, ¬ needle <+: s.drop j := by
  induction s generalizing i with
  | nil =>
    rw [indexOf]
    cases needle with
    | nil =>
      simp only [isEmpty_nil, if_true, Option.some.injEq, length_nil]
      constructor
      · rintro rfl
        simp
      · rintro ⟨hle, -⟩
        omega
    | cons c cs => simp
  | cons c cs ih =>
    rw [indexOf]
    by_cases hhere : needle <+: c :: cs
    · rw [if_pos ( isPrefixOf_iff_prefix.mpr hhere), Option.some.injEq]
      constructor
      · rintro rfl
        exact ⟨Nat.zero_le _, hhere, fun j hj => absurd hj (Nat.not_lt_zero j)⟩
      · rintro ⟨-, -, hfirst⟩
        cases i with
        | zero => rfl
        | succ i => exact absurd hhere (hfirst 0 (Nat.zero_lt_succ i))
    · rw [if_neg (fun h => hhere ( isPrefixOf_iff_prefix.mp h))]
      cases i with
      | zero =>
        constructor
        · intro h
          cases hrest : indexOf needle cs with
          | none => simp at h
          | some k => simp [hrest] at h
        · rintro ⟨-, hzero, -⟩
          exact absurd hzero hhere
      | succ i =>
        have hshift : (indexOf needle cs).map (· + 1) = some (i + 1) ↔
            indexOf needle cs = some i := by
          cases indexOf needle cs <;> simp
        rw [hshift, ih]
        simp only [length_cons]
        constructor
        · rintro ⟨hle, hfound, hfirst⟩
          refine ⟨by omega, hfound, fun j hj => ?_⟩
          cases j with
          | zero => exact hhere
          | succ j => exact hfirst j (by omega)
        · rintro ⟨hle, hfound, hfirst⟩
          exact ⟨by omega, hfound, fun j hj => hfirst (j + 1) (by omega)⟩

theorem indexOf_eq_none_iff : indexOf needle s = none ↔ ¬ needle <:+: s := by
  rw [← indexOf_isSome_iff]
  cases indexOf needle s <;> simp

theorem not_prefix_drop_of_none (h : indexOf needle s = none) (j : Nat) : ¬ needle <+: s.drop j :=
  fun hhere => indexOf_eq_none_iff.mp h (hhere.isInfix.trans (drop_suffix j s).isInfix)

theorem split_of_indexOf {i : Nat} (h : indexOf needle s = some i) :
    s = s.take i ++ (needle ++ s.drop (i + needle.length)) ∧ i + needle.length ≤ s.length := by
  obtain ⟨hle, ⟨rest, hrest⟩, -⟩ := indexOf_eq_some_iff.mp h
  have hdrop : s.drop (i + needle.length) = rest := by
    rw [← drop_drop, ← hrest, drop_left]
  have hlen := congrArg List.length hrest
  simp only [length_append, length_drop] at hlen
  refine ⟨?_, by omega⟩
  rw [hdrop, hrest, take_append_drop]

theorem not_infix_take_of_indexOf {i : Nat} (h : indexOf needle s = some i) (hne : needle ≠ []) :
    ¬ needle <:+: s.take i := by
  rintro ⟨before, after, heq⟩
  obtain ⟨hle, -, hfirst⟩ := indexOf_eq_some_iff.mp h
  have hpos : 0 < needle.length := length_pos_iff.mpr hne
  have hlen := congrArg List.length heq
  simp only [length_append, length_take] at hlen
  refine hfirst before.length (by omega) ?_
  have hs : s = before ++ (needle ++ (after ++ s.drop i)) := by
    conv_lhs => rw [← take_append_drop i s, ← heq]
    simp only [append_assoc]
  rw [hs, drop_left]
  exact prefix_append _ _

theorem indexOf_append {i : Nat} (h : indexOf needle s = some i) (t : JsString) :
    indexOf needle (s ++ t) = some i := by
  obtain ⟨hle, hfound, hfirst⟩ := indexOf_eq_some_iff.mp h
  obtain ⟨-, hend⟩ := split_of_indexOf h
  rw [indexOf_eq_some_iff, length_append]
  refine ⟨by omega, ?_, ?_⟩
  · rw [drop_append_of_le_length hle]
    exact hfound.trans (prefix_append _ _)
  · intro j hj hprefix
    rw [drop_append_of_le_length (by omega)] at hprefix
    refine hfirst j hj (prefix_of_prefix_length_le hprefix (prefix_append _ _) ?_)
    rw [length_drop]
    omega

theorem indexOf_skip {k : Nat} (hk : k ≤ s.length) (hskip : ∀ j < k, ¬ needle <+: s.drop j) :
    indexOf needle s = (indexOf needle (s.drop k)).map (· + k) := by
  induction k generalizing s with
  | zero => simp
  | succ k ih =>
    cases s with
    | nil => simp at hk
    | cons c cs =>
      have hhere : ¬ needle <+: c :: cs := hskip 0 (Nat.zero_lt_succ k)
      rw [indexOf, if_neg (fun h => hhere ( isPrefixOf_iff_prefix.mp h)),
        ih (by simpa using hk) (fun j hj => hskip (j + 1) (by omega)), drop_succ_cons,
        Option.map_map]
      rfl

/-- What has come of a text does not contain the needle.  The needle can then
only begin in its last units, one less than the needle has. -/
theorem indexOf_hold {k : Nat} (h : indexOf needle s = none) (hk : k + needle.length ≤ s.length + 1)
    (hne : needle ≠ []) (t : JsString) :
    indexOf needle (s ++ t) = (indexOf needle (s.drop k ++ t)).map (· + k) := by
  have hpos : 0 < needle.length := length_pos_iff.mpr hne
  rw [indexOf_skip (k := k) (by rw [length_append]; omega) ?_, drop_append_of_le_length (by omega)]
  intro j hj hprefix
  rw [drop_append_of_le_length (by omega)] at hprefix
  refine not_prefix_drop_of_none h j (prefix_of_prefix_length_le hprefix (prefix_append _ _) ?_)
  rw [length_drop]
  omega

/-- A needle whose first unit does not come again is found right after a text
that does not contain it. -/
theorem indexOf_after {first : UInt16} {rest : JsString} (hfirst : first ∉ rest)
    (h : ¬ first :: rest <:+: s) (t : JsString) :
    indexOf (first :: rest) (s ++ (first :: rest ++ t)) = some s.length := by
  rw [indexOf_eq_some_iff]
  refine ⟨by simp, by rw [drop_left]; exact prefix_append _ _, ?_⟩
  intro j hj hprefix
  rw [drop_append_of_le_length (by omega)] at hprefix
  by_cases hfits : (first :: rest).length ≤ (s.drop j).length
  · have hinside := prefix_of_prefix_length_le hprefix (prefix_append _ _) hfits
    exact h (hinside.isInfix.trans (drop_suffix j s).isInfix)
  · -- the needle would go over the end of `s`, and its first unit come again there
    have hover := prefix_of_prefix_length_le (prefix_append (s.drop j) _) hprefix (by omega)
    obtain ⟨q, hq⟩ := hover
    have hagain : s.drop j ++ q <+: s.drop j ++ (first :: rest ++ t) := by
      rw [hq]
      exact hprefix
    rw [prefix_append_right_inj] at hagain
    cases hhead : s.drop j with
    | nil =>
      have := congrArg List.length hhead
      simp only [length_drop, length_nil] at this
      omega
    | cons c cs =>
      cases q with
      | nil =>
        rw [append_nil] at hq
        rw [hq] at hfits
        omega
      | cons d q =>
        obtain ⟨hd, -⟩ := cons_prefix_cons.mp hagain
        rw [hhead, cons_append] at hq
        obtain ⟨-, hrest⟩ := List.cons.inj hq
        rw [hd] at hrest
        exact hfirst (by rw [← hrest]; simp)

/-! ## Trimming -/

theorem trimStart_of_head {c : UInt16} {cs : JsString} (h : isSpace c = false) :
    trimStart (c :: cs) = c :: cs := by
  simp [trimStart, h]

theorem dropWhile_dropWhile (p : UInt16 → Bool) (s : JsString) :
    (s.dropWhile p).dropWhile p = s.dropWhile p := by
  induction s with
  | nil => rfl
  | cons c cs ih =>
    rw [dropWhile_cons]
    split
    · exact ih
    · rename_i hc
      rw [dropWhile_cons_of_neg hc]

theorem trim_trim (s : JsString) : trim (trim s) = trim s := by
  have hstart : trimStart (trim s) = trim s := by
    have hprefix : trim s <+: trimStart s := by
      rw [trim, ← reverse_suffix, reverse_reverse]
      exact dropWhile_suffix _
    cases hs : trim s with
    | nil => rfl
    | cons c cs =>
      rw [hs] at hprefix
      obtain ⟨rest, hrest⟩ := hprefix
      have hidem := dropWhile_dropWhile isSpace s
      rw [show s.dropWhile isSpace = c :: (cs ++ rest) from hrest.symm] at hidem
      refine trimStart_of_head ?_
      by_contra hspace
      rw [Bool.not_eq_false] at hspace
      rw [dropWhile_cons_of_pos hspace] at hidem
      have hlen := congrArg List.length hidem
      have hle := (dropWhile_suffix isSpace (l := cs ++ rest)).length_le
      simp only [length_cons] at hlen
      omega
  conv_lhs => rw [trim, hstart, trim, reverse_reverse, dropWhile_dropWhile]
  rfl

end RedRouter.JsString
