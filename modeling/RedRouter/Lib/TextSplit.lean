import Mathlib.Data.List.Chain
import RedRouter.Lib.JsValue

/-!
# Texts cut at a separator

`split` is `s.split(sep)` for a separator that is not empty.  A text without the
separator is one part (`split_eq_singleton`), and the first part ends at the
first place where the separator stands (`split_append`).

A doubled unit is a separator in a text whose parts are joined with the unit
itself: such a text is `Sparse`, and is not cut.
-/

namespace RedRouter.TextSplit

open List

def consFirst (c : UInt16) : List JsString → List JsString
  | first :: rest => (c :: first) :: rest
  | [] => [[c]]

/-- The parts of a text of which the first `skip` units belong to a separator. -/
def splitFrom (sep : JsString) : Nat → JsString → List JsString
  | _, [] => [[]]
  | skip + 1, _ :: rest => splitFrom sep skip rest
  | 0, c :: rest =>
      if sep.isPrefixOf (c :: rest) then [] :: splitFrom sep (sep.length - 1) rest
      else consFirst c (splitFrom sep 0 rest)

/-- `s.split(sep)`. -/
def split (sep s : JsString) : List JsString := splitFrom sep 0 s

variable {sep s : JsString}

theorem splitFrom_eq (skip : Nat) : splitFrom sep skip s = split sep (s.drop skip) := by
  induction s generalizing skip with
  | nil => cases skip <;> simp [split, splitFrom]
  | cons c rest ih =>
    cases skip with
    | zero => rfl
    | succ skip => exact ih skip

variable {c : UInt16}

theorem split_cons_of_not_lead (h : ¬ sep <+: c :: s) :
    split sep (c :: s) = consFirst c (split sep s) := by
  rw [split, splitFrom, if_neg fun hlead => h ( isPrefixOf_iff_prefix.mp hlead)]
  rfl

theorem split_sep_append (hsep : sep ≠ []) : split sep (sep ++ s) = [] :: split sep s := by
  obtain ⟨c, rest, rfl⟩ := exists_cons_of_ne_nil hsep
  rw [cons_append, split, splitFrom, if_pos, splitFrom_eq]
  · simp
  · exact isPrefixOf_iff_prefix.mpr (prefix_append _ _)

theorem split_eq_singleton (h : ¬ sep <:+: s) : split sep s = [s] := by
  induction s with
  | nil => rfl
  | cons c rest ih =>
    rw [infix_cons_iff, not_or] at h
    rw [split_cons_of_not_lead h.1, ih h.2]
    rfl

theorem split_append (hsep : sep ≠ []) {first : JsString}
    (h : ∀ before rest, first = before ++ rest → rest ≠ [] → ¬ sep <+: rest ++ (sep ++ s)) :
    split sep (first ++ (sep ++ s)) = first :: split sep s := by
  induction first with
  | nil => exact split_sep_append hsep
  | cons c first ih =>
    have hrest : split sep (first ++ (sep ++ s)) = first :: split sep s :=
      ih fun before rest heq => h (c :: before) rest (by rw [heq]; rfl)
    have hnot : ¬ sep <+: c :: (first ++ (sep ++ s)) :=
      h [] (c :: first) rfl (cons_ne_nil c first)
    rw [cons_append, split_cons_of_not_lead hnot, hrest]
    rfl

/-! ## Doubled units -/

/-- The unit does not stand twice in a row, nor at the end. -/
structure Sparse (c : UInt16) (text : JsString) : Prop where
  chain : text.IsChain fun a b => a ≠ c ∨ b ≠ c
  last : text.getLast? ≠ some c

theorem sparse_of_not_mem (h : c ∉ s) : Sparse c s where
  chain := List.Pairwise.isChain (pairwise_of_forall_mem_list fun _ ha _ _ =>
    .inl fun hac => h (hac ▸ ha))
  last := fun hlast => h (mem_of_getLast? hlast)

theorem sparse_join {parts : List JsString} (hparts : ∀ t ∈ parts, t ≠ [] ∧ c ∉ t) :
    Sparse c (JsString.join [c] parts) ∧ (JsString.join [c] parts).head? ≠ some c := by
  induction parts with
  | nil => exact ⟨sparse_of_not_mem not_mem_nil, by simp [JsString.join]⟩
  | cons x parts ih =>
    obtain ⟨hx, hc⟩ := hparts x mem_cons_self
    have hhead : ∀ rest : JsString, (x ++ rest).head? ≠ some c := by
      intro rest hsome
      obtain ⟨u, x', rfl⟩ := exists_cons_of_ne_nil hx
      cases hsome
      exact hc mem_cons_self
    cases parts with
    | nil =>
      rw [JsString.join_cons, flatMap_nil]
      refine ⟨?_, hhead []⟩
      rw [append_nil]
      exact sparse_of_not_mem hc
    | cons y parts =>
      obtain ⟨hsparse, hrest⟩ := ih fun t ht => hparts t (mem_cons_of_mem x ht)
      have hjoin : JsString.join [c] (x :: y :: parts) =
          x ++ (c :: JsString.join [c] (y :: parts)) := by
        rfl
      have hne : JsString.join [c] (y :: parts) ≠ [] := by
        rw [JsString.join_cons]
        simp [(hparts y (by simp)).1]
      rw [hjoin]
      refine ⟨⟨?_, ?_⟩, hhead _⟩
      · rw [isChain_append, isChain_cons]
        refine ⟨(sparse_of_not_mem hc).chain, ⟨fun u hu => .inr fun huc => ?_, hsparse.chain⟩,
          fun u hu _ _ => .inl fun huc => hc (huc ▸ mem_of_getLast? hu)⟩
        rw [huc] at hu
        exact hrest hu
      · rw [append_cons, getLast?_append_of_ne_nil _ hne]
        exact hsparse.last

theorem Sparse.not_infix (h : Sparse c s) : ¬ [c, c] <:+: s := by
  rintro ⟨before, after, rfl⟩
  have hchain := h.chain
  rw [append_assoc] at hchain
  have htwice : ([c, c] ++ after).IsChain fun a b => a ≠ c ∨ b ≠ c :=
    (isChain_append.mp hchain).2.1
  exact ((isChain_cons_cons.mp htwice).1).elim (fun h => h rfl) fun h => h rfl

theorem Sparse.split (h : Sparse c s) : split [c, c] s = [s] :=
  split_eq_singleton h.not_infix

theorem Sparse.split_append {first : JsString} (h : Sparse c first) :
    TextSplit.split [c, c] (first ++ ([c, c] ++ s)) = first :: TextSplit.split [c, c] s := by
  refine TextSplit.split_append (cons_ne_nil c [c]) fun before rest hfirst hne hlead => ?_
  subst hfirst
  have hlast := h.last
  rw [getLast?_append_of_ne_nil _ hne] at hlast
  rcases rest with _ | ⟨u, _ | ⟨v, rest⟩⟩
  · exact hne rfl
  · obtain ⟨rfl, -⟩ := cons_prefix_cons.mp hlead
    exact hlast rfl
  · obtain ⟨rfl, htail⟩ := cons_prefix_cons.mp hlead
    obtain ⟨rfl, -⟩ := cons_prefix_cons.mp htail
    exact h.not_infix ⟨before, rest, by simp⟩

end RedRouter.TextSplit
