import Mathlib.Data.List.Basic
import Mathlib.Data.List.Pairwise

/-!
# Claims on several resources, in order of arrival

A claim needs several keys at once and waits in the queue of each of them.
The queue of a key is the list of the waiting claims that need it, in order of
arrival (`queueOf`), and a claim may be granted when it is the first in all
its queues (`Leads`).

`InTurn` is what such a discipline gives: no claim is granted while an earlier
one that shares a key with it waits.  It is kept by the four things that can
happen: a claim comes and waits, comes and is granted at once, is granted after
a wait, or is given up.
-/

namespace RedRouter.FifoClaims

open List

variable {R K : Type} [DecidableEq K] (keysOf : R → List K) (rank : R → Nat)

def queueOf (waiting : List R) (key : K) : List R := waiting.filter fun r => key ∈ keysOf r

/-- The claim is the first in the queues of all its keys. -/
def Leads (waiting : List R) (r : R) : Prop :=
  ∀ key ∈ keysOf r, (queueOf keysOf waiting key).head? = some r

/-- The claims need a common key. -/
def Shares (r r' : R) : Prop := ∃ key ∈ keysOf r, key ∈ keysOf r'

/-- The waiting claims are in order of arrival, and no granted one has passed
an earlier one that shares a key with it, whether that one still waits
(`passed`) or was granted later (`order`). -/
structure InTurn (waiting granted : List R) : Prop where
  ascending : waiting.Pairwise fun r r' => rank r < rank r'
  passed : ∀ g ∈ granted, ∀ r ∈ waiting, rank r < rank g → ¬ Shares keysOf r g
  order : granted.Pairwise fun g g' => Shares keysOf g g' → rank g ≤ rank g'

variable {keysOf rank} {waiting granted : List R} {r : R}

theorem mem_queueOf {key : K} : r ∈ queueOf keysOf waiting key ↔ r ∈ waiting ∧ key ∈ keysOf r := by
  simp [queueOf]

theorem queueOf_concat (waiting : List R) (r : R) (key : K) : queueOf keysOf (waiting ++ [r]) key =
      queueOf keysOf waiting key ++ if key ∈ keysOf r then [r] else [] := by
  unfold queueOf
  by_cases hkey : key ∈ keysOf r
  all_goals simp [hkey]

theorem queueOf_erase [DecidableEq R] (hnodup : waiting.Nodup) (r : R) (key : K) :
    queueOf keysOf (waiting.erase r) key = (queueOf keysOf waiting key).erase r := by
  have hqueue : (queueOf keysOf waiting key).Nodup := hnodup.filter _
  rw [hnodup.erase_eq_filter, hqueue.erase_eq_filter]
  unfold queueOf
  rw [filter_filter, filter_filter]
  exact filter_congr fun x _ => Bool.and_comm ..

theorem queueOf_erase_of_not_mem [DecidableEq R] (hnodup : waiting.Nodup) {key : K}
    (hkey : key ∉ keysOf r) : queueOf keysOf (waiting.erase r) key = queueOf keysOf waiting key := by
  rw [queueOf_erase hnodup]
  exact erase_of_not_mem fun hmem => hkey (mem_queueOf.mp hmem).2

omit [DecidableEq K] in
theorem InTurn.nodup (h : InTurn keysOf rank waiting granted) : waiting.Nodup :=
  h.ascending.imp fun hlt heq => by
    rw [heq] at hlt
    exact Nat.lt_irrefl _ hlt

theorem Leads.not_shares (hasc : waiting.Pairwise fun r r' => rank r < rank r')
    (h : Leads keysOf waiting r) {q : R} (hq : q ∈ waiting) (hlt : rank q < rank r) :
    ¬ Shares keysOf q r := by
  rintro ⟨key, hkq, hkr⟩
  have hmem : q ∈ queueOf keysOf waiting key := mem_queueOf.mpr ⟨hq, hkq⟩
  have hqueue : (queueOf keysOf waiting key).Pairwise fun r r' => rank r < rank r' := hasc.filter _
  have hhead := h key hkr
  cases heq : queueOf keysOf waiting key with
  | nil =>
    rw [heq] at hmem
    exact not_mem_nil hmem
  | cons first rest =>
    rw [heq] at hmem hqueue hhead
    have hfirst : first = r := Option.some.inj hhead
    subst hfirst
    rcases mem_cons.mp hmem with rfl | hrest
    · exact Nat.lt_irrefl _ hlt
    · have hlt' := rel_of_pairwise_cons hqueue hrest
      omega

/-- A claim that is not the first in the queue of a key waits for an earlier
one. -/
theorem exists_earlier (hasc : waiting.Pairwise fun r r' => rank r < rank r') (hr : r ∈ waiting)
    {key : K} (hkey : key ∈ keysOf r) (hhead : (queueOf keysOf waiting key).head? ≠ some r) :
    ∃ q ∈ waiting, rank q < rank r ∧ key ∈ keysOf q := by
  have hmem : r ∈ queueOf keysOf waiting key := mem_queueOf.mpr ⟨hr, hkey⟩
  have hqueue : (queueOf keysOf waiting key).Pairwise fun r r' => rank r < rank r' := hasc.filter _
  cases heq : queueOf keysOf waiting key with
  | nil =>
    rw [heq] at hmem
    exact absurd hmem not_mem_nil
  | cons first rest =>
    have hfirst := mem_queueOf.mp (heq ▸ mem_cons_self : first ∈ queueOf keysOf waiting key)
    rw [heq] at hmem hqueue hhead
    rcases mem_cons.mp hmem with rfl | hrest
    · exact absurd rfl hhead
    · exact ⟨first, hfirst.1, rel_of_pairwise_cons hqueue hrest, hfirst.2⟩

namespace InTurn

omit [DecidableEq K] in
/-- A claim comes and waits. -/
theorem enqueue (h : InTurn keysOf rank waiting granted) (hwaiting : ∀ q ∈ waiting, rank q < rank r)
    (hgranted : ∀ g ∈ granted, rank g < rank r) :
    InTurn keysOf rank (waiting ++ [r]) granted where
  ascending := by
    rw [pairwise_append]
    refine ⟨h.ascending, pairwise_singleton _ r, ?_⟩
    intro q hq r' hr'
    rw [mem_singleton.mp hr']
    exact hwaiting q hq
  passed := by
    intro g hg q hq hlt
    rcases mem_append.mp hq with hq | hq
    · exact h.passed g hg q hq hlt
    · rw [mem_singleton.mp hq] at hlt
      have hlater := hgranted g hg
      omega
  order := h.order

omit [DecidableEq K] in
theorem giveUp [DecidableEq R] (h : InTurn keysOf rank waiting granted) (r : R) :
    InTurn keysOf rank (waiting.erase r) granted where
  ascending := h.ascending.sublist erase_sublist
  passed := fun g hg q hq => h.passed g hg q (mem_of_mem_erase hq)
  order := h.order

omit [DecidableEq K] in
theorem order_concat (h : InTurn keysOf rank waiting granted)
    (hlater : ∀ g ∈ granted, Shares keysOf g r → rank g ≤ rank r) :
    (granted ++ [r]).Pairwise fun g g' => Shares keysOf g g' → rank g ≤ rank g' := by
  rw [pairwise_append]
  refine ⟨h.order, pairwise_singleton _ r, ?_⟩
  intro g hg g' hg'
  rw [mem_singleton.mp hg']
  exact hlater g hg

theorem grant [DecidableEq R] (h : InTurn keysOf rank waiting granted) (hr : r ∈ waiting)
    (hleads : Leads keysOf waiting r) : InTurn keysOf rank (waiting.erase r) (granted ++ [r]) where
  ascending := h.ascending.sublist erase_sublist
  passed := by
    intro g hg q hq hlt
    rcases mem_append.mp hg with hg | hg
    · exact h.passed g hg q (mem_of_mem_erase hq) hlt
    · rw [mem_singleton.mp hg] at hlt ⊢
      exact hleads.not_shares h.ascending (mem_of_mem_erase hq) hlt
  order := by
    refine h.order_concat ?_
    rintro g hg ⟨key, hkg, hkr⟩
    by_contra hlt
    exact h.passed g hg r hr (by omega) ⟨key, hkr, hkg⟩

/-- A claim comes, finds the queues of its keys empty, and is granted. -/
theorem admission (h : InTurn keysOf rank waiting granted)
    (hempty : ∀ key ∈ keysOf r, queueOf keysOf waiting key = [])
    (hgranted : ∀ g ∈ granted, rank g ≤ rank r) : InTurn keysOf rank waiting (granted ++ [r]) where
  ascending := h.ascending
  passed := by
    intro g hg q hq hlt
    rcases mem_append.mp hg with hg | hg
    · exact h.passed g hg q hq hlt
    · rw [mem_singleton.mp hg]
      rintro ⟨key, hkq, hkr⟩
      have hmem : q ∈ queueOf keysOf waiting key := mem_queueOf.mpr ⟨hq, hkq⟩
      rw [hempty key hkr] at hmem
      exact not_mem_nil hmem
  order := h.order_concat fun g hg _ => hgranted g hg

end InTurn

end RedRouter.FifoClaims
