import Mathlib.Algebra.GroupWithZero.Nat
import Mathlib.Data.List.Find
import Mathlib.Data.List.Induction
import Mathlib.Data.List.Nodup

/-!
# Fixed-window counters

A rule allows at most `limit` units in each window of `window` seconds, and the
windows of a length follow each other from time 0 on.  A call comes with the
rules of its key.  It is allowed when none of its rules is used up, and then
consumes one unit for each rule of the window that the rule's length and the
time of the call name.

`accepted` is what the calls of a run come to. A limiter that keeps its
counters somewhere else shows them (`Shows`): the counters of the windows that
are not over are the units consumed. `run_refines` is the rule for such a
limiter: when every call is answered as the accepted calls say and the
counters are still shown afterwards, a run in the order of the clock accepts
the same calls.
-/

namespace RedRouter.FixedWindow

open List

structure Rule where
  limit : Nat
  /-- The length of the windows, in seconds. -/
  window : Nat
  window_pos : 0 < window

structure Call (Key : Type) where
  nowMs : Nat
  key : Key
  rules : List Rule

variable {Key : Type}

namespace Call

def seconds (call : Call Key) : Nat := call.nowMs / 1000

def units (window : Nat) (call : Call Key) : Nat :=
  call.rules.countP fun rule => rule.window == window

def consumes [DecidableEq Key] (key : Key) (window number : Nat) (call : Call Key) : Nat :=
  if call.key = key ∧ call.seconds / window = number then call.units window else 0

end Call

variable [DecidableEq Key]

def consumed (accepted : List (Call Key)) (key : Key) (window number : Nat) : Nat :=
  (accepted.map (Call.consumes key window number)).sum

theorem consumed_append (accepted : List (Call Key)) (call : Call Key) (key : Key)
    (window number : Nat) :
    consumed (accepted ++ [call]) key window number =
      consumed accepted key window number + call.consumes key window number := by
  simp [consumed]

/-- When no call lists a window twice, the units are the accepted calls of the
key that list the window. -/
theorem consumed_eq_countP {accepted : List (Call Key)}
    (hdistinct : ∀ call ∈ accepted, (call.rules.map Rule.window).Nodup) (key : Key)
    (window number : Nat) :
    consumed accepted key window number = accepted.countP fun call =>
      call.key = key ∧ call.seconds / window = number ∧ window ∈ call.rules.map Rule.window := by
  induction accepted using List.reverseRecOn with
  | nil => rfl
  | append_singleton accepted call ih =>
    have hrest := ih fun c hc => hdistinct c (mem_append_left _ hc)
    have hcall := hdistinct call (mem_append_right _ (mem_singleton_self call))
    have hunits : call.units window = if window ∈ call.rules.map Rule.window then 1 else 0 := by
      have hcount : call.units window = (call.rules.map Rule.window).count window := by
        rw [Call.units, List.count, countP_map]
        rfl
      rw [hcount, List.Nodup.count hcall]
    rw [consumed_append, hrest, countP_append, countP_singleton, Call.consumes, hunits]
    congr 1
    by_cases hkey : call.key = key ∧ call.seconds / window = number
    · simp [hkey]
    · rw [if_neg hkey]
      have hnot : ¬ (call.key = key ∧ call.seconds / window = number ∧
          window ∈ call.rules.map Rule.window) := fun h => hkey ⟨h.1, h.2.1⟩
      simp only [hnot, decide_false, Bool.false_eq_true, if_false]

def usedUp (accepted : List (Call Key)) (call : Call Key) : Option Rule :=
  call.rules.find? fun rule =>
    rule.limit ≤ consumed accepted call.key rule.window (call.seconds / rule.window)

theorem usedUp_isSome_iff (accepted : List (Call Key)) (call : Call Key) :
    (usedUp accepted call).isSome = true ↔ ∃ rule ∈ call.rules,
      rule.limit ≤ consumed accepted call.key rule.window (call.seconds / rule.window) := by
  simp [usedUp]

def accept (accepted : List (Call Key)) (call : Call Key) : List (Call Key) :=
  if (usedUp accepted call).isSome then accepted else accepted ++ [call]

variable (calls : List (Call Key))

def accepted : List (Call Key) := calls.foldl accept []

theorem accepted_append (call : Call Key) :
    accepted (calls ++ [call]) = accept (accepted calls) call := by
  simp [accepted]

theorem accepted_sublist : (accepted calls).Sublist calls := by
  induction calls using List.reverseRecOn with
  | nil => exact List.Sublist.refl []
  | append_singleton calls call ih =>
    rw [accepted_append, accept]
    split
    · exact ih.trans (sublist_append_left calls [call])
    · exact ih.append (List.Sublist.refl [call])

/-- A rule that every call of a key lists once bounds what the key consumes. -/
theorem consumed_accepted_le {calls : List (Call Key)} {key : Key} {rule : Rule}
    (hrule : ∀ call ∈ calls, call.key = key → rule ∈ call.rules ∧ call.units rule.window = 1)
    (number : Nat) : consumed (accepted calls) key rule.window number ≤ rule.limit := by
  induction calls using List.reverseRecOn with
  | nil => exact Nat.zero_le _
  | append_singleton calls call ih =>
    have hbefore := ih fun c hc => hrule c (mem_append_left _ hc)
    rw [accepted_append, accept]
    split
    · exact hbefore
    · rename_i hfree
      rw [consumed_append, Call.consumes]
      split
      · rename_i hmine
        obtain ⟨rfl, rfl⟩ := hmine
        obtain ⟨hmem, hunits⟩ := hrule call (mem_append_right _ mem_cons_self) rfl
        rw [usedUp_isSome_iff] at hfree
        by_contra hover
        exact hfree ⟨rule, hmem, by omega⟩
      · exact hbefore

/-! ## Limiters that show their counters -/

/-- The counters of the windows in range that are not over at a time. -/
def Shows (range : Nat → Nat → Prop) (count : Key → Nat → Nat → Nat)
    (accepted : List (Call Key)) (nowMs : Nat) : Prop :=
  ∀ key window number, range window number → 0 < window → nowMs / 1000 / window ≤ number →
    count key window number = consumed accepted key window number

variable {range : Nat → Nat → Prop} {count count' : Key → Nat → Nat → Nat}
  {accepted : List (Call Key)} {nowMs : Nat} {call : Call Key}

theorem Shows.later (h : Shows range count accepted nowMs) {laterMs : Nat}
    (hle : nowMs ≤ laterMs) : Shows range count accepted laterMs := by
  intro key window number hrange hwindow hnumber
  have hsooner : nowMs / 1000 / window ≤ laterMs / 1000 / window :=
    Nat.div_le_div_right (Nat.div_le_div_right hle)
  exact h key window number hrange hwindow (Nat.le_trans hsooner hnumber)

theorem Shows.accept (h : Shows range count accepted call.nowMs)
    (hcount : ∀ key window number, range window number → 0 < window →
      call.seconds / window ≤ number →
      count' key window number = count key window number + call.consumes key window number) :
    Shows range count' (accepted ++ [call]) call.nowMs := by
  intro key window number hrange hwindow hnumber
  rw [hcount key window number hrange hwindow hnumber, h key window number hrange hwindow hnumber,
    consumed_append]

theorem Shows.usedUp (h : Shows range count accepted call.nowMs)
    (hrange : ∀ rule ∈ call.rules, range rule.window (call.seconds / rule.window)) :
    (call.rules.find? fun rule =>
      rule.limit ≤ count call.key rule.window (call.seconds / rule.window)) =
      FixedWindow.usedUp accepted call := by
  apply find?_congr
  intro rule hrule
  rw [h call.key rule.window _ (hrange rule hrule) rule.window_pos (Nat.le_refl _)]

/-- Consuming a unit for each rule of a call consumes the units of the call. -/
theorem foldl_consumes (range : Nat → Nat → Prop) {S : Type} (counts : S → Key → Nat → Nat → Nat)
    (consume : S → Rule → S) (Inv : S → Prop)
    (hinv : ∀ s, ∀ rule ∈ call.rules, Inv s → Inv (consume s rule))
    (hcount : ∀ s, ∀ rule ∈ call.rules, Inv s → ∀ key window number, range window number →
      counts (consume s rule) key window number = counts s key window number +
        if call.key = key ∧ call.seconds / window = number ∧ rule.window = window then 1 else 0)
    {s : S} (hs : Inv s) :
    Inv (call.rules.foldl consume s) ∧ ∀ key window number, range window number →
      counts (call.rules.foldl consume s) key window number =
        counts s key window number + call.consumes key window number := by
  unfold Call.consumes Call.units
  generalize call.rules = rules at hinv hcount
  induction rules generalizing s with
  | nil => exact ⟨hs, by simp⟩
  | cons rule rules ih =>
    have hnext := hinv s rule mem_cons_self hs
    obtain ⟨hall, hadded⟩ := ih hnext (fun s r hr => hinv s r (mem_cons_of_mem _ hr))
      (fun s r hr => hcount s r (mem_cons_of_mem _ hr))
    refine ⟨hall, ?_⟩
    intro key window number hrange
    rw [foldl_cons, hadded key window number hrange,
      hcount s rule mem_cons_self hs key window number hrange, countP_cons]
    by_cases hmine : call.key = key ∧ call.seconds / window = number
    · by_cases hwindow : rule.window = window
      · simp [hmine]
        omega
      · simp [hwindow]
    · have hnot : ¬ (call.key = key ∧ call.seconds / window = number ∧ rule.window = window) :=
        fun h => hmine ⟨h.1, h.2.1⟩
      rw [if_neg hmine, if_neg hmine, if_neg hnot]

variable {S : Type} (step : S → Call Key → Bool × S)

/-- One call to a limiter, with the calls it allowed so far. -/
def serve (s : S × List (Call Key)) (call : Call Key) : S × List (Call Key) :=
  let answer := step s.1 call
  (answer.2, if answer.1 then s.2 ++ [call] else s.2)

def clock : Nat := (calls.getLast?.map Call.nowMs).getD 0

def InOrder : Prop := calls.Pairwise fun c d => c.nowMs ≤ d.nowMs

omit [DecidableEq Key] in
theorem clock_le {calls : List (Call Key)} (h : InOrder (calls ++ [call])) :
    clock calls ≤ call.nowMs := by
  unfold clock
  cases hlast : calls.getLast? with
  | none => exact Nat.zero_le _
  | some last =>
    exact (pairwise_append.mp h).2.2 last (mem_of_getLast? hlast) call (mem_singleton_self call)

variable {step} {Rep : S → List (Call Key) → Nat → Prop} {Good : Call Key → Prop}

theorem run_refines
    (hstep : ∀ s accepted nowMs call, Rep s accepted nowMs → nowMs ≤ call.nowMs → Good call →
      (step s call).1 = !(FixedWindow.usedUp accepted call).isSome ∧
        Rep (step s call).2 (FixedWindow.accept accepted call) call.nowMs)
    {s : S} (hs : Rep s [] 0) {calls : List (Call Key)} (horder : InOrder calls)
    (hgood : ∀ call ∈ calls, Good call) :
    (calls.foldl (serve step) (s, [])).2 = FixedWindow.accepted calls ∧
      Rep (calls.foldl (serve step) (s, [])).1 (FixedWindow.accepted calls) (clock calls) := by
  induction calls using List.reverseRecOn with
  | nil => exact ⟨rfl, hs⟩
  | append_singleton calls call ih =>
    obtain ⟨hsame, hrep⟩ := ih (pairwise_append.mp horder).1
      fun c hc => hgood c (mem_append_left _ hc)
    obtain ⟨hanswer, hnext⟩ := hstep _ _ _ call hrep (clock_le horder)
      (hgood call (mem_append_right _ (mem_singleton_self call)))
    have hclock : clock (calls ++ [call]) = call.nowMs := by
      simp [clock]
    rw [foldl_append, accepted_append, hclock]
    refine ⟨?_, hnext⟩
    show (if (step _ call).1 then _ ++ [call] else _) = _
    rw [hanswer, hsame, FixedWindow.accept]
    cases FixedWindow.usedUp (FixedWindow.accepted calls) call <;> rfl

end RedRouter.FixedWindow
