import Mathlib.Data.List.Infix

/-!
# States along a run

A run is a state and the events that happen to it, one after the other. The
states of a run are those after its prefixes. `foldl_invariant` is the rule
for a property that every event keeps. `prefixes_iff` is the one for a
property that an event keeps exactly when it meets a condition: the property
holds in every state of a run exactly when every event of it meets the
condition in the state it comes to. `Along` says that every event of a run
meets a condition, and `along_invariant` is the rule for a property that such
events keep. `Lately` says it of the last events of a run only.
-/

namespace RedRouter.Runs

open List

variable {State Event : Type} {step : State → Event → State} (inv : State → Prop)

variable {s : State}

theorem foldl_invariant (hstep : ∀ s e, inv s → inv (step s e)) (hs : inv s) (events : List Event) :
    inv (events.foldl step s) := by
  induction events generalizing s with
  | nil => exact hs
  | cons e events ih => exact ih (hstep s e hs)

variable (step) (cond : State → Event → Prop)

/-- Every event of the run meets the condition in the state it comes to. -/
def Along : State → List Event → Prop
  | _, [] => True
  | s, e :: events => cond s e ∧ Along (step s e) events

instance decidableAlong [∀ s e, Decidable (cond s e)] :
    (s : State) → (events : List Event) → Decidable (Along step cond s events)
  | _, [] => isTrue trivial
  | s, e :: events =>
      have := decidableAlong (step s e) events
      inferInstanceAs (Decidable (cond s e ∧ Along step cond (step s e) events))

variable {step cond}

theorem along_append {first rest : List Event} : Along step cond s (first ++ rest) ↔
      Along step cond s first ∧ Along step cond (first.foldl step s) rest := by
  induction first generalizing s with
  | nil =>
    show _ ↔ True ∧ _
    rw [true_and]
    exact Iff.rfl
  | cons e first ih =>
    show cond s e ∧ Along step cond (step s e) (first ++ rest) ↔
      (cond s e ∧ Along step cond (step s e) first) ∧ _
    rw [ih, and_assoc]
    exact Iff.rfl

variable {events : List Event}

theorem along_concat {e : Event} : Along step cond s (events ++ [e]) ↔
      Along step cond s events ∧ cond (events.foldl step s) e := by
  rw [along_append]
  show _ ∧ (_ ∧ True) ↔ _
  rw [and_true]

/-- The last `n` events of the run meet the condition. -/
def Lately (step : State → Event → State) (cond : State → Event → Prop) (s : State)
    (events : List Event) (n : Nat) : Prop :=
  ∃ first last, events = first ++ last ∧ last.length = n ∧ Along step cond (first.foldl step s) last

theorem lately_zero (s : State) (events : List Event) : Lately step cond s events 0 :=
  ⟨events, [], (append_nil _).symm, rfl, trivial⟩

theorem Lately.concat {n : Nat} {e : Event} (h : Lately step cond s events n)
    (he : cond (events.foldl step s) e) : Lately step cond s (events ++ [e]) (n + 1) := by
  obtain ⟨first, last, rfl, rfl, halong⟩ := h
  refine ⟨first, last ++ [e], by rw [append_assoc], by simp, ?_⟩
  rw [along_concat]
  rw [foldl_append] at he
  exact ⟨halong, he⟩

theorem lately_one {e : Event} (he : cond (events.foldl step s) e) :
    Lately step cond s (events ++ [e]) 1 :=
  (lately_zero s events).concat he

theorem along_invariant (hstep : ∀ s e, inv s → cond s e → inv (step s e)) (hs : inv s)
    (halong : Along step cond s events) : inv (events.foldl step s) := by
  induction events generalizing s with
  | nil => exact hs
  | cons e events ih => exact ih (hstep s e hs halong.1) halong.2

theorem along_prefixes_iff (base : State → Prop) {guard : State → Event → Prop}
    (hbase : ∀ s e, base s → cond s e → base (step s e))
    (hstep : ∀ s e, base s → cond s e → inv s → (inv (step s e) ↔ guard s e)) (hs : base s)
    (hinv : inv s) (halong : Along step cond s events) :
    (∀ before, before <+: events → inv (before.foldl step s)) ↔
      ∀ before e, before ++ [e] <+: events → guard (before.foldl step s) e := by
  induction events generalizing s with
  | nil =>
    refine iff_of_true ?_ ?_
    · intro before hbefore
      rw [prefix_nil.mp hbefore]
      exact hinv
    · intro before e hbefore
      have hnil := prefix_nil.mp hbefore
      simp at hnil
  | cons first events ih =>
    have hnext := hbase s first hs halong.1
    constructor
    · intro hall before e hbefore
      have hfirst : inv (step s first) := hall [first] (by simp)
      cases before with
      | nil =>
        obtain ⟨rfl, -⟩ := cons_prefix_cons.mp hbefore
        exact (hstep s e hs halong.1 hinv).mp hfirst
      | cons e' before =>
        obtain ⟨rfl, hrest⟩ := cons_prefix_cons.mp hbefore
        exact (ih hnext hfirst halong.2).mp
          (fun later hlater => hall (e' :: later) (cons_prefix_cons.mpr ⟨rfl, hlater⟩))
          before e hrest
    · intro hguard before hbefore
      cases before with
      | nil => exact hinv
      | cons e' before =>
        obtain ⟨rfl, hrest⟩ := cons_prefix_cons.mp hbefore
        have hfirst : inv (step s e') := (hstep s e' hs halong.1 hinv).mpr
          (hguard [] e' (cons_prefix_cons.mpr ⟨rfl, nil_prefix⟩))
        exact (ih hnext hfirst halong.2).mpr (fun later e hlater => hguard (e' :: later) e
            (cons_prefix_cons.mpr ⟨rfl, hlater⟩)) before hrest

theorem along_trivial (step : State → Event → State) (s : State) (events : List Event) :
    Along step (fun _ _ => True) s events := by
  induction events generalizing s with
  | nil => trivial
  | cons e events ih => exact ⟨trivial, ih (step s e)⟩

theorem prefixes_iff {guard : State → Event → Prop}
    (hstep : ∀ s e, inv s → (inv (step s e) ↔ guard s e)) (hs : inv s) (events : List Event) :
    (∀ before, before <+: events → inv (before.foldl step s)) ↔
      ∀ before e, before ++ [e] <+: events → guard (before.foldl step s) e :=
  along_prefixes_iff inv (fun _ => True) (fun _ _ _ _ => trivial)
    (fun s e _ _ => hstep s e) trivial hs (along_trivial step s events)

end RedRouter.Runs
