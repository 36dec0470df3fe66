import RedRouter.Lib.Cyclic
import RedRouter.Middleware.FairLanes

/-!
# Turns in the rotation

How many others are served while a key waits.  The cursor counts on without
bound and is reduced by the number of keys when it is used, and a new key goes
to the end of the list, wherever the cursor is.  So a key can join in front of
one that has waited longer, and a change of the number of keys can move the
cursor past a key.  `overtaken` repeats the first of these for ever with two keys.

Where no step of the wait moves the turn of the key away (`KeepsTurn`), each
dispatch brings it closer, and fewer others are served than there were keys.
-/

namespace RedRouter.Middleware

open List

namespace FairLanes

inductive LaneOp where
  | park (waiter : AdmissionWaiter)
  | leave (waiter : AdmissionWaiter)
  | dispatch

/-- The waiter that an operation wakes, and the lanes behind it. -/
def LaneOp.run (l : FairLanes) : LaneOp → Option AdmissionWaiter × FairLanes
  | park waiter => (none, l.push waiter)
  | leave waiter => (none, l.removeWaiter waiter)
  | dispatch => l.dispatchFair

def LaneOp.Fresh (l : FairLanes) : LaneOp → Prop
  | park waiter => ¬ l.Queued waiter
  | _ => True

inductive Reachable : FairLanes → Prop where
  | empty : Reachable {}
  | step {l} (op) : Reachable l → LaneOp.Fresh l op → Reachable (op.run l).2

/-- A key waits from one state to another: how many others were served, and how
many keys there were at most.  Each step is one that `allowed` lets happen. -/
inductive Waits (allowed : FairLanes → LaneOp → Prop) (key : JsString) (start : FairLanes) :
    Nat → Nat → FairLanes → Prop where
  | start : key ∈ start.fairKeys → Waits allowed key start 0 start.fairKeys.length start
  | step {served widest l} (op) : Waits allowed key start served widest l →
      LaneOp.Fresh l op → allowed l op →
      (∀ waiter, (op.run l).1 = some waiter → waiter.key ≠ key) →
      key ∈ (op.run l).2.fairKeys →
      Waits allowed key start (if (op.run l).1.isSome then served + 1 else served)
        (max widest (op.run l).2.fairKeys.length) (op.run l).2

/-! ## Lanes behind an operation -/

theorem Lawful.run {l : FairLanes} {op : LaneOp} (h : Lawful l) (hfresh : op.Fresh l) :
    Lawful (op.run l).2 := by
  cases op with
  | park waiter => exact h.push hfresh
  | leave waiter => exact h.removeWaiter waiter
  | dispatch =>
    by_cases hsome : ∃ w, l.Queued w
    · obtain ⟨woken, l', heq, -, hl, -⟩ := dispatchFair_some h hsome
      show Lawful l.dispatchFair.2
      rw [heq]
      exact hl
    · show Lawful l.dispatchFair.2
      rw [dispatchFair_none h (not_exists.mp hsome)]
      exact h

theorem Reachable.lawful {l : FairLanes} (h : Reachable l) : Lawful l := by
  induction h with
  | empty => exact lawful_empty
  | step _ _ hfresh ih => exact ih.run hfresh

theorem Waits.lawful {allowed : FairLanes → LaneOp → Prop} {key : JsString} {start l : FairLanes}
    {served widest : Nat} (h : Waits allowed key start served widest l) (hs : Lawful start) :
    Lawful l := by
  induction h with
  | start _ => exact hs
  | step _ _ hfresh _ _ _ ih => exact ih.run hfresh

/-! ## Turns -/

/-- How many keys come before the one at a place. -/
def turnsBefore (cursor place n : Nat) : Nat := Cyclic.ahead (cursor % n) place n

def place (key : JsString) (l : FairLanes) : Nat := l.fairKeys.idxOf key

/-- The turn of `key` does not move away: a new key joins where it does not add to
the keys that come first, and dropping a key does not send the cursor past `key`. -/
def KeepsTurn (key : JsString) (l : FairLanes) : LaneOp → Prop
  | .park waiter => waiter.key ∉ l.fairKeys →
      turnsBefore l.fairCursor (l.place key) (l.fairKeys.length + 1) ≤
        turnsBefore l.fairCursor (l.place key) l.fairKeys.length
  | .leave waiter => l.queues.get waiter.key = some [waiter] →
      turnsBefore (if l.place waiter.key < l.fairCursor then l.fairCursor - 1 else l.fairCursor)
          (Cyclic.placeAfter (l.place waiter.key) (l.place key)) (l.fairKeys.length - 1) ≤
        turnsBefore l.fairCursor (l.place key) l.fairKeys.length
  | .dispatch => ∀ other waiter, l.fairKeys[l.fairCursor % l.fairKeys.length]? = some other →
      l.queues.get other = some [waiter] →
      turnsBefore l.fairCursor (Cyclic.placeAfter (l.place other) (l.place key))
          (l.fairKeys.length - 1) <
        turnsBefore l.fairCursor (l.place key) l.fairKeys.length

/-- How many keys come before `key`. -/
def turns (key : JsString) (l : FairLanes) : Nat :=
  turnsBefore l.fairCursor (l.place key) l.fairKeys.length

variable {l : FairLanes} {key other : JsString} {waiter first : AdmissionWaiter}

theorem place_lt (hkey : key ∈ l.fairKeys) : l.place key < l.fairKeys.length :=
  idxOf_lt_length_of_mem hkey

theorem eraseIdx_place (key : JsString) (l : FairLanes) :
    l.fairKeys.eraseIdx (l.place key) = l.fairKeys.erase key :=
  (erase_eq_eraseIdx_of_idxOf rfl).symm

theorem turns_lt (hkey : key ∈ l.fairKeys) : turns key l < l.fairKeys.length :=
  Cyclic.ahead_lt (Nat.mod_lt _ (length_pos_of_mem hkey)) (place_lt hkey)

theorem place_erase (hd : l.fairKeys.Nodup) (hkey : key ∈ l.fairKeys) (hne : other ≠ key)
    (hother : other ∈ l.fairKeys) :
    (l.fairKeys.erase other).idxOf key = Cyclic.placeAfter (l.place other) (l.place key) := by
  have hget : l.fairKeys[l.place key]? = some key := by
    rw [getElem?_eq_getElem (place_lt hkey)]
    exact congrArg some (getElem_idxOf (place_lt hkey))
  have hplace : l.place other ≠ l.place key := fun h => hne (idxOf_inj hother |>.mp h)
  have hafter := Cyclic.getElem?_eraseIdx_placeAfter hget hplace
  rw [eraseIdx_place] at hafter
  obtain ⟨hlt', hget'⟩ := List.getElem?_eq_some_iff.mp hafter
  have hidx := (hd.erase other).idxOf_getElem _ hlt'
  rwa [hget'] at hidx

theorem turns_setQueue_nil (hd : l.fairKeys.Nodup) (hkey : key ∈ l.fairKeys) (hne : other ≠ key)
    (hother : other ∈ l.fairKeys) :
    turns key (l.setQueue other []) =
      turnsBefore (if l.place other < l.fairCursor then l.fairCursor - 1 else l.fairCursor)
        (Cyclic.placeAfter (l.place other) (l.place key)) (l.fairKeys.length - 1) := by
  have hkeys := setQueue_fairKeys other [] l
  rw [if_pos rfl] at hkeys
  have hmem : key ∈ l.fairKeys.erase other := (mem_erase_of_ne hne.symm).mpr hkey
  obtain ⟨index, hindex⟩ := Option.isSome_iff_exists.mp (isSome_idxOf?.mpr hother)
  have hplace : l.place other = index := by
    rw [place, idxOf_eq_getD_idxOf?, hindex]
    rfl
  have hlength : ¬ (l.fairKeys.eraseIdx index).length = 0 := by
    rw [← hplace, eraseIdx_place]
    exact (length_pos_of_mem hmem).ne'
  have hcursor : (l.setQueue other []).fairCursor =
      if l.place other < l.fairCursor then l.fairCursor - 1 else l.fairCursor := by
    unfold setQueue removeFairKey
    simp only [length_nil, if_true, hindex, if_neg hlength, hplace]
  rw [turns, place, hkeys, hcursor, place_erase hd hkey hne hother, length_erase_of_mem hother]

theorem turns_setQueue_cons (key other : JsString) (queue : List AdmissionWaiter) (l : FairLanes) :
    turns key (l.setQueue other (waiter :: queue)) = turns key l := rfl

/-! ## One step -/

theorem turns_push (hkey : key ∈ l.fairKeys) (hturn : KeepsTurn key l (.park waiter))
    (hl : Lawful l) : turns key (l.push waiter) ≤ turns key l := by
  unfold push
  cases hget : l.queues.get waiter.key with
  | some queue => exact le_refl _
  | none =>
    have hnew : waiter.key ∉ l.fairKeys := by
      rw [hl.mem_fairKeys, hget]
      exact Bool.false_ne_true
    have hplace : (l.fairKeys ++ [waiter.key]).idxOf key = l.place key :=
      idxOf_append_of_mem hkey
    show turnsBefore l.fairCursor ((l.fairKeys ++ [waiter.key]).idxOf key)
      (l.fairKeys ++ [waiter.key]).length ≤ _
    rw [hplace, length_append, length_singleton]
    exact hturn hnew

theorem turns_removeWaiter (hl : Lawful l) (hkey : key ∈ l.fairKeys)
    (hafter : key ∈ (l.removeWaiter waiter).fairKeys) (hturn : KeepsTurn key l (.leave waiter)) :
    turns key (l.removeWaiter waiter) ≤ turns key l := by
  unfold removeWaiter at hafter ⊢
  cases hget : l.queues.get waiter.key with
  | none => exact le_refl _
  | some queue =>
    rw [hget] at hafter
    dsimp only at hafter ⊢
    cases herase : queue.erase waiter with
    | cons w rest => exact le_of_eq (turns_setQueue_cons ..)
    | nil =>
      have hother := hl.mem_fairKeys_of_get hget
      have hne : waiter.key ≠ key := by
        rintro rfl
        rw [herase, setQueue_fairKeys, if_pos rfl] at hafter
        exact hl.nodup_fairKeys.not_mem_erase hafter
      rw [turns_setQueue_nil hl.nodup_fairKeys hkey hne hother]
      apply hturn
      have hqueue := (erase_eq_nil_iff.mp herase).resolve_left (hl.queue_ne_nil _ _ hget)
      rw [hget, hqueue]

theorem turns_dispatchFair (hl : Lawful l) (hkey : key ∈ l.fairKeys)
    (hother : ∀ waiter, l.dispatchFair.1 = some waiter → waiter.key ≠ key)
    (hturn : KeepsTurn key l .dispatch) :
    l.dispatchFair.1.isSome ∧ turns key l.dispatchFair.2 < turns key l := by
  obtain ⟨next, woken, rest, hnext, hget, heq⟩ := dispatchFair_eq hl (ne_nil_of_mem hkey)
  have hmem : next ∈ l.fairKeys := mem_of_getElem? hnext
  have hne : next ≠ key := by
    rw [← hl.queue_key next _ hget woken mem_cons_self]
    apply hother
    rw [heq]
  rw [heq]
  refine ⟨rfl, ?_⟩
  have hn := length_pos_of_mem hkey
  have hcursor := Nat.mod_lt l.fairCursor hn
  have hplace : l.place next = l.fairCursor % l.fairKeys.length := by
    obtain ⟨hlt, rfl⟩ := List.getElem?_eq_some_iff.mp hnext
    exact hl.nodup_fairKeys.idxOf_getElem _ hlt
  cases rest with
  | nil =>
    have hmoved := turns_setQueue_nil (l := { l with fairCursor := l.fairCursor + 1 })
      hl.nodup_fairKeys hkey hne hmem
    have hle : l.place next < l.fairCursor + 1 := by
      rw [hplace]
      exact Nat.lt_succ_of_le (Nat.mod_le _ _)
    rw [hmoved]
    show turnsBefore (if l.place next < l.fairCursor + 1 then _ else _) _ _ < _
    rw [if_pos hle]
    exact hturn next woken hnext hget
  | cons w rest =>
    have hkplace := place_lt hkey
    have hahead : 0 < Cyclic.ahead (l.fairCursor % l.fairKeys.length) (l.place key)
        l.fairKeys.length := by
      by_contra h0
      have hat := Cyclic.add_ahead_mod hcursor hkplace
      rw [Nat.eq_zero_of_not_pos h0, Nat.add_zero, Nat.mod_mod, ← hplace] at hat
      exact hne ((idxOf_inj hmem).mp hat)
    have hnear := Cyclic.ahead_next hcursor hkplace hahead
    simp only [Nat.mod_add_mod] at hnear
    exact hnear

/-- No step of a kept turn moves it away, and a dispatch brings it closer. -/
theorem turns_run {op : LaneOp} (hl : Lawful l) (hkey : key ∈ l.fairKeys)
    (hafter : key ∈ (op.run l).2.fairKeys)
    (hother : ∀ waiter, (op.run l).1 = some waiter → waiter.key ≠ key)
    (hturn : KeepsTurn key l op) :
    turns key (op.run l).2 + (if (op.run l).1.isSome then 1 else 0) ≤ turns key l := by
  cases op with
  | park waiter => exact turns_push hkey hturn hl
  | leave waiter => exact turns_removeWaiter hl hkey hafter hturn
  | dispatch =>
    obtain ⟨hsome, hlt⟩ := turns_dispatchFair hl hkey hother hturn
    show turns key l.dispatchFair.2 + (if l.dispatchFair.1.isSome then 1 else 0) ≤ _
    rw [if_pos hsome]
    exact hlt

/-! ## A whole wait -/

theorem Waits.key_mem {allowed : FairLanes → LaneOp → Prop} {start : FairLanes}
    {served widest : Nat} (h : Waits allowed key start served widest l) : key ∈ l.fairKeys := by
  cases h with
  | start h => exact h
  | step _ _ _ _ _ hkey => exact hkey

theorem Waits.served_add_turns {start : FairLanes} {served widest : Nat}
    (h : Waits (KeepsTurn key) key start served widest l) (hs : Lawful start) :
    served + turns key l < widest := by
  induction h with
  | start hkey =>
    rw [Nat.zero_add]
    exact turns_lt hkey
  | step _ hwaits _ hturn hother hafter ih =>
    have hstep := turns_run (hwaits.lawful hs) hwaits.key_mem hafter hother hturn
    split at hstep
    · rename_i hsome
      rw [if_pos hsome]
      omega
    · rename_i hsome
      rw [if_neg hsome]
      omega

/-- While no step moves the turn of a key away, fewer dispatches go to others
before its own than there were keys. -/
theorem served_le_widest {start : FairLanes} {served widest : Nat} (hr : Reachable start)
    (h : Waits (KeepsTurn key) key start served widest l) : served ≤ widest := by
  have := h.served_add_turns hr.lawful
  omega

def kept : AdmissionWaiter := ⟨js "kept", 0⟩

def passing : AdmissionWaiter := ⟨js "passing", 1⟩

def both : FairLanes := (({} : FairLanes).push kept).push passing

theorem not_queued_push (h : waiter ≠ first) : ¬ (({} : FairLanes).push first).Queued waiter := by
  rw [queued_push, not_or]
  exact ⟨not_queued_empty, h⟩

theorem reachable_both : Reachable both :=
  .step (.park passing) (.step (.park kept) .empty not_queued_empty) (not_queued_push (by decide))

theorem served_le_widest_both : Reachable both ∧
      Waits (KeepsTurn passing.key) passing.key both 1 2 both.dispatchFair.2 ∧ 1 ≤ 2 := by
  have hturn : KeepsTurn passing.key both .dispatch := by
    intro other waiter hnext _
    have : other = kept.key := Option.some.inj (hnext.symm.trans rfl)
    subst this
    decide
  have hwaits : Waits (KeepsTurn passing.key) passing.key both 1 2 both.dispatchFair.2 :=
    .step .dispatch (.start (by decide)) trivial hturn (by
      intro waiter h
      cases h
      decide) (by decide)
  exact ⟨reachable_both, hwaits, served_le_widest reachable_both hwaits⟩

/-- One key with one waiter, after a dispatch. -/
def alone : FairLanes where
  queues := [(kept.key, [kept])]
  fairKeys := [kept.key]
  fairCursor := 1

theorem reachable_alone : Reachable alone :=
  .step .dispatch (.step (.park kept) (.step (.park { kept with id := 2 }) .empty not_queued_empty)
    (not_queued_push (by decide))) trivial

theorem not_queued_alone : ¬ alone.Queued passing := by
  rintro ⟨queue, hget, -⟩
  exact Option.some_ne_none queue (hget.symm.trans rfl)

/-- A key that joins after each dispatch is served before the one that waits. -/
theorem overtaken {served widest : Nat}
    (h : Waits (fun _ _ => True) kept.key alone served widest alone) :
    Waits (fun _ _ => True) kept.key alone (served + 1) (max (max widest 2) 1) alone :=
  .step .dispatch
    (.step (.park passing) h not_queued_alone trivial (fun _ h => nomatch h) (by decide))
    trivial trivial
    (by
      intro waiter h
      cases h
      decide)
    (by decide)

/-- Two keys in rotation, and three dispatches to the other one. -/
theorem not_served_le_widest :
    ¬ ∀ (key : JsString) (start l : FairLanes) (served widest : Nat), Reachable start →
      Waits (fun _ _ => True) key start served widest l → served ≤ widest := by
  intro h
  have hwaits := overtaken (overtaken (overtaken (.start (by decide))))
  exact absurd (h _ _ _ _ _ reachable_alone hwaits) (by decide)

end FairLanes

end RedRouter.Middleware
