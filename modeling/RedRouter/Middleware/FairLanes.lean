import RedRouter.Lib.JsMap
import RedRouter.Lib.JsString

/-!
# Fair lanes

The queues that `chatBodyAdmission.ts` and `ingestByteAdmission.ts` keep their
waiters in: one for each key, and a cursor that goes around the keys.  The two
files have the same code for them.

A key stands in the rotation exactly as long as it has a queue, and no queue is
empty (`Lawful`).  So a dispatch takes one waiter whenever there is one
(`dispatchFair_some`).
-/

namespace RedRouter.Middleware

open List JsMap

/-- A waiter.  The id stands for the identity of the object. -/
structure AdmissionWaiter where
  key : JsString
  id : Nat
deriving DecidableEq

structure FairLanes where
  queues : JsMap JsString (List AdmissionWaiter) := []
  fairKeys : List JsString := []
  fairCursor : Nat := 0
deriving DecidableEq

variable (key : JsString)

namespace FairLanes

/-- The end of the queue of its key, which is created on first use. -/
def push (waiter : AdmissionWaiter) (l : FairLanes) : FairLanes :=
  match l.queues.get waiter.key with
  | some queue => { l with queues := l.queues.set waiter.key (queue ++ [waiter]) }
  | none =>
      { l with
        queues := l.queues.set waiter.key [waiter]
        fairKeys := l.fairKeys ++ [waiter.key] }

def removeFairKey (l : FairLanes) : FairLanes :=
  let queues := l.queues.delete key
  match l.fairKeys.idxOf? key with
  | none => { l with queues := queues }
  | some index =>
      let fairKeys := l.fairKeys.eraseIdx index
      let fairCursor := if index < l.fairCursor then l.fairCursor - 1 else l.fairCursor
      { queues := queues
        fairKeys := fairKeys
        fairCursor := if fairKeys.length = 0 then 0 else fairCursor }

def setQueue (queue : List AdmissionWaiter) (l : FairLanes) : FairLanes :=
  let l := { l with queues := l.queues.set key queue }
  if queue.length = 0 then l.removeFairKey key else l

def removeWaiter (waiter : AdmissionWaiter) (l : FairLanes) : FairLanes :=
  match l.queues.get waiter.key with
  | none => l
  | some queue => l.setQueue waiter.key (queue.erase waiter)

/-- The loop of `dispatchFair`. -/
def dispatchRounds : Nat → FairLanes → Option AdmissionWaiter × FairLanes
  | 0, l => (none, l)
  | rounds + 1, l =>
      match l.fairKeys[l.fairCursor % l.fairKeys.length]? with
      | none => (none, l)
      | some key =>
          let l := { l with fairCursor := l.fairCursor + 1 }
          match l.queues.get key with
          | some (waiter :: queue) => (some waiter, l.setQueue key queue)
          | _ => dispatchRounds rounds l

/-- The waiter that is woken, if there is one. -/
def dispatchFair (l : FairLanes) : Option AdmissionWaiter × FairLanes :=
  dispatchRounds l.fairKeys.length l

/-! ## Who is queued -/

def Queued (l : FairLanes) (waiter : AdmissionWaiter) : Prop :=
  ∃ queue, l.queues.get waiter.key = some queue ∧ waiter ∈ queue

structure Lawful (l : FairLanes) : Prop where
  mem_fairKeys : ∀ key, key ∈ l.fairKeys ↔ (l.queues.get key).isSome
  nodup_fairKeys : l.fairKeys.Nodup
  queue_ne_nil : ∀ key queue, l.queues.get key = some queue → queue ≠ []
  queue_nodup : ∀ key queue, l.queues.get key = some queue → queue.Nodup
  queue_key : ∀ key queue, l.queues.get key = some queue → ∀ waiter ∈ queue, waiter.key = key

theorem lawful_empty : Lawful {} where
  mem_fairKeys := by simp
  nodup_fairKeys := nodup_nil
  queue_ne_nil := by simp
  queue_nodup := by simp
  queue_key := by simp

variable {l : FairLanes} {waiter : AdmissionWaiter}

theorem not_queued_empty : ¬ Queued {} waiter := by
  simp [Queued]

theorem removeFairKey_queues (l : FairLanes) :
    (l.removeFairKey key).queues = l.queues.delete key := by
  unfold removeFairKey
  cases List.idxOf? key l.fairKeys <;> rfl

theorem removeFairKey_fairKeys (l : FairLanes) :
    (l.removeFairKey key).fairKeys = l.fairKeys.erase key := by
  unfold removeFairKey
  rw [erase_eq_eraseIdx]
  cases List.idxOf? key l.fairKeys <;> rfl

theorem get_setQueue (k : JsString) (queue : List AdmissionWaiter) (l : FairLanes) :
    (l.setQueue key queue).queues.get k =
      if key = k then (if queue = [] then none else some queue) else l.queues.get k := by
  unfold setQueue
  by_cases hnil : queue = []
  · simp only [hnil, length_nil, if_true]
    rw [removeFairKey_queues, get_delete]
    split
    · rfl
    · rename_i hne
      rw [get_set, if_neg hne]
  · have hlength : ¬ queue.length = 0 := fun h => hnil (length_eq_zero_iff.mp h)
    simp [if_neg hnil, get_set]

theorem setQueue_fairKeys (queue : List AdmissionWaiter) (l : FairLanes) :
    (l.setQueue key queue).fairKeys =
      if queue = [] then l.fairKeys.erase key else l.fairKeys := by
  unfold setQueue
  simp only [length_eq_zero_iff]
  split
  · rw [removeFairKey_fairKeys]
  · rfl

theorem queued_setQueue {key : JsString} {queue : List AdmissionWaiter} :
    (l.setQueue key queue).Queued waiter ↔
      if key = waiter.key then waiter ∈ queue else l.Queued waiter := by
  unfold Queued
  rw [get_setQueue]
  split
  · by_cases hnil : queue = []
    all_goals simp [hnil]
  · exact Iff.rfl

theorem Lawful.setQueue (h : Lawful l) {key : JsString} {queue : List AdmissionWaiter}
    (hkey : key ∈ l.fairKeys) (hnodup : queue.Nodup) (hkeys : ∀ waiter ∈ queue, waiter.key = key) :
    Lawful (l.setQueue key queue) where
  mem_fairKeys k := by
    rw [setQueue_fairKeys, get_setQueue]
    by_cases hk : key = k
    · subst hk
      split
      · simpa using h.nodup_fairKeys.not_mem_erase
      · simpa using hkey
    · rw [if_neg hk, ← h.mem_fairKeys]
      split
      · rw [mem_erase_of_ne (Ne.symm hk)]
      · exact Iff.rfl
  nodup_fairKeys := by
    rw [setQueue_fairKeys]
    split
    · exact h.nodup_fairKeys.erase key
    · exact h.nodup_fairKeys
  queue_ne_nil k other hget := by
    rw [get_setQueue] at hget
    split at hget
    · split at hget
      · cases hget
      · cases hget
        assumption
    · exact h.queue_ne_nil k other hget
  queue_nodup k other hget := by
    rw [get_setQueue] at hget
    split at hget
    · split at hget <;> cases hget
      exact hnodup
    · exact h.queue_nodup k other hget
  queue_key k other hget := by
    rw [get_setQueue] at hget
    split at hget
    · rename_i hk
      split at hget <;> cases hget
      exact hk ▸ hkeys
    · exact h.queue_key k other hget

theorem Lawful.mem_fairKeys_of_get (h : Lawful l) {key : JsString} {queue : List AdmissionWaiter}
    (hget : l.queues.get key = some queue) : key ∈ l.fairKeys := by
  rw [h.mem_fairKeys, hget]
  rfl

/-! ## Parking -/

theorem queued_push {other : AdmissionWaiter} :
    (l.push waiter).Queued other ↔ l.Queued other ∨ other = waiter := by
  unfold push
  cases hget : l.queues.get waiter.key with
  | none =>
    simp only [Queued, get_set]
    split
    · rename_i hkey
      simp [← hkey, hget]
    · rename_i hkey
      refine (or_iff_left ?_).symm
      rintro rfl
      exact hkey rfl
  | some queue =>
    simp only [Queued, get_set]
    split
    · rename_i hkey
      simp [← hkey, hget]
    · rename_i hkey
      refine (or_iff_left ?_).symm
      rintro rfl
      exact hkey rfl

theorem Lawful.push (h : Lawful l) (hnew : ¬ l.Queued waiter) : Lawful (l.push waiter) := by
  unfold FairLanes.push
  cases hget : l.queues.get waiter.key with
  | none =>
    have hkey : waiter.key ∉ l.fairKeys := by
      rw [h.mem_fairKeys, hget]
      exact Bool.false_ne_true
    refine ⟨fun key => ?_, ?_, fun key queue => ?_, fun key queue => ?_, fun key queue => ?_⟩
    · rw [mem_append, mem_singleton, h.mem_fairKeys, get_set]
      split
      · rename_i hk
        simp [hk]
      · rename_i hk
        simp [Ne.symm hk]
    · rw [nodup_append]
      refine ⟨h.nodup_fairKeys, nodup_singleton _, ?_⟩
      rintro key hmem _ hother rfl
      rw [mem_singleton] at hother
      exact hkey (hother ▸ hmem)
    all_goals
      intro hqueue
      rw [get_set] at hqueue
      split at hqueue
    · cases hqueue
      exact cons_ne_nil _ _
    · exact h.queue_ne_nil key queue hqueue
    · cases hqueue
      exact nodup_singleton _
    · exact h.queue_nodup key queue hqueue
    · rename_i hk
      cases hqueue
      simpa using hk
    · exact h.queue_key key queue hqueue
  | some queue =>
    have hmem : waiter ∉ queue := fun hmem => hnew ⟨queue, hget, hmem⟩
    have hnodup : (queue ++ [waiter]).Nodup := by
      simpa [nodup_append] using
        ⟨h.queue_nodup _ _ hget, fun a ha => ne_of_mem_of_not_mem ha hmem⟩
    have hkeys : ∀ w ∈ queue ++ [waiter], w.key = waiter.key := by
      intro w hw
      rcases mem_append.mp hw with hw | hw
      · exact h.queue_key _ _ hget w hw
      · rw [mem_singleton.mp hw]
    have hset := h.setQueue (h.mem_fairKeys_of_get hget) hnodup hkeys
    simpa [FairLanes.setQueue] using hset

/-! ## Leaving -/

theorem queued_removeWaiter (h : Lawful l) {other : AdmissionWaiter} :
    (l.removeWaiter waiter).Queued other ↔ l.Queued other ∧ other ≠ waiter := by
  unfold removeWaiter
  cases hget : l.queues.get waiter.key with
  | none =>
    refine (and_iff_left_of_imp ?_).symm
    rintro ⟨queue, hqueue, -⟩ rfl
    simp [hget] at hqueue
  | some queue =>
    simp only [queued_setQueue]
    split
    · rename_i hkey
      rw [(h.queue_nodup _ _ hget).mem_erase_iff]
      simp [Queued, ← hkey, hget, and_comm]
    · rename_i hkey
      refine (and_iff_left_of_imp ?_).symm
      rintro - rfl
      exact hkey rfl

theorem Lawful.removeWaiter (h : Lawful l) (waiter : AdmissionWaiter) :
    Lawful (l.removeWaiter waiter) := by
  unfold FairLanes.removeWaiter
  cases hget : l.queues.get waiter.key with
  | none => exact h
  | some queue =>
    exact h.setQueue (h.mem_fairKeys_of_get hget) ((h.queue_nodup _ _ hget).erase _)
      fun w hw => h.queue_key _ _ hget w (mem_of_mem_erase hw)

/-! ## Dispatch -/

theorem dispatchFair_none (h : Lawful l) (hnone : ∀ w, ¬ l.Queued w) :
    l.dispatchFair = (none, l) := by
  have hkeys : l.fairKeys = [] := by
    refine eq_nil_iff_forall_not_mem.mpr fun key hkey => ?_
    obtain ⟨queue, hget⟩ := Option.isSome_iff_exists.mp ((h.mem_fairKeys key).mp hkey)
    obtain ⟨w, hw⟩ := exists_mem_of_ne_nil queue (h.queue_ne_nil key queue hget)
    have hwkey := h.queue_key key queue hget w hw
    exact hnone w ⟨queue, hwkey ▸ hget, hw⟩
  rw [dispatchFair, hkeys]
  rfl

theorem dispatchFair_eq (h : Lawful l) (hne : l.fairKeys ≠ []) :
    ∃ key woken rest, l.fairKeys[l.fairCursor % l.fairKeys.length]? = some key ∧
      l.queues.get key = some (woken :: rest) ∧
      l.dispatchFair =
        (some woken, FairLanes.setQueue key rest { l with fairCursor := l.fairCursor + 1 }) := by
  have hpos : 0 < l.fairKeys.length := length_pos_iff.mpr hne
  obtain ⟨rounds, hrounds⟩ := Nat.exists_eq_add_of_le' hpos
  have hlt : l.fairCursor % l.fairKeys.length < l.fairKeys.length := Nat.mod_lt _ hpos
  have hkey := getElem?_eq_getElem hlt
  have hmem := getElem_mem hlt
  generalize l.fairKeys[l.fairCursor % l.fairKeys.length] = key at hkey hmem
  obtain ⟨turn, hturn⟩ := Option.isSome_iff_exists.mp ((h.mem_fairKeys key).mp hmem)
  cases turn with
  | nil => exact absurd rfl (h.queue_ne_nil key [] hturn)
  | cons woken rest =>
    refine ⟨key, woken, rest, hkey, hturn, ?_⟩
    rw [dispatchFair, hrounds, dispatchRounds, hkey]
    simp only [hturn]

/-- A dispatch takes one waiter out of its queue, if there is one at all. -/
theorem dispatchFair_some (h : Lawful l) (hsome : ∃ w, l.Queued w) :
    ∃ woken l', l.dispatchFair = (some woken, l') ∧ l.Queued woken ∧ Lawful l' ∧
      ∀ w, l'.Queued w ↔ l.Queued w ∧ w ≠ woken := by
  obtain ⟨w, queue, hget, hw⟩ := hsome
  obtain ⟨key, woken, rest, hkey, hturn, heq⟩ :=
    dispatchFair_eq h (ne_nil_of_mem (h.mem_fairKeys_of_get hget))
  have hmem : key ∈ l.fairKeys := mem_of_getElem? hkey
  have hwoken : woken.key = key := h.queue_key key _ hturn woken mem_cons_self
  have hnodup := nodup_cons.mp (h.queue_nodup key _ hturn)
  -- the cursor is not part of what the rotation has
  have hmoved : Lawful { l with fairCursor := l.fairCursor + 1 } :=
    { h with }
  refine ⟨woken, _, heq, ⟨_, hwoken ▸ hturn, mem_cons_self⟩, ?_, fun w => ?_⟩
  · exact hmoved.setQueue hmem hnodup.2 fun w hw => h.queue_key key _ hturn w (mem_cons_of_mem _ hw)
  · rw [queued_setQueue]
    split
    · rename_i hk
      simp only [Queued, ← hk, hturn, Option.some.injEq, exists_eq_left', mem_cons]
      refine ⟨fun hmem => ⟨.inr hmem, ?_⟩, fun hmem => hmem.1.resolve_left hmem.2⟩
      rintro rfl
      exact hnodup.1 hmem
    · rename_i hk
      refine (and_iff_left_of_imp ?_).symm
      rintro - rfl
      exact hk hwoken.symm

end FairLanes

end RedRouter.Middleware
