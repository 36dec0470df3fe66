import RedRouter.Services.RateLimitCooldown

/-!
# The order of the rate-limit semaphore

`running` is the number of the slots that are granted and not released, a
grant stays within `max`, and a second release does nothing.  These hold in
every run.

The requests of a model wait in the order of their arrival, and a drain grants
the first of them.  A new request does not look at the queue: it overtakes the
waiting ones when it finds a free slot, after a cooldown that is over and
before its timer, or with a larger limit than the requests before it.
-/

namespace RedRouter.Services.RateLimit

open List JsMap

open Semaphore (cooling)

/-! ## A gate -/

namespace ModelGate

theorem isRateLimited_fst (gate : ModelGate) (now : Nat) :
    (gate.isRateLimited now).1 = cooling gate now := by
  unfold isRateLimited cooling
  cases gate.rateLimitedUntil with
  | none => rfl
  | some u =>
    by_cases hzero : u = 0
    · subst hzero
      have hlt : ¬ (now : Int) < 0 := by omega
      simp
    · by_cases hle : u ≤ now
      · have hlt : ¬ (now : Int) < u := by omega
        simp [hle, hlt]
      · have hlt : (now : Int) < u := by omega
        simp [hle, hlt]

theorem hasSlot_fst (gate : ModelGate) (now : Nat) :
    (gate.hasSlot now).1 = true ↔ gate.running < gate.max ∧ cooling gate now = false := by
  rw [← isRateLimited_fst]
  unfold hasSlot
  split
  · rename_i hlt
    simp [hlt]
  · rename_i hfull
    simp [hfull]

theorem hasSlot_max (gate : ModelGate) (now : Nat) : (gate.hasSlot now).2.max = gate.max := by
  have hmax : (gate.isRateLimited now).2.max = gate.max := by
    unfold isRateLimited
    split
    · rfl
    · rfl
    · split <;> rfl
  unfold hasSlot
  split
  · exact hmax
  · rfl

/-- A drain grants the first requests of the queue, within the limit. -/
theorem drain_spec (now : Nat) (gate : ModelGate) (queue : List QueueItem) :
    queue = (gate.drain now queue).2 ++ (gate.drain now queue).1.queue ∧
      (gate.drain now queue).1.running = gate.running + (gate.drain now queue).2.length ∧
      (gate.drain now queue).1.max = gate.max ∧
      ((gate.drain now queue).2 ≠ [] →
        (gate.drain now queue).1.running ≤ (gate.drain now queue).1.max) := by
  induction queue generalizing gate with
  | nil => exact ⟨rfl, rfl, rfl, fun h => absurd rfl h⟩
  | cons next queue ih =>
    have hload := hasSlot_load gate now
    have hmax := hasSlot_max gate now
    have hfree := hasSlot_fst gate now
    rw [drain]
    generalize gate.hasSlot now = slot at *
    obtain ⟨free, gate'⟩ := slot
    dsimp only at *
    split
    · rename_i hgranted
      have hlt := (hfree.mp hgranted).1
      obtain ⟨hqueue, hrunning, hmax', hle⟩ := ih { gate' with running := gate'.running + 1 }
      refine ⟨congrArg (next :: ·) hqueue, ?_, hmax'.trans hmax, fun _ => ?_⟩
      · rw [hrunning, length_cons, ← hload.1]
        show gate'.running + 1 + _ = _
        omega
      · by_cases hnil : (drain now { gate' with running := gate'.running + 1 } queue).2 = []
        · rw [hrunning, hmax', hnil, hmax, hload.1]
          exact hlt
        · exact hle hnil
    · exact ⟨rfl, hload.1, hmax, fun h => absurd rfl h⟩

end ModelGate

namespace Semaphore

variable {s s' s'' : Semaphore} {m : JsString} {g : Nat}

/-! ## What is observed -/

/-- A request for a model, numbered in the order of arrival. -/
structure Request where
  modelStr : JsString
  number : Nat
deriving DecidableEq

def requestOf (t : WaitTimer) : Request := ⟨t.modelStr, t.timer⟩

def waiting (s : Semaphore) : List Request := s.waitTimers.map requestOf

/-- The requests that a step grants.  A request that is granted at once has the number that
it would have waited with. -/
def grantedBy (s : Semaphore) : Event → List Request
  | .acquire modelStr options =>
      match (s.acquire modelStr options).1 with
      | .granted _ => [⟨modelStr, s.nextTimer⟩]
      | _ => []
  -- the request is rejected
  | .timeout _ => []
  | event => s.waiting.filter fun r => r ∉ (s.step event).waiting

def runningOf (s : Semaphore) (m : JsString) : Nat := ((s.gateOf m).map ModelGate.running).getD 0

/-- The slots of a model that are not given back. -/
def outstanding (s : Semaphore) (m : JsString) : Nat :=
  s.slots.countP fun slot => slot.modelStr = m ∧ slot.released = false

/-- A step of a counting semaphore that grants in the order of arrival. -/
structure FifoStep (s : Semaphore) (event : Event) : Prop where
  running : ∀ m, (s.step event).runningOf m = (s.step event).outstanding m
  slots : (s.step event).slots.map Slot.modelStr =
    s.slots.map Slot.modelStr ++ (s.grantedBy event).map Request.modelStr
  max : ∀ r ∈ s.grantedBy event, ∃ gate, (s.step event).gateOf r.modelStr = some gate ∧
    gate.running ≤ gate.max
  once : ∀ i, event = .release i → i < s.slots.length → ∀ later : List Event,
    (later.foldl step (s.step event)).step (.release i) = later.foldl step (s.step event)
  fifo : ∀ r ∈ s.grantedBy event, ∀ w ∈ s.waiting, w.modelStr = r.modelStr → w.number < r.number →
    w ∈ s.grantedBy event

/-- In the state before it, a request that finds a free slot finds no waiting request. -/
def WaitsItsTurn (s : Semaphore) : Event → Prop
  | .acquire modelStr options => ∀ gate ∈ s.gateOf modelStr,
      gate.running < options.maxConcurrency → cooling gate s.now = false → gate.queue = []
  | _ => True

/-! ## Slots -/

variable (modelStr : JsString)

theorem drainQueue_slots (s : Semaphore) :
    ∃ new, (s.drainQueue modelStr).slots = s.slots ++ new := by
  unfold drainQueue
  split
  · exact ⟨[], (append_nil _).symm⟩
  · dsimp only
    split <;> exact ⟨_, rfl⟩

theorem giveBack_slots (s : Semaphore) : ∃ new, (s.giveBack modelStr).slots = s.slots ++ new := by
  unfold giveBack
  split
  · exact ⟨[], (append_nil _).symm⟩
  · split
    · dsimp only
      split
      · exact ⟨[], (append_nil _).symm⟩
      · exact drainQueue_slots modelStr _
    · exact ⟨[], (append_nil _).symm⟩

/-- The release function of the slot was called. -/
def Released (i : Nat) (s : Semaphore) : Prop :=
  ∃ slot, s.slots[i]? = some slot ∧ slot.released = true

theorem Released.append {i : Nat} (h : s.Released i) {new : List Slot}
    (hslots : s'.slots = s.slots ++ new) : s'.Released i := by
  obtain ⟨slot, hslot, hreleased⟩ := h
  refine ⟨slot, ?_, hreleased⟩
  rw [hslots, getElem?_append_left (List.getElem?_eq_some_iff.mp hslot).1]
  exact hslot

theorem released_release {i : Nat} (h : i < s.slots.length) : (s.release i).Released i := by
  unfold release
  rw [getElem?_eq_getElem h]
  dsimp only
  split
  · rename_i hreleased
    exact ⟨_, getElem?_eq_getElem h, hreleased⟩
  · obtain ⟨new, hnew⟩ := giveBack_slots s.slots[i].modelStr
      { s with slots := s.slots.set i { s.slots[i] with released := true } }
    refine Released.append ⟨{ s.slots[i] with released := true }, ?_, rfl⟩ hnew
    show (s.slots.set i _)[i]? = _
    rw [getElem?_set_self h]

theorem getGate_slots (max : Nat) (s : Semaphore) : (s.getGate modelStr max).2.slots = s.slots := by
  unfold getGate
  split <;> rfl

theorem acquire_slots (options : AcquireOptions) (s : Semaphore) :
    ∃ new, (s.acquire modelStr options).2.slots = s.slots ++ new := by
  have hslots := getGate_slots modelStr options.maxConcurrency s
  unfold acquire
  dsimp only
  split
  · rw [← hslots]
    exact ⟨_, rfl⟩
  · refine ⟨[], ?_⟩
    rw [append_nil, ← hslots]
    split
    · split <;> rfl
    · rfl

theorem endCooldown_slots (t : CooldownTimer) (s : Semaphore) :
    ∃ new, (s.endCooldown t).slots = s.slots ++ new := by
  unfold endCooldown
  split
  · exact drainQueue_slots t.modelStr _
  · exact ⟨[], (append_nil _).symm⟩

theorem onCooldown_slots (i : Nat) (s : Semaphore) :
    ∃ new, (s.onCooldown i).slots = s.slots ++ new := by
  unfold onCooldown
  split
  · exact ⟨[], (append_nil _).symm⟩
  · split
    · exact endCooldown_slots _ { s with cooldownTimers := s.cooldownTimers.eraseIdx i }
    · exact ⟨[], (append_nil _).symm⟩

theorem onTimeout_slots (timer : Nat) (s : Semaphore) : (s.onTimeout timer).2.slots = s.slots := by
  unfold onTimeout
  split <;> rfl

theorem Released.step {i : Nat} (h : s.Released i) (event : Event) : (s.step event).Released i := by
  cases event with
  | acquire modelStr options =>
    obtain ⟨new, hnew⟩ := acquire_slots modelStr options s
    exact h.append hnew
  | release j =>
    show (s.release j).Released i
    unfold release
    split
    · exact h
    · rename_i slot hslot
      split
      · exact h
      · obtain ⟨new, hnew⟩ := giveBack_slots slot.modelStr
          { s with slots := s.slots.set j { slot with released := true } }
        obtain ⟨kept, hkept, hreleased⟩ := h
        by_cases hij : j = i
        · subst hij
          refine Released.append ⟨{ slot with released := true }, ?_, rfl⟩ hnew
          show (s.slots.set j _)[j]? = _
          rw [getElem?_set_self (List.getElem?_eq_some_iff.mp hslot).1]
        · refine Released.append ⟨kept, ?_, hreleased⟩ hnew
          show (s.slots.set j _)[i]? = _
          rw [getElem?_set_ne hij]
          exact hkept
  | timeout timer => exact h.append ((onTimeout_slots timer s).trans (append_nil _).symm)
  | markRateLimited modelStr cooldownMs =>
    exact h.append ((markRateLimited_frame modelStr cooldownMs s).2.trans (append_nil _).symm)
  | cooldown j =>
    obtain ⟨new, hnew⟩ := onCooldown_slots j s
    exact h.append hnew
  | advance ms => exact h

theorem Released.release_eq {i : Nat} (h : s.Released i) : s.release i = s := by
  obtain ⟨slot, hslot, hreleased⟩ := h
  unfold release
  rw [hslot]
  exact if_pos hreleased

/-- A second call of a release function does nothing, whatever happened meanwhile. -/
theorem release_once {i : Nat} (h : i < s.slots.length) (later : List Event) :
    (later.foldl step (s.release i)).release i = later.foldl step (s.release i) := by
  have hreleased := Runs.foldl_invariant (Released i) (fun _ event h => Released.step h event)
    (released_release h) later
  exact hreleased.release_eq

/-! ## The invariant -/

def queueOf (s : Semaphore) (m : JsString) : List QueueItem :=
  ((s.gateOf m).map ModelGate.queue).getD []

/-- The requests of a model whose timers run. -/
def waitersOf (s : Semaphore) (m : JsString) : List QueueItem :=
  (s.waitTimers.filter fun t => t.modelStr = m).map fun t => ⟨t.timer⟩

/-- The gates of the models agree with the slots and the timers. -/
structure Coherent (s : Semaphore) : Prop where
  referenced : Referenced s
  running : ∀ m, s.runningOf m = s.outstanding m
  queue : ∀ m, s.queueOf m = s.waitersOf m
  gate : ∀ t ∈ s.waitTimers, s.gates.get t.modelStr = some t.gate
  order : s.waitTimers.Pairwise (fun t t' => t.timer < t'.timer)
  fresh : ∀ t ∈ s.waitTimers, t.timer < s.nextTimer

theorem coherent_start (now : Nat) : Coherent { now := now } where
  referenced := referenced_start now
  running := fun _ => rfl
  queue := fun _ => rfl
  gate := fun _ ht => absurd ht not_mem_nil
  order := List.Pairwise.nil
  fresh := fun _ ht => absurd ht not_mem_nil

section

variable (hg : s.gates.get m = some g)
include hg

theorem gateOf_eq : s.gateOf m = some (s.heap g) := by
  rw [gateOf, hg]
  rfl

theorem runningOf_eq : s.runningOf m = (s.heap g).running := by
  rw [runningOf, gateOf_eq hg]
  rfl

theorem queueOf_eq : s.queueOf m = (s.heap g).queue := by
  rw [queueOf, gateOf_eq hg]
  rfl

end

theorem gateOf_put (href : Referenced s) (hg : s.gates.get m = some g) (gate : ModelGate)
    (m' : JsString) : (s.put g gate).gateOf m' = if m' = m then some gate else s.gateOf m' := by
  show (s.gates.get m').map (fun g' => if g' = g then gate else s.heap g') = _
  split
  · rename_i heq
    rw [heq, hg]
    exact congrArg some (if_pos rfl)
  · rename_i hne
    cases hg' : s.gates.get m' with
    | none =>
      rw [gateOf, hg']
      rfl
    | some g' =>
      rw [gateOf_eq hg']
      refine congrArg some (if_neg ?_)
      rintro rfl
      exact hne (href.apart m' m g' hg' hg)

theorem runningOf_put (href : Referenced s) (hg : s.gates.get m = some g) (gate : ModelGate)
    (m' : JsString) :
    (s.put g gate).runningOf m' = if m' = m then gate.running else s.runningOf m' := by
  unfold runningOf
  rw [gateOf_put href hg]
  split <;> rfl

theorem queueOf_put (href : Referenced s) (hg : s.gates.get m = some g) (gate : ModelGate)
    (m' : JsString) : (s.put g gate).queueOf m' = if m' = m then gate.queue else s.queueOf m' := by
  unfold queueOf
  rw [gateOf_put href hg]
  split <;> rfl

namespace Coherent

theorem put_same (h : Coherent s) {gate : ModelGate} (hrunning : gate.running = (s.heap g).running)
    (hqueue : gate.queue = (s.heap g).queue) : Coherent (s.put g gate) := by
  have hload : ∀ m, (s.put g gate).runningOf m = s.runningOf m ∧
      (s.put g gate).queueOf m = s.queueOf m := by
    intro m
    cases hg : s.gates.get m with
    | none =>
      unfold runningOf queueOf gateOf
      rw [show (s.put g gate).gates.get m = none from hg, hg]
      exact ⟨rfl, rfl⟩
    | some g' =>
      rw [runningOf_eq hg, queueOf_eq hg, runningOf_eq (s := s.put g gate) hg,
        queueOf_eq (s := s.put g gate) hg]
      show (if g' = g then gate else s.heap g').running = _ ∧
        (if g' = g then gate else s.heap g').queue = _
      split
      · rename_i heq
        rw [heq]
        exact ⟨hrunning, hqueue⟩
      · exact ⟨rfl, rfl⟩
  exact ⟨h.referenced.put g gate, fun m => (hload m).1.trans (h.running m),
    fun m => (hload m).2.trans (h.queue m), h.gate, h.order, h.fresh⟩

theorem delete (h : Coherent s) (hrunning : s.runningOf m = 0) (hqueue : s.queueOf m = []) :
    Coherent { s with gates := s.gates.delete m } := by
  have hgateOf : ∀ m', Semaphore.gateOf { s with gates := s.gates.delete m } m' =
      if m = m' then none else s.gateOf m' := by
    intro m'
    show ((s.gates.delete m).get m').map s.heap = _
    rw [get_delete]
    split <;> rfl
  have hload : ∀ m', Semaphore.runningOf { s with gates := s.gates.delete m } m' = s.runningOf m' ∧
      Semaphore.queueOf { s with gates := s.gates.delete m } m' = s.queueOf m' := by
    intro m'
    by_cases hm : m = m'
    · subst hm
      rw [hrunning, hqueue]
      unfold runningOf queueOf
      rw [hgateOf, if_pos rfl]
      exact ⟨rfl, rfl⟩
    · unfold runningOf queueOf
      rw [hgateOf, if_neg hm]
      exact ⟨rfl, rfl⟩
  refine ⟨h.referenced.delete m, fun m' => (hload m').1.trans (h.running m'),
    fun m' => (hload m').2.trans (h.queue m'), fun t ht => ?_, h.order, h.fresh⟩
  show (s.gates.delete m).get t.modelStr = _
  rw [get_delete, if_neg]
  · exact h.gate t ht
  · -- a waiting request is in the queue of its model
    intro hm
    have hmem : (⟨t.timer⟩ : QueueItem) ∈ s.waitersOf m :=
      mem_map.mpr ⟨t, mem_filter.mpr ⟨ht, decide_eq_true hm.symm⟩, rfl⟩
    rw [← h.queue, hqueue] at hmem
    exact absurd hmem not_mem_nil

end Coherent

theorem getGate_load (href : Referenced s) (modelStr : JsString) (max : Nat) (m : JsString) :
    (s.getGate modelStr max).2.runningOf m = s.runningOf m ∧
      (s.getGate modelStr max).2.queueOf m = s.queueOf m := by
  unfold getGate
  split
  · rename_i g hg
    rw [runningOf_put href hg, queueOf_put href hg]
    split
    · rename_i hm
      rw [hm, runningOf_eq hg, queueOf_eq hg]
      exact ⟨rfl, rfl⟩
    · exact ⟨rfl, rfl⟩
  · rename_i hnone
    have hgateOf : Semaphore.gateOf { s.put s.allocated { max := max } with
        gates := s.gates.set modelStr s.allocated, allocated := s.allocated + 1 } m =
        if modelStr = m then some { max := max } else s.gateOf m := by
      show ((s.gates.set modelStr s.allocated).get m).map
        (fun g => if g = s.allocated then { max := max } else s.heap g) = _
      rw [get_set]
      split
      · exact congrArg some (if_pos rfl)
      · cases hg : s.gates.get m with
        | none =>
          rw [gateOf, hg]
          rfl
        | some g =>
          rw [gateOf_eq hg]
          exact congrArg some (if_neg (Nat.ne_of_lt (href.allocated m g hg)))
    unfold runningOf queueOf
    rw [hgateOf]
    split
    · rename_i hm
      rw [gateOf, ← hm, hnone]
      exact ⟨rfl, rfl⟩
    · exact ⟨rfl, rfl⟩

theorem getGate_frame (max : Nat) (s : Semaphore) :
    (s.getGate modelStr max).2.waitTimers = s.waitTimers ∧
      (s.getGate modelStr max).2.nextTimer = s.nextTimer := by
  unfold getGate
  split <;> exact ⟨rfl, rfl⟩

theorem Coherent.getGate (h : Coherent s) (modelStr : JsString) (max : Nat) :
    Coherent (s.getGate modelStr max).2 := by
  obtain ⟨htimers, hnext⟩ := getGate_frame modelStr max s
  refine ⟨h.referenced.getGate modelStr max, fun m => ?_, fun m => ?_, fun t ht => ?_, ?_, ?_⟩
  · rw [(getGate_load h.referenced modelStr max m).1, outstanding, getGate_slots]
    exact h.running m
  · rw [(getGate_load h.referenced modelStr max m).2, waitersOf, htimers]
    exact h.queue m
  · rw [htimers] at ht
    have hg := h.gate t ht
    unfold Semaphore.getGate
    split
    · exact hg
    · rename_i hnone
      show (s.gates.set modelStr s.allocated).get t.modelStr = _
      rw [get_set, if_neg]
      · exact hg
      · intro hm
        rw [← hm, hnone] at hg
        cases hg
  · rw [htimers]
    exact h.order
  · rw [htimers, hnext]
    exact h.fresh

/-! ## Waiting requests -/

namespace Coherent

theorem timer_inj (h : Coherent s) {t t' : WaitTimer} (ht : t ∈ s.waitTimers)
    (ht' : t' ∈ s.waitTimers) (heq : t.timer = t'.timer) : t = t' := by
  have hnodup : (s.waitTimers.map WaitTimer.timer).Nodup := by
    rw [List.Nodup, pairwise_map]
    exact h.order.imp Nat.ne_of_lt
  exact inj_on_of_nodup_map hnodup ht ht' heq

theorem mem_queueOf (h : Coherent s) {item : QueueItem} :
    item ∈ s.queueOf m ↔ ∃ t ∈ s.waitTimers, t.modelStr = m ∧ item = ⟨t.timer⟩ := by
  rw [h.queue, waitersOf, mem_map]
  constructor
  · rintro ⟨t, ht, rfl⟩
    obtain ⟨ht, hm⟩ := mem_filter.mp ht
    exact ⟨t, ht, of_decide_eq_true hm, rfl⟩
  · rintro ⟨t, ht, hm, rfl⟩
    exact ⟨t, mem_filter.mpr ⟨ht, decide_eq_true hm⟩, rfl⟩

theorem queueOf_sorted (h : Coherent s) (m : JsString) :
    (s.queueOf m).Pairwise (fun a b => a.timer < b.timer) := by
  rw [h.queue, waitersOf, pairwise_map]
  exact h.order.filter _

theorem queueOf_nodup (h : Coherent s) (m : JsString) : (s.queueOf m).Nodup :=
  (h.queueOf_sorted m).imp fun hlt heq => by
    rw [heq] at hlt
    exact absurd hlt (Nat.lt_irrefl _)

variable {granted rest : List QueueItem}

theorem modelStr_of_granted (h : Coherent s) (hqueue : s.queueOf m = granted ++ rest)
    {t : WaitTimer} (ht : t ∈ s.waitTimers) (hgranted : (⟨t.timer⟩ : QueueItem) ∈ granted) :
    t.modelStr = m := by
  have hmem : (⟨t.timer⟩ : QueueItem) ∈ s.queueOf m := hqueue ▸ mem_append_left rest hgranted
  obtain ⟨t', ht', hm, heq⟩ := h.mem_queueOf.mp hmem
  rw [h.timer_inj ht ht' (congrArg QueueItem.timer heq)]
  exact hm

theorem not_mem_granted (h : Coherent s) (hqueue : s.queueOf m = granted ++ rest)
    {item : QueueItem} (hitem : item ∈ rest) : item ∉ granted := by
  have hnodup := h.queueOf_nodup m
  rw [hqueue] at hnodup
  exact fun hgranted => (nodup_append.mp hnodup).2.2 item hgranted item hitem rfl

theorem waitersOf_rest (h : Coherent s) (hqueue : s.queueOf m = granted ++ rest) (m' : JsString) :
    ((s.waitTimers.filter fun t => ¬ (⟨t.timer⟩ : QueueItem) ∈ granted).filter
        fun t => t.modelStr = m').map (fun t => (⟨t.timer⟩ : QueueItem)) =
      if m' = m then rest else s.waitersOf m' := by
  have hswap : (s.waitTimers.filter fun t => ¬ (⟨t.timer⟩ : QueueItem) ∈ granted).filter
      (fun t => t.modelStr = m') = (s.waitTimers.filter fun t => t.modelStr = m').filter
        fun t => ¬ (⟨t.timer⟩ : QueueItem) ∈ granted := by
    rw [filter_filter, filter_filter]
    exact filter_congr fun t _ => Bool.and_comm _ _
  split
  · rename_i hm
    subst hm
    have hmap : ((s.waitTimers.filter fun t => t.modelStr = m').filter
        fun t => ¬ (⟨t.timer⟩ : QueueItem) ∈ granted).map (fun t => (⟨t.timer⟩ : QueueItem)) =
          (s.waitersOf m').filter fun item => ¬ item ∈ granted := by
      rw [waitersOf, filter_map]
      rfl
    rw [hswap, hmap, ← h.queue, hqueue, filter_append]
    have hfirst : granted.filter (fun item => ¬ item ∈ granted) = [] := by
      refine filter_eq_nil_iff.mpr fun item hitem => ?_
      simpa using hitem
    have hrest : rest.filter (fun item => ¬ item ∈ granted) = rest := by
      refine filter_eq_self.mpr fun item hitem => ?_
      exact decide_eq_true (h.not_mem_granted hqueue hitem)
    rw [hfirst, hrest, nil_append]
  · rename_i hm
    rw [hswap, waitersOf]
    congr 1
    refine filter_eq_self.mpr fun t ht => decide_eq_true fun hgranted => ?_
    obtain ⟨ht, hmodel⟩ := mem_filter.mp ht
    have hmodel : t.modelStr = m' := of_decide_eq_true hmodel
    exact hm (hmodel.symm.trans (h.modelStr_of_granted hqueue ht hgranted))

theorem grant (h : Coherent s) (hg : s.gates.get m = some g) {gate : ModelGate}
    (hqueue : s.queueOf m = granted ++ gate.queue)
    (hrunning : gate.running = s.runningOf m + granted.length) :
    Coherent ((s.put g gate).resolve m granted) where
  referenced := ⟨h.referenced.allocated, h.referenced.apart⟩
  running := by
    intro m'
    have hput : ((s.put g gate).resolve m granted).runningOf m' =
        if m' = m then gate.running else s.runningOf m' := runningOf_put h.referenced hg gate m'
    have hcount : ((s.put g gate).resolve m granted).outstanding m' =
        s.outstanding m' + if m' = m then granted.length else 0 := by
      show (s.slots ++ granted.map fun _ => (⟨m, s.now, false⟩ : Slot)).countP _ = _
      rw [countP_append, map_const', countP_replicate]
      congr 1
      by_cases hm : m' = m
      · rw [if_pos hm, if_pos (by simp [hm])]
      · rw [if_neg hm, if_neg (by simp [Ne.symm hm])]
    rw [hput, hcount, ← h.running]
    split
    · rename_i hm
      rw [hm, hrunning]
    · rfl
  queue := by
    intro m'
    have hput : ((s.put g gate).resolve m granted).queueOf m' =
        if m' = m then gate.queue else s.queueOf m' := queueOf_put h.referenced hg gate m'
    rw [hput, h.queue]
    exact (h.waitersOf_rest hqueue m').symm
  gate := fun t ht => h.gate t (mem_filter.mp ht).1
  order := h.order.filter _
  fresh := fun t ht => h.fresh t (mem_filter.mp ht).1

end Coherent

/-- A step that grants requests of the queue of the model, and no other ones. -/
structure Drained (m : JsString) (granted : List QueueItem) (s s' : Semaphore) : Prop where
  coherent : Coherent s'
  queue : ∃ rest, s.queueOf m = granted ++ rest
  timers : s'.waitTimers = s.waitTimers.filter fun t => ¬ (⟨t.timer⟩ : QueueItem) ∈ granted
  slots : s'.slots.map Slot.modelStr = s.slots.map Slot.modelStr ++ granted.map fun _ => m
  max : granted ≠ [] → ∃ gate, s'.gateOf m = some gate ∧ gate.running ≤ gate.max

theorem Drained.none (h : Coherent s') (htimers : s'.waitTimers = s.waitTimers)
    (hslots : s'.slots.map Slot.modelStr = s.slots.map Slot.modelStr) : Drained [] [] s s' where
  coherent := h
  queue := ⟨_, rfl⟩
  timers := by
    rw [htimers]
    exact (filter_eq_self.mpr fun t _ => decide_eq_true not_mem_nil).symm
  slots := hslots.trans (append_nil _).symm
  max := fun hne => absurd rfl hne

variable {granted : List QueueItem}

theorem Drained.after (h : Drained m granted s' s'') (hqueue : s'.queueOf m = s.queueOf m)
    (htimers : s'.waitTimers = s.waitTimers)
    (hslots : s'.slots.map Slot.modelStr = s.slots.map Slot.modelStr) :
    Drained m granted s s'' where
  coherent := h.coherent
  queue := hqueue ▸ h.queue
  timers := htimers ▸ h.timers
  slots := hslots ▸ h.slots
  max := h.max

theorem Coherent.drainQueue (h : Coherent s) (m : JsString) :
    ∃ granted, Drained m granted s (s.drainQueue m) := by
  unfold Semaphore.drainQueue
  split
  · refine ⟨[], h, ⟨_, rfl⟩, ?_, (append_nil _).symm, fun hne => absurd rfl hne⟩
    exact (filter_eq_self.mpr fun t _ => decide_eq_true not_mem_nil).symm
  · rename_i g hg
    obtain ⟨hqueue, hrunning, -, hmax⟩ := ModelGate.drain_spec s.now (s.heap g) (s.heap g).queue
    generalize (s.heap g).drain s.now (s.heap g).queue = drained at *
    obtain ⟨gate, granted⟩ := drained
    dsimp only at *
    rw [← queueOf_eq hg] at hqueue
    rw [← runningOf_eq hg] at hrunning
    have hgrant := h.grant hg hqueue hrunning
    have hslots : ((s.put g gate).resolve m granted).slots.map Slot.modelStr =
        s.slots.map Slot.modelStr ++ granted.map fun _ => m := by
      show (s.slots ++ granted.map fun _ => _).map Slot.modelStr = _
      rw [map_append, map_map]
      rfl
    have hgateOf : ((s.put g gate).resolve m granted).gateOf m = some gate :=
      (gateOf_put h.referenced hg gate m).trans (if_pos rfl)
    refine ⟨granted, ?_⟩
    split
    · rename_i hidle
      have hload : ((s.put g gate).resolve m granted).runningOf m = 0 ∧
          ((s.put g gate).resolve m granted).queueOf m = [] := by
        rw [runningOf, queueOf, hgateOf]
        exact hidle
      refine ⟨hgrant.delete hload.1 hload.2, ⟨_, hqueue⟩, rfl, hslots, fun hne => ?_⟩
      -- the granted requests run
      have hpos := length_pos_iff.mpr hne
      omega
    · exact ⟨hgrant, ⟨_, hqueue⟩, rfl, hslots, fun hne => ⟨gate, hgateOf, hmax hne⟩⟩

/-! ## The steps that drain -/

namespace Coherent

theorem not_mem_gates (hrunning : s.runningOf m ≠ 0) : ∃ g, s.gates.get m = some g := by
  cases hg : s.gates.get m with
  | none =>
    rw [runningOf, gateOf, hg] at hrunning
    exact absurd rfl hrunning
  | some g => exact ⟨g, rfl⟩

section

variable (h : Coherent s)
include h

theorem giveBack {i : Nat} {slot : Slot} (hslot : s.slots[i]? = some slot)
    (hfree : slot.released = false) :
    ∃ granted, Drained slot.modelStr granted s
      ({ s with slots := s.slots.set i { slot with released := true } }.giveBack slot.modelStr) := by
  obtain ⟨hi, hget⟩ := List.getElem?_eq_some_iff.mp hslot
  have hcount : ∀ m, (s.slots.set i { slot with released := true }).countP
      (fun slot => slot.modelStr = m ∧ slot.released = false) =
        s.outstanding m - if m = slot.modelStr then 1 else 0 := by
    intro m
    rw [countP_set hi, hget, outstanding]
    by_cases hm : m = slot.modelStr
    · simp [hm, hfree]
    · simp [hm, Ne.symm hm]
  have hpos : 0 < s.outstanding slot.modelStr := by
    refine countP_pos_iff.mpr ⟨slot, mem_of_getElem? hslot, ?_⟩
    simp [hfree]
  rw [← h.running] at hpos
  obtain ⟨g, hg⟩ := not_mem_gates (Nat.ne_of_gt hpos)
  rw [runningOf_eq hg] at hpos
  have hback : Coherent (Semaphore.put g { s.heap g with running := (s.heap g).running - 1 }
      { s with slots := s.slots.set i { slot with released := true } }) := by
    refine ⟨⟨h.referenced.allocated, h.referenced.apart⟩, fun m => ?_, fun m => ?_, h.gate, h.order,
      h.fresh⟩
    · have hput := runningOf_put h.referenced hg
        { s.heap g with running := (s.heap g).running - 1 } m
      refine Eq.trans hput (Eq.trans ?_ (hcount m).symm)
      rw [← h.running]
      split
      · rename_i hm
        rw [hm, runningOf_eq hg]
      · rfl
    · have hput := queueOf_put h.referenced hg { s.heap g with running := (s.heap g).running - 1 } m
      refine Eq.trans hput (Eq.trans ?_ (h.queue m))
      split
      · rename_i hm
        rw [hm, queueOf_eq hg]
      · rfl
  have hslots : (s.slots.set i { slot with released := true }).map Slot.modelStr =
      s.slots.map Slot.modelStr := by
    rw [map_set, ← hget, ← getElem_map Slot.modelStr (h := by simpa using hi)]
    exact set_getElem_self _
  have hqueue : (s.put g { s.heap g with running := (s.heap g).running - 1 }).queueOf
      slot.modelStr = s.queueOf slot.modelStr := by
    rw [queueOf_put h.referenced hg, if_pos rfl, queueOf_eq hg]
  unfold Semaphore.giveBack
  rw [hg]
  dsimp only
  rw [if_pos hpos]
  split
  · rename_i hidle
    have hgateOf : Semaphore.gateOf (s.put g { s.heap g with running := (s.heap g).running - 1 })
        slot.modelStr = some { s.heap g with running := (s.heap g).running - 1 } :=
      (gateOf_put h.referenced hg _ _).trans (if_pos rfl)
    have hload : runningOf (s.put g { s.heap g with running := (s.heap g).running - 1 })
        slot.modelStr = 0 ∧ queueOf (s.put g { s.heap g with running := (s.heap g).running - 1 })
          slot.modelStr = [] := by
      rw [runningOf, queueOf, hgateOf]
      exact hidle
    have hgone := hback.delete (m := slot.modelStr) hload.1 hload.2
    refine ⟨[], hgone, ⟨_, rfl⟩, ?_, hslots.trans (append_nil _).symm, fun hne => absurd rfl hne⟩
    exact (filter_eq_self.mpr fun t _ => decide_eq_true not_mem_nil).symm
  · obtain ⟨granted, hdrained⟩ := hback.drainQueue slot.modelStr
    exact ⟨granted, hdrained.after hqueue rfl hslots⟩

theorem release (i : Nat) : ∃ m granted, Drained m granted s (s.release i) := by
  unfold Semaphore.release
  split
  · exact ⟨[], [], Drained.none h rfl rfl⟩
  · rename_i slot hslot
    split
    · exact ⟨[], [], Drained.none h rfl rfl⟩
    · rename_i hfree
      exact ⟨slot.modelStr, h.giveBack hslot (eq_false_of_ne_true hfree)⟩

theorem mark (modelStr : JsString) (cooldownMs : Int) :
    Drained [] [] s (s.markRateLimited modelStr cooldownMs) := by
  have hgate := h.getGate modelStr (((s.gateOf modelStr).map ModelGate.max).getD 3)
  have hframe := getGate_frame modelStr (((s.gateOf modelStr).map ModelGate.max).getD 3) s
  have hslots := getGate_slots modelStr (((s.gateOf modelStr).map ModelGate.max).getD 3) s
  unfold markRateLimited
  dsimp only
  generalize s.getGate modelStr (((s.gateOf modelStr).map ModelGate.max).getD 3) = found at *
  obtain ⟨g, s'⟩ := found
  have hput : Coherent (s'.put g { s'.heap g with rateLimitedUntil := some (s'.now + cooldownMs) }) :=
    hgate.put_same rfl rfl
  refine Drained.none ⟨⟨hput.referenced.allocated, hput.referenced.apart⟩, hput.running, hput.queue,
    hput.gate, hput.order, hput.fresh⟩ hframe.1 (congrArg _ hslots)

theorem endCooldown (t : CooldownTimer) : ∃ m granted, Drained m granted s (s.endCooldown t) := by
  unfold Semaphore.endCooldown
  split
  · have hput : Coherent (s.put t.gate { s.heap t.gate with rateLimitedUntil := none }) :=
      h.put_same rfl rfl
    obtain ⟨granted, hdrained⟩ := hput.drainQueue t.modelStr
    refine ⟨t.modelStr, granted, hdrained.after ?_ rfl rfl⟩
    rw [hput.queue, h.queue]
    rfl
  · exact ⟨[], [], Drained.none h rfl rfl⟩

theorem onCooldown (i : Nat) : ∃ m granted, Drained m granted s (s.onCooldown i) := by
  unfold Semaphore.onCooldown
  split
  · exact ⟨[], [], Drained.none h rfl rfl⟩
  · rename_i t _
    split
    · have hfired : Coherent { s with cooldownTimers := s.cooldownTimers.eraseIdx i } :=
        ⟨⟨h.referenced.allocated, h.referenced.apart⟩, h.running, h.queue, h.gate, h.order, h.fresh⟩
      obtain ⟨m, granted, hdrained⟩ := hfired.endCooldown t
      exact ⟨m, granted, hdrained.after rfl rfl rfl⟩
    · exact ⟨[], [], Drained.none h rfl rfl⟩

theorem onTimeout (timer : Nat) : Coherent (s.onTimeout timer).2 := by
  unfold Semaphore.onTimeout
  split
  · exact h
  · rename_i t hfind
    have ht : t ∈ s.waitTimers := mem_of_find?_eq_some hfind
    have hdue := find?_some hfind
    have htimer : t.timer = timer := (of_decide_eq_true hdue).1
    subst htimer
    have hg := h.gate t ht
    refine ⟨⟨h.referenced.allocated, h.referenced.apart⟩, fun m => ?_, fun m => ?_,
      fun t' ht' => h.gate t' (mem_filter.mp ht').1, h.order.filter _,
      fun t' ht' => h.fresh t' (mem_filter.mp ht').1⟩
    · have hput := runningOf_put h.referenced hg
        { s.heap t.gate with queue := (s.heap t.gate).queue.erase ⟨t.timer⟩ } m
      refine Eq.trans hput (Eq.trans ?_ (h.running m))
      split
      · rename_i hm
        rw [hm, runningOf_eq hg]
      · rfl
    · have hput := queueOf_put h.referenced hg
        { s.heap t.gate with queue := (s.heap t.gate).queue.erase ⟨t.timer⟩ } m
      refine Eq.trans hput ?_
      have hrest : waitersOf { s with
          waitTimers := s.waitTimers.filter fun t' => ¬ t'.timer = t.timer } m =
          (s.waitersOf m).filter fun item => ¬ item = ⟨t.timer⟩ := by
        rw [waitersOf, waitersOf, filter_map]
        congr 1
        rw [filter_filter, filter_filter]
        refine filter_congr fun t' _ => ?_
        simp only [Function.comp, QueueItem.mk.injEq]
        exact Bool.and_comm _ _
      refine Eq.trans ?_ hrest.symm
      rw [← h.queue]
      split
      · rename_i hm
        subst hm
        have hnodup := h.queueOf_nodup t.modelStr
        rw [queueOf_eq hg] at hnodup ⊢
        rw [hnodup.erase_eq_filter]
        refine filter_congr fun item _ => ?_
        rw [bne, Bool.eq_iff_iff]
        simp
      · rename_i hm
        refine (filter_eq_self.mpr fun item hitem => decide_eq_true ?_).symm
        rintro rfl
        obtain ⟨t', ht', hmodel, heq⟩ := h.mem_queueOf.mp hitem
        rw [h.timer_inj ht ht' (congrArg QueueItem.timer heq)] at hm
        exact hm hmodel.symm

end

end Coherent

/-! ## Requests -/

/-- A request is granted when its model runs fewer requests than it allows, outside of a
cooldown. -/
theorem grantedBy_acquire (h : Coherent s) (modelStr : JsString) (options : AcquireOptions) :
    s.grantedBy (.acquire modelStr options) =
      if s.runningOf modelStr < options.maxConcurrency ∧
          ∀ gate ∈ s.gateOf modelStr, cooling gate s.now = false
      then [⟨modelStr, s.nextTimer⟩] else [] := by
  have hload := (getGate_load h.referenced modelStr options.maxConcurrency modelStr).1
  have hget := getGate_get modelStr options.maxConcurrency s
  have hgate := getGate_heap modelStr options.maxConcurrency s
  have hnow := getGate_now modelStr options.maxConcurrency s
  have hfree : (((s.getGate modelStr options.maxConcurrency).2.heap
      (s.getGate modelStr options.maxConcurrency).1).hasSlot
        (s.getGate modelStr options.maxConcurrency).2.now).1 = true ↔
      s.runningOf modelStr < options.maxConcurrency ∧
        ∀ gate ∈ s.gateOf modelStr, cooling gate s.now = false := by
    rw [ModelGate.hasSlot_fst, ← hload, runningOf_eq hget, hnow]
    rcases hgate with ⟨hold, hg⟩ | ⟨hnew, hg⟩
    · rw [hold, gateOf_eq hg]
      refine and_congr Iff.rfl ?_
      exact ⟨fun hcool gate hgate => Option.some.inj hgate ▸ hcool, fun hall => hall (s.heap _) rfl⟩
    · rw [hnew, gateOf, hg]
      refine and_congr Iff.rfl ?_
      exact ⟨fun _ gate hgate => absurd hgate (by simp), fun _ => rfl⟩
  unfold grantedBy acquire
  dsimp only
  split
  · rename_i hgranted
    rw [if_pos]
    refine hfree.mp ?_
    by_contra hnot
    rw [if_neg hnot] at hgranted
    split at hgranted
    all_goals cases hgranted
  · rename_i hnot
    rw [if_neg]
    intro hcond
    exact hnot _ (by rw [if_pos (hfree.mpr hcond)])

theorem grantedBy_of_granted {modelStr : JsString} {options : AcquireOptions} {i : Nat}
    (h : (s.acquire modelStr options).1 = .granted i) :
    s.grantedBy (.acquire modelStr options) = [⟨modelStr, s.nextTimer⟩] := by
  simp [grantedBy, h]

theorem grantedBy_of_not_granted {modelStr : JsString} {options : AcquireOptions}
    (h : ∀ i, (s.acquire modelStr options).1 ≠ .granted i) :
    s.grantedBy (.acquire modelStr options) = [] := by
  simp only [grantedBy]

/-- A request that is granted has its slot within the limit, and one that is not granted waits
behind the others or is rejected. -/
theorem Coherent.acquire (h : Coherent s) (modelStr : JsString) (options : AcquireOptions) :
    Coherent (s.acquire modelStr options).2 ∧
      ((∃ i gate, (s.acquire modelStr options).1 = .granted i ∧
          (s.acquire modelStr options).2.slots.map Slot.modelStr =
            s.slots.map Slot.modelStr ++ [modelStr] ∧
          (s.acquire modelStr options).2.gateOf modelStr = some gate ∧ gate.running ≤ gate.max) ∨
        ((∀ i, (s.acquire modelStr options).1 ≠ .granted i) ∧
          (s.acquire modelStr options).2.slots = s.slots)) := by
  have hget := getGate_get modelStr options.maxConcurrency s
  have hslots := getGate_slots modelStr options.maxConcurrency s
  have hgate := h.getGate modelStr options.maxConcurrency
  unfold Semaphore.acquire
  generalize s.getGate modelStr options.maxConcurrency = found at *
  obtain ⟨g, s'⟩ := found
  dsimp only at *
  have hload := ModelGate.hasSlot_load (s'.heap g) s'.now
  have hmax := ModelGate.hasSlot_max (s'.heap g) s'.now
  have hfst := ModelGate.hasSlot_fst (s'.heap g) s'.now
  generalize (s'.heap g).hasSlot s'.now = slot at *
  obtain ⟨free, gate⟩ := slot
  have hput : Coherent (s'.put g gate) := hgate.put_same hload.1 hload.2
  have hheap : (s'.put g gate).gateOf modelStr = some gate :=
    (gateOf_put hgate.referenced hget gate modelStr).trans (if_pos rfl)
  have hrunning : (s'.put g gate).runningOf modelStr = gate.running := by
    rw [runningOf, hheap]
    rfl
  have hqueue : (s'.put g gate).queueOf modelStr = gate.queue := by
    rw [queueOf, hheap]
    rfl
  split
  · rename_i hfree
    have hlt := (hfst.mp hfree).1
    have hgateOf : ∀ m, ((s'.put g gate).put g { gate with running := gate.running + 1 }).gateOf m =
        if m = modelStr then some { gate with running := gate.running + 1 }
        else (s'.put g gate).gateOf m := gateOf_put (m := modelStr) hput.referenced hget _
    refine ⟨⟨⟨hput.referenced.allocated, hput.referenced.apart⟩, fun m => ?_, fun m => ?_, hput.gate,
      hput.order, hput.fresh⟩, Or.inl ⟨_, _, rfl, ?_, (hgateOf modelStr).trans (if_pos rfl), ?_⟩⟩
    · have hrun := runningOf_put hput.referenced hget { gate with running := gate.running + 1 } m
      refine Eq.trans hrun ?_
      show _ = (s'.slots ++ [(⟨modelStr, s'.now, false⟩ : Slot)]).countP _
      rw [countP_append, countP_singleton]
      have hold : (s'.put g gate).runningOf m = s'.slots.countP
        (fun slot => slot.modelStr = m ∧ slot.released = false) := hput.running m
      rw [← hold]
      by_cases hm : m = modelStr
      · rw [if_pos hm, if_pos (by simp [hm]), hm, hrunning]
      · rw [if_neg hm, if_neg (by simp [Ne.symm hm])]
        rfl
    · have hrun := queueOf_put hput.referenced hget { gate with running := gate.running + 1 } m
      refine Eq.trans hrun (Eq.trans ?_ (hput.queue m))
      split
      · rename_i hm
        rw [hm, hqueue]
      · rfl
    · show (s'.slots ++ [(⟨modelStr, s'.now, false⟩ : Slot)]).map Slot.modelStr = _
      rw [map_append, hslots]
      rfl
    · rw [← hload.1, ← hmax] at hlt
      exact hlt
  · split
    · refine ⟨?_, Or.inr ⟨fun i hi => (nomatch hi), ?_⟩⟩
      · split
        · rename_i hidle
          exact hput.delete (hrunning.trans hidle.1) (hqueue.trans hidle.2)
        · exact hput
      · rw [← hslots]
        split <;> rfl
    · refine ⟨⟨⟨hput.referenced.allocated, hput.referenced.apart⟩, fun m => ?_, fun m => ?_,
        fun t ht => ?_, ?_, fun t ht => ?_⟩, Or.inr ⟨fun i hi => (nomatch hi), hslots⟩⟩
      · have hrun := runningOf_put hput.referenced hget
          { gate with queue := gate.queue ++ [⟨s'.nextTimer⟩] } m
        refine Eq.trans hrun (Eq.trans ?_ (hput.running m))
        split
        · rename_i hm
          rw [hm, hrunning]
        · rfl
      · have hrun := queueOf_put hput.referenced hget
          { gate with queue := gate.queue ++ [⟨s'.nextTimer⟩] } m
        refine Eq.trans hrun ?_
        show _ = ((s'.waitTimers ++ [(⟨s'.nextTimer, s'.now + options.timeoutMs, g, modelStr,
          options.timeoutMs⟩ : WaitTimer)]).filter fun t => t.modelStr = m).map _
        rw [filter_append, map_append]
        have hold : (s'.put g gate).queueOf m = (s'.waitTimers.filter fun t => t.modelStr = m).map
          (fun t => (⟨t.timer⟩ : QueueItem)) := hput.queue m
        rw [← hold]
        by_cases hm : m = modelStr
        · rw [if_pos hm, hm, hqueue, filter_cons_of_pos (by simp)]
          rfl
        · rw [if_neg hm, filter_cons_of_neg (by simp [Ne.symm hm])]
          exact (append_nil _).symm
      · rcases mem_append.mp ht with hold | hnew
        · exact hput.gate t hold
        · rw [mem_singleton.mp hnew]
          exact hget
      · show (s'.waitTimers ++ [_]).Pairwise _
        rw [pairwise_append]
        refine ⟨hput.order, pairwise_singleton _ _, fun t ht t' ht' => ?_⟩
        rw [mem_singleton.mp ht']
        exact hput.fresh t ht
      · show t.timer < s'.nextTimer + 1
        rcases mem_append.mp ht with hold | hnew
        · exact Nat.lt_succ_of_lt (hput.fresh t hold)
        · rw [mem_singleton.mp hnew]
          exact Nat.lt_succ_self _

/-! ## Steps -/

/-- The requests that leave the timers are those that a drain grants. -/
theorem Drained.left_eq (hd : Drained m granted s s') : (s.waiting.filter fun r => r ∉ s'.waiting) =
      s.waiting.filter fun r => (⟨r.number⟩ : QueueItem) ∈ granted := by
  refine filter_congr fun r hr => ?_
  obtain ⟨t, ht, rfl⟩ := mem_map.mp hr
  rw [decide_eq_decide, waiting, hd.timers]
  constructor
  · intro hleft
    by_contra hkept
    exact hleft (mem_map.mpr ⟨t, mem_filter.mpr ⟨ht, decide_eq_true hkept⟩, rfl⟩)
  · intro hgranted hkept
    obtain ⟨t', ht', heq⟩ := mem_map.mp hkept
    obtain ⟨-, hnot⟩ := mem_filter.mp ht'
    refine of_decide_eq_true hnot ?_
    rw [show t'.timer = t.timer from congrArg Request.number heq]
    exact hgranted

theorem Drained.granted_eq (h : Coherent s) (hd : Drained m granted s s') :
    (s.waiting.filter fun r => (⟨r.number⟩ : QueueItem) ∈ granted).map Request.modelStr =
      granted.map fun _ => m := by
  obtain ⟨rest, hqueue⟩ := hd.queue
  have hfilter : (s.waitTimers.filter fun t => (⟨t.timer⟩ : QueueItem) ∈ granted) =
      (s.waitTimers.filter fun t => t.modelStr = m).filter
        fun t => (⟨t.timer⟩ : QueueItem) ∈ granted := by
    rw [filter_filter]
    refine filter_congr fun t ht => ?_
    rw [← Bool.decide_and, decide_eq_decide]
    exact ⟨fun hgranted => ⟨hgranted, h.modelStr_of_granted hqueue ht hgranted⟩, fun hboth => hboth.1⟩
  have hitems : (s.waitTimers.filter fun t => (⟨t.timer⟩ : QueueItem) ∈ granted).map
      (fun t => (⟨t.timer⟩ : QueueItem)) = granted := by
    have hmap : ((s.waitTimers.filter fun t => t.modelStr = m).filter
        fun t => (⟨t.timer⟩ : QueueItem) ∈ granted).map (fun t => (⟨t.timer⟩ : QueueItem)) =
          (s.waitersOf m).filter fun item => item ∈ granted := by
      rw [waitersOf, filter_map]
      rfl
    have hfirst : granted.filter (fun item => item ∈ granted) = granted :=
      filter_eq_self.mpr fun item hitem => decide_eq_true hitem
    have hrest : rest.filter (fun item => item ∈ granted) = [] := by
      refine filter_eq_nil_iff.mpr fun item hitem hgranted => ?_
      exact h.not_mem_granted hqueue hitem (of_decide_eq_true hgranted)
    rw [hfilter, hmap, ← h.queue, hqueue, filter_append, hfirst, hrest, append_nil]
  have hwaiting : (s.waiting.filter fun r => (⟨r.number⟩ : QueueItem) ∈ granted) =
      (s.waitTimers.filter fun t => (⟨t.timer⟩ : QueueItem) ∈ granted).map requestOf := by
    rw [waiting, filter_map]
    rfl
  have hmodels : granted.map (fun _ => m) =
      (s.waitTimers.filter fun t => (⟨t.timer⟩ : QueueItem) ∈ granted).map fun _ => m := by
    rw [map_const', map_const', ← congrArg List.length hitems, length_map]
  rw [hwaiting, map_map, hmodels]
  refine map_congr_left fun t ht => ?_
  obtain ⟨ht, hgranted⟩ := mem_filter.mp ht
  exact h.modelStr_of_granted hqueue ht (of_decide_eq_true hgranted)

theorem once_of (s : Semaphore) (event : Event) (i : Nat) (hevent : event = .release i)
    (hi : i < s.slots.length) (later : List Event) :
    (later.foldl step (s.step event)).step (.release i) = later.foldl step (s.step event) := by
  subst hevent
  exact release_once hi later

theorem Drained.fifoStep {event : Event} (h : Coherent s) (hd : Drained m granted s (s.step event))
    (hgrantedBy : s.grantedBy event = s.waiting.filter fun r => r ∉ (s.step event).waiting) :
    FifoStep s event := by
  have hgranted : s.grantedBy event =
      s.waiting.filter fun r => (⟨r.number⟩ : QueueItem) ∈ granted :=
    hgrantedBy.trans (hd.left_eq)
  obtain ⟨rest, hqueue⟩ := hd.queue
  have hmodel : ∀ r ∈ s.grantedBy event, (⟨r.number⟩ : QueueItem) ∈ granted ∧ r.modelStr = m := by
    intro r hr
    rw [hgranted] at hr
    obtain ⟨hwaits, hin⟩ := mem_filter.mp hr
    obtain ⟨t, ht, rfl⟩ := mem_map.mp hwaits
    have hin : (⟨t.timer⟩ : QueueItem) ∈ granted := of_decide_eq_true hin
    exact ⟨hin, h.modelStr_of_granted hqueue ht hin⟩
  refine ⟨hd.coherent.running, ?_, fun r hr => ?_, once_of s event, fun r hr w hw hmodels hlt => ?_⟩
  · rw [hd.slots, hgranted, hd.granted_eq h]
  · obtain ⟨hin, hm⟩ := hmodel r hr
    rw [hm]
    exact hd.max (ne_nil_of_mem hin)
  · obtain ⟨hin, hm⟩ := hmodel r hr
    rw [hgranted]
    refine mem_filter.mpr ⟨hw, decide_eq_true ?_⟩
    obtain ⟨t, ht, rfl⟩ := mem_map.mp hw
    have hwaits : (⟨t.timer⟩ : QueueItem) ∈ granted ++ rest := by
      rw [← hqueue]
      exact h.mem_queueOf.mpr ⟨t, ht, hmodels.trans hm, rfl⟩
    rcases mem_append.mp hwaits with hfirst | hlast
    · exact hfirst
    · -- behind a granted request, but with a smaller number
      have hsorted := h.queueOf_sorted m
      rw [hqueue] at hsorted
      have hgt := (pairwise_append.mp hsorted).2.2 _ hin _ hlast
      exact absurd hlt (Nat.lt_asymm hgt)

/-- A step is that of a FIFO semaphore, unless it is a request that does not wait its turn. -/
theorem Coherent.fifoStep_iff (h : Coherent s) (event : Event) :
    FifoStep s event ↔ WaitsItsTurn s event := by
  cases event with
  | release i =>
    obtain ⟨m, granted, hd⟩ := h.release i
    exact iff_of_true (Drained.fifoStep h hd rfl) trivial
  | markRateLimited modelStr cooldownMs =>
    exact iff_of_true (Drained.fifoStep h (h.mark modelStr cooldownMs) rfl) trivial
  | cooldown i =>
    obtain ⟨m, granted, hd⟩ := h.onCooldown i
    exact iff_of_true (Drained.fifoStep h hd rfl) trivial
  | advance ms =>
    have hlater : Coherent { s with now := s.now + ms } :=
      ⟨⟨h.referenced.allocated, h.referenced.apart⟩, h.running, h.queue, h.gate, h.order, h.fresh⟩
    exact iff_of_true (Drained.fifoStep h (Drained.none hlater rfl rfl) rfl) trivial
  | timeout timer =>
    refine iff_of_true ⟨(h.onTimeout timer).running, ?_, fun r hr => absurd hr not_mem_nil,
      once_of s _, fun r hr => absurd hr not_mem_nil⟩ trivial
    exact (congrArg (List.map Slot.modelStr) (onTimeout_slots timer s)).trans (append_nil _).symm
  | acquire modelStr options =>
    obtain ⟨hafter, houtcome⟩ := h.acquire modelStr options
    have hgranted := grantedBy_acquire h modelStr options
    have hturn : WaitsItsTurn s (.acquire modelStr options) ↔
        (s.runningOf modelStr < options.maxConcurrency ∧
          (∀ gate ∈ s.gateOf modelStr, cooling gate s.now = false) → s.queueOf modelStr = []) := by
      unfold WaitsItsTurn runningOf queueOf
      dsimp only
      cases s.gateOf modelStr with
      | none => exact iff_of_true (fun gate hgate => absurd hgate (by simp)) fun _ => rfl
      | some gate =>
        constructor
        · intro hwaits hcond
          exact hwaits gate rfl hcond.1 (hcond.2 gate rfl)
        · intro hcond gate' hgate hlt hcool
          cases Option.some.inj hgate
          exact hcond ⟨hlt, fun gate' hgate => Option.some.inj hgate ▸ hcool⟩
    have hslots : (s.step (.acquire modelStr options)).slots.map Slot.modelStr =
        s.slots.map Slot.modelStr ++
          (s.grantedBy (.acquire modelStr options)).map Request.modelStr := by
      show (s.acquire modelStr options).2.slots.map Slot.modelStr = _
      rcases houtcome with ⟨i, gate, hfst, hslots, -⟩ | ⟨hnot, hslots⟩
      · rw [hslots, grantedBy_of_granted hfst]
        rfl
      · rw [hslots, grantedBy_of_not_granted hnot]
        exact (append_nil _).symm
    have hmax : ∀ r ∈ s.grantedBy (.acquire modelStr options),
        ∃ gate, (s.step (.acquire modelStr options)).gateOf r.modelStr = some gate ∧
          gate.running ≤ gate.max := by
      intro r hr
      rcases houtcome with ⟨i, gate, hfst, -, hgate⟩ | ⟨hnot, -⟩
      · rw [grantedBy_of_granted hfst] at hr
        rw [mem_singleton.mp hr]
        exact ⟨gate, hgate⟩
      · rw [grantedBy_of_not_granted hnot] at hr
        exact absurd hr not_mem_nil
    rw [hturn]
    constructor
    · intro hstep hcond
      rw [if_pos hcond] at hgranted
      refine eq_nil_iff_forall_not_mem.mpr fun item hitem => ?_
      obtain ⟨t, ht, hm, -⟩ := h.mem_queueOf.mp hitem
      have hfresh := h.fresh t ht
      have hmem := hstep.fifo ⟨modelStr, s.nextTimer⟩ (hgranted ▸ mem_singleton_self _)
        (requestOf t) (mem_map.mpr ⟨t, ht, rfl⟩) hm hfresh
      rw [hgranted] at hmem
      have hnumber : t.timer = s.nextTimer :=
        congrArg Request.number (mem_singleton.mp hmem)
      exact absurd hnumber (Nat.ne_of_lt hfresh)
    · intro hempty
      refine ⟨hafter.running, hslots, hmax, once_of s _, fun r hr w hw hm _ => ?_⟩
      rw [hgranted] at hr
      split at hr
      · rename_i hcond
        obtain ⟨t, ht, rfl⟩ := mem_map.mp hw
        have hmem : (⟨t.timer⟩ : QueueItem) ∈ s.queueOf modelStr := by
          rw [mem_singleton.mp hr] at hm
          exact h.mem_queueOf.mpr ⟨t, ht, hm, rfl⟩
        rw [hempty hcond] at hmem
        exact absurd hmem not_mem_nil
      · exact absurd hr not_mem_nil

theorem Coherent.step (h : Coherent s) (event : Event) : Coherent (s.step event) := by
  cases event with
  | acquire modelStr options => exact (h.acquire modelStr options).1
  | release i =>
    obtain ⟨m, granted, hd⟩ := h.release i
    exact hd.coherent
  | timeout timer => exact h.onTimeout timer
  | markRateLimited modelStr cooldownMs => exact (h.mark modelStr cooldownMs).coherent
  | cooldown i =>
    obtain ⟨m, granted, hd⟩ := h.onCooldown i
    exact hd.coherent
  | advance ms =>
    exact ⟨⟨h.referenced.allocated, h.referenced.apart⟩, h.running, h.queue, h.gate, h.order, h.fresh⟩

theorem coherent_run (now : Nat) (events : List Event) : Coherent (run now events) :=
  Runs.foldl_invariant Coherent (fun _ event h => h.step event) (coherent_start now) events

/-- A run is that of a counting semaphore that grants in the order of arrival if and only if
every request of it that finds a free slot finds no request of its model waiting. -/
theorem fifo_semaphore_iff (now : Nat) (events : List Event) :
    (∀ before event, before ++ [event] <+: events → FifoStep (run now before) event) ↔
      ∀ before event, before ++ [event] <+: events → WaitsItsTurn (run now before) event :=
  forall_congr' fun before => forall_congr' fun event =>
    imp_congr Iff.rfl ((coherent_run now before).fifoStep_iff event)

/-- The cooldown of two waiting requests is over, and its timer has not fired yet.  A third
request is granted at once. -/
theorem not_fifo_overtaken :
    let before : List Event := [.markRateLimited (js "m") 1000, .acquire (js "m") {},
      .acquire (js "m") {}, .advance 1000]
    ¬ FifoStep (run 0 before) (.acquire (js "m") {}) := by
  intro before hstep
  have hgranted : (run 0 before).grantedBy (.acquire (js "m") {}) = [⟨js "m", 2⟩] := by decide
  have hwaiting : (⟨js "m", 0⟩ : Request) ∈ (run 0 before).waiting := by decide
  have hmem := hstep.fifo ⟨js "m", 2⟩ (hgranted ▸ mem_singleton_self _) ⟨js "m", 0⟩ hwaiting
    rfl (by decide)
  exact absurd hmem (by decide)

end Semaphore

end RedRouter.Services.RateLimit
