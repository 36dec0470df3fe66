import RedRouter.Lib.FifoClaims
import RedRouter.Lib.Runs
import RedRouter.Services.AccountSemaphore

/-!
# Safety and fairness of the account semaphore

The gates keep a counter and a queue each.  `Lawful` says what they are: the
counter of a key is the number of grants that hold it, and its queue is the
list of the waiting requests that need it, in order of arrival.  With it, a
request that is the first in all its queues has no earlier request before it
that shares a key, and the requests are served in turn (`FifoClaims.InTurn`).

Every operation is made of a few moves (`removeRequest`, `occupy`, `enqueue`,
`ensureGates`, and changes of the gates that touch neither counter nor queue),
and `drainQueues` of rounds.
-/

namespace RedRouter.Services.AccountSemaphore

open List

open FifoClaims (queueOf Leads InTurn)

/-! ## The load of a gate -/

/-- What a gate counts and who waits there. -/
def AccountGate.load (gate : AccountGate) : Nat × List Request := (gate.running, gate.queue)

def load (gates : JsMap JsString AccountGate) (key : JsString) : Nat × List Request :=
  ((gates.get key).map AccountGate.load).getD (0, [])

section Load

variable {gates : JsMap JsString AccountGate} {key k : JsString} {gate : AccountGate}

theorem load_of_get (hget : gates.get k = some gate) : load gates k = gate.load := by
  unfold load
  rw [hget]
  rfl

theorem load_set (key k : JsString) (gate : AccountGate) (gates : JsMap JsString AccountGate) :
    load (gates.set key gate) k = if key = k then gate.load else load gates k := by
  unfold load
  rw [JsMap.get_set]
  split <;> rfl

variable {f : AccountGate → AccountGate}

theorem load_modify (hf : ∀ gate, (f gate).load = gate.load) (key k : JsString)
    (gates : JsMap JsString AccountGate) : load (gates.modify key f) k = load gates k := by
  unfold load
  rw [JsMap.get_modify]
  split
  · rw [Option.map_map]
    congr 2
    exact funext hf
  · rfl

variable {keys : List JsString}

theorem load_modifyAll (change : Nat × List Request → Nat × List Request)
    (hf : ∀ gate, (f gate).load = change gate.load) (hkeys : keys.Nodup)
    (hnone : change (0, []) = (0, []) ∨ ∀ key ∈ keys, gates.get key ≠ none) :
    load (gates.modifyAll keys f) k = if k ∈ keys then change (load gates k) else load gates k := by
  unfold load
  rw [JsMap.get_modifyAll hkeys]
  split
  · rename_i hk
    cases hget : gates.get k with
    | none =>
      rcases hnone with hzero | hall
      · exact hzero.symm
      · exact absurd hget (hall k hk)
    | some gate => exact hf gate
  · rfl

theorem load_modifyAll_same (hf : ∀ gate, (f gate).load = gate.load) (hkeys : keys.Nodup) :
    load (gates.modifyAll keys f) k = load gates k := by
  rw [load_modifyAll id hf hkeys (.inl rfl)]
  split <;> rfl

theorem load_ensureGate (key k : JsString) (maxConcurrency : Nat)
    (gates : JsMap JsString AccountGate) :
    load (Semaphore.ensureGate key maxConcurrency gates) k = load gates k := by
  unfold Semaphore.ensureGate
  cases hget : gates.get key with
  | none =>
    rw [load_set]
    split
    · rename_i hk
      subst hk
      unfold load
      rw [hget]
      rfl
    · rfl
  | some gate =>
    rw [load_set]
    split
    · rename_i hk
      subst hk
      rw [load_of_get hget]
      rfl
    · rfl

theorem load_ensureGates (enabled : JsMap JsString Nat) (keys : List JsString) (k : JsString)
    (gates : JsMap JsString AccountGate) :
    load (Semaphore.ensureGates enabled keys gates) k = load gates k := by
  unfold Semaphore.ensureGates
  induction keys generalizing gates with
  | nil => rfl
  | cons key keys ih =>
    have hclear := load_modify (f := fun gate => { gate with cleanupTimer := false })
      (fun _ => rfl) key k (Semaphore.ensureGate key ((enabled.get key).getD 0) gates)
    rw [foldl_cons, ih, hclear, load_ensureGate]

theorem get_ensureGate_ne_none (maxConcurrency : Nat) (h : k = key ∨ gates.get k ≠ none) :
    (Semaphore.ensureGate key maxConcurrency gates).get k ≠ none := by
  have hset : ∀ gate, (gates.set key gate).get k ≠ none := by
    intro gate
    rw [JsMap.get_set]
    split
    · exact Option.some_ne_none gate
    · rename_i hne
      exact h.resolve_left fun heq => hne heq.symm
  unfold Semaphore.ensureGate
  split <;> exact hset _

theorem get_modify_ne_none (h : gates.get k ≠ none) : (gates.modify key f).get k ≠ none := by
  rw [JsMap.get_modify]
  split
  · simpa using h
  · exact h

theorem get_ensureGates_ne_none (enabled : JsMap JsString Nat) (h : k ∈ keys ∨ gates.get k ≠ none) :
    (Semaphore.ensureGates enabled keys gates).get k ≠ none := by
  induction keys generalizing gates with
  | nil => exact h.resolve_left not_mem_nil
  | cons key keys ih =>
    refine ih ?_
    rcases h with h | h
    · rcases mem_cons.mp h with rfl | h
      · exact .inr (get_modify_ne_none (get_ensureGate_ne_none _ (.inl rfl)))
      · exact .inl h
    · exact .inr (get_modify_ne_none (get_ensureGate_ne_none _ (.inr h)))

theorem scheduleIfIdle_load (gate : AccountGate) : gate.scheduleIfIdle.load = gate.load := by
  unfold AccountGate.scheduleIfIdle
  split <;> rfl

end Load

/-! ## Keys of a request -/

theorem enabledLimits_nodup (requirements : List Requirement) {enabled : JsMap JsString Nat}
    (h : enabled.keys.Nodup) : (enabledLimits requirements enabled).keys.Nodup := by
  induction requirements generalizing enabled with
  | nil => exact h
  | cons requirement requirements ih =>
    rw [enabledLimits]
    split
    · exact ih h
    · split
      · exact ih h
      · exact ih (JsMap.nodup_keys_set h)

theorem sortedKeys_nodup (requirements : List Requirement) :
    (sortedKeys (enabledLimits requirements [])).Nodup :=
  (perm_insertionSort _ _).nodup_iff.mpr (enabledLimits_nodup requirements nodup_nil)

/-! ## The law of the gates -/

namespace Semaphore

def holders (s : Semaphore) (key : JsString) : Nat :=
  s.grants.countP fun g => g.request.keys.contains key && !g.released

/-- What the gates keep, and the order in which requests are served. -/
structure Lawful (s : Semaphore) : Prop where
  gates : ∀ key, load s.gates key = (s.holders key, queueOf Request.keys s.queuedRequests key)
  inTurn : InTurn Request.keys Request.id s.queuedRequests (s.grants.map Grant.request)
  keys : ∀ r ∈ s.calls, r.keys.Nodup
  waiting : ∀ r ∈ s.queuedRequests, s.calls[r.id]? = some r
  granted : ∀ g ∈ s.grants, s.calls[g.request.id]? = some g.request
  once : (s.queuedRequests ++ s.grants.map Grant.request).Nodup

variable {s : Semaphore} {r : Request}

theorem lawful_start (now : Nat) : Lawful { now := now } where
  gates := fun _ => rfl
  inTurn := ⟨List.Pairwise.nil, fun _ hg => absurd hg not_mem_nil, List.Pairwise.nil⟩
  keys := fun _ hr => absurd hr not_mem_nil
  waiting := fun _ hr => absurd hr not_mem_nil
  granted := fun _ hg => absurd hg not_mem_nil
  once := nodup_nil

variable {gates : JsMap JsString AccountGate}

section

variable (h : Lawful s)
include h

theorem Lawful.setGates (hload : ∀ key, load gates key = load s.gates key) :
    Lawful { s with gates := gates } where
  gates := fun key => (hload key).trans (h.gates key)
  inTurn := h.inTurn
  keys := h.keys
  waiting := h.waiting
  granted := h.granted
  once := h.once

theorem Lawful.keys_nodup (hr : r ∈ s.queuedRequests) : r.keys.Nodup :=
  h.keys r (mem_of_getElem? (h.waiting r hr))

theorem Lawful.granted_keys_nodup {g : Grant} (hg : g ∈ s.grants) :
    g.request.keys.Nodup :=
  h.keys g.request (mem_of_getElem? (h.granted g hg))

theorem removeRequest_load (hr : r ∈ s.queuedRequests) (key : JsString) :
    load (s.removeRequest r).gates key =
      (s.holders key, queueOf Request.keys (s.queuedRequests.erase r) key) := by
  have hf : ∀ gate : AccountGate, (({ gate with queue := gate.queue.erase r }).scheduleIfIdle).load =
      (gate.load.1, gate.load.2.erase r) := fun gate => scheduleIfIdle_load _
  show load (s.gates.modifyAll r.keys _) key = _
  rw [load_modifyAll (fun l => (l.1, l.2.erase r)) hf (h.keys_nodup hr) (.inl rfl), h.gates key]
  have hnodup := h.inTurn.nodup
  split
  · rw [FifoClaims.queueOf_erase hnodup]
  · rename_i hkey
    rw [FifoClaims.queueOf_erase_of_not_mem hnodup hkey]

theorem Lawful.removeRequest (hr : r ∈ s.queuedRequests) : Lawful (s.removeRequest r) where
  gates := removeRequest_load h hr
  inTurn := h.inTurn.giveUp r
  keys := h.keys
  waiting := fun q hq => h.waiting q (mem_of_mem_erase hq)
  granted := h.granted
  once := h.once.sublist (erase_sublist.append (List.Sublist.refl _))

end

theorem get_of_canAcquire (hcan : s.canAcquire r = true) {key : JsString} (hkey : key ∈ r.keys) :
    ∃ gate, s.gates.get key = some gate ∧ gate.isOpen s.now = true ∧ gate.queue.head? = some r := by
  have hall := all_eq_true.mp hcan key hkey
  cases hget : s.gates.get key with
  | none =>
    rw [hget] at hall
    cases hall
  | some gate =>
    simp only [hget, Bool.and_eq_true, decide_eq_true_eq] at hall
    exact ⟨gate, rfl, hall.1, hall.2⟩

theorem canAcquireImmediately_gate {keys : List JsString} (hcan : s.canAcquireImmediately keys = true)
    {key : JsString} (hkey : key ∈ keys) :
    ∃ gate, s.gates.get key = some gate ∧ gate.queue = [] ∧ gate.isOpen s.now = true := by
  have hall := all_eq_true.mp hcan key hkey
  cases hget : s.gates.get key with
  | none =>
    rw [hget] at hall
    cases hall
  | some gate =>
    simp only [hget, Bool.and_eq_true, decide_eq_true_eq] at hall
    exact ⟨gate, rfl, hall.1, hall.2⟩

/-- A request that can be admitted is the first in the queues of its keys. -/
theorem Lawful.leads (h : Lawful s) (hcan : s.canAcquire r = true) :
    Leads Request.keys s.queuedRequests r := by
  intro key hkey
  obtain ⟨gate, hget, -, hhead⟩ := get_of_canAcquire hcan hkey
  have hload := h.gates key
  rw [load_of_get hget] at hload
  have hqueue : gate.queue = queueOf Request.keys s.queuedRequests key := congrArg Prod.snd hload
  rw [← hqueue]
  exact hhead

theorem holders_occupy (s : Semaphore) (r : Request) (key : JsString) :
    (s.occupy r).holders key = s.holders key + if key ∈ r.keys then 1 else 0 := by
  show (s.grants ++ [(⟨r, false⟩ : Grant)]).countP _ = _
  simp [holders]

theorem occupy_load (hkeys : r.keys.Nodup) (hpresent : ∀ key ∈ r.keys, gates.get key ≠ none)
    (key : JsString) :
    load (gates.modifyAll r.keys fun gate => { gate with running := gate.running + 1 }) key =
      ((load gates key).1 + if key ∈ r.keys then 1 else 0, (load gates key).2) := by
  have hf : ∀ gate : AccountGate, ({ gate with running := gate.running + 1 } : AccountGate).load =
      (gate.load.1 + 1, gate.load.2) := fun gate => rfl
  rw [load_modifyAll (fun l => (l.1 + 1, l.2)) hf hkeys (.inr hpresent)]
  split <;> rfl

theorem Lawful.admitWaiting (h : Lawful s) (hr : r ∈ s.queuedRequests)
    (hcan : s.canAcquire r = true) : Lawful ((s.removeRequest r).occupy r) where
  gates := by
    intro key
    have hpresent : ∀ key ∈ r.keys, (s.removeRequest r).gates.get key ≠ none := by
      intro key hkey
      obtain ⟨gate, hget, -⟩ := get_of_canAcquire hcan hkey
      show (s.gates.modifyAll r.keys _).get key ≠ none
      rw [JsMap.get_modifyAll (h.keys_nodup hr), if_pos hkey, hget]
      exact Option.some_ne_none _
    show load ((s.removeRequest r).gates.modifyAll r.keys _) key = _
    rw [occupy_load (h.keys_nodup hr) hpresent, removeRequest_load h hr, holders_occupy]
    rfl
  inTurn := by
    show InTurn _ _ (s.queuedRequests.erase r)
      ((s.grants ++ [(⟨r, false⟩ : Grant)]).map Grant.request)
    rw [map_append]
    exact h.inTurn.grant hr (h.leads hcan)
  keys := h.keys
  waiting := fun q hq => h.waiting q (mem_of_mem_erase hq)
  granted := by
    intro g hg
    rcases mem_append.mp hg with hg | hg
    · exact h.granted g hg
    · rw [mem_singleton.mp hg]
      exact h.waiting r hr
  once := by
    show (s.queuedRequests.erase r ++ (s.grants ++ [(⟨r, false⟩ : Grant)]).map Grant.request).Nodup
    have hperm : (s.queuedRequests ++ s.grants.map Grant.request).Perm (s.queuedRequests.erase r ++
          (s.grants ++ [(⟨r, false⟩ : Grant)]).map Grant.request) := by
      rw [map_append, ← append_assoc]
      refine ((perm_cons_erase hr).append_right _).trans ?_
      exact (perm_append_singleton r _).symm
    exact hperm.nodup_iff.mp h.once

/-- What every round of `drainQueues` keeps is kept by `drainQueues`. -/
theorem drainQueues_induction {P : Semaphore → Prop}
    (hround : ∀ s r, P s → r ∈ s.queuedRequests → s.canAcquire r = true →
      P ((s.removeRequest r).occupy r)) (h : P s) : P s.drainQueues := by
  unfold drainQueues
  generalize s.queuedRequests.length = rounds
  induction rounds generalizing s with
  | zero => exact h
  | succ rounds ih =>
    rw [drainRounds]
    cases hone : s.drainOne with
    | none => exact h
    | some s' =>
      obtain ⟨r, hfind, rfl⟩ := Option.map_eq_some_iff.mp hone
      exact ih (hround s r h (mem_of_find?_eq_some hfind) (find?_some hfind))

/-! ## Room for what is granted -/

/-- The key has a gate, and its running requests are within the limit. -/
def Within (s : Semaphore) (key : JsString) : Prop :=
  ∃ gate, s.gates.get key = some gate ∧ gate.running ≤ gate.maxConcurrency

/-- The state in the course of a step: the law holds, and the grants after the
first ones, which are those of the step, are within the limits. -/
structure Serving (first : Nat) (s : Semaphore) : Prop where
  lawful : Lawful s
  length : first ≤ s.grants.length
  within : ∀ g ∈ s.grants.drop first, g.released = false ∧ ∀ key ∈ g.request.keys, s.Within key

variable {first : Nat}

theorem Lawful.serving (h : Lawful s) : Serving s.grants.length s where
  lawful := h
  length := Nat.le_refl _
  within := by
    intro g hg
    rw [drop_length] at hg
    exact absurd hg not_mem_nil

/-- A change of the gates that leaves the loads and the keys within their
limits. -/
theorem Serving.setGates (h : Serving first s) (hload : ∀ key, load gates key = load s.gates key)
    (hwithin : ∀ key, s.Within key → ∃ gate, gates.get key = some gate ∧
      gate.running ≤ gate.maxConcurrency) : Serving first { s with gates := gates } where
  lawful := h.lawful.setGates hload
  length := h.length
  within := fun g hg => ⟨(h.within g hg).1, fun key hkey => hwithin key ((h.within g hg).2 key hkey)⟩

theorem scheduleIfIdle_limits (gate : AccountGate) : gate.scheduleIfIdle.running = gate.running ∧
      gate.scheduleIfIdle.maxConcurrency = gate.maxConcurrency := by
  unfold AccountGate.scheduleIfIdle
  split <;> exact ⟨rfl, rfl⟩

theorem within_admitWaiting (h : Lawful s) (hr : r ∈ s.queuedRequests)
    (hcan : s.canAcquire r = true) {key : JsString} (hkey : key ∈ r.keys ∨ s.Within key) :
    ((s.removeRequest r).occupy r).Within key := by
  have hnodup := h.keys_nodup hr
  have hget : ((s.removeRequest r).occupy r).gates.get key =
      if key ∈ r.keys then
        (s.gates.get key).map fun gate =>
          { ({ gate with queue := gate.queue.erase r } : AccountGate).scheduleIfIdle with
            running := ({ gate with queue := gate.queue.erase r } : AccountGate).scheduleIfIdle.running
              + 1 }
      else s.gates.get key := by
    show ((s.gates.modifyAll r.keys _).modifyAll r.keys _).get key = _
    rw [JsMap.get_modifyAll hnodup, JsMap.get_modifyAll hnodup]
    split
    · rw [Option.map_map]
      rfl
    · rfl
  by_cases hmem : key ∈ r.keys
  · obtain ⟨gate, hgate, hopen, -⟩ := get_of_canAcquire hcan hmem
    rw [if_pos hmem, hgate] at hget
    refine ⟨_, hget, ?_⟩
    obtain ⟨hrunning, hmax⟩ := scheduleIfIdle_limits { gate with queue := gate.queue.erase r }
    have hroom : gate.running < gate.maxConcurrency := by
      simpa using (Bool.and_eq_true_iff.mp hopen).2
    dsimp only at hrunning hmax ⊢
    omega
  · rw [if_neg hmem] at hget
    obtain ⟨gate, hgate, hle⟩ := hkey.resolve_left hmem
    exact ⟨gate, hget.trans hgate, hle⟩

theorem Serving.admitWaiting (h : Serving first s) (hr : r ∈ s.queuedRequests)
    (hcan : s.canAcquire r = true) : Serving first ((s.removeRequest r).occupy r) where
  lawful := h.lawful.admitWaiting hr hcan
  length := by
    show first ≤ (s.grants ++ [(⟨r, false⟩ : Grant)]).length
    have hlen := h.length
    rw [length_append]
    omega
  within := by
    intro g hg
    replace hg : g ∈ (s.grants ++ [(⟨r, false⟩ : Grant)]).drop first := hg
    rw [drop_append_of_le_length h.length] at hg
    rcases mem_append.mp hg with hg | hg
    · exact ⟨(h.within g hg).1, fun key hkey =>
        within_admitWaiting h.lawful hr hcan (.inr ((h.within g hg).2 key hkey))⟩
    · rw [mem_singleton.mp hg]
      exact ⟨rfl, fun key hkey => within_admitWaiting h.lawful hr hcan (.inl hkey)⟩

theorem Serving.drainQueues (h : Serving first s) : Serving first s.drainQueues :=
  drainQueues_induction (fun _ _ h hr hcan => h.admitWaiting hr hcan) h

/-! ## The operations -/

theorem step_giveUp (h : Lawful s) (hr : r ∈ s.queuedRequests) :
    Serving s.grants.length (s.giveUp r) :=
  (h.removeRequest hr).serving.drainQueues

theorem map_request_set {grants : List Grant} {i : Nat} {g : Grant} (hget : grants[i]? = some g) :
    (grants.set i { g with released := true }).map Grant.request = grants.map Grant.request := by
  rw [map_set]
  apply ext_getElem?
  intro j
  rw [getElem?_set]
  split
  · rename_i hij
    subst hij
    obtain ⟨hi, heq⟩ := List.getElem?_eq_some_iff.mp hget
    rw [if_pos (by simpa using hi), getElem?_map, hget]
    rfl
  · rfl

theorem Lawful.giveBack (h : Lawful s) {i : Nat} {g : Grant} (hget : s.grants[i]? = some g)
    (hrel : g.released = false) :
    Lawful { s with
      grants := s.grants.set i { g with released := true }
      gates := s.gates.modifyAll g.request.keys fun gate =>
        { gate with running := gate.running - 1 } } where
  gates := by
    intro key
    have hf : ∀ gate : AccountGate, ({ gate with running := gate.running - 1 } : AccountGate).load =
        (gate.load.1 - 1, gate.load.2) := fun gate => rfl
    have hmem : g ∈ s.grants := mem_of_getElem? hget
    obtain ⟨hi, hg⟩ := List.getElem?_eq_some_iff.mp hget
    show load (s.gates.modifyAll g.request.keys _) key = ((s.grants.set i _).countP _, _)
    rw [load_modifyAll (fun l => (l.1 - 1, l.2)) hf (h.granted_keys_nodup hmem) (.inl rfl),
      h.gates key, countP_set hi, hg]
    by_cases hkey : key ∈ g.request.keys
    · simp [hkey, hrel, holders]
    · simp [hkey, holders]
  inTurn := by
    show InTurn _ _ s.queuedRequests ((s.grants.set i _).map Grant.request)
    rw [map_request_set hget]
    exact h.inTurn
  keys := h.keys
  waiting := h.waiting
  granted := by
    intro g' hg'
    rcases mem_or_eq_of_mem_set hg' with hg' | rfl
    · exact h.granted g' hg'
    · exact h.granted g (mem_of_getElem? hget)
  once := by
    show (s.queuedRequests ++ (s.grants.set i _).map Grant.request).Nodup
    rw [map_request_set hget]
    exact h.once

theorem Serving.scheduleIfIdle (h : Serving first s) {keys : List JsString} (hkeys : keys.Nodup) :
    Serving first { s with gates := s.gates.modifyAll keys AccountGate.scheduleIfIdle } := by
  refine h.setGates (fun _ => load_modifyAll_same scheduleIfIdle_load hkeys) ?_
  rintro key ⟨gate, hget, hle⟩
  rw [JsMap.get_modifyAll hkeys, hget]
  split
  · obtain ⟨hrunning, hmax⟩ := scheduleIfIdle_limits gate
    exact ⟨_, rfl, by omega⟩
  · exact ⟨gate, rfl, hle⟩

theorem step_release (h : Lawful s) (i : Nat) : Serving s.grants.length (s.release i) := by
  unfold release
  split
  · exact h.serving
  rename_i g hget
  split
  · exact h.serving
  rename_i hrel
  have hback := (h.giveBack hget (by simpa using hrel)).serving
  simp only [length_set] at hback
  exact hback.drainQueues.scheduleIfIdle (h.granted_keys_nodup (mem_of_getElem? hget))

theorem Serving.cleanupGateIfIdle (h : Serving first s) (key : JsString) :
    Serving first (s.cleanupGateIfIdle key) := by
  unfold Semaphore.cleanupGateIfIdle
  split
  · exact h
  rename_i gate hget
  split
  · exact h
  rename_i hidle
  simp only [not_or, Nat.not_lt, Nat.le_zero_eq, not_not] at hidle
  have hload : load s.gates key = (0, []) := by
    rw [load_of_get hget, AccountGate.load, hidle.1, hidle.2.1]
  refine ⟨h.lawful.setGates ?_, h.length, ?_⟩
  · intro k
    unfold load at hload ⊢
    rw [JsMap.get_delete]
    split
    · rename_i hk
      rw [← hk, hload]
      rfl
    · rfl
  · intro g hg
    obtain ⟨hrel, hwithin⟩ := h.within g hg
    refine ⟨hrel, ?_⟩
    intro k hk
    obtain ⟨gate', hget', hle⟩ := hwithin k hk
    refine ⟨gate', ?_, hle⟩
    show (s.gates.delete key).get k = some gate'
    rw [JsMap.get_delete]
    split
    · -- A key that is held has a running request, so its gate is not idle.
      rename_i hkey
      subst hkey
      have hholds : 0 < s.holders key :=
        countP_pos_iff.mpr ⟨g, mem_of_mem_drop hg, by simp [hk, hrel]⟩
      have hzero := congrArg Prod.fst ((h.lawful.gates key).symm.trans hload)
      omega
    · exact hget'

theorem step_cleanup (h : Lawful s) (key : JsString) :
    Serving s.grants.length (s.onCleanup key) := by
  unfold onCleanup
  split
  · exact h.serving
  rename_i gate hget
  split
  · have hcleared : Lawful { s with
        gates := s.gates.set key { gate with cleanupTimer := false } } := by
      refine h.setGates ?_
      intro k
      rw [load_set]
      split
      · rename_i hk
        rw [← hk, load_of_get hget]
        rfl
      · rfl
    exact hcleared.serving.cleanupGateIfIdle key
  · exact h.serving

theorem step_markBlocked (h : Lawful s) (key : JsString) (until_ : Until) :
    Serving s.grants.length (s.markBlocked key until_) := by
  unfold markBlocked
  split
  · exact h.serving
  rename_i untilMs _
  split
  · exact h.serving
  · have hblocked : Lawful { s with
        gates := (ensureGate key (((s.gates.get key).map AccountGate.maxConcurrency).getD 1)
          s.gates).modify key fun gate =>
            { gate with cleanupTimer := false, blockedUntil := some untilMs } } := by
      refine h.setGates ?_
      intro k
      have hsame := load_modify
        (f := fun gate => { gate with cleanupTimer := false, blockedUntil := some untilMs })
        (fun _ => rfl) key k
        (ensureGate key (((s.gates.get key).map AccountGate.maxConcurrency).getD 1) s.gates)
      rw [hsame, load_ensureGate]
    exact hblocked.serving

theorem step_unblock (h : Lawful s) (key : JsString) : Serving s.grants.length (s.unblock key) := by
  unfold unblock
  split
  · exact h.serving
  rename_i gate hget
  have hopened : Lawful { s with gates := s.gates.set key { gate with blockedUntil := none } } := by
    refine h.setGates ?_
    intro k
    rw [load_set]
    split
    · rename_i hk
      rw [← hk, load_of_get hget]
      rfl
    · rfl
  exact hopened.serving.drainQueues.cleanupGateIfIdle key

/-! ## A new request -/

/-- A request that has just come: the last call, with gates for its keys. -/
structure Arrived (r : Request) (s : Semaphore) : Prop where
  lawful : Lawful s
  called : s.calls[r.id]? = some r
  last : r.id + 1 = s.calls.length
  present : ∀ key ∈ r.keys, s.gates.get key ≠ none
  fresh : ∀ q ∈ s.queuedRequests ++ s.grants.map Grant.request, q.id < r.id

theorem Lawful.id_lt (h : Lawful s) {q : Request}
    (hq : q ∈ s.queuedRequests ++ s.grants.map Grant.request) : q.id < s.calls.length := by
  rcases mem_append.mp hq with hq | hq
  · exact (List.getElem?_eq_some_iff.mp (h.waiting q hq)).1
  · obtain ⟨g, hg, rfl⟩ := mem_map.mp hq
    exact (List.getElem?_eq_some_iff.mp (h.granted g hg)).1

theorem Lawful.arrive (h : Lawful s) (hid : r.id = s.calls.length) (hkeys : r.keys.Nodup)
    (enabled : JsMap JsString Nat) :
    Arrived r { s with gates := ensureGates enabled r.keys s.gates, calls := s.calls ++ [r] } where
  lawful := by
    have hcalls : ∀ {q : Request}, s.calls[q.id]? = some q → (s.calls ++ [r])[q.id]? = some q := by
      intro q hq
      rw [getElem?_append_left (List.getElem?_eq_some_iff.mp hq).1]
      exact hq
    refine ⟨?_, h.inTurn, ?_, fun q hq => hcalls (h.waiting q hq),
      fun g hg => hcalls (h.granted g hg), h.once⟩
    · intro key
      exact (load_ensureGates enabled r.keys key s.gates).trans (h.gates key)
    · intro q hq
      rcases mem_append.mp hq with hq | hq
      · exact h.keys q hq
      · rw [mem_singleton.mp hq]
        exact hkeys
  called := by
    show (s.calls ++ [r])[r.id]? = some r
    rw [hid, getElem?_append_right (Nat.le_refl _), Nat.sub_self]
    rfl
  last := by
    show r.id + 1 = (s.calls ++ [r]).length
    rw [hid, length_append]
    rfl
  present := fun key hkey => get_ensureGates_ne_none enabled (.inl hkey)
  fresh := by
    intro q hq
    rw [hid]
    exact h.id_lt hq

namespace Arrived

theorem keys_nodup (h : Arrived r s) : r.keys.Nodup :=
  h.lawful.keys r (mem_of_getElem? h.called)

theorem not_mem (h : Arrived r s) : r ∉ s.queuedRequests ++ s.grants.map Grant.request :=
  fun hr => Nat.lt_irrefl _ (h.fresh r hr)

theorem enqueue (h : Arrived r s) : Lawful (s.enqueue r) where
  gates := by
    intro key
    have hf : ∀ gate : AccountGate, ({ gate with queue := gate.queue ++ [r] } : AccountGate).load =
        (gate.load.1, gate.load.2 ++ [r]) := fun gate => rfl
    show load (s.gates.modifyAll r.keys _) key =
      (s.holders key, queueOf Request.keys (s.queuedRequests ++ [r]) key)
    rw [load_modifyAll (fun l => (l.1, l.2 ++ [r])) hf h.keys_nodup (.inr h.present),
      h.lawful.gates key, FifoClaims.queueOf_concat]
    split
    · rfl
    · rw [append_nil]
  inTurn := by
    refine h.lawful.inTurn.enqueue ?_ ?_
    · exact fun q hq => h.fresh q (mem_append_left _ hq)
    · exact fun g hg => h.fresh g (mem_append_right _ hg)
  keys := h.lawful.keys
  waiting := by
    intro q hq
    rcases mem_append.mp hq with hq | hq
    · exact h.lawful.waiting q hq
    · rw [mem_singleton.mp hq]
      exact h.called
  granted := h.lawful.granted
  once := by
    show ((s.queuedRequests ++ [r]) ++ s.grants.map Grant.request).Nodup
    have hperm : ((s.queuedRequests ++ [r]) ++ s.grants.map Grant.request).Perm
        (r :: (s.queuedRequests ++ s.grants.map Grant.request)) := by
      rw [append_assoc]
      exact perm_middle
    rw [hperm.nodup_iff, nodup_cons]
    exact ⟨h.not_mem, h.lawful.once⟩

theorem admission (h : Arrived r s) (hcan : s.canAcquireImmediately r.keys = true) :
    Serving s.grants.length (s.occupy r) := by
  refine ⟨⟨?_, ?_, h.lawful.keys, h.lawful.waiting, ?_, ?_⟩, ?_, ?_⟩
  · intro key
    show load (s.gates.modifyAll r.keys _) key = _
    rw [occupy_load h.keys_nodup h.present, h.lawful.gates key, holders_occupy]
    rfl
  · show InTurn _ _ s.queuedRequests ((s.grants ++ [(⟨r, false⟩ : Grant)]).map Grant.request)
    rw [map_append]
    refine h.lawful.inTurn.admission ?_ ?_
    · intro key hkey
      obtain ⟨gate, hget, hqueue, -⟩ := canAcquireImmediately_gate hcan hkey
      have hload := h.lawful.gates key
      rw [load_of_get hget, AccountGate.load, hqueue] at hload
      exact (congrArg Prod.snd hload).symm
    · exact fun g hg => Nat.le_of_lt (h.fresh g (mem_append_right _ hg))
  · intro g hg
    rcases mem_append.mp hg with hg | hg
    · exact h.lawful.granted g hg
    · rw [mem_singleton.mp hg]
      exact h.called
  · show (s.queuedRequests ++ (s.grants ++ [(⟨r, false⟩ : Grant)]).map Grant.request).Nodup
    rw [map_append, ← append_assoc]
    have hperm : ((s.queuedRequests ++ s.grants.map Grant.request) ++ [r]).Perm
        (r :: (s.queuedRequests ++ s.grants.map Grant.request)) := perm_append_singleton r _
    rw [show ([(⟨r, false⟩ : Grant)].map Grant.request) = [r] from rfl, hperm.nodup_iff, nodup_cons]
    exact ⟨h.not_mem, h.lawful.once⟩
  · show s.grants.length ≤ (s.grants ++ [(⟨r, false⟩ : Grant)]).length
    rw [length_append]
    omega
  · intro g hg
    replace hg : g ∈ (s.grants ++ [(⟨r, false⟩ : Grant)]).drop s.grants.length := hg
    rw [drop_left, mem_singleton] at hg
    subst hg
    refine ⟨rfl, ?_⟩
    intro key hkey
    obtain ⟨gate, hget, -, hopen⟩ := canAcquireImmediately_gate hcan hkey
    refine ⟨{ gate with running := gate.running + 1 }, ?_, ?_⟩
    · show (s.gates.modifyAll r.keys _).get key = _
      rw [JsMap.get_modifyAll h.keys_nodup, if_pos hkey, hget]
      rfl
    · have hroom : gate.running < gate.maxConcurrency := by
        simpa using (Bool.and_eq_true_iff.mp hopen).2
      exact hroom

end Arrived

theorem step_acquireMany (h : Lawful s) (requirements : List Requirement)
    (options : AcquireOptions) : Serving s.grants.length (s.acquireMany requirements options).2 := by
  unfold acquireMany
  dsimp only
  split
  · exact h.serving
  split
  · exact h.serving
  generalize hr : (⟨s.calls.length, sortedKeys (enabledLimits requirements []), options.timeoutMs,
    s.now + options.timeoutMs, options.signal.isSome⟩ : Request) = r
  have hkeys : sortedKeys (enabledLimits requirements []) = r.keys := by rw [← hr]
  have hid : r.id = s.calls.length := by rw [← hr]
  have hnodup : r.keys.Nodup := hkeys ▸ sortedKeys_nodup requirements
  rw [hkeys]
  have harrived := h.arrive hid hnodup (enabledLimits requirements [])
  split
  · rename_i hcan
    exact harrived.admission hcan
  · split
    · exact harrived.lawful.serving
    · exact harrived.enqueue.serving.drainQueues

theorem step_timeout (h : Lawful s) (id : Nat) : Serving s.grants.length (s.onTimeout id).2 := by
  unfold onTimeout
  split
  · exact h.serving
  · rename_i r hfind
    exact step_giveUp h (mem_of_find?_eq_some hfind)

theorem step_abort (h : Lawful s) (id : Nat) : Serving s.grants.length (s.onAbort id) := by
  unfold onAbort
  split
  · exact h.serving
  · rename_i r hfind
    exact step_giveUp h (mem_of_find?_eq_some hfind)

theorem serving_step (h : Lawful s) (event : Event) : Serving s.grants.length (s.step event) := by
  cases event with
  | acquireMany requirements options => exact step_acquireMany h requirements options
  | release grant => exact step_release h grant
  | timeout id => exact step_timeout h id
  | abort id => exact step_abort h id
  | markBlocked key until_ => exact step_markBlocked h key until_
  | unblock key => exact step_unblock h key
  | cleanup key => exact step_cleanup h key
  | advance ms =>
    have hlater : Lawful { s with now := s.now + ms } :=
      { h with }
    exact hlater.serving

theorem lawful_run (now : Nat) (events : List Event) : Lawful (run now events) :=
  Runs.foldl_invariant Lawful (fun _ event h => (serving_step h event).lawful) (lawful_start now)
    events

/-! ## Repeated releases -/

def StaysReleased (s s' : Semaphore) : Prop :=
  ∀ (i : Nat) (g : Grant), s.grants[i]? = some g → g.released = true →
    ∃ g', s'.grants[i]? = some g' ∧ g'.released = true

theorem StaysReleased.refl (s : Semaphore) : StaysReleased s s := fun _ g hget hrel => ⟨g, hget, hrel⟩

theorem StaysReleased.trans {s' s'' : Semaphore} (h : StaysReleased s s')
    (h' : StaysReleased s' s'') : StaysReleased s s'' := by
  intro i g hget hrel
  obtain ⟨g', hget', hrel'⟩ := h i g hget hrel
  exact h' i g' hget' hrel'

theorem staysReleased_occupy (s : Semaphore) (r : Request) : StaysReleased s (s.occupy r) := by
  intro i g hget hrel
  refine ⟨g, ?_, hrel⟩
  show (s.grants ++ [(⟨r, false⟩ : Grant)])[i]? = some g
  rw [getElem?_append_left (List.getElem?_eq_some_iff.mp hget).1]
  exact hget

theorem staysReleased_drainQueues (s : Semaphore) : StaysReleased s s.drainQueues := by
  refine drainQueues_induction (P := fun s' => StaysReleased s s') ?_ (StaysReleased.refl s)
  intro s' r h _ _
  exact h.trans (staysReleased_occupy (s'.removeRequest r) r)

theorem release_released (s : Semaphore) {i : Nat} (hi : i < s.grants.length) :
    StaysReleased s (s.release i) ∧ ∃ g, (s.release i).grants[i]? = some g ∧ g.released = true := by
  unfold release
  rw [getElem?_eq_getElem hi]
  dsimp only
  split
  · rename_i hrel
    exact ⟨StaysReleased.refl s, _, getElem?_eq_getElem hi, hrel⟩
  · generalize hback : ({ s with
      grants := s.grants.set i { s.grants[i] with released := true }
      gates := s.gates.modifyAll s.grants[i].request.keys fun gate =>
        { gate with running := gate.running - 1 } } : Semaphore) = s'
    have hset : StaysReleased s s' := by
      subst hback
      intro j g hget hrel
      by_cases hij : i = j
      · subst hij
        exact ⟨{ s.grants[i] with released := true }, getElem?_set_self hi, rfl⟩
      · exact ⟨g, (getElem?_set_ne hij).trans hget, hrel⟩
    have hflag : s'.grants[i]? = some { s.grants[i] with released := true } := by
      subst hback
      exact getElem?_set_self hi
    have hdrain := staysReleased_drainQueues s'
    exact ⟨hset.trans hdrain, hdrain i _ hflag rfl⟩

theorem staysReleased_cleanupGateIfIdle (s : Semaphore) (key : JsString) :
    StaysReleased s (s.cleanupGateIfIdle key) := by
  unfold cleanupGateIfIdle
  split
  · exact StaysReleased.refl s
  · split <;> exact StaysReleased.refl s

theorem staysReleased_step (s : Semaphore) (event : Event) : StaysReleased s (s.step event) := by
  cases event with
  | acquireMany requirements options =>
    show StaysReleased s (s.acquireMany requirements options).2
    unfold acquireMany
    dsimp only
    split
    · exact StaysReleased.refl s
    split
    · exact StaysReleased.refl s
    split
    · exact fun i g hget hrel => staysReleased_occupy _ _ i g hget hrel
    · split
      · exact fun i g hget hrel => ⟨g, hget, hrel⟩
      · exact fun i g hget hrel => staysReleased_drainQueues _ i g hget hrel
  | release i =>
    by_cases hi : i < s.grants.length
    · exact (release_released s hi).1
    · show StaysReleased s (s.release i)
      unfold release
      rw [getElem?_eq_none (by omega)]
      exact StaysReleased.refl s
  | timeout id =>
    show StaysReleased s (s.onTimeout id).2
    unfold onTimeout
    split
    · exact StaysReleased.refl s
    · rename_i r _
      exact staysReleased_drainQueues (s.removeRequest r)
  | abort id =>
    show StaysReleased s (s.onAbort id)
    unfold onAbort
    split
    · exact StaysReleased.refl s
    · rename_i r _
      exact staysReleased_drainQueues (s.removeRequest r)
  | markBlocked key until_ =>
    show StaysReleased s (s.markBlocked key until_)
    unfold markBlocked
    split
    · exact StaysReleased.refl s
    · split <;> exact StaysReleased.refl s
  | unblock key =>
    show StaysReleased s (s.unblock key)
    unfold unblock
    split
    · exact StaysReleased.refl s
    · rename_i gate _
      have hdrain := staysReleased_drainQueues
        { s with gates := s.gates.set key { gate with blockedUntil := none } }
      exact fun i g hget hrel =>
        (hdrain.trans (staysReleased_cleanupGateIfIdle _ key)) i g hget hrel
  | cleanup key =>
    show StaysReleased s (s.onCleanup key)
    unfold onCleanup
    split
    · exact StaysReleased.refl s
    · split
      · exact fun i g hget hrel => staysReleased_cleanupGateIfIdle _ key i g hget hrel
      · exact StaysReleased.refl s
  | advance ms => exact StaysReleased.refl s

theorem staysReleased_run (s : Semaphore) (events : List Event) :
    StaysReleased s (events.foldl step s) :=
  Runs.foldl_invariant (fun s' => StaysReleased s s')
    (fun s' event h => h.trans (staysReleased_step s' event)) (StaysReleased.refl s) events

theorem release_of_released {i : Nat} {g : Grant} (hget : s.grants[i]? = some g)
    (hrel : g.released = true) : s.release i = s := by
  unfold release
  rw [hget]
  exact if_pos hrel

/-- In every run: the counter of each key is the number of grants that hold
it, its queue is the list of the waiting requests that need it in order of
arrival, and no request is granted while an earlier one that shares a key with
it waits (`Lawful`).  The grants of a step are within the limits of all their
keys after it, and a release that is repeated does nothing. -/
theorem admission_lawful (now : Nat) (events : List Event) : Lawful (run now events) ∧
    (∀ event, ∀ g ∈ ((run now events).step event).grants.drop (run now events).grants.length,
      ∀ key ∈ g.request.keys, ((run now events).step event).Within key) ∧
    (∀ (before after : List Event) (i : Nat), events = before ++ .release i :: after →
      i < (run now before).grants.length →
        (run now events).step (.release i) = run now events) := by
  refine ⟨lawful_run now events, ?_, ?_⟩
  · intro event g hg
    exact ((serving_step (lawful_run now events) event).within g hg).2
  · rintro before after i rfl hi
    obtain ⟨-, g, hget, hrel⟩ := release_released (run now before) hi
    have hrun : run now (before ++ .release i :: after) =
        after.foldl step ((run now before).release i) := by
      rw [run, foldl_append]
      rfl
    rw [hrun]
    obtain ⟨g', hget', hrel'⟩ := staysReleased_run ((run now before).release i) after i g hget hrel
    exact release_of_released hget' hrel'

end Semaphore

end RedRouter.Services.AccountSemaphore
