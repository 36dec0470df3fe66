import RedRouter.Services.AccountFairness

/-!
# Work conservation of the account semaphore

Every operation that frees a place ends with `drainQueues`, and after it no
waiting request can be admitted (`drainQueues_settled`).  Two things open a
gate without a drain: the clock, when it passes the end of a block, and a call
that raises the limit of a gate and is then rejected.

`KeepsSettled` says in the state before a step that it is not one of these.
In a run of such steps no waiting request can ever be admitted, so a request
that times out waits for a gate that is full, blocked, or has an earlier
request.
-/

namespace RedRouter.Services.AccountSemaphore.Semaphore

open List

open FifoClaims (queueOf)

variable {s s' : Semaphore} {r : Request}

/-- No waiting request can be admitted. -/
def Settled (s : Semaphore) : Prop := ∀ r ∈ s.queuedRequests, s.canAcquire r = false

/-! ## The drain -/

theorem drainRounds_settled {rounds : Nat} (h : s.queuedRequests.length ≤ rounds) :
    Settled (drainRounds rounds s) := by
  induction rounds generalizing s with
  | zero =>
    intro r hr
    have hpos := length_pos_of_mem hr
    rw [drainRounds] at hpos
    omega
  | succ rounds ih =>
    rw [drainRounds]
    cases hone : s.drainOne with
    | none =>
      intro r hr
      have hnone := find?_eq_none.mp (Option.map_eq_none_iff.mp hone) r hr
      simpa using hnone
    | some s' =>
      obtain ⟨r, hfind, rfl⟩ := Option.map_eq_some_iff.mp hone
      have hlen : (s.queuedRequests.erase r).length = s.queuedRequests.length - 1 :=
        length_erase_of_mem (mem_of_find?_eq_some hfind)
      refine ih ?_
      show (s.queuedRequests.erase r).length ≤ rounds
      omega

theorem drainQueues_settled (s : Semaphore) : Settled s.drainQueues :=
  drainRounds_settled (Nat.le_refl _)

/-! ## What a request needs -/

def admits (s : Semaphore) (r : Request) (key : JsString) : Bool :=
  match s.gates.get key with
  | none => false
  | some gate => gate.isOpen s.now && decide (gate.queue.head? = some r)

theorem canAcquire_eq (s : Semaphore) (r : Request) : s.canAcquire r = r.keys.all (s.admits r) := rfl

theorem Settled.mono (h : Settled s) (hqueued : ∀ r ∈ s'.queuedRequests, r ∈ s.queuedRequests)
    (hadmits : ∀ r ∈ s'.queuedRequests, ∀ key ∈ r.keys, s'.admits r key = true →
      s.admits r key = true) : Settled s' := by
  intro r hr
  by_contra hcan
  rw [Bool.not_eq_false, canAcquire_eq, all_eq_true] at hcan
  have hbefore : s.canAcquire r = true := by
    rw [canAcquire_eq, all_eq_true]
    exact fun key hkey => hadmits r hr key hkey (hcan key hkey)
  rw [h r (hqueued r hr)] at hbefore
  cases hbefore

/-- A change of the gates that leaves the queues and which gates are open. -/
theorem Settled.setGates (h : Settled s) {gates : JsMap JsString AccountGate}
    (hsame : ∀ key, (gates.get key).map (fun gate => (gate.isOpen s.now, gate.queue)) =
      (s.gates.get key).map fun gate => (gate.isOpen s.now, gate.queue)) :
    Settled { s with gates := gates } := by
  refine h.mono (fun _ hr => hr) ?_
  intro r _ key _ hadmits
  have hkey := hsame key
  unfold admits at hadmits ⊢
  cases hget : gates.get key with
  | none =>
    rw [hget] at hadmits
    cases hadmits
  | some gate =>
    rw [hget] at hkey hadmits
    obtain ⟨gate', hget', heq⟩ := Option.map_eq_some_iff.mp hkey.symm
    obtain ⟨hopen, hqueue⟩ := Prod.mk.inj heq
    rw [hget']
    dsimp only at hadmits ⊢
    rw [hopen, hqueue]
    exact hadmits

theorem scheduleIfIdle_same (gate : AccountGate) (now : Nat) :
    (gate.scheduleIfIdle.isOpen now, gate.scheduleIfIdle.queue) = (gate.isOpen now, gate.queue) := by
  unfold AccountGate.scheduleIfIdle
  split <;> rfl

theorem Settled.scheduleIfIdle (h : Settled s) {keys : List JsString} (hkeys : keys.Nodup) :
    Settled { s with gates := s.gates.modifyAll keys AccountGate.scheduleIfIdle } := by
  refine h.setGates ?_
  intro key
  rw [JsMap.get_modifyAll hkeys]
  split
  · rw [Option.map_map]
    exact congrArg (fun f => Option.map f (s.gates.get key))
      (funext fun gate => scheduleIfIdle_same gate s.now)
  · rfl

theorem Settled.cleanupGateIfIdle (h : Settled s) (key : JsString) :
    Settled (s.cleanupGateIfIdle key) := by
  unfold Semaphore.cleanupGateIfIdle
  split
  · exact h
  split
  · exact h
  refine h.mono (fun _ hr => hr) ?_
  intro r _ k _ hadmits
  unfold admits at hadmits ⊢
  rw [JsMap.get_delete] at hadmits
  split at hadmits
  · cases hadmits
  · rename_i hgone gate hget
    split at hget
    · cases hget
    · rw [hget]
      exact hadmits

theorem Settled.cleanup (h : Settled s) (key : JsString) : Settled (s.onCleanup key) := by
  unfold onCleanup
  split
  · exact h
  rename_i gate hget
  split
  · refine Settled.cleanupGateIfIdle ?_ key
    refine h.setGates ?_
    intro k
    rw [JsMap.get_set]
    split
    · rename_i hk
      rw [← hk, hget]
      rfl
    · rfl
  · exact h

theorem Settled.markBlocked (h : Settled s) (key : JsString) (until_ : Until) :
    Settled (s.markBlocked key until_) := by
  unfold Semaphore.markBlocked
  split
  · exact h
  rename_i untilMs _
  split
  · exact h
  refine h.mono (fun _ hr => hr) ?_
  intro r _ k _ hadmits
  unfold admits at hadmits ⊢
  rw [JsMap.get_modify] at hadmits
  by_cases hk : key = k
  · -- The gate is blocked now.
    rw [if_pos hk] at hadmits
    split at hadmits
    · cases hadmits
    · rename_i gate hget
      obtain ⟨gate', -, rfl⟩ := Option.map_eq_some_iff.mp hget
      have hblocked : (s.now : Int) < untilMs := by omega
      simp [AccountGate.isOpen, AccountGate.isBlocked, hblocked] at hadmits
  · rw [if_neg hk] at hadmits
    have hother : (ensureGate key (((s.gates.get key).map AccountGate.maxConcurrency).getD 1)
        s.gates).get k = s.gates.get k := by
      unfold ensureGate
      split <;> rw [JsMap.get_set, if_neg hk]
    rw [hother] at hadmits
    exact hadmits

/-! ## The condition on a step -/

/-- The request is the first in all its queues, and all its gates have room. -/
def ready (s : Semaphore) (r : Request) : Bool :=
  r.keys.all fun key =>
    match s.gates.get key with
    | none => false
    | some gate => decide (gate.running < gate.maxConcurrency) && decide (gate.queue.head? = some r)

def blockedAt (s : Semaphore) (t : Nat) (r : Request) : Bool :=
  r.keys.any fun key =>
    match s.gates.get key with
    | none => false
    | some gate => gate.isBlocked t

/-- The gates after a call has set its limits. -/
def withLimits (requirements : List Requirement) (s : Semaphore) : Semaphore :=
  { s with
    gates := ensureGates (enabledLimits requirements []) (sortedKeys (enabledLimits requirements []))
      s.gates }

/-- The call is rejected for a queue that is full, or because it does not
wait. -/
def refuses (requirements : List Requirement) (options : AcquireOptions) (s : Semaphore) : Bool :=
  let keys := sortedKeys (enabledLimits requirements [])
  !(s.withLimits requirements).canAcquireImmediately keys &&
    ((s.withLimits requirements).findQueueRejection keys options.maxQueueSize
      options.failFast).isSome

/-- In the state before it, the step opens no gate to a waiting request
without a drain: the clock does not pass the end of the last block of a
request that is ready, and a call that is rejected does not raise a limit that
a waiting request needs. -/
def KeepsSettled (s : Semaphore) : Event → Prop
  | .advance ms => ∀ r ∈ s.queuedRequests, s.ready r = true → s.blockedAt (s.now + ms) r = true
  | .acquireMany requirements options => s.refuses requirements options = true →
      ∀ r ∈ s.queuedRequests, (s.withLimits requirements).ready r = true →
        (s.withLimits requirements).blockedAt s.now r = true
  | _ => True

theorem canAcquire_of_blocked {t : Nat} (hblocked : s.blockedAt t r = true) :
    ({ s with now := t } : Semaphore).canAcquire r = false := by
  obtain ⟨key, hkey, hgate⟩ := any_eq_true.mp hblocked
  rw [canAcquire_eq, all_eq_false]
  refine ⟨key, hkey, ?_⟩
  unfold admits
  cases hget : s.gates.get key with
  | none => simp
  | some gate =>
    rw [hget] at hgate
    simp [AccountGate.isOpen, hgate]

theorem ready_of_canAcquire (hcan : s.canAcquire r = true) : s.ready r = true := by
  rw [canAcquire_eq, all_eq_true] at hcan
  unfold ready
  rw [all_eq_true]
  intro key hkey
  have hadmits := hcan key hkey
  unfold admits at hadmits
  split at hadmits
  · cases hadmits
  · unfold AccountGate.isOpen at hadmits
    simp only [Bool.and_eq_true] at hadmits ⊢
    exact ⟨hadmits.1.2, hadmits.2⟩

theorem settled_advance {ms : Nat} (hkeeps : s.KeepsSettled (.advance ms)) :
    Settled { s with now := s.now + ms } := by
  intro r hr
  by_contra hcan
  rw [Bool.not_eq_false] at hcan
  have hready : ({ s with now := s.now + ms } : Semaphore).ready r = true := ready_of_canAcquire hcan
  rw [canAcquire_of_blocked (hkeeps r hr hready)] at hcan
  cases hcan

/-- A call changes only the gates of its keys, and of those only the limit. -/
theorem get_ensureGates (enabled : JsMap JsString Nat) {keys : List JsString} {key : JsString}
    {gates : JsMap JsString AccountGate} (hkey : key ∉ keys) :
    (ensureGates enabled keys gates).get key = gates.get key := by
  unfold ensureGates
  induction keys generalizing gates with
  | nil => rfl
  | cons first keys ih =>
    rw [mem_cons, not_or] at hkey
    have hne : ¬ first = key := fun heq => hkey.1 heq.symm
    rw [foldl_cons, ih hkey.2, JsMap.get_modify, if_neg hne]
    unfold ensureGate
    split <;> rw [JsMap.get_set, if_neg hne]

/-- A call that is admitted at once leaves the keys of the waiting requests
alone: the queues of its own keys are empty. -/
theorem Settled.admission (h : Settled s) {s₁ : Semaphore} (hnow : s₁.now = s.now)
    (hqueued : s₁.queuedRequests = s.queuedRequests) {q : Request} (hkeys : q.keys.Nodup)
    (hother : ∀ key, key ∉ q.keys → s₁.gates.get key = s.gates.get key)
    (hcan : s₁.canAcquireImmediately q.keys = true) : Settled (s₁.occupy q) := by
  refine h.mono (fun r hr => hqueued ▸ hr) ?_
  intro r _ key _ hadmits
  unfold admits at hadmits ⊢
  by_cases hkey : key ∈ q.keys
  · obtain ⟨gate, hgate, hempty, -⟩ := canAcquireImmediately_gate hcan hkey
    have hget : (s₁.occupy q).gates.get key = some { gate with running := gate.running + 1 } := by
      show (s₁.gates.modifyAll q.keys _).get key = _
      rw [JsMap.get_modifyAll hkeys, if_pos hkey, hgate]
      rfl
    rw [hget] at hadmits
    simp [hempty] at hadmits
  · have hget : (s₁.occupy q).gates.get key = s.gates.get key := by
      show (s₁.gates.modifyAll q.keys _).get key = _
      rw [JsMap.get_modifyAll hkeys, if_neg hkey, hother key hkey]
    have hnow' : (s₁.occupy q).now = s.now := hnow
    rw [hget, hnow'] at hadmits
    exact hadmits

theorem Settled.acquireMany (h : Settled s) (requirements : List Requirement)
    (options : AcquireOptions) (hkeeps : s.KeepsSettled (.acquireMany requirements options)) :
    Settled (s.acquireMany requirements options).2 := by
  unfold Semaphore.acquireMany
  dsimp only
  split
  · exact h
  split
  · exact h
  generalize hr : (⟨s.calls.length, sortedKeys (enabledLimits requirements []), options.timeoutMs,
    s.now + options.timeoutMs, options.signal.isSome⟩ : Request) = q
  have hkeys : sortedKeys (enabledLimits requirements []) = q.keys := by rw [← hr]
  have hnodup : q.keys.Nodup := hkeys ▸ sortedKeys_nodup requirements
  split
  · rename_i hcan
    refine h.admission (by rfl) (by rfl) hnodup ?_ (hkeys ▸ hcan)
    intro key hkey
    show (ensureGates _ _ s.gates).get key = s.gates.get key
    rw [hkeys]
    exact get_ensureGates _ hkey
  · rename_i hcan
    split
    · rename_i error hrejected
      -- The call is rejected: by the condition its limits let nobody in.
      have hrefuses : s.refuses requirements options = true := by
        unfold refuses
        rw [Bool.and_eq_true, Bool.not_eq_true', ← Bool.not_eq_true]
        exact ⟨hcan, Option.isSome_iff_exists.mpr ⟨error, hrejected⟩⟩
      intro r hmem
      by_contra hwakes
      rw [Bool.not_eq_false] at hwakes
      have hready : (s.withLimits requirements).ready r = true := ready_of_canAcquire hwakes
      have hblocked := hkeeps hrefuses r hmem hready
      have hstays : ({ s.withLimits requirements with now := s.now } : Semaphore).canAcquire r =
          false := canAcquire_of_blocked hblocked
      exact Bool.false_ne_true (hstays.symm.trans hwakes)
    · exact drainQueues_settled _

theorem Settled.step (h : Settled s) (hlawful : Lawful s) {event : Event}
    (hkeeps : s.KeepsSettled event) : Settled (s.step event) := by
  cases event with
  | acquireMany requirements options => exact h.acquireMany requirements options hkeeps
  | release i =>
    show Settled (s.release i)
    unfold Semaphore.release
    split
    · exact h
    rename_i g hget
    split
    · exact h
    · exact (drainQueues_settled _).scheduleIfIdle
        (hlawful.granted_keys_nodup (mem_of_getElem? hget))
  | timeout id =>
    show Settled (s.onTimeout id).2
    unfold onTimeout
    split
    · exact h
    · exact drainQueues_settled _
  | abort id =>
    show Settled (s.onAbort id)
    unfold onAbort
    split
    · exact h
    · exact drainQueues_settled _
  | markBlocked key until_ => exact h.markBlocked key until_
  | unblock key =>
    show Settled (s.unblock key)
    unfold Semaphore.unblock
    split
    · exact h
    · exact (drainQueues_settled _).cleanupGateIfIdle key
  | cleanup key => exact h.cleanup key
  | advance ms => exact settled_advance hkeeps

theorem settled_run {now : Nat} {events : List Event}
    (h : Runs.Along Semaphore.step KeepsSettled { now := now } events) :
    Settled (run now events) := by
  have hboth : Lawful (run now events) ∧ Settled (run now events) :=
    Runs.along_invariant (fun s => Lawful s ∧ Settled s)
      (fun s event hs hkeeps => ⟨(serving_step hs.1 event).lawful, hs.2.step hs.1 hkeeps⟩)
      ⟨lawful_start now, fun _ hr => absurd hr not_mem_nil⟩ h
  exact hboth.2

/-- Why the key does not let the request in: its gate is at its maximum, or
blocked, or an earlier request waits for it. -/
def Obstructed (s : Semaphore) (r : Request) (key : JsString) : Prop :=
  ∃ gate, s.gates.get key = some gate ∧
    (gate.maxConcurrency ≤ gate.running ∨ gate.isBlocked s.now = true ∨
      ∃ q ∈ s.queuedRequests, q.id < r.id ∧ key ∈ q.keys)

theorem Lawful.obstructed (h : Lawful s) (hr : r ∈ s.queuedRequests)
    (hcan : s.canAcquire r = false) : ∃ key ∈ r.keys, s.Obstructed r key := by
  rw [canAcquire_eq, all_eq_false] at hcan
  obtain ⟨key, hkey, hclosed⟩ := hcan
  refine ⟨key, hkey, ?_⟩
  have hload := h.gates key
  have hmem : r ∈ queueOf Request.keys s.queuedRequests key := FifoClaims.mem_queueOf.mpr ⟨hr, hkey⟩
  unfold admits at hclosed
  cases hget : s.gates.get key with
  | none =>
    unfold load at hload
    rw [hget] at hload
    have hempty : queueOf Request.keys s.queuedRequests key = [] := (congrArg Prod.snd hload).symm
    rw [hempty] at hmem
    exact absurd hmem not_mem_nil
  | some gate =>
    rw [load_of_get hget] at hload
    have hqueue : gate.queue = queueOf Request.keys s.queuedRequests key := congrArg Prod.snd hload
    rw [hget] at hclosed
    refine ⟨gate, hget, ?_⟩
    by_cases hhead : gate.queue.head? = some r
    · simp only [hhead] at hclosed
      unfold AccountGate.isOpen at hclosed
      cases hblocked : gate.isBlocked s.now with
      | true => exact .inr (.inl rfl)
      | false =>
        rw [hblocked] at hclosed
        left
        simpa using hclosed
    · rw [hqueue] at hhead
      exact .inr (.inr (FifoClaims.exists_earlier h.inTurn.ascending hr hkey hhead))

/-- In a run whose steps open no gate to a waiting request without a drain, no
waiting request can be admitted in any state, and a request that is rejected
by its timeout has a key that is at its maximum, blocked, or waited for by an
earlier request. -/
theorem timeout_obstructed (now : Nat) (events : List Event)
    (h : Runs.Along Semaphore.step KeepsSettled { now := now } events) :
    (∀ r ∈ (run now events).queuedRequests, ∃ key ∈ r.keys, (run now events).Obstructed r key) ∧
      ∀ id error, ((run now events).onTimeout id).1 = some error →
        ∃ r ∈ (run now events).queuedRequests, r.id = id ∧ error = timeoutError r.timeoutMs r.keys ∧
          ∃ key ∈ r.keys, (run now events).Obstructed r key := by
  have hall : ∀ r ∈ (run now events).queuedRequests,
      ∃ key ∈ r.keys, (run now events).Obstructed r key :=
    fun r hr => (lawful_run now events).obstructed hr (settled_run h r hr)
  refine ⟨hall, ?_⟩
  intro id error htimeout
  unfold onTimeout at htimeout
  split at htimeout
  · cases htimeout
  · rename_i r hfind
    have hr := mem_of_find?_eq_some hfind
    have hid : r.id = id := by
      have hfound := find?_some hfind
      simp only [decide_eq_true_eq] at hfound
      exact hfound.1
    exact ⟨r, hr, hid, (Option.some.inj htimeout).symm, hall r hr⟩

instance (s : Semaphore) : (event : Event) → Decidable (s.KeepsSettled event)
  | .advance ms => inferInstanceAs (Decidable (∀ r ∈ s.queuedRequests, s.ready r = true →
      s.blockedAt (s.now + ms) r = true))
  | .acquireMany requirements options => inferInstanceAs (Decidable
      (s.refuses requirements options = true → ∀ r ∈ s.queuedRequests,
        (s.withLimits requirements).ready r = true →
          (s.withLimits requirements).blockedAt s.now r = true))
  | .release _ => isTrue trivial
  | .timeout _ => isTrue trivial
  | .abort _ => isTrue trivial
  | .markBlocked _ _ => isTrue trivial
  | .unblock _ => isTrue trivial
  | .cleanup _ => isTrue trivial

/-- A request that waits behind a running one until its timeout. -/
theorem timeout_obstructed_full :
    let events : List Event := [.acquireMany [⟨js "k", some 1⟩] {}, .acquireMany [⟨js "k", some 1⟩] {},
      .advance 30000]
    Runs.Along Semaphore.step KeepsSettled { now := 0 } events ∧
      ((run 0 events).onTimeout 1).1 = some (timeoutError 30000 [js "k"]) ∧
      ∃ r ∈ (run 0 events).queuedRequests, r.id = 1 ∧
        timeoutError 30000 [js "k"] = timeoutError r.timeoutMs r.keys ∧
        ∃ key ∈ r.keys, (run 0 events).Obstructed r key := by
  intro events
  have hkeeps : Runs.Along Semaphore.step KeepsSettled { now := 0 } events := by decide
  have htimeout : ((run 0 events).onTimeout 1).1 = some (timeoutError 30000 [js "k"]) := by decide
  exact ⟨hkeeps, htimeout, (timeout_obstructed 0 events hkeeps).2 1 _ htimeout⟩

/-- A block that ends wakes nobody: the request times out although its gate
has been free since then.  Neither does a limit that a rejected call raises. -/
theorem timeout_of_admissible :
    (let s := run 0 [.markBlocked (js "k") (.delay 1000), .acquireMany [⟨js "k", some 1⟩] {},
        .advance 30000];
      (s.onTimeout 0).1 = some (timeoutError 30000 [js "k"]) ∧
        ∀ r ∈ s.queuedRequests, s.canAcquire r = true) ∧
    (let s := run 0 [.acquireMany [⟨js "k", some 1⟩] {}, .acquireMany [⟨js "k", some 1⟩] {},
        .acquireMany [⟨js "k", some 2⟩] { failFast := true }, .advance 30000];
      (s.onTimeout 1).1 = some (timeoutError 30000 [js "k"]) ∧
        ∀ r ∈ s.queuedRequests, s.canAcquire r = true) := by
  decide

end RedRouter.Services.AccountSemaphore.Semaphore
