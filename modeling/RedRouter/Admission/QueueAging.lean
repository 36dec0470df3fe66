import RedRouter.Lib.Cyclic
import RedRouter.Admission.QueueInvariant

/-!
# Aged heads

A head that was passed over `maxUnfittableSkips` times is aged, and the
oldest aged head is the reserved one.  The lemmas here say what the two scans
of `dequeue` find: a reserved head is aged, without a reserved head no head is
aged, and the scan for a fitting head passes over every place before the one
it takes.  Only heads are ever passed over (`TailsFresh`).
-/

namespace RedRouter.Admission

open List JsMap

/-! ## Runs of the fair cost queue

A run of the queue is a list of operations on a new queue.  Its log keeps,
next to the queue, the entries that were accepted, the ones that left through
`dequeue` and `drain`, in the order in which they left, and the ones that
`removeById` took out.

`waiting` is the bucket of one tenant.
-/

/-- One operation on a queue. -/
inductive QueueOp (T : Type) where
  | enqueue (entry : QueueEntry T)
  | dequeue (maxCost : Nat)
  | removeById (id : Nat)
  | drain

structure QueueLog (T : Type) where
  queue : FairCostQueue T
  accepted : List (QueueEntry T) := []
  left : List (QueueEntry T) := []
  removed : List (QueueEntry T) := []

namespace QueueLog

variable {T : Type}

def step (r : QueueLog T) : QueueOp T → QueueLog T
  | .enqueue entry =>
      match r.queue.enqueue entry with
      | some q => { r with queue := q, accepted := r.accepted ++ [entry.fresh] }
      | none => r
  | .dequeue maxCost =>
      match r.queue.dequeue maxCost with
      | (some entry, q) => { r with queue := q, left := r.left ++ [entry] }
      | (none, q) => { r with queue := q }
  | .removeById id =>
      match r.queue.removeById id with
      | (some entry, q) => { r with queue := q, removed := r.removed ++ [entry.fresh] }
      | (none, q) => { r with queue := q }
  | .drain =>
      let (out, q) := r.queue.drain
      { r with queue := q, left := r.left ++ out }

def run (maxCount maxCost : Nat) (ops : List (QueueOp T)) : QueueLog T :=
  ops.foldl step { queue := { maxCount := maxCount, maxCost := maxCost } }

end QueueLog

namespace FairCostQueue

variable {T : Type}

/-! ## The bucket of a tenant -/

/-- The entries of a tenant among some entries. -/
def ofTenant (tenant : JsString) (es : List (QueueEntry T)) : List (QueueEntry T) :=
  es.filter (fun e => e.tenantKey = tenant)

/-- The waiting entries of a tenant, without their pass-overs. -/
def waiting (q : FairCostQueue T) (tenant : JsString) : List (QueueEntry T) :=
  ((q.buckets.get tenant).getD []).map QueueEntry.fresh

@[simp] theorem ofTenant_append (tenant : JsString) (xs ys : List (QueueEntry T)) :
    ofTenant tenant (xs ++ ys) = ofTenant tenant xs ++ ofTenant tenant ys := by
  simp [ofTenant]

theorem ofTenant_cons (tenant : JsString) (e : QueueEntry T) (es : List (QueueEntry T)) :
    ofTenant tenant (e :: es) = ofTenant tenant [e] ++ ofTenant tenant es := by
  rw [← ofTenant_append]
  rfl

@[simp] theorem ofTenant_self (e : QueueEntry T) : ofTenant e.tenantKey [e] = [e] := by
  simp [ofTenant]

theorem ofTenant_other {tenant : JsString} {e : QueueEntry T} (h : e.tenantKey ≠ tenant) :
    ofTenant tenant [e] = [] := by
  simp [ofTenant, h]

theorem waiting_push (q : FairCostQueue T) (entry : QueueEntry T) (tenant : JsString) :
    (q.push entry).waiting tenant = q.waiting tenant ++ ofTenant tenant [entry.fresh] := by
  have hkey : entry.fresh.tenantKey = entry.tenantKey := rfl
  unfold push waiting
  by_cases h : entry.tenantKey = tenant
  · subst h
    rw [← hkey, ofTenant_self, hkey]
    cases hget : q.buckets.get entry.tenantKey with
    | some bucket => simp [get_set]
    | none => simp [get_set]
  · rw [ofTenant_other (hkey ▸ h), append_nil]
    cases hget : q.buckets.get entry.tenantKey with
    | some bucket => simp [get_set, h]
    | none => simp [get_set, h]

theorem waiting_passOver (q : FairCostQueue T) (idx : Nat) (tenant : JsString) :
    (q.passOver idx).waiting tenant = q.waiting tenant := by
  unfold passOver
  cases hidx : q.order[idx]? with
  | none => rfl
  | some other =>
    dsimp only
    cases hget : q.buckets.get other with
    | none => rfl
    | some bucket =>
      unfold waiting
      by_cases h : other = tenant
      · subst h
        cases bucket with
        | nil => simp [get_set, hget]
        | cons e rest => simp [get_set, hget, QueueEntry.passedOver, QueueEntry.fresh]
      · simp [get_set, h]

theorem waiting_foldl_passOver (q : FairCostQueue T) (bypassed : List Nat) (tenant : JsString) :
    (bypassed.foldl passOver q).waiting tenant = q.waiting tenant := by
  induction bypassed generalizing q with
  | nil => rfl
  | cons idx rest ih =>
    rw [foldl_cons, ih, waiting_passOver]

variable {q : FairCostQueue T}

theorem waiting_takeAt (hwf : Wf q) {idx : Nat} {head : QueueEntry T}
    (hhead : q.headAt idx = some head) (tenant : JsString) :
    q.waiting tenant = ofTenant tenant [head.fresh] ++ (q.takeAt idx).2.waiting tenant := by
  obtain ⟨other, rest, hidx, hget⟩ := headAt_eq_some hhead
  have hkey : head.fresh.tenantKey = other :=
    (good_of_get hwf hget).tenant head mem_cons_self
  unfold takeAt waiting
  rw [hidx]
  dsimp only
  rw [hget]
  by_cases h : other = tenant
  · subst h
    rw [← hkey, ofTenant_self, hkey, hget]
    cases rest with
    | nil => simp [get_delete]
    | cons next rest => simp [get_set]
  · rw [ofTenant_other (hkey ▸ h), nil_append]
    cases rest with
    | nil => simp [get_delete, h]
    | cons next rest => simp [get_set, h]

variable {entry : QueueEntry T}

/-- An entry that `dequeue` returns was the head of a bucket, after some
pass-overs. -/
theorem dequeue_takes {q' : FairCostQueue T} (hwf : Wf q) {maxCost : Nat}
    (h : q.dequeue maxCost = (some entry, q')) :
    ∃ (bypassed : List Nat) (idx : Nat) (head : QueueEntry T),
      (bypassed.foldl passOver q).headAt idx = some head ∧ head.fresh = entry ∧
      (bypassed.foldl passOver q).takeAt idx = (some entry, q') := by
  have hdequeues := dequeue_dequeues hwf maxCost
  rw [h] at hdequeues
  cases hdequeues with
  | @taken bypassed idx head _ hhead _ htake => exact ⟨bypassed, idx, head, hhead, rfl, htake⟩

theorem waiting_dequeue {q' : FairCostQueue T} (hwf : Wf q) {maxCost : Nat}
    (h : q.dequeue maxCost = (some entry, q')) (tenant : JsString) :
    q.waiting tenant = ofTenant tenant [entry] ++ q'.waiting tenant := by
  obtain ⟨bypassed, idx, head, hhead, rfl, htake⟩ := dequeue_takes hwf h
  have hwf' := (foldl_passOver_spec hwf bypassed).1
  have hwait := waiting_takeAt hwf' hhead tenant
  rw [waiting_foldl_passOver, htake] at hwait
  exact hwait

theorem waiting_removeAt {ti idx : Nat} {other : JsString} {bucket : List (QueueEntry T)}
    (hget : q.buckets.get other = some bucket) (tenant : JsString) :
    ((q.removeAt ti other bucket idx entry).waiting tenant).Sublist (q.waiting tenant) := by
  unfold removeAt waiting
  dsimp only
  by_cases h : other = tenant
  · subst h
    rw [hget, Option.getD_some]
    split
    · simp [get_delete]
    · simp only [get_set]
      exact (eraseIdx_sublist ..).map _
  · split
    · simp [get_delete, h]
    · simp [get_set, h]

theorem waiting_removeById (q : FairCostQueue T) (id : Nat) (tenant : JsString) :
    ((q.removeById id).2.waiting tenant).Sublist (q.waiting tenant) := by
  unfold removeById
  rcases removeFrom_finds q id q.order 0 rfl with hnone | hfound
  · rw [hnone]
  · obtain ⟨place, other, bucket, idx, entry, -, hget, -, -, hrem⟩ := hfound
    rw [hrem]
    exact waiting_removeAt hget tenant

theorem waiting_drainLoop (hwf : Wf q) (fuel : Nat) (tenant : JsString) : q.waiting tenant =
      ofTenant tenant (drainLoop fuel q).1 ++ (drainLoop fuel q).2.waiting tenant := by
  induction fuel generalizing q with
  | zero => rfl
  | succ fuel ih =>
    rw [drainLoop]
    rcases dequeue_cases hwf maxSafeInteger with hnone | ⟨entry, q', hdeq, hwf', -⟩
    · rw [hnone]
      rfl
    · rw [hdeq, waiting_dequeue hwf hdeq, ih hwf']
      rw [ofTenant_cons tenant entry (drainLoop fuel q').1, append_assoc]

theorem limits_drainLoop (hwf : Wf q) (fuel : Nat) :
    (drainLoop fuel q).2.maxCount = q.maxCount ∧ (drainLoop fuel q).2.maxCost = q.maxCost := by
  induction fuel generalizing q with
  | zero => exact ⟨rfl, rfl⟩
  | succ fuel ih =>
    rw [drainLoop]
    rcases dequeue_cases hwf maxSafeInteger with hnone | ⟨entry, q', hdeq, hwf', -, -, hcount, hcost⟩
    · rw [hnone]
      exact ⟨rfl, rfl⟩
    · rw [hdeq]
      obtain ⟨hcount', hcost'⟩ := ih hwf'
      exact ⟨hcount'.trans hcount, hcost'.trans hcost⟩

theorem waiting_drain (hwf : Wf q) (tenant : JsString) :
    q.waiting tenant = ofTenant tenant q.drain.1 ++ q.drain.2.waiting tenant :=
  waiting_drainLoop hwf q.entries.length tenant

end FairCostQueue

/-! ## The invariant of a run -/

namespace QueueLog

open FairCostQueue

variable {T : Type}

/-- The queue is well formed and keeps its limits, no entry is lost or
doubled, and what left of a tenant and what still waits is in the order in
which it was accepted. -/
structure Sound (maxCount maxCost : Nat) (r : QueueLog T) : Prop where
  wf : r.queue.Wf
  maxCount_eq : r.queue.maxCount = maxCount
  maxCost_eq : r.queue.maxCost = maxCost
  conserved : r.accepted.Perm (r.left ++ r.removed ++ r.queue.entries)
  fifo : ∀ tenant, (ofTenant tenant r.left ++ r.queue.waiting tenant).Sublist
    (ofTenant tenant r.accepted)

theorem sound_empty (maxCount maxCost : Nat) :
    Sound maxCount maxCost ({ queue := { maxCount := maxCount, maxCost := maxCost } } : QueueLog T) where
  wf := wf_empty maxCount maxCost
  maxCount_eq := rfl
  maxCost_eq := rfl
  conserved := List.Perm.refl _
  fifo := fun _ => List.Sublist.refl _

variable {maxCount maxCost : Nat} {r : QueueLog T}

section

variable (h : Sound maxCount maxCost r)
include h

theorem sound_enqueue (entry : QueueEntry T) :
    Sound maxCount maxCost (r.step (.enqueue entry)) := by
  unfold step FairCostQueue.enqueue
  dsimp only
  by_cases haccept : r.queue.canAccept entry.cost = true
  · rw [if_pos haccept]
    obtain ⟨hcount, hcost, -⟩ := push_limits r.queue entry
    refine ⟨wf_push h.wf haccept, hcount.trans h.maxCount_eq, hcost.trans h.maxCost_eq, ?_, ?_⟩
    · have hperm := (entries_push h.wf entry).symm.append_left (r.left ++ r.removed)
      refine List.Perm.trans ?_ hperm
      refine (perm_append_singleton entry.fresh r.accepted).trans ?_
      exact (h.conserved.cons entry.fresh).trans perm_middle.symm
    · intro tenant
      rw [waiting_push, ofTenant_append, ← append_assoc]
      exact (h.fifo tenant).append (List.Sublist.refl _)
  · rw [if_neg haccept]
    exact h

theorem sound_dequeue (budget : Nat) : Sound maxCount maxCost (r.step (.dequeue budget)) := by
  unfold step
  dsimp only
  rcases dequeue_cases h.wf budget with hnone | ⟨entry, q', hdeq, hwf', hperm, -, hcount, hcost⟩
  · rw [hnone]
    exact h
  · rw [hdeq]
    refine ⟨hwf', hcount.trans h.maxCount_eq, hcost.trans h.maxCost_eq, ?_, ?_⟩
    · refine h.conserved.trans ((hperm.append_left _).trans ?_)
      refine perm_middle.trans ?_
      rw [append_assoc, append_assoc, append_assoc]
      exact perm_middle.symm
    · intro tenant
      have hfifo := h.fifo tenant
      rw [waiting_dequeue h.wf hdeq tenant] at hfifo
      rw [ofTenant_append, append_assoc]
      exact hfifo

theorem sound_removeById (id : Nat) : Sound maxCount maxCost (r.step (.removeById id)) := by
  unfold step
  dsimp only
  rcases removeById_cases h.wf id with hnone | ⟨entry, q', hrem, hwf', hperm, -, hcount, hcost⟩
  · rw [hnone]
    exact h
  · have hsub : ∀ tenant, (q'.waiting tenant).Sublist (r.queue.waiting tenant) := by
      intro tenant
      have hsub := waiting_removeById r.queue id tenant
      rw [hrem] at hsub
      exact hsub
    rw [hrem]
    refine ⟨hwf', hcount.trans h.maxCount_eq, hcost.trans h.maxCost_eq, ?_, ?_⟩
    · refine h.conserved.trans ((hperm.append_left _).trans ?_)
      rw [← append_assoc, append_assoc (r.left ++ r.removed)]
      exact List.Perm.refl _
    · intro tenant
      exact ((List.Sublist.refl _).append (hsub tenant)).trans (h.fifo tenant)

theorem sound_drain : Sound maxCount maxCost (r.step .drain) := by
  obtain ⟨hperm, hwf', hnil⟩ := drain_spec h.wf
  obtain ⟨hcount, hcost⟩ := limits_drainLoop h.wf r.queue.entries.length
  refine ⟨hwf', hcount.trans h.maxCount_eq, hcost.trans h.maxCost_eq, ?_, ?_⟩
  · show r.accepted.Perm (r.left ++ r.queue.drain.1 ++ r.removed ++ r.queue.drain.2.entries)
    rw [hnil, append_nil]
    refine h.conserved.trans ((hperm.append_left _).trans ?_)
    rw [append_assoc, append_assoc]
    exact List.perm_append_comm.append_left _
  · intro tenant
    have hfifo := h.fifo tenant
    rw [waiting_drain h.wf tenant, ← append_assoc] at hfifo
    show (ofTenant tenant (r.left ++ r.queue.drain.1) ++ r.queue.drain.2.waiting tenant).Sublist _
    rw [ofTenant_append]
    exact hfifo

theorem sound_step (op : QueueOp T) : Sound maxCount maxCost (r.step op) := by
  cases op with
  | enqueue entry => exact sound_enqueue h entry
  | dequeue budget => exact sound_dequeue h budget
  | removeById id => exact sound_removeById h id
  | drain => exact sound_drain h

theorem sound_foldl (ops : List (QueueOp T)) : Sound maxCount maxCost (ops.foldl step r) := by
  induction ops generalizing r with
  | nil => exact h
  | cons op ops ih => exact ih (sound_step h op)

end

/-- The representation invariant holds after every sequence of operations. -/
theorem sound_run (maxCount maxCost : Nat) (ops : List (QueueOp T)) :
    Sound maxCount maxCost (run maxCount maxCost ops) :=
  sound_foldl (sound_empty maxCount maxCost) ops

end QueueLog

variable {T : Type}

/-- Whether a head has been passed over so often that it is reserved. -/
def QueueEntry.isAged (e : QueueEntry T) : Bool := maxUnfittableSkips ≤ e.skipCount

/-- The operation stores an entry that nothing has passed over yet, as the
controller makes its entries. -/
def QueueOp.Fresh : QueueOp T → Prop
  | .enqueue entry => entry.skipCount = 0
  | _ => True

namespace FairCostQueue

/-! ## The entries behind the heads -/

/-- Only heads are passed over. -/
def TailsFresh (q : FairCostQueue T) : Prop :=
  ∀ bucket ∈ q.buckets, ∀ e ∈ bucket.2.tail, e.skipCount = 0

variable {bucket : List (QueueEntry T)} {q : FairCostQueue T} {tenant : JsString}

theorem TailsFresh.of_get (h : TailsFresh q) (hget : q.buckets.get tenant = some bucket) :
    ∀ e ∈ bucket.tail, e.skipCount = 0 :=
  h _ (mem_of_get hget)

theorem TailsFresh.set {q' : FairCostQueue T} (hwf : Wf q) (h : TailsFresh q)
    (hbuckets : q'.buckets = q.buckets.set tenant bucket)
    (htail : ∀ e ∈ bucket.tail, e.skipCount = 0) : TailsFresh q' := by
  have hnodup : (JsMap.keys q.buckets).Nodup := hwf.keys ▸ hwf.nodup
  intro other hmem
  rw [hbuckets] at hmem
  rcases mem_cons.mp ((set_perm tenant bucket hnodup).subset hmem) with rfl | hmem
  · exact htail
  · exact h other ((delete_sublist tenant q.buckets).subset hmem)

theorem TailsFresh.delete {q' : FairCostQueue T} (h : TailsFresh q)
    (hbuckets : q'.buckets = q.buckets.delete tenant) : TailsFresh q' := by
  intro other hmem
  rw [hbuckets] at hmem
  exact h other ((delete_sublist tenant q.buckets).subset hmem)

theorem tailsFresh_push (hwf : Wf q) (h : TailsFresh q) {entry : QueueEntry T}
    (hentry : entry.skipCount = 0) : TailsFresh (q.push entry) := by
  unfold push
  cases hget : q.buckets.get entry.tenantKey with
  | none => exact TailsFresh.set hwf h rfl (by simp)
  | some bucket =>
    refine TailsFresh.set hwf h rfl ?_
    have htail := h.of_get hget
    cases bucket with
    | nil => simp
    | cons e rest =>
      intro x hx
      rcases mem_append.mp hx with hx | hx
      · exact htail x hx
      · rw [mem_singleton.mp hx]
        exact hentry

theorem tailsFresh_passOver (hwf : Wf q) (h : TailsFresh q) (idx : Nat) :
    TailsFresh (q.passOver idx) := by
  unfold passOver
  cases hidx : q.order[idx]? with
  | none => exact h
  | some tenant =>
    dsimp only
    cases hget : q.buckets.get tenant with
    | none => exact h
    | some bucket =>
      refine TailsFresh.set hwf h rfl ?_
      have htail := h.of_get hget
      cases bucket with
      | nil => exact htail
      | cons e rest => exact htail

theorem mem_tail_eraseIdx {α : Type} {l : List α} {idx : Nat} {x : α}
    (h : x ∈ (l.eraseIdx idx).tail) : x ∈ l.tail := by
  cases l with
  | nil => exact h
  | cons a l =>
    cases idx with
    | zero => exact mem_of_mem_tail h
    | succ idx => exact (eraseIdx_sublist ..).subset h

section

variable (hwf : Wf q)
include hwf

section

variable (h : TailsFresh q)
include h

theorem tailsFresh_takeAt (idx : Nat) : TailsFresh (q.takeAt idx).2 := by
  unfold takeAt
  cases hidx : q.order[idx]? with
  | none => exact h
  | some tenant =>
    dsimp only
    cases hget : q.buckets.get tenant with
    | none => exact h
    | some bucket =>
      have htail := h.of_get hget
      cases bucket with
      | nil => exact h
      | cons entry bucket =>
        cases bucket with
        | nil => exact h.delete rfl
        | cons next rest =>
          exact TailsFresh.set hwf h rfl (fun e he => htail e (mem_cons_of_mem _ he))

theorem tailsFresh_removeAt (ti : Nat)
    (hget : q.buckets.get tenant = some bucket) (idx : Nat) (entry : QueueEntry T) :
    TailsFresh (q.removeAt ti tenant bucket idx entry) := by
  unfold removeAt
  dsimp only
  split
  · exact h.delete rfl
  · exact TailsFresh.set hwf h rfl (fun e he => h.of_get hget e (mem_tail_eraseIdx he))

theorem tailsFresh_foldl_passOver (bypassed : List Nat) :
    TailsFresh (bypassed.foldl passOver q) := by
  induction bypassed generalizing q with
  | nil => exact h
  | cons idx rest ih => exact ih (passOver_spec hwf idx).1 (tailsFresh_passOver hwf h idx)

theorem tailsFresh_dequeue (maxCost : Nat) : TailsFresh (q.dequeue maxCost).2 := by
  rcases dequeue_cases hwf maxCost with hnone | ⟨entry, q', hdeq, -⟩
  · rw [hnone]
    exact h
  · obtain ⟨bypassed, idx, -, -, -, htake⟩ := dequeue_takes hwf hdeq
    have htails := tailsFresh_takeAt (foldl_passOver_spec hwf bypassed).1
      (tailsFresh_foldl_passOver hwf h bypassed) idx
    rw [htake] at htails
    rw [hdeq]
    exact htails

theorem tailsFresh_removeById (id : Nat) : TailsFresh (q.removeById id).2 := by
  unfold removeById
  rcases removeFrom_finds q id q.order 0 rfl with hnone | hfound
  · rw [hnone]
    exact h
  · obtain ⟨place, tenant, bucket, idx, entry, -, hget, -, -, hrem⟩ := hfound
    rw [hrem]
    exact tailsFresh_removeAt hwf h place hget idx entry

theorem tailsFresh_drainLoop (fuel : Nat) : TailsFresh (drainLoop fuel q).2 := by
  induction fuel generalizing q with
  | zero => exact h
  | succ fuel ih =>
    have htails := tailsFresh_dequeue hwf h maxSafeInteger
    rw [drainLoop]
    rcases dequeue_cases hwf maxSafeInteger with hnone | ⟨entry, q', hdeq, hwf', -⟩
    · rw [hnone]
      exact h
    · rw [hdeq] at htails ⊢
      exact ih hwf' htails

end

end

theorem tailsFresh_step {r : QueueLog T} (hwf : Wf r.queue) (h : TailsFresh r.queue)
    {op : QueueOp T} (hop : op.Fresh) : TailsFresh (r.step op).queue := by
  cases op with
  | enqueue entry =>
    unfold QueueLog.step enqueue
    dsimp only
    split
    · rename_i heq
      split at heq
      · obtain rfl := Option.some.inj heq
        exact tailsFresh_push hwf h hop
      · exact absurd heq.symm (Option.some_ne_none _)
    · exact h
  | dequeue maxCost =>
    have htails := tailsFresh_dequeue hwf h maxCost
    unfold QueueLog.step
    dsimp only
    split
    all_goals
      rename_i heq
      rw [heq] at htails
      exact htails
  | removeById id =>
    have htails := tailsFresh_removeById hwf h id
    unfold QueueLog.step
    dsimp only
    split
    all_goals
      rename_i heq
      rw [heq] at htails
      exact htails
  | drain => exact tailsFresh_drainLoop hwf h r.queue.entries.length

variable {maxCost : Nat}

theorem tailsFresh_foldl {maxCount : Nat} {r : QueueLog T} (hsound : r.Sound maxCount maxCost)
    (h : TailsFresh r.queue) {ops : List (QueueOp T)} (hops : ∀ op ∈ ops, op.Fresh) :
    TailsFresh (ops.foldl QueueLog.step r).queue := by
  induction ops generalizing r with
  | nil => exact h
  | cons op ops ih =>
    have htails := tailsFresh_step hsound.wf h (hops op mem_cons_self)
    exact ih (QueueLog.sound_step hsound op) htails
      (fun other hmem => hops other (mem_cons_of_mem _ hmem))

/-! ## The two scans -/

/-- The search for the reserved head keeps the best aged head it has seen. -/
theorem foldl_betterReserved (q : FairCostQueue T) (l : List Nat)
    (best : Option (Nat × QueueEntry T)) :
    (∀ i e, l.foldl q.betterReserved best = some (i, e) → best = some (i, e) ∨ e.isAged = true) ∧
      (l.foldl q.betterReserved best = none →
        best = none ∧ ∀ j ∈ l, ∀ e, q.headAt j = some e → e.isAged = false) := by
  induction l generalizing best with
  | nil => exact ⟨fun i e h => Or.inl h, fun h => ⟨h, by simp⟩⟩
  | cons j l ih =>
    obtain ⟨hsome, hnone⟩ := ih (q.betterReserved best j)
    have hstep : ∀ i e, q.betterReserved best j = some (i, e) → best = some (i, e) ∨ e.isAged = true := by
      intro i e h
      unfold betterReserved at h
      split at h
      · exact Or.inl h
      · split at h
        · rename_i entry _ haged
          have haged' : entry.isAged = true := by simpa [QueueEntry.isAged] using haged
          split at h
          · obtain ⟨-, rfl⟩ := Prod.mk.inj (Option.some.inj h)
            exact Or.inr haged'
          · split at h
            · obtain ⟨-, rfl⟩ := Prod.mk.inj (Option.some.inj h)
              exact Or.inr haged'
            · exact Or.inl h
        · exact Or.inl h
    refine ⟨?_, ?_⟩
    · intro i e h
      rcases hsome i e h with h | h
      · exact hstep i e h
      · exact Or.inr h
    · intro h
      obtain ⟨hbest, hrest⟩ := hnone h
      unfold betterReserved at hbest
      cases hj : q.headAt j with
      | none =>
        rw [hj] at hbest
        refine ⟨hbest, ?_⟩
        intro k hk e he
        rcases mem_cons.mp hk with rfl | hk
        · rw [hj] at he
          exact absurd he.symm (Option.some_ne_none _)
        · exact hrest k hk e he
      | some entry =>
        rw [hj] at hbest
        dsimp only at hbest
        split at hbest
        · -- an aged head is never dropped
          split at hbest
          · exact absurd hbest (Option.some_ne_none _)
          · split at hbest <;> exact absurd hbest (Option.some_ne_none _)
        · rename_i hyoung
          refine ⟨hbest, ?_⟩
          intro k hk e he
          rcases mem_cons.mp hk with rfl | hk
          · rw [hj] at he
            rw [← Option.some.inj he]
            simpa [QueueEntry.isAged] using hyoung
          · exact hrest k hk e he

variable {e : QueueEntry T}

theorem isAged_of_reserved {idx : Nat} (h : q.reserved = some (idx, e)) : e.isAged = true := by
  rcases (foldl_betterReserved q q.scan none).1 idx e h with hnone | haged
  · exact absurd hnone.symm (Option.some_ne_none _)
  · exact haged

theorem young_of_reserved_none (h : q.reserved = none) {j : Nat} (hj : j ∈ q.scan)
    (he : q.headAt j = some e) : e.isAged = false :=
  ((foldl_betterReserved q q.scan none).2 h).2 j hj e he

theorem firstFit_split {idx : Nat} {l bypassed bypassed' : List Nat}
    (hl : ∀ j ∈ l, ∃ e, q.headAt j = some e)
    (h : q.firstFit maxCost l bypassed = some (idx, bypassed')) :
    ∃ before after, l = before ++ idx :: after ∧ bypassed' = bypassed ++ before := by
  induction l generalizing bypassed with
  | nil => exact absurd h.symm (Option.some_ne_none _)
  | cons j l ih =>
    rw [firstFit] at h
    obtain ⟨e, he⟩ := hl j mem_cons_self
    rw [he] at h
    dsimp only at h
    split at h
    · obtain ⟨before, after, rfl, rfl⟩ := ih (fun k hk => hl k (mem_cons_of_mem _ hk)) h
      exact ⟨j :: before, after, rfl, by simp⟩
    · obtain ⟨rfl, rfl⟩ := Prod.mk.inj (Option.some.inj h)
      exact ⟨[], l, rfl, by simp⟩

theorem passOver_order (q : FairCostQueue T) (idx : Nat) :
    (q.passOver idx).order = q.order ∧ (q.passOver idx).cursor = q.cursor := by
  unfold passOver
  split
  · exact ⟨rfl, rfl⟩
  · split <;> exact ⟨rfl, rfl⟩

theorem foldl_passOver_order (q : FairCostQueue T) (bypassed : List Nat) :
    (bypassed.foldl passOver q).order = q.order ∧
      (bypassed.foldl passOver q).cursor = q.cursor := by
  induction bypassed generalizing q with
  | nil => exact ⟨rfl, rfl⟩
  | cons idx rest ih =>
    obtain ⟨horder, hcursor⟩ := passOver_order q idx
    obtain ⟨horder', hcursor'⟩ := ih (q.passOver idx)
    exact ⟨horder'.trans horder, hcursor'.trans hcursor⟩

theorem firstFit_none {l bypassed : List Nat} (h : q.firstFit maxCost l bypassed = none) {j : Nat}
    (hj : j ∈ l) (he : q.headAt j = some e) : maxCost < e.cost := by
  induction l generalizing bypassed with
  | nil => exact absurd hj not_mem_nil
  | cons k l ih =>
    rw [firstFit] at h
    rcases mem_cons.mp hj with rfl | hj
    · rw [he] at h
      dsimp only at h
      split at h
      · assumption
      · exact absurd h (Option.some_ne_none _)
    · split at h
      · exact ih h hj
      · split at h
        · exact ih h hj
        · exact absurd h (Option.some_ne_none _)

theorem mem_scan_of_headAt (hwf : Wf q) {idx : Nat} (h : q.headAt idx = some e) : idx ∈ q.scan := by
  obtain ⟨tenant, -, hidx, -⟩ := headAt_eq_some h
  have hlt := (List.getElem?_eq_some_iff.mp hidx).1
  have hcursor : q.cursor < q.order.length := by
    rcases hwf.cursor with hcursor | ⟨hnil, -⟩
    · exact hcursor
    · rw [hnil] at hlt
      exact absurd hlt (Nat.not_lt_zero _)
  exact mem_map.mpr ⟨Cyclic.ahead q.cursor idx q.order.length,
    List.mem_range.mpr (Cyclic.ahead_lt hcursor hlt), Cyclic.add_ahead_mod hcursor hlt⟩

theorem dequeue_none_cases (hwf : Wf q) (h : (q.dequeue maxCost).1 = none) :
    (∃ idx e, q.headAt idx = some e ∧ e.isAged = true) ∨
      ∀ idx e, q.headAt idx = some e → maxCost < e.cost := by
  have hdequeues := dequeue_dequeues hwf maxCost
  generalize q.dequeue maxCost = result at hdequeues h
  cases hdequeues with
  | empty hcount =>
    right
    intro idx e he
    have hpos := length_pos_of_mem (fresh_mem_entries he)
    rw [hwf.count] at hcount
    omega
  | @blocked idx head hres _ =>
    exact Or.inl ⟨idx, head, headAt_of_reserved hres, isAged_of_reserved hres⟩
  | unfit _ hfit =>
    exact Or.inr (fun idx e he => firstFit_none hfit (mem_scan_of_headAt hwf he) he)
  | taken => exact absurd h (Option.some_ne_none _)

/-! ## The number of buckets -/

theorem order_length_le (hwf : Wf q) : q.order.length ≤ q.maxCount := by
  have hlen : q.order.length = q.buckets.length := by
    rw [← hwf.keys]
    exact length_map _
  have hgood : ∀ m : JsMap JsString (List (QueueEntry T)), (∀ bucket ∈ m, GoodBucket bucket) →
      m.length ≤ (m.values.flatten).length := by
    intro m
    induction m with
    | nil => exact fun _ => Nat.le_refl _
    | cons bucket m ih =>
      intro hm
      have hpos := length_pos_iff.mpr (hm bucket mem_cons_self).nonempty
      have hrest := ih (fun b hb => hm b (mem_cons_of_mem _ hb))
      simp only [JsMap.values, map_cons, List.flatten_cons, length_append, length_cons] at hrest ⊢
      omega
  have hcount := hwf.count
  have hle := hwf.count_le
  have hbuckets := hgood q.buckets hwf.good
  rw [entries, length_map] at hcount
  omega

end FairCostQueue

end RedRouter.Admission
