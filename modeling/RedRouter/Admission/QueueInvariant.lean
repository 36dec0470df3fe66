import RedRouter.Admission.Queue
import Mathlib.Algebra.BigOperators.Group.List.Basic
import Mathlib.Tactic.Linarith

/-!
# The representation invariant of the fair cost queue

`FairCostQueue.Wf` says that the order lists the keys of the buckets, that no
bucket is empty, that the two counters are the number and the summed cost of
the stored entries, and that the cursor is a place of the order.

Every operation keeps the invariant, and has one lemma that says what it does
to the stored entries: `wf_push` and `entries_push`, `dequeue_some` and
`dequeue_none`, `removeById_some` and `removeById_none`, and `drain_spec`.
-/

namespace RedRouter.Admission.FairCostQueue

open List

variable {T : Type}

/-! ## The invariant -/

/-- A bucket of the queue: not empty, and made of entries of its tenant with
an acceptable cost. -/
structure GoodBucket (bucket : JsString × List (QueueEntry T)) : Prop where
  nonempty : bucket.2 ≠ []
  tenant : ∀ e ∈ bucket.2, e.tenantKey = bucket.1
  cost_pos : ∀ e ∈ bucket.2, 0 < e.cost
  cost_le : ∀ e ∈ bucket.2, e.cost ≤ maxSafeInteger

variable (es : List (QueueEntry T))

/-- The summed cost of some entries. -/
def sumCost : Int := (es.map (fun e => (e.cost : Int))).sum

/-- The representation invariant. -/
structure Wf (q : FairCostQueue T) : Prop where
  keys : JsMap.keys q.buckets = q.order
  nodup : q.order.Nodup
  good : ∀ bucket ∈ q.buckets, GoodBucket bucket
  count : q.count = q.entries.length
  cost : q.cost = sumCost q.entries
  count_le : q.count ≤ q.maxCount
  cost_le : q.cost ≤ q.maxCost
  cursor : q.cursor < q.order.length ∨ q.order = [] ∧ q.cursor = 0

theorem sumCost_append (xs ys : List (QueueEntry T)) :
    sumCost (xs ++ ys) = sumCost xs + sumCost ys := by
  simp [sumCost]

theorem sumCost_cons (e : QueueEntry T) (es : List (QueueEntry T)) :
    sumCost (e :: es) = e.cost + sumCost es := by
  simp [sumCost]

theorem sumCost_perm {xs ys : List (QueueEntry T)} (h : xs.Perm ys) : sumCost xs = sumCost ys :=
  (h.map _).sum_eq

theorem sumCost_nonneg : 0 ≤ sumCost es := by
  induction es with
  | nil => exact le_refl _
  | cons e es ih =>
    rw [sumCost_cons]
    omega

theorem wf_empty (maxCount maxCost : Nat) :
    Wf ({ maxCount := maxCount, maxCost := maxCost } : FairCostQueue T) where
  keys := rfl
  nodup := nodup_nil
  good := by simp
  count := rfl
  cost := rfl
  count_le := by simp
  cost_le := by simp
  cursor := Or.inr ⟨rfl, rfl⟩

/-! ## The update of one bucket -/

def others (q : FairCostQueue T) (tenant : JsString) : List (QueueEntry T) :=
  (JsMap.values (q.buckets.delete tenant)).flatten.map QueueEntry.fresh

variable {bucket : List (QueueEntry T)} {q : FairCostQueue T} {tenant : JsString}

/-- The stored entries are the ones of a tenant and the ones of the others. -/
theorem entries_perm (h : (JsMap.keys q.buckets).Nodup) (hget : q.buckets.get tenant = some bucket) :
    q.entries.Perm (bucket.map QueueEntry.fresh ++ q.others tenant) := by
  have hperm := (JsMap.perm_of_get h hget).map Prod.snd
  have hflat := (hperm.flatten).map QueueEntry.fresh
  rw [map_cons, List.flatten_cons, map_append] at hflat
  exact hflat

variable {q' : FairCostQueue T}

theorem entries_set_perm (h : (JsMap.keys q.buckets).Nodup) (tenant : JsString)
    (bucket : List (QueueEntry T)) (hq' : q'.buckets = q.buckets.set tenant bucket) :
    q'.entries.Perm (bucket.map QueueEntry.fresh ++ q.others tenant) := by
  have hperm := (JsMap.set_perm tenant bucket h).map Prod.snd
  have hflat := (hperm.flatten).map QueueEntry.fresh
  rw [map_cons, List.flatten_cons, map_append] at hflat
  rw [entries, hq']
  exact hflat

theorem good_delete (hwf : Wf q) (tenant : JsString) :
    ∀ bucket ∈ q.buckets.delete tenant, GoodBucket bucket :=
  fun bucket hmem => hwf.good bucket ((JsMap.delete_sublist tenant q.buckets).subset hmem)

theorem good_set (hwf : Wf q) (hgood : GoodBucket (tenant, bucket)) :
    ∀ b ∈ q.buckets.set tenant bucket, GoodBucket b := by
  intro b hmem
  have hnodup : (JsMap.keys q.buckets).Nodup := hwf.keys ▸ hwf.nodup
  rcases mem_cons.mp ((JsMap.set_perm tenant bucket hnodup).subset hmem) with rfl | hmem
  · exact hgood
  · exact good_delete hwf tenant b hmem

theorem length_map_fresh : (es.map QueueEntry.fresh).length = es.length := length_map ..

theorem sumCost_map_fresh : sumCost (es.map QueueEntry.fresh) = sumCost es := by
  rw [sumCost, sumCost, map_map]
  rfl

theorem Wf.replace (hwf : Wf q) {bucket' : List (QueueEntry T)}
    (hget : q.buckets.get tenant = some bucket) (hgood : GoodBucket (tenant, bucket'))
    (hbuckets : q'.buckets = q.buckets.set tenant bucket') (horder : q'.order = q.order)
    (hmaxCount : q'.maxCount = q.maxCount) (hmaxCost : q'.maxCost = q.maxCost)
    (hcount : q'.count = q.count - bucket.length + bucket'.length)
    (hcost : q'.cost = q.cost - sumCost bucket + sumCost bucket')
    (hcount_le : q'.count ≤ q.maxCount) (hcost_le : q'.cost ≤ q.maxCost)
    (hcursor : q'.cursor < q.order.length) : Wf q' := by
  have hnodup : (JsMap.keys q.buckets).Nodup := hwf.keys ▸ hwf.nodup
  have hmem : tenant ∈ JsMap.keys q.buckets :=
    JsMap.get_isSome_iff.mp (by rw [hget]; rfl)
  have hold := entries_perm hnodup hget
  have hnew := entries_set_perm hnodup tenant bucket' hbuckets
  refine ⟨?_, ?_, ?_, ?_, ?_, ?_, ?_, ?_⟩
  · rw [hbuckets, JsMap.keys_set_of_mem hmem, hwf.keys, horder]
  · rw [horder]
    exact hwf.nodup
  · rw [hbuckets]
    exact good_set hwf hgood
  · rw [hcount, hwf.count, hold.length_eq, hnew.length_eq, length_append,
      length_append, length_map_fresh, length_map_fresh]
    omega
  · rw [hcost, hwf.cost, sumCost_perm hold, sumCost_perm hnew, sumCost_append, sumCost_append,
      sumCost_map_fresh, sumCost_map_fresh]
    omega
  · rw [hmaxCount]
    exact hcount_le
  · rw [hmaxCost]
    exact hcost_le
  · rw [horder]
    exact Or.inl hcursor

variable {idx : Nat}

theorem Wf.remove (hwf : Wf q) (hidx : q.order[idx]? = some tenant)
    (hget : q.buckets.get tenant = some bucket) (hbuckets : q'.buckets = q.buckets.delete tenant)
    (horder : q'.order = q.order.eraseIdx idx) (hmaxCount : q'.maxCount = q.maxCount)
    (hmaxCost : q'.maxCost = q.maxCost) (hcount : q'.count = q.count - bucket.length)
    (hcost : q'.cost = q.cost - sumCost bucket)
    (hcursor : q'.cursor < q'.order.length ∨ q'.order = [] ∧ q'.cursor = 0) : Wf q' := by
  have hnodup : (JsMap.keys q.buckets).Nodup := hwf.keys ▸ hwf.nodup
  have hold := entries_perm hnodup hget
  have hnew : q'.entries = q.others tenant := by
    rw [entries, hbuckets]
    rfl
  have hpos := sumCost_nonneg bucket
  have hcount_le := hwf.count_le
  have hcost_le := hwf.cost_le
  refine ⟨?_, ?_, ?_, ?_, ?_, ?_, ?_, hcursor⟩
  · obtain ⟨hlt, rfl⟩ := List.getElem?_eq_some_iff.mp hidx
    rw [hbuckets, JsMap.keys_delete _ hnodup, hwf.keys, horder]
    exact @List.Nodup.erase_getElem _ instBEqOfDecidableEq inferInstance _ hwf.nodup idx hlt
  · rw [horder]
    exact hwf.nodup.sublist (eraseIdx_sublist ..)
  · rw [hbuckets]
    exact good_delete hwf tenant
  · rw [hcount, hwf.count, hold.length_eq, hnew, length_append, length_map_fresh]
    omega
  · rw [hcost, hwf.cost, sumCost_perm hold, hnew, sumCost_append, sumCost_map_fresh]
    omega
  · omega
  · omega

/-! ## Enqueue -/

theorem canAccept_iff {cost : Nat} : q.canAccept cost = true ↔
      0 < cost ∧ cost ≤ maxSafeInteger ∧ q.count < q.maxCount ∧ (cost : Int) ≤ q.maxCost - q.cost := by
  unfold canAccept
  split
  · simp only [Bool.false_eq_true, false_iff]
    omega
  · split
    · simp only [Bool.false_eq_true, false_iff]
      omega
    · split
      · simp only [Bool.false_eq_true, false_iff]
        omega
      · simp only [true_iff]
        omega

variable {entry : QueueEntry T}

theorem GoodBucket.append
    (hold : ∀ e ∈ bucket, e.tenantKey = tenant ∧ 0 < e.cost ∧ e.cost ≤ maxSafeInteger)
    (hentry : entry.tenantKey = tenant ∧ 0 < entry.cost ∧ entry.cost ≤ maxSafeInteger) :
    GoodBucket (tenant, bucket ++ [entry]) := by
  have hall : ∀ e ∈ bucket ++ [entry],
      e.tenantKey = tenant ∧ 0 < e.cost ∧ e.cost ≤ maxSafeInteger := by
    intro e he
    rcases mem_append.mp he with he | he
    · exact hold e he
    · rw [mem_singleton.mp he]
      exact hentry
  exact ⟨by simp, fun e he => (hall e he).1, fun e he => (hall e he).2.1,
    fun e he => (hall e he).2.2⟩

theorem good_of_get (hwf : Wf q) (hget : q.buckets.get tenant = some bucket) :
    GoodBucket (tenant, bucket) :=
  hwf.good _ (JsMap.mem_of_get hget)

@[simp] theorem push_count (q : FairCostQueue T) (entry : QueueEntry T) :
    (q.push entry).count = q.count + 1 := by
  unfold push
  split <;> rfl

@[simp] theorem push_cost (q : FairCostQueue T) (entry : QueueEntry T) :
    (q.push entry).cost = q.cost + entry.cost := by
  unfold push
  split <;> rfl

@[simp] theorem push_limits (q : FairCostQueue T) (entry : QueueEntry T) :
    (q.push entry).maxCount = q.maxCount ∧ (q.push entry).maxCost = q.maxCost ∧
      (q.push entry).cursor = q.cursor := by
  unfold push
  split <;> exact ⟨rfl, rfl, rfl⟩

theorem entries_push (hwf : Wf q) (entry : QueueEntry T) :
    (q.push entry).entries.Perm (entry.fresh :: q.entries) := by
  have hnodup : (JsMap.keys q.buckets).Nodup := hwf.keys ▸ hwf.nodup
  unfold push
  cases hget : q.buckets.get entry.tenantKey with
  | some bucket =>
    refine (entries_set_perm hnodup entry.tenantKey (bucket ++ [entry]) rfl).trans ?_
    rw [map_append, append_assoc]
    refine perm_middle.trans ?_
    exact (entries_perm hnodup hget).symm.cons entry.fresh
  | none =>
    have hfresh : entry.tenantKey ∉ JsMap.keys q.buckets := JsMap.get_eq_none_iff.mp hget
    refine (entries_set_perm hnodup entry.tenantKey [entry] rfl).trans ?_
    rw [others, JsMap.delete_of_not_mem hfresh]
    exact List.Perm.refl _

theorem buckets_push (hwf : Wf q) (hpos : 0 < entry.cost) (hsafe : entry.cost ≤ maxSafeInteger) :
    JsMap.keys (q.push entry).buckets = (q.push entry).order ∧ (q.push entry).order.Nodup ∧
      (∀ bucket ∈ (q.push entry).buckets, GoodBucket bucket) ∧
      q.cursor < (q.push entry).order.length := by
  have hnodup : (JsMap.keys q.buckets).Nodup := hwf.keys ▸ hwf.nodup
  unfold push
  cases hget : q.buckets.get entry.tenantKey with
  | some bucket =>
    have hmem : entry.tenantKey ∈ JsMap.keys q.buckets :=
      JsMap.get_isSome_iff.mp (by rw [hget]; rfl)
    have hgood := good_of_get hwf hget
    refine ⟨?_, hwf.nodup, good_set hwf (GoodBucket.append ?_ ⟨rfl, hpos, hsafe⟩), ?_⟩
    · rw [JsMap.keys_set_of_mem hmem, hwf.keys]
    · exact fun e he => ⟨hgood.tenant e he, hgood.cost_pos e he, hgood.cost_le e he⟩
    · rcases hwf.cursor with hlt | ⟨hnil, -⟩
      · exact hlt
      · rw [hwf.keys, hnil] at hmem
        exact absurd hmem not_mem_nil
  | none =>
    have hfresh : entry.tenantKey ∉ JsMap.keys q.buckets := JsMap.get_eq_none_iff.mp hget
    have hgood : GoodBucket (entry.tenantKey, [] ++ [entry]) :=
      GoodBucket.append (by simp) ⟨rfl, hpos, hsafe⟩
    refine ⟨?_, ?_, good_set hwf hgood, ?_⟩
    · rw [JsMap.keys_set, if_neg hfresh, hwf.keys]
    · rw [← hwf.keys]
      exact List.Nodup.append hnodup (nodup_singleton _)
        (fun x hx hx' => hfresh (mem_singleton.mp hx' ▸ hx))
    · rw [length_append, length_singleton]
      rcases hwf.cursor with hlt | ⟨-, hzero⟩
      all_goals omega

theorem wf_push (hwf : Wf q) (haccept : q.canAccept entry.cost = true) : Wf (q.push entry) := by
  obtain ⟨hpos, hsafe, hcount, hcost⟩ := canAccept_iff.mp haccept
  obtain ⟨hkeys, hnodup, hgood, hcursor⟩ := buckets_push hwf hpos hsafe
  obtain ⟨hmaxCount, hmaxCost, hcur⟩ := push_limits q entry
  have hentries := entries_push hwf entry
  refine ⟨hkeys, hnodup, hgood, ?_, ?_, ?_, ?_, ?_⟩
  · rw [push_count, hwf.count, hentries.length_eq, length_cons]
    omega
  · have hfresh : entry.fresh.cost = entry.cost := rfl
    rw [push_cost, hwf.cost, sumCost_perm hentries, sumCost_cons, hfresh]
    omega
  · rw [push_count, hmaxCount]
    omega
  · rw [push_cost, hmaxCost]
    omega
  · rw [hcur]
    exact Or.inl hcursor

/-! ## Dequeue -/

theorem headAt_eq_some (h : q.headAt idx = some entry) :
    ∃ tenant rest, q.order[idx]? = some tenant ∧ q.buckets.get tenant = some (entry :: rest) := by
  obtain ⟨tenant, hidx, hbind⟩ := Option.bind_eq_some_iff.mp h
  obtain ⟨bucket, hget, hhead⟩ := Option.bind_eq_some_iff.mp hbind
  cases bucket with
  | nil => exact absurd hhead.symm (Option.some_ne_none _)
  | cons e rest =>
    rw [head?_cons, Option.some.injEq] at hhead
    exact ⟨tenant, rest, hidx, hhead ▸ hget⟩

variable {e : QueueEntry T}

theorem cost_of_mem_entries (hwf : Wf q) (he : e ∈ q.entries) :
    0 < e.cost ∧ e.cost ≤ maxSafeInteger := by
  obtain ⟨e', hflat, rfl⟩ := mem_map.mp he
  obtain ⟨bucket, hvalue, hmem⟩ := mem_flatten.mp hflat
  obtain ⟨pair, hpair, rfl⟩ := mem_map.mp hvalue
  have hgood := hwf.good pair hpair
  exact ⟨hgood.cost_pos e' hmem, hgood.cost_le e' hmem⟩

theorem fresh_mem_entries (h : q.headAt idx = some e) : e.fresh ∈ q.entries := by
  obtain ⟨tenant, rest, -, hget⟩ := headAt_eq_some h
  refine mem_map_of_mem (mem_flatten.mpr ⟨e :: rest, ?_, mem_cons_self⟩)
  exact mem_map.mpr ⟨(tenant, e :: rest), JsMap.mem_of_get hget, rfl⟩

theorem exists_headAt (hwf : Wf q) (hidx : idx < q.order.length) :
    ∃ entry, q.headAt idx = some entry ∧ entry.cost ≤ maxSafeInteger := by
  have hmem : q.order[idx] ∈ JsMap.keys q.buckets := by
    rw [hwf.keys]
    exact getElem_mem hidx
  obtain ⟨bucket, hget⟩ := Option.isSome_iff_exists.mp (JsMap.get_isSome_iff.mpr hmem)
  have hgood := good_of_get hwf hget
  cases bucket with
  | nil => exact absurd rfl hgood.nonempty
  | cons entry rest =>
    refine ⟨entry, ?_, hgood.cost_le entry mem_cons_self⟩
    rw [headAt, getElem?_eq_getElem hidx, Option.bind_some, hget]
    rfl

theorem takeAt_spec (hwf : Wf q) {head : QueueEntry T} (hhead : q.headAt idx = some head) :
    ∃ q', q.takeAt idx = (some head.fresh, q') ∧ Wf q' ∧
      q.entries.Perm (head.fresh :: q'.entries) ∧ q'.maxCount = q.maxCount ∧
      q'.maxCost = q.maxCost := by
  obtain ⟨tenant, rest, hidx, hget⟩ := headAt_eq_some hhead
  have hnodup : (JsMap.keys q.buckets).Nodup := hwf.keys ▸ hwf.nodup
  have hgood := good_of_get hwf hget
  have hlt : idx < q.order.length := (List.getElem?_eq_some_iff.mp hidx).1
  have hcount := hwf.count_le
  have hcost := hwf.cost_le
  unfold takeAt
  rw [hidx]
  dsimp only
  rw [hget]
  cases rest with
  | nil =>
    refine ⟨_, rfl, ?_, entries_perm hnodup hget, rfl, rfl⟩
    refine hwf.remove hidx hget rfl rfl rfl rfl rfl ?_ ?_
    · simp [sumCost]
    · by_cases hzero : (q.order.eraseIdx idx).length = 0
      · rw [if_pos hzero]
        exact Or.inr ⟨length_eq_zero_iff.mp hzero, rfl⟩
      · rw [if_neg hzero]
        exact Or.inl (Nat.mod_lt _ (Nat.pos_of_ne_zero hzero))
  | cons next rest =>
    have hgood' : GoodBucket (tenant, next :: rest) :=
      ⟨cons_ne_nil _ _, fun e he => hgood.tenant e (mem_cons_of_mem _ he),
        fun e he => hgood.cost_pos e (mem_cons_of_mem _ he),
        fun e he => hgood.cost_le e (mem_cons_of_mem _ he)⟩
    refine ⟨_, rfl, ?_, ?_, rfl, rfl⟩
    · refine hwf.replace hget hgood' rfl rfl rfl rfl ?_ ?_ ?_ ?_ ?_
      · simp only [length_cons]
        omega
      · dsimp only
        rw [sumCost_cons head]
        omega
      · dsimp only
        omega
      · dsimp only
        omega
      · exact Nat.mod_lt _ (by omega)
    · refine (entries_perm hnodup hget).trans ?_
      refine List.Perm.cons head.fresh ?_
      exact (entries_set_perm hnodup tenant (next :: rest) rfl).symm

/-- A pass-over keeps the entries and the heads, up to their counters. -/
theorem passOver_spec (hwf : Wf q) (idx : Nat) :
    Wf (q.passOver idx) ∧ (q.passOver idx).entries.Perm q.entries ∧
      (q.passOver idx).maxCount = q.maxCount ∧ (q.passOver idx).maxCost = q.maxCost ∧
      ∀ j, ((q.passOver idx).headAt j).map QueueEntry.fresh =
        (q.headAt j).map QueueEntry.fresh := by
  unfold passOver
  cases hidx : q.order[idx]? with
  | none => exact ⟨hwf, List.Perm.refl _, rfl, rfl, fun _ => rfl⟩
  | some tenant =>
    dsimp only
    cases hget : q.buckets.get tenant with
    | none => exact ⟨hwf, List.Perm.refl _, rfl, rfl, fun _ => rfl⟩
    | some bucket =>
      have hnodup : (JsMap.keys q.buckets).Nodup := hwf.keys ▸ hwf.nodup
      have hgood := good_of_get hwf hget
      have hcount := hwf.count_le
      have hcost := hwf.cost_le
      cases bucket with
      | nil => exact absurd rfl hgood.nonempty
      | cons entry rest =>
        have hgood' : GoodBucket (tenant, entry.passedOver :: rest) := by
          refine ⟨cons_ne_nil _ _, ?_, ?_, ?_⟩
          · intro e he
            rcases mem_cons.mp he with rfl | he
            · exact hgood.tenant entry mem_cons_self
            · exact hgood.tenant e (mem_cons_of_mem _ he)
          · intro e he
            rcases mem_cons.mp he with rfl | he
            · exact hgood.cost_pos entry mem_cons_self
            · exact hgood.cost_pos e (mem_cons_of_mem _ he)
          · intro e he
            rcases mem_cons.mp he with rfl | he
            · exact hgood.cost_le entry mem_cons_self
            · exact hgood.cost_le e (mem_cons_of_mem _ he)
        have hcostEq : sumCost (entry.passedOver :: rest) = sumCost (entry :: rest) := by
          rfl
        have hlt : q.cursor < q.order.length := by
          have := (List.getElem?_eq_some_iff.mp hidx).1
          rcases hwf.cursor with hlt | ⟨hnil, -⟩
          · exact hlt
          · rw [hnil] at this
            exact absurd this (Nat.not_lt_zero _)
        refine ⟨?_, ?_, rfl, rfl, ?_⟩
        · refine hwf.replace hget hgood' rfl rfl rfl rfl ?_ ?_ hcount hcost hlt
          · simp only [length_cons]
            omega
          · dsimp only
            omega
        · refine (entries_set_perm hnodup tenant (entry.passedOver :: rest) rfl).trans ?_
          exact (entries_perm hnodup hget).symm
        · intro j
          simp only [headAt]
          cases hj : q.order[j]? with
          | none => rfl
          | some other =>
            simp only [Option.bind_some, JsMap.get_set]
            by_cases heq : tenant = other
            · subst heq
              rw [if_pos rfl, hget]
              rfl
            · rw [if_neg heq]

theorem foldl_passOver_spec (hwf : Wf q) (bypassed : List Nat) :
    Wf (bypassed.foldl passOver q) ∧ (bypassed.foldl passOver q).entries.Perm q.entries ∧
      (bypassed.foldl passOver q).maxCount = q.maxCount ∧
      (bypassed.foldl passOver q).maxCost = q.maxCost ∧
      ∀ j, ((bypassed.foldl passOver q).headAt j).map QueueEntry.fresh =
        (q.headAt j).map QueueEntry.fresh := by
  induction bypassed generalizing q with
  | nil => exact ⟨hwf, List.Perm.refl _, rfl, rfl, fun _ => rfl⟩
  | cons idx rest ih =>
    obtain ⟨hwf', hperm, hmaxCount, hmaxCost, hhead⟩ := passOver_spec hwf idx
    obtain ⟨hwf'', hperm', hmaxCount', hmaxCost', hhead'⟩ := ih hwf'
    exact ⟨hwf'', hperm'.trans hperm, hmaxCount'.trans hmaxCount, hmaxCost'.trans hmaxCost,
      fun j => (hhead' j).trans (hhead j)⟩

theorem headAt_of_reserved (h : q.reserved = some (idx, entry)) : q.headAt idx = some entry := by
  have hstep : ∀ (l : List Nat) (best : Option (Nat × QueueEntry T)),
      (∀ i e, best = some (i, e) → q.headAt i = some e) →
      ∀ i e, l.foldl q.betterReserved best = some (i, e) → q.headAt i = some e := by
    intro l
    induction l with
    | nil => exact fun best hbest => hbest
    | cons j l ih =>
      intro best hbest
      apply ih
      intro i e hie
      unfold betterReserved at hie
      cases hj : q.headAt j with
      | none =>
        rw [hj] at hie
        exact hbest i e hie
      | some head =>
        rw [hj] at hie
        dsimp only at hie
        split at hie
        · split at hie
          · obtain ⟨rfl, rfl⟩ := Prod.mk.inj (Option.some.inj hie)
            exact hj
          · split at hie
            · obtain ⟨rfl, rfl⟩ := Prod.mk.inj (Option.some.inj hie)
              exact hj
            · exact hbest i e hie
        · exact hbest i e hie
  exact hstep q.scan none (fun i e hie => absurd hie.symm (Option.some_ne_none _)) idx entry h

theorem headAt_of_firstFit {maxCost : Nat} {l bypassed bypassed' : List Nat}
    (h : q.firstFit maxCost l bypassed = some (idx, bypassed')) :
    ∃ entry, q.headAt idx = some entry ∧ entry.cost ≤ maxCost := by
  induction l generalizing bypassed with
  | nil => exact absurd h.symm (Option.some_ne_none _)
  | cons j l ih =>
    rw [firstFit] at h
    cases hj : q.headAt j with
    | none =>
      rw [hj] at h
      exact ih h
    | some head =>
      rw [hj] at h
      dsimp only at h
      split at h
      · exact ih h
      · rename_i hfits
        obtain ⟨rfl, -⟩ := Prod.mk.inj (Option.some.inj h)
        exact ⟨head, hj, Nat.le_of_not_lt hfits⟩

/-- The ways in which `dequeue` ends. -/
inductive Dequeues (q : FairCostQueue T) (maxCost : Nat) :
    Option (QueueEntry T) × FairCostQueue T → Prop where
  | empty (hcount : q.count = 0) : Dequeues q maxCost (none, q)
  | blocked {idx : Nat} {head : QueueEntry T} (hres : q.reserved = some (idx, head))
      (hover : maxCost < head.cost) : Dequeues q maxCost (none, q)
  | unfit (hres : q.reserved = none) (hfit : q.firstFit maxCost q.scan [] = none) :
      Dequeues q maxCost (none, q)
  /-- A head leaves, after some pass-overs. -/
  | taken {bypassed : List Nat} {idx : Nat} {head : QueueEntry T} {q' : FairCostQueue T}
      (hhead : (bypassed.foldl passOver q).headAt idx = some head) (hfits : head.cost ≤ maxCost)
      (htake : (bypassed.foldl passOver q).takeAt idx = (some head.fresh, q')) :
      Dequeues q maxCost (some head.fresh, q')

theorem dequeue_dequeues (hwf : Wf q) (maxCost : Nat) : Dequeues q maxCost (q.dequeue maxCost) := by
  unfold dequeue
  split
  · rename_i hcount
    exact .empty hcount
  · cases hres : q.reserved with
    | some best =>
      dsimp only
      split
      · rename_i hover
        exact .blocked hres hover
      · rename_i hfits
        have hhead := headAt_of_reserved hres
        obtain ⟨q', htake, -⟩ := takeAt_spec hwf hhead
        rw [htake]
        exact @Dequeues.taken _ _ _ [] _ _ _ hhead (Nat.le_of_not_lt hfits) htake
    | none =>
      cases hfit : q.firstFit maxCost q.scan [] with
      | none => exact .unfit hres hfit
      | some found =>
        obtain ⟨idx, bypassed⟩ := found
        obtain ⟨head, hhead, hcost⟩ := headAt_of_firstFit hfit
        obtain ⟨hwf', -, -, -, hheads⟩ := foldl_passOver_spec hwf bypassed
        have hfresh := hheads idx
        rw [hhead, Option.map_some] at hfresh
        obtain ⟨head', hhead', hsame⟩ := Option.map_eq_some_iff.mp hfresh
        obtain ⟨q', htake, -⟩ := takeAt_spec hwf' hhead'
        dsimp only
        rw [htake]
        refine .taken hhead' ?_ htake
        have hcost' : head'.fresh.cost = head.fresh.cost := congrArg QueueEntry.cost hsame
        exact hcost'.trans_le hcost

/-- What `dequeue` does: it leaves the queue alone, or takes one entry out that
fits the budget. -/
theorem dequeue_cases (hwf : Wf q) (maxCost : Nat) : q.dequeue maxCost = (none, q) ∨
      ∃ entry q', q.dequeue maxCost = (some entry, q') ∧ Wf q' ∧
        q.entries.Perm (entry :: q'.entries) ∧ entry.cost ≤ maxCost ∧
        q'.maxCount = q.maxCount ∧ q'.maxCost = q.maxCost := by
  have hdequeues := dequeue_dequeues hwf maxCost
  generalize q.dequeue maxCost = result at hdequeues
  cases hdequeues with
  | empty => exact Or.inl rfl
  | blocked => exact Or.inl rfl
  | unfit => exact Or.inl rfl
  | @taken bypassed idx head q' hhead hfits htake =>
    obtain ⟨hwf', hperm, hmaxCount, hmaxCost, -⟩ := foldl_passOver_spec hwf bypassed
    obtain ⟨q'', htake', hwf'', hperm', hmaxCount', hmaxCost'⟩ := takeAt_spec hwf' hhead
    obtain rfl : q' = q'' := congrArg Prod.snd (htake.symm.trans htake')
    exact Or.inr ⟨head.fresh, q', rfl, hwf'', hperm.symm.trans hperm', hfits,
      hmaxCount'.trans hmaxCount, hmaxCost'.trans hmaxCost⟩

/-! ## Removal -/

theorem cursorAfterRemoval_lt {cursor ti n : Nat} (hcursor : cursor < n + 1) (hn : n ≠ 0) :
    cursorAfterRemoval cursor ti n < n := by
  unfold cursorAfterRemoval
  rw [if_neg hn]
  split
  · omega
  · split <;> omega

theorem removeAt_spec (hwf : Wf q) {ti : Nat} (hti : q.order[ti]? = some tenant)
    (hget : q.buckets.get tenant = some bucket) (hidx : bucket[idx]? = some entry) :
    Wf (q.removeAt ti tenant bucket idx entry) ∧
      q.entries.Perm (entry.fresh :: (q.removeAt ti tenant bucket idx entry).entries) ∧
      (q.removeAt ti tenant bucket idx entry).maxCount = q.maxCount ∧
      (q.removeAt ti tenant bucket idx entry).maxCost = q.maxCost := by
  obtain ⟨hlt, rfl⟩ := List.getElem?_eq_some_iff.mp hidx
  have hti' : ti < q.order.length := (List.getElem?_eq_some_iff.mp hti).1
  have hnodup : (JsMap.keys q.buckets).Nodup := hwf.keys ▸ hwf.nodup
  have hgood := good_of_get hwf hget
  have hpick := (getElem_cons_eraseIdx_perm hlt).symm
  have hsum := sumCost_perm hpick
  rw [sumCost_cons] at hsum
  have hlen := hpick.length_eq
  rw [length_cons] at hlen
  have hcount := hwf.count_le
  have hcost := hwf.cost_le
  have hcursor : q.cursor < q.order.length := by
    rcases hwf.cursor with hcursor | ⟨hnil, -⟩
    · exact hcursor
    · rw [hnil] at hti'
      exact absurd hti' (Nat.not_lt_zero _)
  have hperm : q.entries.Perm (bucket[idx].fresh ::
      ((bucket.eraseIdx idx).map QueueEntry.fresh ++ q.others tenant)) :=
    (entries_perm hnodup hget).trans ((hpick.map QueueEntry.fresh).append_right _)
  unfold removeAt
  dsimp only
  split
  · rename_i hempty
    rw [List.isEmpty_iff] at hempty
    rw [hempty] at hperm hsum hlen
    refine ⟨?_, hperm, rfl, rfl⟩
    refine hwf.remove hti hget rfl rfl rfl rfl ?_ ?_ ?_
    · dsimp only
      simp only [length_nil] at hlen
      omega
    · simp only [sumCost, map_nil, sum_nil] at hsum ⊢
      omega
    · have hlen' := length_eraseIdx_of_lt hti'
      by_cases hzero : (q.order.eraseIdx ti).length = 0
      · refine Or.inr ⟨length_eq_zero_iff.mp hzero, ?_⟩
        rw [cursorAfterRemoval, if_pos hzero]
      · exact Or.inl (cursorAfterRemoval_lt (by omega) hzero)
  · rename_i hne
    have hsub : ∀ e ∈ bucket.eraseIdx idx, e ∈ bucket := fun e he =>
      (eraseIdx_sublist ..).subset he
    have hgood' : GoodBucket (tenant, bucket.eraseIdx idx) :=
      ⟨by simpa using hne, fun e he => hgood.tenant e (hsub e he),
        fun e he => hgood.cost_pos e (hsub e he), fun e he => hgood.cost_le e (hsub e he)⟩
    refine ⟨?_, ?_, rfl, rfl⟩
    · refine hwf.replace hget hgood' rfl rfl rfl rfl ?_ ?_ ?_ ?_ hcursor
      all_goals
        dsimp only
        omega
    · refine hperm.trans (List.Perm.cons _ ?_)
      exact (entries_set_perm hnodup tenant (bucket.eraseIdx idx) rfl).symm

/-- The search finds nothing, or the first entry with the id in one of the
buckets. -/
theorem removeFrom_finds (q : FairCostQueue T) (id : Nat) (tenants : List JsString) (ti : Nat)
    (htenants : q.order.drop ti = tenants) :
    q.removeFrom id tenants ti = (none, q) ∨
      ∃ (place : Nat) (tenant : JsString) (bucket : List (QueueEntry T)) (idx : Nat)
        (entry : QueueEntry T),
        q.order[place]? = some tenant ∧ q.buckets.get tenant = some bucket ∧
          bucket[idx]? = some entry ∧ entry.id = id ∧
          q.removeFrom id tenants ti = (some entry, q.removeAt place tenant bucket idx entry) := by
  induction tenants generalizing ti with
  | nil => exact Or.inl rfl
  | cons tenant rest ih =>
    have hrest : q.order.drop (ti + 1) = rest := by
      rw [← tail_drop, htenants, tail_cons]
    have hti : q.order[ti]? = some tenant := by
      rw [← head?_drop, htenants, head?_cons]
    rw [removeFrom]
    cases hget : q.buckets.get tenant with
    | none => exact ih (ti + 1) hrest
    | some bucket =>
      dsimp only
      cases hfind : bucket.findIdx? (fun e => e.id = id) with
      | none => exact ih (ti + 1) hrest
      | some idx =>
        right
        obtain ⟨hlt, hid, -⟩ := findIdx?_eq_some_iff_getElem.mp hfind
        have hidx : bucket[idx]? = some bucket[idx] := getElem?_eq_getElem hlt
        refine ⟨ti, tenant, bucket, idx, bucket[idx], hti, hget, hidx, by simpa using hid, ?_⟩
        dsimp only
        rw [hidx]

/-- What `removeById` does: it leaves the queue alone, or takes out one entry
with the id. -/
theorem removeById_cases (hwf : Wf q) (id : Nat) : q.removeById id = (none, q) ∨
      ∃ entry q', q.removeById id = (some entry, q') ∧ Wf q' ∧
        q.entries.Perm (entry.fresh :: q'.entries) ∧ entry.id = id ∧
        q'.maxCount = q.maxCount ∧ q'.maxCost = q.maxCost := by
  rcases removeFrom_finds q id q.order 0 rfl with hnone | hfound
  · exact Or.inl hnone
  · obtain ⟨place, tenant, bucket, idx, entry, hplace, hget, hidx, hid, hrem⟩ := hfound
    obtain ⟨hwf', hperm, hmaxCount, hmaxCost⟩ := removeAt_spec hwf hplace hget hidx
    exact Or.inr ⟨entry, _, hrem, hwf', hperm, hid, hmaxCount, hmaxCost⟩

theorem removeFrom_none {id : Nat} {tenants : List JsString} {ti : Nat}
    (h : (q.removeFrom id tenants ti).1 = none) (htenant : tenant ∈ tenants)
    (hget : q.buckets.get tenant = some bucket) (he : e ∈ bucket) : e.id ≠ id := by
  induction tenants generalizing ti with
  | nil => exact absurd htenant not_mem_nil
  | cons t rest ih =>
    rw [removeFrom] at h
    rcases mem_cons.mp htenant with rfl | hrest
    · rw [hget] at h
      dsimp only at h
      cases hfind : bucket.findIdx? (fun e => e.id = id) with
      | none =>
        intro hid
        have hnot := findIdx?_eq_none_iff.mp hfind e he
        simp [hid] at hnot
      | some idx =>
        obtain ⟨hlt, -, -⟩ := findIdx?_eq_some_iff_getElem.mp hfind
        rw [hfind] at h
        dsimp only at h
        rw [getElem?_eq_getElem hlt] at h
        exact absurd h (Option.some_ne_none _)
    · cases hother : q.buckets.get t with
      | none =>
        rw [hother] at h
        exact ih h hrest
      | some other =>
        rw [hother] at h
        dsimp only at h
        cases hfind : other.findIdx? (fun e => e.id = id) with
        | none =>
          rw [hfind] at h
          exact ih h hrest
        | some idx =>
          obtain ⟨hlt, -, -⟩ := findIdx?_eq_some_iff_getElem.mp hfind
          rw [hfind] at h
          dsimp only at h
          rw [getElem?_eq_getElem hlt] at h
          exact absurd h (Option.some_ne_none _)

theorem removeById_ne_none (hwf : Wf q) (he : e ∈ q.entries) : (q.removeById e.id).1 ≠ none := by
  obtain ⟨e', hflat, rfl⟩ := mem_map.mp he
  obtain ⟨bucket, hvalue, hmem⟩ := mem_flatten.mp hflat
  obtain ⟨pair, hpair, rfl⟩ := mem_map.mp hvalue
  have hnodup : (JsMap.keys q.buckets).Nodup := hwf.keys ▸ hwf.nodup
  have hkey : pair.1 ∈ q.order := hwf.keys ▸ mem_map_of_mem hpair
  intro hnone
  exact removeFrom_none hnone hkey (JsMap.get_of_mem hnodup hpair) hmem rfl

/-! ## Drain -/

theorem dequeue_ne_none (hwf : Wf q) (hne : q.entries ≠ []) {maxCost : Nat}
    (hfits : ∀ e ∈ q.entries, e.cost ≤ maxCost) : (q.dequeue maxCost).1 ≠ none := by
  have hdequeues := dequeue_dequeues hwf maxCost
  generalize q.dequeue maxCost = result at hdequeues
  cases hdequeues with
  | empty hcount =>
    rw [hwf.count] at hcount
    have hpos := length_pos_iff.mpr hne
    omega
  | @blocked idx head hres hover =>
    have hle : head.cost ≤ maxCost := hfits head.fresh (fresh_mem_entries (headAt_of_reserved hres))
    omega
  | unfit _ hfit =>
    -- the head at the cursor fits
    exfalso
    have hpos : 0 < q.order.length := by
      rw [← hwf.keys, JsMap.keys, length_map, Nat.pos_iff_ne_zero]
      intro hzero
      exact hne (by rw [entries, length_eq_zero_iff.mp hzero]; rfl)
    obtain ⟨n, hn⟩ : ∃ n, q.order.length = n + 1 := ⟨q.order.length - 1, by omega⟩
    obtain ⟨head, hhead, -⟩ := exists_headAt hwf (Nat.mod_lt (q.cursor + 0) hpos)
    have hle : head.cost ≤ maxCost := hfits head.fresh (fresh_mem_entries hhead)
    rw [scan, hn, range_succ_eq_map, map_cons, firstFit, ← hn, hhead] at hfit
    dsimp only at hfit
    rw [if_neg (Nat.not_lt.mpr hle)] at hfit
    exact absurd hfit (Option.some_ne_none _)
  | taken => exact Option.some_ne_none _

theorem dequeue_maxSafe (hwf : Wf q) (hne : q.entries ≠ []) : (q.dequeue maxSafeInteger).1 ≠ none :=
  dequeue_ne_none hwf hne (fun _ he => (cost_of_mem_entries hwf he).2)

theorem drainLoop_spec (hwf : Wf q) {fuel : Nat} (hfuel : q.entries.length = fuel) :
    q.entries.Perm (drainLoop fuel q).1 ∧ Wf (drainLoop fuel q).2 ∧
      (drainLoop fuel q).2.entries = [] := by
  induction fuel generalizing q with
  | zero =>
    have hnil := length_eq_zero_iff.mp hfuel
    exact ⟨by rw [hnil]; exact List.Perm.refl _, hwf, hnil⟩
  | succ fuel ih =>
    have hne : q.entries ≠ [] := fun hnil => by
      rw [hnil] at hfuel
      exact Nat.succ_ne_zero _ hfuel.symm
    rcases dequeue_cases hwf maxSafeInteger with hnone | ⟨entry, q', hdeq, hwf', hperm, -⟩
    · exact absurd (by rw [hnone]) (dequeue_maxSafe hwf hne)
    · have hlen := hperm.length_eq
      rw [length_cons, hfuel] at hlen
      obtain ⟨hout, hwf'', hnil⟩ := ih hwf' (by omega)
      rw [drainLoop, hdeq]
      exact ⟨hperm.trans (hout.cons entry), hwf'', hnil⟩

theorem drain_spec (hwf : Wf q) :
    q.entries.Perm q.drain.1 ∧ Wf q.drain.2 ∧ q.drain.2.entries = [] := by
  obtain ⟨hperm, hwf', hnil⟩ := drainLoop_spec hwf rfl
  have horder : (drainLoop q.entries.length q).2.order = [] := by
    rw [← hwf'.keys]
    by_contra hne
    obtain ⟨k, hk⟩ := exists_mem_of_ne_nil _ hne
    obtain ⟨bucket, hbucket, -⟩ := mem_map.mp hk
    obtain ⟨e, he⟩ := exists_mem_of_ne_nil _ (hwf'.good bucket hbucket).nonempty
    have hmem : e.fresh ∈ (drainLoop q.entries.length q).2.entries :=
      mem_map_of_mem (mem_flatten.mpr ⟨bucket.2, mem_map_of_mem hbucket, he⟩)
    rw [hnil] at hmem
    exact absurd hmem not_mem_nil
  exact ⟨hperm, ⟨hwf'.keys, hwf'.nodup, hwf'.good, hwf'.count, hwf'.cost, hwf'.count_le,
    hwf'.cost_le, Or.inr ⟨horder, rfl⟩⟩, hnil⟩

theorem size_eq (hwf : Wf q) : q.size = q.entries.length := hwf.count

end RedRouter.Admission.FairCostQueue
