import RedRouter.Admission.Moves
import RedRouter.Admission.Accounting

/-!
# Shadow accounting

In shadow mode every lease carries a disposition, and the controller keeps a
virtual account beside the real one: the cost and the number of the leases
that would be active, and a queue of those that would wait.  `ShadowAccount`
says that the virtual account is the one of the live records.

A lease changes its disposition on its own release, on the release of
another lease, and when the configuration changes.  Each of these is one of
five changes of the account (`same`, `charge`, `refund`, `wait`, `leave`), or
the promotion of a waiting lease, and `Books` is kept by every move of the
books.
-/

namespace RedRouter.Admission.Controller

open List JsMap Bool

/-! ## Live records by disposition -/

def liveWith (disposition : VirtualDisposition) (records : JsMap Nat ActiveLeaseRecord) :
    List (Nat × Nat) :=
  (records.filter (fun entry => !entry.2.released && entry.2.virtualDisposition = disposition)).map
    (fun entry => (entry.1, entry.2.cost))

def share (disposition : VirtualDisposition) (id : Nat) (record : ActiveLeaseRecord) :
    List (Nat × Nat) :=
  if record.released = false ∧ record.virtualDisposition = disposition then [(id, record.cost)]
  else []

variable {records : JsMap Nat ActiveLeaseRecord} {id : Nat} {record record' : ActiveLeaseRecord}
  {disposition : VirtualDisposition}

theorem share_released (h : record.released = true) : share disposition id record = [] := by
  rw [share, if_neg (by simp [h])]

theorem share_other (h : record.virtualDisposition ≠ disposition) :
    share disposition id record = [] := by
  rw [share, if_neg (fun hboth => h hboth.2)]

theorem liveWith_cons (disposition : VirtualDisposition) (id : Nat) (record : ActiveLeaseRecord)
    (records : JsMap Nat ActiveLeaseRecord) :
    liveWith disposition ((id, record) :: records) =
      share disposition id record ++ liveWith disposition records := by
  unfold liveWith share
  rw [filter_cons]
  by_cases h : record.released = false ∧ record.virtualDisposition = disposition
  · rw [if_pos h, if_pos (by simp [h.1, h.2])]
    rfl
  · rw [if_neg h, if_neg (by simpa using h)]
    rfl

theorem liveWith_perm {records' : JsMap Nat ActiveLeaseRecord} (h : List.Perm records records') :
    (liveWith disposition records).Perm (liveWith disposition records') :=
  (h.filter _).map _

section

variable (hnodup : (JsMap.keys records).Nodup)
include hnodup

theorem liveWith_set :
    (liveWith disposition (records.set id record)).Perm
      (share disposition id record ++ liveWith disposition (records.delete id)) := by
  rw [← liveWith_cons]
  exact liveWith_perm (set_perm id record hnodup)

theorem liveWith_set_new (hfresh : id ∉ JsMap.keys records) :
    (liveWith disposition (records.set id record)).Perm
      (share disposition id record ++ liveWith disposition records) := by
  have hset := @liveWith_set records id record disposition hnodup
  rwa [delete_of_not_mem hfresh] at hset

/-- A record is written again: the two shares trade places. -/
theorem liveWith_set_get (hget : records.get id = some record) :
    (share disposition id record ++ liveWith disposition (records.set id record')).Perm
      (share disposition id record' ++ liveWith disposition records) := by
  have hold : (liveWith disposition records).Perm
      (share disposition id record ++ liveWith disposition (records.delete id)) := by
    rw [← liveWith_cons]
    exact liveWith_perm (perm_of_get hnodup hget)
  have hnew := @liveWith_set records id record' disposition hnodup
  rw [perm_iff_count] at hold hnew ⊢
  intro lease
  have hold := hold lease
  have hnew := hnew lease
  simp only [count_append] at hold hnew ⊢
  omega

end

theorem mem_liveWith {cost : Nat} (h : (id, cost) ∈ liveWith disposition records) :
    ∃ record, (id, record) ∈ records ∧ record.released = false ∧
      record.virtualDisposition = disposition ∧ record.cost = cost := by
  obtain ⟨⟨id', record⟩, hmem, heq⟩ := mem_map.mp h
  obtain ⟨rfl, rfl⟩ := Prod.mk.inj heq
  obtain ⟨hrecord, hkeep⟩ := mem_filter.mp hmem
  simp only [and_eq_true, not_eq_true', decide_eq_true_eq] at hkeep
  exact ⟨record, hrecord, hkeep.1, hkeep.2, rfl⟩

theorem liveWith_ids_nodup (hnodup : (JsMap.keys records).Nodup) :
    ((liveWith disposition records).map Prod.fst).Nodup := by
  unfold liveWith
  rw [map_map]
  exact hnodup.sublist (filter_sublist.map Prod.fst)

theorem leaseCost_perm {xs ys : List (Nat × Nat)} (h : xs.Perm ys) : leaseCost xs = leaseCost ys :=
  (h.map _).sum_eq

theorem leaseCost_cons (lease : Nat × Nat) (leases : List (Nat × Nat)) :
    leaseCost (lease :: leases) = lease.2 + leaseCost leases := by
  simp [leaseCost]

theorem length_le_leaseCost {leases : List (Nat × Nat)} (h : ∀ lease ∈ leases, 0 < lease.2) :
    (leases.length : Int) ≤ leaseCost leases := by
  induction leases with
  | nil => exact le_refl _
  | cons lease leases ih =>
    have hhead := h lease mem_cons_self
    have htail := ih fun l hl => h l (mem_cons_of_mem _ hl)
    rw [leaseCost_cons, length_cons]
    omega

theorem leaseCost_liveWith_le (disposition : VirtualDisposition)
    (records : JsMap Nat ActiveLeaseRecord) :
    leaseCost (liveWith disposition records) ≤ leaseCost (live records) := by
  induction records with
  | nil => exact le_rfl
  | cons entry records ih =>
    obtain ⟨id, record⟩ := entry
    rw [liveWith_cons, live_cons, leaseCost_append]
    cases hreleased : record.released with
    | true =>
      rw [share_released hreleased]
      exact (zero_add _).trans_le ih
    | false =>
      rw [if_neg Bool.false_ne_true, leaseCost_cons]
      refine add_le_add ?_ ih
      unfold share
      split
      · exact (add_zero (record.cost : Int)).le
      · exact Int.natCast_nonneg _

/-! ## The virtual account -/

def lease (entry : QueueEntry Nat) : Nat × Nat := (entry.id, entry.cost)

/-- The virtual account is the one of the live records. -/
structure ShadowAccount (records : JsMap Nat ActiveLeaseRecord) (q : FairCostQueue Nat)
    (cost count : Int) : Prop where
  wf : q.Wf
  cost_eq : cost = leaseCost (liveWith .active records)
  count_eq : count = (liveWith .active records).length
  cap : cost ≤ maxAdmissionCostOrLimit
  queued : (q.entries.map lease).Perm (liveWith .queued records)
  payload : ∀ entry ∈ q.entries, entry.payload = entry.id

namespace ShadowAccount

variable {records' : JsMap Nat ActiveLeaseRecord} {q q' : FairCostQueue Nat} {cost count : Int}
  {entry : QueueEntry Nat}

section

variable (h : ShadowAccount records q cost count)
include h

theorem same (hactive : (liveWith .active records').Perm (liveWith .active records))
    (hqueued : (liveWith .queued records').Perm (liveWith .queued records)) :
    ShadowAccount records' q cost count := by
  refine ⟨h.wf, ?_, ?_, h.cap, h.queued.trans hqueued.symm, h.payload⟩
  · rw [h.cost_eq, leaseCost_perm hactive]
  · rw [h.count_eq, hactive.length_eq]

/-- A lease becomes active. -/
theorem charge {leaseId leaseCost : Nat}
    (hactive : (liveWith .active records').Perm ((leaseId, leaseCost) :: liveWith .active records))
    (hqueued : (liveWith .queued records').Perm (liveWith .queued records))
    (hcap : cost + leaseCost ≤ maxAdmissionCostOrLimit) :
    ShadowAccount records' q (cost + leaseCost) (count + 1) := by
  refine ⟨h.wf, ?_, ?_, hcap, h.queued.trans hqueued.symm, h.payload⟩
  · rw [leaseCost_perm hactive, leaseCost_cons, h.cost_eq]
    omega
  · rw [hactive.length_eq, length_cons, h.count_eq]
    omega

/-- An active lease is released. -/
theorem refund {leaseId leaseCost : Nat}
    (hactive : (liveWith .active records).Perm ((leaseId, leaseCost) :: liveWith .active records'))
    (hqueued : (liveWith .queued records').Perm (liveWith .queued records)) :
    ShadowAccount records' q (cost - leaseCost) (count - 1) := by
  have hcost := leaseCost_perm hactive
  have hlength := hactive.length_eq
  have hcap := h.cap
  rw [leaseCost_cons] at hcost
  rw [length_cons] at hlength
  refine ⟨h.wf, ?_, ?_, by omega, h.queued.trans hqueued.symm, h.payload⟩
  · rw [h.cost_eq]
    omega
  · rw [h.count_eq]
    omega

/-- A lease waits in the virtual queue. -/
theorem wait (hactive : (liveWith .active records').Perm (liveWith .active records))
    (hqueued : (liveWith .queued records').Perm (lease entry :: liveWith .queued records))
    (hpayload : entry.payload = entry.id) (haccept : q.canAccept entry.cost = true) :
    ShadowAccount records' (q.push entry) cost count := by
  have hentries := FairCostQueue.entries_push h.wf entry
  refine ⟨FairCostQueue.wf_push h.wf haccept, ?_, ?_, h.cap, ?_, ?_⟩
  · rw [h.cost_eq, leaseCost_perm hactive]
  · rw [h.count_eq, hactive.length_eq]
  · exact (hentries.map lease).trans ((h.queued.cons _).trans hqueued.symm)
  · intro e he
    rcases mem_cons.mp (hentries.subset he) with rfl | he
    · exact hpayload
    · exact h.payload e he

/-- A waiting lease leaves the virtual queue. -/
theorem leave (hwf : q'.Wf) (hentries : q.entries.Perm (entry :: q'.entries))
    (hactive : (liveWith .active records').Perm (liveWith .active records))
    (hqueued : (liveWith .queued records).Perm (lease entry :: liveWith .queued records')) :
    ShadowAccount records' q' cost count := by
  refine ⟨hwf, ?_, ?_, h.cap, ?_, ?_⟩
  · rw [h.cost_eq, leaseCost_perm hactive]
  · rw [h.count_eq, hactive.length_eq]
  · have hleft := (hentries.map lease).symm.trans (h.queued.trans hqueued)
    exact hleft.cons_inv
  · exact fun e he => h.payload e (hentries.symm.subset (mem_cons_of_mem _ he))

/-- A waiting lease becomes active. -/
theorem promote (hwf : q'.Wf) (hentries : q.entries.Perm (entry :: q'.entries))
    (hactive : (liveWith .active records').Perm (lease entry :: liveWith .active records))
    (hqueued : (liveWith .queued records).Perm (lease entry :: liveWith .queued records'))
    (hcap : cost + entry.cost ≤ maxAdmissionCostOrLimit) :
    ShadowAccount records' q' (cost + entry.cost) (count + 1) := by
  refine ⟨hwf, ?_, ?_, hcap, ?_, ?_⟩
  · rw [leaseCost_perm hactive, leaseCost_cons, h.cost_eq]
    show leaseCost (liveWith .active records) + (entry.cost : Int) = _
    exact Int.add_comm _ _
  · rw [hactive.length_eq, length_cons, h.count_eq]
    omega
  · have hleft := (hentries.map lease).symm.trans (h.queued.trans hqueued)
    exact hleft.cons_inv
  · exact fun e he => h.payload e (hentries.symm.subset (mem_cons_of_mem _ he))

theorem record_of_entry (hnodup : (JsMap.keys records).Nodup) (hentry : entry ∈ q.entries) :
    ∃ record, records.get entry.id = some record ∧ record.released = false ∧
      record.virtualDisposition = .queued ∧ record.cost = entry.cost := by
  have hmem : lease entry ∈ liveWith .queued records :=
    h.queued.subset (mem_map_of_mem hentry)
  obtain ⟨record, hrecord, hreleased, hdisposition, hcost⟩ := mem_liveWith hmem
  exact ⟨record, JsMap.get_of_mem hnodup hrecord, hreleased, hdisposition, hcost⟩

theorem entry_of_record (hget : records.get id = some record) (hreleased : record.released = false)
    (hdisposition : record.virtualDisposition = .queued) :
    ∃ entry ∈ q.entries, lease entry = (id, record.cost) := by
  have hmem : (id, record.cost) ∈ liveWith .queued records := by
    refine mem_map.mpr ⟨(id, record), mem_filter.mpr ⟨mem_of_get hget, ?_⟩, rfl⟩
    simp [hreleased, hdisposition]
  exact mem_map.mp (h.queued.symm.subset hmem)

end

end ShadowAccount

/-! ## The books -/

structure Books (s : Controller) : Prop where
  recorded : Recorded s
  limit_pos : 0 < s.adaptation.currentLimit
  limit_le : s.adaptation.currentLimit ≤ maxAdmissionCostOrLimit
  cost_pos : ∀ entry ∈ s.records, 0 < entry.2.cost
  shadow : ShadowAccount s.records s.virtualQueue s.virtualActiveCost s.virtualActiveCount
  counters : 0 ≤ s.wouldAdmitCount ∧ 0 ≤ s.wouldQueueCount ∧ 0 ≤ s.wouldRejectCount

variable {env : Env} {s s' : Controller}

theorem Books.of_view (h : Books s) (hview : booksView s' = booksView s)
    (hseq : s.leaseSeq ≤ s'.leaseSeq) : Books s' := by
  simp only [booksView, BooksView.mk.injEq] at hview
  obtain ⟨hlimit, hrecords, hactive, hactiveCost, hqueue, hcost, hcount, hwould⟩ := hview
  refine ⟨h.recorded.of_eq hrecords hactive hactiveCost hseq, ?_, ?_, ?_, ?_, ?_⟩
  · exact hlimit ▸ h.limit_pos
  · exact hlimit ▸ h.limit_le
  · exact hrecords ▸ h.cost_pos
  · rw [hrecords, hqueue, hcost, hcount]
    exact h.shadow
  · rw [hwould.1, hwould.2.1, hwould.2.2]
    exact h.counters

theorem addSaturated_eq {total : Int} {delta : Nat} (hpos : 0 < delta)
    (hcap : total + delta ≤ maxAdmissionCostOrLimit) : addSaturated total delta = total + delta := by
  have hbound : (maxAdmissionCostOrLimit : Int) < maxSafeInteger := by decide
  unfold addSaturated
  rw [if_neg (by omega), if_neg (by omega)]

/-- The number of virtually active leases stays below the maximal cost too. -/
theorem Books.count_le (h : Books s) : s.virtualActiveCount ≤ s.virtualActiveCost := by
  rw [h.shadow.cost_eq, h.shadow.count_eq]
  apply length_le_leaseCost
  intro lease hlease
  obtain ⟨entry, hentry, rfl⟩ := mem_map.mp hlease
  exact h.cost_pos entry (mem_filter.mp hentry).1

theorem Books.charge_eq (h : Books s) {cost : Nat} (hpos : 0 < cost)
    (hcap : s.virtualActiveCost + cost ≤ maxAdmissionCostOrLimit) :
    addSaturated s.virtualActiveCost cost = s.virtualActiveCost + cost ∧
      addSaturated s.virtualActiveCount 1 = s.virtualActiveCount + 1 := by
  have hcount := h.count_le
  exact ⟨addSaturated_eq hpos hcap, @addSaturated_eq s.virtualActiveCount 1 Nat.one_pos (by omega)⟩

theorem Recorded.activeRecord_eq (h : Recorded s) (hget : s.records.get id = some record)
    (hreleased : record.released = false) : s.activeRecord id = some record := by
  have hmem : id ∈ s.active := by
    rw [h.active]
    refine mem_map.mpr ⟨(id, record.cost), mem_map.mpr ⟨(id, record), ?_, rfl⟩, rfl⟩
    exact mem_filter.mpr ⟨mem_of_get hget, by simp [hreleased]⟩
  rw [activeRecord, if_pos hmem, hget]

theorem Recorded.get_of_active (h : Recorded s) (hid : id ∈ s.active) :
    ∃ record, s.records.get id = some record ∧ record.released = false := by
  rw [h.active] at hid
  obtain ⟨lease, hlease, rfl⟩ := mem_map.mp hid
  obtain ⟨entry, hentry, rfl⟩ := mem_map.mp hlease
  obtain ⟨hmem, hlive⟩ := mem_filter.mp hentry
  exact ⟨entry.2, JsMap.get_of_mem h.nodup hmem, by simpa using hlive⟩

/-! ## Records -/

theorem setDisposition_of_get (hget : s.records.get id = some record)
    (disposition : VirtualDisposition) :
    s.setDisposition id disposition =
      { s with records := s.records.set id { record with virtualDisposition := disposition } } := by
  unfold setDisposition
  rw [hget]

variable {q : FairCostQueue Nat}

theorem Books.setDisposition (h : Books s) (hget : s.records.get id = some record)
    {cost count : Int} (hshadow : ShadowAccount
      (s.records.set id { record with virtualDisposition := disposition }) q cost count) :
    Books { s.setDisposition id disposition with
      virtualQueue := q, virtualActiveCost := cost, virtualActiveCount := count } := by
  have hrecorded := recorded_setDisposition h.recorded id disposition
  rw [setDisposition_of_get hget] at hrecorded ⊢
  refine ⟨hrecorded.of_eq rfl rfl rfl le_rfl, h.limit_pos, h.limit_le, ?_, hshadow, h.counters⟩
  intro entry hentry
  rcases mem_set_cases h.recorded.nodup hentry with rfl | hentry
  · have hpos := h.cost_pos _ (mem_of_get hget)
    exact hpos
  · exact h.cost_pos entry hentry

theorem liveWith_setDisposition (hnodup : (JsMap.keys records).Nodup)
    (hget : records.get id = some record) (hreleased : record.released = false)
    (target disposition : VirtualDisposition) :
    (share disposition id record ++ liveWith disposition
      (records.set id { record with virtualDisposition := target })).Perm
        ((if target = disposition then [(id, record.cost)] else []) ++
          liveWith disposition records) := by
  have htrade := @liveWith_set_get records id record { record with virtualDisposition := target }
    disposition hnodup hget
  rw [share.eq_def disposition id { record with virtualDisposition := target }] at htrade
  simpa [hreleased] using htrade

/-! ## Promotion -/

theorem books_promote (h : Books s) {entry : QueueEntry Nat} (hwf : q.Wf)
    (hperm : s.virtualQueue.entries.Perm (entry :: q.entries))
    (hfits : s.virtualActiveCost + entry.cost ≤ s.adaptation.currentLimit) :
    ∃ record, activeRecord { s with virtualQueue := q } entry.payload = some record ∧
      record.released = false ∧
      Books ((({ s with virtualQueue := q } : Controller).setDisposition entry.payload
        .active).addVirtualActive record.cost) := by
  have hmem : entry ∈ s.virtualQueue.entries := hperm.symm.subset mem_cons_self
  obtain ⟨record, hget, hreleased, hdisposition, hcost⟩ :=
    h.shadow.record_of_entry h.recorded.nodup hmem
  have hpayload := h.shadow.payload entry hmem
  have hlimit := h.limit_le
  have hpos := h.cost_pos _ (mem_of_get hget)
  dsimp only at hpos
  have hactive := liveWith_setDisposition h.recorded.nodup hget hreleased .active .active
  have hqueued := liveWith_setDisposition h.recorded.nodup hget hreleased .active .queued
  have hlease : (entry.id, record.cost) = lease entry := by
    rw [hcost]
    rfl
  rw [share_other (by rw [hdisposition]; decide), nil_append, if_pos rfl, hlease] at hactive
  rw [share, if_pos ⟨hreleased, hdisposition⟩, if_neg (by decide), nil_append, hlease]
    at hqueued
  have hshadow := h.shadow.promote hwf hperm hactive hqueued.symm (by omega)
  refine ⟨record, ?_, hreleased, ?_⟩
  · rw [hpayload]
    exact h.recorded.activeRecord_eq hget hreleased
  · obtain ⟨hcostSum, hcountSum⟩ := h.charge_eq hpos (show _ ≤ _ by omega)
    have hcharged := h.setDisposition hget hshadow
    rw [setDisposition_of_get hget, ← hcost, ← hcostSum, ← hcountSum] at hcharged
    rw [hpayload, setDisposition_of_get (s := { s with virtualQueue := q }) hget]
    exact hcharged

theorem books_dispatchVirtualLoop (fuel : Nat) (h : Books s) :
    Books (dispatchVirtualLoop fuel s) := by
  induction fuel generalizing s with
  | zero => exact h
  | succ fuel ih =>
    rw [dispatchVirtualLoop]
    split
    · dsimp only
      split
      · exact h
      · rcases FairCostQueue.dequeue_cases h.shadow.wf
            ((s.adaptation.currentLimit : Int) - s.virtualActiveCost).toNat with
          hnone | ⟨entry, q, hdeq, hwf, hperm, hle, -⟩
        · rw [hnone]
          exact h
        · obtain ⟨record, hrecord, hreleased, hbooks⟩ := books_promote h hwf hperm (by omega)
          rw [hdeq]
          dsimp only
          rw [hrecord]
          dsimp only
          rw [if_neg (by rw [hreleased]; exact Bool.false_ne_true)]
          exact ih hbooks
    · exact h

/-! ## New leases -/

/-- The books after a new lease, with whatever became of the virtual
account. -/
theorem Books.addLease (h : Books s) (hid : record.id = s.leaseSeq + 1)
    (hreleased : record.released = false) (hcost : 0 < record.cost)
    (hlimit : s'.adaptation.currentLimit = s.adaptation.currentLimit)
    (hrecords : s'.records = s.records.set record.id record)
    (hactive : s'.active = s.active ++ [record.id])
    (hactiveCost : s'.activeCost = s.activeCost + record.cost) (hseq : record.id ≤ s'.leaseSeq)
    (hshadow : ShadowAccount (s.records.set record.id record) s'.virtualQueue s'.virtualActiveCost
      s'.virtualActiveCount)
    (hcounters : 0 ≤ s'.wouldAdmitCount ∧ 0 ≤ s'.wouldQueueCount ∧ 0 ≤ s'.wouldRejectCount) :
    Books s' := by
  have hrecorded := (recorded_addLease h.recorded hid hreleased).of_eq hrecords hactive hactiveCost
    hseq
  refine ⟨hrecorded, ?_, ?_, ?_, ?_, hcounters⟩
  · rw [hlimit]
    exact h.limit_pos
  · rw [hlimit]
    exact h.limit_le
  · rw [hrecords]
    intro entry hentry
    rcases mem_set_cases h.recorded.nodup hentry with rfl | hentry
    · exact hcost
    · exact h.cost_pos entry hentry
  · rw [hrecords]
    exact hshadow

theorem Books.fresh (h : Books s) (hid : record.id = s.leaseSeq + 1) :
    record.id ∉ JsMap.keys s.records := by
  intro hmem
  have hle := h.recorded.ids _ hmem
  omega

theorem ShadowAccount.grant {cost count : Int} (h : ShadowAccount records q cost count)
    (hnodup : (JsMap.keys records).Nodup) (hfresh : id ∉ JsMap.keys records)
    (hactive : record.virtualDisposition ≠ .active) (hqueued : record.virtualDisposition ≠ .queued) :
    ShadowAccount (records.set id record) q cost count := by
  have hactives := @liveWith_set_new records id record .active hnodup hfresh
  have hqueueds := @liveWith_set_new records id record .queued hnodup hfresh
  rw [share_other hactive] at hactives
  rw [share_other hqueued] at hqueueds
  exact h.same hactives hqueueds

theorem books_grant (h : Books s) (hid : record.id = s.leaseSeq + 1)
    (hreleased : record.released = false) (hcost : 0 < record.cost)
    (hnone : record.virtualDisposition = .none) : Books (s.addLease record) := by
  have hactive : record.virtualDisposition ≠ .active := by
    rw [hnone]
    decide
  have hqueued : record.virtualDisposition ≠ .queued := by
    rw [hnone]
    decide
  have hshadow := h.shadow.grant h.recorded.nodup (h.fresh hid) hactive hqueued
  exact h.addLease hid hreleased hcost rfl rfl rfl rfl le_rfl hshadow h.counters

theorem admitLease_books (env : Env) (call cost : Nat) (disposition : VirtualDisposition)
    (s : Controller) :
    ∃ record : ActiveLeaseRecord, record.id = s.leaseSeq + 1 ∧ record.cost = cost ∧
      record.released = false ∧ record.virtualDisposition = disposition ∧
      (s.admitLease env call cost disposition).leaseSeq = record.id ∧
      booksView (s.admitLease env call cost disposition) =
        { booksView s with
          records := s.records.set record.id record
          active := s.active ++ [record.id]
          activeCost := s.activeCost + record.cost } := by
  obtain ⟨hview, hseq⟩ := booksView_sampleIntegral env s
  have hrecords : (s.sampleIntegral env).records = s.records := congrArg BooksView.records hview
  have hactive : (s.sampleIntegral env).active = s.active := congrArg BooksView.active hview
  have hcost : (s.sampleIntegral env).activeCost = s.activeCost :=
    congrArg BooksView.activeCost hview
  refine ⟨{
    id := (s.sampleIntegral env).leaseSeq + 1
    cost := cost
    released := false
    admittedAtMs := (s.sampleIntegral env).now env
    virtualDisposition := disposition }, ?_, rfl, rfl, rfl, rfl, ?_⟩
  · exact congrArg (· + 1) hseq
  · rw [← hview, ← hrecords, ← hactive, ← hcost]
    rfl

/-- An admission that follows a shadow decision: the decision has moved the
virtual account and the counters, and the new record is yet to come. -/
theorem Books.admitLease (h : Books s) {t : Controller} (call : Nat) {cost : Nat} (hcost : 0 < cost)
    (disposition : VirtualDisposition)
    (hview : booksView t = { booksView s with
      virtualActiveCost := t.virtualActiveCost
      virtualActiveCount := t.virtualActiveCount
      wouldAdmitCount := t.wouldAdmitCount
      wouldQueueCount := t.wouldQueueCount
      wouldRejectCount := t.wouldRejectCount })
    (hseq : t.leaseSeq = s.leaseSeq)
    (hcounters : 0 ≤ t.wouldAdmitCount ∧ 0 ≤ t.wouldQueueCount ∧ 0 ≤ t.wouldRejectCount) :
    ∃ record : ActiveLeaseRecord, record.id ∉ JsMap.keys s.records ∧ record.cost = cost ∧
      record.released = false ∧ record.virtualDisposition = disposition ∧
      (t.admitLease env call cost disposition).leaseSeq = record.id ∧
      (t.admitLease env call cost disposition).virtualQueue = s.virtualQueue ∧
      ∀ s' : Controller, booksView s' = { booksView (t.admitLease env call cost disposition) with
          virtualQueue := s'.virtualQueue } →
        s'.leaseSeq = (t.admitLease env call cost disposition).leaseSeq →
        ShadowAccount (s.records.set record.id record) s'.virtualQueue t.virtualActiveCost
          t.virtualActiveCount → Books s' := by
  obtain ⟨record, hid, hrecordCost, hreleased, hdisposition, hseq', hview'⟩ :=
    admitLease_books env call cost disposition t
  rw [hseq] at hid
  rw [hview] at hview'
  have hrecords : t.records = s.records := congrArg BooksView.records hview
  have hactive : t.active = s.active := congrArg BooksView.active hview
  have hactiveCost : t.activeCost = s.activeCost := congrArg BooksView.activeCost hview
  rw [hrecords, hactive, hactiveCost] at hview'
  refine ⟨record, h.fresh hid, hrecordCost, hreleased, hdisposition, hseq',
    congrArg BooksView.virtualQueue hview', ?_⟩
  intro s' hstored hstoredSeq hshadow
  rw [hview'] at hstored
  have hvirtualCost : s'.virtualActiveCost = t.virtualActiveCost :=
    congrArg BooksView.virtualActiveCost hstored
  have hvirtualCount : s'.virtualActiveCount = t.virtualActiveCount :=
    congrArg BooksView.virtualActiveCount hstored
  have hwouldAdmit : s'.wouldAdmitCount = t.wouldAdmitCount :=
    congrArg BooksView.wouldAdmitCount hstored
  have hwouldQueue : s'.wouldQueueCount = t.wouldQueueCount :=
    congrArg BooksView.wouldQueueCount hstored
  have hwouldReject : s'.wouldRejectCount = t.wouldRejectCount :=
    congrArg BooksView.wouldRejectCount hstored
  refine h.addLease hid hreleased (hrecordCost ▸ hcost) (congrArg BooksView.currentLimit hstored)
    (congrArg BooksView.records hstored) (congrArg BooksView.active hstored)
    (congrArg BooksView.activeCost hstored) (hstoredSeq.trans hseq').ge ?_ ?_
  · rw [hvirtualCost, hvirtualCount]
    exact hshadow
  · rw [hwouldAdmit, hwouldQueue, hwouldReject]
    exact hcounters

theorem addSaturated_nonneg {total : Int} (htotal : 0 ≤ total) (delta : Nat) :
    0 ≤ addSaturated total delta := by
  unfold addSaturated saturateSnapshotNumber
  split
  · split
    · exact le_refl _
    · split <;> omega
  · split <;> omega

theorem books_acquireShadow (call : Nat) (request : Request) {cost : Nat} (hcost : 0 < cost)
    (h : Books s) : Books (s.acquireShadow env call request cost) := by
  have hlimit := h.limit_le
  have hnodup := h.recorded.nodup
  obtain ⟨hgranted, hqueue, hreject⟩ := h.counters
  -- a rejected lease is outside the virtual account
  have hrejected : Books (({ s with wouldRejectCount := s.wouldRejectCount + 1 } :
      Controller).admitLease env call cost .rejected) := by
    obtain ⟨record, hfresh, -, -, hdisposition, -, hvirtual, hbooks⟩ := @Books.admitLease env s h
      { s with wouldRejectCount := s.wouldRejectCount + 1 } call cost hcost .rejected rfl rfl
      ⟨hgranted, hqueue, by dsimp only; omega⟩
    have hshadow := h.shadow.grant hnodup hfresh (by rw [hdisposition]; decide)
      (by rw [hdisposition]; decide)
    exact hbooks _ rfl rfl (by rw [hvirtual]; exact hshadow)
  unfold acquireShadow shadowDecision
  by_cases hover : cost > s.adaptation.currentLimit ∨ cost > maxSafeInteger
  · rw [if_pos hover]
    exact hrejected
  · rw [if_neg hover]
    by_cases hfits : s.virtualActiveCost + cost ≤ s.adaptation.currentLimit
    · rw [if_pos hfits]
      obtain ⟨hcostSum, hcountSum⟩ := h.charge_eq hcost (show _ ≤ _ by omega)
      obtain ⟨record, hfresh, hrecordCost, hreleased, hdisposition, -, hvirtual, hbooks⟩ :=
        @Books.admitLease env s h
          { s.addVirtualActive cost with wouldAdmitCount := addSaturated s.wouldAdmitCount 1 }
          call cost hcost .active rfl rfl ⟨addSaturated_nonneg hgranted 1, hqueue, hreject⟩
      have hactive := @liveWith_set_new s.records record.id record .active hnodup hfresh
      have hqueued := @liveWith_set_new s.records record.id record .queued hnodup hfresh
      rw [share, if_pos ⟨hreleased, hdisposition⟩, hrecordCost] at hactive
      rw [share_other (by rw [hdisposition]; decide)] at hqueued
      have hshadow := h.shadow.charge hactive hqueued (by omega)
      rw [← hcostSum, ← hcountSum] at hshadow
      dsimp only
      exact hbooks _ rfl rfl (hvirtual.symm ▸ hshadow)
    · rw [if_neg hfits]
      by_cases haccept : s.virtualQueue.canAccept cost = true
      · rw [if_pos haccept]
        obtain ⟨record, hfresh, hrecordCost, hreleased, hdisposition, hseq, hvirtual, hbooks⟩ :=
          @Books.admitLease env s h { s with wouldQueueCount := s.wouldQueueCount + 1 } call cost
            hcost .queued rfl rfl ⟨hgranted, by dsimp only; omega, hreject⟩
        dsimp only
        rw [if_pos rfl, hseq, hvirtual, FairCostQueue.enqueue, if_pos haccept]
        have hactive := @liveWith_set_new s.records record.id record .active hnodup hfresh
        have hqueued := @liveWith_set_new s.records record.id record .queued hnodup hfresh
        rw [share_other (by rw [hdisposition]; decide)] at hactive
        rw [share, if_pos ⟨hreleased, hdisposition⟩, hrecordCost] at hqueued
        refine hbooks _ rfl rfl ?_
        refine h.shadow.wait hactive ?_ rfl haccept
        exact hqueued
      · rw [if_neg haccept]
        exact hrejected

/-! ## Releases -/

theorem liveWith_released (hnodup : (JsMap.keys records).Nodup)
    (hget : records.get id = some record) (disposition : VirtualDisposition) :
    (share disposition id record ++
      liveWith disposition (records.set id { record with released := true })).Perm
        (liveWith disposition records) := by
  have htrade := @liveWith_set_get records id record { record with released := true } disposition
    hnodup hget
  rwa [@share_released id { record with released := true } disposition rfl, nil_append]
    at htrade

theorem books_setDisposition_released (h : Books s) (hget : s.records.get id = some record)
    (hreleased : record.released = true) (disposition : VirtualDisposition) :
    Books (s.setDisposition id disposition) := by
  have hshares : ∀ d, (liveWith d
      (s.records.set id { record with virtualDisposition := disposition })).Perm
        (liveWith d s.records) := by
    intro d
    have htrade := @liveWith_set_get s.records id record
      { record with virtualDisposition := disposition } d h.recorded.nodup hget
    rwa [share_released hreleased,
      @share_released id { record with virtualDisposition := disposition } d hreleased,
      nil_append, nil_append] at htrade
  have hkept := h.setDisposition hget (h.shadow.same (hshares .active) (hshares .queued))
  rw [setDisposition_of_get hget] at hkept ⊢
  exact hkept

/-- The virtual account after a release, by the disposition of the lease. -/
theorem ShadowAccount.released {cost count : Int} (h : ShadowAccount records q cost count)
    (hnodup : (JsMap.keys records).Nodup) (hget : records.get id = some record)
    (hreleased : record.released = false) {records' : JsMap Nat ActiveLeaseRecord}
    (hset : records.set id { record with released := true } = records') :
    match record.virtualDisposition with
    | .active => ShadowAccount records' q (cost - record.cost) (count - 1)
    | .queued => ShadowAccount records' (q.removeById id).2 cost count
    | _ => ShadowAccount records' q cost count := by
  have hactive := liveWith_released hnodup hget .active
  have hqueued := liveWith_released hnodup hget .queued
  rw [hset] at hactive hqueued
  cases hdisposition : record.virtualDisposition with
  | active =>
    rw [share, if_pos ⟨hreleased, hdisposition⟩] at hactive
    rw [share_other (by rw [hdisposition]; decide)] at hqueued
    exact h.refund hactive.symm hqueued
  | queued =>
    rw [share_other (by rw [hdisposition]; decide)] at hactive
    rw [share, if_pos ⟨hreleased, hdisposition⟩] at hqueued
    obtain ⟨entry, hentry, hlease⟩ := h.entry_of_record hget hreleased hdisposition
    obtain ⟨hentryId, hentryCost⟩ := Prod.mk.inj hlease
    have hfound := FairCostQueue.removeById_ne_none h.wf hentry
    rw [hentryId] at hfound
    rcases FairCostQueue.removeById_cases h.wf id with
      hnone | ⟨entry', q', hrem, hwf, hperm, hid, -⟩
    · rw [hnone] at hfound
      exact absurd rfl hfound
    · rw [hrem]
      -- the ids of the waiting leases are unique, so the found entry is the one of the record
      have hmem : entry'.fresh ∈ q.entries := hperm.symm.subset mem_cons_self
      obtain ⟨record', hget', -, -, hcost'⟩ := h.record_of_entry hnodup hmem
      have hid' : entry'.fresh.id = id := hid
      rw [hid', hget] at hget'
      obtain rfl := Option.some.inj hget'
      have hlease' : lease entry'.fresh = (id, record.cost) := by
        rw [lease, hid', hcost']
      refine h.leave hwf hperm hactive ?_
      rw [hlease']
      exact hqueued.symm
  | rejected =>
    rw [share_other (by rw [hdisposition]; decide)] at hactive hqueued
    exact h.same hactive hqueued
  | none =>
    rw [share_other (by rw [hdisposition]; decide)] at hactive hqueued
    exact h.same hactive hqueued

theorem books_retire {leaseId : Nat} (h : Books s) (hget : s.records.get leaseId = some record)
    (hreleased : record.released = false) : Books (s.retire leaseId record) := by
  have hnodup := h.recorded.nodup
  obtain rfl : record.id = leaseId := h.recorded.record_id _ (mem_of_get hget)
  obtain ⟨hrecorded, -⟩ := @recorded_dropLease record.id record s
    { s with records := s.records.set record.id { record with released := true } } h.recorded hget
    hreleased rfl rfl rfl le_rfl
  have hdropped : booksView (dropLease record
      { s with records := s.records.set record.id { record with released := true } }) =
        { booksView s with
          records := s.records.set record.id { record with released := true }
          active := (dropLease record { s with
            records := s.records.set record.id { record with released := true } }).active
          activeCost := (dropLease record { s with
            records := s.records.set record.id { record with released := true } }).activeCost } := by
    unfold dropLease
    split <;> rfl
  unfold retire
  generalize dropLease record
    { s with records := s.records.set record.id { record with released := true } } = t
    at hrecorded hdropped ⊢
  have hrecords : t.records = s.records.set record.id { record with released := true } :=
    congrArg BooksView.records hdropped
  have hget' : t.records.get record.id = some { record with released := true } := by
    rw [hrecords, get_set, if_pos rfl]
  -- the books of the account without the lease, whatever the disposition
  have hbooks : ∀ t' : Controller, booksView t' = { booksView t with
      virtualQueue := t'.virtualQueue
      virtualActiveCost := t'.virtualActiveCost
      virtualActiveCount := t'.virtualActiveCount } → t'.leaseSeq = t.leaseSeq →
      ShadowAccount t.records t'.virtualQueue t'.virtualActiveCost t'.virtualActiveCount →
      Books (t'.setDisposition record.id .none) := by
    intro t' hview hseq hshadow
    simp only [booksView, BooksView.mk.injEq] at hview hdropped
    obtain ⟨hlimit, hrecords', hactive, hactiveCost, -, -, -, hwould⟩ := hview
    have hkept : Books t' := by
      refine ⟨hrecorded.of_eq hrecords' hactive hactiveCost hseq.ge, ?_, ?_, ?_, ?_, ?_⟩
      · rw [hlimit, hdropped.1]
        exact h.limit_pos
      · rw [hlimit, hdropped.1]
        exact h.limit_le
      · rw [hrecords', hrecords]
        intro entry hentry
        rcases mem_set_cases hnodup hentry with rfl | hentry
        · exact h.cost_pos (record.id, record) (mem_of_get hget)
        · exact h.cost_pos entry hentry
      · rw [hrecords']
        exact hshadow
      · rw [hwould.1, hwould.2.1, hwould.2.2]
        simp only [hdropped]
        exact h.counters
    have hmarked : t'.records.get record.id = some { record with released := true } := by
      rw [hrecords']
      exact hget'
    exact books_setDisposition_released hkept hmarked rfl .none
  have hshadow := h.shadow.released hnodup hget hreleased hrecords.symm
  simp only [booksView, BooksView.mk.injEq] at hdropped
  obtain ⟨-, -, -, -, hqueue, hcost, hcount, -⟩ := hdropped
  rw [← hqueue, ← hcost, ← hcount] at hshadow
  unfold withdrawVirtual
  cases hdisposition : record.virtualDisposition
  all_goals
    rw [hdisposition] at hshadow
    exact hbooks _ rfl rfl hshadow

/-! ## Rebuilding -/

/-- After the reset no live record has a place in the virtual account. -/
theorem reset_records {ids : List Nat} {s : Controller} (hnodup : (JsMap.keys s.records).Nodup)
    (hlive : ∀ entry ∈ s.records, entry.2.released = false →
      entry.1 ∈ ids ∨ entry.2.virtualDisposition = .none) :
    ∀ entry ∈ (ids.foldl (fun s id => s.setDisposition id .none) s).records,
      entry.2.released = false → entry.2.virtualDisposition = .none := by
  induction ids generalizing s with
  | nil =>
    intro entry hentry hreleased
    exact (hlive entry hentry hreleased).resolve_left not_mem_nil
  | cons id ids ih =>
    rw [foldl_cons]
    unfold setDisposition
    cases hget : s.records.get id with
    | none =>
      refine ih hnodup ?_
      intro entry hentry hreleased
      rcases hlive entry hentry hreleased with hmem | hnone
      · rcases mem_cons.mp hmem with rfl | hmem
        · have hkey : entry.1 ∈ JsMap.keys s.records := mem_map_of_mem hentry
          exact absurd hkey (get_eq_none_iff.mp hget)
        · exact Or.inl hmem
      · exact Or.inr hnone
    | some record =>
      refine ih (nodup_keys_set hnodup) ?_
      intro entry hentry hreleased
      rcases mem_set_cases hnodup hentry with rfl | hold
      · exact Or.inr rfl
      · rcases hlive entry hold hreleased with hmem | hnone
        · rcases mem_cons.mp hmem with hid | hmem
          · -- the old entry of the written id is not there any more
            have hset : (s.records.set id { record with virtualDisposition := .none }).get entry.1 =
                some entry.2 := JsMap.get_of_mem (nodup_keys_set hnodup) hentry
            rw [get_set, if_pos hid.symm] at hset
            right
            rw [← Option.some.inj hset]
          · exact Or.inl hmem
        · exact Or.inr hnone

theorem liveWith_eq_nil (h : ∀ entry ∈ records, entry.2.released = false →
    entry.2.virtualDisposition = .none) (hne : disposition ≠ .none) :
    liveWith disposition records = [] := by
  rw [liveWith, map_eq_nil_iff, filter_eq_nil_iff]
  intro entry hentry hkeep
  simp only [and_eq_true, not_eq_true', decide_eq_true_eq] at hkeep
  exact hne (hkeep.2.symm.trans (h entry hentry hkeep.1))

theorem setDisposition_get_other {other : Nat} (hne : other ≠ id)
    (disposition : VirtualDisposition) (s : Controller) :
    (s.setDisposition id disposition).records.get other = s.records.get other := by
  unfold setDisposition
  split
  · rfl
  · rw [get_set, if_neg (fun heq => hne heq.symm)]

theorem rebuildRecord_get_other {other : Nat} (hne : other ≠ id) (s : Controller) :
    (s.rebuildRecord id).records.get other = s.records.get other := by
  unfold rebuildRecord
  split
  · rfl
  · split
    · exact setDisposition_get_other hne _ s
    · split
      · exact setDisposition_get_other hne _ s
      · split <;> exact setDisposition_get_other hne _ s

theorem books_rebuildRecord (h : Books s) (hget : s.records.get id = some record)
    (hreleased : record.released = false) (hnone : record.virtualDisposition = .none) :
    Books (s.rebuildRecord id) := by
  have hnodup := h.recorded.nodup
  have hlimit := h.limit_le
  have hpos := h.cost_pos _ (mem_of_get hget)
  obtain rfl : record.id = id := h.recorded.record_id _ (mem_of_get hget)
  dsimp only at hpos
  have hshares : ∀ target disposition, disposition ≠ .none →
      (liveWith disposition (s.records.set record.id { record with virtualDisposition := target })).Perm
        ((if target = disposition then [(record.id, record.cost)] else []) ++
          liveWith disposition s.records) := by
    intro target disposition hne
    have htrade := liveWith_setDisposition hnodup hget hreleased target disposition
    rwa [share_other (by rw [hnone]; exact hne.symm), nil_append] at htrade
  have hrejected : Books (s.setDisposition record.id .rejected) := by
    have hshadow := h.shadow.same (hshares .rejected .active (by decide))
      (hshares .rejected .queued (by decide))
    have hkept := h.setDisposition hget hshadow
    rw [setDisposition_of_get hget] at hkept ⊢
    exact hkept
  unfold rebuildRecord
  rw [hget]
  dsimp only
  split
  · exact hrejected
  · split
    · have hactive := hshares .active .active (by decide)
      have hshadow := h.shadow.charge hactive (hshares .active .queued (by decide)) (by omega)
      obtain ⟨hcostSum, hcountSum⟩ := h.charge_eq hpos (show _ ≤ _ by omega)
      have hkept := h.setDisposition hget hshadow
      rw [setDisposition_of_get hget, ← hcostSum, ← hcountSum] at hkept
      rw [setDisposition_of_get hget]
      exact hkept
    · split
      · rename_i q hq
        generalize hentry : ({
          id := record.id
          tenantKey := js "_existing"
          cost := record.cost
          enqueuedAtMs := record.admittedAtMs
          deadlineMs := maxSafeInteger
          payload := record.id } : QueueEntry Nat) = entry at hq
        have hlease : (record.id, record.cost) = lease entry := by
          rw [← hentry]
          rfl
        have hpayload : entry.payload = entry.id := by rw [← hentry]
        unfold FairCostQueue.enqueue at hq
        split at hq
        · rename_i haccept
          obtain rfl := Option.some.inj hq
          have hqueued := hshares .queued .queued (by decide)
          rw [if_pos rfl, hlease] at hqueued
          have hshadow := h.shadow.wait (hshares .queued .active (by decide)) hqueued hpayload
            haccept
          have hkept := h.setDisposition hget hshadow
          rw [setDisposition_of_get hget] at hkept ⊢
          exact hkept
        · exact absurd hq.symm (Option.some_ne_none _)
      · exact hrejected

theorem books_foldl_rebuildRecord {ids : List Nat} (hids : ids.Nodup) (h : Books s)
    (hnone : ∀ id ∈ ids, ∃ record, s.records.get id = some record ∧ record.released = false ∧
      record.virtualDisposition = .none) : Books (ids.foldl rebuildRecord s) := by
  induction ids generalizing s with
  | nil => exact h
  | cons id ids ih =>
    obtain ⟨hfresh, hids'⟩ := nodup_cons.mp hids
    obtain ⟨record, hget, hreleased, hdisposition⟩ := hnone id mem_cons_self
    refine ih hids' (books_rebuildRecord h hget hreleased hdisposition) ?_
    intro other hother
    have hne : other ≠ id := fun heq => hfresh (heq ▸ hother)
    rw [rebuildRecord_get_other hne]
    exact hnone other (mem_cons_of_mem _ hother)

theorem foldl_reset_spec (ids : List Nat) {s : Controller} (h : Recorded s)
    (hpos : ∀ entry ∈ s.records, 0 < entry.2.cost) :
    Recorded (ids.foldl (fun s id => s.setDisposition id .none) s) ∧
      (∀ entry ∈ (ids.foldl (fun s id => s.setDisposition id .none) s).records, 0 < entry.2.cost) ∧
      ∃ records, ids.foldl (fun s id => s.setDisposition id .none) s =
        { s with records := records } := by
  induction ids generalizing s with
  | nil => exact ⟨h, hpos, s.records, rfl⟩
  | cons id ids ih =>
    rw [foldl_cons]
    have hrecorded := recorded_setDisposition h id .none
    unfold setDisposition at hrecorded ⊢
    cases hget : s.records.get id with
    | none => exact ih h hpos
    | some record =>
      rw [hget] at hrecorded
      obtain ⟨hrecorded', hpos', records, heq⟩ := ih hrecorded (by
        intro entry hentry
        rcases mem_set_cases h.nodup hentry with rfl | hentry
        · exact hpos (id, record) (mem_of_get hget)
        · exact hpos entry hentry)
      exact ⟨hrecorded', hpos', records, heq⟩

theorem books_rebuild (enable : Bool) (h : Books s) : Books (s.rebuildVirtualState enable) := by
  unfold rebuildVirtualState
  dsimp only
  obtain ⟨hrecorded, hpos, records, heq⟩ := @foldl_reset_spec s.active
    { s with virtualQueue := emptyQueue s.config, virtualActiveCost := 0, virtualActiveCount := 0 }
    (h.recorded.of_eq rfl rfl rfl le_rfl) h.cost_pos
  have hnone := @reset_records s.active
    { s with virtualQueue := emptyQueue s.config, virtualActiveCost := 0, virtualActiveCount := 0 }
    h.recorded.nodup (fun _ hentry hreleased => Or.inl (h.recorded.mem_active hentry hreleased))
  rw [heq] at hrecorded hpos hnone ⊢
  have hactive := @liveWith_eq_nil records .active hnone (by decide)
  have hqueued := @liveWith_eq_nil records .queued hnone (by decide)
  have hreset : Books { s with
      virtualQueue := emptyQueue s.config
      virtualActiveCost := 0
      virtualActiveCount := 0
      records := records } := by
    refine ⟨hrecorded, h.limit_pos, h.limit_le, hpos, ?_, h.counters⟩
    refine ⟨emptyQueue_wf s.config, ?_, ?_, Int.natCast_nonneg _, ?_, ?_⟩
    · rw [hactive]
      rfl
    · rw [hactive]
      rfl
    · rw [hqueued]
      exact List.Perm.refl _
    · exact fun _ hentry => absurd hentry not_mem_nil
  split
  · refine books_foldl_rebuildRecord hrecorded.active_nodup hreset ?_
    intro id hid
    obtain ⟨record, hget, hreleased⟩ := hrecorded.get_of_active hid
    exact ⟨record, hget, hreleased, hnone (id, record) (mem_of_get hget) hreleased⟩
  · exact hreset

/-! ## Runs -/

theorem books_move (hmove : Move env s s') (h : Books s) : Books s' := by
  cases hmove with
  | quiet hview hseq => exact h.of_view hview hseq
  | relimit hpos hle =>
    exact ⟨h.recorded.of_eq rfl rfl rfl le_rfl, hpos, hle, h.cost_pos, h.shadow, h.counters⟩
  | grant hid hreleased hcost hnone => exact books_grant h hid hreleased hcost hnone
  | shadow call request hcost => exact books_acquireShadow call request hcost h
  | retire hget hreleased hview hseq =>
    refine (books_retire h hget hreleased).of_view hview ?_
    rw [Controller.retire, leaseSeq_withdrawVirtual, leaseSeq_dropLease]
    exact hseq
  | promote => exact books_dispatchVirtualLoop _ h
  | rebuild enable => exact books_rebuild enable h

theorem books_create (env : Env) (cfg : ValidatedConfig) : Books (create env cfg) := by
  obtain ⟨hlow, hhigh⟩ := limitBounds_create cfg (env.clock 0)
  have hmin := cfg.minLimit.2.1
  have hmax := cfg.maxLimit.2.2
  refine ⟨⟨nodup_nil, ?_, ?_, rfl, rfl⟩, ?_, ?_, ?_, ?_, ?_⟩
  · exact fun _ hid => absurd hid not_mem_nil
  · exact fun _ hentry => absurd hentry not_mem_nil
  · show 0 < (createAdaptationState cfg (env.clock 0)).currentLimit
    omega
  · show (createAdaptationState cfg (env.clock 0)).currentLimit ≤ _
    omega
  · exact fun _ hentry => absurd hentry not_mem_nil
  · exact ⟨emptyQueue_wf cfg, rfl, rfl, Int.natCast_nonneg _, List.Perm.refl _,
      fun _ hentry => absurd hentry not_mem_nil⟩
  · exact ⟨le_refl _, le_refl _, le_refl _⟩

theorem books_step {n : Nat} (hacc : Account n [] s) (h : Books s) (event : Event) :
    Books (step env s event) :=
  (path_step event hacc h.limit_le).keeps books_move h

theorem books_foldl {n : Nat} (hacc : Account n [] s) (h : Books s) (events : List Event) :
    Books (events.foldl (step env) s) := by
  induction events generalizing n s with
  | nil => exact h
  | cons event events ih => exact ih (account_step env hacc event) (books_step hacc h event)

/-- The books are kept in every state of every run, whatever the mode and
however the configuration changes. -/
theorem books_run (env : Env) (cfg : ValidatedConfig) (events : List Event) :
    Books (run env cfg events) :=
  books_foldl (account_create env cfg) (books_create env cfg) events

/-- Shadow accounting, in every state of every run: the virtual cost and count
are those of the live records that are virtually active, the virtual queue
holds the live records that virtually wait, each of them once, and no counter
is negative. -/
theorem shadowAccounted (env : Env) (cfg : ValidatedConfig) (events : List Event) :
    let s := run env cfg events
    s.virtualActiveCost = leaseCost (liveWith .active s.records) ∧
      s.virtualActiveCount = (liveWith .active s.records).length ∧
      (s.virtualQueue.entries.map QueueEntry.id).Perm ((liveWith .queued s.records).map Prod.fst) ∧
      (s.virtualQueue.entries.map QueueEntry.id).Nodup ∧
      (∀ entry ∈ s.virtualQueue.entries, ∃ record, s.records.get entry.id = some record ∧
        record.released = false ∧ record.virtualDisposition = .queued ∧
        record.cost = entry.cost) ∧
      0 ≤ s.virtualActiveCost ∧ 0 ≤ s.virtualActiveCount ∧ 0 ≤ s.virtualQueue.totalCost ∧
      0 ≤ s.virtualQueue.size ∧ 0 ≤ s.activeCost ∧ 0 ≤ s.wouldAdmitCount ∧
      0 ≤ s.wouldQueueCount ∧ 0 ≤ s.wouldRejectCount := by
  intro s
  have h : Books s := books_run env cfg events
  have hids : (s.virtualQueue.entries.map QueueEntry.id).Perm
      ((liveWith .queued s.records).map Prod.fst) := by
    have hperm := h.shadow.queued.map Prod.fst
    rwa [map_map] at hperm
  obtain ⟨hgranted, hqueue, hreject⟩ := h.counters
  refine ⟨h.shadow.cost_eq, h.shadow.count_eq, hids, ?_, ?_, ?_, ?_, ?_, ?_, ?_, hgranted, hqueue,
    hreject⟩
  · exact hids.nodup_iff.mpr (liveWith_ids_nodup h.recorded.nodup)
  · exact fun entry hentry => h.shadow.record_of_entry h.recorded.nodup hentry
  · rw [h.shadow.cost_eq]
    exact leaseCost_nonneg _
  · rw [h.shadow.count_eq]
    exact Int.natCast_nonneg _
  · show 0 ≤ s.virtualQueue.cost
    rw [h.shadow.wf.cost]
    exact FairCostQueue.sumCost_nonneg _
  · rw [FairCostQueue.size_eq h.shadow.wf]
    exact Int.natCast_nonneg _
  · rw [h.recorded.activeCost]
    exact leaseCost_nonneg _

def smallShadow : ValidatedConfig := { smallConfig with mode := .shadow }

/-- The first lease is active and the second one waits until the first one is
released. -/
example :
    let s := run ⟨Int.ofNat, Rounding.exact⟩ smallShadow
      [.acquire { cost := some (.finite 3) }, .acquire { cost := some (.finite 2) },
        .release 1 .success {}]
    s.virtualActiveCost = 2 ∧ s.virtualActiveCount = 1 ∧ s.wouldQueueCount = 1 := by
  decide +kernel

/-- The account of the leases holds over every change of the mode and of the
configuration, and the virtual account never exceeds it. -/
theorem leasesAccounted (env : Env) (cfg : ValidatedConfig) (events : List Event) :
    let s := run env cfg events
    s.active = (live s.records).map Prod.fst ∧ s.active.Nodup ∧
      s.activeCost = leaseCost (live s.records) ∧ s.virtualActiveCost ≤ s.activeCost ∧
      (∀ entry ∈ s.records, 0 < entry.2.cost) ∧ 0 < s.adaptation.currentLimit ∧
      s.adaptation.currentLimit ≤ maxAdmissionCostOrLimit := by
  intro s
  have h : Books s := books_run env cfg events
  have hids : s.active.Nodup := by
    have hkeys := h.recorded.nodup
    rw [h.recorded.active, live, map_map]
    exact hkeys.sublist (filter_sublist.map Prod.fst)
  refine ⟨h.recorded.active, hids, h.recorded.activeCost, ?_, h.cost_pos, h.limit_pos, h.limit_le⟩
  rw [h.shadow.cost_eq, h.recorded.activeCost]
  exact leaseCost_liveWith_le .active s.records

end RedRouter.Admission.Controller
