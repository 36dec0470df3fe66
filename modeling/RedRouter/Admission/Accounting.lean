import RedRouter.Admission.Settlement
import RedRouter.Admission.Frame

/-!
# Admission accounting

`Ledger` is the invariant of the enforced budget.  The active cost is the sum
of the costs of the granted leases that are not released, it stays within the
maximal limit, and every admission so far was sound: it left the active cost
within the limit of that moment, or it was a solo admission.

A controller whose configuration does not change admits on five paths.  They
all end in `addLease`, so `Ledger.addLease` is the only place where the sum
grows, and a path has to show `SoundNext` there: the new cost fits what is
left of the limit, or nothing is active.
-/

namespace RedRouter.Admission.Controller

open List JsMap

/-! ## The records of the leases

A lease record stays in the map after its release, so the granted leases that
are not released are the `live` ones. `Recorded` says that the active leases
are the live records and that the active cost is their summed cost.
-/

/-! ## Live leases -/

/-- The ids and costs of the records that are not released. -/
def live (records : JsMap Nat ActiveLeaseRecord) : List (Nat × Nat) :=
  (records.filter (fun entry => !entry.2.released)).map (fun entry => (entry.1, entry.2.cost))

def leaseCost (leases : List (Nat × Nat)) : Int := (leases.map (fun lease => (lease.2 : Int))).sum

theorem leaseCost_append (xs ys : List (Nat × Nat)) :
    leaseCost (xs ++ ys) = leaseCost xs + leaseCost ys := by
  simp [leaseCost]

theorem leaseCost_nonneg (xs : List (Nat × Nat)) : 0 ≤ leaseCost xs := by
  induction xs with
  | nil => exact le_refl _
  | cons x xs ih =>
    rw [leaseCost, map_cons, sum_cons]
    rw [leaseCost] at ih
    omega

theorem live_cons (id : Nat) (record : ActiveLeaseRecord) (records : JsMap Nat ActiveLeaseRecord) :
    live ((id, record) :: records) =
      if record.released then live records else (id, record.cost) :: live records := by
  unfold live
  rw [filter_cons]
  cases record.released with
  | true => rfl
  | false => rfl

variable {record : ActiveLeaseRecord} {records : JsMap Nat ActiveLeaseRecord}

theorem live_set_new {id : Nat} (h : id ∉ JsMap.keys records) (hreleased : record.released = false) :
    live (records.set id record) = live records ++ [(id, record.cost)] := by
  induction records with
  | nil =>
    show live [(id, record)] = _
    rw [live_cons, hreleased]
    rfl
  | cons e records ih =>
    obtain ⟨x, other⟩ := e
    rw [JsMap.keys_cons, mem_cons, not_or] at h
    have hx : ¬ x = id := fun heq => h.1 heq.symm
    rw [JsMap.set, if_neg hx, live_cons, live_cons, ih h.2]
    split <;> rfl

theorem live_set_same {id : Nat} {record' : ActiveLeaseRecord} (hget : records.get id = some record)
    (hcost : record'.cost = record.cost) (hreleased : record'.released = record.released) :
    live (records.set id record') = live records := by
  induction records with
  | nil => exact absurd hget.symm (Option.some_ne_none _)
  | cons e records ih =>
    obtain ⟨x, other⟩ := e
    rw [JsMap.get] at hget
    by_cases hx : x = id
    · rw [if_pos hx] at hget
      obtain rfl := Option.some.inj hget
      rw [JsMap.set, if_pos hx, live_cons, live_cons, hcost, hreleased, hx]
    · rw [if_neg hx] at hget
      rw [JsMap.set, if_neg hx, live_cons, live_cons, ih hget]

theorem live_set_released {id : Nat} (hnodup : (JsMap.keys records).Nodup)
    (hget : records.get id = some record) (hreleased : record.released = false) :
    (live (records.set id { record with released := true })).map Prod.fst =
        ((live records).map Prod.fst).filter (· ≠ id) ∧
      leaseCost (live (records.set id { record with released := true })) =
        leaseCost (live records) - record.cost ∧
      id ∈ (live records).map Prod.fst := by
  induction records with
  | nil => exact absurd hget.symm (Option.some_ne_none _)
  | cons e records ih =>
    obtain ⟨x, other⟩ := e
    rw [JsMap.keys_cons, nodup_cons] at hnodup
    rw [JsMap.get] at hget
    by_cases hx : x = id
    · subst hx
      rw [if_pos rfl] at hget
      obtain rfl := Option.some.inj hget
      have hrest : ((live records).map Prod.fst).filter (· ≠ x) = (live records).map Prod.fst := by
        rw [filter_eq_self]
        intro y hy
        obtain ⟨lease, hlease, rfl⟩ := mem_map.mp hy
        obtain ⟨entry, hentry, rfl⟩ := mem_map.mp hlease
        have hmem : entry.1 ∈ JsMap.keys records :=
          mem_map_of_mem (mem_filter.mp hentry).1
        simp only [decide_not, Bool.not_eq_eq_eq_not, Bool.not_true, decide_eq_false_iff_not]
        exact fun heq => hnodup.1 (heq ▸ hmem)
      rw [JsMap.set, if_pos rfl, live_cons, live_cons, if_pos rfl, hreleased]
      refine ⟨?_, ?_, ?_⟩
      · simp only [Bool.false_eq_true, if_false, map_cons]
        rw [filter_cons_of_neg (by simp), hrest]
      · simp only [Bool.false_eq_true, if_false, leaseCost, map_cons, sum_cons]
        omega
      · simp
    · rw [if_neg hx] at hget
      obtain ⟨hids, hcost, hmem⟩ := ih hnodup.2 hget
      rw [JsMap.set, if_neg hx, live_cons, live_cons]
      cases other.released with
      | true => exact ⟨hids, hcost, hmem⟩
      | false =>
        simp only [Bool.false_eq_true, if_false]
        refine ⟨?_, ?_, mem_cons_of_mem _ hmem⟩
        · rw [map_cons, map_cons, filter_cons_of_pos (by simpa using hx), hids]
        · simp only [leaseCost, map_cons, sum_cons] at hcost ⊢
          omega

/-! ## The active leases -/

/-- The active leases are the live records. -/
structure Recorded (s : Controller) : Prop where
  nodup : (JsMap.keys s.records).Nodup
  ids : ∀ id ∈ JsMap.keys s.records, id ≤ s.leaseSeq
  record_id : ∀ entry ∈ s.records, entry.2.id = entry.1
  active : s.active = (live s.records).map Prod.fst
  activeCost : s.activeCost = leaseCost (live s.records)

variable {s : Controller}

theorem Recorded.of_eq {s' : Controller} (h : Recorded s) (hrecords : s'.records = s.records)
    (hactive : s'.active = s.active) (hcost : s'.activeCost = s.activeCost)
    (hseq : s.leaseSeq ≤ s'.leaseSeq) : Recorded s' := by
  refine ⟨hrecords ▸ h.nodup, ?_, hrecords ▸ h.record_id, ?_, ?_⟩
  · rw [hrecords]
    exact fun id hid => (h.ids id hid).trans hseq
  · rw [hactive, hrecords]
    exact h.active
  · rw [hcost, hrecords]
    exact h.activeCost

theorem Recorded.activeCost_eq_zero (h : Recorded s) (hnil : s.active = []) : s.activeCost = 0 := by
  rw [h.active, map_eq_nil_iff] at hnil
  rw [h.activeCost, hnil]
  rfl

theorem Recorded.active_nodup (h : Recorded s) : s.active.Nodup := by
  rw [h.active]
  unfold live
  rw [map_map]
  exact h.nodup.sublist (filter_sublist.map Prod.fst)

theorem Recorded.mem_active (h : Recorded s) {entry : Nat × ActiveLeaseRecord}
    (hentry : entry ∈ s.records) (hreleased : entry.2.released = false) : entry.1 ∈ s.active := by
  rw [h.active]
  refine mem_map.mpr ⟨(entry.1, entry.2.cost), mem_map.mpr ⟨entry, ?_, rfl⟩, rfl⟩
  exact mem_filter.mpr ⟨hentry, by simp [hreleased]⟩

theorem mem_set_cases (hnodup : (JsMap.keys records).Nodup) {id : Nat}
    {entry : Nat × ActiveLeaseRecord} (h : entry ∈ records.set id record) :
    entry = (id, record) ∨ entry ∈ records := by
  rcases mem_cons.mp ((set_perm id record hnodup).subset h) with rfl | hmem
  · exact Or.inl rfl
  · exact Or.inr ((delete_sublist _ _).subset hmem)

theorem recorded_addLease (h : Recorded s) (hid : record.id = s.leaseSeq + 1)
    (hreleased : record.released = false) : Recorded (s.addLease record) := by
  have hfresh : record.id ∉ JsMap.keys s.records := fun hmem => by
    have := h.ids _ hmem
    omega
  have hlive := live_set_new hfresh hreleased
  refine ⟨nodup_keys_set h.nodup, ?_, ?_, ?_, ?_⟩
  · intro id hmem
    show id ≤ record.id
    have hkeys : JsMap.keys (s.records.set record.id record) =
        JsMap.keys s.records ++ [record.id] := by rw [keys_set, if_neg hfresh]
    have hmem' : id ∈ JsMap.keys s.records ++ [record.id] := hkeys ▸ hmem
    rcases mem_append.mp hmem' with hold | hnew
    · have := h.ids id hold
      omega
    · rw [mem_singleton.mp hnew]
  · intro entry hmem
    rcases mem_set_cases h.nodup hmem with rfl | hmem
    · rfl
    · exact h.record_id entry hmem
  · show s.active ++ [record.id] = (live (s.records.set record.id record)).map Prod.fst
    rw [hlive, map_append, h.active]
    rfl
  · show s.activeCost + record.cost = leaseCost (live (s.records.set record.id record))
    rw [hlive, leaseCost_append, h.activeCost]
    simp [leaseCost]

theorem recorded_setDisposition (h : Recorded s) (id : Nat) (disposition : VirtualDisposition) :
    Recorded (s.setDisposition id disposition) := by
  unfold setDisposition
  cases hget : s.records.get id with
  | none => exact h
  | some record =>
    have hmem : id ∈ JsMap.keys s.records := get_isSome_iff.mp (by rw [hget]; rfl)
    have hid : record.id = id := h.record_id _ (mem_of_get hget)
    have hlive : live (s.records.set id { record with virtualDisposition := disposition }) =
        live s.records := live_set_same hget rfl rfl
    refine ⟨nodup_keys_set h.nodup, ?_, ?_, ?_, ?_⟩
    · rw [keys_set_of_mem hmem]
      exact h.ids
    · intro entry hentry
      rcases mem_set_cases h.nodup hentry with rfl | hentry
      · exact hid
      · exact h.record_id entry hentry
    · rw [hlive]
      exact h.active
    · rw [hlive]
      exact h.activeCost

theorem recorded_dropLease {lease : Nat} {record : ActiveLeaseRecord} {s s' : Controller}
    (h : Recorded s) (hget : s.records.get lease = some record)
    (hreleased : record.released = false)
    (hrecords : s'.records = s.records.set lease { record with released := true })
    (hactive : s'.active = s.active) (hcost : s'.activeCost = s.activeCost)
    (hseq : s.leaseSeq ≤ s'.leaseSeq) :
    Recorded (s'.dropLease record) ∧
      (s'.dropLease record).activeCost = s.activeCost - record.cost := by
  have hid : record.id = lease := h.record_id _ (mem_of_get hget)
  have hmem : lease ∈ JsMap.keys s.records := get_isSome_iff.mp (by rw [hget]; rfl)
  obtain ⟨hids, hcost', hin⟩ := live_set_released h.nodup hget hreleased
  have hin' : record.id ∈ s'.active := by
    rw [hid, hactive, h.active]
    exact hin
  unfold dropLease
  rw [if_pos hin']
  refine ⟨⟨?_, ?_, ?_, ?_, ?_⟩, ?_⟩
  · show (JsMap.keys s'.records).Nodup
    rw [hrecords]
    exact nodup_keys_set h.nodup
  · show ∀ id ∈ JsMap.keys s'.records, id ≤ s'.leaseSeq
    rw [hrecords, keys_set_of_mem hmem]
    exact fun id hid => (h.ids id hid).trans hseq
  · show ∀ entry ∈ s'.records, entry.2.id = entry.1
    rw [hrecords]
    intro entry hentry
    rcases mem_set_cases h.nodup hentry with rfl | hentry
    · exact hid
    · exact h.record_id entry hentry
  · show s'.active.filter (· ≠ record.id) = (live s'.records).map Prod.fst
    rw [hrecords, hids, hactive, h.active, hid]
  · show s'.activeCost - record.cost = leaseCost (live s'.records)
    rw [hrecords, hcost', hcost, h.activeCost]
  · show s'.activeCost - record.cost = s.activeCost - record.cost
    rw [hcost]

/-! ## The ledger -/

/-- An admission left the active cost within the limit, or it was solo. -/
def AdmitStep.Sound (cfg : ValidatedConfig) (a : AdmitStep) : Prop :=
  a.activeCost ≤ a.currentLimit ∨
    (a.activeCount = 1 ∧ a.activeCost = a.cost ∧ a.cost ≤ cfg.maxLimit.1)

structure Ledger (cfg : ValidatedConfig) (s : Controller) : Prop where
  config : s.config = cfg
  limit : LimitBounds cfg s.adaptation
  nodup : (JsMap.keys s.records).Nodup
  ids : ∀ id ∈ JsMap.keys s.records, id ≤ s.leaseSeq
  record_id : ∀ entry ∈ s.records, entry.2.id = entry.1
  active : s.active = (live s.records).map Prod.fst
  activeCost : s.activeCost = leaseCost (live s.records)
  cap : s.activeCost ≤ cfg.maxLimit.1
  sound : ∀ a ∈ s.admissions, AdmitStep.Sound cfg a

/-- The part of the state that the ledger is about. -/
structure LedgerView where
  config : ValidatedConfig
  currentLimit : Nat
  records : JsMap Nat ActiveLeaseRecord
  active : List Nat
  activeCost : Int
  leaseSeq : Nat
  admissions : List AdmitStep

def ledgerView (s : Controller) : LedgerView where
  config := s.config
  currentLimit := s.adaptation.currentLimit
  records := s.records
  active := s.active
  activeCost := s.activeCost
  leaseSeq := s.leaseSeq
  admissions := s.admissions

variable {cfg : ValidatedConfig}

variable {s : Controller}

theorem Ledger.recorded (h : Ledger cfg s) : Recorded s :=
  { h with }

theorem Recorded.ledger (h : Recorded s) (hconfig : s.config = cfg)
    (hlimit : LimitBounds cfg s.adaptation) (hcap : s.activeCost ≤ cfg.maxLimit.1)
    (hsound : ∀ a ∈ s.admissions, AdmitStep.Sound cfg a) : Ledger cfg s :=
  ⟨hconfig, hlimit, h.nodup, h.ids, h.record_id, h.active, h.activeCost, hcap, hsound⟩

theorem Ledger.of_view {s' : Controller} (h : Ledger cfg s) (hview : ledgerView s' = ledgerView s) :
    Ledger cfg s' := by
  have hconfig : s'.config = s.config := congrArg LedgerView.config hview
  have hlimit : s'.adaptation.currentLimit = s.adaptation.currentLimit :=
    congrArg LedgerView.currentLimit hview
  have hcost : s'.activeCost = s.activeCost := congrArg LedgerView.activeCost hview
  have hadm : s'.admissions = s.admissions := congrArg LedgerView.admissions hview
  have hrecorded := h.recorded.of_eq (congrArg LedgerView.records hview)
    (congrArg LedgerView.active hview) hcost (congrArg LedgerView.leaseSeq hview).ge
  refine hrecorded.ledger (hconfig.trans h.config) ?_ ?_ (hadm ▸ h.sound)
  · unfold LimitBounds
    rw [hlimit]
    exact h.limit
  · rw [hcost]
    exact h.cap

theorem ledgerView_of_rest {s' : Controller} (h : restView s' = restView s) :
    ledgerView s' = ledgerView s :=
  congrArg (fun view : RestView => (⟨view.config, view.adaptation.currentLimit, view.records,
    view.active, view.activeCost, view.leaseSeq, view.admissions⟩ : LedgerView)) h

theorem ledgerView_sampleIntegral (env : Env) (s : Controller) :
    ledgerView (s.sampleIntegral env) = ledgerView s := by
  unfold sampleIntegral
  dsimp only
  split
  · rw [ledgerView, ledgerView, currentLimit_sampleActiveIntegral]
    rfl
  · rfl

theorem ledgerView_notePressure (pressure : Option Pressure) (s : Controller) :
    ledgerView (s.notePressure pressure) = ledgerView s := by
  unfold notePressure
  split
  · rw [ledgerView, ledgerView, currentLimit_setPressure]
  · rfl

/-- What an admission has to show: the cost fits what is left of the limit, or
nothing is active and the cost is within the maximal limit. -/
def SoundNext (s : Controller) (cost : Nat) : Prop :=
  s.activeCost + cost ≤ s.adaptation.currentLimit ∨ (s.active = [] ∧ cost ≤ s.config.maxLimit.1)

theorem SoundNext.of_view {s' : Controller} {cost : Nat} (h : SoundNext s cost)
    (hview : ledgerView s' = ledgerView s) : SoundNext s' cost := by
  have hconfig : s'.config = s.config := congrArg LedgerView.config hview
  have hlimit : s'.adaptation.currentLimit = s.adaptation.currentLimit :=
    congrArg LedgerView.currentLimit hview
  have hactive : s'.active = s.active := congrArg LedgerView.active hview
  have hcost : s'.activeCost = s.activeCost := congrArg LedgerView.activeCost hview
  unfold SoundNext
  rw [hconfig, hlimit, hactive, hcost]
  exact h

theorem Ledger.addLease (h : Ledger cfg s) {record : ActiveLeaseRecord}
    (hid : record.id = s.leaseSeq + 1) (hreleased : record.released = false)
    (hsound : SoundNext s record.cost) : Ledger cfg (s.addLease record) := by
  have hlimit := h.limit.2
  have hzero := h.recorded.activeCost_eq_zero
  refine (recorded_addLease h.recorded hid hreleased).ledger h.config h.limit ?_ ?_
  · show s.activeCost + record.cost ≤ cfg.maxLimit.1
    rcases hsound with hfits | ⟨hnil, hmax⟩
    · omega
    · rw [hzero hnil]
      rw [h.config] at hmax
      omega
  · intro a ha
    rcases mem_append.mp ha with hold | hnew
    · exact h.sound a hold
    · rw [mem_singleton.mp hnew]
      rcases hsound with hfits | ⟨hnil, hmax⟩
      · exact Or.inl hfits
      · right
        rw [h.config] at hmax
        refine ⟨?_, ?_, hmax⟩
        · show s.active.length + 1 = 1
          rw [hnil]
          rfl
        · show s.activeCost + record.cost = record.cost
          rw [hzero hnil]
          omega

/-- A property that is kept by what the operations of an enforcing controller are made of. -/
structure Carried (env : Env) (I : Controller → Prop) : Prop where
  rest : ∀ {s s'}, I s → restView s' = restView s → I s'
  sampleIntegral : ∀ {s}, I s → I (s.sampleIntegral env)
  takeId : ∀ {s}, I s → I s.takeId
  shutDown : ∀ {s : Controller}, I s → I { s with shutDown := true }
  addLease : ∀ {s : Controller} {record}, record.id = s.leaseSeq + 1 → record.released = false →
    0 < record.cost → record.virtualDisposition = .none → SoundNext s record.cost → I s →
      I (s.addLease record)

namespace Carried

variable {env : Env} {I : Controller → Prop} (h : Carried env I) {n : Nat} {pending : List Nat}

include h

theorem admitLease (call : Nat) {cost : Nat} (hcost : 0 < cost) (hsound : SoundNext s cost)
    (hs : I s) : I (s.admitLease env call cost .none) := by
  have hread : I (s.sampleIntegral env).readClock := h.rest (h.sampleIntegral hs) rfl
  have hnext := hsound.of_view (ledgerView_sampleIntegral env s)
  unfold Controller.admitLease
  refine h.rest (s := (s.sampleIntegral env).readClock.addLease _) ?_ rfl
  exact h.addLease rfl rfl hcost rfl hnext hread

theorem settleDequeued {entry : QueueEntry QueuedPayload} (hcost : 0 < entry.cost)
    (hfits : (entry.cost : Int) ≤ s.available) (hs : I s) :
    I (Controller.settleDequeued env entry s).1 := by
  unfold Controller.settleDequeued
  dsimp only
  split
  · exact h.rest hs rfl
  · split
    · exact h.rest hs rfl
    · have hread : I (s.detachAbort entry.id).readClock := h.rest hs rfl
      refine h.admitLease _ hcost (Or.inl ?_) hread
      show s.activeCost + entry.cost ≤ s.adaptation.currentLimit
      unfold available at hfits
      omega

omit h in
theorem taken_fits {q q' : FairCostQueue QueuedPayload} {entry : QueueEntry QueuedPayload}
    {available : Int} (hwf : q.Wf) (hperm : q.entries.Perm (entry :: q'.entries))
    (hpos : ¬ available ≤ 0) (hle : entry.cost ≤ available.toNat) :
    0 < entry.cost ∧ (entry.cost : Int) ≤ available :=
  ⟨(FairCostQueue.cost_of_mem_entries hwf (hperm.symm.subset mem_cons_self)).1, by omega⟩

theorem dispatchShared (fuel : Nat) (hacc : Account n pending s) (hs : I s) :
    I (Controller.dispatchShared env fuel s).1 := by
  induction fuel generalizing s with
  | zero => exact hs
  | succ fuel ih =>
    rw [Controller.dispatchShared]
    split
    · split
      · exact hs
      · rename_i hpos
        rcases FairCostQueue.dequeue_cases hacc.queue_wf s.available.toNat with
          hnone | ⟨entry, q, hdeq, hwf, hperm, hle, -⟩
        · rw [hnone]
          exact hs
        · rw [hdeq]
          obtain ⟨hcost, hfits⟩ := taken_fits hacc.queue_wf hperm hpos hle
          have htaken : I { s with queue := q } := h.rest hs rfl
          exact ih (account_settleDequeued (hacc.takeQueue hwf hperm))
            (h.settleDequeued hcost hfits htaken)
    · exact hs

theorem dispatchLane (key : JsString) (fuel : Nat) (hacc : Account n pending s) (hs : I s) :
    I (Controller.dispatchLane env key fuel s).1 := by
  induction fuel generalizing s with
  | zero => exact hs
  | succ fuel ih =>
    rw [Controller.dispatchLane]
    cases hget : s.virtualLanes.get key with
    | none => exact hs
    | some lane =>
      dsimp only
      have hlane := hacc.lanes_wf _ (JsMap.mem_of_get hget)
      split
      · split
        · exact hs
        · rename_i hpos
          rcases FairCostQueue.dequeue_cases hlane s.available.toNat with
            hnone | ⟨entry, q, hdeq, hwf, hperm, hle, -⟩
          · rw [hnone]
            exact h.rest hs rfl
          · rw [hdeq]
            obtain ⟨hcost, hfits⟩ := taken_fits hlane hperm hpos hle
            have htaken : I (s.setLane key { lane with queue := q }) := h.rest hs rfl
            have hsettled := h.settleDequeued (s := s.setLane key _) hcost hfits htaken
            have hacc' := @account_settleDequeued n env _ _ _ (hacc.takeLane hget hwf hperm)
            dsimp only
            split
            · exact hsettled
            · exact ih hacc' hsettled
      · exact hs

theorem dispatchKeys (keys : List JsString) (hacc : Account n pending s) (hs : I s) :
    I (Controller.dispatchKeys env keys s) := by
  induction keys generalizing s with
  | nil => exact hs
  | cons key keys ih =>
    rw [Controller.dispatchKeys]
    cases hget : s.virtualLanes.get key with
    | none => exact ih hacc hs
    | some lane =>
      dsimp only
      have hlane := h.dispatchLane key lane.queue.entries.length hacc hs
      have hacc' := account_dispatchLane env key lane.queue.entries.length hacc
      split
      · rename_i heq
        rw [heq] at hlane
        exact hlane
      · rename_i heq
        rw [heq] at hlane hacc'
        exact ih (account_removeEmptyLane hacc' key) (h.rest hlane (restView_removeEmptyLane key _))

theorem dispatch (hacc : Account n pending s) (hs : I s) : I (s.dispatch env) := by
  unfold Controller.dispatch
  split
  · have hshared := h.dispatchShared s.queue.entries.length hacc hs
    have hacc' := account_dispatchShared env s.queue.entries.length hacc
    split
    · rename_i heq
      rw [heq] at hshared
      exact hshared
    · rename_i heq
      rw [heq] at hshared hacc'
      unfold dispatchLanes
      split
      · exact h.dispatchKeys _ hacc' hshared
      · exact hshared
  · exact hs

theorem enqueueEntry {entry : QueueEntry QueuedPayload} (hacc : Account n [entry.payload.call] s)
    (hs : I s) : I (s.enqueueEntry env entry).2 := by
  have hrest := restView_storeEntry env entry s
  unfold Controller.enqueueEntry
  split
  · rename_i heq
    rw [heq] at hrest
    exact h.rest hs hrest
  · rename_i heq
    rw [heq] at hrest
    have hstored := account_storeEntry_ok env hacc heq
    have hdispatched := h.dispatch hstored (h.rest hs hrest)
    exact h.dispatch (account_attachAbort (account_dispatch env hstored) _ _)
      (h.rest hdispatched (restView_attachAbort _ _ _))

theorem enqueue (request : Request) (cost : Nat) (hacc : Account n [] s) (hs : I s) :
    I (s.enqueue env request cost).2 := by
  have htake := h.takeId hs
  have hacc' : Account n [] s.takeId := hacc.of_view rfl
  unfold Controller.enqueue
  dsimp only
  split
  · exact htake
  · rename_i maxWait _
    have hbegin : I s.takeId.readClock.beginCall := h.rest htake rfl
    have hpending : Account (n + 1)
        [(queueEntry request s.takeId.leaseSeq cost s.takeId.calls maxWait
          (s.takeId.now env)).payload.call] s.takeId.readClock.beginCall :=
      account_beginCall (account_readClock hacc')
    exact h.enqueueEntry hpending hbegin

theorem acquireEnforce (request : Request) {cost : Nat} (hcost : 0 < cost)
    (hacc : Account n [] s) (hs : I s) : I (s.acquireEnforce env request cost).2 := by
  have hbegin : I s.beginCall := h.rest hs rfl
  unfold Controller.acquireEnforce
  split
  · split
    · rename_i hsolo
      refine h.admitLease _ hcost (Or.inr ?_) hbegin
      unfold shouldAdmitSolo at hsolo
      simp only [Bool.and_eq_true, decide_eq_true_eq, length_eq_zero_iff] at hsolo
      exact ⟨hsolo.1.1.1.2, hsolo.1.1.1.1⟩
    · exact h.rest hs rfl
  · split
    · rename_i hfits
      exact h.admitLease _ hcost (Or.inl hfits.2) hbegin
    · split
      · exact h.enqueue request cost hacc hs
      · exact h.rest hs rfl

theorem expireEntry (id : Nat) (code : RejectCode) (message : String) (hacc : Account n pending s)
    (hs : I s) : I (s.expireEntry env id code message) := by
  unfold Controller.expireEntry
  rcases FairCostQueue.removeById_cases hacc.queue_wf id with
    hnone | ⟨entry, q, hrem, hwf, hperm, -⟩
  · rw [hnone]
    dsimp only
    have hrest := restView_removeFromLanes id (JsMap.keys s.virtualLanes) { s with queue := s.queue }
    split
    · rename_i entry t heq
      rw [heq] at hrest
      have hfound := account_removeFromLanes id _ hacc heq
      have hfailed : I (t.failQueued entry code message) := h.rest hs hrest
      exact h.dispatch (account_failQueued hfound code message) hfailed
    · rename_i heq
      rw [heq] at hrest
      exact h.rest hs hrest
  · rw [hrem]
    exact h.dispatch (account_failQueued (hacc.takeQueue hwf hperm) code message) (h.rest hs rfl)

theorem abort (signal : Nat) (hacc : Account n [] s) (hs : I s) : I (s.abort env signal) := by
  have hloop : ∀ (listeners : List (Nat × Nat)) (s : Controller), Account n [] s → I s →
      I (listeners.foldl (runListener env) s) := by
    intro listeners
    induction listeners with
    | nil => exact fun _ _ hs => hs
    | cons listener listeners ih =>
      intro s hacc hs
      refine ih _ (account_runListener env hacc listener) ?_
      unfold runListener
      split
      · exact h.expireEntry _ _ _ (hacc.of_view rfl) (h.rest hs rfl)
      · exact hs
  unfold Controller.abort
  split
  · exact hs
  · exact hloop _ _ (hacc.of_view rfl) (h.rest hs rfl)

theorem shutdown (hs : I s) : I s.shutdown := by
  unfold Controller.shutdown
  split
  · exact hs
  · exact h.rest (h.shutDown hs) (restView_foldl (fun s entry => restView_failQueued entry .shutdown
      "admission controller shut down" s) s.drained _)

end Carried

variable {n : Nat} {pending : List Nat}

theorem ledger_takeId (h : Ledger cfg s) : Ledger cfg s.takeId := by
  refine { h with ids := ?_ }
  intro id hid
  exact Nat.le_succ_of_le (h.ids id hid)

theorem ledger_carried (env : Env) (cfg : ValidatedConfig) : Carried env (Ledger cfg) where
  rest := fun hs hrest => hs.of_view (ledgerView_of_rest hrest)
  sampleIntegral := fun hs => hs.of_view (ledgerView_sampleIntegral env _)
  takeId := ledger_takeId
  shutDown := fun hs => hs.of_view rfl
  addLease := fun hid hreleased _ _ hsound hs => hs.addLease hid hreleased hsound

/-! ## The other updates -/

theorem ledger_setDisposition (h : Ledger cfg s) (id : Nat) (disposition : VirtualDisposition) :
    Ledger cfg (s.setDisposition id disposition) := by
  have hrecorded := recorded_setDisposition h.recorded id disposition
  unfold setDisposition at hrecorded ⊢
  split
  · exact h
  · rename_i hget
    rw [hget] at hrecorded
    exact hrecorded.ledger h.config h.limit h.cap h.sound

theorem ledger_dispatchVirtualLoop (fuel : Nat) (h : Ledger cfg s) :
    Ledger cfg (dispatchVirtualLoop fuel s) := by
  induction fuel generalizing s with
  | zero => exact h
  | succ fuel ih =>
    rw [dispatchVirtualLoop]
    split
    · dsimp only
      split
      · exact h
      · split
        · exact h.of_view rfl
        · rename_i q _
          have htaken : Ledger cfg { s with virtualQueue := q } := h.of_view rfl
          split
          · exact ih htaken
          · split
            · exact ih htaken
            · exact ih ((ledger_setDisposition htaken _ _).of_view rfl)
    · exact h

theorem ledger_dispatchVirtual (h : Ledger cfg s) : Ledger cfg s.dispatchVirtual :=
  ledger_dispatchVirtualLoop _ h

theorem ledger_releaseVirtual (record : ActiveLeaseRecord) (h : Ledger cfg s) :
    Ledger cfg (s.releaseVirtual record) := by
  unfold releaseVirtual
  apply ledger_dispatchVirtual
  apply ledger_setDisposition
  refine h.of_view ?_
  split <;> rfl

theorem ledger_dropLease (env : Env) {lease : Nat} {record : ActiveLeaseRecord} (h : Ledger cfg s)
    (hget : s.records.get lease = some record) (hreleased : record.released = false) :
    Ledger cfg ((sampleIntegral env
      { s with records := s.records.set lease { record with released := true } }).dropLease
        record) := by
  have hview := ledgerView_sampleIntegral env
    { s with records := s.records.set lease { record with released := true } }
  generalize sampleIntegral env
    { s with records := s.records.set lease { record with released := true } } = s' at hview ⊢
  obtain ⟨hrecorded, hcost⟩ := recorded_dropLease h.recorded hget hreleased
    (congrArg LedgerView.records hview) (congrArg LedgerView.active hview)
    (congrArg LedgerView.activeCost hview) (congrArg LedgerView.leaseSeq hview).ge
  have hconfig : s'.config = s.config := congrArg LedgerView.config hview
  have hlimit : s'.adaptation.currentLimit = s.adaptation.currentLimit :=
    congrArg LedgerView.currentLimit hview
  have hadm : s'.admissions = s.admissions := congrArg LedgerView.admissions hview
  have hcap := h.cap
  have hrest : (s'.dropLease record).config = s'.config ∧
      (s'.dropLease record).adaptation = s'.adaptation ∧
      (s'.dropLease record).admissions = s'.admissions := by
    unfold dropLease
    split <;> exact ⟨rfl, rfl, rfl⟩
  refine hrecorded.ledger ?_ ?_ ?_ ?_
  · rw [hrest.1, hconfig]
    exact h.config
  · unfold LimitBounds
    rw [hrest.2.1, hlimit]
    exact h.limit
  · omega
  · rw [hrest.2.2, hadm]
    exact h.sound

/-! ## The operations -/

theorem addBounded_bounds {maximum total : Nat} (htotal : 0 < total ∧ total ≤ maximum)
    (contribution : Nat) :
    0 < addBounded maximum total contribution ∧ addBounded maximum total contribution ≤ maximum := by
  unfold addBounded
  split <;> omega

theorem resolveCost_bounds {request : Request} {cost : Nat}
    (h : s.resolveCost env request = .ok cost) :
    0 < cost ∧ cost ≤ s.config.costConfig.maxRequestCost.1 := by
  have hmax := s.config.costConfig.maxRequestCost.2.1
  have hfold : ∀ (contributions : List Nat) (total : Nat),
      0 < total ∧ total ≤ s.config.costConfig.maxRequestCost.1 →
        0 < contributions.foldl (addBounded s.config.costConfig.maxRequestCost.1) total ∧
          contributions.foldl (addBounded s.config.costConfig.maxRequestCost.1) total ≤
            s.config.costConfig.maxRequestCost.1 := by
    intro contributions
    induction contributions with
    | nil => exact fun _ htotal => htotal
    | cons contribution contributions ih =>
      exact fun _ htotal => ih _ (addBounded_bounds htotal contribution)
  unfold resolveCost at h
  split at h
  · unfold normalizeRequestCost at h
    split at h
    · rename_i value _
      obtain rfl := Except.ok.inj h
      omega
    · exact absurd h (by simp)
  · split at h
    · obtain rfl := Except.ok.inj h
      have hbase := s.config.costConfig.baseCost.2.1
      exact hfold _ _ (by omega)
    · obtain rfl := Except.ok.inj h
      exact ⟨Nat.one_pos, hmax⟩

theorem ledger_acquire (env : Env) (hmode : cfg.mode = .enforce) (request : Request)
    (h : Ledger cfg s) (hacc : Account n [] s) : Ledger cfg (s.acquire env request).2 := by
  unfold acquire
  split
  · exact h.of_view rfl
  · split
    · exact h.of_view rfl
    · have hnoted := h.of_view (ledgerView_notePressure request.pressure s)
      have hacc' := hacc.of_view (accountView_notePressure request.pressure s)
      dsimp only
      split
      · exact hnoted
      · rename_i cost hresolve
        rw [hnoted.config, hmode]
        exact (ledger_carried env cfg).acquireEnforce request (resolveCost_bounds hresolve).1 hacc'
          hnoted

theorem ledger_finishRelease (env : Env) (record : ActiveLeaseRecord) (outcome : ReleaseOutcome)
    (info : ReleaseMeta) (h : Ledger cfg s) :
    Ledger cfg (s.finishRelease env record outcome info) := by
  have hlatency : Ledger cfg (s.leaseLatency env info record).2 := by
    refine h.of_view ?_
    unfold leaseLatency
    split <;> rfl
  have hnote : ∀ (latency : RawNumber) (s : Controller),
      ledgerView (s.noteRelease env outcome latency) = ledgerView s := by
    intro latency s
    simp [noteRelease, ledgerView]
  unfold finishRelease
  apply ledger_releaseVirtual
  refine Ledger.of_view ?_ (ledgerView_notePressure info.pressure _)
  exact hlatency.of_view (hnote _ _)

theorem ledger_release (env : Env) (lease : Nat) (outcome : ReleaseOutcome) (info : ReleaseMeta)
    (h : Ledger cfg s) (hacc : Account n [] s) : Ledger cfg (s.release env lease outcome info) := by
  unfold release
  cases hget : s.records.get lease with
  | none => exact h
  | some record =>
    dsimp only
    split
    · exact h
    · rename_i hreleased
      have hreleased' : record.released = false := by simpa using hreleased
      have hdropped := ledger_dropLease env h hget hreleased'
      exact (ledger_carried env cfg).dispatch (account_released env record outcome info hacc _)
        (ledger_finishRelease env record outcome info hdropped)

theorem ledger_setAdaptation (h : Ledger cfg s) {adaptation : AdaptationState}
    (hlimit : LimitBounds cfg adaptation) : Ledger cfg { s with adaptation := adaptation } :=
  { h with limit := hlimit }

theorem ledger_observePressure (env : Env) (pressure : Pressure) (h : Ledger cfg s)
    (hacc : Account n [] s) : Ledger cfg (s.observePressure env pressure) := by
  have hset : LimitBounds cfg (setPressure pressure s.adaptation) := by
    unfold LimitBounds
    rw [currentLimit_setPressure]
    exact h.limit
  unfold observePressure
  dsimp only
  split
  · have hdecreased : LimitBounds cfg
        (criticalDecrease env.rounding s.config (setPressure pressure s.adaptation)) := by
      rw [h.config]
      exact limitBounds_criticalDecrease env.rounding cfg hset
    exact ledger_dispatchVirtual
      ((ledger_carried env cfg).dispatch (hacc.of_view rfl) (ledger_setAdaptation h hdecreased))
  · exact ledger_setAdaptation h hset

theorem ledger_tick (env : Env) (h : Ledger cfg s) (hacc : Account n [] s) :
    Ledger cfg (s.tick env) := by
  have hsample := h.of_view (ledgerView_sampleIntegral env s)
  have hevict := hsample.of_view
    (ledgerView_of_rest (restView_evictIdleLanes env (s.sampleIntegral env)))
  have hacc' := account_evictIdleLanes env (hacc.of_view (accountView_sampleIntegral env s))
  generalize hs' : (s.sampleIntegral env).evictIdleLanes env = s' at hevict hacc'
  have hread : Ledger cfg s'.readClock := hevict.of_view rfl
  have hclosed : LimitBounds cfg (closeAdaptationWindow env.rounding s'.readClock.config
      (s'.now env) s'.readClock.adaptation) := by
    rw [hread.config]
    exact limitBounds_close env.rounding cfg _ _
  unfold tick
  rw [hs']
  exact ledger_dispatchVirtual
    ((ledger_carried env cfg).dispatch (hacc'.of_view rfl) (ledger_setAdaptation hread hclosed))

/-! ## Runs -/

/-- An event that leaves the configuration alone. -/
def Event.keepsConfig : Event → Bool
  | .updateConfig _ => false
  | _ => true

theorem ledger_create (env : Env) (cfg : ValidatedConfig) : Ledger cfg (create env cfg) where
  config := rfl
  limit := limitBounds_create cfg _
  nodup := nodup_nil
  ids := fun _ hid => absurd hid not_mem_nil
  record_id := fun _ hentry => absurd hentry not_mem_nil
  active := rfl
  activeCost := rfl
  cap := Int.natCast_nonneg _
  sound := fun _ ha => absurd ha not_mem_nil

/-- Every event that leaves the configuration alone keeps the ledger. -/
theorem ledger_step (env : Env) (hmode : cfg.mode = .enforce) (h : Ledger cfg s)
    (hacc : Account n [] s) (event : Event) (hevent : Event.keepsConfig event = true) :
    Ledger cfg (step env s event) := by
  cases event with
  | acquire request => exact ledger_acquire env hmode request h hacc
  | release lease outcome info => exact ledger_release env lease outcome info h hacc
  | tick => exact ledger_tick env h hacc
  | observePressure pressure => exact ledger_observePressure env pressure h hacc
  | updateConfig config => exact absurd hevent (by simp [Event.keepsConfig])
  | expire id => exact (ledger_carried env cfg).expireEntry id _ _ hacc h
  | abort signal => exact (ledger_carried env cfg).abort signal hacc h
  | evictIdleLanes => exact h.of_view (ledgerView_of_rest (restView_evictIdleLanes env s))
  | shutdown => exact (ledger_carried env cfg).shutdown h
  | idTaken => exact ledger_takeId h

theorem ledger_foldl_step (env : Env) (hmode : cfg.mode = .enforce) (h : Ledger cfg s)
    (hacc : Account n [] s) (events : List Event)
    (hevents : ∀ event ∈ events, Event.keepsConfig event = true) :
    Ledger cfg (events.foldl (step env) s) := by
  induction events generalizing n s with
  | nil => exact h
  | cons event events ih =>
    refine ih (ledger_step env hmode h hacc event (hevents event mem_cons_self))
      (account_step env hacc event) ?_
    exact fun e he => hevents e (mem_cons_of_mem _ he)

/-- The accounting of an enforcing controller with a fixed configuration, in
every state of every run: the active cost is the summed cost of the granted
leases that are not released, it is at most the maximal limit, and every
admission so far left it within the limit of that moment or was solo. -/
theorem accountingSafe (env : Env) (cfg : ValidatedConfig) (hmode : cfg.mode = .enforce)
    (events : List Event) (hevents : ∀ event ∈ events, Event.keepsConfig event = true) :
    (run env cfg events).activeCost = leaseCost (live (run env cfg events).records) ∧
      (run env cfg events).active = (live (run env cfg events).records).map Prod.fst ∧
      (run env cfg events).activeCost ≤ cfg.maxLimit.1 ∧
      ∀ a ∈ (run env cfg events).admissions, AdmitStep.Sound cfg a := by
  have h := ledger_foldl_step env hmode (ledger_create env cfg) (account_create env cfg) events
    hevents
  exact ⟨h.activeCost, h.active, h.cap, h.sound⟩

/-- A request waits behind another one, whose lease is released twice. -/
def queuedRun : List Event :=
  [.acquire { cost := some (.finite 3) }, .acquire { cost := some (.finite 3) },
    .observePressure .critical, .release 1 .success {}, .release 1 .success {}, .tick,
    .expire 2, .abort 0]

theorem accountingSafe_queuedRun :
    smallConfig.mode = .enforce ∧ (∀ event ∈ queuedRun, Event.keepsConfig event = true) ∧
      (run ⟨Int.ofNat, Rounding.exact⟩ smallConfig queuedRun).activeCost =
        leaseCost (live (run ⟨Int.ofNat, Rounding.exact⟩ smallConfig queuedRun).records) := by
  have hevents : ∀ event ∈ queuedRun, Event.keepsConfig event = true := by
    simp [queuedRun, Event.keepsConfig]
  exact ⟨rfl, hevents,
    (accountingSafe ⟨Int.ofNat, Rounding.exact⟩ smallConfig rfl queuedRun hevents).1⟩

end RedRouter.Admission.Controller
