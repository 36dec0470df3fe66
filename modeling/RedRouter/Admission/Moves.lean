import RedRouter.Admission.Accounting
import Mathlib.Logic.Relation

/-!
# The moves of the books

The books of a controller are its lease records, the active leases with their
cost, and the virtual account of shadow mode. Only seven kinds of move write
them, whatever the operation: `Move` lists them, and `path_step` says that
every event is a chain of moves.
-/

namespace RedRouter.Admission.Controller

/-- The books, and the limit that the virtual account is held against. -/
structure BooksView where
  currentLimit : Nat
  records : JsMap Nat ActiveLeaseRecord
  active : List Nat
  activeCost : Int
  virtualQueue : FairCostQueue Nat
  virtualActiveCost : Int
  virtualActiveCount : Int
  wouldAdmitCount : Int
  wouldQueueCount : Int
  wouldRejectCount : Int

def booksView (s : Controller) : BooksView where
  currentLimit := s.adaptation.currentLimit
  records := s.records
  active := s.active
  activeCost := s.activeCost
  virtualQueue := s.virtualQueue
  virtualActiveCost := s.virtualActiveCost
  virtualActiveCount := s.virtualActiveCount
  wouldAdmitCount := s.wouldAdmitCount
  wouldQueueCount := s.wouldQueueCount
  wouldRejectCount := s.wouldRejectCount

theorem booksView_sampleIntegral (env : Env) (s : Controller) :
    booksView (s.sampleIntegral env) = booksView s ∧
      (s.sampleIntegral env).leaseSeq = s.leaseSeq := by
  unfold sampleIntegral
  dsimp only
  split
  · refine ⟨?_, rfl⟩
    rw [booksView, booksView, currentLimit_sampleActiveIntegral]
    rfl
  · exact ⟨rfl, rfl⟩

theorem booksView_notePressure (pressure : Option Pressure) (s : Controller) :
    booksView (s.notePressure pressure) = booksView s ∧
      (s.notePressure pressure).leaseSeq = s.leaseSeq := by
  unfold notePressure
  split
  · refine ⟨?_, rfl⟩
    rw [booksView, booksView, currentLimit_setPressure]
  · exact ⟨rfl, rfl⟩

/-! ## Moves -/

/-- The virtual part of a release, before the virtual dispatch. -/
def withdrawVirtual (record : ActiveLeaseRecord) (s : Controller) : Controller :=
  let s :=
    match record.virtualDisposition with
    | .active =>
        { s with
          virtualActiveCost := s.virtualActiveCost - record.cost
          virtualActiveCount := s.virtualActiveCount - 1 }
    | .queued => { s with virtualQueue := (s.virtualQueue.removeById record.id).2 }
    | _ => s
  s.setDisposition record.id .none

/-- A lease is released, and leaves both accounts. -/
def retire (lease : Nat) (record : ActiveLeaseRecord) (s : Controller) : Controller :=
  (dropLease record
    { s with records := s.records.set lease { record with released := true } }).withdrawVirtual
      record

/-- One move of the books. -/
inductive Move (env : Env) (s : Controller) : Controller → Prop where
  | quiet {s' : Controller} (hview : booksView s' = booksView s)
      (hseq : s.leaseSeq ≤ s'.leaseSeq) : Move env s s'
  | relimit {adaptation : AdaptationState} (hpos : 0 < adaptation.currentLimit)
      (hle : adaptation.currentLimit ≤ maxAdmissionCostOrLimit) :
      Move env s { s with adaptation := adaptation }
  | grant {record : ActiveLeaseRecord} (hid : record.id = s.leaseSeq + 1)
      (hreleased : record.released = false) (hcost : 0 < record.cost)
      (hnone : record.virtualDisposition = .none) : Move env s (s.addLease record)
  | shadow (call : Nat) (request : Request) {cost : Nat} (hcost : 0 < cost) :
      Move env s (s.acquireShadow env call request cost)
  | retire {lease : Nat} {record : ActiveLeaseRecord} (hget : s.records.get lease = some record)
      (hreleased : record.released = false) {s' : Controller}
      (hview : booksView s' = booksView (s.retire lease record))
      (hseq : s.leaseSeq ≤ s'.leaseSeq) : Move env s s'
  | promote : Move env s s.dispatchVirtual
  | rebuild (enable : Bool) : Move env s (s.rebuildVirtualState enable)

abbrev Path (env : Env) : Controller → Controller → Prop := Relation.ReflTransGen (Move env)

variable {env : Env} {n : Nat} {pending : List Nat} {s s' s'' : Controller}

theorem Path.keeps {P : Controller → Prop}
    (hmove : ∀ {s s' : Controller}, Move env s s' → P s → P s') (h : Path env s s') (hs : P s) :
    P s' := by
  induction h with
  | refl => exact hs
  | tail _ hlast ih => exact hmove hlast ih

theorem path_of_view (hview : booksView s' = booksView s) (hseq : s'.leaseSeq = s.leaseSeq) :
    Path env s s' :=
  Relation.ReflTransGen.single (Move.quiet hview hseq.ge)

theorem path_of_rest (h : restView s' = restView s) : Path env s s' := by
  refine path_of_view ?_ (congrArg RestView.leaseSeq h)
  exact congrArg (fun view : RestView => (⟨view.adaptation.currentLimit, view.records, view.active,
    view.activeCost, view.virtualQueue, view.virtualActiveCost, view.virtualActiveCount,
    view.wouldAdmitCount, view.wouldQueueCount, view.wouldRejectCount⟩ : BooksView)) h

/-! ## Admissions -/

theorem path_admitLease (call : Nat) {cost : Nat} (hcost : 0 < cost) :
    Path env s (s.admitLease env call cost .none) := by
  obtain ⟨hview, hseq⟩ := booksView_sampleIntegral env s
  have hsample : Path env s (s.sampleIntegral env).readClock := path_of_view hview hseq
  have hgranted : ∀ record : ActiveLeaseRecord,
      record.id = (s.sampleIntegral env).readClock.leaseSeq + 1 → record.released = false →
      0 < record.cost → record.virtualDisposition = .none →
      Path env s (settle call (.admitted record.id)
        ((s.sampleIntegral env).readClock.addLease record)) := by
    intro record hid hreleased hcost hnone
    have hadded := hsample.tail (Move.grant hid hreleased hcost hnone)
    exact hadded.trans (path_of_rest rfl)
  exact hgranted _ rfl rfl hcost rfl

variable {entry : QueueEntry QueuedPayload}

/-! ## The operations -/

theorem path_takeId : Path env s s.takeId :=
  Relation.ReflTransGen.single (Move.quiet rfl (Nat.le_succ _))

theorem path_carried (env : Env) (s : Controller) : Carried env (Path env s) where
  rest := fun hs hrest => hs.trans (path_of_rest hrest)
  sampleIntegral := fun hs => hs.trans
    (path_of_view (booksView_sampleIntegral env _).1 (booksView_sampleIntegral env _).2)
  takeId := fun hs => hs.trans path_takeId
  shutDown := fun hs => hs.trans (path_of_view rfl rfl)
  addLease := fun hid hreleased hcost hnone _ hs => hs.tail (.grant hid hreleased hcost hnone)

theorem path_notePressure (pressure : Option Pressure) : Path env s (s.notePressure pressure) := by
  obtain ⟨hview, hseq⟩ := booksView_notePressure pressure s
  exact path_of_view hview hseq

theorem path_acquire (request : Request) (h : Account n [] s) :
    Path env s (s.acquire env request).2 := by
  unfold acquire
  split
  · exact path_of_rest rfl
  · split
    · exact path_of_rest rfl
    · have hnoted : Path env s (s.notePressure request.pressure) := path_notePressure _
      have hacc := h.of_view (accountView_notePressure request.pressure s)
      dsimp only
      split
      · exact hnoted
      · rename_i cost hresolve
        have hcost := (resolveCost_bounds hresolve).1
        split
        · exact hnoted.tail (Move.quiet rfl (Nat.le_succ _))
        · have hbegin : Path env s (s.notePressure request.pressure).beginCall :=
            hnoted.trans (path_of_rest rfl)
          exact hbegin.tail (Move.shadow _ request hcost)
        · exact (path_carried env s).acquireEnforce request hcost hacc hnoted

variable (record : ActiveLeaseRecord)

/-- The virtual part of a release only looks at the books. -/
theorem booksView_withdrawVirtual (h : booksView s' = booksView s) :
    booksView (s'.withdrawVirtual record) = booksView (s.withdrawVirtual record) := by
  have hset : ∀ {t t' : Controller}, booksView t' = booksView t →
      booksView (t'.setDisposition record.id .none) =
        booksView (t.setDisposition record.id .none) := by
    intro t t' h
    have hrecords : t'.records = t.records := congrArg BooksView.records h
    unfold setDisposition
    rw [hrecords]
    split
    · exact h
    · rename_i record' _
      exact congrArg (fun view : BooksView => { view with
        records := t.records.set record.id { record' with virtualDisposition := .none } }) h
  unfold withdrawVirtual
  apply hset
  cases record.virtualDisposition with
  | active =>
    exact congrArg (fun view : BooksView => { view with
      virtualActiveCost := view.virtualActiveCost - record.cost
      virtualActiveCount := view.virtualActiveCount - 1 }) h
  | queued =>
    exact congrArg (fun view : BooksView => { view with
      virtualQueue := (view.virtualQueue.removeById record.id).2 }) h
  | rejected => exact h
  | none => exact h

theorem booksView_dropLease (h : booksView s' = booksView s) :
    booksView (s'.dropLease record) = booksView (s.dropLease record) := by
  have hactive : s'.active = s.active := congrArg BooksView.active h
  unfold dropLease
  rw [hactive]
  split
  · exact congrArg (fun view : BooksView => { view with
      active := s.active.filter (· ≠ record.id)
      activeCost := view.activeCost - record.cost }) h
  · exact h

/-- Between the accounting and the virtual release the books stay as they
are. -/
theorem finishRelease_books (record : ActiveLeaseRecord) (outcome : ReleaseOutcome)
    (info : ReleaseMeta) (s : Controller) :
    ∃ t : Controller,
      s.finishRelease env record outcome info = (t.withdrawVirtual record).dispatchVirtual ∧
        booksView t = booksView s ∧ t.leaseSeq = s.leaseSeq := by
  have hnote : ∀ (latency : RawNumber) (t : Controller),
      booksView (t.noteRelease env outcome latency) = booksView t := by
    intro latency t
    simp [noteRelease, booksView]
  have hlatency : booksView (s.leaseLatency env info record).2 = booksView s ∧
      (s.leaseLatency env info record).2.leaseSeq = s.leaseSeq := by
    unfold leaseLatency
    split <;> exact ⟨rfl, rfl⟩
  refine ⟨((s.leaseLatency env info record).2.noteRelease env outcome
    (s.leaseLatency env info record).1).notePressure info.pressure, rfl, ?_, ?_⟩
  · rw [(booksView_notePressure info.pressure _).1, hnote, hlatency.1]
  · rw [(booksView_notePressure info.pressure _).2]
    exact hlatency.2

theorem leaseSeq_withdrawVirtual (s : Controller) :
    (s.withdrawVirtual record).leaseSeq = s.leaseSeq := by
  have hset : ∀ t : Controller, (t.setDisposition record.id .none).leaseSeq = t.leaseSeq := by
    intro t
    unfold setDisposition
    split <;> rfl
  unfold withdrawVirtual
  rw [hset]
  split <;> rfl

theorem leaseSeq_dropLease (s : Controller) : (s.dropLease record).leaseSeq = s.leaseSeq := by
  unfold dropLease
  split <;> rfl

theorem path_release (lease : Nat) (outcome : ReleaseOutcome) (info : ReleaseMeta)
    (h : Account n [] s) : Path env s (s.release env lease outcome info) := by
  unfold release
  cases hget : s.records.get lease with
  | none => exact Relation.ReflTransGen.refl
  | some record =>
    dsimp only
    split
    · exact Relation.ReflTransGen.refl
    · rename_i hreleased
      have hacc := account_released env record outcome info h
        (s.records.set lease { record with released := true })
      generalize hmarked :
        ({ s with records := s.records.set lease { record with released := true } } : Controller) = r
        at hacc ⊢
      obtain ⟨hsample, hsampleSeq⟩ := booksView_sampleIntegral env r
      obtain ⟨t, hfinish, hview, hseq⟩ := @finishRelease_books env record outcome info
        ((sampleIntegral env r).dropLease record)
      rw [hfinish] at hacc ⊢
      refine (path_carried env s).dispatch hacc ?_
      refine Relation.ReflTransGen.tail (Relation.ReflTransGen.single ?_) Move.promote
      refine Move.retire hget (by simpa using hreleased) ?_ ?_
      · rw [retire, hmarked]
        exact booksView_withdrawVirtual record (hview.trans (booksView_dropLease record hsample))
      · rw [leaseSeq_withdrawVirtual, hseq, leaseSeq_dropLease, hsampleSeq, ← hmarked]

theorem path_observePressure (pressure : Pressure) (h : Account n [] s)
    (hlimit : s.adaptation.currentLimit ≤ maxAdmissionCostOrLimit) :
    Path env s (s.observePressure env pressure) := by
  have hset : Path env s { s with adaptation := setPressure pressure s.adaptation } :=
    path_notePressure (some pressure)
  unfold observePressure
  dsimp only
  split
  · have hmin := s.config.minLimit.2
    have hbound : maxAdmissionCostOrLimit ≤ 2 ^ 53 := by decide
    have hfloor := env.rounding.floor_fl_mul_le (show s.adaptation.currentLimit ≤ 2 ^ 53 by omega)
      s.config.adaptation.criticalDecreaseFactor.2.2.le
    have hsame : (setPressure pressure s.adaptation).currentLimit = s.adaptation.currentLimit :=
      currentLimit_setPressure pressure s.adaptation
    have hdecreased := hset.tail (@Move.relimit env _
      (criticalDecrease env.rounding s.config (setPressure pressure s.adaptation))
      (by unfold criticalDecrease; dsimp only; omega)
      (by unfold criticalDecrease; dsimp only; rw [hsame]; omega))
    have hacc : Account n [] { s with
        adaptation := criticalDecrease env.rounding s.config (setPressure pressure s.adaptation) } :=
      h.of_view rfl
    exact ((path_carried env s).dispatch hacc hdecreased).tail Move.promote
  · exact hset

theorem path_tick (h : Account n [] s) : Path env s (s.tick env) := by
  obtain ⟨hview, hseq⟩ := booksView_sampleIntegral env s
  have hsample : Path env s (s.sampleIntegral env) := path_of_view hview hseq
  have hevict := hsample.trans (path_of_rest (restView_evictIdleLanes env (s.sampleIntegral env)))
  have hacc := account_evictIdleLanes env (h.of_view (accountView_sampleIntegral env s))
  unfold tick
  generalize (s.sampleIntegral env).evictIdleLanes env = t at hevict hacc
  obtain ⟨hlow, hhigh⟩ := limitBounds_close env.rounding t.config (t.now env) t.adaptation
  have hmin := t.config.minLimit.2.1
  have hmax := t.config.maxLimit.2.2
  have hread : Path env s t.readClock := hevict.trans (path_of_rest rfl)
  have hclosed := hread.tail (@Move.relimit env _
    (closeAdaptationWindow env.rounding t.config (t.now env) t.adaptation) (by omega) (by omega))
  have hacc' : Account n [] { t.readClock with
      adaptation := closeAdaptationWindow env.rounding t.config (t.now env) t.adaptation } :=
    hacc.of_view rfl
  exact ((path_carried env s).dispatch hacc' hclosed).tail Move.promote

theorem path_foldl_requeue {entries : List (QueueEntry QueuedPayload)}
    (hpos : ∀ entry ∈ entries, 0 < entry.cost) : Path env s (entries.foldl (requeue env) s) := by
  induction entries generalizing s with
  | nil => exact Relation.ReflTransGen.refl
  | cons entry entries ih =>
    refine Relation.ReflTransGen.trans ?_ (ih fun e he => hpos e (List.mem_cons_of_mem _ he))
    unfold requeue
    split
    · have hdetached : Path env s (s.detachAbort entry.id) := path_of_rest rfl
      exact hdetached.trans (path_admitLease _ (hpos entry List.mem_cons_self))
    · split
      · exact path_of_rest rfl
      · split <;> exact path_of_rest rfl

theorem mem_drained (h : Account n pending s) (hentry : entry ∈ s.drained) :
    entry ∈ s.queue.entries ∨ ∃ lane ∈ s.virtualLanes, entry ∈ lane.2.queue.entries := by
  rcases List.mem_append.mp hentry with hshared | hlanes
  · exact Or.inl ((FairCostQueue.drain_spec h.queue_wf).1.symm.subset hshared)
  · obtain ⟨lane, hlane, hmem⟩ := List.mem_flatMap.mp hlanes
    exact Or.inr ⟨lane, hlane,
      (FairCostQueue.drain_spec (h.lanes_wf lane hlane)).1.symm.subset hmem⟩

theorem drained_pos (h : Account n pending s) (hentry : entry ∈ s.drained) : 0 < entry.cost := by
  rcases mem_drained h hentry with hshared | ⟨lane, hlane, hmem⟩
  · exact (FairCostQueue.cost_of_mem_entries h.queue_wf hshared).1
  · exact (FairCostQueue.cost_of_mem_entries (h.lanes_wf lane hlane) hmem).1

theorem path_adoptConfig (cfg : ValidatedConfig) : Path env s (s.adoptConfig env cfg) := by
  obtain ⟨hview, hseq⟩ := booksView_sampleIntegral env s
  have hsample : Path env s (s.sampleIntegral env) := path_of_view hview hseq
  unfold adoptConfig
  generalize s.sampleIntegral env = t at hsample
  obtain ⟨hlow, hhigh⟩ := clampLimit_bounds cfg t.adaptation.currentLimit
  have hmin := cfg.minLimit.2.1
  have hmax := cfg.maxLimit.2.2
  have hreset := hsample.tail (@Move.relimit env _ (resetAdaptation cfg (t.now env) t.adaptation)
    (by unfold resetAdaptation; dsimp only; omega) (by unfold resetAdaptation; dsimp only; omega))
  exact hreset.tail (Move.quiet rfl le_rfl)

theorem path_applyConfig (cfg : ValidatedConfig) (h : Account n [] s) :
    Path env s (s.applyConfig env cfg) := by
  have hadopt := @path_adoptConfig env s cfg
  have hacc := h.of_view (accountView_adoptConfig env cfg s)
  unfold applyConfig
  generalize s.adoptConfig env cfg = t at hadopt hacc
  have hdrained := hacc.drainAll (emptyQueue_wf cfg) rfl
  have hcleared : Path env s { t with queue := emptyQueue cfg, virtualLanes := [] } :=
    hadopt.trans (path_of_rest rfl)
  have hrequeued := hcleared.trans (@path_foldl_requeue env _ _ fun _ => drained_pos hacc)
  have hrebuilt := hrequeued.tail (Move.rebuild (cfg.mode = .shadow))
  have hacc' := (account_foldl_requeue env hdrained).of_view
    (accountView_rebuildVirtualState (cfg.mode = .shadow) _)
  split
  · exact (path_carried env s).dispatch hacc' hrebuilt
  · exact hrebuilt

/-! ## Runs -/

theorem path_step (event : Event) (h : Account n [] s)
    (hlimit : s.adaptation.currentLimit ≤ maxAdmissionCostOrLimit) :
    Path env s (step env s event) := by
  cases event with
  | acquire request => exact path_acquire request h
  | release lease outcome info => exact path_release lease outcome info h
  | tick => exact path_tick h
  | observePressure pressure => exact path_observePressure pressure h hlimit
  | updateConfig config =>
    show Path env s (s.updateConfig env config)
    unfold updateConfig
    split
    · exact Relation.ReflTransGen.refl
    · exact path_applyConfig _ h
  | expire id => exact (path_carried env s).expireEntry id _ _ h Relation.ReflTransGen.refl
  | abort signal => exact (path_carried env s).abort signal h Relation.ReflTransGen.refl
  | evictIdleLanes => exact path_of_rest (restView_evictIdleLanes env s)
  | shutdown => exact (path_carried env s).shutdown Relation.ReflTransGen.refl
  | idTaken => exact path_takeId

end RedRouter.Admission.Controller
