import RedRouter.Admission.Shadow
import RedRouter.Admission.QueueAging
import RedRouter.Admission.ControlView
import RedRouter.Admission.Settlement

/-!
# What one event does to the waiting requests

Every event treats the requests that wait in one of five ways (`Turn`): it
leaves them alone, it empties the stores, it dispatches after some of them
were taken out, it dispatches after a new one has joined, or it moves them all
to a new shared queue and dispatches.
-/

namespace RedRouter.Admission.Controller

open List Option

/-! ## What a dispatch leaves behind

`dispatch` empties the shared queue as far as the budget allows, and goes
round the lanes only when the shared queue is empty.  `dispatch_result` says
where it stops: at a shared queue that yields nothing for the budget that is
left, or at an empty shared queue and lanes that were each visited once
(`Visited`).

A visit ends at the first admission, so a lane that got one may still have
entries that fit.
-/

/-! ## The load of a controller -/

/-- What is waiting and what is active. -/
structure LoadView where
  queue : FairCostQueue QueuedPayload
  virtualLanes : JsMap JsString Lane
  active : List Nat
  activeCost : Int

def loadView (s : Controller) : LoadView where
  queue := s.queue
  virtualLanes := s.virtualLanes
  active := s.active
  activeCost := s.activeCost

variable (env : Env)

@[simp] theorem loadView_sampleIntegral (s : Controller) :
    loadView (s.sampleIntegral env) = loadView s := by
  unfold sampleIntegral
  dsimp only
  split <;> rfl

/-- The active work only grows, and an idle controller was idle before. -/
structure Grows (s s' : Controller) : Prop where
  cost : s.activeCost ≤ s'.activeCost
  limit : s'.adaptation.currentLimit = s.adaptation.currentLimit
  idle : s'.active = [] → s.active = [] ∧ s'.activeCost = s.activeCost

theorem Grows.refl (s : Controller) : Grows s s := ⟨le_refl _, rfl, fun h => ⟨h, rfl⟩⟩

variable {s s' : Controller}

theorem Grows.trans {s'' : Controller} (h : Grows s s') (h' : Grows s' s'') : Grows s s'' := by
  refine ⟨h.cost.trans h'.cost, h'.limit.trans h.limit, ?_⟩
  intro hnil
  obtain ⟨hidle, hcost⟩ := h'.idle hnil
  exact ⟨(h.idle hidle).1, hcost.trans (h.idle hidle).2⟩

theorem Grows.of_eq (hactive : s'.active = s.active) (hcost : s'.activeCost = s.activeCost)
    (hlimit : s'.adaptation.currentLimit = s.adaptation.currentLimit) : Grows s s' :=
  ⟨hcost.ge, hlimit, fun hnil => ⟨hactive ▸ hnil, hcost⟩⟩

theorem Grows.available (h : Grows s s') : s'.available ≤ s.available := by
  have hcost := h.cost
  unfold Controller.available
  rw [h.limit]
  omega

theorem admitLease_load (call cost : Nat) (disposition : VirtualDisposition) (s : Controller) :
    (s.admitLease env call cost disposition).queue = s.queue ∧
      (s.admitLease env call cost disposition).virtualLanes = s.virtualLanes ∧
      (s.admitLease env call cost disposition).active ≠ [] ∧
      (s.admitLease env call cost disposition).activeCost = s.activeCost + cost := by
  have hview := loadView_sampleIntegral env s
  have hcost : (s.sampleIntegral env).activeCost = s.activeCost :=
    congrArg LoadView.activeCost hview
  refine ⟨congrArg LoadView.queue hview, congrArg LoadView.virtualLanes hview, ?_, ?_⟩
  · exact append_ne_nil_of_right_ne_nil _ (cons_ne_nil _ _)
  · show (s.sampleIntegral env).activeCost + cost = _
    rw [hcost]

theorem grows_admitLease (call cost : Nat) (disposition : VirtualDisposition) (s : Controller) :
    Grows s (s.admitLease env call cost disposition) := by
  obtain ⟨-, -, hactive, hcost⟩ := admitLease_load env call cost disposition s
  refine ⟨by omega, limit_of_view (controlView_admitLease env call cost disposition s), ?_⟩
  exact fun hnil => absurd hnil hactive

theorem settleDequeued_result (entry : QueueEntry QueuedPayload) (s : Controller) :
    (settleDequeued env entry s).1.queue = s.queue ∧
      (settleDequeued env entry s).1.virtualLanes = s.virtualLanes ∧
      Grows s (settleDequeued env entry s).1 ∧
      ((settleDequeued env entry s).2 = true ∧ (settleDequeued env entry s).1.active ≠ [] ∧
          (settleDequeued env entry s).1.activeCost = s.activeCost + entry.cost ∨
        (settleDequeued env entry s).2 = false) := by
  unfold settleDequeued
  dsimp only
  split
  · exact ⟨rfl, rfl, Grows.of_eq rfl rfl rfl, Or.inr rfl⟩
  · split
    · exact ⟨rfl, rfl, Grows.of_eq rfl rfl rfl, Or.inr rfl⟩
    · obtain ⟨hqueue, hlanes, hactive, hcost⟩ := admitLease_load env entry.payload.call entry.cost
        .none (s.detachAbort entry.id).readClock
      have hgrows := grows_admitLease env entry.payload.call entry.cost .none
        (s.detachAbort entry.id).readClock
      have hdetached : Grows s (s.detachAbort entry.id).readClock := Grows.of_eq rfl rfl rfl
      exact ⟨hqueue, hlanes, hdetached.trans hgrows, Or.inl ⟨rfl, hactive, hcost⟩⟩

theorem dispatch_eq_self (h : s.dispatches = false) : s.dispatch env = s := by
  unfold dispatch
  rw [if_neg (by rw [h]; exact Bool.false_ne_true)]

/-! ## The shared queue -/

theorem subperm_of_perm_cons {α : Type} {a : α} {l l' : List α} (h : l.Perm (a :: l')) :
    l'.Subperm l :=
  (sublist_cons_self a l').subperm.trans h.symm.subperm

def Stuck (q : FairCostQueue QueuedPayload) (budget : Int) : Prop :=
  budget ≤ 0 ∨ (q.dequeue budget.toNat).1 = none

structure SharedResult (s s' : Controller) (finished : Bool) : Prop where
  lanes : s'.virtualLanes = s.virtualLanes
  wf : s'.queue.Wf
  subset : s'.queue.entries.Subperm s.queue.entries
  grows : Grows s s'
  stopped : finished = true ∧ s'.queue.entries = [] ∨
    finished = false ∧ s'.queue.entries ≠ [] ∧ Stuck s'.queue s'.available

theorem dispatchShared_result {fuel : Nat} (hwf : s.queue.Wf)
    (hfuel : s.queue.entries.length = fuel) :
    SharedResult s (dispatchShared env fuel s).1 (dispatchShared env fuel s).2 := by
  induction fuel generalizing s with
  | zero =>
    exact ⟨rfl, hwf, List.Subperm.refl _, Grows.refl s, Or.inl ⟨rfl, length_eq_zero_iff.mp hfuel⟩⟩
  | succ fuel ih =>
    have hne : s.queue.entries ≠ [] := by
      intro hnil
      rw [hnil] at hfuel
      exact Nat.succ_ne_zero _ hfuel.symm
    have hsize : s.queue.size > 0 := by
      rw [FairCostQueue.size_eq hwf]
      omega
    rw [dispatchShared, if_pos hsize]
    by_cases hpos : s.available ≤ 0
    · rw [if_pos hpos]
      exact ⟨rfl, hwf, List.Subperm.refl _, Grows.refl s, Or.inr ⟨rfl, hne, Or.inl hpos⟩⟩
    · rw [if_neg hpos]
      rcases FairCostQueue.dequeue_cases hwf s.available.toNat with
        hnone | ⟨entry, q, hdeq, hwf', hperm, -⟩
      · rw [hnone]
        exact ⟨rfl, hwf, List.Subperm.refl _, Grows.refl s,
          Or.inr ⟨rfl, hne, Or.inr (congrArg Prod.fst hnone)⟩⟩
      · rw [hdeq]
        obtain ⟨hqueue, hlanes, hgrows, -⟩ := settleDequeued_result env entry { s with queue := q }
        dsimp only at hqueue hlanes
        have hlen := hperm.length_eq
        rw [length_cons, hfuel] at hlen
        have htail := ih (by rw [hqueue]; exact hwf') (by rw [hqueue]; omega)
        refine ⟨htail.lanes.trans hlanes, htail.wf, ?_, ?_, htail.stopped⟩
        · have hsub := htail.subset
          rw [hqueue] at hsub
          exact hsub.trans (subperm_of_perm_cons hperm)
        · have htaken : Grows s { s with queue := q } := Grows.of_eq rfl rfl rfl
          exact (htaken.trans hgrows).trans htail.grows

/-! ## The lanes -/

/-- The queue of a lane after its visit: the budget is used up, or one entry
was admitted, or the lane yields nothing for the budget of its visit. -/
def Visited (s s' : Controller) (q q' : FairCostQueue QueuedPayload) : Prop :=
  s'.available ≤ 0 ∨ (∃ e rest, q.entries.Perm (rest ++ e :: q'.entries) ∧ s'.active ≠ [] ∧
      s'.available ≤ s.available - e.cost) ∨
    ∃ budget, Stuck q' budget ∧ s'.available ≤ budget ∧ (s'.active = [] → s'.available = budget)

theorem Visited.later {s'' : Controller} {q q' : FairCostQueue QueuedPayload}
    (h : Visited s s' q q') (hgrows : Grows s' s'') : Visited s s'' q q' := by
  have havailable := hgrows.available
  rcases h with hdone | ⟨e, rest, hperm, hactive, hle⟩ | ⟨budget, hstuck, hle, hidle⟩
  · exact Or.inl (by omega)
  · refine Or.inr (Or.inl ⟨e, rest, hperm, ?_, by omega⟩)
    exact fun hnil => hactive (hgrows.idle hnil).1
  · refine Or.inr (Or.inr ⟨budget, hstuck, by omega, ?_⟩)
    intro hnil
    obtain ⟨hnil', hcost⟩ := hgrows.idle hnil
    rw [← hidle hnil', Controller.available, Controller.available, hgrows.limit, hcost]

theorem Visited.earlier {r : Controller} {q q' : FairCostQueue QueuedPayload}
    (h : Visited s s' q q') (hgrows : Grows r s) : Visited r s' q q' := by
  have havailable := hgrows.available
  rcases h with hdone | ⟨e, rest, hperm, hactive, hle⟩ | hstuck
  · exact Or.inl hdone
  · exact Or.inr (Or.inl ⟨e, rest, hperm, hactive, by omega⟩)
  · exact Or.inr (Or.inr hstuck)

structure LaneResult (key : JsString) (lane lane' : Lane) (s s' : Controller) (finished : Bool) :
    Prop where
  queue : s'.queue = s.queue
  keys : JsMap.keys s'.virtualLanes = JsMap.keys s.virtualLanes
  get : s'.virtualLanes.get key = some lane'
  others : ∀ other, other ≠ key → s'.virtualLanes.get other = s.virtualLanes.get other
  wf : lane'.queue.Wf
  subset : lane'.queue.entries.Subperm lane.queue.entries
  grows : Grows s s'
  visited : Visited s s' lane.queue lane'.queue
  early : finished = false → s'.available ≤ 0

theorem dispatchLane_result (key : JsString) {fuel : Nat} {lane : Lane}
    (hget : s.virtualLanes.get key = some lane) (hwf : lane.queue.Wf)
    (hfuel : lane.queue.entries.length = fuel) :
    ∃ lane', LaneResult key lane lane' s (dispatchLane env key fuel s).1
      (dispatchLane env key fuel s).2 := by
  induction fuel generalizing s lane with
  | zero =>
    have hnil := length_eq_zero_iff.mp hfuel
    refine ⟨lane, rfl, rfl, hget, fun _ _ => rfl, hwf, List.Subperm.refl _, Grows.refl s, ?_, ?_⟩
    · refine Or.inr (Or.inr ⟨s.available, Or.inr ?_, le_refl _, fun _ => rfl⟩)
      have hcount : lane.queue.count = 0 := by
        rw [hwf.count, hnil]
        rfl
      unfold FairCostQueue.dequeue
      rw [if_pos hcount]
    · exact fun h => absurd h.symm Bool.false_ne_true
  | succ fuel ih =>
    have hmem : key ∈ JsMap.keys s.virtualLanes := JsMap.get_isSome_iff.mp (by rw [hget]; rfl)
    have hsize : lane.queue.size > 0 := by
      rw [FairCostQueue.size_eq hwf]
      omega
    rw [dispatchLane, hget]
    dsimp only
    rw [if_pos hsize]
    by_cases hpos : s.available ≤ 0
    · rw [if_pos hpos]
      exact ⟨lane, rfl, rfl, hget, fun _ _ => rfl, hwf, List.Subperm.refl _, Grows.refl s, Or.inl hpos,
        fun _ => hpos⟩
    · rw [if_neg hpos]
      rcases FairCostQueue.dequeue_cases hwf s.available.toNat with
        hnone | ⟨entry, q, hdeq, hwf', hperm, -⟩
      · rw [hnone]
        refine ⟨lane, rfl, JsMap.keys_set_of_mem hmem, ?_, ?_, hwf, List.Subperm.refl _,
          Grows.of_eq rfl rfl rfl, ?_, fun h => absurd h.symm Bool.false_ne_true⟩
        · exact setLane_get_self key _ s
        · intro other hne
          exact setLane_get_other hne _ s
        · exact Or.inr (Or.inr ⟨s.available, Or.inr (congrArg Prod.fst hnone), le_refl _,
            fun _ => rfl⟩)
      · rw [hdeq]
        dsimp only
        obtain ⟨hqueue, hlanes, hgrows, hcases⟩ := settleDequeued_result env entry
          (s.setLane key { lane with queue := q })
        have htaken : Grows s (s.setLane key { lane with queue := q }) := Grows.of_eq rfl rfl rfl
        have hkeys : JsMap.keys (s.setLane key { lane with queue := q }).virtualLanes =
            JsMap.keys s.virtualLanes := JsMap.keys_set_of_mem hmem
        have hgetKey := setLane_get_self key { lane with queue := q } s
        have hothers : ∀ other, other ≠ key →
            (s.setLane key { lane with queue := q }).virtualLanes.get other =
              s.virtualLanes.get other := fun other hne => setLane_get_other hne _ s
        generalize hsettled : settleDequeued env entry (s.setLane key { lane with queue := q }) = r
          at hqueue hlanes hgrows hcases
        have hsub := subperm_of_perm_cons hperm
        rcases hcases with ⟨hadmitted, hactive, hcost⟩ | hrejected
        · -- the admission ends the visit
          rw [if_pos hadmitted]
          refine ⟨{ lane with queue := q }, hqueue, ?_, ?_, ?_, hwf', hsub, htaken.trans hgrows, ?_,
            fun h => absurd h.symm Bool.false_ne_true⟩
          · rw [hlanes, hkeys]
          · rw [hlanes, hgetKey]
          · intro other hne
            rw [hlanes, hothers other hne]
          · refine Or.inr (Or.inl ⟨entry, [], hperm, hactive, ?_⟩)
            have hcost' : r.1.activeCost = s.activeCost + entry.cost := hcost
            have hlimit : r.1.adaptation.currentLimit = s.adaptation.currentLimit := hgrows.limit
            unfold available
            rw [hcost', hlimit]
            omega
        · rw [if_neg (by rw [hrejected]; exact Bool.false_ne_true)]
          have hlen := hperm.length_eq
          rw [length_cons, hfuel] at hlen
          obtain ⟨lane', hlane⟩ := ih (by rw [hlanes, hgetKey]) hwf' (by dsimp only; omega)
          refine ⟨lane', hlane.queue.trans hqueue, ?_, hlane.get, ?_, hlane.wf, ?_, ?_, ?_,
            hlane.early⟩
          · rw [hlane.keys, hlanes, hkeys]
          · intro other hne
            rw [hlane.others other hne, hlanes, hothers other hne]
          · exact hlane.subset.trans hsub
          · exact (htaken.trans hgrows).trans hlane.grows
          · have hearlier := hlane.visited.earlier (htaken.trans hgrows)
            rcases hearlier with hdone | ⟨e, rest, hperm', hactive, hle⟩ | hstuck
            · exact Or.inl hdone
            · refine Or.inr (Or.inl ⟨e, entry :: rest, ?_, hactive, hle⟩)
              exact hperm.trans (hperm'.cons entry)
            · exact Or.inr (Or.inr hstuck)

theorem removeEmptyLane_get {key other : JsString} {lane : Lane}
    (h : (s.removeEmptyLane key).virtualLanes.get other = some lane) :
    s.virtualLanes.get other = some lane := by
  unfold removeEmptyLane at h
  split at h
  · split at h
    · exact (JsMap.get_delete_eq_some h).2
    · exact h
  · exact h

theorem removeEmptyLane_load (s : Controller) (key : JsString) :
    (s.removeEmptyLane key).queue = s.queue ∧ Grows s (s.removeEmptyLane key) := by
  unfold removeEmptyLane
  split
  · split
    · exact ⟨rfl, Grows.of_eq rfl rfl rfl⟩
    · exact ⟨rfl, Grows.refl s⟩
  · exact ⟨rfl, Grows.refl s⟩

structure KeysResult (keys : List JsString) (s s' : Controller) : Prop where
  queue : s'.queue = s.queue
  grows : Grows s s'
  lanes : ∀ key lane', s'.virtualLanes.get key = some lane' →
    ∃ lane, s.virtualLanes.get key = some lane ∧ lane'.queue.entries.Subperm lane.queue.entries ∧
      (key ∉ keys → lane' = lane) ∧ (key ∈ keys → Visited s s' lane.queue lane'.queue)

theorem dispatchKeys_result {keys : List JsString} (hkeys : keys.Nodup)
    (hwf : ∀ key lane, s.virtualLanes.get key = some lane → lane.queue.Wf) :
    KeysResult keys s (dispatchKeys env keys s) := by
  induction keys generalizing s with
  | nil =>
    refine ⟨rfl, Grows.refl s, ?_⟩
    exact fun key lane hget => ⟨lane, hget, List.Subperm.refl _, fun _ => rfl,
      fun hmem => absurd hmem not_mem_nil⟩
  | cons key keys ih =>
    obtain ⟨hfresh, hkeys'⟩ := nodup_cons.mp hkeys
    rw [dispatchKeys]
    cases hget : s.virtualLanes.get key with
    | none =>
      have hrest := ih hkeys' hwf
      refine ⟨hrest.queue, hrest.grows, ?_⟩
      intro other lane' hother
      obtain ⟨lane, hlane, hsub, hsame, hvisited⟩ := hrest.lanes other lane' hother
      have hne : other ≠ key := by
        rintro rfl
        rw [hget] at hlane
        exact absurd hlane.symm (Option.some_ne_none _)
      refine ⟨lane, hlane, hsub, ?_, ?_⟩
      · exact fun hnot => hsame (fun hmem => hnot (mem_cons_of_mem _ hmem))
      · exact fun hmem => hvisited ((mem_cons.mp hmem).resolve_left hne)
    | some lane =>
      dsimp only
      obtain ⟨lane₁, hlane⟩ := dispatchLane_result env key hget (hwf key lane hget) rfl
      generalize dispatchLane env key lane.queue.entries.length s = r at hlane
      obtain ⟨s₁, finished⟩ := r
      cases finished with
      | false =>
        have hdone := hlane.early rfl
        refine ⟨hlane.queue, hlane.grows, ?_⟩
        intro other lane' hother
        by_cases hne : other = key
        · subst hne
          obtain rfl : lane₁ = lane' := Option.some.inj (hlane.get.symm.trans hother)
          exact ⟨lane, hget, hlane.subset, fun hnot => absurd mem_cons_self hnot,
            fun _ => hlane.visited⟩
        · rw [hlane.others other hne] at hother
          exact ⟨lane', hother, List.Subperm.refl _, fun _ => rfl, fun _ => Or.inl hdone⟩
      | true =>
        obtain ⟨hqueue₂, hgrows₂⟩ := removeEmptyLane_load s₁ key
        have hget₂ : ∀ other l, (s₁.removeEmptyLane key).virtualLanes.get other = some l →
            s₁.virtualLanes.get other = some l := fun other l h => removeEmptyLane_get h
        have hwf₂ : ∀ other l, (s₁.removeEmptyLane key).virtualLanes.get other = some l →
            l.queue.Wf := by
          intro other l hother
          have hother₁ := hget₂ other l hother
          by_cases hne : other = key
          · subst hne
            obtain rfl : lane₁ = l := Option.some.inj (hlane.get.symm.trans hother₁)
            exact hlane.wf
          · rw [hlane.others other hne] at hother₁
            exact hwf other l hother₁
        have hrest := ih hkeys' hwf₂
        have hbefore : Grows s (s₁.removeEmptyLane key) := hlane.grows.trans hgrows₂
        refine ⟨hrest.queue.trans (hqueue₂.trans hlane.queue), hbefore.trans hrest.grows, ?_⟩
        intro other lane' hother
        obtain ⟨lane₂, hlane₂, hsub, hsame, hvisited⟩ := hrest.lanes other lane' hother
        have hlane₁ := hget₂ other lane₂ hlane₂
        by_cases hne : other = key
        · -- the lane of this visit is not visited again
          subst hne
          obtain rfl : lane₁ = lane₂ := Option.some.inj (hlane.get.symm.trans hlane₁)
          obtain rfl := hsame hfresh
          exact ⟨lane, hget, hlane.subset, fun hnot => absurd mem_cons_self hnot,
            fun _ => hlane.visited.later (hgrows₂.trans hrest.grows)⟩
        · rw [hlane.others other hne] at hlane₁
          refine ⟨lane₂, hlane₁, hsub, ?_, ?_⟩
          · exact fun hnot => hsame (fun hmem => hnot (mem_cons_of_mem _ hmem))
          · intro hmem
            exact (hvisited ((mem_cons.mp hmem).resolve_left hne)).earlier hbefore

/-! ## The whole dispatch -/

structure DispatchResult (s s' : Controller) : Prop where
  grows : Grows s s'
  queue_subset : s'.queue.entries.Subperm s.queue.entries
  lanes : ∀ key lane', s'.virtualLanes.get key = some lane' →
    ∃ lane, s.virtualLanes.get key = some lane ∧ lane'.queue.entries.Subperm lane.queue.entries
  stopped : s'.queue.entries ≠ [] ∧ Stuck s'.queue s'.available ∨
    s'.queue.entries = [] ∧ ∀ key lane', s'.virtualLanes.get key = some lane' →
      ∃ lane, s.virtualLanes.get key = some lane ∧ Visited s s' lane.queue lane'.queue

theorem dispatch_result {n : Nat} {pending : List Nat} (h : Account n pending s)
    (hdispatches : s.dispatches = true) : DispatchResult s (s.dispatch env) := by
  unfold dispatch
  rw [if_pos hdispatches]
  have hshared := dispatchShared_result env h.queue_wf rfl
  have hview := controlView_dispatchShared env s.queue.entries.length s
  have haccount := account_dispatchShared env s.queue.entries.length h
  generalize dispatchShared env s.queue.entries.length s = r at hshared hview haccount
  obtain ⟨s₁, finished⟩ := r
  have hwf : ∀ key lane, s₁.virtualLanes.get key = some lane → lane.queue.Wf :=
    fun key lane hget => haccount.lanes_wf _ (JsMap.mem_of_get hget)
  cases finished with
  | false =>
    refine ⟨hshared.grows, hshared.subset, ?_, ?_⟩
    · intro key lane' hget
      rw [hshared.lanes] at hget
      exact ⟨lane', hget, List.Subperm.refl _⟩
    · rcases hshared.stopped with ⟨hfinished, -⟩ | ⟨-, hstuck⟩
      · exact absurd hfinished Bool.false_ne_true
      · exact Or.inl hstuck
  | true =>
    dsimp only
    have hnil : s₁.queue.entries = [] := by
      rcases hshared.stopped with ⟨-, hnil⟩ | ⟨hfinished, -⟩
      · exact hnil
      · exact absurd hfinished.symm Bool.false_ne_true
    unfold dispatchLanes
    rw [if_pos ((dispatches_of_view hview).trans hdispatches)]
    have hkeys := dispatchKeys_result env haccount.lanes_nodup hwf
    refine ⟨hshared.grows.trans hkeys.grows, ?_, ?_, Or.inr ⟨?_, ?_⟩⟩
    · rw [hkeys.queue, hnil]
      exact nil_subperm
    · intro key lane' hget
      obtain ⟨lane, hlane, hsub, -, -⟩ := hkeys.lanes key lane' hget
      rw [hshared.lanes] at hlane
      exact ⟨lane, hlane, hsub⟩
    · rw [hkeys.queue, hnil]
    · intro key lane' hget
      obtain ⟨lane, hlane, -, -, hvisited⟩ := hkeys.lanes key lane' hget
      have hmem : key ∈ JsMap.keys s₁.virtualLanes :=
        JsMap.get_isSome_iff.mp (by rw [hlane]; rfl)
      rw [hshared.lanes] at hlane
      exact ⟨lane, hlane, (hvisited hmem).earlier hshared.grows⟩

/-! ## Waiting costs -/

def sharedCosts (s : Controller) : List Nat := s.queue.entries.map QueueEntry.cost

def laneCosts (s : Controller) (key : JsString) : List Nat :=
  match s.virtualLanes.get key with
  | some lane => lane.queue.entries.map QueueEntry.cost
  | none => []

variable {s : Controller}

theorem laneCosts_of_get {key : JsString} {lane : Lane} (h : s.virtualLanes.get key = some lane) :
    laneCosts s key = lane.queue.entries.map QueueEntry.cost := by
  rw [laneCosts, h]

def Waits (s : Controller) (cost : Nat) : Prop :=
  cost ∈ sharedCosts s ∨ ∃ key, cost ∈ laneCosts s key

theorem not_waits_of_empty (hqueue : s.queue.entries = []) (hlanes : s.virtualLanes = [])
    (cost : Nat) : ¬ Waits s cost := by
  rintro (hshared | ⟨key, hlane⟩)
  · rw [sharedCosts, hqueue] at hshared
    exact absurd hshared not_mem_nil
  · rw [laneCosts, hlanes] at hlane
    exact absurd hlane not_mem_nil

/-- Some requests were taken out. -/
structure Fewer (s t : Controller) : Prop where
  shared : (sharedCosts t).Subperm (sharedCosts s)
  lanes : ∀ key, (laneCosts t key).Subperm (laneCosts s key)

variable {t : Controller}

theorem Fewer.trans {u : Controller} (h : Fewer s t) (h' : Fewer t u) : Fewer s u :=
  ⟨h'.shared.trans h.shared, fun key => (h'.lanes key).trans (h.lanes key)⟩

theorem Fewer.waits (h : Fewer s t) {cost : Nat} (hwaits : Waits t cost) : Waits s cost := by
  rcases hwaits with hshared | ⟨key, hlane⟩
  · exact Or.inl (h.shared.subset hshared)
  · exact Or.inr ⟨key, (h.lanes key).subset hlane⟩

theorem subperm_map {α β : Type} (f : α → β) {l l' : List α} (h : l.Subperm l') :
    (l.map f).Subperm (l'.map f) := by
  obtain ⟨m, hperm, hsub⟩ := h
  exact ⟨m.map f, hperm.map f, hsub.map f⟩

theorem fewer_lanes (h : ∀ key lane', t.virtualLanes.get key = some lane' →
      ∃ lane, s.virtualLanes.get key = some lane ∧
        lane'.queue.entries.Subperm lane.queue.entries) (key : JsString) :
    (laneCosts t key).Subperm (laneCosts s key) := by
  cases hget : t.virtualLanes.get key with
  | none =>
    rw [laneCosts, hget]
    exact nil_subperm
  | some lane' =>
    obtain ⟨lane, hlane, hsub⟩ := h key lane' hget
    rw [laneCosts_of_get hget, laneCosts_of_get hlane]
    exact subperm_map QueueEntry.cost hsub

variable {s' : Controller}

theorem DispatchResult.fewer (h : DispatchResult s s') : Fewer s s' :=
  ⟨subperm_map QueueEntry.cost h.queue_subset, fewer_lanes h.lanes⟩

/-- The lanes are among the lanes of before, with the same queues. -/
def LanesKept (s s' : Controller) : Prop :=
  ∀ key lane', s'.virtualLanes.get key = some lane' →
    ∃ lane, s.virtualLanes.get key = some lane ∧ lane'.queue = lane.queue

theorem LanesKept.of_eq (h : s'.virtualLanes = s.virtualLanes) : LanesKept s s' := by
  intro key lane hget
  rw [h] at hget
  exact ⟨lane, hget, rfl⟩

theorem LanesKept.trans {s'' : Controller} (h : LanesKept s s') (h' : LanesKept s' s'') :
    LanesKept s s'' := by
  intro key lane'' hget
  obtain ⟨lane', hlane', hqueue'⟩ := h' key lane'' hget
  obtain ⟨lane, hlane, hqueue⟩ := h key lane' hlane'
  exact ⟨lane, hlane, hqueue'.trans hqueue⟩

theorem lanes_nil (h : ∀ key lane', s'.virtualLanes.get key = some lane' →
      ∃ lane, s.virtualLanes.get key = some lane) (hnil : s.virtualLanes = []) :
    s'.virtualLanes = [] := by
  cases hlanes : s'.virtualLanes with
  | nil => rfl
  | cons entry lanes =>
    have hget : s'.virtualLanes.get entry.1 = some entry.2 := by
      rw [hlanes, JsMap.get, if_pos rfl]
    obtain ⟨lane, hlane⟩ := h _ _ hget
    rw [hnil] at hlane
    exact absurd hlane.symm (some_ne_none _)

theorem LanesKept.nil (h : LanesKept s s') (hnil : s.virtualLanes = []) : s'.virtualLanes = [] := by
  refine lanes_nil ?_ hnil
  intro key lane' hget
  obtain ⟨lane, hlane, -⟩ := h key lane' hget
  exact ⟨lane, hlane⟩

theorem LanesKept.fewer (h : LanesKept s s') (hqueue : s'.queue = s.queue) : Fewer s s' := by
  refine ⟨by rw [sharedCosts, hqueue]; exact List.Subperm.refl _, fewer_lanes ?_⟩
  intro key lane' hget
  obtain ⟨lane, hlane, hsame⟩ := h key lane' hget
  exact ⟨lane, hlane, hsame ▸ List.Subperm.refl _⟩

/-! ## Evictions -/

theorem lanesKept_deleteLane (key : JsString) (s : Controller) : LanesKept s (s.deleteLane key) := by
  unfold deleteLane
  cases hget : s.virtualLanes.get key with
  | none => exact LanesKept.of_eq rfl
  | some lane =>
    obtain ⟨-, hlanes⟩ := foldl_failQueued_eq lane.queue.drain.1 .laneEvicted
      "connection lane evicted" s
    intro other lane' hother
    dsimp only at hother
    rw [hlanes, JsMap.get_delete] at hother
    split at hother
    · exact absurd hother.symm (some_ne_none _)
    · exact ⟨lane', hother, rfl⟩

theorem queue_deleteLane (key : JsString) (s : Controller) : (s.deleteLane key).queue = s.queue := by
  unfold deleteLane
  split
  · rfl
  · exact (foldl_failQueued_eq _ .laneEvicted "connection lane evicted" s).1

theorem evictIdleLanes_kept (env : Env) (s : Controller) :
    (s.evictIdleLanes env).queue = s.queue ∧ LanesKept s (s.evictIdleLanes env) := by
  have hloop : ∀ (keys : List JsString) (t : Controller),
      (keys.foldl (fun s key => s.deleteLane key) t).queue = t.queue ∧
        LanesKept t (keys.foldl (fun s key => s.deleteLane key) t) := by
    intro keys
    induction keys with
    | nil => exact fun t => ⟨rfl, LanesKept.of_eq rfl⟩
    | cons key keys ih =>
      intro t
      obtain ⟨hqueue, hlanes⟩ := ih (t.deleteLane key)
      exact ⟨hqueue.trans (queue_deleteLane key t), (lanesKept_deleteLane key t).trans hlanes⟩
  obtain ⟨hqueue, hlanes⟩ := hloop _ s.readClock
  exact ⟨hqueue, (LanesKept.of_eq rfl).trans hlanes⟩

theorem evictOldestLane_kept (s : Controller) :
    s.evictOldestLane.queue = s.queue ∧ LanesKept s s.evictOldestLane := by
  unfold evictOldestLane
  split
  · split
    · exact ⟨rfl, LanesKept.of_eq rfl⟩
    · exact ⟨rfl, LanesKept.of_eq rfl⟩
    · exact ⟨queue_deleteLane _ s, lanesKept_deleteLane _ s⟩
  · exact ⟨rfl, LanesKept.of_eq rfl⟩

/-! ## Turns -/

/-- What `release` gives back to the budget. -/
def freedCost (s : Controller) (lease : Nat) : Nat :=
  match s.records.get lease with
  | some record => if record.released then 0 else record.cost
  | none => 0

/-- The limit that `tick` closes the window with. -/
def closedLimit (env : Env) (s : Controller) : Nat :=
  let s := (s.sampleIntegral env).evictIdleLanes env
  (closeAdaptationWindow env.rounding s.config (s.now env) s.adaptation).currentLimit

/-- The budget that an event has for the waiting requests.  The last four
dispatch no lane. -/
def budget (env : Env) (s : Controller) : Event → Int
  | .acquire _ | .expire _ | .abort _ => s.available
  | .release lease _ _ => s.available + s.freedCost lease
  | .tick => s.closedLimit env - s.activeCost
  | .observePressure pressure =>
      (criticalDecrease env.rounding s.config (setPressure pressure s.adaptation)).currentLimit -
        s.activeCost
  | .updateConfig _ | .evictIdleLanes | .shutdown | .idTaken => 0

/-- The costs that an event may add to the lane of a tenant. -/
def arriving (env : Env) (s : Controller) (key : JsString) : Event → List Nat
  | .acquire request =>
      if request.tenantKey = some key then
        match s.resolveCost env request with
        | .ok cost => [cost]
        | .error _ => []
      else []
  | _ => []

/-- Nothing but the active leases has changed. -/
structure Kept (s s' : Controller) : Prop where
  queue : s'.queue = s.queue
  lanes : LanesKept s s'
  grows : Grows s s'
  dispatches : s'.dispatches = s.dispatches

/-- The event ends in the dispatch of a state. -/
structure Serving (env : Env) (t s' : Controller) : Prop where
  account : ∃ n, Account n [] t
  dispatches : t.dispatches = true
  load : loadView s' = loadView (t.dispatch env)
  control : controlView s' = controlView t

variable {env : Env}

theorem Serving.available (h : Serving env t s') : s'.available = (t.dispatch env).available := by
  have hcost : s'.activeCost = (t.dispatch env).activeCost := congrArg LoadView.activeCost h.load
  rw [Controller.available, Controller.available, hcost, limit_of_view h.control,
    limit_of_view (controlView_dispatch env t)]

theorem Serving.fewer (h : Serving env t s') : Fewer t s' ∧ s'.available ≤ t.available := by
  obtain ⟨n, hacc⟩ := h.account
  have hresult := dispatch_result env hacc h.dispatches
  have hqueue : s'.queue = (t.dispatch env).queue := congrArg LoadView.queue h.load
  have hlanes : s'.virtualLanes = (t.dispatch env).virtualLanes :=
    congrArg LoadView.virtualLanes h.load
  refine ⟨hresult.fewer.trans ((LanesKept.of_eq hlanes).fewer hqueue), ?_⟩
  rw [h.available]
  exact hresult.grows.available

theorem Serving.idle (h : Serving env t s') (hidle : s'.active = []) : t.active = [] := by
  obtain ⟨n, hacc⟩ := h.account
  have hactive : s'.active = (t.dispatch env).active := congrArg LoadView.active h.load
  exact ((dispatch_result env hacc h.dispatches).grows.idle (hactive ▸ hidle)).1

/-- What an event does to the waiting requests. -/
inductive Turn (env : Env) (s : Controller) : Event → Controller → Prop where
  /-- They are left alone. -/
  | quiet {event : Event} {s' : Controller} (hkept : Kept s s') : Turn env s event s'
  /-- Nothing waits. -/
  | emptied {event : Event} {s' : Controller} (hqueue : s'.queue.entries = [])
      (hlanes : s'.virtualLanes = []) : Turn env s event s'
  /-- Some are taken out, and the rest is dispatched. -/
  | served {event : Event} {s' t : Controller} (hserving : Serving env t s') (hfewer : Fewer s t)
      (hbudget : t.available ≤ budget env s event)
      (hidle : t.active = [] → s.active = [] ∨
        t.adaptation.currentLimit = s.adaptation.currentLimit ∧
          ∃ lease outcome info, event = .release lease outcome info ∧ s.active = [lease]) :
      Turn env s event s'
  /-- A request joins them, because it was not admitted right away. -/
  | joined {request : Request} {s' t : Controller} {cost : Nat} (hserving : Serving env t s')
      (hshared : (sharedCosts t).Subperm (cost :: sharedCosts s))
      (hlanes : ∀ key, (laneCosts t key).Subperm (laneCosts s key ++ arriving env s key (.acquire request)))
      (hbudget : t.available ≤ s.available) (hidle : t.active = [] → s.active = [])
      (hfits : cost ≤ s.adaptation.currentLimit)
      (hwaits : sharedCosts s ≠ [] ∨ s.available < cost) : Turn env s (.acquire request) s'
  /-- They all move to a new shared queue. -/
  | moved {event : Event} {s' t : Controller} (hserving : Serving env t s')
      (hlanes : t.virtualLanes = []) (hwaits : ∀ cost, Waits t cost → Waits s cost)
      (hidle : t.active = [] → s.active = []) : Turn env s event s'

/-- A controller that does not dispatch has nothing waiting. -/
def Parked (s : Controller) : Prop :=
  s.dispatches = false → s.queue.entries = [] ∧ s.virtualLanes = []

theorem parked_turn {event : Event} (h : Parked s) (hturn : Turn env s event s') : Parked s' := by
  have hserving : ∀ t, Serving env t s' → Parked s' := by
    intro t hserving hfalse
    rw [dispatches_of_view hserving.control, hserving.dispatches] at hfalse
    exact absurd hfalse.symm Bool.false_ne_true
  cases hturn with
  | quiet hkept =>
    intro hfalse
    rw [hkept.dispatches] at hfalse
    obtain ⟨hqueue, hlanes⟩ := h hfalse
    exact ⟨by rw [hkept.queue]; exact hqueue, hkept.lanes.nil hlanes⟩
  | emptied hqueue hlanes => exact fun _ => ⟨hqueue, hlanes⟩
  | served ht _ _ _ => exact hserving _ ht
  | joined ht _ _ _ _ _ _ => exact hserving _ ht
  | moved ht _ _ _ => exact hserving _ ht

variable {n : Nat}

theorem turn_dispatch {event : Event} (hparked : Parked s) (hacc : Account n [] t)
    (hdispatches : t.dispatches = s.dispatches) (hfewer : Fewer s t)
    (hnil : s.virtualLanes = [] → t.virtualLanes = []) (hbudget : t.available ≤ budget env s event)
    (hidle : t.active = [] → s.active = [] ∨ t.adaptation.currentLimit = s.adaptation.currentLimit ∧
        ∃ lease outcome info, event = .release lease outcome info ∧ s.active = [lease])
    (hload : loadView s' = loadView (t.dispatch env)) (hcontrol : controlView s' = controlView t) :
    Turn env s event s' := by
  cases hd : t.dispatches with
  | true => exact Turn.served ⟨⟨n, hacc⟩, hd, hload, hcontrol⟩ hfewer hbudget hidle
  | false =>
    obtain ⟨hqueue, hlanes⟩ := hparked (hdispatches ▸ hd)
    rw [dispatch_eq_self env hd] at hload
    have hqueue' : s'.queue = t.queue := congrArg LoadView.queue hload
    have hlanes' : s'.virtualLanes = t.virtualLanes := congrArg LoadView.virtualLanes hload
    refine Turn.emptied ?_ ?_
    · have hsub := hfewer.shared
      rw [sharedCosts, sharedCosts, hqueue, map_nil, subperm_nil, map_eq_nil_iff]
        at hsub
      rw [hqueue', hsub]
    · rw [hlanes', hnil hlanes]

/-! ## Releases and the window -/

theorem loadView_setDisposition (id : Nat) (disposition : VirtualDisposition) (s : Controller) :
    loadView (s.setDisposition id disposition) = loadView s := by
  unfold setDisposition
  split <;> rfl

theorem loadView_dispatchVirtual (s : Controller) : loadView s.dispatchVirtual = loadView s := by
  have hloop : ∀ (fuel : Nat) (t : Controller), loadView (dispatchVirtualLoop fuel t) = loadView t := by
    intro fuel
    induction fuel with
    | zero => exact fun t => rfl
    | succ fuel ih =>
      intro t
      rw [dispatchVirtualLoop]
      split
      · dsimp only
        split
        · rfl
        · split
          · rfl
          · split
            · exact ih _
            · split
              · exact ih _
              · rw [ih]
                exact loadView_setDisposition _ _ _
      · rfl
  exact hloop _ s

theorem loadView_notePressure (pressure : Option Pressure) (s : Controller) :
    loadView (s.notePressure pressure) = loadView s := by
  unfold notePressure
  split <;> rfl

theorem loadView_finishRelease (env : Env) (record : ActiveLeaseRecord) (outcome : ReleaseOutcome)
    (info : ReleaseMeta) (s : Controller) :
    loadView (s.finishRelease env record outcome info) = loadView s := by
  have hlatency : loadView (s.leaseLatency env info record).2 = loadView s := by
    unfold leaseLatency
    split <;> rfl
  have hnoted : loadView (((s.leaseLatency env info record).2.noteRelease env outcome
      (s.leaseLatency env info record).1).notePressure info.pressure) = loadView s := by
    rw [loadView_notePressure]
    exact hlatency
  unfold finishRelease releaseVirtual
  rw [loadView_dispatchVirtual, loadView_setDisposition]
  refine Eq.trans ?_ hnoted
  split <;> rfl

theorem notePressure_control (pressure : Option Pressure) (s : Controller) :
    (s.notePressure pressure).dispatches = s.dispatches ∧
      (s.notePressure pressure).adaptation.currentLimit = s.adaptation.currentLimit := by
  unfold notePressure
  split
  · exact ⟨rfl, currentLimit_setPressure _ _⟩
  · exact ⟨rfl, rfl⟩

theorem dropLease_load (record : ActiveLeaseRecord) (h : loadView t = loadView s)
    (hmem : record.id ∈ s.active) :
    loadView (t.dropLease record) =
      { loadView s with
        active := s.active.filter (· ≠ record.id)
        activeCost := s.activeCost - record.cost } := by
  have hactive : t.active = s.active := congrArg LoadView.active h
  unfold dropLease
  rw [hactive, if_pos hmem]
  exact congrArg (fun view : LoadView => { view with
    active := s.active.filter (· ≠ record.id)
    activeCost := view.activeCost - record.cost }) h

theorem active_eq_singleton {ids : List Nat} {id : Nat} (hnodup : ids.Nodup) (hmem : id ∈ ids)
    (hfilter : ids.filter (· ≠ id) = []) : ids = [id] := by
  have hall : ∀ x ∈ ids, x = id := by
    intro x hx
    by_contra hne
    have hkept : x ∈ ids.filter (· ≠ id) := mem_filter.mpr ⟨hx, by simpa using hne⟩
    rw [hfilter] at hkept
    exact not_mem_nil hkept
  have hreplicate := eq_replicate_of_mem hall
  have hlength : ids.length ≤ 1 := by
    rw [hreplicate] at hnodup
    exact nodup_replicate.mp hnodup
  have hpos := length_pos_of_mem hmem
  rw [hreplicate, show ids.length = 1 by omega]
  rfl

theorem turn_release (env : Env) (hparked : Parked s) (hacc : Account n [] s)
    (hrecorded : Recorded s) (lease : Nat) (outcome : ReleaseOutcome) (info : ReleaseMeta) :
    Turn env s (.release lease outcome info) (s.release env lease outcome info) := by
  unfold release
  cases hget : s.records.get lease with
  | none => exact Turn.quiet ⟨rfl, LanesKept.of_eq rfl, Grows.refl s, rfl⟩
  | some record =>
    dsimp only
    by_cases hreleased : record.released = true
    · rw [if_pos hreleased]
      exact Turn.quiet ⟨rfl, LanesKept.of_eq rfl, Grows.refl s, rfl⟩
    · rw [if_neg hreleased]
      have hacc' := account_released env record outcome info hacc
        (s.records.set lease { record with released := true })
      have hid : record.id = lease := hrecorded.record_id _ (JsMap.mem_of_get hget)
      have hfreed : s.freedCost lease = record.cost := by
        rw [freedCost, hget]
        dsimp only
        rw [if_neg hreleased]
      have hin : record.id ∈ s.active := by
        rw [hid]
        exact hrecorded.mem_active (JsMap.mem_of_get hget) (by simpa using hreleased)
      have hload := (loadView_finishRelease env record outcome info _).trans
        (dropLease_load record (loadView_sampleIntegral env { s with
          records := s.records.set lease { record with released := true } }) hin)
      have hcontrol := controlView_finishRelease env record outcome info (s := s)
        ((controlView_dropLease record (sampleIntegral env { s with
          records := s.records.set lease { record with released := true } })).trans
            ((controlView_sampleIntegral env _).trans rfl))
      generalize finishRelease env record outcome info ((sampleIntegral env { s with
        records := s.records.set lease { record with released := true } }).dropLease record) = t
        at hacc' hload hcontrol ⊢
      obtain ⟨hdispatches, hlimit⟩ := notePressure_control info.pressure s
      rw [← limit_of_view hcontrol] at hlimit
      have hqueue : t.queue = s.queue := congrArg LoadView.queue hload
      have hlanes : t.virtualLanes = s.virtualLanes := congrArg LoadView.virtualLanes hload
      have hactive : t.active = s.active.filter (· ≠ record.id) := congrArg LoadView.active hload
      have hcost : t.activeCost = s.activeCost - record.cost := congrArg LoadView.activeCost hload
      refine turn_dispatch hparked hacc' ((dispatches_of_view hcontrol).trans hdispatches)
        ((LanesKept.of_eq hlanes).fewer hqueue) (fun hnil => hlanes.trans hnil) ?_ ?_ rfl
        (controlView_dispatch env t)
      · show t.available ≤ s.available + s.freedCost lease
        unfold available
        omega
      · intro hnil
        rw [hactive] at hnil
        refine Or.inr ⟨hlimit, lease, outcome, info, rfl, ?_⟩
        rw [← hid]
        exact active_eq_singleton hrecorded.active_nodup hin hnil

theorem turn_tick (env : Env) (hparked : Parked s) (hacc : Account n [] s) :
    Turn env s .tick (s.tick env) := by
  have hload := loadView_sampleIntegral env s
  have hqueue₁ : (s.sampleIntegral env).queue = s.queue := congrArg LoadView.queue hload
  have hlanes₁ : (s.sampleIntegral env).virtualLanes = s.virtualLanes :=
    congrArg LoadView.virtualLanes hload
  obtain ⟨hqueue₂, hlanes₂⟩ := evictIdleLanes_kept env (s.sampleIntegral env)
  have hrest := restView_evictIdleLanes env (s.sampleIntegral env)
  have hacc' := account_evictIdleLanes env (hacc.of_view (accountView_sampleIntegral env s))
  have hcontrol : controlView ((s.sampleIntegral env).evictIdleLanes env) = controlView s := by
    rw [controlView_evictIdleLanes, controlView_sampleIntegral]
  have hclosed : s.closedLimit env = (closeAdaptationWindow env.rounding
      ((s.sampleIntegral env).evictIdleLanes env).config
      (((s.sampleIntegral env).evictIdleLanes env).now env)
      ((s.sampleIntegral env).evictIdleLanes env).adaptation).currentLimit := rfl
  have hactive : ((s.sampleIntegral env).evictIdleLanes env).active = s.active :=
    (congrArg RestView.active hrest).trans (congrArg LoadView.active hload)
  have hcost : ((s.sampleIntegral env).evictIdleLanes env).activeCost = s.activeCost :=
    (congrArg RestView.activeCost hrest).trans (congrArg LoadView.activeCost hload)
  unfold tick
  generalize (s.sampleIntegral env).evictIdleLanes env = t
    at hqueue₂ hlanes₂ hacc' hcontrol hclosed hactive hcost ⊢
  have hkept : LanesKept s { t.readClock with
      adaptation := closeAdaptationWindow env.rounding t.config (t.now env) t.adaptation } :=
    (LanesKept.of_eq hlanes₁).trans hlanes₂
  have hdispatches : t.dispatches = s.dispatches := dispatches_of_view hcontrol
  refine turn_dispatch hparked (hacc'.of_view rfl) (t := { t.readClock with
    adaptation := closeAdaptationWindow env.rounding t.config (t.now env) t.adaptation })
    hdispatches (hkept.fewer (hqueue₂.trans hqueue₁)) hkept.nil ?_ ?_
    (loadView_dispatchVirtual _) ?_
  · show ((closeAdaptationWindow env.rounding t.config (t.now env) t.adaptation).currentLimit : Int) -
      t.activeCost ≤ s.closedLimit env - s.activeCost
    rw [hclosed, hcost]
  · exact fun hnil => Or.inl (hactive ▸ hnil)
  · rw [controlView_dispatchVirtual, controlView_dispatch]
    rfl

theorem turn_observePressure (env : Env) (hparked : Parked s) (hacc : Account n [] s)
    (pressure : Pressure) :
    Turn env s (.observePressure pressure) (s.observePressure env pressure) := by
  unfold observePressure
  dsimp only
  split
  · have hkept : LanesKept s { s with
        adaptation := criticalDecrease env.rounding s.config (setPressure pressure s.adaptation) } :=
      LanesKept.of_eq rfl
    refine turn_dispatch hparked (hacc.of_view rfl) (t := { s with
      adaptation := criticalDecrease env.rounding s.config (setPressure pressure s.adaptation) })
      rfl (hkept.fewer rfl) id (le_refl _) (fun hnil => Or.inl hnil)
      (loadView_dispatchVirtual _) ?_
    rw [controlView_dispatchVirtual, controlView_dispatch]
  · exact Turn.quiet ⟨rfl, LanesKept.of_eq rfl,
      Grows.of_eq rfl rfl (currentLimit_setPressure pressure s.adaptation), rfl⟩

/-! ## Expiry -/

theorem removeFromLanes_load (id : Nat) (keys : List JsString) {pending : List Nat}
    (h : Account n pending s) :
    (removeFromLanes id keys s).2.queue = s.queue ∧
      ∀ key lane', (removeFromLanes id keys s).2.virtualLanes.get key = some lane' →
        ∃ lane, s.virtualLanes.get key = some lane ∧
          lane'.queue.entries.Subperm lane.queue.entries ∧
          ((removeFromLanes id keys s).1 = none → lane'.queue = lane.queue) := by
  induction keys generalizing s with
  | nil => exact ⟨rfl, fun _ lane hget => ⟨lane, hget, List.Subperm.refl _, fun _ => rfl⟩⟩
  | cons key keys ih =>
    rw [removeFromLanes]
    cases hget : s.virtualLanes.get key with
    | none => exact ih h
    | some lane =>
      dsimp only
      have hother : ∀ {q : FairCostQueue QueuedPayload} {other : JsString} {lane' : Lane},
          (s.setLane key { lane with queue := q }).virtualLanes.get other = some lane' →
          (other = key ∧ lane' = { lane with queue := q }) ∨
            s.virtualLanes.get other = some lane' := fun h => JsMap.get_set_cases h
      rcases FairCostQueue.removeById_cases (h.lanes_wf _ (JsMap.mem_of_get hget)) id with
        hnone | ⟨entry, q, hrem, -, hperm, -⟩
      · rw [hnone]
        obtain ⟨hqueue, hlanes⟩ := ih (@Account.touchLane n pending s h key lane
          { lane with queue := lane.queue } hget rfl)
        refine ⟨hqueue, ?_⟩
        intro other lane' hlane'
        obtain ⟨lane₁, hlane₁, hsub, hsame⟩ := hlanes other lane' hlane'
        rcases hother hlane₁ with ⟨rfl, rfl⟩ | hold
        · exact ⟨lane, hget, hsub, hsame⟩
        · exact ⟨lane₁, hold, hsub, hsame⟩
      · rw [hrem]
        refine ⟨(removeEmptyLane_load _ entry.tenantKey).1, ?_⟩
        intro other lane' hlane'
        rcases hother (removeEmptyLane_get hlane') with ⟨rfl, rfl⟩ | hold
        · exact ⟨lane, hget, subperm_of_perm_cons hperm,
            fun hfalse => absurd hfalse (some_ne_none _)⟩
        · exact ⟨lane', hold, List.Subperm.refl _, fun hfalse => absurd hfalse (some_ne_none _)⟩

theorem turn_expireEntry (env : Env) (hparked : Parked s) (hacc : Account n [] s) (id : Nat)
    (code : RejectCode) (message : String) :
    Turn env s (.expire id) (s.expireEntry env id code message) := by
  unfold expireEntry
  rcases FairCostQueue.removeById_cases hacc.queue_wf id with
    hnone | ⟨entry, q, hrem, hwf, hperm, -⟩
  · rw [hnone]
    dsimp only
    obtain ⟨hqueue, hlanes⟩ := removeFromLanes_load id (JsMap.keys s.virtualLanes) hacc
    have hrest := restView_removeFromLanes id (JsMap.keys s.virtualLanes) s
    cases hfound : removeFromLanes id (JsMap.keys s.virtualLanes) s with
    | mk found t =>
      rw [hfound] at hqueue hlanes hrest
      have hactive : t.active = s.active := congrArg RestView.active hrest
      have hcost : t.activeCost = s.activeCost := congrArg RestView.activeCost hrest
      have hcontrol := controlView_of_rest hrest
      have hgrows : Grows s t := Grows.of_eq hactive hcost (limit_of_view hcontrol)
      cases found with
      | none =>
        refine Turn.quiet ⟨hqueue, ?_, hgrows, dispatches_of_view hcontrol⟩
        intro key lane' hget
        obtain ⟨lane, hlane, -, hsame⟩ := hlanes key lane' hget
        exact ⟨lane, hlane, hsame rfl⟩
      | some entry =>
        have hfailed := account_failQueued (account_removeFromLanes id _ hacc hfound) code message
        have hfewer : Fewer s (t.failQueued entry code message) := by
          refine ⟨?_, fewer_lanes ?_⟩
          · show (t.queue.entries.map _).Subperm _
            rw [hqueue]
            exact List.Subperm.refl _
          · intro key lane' hget
            obtain ⟨lane, hlane, hsub, -⟩ := hlanes key lane' hget
            exact ⟨lane, hlane, hsub⟩
        refine turn_dispatch hparked hfailed (dispatches_of_view hcontrol) hfewer ?_
          hgrows.available (fun hnil => Or.inl (hactive ▸ hnil)) rfl (controlView_dispatch env _)
        apply lanes_nil
        intro key lane' hget
        obtain ⟨lane, hlane, -⟩ := hlanes key lane' hget
        exact ⟨lane, hlane⟩
  · rw [hrem]
    have hfailed : Account n [] (failQueued entry code message { s with queue := q }) :=
      account_failQueued (hacc.takeQueue hwf hperm) code message
    have hfewer : Fewer s (failQueued entry code message { s with queue := q }) :=
      ⟨subperm_map QueueEntry.cost (subperm_of_perm_cons hperm), fun _ => List.Subperm.refl _⟩
    exact turn_dispatch hparked hfailed rfl hfewer (fun hnil => hnil) (le_refl _)
      (fun hnil => Or.inl hnil) rfl (controlView_dispatch env _)

end RedRouter.Admission.Controller
