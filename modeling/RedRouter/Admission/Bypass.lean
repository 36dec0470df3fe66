import RedRouter.Admission.QueueAging

/-!
# How often a waiting head is passed over

A head that does not fit is passed over at most `maxUnfittableSkips` times
before the queue reserves capacity for it.  Between two pass-overs the cursor
moves towards its bucket, and `potential` adds up how many entries can leave
before the head is the reserved one.

Two steps move the cursor away from the bucket without a pass-over: a new
tenant whose bucket is opened while the cursor stands behind the bucket, and
the departure of another reserved head.  `Steady` leaves these out, and a run
with neither of them keeps the bound.  Two small tenants that take turns are
enough to break it.
-/

namespace RedRouter.Admission

open List JsMap

variable {T : Type}

/-- The operation leaves a waiting entry alone: the budget is too small for
it, and it is not the one that is removed. -/
def QueueOp.Blocks (b : QueueEntry T) : QueueOp T → Prop
  | .enqueue _ => True
  | .dequeue maxCost => maxCost < b.cost
  | .removeById id => id ≠ b.id
  | .drain => False

namespace FairCostQueue

def headOf (q : FairCostQueue T) (tenant : JsString) : Option (QueueEntry T) :=
  (q.buckets.get tenant).bind List.head?

def isReserved (q : FairCostQueue T) (tenant : JsString) : Bool :=
  (q.reserved.bind fun best => q.order[best.1]?) = some tenant

/-- The entries that leave through some operations before the head of a
tenant is the reserved head. -/
def bypasses (tenant : JsString) : FairCostQueue T → List (QueueOp T) → List (QueueEntry T)
  | _, [] => []
  | q, op :: ops =>
      if q.isReserved tenant then []
      else
        let r := QueueLog.step { queue := q } op
        r.left ++ bypasses tenant r.queue ops

/-- The operation does not move the cursor away from the bucket of a tenant
whose head is not aged. -/
def KeepsPace (tenant : JsString) (q : FairCostQueue T) : QueueOp T → Prop
  | .enqueue entry => entry.tenantKey ∈ q.order ∨ q.cursor ≤ q.order.idxOf tenant
  | .dequeue maxCost => q.reserved.all (fun best => maxCost < best.2.cost) = true
  | _ => True

/-- Every operation of a run keeps pace while the head of the tenant is not
aged. -/
def Steady (tenant : JsString) : FairCostQueue T → List (QueueOp T) → Prop
  | _, [] => True
  | q, op :: ops =>
      ((q.headOf tenant).any QueueEntry.isAged = false → KeepsPace tenant q op) ∧
        Steady tenant (QueueLog.step { queue := q } op).queue ops

/-! ## The aged heads of the other tenants -/

def agedOther (tenant : JsString) (bucket : JsString × List (QueueEntry T)) : Bool :=
  bucket.1 ≠ tenant && bucket.2.head?.any QueueEntry.isAged

def agedOthers (tenant : JsString) (buckets : JsMap JsString (List (QueueEntry T))) : Nat :=
  buckets.countP (agedOther tenant)

variable {tenant : JsString}

theorem agedOthers_get {key : JsString} {m : JsMap JsString (List (QueueEntry T))}
    (hnodup : (JsMap.keys m).Nodup) {bucket : List (QueueEntry T)} (hget : m.get key = some bucket) :
    agedOthers tenant m =
      agedOthers tenant (m.delete key) + if agedOther tenant (key, bucket) then 1 else 0 := by
  unfold agedOthers
  rw [(perm_of_get hnodup hget).countP_eq, countP_cons]

theorem agedOthers_set {key : JsString} {m : JsMap JsString (List (QueueEntry T))}
    (hnodup : (JsMap.keys m).Nodup) (bucket : List (QueueEntry T)) :
    agedOthers tenant (m.set key bucket) =
      agedOthers tenant (m.delete key) + if agedOther tenant (key, bucket) then 1 else 0 := by
  unfold agedOthers
  rw [(set_perm key bucket hnodup).countP_eq, countP_cons]

variable {q : FairCostQueue T}

/-- The bucket of the tenant itself does not count. -/
theorem agedOthers_lt (hwf : Wf q) {bucket : List (QueueEntry T)}
    (hget : q.buckets.get tenant = some bucket) : agedOthers tenant q.buckets < q.order.length := by
  have hnodup : (JsMap.keys q.buckets).Nodup := hwf.keys ▸ hwf.nodup
  have hlen : q.buckets.length = q.order.length := by
    rw [← hwf.keys]
    exact (length_map _).symm
  have hperm := (perm_of_get hnodup hget).length_eq
  rw [length_cons] at hperm
  have hle : agedOthers tenant (q.buckets.delete tenant) ≤ (q.buckets.delete tenant).length :=
    countP_le_length
  rw [agedOthers_get hnodup hget]
  simp only [agedOther, ne_eq, not_true_eq_false, decide_false, Bool.false_and,
    Bool.false_eq_true, if_false]
  omega

/-! ## The potential of a waiting head -/

/-- The head of the bucket at a place of the order. -/
structure Waits (tenant : JsString) (place : Nat) (head : QueueEntry T) (q : FairCostQueue T) :
    Prop where
  wf : Wf q
  tails : TailsFresh q
  place : q.order[place]? = some tenant
  head : ∃ rest, q.buckets.get tenant = some (head :: rest)

/-- How many entries can leave before the head is the reserved one. -/
def potential (tenant : JsString) (place : Nat) (head : QueueEntry T) (q : FairCostQueue T) : Nat :=
  if head.isAged then agedOthers tenant q.buckets
  else (maxUnfittableSkips - head.skipCount) * q.maxCount +
    Cyclic.ahead q.cursor place q.order.length

variable {head : QueueEntry T} {place : Nat}

section

variable (h : Waits tenant place head q)
include h

theorem Waits.headOf : q.headOf tenant = some head := by
  obtain ⟨rest, hget⟩ := h.head
  rw [FairCostQueue.headOf, hget]
  rfl

theorem Waits.headAt : q.headAt place = some head := by
  rw [FairCostQueue.headAt, h.place]
  exact h.headOf

theorem Waits.place_lt : place < q.order.length :=
  (List.getElem?_eq_some_iff.mp h.place).1

theorem Waits.cursor_lt : q.cursor < q.order.length := by
  have hplace := h.place_lt
  rcases h.wf.cursor with hlt | ⟨hnil, -⟩
  · exact hlt
  · rw [hnil] at hplace
    exact absurd hplace (Nat.not_lt_zero _)

theorem Waits.idxOf : q.order.idxOf tenant = place := by
  obtain ⟨hlt, rfl⟩ := List.getElem?_eq_some_iff.mp h.place
  exact h.wf.nodup.idxOf_getElem place hlt

/-- Another place of the order belongs to another tenant. -/
theorem Waits.tenant_ne {other : JsString} {idx : Nat} (hidx : q.order[idx]? = some other) (hne : idx ≠ place) : other ≠ tenant := by
  rintro rfl
  have hlt := (List.getElem?_eq_some_iff.mp hidx).1
  exact hne ((getElem?_inj hlt h.wf.nodup).mp (hidx.trans h.place.symm))

/-- The potential of a head that was passed over is below the share of one
pass-over. -/
theorem potential_lt :
    potential tenant place head q < (maxUnfittableSkips - head.skipCount + 1) * q.maxCount := by
  obtain ⟨rest, hget⟩ := h.head
  have hle := order_length_le h.wf
  have haged := agedOthers_lt h.wf hget
  have hahead := Cyclic.ahead_lt h.cursor_lt h.place_lt
  unfold potential
  split
  · calc agedOthers tenant q.buckets < q.maxCount := by omega
      _ ≤ (maxUnfittableSkips - head.skipCount + 1) * q.maxCount :=
        Nat.le_mul_of_pos_left _ (by omega)
  · rw [Nat.add_mul]
    omega

end

section Steps

variable {tenant : JsString} {place : Nat} {head : QueueEntry T} {q : FairCostQueue T}

variable {entry : QueueEntry T}

section

variable (h : Waits tenant place head q)
include h

theorem waits_push (haccept : q.canAccept entry.cost = true)
    (hentry : entry.skipCount = 0) : Waits tenant place head (q.push entry) := by
  refine ⟨wf_push h.wf haccept, tailsFresh_push h.wf h.tails hentry, ?_, ?_⟩
  · unfold push
    split
    · exact h.place
    · exact getElem?_append_left h.place_lt ▸ h.place
  · obtain ⟨rest, hget⟩ := h.head
    unfold push
    by_cases hkey : entry.tenantKey = tenant
    · rw [hkey, hget]
      exact ⟨rest ++ [entry], by simp [get_set]⟩
    · split <;> exact ⟨rest, by simp [get_set, hkey, hget]⟩

theorem agedOthers_push (hentry : entry.skipCount = 0) :
    agedOthers tenant (q.push entry).buckets = agedOthers tenant q.buckets := by
  have hnodup : (JsMap.keys q.buckets).Nodup := h.wf.keys ▸ h.wf.nodup
  unfold push
  cases hget : q.buckets.get entry.tenantKey with
  | some bucket =>
    have hne := (good_of_get h.wf hget).nonempty
    rw [agedOthers_set hnodup, agedOthers_get hnodup hget, agedOther, agedOther,
      head?_append_of_ne_nil _ hne]
  | none =>
    have hfresh : entry.tenantKey ∉ JsMap.keys q.buckets := get_eq_none_iff.mp hget
    have hyoung : entry.isAged = false := by
      rw [QueueEntry.isAged, hentry]
      rfl
    rw [agedOthers_set hnodup, delete_of_not_mem hfresh]
    simp [agedOther, hyoung]

/-- A new entry does not raise the potential, unless it opens a bucket between
the cursor and the place. -/
theorem potential_push (hentry : entry.skipCount = 0)
    (hpace : head.isAged = false → KeepsPace tenant q (.enqueue entry)) :
    potential tenant place head (q.push entry) = potential tenant place head q := by
  obtain ⟨hcount, -, hcursor⟩ := push_limits q entry
  unfold potential
  by_cases haged : head.isAged = true
  · rw [if_pos haged, if_pos haged]
    exact agedOthers_push h hentry
  · rw [if_neg haged, if_neg haged, hcount, hcursor]
    have hkeep := hpace (by simpa using haged)
    rw [KeepsPace, h.idxOf, ← h.wf.keys] at hkeep
    unfold push Cyclic.ahead
    cases hget : q.buckets.get entry.tenantKey with
    | some bucket => rfl
    | none =>
      have hle : q.cursor ≤ place := hkeep.resolve_left (get_eq_none_iff.mp hget)
      rw [if_pos hle, if_pos hle]

theorem takeAt_other {idx : Nat} {e : QueueEntry T}
    {other : JsString} (hidx : q.order[idx]? = some other) (hhead : q.headAt idx = some e)
    (hne : idx ≠ place) :
    ∃ place', Waits tenant place' head (q.takeAt idx).2 ∧
      agedOthers tenant (q.takeAt idx).2.buckets = agedOthers tenant (q.buckets.delete other) ∧
      ∀ i, idx = (q.cursor + i) % q.order.length → i < Cyclic.ahead q.cursor place q.order.length →
        Cyclic.ahead (q.takeAt idx).2.cursor place' (q.takeAt idx).2.order.length <
          Cyclic.ahead q.cursor place q.order.length := by
  obtain ⟨q', htake, hwf', -⟩ := takeAt_spec h.wf hhead
  obtain ⟨tenant', tail, hidx', hget⟩ := headAt_eq_some hhead
  obtain rfl : tenant' = other := Option.some.inj (hidx'.symm.trans hidx)
  have hother := h.tenant_ne hidx hne
  have hlt := (List.getElem?_eq_some_iff.mp hidx).1
  have hplace := h.place_lt
  have hcursor := h.cursor_lt
  have hnodup : (JsMap.keys q.buckets).Nodup := h.wf.keys ▸ h.wf.nodup
  have htail := h.tails.of_get hget
  obtain ⟨rest, hgetTenant⟩ := h.head
  have htails := tailsFresh_takeAt h.wf h.tails idx
  rw [htake] at htails ⊢
  unfold takeAt at htake
  rw [hidx] at htake
  dsimp only at htake
  rw [hget] at htake
  cases tail with
  | nil =>
    -- the bucket is removed, and the cursor stands at its place
    obtain ⟨-, rfl⟩ := Prod.mk.inj htake
    have hlen := length_eraseIdx_of_lt hlt
    refine ⟨Cyclic.placeAfter idx place, ⟨hwf', htails, ?_, rest, ?_⟩, rfl, ?_⟩
    · exact Cyclic.getElem?_eraseIdx_placeAfter h.place hne
    · simp [get_delete, hother, hgetTenant]
    · intro i hi hahead
      rw [hlen, if_neg (by omega), hi]
      exact Cyclic.ahead_removed hcursor hplace hahead
  | cons next tail =>
    obtain ⟨-, rfl⟩ := Prod.mk.inj htake
    refine ⟨place, ⟨hwf', htails, h.place, rest, ?_⟩, ?_, ?_⟩
    · simp [get_set, hother, hgetTenant]
    · have hyoung : next.isAged = false := by
        rw [QueueEntry.isAged, htail next mem_cons_self]
        rfl
      rw [agedOthers_set hnodup]
      simp [agedOther, hyoung]
    · intro i hi hahead
      rw [hi]
      exact Cyclic.ahead_next hcursor hplace hahead

end

/-! ### Dequeue -/

section

variable (h : Waits tenant place head q)
include h

/-- Once the head is aged, only the reserved heads of other tenants leave
before it. -/
theorem dequeue_aged (haged : head.isAged = true)
    (hres : q.isReserved tenant = false) (maxCost : Nat) :
    q.dequeue maxCost = (none, q) ∨
      ∃ e q' place', q.dequeue maxCost = (some e, q') ∧ Waits tenant place' head q' ∧
        potential tenant place' head q' < potential tenant place head q := by
  unfold dequeue
  split
  · exact Or.inl rfl
  · cases hbest : q.reserved with
    | none =>
      have hyoung := young_of_reserved_none hbest (mem_scan_of_headAt h.wf h.headAt) h.headAt
      rw [haged] at hyoung
      exact absurd hyoung.symm Bool.false_ne_true
    | some best =>
      obtain ⟨idx, e⟩ := best
      dsimp only
      split
      · exact Or.inl rfl
      · right
        have hhead := headAt_of_reserved hbest
        obtain ⟨other, tail, hidx, hget⟩ := headAt_eq_some hhead
        have hne : idx ≠ place := by
          rintro rfl
          simp [isReserved, hbest, h.place] at hres
        have hother := h.tenant_ne hidx hne
        have hnodup : (JsMap.keys q.buckets).Nodup := h.wf.keys ▸ h.wf.nodup
        obtain ⟨q', htake, -⟩ := takeAt_spec h.wf hhead
        obtain ⟨place', hwaits, hcount, -⟩ := takeAt_other h hidx hhead hne
        rw [htake] at hwaits hcount
        refine ⟨e.fresh, q', place', htake, hwaits, ?_⟩
        unfold potential
        rw [if_pos haged, if_pos haged, hcount, agedOthers_get hnodup hget]
        simp [agedOther, hother, isAged_of_reserved hbest]

/-- A pass-over at the place counts, and one elsewhere does not. -/
theorem waits_passOver (idx : Nat) :
    Waits tenant place (if idx = place then head.passedOver else head) (q.passOver idx) := by
  have hwf' := (passOver_spec h.wf idx).1
  have htails := tailsFresh_passOver h.wf h.tails idx
  refine ⟨hwf', htails, (passOver_order q idx).1 ▸ h.place, ?_⟩
  obtain ⟨rest, hget⟩ := h.head
  unfold passOver
  by_cases heq : idx = place
  · subst heq
    rw [if_pos rfl, h.place]
    dsimp only
    rw [hget]
    exact ⟨rest, by simp [get_set]⟩
  · rw [if_neg heq]
    cases hidx : q.order[idx]? with
    | none => exact ⟨rest, hget⟩
    | some other =>
      have hother := h.tenant_ne hidx heq
      dsimp only
      split
      · exact ⟨rest, hget⟩
      · exact ⟨rest, by simp [get_set, hother, hget]⟩

theorem waits_foldl_passOver (bypassed : List Nat) :
    ∃ head', Waits tenant place head' (bypassed.foldl passOver q) ∧ head'.fresh = head.fresh ∧
      head'.skipCount = head.skipCount + bypassed.count place := by
  induction bypassed generalizing q head with
  | nil => exact ⟨head, h, rfl, rfl⟩
  | cons idx rest ih =>
    obtain ⟨head', hwaits, hsame, hskip⟩ := ih (waits_passOver h idx)
    refine ⟨head', hwaits, ?_, ?_⟩
    · rw [hsame]
      split <;> rfl
    · rw [hskip, count_cons]
      by_cases heq : idx = place
      · simp only [heq, if_true, QueueEntry.passedOver, beq_self_eq_true]
        omega
      · simp [heq]

/-- The places that were passed over are the first ones of the round, and the
taken place is the next one. -/
theorem firstFit_scan {maxCost idx : Nat} {bypassed : List Nat}
    (hfound : q.firstFit maxCost q.scan [] = some (idx, bypassed)) :
    idx = (q.cursor + bypassed.length) % q.order.length ∧
      ∀ i, i < bypassed.length → bypassed[i]? = some ((q.cursor + i) % q.order.length) := by
  have hpos : 0 < q.order.length := Nat.lt_of_le_of_lt (Nat.zero_le _) h.place_lt
  have hheads : ∀ j ∈ q.scan, ∃ e, q.headAt j = some e := by
    intro j hj
    obtain ⟨i, -, rfl⟩ := mem_map.mp hj
    obtain ⟨e, he, -⟩ := exists_headAt h.wf (Nat.mod_lt (q.cursor + i) hpos)
    exact ⟨e, he⟩
  obtain ⟨before, after, hscan, hbypassed⟩ := firstFit_split hheads hfound
  subst hbypassed
  have hlen : bypassed.length < q.order.length := by
    have hlen := congrArg List.length hscan
    simp only [scan, length_map, length_range, length_append, length_cons] at hlen
    omega
  have hat : ∀ i, i < q.order.length → q.scan[i]? = some ((q.cursor + i) % q.order.length) := by
    intro i hi
    simp [scan, hi]
  refine ⟨?_, ?_⟩
  · have htaken := hat bypassed.length hlen
    rw [hscan, getElem?_append_right (Nat.le_refl _), Nat.sub_self, getElem?_cons_zero] at htaken
    exact Option.some.inj htaken
  · intro i hi
    have hbefore := hat i (by omega)
    rw [hscan, getElem?_append_left hi] at hbefore
    exact hbefore

/-- A place that was neither passed over nor taken lies further ahead. -/
theorem ahead_of_not_passed {maxCost idx : Nat}
    {bypassed : List Nat} (hfound : q.firstFit maxCost q.scan [] = some (idx, bypassed))
    (hpassed : place ∉ bypassed) (hne : idx ≠ place) :
    bypassed.length < Cyclic.ahead q.cursor place q.order.length := by
  obtain ⟨htaken, hbefore⟩ := firstFit_scan h hfound
  have hmod := Cyclic.add_ahead_mod h.cursor_lt h.place_lt
  by_contra hge
  rcases Nat.lt_or_eq_of_le (Nat.le_of_not_lt hge) with hlt | heq
  · have hat := hbefore _ hlt
    rw [hmod] at hat
    exact hpassed (mem_of_getElem? hat)
  · rw [heq] at hmod
    exact hne (htaken.trans hmod)

end

theorem potential_young (hyoung : head.isAged = false) :
    potential tenant place head q = (maxUnfittableSkips - head.skipCount) * q.maxCount +
      Cyclic.ahead q.cursor place q.order.length := by
  unfold potential
  rw [if_neg (by rw [hyoung]; exact Bool.false_ne_true)]

/-- A head that is not aged comes closer to its turn with every entry that
leaves. -/
theorem dequeue_young (h : Waits tenant place head q) (hyoung : head.isAged = false)
    {maxCost : Nat} (hfit : maxCost < head.cost) (hpace : KeepsPace tenant q (.dequeue maxCost)) :
    q.dequeue maxCost = (none, q) ∨
      ∃ e q' place' head', q.dequeue maxCost = (some e, q') ∧ Waits tenant place' head' q' ∧
        head'.fresh = head.fresh ∧
        potential tenant place' head' q' < potential tenant place head q := by
  unfold dequeue
  split
  · exact Or.inl rfl
  · cases hbest : q.reserved with
    | some best =>
      have hunfit : maxCost < best.2.cost := by
        rw [KeepsPace, hbest] at hpace
        simpa using hpace
      dsimp only
      rw [if_pos hunfit]
      exact Or.inl rfl
    | none =>
      cases hfound : q.firstFit maxCost q.scan [] with
      | none => exact Or.inl rfl
      | some found =>
        right
        obtain ⟨idx, bypassed⟩ := found
        obtain ⟨e, hhead, hcost⟩ := headAt_of_firstFit hfound
        have hne : idx ≠ place := by
          rintro rfl
          rw [h.headAt] at hhead
          rw [← Option.some.inj hhead] at hcost
          omega
        obtain ⟨other, -, hidx, -⟩ := headAt_eq_some hhead
        obtain ⟨head', hwaits, hsame, hskip⟩ := waits_foldl_passOver h bypassed
        obtain ⟨horder, hcursor⟩ := foldl_passOver_order q bypassed
        obtain ⟨-, -, hmaxCount, -, hheads⟩ := foldl_passOver_spec h.wf bypassed
        have hhead' := hheads idx
        rw [hhead, Option.map_some] at hhead'
        obtain ⟨e', he', -⟩ := Option.map_eq_some_iff.mp hhead'
        obtain ⟨q', htake, -, -, hmaxCount', -⟩ := takeAt_spec hwaits.wf he'
        obtain ⟨place', hwaits', -, hahead⟩ := takeAt_other hwaits (horder ▸ hidx) he' hne
        rw [htake] at hwaits' hahead
        rw [horder, hcursor] at hahead
        refine ⟨e'.fresh, q', place', head', htake, hwaits', hsame, ?_⟩
        rw [potential_young hyoung]
        by_cases hpassed : place ∈ bypassed
        · -- one pass-over pays for all that happens until the next one
          have hskips : head.skipCount < maxUnfittableSkips := by
            simpa [QueueEntry.isAged] using hyoung
          have hcount := count_pos_iff.mpr hpassed
          have hlt := potential_lt hwaits'
          rw [hmaxCount', hmaxCount] at hlt
          have hle : (maxUnfittableSkips - head'.skipCount + 1) * q.maxCount ≤
              (maxUnfittableSkips - head.skipCount) * q.maxCount :=
            Nat.mul_le_mul_right _ (by omega)
          exact hlt.trans_le (hle.trans (Nat.le_add_right _ _))
        · -- the cursor has not reached the head, but it came closer
          have hsame' : head'.skipCount = head.skipCount := by
            rw [hskip, count_eq_zero.mpr hpassed]
            rfl
          have hyoung' : head'.isAged = false := by
            rw [QueueEntry.isAged, hsame']
            exact hyoung
          have hcloser := hahead bypassed.length (firstFit_scan h hfound).1
            (ahead_of_not_passed h hfound hpassed hne)
          rw [potential_young hyoung', hmaxCount', hmaxCount, hsame']
          exact Nat.add_lt_add_left hcloser _

/-! ### Removal -/

theorem ahead_cursorAfterRemoval {cursor ti n : Nat} (hcursor : cursor < n) (hplace : place < n)
    (hti : ti < n) (hne : ti ≠ place) :
    Cyclic.ahead (cursorAfterRemoval cursor ti (n - 1)) (Cyclic.placeAfter ti place) (n - 1) ≤
      Cyclic.ahead cursor place n := by
  unfold cursorAfterRemoval Cyclic.placeAfter Cyclic.ahead
  split_ifs <;> omega

theorem removeAt_waits (h : Waits tenant place head q) {ti idx : Nat} {other : JsString}
    {bucket : List (QueueEntry T)} (hti : q.order[ti]? = some other)
    (hget : q.buckets.get other = some bucket) (hidx : bucket[idx]? = some entry)
    (hid : entry.id ≠ head.id) :
    ∃ place', Waits tenant place' head (q.removeAt ti other bucket idx entry) ∧
      potential tenant place' head (q.removeAt ti other bucket idx entry) ≤
        potential tenant place head q := by
  obtain ⟨hwf', -, hmaxCount, -⟩ := removeAt_spec h.wf hti hget hidx
  obtain ⟨rest, hgetTenant⟩ := h.head
  have hnodup : (JsMap.keys q.buckets).Nodup := h.wf.keys ▸ h.wf.nodup
  have htails := tailsFresh_removeAt h.wf h.tails ti hget idx entry
  unfold removeAt at hwf' hmaxCount htails ⊢
  dsimp only at hwf' hmaxCount htails ⊢
  by_cases hown : other = tenant
  · -- the entry waits behind the head
    subst hown
    obtain rfl : head :: rest = bucket := Option.some.inj (hgetTenant.symm.trans hget)
    cases idx with
    | zero =>
      rw [getElem?_cons_zero, Option.some.injEq] at hidx
      exact absurd (hidx ▸ rfl) hid
    | succ idx =>
      rw [if_neg (by simp)] at hwf' hmaxCount htails ⊢
      refine ⟨place, ⟨hwf', htails, h.place, ?_⟩, ?_⟩
      · exact ⟨rest.eraseIdx idx, by simp [get_set]⟩
      · unfold potential
        rw [agedOthers_set hnodup, agedOthers_get hnodup hget]
        simp [agedOther]
  · have hne : ti ≠ place := by
      rintro rfl
      exact hown (Option.some.inj (hti.symm.trans h.place))
    have hlt := (List.getElem?_eq_some_iff.mp hti).1
    have hlen := length_eraseIdx_of_lt hlt
    split
    · rename_i hempty
      rw [if_pos hempty] at hwf' htails
      refine ⟨Cyclic.placeAfter ti place, ⟨hwf', htails, ?_, rest, ?_⟩, ?_⟩
      · exact Cyclic.getElem?_eraseIdx_placeAfter h.place hne
      · simp [get_delete, hown, hgetTenant]
      · have hahead := ahead_cursorAfterRemoval h.cursor_lt h.place_lt hlt hne
        unfold potential
        rw [hlen]
        split
        · rw [agedOthers_get hnodup hget]
          exact Nat.le_add_right _ _
        · exact Nat.add_le_add_left hahead _
    · rename_i hnonempty
      rw [if_neg hnonempty] at hwf' htails
      refine ⟨place, ⟨hwf', htails, h.place, rest, ?_⟩, ?_⟩
      · simp [get_set, hown, hgetTenant]
      · -- the new head of the bucket is the old one, or an entry from behind it
        have haged : agedOther tenant (other, bucket.eraseIdx idx) = true →
            agedOther tenant (other, bucket) = true := by
          have htail' := h.tails.of_get hget
          cases bucket with
          | nil => exact id
          | cons e bucket =>
            cases idx with
            | succ idx => exact id
            | zero =>
              intro haged
              cases bucket with
              | nil => simp [agedOther] at haged
              | cons next bucket =>
                have hskip := htail' next mem_cons_self
                simp [agedOther, QueueEntry.isAged, hskip, maxUnfittableSkips] at haged
        unfold potential
        split
        · rw [agedOthers_set hnodup, agedOthers_get hnodup hget]
          refine Nat.add_le_add_left ?_ _
          split
          · rw [if_pos (haged ‹_›)]
          · exact Nat.zero_le _
        · exact Nat.le_refl _

/-! ### Runs -/

/-- What one operation costs: an entry that leaves lowers the potential. -/
theorem waits_step (h : Waits tenant place head q) {op : QueueOp T} (hfresh : op.Fresh)
    (hblocks : op.Blocks head) (hres : q.isReserved tenant = false)
    (hpace : head.isAged = false → KeepsPace tenant q op) :
    ∃ place' head', Waits tenant place' head' (QueueLog.step { queue := q } op).queue ∧
      head'.fresh = head.fresh ∧
      (QueueLog.step { queue := q } op).left.length +
        potential tenant place' head' (QueueLog.step { queue := q } op).queue ≤
          potential tenant place head q := by
  cases op with
  | enqueue entry =>
    refine ⟨place, head, ?_⟩
    unfold QueueLog.step enqueue
    dsimp only
    by_cases haccept : q.canAccept entry.cost = true
    · rw [if_pos haccept]
      rw [potential_push h hfresh hpace]
      exact ⟨waits_push h haccept hfresh, rfl, by simp⟩
    · rw [if_neg haccept]
      exact ⟨h, rfl, by simp⟩
  | dequeue maxCost =>
    unfold QueueLog.step
    dsimp only
    by_cases haged : head.isAged = true
    · rcases dequeue_aged h haged hres maxCost with hnone | ⟨e, q', place', hdeq, hwaits, hlt⟩
      · rw [hnone]
        exact ⟨place, head, h, rfl, by simp⟩
      · rw [hdeq]
        refine ⟨place', head, hwaits, rfl, ?_⟩
        dsimp only
        rw [nil_append, length_singleton]
        omega
    · have hyoung : head.isAged = false := by simpa using haged
      rcases dequeue_young h hyoung hblocks (hpace hyoung) with
        hnone | ⟨e, q', place', head', hdeq, hwaits, hsame, hlt⟩
      · rw [hnone]
        exact ⟨place, head, h, rfl, by simp⟩
      · rw [hdeq]
        refine ⟨place', head', hwaits, hsame, ?_⟩
        dsimp only
        rw [nil_append, length_singleton]
        omega
  | removeById id =>
    unfold QueueLog.step removeById
    dsimp only
    rcases removeFrom_finds q id q.order 0 rfl with hnone | hfound
    · rw [hnone]
      exact ⟨place, head, h, rfl, by simp⟩
    · obtain ⟨ti, other, bucket, idx, entry, hti, hget, hidx, hid, hrem⟩ := hfound
      have hne : entry.id ≠ head.id := by
        rw [hid]
        exact hblocks
      obtain ⟨place', hwaits, hle⟩ := removeAt_waits h hti hget hidx hne
      rw [hrem]
      exact ⟨place', head, hwaits, rfl, by simpa using hle⟩
  | drain => exact absurd hblocks id

theorem blocks_of_fresh {op : QueueOp T} {b b' : QueueEntry T} (h : op.Blocks b)
    (hsame : b'.fresh = b.fresh) : op.Blocks b' := by
  have hcost : b'.fresh.cost = b.fresh.cost := congrArg QueueEntry.cost hsame
  have hid : b'.fresh.id = b.fresh.id := congrArg QueueEntry.id hsame
  cases op with
  | enqueue entry => exact h
  | dequeue maxCost =>
    show maxCost < b'.fresh.cost
    rw [hcost]
    exact h
  | removeById id =>
    show id ≠ b'.fresh.id
    rw [hid]
    exact h
  | drain => exact h

theorem bypasses_le_potential (h : Waits tenant place head q) {ops : List (QueueOp T)}
    (hfresh : ∀ op ∈ ops, op.Fresh) (hblocks : ∀ op ∈ ops, op.Blocks head)
    (hsteady : Steady tenant q ops) :
    (bypasses tenant q ops).length ≤ potential tenant place head q := by
  induction ops generalizing q place head with
  | nil => exact Nat.zero_le _
  | cons op ops ih =>
    rw [bypasses]
    split
    · exact Nat.zero_le _
    · rename_i hres
      have hpace : head.isAged = false → KeepsPace tenant q op := by
        intro hyoung
        exact hsteady.1 (by rw [h.headOf]; exact hyoung)
      obtain ⟨place', head', hwaits, hsame, hle⟩ := waits_step h (hfresh op mem_cons_self)
        (hblocks op mem_cons_self) (by simpa using hres) hpace
      have hrest := ih hwaits (fun other hmem => hfresh other (mem_cons_of_mem _ hmem))
        (fun other hmem => blocks_of_fresh (hblocks other (mem_cons_of_mem _ hmem)) hsame)
        hsteady.2
      rw [length_append]
      omega

end Steps

/-- In a run from a new queue, a head that fits none of the offered budgets is
passed over by at most `(maxUnfittableSkips + 1) * maxCount` entries before it
is the reserved head, if the operations keep pace. -/
theorem bypasses_le_of_steady (maxCount maxCost : Nat) (pre ops : List (QueueOp T))
    (tenant : JsString) (b : QueueEntry T) (hfresh : ∀ op ∈ pre ++ ops, op.Fresh)
    (hhead : (QueueLog.run maxCount maxCost pre).queue.headOf tenant = some b)
    (hblocks : ∀ op ∈ ops, op.Blocks b)
    (hsteady : Steady tenant (QueueLog.run maxCount maxCost pre).queue ops) :
    (bypasses tenant (QueueLog.run maxCount maxCost pre).queue ops).length ≤
      (maxUnfittableSkips + 1) * maxCount := by
  have hsound : (QueueLog.run maxCount maxCost pre).Sound maxCount maxCost :=
    QueueLog.sound_foldl (QueueLog.sound_empty maxCount maxCost) pre
  have htails : TailsFresh (QueueLog.run maxCount maxCost pre).queue :=
    tailsFresh_foldl (QueueLog.sound_empty maxCount maxCost) (by simp [TailsFresh])
      (fun op hop => hfresh op (mem_append_left _ hop))
  obtain ⟨bucket, hget, hfirst⟩ := Option.bind_eq_some_iff.mp hhead
  obtain ⟨rest, rfl⟩ := head?_eq_some_iff.mp hfirst
  have hmem : tenant ∈ (QueueLog.run maxCount maxCost pre).queue.order := by
    rw [← hsound.wf.keys]
    exact get_isSome_iff.mp (by rw [hget]; rfl)
  obtain ⟨place, hplace⟩ := getElem?_of_mem hmem
  have hwaits : Waits tenant place b (QueueLog.run maxCount maxCost pre).queue :=
    ⟨hsound.wf, htails, hplace, rest, hget⟩
  have hle := bypasses_le_potential hwaits
    (fun op hop => hfresh op (mem_append_right _ hop)) hblocks hsteady
  have hlt := potential_lt hwaits
  have hmax : (QueueLog.run maxCount maxCost pre).queue.maxCount = maxCount := hsound.maxCount_eq
  rw [hmax] at hlt
  have hskips : (maxUnfittableSkips - b.skipCount + 1) * maxCount ≤
      (maxUnfittableSkips + 1) * maxCount := Nat.mul_le_mul_right _ (by omega)
  exact hle.trans (hlt.le.trans hskips)

/-! ### Two runs -/

def smallEntry (id : Nat) (tenant : JsString) : QueueEntry Unit :=
  { id := id, tenantKey := tenant, cost := 1, enqueuedAtMs := id, deadlineMs := 1000, payload := () }

/-- An entry that a budget of one does not fit. -/
def largeEntry : QueueEntry Unit :=
  { id := 0, tenantKey := [0], cost := 2, enqueuedAtMs := 0, deadlineMs := 1000, payload := () }

/-- The large entry waits next to a tenant with two small ones. -/
def sharedQueue : List (QueueOp Unit) :=
  [.enqueue largeEntry, .enqueue (smallEntry 1 [1]), .enqueue (smallEntry 2 [1])]

/-- Both small entries pass the large one, which is reserved then. -/
theorem bypasses_le_sharedQueue :
    (bypasses [0] (QueueLog.run 3 10 sharedQueue).queue [.dequeue 1, .dequeue 1, .dequeue 1]).length
        = 2 ∧
      (bypasses [0] (QueueLog.run 3 10 sharedQueue).queue
        [.dequeue 1, .dequeue 1, .dequeue 1]).length ≤ (maxUnfittableSkips + 1) * 3 := by
  refine ⟨by decide +kernel, ?_⟩
  refine bypasses_le_of_steady 3 10 sharedQueue _ [0] largeEntry ?_ rfl ?_ ?_
  · simp [sharedQueue, QueueOp.Fresh, largeEntry, smallEntry]
  · simp [QueueOp.Blocks, largeEntry]
  · refine ⟨fun _ => ?_, fun _ => ?_, fun haged => ?_, trivial⟩
    · unfold KeepsPace
      decide +kernel
    · unfold KeepsPace
      decide +kernel
    · exact absurd haged (by decide +kernel)

/-- Two tenants take turns: each stores a small entry again before the entry
of the other one leaves. -/
def takingTurns : List (QueueOp Unit) :=
  [.enqueue (smallEntry 2 [2]), .dequeue 1, .enqueue (smallEntry 3 [1]), .dequeue 1,
   .enqueue (smallEntry 4 [2]), .dequeue 1, .enqueue (smallEntry 5 [1]), .dequeue 1,
   .enqueue (smallEntry 6 [2]), .dequeue 1, .enqueue (smallEntry 7 [1]), .dequeue 1,
   .enqueue (smallEntry 8 [2]), .dequeue 1, .enqueue (smallEntry 9 [1]), .dequeue 1,
   .enqueue (smallEntry 10 [2]), .dequeue 1, .enqueue (smallEntry 11 [1]), .dequeue 1,
   .enqueue (smallEntry 12 [2]), .dequeue 1]

/-- The ids of the entries that some operations store. -/
def enqueuedIds (ops : List (QueueOp T)) : List Nat :=
  ops.filterMap fun op =>
    match op with
    | .enqueue entry => some entry.id
    | _ => none

/-- The bound fails when tenants come and go: the entries that the operations
themselves store are already too many. -/
theorem not_bounded_takingTurns :
    ¬ ∀ (maxCount maxCost : Nat) (pre ops : List (QueueOp Unit)) (tenant : JsString)
        (b : QueueEntry Unit), (∀ op ∈ pre ++ ops, op.Fresh) →
        (QueueLog.run maxCount maxCost pre).queue.headOf tenant = some b →
        (∀ op ∈ ops, op.Blocks b) →
        ((bypasses tenant (QueueLog.run maxCount maxCost pre).queue ops).filter
          (fun e => e.id ∈ enqueuedIds ops)).length ≤ (maxUnfittableSkips + 1) * maxCount := by
  intro h
  have hbound := h 3 10 [.enqueue largeEntry, .enqueue (smallEntry 1 [1])] takingTurns [0]
    largeEntry
    (by simp [takingTurns, QueueOp.Fresh, largeEntry, smallEntry]) rfl
    (by simp [takingTurns, QueueOp.Blocks, largeEntry])
  revert hbound
  decide +kernel

end FairCostQueue

end RedRouter.Admission
