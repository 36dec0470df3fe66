import RedRouter.Combo.QuotaShareInflight
import RedRouter.Lib.Runs

/-!
# What the in-flight counter counts

A request is in flight until it is released or its lease ends (`inFlight`).
The counter never exceeds the number of these requests: a release always
retires the newest lease, and among leases of one length the newest is the
one that ends last.

It is exact as long as the releases come in an order that the leases cannot
tell from the right one (`InOrder`): a request whose own lease is over at the
time of the count was not released while a request that still counts then was
in flight.  A release in another order takes the lease of the younger request
and leaves the older one, which ends too early.
-/

namespace RedRouter.Combo

open List

def leasesOf (m : InflightMap) (connectionId : JsString) : List Int :=
  ((m.get connectionId).map InflightSlot.leases).getD []

def running (t : Int) (leases : List Int) : Nat := leases.countP (fun e => t < e)

/-! ## Lists of leases -/

theorem running_filter {t nowMs : Int} (h : nowMs ≤ t) (leases : List Int) :
    running t (leases.filter (fun e => nowMs < e)) = running t leases := by
  unfold running
  rw [countP_filter]
  apply countP_congr
  intro e _
  simp only [Bool.and_eq_true, decide_eq_true_eq]
  omega

theorem running_append (t : Int) (leases : List Int) (e : Int) :
    running t (leases ++ [e]) = running t leases + if t < e then 1 else 0 := by
  unfold running
  simp

theorem running_tail_le (t : Int) (leases : List Int) : running t leases.tail ≤ running t leases :=
  (tail_sublist leases).countP_le

/-- The last lease of an ascending list is the one that runs longest. -/
theorem running_dropLast {leases : List Int} (hord : leases.Pairwise (· ≤ ·)) (t : Int) :
    running t leases.dropLast = running t leases - 1 := by
  induction leases using List.reverseRecOn with
  | nil => rfl
  | append_singleton leases last _ =>
    rw [dropLast_concat, running_append]
    split
    · omega
    · -- No lease before the last one runs longer, so there is nothing to count.
      have hzero : running t leases = 0 := by
        unfold running
        rw [countP_eq_zero]
        intro e he
        have hle : e ≤ last := (pairwise_append.mp hord).2.2 e he last mem_cons_self
        simp only [decide_eq_true_eq]
        omega
      omega

theorem lastIndexWhereFrom_eq_none {predicate : Int → Bool} {values : List Int}
    (h : ∀ v ∈ values, predicate v = false) (i : Nat) :
    lastIndexWhereFrom predicate values i = none := by
  induction i with
  | zero => rfl
  | succ i ih =>
    rw [lastIndexWhereFrom, ih]
    cases hget : values[i]? with
    | none => simp
    | some v => simp [h v (mem_of_getElem? hget)]

theorem retireOne_of_running {leases : List Int} {nowMs : Int} (h : ∀ e ∈ leases, nowMs < e) :
    retireOne leases nowMs = leases.dropLast := by
  unfold retireOne lastIndexWhere
  rw [lastIndexWhereFrom_eq_none]
  intro e he
  have hlt := h e he
  simp only [decide_eq_false_iff_not]
  omega

/-! ## The leases after a call -/

section Calls

variable {m : InflightMap} {nowMs leaseMs : Int} {connectionId conn : JsString}

theorem keys_pruneExpired (nowMs : Int) (m : InflightMap) :
    ((pruneExpired nowMs m).keys).Sublist m.keys := by
  induction m with
  | nil => exact List.Sublist.refl _
  | cons e m ih =>
    obtain ⟨key, slot⟩ := e
    rw [pruneExpired]
    split
    · exact ih.cons key
    · exact ih.cons_cons key

theorem leasesOf_pruneExpired (hkeys : m.keys.Nodup) (nowMs : Int) (conn : JsString) :
    leasesOf (pruneExpired nowMs m) conn = (leasesOf m conn).filter (fun e => nowMs < e) := by
  induction m with
  | nil => rfl
  | cons e m ih =>
    obtain ⟨key, slot⟩ := e
    rw [JsMap.keys_cons, nodup_cons] at hkeys
    have hrest := ih hkeys.2
    unfold leasesOf at hrest ⊢
    rw [pruneExpired, JsMap.get]
    by_cases hkey : key = conn
    · subst hkey
      have hgone : JsMap.get key (pruneExpired nowMs m) = none :=
        JsMap.get_eq_none_iff.mpr fun hmem => hkeys.1 ((keys_pruneExpired nowMs m).subset hmem)
      have hslot := retireExpired_leases slot nowMs
      split
      · rename_i hlen
        rw [hslot, length_eq_zero_iff] at hlen
        simp [hgone, hlen]
      · simp [JsMap.get, hslot]
    · split
      · exact hrest
      · rw [JsMap.get, if_neg hkey]
        exact hrest

theorem leasesOf_set (slot : InflightSlot) (m : InflightMap) (conn : JsString) :
    leasesOf (m.set connectionId slot) conn =
      if connectionId = conn then slot.leases else leasesOf m conn := by
  unfold leasesOf
  rw [JsMap.get_set]
  split <;> rfl

theorem leasesOf_delete (m : InflightMap) (conn : JsString) :
    leasesOf (m.delete connectionId) conn = if connectionId = conn then [] else leasesOf m conn := by
  unfold leasesOf
  rw [JsMap.get_delete]
  split <;> rfl

/-- The leases of the connection after `incrementInflight`. -/
def appended (leases : List Int) (expiresAtMs nowMs : Int) : List Int :=
  let leases := leases.filter (fun e => nowMs < e) ++ [expiresAtMs]
  if maxLeasesPerConnection < leases.length then leases.tail else leases

theorem leasesOf_incrementInflight (hkeys : m.keys.Nodup) (hid : connectionId ≠ [])
    (leaseMs nowMs : Int) (conn : JsString) :
    leasesOf (incrementInflight connectionId leaseMs nowMs m).1 conn =
      if connectionId = conn then appended (leasesOf m conn) (nowMs + leaseMs) nowMs
      else (leasesOf m conn).filter (fun e => nowMs < e) := by
  unfold incrementInflight
  rw [if_neg hid, leasesOf_set]
  split
  · rename_i hconn
    subst hconn
    have hpruned : (((pruneExpired nowMs m).get connectionId).getD ⟨[]⟩).leases =
        (leasesOf m connectionId).filter (fun e => nowMs < e) := by
      rw [← leasesOf_pruneExpired hkeys, leasesOf]
      cases (pruneExpired nowMs m).get connectionId with
      | none => rfl
      | some slot => rfl
    simp [hpruned, appended]
  · exact leasesOf_pruneExpired hkeys nowMs conn

theorem leasesOf_decrementInflight (hid : connectionId ≠ []) (nowMs : Int) (m : InflightMap)
    (conn : JsString) :
    leasesOf (decrementInflight connectionId nowMs m) conn =
      if connectionId = conn then
        (retireOne (leasesOf m conn) nowMs).filter (fun e => nowMs < e)
      else leasesOf m conn := by
  unfold decrementInflight
  rw [if_neg hid]
  cases hget : m.get connectionId with
  | none =>
    show leasesOf m conn = _
    split
    · rename_i hconn
      subst hconn
      have hnone : leasesOf m connectionId = [] := by simp [leasesOf, hget]
      rw [hnone]
      rfl
    · rfl
  | some slot =>
    have hslot : leasesOf m connectionId = slot.leases := by simp [leasesOf, hget]
    have hretired := retireExpired_leases ⟨retireOne slot.leases nowMs⟩ nowMs
    dsimp only
    by_cases hconn : connectionId = conn
    · subst hconn
      rw [if_pos rfl, hslot]
      split
      · rename_i hlen
        rw [hretired, length_eq_zero_iff] at hlen
        rw [leasesOf_delete, if_pos rfl, hlen]
      · rw [leasesOf_set, if_pos rfl, hretired]
    · split
      · rw [leasesOf_delete, if_neg hconn]
      · rw [leasesOf_set, if_neg hconn]

theorem leasesOf_getInflight (nowMs : Int) (m : InflightMap) (conn : JsString) :
    leasesOf (getInflight connectionId nowMs m).2 conn = leasesOf m conn ∨
      leasesOf (getInflight connectionId nowMs m).2 conn =
        (leasesOf m conn).filter (fun e => nowMs < e) := by
  unfold getInflight
  split
  · exact .inl rfl
  · cases hget : m.get connectionId with
    | none => exact .inl rfl
    | some slot =>
      rw [leasesOf_set]
      split
      · rename_i hconn
        subst hconn
        rw [retireExpired_leases]
        exact .inr (by simp [leasesOf, hget])
      · exact .inl rfl

theorem getInflight_eq_running (hid : connectionId ≠ []) (nowMs : Int) (m : InflightMap) :
    (getInflight connectionId nowMs m).1 = running nowMs (leasesOf m connectionId) := by
  unfold getInflight running leasesOf
  rw [if_neg hid]
  cases m.get connectionId with
  | none => rfl
  | some slot =>
    show (retireExpired slot nowMs).leases.length = slot.leases.countP (fun e => nowMs < e)
    rw [retireExpired_leases, countP_eq_length_filter]

theorem nodup_keys_incrementInflight (hkeys : m.keys.Nodup) :
    (incrementInflight connectionId leaseMs nowMs m).1.keys.Nodup := by
  unfold incrementInflight
  split
  · exact hkeys
  · exact JsMap.nodup_keys_set (hkeys.sublist (keys_pruneExpired nowMs m))

theorem nodup_keys_decrementInflight (hkeys : m.keys.Nodup) :
    (decrementInflight connectionId nowMs m).keys.Nodup := by
  unfold decrementInflight
  split
  · exact hkeys
  · split
    · exact hkeys
    · dsimp only
      split
      · exact JsMap.nodup_keys_delete hkeys
      · exact JsMap.nodup_keys_set hkeys

theorem nodup_keys_getInflight (hkeys : m.keys.Nodup) :
    (getInflight connectionId nowMs m).2.keys.Nodup := by
  unfold getInflight
  split
  · exact hkeys
  · split
    · exact hkeys
    · exact JsMap.nodup_keys_set hkeys

end Calls

/-! ## Requests in flight -/

namespace Selections

/-- The request counts on the connection at a time: it has not been released
and its lease runs. -/
def counts (conn : JsString) (t : Int) (s : Selection) : Bool :=
  s.winnerConnectionId = conn ∧ s.released = false ∧ t < s.leaseEnd

/-- The number of requests of a connection that count at a time. -/
def inFlight (w : Selections) (conn : JsString) (t : Int) : Nat := w.requests.countP (counts conn t)

/-- A selection finds fewer requests in flight on its connection than leases
are kept for one. -/
def HasRoom (w : Selections) : SelectionEvent → Prop
  | .select conn => w.inFlight conn w.now < maxLeasesPerConnection
  | _ => True

/-- A request whose lease is over at `t` is not released while a request whose
lease runs at `t` is in flight on the connection. -/
def InOrder (conn : JsString) (t : Int) (w : Selections) : SelectionEvent → Prop
  | .release i => ∀ s ∈ w.requests[i]?, s.released = false → s.winnerConnectionId = conn →
      s.leaseEnd ≤ t → w.inFlight conn t = 0
  | _ => True

instance (w : Selections) : (event : SelectionEvent) → Decidable (w.HasRoom event)
  | .select conn => inferInstanceAs (Decidable (w.inFlight conn w.now < maxLeasesPerConnection))
  | .release _ => isTrue trivial
  | .getInflight _ => isTrue trivial
  | .advance _ => isTrue trivial

instance (conn : JsString) (t : Int) (w : Selections) :
    (event : SelectionEvent) → Decidable (InOrder conn t w event)
  | .select _ => isTrue trivial
  | .release i => inferInstanceAs (Decidable (∀ s ∈ w.requests[i]?, s.released = false →
      s.winnerConnectionId = conn → s.leaseEnd ≤ t → w.inFlight conn t = 0))
  | .getInflight _ => isTrue trivial
  | .advance _ => isTrue trivial

/-- What holds of the leases and the requests in every state. -/
structure Tracked (w : Selections) : Prop where
  keys : w.inflight.keys.Nodup
  ordered : ∀ conn, (leasesOf w.inflight conn).Pairwise (· ≤ ·)
  recent : ∀ conn, ∀ e ∈ leasesOf w.inflight conn, e ≤ w.now + defaultLeaseMs
  past : ∀ s ∈ w.requests, s.nowMs ≤ w.now
  /-- The clock that a release passes is one at which every lease still ran. -/
  unexpired : ∀ s ∈ w.requests, s.released = false → s.winnerConnectionId ≠ [] →
    ∀ e ∈ leasesOf w.inflight s.winnerConnectionId, s.nowMs < e

variable {w : Selections} {now : Int}

theorem tracked_start (now : Int) : Tracked { now := now } where
  keys := nodup_nil
  ordered := fun _ => List.Pairwise.nil
  recent := fun _ _ he => absurd he not_mem_nil
  past := fun _ hs => absurd hs not_mem_nil
  unexpired := fun _ hs => absurd hs not_mem_nil

theorem Tracked.sublist (h : Tracked w) {m : InflightMap} (hkeys : m.keys.Nodup)
    (hsub : ∀ conn, (leasesOf m conn).Sublist (leasesOf w.inflight conn)) :
    Tracked { w with inflight := m } where
  keys := hkeys
  ordered := fun conn => (h.ordered conn).sublist (hsub conn)
  recent := fun conn e he => h.recent conn e ((hsub conn).subset he)
  past := h.past
  unexpired := fun s hs hrel hid e he => h.unexpired s hs hrel hid e ((hsub _).subset he)

variable {expiresAtMs : Int} {leases : List Int}

theorem mem_appended {nowMs e : Int} (he : e ∈ appended leases expiresAtMs nowMs) :
    (e ∈ leases ∧ nowMs < e) ∨ e = expiresAtMs := by
  unfold appended at he
  have hmem : e ∈ leases.filter (fun e => nowMs < e) ++ [expiresAtMs] := by
    dsimp only at he
    split at he
    · exact mem_of_mem_tail he
    · exact he
  simpa using hmem

theorem appended_ordered {nowMs : Int} (hord : leases.Pairwise (· ≤ ·))
    (hlast : ∀ e ∈ leases, e ≤ expiresAtMs) :
    (appended leases expiresAtMs nowMs).Pairwise (· ≤ ·) := by
  have hall : (leases.filter (fun e => nowMs < e) ++ [expiresAtMs]).Pairwise (· ≤ ·) := by
    rw [pairwise_append]
    refine ⟨hord.sublist filter_sublist, pairwise_singleton _ _, ?_⟩
    intro e he last hmem
    rw [mem_singleton.mp hmem]
    exact hlast e (mem_filter.mp he).1
  unfold appended
  dsimp only
  split
  · exact hall.sublist (tail_sublist _)
  · exact hall

section

variable (h : Tracked w)
include h

theorem Tracked.past_select (conn : JsString) :
    ∀ s ∈ (w.select conn).requests, s.nowMs ≤ w.now := by
  intro s hs
  rcases mem_append.mp hs with hs | hs
  · exact h.past s hs
  · have hnow : s.nowMs = w.now := by rw [mem_singleton.mp hs]
    exact Int.le_of_eq hnow

theorem Tracked.select (conn : JsString) : Tracked (w.select conn) := by
  by_cases hid : conn = []
  · subst hid
    refine ⟨h.keys, h.ordered, h.recent, h.past_select [], ?_⟩
    intro s hs hrel hne
    rcases mem_append.mp hs with hs | hs
    · exact h.unexpired s hs hrel hne
    · rw [mem_singleton.mp hs] at hne
      exact absurd rfl hne
  have hleases := leasesOf_incrementInflight h.keys hid defaultLeaseMs w.now
  have hafter : ∀ c, ∀ e ∈ leasesOf (w.select conn).inflight c,
      (e ∈ leasesOf w.inflight c ∧ w.now < e) ∨ e = w.now + defaultLeaseMs := by
    intro c e he
    rw [Selections.select, hleases c] at he
    split at he
    · exact mem_appended he
    · exact .inl (by simpa using he)
  refine ⟨nodup_keys_incrementInflight h.keys, ?_, ?_, h.past_select conn, ?_⟩
  · intro c
    rw [Selections.select, hleases c]
    split
    · exact appended_ordered (h.ordered c) (h.recent c)
    · exact (h.ordered c).sublist filter_sublist
  · intro c e he
    rcases hafter c e he with ⟨hmem, -⟩ | rfl
    · exact h.recent c e hmem
    · exact Int.le_refl _
  · intro s hs _ _ e he
    have hstart := h.past_select conn s hs
    rcases hafter _ e he with ⟨-, hlt⟩ | rfl
    · omega
    · unfold defaultLeaseMs
      omega

theorem Tracked.leasesOf_release {s : Selection} (hs : s ∈ w.requests)
    (hrel : s.released = false) (hid : s.winnerConnectionId ≠ []) (conn : JsString) :
    leasesOf (decrementInflight s.winnerConnectionId s.nowMs w.inflight) conn =
      if s.winnerConnectionId = conn then (leasesOf w.inflight conn).dropLast
      else leasesOf w.inflight conn := by
  rw [leasesOf_decrementInflight hid]
  split
  · rename_i hconn
    subst hconn
    have hlater := h.unexpired s hs hrel hid
    rw [retireOne_of_running hlater, filter_eq_self]
    intro e he
    exact decide_eq_true (hlater e (mem_of_mem_dropLast he))
  · rfl

theorem Tracked.release (i : Nat) : Tracked (w.release i) := by
  unfold Selections.release
  split
  · exact h
  · rename_i s hget
    split
    · exact h
    · rename_i hrel
      have hs : s ∈ w.requests := mem_of_getElem? hget
      have hsub : ∀ conn, (leasesOf (decrementInflight s.winnerConnectionId s.nowMs w.inflight)
          conn).Sublist (leasesOf w.inflight conn) := by
        intro conn
        by_cases hid : s.winnerConnectionId = []
        · rw [decrementInflight, if_pos hid]
        · rw [h.leasesOf_release hs (by simpa using hrel) hid]
          split
          · exact dropLast_sublist _
          · exact List.Sublist.refl _
      have hkept := h.sublist (nodup_keys_decrementInflight h.keys) hsub
      -- A request keeps its clock and its connection.
      have hold : ∀ r ∈ w.requests.set i { s with released := true },
          r ∈ w.requests ∨ r = { s with released := true } := fun r hr => mem_or_eq_of_mem_set hr
      refine ⟨hkept.keys, hkept.ordered, hkept.recent, ?_, ?_⟩
      · intro r hr
        rcases hold r hr with hr | rfl
        · exact h.past r hr
        · exact h.past s hs
      · intro r hr hunreleased
        rcases hold r hr with hr | rfl
        · exact hkept.unexpired r hr hunreleased
        · exact absurd hunreleased (by simp)

theorem Tracked.step (event : SelectionEvent) : Tracked (w.step event) := by
  cases event with
  | select conn => exact h.select conn
  | release i => exact h.release i
  | getInflight connectionId =>
    refine h.sublist (nodup_keys_getInflight h.keys) ?_
    intro conn
    rcases leasesOf_getInflight w.now w.inflight conn with heq | heq
    · rw [heq]
    · rw [heq]
      exact filter_sublist
  | advance ms =>
    refine ⟨h.keys, h.ordered, ?_, ?_, h.unexpired⟩
    · intro conn e he
      have hrecent := h.recent conn e he
      show e ≤ w.now + ms + defaultLeaseMs
      omega
    · intro s hs
      have hpast := h.past s hs
      show s.nowMs ≤ w.now + ms
      omega

end

theorem run_append (now : Int) (events : List SelectionEvent) (event : SelectionEvent) :
    run now (events ++ [event]) = (run now events).step event := by
  simp [run]

theorem tracked_run (now : Int) (events : List SelectionEvent) : Tracked (run now events) :=
  Runs.foldl_invariant Tracked (fun _ event h => h.step event) (tracked_start now) events

/-! ## The counts -/

theorem inFlight_select (w : Selections) (id conn : JsString) (t : Int) :
    (w.select id).inFlight conn t =
      w.inFlight conn t + if id = conn ∧ t < w.now + defaultLeaseMs then 1 else 0 := by
  unfold inFlight
  rw [Selections.select, countP_append, countP_singleton]
  simp [counts, Selection.leaseEnd]

theorem inFlight_release {i : Nat} {s : Selection} (hget : w.requests[i]? = some s)
    (hrel : s.released = false) (conn : JsString) (t : Int) :
    w.inFlight conn t = (w.release i).inFlight conn t +
      if s.winnerConnectionId = conn ∧ t < s.leaseEnd then 1 else 0 := by
  obtain ⟨hi, hs⟩ := List.getElem?_eq_some_iff.mp hget
  have hmem : counts conn t s = true → 0 < w.requests.countP (counts conn t) := fun hc =>
    countP_pos_iff.mpr ⟨s, mem_of_getElem? hget, hc⟩
  unfold inFlight Selections.release
  rw [hget]
  simp only [hrel, Bool.false_eq_true, if_false, countP_set hi, hs]
  have hgone : counts conn t { s with released := true } = false := by simp [counts]
  have hc : counts conn t s = true ↔ s.winnerConnectionId = conn ∧ t < s.leaseEnd := by
    simp [counts, hrel]
  rw [hgone]
  by_cases hcount : counts conn t s = true
  · have hpos := hmem hcount
    simp only [hcount, if_true, Bool.false_eq_true, if_false, if_pos (hc.mp hcount)]
    omega
  · simp only [hcount, Bool.false_eq_true, if_false, if_neg (fun h => hcount (hc.mpr h))]
    omega

variable {t : Int}

theorem running_appended_le {nowMs : Int} (ht : nowMs ≤ t) :
    running t (appended leases expiresAtMs nowMs) ≤
      running t leases + if t < expiresAtMs then 1 else 0 := by
  unfold appended
  dsimp only
  split
  · refine le_trans (running_tail_le t _) ?_
    rw [running_append, running_filter ht]
  · rw [running_append, running_filter ht]

theorem running_appended {nowMs : Int} (ht : nowMs ≤ t)
    (hroom : running nowMs leases < maxLeasesPerConnection) :
    running t (appended leases expiresAtMs nowMs) =
      running t leases + if t < expiresAtMs then 1 else 0 := by
  have hlen : (leases.filter (fun e => nowMs < e)).length = running nowMs leases :=
    (countP_eq_length_filter ..).symm
  unfold appended
  rw [if_neg, running_append, running_filter ht]
  rw [length_append, length_singleton, hlen]
  omega

/-- What an event does to the two counts of a connection at a time. -/
inductive Change (w : Selections) (conn : JsString) (t : Int) (event : SelectionEvent) : Prop where
  | none (hrunning : running t (leasesOf (w.step event).inflight conn) =
        running t (leasesOf w.inflight conn))
      (hcount : (w.step event).inFlight conn t = w.inFlight conn t)
  | selected (hevent : event = .select conn)
      (hcount : (w.step event).inFlight conn t =
        w.inFlight conn t + if t < w.now + defaultLeaseMs then 1 else 0)
      (hrunning : running t (leasesOf (w.step event).inflight conn) ≤
        running t (leasesOf w.inflight conn) + if t < w.now + defaultLeaseMs then 1 else 0)
      (hroom : running w.now (leasesOf w.inflight conn) < maxLeasesPerConnection →
        running t (leasesOf (w.step event).inflight conn) =
          running t (leasesOf w.inflight conn) + if t < w.now + defaultLeaseMs then 1 else 0)
  | released (i : Nat) (s : Selection) (hevent : event = .release i)
      (hget : w.requests[i]? = some s) (hrel : s.released = false)
      (hconn : s.winnerConnectionId = conn)
      (hcount : w.inFlight conn t =
        (w.step event).inFlight conn t + if t < s.leaseEnd then 1 else 0)
      (hrunning : running t (leasesOf (w.step event).inflight conn) =
        running t (leasesOf w.inflight conn) - 1)

variable {conn : JsString}

theorem change_select (h : Tracked w) (hconn : conn ≠ []) (ht : w.now ≤ t) (id : JsString) :
    Change w conn t (.select id) := by
  have hcount := inFlight_select w id conn t
  by_cases hid : id = []
  · subst hid
    refine .none rfl ?_
    rw [step, hcount, if_neg (fun hc => hconn hc.1.symm), Nat.add_zero]
  have hleases := leasesOf_incrementInflight h.keys hid defaultLeaseMs w.now conn
  by_cases heq : id = conn
  · subst heq
    rw [if_pos rfl] at hleases
    simp only [true_and] at hcount
    refine .selected rfl hcount ?_ ?_
    · rw [step, Selections.select, hleases]
      exact running_appended_le ht
    · intro hroom
      rw [step, Selections.select, hleases]
      exact running_appended ht hroom
  · rw [if_neg heq] at hleases
    refine .none ?_ ?_
    · rw [step, Selections.select, hleases, running_filter ht]
    · rw [step, hcount, if_neg (fun hc => heq hc.1), Nat.add_zero]

theorem change_release (h : Tracked w) (hconn : conn ≠ []) (t : Int) (i : Nat) :
    Change w conn t (.release i) := by
  cases hget : w.requests[i]? with
  | none =>
    have hstep : w.step (.release i) = w := by rw [step, Selections.release, hget]
    exact .none (by rw [hstep]) (by rw [hstep])
  | some s =>
    cases hrel : s.released with
    | true =>
      have hstep : w.step (.release i) = w := by
        rw [step, Selections.release, hget]
        exact if_pos hrel
      exact .none (by rw [hstep]) (by rw [hstep])
    | false =>
      have hcount := inFlight_release hget hrel conn t
      have hstep : (w.release i).inflight =
          decrementInflight s.winnerConnectionId s.nowMs w.inflight := by
        simp [Selections.release, hget, hrel]
      by_cases hid : s.winnerConnectionId = []
      · refine .none ?_ ?_
        · rw [step, hstep, decrementInflight, if_pos hid]
        · rw [step, hcount, if_neg (fun hc => hconn (hc.1.symm.trans hid)), Nat.add_zero]
      have hleases := h.leasesOf_release (mem_of_getElem? hget) hrel hid conn
      by_cases heq : s.winnerConnectionId = conn
      · rw [if_pos heq] at hleases
        simp only [heq, true_and] at hcount
        refine .released i s rfl hget hrel heq hcount ?_
        rw [step, hstep, hleases, running_dropLast (h.ordered conn)]
      · rw [if_neg heq] at hleases
        refine .none ?_ ?_
        · rw [step, hstep, hleases]
        · rw [step, hcount, if_neg (fun hc => heq hc.1), Nat.add_zero]

theorem change_step (h : Tracked w) (hconn : conn ≠ []) (ht : w.now ≤ t) (event : SelectionEvent) :
    Change w conn t event := by
  cases event with
  | select id => exact change_select h hconn ht id
  | release i => exact change_release h hconn t i
  | getInflight connectionId =>
    refine .none ?_ rfl
    rcases leasesOf_getInflight w.now w.inflight conn with heq | heq
    · rw [step, heq]
    · rw [step, heq, running_filter ht]
  | advance ms => exact .none rfl rfl

theorem now_le_step (w : Selections) (event : SelectionEvent) : w.now ≤ (w.step event).now := by
  cases event with
  | select conn => exact Int.le_refl _
  | release i =>
    show w.now ≤ (w.release i).now
    unfold Selections.release
    split
    · exact Int.le_refl _
    · split <;> exact Int.le_refl _
  | getInflight conn => exact Int.le_refl _
  | advance ms =>
    show w.now ≤ w.now + ms
    omega

theorem running_le_inFlight (now : Int) (events : List SelectionEvent) (hconn : conn ≠ [])
    (ht : (run now events).now ≤ t) :
    running t (leasesOf (run now events).inflight conn) ≤ (run now events).inFlight conn t := by
  induction events using List.reverseRecOn with
  | nil => exact Nat.le_refl 0
  | append_singleton events event ih =>
    rw [run_append] at ht ⊢
    have hpast := Int.le_trans (now_le_step (run now events) event) ht
    have hle := ih hpast
    cases change_step (tracked_run now events) hconn hpast event with
    | none hrunning hcount =>
      rw [hrunning, hcount]
      exact hle
    | selected _ hcount hrunning _ =>
      omega
    | released i s _ _ _ _ hcount hrunning =>
      split at hcount
      all_goals omega

theorem inFlight_eq_running {events : List SelectionEvent} (hconn : conn ≠ [])
    (hroom : Runs.Along step HasRoom { now := now } events)
    (horder : Runs.Along step (InOrder conn t) { now := now } events)
    (ht : (run now events).now ≤ t) :
    running t (leasesOf (run now events).inflight conn) = (run now events).inFlight conn t := by
  induction events using List.reverseRecOn with
  | nil => rfl
  | append_singleton events event ih =>
    rw [run_append] at ht ⊢
    have hpast := Int.le_trans (now_le_step (run now events) event) ht
    rw [Runs.along_concat] at hroom horder
    have heq := ih hroom.1 horder.1 hpast
    cases change_step (tracked_run now events) hconn hpast event with
    | none hrunning hcount => rw [hrunning, hcount, heq]
    | selected hevent hcount _ hfits =>
      subst hevent
      have hfew : (run now events).inFlight conn (run now events).now < maxLeasesPerConnection :=
        hroom.2
      have hle := running_le_inFlight now events hconn (Int.le_refl _)
      rw [hcount, hfits (by omega), heq]
    | released i s hevent hget hrel hwinner hcount hrunning =>
      subst hevent
      split at hcount
      · omega
      · -- The lease of the request is over at `t`, so no other request counts there.
        have hzero : (run now events).inFlight conn t = 0 :=
          horder.2 s hget hrel hwinner (by omega)
        omega

/-- Whatever the order in which requests start and settle, `getInflight` is at
most the number of requests in flight.  It is that number when the releases
came in order and no connection had more requests than it keeps leases for. -/
theorem getInflight_le_inFlight (now : Int) (events : List SelectionEvent) (conn : JsString) :
    (getInflight conn (run now events).now (run now events).inflight).1 ≤
        (run now events).inFlight conn (run now events).now ∧
      (conn ≠ [] → Runs.Along step HasRoom { now := now } events →
        Runs.Along step (InOrder conn (run now events).now) { now := now } events →
        (getInflight conn (run now events).now (run now events).inflight).1 =
          (run now events).inFlight conn (run now events).now) := by
  by_cases hconn : conn = []
  · refine ⟨?_, fun hne => absurd hconn hne⟩
    rw [getInflight, if_pos hconn]
    exact Nat.zero_le _
  · rw [getInflight_eq_running hconn]
    refine ⟨running_le_inFlight now events hconn (Int.le_refl _), ?_⟩
    intro _ hroom horder
    exact inFlight_eq_running hconn hroom horder (Int.le_refl _)

/-- Two requests that overlap, the younger one released first. -/
theorem getInflight_le_inFlight_nested :
    let events : List SelectionEvent :=
      [.select (js "c"), .advance 60000, .select (js "c"), .advance 30000, .release 1]
    Runs.Along step HasRoom { now := 0 } events ∧
      Runs.Along step (InOrder (js "c") 90000) { now := 0 } events ∧
      (getInflight (js "c") 90000 (run 0 events).inflight).1 = 1 ∧
      (run 0 events).inFlight (js "c") 90000 = 1 := by
  intro events
  have hroom : Runs.Along step HasRoom { now := 0 } events := by decide
  have horder : Runs.Along step (InOrder (js "c") 90000) { now := 0 } events := by decide
  have hcount : (run 0 events).inFlight (js "c") 90000 = 1 := by decide
  refine ⟨hroom, horder, ?_, hcount⟩
  exact ((getInflight_le_inFlight 0 events (js "c")).2 (by decide) hroom horder).trans hcount

/-- Selections of one connection that all come at once. -/
def burst (conn : JsString) (n : Nat) : List SelectionEvent := List.replicate n (.select conn)

theorem run_burst (hconn : conn ≠ []) (now : Int) (n : Nat) : (run now (burst conn n)).now = now ∧
      (run now (burst conn n)).inFlight conn now = n ∧
      leasesOf (run now (burst conn n)).inflight conn =
        List.replicate (min n maxLeasesPerConnection) (now + defaultLeaseMs) := by
  induction n with
  | zero => exact ⟨rfl, rfl, rfl⟩
  | succ n ih =>
    obtain ⟨hnow, hcount, hleases⟩ := ih
    have hrun : run now (burst conn (n + 1)) = (run now (burst conn n)).select conn := by
      rw [burst, replicate_succ', run_append]
      rfl
    have hlater : now < now + defaultLeaseMs := by
      unfold defaultLeaseMs
      omega
    rw [hrun]
    refine ⟨hnow, ?_, ?_⟩
    · rw [inFlight_select, hcount, hnow, if_pos ⟨rfl, hlater⟩]
    · rw [Selections.select, hnow,
        leasesOf_incrementInflight (tracked_run now (burst conn n)).keys hconn, if_pos rfl, hleases,
        appended]
      have hkept : (List.replicate (min n maxLeasesPerConnection) (now + defaultLeaseMs)).filter
          (fun e => now < e) = List.replicate (min n maxLeasesPerConnection)
            (now + defaultLeaseMs) := by
        rw [filter_eq_self]
        intro e he
        rw [(mem_replicate.mp he).2]
        exact decide_eq_true hlater
      rw [hkept, ← replicate_succ', length_replicate, tail_replicate]
      split
      all_goals
        congr 1
        omega

/-- The count is wrong when the older of two requests settles first: the lease
that is left ends with the older request.  It is also wrong for more requests
than a connection keeps leases for. -/
theorem getInflight_miscounts :
    (let w := run 0 [.select (js "c"), .advance 60000, .select (js "c"), .advance 30000,
        .release 0, .advance 40000];
      (getInflight (js "c") w.now w.inflight).1 = 0 ∧ w.inFlight (js "c") w.now = 1) ∧
    (let w := run 0 (burst (js "c") 4097);
      (getInflight (js "c") w.now w.inflight).1 = 4096 ∧ w.inFlight (js "c") w.now = 4097) := by
  refine ⟨by decide, ?_⟩
  have hconn : js "c" ≠ [] := by decide
  obtain ⟨hnow, hcount, hleases⟩ := run_burst hconn 0 4097
  dsimp only
  rw [getInflight_eq_running hconn, hnow, hleases]
  refine ⟨?_, hcount⟩
  rw [running, countP_replicate]
  rfl

end Selections

end RedRouter.Combo
