import RedRouter.Lib.Runs
import RedRouter.Services.SlidingWindowLimiter
import Mathlib.Data.List.Flatten

/-!
# The bound of the sliding window

In every window of a key, at most `requests` hits were granted and not
released.  The reason is that the table holds every such hit as long as it is
in its window (`Kept.tracked`), so a call that is granted has seen all of them.

There are two ways to lose a hit.  A full table evicts the least recently
inserted key, with the hits it has.  A call that names a key twice writes the
hits of the key twice, and the second write does not have the hit of the first
one.  `Sound` excludes both: the keys of a call are different, and an evicted
key has no hit in its window.
-/

namespace RedRouter.Services.SlidingWindow

open List

def tracked (hits : HitTable) (k : JsString) : List Hit := (hits.get k).getD []

/-- The entry that a `set` evicts. -/
def evictedBySet (key : JsString) (live : List Hit) (hits : HitTable) :
    Option (JsString × List Hit) :=
  if live.length = 0 then none
  else if hits.has key = false ∧ maxKeys ≤ hits.length then hits.head?
  else none

/-- The entries that a sequence of `set` calls evicts. -/
def evictedBy : HitTable → List (JsString × List Hit) → List (JsString × List Hit)
  | _, [] => []
  | hits, (key, live) :: updates =>
      (evictedBySet key live hits).toList ++ evictedBy (set key live hits) updates

/-! ## The table -/

section Table

variable {hits : HitTable} {k key : JsString} {h : Hit} {live : List Hit}

theorem tracked_delete (hits : HitTable) (k key : JsString) :
    tracked (hits.delete key) k = if key = k then [] else tracked hits k := by
  unfold tracked
  rw [JsMap.get_delete]
  split <;> rfl

theorem tracked_set (hits : HitTable) (k key : JsString) (live : List Hit) :
    tracked (JsMap.set key live hits) k = if key = k then live else tracked hits k := by
  unfold tracked
  rw [JsMap.get_set]
  split <;> rfl

theorem mem_set_self (hlive : h ∈ live) : h ∈ tracked (set key live hits) key := by
  have hwritten : ∀ table : HitTable, h ∈ tracked (JsMap.set key live table) key := by
    intro table
    rw [tracked_set, if_pos rfl]
    exact hlive
  have hne : live.length ≠ 0 := by
    have hpos := length_pos_of_mem hlive
    omega
  unfold set
  rw [if_neg hne]
  split
  · split <;> exact hwritten _
  · exact hwritten _

theorem mem_set (hmem : h ∈ tracked hits k) (hlive : key = k → h ∈ live)
    (hkept : ∀ e ∈ evictedBySet key live hits, e.1 = k → h ∉ e.2) :
    h ∈ tracked (set key live hits) k := by
  by_cases hkey : key = k
  · subst hkey
    exact mem_set_self (hlive rfl)
  unfold evictedBySet at hkept
  unfold set
  split
  · rw [tracked_delete, if_neg hkey]
    exact hmem
  · rename_i hsome
    rw [if_neg hsome] at hkept
    split
    · rename_i hfull
      rw [if_pos hfull] at hkept
      split
      · rw [tracked_set, if_neg hkey]
        exact hmem
      · rename_i oldest found rest
        have hother : oldest ≠ k := by
          rintro rfl
          have hnot := hkept (oldest, found) rfl rfl
          have hfound : tracked ((oldest, found) :: rest) oldest = found := by
            simp [tracked, JsMap.get]
          rw [hfound] at hmem
          exact hnot hmem
        rw [tracked_set, if_neg hkey, tracked_delete, if_neg hother]
        exact hmem
    · rw [tracked_set, if_neg hkey]
      exact hmem

/-- A hit that every write of its key has, and that is in the table or in one
of the writes, is in the table at the end. -/
theorem mem_setAll {updates : List (JsString × List Hit)}
    (hmem : h ∈ tracked hits k ∨ ∃ live, (k, live) ∈ updates)
    (hlive : ∀ live, (k, live) ∈ updates → h ∈ live)
    (hkept : ∀ e ∈ evictedBy hits updates, e.1 = k → h ∉ e.2) :
    h ∈ tracked (setAll hits updates) k := by
  induction updates generalizing hits with
  | nil =>
    rcases hmem with hmem | ⟨live, hno⟩
    · exact hmem
    · exact absurd hno not_mem_nil
  | cons u updates ih =>
    obtain ⟨key, live⟩ := u
    have hfirst : ∀ e ∈ evictedBySet key live hits, e.1 = k → h ∉ e.2 := by
      intro e he
      exact hkept e (mem_append_left _ (Option.mem_toList.mpr he))
    have hrest : ∀ e ∈ evictedBy (set key live hits) updates, e.1 = k → h ∉ e.2 := by
      intro e he
      exact hkept e (mem_append_right _ he)
    have hlater : ∀ live, (k, live) ∈ updates → h ∈ live :=
      fun live hu => hlive live (mem_cons_of_mem _ hu)
    by_cases hkey : key = k
    · subst hkey
      exact ih (.inl (mem_set_self (hlive live mem_cons_self))) hlater hrest
    · refine ih ?_ hlater hrest
      rcases hmem with hmem | ⟨live', hu⟩
      · exact .inl (mem_set hmem (fun heq => absurd heq hkey) hfirst)
      · rcases mem_cons.mp hu with heq | hu
        · exact absurd (Prod.mk.inj heq).1.symm hkey
        · exact .inr ⟨live', hu⟩

theorem mem_removeHit {entry : LeaseEntry} (hmem : h ∈ tracked hits k)
    (hother : entry.key = k → h.id ≠ entry.id) : h ∈ tracked (Limiter.removeHit hits entry) k := by
  unfold Limiter.removeHit
  split
  · exact hmem
  rename_i live hget
  have hremains : entry.key = k → h ∈ live.filter fun hit => hit.id ≠ entry.id := by
    intro hkey
    have htracked : tracked hits k = live := by
      rw [← hkey, tracked, hget]
      rfl
    rw [htracked] at hmem
    exact mem_filter.mpr ⟨hmem, decide_eq_true (hother hkey)⟩
  dsimp only
  split
  · rw [tracked_set]
    split
    · rename_i hkey
      exact hremains hkey
    · exact hmem
  · rename_i hempty
    rw [tracked_delete]
    split
    · rename_i hkey
      exact absurd (length_pos_of_mem (hremains hkey)) hempty
    · exact hmem

theorem mem_removeHits {entries : List LeaseEntry} (hmem : h ∈ tracked hits k)
    (hother : ∀ entry ∈ entries, h.id ≠ entry.id) :
    h ∈ tracked (entries.foldl Limiter.removeHit hits) k := by
  induction entries generalizing hits with
  | nil => exact hmem
  | cons entry entries ih =>
    exact ih (mem_removeHit hmem (fun _ => hother entry mem_cons_self))
      (fun e he => hother e (mem_cons_of_mem _ he))

end Table

/-! ## A call -/

section Calls

variable {hits : HitTable} {now : Int} {id : Nat} {prepared : List Prepared}

theorem mem_recorded {u : JsString × List Hit} (h : u ∈ recorded now id prepared) :
    ∃ entry ∈ prepared, ∃ n, u = (entry.scope.key, entry.live ++ [⟨n, now⟩]) ∧
      ⟨entry.scope.key, n⟩ ∈ leaseEntries id prepared := by
  induction prepared generalizing id with
  | nil => exact absurd h not_mem_nil
  | cons entry prepared ih =>
    rcases mem_cons.mp h with rfl | h
    · exact ⟨entry, mem_cons_self, id, rfl, mem_cons_self⟩
    · obtain ⟨entry', hentry', n, hu, hlease⟩ := ih h
      exact ⟨entry', mem_cons_of_mem _ hentry', n, hu, mem_cons_of_mem _ hlease⟩

theorem recorded_of_lease (now : Int) {e : LeaseEntry} (h : e ∈ leaseEntries id prepared) :
    ∃ entry ∈ prepared, entry.scope.key = e.key ∧
      (e.key, entry.live ++ [⟨e.id, now⟩]) ∈ recorded now id prepared := by
  induction prepared generalizing id with
  | nil => exact absurd h not_mem_nil
  | cons entry prepared ih =>
    rcases mem_cons.mp h with rfl | h
    · exact ⟨entry, mem_cons_self, rfl, mem_cons_self⟩
    · obtain ⟨entry', hentry', hkey, hrecorded⟩ := ih h
      exact ⟨entry', mem_cons_of_mem _ hentry', hkey, mem_cons_of_mem _ hrecorded⟩

theorem leaseEntries_keys (id : Nat) (prepared : List Prepared) :
    (leaseEntries id prepared).map LeaseEntry.key = prepared.map fun entry => entry.scope.key := by
  induction prepared generalizing id with
  | nil => rfl
  | cons entry prepared ih =>
    rw [leaseEntries, map_cons, map_cons, ih]

theorem leaseEntries_ids (id : Nat) (prepared : List Prepared) :
    (leaseEntries id prepared).map LeaseEntry.id = List.range' id prepared.length := by
  induction prepared generalizing id with
  | nil => rfl
  | cons entry prepared ih =>
    rw [leaseEntries, map_cons, length_cons, range'_succ, ih]

theorem room_of_no_wait {scope : RateLimitScope} (hactive : 0 < scope.window.requests)
    (hwait : (prepare hits now scope).retryAfterMs ≤ 0) :
    (prepare hits now scope).live.length < scope.window.requests := by
  by_contra hfull
  unfold prepare at hwait hfull
  dsimp only at hwait hfull
  generalize hlive : ((hits.get scope.key).getD []).filter
    (fun hit => now - scope.window.windowMs < hit.timestamp) = live at *
  cases live with
  | nil =>
    rw [length_nil] at hfull
    omega
  | cons first rest =>
    have hmem : first ∈ ((hits.get scope.key).getD []).filter
        (fun hit => now - scope.window.windowMs < hit.timestamp) := by
      rw [hlive]
      exact mem_cons_self
    have hrecent : now - scope.window.windowMs < first.timestamp := by
      simpa using (mem_filter.mp hmem).2
    simp only [head?_cons, Option.map_some, Option.getD_some] at hwait
    omega

theorem le_foldl_max (entries : List Prepared) (start : Int) :
    start ≤ entries.foldl (fun m entry => max m entry.retryAfterMs) start ∧ ∀ entry ∈ entries,
        entry.retryAfterMs ≤ entries.foldl (fun m entry => max m entry.retryAfterMs) start := by
  induction entries generalizing start with
  | nil => exact ⟨Int.le_refl _, fun _ h => absurd h not_mem_nil⟩
  | cons entry entries ih =>
    obtain ⟨hstart, hrest⟩ := ih (max start entry.retryAfterMs)
    rw [foldl_cons]
    refine ⟨by omega, ?_⟩
    intro e he
    rcases mem_cons.mp he with rfl | he
    · omega
    · exact hrest e he

end Calls

/-! ## The hits that were granted -/

namespace Clients

variable {rule : JsString → RateLimitWindow} {w : Clients} {k : JsString}

/-- The hits of a key in a lease that has not been released. -/
def hitsIn (k : JsString) (lease : Lease) : List Hit :=
  if lease.released then []
  else (lease.entries.filter fun e => e.key = k).map fun e => ⟨e.id, lease.grantedAt⟩

/-- The hits that were granted for a key and not released. -/
def outstanding (w : Clients) (k : JsString) : List Hit := w.leases.flatMap (hitsIn k)

/-- The number of these hits in the interval of a length from a time on. -/
def grantedIn (w : Clients) (k : JsString) (start : Int) (length : Nat) : Nat :=
  (w.outstanding k).countP fun hit => start ≤ hit.timestamp ∧ hit.timestamp < start + length

def prepared (rule : JsString → RateLimitWindow) (w : Clients) (keys : List JsString) :
    List Prepared :=
  (activeScopes (scopes rule keys)).map (prepare w.limiter.hits w.now)

/-- What a call writes: the live hits, and the new ones when it is granted. -/
def pruned (rule : JsString → RateLimitWindow) (w : Clients) (keys : List JsString) :
    List (JsString × List Hit) :=
  (w.prepared rule keys).map fun entry => (entry.scope.key, entry.live)

def added (rule : JsString → RateLimitWindow) (w : Clients) (keys : List JsString) :
    List (JsString × List Hit) :=
  recorded w.now w.limiter.nextHitId (w.prepared rule keys)

def Expired (rule : JsString → RateLimitWindow) (now : Int) (entry : JsString × List Hit) : Prop :=
  ∀ hit ∈ entry.2, hit.timestamp ≤ now - (rule entry.1).windowMs

/-- A call names different keys, and a key that it evicts has no hit in its
window. -/
def Sound (rule : JsString → RateLimitWindow) (w : Clients) : LimiterEvent → Prop
  | .tryAcquireMany keys => keys.Nodup ∧
      ∀ e ∈ evictedBy w.limiter.hits (w.pruned rule keys ++ w.added rule keys), Expired rule w.now e
  | _ => True

/-- What holds of the table and the leases in every state. -/
structure Kept (rule : JsString → RateLimitWindow) (w : Clients) : Prop where
  below : ∀ lease ∈ w.leases, ∀ e ∈ lease.entries, e.id < w.limiter.nextHitId
  distinct : (w.leases.flatMap fun lease => lease.entries.map LeaseEntry.id).Nodup
  tracked : ∀ k, ∀ hit ∈ w.outstanding k, w.now - (rule k).windowMs < hit.timestamp →
    hit ∈ tracked w.limiter.hits k
  bound : ∀ k start, w.grantedIn k start (rule k).windowMs ≤ (rule k).requests

theorem kept_start (rule : JsString → RateLimitWindow) (now : Int) : Kept rule { now := now } where
  below := fun _ h => absurd h not_mem_nil
  distinct := nodup_nil
  tracked := fun _ _ h => absurd h not_mem_nil
  bound := fun _ _ => Nat.zero_le _

variable {entry : Prepared} {keys : List JsString}

theorem prepared_live (h : entry ∈ w.prepared rule keys) :
    entry.live = (SlidingWindow.tracked w.limiter.hits entry.scope.key).filter
      fun hit => w.now - (rule entry.scope.key).windowMs < hit.timestamp := by
  obtain ⟨scope, hscope, rfl⟩ := mem_map.mp h
  obtain ⟨key, -, rfl⟩ := mem_map.mp (mem_filter.mp hscope).1
  rfl

theorem live_lt_requests (h : entry ∈ w.prepared rule keys) (hwait : entry.retryAfterMs ≤ 0) :
    entry.live.length < (rule entry.scope.key).requests := by
  obtain ⟨scope, hscope, rfl⟩ := mem_map.mp h
  obtain ⟨hmem, hactive⟩ := mem_filter.mp hscope
  obtain ⟨key, -, rfl⟩ := mem_map.mp hmem
  simp only [decide_eq_true_eq] at hactive
  exact room_of_no_wait hactive.1 hwait

variable {hit : Hit}

theorem mem_live (h : entry ∈ w.prepared rule keys)
    (hmem : hit ∈ SlidingWindow.tracked w.limiter.hits entry.scope.key)
    (hrecent : w.now - (rule entry.scope.key).windowMs < hit.timestamp) : hit ∈ entry.live := by
  rw [prepared_live h]
  exact mem_filter.mpr ⟨hmem, decide_eq_true hrecent⟩

theorem evictedBy_append (hits : HitTable) (first rest : List (JsString × List Hit)) :
    evictedBy hits (first ++ rest) =
      evictedBy hits first ++ evictedBy (setAll hits first) rest := by
  induction first generalizing hits with
  | nil => rfl
  | cons u first ih =>
    rw [cons_append, evictedBy, evictedBy, ih, append_assoc]
    rfl

section

variable (hexpired : ∀ e ∈ evictedBy w.limiter.hits (w.pruned rule keys ++ w.added rule keys), Expired rule w.now e)
include hexpired

theorem mem_pruned (hmem : hit ∈ SlidingWindow.tracked w.limiter.hits k)
    (hrecent : w.now - (rule k).windowMs < hit.timestamp) :
    hit ∈ SlidingWindow.tracked (setAll w.limiter.hits (w.pruned rule keys)) k := by
  refine mem_setAll (.inl hmem) ?_ ?_
  · intro live hlive
    obtain ⟨entry, hentry, heq⟩ := mem_map.mp hlive
    obtain ⟨rfl, rfl⟩ := Prod.mk.inj heq
    exact mem_live hentry hmem hrecent
  · rintro e he rfl hin
    rw [evictedBy_append] at hexpired
    have hold := hexpired e (mem_append_left _ he) hit hin
    omega

theorem mem_added (hmem : hit ∈ SlidingWindow.tracked (setAll w.limiter.hits (w.pruned rule keys)) k ∨
      ∃ live, (k, live) ∈ w.added rule keys)
    (hlive : ∀ live, (k, live) ∈ w.added rule keys → hit ∈ live)
    (hrecent : w.now - (rule k).windowMs < hit.timestamp) :
    hit ∈ SlidingWindow.tracked
      (setAll (setAll w.limiter.hits (w.pruned rule keys)) (w.added rule keys)) k := by
  refine mem_setAll hmem hlive ?_
  rintro e he rfl hin
  rw [evictedBy_append] at hexpired
  have hold := hexpired e (mem_append_right _ he) hit hin
  omega

end

def grant (rule : JsString → RateLimitWindow) (keys : List JsString) (w : Clients) : Clients :=
  { w with
    limiter :=
      { hits := setAll (setAll w.limiter.hits (w.pruned rule keys)) (w.added rule keys)
        nextHitId := w.limiter.nextHitId + (w.prepared rule keys).length }
    leases := w.leases ++ [⟨leaseEntries w.limiter.nextHitId (w.prepared rule keys), w.now, false⟩] }

/-- A call has nothing to limit, is blocked, or is granted with room in every
scope. -/
theorem acquire_cases (rule : JsString → RateLimitWindow) (keys : List JsString) (w : Clients) :
    w.acquire rule keys = w ∨
    w.acquire rule keys =
      { w with limiter := { w.limiter with hits := setAll w.limiter.hits (w.pruned rule keys) } } ∨
    ((∀ entry ∈ w.prepared rule keys, entry.retryAfterMs ≤ 0) ∧
      w.acquire rule keys = w.grant rule keys) := by
  unfold acquire Limiter.tryAcquireMany
  dsimp only
  split
  · left
    simp
  · have hwait := le_foldl_max (w.prepared rule keys) 0
    split
    · right
      left
      show Clients.mk _ (w.leases ++ []) _ = _
      rw [append_nil]
      rfl
    · rename_i hnone
      right
      right
      refine ⟨?_, rfl⟩
      intro entry hentry
      have hle := hwait.2 entry hentry
      exact Int.le_trans hle (Int.not_lt.mp hnone)

theorem prepared_keys_nodup (h : keys.Nodup) :
    ((w.prepared rule keys).map fun entry => entry.scope.key).Nodup := by
  have hkeys : (w.prepared rule keys).map (fun entry => entry.scope.key) =
      (activeScopes (scopes rule keys)).map RateLimitScope.key := by
    unfold prepared
    rw [map_map]
    rfl
  have hscopes : (scopes rule keys).map RateLimitScope.key = keys := by
    unfold scopes
    rw [map_map]
    exact map_id keys
  rw [hkeys]
  refine List.Nodup.sublist (filter_sublist.map _) ?_
  rw [hscopes]
  exact h

theorem lease_entry_unique (h : keys.Nodup) {e e' : LeaseEntry}
    (he : e ∈ leaseEntries w.limiter.nextHitId (w.prepared rule keys))
    (he' : e' ∈ leaseEntries w.limiter.nextHitId (w.prepared rule keys)) (hkey : e.key = e'.key) :
    e = e' := by
  refine inj_on_of_nodup_map ?_ he he' hkey
  rw [leaseEntries_keys]
  exact prepared_keys_nodup h

theorem outstanding_grant (keys : List JsString) (k : JsString) :
    (w.grant rule keys).outstanding k = w.outstanding k ++
      ((leaseEntries w.limiter.nextHitId (w.prepared rule keys)).filter fun e => e.key = k).map
        fun e => ⟨e.id, w.now⟩ := by
  unfold outstanding grant
  rw [flatMap_append, flatMap_singleton]
  rfl

theorem mem_outstanding_grant (h : hit ∈ (w.grant rule keys).outstanding k) :
    hit ∈ w.outstanding k ∨ (hit.timestamp = w.now ∧
      ⟨k, hit.id⟩ ∈ leaseEntries w.limiter.nextHitId (w.prepared rule keys)) := by
  rw [outstanding_grant] at h
  rcases mem_append.mp h with h | h
  · exact .inl h
  · obtain ⟨e, he, rfl⟩ := mem_map.mp h
    obtain ⟨hmem, hkey⟩ := mem_filter.mp he
    have hkey : e.key = k := by simpa using hkey
    subst hkey
    exact .inr ⟨rfl, hmem⟩

theorem Kept.tracked_grant (h : Kept rule w) (hkeys : keys.Nodup)
    (hexpired : ∀ e ∈ evictedBy w.limiter.hits (w.pruned rule keys ++ w.added rule keys),
      Expired rule w.now e) (hmem : hit ∈ (w.grant rule keys).outstanding k)
    (hrecent : w.now - (rule k).windowMs < hit.timestamp) :
    hit ∈ SlidingWindow.tracked (w.grant rule keys).limiter.hits k := by
  rcases mem_outstanding_grant hmem with hold | ⟨hat, hnew⟩
  · have htracked := h.tracked k hit hold hrecent
    refine mem_added hexpired (.inl (mem_pruned hexpired htracked hrecent)) ?_ hrecent
    intro live hlive
    obtain ⟨entry, hentry, n, heq, -⟩ := mem_recorded hlive
    obtain ⟨rfl, rfl⟩ := Prod.mk.inj heq
    exact mem_append_left _ (mem_live hentry htracked hrecent)
  · obtain ⟨entry, -, -, hrecorded⟩ := recorded_of_lease w.now hnew
    refine mem_added hexpired (.inr ⟨_, hrecorded⟩) ?_ hrecent
    intro live hlive
    obtain ⟨entry', -, n, heq, hlease⟩ := mem_recorded hlive
    obtain ⟨rfl, rfl⟩ := Prod.mk.inj heq
    have hsame := lease_entry_unique hkeys hnew hlease rfl
    have hid : hit.id = n := congrArg LeaseEntry.id hsame
    refine mem_append_right _ (mem_singleton.mpr ?_)
    rw [← hid, ← hat]

theorem Kept.outstanding_nodup (h : Kept rule w) (k : JsString) : (w.outstanding k).Nodup := by
  have hids : ((w.outstanding k).map Hit.id).Sublist
      (w.leases.flatMap fun lease => lease.entries.map LeaseEntry.id) := by
    unfold outstanding
    rw [map_flatMap]
    refine List.Sublist.flatMap_right _ ?_
    intro lease _
    unfold hitsIn
    split
    · exact nil_sublist _
    · rw [map_map]
      exact filter_sublist.map _
  exact List.Nodup.of_map _ (h.distinct.sublist hids)

theorem Kept.recent_le_live (h : Kept rule w) (hentry : entry ∈ w.prepared rule keys) :
    (w.outstanding entry.scope.key).countP
      (fun hit => w.now - (rule entry.scope.key).windowMs < hit.timestamp) ≤ entry.live.length := by
  rw [countP_eq_length_filter]
  refine (subperm_of_subset ((h.outstanding_nodup _).filter _) ?_).length_le
  intro hit hmem
  obtain ⟨hout, hrecent⟩ := mem_filter.mp hmem
  have hrecent : w.now - (rule entry.scope.key).windowMs < hit.timestamp := by simpa using hrecent
  exact mem_live hentry (h.tracked _ hit hout hrecent) hrecent

theorem length_lease_le_one (rule : JsString → RateLimitWindow) (w : Clients) (hkeys : keys.Nodup)
    (k : JsString) :
    ((leaseEntries w.limiter.nextHitId (w.prepared rule keys)).filter fun e => e.key = k).length ≤
      1 := by
  have hcount : ((leaseEntries w.limiter.nextHitId (w.prepared rule keys)).filter
      fun e => e.key = k).length =
      ((leaseEntries w.limiter.nextHitId (w.prepared rule keys)).map LeaseEntry.key).count k := by
    rw [← countP_eq_length_filter, List.count, countP_map]
    exact countP_congr fun e _ => by simp
  rw [hcount]
  refine nodup_iff_count_le_one.mp ?_ k
  rw [leaseEntries_keys]
  exact prepared_keys_nodup hkeys

theorem Kept.bound_grant (h : Kept rule w) (hkeys : keys.Nodup)
    (hroom : ∀ entry ∈ w.prepared rule keys, entry.retryAfterMs ≤ 0) (k : JsString) (start : Int) :
    (w.grant rule keys).grantedIn k start (rule k).windowMs ≤ (rule k).requests := by
  have hold := h.bound k start
  unfold grantedIn at hold ⊢
  rw [outstanding_grant, countP_append]
  have hone := length_lease_le_one rule w hkeys k
  by_cases hin : start ≤ w.now ∧ w.now < start + (rule k).windowMs
  · generalize hentries : (leaseEntries w.limiter.nextHitId (w.prepared rule keys)).filter
      (fun e => e.key = k) = entries at *
    cases entries with
    | nil => exact hold
    | cons e rest =>
      -- The window that ends with the new hit starts after its window of the past.
      have he : e ∈ leaseEntries w.limiter.nextHitId (w.prepared rule keys) ∧ e.key = k := by
        have hmem : e ∈ (leaseEntries w.limiter.nextHitId (w.prepared rule keys)).filter
            fun e => e.key = k := by
          rw [hentries]
          exact mem_cons_self
        simpa using mem_filter.mp hmem
      obtain ⟨entry, hentry, hkey, -⟩ := recorded_of_lease w.now he.1
      have hk : entry.scope.key = k := hkey.trans he.2
      subst hk
      have hlive := live_lt_requests hentry (hroom entry hentry)
      have hrecent := h.recent_le_live hentry
      have hsub : (w.outstanding entry.scope.key).countP (fun hit => decide
          (start ≤ hit.timestamp ∧ hit.timestamp < start + (rule entry.scope.key).windowMs)) ≤
          (w.outstanding entry.scope.key).countP
            (fun hit => w.now - (rule entry.scope.key).windowMs < hit.timestamp) := by
        refine countP_mono_left ?_
        intro hit _ hhit
        simp only [decide_eq_true_eq] at hhit ⊢
        omega
      have hnew := countP_le_length (p := fun hit : Hit => decide
          (start ≤ hit.timestamp ∧ hit.timestamp < start + (rule entry.scope.key).windowMs))
        (l := (e :: rest).map fun e => (⟨e.id, w.now⟩ : Hit))
      rw [length_map] at hnew
      omega
  · have hnone : (((leaseEntries w.limiter.nextHitId (w.prepared rule keys)).filter
        fun e => e.key = k).map fun e => (⟨e.id, w.now⟩ : Hit)).countP (fun hit => decide
          (start ≤ hit.timestamp ∧ hit.timestamp < start + (rule k).windowMs)) = 0 := by
      rw [countP_eq_zero]
      intro hit hmem
      obtain ⟨e, -, rfl⟩ := mem_map.mp hmem
      simpa using hin
    omega

theorem Kept.grant (h : Kept rule w) (hsound : w.Sound rule (.tryAcquireMany keys))
    (hroom : ∀ entry ∈ w.prepared rule keys, entry.retryAfterMs ≤ 0) :
    Kept rule (w.grant rule keys) where
  below := by
    intro lease hlease e he
    show e.id < w.limiter.nextHitId + (w.prepared rule keys).length
    rcases mem_append.mp hlease with hlease | hlease
    · have hlt := h.below lease hlease e he
      omega
    · rw [mem_singleton.mp hlease] at he
      have hid : e.id ∈ (leaseEntries w.limiter.nextHitId (w.prepared rule keys)).map
          LeaseEntry.id := mem_map_of_mem he
      rw [leaseEntries_ids, mem_range'_1] at hid
      omega
  distinct := by
    show ((w.leases ++ [_]).flatMap fun lease : Lease => lease.entries.map LeaseEntry.id).Nodup
    rw [flatMap_append, flatMap_singleton, leaseEntries_ids, nodup_append]
    refine ⟨h.distinct, nodup_range' .., ?_⟩
    intro id hid id' hid' heq
    obtain ⟨lease, hlease, hmem⟩ := mem_flatMap.mp hid
    obtain ⟨e, he, rfl⟩ := mem_map.mp hmem
    have hlt := h.below lease hlease e he
    have hge := (mem_range'_1.mp hid').1
    omega
  tracked := fun _ _ hmem hrecent => h.tracked_grant hsound.1 hsound.2 hmem hrecent
  bound := fun k start => h.bound_grant hsound.1 hroom k start

theorem Kept.acquire (h : Kept rule w) (hsound : w.Sound rule (.tryAcquireMany keys)) :
    Kept rule (w.acquire rule keys) := by
  rcases acquire_cases rule keys w with heq | heq | ⟨hroom, heq⟩
  · rw [heq]
    exact h
  · rw [heq]
    refine ⟨h.below, h.distinct, ?_, h.bound⟩
    intro k hit hmem hrecent
    exact mem_pruned hsound.2 (h.tracked k hit hmem hrecent) hrecent
  · rw [heq]
    exact h.grant hsound hroom

theorem id_of_mem_hitsIn {lease : Lease} (h : hit ∈ hitsIn k lease) :
    hit.id ∈ lease.entries.map LeaseEntry.id := by
  unfold hitsIn at h
  split at h
  · exact absurd h not_mem_nil
  · obtain ⟨e, he, rfl⟩ := mem_map.mp h
    exact mem_map_of_mem (mem_filter.mp he).1

theorem leases_split {i : Nat} {lease : Lease} (hget : w.leases[i]? = some lease) :
    w.leases = w.leases.take i ++ lease :: w.leases.drop (i + 1) ∧
      w.leases.set i { lease with released := true } =
        w.leases.take i ++ { lease with released := true } :: w.leases.drop (i + 1) := by
  obtain ⟨hi, hlease⟩ := List.getElem?_eq_some_iff.mp hget
  refine ⟨?_, ?_⟩
  · rw [← hlease, getElem_cons_drop, take_append_drop]
  · rw [set_eq_take_append_cons_drop, if_pos hi]

theorem Kept.outstanding_release (h : Kept rule w) {i : Nat} {lease : Lease}
    (hget : w.leases[i]? = some lease) (k : JsString) :
    ((w.leases.set i { lease with released := true }).flatMap (hitsIn k)).Sublist
        (w.outstanding k) ∧
      ∀ hit ∈ (w.leases.set i { lease with released := true }).flatMap (hitsIn k),
        ∀ e ∈ lease.entries, hit.id ≠ e.id := by
  obtain ⟨hold, hnew⟩ := leases_split hget
  have hgone : hitsIn k { lease with released := true } = [] := rfl
  rw [hnew, flatMap_append, flatMap_cons, hgone, nil_append]
  refine ⟨?_, ?_⟩
  · unfold outstanding
    rw [hold, flatMap_append, flatMap_cons, ← hold]
    exact List.Sublist.append (List.Sublist.refl _) (sublist_append_right _ _)
  · intro hit hhit e he heq
    have hdistinct := h.distinct
    rw [hold, flatMap_append, flatMap_cons, nodup_append, nodup_append]
      at hdistinct
    obtain ⟨-, ⟨-, -, hafter⟩, hbefore⟩ := hdistinct
    have hid : e.id ∈ lease.entries.map LeaseEntry.id := mem_map_of_mem he
    rcases mem_append.mp hhit with hhit | hhit
    · obtain ⟨other, hother, hmem⟩ := mem_flatMap.mp hhit
      exact hbefore hit.id (mem_flatMap.mpr ⟨other, hother, id_of_mem_hitsIn hmem⟩) e.id
        (mem_append_left _ hid) heq
    · obtain ⟨other, hother, hmem⟩ := mem_flatMap.mp hhit
      exact hafter e.id hid hit.id (mem_flatMap.mpr ⟨other, hother, id_of_mem_hitsIn hmem⟩) heq.symm

theorem Kept.release (h : Kept rule w) (i : Nat) : Kept rule (w.release i) := by
  unfold Clients.release
  split
  · exact h
  rename_i lease hget
  split
  · exact h
  obtain ⟨hold, hnew⟩ := leases_split hget
  have hlease : lease ∈ w.leases := mem_of_getElem? hget
  refine ⟨?_, ?_, ?_, ?_⟩
  · intro other hother e he
    rcases mem_or_eq_of_mem_set hother with hother | rfl
    · exact h.below other hother e he
    · exact h.below lease hlease e he
  · have hdistinct := h.distinct
    rw [hold] at hdistinct
    show ((w.leases.set i { lease with released := true }).flatMap
      fun lease : Lease => lease.entries.map LeaseEntry.id).Nodup
    rw [hnew]
    rw [flatMap_append, flatMap_cons] at hdistinct ⊢
    exact hdistinct
  · intro k hit hmem hrecent
    obtain ⟨hsub, hother⟩ := h.outstanding_release hget k
    exact mem_removeHits (h.tracked k hit (hsub.subset hmem) hrecent) (hother hit hmem)
  · intro k start
    exact Nat.le_trans (h.outstanding_release hget k).1.countP_le (h.bound k start)

theorem Kept.step (h : Kept rule w) {event : LimiterEvent} (hsound : w.Sound rule event) :
    Kept rule (w.step rule event) := by
  cases event with
  | tryAcquireMany keys => exact h.acquire hsound
  | release i => exact h.release i
  | advance ms =>
    refine ⟨h.below, h.distinct, ?_, h.bound⟩
    intro k hit hmem hrecent
    refine h.tracked k hit hmem ?_
    have hlater : w.now + ms - (rule k).windowMs < hit.timestamp := hrecent
    omega

/-- In a run whose calls name different keys and evict only keys without a hit
in their window, every half-open interval of a window's length has at most
`requests` hits that were granted and not released. -/
theorem grantedIn_le_requests (rule : JsString → RateLimitWindow) (now : Int)
    (events : List LimiterEvent) (h : Runs.Along (step rule) (Sound rule) { now := now } events)
    (k : JsString) (start : Int) :
    (run rule now events).grantedIn k start (rule k).windowMs ≤ (rule k).requests :=
  (Runs.along_invariant (Kept rule) (fun _ _ hkept hsound => hkept.step hsound)
    (kept_start rule now) h).bound k start

instance (rule : JsString → RateLimitWindow) (now : Int) (entry : JsString × List Hit) :
    Decidable (Expired rule now entry) :=
  inferInstanceAs (Decidable (∀ hit ∈ entry.2, hit.timestamp ≤ now - (rule entry.1).windowMs))

instance (rule : JsString → RateLimitWindow) (w : Clients) :
    (event : LimiterEvent) → Decidable (w.Sound rule event)
  | .tryAcquireMany keys => inferInstanceAs (Decidable (keys.Nodup ∧
      ∀ e ∈ evictedBy w.limiter.hits (w.pruned rule keys ++ w.added rule keys),
        Expired rule w.now e))
  | .release _ => isTrue trivial
  | .advance _ => isTrue trivial

/-- One request a second, for every key. -/
def oncePerSecond (_ : JsString) : RateLimitWindow := ⟨1, 1000⟩

theorem oncePerSecond_limited (k : JsString) :
    0 < (oncePerSecond k).requests ∧ 0 < (oncePerSecond k).windowMs := by
  show 0 < 1 ∧ 0 < 1000
  decide

/-- A blocked call, a window that ends, two scopes and a refund. -/
theorem grantedIn_le_requests_refund :
    let events : List LimiterEvent := [.tryAcquireMany [js "a"], .tryAcquireMany [js "a"],
      .advance 1000, .tryAcquireMany [js "a", js "b"], .release 1, .tryAcquireMany [js "a"]]
    Runs.Along (step oncePerSecond) (Sound oncePerSecond) { now := 0 } events ∧
      (run oncePerSecond 0 events).grantedIn (js "a") 1000 1000 = 1 ∧
      (run oncePerSecond 0 events).grantedIn (js "a") 1000 1000 ≤ 1 := by
  intro events
  have hsound : Runs.Along (step oncePerSecond) (Sound oncePerSecond) { now := 0 } events := by
    decide
  exact ⟨hsound, by decide, grantedIn_le_requests oncePerSecond 0 events hsound (js "a") 1000⟩

/-! ## A full table -/

/-- One call for each of the first keys. -/
def fill (n : Nat) : List LimiterEvent :=
  (List.range n).map fun i => .tryAcquireMany [JsString.ofNat i]

theorem acquire_fresh (w : Clients) (hrule : 0 < (rule k).requests ∧ 0 < (rule k).windowMs)
    (hk : k ∉ w.limiter.hits.keys) :
    w.acquire rule [k] =
      { w with
        limiter := ⟨set k [⟨w.limiter.nextHitId, w.now⟩] w.limiter.hits, w.limiter.nextHitId + 1⟩
        leases := w.leases ++ [⟨[⟨k, w.limiter.nextHitId⟩], w.now, false⟩] } := by
  have hnone : w.limiter.hits.get k = none := JsMap.get_eq_none_iff.mpr hk
  have hroom : (rule k).requests ≠ 0 := Nat.ne_of_gt hrule.1
  have hprepare : prepare w.limiter.hits w.now ⟨k, rule k⟩ = ⟨⟨k, rule k⟩, [], 0⟩ := by
    unfold prepare
    simp [hnone, hroom]
  have hactive : activeScopes (scopes rule [k]) = [⟨k, rule k⟩] := by
    simp [activeScopes, scopes, hrule]
  have hdelete : set k [] w.limiter.hits = w.limiter.hits := JsMap.delete_of_not_mem hk
  unfold acquire Limiter.tryAcquireMany
  simp only [hactive, map_cons, hprepare, setAll, foldl_cons, hdelete]
  rfl

theorem ofNat_mem_keys {n i : Nat} : JsString.ofNat i ∈ (List.range n).map JsString.ofNat ↔ i < n := by
  rw [mem_map]
  constructor
  · rintro ⟨j, hj, heq⟩
    rw [← JsString.ofNat_inj heq]
    exact List.mem_range.mp hj
  · exact fun hi => ⟨i, List.mem_range.mpr hi, rfl⟩

theorem run_append (rule : JsString → RateLimitWindow) (now : Int) (events : List LimiterEvent)
    (event : LimiterEvent) : run rule now (events ++ [event]) = (run rule now events).step rule event := by
  simp [run]

theorem fill_succ (n : Nat) : fill (n + 1) = fill n ++ [.tryAcquireMany [JsString.ofNat n]] := by
  simp [fill, range_succ]

theorem run_fill (hrule : ∀ k, 0 < (rule k).requests ∧ 0 < (rule k).windowMs) {n : Nat}
    (hn : n ≤ maxKeys) :
    (run rule 0 (fill n)).limiter.hits.keys = (List.range n).map JsString.ofNat ∧
      (run rule 0 (fill n)).now = 0 ∧
      (0 < n → ∃ rest, (run rule 0 (fill n)).leases =
        ⟨[⟨JsString.ofNat 0, 1⟩], 0, false⟩ :: rest) := by
  induction n with
  | zero => exact ⟨rfl, rfl, fun h => absurd h (Nat.lt_irrefl 0)⟩
  | succ n ih =>
    obtain ⟨hkeys, hnow, hfirst⟩ := ih (by omega)
    have hfresh : JsString.ofNat n ∉ (run rule 0 (fill n)).limiter.hits.keys := by
      rw [hkeys, ofNat_mem_keys]
      omega
    have hlen : (run rule 0 (fill n)).limiter.hits.length = n := by
      have hlen := congrArg List.length hkeys
      simpa [JsMap.keys] using hlen
    have hstep : run rule 0 (fill (n + 1)) =
        (run rule 0 (fill n)).acquire rule [JsString.ofNat n] := by
      rw [fill_succ, run_append, step]
    rw [hstep, acquire_fresh _ (hrule _) hfresh]
    refine ⟨?_, hnow, ?_⟩
    · have hroom : ¬ maxKeys ≤ (run rule 0 (fill n)).limiter.hits.length := by omega
      unfold set
      rw [if_neg (by simp), if_neg (fun h => hroom h.2), JsMap.keys_set, if_neg hfresh, hkeys,
        range_succ, map_append]
      rfl
    · intro _
      cases n with
      | zero => exact ⟨[], rfl⟩
      | succ n =>
        obtain ⟨rest, hrest⟩ := hfirst (Nat.succ_pos n)
        exact ⟨rest ++ [_], by rw [hrest]; rfl⟩

theorem acquire_evicts {oldest : JsString} {others : List JsString}
    (hkeys : w.limiter.hits.keys = oldest :: others) (hfull : w.limiter.hits.length = maxKeys)
    (hfresh : k ∉ w.limiter.hits.keys) :
    oldest ∉ (w.acquire oncePerSecond [k]).limiter.hits.keys := by
  rw [acquire_fresh w (oncePerSecond_limited k) hfresh]
  have hnew : w.limiter.hits.has k = false := by
    rw [JsMap.has, JsMap.get_eq_none_iff.mpr hfresh]
    rfl
  have hne : oldest ≠ k := by
    rintro rfl
    rw [hkeys] at hfresh
    exact hfresh mem_cons_self
  unfold set
  rw [if_neg (by simp), if_pos ⟨hnew, by omega⟩]
  cases hhits : w.limiter.hits with
  | nil =>
    rw [hhits] at hkeys
    cases hkeys
  | cons first rest =>
    obtain ⟨key, live⟩ := first
    rw [hhits, JsMap.keys_cons] at hkeys
    have hkey : key = oldest := (List.cons.inj hkeys).1
    have hgone : oldest ∉ JsMap.keys (JsMap.delete key ((key, live) :: rest)) := by
      rw [← JsMap.get_eq_none_iff, JsMap.get_delete, if_pos hkey]
    rw [JsMap.keys_set]
    split
    · exact hgone
    · rw [mem_append, not_or, mem_singleton]
      exact ⟨hgone, hne⟩

theorem grantedIn_regranted {id : Nat} {rest : List Lease} (hfresh : k ∉ w.limiter.hits.keys)
    (hnow : w.now = 0) (hleases : w.leases = ⟨[⟨k, id⟩], 0, false⟩ :: rest) :
    2 ≤ (w.acquire oncePerSecond [k]).grantedIn k 0 1000 := by
  rw [acquire_fresh w (oncePerSecond_limited k) hfresh, hnow, hleases]
  unfold grantedIn outstanding
  rw [cons_append, flatMap_cons, flatMap_append, countP_append, countP_append]
  simp [hitsIn]
  omega

theorem acquire_fresh_frame (hfresh : k ∉ w.limiter.hits.keys) {first : Lease} {rest : List Lease}
    (hleases : w.leases = first :: rest) :
    (w.acquire oncePerSecond [k]).now = w.now ∧
      ∃ rest, (w.acquire oncePerSecond [k]).leases = first :: rest := by
  rw [acquire_fresh w (oncePerSecond_limited k) hfresh, hleases]
  exact ⟨rfl, _, rfl⟩

theorem run_fill_evicts :
    JsString.ofNat 0 ∉ (run oncePerSecond 0 (fill (maxKeys + 1))).limiter.hits.keys ∧
      (run oncePerSecond 0 (fill (maxKeys + 1))).now = 0 ∧
      ∃ rest, (run oncePerSecond 0 (fill (maxKeys + 1))).leases =
        ⟨[⟨JsString.ofNat 0, 1⟩], 0, false⟩ :: rest := by
  obtain ⟨hkeys, hnow, hfirst⟩ :=
    run_fill oncePerSecond_limited (Nat.le_refl maxKeys)
  obtain ⟨rest, hrest⟩ := hfirst (by decide)
  have hfresh : JsString.ofNat maxKeys ∉ (run oncePerSecond 0 (fill maxKeys)).limiter.hits.keys := by
    rw [hkeys, ofNat_mem_keys]
    exact Nat.lt_irrefl maxKeys
  have hlen : (run oncePerSecond 0 (fill maxKeys)).limiter.hits.length = maxKeys := by
    have hlen := congrArg List.length hkeys
    simpa [JsMap.keys] using hlen
  have hrange : ∀ n, 0 < n → List.range n = 0 :: List.range' 1 (n - 1) := by
    intro n hn
    cases n with
    | zero => omega
    | succ n => rw [range_eq_range', range'_succ, Nat.add_sub_cancel]
  rw [hrange maxKeys (by decide), map_cons] at hkeys
  obtain ⟨hnow', hleases⟩ := acquire_fresh_frame hfresh hrest
  rw [fill_succ, run_append, step]
  exact ⟨acquire_evicts hkeys hlen hfresh, hnow'.trans hnow, hleases⟩

/-- With more keys than the table holds, the oldest key is granted again in
its window.  So is a key that one call names twice. -/
theorem evicted_key_granted_again :
    ¬ (run oncePerSecond 0 (fill 5001 ++ [.tryAcquireMany [JsString.ofNat 0]])).grantedIn
        (JsString.ofNat 0) 0 1000 ≤ (oncePerSecond (JsString.ofNat 0)).requests ∧
      ¬ (run oncePerSecond 0 [.tryAcquireMany [js "k", js "k"]]).grantedIn (js "k") 0 1000 ≤
        (oncePerSecond (js "k")).requests := by
  refine ⟨?_, by decide⟩
  obtain ⟨hfresh, hnow, rest, hrest⟩ := run_fill_evicts
  have hfull : maxKeys + 1 = 5001 := rfl
  rw [hfull] at hfresh hnow hrest
  have htwo := grantedIn_regranted hfresh hnow hrest
  have hone : (oncePerSecond (JsString.ofNat 0)).requests = 1 := rfl
  rw [run_append, step, hone]
  omega

end Clients

end RedRouter.Services.SlidingWindow
