import RedRouter.Services.SlidingWindowBound

/-!
# Admission of several scopes

A call takes a hit in every scope that has a limit, or in none.  A refused call
tells how long to wait: every call before that time is refused as well, and the
one at that time is granted.

The hits of a key are in the order of time, and there are at most `requests` of
them (`Orderly`).  So a full scope has room again when its first live hit leaves
the window, and not before (`liveAt_full_iff`).

A scope without a positive limit is not limited, and no hit is recorded for it.
A hit that a call records can be lost in the same call: the write of a later
scope can evict it from a full table (`lostBy`).
-/

namespace RedRouter.Services.SlidingWindow

open List

/-! ## Exact writes -/

section Table

variable {hits : HitTable} {k key : JsString} {live : List Hit}

theorem tracked_set_self (hits : HitTable) (key : JsString) (live : List Hit) :
    tracked (set key live hits) key = live := by
  unfold set
  split
  · rename_i hempty
    rw [tracked_delete, if_pos rfl, length_eq_zero_iff.mp hempty]
  · split
    · split <;> rw [tracked_set, if_pos rfl]
    · rw [tracked_set, if_pos rfl]

theorem tracked_set_of_ne (hkey : key ≠ k) (hkept : ∀ e ∈ evictedBySet key live hits, e.1 ≠ k) :
    tracked (set key live hits) k = tracked hits k := by
  unfold evictedBySet at hkept
  unfold set
  split
  · rw [tracked_delete, if_neg hkey]
  · rename_i hsome
    rw [if_neg hsome] at hkept
    split
    · rename_i hfull
      rw [if_pos hfull] at hkept
      split
      · rw [tracked_set, if_neg hkey]
      · rename_i oldest found rest
        rw [tracked_set, if_neg hkey, tracked_delete, if_neg (hkept (oldest, found) rfl)]
    · rw [tracked_set, if_neg hkey]

theorem tracked_set_of_evicted (hkey : key ≠ k) {e : JsString × List Hit}
    (he : e ∈ evictedBySet key live hits) (hek : e.1 = k) : tracked (set key live hits) k = [] := by
  unfold evictedBySet at he
  unfold set
  split at he
  · exact absurd he (by simp)
  · rename_i hsome
    rw [if_neg hsome]
    split at he
    · rename_i hfull
      rw [if_pos hfull]
      cases hits with
      | nil => exact absurd he (by simp)
      | cons first rest =>
        cases Option.some.inj he
        rw [tracked_set, if_neg hkey, tracked_delete, if_pos hek]
    · exact absurd he (by simp)

theorem tracked_set_cases (hits : HitTable) (k key : JsString) (live : List Hit) :
    tracked (set key live hits) k = tracked hits k ∨ tracked (set key live hits) k = [] ∨
      (key = k ∧ tracked (set key live hits) k = live) := by
  by_cases hkey : key = k
  · subst hkey
    exact Or.inr (Or.inr ⟨rfl, tracked_set_self hits key live⟩)
  · by_cases hkept : ∀ e ∈ evictedBySet key live hits, e.1 ≠ k
    · exact Or.inl (tracked_set_of_ne hkey hkept)
    · obtain ⟨e, hkept⟩ := not_forall.mp hkept
      obtain ⟨he, hek⟩ := Classical.not_imp.mp hkept
      exact Or.inr (Or.inl (tracked_set_of_evicted hkey he (not_not.mp hek)))

theorem tracked_setAll_cases (hits : HitTable) (k : JsString) (updates : List (JsString × List Hit)) :
    tracked (setAll hits updates) k = tracked hits k ∨ tracked (setAll hits updates) k = [] ∨
      (k, tracked (setAll hits updates) k) ∈ updates := by
  induction updates generalizing hits with
  | nil => exact Or.inl rfl
  | cons u updates ih =>
    obtain ⟨key, live⟩ := u
    show tracked (setAll (set key live hits) updates) k = _ ∨ _ ∨ _
    rcases ih (set key live hits) with hsame | hnil | hwritten
    · rcases tracked_set_cases hits k key live with hkept | hgone | ⟨rfl, hnew⟩
      · exact Or.inl (hsame.trans hkept)
      · exact Or.inr (Or.inl (hsame.trans hgone))
      · refine Or.inr (Or.inr (mem_cons.mpr (Or.inl ?_)))
        rw [hnew] at hsame
        exact congrArg (Prod.mk key) hsame
    · exact Or.inr (Or.inl hnil)
    · exact Or.inr (Or.inr (mem_cons_of_mem _ hwritten))

variable {updates : List (JsString × List Hit)}

theorem tracked_setAll_of_not_mem (hk : k ∉ updates.map Prod.fst)
    (hkept : ∀ e ∈ evictedBy hits updates, e.1 ≠ k) :
    tracked (setAll hits updates) k = tracked hits k := by
  induction updates generalizing hits with
  | nil => rfl
  | cons u updates ih =>
    obtain ⟨key, live⟩ := u
    rw [map_cons, mem_cons, not_or] at hk
    have hfirst : ∀ e ∈ evictedBySet key live hits, e.1 ≠ k := by
      intro e he
      exact hkept e (mem_append_left _ (Option.mem_toList.mpr he))
    have hrest : tracked (setAll (set key live hits) updates) k = tracked (set key live hits) k :=
      ih hk.2 (fun e he => hkept e (mem_append_right _ he))
    exact hrest.trans (tracked_set_of_ne (Ne.symm hk.1) hfirst)

/-- The keys whose write is evicted by a later one. -/
def lostBy : HitTable → List (JsString × List Hit) → List JsString
  | _, [] => []
  | hits, (key, live) :: updates =>
      (if key ∈ (evictedBy (set key live hits) updates).map Prod.fst then [key] else []) ++
        lostBy (set key live hits) updates

theorem tracked_setAll_of_mem (hkeys : (updates.map Prod.fst).Nodup)
    (hwritten : (k, live) ∈ updates) (hkept : k ∉ lostBy hits updates) :
    tracked (setAll hits updates) k = live := by
  induction updates generalizing hits with
  | nil => exact absurd hwritten not_mem_nil
  | cons u updates ih =>
    obtain ⟨key, live'⟩ := u
    rw [map_cons, nodup_cons] at hkeys
    rw [lostBy, mem_append, not_or] at hkept
    rcases mem_cons.mp hwritten with heq | hlater
    · obtain ⟨rfl, rfl⟩ := Prod.mk.inj heq
      have hnot : k ∉ (evictedBy (set k live hits) updates).map Prod.fst := by
        intro hin
        rw [if_pos hin] at hkept
        exact hkept.1 (mem_singleton_self k)
      have hrest : tracked (setAll (set k live hits) updates) k = tracked (set k live hits) k :=
        tracked_setAll_of_not_mem hkeys.1 (fun e he heq => hnot (mem_map.mpr ⟨e, he, heq⟩))
      exact hrest.trans (tracked_set_self hits k live)
    · exact ih hkeys.2 hlater hkept.2

theorem evictedBy_of_tracked (hkeys : (updates.map Prod.fst).Nodup)
    (htracked : ∀ u ∈ updates, u.2 ≠ [] → tracked hits u.1 ≠ []) : evictedBy hits updates = [] := by
  induction updates generalizing hits with
  | nil => rfl
  | cons u updates ih =>
    obtain ⟨key, live⟩ := u
    rw [map_cons, nodup_cons] at hkeys
    have hfirst : evictedBySet key live hits = none := by
      unfold evictedBySet
      split
      · rfl
      · rename_i hsome
        rw [if_neg]
        rintro ⟨hnew, -⟩
        refine htracked (key, live) mem_cons_self (fun hnil => hsome ?_) ?_
        · rw [show live = [] from hnil]
          rfl
        · have hnone : hits.get key = none := by
            rw [← Option.not_isSome_iff_eq_none]
            exact fun hold => Bool.false_ne_true (hnew.symm.trans hold)
          show (hits.get key).getD [] = []
          rw [hnone]
          rfl
    have hrest : evictedBy (set key live hits) updates = [] := by
      refine ih hkeys.2 fun u hu hne => ?_
      have hother : key ≠ u.1 := fun heq => hkeys.1 (mem_map.mpr ⟨u, hu, heq.symm⟩)
      rw [tracked_set_of_ne hother (by rw [hfirst]; simp)]
      exact htracked u (mem_cons_of_mem _ hu) hne
    rw [evictedBy, hfirst, hrest]
    rfl

theorem lostBy_of_no_evicted (h : evictedBy hits updates = []) : lostBy hits updates = [] := by
  induction updates generalizing hits with
  | nil => rfl
  | cons u updates ih =>
    obtain ⟨-, hrest⟩ := append_eq_nil_iff.mp h
    rw [lostBy, hrest, ih hrest]
    rfl

end Table

/-! ## Hits in the order of time -/

def liveAt (t : Int) (windowMs : Nat) (hits : List Hit) : List Hit :=
  hits.filter fun hit => t - windowMs < hit.timestamp

theorem liveAt_liveAt {t t' : Int} (h : t ≤ t') (windowMs : Nat) (hits : List Hit) :
    liveAt t' windowMs (liveAt t windowMs hits) = liveAt t' windowMs hits := by
  unfold liveAt
  rw [filter_filter]
  refine filter_congr fun hit _ => ?_
  rw [← Bool.decide_and, decide_eq_decide]
  constructor
  · exact fun hboth => hboth.1
  · intro hlive
    exact ⟨hlive, by omega⟩

/-- A full window has room when its first live hit has left it, and not before. -/
theorem liveAt_full_iff {hits : List Hit} (hsorted : hits.Pairwise (fun a b => a.timestamp ≤ b.timestamp))
    {requests windowMs : Nat} (hle : hits.length ≤ requests) {first : Hit} {now t : Int}
    (hfirst : (liveAt now windowMs hits).head? = some first)
    (hfull : requests ≤ (liveAt now windowMs hits).length) (ht : now ≤ t) :
    (liveAt t windowMs hits).length < requests ↔ first.timestamp + windowMs ≤ t := by
  rw [← liveAt_liveAt ht]
  have hlive : (liveAt now windowMs hits).Pairwise (fun a b => a.timestamp ≤ b.timestamp) :=
    hsorted.filter _
  have hlength : (liveAt now windowMs hits).length ≤ requests :=
    (length_filter_le _ _).trans hle
  obtain ⟨rest, hrest⟩ := head?_eq_some_iff.mp hfirst
  rw [hrest] at hlive hlength hfull ⊢
  obtain ⟨hbefore, -⟩ := pairwise_cons.mp hlive
  constructor
  · intro hroom
    by_contra hnot
    have hall : liveAt t windowMs (first :: rest) = first :: rest := by
      refine filter_eq_self.mpr fun hit hhit => decide_eq_true ?_
      rcases mem_cons.mp hhit with rfl | hhit
      · omega
      · have hafter := hbefore hit hhit
        omega
    rw [hall] at hroom
    omega
  · intro hleft
    have hgone : liveAt t windowMs (first :: rest) = liveAt t windowMs rest :=
      filter_cons_of_neg (by simpa using by omega)
    have hshort : (liveAt t windowMs rest).length ≤ rest.length := length_filter_le _ _
    rw [hgone]
    rw [length_cons] at hlength
    omega

/-! ## Reachable states -/

def Limiter.reset (key : Option JsString) (l : Limiter) : Limiter :=
  match key with
  | none => { l with hits := [] }
  | some key => { l with hits := l.hits.delete key }

/-- What happens to a limiter. -/
inductive Activity where
  | event (event : LimiterEvent)
  | reset (key : Option JsString)
deriving DecidableEq

namespace Clients

variable {rule : JsString → RateLimitWindow} {w w' : Clients} {k : JsString} {keys : List JsString}

def act (rule : JsString → RateLimitWindow) (w : Clients) : Activity → Clients
  | .event event => w.step rule event
  | .reset key => { w with limiter := w.limiter.reset key }

/-- The hits of a key are in the order of time, and not more than its limit. -/
structure Orderly (rule : JsString → RateLimitWindow) (w : Clients) : Prop where
  sorted : ∀ k, (SlidingWindow.tracked w.limiter.hits k).Pairwise
    (fun a b => a.timestamp ≤ b.timestamp)
  past : ∀ k, ∀ hit ∈ SlidingWindow.tracked w.limiter.hits k, hit.timestamp ≤ w.now
  bounded : ∀ k, (SlidingWindow.tracked w.limiter.hits k).length ≤ (rule k).requests

theorem orderly_start (rule : JsString → RateLimitWindow) (now : Int) :
    Orderly rule { now := now } where
  sorted := fun _ => List.Pairwise.nil
  past := fun _ _ h => absurd h not_mem_nil
  bounded := fun _ => Nat.zero_le _

theorem Orderly.of_tracked (h : Orderly rule w) (hnow : w.now ≤ w'.now)
    (htracked : ∀ k, (SlidingWindow.tracked w'.limiter.hits k).Sublist
        (SlidingWindow.tracked w.limiter.hits k) ∨
      ∃ live id, SlidingWindow.tracked w'.limiter.hits k = live ++ [⟨id, w.now⟩] ∧
        live.Sublist (SlidingWindow.tracked w.limiter.hits k) ∧
        live.length < (rule k).requests) : Orderly rule w' := by
  refine ⟨fun k => ?_, fun k hit hhit => ?_, fun k => ?_⟩
  · rcases htracked k with hsub | ⟨live, id, hnew, hsub, -⟩
    · exact (h.sorted k).sublist hsub
    · rw [hnew, pairwise_append]
      refine ⟨(h.sorted k).sublist hsub, pairwise_singleton _ _, fun a ha b hb => ?_⟩
      rw [mem_singleton.mp hb]
      exact h.past k a (hsub.subset ha)
  · rcases htracked k with hsub | ⟨live, id, hnew, hsub, -⟩
    · exact Int.le_trans (h.past k hit (hsub.subset hhit)) hnow
    · rw [hnew] at hhit
      rcases mem_append.mp hhit with hold | hlast
      · exact Int.le_trans (h.past k hit (hsub.subset hold)) hnow
      · rw [mem_singleton.mp hlast]
        exact hnow
  · rcases htracked k with hsub | ⟨live, id, hnew, -, hroom⟩
    · exact hsub.length_le.trans (h.bounded k)
    · rw [hnew, length_append]
      exact hroom

theorem tracked_pruned (rule : JsString → RateLimitWindow) (w : Clients) (keys : List JsString)
    (k : JsString) :
    (SlidingWindow.tracked (setAll w.limiter.hits (w.pruned rule keys)) k).Sublist
      (SlidingWindow.tracked w.limiter.hits k) := by
  rcases tracked_setAll_cases w.limiter.hits k (w.pruned rule keys) with hsame | hnil | hwritten
  · rw [hsame]
  · rw [hnil]
    exact nil_sublist _
  · obtain ⟨entry, hentry, heq⟩ := mem_map.mp hwritten
    obtain ⟨rfl, hlive⟩ := Prod.mk.inj heq
    rw [← hlive, prepared_live hentry]
    exact filter_sublist

theorem Orderly.acquire (h : Orderly rule w) (keys : List JsString) :
    Orderly rule (w.acquire rule keys) := by
  rcases acquire_cases rule keys w with heq | heq | ⟨hroom, heq⟩
  · rw [heq]
    exact h
  · rw [heq]
    exact h.of_tracked (Int.le_refl _) fun k => Or.inl (tracked_pruned rule w keys k)
  · rw [heq]
    refine h.of_tracked (Int.le_refl _) fun k => ?_
    show (SlidingWindow.tracked
      (setAll (setAll w.limiter.hits (w.pruned rule keys)) (w.added rule keys)) k).Sublist _ ∨ _
    rcases tracked_setAll_cases (setAll w.limiter.hits (w.pruned rule keys)) k (w.added rule keys)
      with hsame | hnil | hwritten
    · rw [hsame]
      exact Or.inl (tracked_pruned rule w keys k)
    · rw [hnil]
      exact Or.inl (nil_sublist _)
    · obtain ⟨entry, hentry, n, hwrite, -⟩ := mem_recorded hwritten
      obtain ⟨rfl, hlive⟩ := Prod.mk.inj hwrite
      refine Or.inr ⟨entry.live, n, hlive, ?_, live_lt_requests hentry (hroom entry hentry)⟩
      rw [prepared_live hentry]
      exact filter_sublist

theorem tracked_removeHit (hits : HitTable) (entry : LeaseEntry) (k : JsString) :
    (SlidingWindow.tracked (Limiter.removeHit hits entry) k).Sublist
      (SlidingWindow.tracked hits k) := by
  unfold Limiter.removeHit
  split
  · exact List.Sublist.refl _
  · rename_i live hget
    dsimp only
    split
    · rw [SlidingWindow.tracked_set]
      split
      · rename_i hkey
        rw [← hkey, SlidingWindow.tracked, hget]
        exact filter_sublist
      · exact List.Sublist.refl _
    · rw [SlidingWindow.tracked_delete]
      split
      · exact nil_sublist _
      · exact List.Sublist.refl _

theorem tracked_removeHits (hits : HitTable) (entries : List LeaseEntry) (k : JsString) :
    (SlidingWindow.tracked (entries.foldl Limiter.removeHit hits) k).Sublist
      (SlidingWindow.tracked hits k) := by
  induction entries generalizing hits with
  | nil => exact List.Sublist.refl _
  | cons entry entries ih => exact (ih _).trans (tracked_removeHit hits entry k)

theorem Orderly.act (h : Orderly rule w) (activity : Activity) :
    Orderly rule (w.act rule activity) := by
  cases activity with
  | event event =>
    cases event with
    | tryAcquireMany keys => exact h.acquire keys
    | release i =>
      show Orderly rule (w.release i)
      unfold Clients.release
      split
      · exact h
      · rename_i lease _
        split
        · exact h
        · exact h.of_tracked (Int.le_refl _) fun k =>
            Or.inl (tracked_removeHits w.limiter.hits lease.entries k)
    | advance ms =>
      refine h.of_tracked ?_ fun k => Or.inl (List.Sublist.refl _)
      show w.now ≤ w.now + ms
      omega
  | reset key =>
    refine h.of_tracked (Int.le_refl _) fun k => Or.inl ?_
    cases key with
    | none => exact nil_sublist _
    | some key =>
      show (SlidingWindow.tracked (w.limiter.hits.delete key) k).Sublist _
      rw [SlidingWindow.tracked_delete]
      split
      · exact nil_sublist _
      · exact List.Sublist.refl _

/-! ## A call -/

def Limited (rule : JsString → RateLimitWindow) (k : JsString) : Prop :=
  0 < (rule k).requests ∧ 0 < (rule k).windowMs

instance (rule : JsString → RateLimitWindow) (k : JsString) : Decidable (Limited rule k) :=
  inferInstanceAs (Decidable (_ ∧ _))

def live (rule : JsString → RateLimitWindow) (w : Clients) (t : Int) (k : JsString) : List Hit :=
  liveAt t (rule k).windowMs (SlidingWindow.tracked w.limiter.hits k)

def HasRoom (rule : JsString → RateLimitWindow) (w : Clients) (t : Int) (k : JsString) : Prop :=
  (w.live rule t k).length < (rule k).requests

def result (rule : JsString → RateLimitWindow) (w : Clients) (keys : List JsString) :
    MultiAcquireResult :=
  (w.limiter.tryAcquireMany (scopes rule keys) w.now).1

/-- The keys of the call whose new hit a later scope of the call evicts. -/
def lost (rule : JsString → RateLimitWindow) (w : Clients) (keys : List JsString) : List JsString :=
  lostBy (setAll w.limiter.hits (w.pruned rule keys)) (w.added rule keys)

theorem mem_prepared {entry : Prepared} : entry ∈ w.prepared rule keys ↔
    ∃ k ∈ keys, Limited rule k ∧ prepare w.limiter.hits w.now ⟨k, rule k⟩ = entry := by
  unfold prepared
  rw [mem_map]
  constructor
  · rintro ⟨scope, hscope, rfl⟩
    obtain ⟨hmem, hactive⟩ := mem_filter.mp hscope
    obtain ⟨k, hk, rfl⟩ := mem_map.mp hmem
    exact ⟨k, hk, of_decide_eq_true hactive, rfl⟩
  · rintro ⟨k, hk, hlimited, rfl⟩
    exact ⟨⟨k, rule k⟩, mem_filter.mpr ⟨mem_map.mpr ⟨k, hk, rfl⟩, decide_eq_true hlimited⟩, rfl⟩

theorem prepare_mem (w : Clients) (hk : k ∈ keys) (hlimited : Limited rule k) :
    prepare w.limiter.hits w.now ⟨k, rule k⟩ ∈ w.prepared rule keys :=
  mem_prepared.mpr ⟨k, hk, hlimited, rfl⟩

theorem prepare_room (h : w.HasRoom rule w.now k) :
    (prepare w.limiter.hits w.now ⟨k, rule k⟩).retryAfterMs = 0 :=
  if_neg (Nat.not_le_of_lt h)

theorem prepare_full (hlimited : Limited rule k) (h : ¬ w.HasRoom rule w.now k) :
    ∃ first, (w.live rule w.now k).head? = some first ∧
      (prepare w.limiter.hits w.now ⟨k, rule k⟩).retryAfterMs =
        first.timestamp + (rule k).windowMs - w.now ∧
      0 < (prepare w.limiter.hits w.now ⟨k, rule k⟩).retryAfterMs := by
  have hfull : (rule k).requests ≤ (w.live rule w.now k).length := Nat.le_of_not_lt h
  cases hlive : w.live rule w.now k with
  | nil =>
    rw [hlive, length_nil] at hfull
    exact absurd hlimited.1 (Nat.not_lt_of_le hfull)
  | cons first rest =>
    have hmem : first ∈ w.live rule w.now k := hlive ▸ mem_cons_self
    have hrecent : w.now - (rule k).windowMs < first.timestamp :=
      of_decide_eq_true (mem_filter.mp hmem).2
    have hretry : (prepare w.limiter.hits w.now ⟨k, rule k⟩).retryAfterMs =
        max 0 (((w.live rule w.now k).head?.map Hit.timestamp).getD 0 + (rule k).windowMs - w.now) :=
      if_pos hfull
    rw [hlive] at hretry
    have hfirst : (((first :: rest).head?.map Hit.timestamp).getD 0 : Int) = first.timestamp := rfl
    refine ⟨first, rfl, ?_, ?_⟩
    all_goals omega

def longest (rule : JsString → RateLimitWindow) (w : Clients) (keys : List JsString) : Int :=
  (w.prepared rule keys).foldl (fun m entry => max m entry.retryAfterMs) 0

theorem longest_cases (entries : List Prepared) (start : Int) :
    entries.foldl (fun m entry => max m entry.retryAfterMs) start = start ∨ ∃ entry ∈ entries,
        entry.retryAfterMs = entries.foldl (fun m entry => max m entry.retryAfterMs) start := by
  induction entries generalizing start with
  | nil => exact Or.inl rfl
  | cons entry entries ih =>
    rw [foldl_cons]
    rcases ih (max start entry.retryAfterMs) with hstart | ⟨other, hother, heq⟩
    · rw [hstart]
      by_cases hle : start ≤ entry.retryAfterMs
      · exact Or.inr ⟨entry, mem_cons_self, (Int.max_eq_right hle).symm⟩
      · exact Or.inl (Int.max_eq_left (Int.le_of_lt (Int.not_le.mp hle)))
    · exact Or.inr ⟨other, mem_cons_of_mem _ hother, heq⟩

theorem longest_nonpos_iff :
    ¬ 0 < w.longest rule keys ↔ ∀ k ∈ keys, Limited rule k → w.HasRoom rule w.now k := by
  constructor
  · intro hle k hk hlimited
    by_contra hfull
    obtain ⟨first, -, -, hpos⟩ := prepare_full hlimited hfull
    have hmax := (le_foldl_max (w.prepared rule keys) 0).2 _ (prepare_mem w hk hlimited)
    exact hle (Int.lt_of_lt_of_le hpos hmax)
  · intro hroom hpos
    rcases longest_cases (w.prepared rule keys) 0 with hzero | ⟨entry, hentry, heq⟩
    · exact absurd hzero (Int.ne_of_gt hpos)
    · obtain ⟨k, hk, hlimited, rfl⟩ := mem_prepared.mp hentry
      rw [prepare_room (hroom k hk hlimited)] at heq
      exact absurd heq (Int.ne_of_lt hpos)

theorem result_eq (rule : JsString → RateLimitWindow) (w : Clients) (keys : List JsString) :
    (w.result rule keys).allowed = !decide (0 < w.longest rule keys) ∧
      (0 < w.longest rule keys → (w.result rule keys).retryAfterMs = w.longest rule keys ∧
        w.acquire rule keys =
          { w with limiter :=
              { w.limiter with hits := setAll w.limiter.hits (w.pruned rule keys) } }) ∧
      (¬ 0 < w.longest rule keys → (w.prepared rule keys).length ≠ 0 →
        w.acquire rule keys = w.grant rule keys) := by
  have hlength : (w.prepared rule keys).length = (activeScopes (scopes rule keys)).length :=
    length_map _
  unfold result acquire Limiter.tryAcquireMany
  dsimp only
  split
  · rename_i hnone
    have hnil : w.prepared rule keys = [] := length_eq_zero_iff.mp (hlength.trans hnone)
    have hzero : ¬ 0 < w.longest rule keys := by
      rw [longest, hnil]
      exact Int.lt_irrefl 0
    exact ⟨by rw [decide_eq_false hzero]; rfl, fun h => absurd h hzero,
      fun _ h => absurd (hlength.trans hnone) h⟩
  · have hlongest : ((activeScopes (scopes rule keys)).map (prepare w.limiter.hits w.now)).foldl
        (fun m entry => max m entry.retryAfterMs) 0 = w.longest rule keys := rfl
    rw [hlongest]
    split
    · rename_i hpos
      refine ⟨by rw [decide_eq_true hpos]; rfl, fun _ => ⟨rfl, ?_⟩, fun h => absurd hpos h⟩
      show Clients.mk _ (w.leases ++ []) _ = _
      rw [append_nil]
      rfl
    · rename_i hnone
      exact ⟨by rw [decide_eq_false hnone]; rfl, fun h => absurd h hnone, fun _ _ => rfl⟩

theorem allowed_iff : (w.result rule keys).allowed = true ↔
      ∀ k ∈ keys, Limited rule k → w.HasRoom rule w.now k := by
  rw [(result_eq rule w keys).1, Bool.not_eq_true', decide_eq_false_iff_not, longest_nonpos_iff]

/-! ## Granted calls -/

theorem pruned_keys (rule : JsString → RateLimitWindow) (w : Clients) (keys : List JsString) :
    (w.pruned rule keys).map Prod.fst =
      (w.prepared rule keys).map fun entry => entry.scope.key := by
  unfold pruned
  rw [map_map]
  rfl

theorem recorded_keys (now : Int) (id : Nat) (prepared : List Prepared) :
    (recorded now id prepared).map Prod.fst = prepared.map fun entry => entry.scope.key := by
  induction prepared generalizing id with
  | nil => rfl
  | cons entry prepared ih =>
    rw [recorded, map_cons, map_cons, ih]

theorem mem_added_of_mem (now : Int) (id : Nat) {prepared : List Prepared} {entry : Prepared}
    (h : entry ∈ prepared) :
    ∃ n, (entry.scope.key, entry.live ++ [⟨n, now⟩]) ∈ recorded now id prepared := by
  induction prepared generalizing id with
  | nil => exact absurd h not_mem_nil
  | cons first prepared ih =>
    rcases mem_cons.mp h with rfl | h
    · exact ⟨id, mem_cons_self⟩
    · obtain ⟨n, hn⟩ := ih (id + 1) h
      exact ⟨n, mem_cons_of_mem _ hn⟩

theorem recorded_of_allowed (hkeys : keys.Nodup) (hallowed : (w.result rule keys).allowed = true)
    (hk : k ∈ keys) (hlimited : Limited rule k) (hkept : k ∉ w.lost rule keys) :
    ∃ id, SlidingWindow.tracked (w.acquire rule keys).limiter.hits k =
      w.live rule w.now k ++ [⟨id, w.now⟩] := by
  have hzero := longest_nonpos_iff.mpr (allowed_iff.mp hallowed)
  have hmem := prepare_mem w hk hlimited
  have hsome : (w.prepared rule keys).length ≠ 0 := by
    have hpos := length_pos_of_mem hmem
    omega
  rw [(result_eq rule w keys).2.2 hzero hsome]
  obtain ⟨id, hid⟩ := mem_added_of_mem w.now w.limiter.nextHitId hmem
  refine ⟨id, tracked_setAll_of_mem ?_ hid hkept⟩
  unfold added
  rw [recorded_keys]
  exact prepared_keys_nodup hkeys

/-! ## Refused calls -/

/-- A refused call drops hits that have left their windows, and nothing else. -/
theorem tracked_of_refused (hkeys : keys.Nodup) (hpos : 0 < w.longest rule keys) (k : JsString) :
    SlidingWindow.tracked (w.acquire rule keys).limiter.hits k =
      if k ∈ keys ∧ Limited rule k then w.live rule w.now k
      else SlidingWindow.tracked w.limiter.hits k := by
  have hnodup : ((w.pruned rule keys).map Prod.fst).Nodup := by
    rw [pruned_keys]
    exact prepared_keys_nodup hkeys
  have hnone : evictedBy w.limiter.hits (w.pruned rule keys) = [] := by
    refine evictedBy_of_tracked hnodup fun u hu hne hnil => hne ?_
    obtain ⟨entry, hentry, rfl⟩ := mem_map.mp hu
    have hlive := prepared_live hentry
    rw [show SlidingWindow.tracked w.limiter.hits entry.scope.key = [] from hnil] at hlive
    exact hlive
  rw [((result_eq rule w keys).2.1 hpos).2]
  split
  · rename_i hk
    have hmem := prepare_mem w hk.1 hk.2
    refine tracked_setAll_of_mem hnodup (mem_map.mpr ⟨_, hmem, rfl⟩) ?_
    rw [lostBy_of_no_evicted hnone]
    exact not_mem_nil
  · rename_i hk
    refine tracked_setAll_of_not_mem ?_ ?_
    · intro hmem
      rw [pruned_keys] at hmem
      obtain ⟨entry, hentry, hkey⟩ := mem_map.mp hmem
      obtain ⟨k', hmem', hlimited, rfl⟩ := mem_prepared.mp hentry
      subst hkey
      exact hk ⟨hmem', hlimited⟩
    · rw [hnone]
      exact fun e he => absurd he not_mem_nil

/-- A scope has room at a later time unless its first live hit is still in the window. -/
theorem Orderly.room_at (h : Orderly rule w) (hlimited : Limited rule k) {t : Int} (ht : w.now ≤ t) :
    HasRoom rule w t k ↔ w.now + (prepare w.limiter.hits w.now ⟨k, rule k⟩).retryAfterMs ≤ t := by
  by_cases hroom : w.HasRoom rule w.now k
  · rw [prepare_room hroom]
    refine iff_of_true ?_ (by omega)
    have hless : (w.live rule t k).length ≤ (w.live rule w.now k).length := by
      unfold live
      rw [← liveAt_liveAt ht]
      exact length_filter_le _ _
    exact Nat.lt_of_le_of_lt hless hroom
  · obtain ⟨first, hfirst, hretry, -⟩ := prepare_full hlimited hroom
    have hleft := liveAt_full_iff (h.sorted k) (h.bounded k) hfirst (Nat.le_of_not_lt hroom) ht
    refine Iff.trans hleft ?_
    constructor
    all_goals
      intro hle
      omega

/-- All scopes have room when the longest wait is over, and not before. -/
theorem Orderly.room_iff (h : Orderly rule w) (hpos : 0 < w.longest rule keys) {t : Int}
    (ht : w.now ≤ t) :
    (∀ k ∈ keys, Limited rule k → HasRoom rule w t k) ↔ w.now + w.longest rule keys ≤ t := by
  constructor
  · intro hroom
    rcases longest_cases (w.prepared rule keys) 0 with hzero | ⟨entry, hentry, heq⟩
    · exact absurd hzero (Int.ne_of_gt hpos)
    · obtain ⟨k, hk, hlimited, rfl⟩ := mem_prepared.mp hentry
      have hover := (h.room_at hlimited ht).mp (hroom k hk hlimited)
      rw [heq] at hover
      exact hover
  · intro hover k hk hlimited
    refine (h.room_at hlimited ht).mpr ?_
    have hmax := (le_foldl_max (w.prepared rule keys) 0).2 _ (prepare_mem w hk hlimited)
    have hlongest : (w.prepared rule keys).foldl (fun m entry => max m entry.retryAfterMs) 0 =
      w.longest rule keys := rfl
    omega

/-- Nothing happens but that time goes on, and that the call is made again before a time. -/
def Retries (keys : List JsString) (resumesAt : Int) (w : Clients) : LimiterEvent → Prop
  | .tryAcquireMany keys' => keys' = keys ∧ w.now < resumesAt
  | .release _ => False
  | .advance _ => True

/-- The same hits are in the windows of the scopes, now and later. -/
structure SameLive (rule : JsString → RateLimitWindow) (keys : List JsString) (w w' : Clients) :
    Prop where
  later : w.now ≤ w'.now
  live : ∀ k ∈ keys, Limited rule k → ∀ t, w'.now ≤ t → w'.live rule t k = w.live rule t k

theorem SameLive.allowed_iff (h : SameLive rule keys w w') : (w'.result rule keys).allowed = true ↔
      ∀ k ∈ keys, Limited rule k → HasRoom rule w w'.now k := by
  rw [Clients.allowed_iff]
  refine forall_congr' fun k => forall_congr' fun hk => forall_congr' fun hlimited => ?_
  unfold HasRoom
  rw [h.live k hk hlimited w'.now (Int.le_refl _)]

theorem sameLive_of_refused (hkeys : keys.Nodup) (h : SameLive rule keys w w')
    (hrefused : (w'.result rule keys).allowed = false) :
    SameLive rule keys w (w'.acquire rule keys) := by
  have hpos : 0 < w'.longest rule keys := by
    by_contra hnot
    rw [(result_eq rule w' keys).1, decide_eq_false hnot] at hrefused
    cases hrefused
  have hnow : (w'.acquire rule keys).now = w'.now := by
    rw [((result_eq rule w' keys).2.1 hpos).2]
  refine ⟨hnow ▸ h.later, fun k hk hlimited t ht => ?_⟩
  rw [← h.live k hk hlimited t ht]
  show liveAt t _ (SlidingWindow.tracked (w'.acquire rule keys).limiter.hits k) = _
  rw [tracked_of_refused hkeys hpos, if_pos ⟨hk, hlimited⟩]
  exact liveAt_liveAt ht _ _

theorem Orderly.retries (h : Orderly rule w) (hkeys : keys.Nodup) (hpos : 0 < w.longest rule keys)
    {events : List LimiterEvent} (hw : SameLive rule keys w w')
    (hevents : Runs.Along (step rule) (Retries keys (w.now + w.longest rule keys)) w' events) :
    SameLive rule keys w (events.foldl (step rule) w') := by
  refine Runs.along_invariant (SameLive rule keys w) (fun s e hs he => ?_) hw hevents
  cases e with
  | tryAcquireMany keys' =>
    obtain ⟨rfl, hbefore⟩ := he
    refine sameLive_of_refused hkeys hs ?_
    rw [← Bool.not_eq_true, hs.allowed_iff, h.room_iff hpos hs.later]
    exact Int.not_le.mpr hbefore
  | release i => exact absurd he id
  | advance ms =>
    have hlater : s.now ≤ s.now + ms := by omega
    exact ⟨Int.le_trans hs.later hlater,
      fun k hk hlimited t ht => hs.live k hk hlimited t (Int.le_trans hlater ht)⟩

/-! ## All or nothing -/

/-- A call records a hit in every scope with a limit or in none, and its answer tells when the
call is granted next. -/
structure AllOrNothing (rule : JsString → RateLimitWindow) (w : Clients) (keys : List JsString) :
    Prop where
  allowed : (w.result rule keys).allowed = true ↔
    ∀ k ∈ keys, Limited rule k → HasRoom rule w w.now k
  recorded : (w.result rule keys).allowed = true → ∀ k ∈ keys, Limited rule k →
    k ∉ w.lost rule keys → ∃ id, SlidingWindow.tracked (w.acquire rule keys).limiter.hits k =
      w.live rule w.now k ++ [⟨id, w.now⟩]
  refused : (w.result rule keys).allowed = false → ∀ k,
    SlidingWindow.tracked (w.acquire rule keys).limiter.hits k =
      if k ∈ keys ∧ Limited rule k then w.live rule w.now k
      else SlidingWindow.tracked w.limiter.hits k
  retry : (w.result rule keys).allowed = false → ∀ events : List LimiterEvent,
    Runs.Along (step rule) (Retries keys (w.now + (w.result rule keys).retryAfterMs))
      (w.acquire rule keys) events →
    let later := events.foldl (step rule) (w.acquire rule keys)
    (later.now < w.now + (w.result rule keys).retryAfterMs →
        (later.result rule keys).allowed = false) ∧
      (later.now = w.now + (w.result rule keys).retryAfterMs →
        (later.result rule keys).allowed = true)

theorem Orderly.allOrNothing (h : Orderly rule w) (hkeys : keys.Nodup) :
    AllOrNothing rule w keys := by
  have hlongest : (w.result rule keys).allowed = false → 0 < w.longest rule keys := by
    intro hrefused
    by_contra hnot
    rw [(result_eq rule w keys).1, decide_eq_false hnot] at hrefused
    cases hrefused
  refine ⟨allowed_iff, fun hallowed k hk => recorded_of_allowed hkeys hallowed hk,
    fun hrefused => tracked_of_refused hkeys (hlongest hrefused), fun hrefused events hevents => ?_⟩
  have hpos := hlongest hrefused
  have hretry := ((result_eq rule w keys).2.1 hpos).1
  rw [hretry] at hevents ⊢
  have hfirst : SameLive rule keys w (w.acquire rule keys) :=
    sameLive_of_refused hkeys ⟨Int.le_refl _, fun _ _ _ _ _ => rfl⟩ hrefused
  have hsame := h.retries hkeys hpos hfirst hevents
  refine ⟨fun hbefore => ?_, fun hthen => ?_⟩
  · rw [← Bool.not_eq_true, hsame.allowed_iff, h.room_iff hpos hsame.later]
    exact Int.not_le.mpr hbefore
  · rw [hsame.allowed_iff, h.room_iff hpos hsame.later]
    exact Int.le_of_eq hthen.symm

theorem orderly_run (rule : JsString → RateLimitWindow) (now : Int) (activities : List Activity) :
    Orderly rule (activities.foldl (act rule) { now := now }) :=
  Runs.foldl_invariant (Orderly rule) (fun _ activity h => h.act activity) (orderly_start rule now)
    activities

/-- In every state that a run reaches, a call for different keys is all or nothing. -/
theorem tryAcquireMany_all_or_nothing (rule : JsString → RateLimitWindow) (now : Int)
    (activities : List Activity) {keys : List JsString} (hkeys : keys.Nodup) :
    AllOrNothing rule (activities.foldl (act rule) { now := now }) keys :=
  (orderly_run rule now activities).allOrNothing hkeys

/-- A scope is full in the call, and has room when its hit has left the window. -/
theorem tryAcquireMany_all_or_nothing_full : AllOrNothing oncePerSecond
      ([Activity.event (.tryAcquireMany [js "a"]), .event (.advance 250)].foldl (act oncePerSecond)
        { now := 0 }) [js "a", js "b"] :=
  tryAcquireMany_all_or_nothing oncePerSecond 0 _ (by decide)

/-! ## What a call does not record -/

/-- Two requests a second, for every key. -/
def twicePerSecond (_ : JsString) : RateLimitWindow := ⟨2, 1000⟩

theorem twicePerSecond_limited (k : JsString) :
    0 < (twicePerSecond k).requests ∧ 0 < (twicePerSecond k).windowMs := by
  show 0 < 2 ∧ 0 < 1000
  decide

theorem tracked_fill {n : Nat} (hn : n < maxKeys) :
    SlidingWindow.tracked (run twicePerSecond 0 (fill (n + 1))).limiter.hits (JsString.ofNat 0) =
      [⟨1, 0⟩] := by
  induction n with
  | zero => decide
  | succ n ih =>
    have hroom : n + 1 ≤ maxKeys := by omega
    obtain ⟨hkeys, -, -⟩ := run_fill twicePerSecond_limited hroom
    have hfresh : JsString.ofNat (n + 1) ∉
        (run twicePerSecond 0 (fill (n + 1))).limiter.hits.keys := by
      rw [hkeys, ofNat_mem_keys]
      omega
    have hlength : (run twicePerSecond 0 (fill (n + 1))).limiter.hits.length = n + 1 := by
      have hlength := congrArg List.length hkeys
      simpa [JsMap.keys] using hlength
    have hother : JsString.ofNat (n + 1) ≠ JsString.ofNat 0 :=
      fun heq => absurd (JsString.ofNat_inj heq) (Nat.succ_ne_zero n)
    rw [fill_succ, run_append, step, acquire_fresh _ (twicePerSecond_limited _) hfresh]
    rw [tracked_set_of_ne hother, ih (by omega)]
    unfold evictedBySet
    rw [if_neg (by simp), if_neg (by omega)]
    exact fun e he => absurd he (by simp)

/-- A call for the oldest key of a full table and for a new one.  The hit of the new key evicts
the hit that the call recorded for the oldest one. -/
theorem acquire_evicts_own {oldest fresh : JsString} {first : Hit} {rest : HitTable}
    (hhits : w.limiter.hits = (oldest, [first]) :: rest) (hfull : w.limiter.hits.length = maxKeys)
    (hfresh : fresh ∉ w.limiter.hits.keys) (hrecent : w.now - 1000 < first.timestamp) :
    (w.result twicePerSecond [oldest, fresh]).allowed = true ∧
      SlidingWindow.tracked (w.acquire twicePerSecond [oldest, fresh]).limiter.hits oldest = [] := by
  have hne : fresh ≠ oldest := by
    rintro rfl
    rw [hhits] at hfresh
    exact hfresh mem_cons_self
  have hnone : w.limiter.hits.get fresh = none := JsMap.get_eq_none_iff.mpr hfresh
  have holdest : SlidingWindow.tracked w.limiter.hits oldest = [first] := by
    rw [hhits, SlidingWindow.tracked, JsMap.get, if_pos rfl]
    rfl
  have hlive : w.live twicePerSecond w.now oldest = [first] := by
    unfold live
    rw [holdest]
    exact filter_cons_of_pos (decide_eq_true hrecent)
  have hempty : w.live twicePerSecond w.now fresh = [] := by
    unfold live SlidingWindow.tracked
    rw [hnone]
    rfl
  have hroom : ∀ k ∈ [oldest, fresh], Limited twicePerSecond k →
      w.HasRoom twicePerSecond w.now k := by
    intro k hk _
    rcases mem_cons.mp hk with rfl | hk
    · unfold HasRoom
      rw [hlive]
      exact Nat.one_lt_two
    · rw [mem_singleton.mp hk]
      unfold HasRoom
      rw [hempty]
      exact Nat.zero_lt_two
  have hprepared : w.prepared twicePerSecond [oldest, fresh] =
      [prepare w.limiter.hits w.now ⟨oldest, twicePerSecond oldest⟩,
        prepare w.limiter.hits w.now ⟨fresh, twicePerSecond fresh⟩] := rfl
  have hpruned : w.pruned twicePerSecond [oldest, fresh] = [(oldest, [first]), (fresh, [])] := by
    unfold pruned
    show [(oldest, w.live twicePerSecond w.now oldest), (fresh, w.live twicePerSecond w.now fresh)] = _
    rw [hlive, hempty]
  have hadded : w.added twicePerSecond [oldest, fresh] =
      [(oldest, [first, ⟨w.limiter.nextHitId, w.now⟩]),
        (fresh, [⟨w.limiter.nextHitId + 1, w.now⟩])] := by
    unfold added
    show [(oldest, w.live twicePerSecond w.now oldest ++ [_]),
      (fresh, w.live twicePerSecond w.now fresh ++ [_])] = _
    rw [hlive, hempty]
    rfl
  -- the writes of the known key leave the table as it is
  have hwrite : ∀ l : List Hit, l.length ≠ 0 → ∀ l' : List Hit,
      set oldest l ((oldest, l') :: rest) = (oldest, l) :: rest := by
    intro l hl l'
    have hhas : JsMap.has oldest ((oldest, l') :: rest) = true := by
      rw [JsMap.has, JsMap.get, if_pos rfl]
      rfl
    unfold set
    rw [if_neg hl, if_neg (fun h => Bool.false_ne_true (h.1.symm.trans hhas)), JsMap.set, if_pos rfl]
  have hdelete : set fresh [] ((oldest, [first]) :: rest) = (oldest, [first]) :: rest := by
    rw [hhits] at hfresh
    exact JsMap.delete_of_not_mem hfresh
  refine ⟨allowed_iff.mpr hroom, ?_⟩
  rw [(result_eq twicePerSecond w [oldest, fresh]).2.2 (longest_nonpos_iff.mpr hroom)
    (by rw [hprepared]; exact Nat.succ_ne_zero _)]
  unfold grant
  rw [hpruned, hadded, hhits]
  show SlidingWindow.tracked (set fresh [_] (set oldest [first, _]
    (set fresh [] (set oldest [first] ((oldest, [first]) :: rest))))) oldest = []
  rw [hwrite _ (by simp), hdelete, hwrite _ (by simp)]
  refine tracked_set_of_evicted hne (e := (oldest, [first, ⟨w.limiter.nextHitId, w.now⟩])) ?_ rfl
  unfold evictedBySet
  have hnew : JsMap.has fresh ((oldest, [first, ⟨w.limiter.nextHitId, w.now⟩]) :: rest) = false := by
    rw [hhits, JsMap.get, if_neg (Ne.symm hne)] at hnone
    rw [JsMap.has, JsMap.get, if_neg (Ne.symm hne), hnone]
    rfl
  rw [hhits] at hfull
  rw [if_neg (by simp), if_pos ⟨hnew, Nat.le_of_eq hfull.symm⟩]
  rfl

/-- A key without a limit is granted without room.  And a call for the oldest key of a full
table and for a new one is granted and has no hit of the oldest key afterwards. -/
theorem not_recorded_in_every_scope :
    (result (fun _ => ⟨0, 1000⟩) { now := 0 } [js "k"]).allowed = true ∧
      ¬ HasRoom (fun _ => ⟨0, 1000⟩) { now := 0 } 0 (js "k") ∧
      (result twicePerSecond (run twicePerSecond 0 (fill 5000))
        [JsString.ofNat 0, JsString.ofNat 5000]).allowed = true ∧
      SlidingWindow.tracked ((run twicePerSecond 0 (fill 5000)).acquire twicePerSecond
        [JsString.ofNat 0, JsString.ofNat 5000]).limiter.hits (JsString.ofNat 0) = [] := by
  refine ⟨by decide, Nat.not_lt_zero _, ?_⟩
  have hmax : maxKeys = 5000 := rfl
  obtain ⟨hkeys, hnow, -⟩ := run_fill twicePerSecond_limited (Nat.le_refl maxKeys)
  have htracked := tracked_fill (n := 4999) (by decide)
  rw [hmax] at hkeys hnow
  generalize run twicePerSecond 0 (fill 5000) = w at *
  have hfresh : JsString.ofNat 5000 ∉ w.limiter.hits.keys := by
    rw [hkeys, ofNat_mem_keys]
    exact Nat.lt_irrefl 5000
  have hlength : w.limiter.hits.length = maxKeys := by
    have hlength := congrArg List.length hkeys
    simpa [JsMap.keys, hmax] using hlength
  cases hhits : w.limiter.hits with
  | nil =>
    rw [hhits] at hlength
    cases hlength
  | cons entry rest =>
    obtain ⟨key, live⟩ := entry
    have hkey : key = JsString.ofNat 0 := by
      rw [hhits, JsMap.keys_cons, range_eq_range', range'_succ, map_cons] at hkeys
      exact (List.cons.inj hkeys).1
    subst hkey
    have hlive : live = [⟨1, 0⟩] := by
      rw [hhits, SlidingWindow.tracked, JsMap.get, if_pos rfl] at htracked
      exact htracked
    subst hlive
    refine acquire_evicts_own hhits hlength hfresh ?_
    rw [hnow]
    decide

end Clients

end RedRouter.Services.SlidingWindow
