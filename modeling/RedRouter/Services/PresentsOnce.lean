import RedRouter.Services.TokenRefresh

/-!
# Which tokens are presented

A token whose rotation is recorded should not be presented while the rotation
map keeps it.  A refresh looks its caller's token up and no other function of
the lane runs until it presents one, so the caller's own token is safe.  The
token of the row is not looked up: `getAccessToken_presents_once` says that it
is the only way to present a consumed token.
-/

namespace RedRouter.Services

open List Runs Places RefreshLanes

namespace RefreshLanes

theorem running_step (laneMaxMs : Nat) (s : RefreshLanes) {e : LaneEvent} {j : Nat}
    {c : RefreshCall} (hc : s.calls[j]? = some c) (hrun : c.fnRunning = true)
    (he : ∀ outcome, e ≠ .settle j outcome) :
    ∃ c', (s.step laneMaxMs e).calls[j]? = some c' ∧ c'.fnRunning = true := by
  have hkeeps : ∀ (i : Nat) (f : RefreshCall → RefreshCall),
      (∀ d, d.fnRunning = true → (f d).fnRunning = true) →
        ∃ c', (s.calls.modify i f)[j]? = some c' ∧ c'.fnRunning = true := by
    intro i f hf
    obtain ⟨c', hc', ⟨-, rfl⟩ | ⟨-, rfl⟩⟩ := modify_keeps (i := i) (f := f) hc
    · exact ⟨f c, hc', hf c hrun⟩
    · exact ⟨c', hc', hrun⟩
  cases e with
  | call provider =>
    show ∃ c', (s.call provider).calls[j]? = some c' ∧ _
    unfold call
    split <;> exact ⟨c, append_old hc, hrun⟩
  | enter i =>
    show ∃ c', (s.enter laneMaxMs i).calls[j]? = some c' ∧ _
    unfold enter
    split
    · exact ⟨c, hc, hrun⟩
    · split
      · exact hkeeps i _ fun _ _ => rfl
      · exact ⟨c, hc, hrun⟩
  | settle i outcome =>
    show ∃ c', (s.settle i outcome).calls[j]? = some c' ∧ _
    have hij : i ≠ j := fun h => he outcome (by rw [h])
    unfold settle
    split
    · exact ⟨c, hc, hrun⟩
    · split
      · exact ⟨c, modify_other hc hij, hrun⟩
      · exact ⟨c, hc, hrun⟩
  | laneTimeout i =>
    show ∃ c', (s.laneTimeout i).calls[j]? = some c' ∧ _
    unfold laneTimeout
    split
    · split
      · exact hkeeps i _ fun _ h => h
      · exact ⟨c, hc, hrun⟩
    · exact ⟨c, hc, hrun⟩
  | finish i spacing =>
    show ∃ c', (s.finish i spacing).calls[j]? = some c' ∧ _
    unfold finish
    split
    · split <;> exact hkeeps i _ fun _ h => h
    · exact ⟨c, hc, hrun⟩
  | release i =>
    show ∃ c', (s.release i).calls[j]? = some c' ∧ _
    unfold release
    split
    · split
      · exact hkeeps i _ fun _ h => h
      · exact ⟨c, hc, hrun⟩
    · exact ⟨c, hc, hrun⟩
  | settleTail i =>
    show ∃ c', (s.settleTail i).calls[j]? = some c' ∧ _
    unfold settleTail
    split
    · exact ⟨c, hc, hrun⟩
    · split
      · exact hkeeps i _ fun _ h => h
      · exact ⟨c, hc, hrun⟩
  | advance ms => exact ⟨c, hc, hrun⟩

theorem length_step (laneMaxMs : Nat) (s : RefreshLanes) {e : LaneEvent}
    (he : ∀ provider, e ≠ .call provider) :
    (s.step laneMaxMs e).calls.length = s.calls.length := by
  obtain ⟨i, f, hcalls, -, -⟩ := step_moves laneMaxMs s he
  rw [hcalls, length_modify]

theorem now_step (laneMaxMs : Nat) (s : RefreshLanes) (e : LaneEvent) :
    s.now ≤ (s.step laneMaxMs e).now := by
  cases e with
  | advance ms => exact Nat.le_add_right _ _
  | _ =>
    unfold step
    simp only [call, enter, settle, laneTimeout, finish, release, settleTail]
    repeat' split
    all_goals exact le_refl _

end RefreshLanes

namespace TokenRefresh

variable {Token : Type} [DecidableEq Token]

/-- A token that was recorded as consumed is not presented while the rotation
map keeps it. -/
def Respects : TokenUse Token → TokenUse Token → Prop
  | .recorded _ token time, .presented _ token' time' =>
      token = token' → time + rotationMapTtlMs ≤ time'
  | _, _ => True

def PresentsOnce (s : TokenRefresh Token) : Prop := s.uses.Pairwise Respects

/-- The function of the refresh is under way. -/
def Active (r : Refresh Token) : Prop := r.phase = .rereading ∨ r.phase = .presenting

structure RefreshInv (group : JsString) (s : TokenRefresh Token) : Prop where
  lanes : LaneInv s.lanes
  inGroup : ∀ (i : Nat) (c : RefreshCall), s.lanes.calls[i]? = some c → c.group = some group
  paired : s.lanes.calls.length = s.refreshes.length
  /-- a refresh under way is a function of the lane that runs -/
  active : ∀ (i : Nat) (r : Refresh Token), s.refreshes[i]? = some r → Active r →
    ∃ c : RefreshCall, s.lanes.calls[i]? = some c ∧ c.fnRunning = true
  keys : (JsMap.keys s.rotationMap).Nodup
  /-- what a refresh looked up in vain is still not there -/
  unrecorded : ∀ (i : Nat) (r : Refresh Token), s.refreshes[i]? = some r →
    r.phase = .rereading → ∀ e, s.rotationMap.get r.refreshToken = some e → e.expiresAt ≤ s.now
  /-- the map has what was recorded, until it expires -/
  kept : ∀ i token time, .recorded i token time ∈ s.uses → s.now < time + rotationMapTtlMs →
    ∃ e, s.rotationMap.get token = some e ∧ time + rotationMapTtlMs ≤ e.expiresAt
  source : ∀ token e, s.rotationMap.get token = some e →
    ∃ i time, .recorded i token time ∈ s.uses ∧ e.expiresAt = time + rotationMapTtlMs
  past : ∀ i token time, .recorded i token time ∈ s.uses → time ≤ s.now

variable {group : JsString} {s : TokenRefresh Token}

variable {i : Nat} {r : Refresh Token}

theorem RefreshInv.alone (h : RefreshInv group s) {j : Nat} {r' : Refresh Token}
    (hr : s.refreshes[i]? = some r) (hr' : s.refreshes[j]? = some r') (hactive : Active r)
    (hactive' : Active r') : i = j := by
  obtain ⟨c, hc, hrun⟩ := h.active i r hr hactive
  obtain ⟨d, hd, hrun'⟩ := h.active j r' hr' hactive'
  exact h.lanes.exclusive ⟨hc, h.inGroup i c hc⟩ ⟨hd, h.inGroup j d hd⟩ hrun hrun'

theorem RefreshInv.respects_iff (h : RefreshInv group s) (i : Nat) (token : Token) :
    (∀ use ∈ s.uses, Respects use (.presented i token s.now)) ↔
      s.rotationMap.lookup s.now token = none := by
  constructor
  · intro hall
    cases hlook : s.rotationMap.lookup s.now token with
    | none => rfl
    | some e =>
      obtain ⟨hget, hlive⟩ := RotationMap.get_of_cleanup h.keys hlook
      obtain ⟨j, time, hmem, hexpires⟩ := h.source token e hget
      have hle : time + rotationMapTtlMs ≤ s.now := hall _ hmem rfl
      omega
  · intro hnone use huse
    cases use with
    | presented j token' time => trivial
    | recorded j token' time =>
      rintro rfl
      by_contra hlt
      obtain ⟨e, hget, hle⟩ := h.kept j token' time huse (by omega)
      have hlook := @RotationMap.get_cleanup_of_live _ _ _ s.now _ _ h.keys hget (by omega)
      unfold RotationMap.lookup at hnone
      rw [hlook] at hnone
      cases hnone

/-! ## What the parts of a step keep -/

section

variable (h : RefreshInv group s)
include h

theorem RefreshInv.lanesStep {e : LaneEvent}
    (htime : s.lanes.InTime e) (hcall : ∀ provider, e ≠ .call provider)
    (hsettle : ∀ i outcome, e = .settle i outcome → ∀ r, s.refreshes[i]? = some r → ¬ Active r) :
    RefreshInv group { s with lanes := s.lanes.step refreshLaneMaxMs e } where
  lanes := h.lanes.step refreshLaneMaxMs htime
  inGroup := by
    intro i c' hc'
    have hi : i < s.lanes.calls.length := by
      rw [← length_step refreshLaneMaxMs s.lanes hcall]
      exact lt_length hc'
    obtain ⟨c, hc, hframe⟩ := frame_of_step refreshLaneMaxMs s.lanes e hi hc'
    exact hframe.group.trans (h.inGroup i c hc)
  paired := (length_step refreshLaneMaxMs s.lanes hcall).trans h.paired
  active := by
    intro i r hr hactive
    obtain ⟨c, hc, hrun⟩ := h.active i r hr hactive
    refine running_step refreshLaneMaxMs s.lanes hc hrun ?_
    intro outcome he
    exact hsettle i outcome he r hr hactive
  keys := h.keys
  unrecorded := by
    intro i r hr hphase entry hget
    have hle := h.unrecorded i r hr hphase entry hget
    exact Nat.le_trans hle (now_step refreshLaneMaxMs s.lanes e)
  kept := by
    intro i token time hmem hlive
    have hnow := now_step refreshLaneMaxMs s.lanes e
    exact h.kept i token time hmem (Nat.lt_of_le_of_lt hnow hlive)
  source := h.source
  past := fun i token time hmem =>
    Nat.le_trans (h.past i token time hmem) (now_step refreshLaneMaxMs s.lanes e)

section

variable (hr : s.refreshes[i]? = some r)
include hr

theorem RefreshInv.modifyRefresh {f : Refresh Token → Refresh Token} (hactive : Active (f r) → ∃ c, s.lanes.calls[i]? = some c ∧ c.fnRunning = true)
    (hunrecorded : (f r).phase = .rereading →
      ∀ e, s.rotationMap.get (f r).refreshToken = some e → e.expiresAt ≤ s.now) :
    RefreshInv group (s.modifyRefresh i f) where
  lanes := h.lanes
  inGroup := h.inGroup
  paired := h.paired.trans (length_modify ..).symm
  active := by
    intro j r' hr' hactive'
    obtain ⟨r₀, hr₀, ⟨rfl, rfl⟩ | ⟨-, rfl⟩⟩ := modify_cases hr'
    · obtain rfl := unique hr₀ hr
      exact hactive hactive'
    · exact h.active j r' hr₀ hactive'
  keys := h.keys
  unrecorded := by
    intro j r' hr' hphase
    obtain ⟨r₀, hr₀, ⟨rfl, rfl⟩ | ⟨-, rfl⟩⟩ := modify_cases hr'
    · obtain rfl := unique hr₀ hr
      exact hunrecorded hphase
    · exact h.unrecorded j r' hr₀ hphase
  kept := h.kept
  source := h.source
  past := h.past

theorem RefreshInv.settle (outcome : RefreshOutcome) : RefreshInv group (s.settle i outcome) := by
  have hsettled : RefreshInv group (s.modifyRefresh i fun r => { r with phase := .settled }) := by
    refine h.modifyRefresh hr ?_ ?_
    · rintro (hphase | hphase) <;> cases hphase
    · exact nofun
  refine hsettled.lanesStep (e := .settle i outcome) trivial nofun ?_
  intro j outcome' he r' hr'
  obtain ⟨rfl, -⟩ := LaneEvent.settle.inj he
  obtain ⟨r₀, -, ⟨-, rfl⟩ | ⟨hne, -⟩⟩ := modify_cases hr'
  · rintro (hphase | hphase) <;> cases hphase
  · exact absurd rfl hne

theorem RefreshInv.present (hrun : ∃ c, s.lanes.calls[i]? = some c ∧ c.fnRunning = true) (token : Token) :
    RefreshInv group (s.present i token) := by
  have hpresenting : RefreshInv group (s.modifyRefresh i fun r =>
      { r with refreshToken := token, phase := .presenting }) :=
    h.modifyRefresh hr (fun _ => hrun) nofun
  have hrecorded : ∀ j token' time, .recorded j token' time ∈ s.uses ++ [.presented i token s.now] →
        TokenUse.recorded j token' time ∈ s.uses := by
    intro j token' time hmem
    rcases mem_append.mp hmem with hold | hnew
    · exact hold
    · cases mem_singleton.mp hnew
  exact { hpresenting with
    kept := fun j token' time hmem => h.kept j token' time (hrecorded j token' time hmem)
    source := by
      intro token' e hget
      obtain ⟨j, time, hmem, hexpires⟩ := h.source token' e hget
      exact ⟨j, time, mem_append_left _ hmem, hexpires⟩
    past := fun j token' time hmem => h.past j token' time (hrecorded j token' time hmem) }

end

theorem RefreshInv.cleanup :
    RefreshInv group { s with rotationMap := s.rotationMap.cleanup s.now } where
  lanes := h.lanes
  inGroup := h.inGroup
  paired := h.paired
  active := h.active
  keys := RotationMap.nodup_cleanup h.keys
  unrecorded := fun i r hr hphase e hget =>
    h.unrecorded i r hr hphase e (RotationMap.get_of_cleanup h.keys hget).1
  kept := by
    intro i token time hmem hlive
    obtain ⟨e, hget, hle⟩ := h.kept i token time hmem hlive
    have hnow : s.now < time + rotationMapTtlMs := hlive
    exact ⟨e, RotationMap.get_cleanup_of_live h.keys hget (by omega), hle⟩
  source := fun token e hget => h.source token e (RotationMap.get_of_cleanup h.keys hget).1
  past := h.past

theorem RefreshInv.record (hr : s.refreshes[i]? = some r)
    (hphase : r.phase = .presenting) (oldToken newToken : Token) :
    RefreshInv group (s.record i oldToken newToken) := by
  unfold TokenRefresh.record
  split
  · exact h
  · rename_i hne
    have hmap : s.rotationMap.record s.now oldToken newToken =
        s.rotationMap.set oldToken ⟨newToken, s.now + rotationMapTtlMs⟩ := if_neg hne
    exact { h with
      keys := RotationMap.nodup_record h.keys newToken
      unrecorded := by
        intro j r' hr' hphase'
        have hsame := h.alone hr hr' (.inr hphase) (.inl hphase')
        subst hsame
        rw [unique hr hr', hphase'] at hphase
        cases hphase
      kept := by
        intro j token time hmem hlive
        rw [hmap, JsMap.get_set]
        rcases mem_append.mp hmem with hold | hnew
        · split
          · exact ⟨_, rfl, Nat.add_le_add_right (h.past j token time hold) _⟩
          · exact h.kept j token time hold hlive
        · obtain ⟨-, rfl, rfl⟩ := TokenUse.recorded.inj (mem_singleton.mp hnew)
          rw [if_pos rfl]
          exact ⟨_, rfl, le_refl _⟩
      source := by
        intro token e hget
        rw [hmap] at hget
        rcases JsMap.get_set_cases hget with ⟨rfl, rfl⟩ | hold
        · exact ⟨i, s.now, mem_append_right _ (mem_singleton_self _), rfl⟩
        · obtain ⟨j, time, hmem, hexpires⟩ := h.source token e hold
          exact ⟨j, time, mem_append_left _ hmem, hexpires⟩
      past := by
        intro j token time hmem
        rcases mem_append.mp hmem with hold | hnew
        · exact h.past j token time hold
        · obtain ⟨-, -, rfl⟩ := TokenUse.recorded.inj (mem_singleton.mp hnew)
          exact le_refl _ }

end

/-! ## One step -/

variable {provider : JsString}

theorem RefreshInv.startRefresh (h : RefreshInv group s)
    (hgroup : rotationGroupFor provider = some group) (connectionId : Option JsString)
    (refreshToken : Token) :
    RefreshInv group (s.startRefresh provider connectionId refreshToken) := by
  have hcalls : (s.lanes.call provider).calls =
      s.lanes.calls ++ [⟨some group, s.lanes.groupTail.get group, .waiting, false, false, none⟩] := by
    unfold RefreshLanes.call
    rw [hgroup]
  have hnow : (s.lanes.call provider).now = s.lanes.now := by
    unfold RefreshLanes.call
    rw [hgroup]
  exact {
    lanes := h.lanes.call provider
    inGroup := by
      intro i c hc
      have hc' : (s.lanes.call provider).calls[i]? = some c := hc
      rw [hcalls] at hc'
      rcases append_cases hc' with hold | ⟨-, rfl⟩
      · exact h.inGroup i c hold
      · rfl
    paired := by
      show (s.lanes.call provider).calls.length = (s.refreshes ++ [_]).length
      rw [hcalls, length_append, length_append, h.paired]
      rfl
    active := by
      intro i r hr hactive
      rcases append_cases hr with hold | ⟨-, rfl⟩
      · obtain ⟨c, hc, hrun⟩ := h.active i r hold hactive
        refine ⟨c, ?_, hrun⟩
        show (s.lanes.call provider).calls[i]? = some c
        rw [hcalls]
        exact append_old hc
      · rcases hactive with hphase | hphase <;> cases hphase
    keys := h.keys
    unrecorded := by
      intro i r hr hphase e hget
      rcases append_cases hr with hold | ⟨-, rfl⟩
      · exact Nat.le_trans (h.unrecorded i r hold hphase e hget) (Nat.le_of_eq hnow.symm)
      · cases hphase
    kept := by
      intro i token time hmem hlive
      have hlive' : (s.lanes.call provider).now < time + rotationMapTtlMs := hlive
      rw [hnow] at hlive'
      exact h.kept i token time hmem hlive'
    source := h.source
    past := fun i token time hmem =>
      Nat.le_trans (h.past i token time hmem) (Nat.le_of_eq hnow.symm) }

theorem RefreshInv.others (h : RefreshInv group s) (mutex : JsMap JsString Nat)
    (cache : JsMap Token Nat) (rows : JsMap JsString (DbConnection Token)) :
    RefreshInv group
      { s with connectionRefreshMutex := mutex, refreshPromiseCache := cache, rows := rows } :=
  { h with }

theorem RefreshInv.dropShared (h : RefreshInv group s) (i : Nat) (r : Refresh Token) :
    RefreshInv group (s.dropShared i r) := by
  unfold TokenRefresh.dropShared
  split
  all_goals
    split
    · exact h.others _ _ _
    · exact h

theorem dropShared_uses (i : Nat) (r : Refresh Token) : (s.dropShared i r).uses = s.uses := by
  unfold TokenRefresh.dropShared
  split <;> split <;> rfl

omit [DecidableEq Token] in
theorem enter_running (hturn : s.hasTurn i = true) :
    ∃ c : RefreshCall, (s.lanes.enter refreshLaneMaxMs i).calls[i]? = some c ∧
      c.fnRunning = true := by
  unfold hasTurn at hturn
  cases hc : s.lanes.calls[i]? with
  | none =>
    rw [hc] at hturn
    cases hturn
  | some c =>
    rw [hc] at hturn
    have hready : c.phase = .waiting ∧ s.lanes.tailDone c.prevTail = true :=
      of_decide_eq_true hturn
    unfold RefreshLanes.enter
    rw [hc]
    dsimp only
    rw [if_pos hready]
    exact ⟨_, modify_self hc, rfl⟩

theorem RefreshInv.begin (h : RefreshInv group s) (hr : s.refreshes[i]? = some r)
    (hrun : ∃ c : RefreshCall, s.lanes.calls[i]? = some c ∧ c.fnRunning = true) :
    RefreshInv group (s.begin i r) := by
  unfold TokenRefresh.begin
  dsimp only
  split
  · exact h.cleanup.settle hr .resolved
  · rename_i hnone
    split
    · refine h.cleanup.modifyRefresh hr (fun _ => hrun) ?_
      intro _ e hget
      have hsome : s.rotationMap.lookup s.now r.refreshToken = some e := hget
      rw [hnone] at hsome
      cases hsome
    · exact h.cleanup.present hr hrun r.refreshToken

/-- No lane timer fires while the function of its refresh still runs. -/
def InTime (s : TokenRefresh Token) : TokenEvent Token → Prop
  | .laneTimeout i => s.lanes.InTime (.laneTimeout i)
  | _ => True

theorem record_refreshes (i : Nat) (oldToken newToken : Token) :
    (s.record i oldToken newToken).refreshes = s.refreshes := by
  unfold TokenRefresh.record
  split <;> rfl

theorem RefreshInv.step (h : RefreshInv group s)
    (hgroup : rotationGroupFor provider = some group) {e : TokenEvent Token}
    (htime : s.InTime e) : RefreshInv group (s.step provider e) := by
  cases e with
  | getAccessToken connectionId refreshToken =>
    show RefreshInv group (s.getAccessToken provider connectionId refreshToken)
    unfold TokenRefresh.getAccessToken
    split
    all_goals
      split
      · exact h
      · exact (h.startRefresh hgroup _ _).others _ _ _
  | enter i =>
    show RefreshInv group (s.enter i)
    unfold TokenRefresh.enter
    split
    · exact h
    · rename_i r hr
      split
      · rename_i hturn
        have hentered : RefreshInv group
            { s with lanes := s.lanes.step refreshLaneMaxMs (.enter i) } :=
          h.lanesStep (e := .enter i) trivial nofun nofun
        exact hentered.begin hr (enter_running hturn)
      · exact h
  | reread i failed =>
    show RefreshInv group (s.reread i failed)
    unfold TokenRefresh.reread
    split
    · exact h
    · rename_i r hr
      split
      · rename_i hphase
        split
        · exact h.settle hr .resolved
        · exact h.present hr (h.active i r hr (.inl hphase)) _
      · exact h
  | answer i answer =>
    show RefreshInv group (s.answer i answer)
    unfold TokenRefresh.answer
    split
    · exact h
    · rename_i r hr
      split
      · rename_i hphase
        split
        · rename_i newToken
          have hrecorded := h.record hr hphase r.refreshToken newToken
          refine hrecorded.settle (r := r) ?_ .resolved
          rw [record_refreshes]
          exact hr
        · exact h.settle hr .resolved
        · exact h.settle hr .resolved
        · exact h.settle hr .rejected
      · exact h
  | laneTimeout i =>
    exact h.lanesStep (e := .laneTimeout i) htime nofun nofun
  | finish i spacing =>
    exact h.lanesStep (e := .finish i spacing) trivial nofun nofun
  | release i =>
    exact h.lanesStep (e := .release i) trivial nofun nofun
  | settleTail i =>
    exact h.lanesStep (e := .settleTail i) trivial nofun nofun
  | sharedSettles i =>
    show RefreshInv group (s.sharedSettles i)
    unfold TokenRefresh.sharedSettles
    split
    · exact h
    · split
      · exact h.dropShared i _
      · exact h
  | mutexTimeout i =>
    show RefreshInv group (s.mutexTimeout i)
    unfold TokenRefresh.mutexTimeout
    split
    · exact h
    · split
      · exact h.dropShared i _
      · exact h
  | writeRow connectionId row => exact h.others _ _ _
  | advance ms =>
    exact h.lanesStep (e := .advance ms) trivial nofun nofun

/-! ## What a step presents -/

/-- A re-read that replaces the caller's token by the row's finds no rotation of
the row's token. -/
def RereadsFresh (s : TokenRefresh Token) : TokenEvent Token → Prop
  | .reread i failed => ∀ r dbToken, s.refreshes[i]? = some r → r.phase = .rereading →
      checkFreshness s.now r.refreshToken (s.rowOf r failed) = .present dbToken →
        dbToken ≠ r.refreshToken → s.rotationMap.lookup s.now dbToken = none
  | _ => True

theorem presentsOnce_present (h : RefreshInv group s) (honce : PresentsOnce s) (i : Nat)
    (token : Token) :
    PresentsOnce (s.present i token) ↔ s.rotationMap.lookup s.now token = none := by
  rw [← h.respects_iff i token]
  show (s.uses ++ [_]).Pairwise Respects ↔ _
  rw [pairwise_append]
  constructor
  · rintro ⟨-, -, hall⟩ use huse
    exact hall use huse _ (mem_singleton_self _)
  · intro hall
    refine ⟨honce, pairwise_singleton _ _, ?_⟩
    intro use huse last hlast
    rw [mem_singleton.mp hlast]
    exact hall use huse

theorem presentsOnce_record (honce : PresentsOnce s) (i : Nat) (oldToken newToken : Token) :
    PresentsOnce (s.record i oldToken newToken) := by
  unfold TokenRefresh.record
  split
  · exact honce
  · show (s.uses ++ [_]).Pairwise Respects
    rw [pairwise_append]
    refine ⟨honce, pairwise_singleton _ _, ?_⟩
    intro use _ last hlast
    rw [mem_singleton.mp hlast]
    cases use <;> trivial

theorem presentsOnce_begin (h : RefreshInv group s) (honce : PresentsOnce s) (i : Nat)
    (r : Refresh Token) : PresentsOnce (s.begin i r) := by
  unfold TokenRefresh.begin
  dsimp only
  split
  · exact honce
  · rename_i hnone
    split
    · exact honce
    · refine (presentsOnce_present h.cleanup honce i r.refreshToken).mpr ?_
      have hlooked : (s.rotationMap.cleanup s.now).get r.refreshToken = none := hnone
      cases hlook : (s.rotationMap.cleanup s.now).lookup s.now r.refreshToken with
      | none => exact hlook
      | some e =>
        have hget := (RotationMap.get_of_cleanup (RotationMap.nodup_cleanup h.keys) hlook).1
        rw [hlooked] at hget
        cases hget

theorem presentsOnce_reread (h : RefreshInv group s) (honce : PresentsOnce s) (i : Nat)
    (failed : Bool) :
    PresentsOnce (s.reread i failed) ↔ RereadsFresh s (.reread i failed) := by
  unfold TokenRefresh.reread RereadsFresh
  cases hr : s.refreshes[i]? with
  | none => exact iff_of_true honce (fun r dbToken hr' => by rw [hr] at hr'; cases hr')
  | some r =>
    dsimp only
    by_cases hphase : r.phase = .rereading
    · rw [if_pos hphase]
      cases hfresh : checkFreshness s.now r.refreshToken (s.rowOf r failed) with
      | valid =>
        refine iff_of_true honce ?_
        intro r' dbToken hr' _ hpresent
        rw [unique hr' hr, hfresh] at hpresent
        cases hpresent
      | present token =>
        dsimp only
        rw [presentsOnce_present h honce i token]
        constructor
        · intro hnone r' dbToken hr' _ hpresent _
          rw [unique hr' hr, hfresh] at hpresent
          rw [← Freshness.present.inj hpresent]
          exact hnone
        · intro hfound
          by_cases hown : token = r.refreshToken
          · cases hlook : s.rotationMap.lookup s.now token with
            | none => rfl
            | some e =>
              obtain ⟨hget, hlive⟩ := RotationMap.get_of_cleanup h.keys hlook
              rw [hown] at hget
              have hexpired := h.unrecorded i r hr hphase e hget
              omega
          · exact hfound r token hr hphase hfresh hown
    · rw [if_neg hphase]
      refine iff_of_true honce ?_
      intro r' dbToken hr' hphase'
      rw [unique hr' hr] at hphase'
      exact absurd hphase' hphase

theorem presentsOnce_step (h : RefreshInv group s) (honce : PresentsOnce s) {e : TokenEvent Token} :
    PresentsOnce (s.step provider e) ↔ RereadsFresh s e := by
  cases e with
  | reread i failed => exact presentsOnce_reread h honce i failed
  | getAccessToken connectionId refreshToken =>
    refine iff_of_true ?_ trivial
    show PresentsOnce (s.getAccessToken provider connectionId refreshToken)
    unfold TokenRefresh.getAccessToken
    split <;> split <;> exact honce
  | enter i =>
    refine iff_of_true ?_ trivial
    show PresentsOnce (s.enter i)
    unfold TokenRefresh.enter
    split
    · exact honce
    · split
      · have hentered : RefreshInv group
            { s with lanes := s.lanes.step refreshLaneMaxMs (.enter i) } :=
          h.lanesStep (e := .enter i) trivial nofun nofun
        exact presentsOnce_begin hentered honce i _
      · exact honce
  | answer i answer =>
    refine iff_of_true ?_ trivial
    show PresentsOnce (s.answer i answer)
    unfold TokenRefresh.answer
    split
    · exact honce
    · split
      · split
        · exact presentsOnce_record honce i _ _
        all_goals exact honce
      · exact honce
  | sharedSettles i =>
    refine iff_of_true ?_ trivial
    show PresentsOnce (s.sharedSettles i)
    unfold TokenRefresh.sharedSettles
    split
    · exact honce
    · split
      · unfold PresentsOnce
        rw [dropShared_uses]
        exact honce
      · exact honce
  | mutexTimeout i =>
    refine iff_of_true ?_ trivial
    show PresentsOnce (s.mutexTimeout i)
    unfold TokenRefresh.mutexTimeout
    split
    · exact honce
    · split
      · unfold PresentsOnce
        rw [dropShared_uses]
        exact honce
      · exact honce
  | laneTimeout i => exact iff_of_true honce trivial
  | finish i spacing => exact iff_of_true honce trivial
  | release i => exact iff_of_true honce trivial
  | settleTail i => exact iff_of_true honce trivial
  | writeRow connectionId row => exact iff_of_true honce trivial
  | advance ms => exact iff_of_true honce trivial

theorem refreshInv_init (group : JsString) (rows : JsMap JsString (DbConnection Token)) :
    RefreshInv group ({ rows := rows } : TokenRefresh Token) where
  lanes := laneInv_init
  inGroup := by intro i c hc; cases hc
  paired := rfl
  active := by intro i r hr; cases hr
  keys := nodup_nil
  unrecorded := by intro i r hr; cases hr
  kept := by intro i token time hmem; cases hmem
  source := by intro token e hget; cases hget
  past := by intro i token time hmem; cases hmem

/-- As long as no lane timer fires on a refresh under way, no token is presented
again while the rotation map keeps its rotation, in any state of the run,
exactly when no re-read takes such a token from a row. -/
theorem getAccessToken_presents_once {provider group : JsString}
    (hgroup : rotationGroupFor provider = some group)
    {rows : JsMap JsString (DbConnection Token)} {events : List (TokenEvent Token)}
    (htime : Along (step provider) InTime { rows := rows } events) :
    (∀ before, before <+: events → PresentsOnce (run provider rows before)) ↔
      ∀ before e, before ++ [e] <+: events → RereadsFresh (run provider rows before) e :=
  along_prefixes_iff PresentsOnce (RefreshInv group) (fun _ _ h htime => h.step hgroup htime)
    (fun _ _ h _ honce => presentsOnce_step h honce)
    (refreshInv_init group rows) List.Pairwise.nil htime

/-- A caller without a connection refreshes the token of a row.  Before the row
is written, a caller of the connection comes with the new token. -/
def pendingPersist : List (TokenEvent JsString) :=
  [.getAccessToken none (js "t0"), .enter 0, .answer 0 (.granted (some (js "t1"))), .finish 0 0,
    .settleTail 0, .sharedSettles 0, .getAccessToken (some (js "conn-1")) (js "t1"), .enter 1,
    .reread 1 false]

/-- The row of the connection is read before it is written. -/
theorem getAccessToken_presents_again :
    (run (js "codex") [(js "conn-1", ⟨some (js "t0"), 0⟩)] pendingPersist).uses =
        [.presented 0 (js "t0") 0, .recorded 0 (js "t0") 0, .presented 1 (js "t0") 0] ∧
      ¬ PresentsOnce (run (js "codex") [(js "conn-1", ⟨some (js "t0"), 0⟩)] pendingPersist) := by
  have huses : (run (js "codex") [(js "conn-1", ⟨some (js "t0"), 0⟩)] pendingPersist).uses =
      [.presented 0 (js "t0") 0, .recorded 0 (js "t0") 0, .presented 1 (js "t0") 0] := by
    decide +kernel
  refine ⟨huses, ?_⟩
  unfold PresentsOnce
  rw [huses]
  intro honce
  have hrest := (pairwise_cons.mp honce).2
  have hlate := (pairwise_cons.mp hrest).1 _ (mem_singleton_self _) rfl
  exact absurd hlate (by decide)

/-- The row is written before the caller of the connection comes. -/
def persistedFirst : List (TokenEvent JsString) :=
  [.getAccessToken none (js "t0"), .enter 0, .answer 0 (.granted (some (js "t1"))), .finish 0 0,
    .settleTail 0, .writeRow (js "conn-1") ⟨some (js "t1"), 0⟩, .sharedSettles 0,
    .getAccessToken (some (js "conn-1")) (js "t0"), .enter 1]

theorem getAccessToken_presents_once_persisted :
    PresentsOnce (run (js "codex") [(js "conn-1", ⟨some (js "t0"), 0⟩)] persistedFirst) := by
  have htime : Along (step (js "codex")) InTime
      { rows := [(js "conn-1", ⟨some (js "t0"), 0⟩)] } persistedFirst :=
    ⟨trivial, trivial, trivial, trivial, trivial, trivial, trivial, trivial, trivial, trivial⟩
  have hgroup : rotationGroupFor (js "codex") = some (js "openai-auth0") := by decide
  refine (getAccessToken_presents_once hgroup htime).mpr ?_ persistedFirst prefix_rfl
  rintro before e ⟨rest, hrest⟩
  have hmem : e ∈ persistedFirst := by
    rw [← hrest]
    simp
  simp only [persistedFirst, mem_cons, not_mem_nil, or_false] at hmem
  rcases hmem with rfl | rfl | rfl | rfl | rfl | rfl | rfl | rfl | rfl <;> trivial

end TokenRefresh

end RedRouter.Services
