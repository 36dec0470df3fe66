import RedRouter.Lib.JsMap
import RedRouter.Lib.JsString
import RedRouter.Lib.Places
import RedRouter.Lib.Runs

/-!
# The refresh serializer

`serializeRefresh` runs the network refreshes of a rotation group one after
the other.  A call keeps the tail promise that it found in `groupTail`, puts
its own tail there and waits for the one that it found.  Its own tail settles
when that one has settled and the call has released the lane.

A promise settles and a timer fires at a time of its own, so each is an event.
A call is named by the place of its `serializeRefresh` among all of them.

`LaneInv` is what holds between two events as long as every refresh ends
before its lane timer: the calls of a group chain without a gap, and a call
that has entered comes after calls that have all released the lane.
-/

namespace RedRouter.Services

open List Runs Places

def rotationGroupFor (provider : JsString) : Option JsString :=
  if provider == js "codex" then some (js "openai-auth0")
  else if provider == js "openai" then some (js "openai-auth0")
  else if provider == js "claude" then some (js "anthropic-oauth")
  else if provider == js "gitlab-duo" then some (js "gitlab-duo")
  else if provider == js "kiro" then some (js "kiro")
  else if provider == js "kimi-coding" then some (js "kimi-coding")
  else if provider == js "cline" then some (js "cline")
  else none

/-- What the promise of a refresh function settles with, or what its caller
gets when the lane timer fires first. -/
inductive RefreshOutcome where
  | resolved
  | rejected
  | timedOut
deriving DecidableEq

inductive LanePhase where
  /-- `await prevTail` -/
  | waiting
  /-- `fn()` is called, the lane timer fires at `laneDue` -/
  | running (laneDue : Nat)
  /-- the race is settled, the `finally` block is still to come -/
  | leaving
  /-- `await delay(spacing)` -/
  | spacing (due : Nat)
  | released
deriving DecidableEq

/-- A call of `serializeRefresh`.  `group` is `none` for a provider that is
not serialized, and `prevTail` for `Promise.resolve()`. -/
structure RefreshCall where
  group : Option JsString
  prevTail : Option Nat
  phase : LanePhase
  fnRunning : Bool
  tailSettled : Bool
  outcome : Option RefreshOutcome
deriving DecidableEq

/-- `started` are the calls whose function was called, in that order. -/
structure RefreshLanes where
  calls : List RefreshCall := []
  groupTail : JsMap JsString Nat := []
  started : List Nat := []
  now : Nat := 0
deriving DecidableEq

/-- `spacing` is what `getRefreshSpacingMs` reads at that time. -/
inductive LaneEvent where
  | call (provider : JsString)
  | enter (i : Nat)
  | settle (i : Nat) (outcome : RefreshOutcome)
  | laneTimeout (i : Nat)
  | finish (i : Nat) (spacing : Nat)
  | release (i : Nat)
  | settleTail (i : Nat)
  | advance (ms : Nat)
deriving DecidableEq

/-- The promise of the function settles.  It settles the race as well, unless
the timer did. -/
def RefreshCall.settle (outcome : RefreshOutcome) (c : RefreshCall) : RefreshCall :=
  match c.phase with
  | .running _ => { c with fnRunning := false, phase := .leaving, outcome := some outcome }
  | _ => { c with fnRunning := false, outcome := c.outcome.or (some outcome) }

namespace RefreshLanes

/-- `serializeRefresh` up to its first `await`. -/
def call (provider : JsString) (s : RefreshLanes) : RefreshLanes :=
  match rotationGroupFor provider with
  | none =>
      { s with
        calls := s.calls ++ [⟨none, none, .released, true, true, none⟩]
        started := s.started ++ [s.calls.length] }
  | some group =>
      { s with
        calls := s.calls ++ [⟨some group, s.groupTail.get group, .waiting, false, false, none⟩]
        groupTail := s.groupTail.set group s.calls.length }

def tailDone (s : RefreshLanes) : Option Nat → Bool
  | none => true
  | some p => (s.calls[p]?.map RefreshCall.tailSettled).getD false

def modifyCall (i : Nat) (f : RefreshCall → RefreshCall) (s : RefreshLanes) : RefreshLanes :=
  { s with calls := s.calls.modify i f }

/-- The turn of a call has come: `fn()` and the lane timer. -/
def enter (laneMaxMs : Nat) (i : Nat) (s : RefreshLanes) : RefreshLanes :=
  match s.calls[i]? with
  | none => s
  | some c =>
      if c.phase = .waiting ∧ s.tailDone c.prevTail = true then
        { s.modifyCall i (fun c =>
            { c with phase := .running (s.now + laneMaxMs), fnRunning := true }) with
          started := s.started ++ [i] }
      else s

def settle (i : Nat) (outcome : RefreshOutcome) (s : RefreshLanes) : RefreshLanes :=
  match s.calls[i]? with
  | none => s
  | some c =>
      if c.fnRunning then
        s.modifyCall i (RefreshCall.settle outcome)
      else s

/-- The lane timer settles the race, and `fn()` goes on. -/
def laneTimeout (i : Nat) (s : RefreshLanes) : RefreshLanes :=
  match s.calls[i]? with
  | some ⟨_, _, .running laneDue, _, _, _⟩ =>
      if laneDue ≤ s.now then
        s.modifyCall i (fun c => { c with phase := .leaving, outcome := some .timedOut })
      else s
  | _ => s

/-- `releaseMine()` and the removal of a tail that nobody chained to. -/
def releaseMine (i : Nat) (group : JsString) (s : RefreshLanes) : RefreshLanes :=
  { s.modifyCall i (fun c => { c with phase := .released }) with
    groupTail :=
      if s.groupTail.get group = some i then s.groupTail.delete group else s.groupTail }

/-- The `finally` block up to the delay, which only a call with a successor
pays. -/
def finish (i : Nat) (spacing : Nat) (s : RefreshLanes) : RefreshLanes :=
  match s.calls[i]? with
  | some ⟨some group, _, .leaving, _, _, _⟩ =>
      if s.groupTail.get group ≠ some i ∧ 0 < spacing then
        s.modifyCall i (fun c => { c with phase := .spacing (s.now + spacing) })
      else s.releaseMine i group
  | _ => s

/-- The `finally` block after the delay. -/
def release (i : Nat) (s : RefreshLanes) : RefreshLanes :=
  match s.calls[i]? with
  | some ⟨some group, _, .spacing due, _, _, _⟩ =>
      if due ≤ s.now then s.releaseMine i group else s
  | _ => s

def settleTail (i : Nat) (s : RefreshLanes) : RefreshLanes :=
  match s.calls[i]? with
  | none => s
  | some c =>
      if c.phase = .released ∧ s.tailDone c.prevTail = true then
        s.modifyCall i (fun c => { c with tailSettled := true })
      else s

def step (laneMaxMs : Nat) (s : RefreshLanes) : LaneEvent → RefreshLanes
  | .call provider => s.call provider
  | .enter i => s.enter laneMaxMs i
  | .settle i outcome => s.settle i outcome
  | .laneTimeout i => s.laneTimeout i
  | .finish i spacing => s.finish i spacing
  | .release i => s.release i
  | .settleTail i => s.settleTail i
  | .advance ms => { s with now := s.now + ms }

def run (laneMaxMs : Nat) (events : List LaneEvent) : RefreshLanes :=
  events.foldl (step laneMaxMs) {}

/-! ## What holds between two events -/

def InLane (s : RefreshLanes) (group : JsString) (i : Nat) (c : RefreshCall) : Prop :=
  s.calls[i]? = some c ∧ c.group = some group

/-- Every call of a group before a place has released the lane. -/
def ReleasedBefore (s : RefreshLanes) (group : JsString) (j : Nat) : Prop :=
  ∀ i c, i < j → s.InLane group i c → c.phase = .released

structure LaneInv (s : RefreshLanes) : Prop where
  /-- the tail of a group is that of its last call -/
  tail : ∀ group t, s.groupTail.get group = some t →
    (∃ c, s.InLane group t c) ∧ ∀ i c, s.InLane group i c → i ≤ t
  noTail : ∀ group, s.groupTail.get group = none → ∀ i c, s.InLane group i c → c.phase = .released
  /-- a call waits for the one before it, which is in its group -/
  prev : ∀ group j c p, s.InLane group j c → c.prevTail = some p → p < j ∧ ∃ d, s.InLane group p d
  /-- and no call that is still in the lane is passed over -/
  chain : ∀ group j c, s.InLane group j c → ∀ i d, i < j → s.InLane group i d →
    d.phase = .released ∨ ∃ p, c.prevTail = some p ∧ i ≤ p
  settled : ∀ group j c, s.InLane group j c → c.tailSettled = true → s.ReleasedBefore group (j + 1)
  entered : ∀ group j c, s.InLane group j c → c.phase ≠ .waiting → s.ReleasedBefore group j
  running : ∀ group j c, s.InLane group j c → c.fnRunning = true → ∃ due, c.phase = .running due
  /-- the functions that were called are those of the calls that entered -/
  started : ∀ j c, s.calls[j]? = some c → (j ∈ s.started ↔ c.phase ≠ .waiting)
  bounded : ∀ j ∈ s.started, j < s.calls.length
  runs : ∀ (j : Nat) (c : RefreshCall) (due : Nat), s.calls[j]? = some c →
    c.phase = .running due → c.fnRunning = true

variable {c : RefreshCall} {group : JsString} {i : Nat} {s : RefreshLanes}

theorem InLane.unique {d : RefreshCall} (hc : s.InLane group i c) (hd : s.calls[i]? = some d) :
    c = d :=
  Places.unique hc.1 hd

/-- A call of the lane changes to `f c`. -/
structure Changes (s : RefreshLanes) (i : Nat) (c : RefreshCall) (f : RefreshCall → RefreshCall) :
    Prop where
  found : s.calls[i]? = some c
  group : ∀ d, (f d).group = d.group
  prevTail : ∀ d, (f d).prevTail = d.prevTail
  released : c.phase = .released → (f c).phase = .released
  entered : ∀ group, c.group = some group → (f c).phase ≠ .waiting → s.ReleasedBefore group i
  settled : ∀ group, c.group = some group → (f c).tailSettled = true → (f c).phase = .released
  running : (f c).fnRunning = true → c.group ≠ none → ∃ due, (f c).phase = .running due
  stays : c.phase ≠ .waiting → (f c).phase ≠ .waiting
  runs : ∀ due, (f c).phase = .running due → (f c).fnRunning = true

section modify

variable {s : RefreshLanes} {i : Nat} {c : RefreshCall} {f : RefreshCall → RefreshCall}
variable {t : JsMap JsString Nat} {started : List Nat} {now : Nat}

section

variable (hf : Changes s i c f)
include hf

theorem Changes.beforeCall {j : Nat} {d' : RefreshCall} (h : (s.calls.modify i f)[j]? = some d') :
    ∃ d, s.calls[j]? = some d ∧ d'.group = d.group ∧ d'.prevTail = d.prevTail ∧
      (d.phase = .released → d'.phase = .released) ∧
      ((j = i ∧ d = c ∧ d' = f c) ∨ (j ≠ i ∧ d' = d)) := by
  obtain ⟨d, hd, ⟨rfl, rfl⟩ | ⟨hij, rfl⟩⟩ := modify_cases h
  · obtain rfl := unique hd hf.found
    exact ⟨d, hd, hf.group d, hf.prevTail d, hf.released, Or.inl ⟨rfl, rfl, rfl⟩⟩
  · exact ⟨d', hd, rfl, rfl, id, Or.inr ⟨hij, rfl⟩⟩

theorem Changes.before {j : Nat} {d' : RefreshCall}
    (h : InLane ⟨s.calls.modify i f, t, started, now⟩ group j d') :
    ∃ d, s.InLane group j d ∧ d'.prevTail = d.prevTail ∧
      (d.phase = .released → d'.phase = .released) ∧
      ((j = i ∧ d = c ∧ d' = f c) ∨ (j ≠ i ∧ d' = d)) := by
  obtain ⟨d, hd, hgroup, hrest⟩ := hf.beforeCall h.1
  exact ⟨d, ⟨hd, hgroup ▸ h.2⟩, hrest⟩

theorem Changes.after {j : Nat} {d : RefreshCall} (h : s.InLane group j d) :
    ∃ d', InLane ⟨s.calls.modify i f, t, started, now⟩ group j d' := by
  obtain ⟨d', hd', ⟨-, rfl⟩ | ⟨-, rfl⟩⟩ := modify_keeps h.1
  · exact ⟨f d, hd', (hf.group d).trans h.2⟩
  · exact ⟨d', hd', h.2⟩

theorem ReleasedBefore.modify {j : Nat} (h : s.ReleasedBefore group j) :
    ReleasedBefore ⟨s.calls.modify i f, t, started, now⟩ group j := by
  intro k d' hk hd'
  obtain ⟨d, hd, -, hreleased, -⟩ := hf.before hd'
  exact hreleased (h k d hk hd)

end

theorem LaneInv.modify (h : LaneInv s) (hf : Changes s i c f)
    (hstarted : ∀ j, j ∈ started ↔ j ∈ s.started ∨ j = i ∧ (f c).phase ≠ .waiting) :
    LaneInv ⟨s.calls.modify i f, s.groupTail, started, now⟩ where
  tail := by
    intro group last hlast
    obtain ⟨⟨d, hd⟩, hmax⟩ := h.tail group last hlast
    refine ⟨hf.after hd, ?_⟩
    intro j d' hd'
    obtain ⟨d, hd, -⟩ := hf.before hd'
    exact hmax j d hd
  noTail := by
    intro group hnone j d' hd'
    obtain ⟨d, hd, -, hreleased, -⟩ := hf.before hd'
    exact hreleased (h.noTail group hnone j d hd)
  prev := by
    intro group j d' p hd' hp
    obtain ⟨d, hd, hprev, -⟩ := hf.before hd'
    obtain ⟨hlt, e, he⟩ := h.prev group j d p hd (hprev ▸ hp)
    exact ⟨hlt, hf.after he⟩
  chain := by
    intro group j d' hd' k e' hk he'
    obtain ⟨d, hd, hprev, -⟩ := hf.before hd'
    obtain ⟨e, he, -, hreleased, -⟩ := hf.before he'
    rcases h.chain group j d hd k e hk he with hdone | hwaits
    · exact Or.inl (hreleased hdone)
    · exact Or.inr (hprev ▸ hwaits)
  settled := by
    intro group j d' hd' hsettled
    obtain ⟨d, hd, -, -, ⟨rfl, rfl, rfl⟩ | ⟨-, rfl⟩⟩ := hf.before hd'
    · have hdone := hf.settled group hd.2 hsettled
      have hbefore : s.ReleasedBefore group j :=
        hf.entered group hd.2 (by rw [hdone]; exact nofun)
      intro k e' hk he'
      rcases Nat.lt_succ_iff_lt_or_eq.mp hk with hlt | rfl
      · exact ReleasedBefore.modify hf hbefore k e' hlt he'
      · rw [he'.unique hd'.1]
        exact hdone
    · exact ReleasedBefore.modify hf (h.settled group j d' hd hsettled)
  entered := by
    intro group j d' hd' hphase
    obtain ⟨d, hd, -, -, ⟨rfl, rfl, rfl⟩ | ⟨-, rfl⟩⟩ := hf.before hd'
    · exact ReleasedBefore.modify hf (hf.entered group hd.2 hphase)
    · exact ReleasedBefore.modify hf (h.entered group j d' hd hphase)
  running := by
    intro group j d' hd' hrunning
    obtain ⟨d, hd, -, -, ⟨rfl, rfl, rfl⟩ | ⟨-, rfl⟩⟩ := hf.before hd'
    · exact hf.running hrunning (by rw [hd.2]; exact Option.some_ne_none group)
    · exact h.running group j d' hd hrunning
  started := by
    intro j d' hd'
    rw [hstarted]
    obtain ⟨d, hd, -, -, -, ⟨rfl, rfl, rfl⟩ | ⟨hne, rfl⟩⟩ := hf.beforeCall hd'
    · rw [h.started j d hd]
      constructor
      · rintro (hphase | ⟨-, hphase⟩)
        · exact hf.stays hphase
        · exact hphase
      · exact fun hphase => Or.inr ⟨rfl, hphase⟩
    · rw [← h.started j d' hd]
      simp [hne]
  bounded := by
    intro j hj
    rw [length_modify]
    rcases (hstarted j).mp hj with hold | ⟨rfl, -⟩
    · exact h.bounded j hold
    · exact (List.getElem?_eq_some_iff.mp hf.found).1
  runs := by
    intro j d' due hd' hphase
    obtain ⟨d, hd, -, -, -, ⟨rfl, rfl, rfl⟩ | ⟨-, rfl⟩⟩ := hf.beforeCall hd'
    · exact hf.runs due hphase
    · exact h.runs j d' due hd hphase

end modify

theorem LaneInv.modifyCall {f : RefreshCall → RefreshCall} (h : LaneInv s) (hf : Changes s i c f)
    (hphase : (f c).phase ≠ .waiting → c.phase ≠ .waiting) : LaneInv (s.modifyCall i f) := by
  refine h.modify hf ?_
  intro j
  constructor
  · exact Or.inl
  · rintro (hold | ⟨rfl, hafter⟩)
    · exact hold
    · exact (h.started j c hf.found).mpr (hphase hafter)

/-- Dropping the tail of a group whose last call has released the lane. -/
theorem LaneInv.dropTail (h : LaneInv s) (htail : s.groupTail.get group = some i)
    (hc : s.InLane group i c) (hphase : c.phase = .released) :
    LaneInv { s with groupTail := s.groupTail.delete group } := by
  refine { h with
    tail := fun group' last hlast => h.tail group' last (JsMap.get_delete_eq_some hlast).2
    noTail := ?_ }
  intro group' hnone j d hd
  by_cases hgroup : group' = group
  · subst hgroup
    have hle := (h.tail group' i htail).2 j d hd
    have hbefore := h.entered group' i c hc (by rw [hphase]; exact nofun)
    rcases Nat.lt_or_eq_of_le hle with hlt | rfl
    · exact hbefore j d hlt hd
    · rw [hd.unique hc.1]
      exact hphase
  · rw [JsMap.get_delete, if_neg (fun h => hgroup h.symm)] at hnone
    exact h.noTail group' hnone j d hd

/-! ## Each event keeps it -/

theorem tailDone_some {p : Nat} (h : s.tailDone (some p) = true) :
    ∃ c, s.calls[p]? = some c ∧ c.tailSettled = true := by
  unfold tailDone at h
  cases hp : s.calls[p]? with
  | none => simp [hp] at h
  | some c => exact ⟨c, rfl, by simpa [hp] using h⟩

theorem tailDone_of_settled {p : Nat} (hc : s.calls[p]? = some c) (h : c.tailSettled = true) :
    s.tailDone (some p) = true := by
  show (s.calls[p]?.map RefreshCall.tailSettled).getD false = true
  rw [hc]
  exact h

/-- Once the tail that a call waits for has settled, every call of the group
before it has released the lane. -/
theorem LaneInv.releasedBefore (h : LaneInv s) {j : Nat} (hc : s.InLane group j c)
    (hdone : s.tailDone c.prevTail = true) : s.ReleasedBefore group j := by
  intro i d hi hd
  rcases h.chain group j c hc i d hi hd with hreleased | ⟨p, hp, hle⟩
  · exact hreleased
  · rw [hp] at hdone
    obtain ⟨e, he, hsettled⟩ := tailDone_some hdone
    obtain ⟨-, e', he'⟩ := h.prev group j c p hc hp
    have hlane : s.InLane group p e := ⟨he, by rw [← he'.unique he]; exact he'.2⟩
    exact h.settled group p e hlane hsettled i d (by omega) hd

theorem inLane_lt (h : s.InLane group i c) :
    i < s.calls.length := (List.getElem?_eq_some_iff.mp h.1).1

section append

variable {s : RefreshLanes} {c₀ : RefreshCall}
variable {t : JsMap JsString Nat} {started : List Nat} {now : Nat}

theorem InLane.append {j : Nat} {d : RefreshCall} (h : s.InLane group j d) :
    InLane ⟨s.calls ++ [c₀], t, started, now⟩ group j d :=
  ⟨by rw [getElem?_append_left (inLane_lt h)]; exact h.1, h.2⟩

theorem InLane.ofAppend {j : Nat} {d : RefreshCall}
    (h : InLane ⟨s.calls ++ [c₀], t, started, now⟩ group j d) :
    s.InLane group j d ∨ (j = s.calls.length ∧ d = c₀ ∧ c₀.group = some group) := by
  rcases append_cases h.1 with hold | ⟨hj, rfl⟩
  · exact Or.inl ⟨hold, h.2⟩
  · exact Or.inr ⟨hj, rfl, h.2⟩

theorem ReleasedBefore.append {j : Nat} (hj : j ≤ s.calls.length) (h : s.ReleasedBefore group j) :
    ReleasedBefore ⟨s.calls ++ [c₀], t, started, now⟩ group j := by
  intro i d hi hd
  rcases hd.ofAppend with hold | ⟨rfl, -⟩
  · exact h i d hi hold
  · omega

end append

section

variable (h : LaneInv s)
include h

theorem LaneInv.callOutside {c₀ : RefreshCall} (hgroup : c₀.group = none)
    (hphase : c₀.phase = .released) :
    LaneInv { s with
      calls := s.calls ++ [c₀]
      started := s.started ++ [s.calls.length] } := by
  have hbefore : ∀ {group j d}, InLane ⟨s.calls ++ [c₀], s.groupTail,
      s.started ++ [s.calls.length], s.now⟩ group j d → s.InLane group j d := by
    intro group j d hd
    rcases hd.ofAppend with hold | ⟨-, -, hlane⟩
    · exact hold
    · rw [hgroup] at hlane
      cases hlane
  constructor
  · intro group last hlast
    obtain ⟨⟨d, hd⟩, hmax⟩ := h.tail group last hlast
    exact ⟨⟨d, hd.append⟩, fun i c hc => hmax i c (hbefore hc)⟩
  · exact fun group hnone i c hc => h.noTail group hnone i c (hbefore hc)
  · intro group j c p hc hp
    obtain ⟨hlt, d, hd⟩ := h.prev group j c p (hbefore hc) hp
    exact ⟨hlt, d, hd.append⟩
  · exact fun group j c hc i d hi hd => h.chain group j c (hbefore hc) i d hi (hbefore hd)
  · exact fun group j c hc hs => (h.settled group j c (hbefore hc) hs).append
      (inLane_lt (hbefore hc))
  · exact fun group j c hc hs => (h.entered group j c (hbefore hc) hs).append
      (inLane_lt (hbefore hc)).le
  · exact fun group j c hc => h.running group j c (hbefore hc)
  · intro j c hc
    rcases append_cases hc with hold | ⟨rfl, rfl⟩
    · have hlt := (List.getElem?_eq_some_iff.mp hold).1
      rw [← h.started j c hold]
      simp
      omega
    · simp [hphase]
  · intro j hj
    rcases mem_append.mp hj with hold | hnew
    · have hlt := h.bounded j hold
      simp
      omega
    · simp at hnew
      simp [hnew]
  · intro j c due hc hrunning
    rcases append_cases hc with hold | ⟨rfl, rfl⟩
    · exact h.runs j c due hold hrunning
    · rw [hphase] at hrunning
      cases hrunning

theorem LaneInv.callLane (group : JsString) : LaneInv { s with
      calls := s.calls ++ [⟨some group, s.groupTail.get group, .waiting, false, false, none⟩]
      groupTail := s.groupTail.set group s.calls.length } := by
  constructor
  · intro group' last hlast
    by_cases hsame : group = group'
    · subst hsame
      rw [JsMap.get_set, if_pos rfl] at hlast
      obtain rfl := Option.some.inj hlast
      refine ⟨⟨⟨some group, s.groupTail.get group, .waiting, false, false, none⟩, by simp, rfl⟩, ?_⟩
      intro i c hc
      rcases hc.ofAppend with hold | ⟨rfl, -⟩
      · exact (inLane_lt hold).le
      · exact le_refl _
    · rw [JsMap.get_set, if_neg hsame] at hlast
      obtain ⟨⟨d, hd⟩, hmax⟩ := h.tail group' last hlast
      refine ⟨⟨d, hd.append⟩, ?_⟩
      intro i c hc
      rcases hc.ofAppend with hold | ⟨-, -, hlane⟩
      · exact hmax i c hold
      · exact absurd (Option.some.inj hlane) hsame
  · intro group' hnone i c hc
    by_cases hsame : group = group'
    · rw [JsMap.get_set, if_pos hsame] at hnone
      cases hnone
    · rw [JsMap.get_set, if_neg hsame] at hnone
      rcases hc.ofAppend with hold | ⟨-, -, hlane⟩
      · exact h.noTail group' hnone i c hold
      · exact absurd (Option.some.inj hlane) hsame
  · intro group' j c p hc hp
    rcases hc.ofAppend with hold | ⟨rfl, rfl, hlane⟩
    · obtain ⟨hlt, d, hd⟩ := h.prev group' j c p hold hp
      exact ⟨hlt, d, hd.append⟩
    · obtain rfl := Option.some.inj hlane
      obtain ⟨⟨d, hd⟩, -⟩ := h.tail group p hp
      exact ⟨inLane_lt hd, d, hd.append⟩
  · intro group' j c hc i d hi hd
    rcases hc.ofAppend with hold | ⟨rfl, rfl, hlane⟩
    · rcases hd.ofAppend with hold' | ⟨rfl, -⟩
      · exact h.chain group' j c hold i d hi hold'
      · have hlt := inLane_lt hold
        omega
    · obtain rfl := Option.some.inj hlane
      rcases hd.ofAppend with hold' | ⟨rfl, -⟩
      · cases htail : s.groupTail.get group with
        | none => exact Or.inl (h.noTail group htail i d hold')
        | some p => exact Or.inr ⟨p, rfl, (h.tail group p htail).2 i d hold'⟩
      · omega
  · intro group' j c hc hs
    rcases hc.ofAppend with hold | ⟨rfl, rfl, -⟩
    · exact (h.settled group' j c hold hs).append (inLane_lt hold)
    · cases hs
  · intro group' j c hc hs
    rcases hc.ofAppend with hold | ⟨rfl, rfl, -⟩
    · exact (h.entered group' j c hold hs).append (inLane_lt hold).le
    · exact absurd rfl hs
  · intro group' j c hc hs
    rcases hc.ofAppend with hold | ⟨rfl, rfl, -⟩
    · exact h.running group' j c hold hs
    · cases hs
  · intro j c hc
    rcases append_cases hc with hold | ⟨rfl, rfl⟩
    · exact h.started j c hold
    · have hnot : s.calls.length ∉ s.started := fun hmem => lt_irrefl _ (h.bounded _ hmem)
      simp [hnot]
  · intro j hj
    have hlt := h.bounded j hj
    simp
    omega
  · intro j c due hc hrunning
    rcases append_cases hc with hold | ⟨rfl, rfl⟩
    · exact h.runs j c due hold hrunning
    · cases hrunning

theorem LaneInv.call (provider : JsString) : LaneInv (s.call provider) := by
  unfold RefreshLanes.call
  cases hgroup : rotationGroupFor provider with
  | none => exact h.callOutside rfl rfl
  | some group => exact h.callLane group

theorem LaneInv.released_of_settled (hc : s.InLane group i c)
    (hsettled : c.tailSettled = true) : c.phase = .released :=
  h.settled group i c hc hsettled i c (Nat.lt_succ_self i) hc

theorem LaneInv.enter (laneMaxMs i : Nat) : LaneInv (s.enter laneMaxMs i) := by
  unfold RefreshLanes.enter
  cases hc : s.calls[i]? with
  | none => exact h
  | some c =>
    dsimp only
    split
    · rename_i hturn
      have hnot : c.phase ≠ .released := by
        rw [hturn.1]
        exact nofun
      refine h.modify (c := c) ?_ ?_
      · constructor
        · exact hc
        · exact fun _ => rfl
        · exact fun _ => rfl
        · exact fun hphase => absurd hphase hnot
        · exact fun group hgroup _ => h.releasedBefore ⟨hc, hgroup⟩ hturn.2
        · exact fun group hgroup hsettled =>
            absurd (h.released_of_settled ⟨hc, hgroup⟩ hsettled) hnot
        · exact fun _ _ => ⟨_, rfl⟩
        · exact nofun
        · exact fun _ _ => rfl
      · intro j
        simp
    · exact h

end

theorem RefreshCall.settle_phase (outcome : RefreshOutcome) (c : RefreshCall) :
    (c.settle outcome).phase = c.phase ∨
      ((∃ due, c.phase = .running due) ∧ (c.settle outcome).phase = .leaving) := by
  unfold RefreshCall.settle
  cases hphase : c.phase with
  | running due => exact Or.inr ⟨⟨due, rfl⟩, rfl⟩
  | waiting => exact Or.inl rfl
  | leaving => exact Or.inl rfl
  | spacing due => exact Or.inl rfl
  | released => exact Or.inl rfl

theorem RefreshCall.settle_not_running (outcome : RefreshOutcome) (c : RefreshCall) (due : Nat) :
    (c.settle outcome).phase ≠ .running due := by
  unfold RefreshCall.settle
  cases hphase : c.phase with
  | running due' => exact nofun
  | waiting => exact nofun
  | leaving => exact nofun
  | spacing due' => exact nofun
  | released => exact nofun

theorem RefreshCall.settle_frame (outcome : RefreshOutcome) (c : RefreshCall) :
    (c.settle outcome).group = c.group ∧ (c.settle outcome).prevTail = c.prevTail ∧
      (c.settle outcome).tailSettled = c.tailSettled ∧
      (c.settle outcome).fnRunning = false := by
  unfold RefreshCall.settle
  cases c.phase <;> exact ⟨rfl, rfl, rfl, rfl⟩

section

variable (h : LaneInv s)
include h

theorem LaneInv.settle (i : Nat) (outcome : RefreshOutcome) : LaneInv (s.settle i outcome) := by
  unfold RefreshLanes.settle
  cases hc : s.calls[i]? with
  | none => exact h
  | some c =>
    dsimp only
    split
    · have hframe := RefreshCall.settle_frame outcome c
      have hphase := RefreshCall.settle_phase outcome c
      refine h.modifyCall (c := c) ?_ ?_
      · constructor
        · exact hc
        · exact fun d => (RefreshCall.settle_frame outcome d).1
        · exact fun d => (RefreshCall.settle_frame outcome d).2.1
        · intro hdone
          rcases hphase with hsame | ⟨⟨due, hrunning⟩, -⟩
          · rw [hsame, hdone]
          · rw [hrunning] at hdone
            cases hdone
        · intro group hgroup hafter
          refine h.entered group i c ⟨hc, hgroup⟩ ?_
          rcases hphase with hsame | ⟨⟨due, hrunning⟩, -⟩
          · rwa [hsame] at hafter
          · rw [hrunning]
            exact nofun
        · intro group hgroup hsettled
          rw [hframe.2.2.1] at hsettled
          have hdone := h.released_of_settled ⟨hc, hgroup⟩ hsettled
          rcases hphase with hsame | ⟨⟨due, hrunning⟩, -⟩
          · rw [hsame, hdone]
          · rw [hrunning] at hdone
            cases hdone
        · intro hrunning
          rw [hframe.2.2.2] at hrunning
          cases hrunning
        · intro hbefore
          rcases hphase with hsame | ⟨-, hleaving⟩
          · rwa [hsame]
          · rw [hleaving]
            exact nofun
        · intro due hrunning
          have hnot := RefreshCall.settle_not_running outcome c due
          exact absurd hrunning hnot
      · intro hafter
        rcases hphase with hsame | ⟨⟨due, hrunning⟩, -⟩
        · rwa [hsame] at hafter
        · rw [hrunning]
          exact nofun
    · exact h

theorem LaneInv.moveOn (hc : s.InLane group i c) {phase : LanePhase}
    (hphase : c.phase ≠ .waiting) (hnot : c.phase ≠ .released)
    (hrunning : ∀ due, c.phase ≠ .running due) (hafter : phase ≠ .waiting)
    (hafter' : ∀ due, phase ≠ .running due) :
    LaneInv (s.modifyCall i fun c => { c with phase := phase }) := by
  refine h.modifyCall (c := c) ?_ (fun _ => hphase)
  constructor
  · exact hc.1
  · exact fun _ => rfl
  · exact fun _ => rfl
  · exact fun hdone => absurd hdone hnot
  · intro group' hgroup' _
    exact h.entered group' i c ⟨hc.1, hgroup'⟩ hphase
  · intro group' hgroup' hsettled
    exact absurd (h.released_of_settled ⟨hc.1, hgroup'⟩ hsettled) hnot
  · intro hfn _
    obtain ⟨due, hdue⟩ := h.running group i c hc hfn
    exact absurd hdue (hrunning due)
  · exact fun _ => hafter
  · exact fun due hdue => absurd hdue (hafter' due)

theorem LaneInv.releaseMine (hc : s.InLane group i c) (hphase : c.phase ≠ .waiting)
    (hnot : c.phase ≠ .released) (hrunning : ∀ due, c.phase ≠ .running due) :
    LaneInv (s.releaseMine i group) := by
  have hmoved : LaneInv (s.modifyCall i fun c => { c with phase := .released }) :=
    h.moveOn hc hphase hnot hrunning nofun nofun
  unfold RefreshLanes.releaseMine
  split
  · rename_i htail
    refine hmoved.dropTail (c := { c with phase := .released }) htail ?_ rfl
    refine ⟨?_, hc.2⟩
    exact modify_self hc.1
  · exact hmoved

theorem LaneInv.finish (i spacing : Nat) : LaneInv (s.finish i spacing) := by
  unfold RefreshLanes.finish
  split
  · rename_i group _ _ _ _ hc
    split
    · exact h.moveOn ⟨hc, rfl⟩ (by simp) (by simp) (by simp) (by simp) (by simp)
    · exact h.releaseMine ⟨hc, rfl⟩ (by simp) (by simp) (by simp)
  · exact h

theorem LaneInv.release (i : Nat) : LaneInv (s.release i) := by
  unfold RefreshLanes.release
  split
  · rename_i group _ _ _ _ _ hc
    split
    · exact h.releaseMine ⟨hc, rfl⟩ nofun nofun nofun
    · exact h
  · exact h

theorem LaneInv.settleTail (i : Nat) : LaneInv (s.settleTail i) := by
  unfold RefreshLanes.settleTail
  cases hc : s.calls[i]? with
  | none => exact h
  | some c =>
    dsimp only
    split
    · rename_i hdone
      refine h.modifyCall (c := c) ?_ id
      constructor
      · exact hc
      · exact fun _ => rfl
      · exact fun _ => rfl
      · exact id
      · exact fun group hgroup hphase => h.entered group i c ⟨hc, hgroup⟩ hphase
      · exact fun _ _ _ => hdone.1
      · intro hrunning hgroup
        obtain ⟨group, hgroup⟩ := Option.ne_none_iff_exists'.mp hgroup
        exact h.running group i c ⟨hc, hgroup⟩ hrunning
      · exact id
      · exact fun due hphase => h.runs i c due hc hphase
    · exact h

end

/-! ## Runs in which every refresh ends in time -/

/-- No lane timer fires while the function of its call still runs. -/
def InTime (s : RefreshLanes) : LaneEvent → Prop
  | .laneTimeout i => ∀ c due, s.calls[i]? = some c → c.phase = .running due → s.now < due
  | _ => True

theorem laneTimeout_of_inTime (h : s.InTime (.laneTimeout i)) : s.laneTimeout i = s := by
  unfold RefreshLanes.laneTimeout
  split
  · rename_i hc
    have hlt := h _ _ hc rfl
    rw [if_neg (by omega)]
  · rfl

theorem LaneInv.step {s : RefreshLanes} (h : LaneInv s) (laneMaxMs : Nat) {e : LaneEvent}
    (htime : s.InTime e) : LaneInv (s.step laneMaxMs e) := by
  cases e with
  | call provider => exact h.call provider
  | enter i => exact h.enter laneMaxMs i
  | settle i outcome => exact h.settle i outcome
  | laneTimeout i =>
    show LaneInv (s.laneTimeout i)
    rw [laneTimeout_of_inTime htime]
    exact h
  | finish i spacing => exact h.finish i spacing
  | release i => exact h.release i
  | settleTail i => exact h.settleTail i
  | advance ms =>
    exact { h with }

theorem laneInv_init : LaneInv {} where
  tail := by intro group t ht; cases ht
  noTail := by rintro group - i c ⟨hc, -⟩; cases hc
  prev := by rintro group j c p ⟨hc, -⟩; cases hc
  chain := by rintro group j c ⟨hc, -⟩; cases hc
  settled := by rintro group j c ⟨hc, -⟩; cases hc
  entered := by rintro group j c ⟨hc, -⟩; cases hc
  running := by rintro group j c ⟨hc, -⟩; cases hc
  started := by intro j c hc; cases hc
  bounded := by intro j hj; cases hj
  runs := by intro j c due hc; cases hc

theorem laneInv_run {laneMaxMs : Nat} {events : List LaneEvent}
    (htime : Along (step laneMaxMs) InTime {} events) : LaneInv (run laneMaxMs events) :=
  along_invariant LaneInv (fun _ _ h he => h.step laneMaxMs he) laneInv_init htime


/-! ## Order of the functions -/

/-- The functions of a group were called in the order of its calls. -/
def InOrder (s : RefreshLanes) : Prop :=
  s.started.Pairwise fun i j => ∀ group c d, s.InLane group i c → s.InLane group j d → i < j

/-- What no event changes about a call. -/
structure Frame (c c' : RefreshCall) : Prop where
  group : c'.group = c.group
  prevTail : c'.prevTail = c.prevTail
  tailSettled : c.tailSettled = true → c'.tailSettled = true

theorem Frame.refl (c : RefreshCall) : Frame c c := ⟨rfl, rfl, id⟩

/-- What an event other than a new call does: it changes one call, and may start it. -/
def Moves (s s' : RefreshLanes) : Prop :=
  ∃ i f, s'.calls = s.calls.modify i f ∧ (∀ c, Frame c (f c)) ∧
    (s'.started = s.started ∨
      s'.started = s.started ++ [i] ∧ ∃ c, s.calls[i]? = some c ∧ c.phase = .waiting)

theorem Moves.refl (s : RefreshLanes) : Moves s s :=
  ⟨0, id, (modify_id 0 s.calls).symm, Frame.refl, .inl rfl⟩

theorem moves_phase (i : Nat) (phase : LanePhase) (t : JsMap JsString Nat) (now : Nat) :
    Moves s ⟨s.calls.modify i fun c => { c with phase := phase }, t, s.started, now⟩ :=
  ⟨i, _, rfl, fun _ => ⟨rfl, rfl, id⟩, .inl rfl⟩

theorem step_moves (laneMaxMs : Nat) (s : RefreshLanes) {e : LaneEvent}
    (he : ∀ provider, e ≠ .call provider) : Moves s (s.step laneMaxMs e) := by
  cases e with
  | call provider => exact absurd rfl (he provider)
  | enter i =>
    show Moves s (s.enter laneMaxMs i)
    unfold enter
    split
    · exact .refl s
    · rename_i c hc
      split
      · rename_i hturn
        exact ⟨i, _, rfl, fun _ => ⟨rfl, rfl, id⟩, .inr ⟨rfl, c, hc, hturn.1⟩⟩
      · exact .refl s
  | settle i outcome =>
    show Moves s (s.settle i outcome)
    unfold settle
    split
    · exact .refl s
    · split
      · refine ⟨i, RefreshCall.settle outcome, rfl, fun c => ?_, .inl rfl⟩
        obtain ⟨hgroup, hprev, htail, -⟩ := RefreshCall.settle_frame outcome c
        exact ⟨hgroup, hprev, fun h => htail.trans h⟩
      · exact .refl s
  | laneTimeout i =>
    show Moves s (s.laneTimeout i)
    unfold laneTimeout
    split
    · split
      · exact ⟨i, _, rfl, fun _ => ⟨rfl, rfl, id⟩, .inl rfl⟩
      · exact .refl s
    · exact .refl s
  | finish i spacing =>
    show Moves s (s.finish i spacing)
    unfold finish
    split
    · split <;> exact moves_phase ..
    · exact .refl s
  | release i =>
    show Moves s (s.release i)
    unfold release
    split
    · split
      · exact moves_phase ..
      · exact .refl s
    · exact .refl s
  | settleTail i =>
    show Moves s (s.settleTail i)
    unfold settleTail
    split
    · exact .refl s
    · split
      · exact ⟨i, _, rfl, fun _ => ⟨rfl, rfl, fun _ => rfl⟩, .inl rfl⟩
      · exact .refl s
  | advance ms => exact .refl s

theorem frame_of_step (laneMaxMs : Nat) (s : RefreshLanes) (e : LaneEvent) {c' : RefreshCall}
    (hi : i < s.calls.length) (hc' : (s.step laneMaxMs e).calls[i]? = some c') :
    ∃ c, s.calls[i]? = some c ∧ Frame c c' := by
  by_cases he : ∃ provider, e = .call provider
  · obtain ⟨provider, rfl⟩ := he
    have hsame : (s.step laneMaxMs (.call provider)).calls[i]? = s.calls[i]? := by
      show (s.call provider).calls[i]? = _
      unfold call
      split <;> exact getElem?_append_left hi
    exact ⟨c', hsame ▸ hc', Frame.refl c'⟩
  · obtain ⟨j, f, hcalls, hf, -⟩ := step_moves laneMaxMs s (fun provider h => he ⟨provider, h⟩)
    rw [hcalls] at hc'
    obtain ⟨c, hc, ⟨-, rfl⟩ | ⟨-, rfl⟩⟩ := modify_cases hc'
    · exact ⟨c, hc, hf c⟩
    · exact ⟨c', hc, Frame.refl c'⟩

/-- An event keeps the order when the calls that it starts come after those
of their groups. -/
theorem InOrder.extend (h : InOrder s) (hinv : LaneInv s) {laneMaxMs : Nat} {e : LaneEvent}
    {new : List Nat} (hstarted : (s.step laneMaxMs e).started = s.started ++ new)
    (hnew : new.Pairwise fun i j => ∀ group c d, (s.step laneMaxMs e).InLane group i c →
      (s.step laneMaxMs e).InLane group j d → i < j)
    (hlater : ∀ i ∈ s.started, ∀ j ∈ new, ∀ group c d, (s.step laneMaxMs e).InLane group i c →
      (s.step laneMaxMs e).InLane group j d → i < j) : InOrder (s.step laneMaxMs e) := by
  unfold InOrder
  rw [hstarted, pairwise_append]
  refine ⟨?_, hnew, hlater⟩
  refine List.Pairwise.imp_of_mem ?_ h
  intro i j hi hj hlt group c d hc hd
  obtain ⟨c₀, hc₀, hframe⟩ := frame_of_step laneMaxMs s e (hinv.bounded i hi) hc.1
  obtain ⟨d₀, hd₀, hframe'⟩ := frame_of_step laneMaxMs s e (hinv.bounded j hj) hd.1
  exact hlt group c₀ d₀ ⟨hc₀, hframe.group ▸ hc.2⟩ ⟨hd₀, hframe'.group ▸ hd.2⟩

/-- What an event starts: a call outside of the lanes, or one whose turn has
come. -/
theorem started_step (laneMaxMs : Nat) (s : RefreshLanes) (e : LaneEvent) :
    (s.step laneMaxMs e).started = s.started ∨
    (∃ c₀, (s.step laneMaxMs e).started = s.started ++ [s.calls.length] ∧ c₀.group = none ∧
      (s.step laneMaxMs e).calls = s.calls ++ [c₀]) ∨
    ∃ i c, (s.step laneMaxMs e).started = s.started ++ [i] ∧ s.calls[i]? = some c ∧
      c.phase = .waiting := by
  by_cases he : ∃ provider, e = .call provider
  · obtain ⟨provider, rfl⟩ := he
    show (s.call provider).started = _ ∨
      (∃ c₀, (s.call provider).started = _ ∧ _ ∧ (s.call provider).calls = s.calls ++ [c₀]) ∨ _
    unfold call
    split
    · exact .inr (.inl ⟨_, rfl, rfl, rfl⟩)
    · exact .inl rfl
  · obtain ⟨i, -, -, -, hsame | ⟨hnew, c, hc, hphase⟩⟩ :=
      step_moves laneMaxMs s (fun provider h => he ⟨provider, h⟩)
    · exact .inl hsame
    · exact .inr (.inr ⟨i, c, hnew, hc, hphase⟩)

theorem InOrder.step {s : RefreshLanes} (h : InOrder s) (hinv : LaneInv s) (laneMaxMs : Nat)
    (e : LaneEvent) : InOrder (s.step laneMaxMs e) := by
  rcases started_step laneMaxMs s e with hsame | ⟨c₀, hnew, hgroup, hcalls⟩ | ⟨i, c, hnew, hc, hphase⟩
  · have hnone : (s.step laneMaxMs e).started = s.started ++ [] := by
      rw [hsame, append_nil]
    exact h.extend hinv hnone .nil (by simp)
  · refine h.extend hinv hnew (pairwise_singleton _ _) ?_
    intro i _ j hj group c d _ hd
    obtain rfl := mem_singleton.mp hj
    have hd₀ : d = c₀ := by
      have hget := hd.1
      rw [hcalls] at hget
      simpa using hget.symm
    rw [← hd₀, hd.2] at hgroup
    cases hgroup
  · refine h.extend hinv hnew (pairwise_singleton _ _) ?_
    intro j hj i' hi' group c' d' hc' hd'
    obtain rfl := mem_singleton.mp hi'
    obtain ⟨d, hd, hframe⟩ := frame_of_step laneMaxMs s e (List.getElem?_eq_some_iff.mp hc).1 hd'.1
    obtain ⟨b, hb, hframe'⟩ := frame_of_step laneMaxMs s e (hinv.bounded j hj) hc'.1
    obtain rfl := Option.some.inj (hc.symm.trans hd)
    have hlane : s.InLane group i' c := ⟨hc, hframe.group ▸ hd'.2⟩
    have hlane' : s.InLane group j b := ⟨hb, hframe'.group ▸ hc'.2⟩
    have hentered := (hinv.started j b hb).mp hj
    rcases Nat.lt_trichotomy j i' with hlt | rfl | hgt
    · exact hlt
    · exact absurd (hlane'.unique hc ▸ hphase) hentered
    · -- a call that has entered comes after calls that have left
      have hreleased := hinv.entered group j b hlane' hentered i' c hgt hlane
      rw [hphase] at hreleased
      cases hreleased

/-! ## Every call has its turn -/

/-- The events that serve the calls that are there: their functions settle as
`outcome` says, the delays are read as `spacing` says, promises settle and
time passes. -/
def Serves (outcome : Nat → RefreshOutcome) (spacing : Nat → Nat) : LaneEvent → Prop
  | .call _ => False
  | .laneTimeout _ => False
  | .settle i o => o = outcome i
  | .finish i ms => ms = spacing i
  | _ => True

section turns

variable {laneMaxMs : Nat} {outcome : Nat → RefreshOutcome} {spacing : Nat → Nat}
variable {s : RefreshLanes} {group : JsString} {k : Nat} {c c' : RefreshCall}

theorem LaneInv.serve (h : LaneInv s) {e : LaneEvent} (he : Serves outcome spacing e) :
    LaneInv (s.step laneMaxMs e) := by
  refine h.step laneMaxMs ?_
  cases e with
  | laneTimeout i => exact he.elim
  | _ => trivial

theorem LaneInv.serves (h : LaneInv s) {later : List LaneEvent}
    (hlater : ∀ e ∈ later, Serves outcome spacing e) :
    LaneInv (later.foldl (RefreshLanes.step laneMaxMs) s) := by
  induction later generalizing s with
  | nil => exact h
  | cons e later ih =>
    exact ih (h.serve (hlater e mem_cons_self)) (fun e' he' => hlater e' (mem_cons_of_mem _ he'))

theorem step_keeps (laneMaxMs : Nat) (e : LaneEvent) (hc : s.calls[k]? = some c) :
    ∃ c', (s.step laneMaxMs e).calls[k]? = some c' ∧ Frame c c' := by
  have hlt := (List.getElem?_eq_some_iff.mp hc).1
  have hlength : s.calls.length ≤ (s.step laneMaxMs e).calls.length := by
    by_cases he : ∃ provider, e = .call provider
    · obtain ⟨provider, rfl⟩ := he
      show _ ≤ (s.call provider).calls.length
      unfold call
      split <;> simp
    · obtain ⟨j, f, hcalls, -, -⟩ := step_moves laneMaxMs s (fun provider h => he ⟨provider, h⟩)
      rw [hcalls, length_modify]
  obtain ⟨c', hc'⟩ : ∃ c', (s.step laneMaxMs e).calls[k]? = some c' :=
    ⟨_, getElem?_eq_getElem (by omega)⟩
  obtain ⟨b, hb, hframe⟩ := frame_of_step laneMaxMs s e hlt hc'
  obtain rfl := Option.some.inj (hc.symm.trans hb)
  exact ⟨c', hc', hframe⟩

theorem run_keeps (laneMaxMs : Nat) (later : List LaneEvent) (hc : s.calls[k]? = some c) :
    ∃ c', (later.foldl (step laneMaxMs) s).calls[k]? = some c' ∧ Frame c c' := by
  induction later generalizing s c with
  | nil => exact ⟨c, hc, Frame.refl c⟩
  | cons e later ih =>
    obtain ⟨b, hb, hframe⟩ := step_keeps laneMaxMs e hc
    obtain ⟨c', hc', hframe'⟩ := ih hb
    exact ⟨c', hc', hframe'.group.trans hframe.group, hframe'.prevTail.trans hframe.prevTail,
      fun h => hframe'.tailSettled (hframe.tailSettled h)⟩

/-- The call of an index, when everything it waits for is done. -/
structure Turn (s : RefreshLanes) (group : JsString) (k : Nat) (c : RefreshCall) : Prop where
  inv : LaneInv s
  lane : s.InLane group k c
  done : s.tailDone c.prevTail = true

theorem tailDone_keeps {e : LaneEvent} {prevTail : Option Nat}
    (h : s.tailDone prevTail = true) : (s.step laneMaxMs e).tailDone prevTail = true := by
  cases prevTail with
  | none => rfl
  | some p =>
    obtain ⟨d, hd, hsettled⟩ := tailDone_some h
    obtain ⟨d', hd', hframe⟩ := step_keeps laneMaxMs e hd
    exact tailDone_of_settled hd' (hframe.tailSettled hsettled)

theorem Turn.serve (h : Turn s group k c) {e : LaneEvent} (he : Serves outcome spacing e)
    (hc' : (s.step laneMaxMs e).calls[k]? = some c') :
    Turn (s.step laneMaxMs e) group k c' := by
  obtain ⟨b, hb, hframe⟩ := step_keeps laneMaxMs e h.lane.1
  obtain rfl := Option.some.inj (hb.symm.trans hc')
  refine ⟨h.inv.serve he, ⟨hb, hframe.group.trans h.lane.2⟩, ?_⟩
  rw [hframe.prevTail]
  exact tailDone_keeps h.done

variable (laneMaxMs outcome spacing) in
/-- The tail of a call can be made to settle by serving the calls. -/
def Settles (s : RefreshLanes) (k : Nat) : Prop :=
  ∃ later : List LaneEvent, (∀ e ∈ later, Serves outcome spacing e) ∧
    ∃ c', (later.foldl (step laneMaxMs) s).calls[k]? = some c' ∧ c'.tailSettled = true

theorem Settles.cons {e : LaneEvent} (he : Serves outcome spacing e)
    (h : Settles laneMaxMs outcome spacing (s.step laneMaxMs e) k) :
    Settles laneMaxMs outcome spacing s k := by
  obtain ⟨later, hlater, hdone⟩ := h
  refine ⟨e :: later, ?_, hdone⟩
  intro e' he'
  rcases mem_cons.mp he' with rfl | hrest
  · exact he
  · exact hlater e' hrest

section

variable (h : Turn s group k c)
include h

theorem settles_of_released (hphase : c.phase = .released) :
    Settles laneMaxMs outcome spacing s k := by
  refine ⟨[.settleTail k], by simp [Serves], { c with tailSettled := true }, ?_, rfl⟩
  show (s.settleTail k).calls[k]? = _
  unfold settleTail
  rw [h.lane.1]
  dsimp only
  rw [if_pos ⟨hphase, h.done⟩]
  exact modify_self h.lane.1

theorem settles_of_spacing {due : Nat} (hphase : c.phase = .spacing due) :
    Settles laneMaxMs outcome spacing s k := by
  have hadvance : Serves outcome spacing (.advance due) := trivial
  have hrelease : Serves outcome spacing (.release k) := trivial
  refine .cons hadvance (.cons hrelease ?_)
  have hlater : Turn (s.step laneMaxMs (.advance due)) group k c :=
    h.serve hadvance h.lane.1
  have hreleased : ((s.step laneMaxMs (.advance due)).step laneMaxMs (.release k)).calls[k]? =
      some { c with phase := .released } := by
    show (({ s with now := s.now + due } : RefreshLanes).release k).calls[k]? = _
    obtain ⟨_, _, _, _, _, _⟩ := c
    obtain rfl : _ = some group := h.lane.2
    obtain rfl : _ = LanePhase.spacing due := hphase
    have hget : ({ s with now := s.now + due } : RefreshLanes).calls[k]? = _ := h.lane.1
    unfold release
    rw [hget]
    dsimp only
    rw [if_pos (by omega)]
    exact modify_self h.lane.1
  exact settles_of_released (hlater.serve hrelease hreleased) rfl

theorem settles_of_leaving (hphase : c.phase = .leaving) :
    Settles laneMaxMs outcome spacing s k := by
  have hfinish : Serves outcome spacing (.finish k (spacing k)) := rfl
  refine .cons hfinish ?_
  have hafter : ∃ phase, ((∃ due, phase = .spacing due) ∨ phase = .released) ∧
      (s.step laneMaxMs (.finish k (spacing k))).calls[k]? = some { c with phase := phase } := by
    show ∃ phase, _ ∧ (s.finish k (spacing k)).calls[k]? = _
    obtain ⟨_, _, _, _, _, _⟩ := c
    obtain rfl : _ = some group := h.lane.2
    obtain rfl : _ = LanePhase.leaving := hphase
    unfold finish
    rw [h.lane.1]
    dsimp only
    split
    · exact ⟨_, Or.inl ⟨_, rfl⟩, modify_self h.lane.1⟩
    · exact ⟨_, Or.inr rfl, modify_self h.lane.1⟩
  obtain ⟨phase, ⟨due, rfl⟩ | rfl, hget⟩ := hafter
  · exact settles_of_spacing (h.serve hfinish hget) rfl
  · exact settles_of_released (h.serve hfinish hget) rfl

theorem settles_of_running {due : Nat} (hphase : c.phase = .running due) :
    Settles laneMaxMs outcome spacing s k := by
  have hsettle : Serves outcome spacing (.settle k (outcome k)) := rfl
  refine .cons hsettle ?_
  have hget : (s.step laneMaxMs (.settle k (outcome k))).calls[k]? =
      some (c.settle (outcome k)) := by
    show (s.settle k (outcome k)).calls[k]? = _
    unfold settle
    rw [h.lane.1]
    dsimp only
    rw [if_pos (h.inv.runs k c due h.lane.1 hphase)]
    exact modify_self h.lane.1
  refine settles_of_leaving (h.serve hsettle hget) ?_
  unfold RefreshCall.settle
  rw [hphase]

end

variable (laneMaxMs) in
theorem Turn.entered (h : Turn s group k c) (hphase : c.phase = .waiting) :
    (s.step laneMaxMs (.enter k)).calls[k]? =
      some { c with phase := .running (s.now + laneMaxMs), fnRunning := true } := by
  show (s.enter laneMaxMs k).calls[k]? = _
  unfold enter
  rw [h.lane.1]
  dsimp only
  rw [if_pos ⟨hphase, h.done⟩]
  exact modify_self h.lane.1

variable (laneMaxMs outcome spacing) in
theorem Turn.settles (h : Turn s group k c) : Settles laneMaxMs outcome spacing s k := by
  cases hphase : c.phase with
  | waiting =>
    have henter : Serves outcome spacing (.enter k) := trivial
    exact .cons henter (settles_of_running (h.serve henter (h.entered laneMaxMs hphase)) rfl)
  | running due => exact settles_of_running h hphase
  | leaving => exact settles_of_leaving h hphase
  | spacing due => exact settles_of_spacing h hphase
  | released => exact settles_of_released h hphase

variable (laneMaxMs outcome spacing) in
/-- The turn of a call comes: the calls before it are served one after the
other. -/
theorem exists_turn (h : LaneInv s) (hc : s.InLane group k c) :
    ∃ later : List LaneEvent, (∀ e ∈ later, Serves outcome spacing e) ∧
      ∃ c', Turn (later.foldl (step laneMaxMs) s) group k c' := by
  induction k using Nat.strong_induction_on generalizing s c with
  | _ k ih =>
    cases hprev : c.prevTail with
    | none =>
      refine ⟨[], by simp, c, h, hc, ?_⟩
      rw [hprev]
      rfl
    | some p =>
      obtain ⟨hlt, d, hd⟩ := h.prev group k c p hc hprev
      obtain ⟨first, hfirst, d', hturn⟩ := ih p hlt h hd
      obtain ⟨rest, hrest, e, he, hsettled⟩ :=
        hturn.settles laneMaxMs outcome spacing
      have hall : ∀ e ∈ first ++ rest, Serves outcome spacing e := by
        intro e he
        rcases mem_append.mp he with hmem | hmem
        · exact hfirst e hmem
        · exact hrest e hmem
      obtain ⟨c', hc', hframe⟩ := run_keeps laneMaxMs (first ++ rest) hc.1
      refine ⟨first ++ rest, hall, c', h.serves hall, ⟨hc', hframe.group.trans hc.2⟩, ?_⟩
      rw [hframe.prevTail, hprev, foldl_append]
      exact tailDone_of_settled he hsettled

variable (laneMaxMs outcome spacing) in
/-- Every call of a group gets to its function, whatever those before it end
with. -/
theorem exists_started (h : LaneInv s) (hc : s.InLane group k c) :
    ∃ later : List LaneEvent, (∀ e ∈ later, Serves outcome spacing e) ∧
      k ∈ (later.foldl (step laneMaxMs) s).started := by
  obtain ⟨later, hlater, c', hturn⟩ :=
    exists_turn laneMaxMs outcome spacing h hc
  by_cases hphase : c'.phase = .waiting
  · have henter : Serves outcome spacing (.enter k) := trivial
    have hafter := hturn.serve henter (hturn.entered laneMaxMs hphase)
    refine ⟨later ++ [.enter k], ?_, ?_⟩
    · intro e he
      rcases mem_append.mp he with hmem | hmem
      · exact hlater e hmem
      · rw [mem_singleton.mp hmem]
        exact henter
    · rw [foldl_append]
      exact (hafter.inv.started k _ hafter.lane.1).mpr nofun
  · exact ⟨later, hlater, (hturn.inv.started k c' hturn.lane.1).mpr hphase⟩

end turns

theorem LaneInv.exclusive (h : LaneInv s) {j : Nat} {d : RefreshCall} (hc : s.InLane group i c)
    (hd : s.InLane group j d) (hrun : c.fnRunning = true) (hrun' : d.fnRunning = true) : i = j := by
  have hrunning : ∀ i j c d, s.InLane group i c → s.InLane group j d → c.fnRunning = true →
      d.fnRunning = true → ¬ i < j := by
    intro i j c d hc hd hrun hrun' hlt
    obtain ⟨due, hphase⟩ := h.running group i c hc hrun
    obtain ⟨due', hphase'⟩ := h.running group j d hd hrun'
    have hreleased := h.entered group j d hd (by rw [hphase']; exact nofun) i c hlt hc
    rw [hphase] at hreleased
    cases hreleased
  have hij := hrunning i j c d hc hd hrun hrun'
  have hji := hrunning j i d c hd hc hrun' hrun
  omega

/-- The refreshes of a rotation group are serialized: at most one of their
functions runs, they are called in the order of the calls, and each call gets
to its function whatever those before it end with. -/
theorem serializeRefresh_serialized {laneMaxMs : Nat} {events : List LaneEvent}
    (htime : Along (step laneMaxMs) InTime {} events) :
    let s := run laneMaxMs events
    (∀ group i j c d, s.InLane group i c → s.InLane group j d → c.fnRunning = true →
      d.fnRunning = true → i = j) ∧
    s.started.Pairwise (fun i j => ∀ group c d, s.InLane group i c → s.InLane group j d → i < j) ∧
    (∀ group i j c d, s.InLane group i c → s.InLane group j d → i < j → j ∈ s.started →
      i ∈ s.started) ∧
    (∀ outcome spacing group k c, s.InLane group k c →
      ∃ later : List LaneEvent, (∀ e ∈ later, Serves outcome spacing e) ∧
        k ∈ (later.foldl (step laneMaxMs) s).started) := by
  intro s
  have hinv : LaneInv s := laneInv_run htime
  refine ⟨?_, ?_, ?_, ?_⟩
  · intro group i j c d hc hd hrun hrun'
    exact hinv.exclusive hc hd hrun hrun'
  · have hboth : LaneInv s ∧ InOrder s :=
      along_invariant (fun s => LaneInv s ∧ InOrder s)
        (fun s e h he => ⟨h.1.step laneMaxMs he, h.2.step h.1 laneMaxMs e⟩)
        ⟨laneInv_init, List.Pairwise.nil⟩ htime
    exact hboth.2
  · intro group i j c d hc hd hlt hmem
    have hentered := (hinv.started j d hd.1).mp hmem
    refine (hinv.started i c hc.1).mpr ?_
    rw [hinv.entered group j d hd hentered i c hlt hc]
    exact nofun
  · intro outcome spacing group k c hc
    exact exists_started laneMaxMs outcome spacing hinv hc

/-- The refresh of one account fails while that of a sibling is queued. -/
def siblingRefreshes : List LaneEvent :=
  [.call (js "codex"), .call (js "openai"), .enter 0, .enter 1, .settle 0 .rejected,
    .finish 0 2000, .enter 1, .advance 2000, .release 0, .settleTail 0, .enter 1]

example : (run 60000 siblingRefreshes).started = [0, 1] := by decide

theorem serializeRefresh_serialized_siblings :
    let s := run 60000 siblingRefreshes
    (∀ group i j c d, s.InLane group i c → s.InLane group j d → c.fnRunning = true →
      d.fnRunning = true → i = j) ∧
    s.started.Pairwise (fun i j => ∀ group c d, s.InLane group i c → s.InLane group j d → i < j) ∧
    (∀ group i j c d, s.InLane group i c → s.InLane group j d → i < j → j ∈ s.started →
      i ∈ s.started) ∧
    (∀ outcome spacing group k c, s.InLane group k c →
      ∃ later : List LaneEvent, (∀ e ∈ later, Serves outcome spacing e) ∧
        k ∈ (later.foldl (step 60000) s).started) :=
  serializeRefresh_serialized ⟨trivial, trivial, trivial, trivial, trivial, trivial, trivial,
    trivial, trivial, trivial, trivial, trivial⟩

end RefreshLanes

end RedRouter.Services
