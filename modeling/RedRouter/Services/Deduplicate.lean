import RedRouter.Lib.JsMap
import RedRouter.Lib.Places
import RedRouter.Lib.Runs
import RedRouter.Services.RequestDedup

/-!
# Requests that share one call

`deduplicate` keeps the promise of each upstream call that is under way in
`inflight`, under the hash of its request.  A request that finds a promise
there waits for it, any other starts its own function.  An entry is dropped
when its call ends, when its timer fires, or when a call needs room.

A caller is named by its place among all of them, and so is the promise that
it registered.  What happens to an entry is written down in `entry`, which the
source has no field for.
-/

namespace RedRouter.Services

open List Runs Places

def maxInflight : Nat := 1000

structure DedupConfig where
  enabled : Bool := true
  timeoutMs : Nat := 60000
deriving DecidableEq

inductive CallSource where
  /-- it registered its own promise and called its function -/
  | own
  /-- deduplication was off, it called its function -/
  | bypass
  /-- it found the promise of another caller -/
  | joined (leader : Nat)
deriving DecidableEq

inductive EntryState where
  | absent
  | registered
  | removed
  | timedOut
  | evicted
deriving DecidableEq

/-- A call of `deduplicate`.  `settled` is what its function ended with, the
result or the error, and `received` what the caller got. -/
structure DedupCaller (α : Type) where
  tenantId : Option JsString
  hash : JsString
  source : CallSource
  fnRunning : Bool
  dueAt : Nat
  timerOn : Bool
  entry : EntryState
  settled : Option α
  received : Option α

def DedupCaller.settle {α : Type} (outcome : α) (c : DedupCaller α) : DedupCaller α :=
  { c with
    fnRunning := false
    timerOn := false
    settled := some outcome
    received := some outcome }

def DedupCaller.stopTimer {α : Type} (c : DedupCaller α) : DedupCaller α :=
  { c with timerOn := false }

/-- A request, as it is hashed. -/
structure DedupRequest where
  body : JsValue
  tenantId : Option JsString
  trustedContext : Option TrustedContext

structure Dedup (α : Type) where
  inflight : JsMap JsString Nat := []
  callers : List (DedupCaller α) := []
  now : Nat := 0

inductive DedupEvent (α : Type) where
  | call (request : DedupRequest) (config : DedupConfig)
  /-- the function of a caller ends with a result or an error -/
  | settle (i : Nat) (outcome : α)
  /-- a waiting caller gets what the promise that it found is settled with -/
  | deliver (i : Nat)
  | timeout (i : Nat)
  | advance (ms : Nat)

namespace Dedup

variable {α : Type} (fmt : UInt64 → JsString) (sha256 : List UInt8 → List UInt8)

def hashOf (request : DedupRequest) : JsString :=
  computeRequestHash fmt sha256 request.body request.tenantId request.trustedContext

def modifyCaller (i : Nat) (f : DedupCaller α → DedupCaller α) (s : Dedup α) : Dedup α :=
  { s with callers := s.callers.modify i f }

/-- `if (inflight.get(hash) === sharedPromise) inflight.delete(hash)`. -/
def dropEntry (i : Nat) (hash : JsString) (entry : EntryState) (s : Dedup α) : Dedup α :=
  if s.inflight.get hash = some i then
    { s.modifyCaller i (fun c => { c with entry := entry }) with
      inflight := s.inflight.delete hash }
  else s

/-- The oldest entry gives room. -/
def evict (s : Dedup α) : Dedup α :=
  match s.inflight with
  | [] => s
  | (oldestKey, i) :: _ => s.dropEntry i oldestKey .evicted

/-- The entry of a caller that starts its own function. -/
def register (hash : JsString) (tenantId : Option JsString) (timeoutMs : Nat) (s : Dedup α) :
    Dedup α :=
  { s with
    inflight := s.inflight.set hash s.callers.length
    callers := s.callers ++
      [⟨tenantId, hash, .own, true, s.now + timeoutMs, true, .registered, none, none⟩] }

/-- A caller that registers nothing. -/
def attach (hash : JsString) (tenantId : Option JsString) (source : CallSource)
    (fnRunning : Bool) (s : Dedup α) : Dedup α :=
  { s with
    callers := s.callers ++ [⟨tenantId, hash, source, fnRunning, 0, false, .absent, none, none⟩] }

def deduplicate (hash : JsString) (tenantId : Option JsString) (config : DedupConfig)
    (s : Dedup α) : Dedup α :=
  if !config.enabled then s.attach hash tenantId .bypass true
  else
    match s.inflight.get hash with
    | some leader => s.attach hash tenantId (.joined leader) false
    | none =>
        (if maxInflight ≤ s.inflight.length then s.evict else s).register hash tenantId
          config.timeoutMs

/-- The function of a caller ends, and the `finally` block after it. -/
def settle (i : Nat) (outcome : α) (s : Dedup α) : Dedup α :=
  match s.callers[i]? with
  | none => s
  | some c =>
      if c.fnRunning then
        (s.modifyCaller i (DedupCaller.settle outcome)).dropEntry i c.hash .removed
      else s

def outcomeOf (s : Dedup α) : CallSource → Option α
  | .joined leader => s.callers[leader]?.bind DedupCaller.settled
  | _ => none

/-- `await existing` of a caller. -/
def deliver (i : Nat) (s : Dedup α) : Dedup α :=
  match s.callers[i]? with
  | none => s
  | some c =>
      match s.outcomeOf c.source with
      | some outcome => s.modifyCaller i (fun c => { c with received := some outcome })
      | none => s

/-- The timer of a caller fires. -/
def timeout (i : Nat) (s : Dedup α) : Dedup α :=
  match s.callers[i]? with
  | none => s
  | some c =>
      if c.timerOn = true ∧ c.dueAt ≤ s.now then
        (s.modifyCaller i DedupCaller.stopTimer).dropEntry i c.hash .timedOut
      else s

def step (s : Dedup α) : DedupEvent α → Dedup α
  | .call request config => s.deduplicate (hashOf fmt sha256 request) request.tenantId config
  | .settle i outcome => s.settle i outcome
  | .deliver i => s.deliver i
  | .timeout i => s.timeout i
  | .advance ms => { s with now := s.now + ms }

def run (events : List (DedupEvent α)) : Dedup α := events.foldl (step fmt sha256) {}

/-! ## What holds between two events -/

structure DedupInv (s : Dedup α) : Prop where
  mapped : ∀ hash i, s.inflight.get hash = some i →
    ∃ c, s.callers[i]? = some c ∧ c.hash = hash ∧ c.entry = .registered
  registered : ∀ (i : Nat) c, s.callers[i]? = some c → c.entry = .registered →
    s.inflight.get c.hash = some i ∧ c.source = .own
  /-- a caller starts its function after the entry of an earlier one is gone -/
  alone : ∀ (i j : Nat) c d, i < j → s.callers[i]? = some c → s.callers[j]? = some d →
    d.source = .own → c.hash = d.hash → c.entry ≠ .registered
  running : ∀ (i : Nat) c, s.callers[i]? = some c → c.source = .own → c.fnRunning = true →
    c.entry = .registered ∨ c.entry = .timedOut ∨ c.entry = .evicted
  timedOut : ∀ (i : Nat) c, s.callers[i]? = some c → c.entry = .timedOut → c.dueAt ≤ s.now
  joined : ∀ (i p : Nat) c, s.callers[i]? = some c → c.source = .joined p →
    c.fnRunning = false ∧ ∃ d, s.callers[p]? = some d ∧ d.hash = c.hash
  fresh : ∀ (i : Nat) c, s.callers[i]? = some c → c.fnRunning = true → c.settled = none
  settled : ∀ (i : Nat) c r, s.callers[i]? = some c → c.settled = some r → ∀ p, c.source ≠ .joined p
  /-- what a caller got is what a function of its hash ended with -/
  received : ∀ (i : Nat) c r, s.callers[i]? = some c → c.received = some r →
    ∃ (p : Nat) (d : DedupCaller α), s.callers[p]? = some d ∧ d.hash = c.hash ∧ d.settled = some r
  hashed : ∀ (i : Nat) c, s.callers[i]? = some c →
    ∃ request, c.hash = hashOf fmt sha256 request ∧ c.tenantId = request.tenantId

variable {fmt sha256} {s : Dedup α}

/-- A change of a caller that leaves its entry alone. -/
structure Updates (s : Dedup α) (i : Nat) (c : DedupCaller α)
    (f : DedupCaller α → DedupCaller α) : Prop where
  found : s.callers[i]? = some c
  tenantId : (f c).tenantId = c.tenantId
  hash : (f c).hash = c.hash
  source : (f c).source = c.source
  dueAt : (f c).dueAt = c.dueAt
  entry : (f c).entry = c.entry
  fnRunning : (f c).fnRunning = true → c.fnRunning = true ∧ (f c).settled = c.settled
  keeps : ∀ r, c.settled = some r → (f c).settled = some r
  settled : ∀ r, (f c).settled = some r → c.settled = some r ∨ c.fnRunning = true
  received : ∀ r, (f c).received = some r → c.received = some r ∨ (f c).settled = some r ∨
    ∃ (p : Nat) (d : DedupCaller α), s.callers[p]? = some d ∧ d.hash = c.hash ∧ d.settled = some r

section updates

variable {i : Nat} {c : DedupCaller α} {f : DedupCaller α → DedupCaller α}

theorem Updates.before (hf : Updates s i c f) {j : Nat} {d' : DedupCaller α}
    (h : (s.modifyCaller i f).callers[j]? = some d') :
    ∃ d, s.callers[j]? = some d ∧ d'.tenantId = d.tenantId ∧ d'.hash = d.hash ∧
      d'.source = d.source ∧ d'.dueAt = d.dueAt ∧ d'.entry = d.entry ∧
      ((j = i ∧ d = c ∧ d' = f c) ∨ (j ≠ i ∧ d' = d)) := by
  obtain ⟨d, hd, ⟨rfl, rfl⟩ | ⟨hij, rfl⟩⟩ := modify_cases h
  · obtain rfl := unique hd hf.found
    exact ⟨d, hd, hf.tenantId, hf.hash, hf.source, hf.dueAt, hf.entry, Or.inl ⟨rfl, rfl, rfl⟩⟩
  · exact ⟨d', hd, rfl, rfl, rfl, rfl, rfl, Or.inr ⟨hij, rfl⟩⟩

theorem Updates.after (hf : Updates s i c f) {j : Nat} {d : DedupCaller α}
    (h : s.callers[j]? = some d) :
    ∃ d', (s.modifyCaller i f).callers[j]? = some d' ∧ d'.hash = d.hash ∧
      d'.entry = d.entry ∧ ∀ r, d.settled = some r → d'.settled = some r := by
  obtain ⟨d', hd', ⟨rfl, rfl⟩ | ⟨-, rfl⟩⟩ := modify_keeps (i := i) (f := f) h
  · obtain rfl := unique h hf.found
    exact ⟨f d, hd', hf.hash, hf.entry, hf.keeps⟩
  · exact ⟨d', hd', rfl, rfl, fun _ h => h⟩

theorem DedupInv.modifyCaller (h : DedupInv fmt sha256 s) (hf : Updates s i c f) :
    DedupInv fmt sha256 (s.modifyCaller i f) where
  mapped := by
    intro hash j hj
    obtain ⟨d, hd, hhash, hentry⟩ := h.mapped hash j hj
    obtain ⟨d', hd', hhash', hentry', -⟩ := hf.after hd
    exact ⟨d', hd', hhash'.trans hhash, hentry'.trans hentry⟩
  registered := by
    intro j d' hd' hentry
    obtain ⟨d, hd, -, hhash, hsource, -, hsame, -⟩ := hf.before hd'
    rw [hhash, hsource]
    exact h.registered j d hd (hsame ▸ hentry)
  alone := by
    intro j k d' e' hlt hd' he' hsource hhash
    obtain ⟨d, hd, -, hhash', -, -, hentry, -⟩ := hf.before hd'
    obtain ⟨e, he, -, hhash'', hsource', -⟩ := hf.before he'
    rw [hentry]
    exact h.alone j k d e hlt hd he (hsource' ▸ hsource) (by rw [← hhash', hhash, hhash''])
  running := by
    intro j d' hd' hsource hrunning
    obtain ⟨d, hd, -, -, hsource', -, hentry, ⟨rfl, rfl, rfl⟩ | ⟨-, rfl⟩⟩ := hf.before hd'
    · rw [hentry]
      exact h.running j d hd (hsource' ▸ hsource) (hf.fnRunning hrunning).1
    · exact h.running j d' hd hsource hrunning
  timedOut := by
    intro j d' hd' hentry
    obtain ⟨d, hd, -, -, -, hdue, hsame, -⟩ := hf.before hd'
    rw [hdue]
    exact h.timedOut j d hd (hsame ▸ hentry)
  joined := by
    intro j p d' hd' hsource
    obtain ⟨d, hd, -, hhash, hsource', -, -, hcases⟩ := hf.before hd'
    obtain ⟨hidle, e, he, hsame⟩ := h.joined j p d hd (hsource' ▸ hsource)
    obtain ⟨e', he', hhash', -⟩ := hf.after he
    refine ⟨?_, e', he', by rw [hhash', hsame, hhash]⟩
    rcases hcases with ⟨-, rfl, rfl⟩ | ⟨-, rfl⟩
    · by_contra hrunning
      rw [(hf.fnRunning (by simpa using hrunning)).1] at hidle
      cases hidle
    · exact hidle
  fresh := by
    intro j d' hd' hrunning
    obtain ⟨d, hd, -, -, -, -, -, ⟨rfl, rfl, rfl⟩ | ⟨-, rfl⟩⟩ := hf.before hd'
    · obtain ⟨hold, hsame⟩ := hf.fnRunning hrunning
      rw [hsame]
      exact h.fresh j d hd hold
    · exact h.fresh j d' hd hrunning
  settled := by
    intro j d' r hd' hsettled p hsource
    obtain ⟨d, hd, -, -, hsource', -, -, ⟨rfl, rfl, rfl⟩ | ⟨-, rfl⟩⟩ := hf.before hd'
    · rw [hsource'] at hsource
      rcases hf.settled r hsettled with hold | hrunning
      · exact h.settled j d r hd hold p hsource
      · rw [(h.joined j p d hd hsource).1] at hrunning
        cases hrunning
    · exact h.settled j d' r hd hsettled p hsource
  received := by
    intro j d' r hd' hreceived
    have hkept : ∀ {hash : JsString}, (∃ (p : Nat) (e : DedupCaller α),
        s.callers[p]? = some e ∧ e.hash = hash ∧ e.settled = some r) →
        ∃ (p : Nat) (e : DedupCaller α), (s.modifyCaller i f).callers[p]? = some e ∧
          e.hash = hash ∧ e.settled = some r := by
      rintro hash ⟨p, e, he, hhash, hsettled⟩
      obtain ⟨e', he', hhash', -, hkeeps⟩ := hf.after he
      exact ⟨p, e', he', hhash'.trans hhash, hkeeps r hsettled⟩
    obtain ⟨d, hd, -, hhash, -, -, -, ⟨rfl, rfl, rfl⟩ | ⟨-, rfl⟩⟩ := hf.before hd'
    · rcases hf.received r hreceived with hold | hsettled | hfound
      · rw [hhash]
        exact hkept (h.received j d r hd hold)
      · exact ⟨j, f d, hd', rfl, hsettled⟩
      · rw [hhash]
        exact hkept hfound
    · exact hkept (h.received j d' r hd hreceived)
  hashed := by
    intro j d' hd'
    obtain ⟨d, hd, htenant, hhash, -⟩ := hf.before hd'
    rw [hhash, htenant]
    exact h.hashed j d hd

end updates

variable {entry : EntryState}

theorem DedupInv.dropEntry (h : DedupInv fmt sha256 s) {i : Nat} {c : DedupCaller α}
    (hc : s.callers[i]? = some c) (hentry : entry ≠ .registered)
    (hrunning : c.fnRunning = true → entry = .timedOut ∨ entry = .evicted)
    (hdue : entry = .timedOut → c.dueAt ≤ s.now) :
    DedupInv fmt sha256 (s.dropEntry i c.hash entry) := by
  unfold Dedup.dropEntry
  split
  · rename_i hget
    have hbefore : ∀ {j : Nat} {d' : DedupCaller α},
        (s.callers.modify i fun c => { c with entry := entry })[j]? = some d' →
        ∃ d, s.callers[j]? = some d ∧ d' = { d with entry := d'.entry } ∧
          ((j = i ∧ d = c ∧ d'.entry = entry) ∨ (j ≠ i ∧ d'.entry = d.entry)) := by
      intro j d' hd'
      obtain ⟨d, hd, ⟨rfl, rfl⟩ | ⟨hij, rfl⟩⟩ := modify_cases hd'
      · exact ⟨d, hd, rfl, Or.inl ⟨rfl, unique hd hc, rfl⟩⟩
      · exact ⟨d', hd, rfl, Or.inr ⟨hij, rfl⟩⟩
    have hafter : ∀ {j : Nat} {d : DedupCaller α}, s.callers[j]? = some d →
        ∃ e, (s.callers.modify i fun c => { c with entry := entry })[j]? =
          some { d with entry := e } ∧ (j ≠ i → e = d.entry) := by
      intro j d hd
      obtain ⟨d', hd', ⟨rfl, rfl⟩ | ⟨hij, rfl⟩⟩ :=
        modify_keeps (i := i) (f := fun c => { c with entry := entry }) hd
      · exact ⟨entry, hd', fun h => absurd rfl h⟩
      · exact ⟨d'.entry, hd', fun _ => rfl⟩
    constructor
    · intro hash j hj
      obtain ⟨hne, hold⟩ := JsMap.get_delete_eq_some hj
      obtain ⟨d, hd, hhash, hregistered⟩ := h.mapped hash j hold
      obtain ⟨e, he, hsame⟩ := hafter hd
      have hji : j ≠ i := by
        rintro rfl
        rw [unique hd hc] at hhash
        exact hne hhash
      exact ⟨{ d with entry := e }, he, hhash, (hsame hji).trans hregistered⟩
    · intro j d' hd' hregistered
      obtain ⟨d, hd, hfields, ⟨-, -, hdropped⟩ | ⟨hji, hsame⟩⟩ := hbefore hd'
      · exact absurd (hdropped.symm.trans hregistered) hentry
      · obtain ⟨hmapped, hsource⟩ := h.registered j d hd (hsame.symm.trans hregistered)
        rw [hfields]
        refine ⟨?_, hsource⟩
        show (s.inflight.delete c.hash).get d.hash = some j
        rw [JsMap.get_delete, if_neg]
        · exact hmapped
        · intro heq
          rw [← heq, hget] at hmapped
          exact hji (Option.some.inj hmapped).symm
    · intro j k d' e' hlt hd' he' hsource hhash
      obtain ⟨d, hd, hfields, ⟨-, -, hdropped⟩ | ⟨-, hsame⟩⟩ := hbefore hd'
      · rw [hdropped]
        exact hentry
      · obtain ⟨e, he, hfields', -⟩ := hbefore he'
        rw [hfields, hfields'] at hhash
        rw [hfields'] at hsource
        rw [hsame]
        exact h.alone j k d e hlt hd he hsource hhash
    · intro j d' hd' hsource hrun
      obtain ⟨d, hd, hfields, ⟨-, rfl, hdropped⟩ | ⟨-, hsame⟩⟩ := hbefore hd'
      · rw [hfields] at hrun
        rw [hdropped]
        exact Or.inr (hrunning hrun)
      · rw [hfields] at hrun hsource
        rw [hsame]
        exact h.running j d hd hsource hrun
    · intro j d' hd' htimed
      obtain ⟨d, hd, hfields, ⟨-, rfl, hdropped⟩ | ⟨-, hsame⟩⟩ := hbefore hd'
      · rw [hfields]
        exact hdue (hdropped.symm.trans htimed)
      · rw [hfields]
        exact h.timedOut j d hd (hsame.symm.trans htimed)
    · intro j p d' hd' hsource
      obtain ⟨d, hd, hfields, -⟩ := hbefore hd'
      rw [hfields] at hsource ⊢
      obtain ⟨hidle, e, he, hhash⟩ := h.joined j p d hd hsource
      obtain ⟨entry', he', -⟩ := hafter he
      exact ⟨hidle, _, he', hhash⟩
    · intro j d' hd' hrun
      obtain ⟨d, hd, hfields, -⟩ := hbefore hd'
      rw [hfields] at hrun ⊢
      exact h.fresh j d hd hrun
    · intro j d' r hd' hsettled
      obtain ⟨d, hd, hfields, -⟩ := hbefore hd'
      rw [hfields] at hsettled ⊢
      exact h.settled j d r hd hsettled
    · intro j d' r hd' hreceived
      obtain ⟨d, hd, hfields, -⟩ := hbefore hd'
      rw [hfields] at hreceived ⊢
      obtain ⟨p, e, he, hhash, hsettled⟩ := h.received j d r hd hreceived
      obtain ⟨entry', he', -⟩ := hafter he
      exact ⟨p, _, he', hhash, hsettled⟩
    · intro j d' hd'
      obtain ⟨d, hd, hfields, -⟩ := hbefore hd'
      rw [hfields]
      exact h.hashed j d hd
  · exact h

theorem DedupInv.evict (h : DedupInv fmt sha256 s) : DedupInv fmt sha256 s.evict := by
  unfold Dedup.evict
  cases hmap : s.inflight with
  | nil => exact h
  | cons oldest rest =>
    obtain ⟨oldestKey, i⟩ := oldest
    have hget : s.inflight.get oldestKey = some i := by
      rw [hmap]
      simp [JsMap.get]
    obtain ⟨c, hc, rfl, -⟩ := h.mapped oldestKey i hget
    exact h.dropEntry hc (fun h => by cases h) (fun _ => Or.inr rfl) (fun h => by cases h)

variable {hash : JsString}

theorem get_dropEntry_none {hash' : JsString} {i : Nat} (h : s.inflight.get hash = none) :
    (s.dropEntry i hash' entry).inflight.get hash = none := by
  unfold Dedup.dropEntry
  split
  · show (s.inflight.delete hash').get hash = none
    rw [JsMap.get_delete, h]
    exact ite_self none
  · exact h

theorem get_evict_none (h : s.inflight.get hash = none) : s.evict.inflight.get hash = none := by
  unfold Dedup.evict
  split
  · exact h
  · exact get_dropEntry_none h

section

variable (h : DedupInv fmt sha256 s)
include h

theorem DedupInv.append {c : DedupCaller α} {inflight : JsMap JsString Nat}
    (hmapped : ∀ hash i, inflight.get hash = some i →
      ∃ d, (s.callers ++ [c])[i]? = some d ∧ d.hash = hash ∧ d.entry = .registered)
    (hregistered : ∀ (i : Nat) d, (s.callers ++ [c])[i]? = some d → d.entry = .registered →
      inflight.get d.hash = some i ∧ d.source = .own)
    (hown : c.source = .own → c.entry = .registered ∧ s.inflight.get c.hash = none)
    (hjoined : ∀ p, c.source = .joined p → c.fnRunning = false ∧ s.inflight.get c.hash = some p)
    (hidle : c.settled = none ∧ c.received = none ∧ c.entry ≠ .timedOut)
    (hhash : ∃ request, c.hash = hashOf fmt sha256 request ∧ c.tenantId = request.tenantId) :
    DedupInv fmt sha256 { s with inflight := inflight, callers := s.callers ++ [c] } where
  mapped := hmapped
  registered := hregistered
  alone := by
    intro i j d e hlt hd he hsource hsame
    rcases append_cases he with hold | ⟨rfl, rfl⟩
    · rcases append_cases hd with hold' | ⟨rfl, rfl⟩
      · exact h.alone i j d e hlt hold' hold hsource hsame
      · have := lt_length hold
        omega
    · rcases append_cases hd with hold' | ⟨rfl, -⟩
      · intro hregistered
        have hget := (h.registered i d hold' hregistered).1
        rw [hsame, (hown hsource).2] at hget
        cases hget
      · omega
  running := by
    intro i d hd hsource hrunning
    rcases append_cases hd with hold | ⟨-, rfl⟩
    · exact h.running i d hold hsource hrunning
    · exact Or.inl (hown hsource).1
  timedOut := by
    intro i d hd htimed
    rcases append_cases hd with hold | ⟨-, rfl⟩
    · exact h.timedOut i d hold htimed
    · exact absurd htimed hidle.2.2
  joined := by
    intro i p d hd hsource
    rcases append_cases hd with hold | ⟨-, rfl⟩
    · obtain ⟨hrun, e, he, hsame⟩ := h.joined i p d hold hsource
      exact ⟨hrun, e, append_old he, hsame⟩
    · obtain ⟨hrun, hget⟩ := hjoined p hsource
      obtain ⟨e, he, hsame, -⟩ := h.mapped _ p hget
      exact ⟨hrun, e, append_old he, hsame⟩
  fresh := by
    intro i d hd hrunning
    rcases append_cases hd with hold | ⟨-, rfl⟩
    · exact h.fresh i d hold hrunning
    · exact hidle.1
  settled := by
    intro i d r hd hsettled
    rcases append_cases hd with hold | ⟨-, rfl⟩
    · exact h.settled i d r hold hsettled
    · cases hidle.1.symm.trans hsettled
  received := by
    intro i d r hd hreceived
    rcases append_cases hd with hold | ⟨-, rfl⟩
    · obtain ⟨p, e, he, hrest⟩ := h.received i d r hold hreceived
      exact ⟨p, e, append_old he, hrest⟩
    · cases hidle.2.1.symm.trans hreceived
  hashed := by
    intro i d hd
    rcases append_cases hd with hold | ⟨-, rfl⟩
    · exact h.hashed i d hold
    · exact hhash

theorem DedupInv.register {tenantId : Option JsString} (hnone : s.inflight.get hash = none)
    (hhash : ∃ request, hash = hashOf fmt sha256 request ∧ tenantId = request.tenantId)
    (timeoutMs : Nat) : DedupInv fmt sha256 (s.register hash tenantId timeoutMs) := by
  refine h.append ?_ ?_ (fun _ => ⟨rfl, hnone⟩) (fun _ h => by cases h)
    ⟨rfl, rfl, fun h => by cases h⟩ hhash
  · intro hash' i hi
    by_cases hsame : hash = hash'
    · subst hsame
      rw [JsMap.get_set, if_pos rfl] at hi
      obtain rfl := Option.some.inj hi
      exact ⟨_, append_new, rfl, rfl⟩
    · rw [JsMap.get_set, if_neg hsame] at hi
      obtain ⟨c, hc, hrest⟩ := h.mapped hash' i hi
      exact ⟨c, append_old hc, hrest⟩
  · intro i c hc hregistered
    rcases append_cases hc with hold | ⟨rfl, rfl⟩
    · obtain ⟨hmapped, hsource⟩ := h.registered i c hold hregistered
      refine ⟨?_, hsource⟩
      rw [JsMap.get_set, if_neg]
      · exact hmapped
      · rintro rfl
        rw [hnone] at hmapped
        cases hmapped
    · rw [JsMap.get_set, if_pos rfl]
      exact ⟨rfl, rfl⟩

theorem DedupInv.attach {tenantId : Option JsString} {source : CallSource} {fnRunning : Bool}
    (hhash : ∃ request, hash = hashOf fmt sha256 request ∧ tenantId = request.tenantId)
    (hown : source ≠ .own)
    (hjoined : ∀ p, source = .joined p → fnRunning = false ∧ s.inflight.get hash = some p) :
    DedupInv fmt sha256 (s.attach hash tenantId source fnRunning) := by
  refine h.append ?_ ?_ (fun h => absurd h hown) hjoined ⟨rfl, rfl, fun h => by cases h⟩ hhash
  · intro hash' i hi
    obtain ⟨c, hc, hrest⟩ := h.mapped hash' i hi
    exact ⟨c, append_old hc, hrest⟩
  · intro i c hc hregistered
    rcases append_cases hc with hold | ⟨-, rfl⟩
    · exact h.registered i c hold hregistered
    · cases hregistered

theorem DedupInv.deduplicate (request : DedupRequest) (config : DedupConfig) :
    DedupInv fmt sha256 (s.deduplicate (hashOf fmt sha256 request) request.tenantId config) := by
  unfold Dedup.deduplicate
  split
  · exact h.attach ⟨request, rfl, rfl⟩ (fun h => by cases h) (fun _ h => by cases h)
  · cases hget : s.inflight.get (hashOf fmt sha256 request) with
    | some leader =>
      refine h.attach ⟨request, rfl, rfl⟩ (fun h => by cases h) ?_
      intro p hp
      cases hp
      exact ⟨rfl, hget⟩
    | none =>
      dsimp only
      split
      · exact h.evict.register (get_evict_none hget) ⟨request, rfl, rfl⟩ _
      · exact h.register hget ⟨request, rfl, rfl⟩ _

theorem DedupInv.settle (i : Nat) (outcome : α) : DedupInv fmt sha256 (s.settle i outcome) := by
  unfold Dedup.settle
  cases hc : s.callers[i]? with
  | none => exact h
  | some c =>
    dsimp only
    split
    · rename_i hrunning
      have hupdated := h.modifyCaller (i := i) (c := c) (f := DedupCaller.settle outcome)
        { found := hc
          tenantId := rfl
          hash := rfl
          source := rfl
          dueAt := rfl
          entry := rfl
          fnRunning := fun h => by cases h
          keeps := by
            intro r hr
            rw [h.fresh i c hc hrunning] at hr
            cases hr
          settled := fun _ _ => Or.inr hrunning
          received := fun _ hr => Or.inr (Or.inl hr) }
      exact hupdated.dropEntry (c := c.settle outcome) (modify_self hc) (fun h => by cases h)
        (fun h => by cases h) (fun h => by cases h)
    · exact h

theorem DedupInv.deliver (i : Nat) : DedupInv fmt sha256 (s.deliver i) := by
  unfold Dedup.deliver
  cases hc : s.callers[i]? with
  | none => exact h
  | some c =>
    dsimp only
    cases houtcome : s.outcomeOf c.source with
    | none => exact h
    | some outcome =>
      refine h.modifyCaller (c := c)
        { found := hc
          tenantId := rfl
          hash := rfl
          source := rfl
          dueAt := rfl
          entry := rfl
          fnRunning := fun h => ⟨h, rfl⟩
          keeps := fun _ h => h
          settled := fun _ h => Or.inl h
          received := ?_ }
      intro r hr
      obtain rfl := Option.some.inj hr
      cases hsource : c.source with
      | own => simp [outcomeOf, hsource] at houtcome
      | bypass => simp [outcomeOf, hsource] at houtcome
      | joined leader =>
        simp only [outcomeOf, hsource, Option.bind_eq_some_iff] at houtcome
        obtain ⟨d, hd, hsettled⟩ := houtcome
        obtain ⟨-, d', hd', hsame⟩ := h.joined i leader c hc hsource
        obtain rfl := unique hd hd'
        exact Or.inr (Or.inr ⟨leader, d, hd, hsame, hsettled⟩)

theorem DedupInv.timeout (i : Nat) : DedupInv fmt sha256 (s.timeout i) := by
  unfold Dedup.timeout
  cases hc : s.callers[i]? with
  | none => exact h
  | some c =>
    dsimp only
    split
    · rename_i hdue
      have hupdated := h.modifyCaller (i := i) (c := c) (f := DedupCaller.stopTimer)
        { found := hc
          tenantId := rfl
          hash := rfl
          source := rfl
          dueAt := rfl
          entry := rfl
          fnRunning := fun h => ⟨h, rfl⟩
          keeps := fun _ h => h
          settled := fun _ h => Or.inl h
          received := fun _ h => Or.inl h }
      exact hupdated.dropEntry (c := c.stopTimer) (modify_self hc) (fun h => by cases h)
        (fun _ => Or.inl rfl) (fun _ => hdue.2)
    · exact h

theorem DedupInv.step (e : DedupEvent α) : DedupInv fmt sha256 (s.step fmt sha256 e) := by
  cases e with
  | call request config => exact h.deduplicate request config
  | settle i outcome => exact h.settle i outcome
  | deliver i => exact h.deliver i
  | timeout i => exact h.timeout i
  | advance ms =>
    exact { h with
      timedOut := fun i c hc htimed => (h.timedOut i c hc htimed).trans (Nat.le_add_right _ _) }

end

theorem dedupInv_init : DedupInv fmt sha256 ({} : Dedup α) := by
  constructor
  · intro hash i hi
    cases hi
  all_goals
    intro i
    simp

theorem dedupInv_run (events : List (DedupEvent α)) : DedupInv fmt sha256 (run fmt sha256 events) :=
  foldl_invariant (DedupInv fmt sha256) (fun _ e h => h.step e) dedupInv_init events

def FindsRoom (fmt : UInt64 → JsString) (sha256 : List UInt8 → List UInt8) (s : Dedup α) :
    DedupEvent α → Prop
  | .call request config => config.enabled = true →
      s.inflight.get (hashOf fmt sha256 request) = none → s.inflight.length < maxInflight
  | _ => True

def NoneEvicted (s : Dedup α) : Prop :=
  ∀ (i : Nat) (c : DedupCaller α), s.callers[i]? = some c → c.entry ≠ .evicted

section

variable (h : NoneEvicted s)
include h

theorem NoneEvicted.modify {i : Nat} {f : DedupCaller α → DedupCaller α}
    (hf : ∀ c : DedupCaller α, c.entry ≠ .evicted → (f c).entry ≠ .evicted) :
    NoneEvicted (s.modifyCaller i f) := by
  intro j c' hc'
  obtain ⟨c, hc, ⟨-, rfl⟩ | ⟨-, rfl⟩⟩ := modify_cases hc'
  · exact hf c (h j c hc)
  · exact h j c' hc

theorem NoneEvicted.dropEntry {i : Nat} (hentry : entry ≠ .evicted) :
    NoneEvicted (s.dropEntry i hash entry) := by
  unfold Dedup.dropEntry
  split
  · exact h.modify fun _ _ => hentry
  · exact h

theorem NoneEvicted.append {new : DedupCaller α} (hnew : new.entry ≠ .evicted)
    (inflight : JsMap JsString Nat) : NoneEvicted ⟨inflight, s.callers ++ [new], s.now⟩ := by
  intro j c hc
  rcases append_cases hc with hold | ⟨-, rfl⟩
  · exact h j c hold
  · exact hnew

theorem NoneEvicted.step {e : DedupEvent α} (he : FindsRoom fmt sha256 s e) :
    NoneEvicted (s.step fmt sha256 e) := by
  cases e with
  | call request config =>
    show NoneEvicted (s.deduplicate _ _ _)
    unfold Dedup.deduplicate
    split
    · exact h.append (fun h => by cases h) _
    · rename_i henabled
      cases hget : s.inflight.get (hashOf fmt sha256 request) with
      | some leader => exact h.append (fun h => by cases h) _
      | none =>
        have hroom := he (by simpa using henabled) hget
        rw [if_neg (by omega)]
        exact h.append (fun h => by cases h) _
  | settle i outcome =>
    show NoneEvicted (s.settle i outcome)
    unfold Dedup.settle
    split
    · exact h
    · split
      · refine NoneEvicted.dropEntry ?_ (fun h => by cases h)
        exact h.modify fun _ hc => hc
      · exact h
  | deliver i =>
    show NoneEvicted (s.deliver i)
    unfold Dedup.deliver
    split
    · exact h
    · split
      · exact h.modify fun _ hc => hc
      · exact h
  | timeout i =>
    show NoneEvicted (s.timeout i)
    unfold Dedup.timeout
    split
    · exact h
    · split
      · refine NoneEvicted.dropEntry ?_ (fun h => by cases h)
        exact h.modify fun _ hc => hc
      · exact h
  | advance ms => exact h

end

/-- Deduplication keeps tenants apart.  Callers of different tenants have
different hashes, a caller gets only what a function of its own hash ended
with, and while the function of a caller runs within its timeout another one
of its hash starts only when its entry was evicted.  Entries are evicted only
when a call finds no room. -/
theorem deduplicate_isolates (events : List (DedupEvent α)) :
    let s := run fmt sha256 events
    (∀ (i j : Nat) (c d : DedupCaller α), s.callers[i]? = some c → s.callers[j]? = some d →
      tenantNamespace c.tenantId ≠ tenantNamespace d.tenantId → c.hash ≠ d.hash) ∧
    (∀ (i : Nat) (c : DedupCaller α) (r : α), s.callers[i]? = some c → c.received = some r →
      ∃ (p : Nat) (d : DedupCaller α), s.callers[p]? = some d ∧ d.hash = c.hash ∧
        (∀ q, d.source ≠ .joined q) ∧ d.settled = some r) ∧
    (∀ (i j : Nat) (c d : DedupCaller α), i < j → s.callers[i]? = some c →
      s.callers[j]? = some d → c.source = .own → d.source = .own → c.hash = d.hash →
      c.fnRunning = true → s.now < c.dueAt → c.entry = .evicted) ∧
    (Along (step fmt sha256) (FindsRoom fmt sha256) {} events →
      ∀ (i : Nat) (c : DedupCaller α), s.callers[i]? = some c → c.entry ≠ .evicted) := by
  intro s
  have hinv : DedupInv fmt sha256 s := dedupInv_run events
  refine ⟨?_, ?_, ?_, ?_⟩
  · intro i j c d hc hd htenant hhash
    obtain ⟨request, hrequest, hid⟩ := hinv.hashed i c hc
    obtain ⟨request', hrequest', hid'⟩ := hinv.hashed j d hd
    rw [hrequest, hrequest'] at hhash
    rw [hid, hid'] at htenant
    exact htenant ((computeRequestHash_split fmt sha256).mp hhash).1
  · intro i c r hc hreceived
    obtain ⟨p, d, hd, hhash, hsettled⟩ := hinv.received i c r hc hreceived
    exact ⟨p, d, hd, hhash, hinv.settled p d r hd hsettled, hsettled⟩
  · intro i j c d hlt hc hd hsource hsource' hhash hrunning hdue
    rcases hinv.running i c hc hsource hrunning with hregistered | htimed | hevicted
    · exact absurd hregistered (hinv.alone i j c d hlt hc hd hsource' hhash)
    · have hpast := hinv.timedOut i c hc htimed
      omega
    · exact hevicted
  · intro hroom
    exact along_invariant NoneEvicted (fun _ _ h he => h.step he)
      (fun i c hc => by simp at hc) hroom

/-! ## A full map -/

def tenantRequest (n : Nat) : DedupRequest :=
  ⟨chatBody [], some (js "key-" ++ JsString.ofNat n), chatContext⟩

def tenantHash (n : Nat) : JsString := hashOf zeroText (fun _ => countDigest) (tenantRequest n)

variable {n : Nat}

theorem tenantHash_inj {m : Nat} (h : tenantHash m = tenantHash n) : m = n := by
  unfold tenantHash hashOf at h
  have htenant := ((computeRequestHash_split zeroText (fun _ => countDigest)).mp h).1
  have hsome : ∀ k, tenantNamespace (tenantRequest k).tenantId =
      some (js "key-" ++ JsString.ofNat k) := fun k => rfl
  exact JsString.ofNat_inj (append_cancel_left (Option.some.inj htenant))

/-- One call for each of the first tenants. -/
def fillInflight (n : Nat) : List (DedupEvent Unit) :=
  (List.range n).map fun k => .call (tenantRequest k) {}

/-- The caller that a call of the first tenant adds. -/
def firstCaller : DedupCaller Unit :=
  ⟨some (js "key-" ++ JsString.ofNat 0), tenantHash 0, .own, true, 60000, true, .registered, none,
    none⟩

def tenantRun (events : List (DedupEvent Unit)) : Dedup Unit :=
  run zeroText (fun _ => countDigest) events

theorem mem_tenantHashes {m : Nat} : tenantHash m ∈ (List.range n).map tenantHash ↔ m < n := by
  rw [mem_map]
  constructor
  · rintro ⟨k, hk, heq⟩
    rw [← tenantHash_inj heq]
    exact List.mem_range.mp hk
  · exact fun hm => ⟨m, List.mem_range.mpr hm, rfl⟩

theorem tenantRun_concat (events : List (DedupEvent Unit)) (n : Nat) :
    tenantRun (events ++ [.call (tenantRequest n) {}]) =
      (tenantRun events).deduplicate (tenantHash n) (tenantRequest n).tenantId {} := by
  simp [tenantRun, run, step, tenantHash]

theorem deduplicate_fresh {s : Dedup Unit} (h : s.inflight.get (tenantHash n) = none) :
    s.deduplicate (tenantHash n) (tenantRequest n).tenantId {} =
      (if maxInflight ≤ s.inflight.length then s.evict else s).register (tenantHash n)
        (tenantRequest n).tenantId 60000 := by
  unfold Dedup.deduplicate
  rw [h]
  rfl

theorem fillInflight_succ (n : Nat) :
    fillInflight (n + 1) = fillInflight n ++ [.call (tenantRequest n) {}] := by
  simp [fillInflight, range_succ]

theorem run_fillInflight (hn : n ≤ maxInflight) :
    (tenantRun (fillInflight n)).inflight.keys = (List.range n).map tenantHash ∧
      (tenantRun (fillInflight n)).now = 0 ∧
      (tenantRun (fillInflight n)).callers.length = n ∧
      (0 < n → (tenantRun (fillInflight n)).callers[0]? = some firstCaller) := by
  induction n with
  | zero => exact ⟨rfl, rfl, rfl, fun h => absurd h (Nat.lt_irrefl 0)⟩
  | succ n ih =>
    obtain ⟨hkeys, hnow, hcallers, hfirst⟩ := ih (by omega)
    have hfresh : tenantHash n ∉ (tenantRun (fillInflight n)).inflight.keys := by
      rw [hkeys, mem_tenantHashes]
      omega
    have hlength : (tenantRun (fillInflight n)).inflight.length = n := by
      have hlength := congrArg List.length hkeys
      simpa [JsMap.keys] using hlength
    rw [fillInflight_succ, tenantRun_concat, deduplicate_fresh (JsMap.get_eq_none_iff.mpr hfresh),
      if_neg (by omega)]
    refine ⟨?_, hnow, ?_, ?_⟩
    · show (JsMap.set _ _ _).keys = _
      rw [JsMap.keys_set, if_neg hfresh, hkeys, range_succ, map_append]
      rfl
    · show (_ ++ [_]).length = _
      rw [length_append, hcallers]
      rfl
    · intro _
      rcases Nat.eq_zero_or_pos n with rfl | hpos
      · rfl
      · exact append_old (hfirst hpos)

theorem evict_keeps {s : Dedup Unit} {j : Nat} {c : DedupCaller Unit}
    (hc : s.callers[j]? = some c) :
    ∃ entry, s.evict.callers[j]? = some { c with entry := entry } := by
  unfold Dedup.evict
  split
  · exact ⟨c.entry, hc⟩
  · rename_i i _ _
    unfold Dedup.dropEntry
    split
    · obtain ⟨c', hc', ⟨-, rfl⟩ | ⟨-, rfl⟩⟩ :=
        modify_keeps (i := i) (f := fun c => { c with entry := .evicted }) hc
      · exact ⟨.evicted, hc'⟩
      · exact ⟨c'.entry, hc'⟩
    · exact ⟨c.entry, hc⟩

theorem evict_frame (s : Dedup Unit) :
    s.evict.now = s.now ∧ s.evict.callers.length = s.callers.length := by
  unfold Dedup.evict
  split
  · exact ⟨rfl, rfl⟩
  · unfold Dedup.dropEntry
    split
    · exact ⟨rfl, length_modify ..⟩
    · exact ⟨rfl, rfl⟩

theorem get_evict_oldest {s : Dedup Unit} {oldest : JsString} {others : List JsString}
    (hkeys : s.inflight.keys = oldest :: others) : s.evict.inflight.get oldest = none := by
  unfold Dedup.evict
  cases hmap : s.inflight with
  | nil =>
    rw [hmap] at hkeys
    cases hkeys
  | cons entry rest =>
    obtain ⟨key, i⟩ := entry
    rw [hmap, JsMap.keys_cons] at hkeys
    obtain rfl : key = oldest := (List.cons.inj hkeys).1
    have hget : s.inflight.get key = some i := by
      rw [hmap]
      simp [JsMap.get]
    dsimp only
    unfold Dedup.dropEntry
    rw [if_pos hget]
    show (s.inflight.delete key).get key = none
    rw [JsMap.get_delete, if_pos rfl]

theorem register_runs {s : Dedup Unit} {c : DedupCaller Unit} (hclock : s.now = 0)
    (hold : s.callers[0]? = some c) (hsource : c.source = .own) (hhash : c.hash = tenantHash n)
    (hruns : c.fnRunning = true) (hdue : c.dueAt = 60000) :
    let s' := s.register (tenantHash n) (tenantRequest n).tenantId 60000
    ∃ c d, s'.callers[0]? = some c ∧ s'.callers[s.callers.length]? = some d ∧ c.source = .own ∧
      d.source = .own ∧ c.hash = d.hash ∧ c.fnRunning = true ∧ d.fnRunning = true ∧
      s'.now < c.dueAt ∧ s'.now < d.dueAt := by
  refine ⟨c, _, append_old hold, append_new, hsource, rfl, hhash, hruns, rfl, ?_, ?_⟩
  · show s.now < c.dueAt
    omega
  · show s.now < s.now + 60000
    omega

/-- In a full map one more call evicts the first tenant, whose next call then
starts a second function of its hash. -/
theorem fillInflight_starts_twice (hn : n = maxInflight) :
    let s := tenantRun (fillInflight (n + 1) ++ [.call (tenantRequest 0) {}])
    ∃ c d, s.callers[0]? = some c ∧ s.callers[n + 1]? = some d ∧ c.source = .own ∧
      d.source = .own ∧ c.hash = d.hash ∧ c.fnRunning = true ∧ d.fnRunning = true ∧
      s.now < c.dueAt ∧ s.now < d.dueAt := by
  have hpos : 0 < n := by
    rw [hn]
    decide
  obtain ⟨m, rfl⟩ : ∃ m, n = m + 1 := ⟨n - 1, by omega⟩
  obtain ⟨hkeys, hnow, hcallers, hfirst⟩ := run_fillInflight hn.le
  have hnext : tenantRun (fillInflight (m + 1 + 1)) =
      (tenantRun (fillInflight (m + 1))).deduplicate (tenantHash (m + 1))
        (tenantRequest (m + 1)).tenantId {} := by
    rw [fillInflight_succ, tenantRun_concat]
  generalize tenantRun (fillInflight (m + 1)) = s at *
  have hfull : maxInflight ≤ s.inflight.length := by
    have hlength := congrArg List.length hkeys
    simp only [JsMap.keys, length_map, length_range] at hlength
    omega
  have hfresh : s.inflight.get (tenantHash (m + 1)) = none := by
    rw [JsMap.get_eq_none_iff, hkeys, mem_tenantHashes]
    omega
  have holdest : s.inflight.keys =
      tenantHash 0 :: (List.range m).map (fun k => tenantHash (k + 1)) := by
    rw [hkeys, range_succ_eq_map, map_cons, map_map]
    rfl
  rw [deduplicate_fresh hfresh, if_pos hfull] at hnext
  have hgone : (tenantRun (fillInflight (m + 1 + 1))).inflight.get (tenantHash 0) = none := by
    rw [hnext]
    show (JsMap.set _ _ _).get (tenantHash 0) = none
    rw [JsMap.get_set, if_neg (fun h => absurd (tenantHash_inj h) (by omega))]
    exact get_evict_oldest holdest
  obtain ⟨entry, hkept⟩ := evict_keeps (hfirst hpos)
  have hold : (tenantRun (fillInflight (m + 1 + 1))).callers[0]? =
      some { firstCaller with entry := entry } := by
    rw [hnext]
    exact append_old hkept
  obtain ⟨hnow', hcallers'⟩ := evict_frame s
  have hclock : (tenantRun (fillInflight (m + 1 + 1))).now = 0 := by
    rw [hnext]
    exact hnow'.trans hnow
  have hlast : (tenantRun (fillInflight (m + 1 + 1))).callers.length = m + 1 + 1 := by
    rw [hnext]
    show (_ ++ [_]).length = m + 1 + 1
    rw [length_append, hcallers', hcallers]
    rfl
  rw [tenantRun_concat, deduplicate_fresh hgone]
  generalize tenantRun (fillInflight (m + 1 + 1)) = t at *
  split
  · obtain ⟨entry', hkept'⟩ := evict_keeps hold
    obtain ⟨hnow'', hcallers''⟩ := evict_frame t
    rw [← hlast, ← hcallers'']
    exact register_runs (hnow''.trans hclock) hkept' rfl rfl rfl rfl
  · rw [← hlast]
    exact register_runs hclock hold rfl rfl rfl rfl

/-- After one call more than there is room for, the first tenant asks again and
a second function of its hash starts while the first one runs. -/
theorem deduplicate_starts_twice :
    let s := tenantRun (fillInflight 1001 ++ [.call (tenantRequest 0) {}])
    ∃ c d, s.callers[0]? = some c ∧ s.callers[1001]? = some d ∧ c.source = .own ∧
      d.source = .own ∧ c.hash = d.hash ∧ c.fnRunning = true ∧ d.fnRunning = true ∧
      s.now < c.dueAt ∧ s.now < d.dueAt :=
  fillInflight_starts_twice (n := 1000) rfl

end Dedup

end RedRouter.Services
