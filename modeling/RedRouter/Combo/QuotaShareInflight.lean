import RedRouter.Lib.JsMap
import RedRouter.Lib.JsString

/-!
# The in-flight counter of the quota-share strategy

A connection keeps one lease for each request that was sent to it and has not
settled: the time at which the request stops to count.  A lease is a number
and nothing else, so a release has to infer which lease it retires.

`Selections` is the counter together with the requests that
`selectQuotaShareTarget` chose a connection for.  A request keeps the clock of
its selection, and its release passes that clock and not the current one.
-/

namespace RedRouter.Combo

def defaultLeaseMs : Int := 120000

def maxLeasesPerConnection : Nat := 4096

structure InflightSlot where
  leases : List Int
deriving DecidableEq

/-- `_inflightMap`. -/
abbrev InflightMap := JsMap JsString InflightSlot

/-- Drop one slot's expired leases. -/
def retireExpired (slot : InflightSlot) (nowMs : Int) : InflightSlot :=
  if slot.leases.length = 0 then slot
  else { slot with leases := slot.leases.filter (fun expiresAtMs => nowMs < expiresAtMs) }

theorem retireExpired_leases (slot : InflightSlot) (nowMs : Int) :
    (retireExpired slot nowMs).leases =
      slot.leases.filter (fun expiresAtMs => nowMs < expiresAtMs) := by
  unfold retireExpired
  split
  · rename_i hnil
    rw [List.length_eq_zero_iff.mp hnil]
    rfl
  · rfl

def pruneExpired (nowMs : Int) : InflightMap → InflightMap
  | [] => []
  | (key, slot) :: m =>
      if (retireExpired slot nowMs).leases.length = 0 then pruneExpired nowMs m
      else (key, retireExpired slot nowMs) :: pruneExpired nowMs m

variable (connectionId : JsString)

def incrementInflight (leaseMs nowMs : Int) (m : InflightMap) : InflightMap × Nat :=
  if connectionId = [] then (m, 0)
  else
    let m := pruneExpired nowMs m
    let slot := (m.get connectionId).getD ⟨[]⟩
    let leases := slot.leases ++ [nowMs + leaseMs]
    let leases := if maxLeasesPerConnection < leases.length then leases.tail else leases
    (m.set connectionId ⟨leases⟩, leases.length)

/-- The index of the last element that meets a predicate, from position `i`
downwards. -/
def lastIndexWhereFrom (predicate : Int → Bool) (values : List Int) : Nat → Option Nat
  | 0 => none
  | i + 1 =>
      if (values[i]?.map predicate).getD false then some i
      else lastIndexWhereFrom predicate values i

def lastIndexWhere (values : List Int) (predicate : Int → Bool) : Option Nat :=
  lastIndexWhereFrom predicate values values.length

/-- The leases after one of them is retired: the newest expired one, or the
newest when none has expired. -/
def retireOne (leases : List Int) (nowMs : Int) : List Int :=
  match lastIndexWhere leases (fun expiresAtMs => expiresAtMs ≤ nowMs) with
  | some i => leases.eraseIdx i
  | none => leases.dropLast

def decrementInflight (nowMs : Int) (m : InflightMap) : InflightMap :=
  if connectionId = [] then m
  else
    match m.get connectionId with
    | none => m
    | some slot =>
        let slot := retireExpired ⟨retireOne slot.leases nowMs⟩ nowMs
        if slot.leases.length = 0 then m.delete connectionId else m.set connectionId slot

/-- The count, and the map with the expired leases of the connection dropped. -/
def getInflight (nowMs : Int) (m : InflightMap) : Nat × InflightMap :=
  if connectionId = [] then (0, m)
  else
    match m.get connectionId with
    | none => (0, m)
    | some slot =>
        let slot := retireExpired slot nowMs
        (slot.leases.length, m.set connectionId slot)

/-! ## The requests -/

/-- A request after its selection.  `released` is the flag of its release
callback. -/
structure Selection where
  winnerConnectionId : JsString
  nowMs : Int
  released : Bool := false
deriving DecidableEq

def Selection.leaseEnd (s : Selection) : Int := s.nowMs + defaultLeaseMs

structure Selections where
  inflight : InflightMap := []
  requests : List Selection := []
  now : Int
deriving DecidableEq

inductive SelectionEvent where
  | select (winnerConnectionId : JsString)
  /-- The request of an index calls its release callback. -/
  | release (i : Nat)
  | getInflight (connectionId : JsString)
  | advance (ms : Nat)

namespace Selections

/-- `selectQuotaShareTarget` after it has chosen the winner. -/
def select (winnerConnectionId : JsString) (w : Selections) : Selections :=
  { w with
    inflight := (incrementInflight winnerConnectionId defaultLeaseMs w.now w.inflight).1
    requests := w.requests ++ [⟨winnerConnectionId, w.now, false⟩] }

/-- The release callback that `selectQuotaShareTarget` returned.  It passes
the clock of the selection. -/
def release (i : Nat) (w : Selections) : Selections :=
  match w.requests[i]? with
  | none => w
  | some s =>
      if s.released then w
      else
        { w with
          inflight := decrementInflight s.winnerConnectionId s.nowMs w.inflight
          requests := w.requests.set i { s with released := true } }

def step (w : Selections) : SelectionEvent → Selections
  | .select winnerConnectionId => w.select winnerConnectionId
  | .release i => w.release i
  | .getInflight connectionId =>
      { w with inflight := (Combo.getInflight connectionId w.now w.inflight).2 }
  | .advance ms => { w with now := w.now + ms }

def run (now : Int) (events : List SelectionEvent) : Selections :=
  events.foldl step { now := now }

end Selections

end RedRouter.Combo
