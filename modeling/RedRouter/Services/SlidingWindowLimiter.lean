import RedRouter.Lib.JsMap
import RedRouter.Lib.JsString

/-!
# The sliding-window limiter

An oracle that allows at most `requests` calls for a key in any trailing
window of `windowMs`.  It keeps the hits of a key in a table of at most
`maxKeys` keys.  A call names several scopes, and takes all of them or none.
-/

namespace RedRouter.Services.SlidingWindow

structure RateLimitWindow where
  requests : Nat
  windowMs : Nat
deriving DecidableEq

structure RateLimitScope where
  key : JsString
  window : RateLimitWindow
deriving DecidableEq

structure Hit where
  id : Nat
  timestamp : Int
deriving DecidableEq

def maxKeys : Nat := 5000

abbrev HitTable := JsMap JsString (List Hit)

structure Limiter where
  hits : HitTable := []
  nextHitId : Nat := 1
deriving DecidableEq

/-- The private `set`: a key without hits is dropped, and a new key evicts the
least recently inserted one when the table is full. -/
def set (key : JsString) (live : List Hit) (hits : HitTable) : HitTable :=
  if live.length = 0 then hits.delete key
  else if hits.has key = false ∧ maxKeys ≤ hits.length then
    match hits with
    | [] => JsMap.set key live hits
    | (oldest, _) :: _ => JsMap.set key live (hits.delete oldest)
  else JsMap.set key live hits

/-- A scope with its live hits, and how long it is saturated. -/
structure Prepared where
  scope : RateLimitScope
  live : List Hit
  retryAfterMs : Int
deriving DecidableEq

def prepare (hits : HitTable) (now : Int) (scope : RateLimitScope) : Prepared :=
  let cutoff := now - scope.window.windowMs
  let live := ((hits.get scope.key).getD []).filter fun hit => cutoff < hit.timestamp
  let retryAfterMs :=
    if scope.window.requests ≤ live.length then
      max 0 ((live.head?.map Hit.timestamp).getD 0 + scope.window.windowMs - now)
    else 0
  ⟨scope, live, retryAfterMs⟩

/-- A key and the id of the hit that was recorded for it. -/
structure LeaseEntry where
  key : JsString
  id : Nat
deriving DecidableEq

structure MultiAcquireResult where
  allowed : Bool
  retryAfterMs : Int
  lease : Option (List LeaseEntry) := none
deriving DecidableEq

def recorded (now : Int) : Nat → List Prepared → List (JsString × List Hit)
  | _, [] => []
  | id, entry :: prepared =>
      (entry.scope.key, entry.live ++ [⟨id, now⟩]) :: recorded now (id + 1) prepared

def leaseEntries : Nat → List Prepared → List LeaseEntry
  | _, [] => []
  | id, entry :: prepared => ⟨entry.scope.key, id⟩ :: leaseEntries (id + 1) prepared

/-- One `set` after the other. -/
def setAll (hits : HitTable) (updates : List (JsString × List Hit)) : HitTable :=
  updates.foldl (fun hits u => set u.1 u.2 hits) hits

def activeScopes (scopes : List RateLimitScope) : List RateLimitScope :=
  scopes.filter fun scope => 0 < scope.window.requests ∧ 0 < scope.window.windowMs

namespace Limiter

def tryAcquireMany (scopes : List RateLimitScope) (now : Int) (l : Limiter) :
    MultiAcquireResult × Limiter :=
  let active := activeScopes scopes
  if active.length = 0 then (⟨true, 0, none⟩, l)
  else
    let prepared := active.map (prepare l.hits now)
    let retryAfterMs := prepared.foldl (fun m entry => max m entry.retryAfterMs) 0
    let hits := setAll l.hits (prepared.map fun entry => (entry.scope.key, entry.live))
    if 0 < retryAfterMs then (⟨false, retryAfterMs, none⟩, { l with hits := hits })
    else
      (⟨true, 0, some (leaseEntries l.nextHitId prepared)⟩,
        { hits := setAll hits (recorded now l.nextHitId prepared)
          nextHitId := l.nextHitId + prepared.length })

def tryAcquire (key : JsString) (window : RateLimitWindow) (now : Int) (l : Limiter) :
    MultiAcquireResult × Limiter :=
  let (result, l) := l.tryAcquireMany [⟨key, window⟩] now
  (⟨result.allowed, result.retryAfterMs, none⟩, l)

def removeHit (hits : HitTable) (entry : LeaseEntry) : HitTable :=
  match hits.get entry.key with
  | none => hits
  | some live =>
      let remaining := live.filter fun hit => hit.id ≠ entry.id
      if 0 < remaining.length then JsMap.set entry.key remaining hits else hits.delete entry.key

end Limiter

/-! ## Leases -/

/-- A lease.  `released` is the flag of its release function. -/
structure Lease where
  entries : List LeaseEntry
  grantedAt : Int
  released : Bool := false
deriving DecidableEq

structure Clients where
  limiter : Limiter := {}
  leases : List Lease := []
  now : Int
deriving DecidableEq

inductive LimiterEvent where
  /-- A call that names the scopes of some keys. -/
  | tryAcquireMany (keys : List JsString)
  | release (lease : Nat)
  | advance (ms : Nat)
deriving DecidableEq

variable (rule : JsString → RateLimitWindow)

namespace Clients

def scopes (keys : List JsString) : List RateLimitScope :=
  keys.map fun key => ⟨key, rule key⟩

def acquire (keys : List JsString) (w : Clients) : Clients :=
  let (result, limiter) := w.limiter.tryAcquireMany (scopes rule keys) w.now
  { w with
    limiter := limiter
    leases := w.leases ++ (result.lease.map fun entries => ⟨entries, w.now, false⟩).toList }

def release (i : Nat) (w : Clients) : Clients :=
  match w.leases[i]? with
  | none => w
  | some lease =>
      if lease.released then w
      else
        { w with
          limiter := { w.limiter with hits := lease.entries.foldl Limiter.removeHit w.limiter.hits }
          leases := w.leases.set i { lease with released := true } }

def step (w : Clients) : LimiterEvent → Clients
  | .tryAcquireMany keys => w.acquire rule keys
  | .release i => w.release i
  | .advance ms => { w with now := w.now + ms }

def run (now : Int) (events : List LimiterEvent) : Clients :=
  events.foldl (step rule) { now := now }

end Clients

end RedRouter.Services.SlidingWindow
