import RedRouter.Lib.JsMap
import RedRouter.Services.RefreshSerializer

/-!
# Token refreshes

`getAccessToken` of a provider whose refreshes are serialized.  Callers of a
connection share the refresh in flight, and so do callers without a connection
that hold the same token.  A refresh waits for the lane, looks up the rotation
of the caller's token, reads the row of the connection, and presents a token to
the provider.

The rotation map keeps for a while what a consumed token was exchanged for.  Its
keys are the tokens of one provider: the source hashes them, and different tokens
are taken to have different hashes.  The rows are written by the callbacks of the
callers and by others, at any time.
-/

namespace RedRouter.Services

/-! ## The rotation map -/

def rotationMapTtlMs : Nat := 60 * 1000

structure RotationEntry (Token : Type) where
  refreshToken : Token
  expiresAt : Nat
deriving DecidableEq

abbrev RotationMap (Token : Type) := JsMap Token (RotationEntry Token)

namespace RotationMap

variable {Token : Type}

/-- `cleanupRotationMap`. -/
def cleanup (now : Nat) (entries : RotationMap Token) : RotationMap Token :=
  entries.filter fun e => decide (now < e.2.expiresAt)

variable [DecidableEq Token]

/-- `lookupRotation`, which drops what has expired first. -/
def lookup (now : Nat) (token : Token) (entries : RotationMap Token) :
    Option (RotationEntry Token) :=
  (entries.cleanup now).get token

/-- `recordRotation`. -/
def record (now : Nat) (oldToken newToken : Token) (entries : RotationMap Token) :
    RotationMap Token :=
  if oldToken = newToken then entries
  else entries.set oldToken ⟨newToken, now + rotationMapTtlMs⟩

variable {entries : RotationMap Token} {now : Nat} {token : Token}

theorem get_cleanup_of_live {entry : RotationEntry Token} (hkeys : (JsMap.keys entries).Nodup)
    (hget : entries.get token = some entry) (hlive : now < entry.expiresAt) :
    (entries.cleanup now).get token = some entry := by
  have hfilter := JsMap.get_filter (fun e : RotationEntry Token => decide (now < e.expiresAt))
    token hkeys
  unfold cleanup
  rw [hfilter, hget]
  simp [hlive]

theorem get_of_cleanup {entry : RotationEntry Token} (hkeys : (JsMap.keys entries).Nodup)
    (hget : (entries.cleanup now).get token = some entry) :
    entries.get token = some entry ∧ now < entry.expiresAt := by
  have hfilter := JsMap.get_filter (fun e : RotationEntry Token => decide (now < e.expiresAt))
    token hkeys
  unfold cleanup at hget
  rw [hfilter] at hget
  obtain ⟨hentry, hlive⟩ := Option.filter_eq_some_iff.mp hget
  exact ⟨hentry, of_decide_eq_true hlive⟩

omit [DecidableEq Token] in
theorem nodup_cleanup (hkeys : (JsMap.keys entries).Nodup) :
    (JsMap.keys (entries.cleanup now)).Nodup := by
  exact hkeys.sublist (List.filter_sublist.map Prod.fst)

theorem nodup_record (hkeys : (JsMap.keys entries).Nodup) (newToken : Token) :
    (JsMap.keys (entries.record now token newToken)).Nodup := by
  unfold record
  split
  · exact hkeys
  · exact JsMap.nodup_keys_set hkeys

end RotationMap

open Runs Places RefreshLanes

/-- What is read of the row of a connection.  `expiresAt` is the parsed time,
which is 0 when the row has none. -/
structure DbConnection (Token : Type) where
  refreshToken : Option Token
  expiresAt : Nat
deriving DecidableEq

inductive RefreshPhase where
  /-- in `serializeRefresh`, before its turn -/
  | queued
  /-- `await getProviderConnectionById` -/
  | rereading
  /-- the token is presented and the answer is to come -/
  | presenting
  | settled
deriving DecidableEq

/-- A refresh that is not shared.  `cacheToken` is the token of the call, and
`refreshToken` what `credentials.refreshToken` is now. -/
structure Refresh (Token : Type) where
  connectionId : Option JsString
  cacheToken : Token
  refreshToken : Token
  phase : RefreshPhase
  startedAt : Nat
deriving DecidableEq

/-- What comes of a token that was presented. -/
inductive ProviderAnswer (Token : Type) where
  /-- an access token, and a refresh token or none -/
  | granted (refreshToken : Option Token)
  /-- no result, or one with an error -/
  | refused
  | thrown
deriving DecidableEq

/-- A token is presented, or its rotation is recorded. -/
inductive TokenUse (Token : Type) where
  | presented (i : Nat) (token : Token) (time : Nat)
  | recorded (i : Nat) (token : Token) (time : Nat)
deriving DecidableEq

/-- A refresh and its call of the serializer have the same place. -/
structure TokenRefresh (Token : Type) where
  lanes : RefreshLanes := {}
  refreshes : List (Refresh Token) := []
  connectionRefreshMutex : JsMap JsString Nat := []
  refreshPromiseCache : JsMap Token Nat := []
  rotationMap : RotationMap Token := []
  rows : JsMap JsString (DbConnection Token) := []
  uses : List (TokenUse Token) := []
deriving DecidableEq

inductive TokenEvent (Token : Type) where
  | getAccessToken (connectionId : Option JsString) (refreshToken : Token)
  | enter (i : Nat)
  /-- `failed` when the row cannot be read -/
  | reread (i : Nat) (failed : Bool)
  | answer (i : Nat) (answer : ProviderAnswer Token)
  | laneTimeout (i : Nat)
  | finish (i : Nat) (spacing : Nat)
  | release (i : Nat)
  | settleTail (i : Nat)
  /-- the shared promise of a refresh settles, its callback included -/
  | sharedSettles (i : Nat)
  | mutexTimeout (i : Nat)
  | writeRow (connectionId : JsString) (row : DbConnection Token)
  | advance (ms : Nat)
deriving DecidableEq

def refreshLaneMaxMs : Nat := 60000

def refreshMutexMaxMs : Nat := 90000

namespace TokenRefresh

variable {Token : Type} [DecidableEq Token]

def now (s : TokenRefresh Token) : Nat := s.lanes.now

def startRefresh (provider : JsString) (connectionId : Option JsString) (refreshToken : Token)
    (s : TokenRefresh Token) : TokenRefresh Token :=
  { s with
    lanes := s.lanes.call provider
    refreshes := s.refreshes ++ [⟨connectionId, refreshToken, refreshToken, .queued, s.now⟩] }

/-- `getAccessToken`: a call that finds a refresh in flight shares it. -/
def getAccessToken (provider : JsString) (connectionId : Option JsString) (refreshToken : Token)
    (s : TokenRefresh Token) : TokenRefresh Token :=
  match connectionId with
  | some connectionId =>
      if s.connectionRefreshMutex.has connectionId then s
      else
        { s.startRefresh provider (some connectionId) refreshToken with
          connectionRefreshMutex := s.connectionRefreshMutex.set connectionId s.refreshes.length }
  | none =>
      if s.refreshPromiseCache.has refreshToken then s
      else
        { s.startRefresh provider none refreshToken with
          refreshPromiseCache := s.refreshPromiseCache.set refreshToken s.refreshes.length }

def modifyRefresh (i : Nat) (f : Refresh Token → Refresh Token) (s : TokenRefresh Token) :
    TokenRefresh Token :=
  { s with refreshes := s.refreshes.modify i f }

def settle (i : Nat) (outcome : RefreshOutcome) (s : TokenRefresh Token) : TokenRefresh Token :=
  { s.modifyRefresh i (fun r => { r with phase := .settled }) with
    lanes := s.lanes.settle i outcome }

/-- `_getAccessTokenInternal` up to its answer. -/
def present (i : Nat) (token : Token) (s : TokenRefresh Token) : TokenRefresh Token :=
  { s.modifyRefresh i (fun r => { r with refreshToken := token, phase := .presenting }) with
    uses := s.uses ++ [.presented i token s.now] }

/-- `_refreshWithFreshCredentials` up to its first `await`. -/
def begin (i : Nat) (r : Refresh Token) (s : TokenRefresh Token) : TokenRefresh Token :=
  let looked := { s with rotationMap := s.rotationMap.cleanup s.now }
  match s.rotationMap.lookup s.now r.refreshToken with
  | some _ => looked.settle i .resolved
  | none =>
      if r.connectionId.isSome then
        looked.modifyRefresh i (fun r => { r with phase := .rereading })
      else looked.present i r.refreshToken

def hasTurn (s : TokenRefresh Token) (i : Nat) : Bool :=
  match s.lanes.calls[i]? with
  | none => false
  | some c => decide (c.phase = .waiting ∧ s.lanes.tailDone c.prevTail = true)

def enter (i : Nat) (s : TokenRefresh Token) : TokenRefresh Token :=
  match s.refreshes[i]? with
  | none => s
  | some r =>
      if s.hasTurn i then
        { s with lanes := s.lanes.enter refreshLaneMaxMs i }.begin i r
      else s

/-- What a re-read comes to. -/
inductive Freshness (Token : Type) where
  /-- the row has other tokens, which are still valid -/
  | valid
  /-- the token to present -/
  | present (token : Token)
deriving DecidableEq

/-- The re-read of the row.  A row with another token replaces the caller's, and
a valid one is used as it is. -/
def checkFreshness (now : Nat) (refreshToken : Token) (row : Option (DbConnection Token)) :
    Freshness Token :=
  match row with
  | none => .present refreshToken
  | some row =>
      match row.refreshToken with
      | none => .present refreshToken
      | some dbToken =>
          if dbToken ≠ refreshToken then
            if now + 60000 < row.expiresAt then .valid else .present dbToken
          else .present refreshToken

def rowOf (s : TokenRefresh Token) (r : Refresh Token) (failed : Bool) :
    Option (DbConnection Token) :=
  if failed then none else r.connectionId.bind fun connectionId => s.rows.get connectionId

def reread (i : Nat) (failed : Bool) (s : TokenRefresh Token) : TokenRefresh Token :=
  match s.refreshes[i]? with
  | none => s
  | some r =>
      if r.phase = .rereading then
        match checkFreshness s.now r.refreshToken (s.rowOf r failed) with
        | .valid => s.settle i .resolved
        | .present token => s.present i token
      else s

def record (i : Nat) (oldToken newToken : Token) (s : TokenRefresh Token) : TokenRefresh Token :=
  if oldToken = newToken then s
  else
    { s with
      rotationMap := s.rotationMap.record s.now oldToken newToken
      uses := s.uses ++ [.recorded i oldToken s.now] }

def answer (i : Nat) (answer : ProviderAnswer Token) (s : TokenRefresh Token) :
    TokenRefresh Token :=
  match s.refreshes[i]? with
  | none => s
  | some r =>
      if r.phase = .presenting then
        match answer with
        | .granted (some newToken) => (s.record i r.refreshToken newToken).settle i .resolved
        | .granted none => s.settle i .resolved
        | .refused => s.settle i .resolved
        | .thrown => s.settle i .rejected
      else s

/-- The entry of a refresh in its map is removed. -/
def dropShared (i : Nat) (r : Refresh Token) (s : TokenRefresh Token) : TokenRefresh Token :=
  match r.connectionId with
  | some connectionId =>
      if s.connectionRefreshMutex.get connectionId = some i then
        { s with connectionRefreshMutex := s.connectionRefreshMutex.delete connectionId }
      else s
  | none =>
      if s.refreshPromiseCache.get r.cacheToken = some i then
        { s with refreshPromiseCache := s.refreshPromiseCache.delete r.cacheToken }
      else s

/-- The shared promise settles after the serializer is left. -/
def sharedSettles (i : Nat) (s : TokenRefresh Token) : TokenRefresh Token :=
  match s.refreshes[i]? with
  | none => s
  | some r =>
      if (s.lanes.calls[i]?.map RefreshCall.phase) = some .released then s.dropShared i r else s

def mutexTimeout (i : Nat) (s : TokenRefresh Token) : TokenRefresh Token :=
  match s.refreshes[i]? with
  | none => s
  | some r =>
      if r.connectionId.isSome ∧ r.startedAt + refreshMutexMaxMs ≤ s.now then s.dropShared i r
      else s

def step (provider : JsString) (s : TokenRefresh Token) : TokenEvent Token → TokenRefresh Token
  | .getAccessToken connectionId refreshToken => s.getAccessToken provider connectionId refreshToken
  | .enter i => s.enter i
  | .reread i failed => s.reread i failed
  | .answer i answer => s.answer i answer
  | .laneTimeout i => { s with lanes := s.lanes.laneTimeout i }
  | .finish i spacing => { s with lanes := s.lanes.finish i spacing }
  | .release i => { s with lanes := s.lanes.release i }
  | .settleTail i => { s with lanes := s.lanes.settleTail i }
  | .sharedSettles i => s.sharedSettles i
  | .mutexTimeout i => s.mutexTimeout i
  | .writeRow connectionId row => { s with rows := s.rows.set connectionId row }
  | .advance ms => { s with lanes := { s.lanes with now := s.lanes.now + ms } }

def run (provider : JsString) (rows : JsMap JsString (DbConnection Token))
    (events : List (TokenEvent Token)) : TokenRefresh Token :=
  events.foldl (step provider) { rows := rows }

end TokenRefresh

end RedRouter.Services
