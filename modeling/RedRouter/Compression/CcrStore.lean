import Mathlib.Data.Rat.Floor
import RedRouter.Lib.JsValue
import RedRouter.Lib.JsMap

/-!
# The block store of the CCR engine

The model of the store in
`open-sse/services/compression/engines/ccr/index.ts` and of the table behind it
in `lib/db/ccrBlocks.ts`.  A block is kept in memory under the key of its
principal and the hash of its text.  It is written to the table later, off the
request path, and read back from there when memory has lost it.

The writes to the table wait in `deferred`, in the order of `setImmediate`, and
one step of the model performs the first of them.  The table is as good as
`usable`: a read or a write that throws is caught by its caller.

Three things come from outside.  `sha256` is the hash of the crypto library,
`column` is what a text column of the database makes of a string, and
`durableTierEnabled` is the switch of the deployment.

The management of the prompts (`maybeCcrReplace` and what is above it) and the
listing, which acts on the store like the statistics, are left out.
-/

namespace RedRouter.Compression.Ccr

def maxCcrEntries : Nat := 5000

def maxCcrBlockBytes : Nat := 2 * 1024 * 1024

def maxCcrPrincipalBytes : Nat := 16 * 1024 * 1024

def maxCcrGlobalBytes : Nat := 64 * 1024 * 1024

def defaultCcrTtlSeconds : Int := 24 * 60 * 60

def maxCcrTtlSeconds : Int := 7 * 24 * 60 * 60

def maxDurableBlockBytes : Nat := 512 * 1024

def maxPendingDurableWrites : Nat := 1000

def pruneEveryNWrites : Nat := 200

def retrievalThreshold : Nat := 3

structure Outside where
  sha256 : List UInt8 → List UInt8
  column : JsString → JsString
  durableTierEnabled : Bool

inductive CcrEntrySource where
  | compression
  | mcp
  | ionizer
  | sessionDedup
deriving DecidableEq

/-- What an entry and its metadata have in common. -/
structure CcrEntryInfo where
  hash : JsString
  bytes : Nat
  chars : Nat
  lines : Nat
  contentType : JsString
  source : CcrEntrySource
  createdAt : Int
  lastAccessedAt : Int
  expiresAt : Int
deriving DecidableEq

structure CcrEntryMetadata extends CcrEntryInfo where
  retrievalCount : Nat
deriving DecidableEq

structure CcrEntry extends CcrEntryInfo where
  principalId : JsString
  content : JsString
deriving DecidableEq

/-- A row of the table has the fields of an entry. -/
abbrev CcrBlockRow := CcrEntry

/-- A ttl that is not finite is `none`. -/
structure StoreCcrBlockOptions where
  contentType : Option JsString := none
  source : Option CcrEntrySource := none
  ttlSeconds : Option Rat := none
deriving DecidableEq

inductive RejectReason where
  | blockTooLarge
  | principalBudgetExceeded
  | globalBudgetExceeded
deriving DecidableEq

inductive StoreCcrBlockResult where
  | stored (hash : JsString) (metadata : CcrEntryMetadata)
  | rejected (hash : JsString) (reason : RejectReason)
deriving DecidableEq

structure CcrLifecycleCounters where
  expiredEvictions : Nat := 0
  capacityEvictions : Nat := 0
  rejectedStores : Nat := 0
deriving DecidableEq

/-- Why an entry is evicted. -/
inductive EvictReason where
  | expired
  | capacity
deriving DecidableEq

/-- A write that waits for its turn. -/
inductive DurableWork where
  | persist (row : CcrBlockRow)
  | delete (principalId hash : JsString)
deriving DecidableEq

structure Store where
  ccrStore : JsMap JsString CcrEntry := []
  retrievalCounts : JsMap JsString Nat := []
  principalBytesMap : JsMap JsString Nat := []
  ccrTotalBytes : Nat := 0
  lifecycleByPrincipal : JsMap JsString CcrLifecycleCounters := []
  /-- As many as `pendingDurableWrites` counts. -/
  deferred : List DurableWork := []
  droppedDurableWrites : Nat := 0
  /-- The table, and whether the database can be used. -/
  rows : List CcrBlockRow := []
  usable : Bool := true
  writesSincePrune : Nat := 0
deriving DecidableEq

/-! ## Keys and hashes -/

/-- The principal of a call without one. -/
def anon : JsString := js "__anon__"

/-- `principalId ?? ANON`. -/
def owner (principalId : Option JsString) : JsString := principalId.getD anon

def buildStoreKey (hash : JsString) (principalId : Option JsString) : JsString :=
  owner principalId ++ js " " ++ hash

/-- The beginning of the SHA-256 in hex. -/
def hashContent (out : Outside) (text : JsString) : JsString := (hex (out.sha256 (utf8 text))).take 24

def normalizeTtlSeconds : Option Rat → Int
  | none => defaultCcrTtlSeconds
  | some value => max 60 (min maxCcrTtlSeconds value.floor)

/-- `text.split("\n").length`, and 0 for the empty text. -/
def lineCount (text : JsString) : Nat :=
  if text.length = 0 then 0 else text.count (unit '\n') + 1

/-- `contentType?.trim().slice(0, 128) || "text/plain"`. -/
def normalizeContentType (contentType : Option JsString) : JsString :=
  match contentType with
  | none => js "text/plain"
  | some contentType =>
      let trimmed := (JsString.trim contentType).take 128
      if trimmed.isEmpty then js "text/plain" else trimmed

namespace Store

variable (out : Outside)

/-! ## The table -/

def isRowOf (principalId hash : JsString) (row : CcrBlockRow) : Bool :=
  row.principalId = out.column principalId ∧ row.hash = out.column hash

def columns (row : CcrBlockRow) : CcrBlockRow :=
  { row with
    principalId := out.column row.principalId
    hash := out.column row.hash
    content := out.column row.content
    contentType := out.column row.contentType }

def pruneExpiredCcrBlocks (now : Int) (s : Store) : Store :=
  { s with rows := s.rows.filter fun row => ¬ row.expiresAt ≤ now }

def deleteCcrBlockRow (principalId hash : JsString) (s : Store) : Store :=
  { s with rows := s.rows.filter fun row => ¬ isRowOf out principalId hash row }

def persistCcrBlock (row : CcrBlockRow) (now : Int) (s : Store) : Store :=
  let s := s.deleteCcrBlockRow out row.principalId row.hash
  let s := { s with rows := s.rows ++ [columns out row] }
  if pruneEveryNWrites ≤ s.writesSincePrune + 1 then
    { s with writesSincePrune := 0 }.pruneExpiredCcrBlocks now
  else { s with writesSincePrune := s.writesSincePrune + 1 }

def loadCcrBlock (principalId hash : JsString) (now : Int) (s : Store) :
    Option CcrBlockRow × Store :=
  match s.rows.find? (isRowOf out principalId hash) with
  | none => (none, s)
  | some row =>
      if row.expiresAt ≤ now then (none, s.deleteCcrBlockRow out principalId hash)
      else (some { row with principalId := principalId, hash := hash }, s)

def touchCcrBlock (principalId hash : JsString) (lastAccessedAt : Int) (s : Store) : Store :=
  { s with
    rows := s.rows.map fun row =>
      if isRowOf out principalId hash row then { row with lastAccessedAt := lastAccessedAt }
      else row }

/-! ## Deferred writes -/

def deferDurable (work : DurableWork) (droppable : Bool) (s : Store) : Store :=
  if droppable = true ∧ maxPendingDurableWrites ≤ s.deferred.length then
    { s with droppedDurableWrites := s.droppedDurableWrites + 1 }
  else { s with deferred := s.deferred ++ [work] }

def persistEntry (entry : CcrEntry) (s : Store) : Store :=
  if ¬ out.durableTierEnabled then s
  else if maxDurableBlockBytes < entry.bytes then s
  else s.deferDurable (.persist entry) true

variable (hash : JsString)

def forgetEntry (principalId : JsString) (s : Store) : Store :=
  if ¬ out.durableTierEnabled then s else s.deferDurable (.delete principalId hash) false

def performWork (now : Int) (s : Store) : DurableWork → Store
  | .persist row => s.persistCcrBlock out row now
  | .delete principalId hash => s.deleteCcrBlockRow out principalId hash

/-- The first of the deferred writes is performed.  It is lost when the
database throws. -/
def runDeferred (now : Int) (s : Store) : Store :=
  match s.deferred with
  | [] => s
  | work :: rest =>
      let s := { s with deferred := rest }
      if s.usable then s.performWork out now work else s

/-! ## Eviction and accounting -/

def principalBytes (s : Store) (principalId : JsString) : Nat :=
  (s.principalBytesMap.get principalId).getD 0

/-- The counters of a principal are looked up, or created, and changed. -/
def countLifecycle (principalId : JsString) (f : CcrLifecycleCounters → CcrLifecycleCounters)
    (s : Store) : Store :=
  { s with
    lifecycleByPrincipal := s.lifecycleByPrincipal.set principalId
      (f ((s.lifecycleByPrincipal.get principalId).getD {})) }

def publicMetadata (s : Store) (entry : CcrEntry) : CcrEntryMetadata :=
  { entry.toCcrEntryInfo with
    retrievalCount :=
      (s.retrievalCounts.get (buildStoreKey entry.hash (some entry.principalId))).getD 0 }

def setRetrievalCount (key : JsString) (count : Nat) (s : Store) : Store :=
  let counts : JsMap JsString Nat :=
    if ¬ s.retrievalCounts.has key ∧ maxCcrEntries ≤ s.retrievalCounts.length then
      s.retrievalCounts.drop 1
    else s.retrievalCounts
  { s with retrievalCounts := (counts.delete key).set key count }

/-- The bytes of an entry are taken off the totals. -/
def subtractBytes (entry : CcrEntry) (s : Store) : Store :=
  let remainingPrincipalBytes := s.principalBytes entry.principalId - entry.bytes
  { s with
    ccrTotalBytes := s.ccrTotalBytes - entry.bytes
    principalBytesMap :=
      if remainingPrincipalBytes = 0 then s.principalBytesMap.delete entry.principalId
      else s.principalBytesMap.set entry.principalId remainingPrincipalBytes }

def removeEntry (key : JsString) (reason : Option EvictReason) (s : Store) : Bool × Store :=
  match s.ccrStore.get key with
  | none => (false, s)
  | some entry =>
      let s := { s with ccrStore := s.ccrStore.delete key }.subtractBytes entry
      match reason with
      | none => (true, s.countLifecycle entry.principalId id)
      | some .expired =>
          (true, (s.countLifecycle entry.principalId fun counters =>
              { counters with expiredEvictions := counters.expiredEvictions + 1 }).forgetEntry out
                entry.hash entry.principalId)
      | some .capacity =>
          (true, s.countLifecycle entry.principalId fun counters =>
            { counters with capacityEvictions := counters.capacityEvictions + 1 })

def purgeExpired (now : Int) (s : Store) : Store :=
  s.ccrStore.foldl
    (fun s e => if e.2.expiresAt ≤ now then (s.removeEntry out e.1 (some .expired)).2 else s) s

def getActiveEntry (key : JsString) (now : Int) (s : Store) : Option CcrEntry × Store :=
  match s.ccrStore.get key with
  | none => (none, s)
  | some entry =>
      if entry.expiresAt ≤ now then (none, (s.removeEntry out key (some .expired)).2)
      else (some entry, s)

/-- The store without its oldest matching entry, if there is one. -/
def evictOldestMatching (predicate : CcrEntry → Bool) (s : Store) : Option Store :=
  (s.ccrStore.find? fun e => predicate e.2).map fun e => (s.removeEntry out e.1 (some .capacity)).2

/-- The loop of `enforcePrincipalBudget`.  Every round takes an entry, so their
number is enough fuel. -/
def evictOwned (owner : JsString) (bytes : Nat) : Nat → Store → Store
  | 0, s => s
  | rounds + 1, s =>
      if maxCcrPrincipalBytes < s.principalBytes owner + bytes then
        match s.evictOldestMatching out fun entry => entry.principalId = owner with
        | none => s
        | some s => evictOwned owner bytes rounds s
      else s

def enforcePrincipalBudget (owner : JsString) (bytes : Nat) (s : Store) : Bool × Store :=
  let s := evictOwned out owner bytes s.ccrStore.length s
  (decide (s.principalBytes owner + bytes ≤ maxCcrPrincipalBytes), s)

def overBudget (bytes : Nat) (s : Store) : Bool :=
  maxCcrEntries ≤ s.ccrStore.length ∨ maxCcrGlobalBytes < s.ccrTotalBytes + bytes

/-- The loop of `enforceGlobalBudget`. -/
def evictOverBudget (owner : JsString) (bytes : Nat) : Nat → Store → Store
  | 0, s => s
  | rounds + 1, s =>
      if s.overBudget bytes then
        match s.evictOldestMatching out fun entry => entry.principalId = owner with
        | some s => evictOverBudget owner bytes rounds s
        | none =>
            match s.evictOldestMatching out fun _ => true with
            | some s => evictOverBudget owner bytes rounds s
            | none => s
      else s

def enforceGlobalBudget (owner : JsString) (bytes : Nat) (s : Store) : Bool × Store :=
  let s := evictOverBudget out owner bytes s.ccrStore.length s
  (decide (s.ccrTotalBytes + bytes ≤ maxCcrGlobalBytes), s)

/-! ## Store, retrieve, delete -/

def moveToEnd (key : JsString) (entry : CcrEntry) (s : Store) : Store :=
  { s with ccrStore := (s.ccrStore.delete key).set key entry }

/-- A new entry is put into the map and counted. -/
def addEntry (key : JsString) (entry : CcrEntry) (s : Store) : Store :=
  { s with
    ccrStore := s.ccrStore.set key entry
    ccrTotalBytes := s.ccrTotalBytes + entry.bytes
    principalBytesMap := s.principalBytesMap.set entry.principalId
      (s.principalBytes entry.principalId + entry.bytes) }

def rejectStore (owner : JsString) (reason : RejectReason) (s : Store) :
    StoreCcrBlockResult × Store :=
  (.rejected hash reason, s.countLifecycle owner fun counters =>
    { counters with rejectedStores := counters.rejectedStores + 1 })

def newEntry (text : JsString) (principalId : Option JsString) (options : StoreCcrBlockOptions)
    (now : Int) : CcrEntry where
  hash := hashContent out text
  principalId := owner principalId
  content := text
  bytes := (utf8 text).length
  chars := text.length
  lines := lineCount text
  contentType := normalizeContentType options.contentType
  source := options.source.getD .compression
  createdAt := now
  lastAccessedAt := now
  expiresAt := now + normalizeTtlSeconds options.ttlSeconds * 1000

/-- The two budgets, one after the other. -/
def makeRoom (owner : JsString) (bytes : Nat) (s : Store) : Option RejectReason × Store :=
  let (fits, s) := s.enforcePrincipalBudget out owner bytes
  if ¬ fits then (some .principalBudgetExceeded, s)
  else
    let (fits, s) := s.enforceGlobalBudget out owner bytes
    if ¬ fits then (some .globalBudgetExceeded, s) else (none, s)

/-- `now` is `options.now ?? Date.now()`. -/
def tryStoreBlock (text : JsString) (principalId : Option JsString)
    (options : StoreCcrBlockOptions) (now : Int) (s : Store) : StoreCcrBlockResult × Store :=
  let hash := hashContent out text
  let owner := owner principalId
  let key := buildStoreKey hash principalId
  let s := s.purgeExpired out now
  match s.ccrStore.get key with
  | some existing =>
      let existing := { existing with
        lastAccessedAt := now
        expiresAt := now + normalizeTtlSeconds options.ttlSeconds * 1000 }
      (.stored hash (s.publicMetadata existing), s.moveToEnd key existing)
  | none =>
      let bytes := (utf8 text).length
      if maxCcrBlockBytes < bytes then s.rejectStore hash owner .blockTooLarge
      else
        match s.makeRoom out owner bytes with
        | (some reason, s) => s.rejectStore hash owner reason
        | (none, s) =>
            let entry := newEntry out text principalId options now
            let s := (s.addEntry key entry).persistEntry out entry
            (.stored hash (s.publicMetadata entry), s)

variable (principalId : Option JsString)

/-- The row of a block that is not in the map goes back to the map, when it
fits. -/
def rehydrateEntry (now : Int) (s : Store) : Option CcrEntry × Store :=
  if ¬ (out.durableTierEnabled ∧ s.usable) then (none, s)
  else
    match s.loadCcrBlock out (owner principalId) hash now with
    | (none, s) => (none, s)
    | (some row, s) =>
        let entry := { row with lastAccessedAt := now }
        let s :=
          match s.makeRoom out entry.principalId entry.bytes with
          | (some _, s) => s
          | (none, s) => s.addEntry (buildStoreKey hash principalId) entry
        (some entry, s.touchCcrBlock out entry.principalId hash now)

def retrieveBlock (now : Int) (s : Store) : Option JsString × Store :=
  let key := buildStoreKey hash principalId
  match s.getActiveEntry out key now with
  | (none, s) =>
      let (restored, s) := s.rehydrateEntry out hash principalId now
      (restored.map CcrEntry.content, s)
  | (some entry, s) => (some entry.content, s.moveToEnd key { entry with lastAccessedAt := now })

def recordRetrieval (s : Store) : Store :=
  let key := buildStoreKey hash principalId
  s.setRetrievalCount key ((s.retrievalCounts.get key).getD 0 + 1)

def shouldSkipCompression (s : Store) (hash : JsString) (principalId : Option JsString) : Bool :=
  retrievalThreshold ≤ (s.retrievalCounts.get (buildStoreKey hash principalId)).getD 0

def inspectCcrBlock (now : Int) (s : Store) : Option CcrEntryMetadata × Store :=
  let (entry, s) := s.getActiveEntry out (buildStoreKey hash principalId) now
  (entry.map s.publicMetadata, s)

def deleteCcrBlock (s : Store) : Bool × Store :=
  let (removedFromCache, s) := s.removeEntry out (buildStoreKey hash principalId) none
  (removedFromCache, s.forgetEntry out hash (owner principalId))

end Store

/-- The part of the statistics that is about a principal. -/
structure CcrStoreStats where
  entries : Nat
  bytes : Nat
  lifecycle : CcrLifecycleCounters
deriving DecidableEq

def Store.getCcrStoreStats (out : Outside) (principalId : Option JsString) (now : Int) (s : Store) :
    CcrStoreStats × Store :=
  let s := s.purgeExpired out now
  let entries := s.ccrStore.values.filter fun entry => entry.principalId = owner principalId
  ({ entries := entries.length
     bytes := (entries.map fun entry => entry.bytes).sum
     lifecycle := (s.lifecycleByPrincipal.get (owner principalId)).getD {} }, s)

/-! ## Runs -/

inductive Event where
  | store (text : JsString) (principalId : Option JsString) (options : StoreCcrBlockOptions)
      (now : Int)
  | retrieve (hash : JsString) (principalId : Option JsString) (now : Int)
  | delete (hash : JsString) (principalId : Option JsString)
  | inspect (hash : JsString) (principalId : Option JsString) (now : Int)
  | stats (principalId : Option JsString) (now : Int)
  | recordRetrieval (hash : JsString) (principalId : Option JsString)
  /-- A deferred write has its turn. -/
  | deferred (now : Int)
  /-- The sweep of the operator. -/
  | cleanup (now : Int)
  /-- The database goes or comes back. -/
  | database (usable : Bool)
deriving DecidableEq

namespace Store

variable (out : Outside)

def step (s : Store) : Event → Store
  | .store text principalId options now => (s.tryStoreBlock out text principalId options now).2
  | .retrieve hash principalId now => (s.retrieveBlock out hash principalId now).2
  | .delete hash principalId => (s.deleteCcrBlock out hash principalId).2
  | .inspect hash principalId now => (s.inspectCcrBlock out hash principalId now).2
  | .stats principalId now => (s.getCcrStoreStats out principalId now).2
  | .recordRetrieval hash principalId => s.recordRetrieval hash principalId
  | .deferred now => s.runDeferred out now
  | .cleanup now => if s.usable then s.pruneExpiredCcrBlocks now else s
  | .database usable => { s with usable := usable }

/-- A process that finds these rows in the table. -/
def run (rows : List CcrBlockRow) (events : List Event) : Store :=
  events.foldl (step out) { rows := rows }

end Store

end RedRouter.Compression.Ccr
