import Mathlib.Data.Rat.Floor
import RedRouter.Lib.JsValue
import RedRouter.Lib.JsMap
import RedRouter.Utils.JsonHash

/-!
# The live-zone cache

The model of `open-sse/services/compression/liveZone.ts`.  The output that was
made for the beginning of a conversation is kept, and when the conversation
goes on, the kept output is sent again as it is, and only the new items are
compressed.

A request is handled in two parts, with the compression engine between them.
`apply` is what is done before the engine is called, and `complete` what is
done with its answer.  Any other requests may be handled in the meantime, and
the engine may answer anything, or fail.  A stored entry is an object, and its
`id` says which one it is.

A value is a tree of plain data, so a copy is the value itself, and neither the
hashing nor the copying of one fails.  The tokens of a body, and the statistics
that are made of them, are computed by functions from outside.
-/

namespace RedRouter.Compression.LiveZone

open JsValue

abbrev Body := JsMap JsString JsValue

structure CompressionResult where
  body : Body
  compressed : Bool
  /-- `null` or the statistics. -/
  stats : JsValue

structure Outside where
  sha256 : List UInt8 → List UInt8
  fmt : UInt64 → JsString
  estimateCompressionTokens : Body → Nat
  /-- The statistics of a hit, from those of the engine, the tokens before and
  after, the numbers of the frozen and of the live items, and the time. -/
  liveZoneStats : JsValue → Nat → Nat → Nat → Nat → Int → JsValue

/-- `ttlMinutes` may be undefined, or `NaN`. -/
structure LiveZoneOptions where
  principalId : Option JsString := none
  sessionId : Option JsString := none
  variant : JsValue
  ttlMinutes : Option (Option Rat) := none

/-- An entry with no `expiresAt` was given `NaN`, which no time reaches. -/
structure LiveZoneEntry where
  id : Nat
  rawItemDigests : List JsString
  rawStableFieldsDigest : JsString
  transformedPrefix : List JsValue
  transformedStableFields : Body
  stats : JsValue
  lastAccess : Int
  expiresAt : Option Rat
  bytes : Nat

/-- The field with the items. -/
inductive Field where
  | messages
  | input
deriving DecidableEq

def Field.name : Field → JsString
  | messages => js "messages"
  | input => js "input"

structure LiveZoneContext where
  field : Field
  key : JsString
  rawItems : List JsValue
  rawItemDigests : List JsString
  rawStableFieldsDigest : JsString
  ttlMs : Option Rat
  now : Int

def maxEntries : Nat := 100

def maxEntryBytes : Nat := 2 * 1024 * 1024

def maxTotalBytes : Nat := 32 * 1024 * 1024

def defaultTtlMinutes : Rat := 5

def stablePrefixFields : List JsString :=
  [js "system", js "systemInstruction", js "system_instruction", js "instructions", js "tools",
    js "tool_choice"]

variable (out : Outside)

/-! ## Reading a request -/

def digest (value : JsValue) : JsString :=
  Utils.jsonSha256 out.fmt (fun bytes => hex (out.sha256 bytes)) value

variable (body : Body)

def pickStableFields : Body :=
  stablePrefixFields.foldl (fun fields field => match body.get field with
      | some value => fields.set field value
      | none => fields) []

def itemsOf (field : Field) : Option (List JsValue) :=
  match body.get field.name with
  | some (.arr items) => some items
  | _ => none

def sequenceField : Option Field :=
  if (itemsOf body .messages).isSome then some .messages
  else if (itemsOf body .input).isSome then some .input
  else none

/-- The value of a property is one of the strings. -/
def hasString (members : Body) (key : JsString) (names : List JsString) : Bool :=
  match members.get key with
  | some (.str s) => names.contains s
  | _ => false

def isToolOutputItem : JsValue → Bool
  | .obj members =>
      hasString members (js "role") [js "tool", js "function", js "tool_result"] ||
        hasString members (js "type")
          [js "function_call_output", js "local_shell_call_output", js "apply_patch_call_output",
            js "computer_call_output", js "tool_result"]
  | _ => false

def identity (name : Option JsString) : Option JsString :=
  (name.map JsString.trim).filter fun name => !name.isEmpty

def makeKey (options : LiveZoneOptions) (field : Field) : Option JsString :=
  match identity options.principalId, identity options.sessionId with
  | some principal, some session =>
      some (principal ++ js ":" ++ session ++ js ":" ++ field.name ++ js ":" ++
        digest out options.variant)
  | _, _ => none

/-- `member != null`. -/
def isSet (member : Option JsValue) : Bool :=
  match member with
  | none => false
  | some .undefined => false
  | some .null => false
  | some _ => true

def hasGlobalHardBudget : JsValue → Bool
  | .obj variant =>
      match JsMap.get (js "config") variant with
      | some (.obj config) =>
          isSet (JsMap.get (js "targetTokens") config) ||
            isSet (JsMap.get (js "targetRatio") config)
      | _ => false
  | _ => false

/-- `Math.min(60, Math.max(1, ttlMinutes ?? DEFAULT_TTL_MINUTES)) * 60_000`. -/
def ttlMs (ttlMinutes : Option (Option Rat)) : Option Rat :=
  match ttlMinutes with
  | none => some (defaultTtlMinutes * 60000)
  | some minutes => minutes.map fun minutes => min 60 (max 1 minutes) * 60000

def resolveLiveZoneContext (options : LiveZoneOptions) (now : Int) : Option LiveZoneContext :=
  match sequenceField body with
  | none => none
  | some field =>
      match makeKey out options field, itemsOf body field with
      | some key, some rawItems => some
          { field := field
            key := key
            rawItems := rawItems
            rawItemDigests := rawItems.map (digest out)
            rawStableFieldsDigest := digest out (.obj (pickStableFields body))
            ttlMs := ttlMs options.ttlMinutes
            now := now }
      | _, _ => none

def hasExactRawPrefix (rawItemDigests : List JsString) (entry : LiveZoneEntry) : Bool :=
  entry.rawItemDigests.isPrefixOf rawItemDigests

/-! ## The cache -/

structure Request where
  body : Body
  options : LiveZoneOptions

/-- What a request does with the answer of the engine. -/
inductive Plan where
  /-- Nothing: it is the answer. -/
  | pass
  /-- It is stored and is the answer. -/
  | compressAndStore (context : LiveZoneContext)
  /-- It is put behind the kept output. -/
  | reuse (context : LiveZoneContext) (previous : LiveZoneEntry)

/-- `call` is the body that the engine is called with, when it is called. -/
structure Pending where
  request : Request
  call : Option Body
  plan : Plan

/-- An answered request, and the entry that it reused. -/
structure Answer where
  request : Request
  result : CompressionResult
  reused : Option LiveZoneEntry

structure Cache where
  entries : JsMap JsString LiveZoneEntry := []
  totalBytes : Int := 0
  nextEntry : Nat := 0
  /-- The requests that wait for the engine, by number. -/
  pending : JsMap Nat Pending := []
  nextRequest : Nat := 0
  answers : List Answer := []

variable (context : LiveZoneContext)

namespace Cache

def deleteEntry (key : JsString) (s : Cache) : Cache :=
  match s.entries.get key with
  | none => s
  | some existing =>
      { s with
        totalBytes := s.totalBytes - existing.bytes
        entries := s.entries.delete key }

def isExpired (now : Int) (entry : LiveZoneEntry) : Bool :=
  entry.expiresAt.any fun expiresAt : Rat => decide (expiresAt ≤ now)

/-- The loop over the entries that are over a cap.  Every round takes an entry,
so their number is enough fuel. -/
def pruneOldest : Nat → Cache → Cache
  | 0, s => s
  | rounds + 1, s =>
      if maxEntries < s.entries.length ∨ (maxTotalBytes : Int) < s.totalBytes then
        match s.entries with
        | [] => s
        | (oldest, _) :: _ => if oldest.isEmpty then s else pruneOldest rounds (s.deleteEntry oldest)
      else s

def prune (now : Int) (s : Cache) : Cache :=
  let s := s.entries.foldl (fun s e => if isExpired now e.2 then s.deleteEntry e.1 else s) s
  pruneOldest s.entries.length s

def entryBytes (rawItemDigests : List JsString) (transformedPrefix : List JsValue)
    (transformedStableFields : Body) (stats : JsValue) : Nat :=
  let serialized := (stringify out.fmt (.obj [(js "transformedPrefix", .arr transformedPrefix),
      (js "transformedStableFields", .obj transformedStableFields), (js "stats", stats)])).getD []
  (utf8 serialized).length + rawItemDigests.length * 64

def store (result : CompressionResult) (now : Int) (s : Cache) : Cache :=
  match itemsOf result.body context.field with
  | none => s
  | some transformedPrefix =>
      let transformedStableFields := pickStableFields result.body
      let bytes :=
        entryBytes out context.rawItemDigests transformedPrefix transformedStableFields result.stats
      if maxEntryBytes < bytes then s
      else
        let s := s.deleteEntry context.key
        let entry : LiveZoneEntry :=
          { id := s.nextEntry
            rawItemDigests := context.rawItemDigests
            rawStableFieldsDigest := context.rawStableFieldsDigest
            transformedPrefix := transformedPrefix
            transformedStableFields := transformedStableFields
            stats := result.stats
            lastAccess := now
            expiresAt := context.ttlMs.map fun ttlMs => now + ttlMs
            bytes := bytes }
        { s with
          entries := s.entries.set context.key entry
          totalBytes := s.totalBytes + bytes
          nextEntry := s.nextEntry + 1 }.prune now

/-! ## Requests -/

def liveItems (previous : LiveZoneEntry) : List JsValue :=
  context.rawItems.drop previous.rawItemDigests.length

def liveToolIndexes (items : List JsValue) : List Nat :=
  items.zipIdx.filterMap fun e => if isToolOutputItem e.1 then some e.2 else none

/-- The engine gets the whole body, or the live tool outputs when there are
some. -/
def engineCall : Plan → Option Body
  | .pass => some body
  | .compressAndStore _ => some body
  | .reuse context previous =>
      let items := liveItems context previous
      if (liveToolIndexes items).isEmpty then none
      else some (body.set context.field.name (.arr (items.filter isToolOutputItem)))

def await (request : Request) (plan : Plan) (s : Cache) : Cache :=
  { s with
    pending := s.pending.set s.nextRequest ⟨request, engineCall request.body plan, plan⟩
    nextRequest := s.nextRequest + 1 }

/-- The part of `applyLiveZoneCompression` before the engine is called. -/
def apply (request : Request) (now : Int) (s : Cache) : Cache :=
  if hasGlobalHardBudget request.options.variant then s.await request .pass
  else
    match resolveLiveZoneContext out request.body request.options now with
    | none => s.await request .pass
    | some context =>
        let s := s.prune context.now
        match s.entries.get context.key with
        | none => s.await request (.compressAndStore context)
        | some previous =>
            if previous.rawStableFieldsDigest = context.rawStableFieldsDigest ∧
                hasExactRawPrefix context.rawItemDigests previous then
              let previous := { previous with lastAccess := context.now }
              { s with entries := (s.entries.delete context.key).set context.key previous }.await
                request (.reuse context previous)
            else s.await request (.compressAndStore context)

/-- `compressLiveToolOutputs`, with the answer of the engine. -/
def compressLiveToolOutputs (field : Field) (items : List JsValue)
    (previousStats : JsValue) (liveResult : CompressionResult) :
    CompressionResult × List JsValue :=
  let indexes := liveToolIndexes items
  if indexes.isEmpty then (⟨body, false, previousStats⟩, items)
  else
    match itemsOf liveResult.body field with
    | none => (⟨body, false, .null⟩, items)
    | some transformed =>
        if transformed.length = indexes.length then
          (liveResult, (indexes.zip transformed).foldl (fun live e => live.set e.1 e.2) items)
        else (⟨body, false, .null⟩, items)

/-- `{ ...body, ...stableFields }`. -/
def restoreStableFields (stableFields : Body) : Body :=
  stableFields.foldl (fun body e => body.set e.1 e.2) body

def withLiveZoneStats (result : CompressionResult) (frozenItems liveItems : Nat)
    (now : Int) : CompressionResult :=
  let originalTokens := out.estimateCompressionTokens body
  let compressedTokens := out.estimateCompressionTokens result.body
  { result with
    compressed := result.compressed || decide (compressedTokens < originalTokens)
    stats := out.liveZoneStats result.stats originalTokens compressedTokens frozenItems liveItems now }

def reusedResult (previous : LiveZoneEntry)
    (engine : CompressionResult) (now : Int) : CompressionResult :=
  let items := liveItems context previous
  let live := compressLiveToolOutputs body context.field items previous.stats engine
  let restoredBody := restoreStableFields live.1.body previous.transformedStableFields
  let combinedBody :=
    restoredBody.set context.field.name (.arr (previous.transformedPrefix ++ live.2))
  withLiveZoneStats out body { live.1 with body := combinedBody } previous.rawItemDigests.length
    items.length now

def respond (request : Request) (result : CompressionResult) (reused : Option LiveZoneEntry)
    (s : Cache) : Cache :=
  { s with answers := s.answers ++ [⟨request, result, reused⟩] }

/-- The engine has answered the request, or is not needed for it. -/
def complete (i : Nat) (engine : CompressionResult) (now : Int) (s : Cache) : Cache :=
  match s.pending.get i with
  | none => s
  | some pending =>
      let s := { s with pending := s.pending.delete i }
      match pending.plan with
      | .pass => s.respond pending.request engine none
      | .compressAndStore context =>
          (s.store out context engine context.now).respond pending.request engine none
      | .reuse context previous =>
          let result := reusedResult out pending.request.body context previous engine now
          let s :=
            if (s.entries.get context.key).any fun entry => entry.id = previous.id then
              s.store out context result now
            else s
          s.respond pending.request result (some previous)

def fail (i : Nat) (s : Cache) : Cache := { s with pending := s.pending.delete i }

/-- `resetLiveZoneCache`. -/
def reset (s : Cache) : Cache := { s with entries := [], totalBytes := 0 }

end Cache

inductive Event where
  | apply (request : Request) (now : Int)
  | complete (i : Nat) (engine : CompressionResult) (now : Int)
  | fail (i : Nat)
  | reset

namespace Cache

def step (s : Cache) : Event → Cache
  | .apply request now => s.apply out request now
  | .complete i engine now => s.complete out i engine now
  | .fail i => s.fail i
  | .reset => s.reset

def run (events : List Event) : Cache := events.foldl (step out) {}

end Cache

end RedRouter.Compression.LiveZone
