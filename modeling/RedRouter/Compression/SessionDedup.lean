import Mathlib.Data.List.Sort
import RedRouter.Lib.Json
import RedRouter.Lib.KeyedStore
import RedRouter.Lib.Search

/-!
# The session-dedup engine

The model of `open-sse/services/compression/engines/session-dedup/index.ts`:
`processMessages` with what it calls.  The texts of the messages are collected
with a numeric key each, the repeated blocks of lines are replaced by markers,
and the results are written back under the keys.

`hashBlock`, the beginning of a SHA-256 in hex, is a parameter.  A minimal size
that is no whole number acts like the next one, and one that is `NaN` or
infinite like one that no text reaches, so it is a natural number here.  A copy
of a message that changes nothing is the message.  The fuzzy pass, which comes
after this one when it is asked for, is outside the model, and so are the
statistics.
-/

namespace RedRouter.Compression.SessionDedup

/-! ## Suffix blocks -/

def minBlockLines : Nat := 3

def maxSuffixStarts : Nat := 2000

def maxTotalBlockBytes : Nat := 8 * 1024 * 1024

def newline : UInt16 := unit '\n'

/-- `text.split("\n")`. -/
def lines (text : JsString) : List JsString := text.splitOn newline

/-- The loop of `findSuffixBlocks` from one start on: how many starts are left,
the lines from the start on, the blocks seen and the size of them all. -/
def suffixBlocksFrom (minBlockChars : Nat) :
    Nat → List JsString → List JsString → Nat → List JsString
  | 0, _, _, _ => []
  | _ + 1, [], _, _ => []
  | starts + 1, line :: rest, seen, totalBlockBytes =>
      let block := JsString.join [newline] (line :: rest)
      if minBlockLines ≤ rest.length + 1 ∧ minBlockChars ≤ block.length ∧ block ∉ seen then
        block ::
          if maxTotalBlockBytes ≤ totalBlockBytes + block.length then []
          else suffixBlocksFrom minBlockChars starts rest (seen ++ [block])
            (totalBlockBytes + block.length)
      else suffixBlocksFrom minBlockChars starts rest seen totalBlockBytes

/-- `findSuffixBlocks`.  Nobody reads the start line of a block. -/
def findSuffixBlocks (lines : List JsString) (minBlockChars : Nat) : List JsString :=
  suffixBlocksFrom minBlockChars maxSuffixStarts lines [] 0

def blocks (minBlockChars : Nat) (text : JsString) : List JsString :=
  findSuffixBlocks (lines text) minBlockChars

/-! ## Markers -/

def marker (hashBlock : JsString → JsString) (block : JsString) : JsString :=
  js "[dedup:ref sha=" ++ hashBlock block ++ js "]"

def longerFirst (a b : JsString) : Prop := b.length ≤ a.length

instance : DecidableRel longerFirst := fun a b => inferInstanceAs (Decidable (b.length ≤ a.length))

/-! ## One text -/

/-- The scan of `countLiteralOccurrences` over what is left of the text. -/
def countFrom (needle : JsString) : Nat → JsString → Nat
  | 0, _ => 0
  | fuel + 1, rest =>
      match JsString.indexOf needle rest with
      | none => 0
      | some idx => countFrom needle fuel (rest.drop (idx + needle.length)) + 1

/-- `countLiteralOccurrences`.  Each found needle takes one unit or more. -/
def countLiteralOccurrences (text needle : JsString) : Nat :=
  if needle.isEmpty then 0 else countFrom needle text.length text

/-- The scan of `replaceLiteralOccurrencesAfterFirst` over what is left of the
text. -/
def replaceFrom (needle replacement : JsString) : Nat → JsString → JsString
  | 0, rest => rest
  | fuel + 1, rest =>
      match JsString.indexOf needle rest with
      | none => rest
      | some idx =>
          rest.take idx ++ replacement ++
            replaceFrom needle replacement fuel (rest.drop (idx + needle.length))

def replaceLiteralOccurrencesAfterFirst (text needle replacement : JsString) : JsString :=
  if needle.isEmpty then text
  else
    match JsString.indexOf needle text with
    | none => text
    | some first =>
        text.take (first + needle.length) ++
          replaceFrom needle replacement text.length (text.drop (first + needle.length))

/-- How often each block is among the blocks. -/
def blockFreq (blocks : List JsString) : JsMap JsString Nat :=
  blocks.foldl (fun freq block => freq.set block ((freq.get block).getD 0 + 1)) []

/-- The order of `dedupeWithinMessage`: more frequent blocks first, then longer
ones. -/
def frequentFirst (freq : JsMap JsString Nat) (a b : JsString) : Prop :=
  (freq.get b).getD 0 < (freq.get a).getD 0 ∨
    (freq.get b).getD 0 = (freq.get a).getD 0 ∧ b.length ≤ a.length

instance (freq : JsMap JsString Nat) : DecidableRel (frequentFirst freq) :=
  fun a b => inferInstanceAs (Decidable ((freq.get b).getD 0 < (freq.get a).getD 0 ∨
      (freq.get b).getD 0 = (freq.get a).getD 0 ∧ b.length ≤ a.length))

variable (hashBlock : JsString → JsString)

/-- One round of the loop of `dedupeWithinMessage`: the text so far and whether
it has changed. -/
def withinStep (state : JsString × Bool) (block : JsString) : JsString × Bool :=
  if countLiteralOccurrences state.1 block < 2 then state
  else (replaceLiteralOccurrencesAfterFirst state.1 block (marker hashBlock block), true)

/-- The blocks in the order of `dedupeWithinMessage`. -/
def sortedBlocks (blocks : List JsString) : List JsString :=
  blocks.insertionSort (frequentFirst (blockFreq blocks))

def dedupeWithinMessage (text : JsString) (minBlockChars : Nat) : JsString × Bool :=
  let blocks := blocks minBlockChars text
  if blocks.length < 2 then (text, false)
  else (sortedBlocks blocks).foldl (withinStep hashBlock) (text, false)

/-! ## Several texts -/

/-- A collected text. -/
structure MsgText where
  msgIdx : Nat
  messageIndex : Nat
  text : JsString
deriving DecidableEq

/-- The first owner of a hash. -/
structure Owner where
  ownerMsgIdx : Nat
  block : JsString
deriving DecidableEq

def firstSeen (minBlockChars : Nat) (msgTexts : List MsgText) : JsMap JsString Owner :=
  msgTexts.foldl (fun seen t => (blocks minBlockChars t.text).foldl
      (fun seen block =>
        let sha := hashBlock block
        if seen.has sha then seen else seen.set sha ⟨t.msgIdx, block⟩) seen) []

/-- The blocks of a text that an earlier key owns. -/
def dupBlocks (minBlockChars : Nat) (seen : JsMap JsString Owner) (t : MsgText) : List JsString :=
  (blocks minBlockChars t.text).filter fun block =>
    match seen.get (hashBlock block) with
    | some owner => owner.ownerMsgIdx < t.msgIdx ∧ owner.block = block
    | none => false

/-- The loop over the duplicates, which ends with the first replacement.  The
result is `none` when there was none. -/
def replaceDuplicate (text : JsString) (replaced : List JsString) : List JsString → Option JsString
  | [] => none
  | block :: rest =>
      if replaced.any (fun r => r.includes block) then replaceDuplicate text replaced rest
      else
        match JsString.indexOf block text with
        | some idx =>
            some (text.take idx ++ marker hashBlock block ++ text.drop (idx + block.length))
        | none => replaceDuplicate text replaced rest

/-- Pass 2 for one text: what it is replaced by. -/
def rewriteText (minBlockChars currentTurnStart : Nat) (seen : JsMap JsString Owner)
    (t : MsgText) : Option JsString :=
  if t.messageIndex ≥ currentTurnStart then none
  else replaceDuplicate hashBlock t.text []
    ((dupBlocks hashBlock minBlockChars seen t).insertionSort longerFirst)

/-- One round of pass 2: the replaced texts so far, and their number. -/
def dedupStep (minBlockChars currentTurnStart : Nat) (seen : JsMap JsString Owner)
    (state : JsMap Nat JsString × Nat) (t : MsgText) : JsMap Nat JsString × Nat :=
  match rewriteText hashBlock minBlockChars currentTurnStart seen t with
  | some result => (state.1.set t.msgIdx result, state.2 + 1)
  | none => state

/-- `dedupMessageTexts`: the replaced texts by their keys, and their number. -/
def dedupMessageTexts (msgTexts : List MsgText) (minBlockChars currentTurnStart : Nat) :
    JsMap Nat JsString × Nat :=
  match msgTexts with
  | [t] =>
      let (deduped, changed) := dedupeWithinMessage hashBlock t.text minBlockChars
      if changed then (JsMap.set t.msgIdx deduped [], 1) else ([], 0)
  | msgTexts =>
      let seen := firstSeen hashBlock minBlockChars msgTexts
      msgTexts.foldl (dedupStep hashBlock minBlockChars currentTurnStart seen) ([], 0)

/-! ## Messages -/

abbrev Part := JsMap JsString Json

/-- The text of a part of type `text`. -/
def Part.text? (part : Part) : Option JsString :=
  match JsMap.get (js "type") part, JsMap.get (js "text") part with
  | some (.str type), some (.str text) => if type = js "text" then some text else none
  | _, _ => none

inductive Content where
  | text (text : JsString)
  | parts (parts : List Part)
  | other (value : Option Json)

/-- `MessageLike`. -/
structure Message where
  role : Option JsString
  content : Content
  fields : JsMap JsString Json := []

def Message.isSystem (msg : Message) : Bool := msg.role = some (js "system")

def textKey (i : Nat) : Nat := i

/-- The key of a part: `i * 100000 + p + 1`. -/
def partKey (i p : Nat) : Nat := i * 100000 + p + 1

def messageTexts (msg : Message) (i : Nat) : List MsgText :=
  if msg.isSystem then []
  else
    match msg.content with
    | .text text => [⟨textKey i, i, text⟩]
    | .parts parts =>
        parts.zipIdx.filterMap fun (part, p) => part.text?.map fun text => ⟨partKey i p, i, text⟩
    | .other _ => []

variable (messages : List Message)

def msgTexts : List MsgText :=
  messages.zipIdx.flatMap fun (msg, i) => messageTexts msg i

def currentTurnStart : Nat :=
  match messages.zipIdx.reverse.find? fun (msg, _) => msg.role = some (js "assistant") with
  | some (_, i) => i + 1
  | none => 0

/-- A part with what is stored under its key. -/
def writePart (deduped : JsMap Nat JsString) (i : Nat) (part : Part) (p : Nat) : Part :=
  match part.text? with
  | none => part
  | some _ =>
      match deduped.get (partKey i p) with
      | some replacement => JsMap.set (js "text") (.str replacement) part
      | none => part

/-- A message with what is stored under its keys. -/
def writeMessage (deduped : JsMap Nat JsString) (msg : Message) (i : Nat) : Message :=
  if msg.isSystem then msg
  else
    match msg.content with
    | .text _ =>
        match deduped.get (textKey i) with
        | some replacement => { msg with content := .text replacement }
        | none => msg
    | .parts parts =>
        { msg with content := .parts (parts.zipIdx.map fun (part, p) => writePart deduped i part p) }
    | .other _ => msg

def processMessages (minBlockChars : Nat) : List Message × Nat :=
  let texts := msgTexts messages
  if texts.isEmpty then (messages, 0)
  else
    let (deduped, dedupCount) :=
      dedupMessageTexts hashBlock texts minBlockChars (currentTurnStart messages)
    if dedupCount = 0 then (messages, 0)
    else (messages.zipIdx.map fun (msg, i) => writeMessage deduped msg i, dedupCount)

end RedRouter.Compression.SessionDedup
