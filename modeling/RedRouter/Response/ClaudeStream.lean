import RedRouter.Lib.Blocks
import RedRouter.Lib.Json

/-!
# Claude streams

The events of a Claude stream, as the translators to Claude write them.  The
constant fields of the events are left out.  `frameOf` reads the block frame
off an event.
-/

namespace RedRouter.Response

open Blocks

inductive ClaudeStopReason where
  | endTurn
  | maxTokens
  | toolUse
  | refusal
deriving DecidableEq

structure ClaudeStreamUsage where
  inputTokens : Int
  outputTokens : Int
  cacheReadInputTokens : Option Int := none
  cacheCreationInputTokens : Option Int := none

/-- The `content_block` of a start event. -/
inductive ClaudeBlock where
  | text
  | thinking
  | toolUse (id name : JsString) (input : Json)

/-- The `delta` of a delta event. -/
inductive ClaudeDelta where
  | text (text : JsString)
  | thinking (thinking : JsString)
  | inputJson (partialJson : JsString)

inductive ClaudeEvent where
  | messageStart (id model : JsString)
  | blockStart (index : Nat) (block : ClaudeBlock)
  | blockDelta (index : Nat) (delta : ClaudeDelta)
  | blockStop (index : Nat)
  | messageDelta (stopReason : ClaudeStopReason) (usage : ClaudeStreamUsage)
  | messageStop

def frameOf : ClaudeEvent → Option (Frame Nat)
  | .blockStart index _ => some (.start index)
  | .blockDelta index _ => some (.delta index)
  | .blockStop index => some (.stop index)
  | _ => none

variable (events : List ClaudeEvent)

def framesOf : List (Frame Nat) := events.filterMap frameOf

@[simp] theorem framesOf_nil : framesOf [] = [] := rfl

@[simp] theorem framesOf_append (xs ys : List ClaudeEvent) :
    framesOf (xs ++ ys) = framesOf xs ++ framesOf ys := List.filterMap_append

def OnlyBlocks : Prop := ∀ e ∈ events, (frameOf e).isSome = true

theorem OnlyBlocks.append {xs ys : List ClaudeEvent} (hxs : OnlyBlocks xs) (hys : OnlyBlocks ys) :
    OnlyBlocks (xs ++ ys) := by
  intro e he
  rcases List.mem_append.mp he with he | he
  · exact hxs e he
  · exact hys e he

/-! ## What a stream says -/

def textOf : JsString :=
  events.flatMap fun
    | .blockDelta _ (.text text) => text
    | _ => []

def thinkingOf : JsString :=
  events.flatMap fun
    | .blockDelta _ (.thinking text) => text
    | _ => []

/-- The text of the argument deltas of a block. -/
def inputJsonOf (index : Nat) (events : List ClaudeEvent) : JsString :=
  events.flatMap fun
    | .blockDelta i (.inputJson partialJson) => if i = index then partialJson else []
    | _ => []

@[simp] theorem textOf_append (xs ys : List ClaudeEvent) :
    textOf (xs ++ ys) = textOf xs ++ textOf ys := List.flatMap_append

@[simp] theorem thinkingOf_append (xs ys : List ClaudeEvent) :
    thinkingOf (xs ++ ys) = thinkingOf xs ++ thinkingOf ys := List.flatMap_append

@[simp] theorem inputJsonOf_append (index : Nat) (xs ys : List ClaudeEvent) :
    inputJsonOf index (xs ++ ys) = inputJsonOf index xs ++ inputJsonOf index ys :=
  List.flatMap_append

def ClaudeEvent.isToolUse : ClaudeEvent → Bool
  | .blockStart _ (.toolUse _ _ _) => true
  | _ => false

def ClaudeEvent.isMessageStop : ClaudeEvent → Bool
  | .messageStop => true
  | _ => false

end RedRouter.Response
