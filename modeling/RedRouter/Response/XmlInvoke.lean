import RedRouter.Lib.Json
import RedRouter.Lib.JsMap
import RedRouter.Lib.Regex

/-!
# Tool calls in text

The model of `extractXmlInvokeBlocks`, which the two translators to Claude
share: `<invoke>` blocks, `<tool_call>` blocks and `TOOL_CALL name: {…}` texts
are taken out of the content.  An incomplete block is kept back in a buffer
until the next text.
-/

namespace RedRouter.Response.XmlInvoke

open Regex Regex.Pattern

/-- A tool call of a text.  The name of a `<tool_call>` block is whatever value
its JSON has there. -/
structure TextToolCall where
  id : JsString
  name : Json
  args : Json

/-- `/<invoke\s+name="([^"]*)"\s*>/`. -/
def invokePattern : Pattern :=
  cat [lit (js "<invoke"), many1 space, lit (js "name=\""), group 1 (many (except (js "\""))),
    lit (js "\""), many space, lit (js ">")]

/-- `/<tool_call>/`. -/
def toolCallTagPattern : Pattern := cat [lit (js "<tool_call>"), empty]

/-- `/TOOL_CALL\s+([A-Za-z0-9_]+):\s*/`. -/
def toolCallTextPattern : Pattern :=
  cat [lit (js "TOOL_CALL"), many1 space, group 1 (many1 (.unit isWord)), lit (js ":"), many space]

/-- `/<parameter\s+name="([^"]*)"[^>]*>([\s\S]*?)<\/parameter>/`. -/
def parameterPattern : Pattern :=
  cat [lit (js "<parameter"), many1 space, lit (js "name=\""), group 1 (many (except (js "\""))),
    lit (js "\""), many (except (js ">")), lit (js ">"), group 2 (manyLazy any),
    lit (js "</parameter>")]

inductive Kind where
  | invoke
  | toolCallTag
  | toolCallText

/-- The earliest of the found markers; the first one of the list wins a tie. -/
def earliest (found : List (Kind × Option Match)) : Option (Kind × Match) :=
  found.foldl (fun best (kind, m) =>
    match best, m with
    | best, none => best
    | none, some m => some (kind, m)
    | some (k, b), some m => if m.index < b.index then some (kind, m) else some (k, b)) none

def firstMarker (s : JsString) : Option (Kind × Match) :=
  earliest [(.invoke, search invokePattern s), (.toolCallTag, search toolCallTagPattern s),
    (.toolCallText, search toolCallTextPattern s)]

/-- What a block turns into. -/
inductive Block where
  /-- The block is not complete yet. -/
  | incomplete
  /-- A complete block of some length, with its call when it has one. -/
  | call (length : Nat) (name args : Json)
  | nothing (length : Nat)
  /-- A complete block that is not valid stays in the text. -/
  | invalid (length : Nat)

/-- The parameters of an `<invoke>` block. -/
def parameters (innerXml : JsString) : Json :=
  .obj ((searchAll parameterPattern innerXml).foldl
    (fun args (m, _) => JsMap.set (m.group 1) (.str (JsString.trim (m.group 2))) args) [])

/-- An `<invoke>` block at the beginning of `rest`. -/
def readInvoke (start : Match) (rest : JsString) : Block :=
  match JsString.indexOf (js "</invoke>") rest with
  | none => .incomplete
  | some close =>
      .call (close + (js "</invoke>").length) (.str (start.group 1))
        (parameters ((rest.take close).drop start.length))

variable (codec : JsonCodec)

/-- The call of the JSON of a `<tool_call>` block, with `none` for an error. -/
def parseToolCall (inner : JsString) : Option (Option (Json × Json)) := do
  let parsed ← codec.parse inner
  match parsed with
  | .null => none
  | parsed =>
      let name := (Json.orElse (parsed.get? (js "name")) (parsed.get? (js "tool_name"))).getD
        (.str [])
      let raw := (Json.orElse (Json.orElse (parsed.get? (js "arguments")) (parsed.get? (js "args")))
        (parsed.get? (js "parameters"))).filter Json.truthy
      let args ←
        match raw with
        | some (.str text) => codec.parse text
        | some value => some value
        | none => some (.obj [])
      return if name.truthy then some (name, args) else none

/-- A `<tool_call>` block at the beginning of `rest`. -/
def readToolCallTag (rest : JsString) : Block :=
  match JsString.indexOf (js "</tool_call>") rest with
  | none => .incomplete
  | some close =>
      let inner := JsString.trim ((rest.take close).drop (js "<tool_call>").length)
      let length := close + (js "</tool_call>").length
      match parseToolCall codec inner with
      | none => .invalid length
      | some none => .nothing length
      | some (some (name, args)) => .call length name args

def jsonEnd (depth : Int) (inString escape : Bool) (index : Nat) : JsString → Option Nat
  | [] => none
  | c :: cs =>
      if escape then jsonEnd depth inString false (index + 1) cs
      else if c == unit '\\' && inString then jsonEnd depth inString true (index + 1) cs
      else if c == unit '"' then jsonEnd depth (!inString) false (index + 1) cs
      else if inString then jsonEnd depth inString false (index + 1) cs
      else if c == unit '{' then jsonEnd (depth + 1) inString false (index + 1) cs
      else if c == unit '}' then
        if depth - 1 = 0 then some (index + 1)
        else jsonEnd (depth - 1) inString false (index + 1) cs
      else jsonEnd depth inString false (index + 1) cs

/-- A `TOOL_CALL` text at the beginning of `rest`. -/
def readToolCallText (start : Match) (rest : JsString) : Block :=
  let afterPrefix := rest.drop start.length
  match jsonEnd 0 false false 0 afterPrefix with
  | none => .incomplete
  | some stop =>
      match codec.parse (afterPrefix.take stop) with
      | some args => .call (start.length + stop) (.str (start.group 1)) args
      | none => .invalid (start.length + stop)

def readBlock (kind : Kind) (start : Match) (rest : JsString) : Block :=
  match kind with
  | .invoke => readInvoke start rest
  | .toolCallTag => readToolCallTag codec rest
  | .toolCallText => readToolCallText codec start rest

/-- The id of the call number `n` of a text. -/
def textCallId (kind : Kind) (nowMs n : Nat) : JsString :=
  (match kind with
    | .invoke => js "toolu_xml_"
    | _ => js "toolu_txt_") ++ JsString.ofNat nowMs ++ js "_" ++ JsString.ofNat n

structure Extracted where
  cleaned : JsString := []
  toolCalls : List TextToolCall := []
  buffer : JsString := []

/-- The loop of `extractXmlInvokeBlocks`.  Every round drops a block, so the length
of the text is enough fuel. -/
def extractLoop (codec : JsonCodec) (nowMs : Nat) : Nat → JsString → Extracted → Extracted
  | 0, _, out => out
  | fuel + 1, remaining, out =>
      match firstMarker remaining with
      | none => { out with cleaned := out.cleaned ++ remaining }
      | some (kind, start) =>
          let rest := remaining.drop start.index
          let out := { out with cleaned := out.cleaned ++ remaining.take start.index }
          match readBlock codec kind start rest with
          | .incomplete => { out with buffer := rest }
          | .call length name args =>
              let call := ⟨textCallId kind nowMs out.toolCalls.length, name, args⟩
              extractLoop codec nowMs fuel (rest.drop length)
                { out with toolCalls := out.toolCalls ++ [call] }
          | .nothing length => extractLoop codec nowMs fuel (rest.drop length) out
          | .invalid length =>
              extractLoop codec nowMs fuel (rest.drop length)
                { out with cleaned := out.cleaned ++ rest.take length }

/-- `extractXmlInvokeBlocks`, with the buffer of the state before and after. -/
def extractXmlInvokeBlocks (nowMs : Nat) (buffer text : JsString) : Extracted :=
  extractLoop codec nowMs (buffer ++ text).length (buffer ++ text) {}

theorem extractXmlInvokeBlocks_plain (nowMs : Nat) {text : JsString} (h : firstMarker text = none) :
    extractXmlInvokeBlocks codec nowMs [] text = { cleaned := text } := by
  unfold extractXmlInvokeBlocks
  rw [List.nil_append]
  cases text with
  | nil => rfl
  | cons c cs =>
    rw [List.length_cons, extractLoop, h]
    rfl

end RedRouter.Response.XmlInvoke
