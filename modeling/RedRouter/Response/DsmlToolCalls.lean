import RedRouter.Lib.Json
import RedRouter.Lib.JsMap
import RedRouter.Lib.Regex

/-!
# DSML tool calls

The model of `utils/dsmlToolCalls.ts`: complete `<｜DSML｜:Tool>` blocks of a
text become tool calls, stray closing markers are dropped, and an opening
marker at the end is held back.
-/

namespace RedRouter.Response.DsmlToolCalls

open Regex Regex.Pattern

/-- `FW`: a full-width or an ASCII pipe. -/
def pipe : Pattern := .unit fun c => c == 0xFF5C || c == unit '|'

/-- `FW DSML FW` under the `i` flag. -/
def dsmlMark : Pattern := cat [pipe, litIgnoreCase (js "DSML"), pipe]

def openPattern : Pattern :=
  cat [lit (js "<"), dsmlMark, lit (js ":"), group 1 (many1 (.unit isWord)),
    many (except (js ">")), lit (js ">")]

/-- `dsmlCloseRe`. -/
def closePattern (name : JsString) : Pattern :=
  cat [lit (js "</"), dsmlMark, lit (js ":"), litIgnoreCase name, many space, lit (js ">")]

def strayClosePattern : Pattern :=
  let newlines := many (lit (js "\n"))
  .alt (cat [lit (js "</"), dsmlMark,
      .alt (litIgnoreCase (js "tool_calls"))
        (.alt (litIgnoreCase (js "invoke")) (litIgnoreCase (js "parameter"))),
      many space, lit (js ">"), newlines])
    (cat [lit (js "</"), .alt (litIgnoreCase (js "parameter")) (litIgnoreCase (js "invoke")),
      lit (js ">"), newlines])

def partialOpenPattern : Pattern :=
  .seq (group 1 (cat [lit (js "<"), dsmlMark, many (except (js "<"))])) .atEnd

def childNamedPattern : Pattern :=
  cat [litIgnoreCase (js "<parameter"), many1 space, litIgnoreCase (js "name=\""),
    group 1 (many (except (js "\""))), lit (js "\""), many (except (js ">")), lit (js ">"),
    group 2 (manyLazy any), litIgnoreCase (js "</parameter>")]

def childNameOnlyPattern : Pattern :=
  cat [lit (js "<"), group 1 (many1 (.unit isWord)), lit (js ">"), group 2 (manyLazy any),
    lit (js "</"), backref 1, lit (js ">")]

/-- The arguments so far with the texts they came from. -/
structure Arguments where
  args : JsMap JsString Json := []
  consumed : List JsString := []

def Arguments.add (a : Arguments) (m : Match) (text : JsString) : Arguments :=
  { args := JsMap.set (m.group 1) (.str (JsString.trim (m.group 2))) a.args
    consumed := a.consumed ++ [text] }

def parseDsmlArgs (inner : JsString) : Json :=
  let named := (searchAll childNamedPattern inner).foldl (fun a (m, text) => a.add m text)
    ({} : Arguments)
  let all := (searchAll childNameOnlyPattern inner).foldl (fun a (m, text) =>
      if a.consumed.contains text then a
      else if a.consumed.any fun c => JsString.includes c text && c != text then a
      else a.add m text)
    named
  .obj all.args

/-- A tool call of a text.  Its arguments are an object of strings, which the
caller gets back from their JSON text as they were. -/
structure DsmlToolCall where
  id : JsString
  name : JsString
  args : Json

structure ParseDsmlResult where
  content : JsString := []
  toolCalls : List DsmlToolCall := []
  holdback : JsString := []

def dsmlCallId (uuid : JsString) : JsString :=
  js "call_dsml_" ++ (uuid.filter (· != unit '-')).take 10

/-- The loop of `parseDsmlToolCalls`.  Every round drops an opening tag, so the
length of the text is enough fuel. -/
def parseLoop (randomUUID : Nat → JsString) : Nat → JsString → ParseDsmlResult → ParseDsmlResult
  | 0, _, out => out
  | fuel + 1, remaining, out =>
      if remaining.isEmpty then out
      else
        match search openPattern remaining with
        | none =>
            let tail := removeAll strayClosePattern remaining
            match search partialOpenPattern tail with
            | some m =>
                { out with
                  content := out.content ++ tail.take m.index
                  holdback := m.group 1 }
            | none => { out with content := out.content ++ tail }
        | some m =>
            let before := removeAll strayClosePattern (remaining.take m.index)
            let out := { out with content := out.content ++ before }
            let afterOpen := remaining.drop (m.index + m.length)
            match search (closePattern (m.group 1)) afterOpen with
            | none => { out with holdback := m.text remaining ++ afterOpen }
            | some close =>
                let call :=
                  ⟨dsmlCallId (randomUUID out.toolCalls.length), m.group 1,
                    parseDsmlArgs (afterOpen.take close.index)⟩
                parseLoop randomUUID fuel (afterOpen.drop (close.index + close.length))
                  { out with toolCalls := out.toolCalls ++ [call] }

def parseDsmlToolCalls (randomUUID : Nat → JsString) (text : JsString) : ParseDsmlResult :=
  parseLoop randomUUID text.length text {}

/-- The pattern of `hasDsmlToolCalls`. -/
def markPattern : Pattern := cat [opt (lit (js "/")), pipe, lit (js "DSML"), pipe]

def hasDsmlToolCalls (text : JsString) : Bool := test markPattern text

end RedRouter.Response.DsmlToolCalls
