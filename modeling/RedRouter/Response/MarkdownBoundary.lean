import RedRouter.Lib.Regex

/-!
# Markdown boundaries

The model of `translator/helpers/markdownBoundary.ts`: a suffix of a text that
may be the beginning of a Markdown token is kept back until the next text.

`emit_append_hold` is all that the translators rely on: what is emitted and
what is kept back make up the text.
-/

namespace RedRouter.Response.MarkdownBoundary

open Regex Regex.Pattern

def maxHoldChars : Nat := 32

def backtick : UInt16 := unit '`'

/-- What is known about the backticks so far. -/
structure BacktickState where
  backtickRun : Nat := 0
  trailingBackslash : Bool := false
  fenceRun : Nat := 0
  fenceOpening : Bool := false
  fenceClosingRun : Nat := 0
  lineIndent : Int := 0

/-- The variables of the scan. -/
structure Scan where
  openRun : Nat
  fenceRun : Nat
  fenceOpening : Bool
  fenceClosingRun : Nat
  lineIndent : Int
  backslashes : Nat

def isLineEnd (c : UInt16) : Bool := c == unit '\n' || c == unit '\r'

variable (text : JsString)

def runLength : Nat := (text.takeWhile (· == backtick)).length

/-- The loop of `scanBacktickState`.  Only one round in two leaves the text as it
is, so twice its length is enough fuel. -/
def scanLoop : Nat → JsString → Scan → Scan
  | 0, _, v => v
  | _ + 1, [], v => v
  | fuel + 1, c :: cs, v =>
      let run := runLength (c :: cs)
      if v.fenceOpening then
        if isLineEnd c then scanLoop fuel cs { v with fenceOpening := false, lineIndent := 0 }
        else if c == backtick && v.lineIndent == -1 then
          scanLoop fuel ((c :: cs).drop run) { v with fenceRun := v.fenceRun + run }
        else if c == backtick then
          scanLoop fuel (c :: cs)
            { v with openRun := v.fenceRun, fenceRun := 0, fenceOpening := false }
        else scanLoop fuel cs { v with lineIndent := 4 }
      else if v.fenceClosingRun ≠ 0 then
        if isLineEnd c then
          scanLoop fuel cs { v with fenceRun := 0, fenceClosingRun := 0, lineIndent := 0 }
        else if c == backtick && v.lineIndent == -1 then
          scanLoop fuel ((c :: cs).drop run) { v with fenceClosingRun := v.fenceClosingRun + run }
        else if c == unit ' ' || c == unit '\t' then scanLoop fuel cs { v with lineIndent := 4 }
        else scanLoop fuel cs { v with fenceClosingRun := 0, lineIndent := 4 }
      else if v.fenceRun ≠ 0 then
        if isLineEnd c then scanLoop fuel cs { v with lineIndent := 0 }
        else if c == unit ' ' && v.lineIndent < 4 then
          scanLoop fuel cs { v with lineIndent := v.lineIndent + 1 }
        else if c == backtick && v.lineIndent ≤ 3 then
          if run ≥ v.fenceRun then
            scanLoop fuel ((c :: cs).drop run) { v with fenceClosingRun := run, lineIndent := -1 }
          else scanLoop fuel ((c :: cs).drop run) { v with lineIndent := 4 }
        else scanLoop fuel cs { v with lineIndent := 4 }
      else if c != backtick then
        scanLoop fuel cs
          { v with
            lineIndent :=
              if isLineEnd c then 0
              else if c == unit ' ' && v.lineIndent < 4 then v.lineIndent + 1
              else 4
            backslashes :=
              if v.openRun = 0 then (if c == unit '\\' then v.backslashes + 1 else 0)
              else v.backslashes }
      else if v.openRun = 0 ∧ v.backslashes % 2 = 1 then
        scanLoop fuel cs { v with backslashes := 0, lineIndent := 4 }
      else if v.openRun = 0 ∧ run ≥ 3 ∧ v.lineIndent ≤ 3 then
        scanLoop fuel ((c :: cs).drop run)
          { v with fenceRun := run, fenceOpening := true, lineIndent := -1, backslashes := 0 }
      else
        scanLoop fuel ((c :: cs).drop run)
          { v with
            openRun := if v.openRun = 0 then run else if v.openRun = run then 0 else v.openRun
            lineIndent := 4
            backslashes := 0 }

variable (prior : BacktickState)

def scanBacktickState : BacktickState :=
  let v := scanLoop (2 * text.length) text
    { openRun := prior.backtickRun
      fenceRun := prior.fenceRun
      fenceOpening := prior.fenceOpening
      fenceClosingRun := prior.fenceClosingRun
      lineIndent := prior.lineIndent
      backslashes :=
        if prior.backtickRun = 0 ∧ prior.fenceRun = 0 ∧ prior.trailingBackslash = true then 1
        else 0 }
  { backtickRun := v.openRun
    trailingBackslash := v.openRun == 0 && v.fenceRun == 0 && v.backslashes % 2 == 1
    fenceRun := v.fenceRun
    fenceOpening := v.fenceOpening
    fenceClosingRun := v.fenceClosingRun
    lineIndent := v.lineIndent }

/-- ``/(?<!`)(`{1,2}[A-Za-z0-9_+#-]*|`{3,}[^`\r\n]+)$/``. -/
def fencePattern : Pattern :=
  let tick : Pattern := .unit (· == backtick)
  let infoChar : Pattern := .unit fun c => isWord c || (js "+#-").contains c
  .seq (.seq (.notBehind (· == backtick))
      (.alt (cat [tick, opt tick, many infoChar])
        (cat [tick, tick, many1 tick, many1 (except (js "`\r\n"))])))
    .atEnd

/-- `/(?<!\*)\*{1,3}$/`. -/
def emphasisPattern : Pattern :=
  let star : Pattern := .unit (· == unit '*')
  .seq (.seq (.notBehind (· == unit '*')) (cat [star, opt star, opt star])) .atEnd

def isOpenerContext (suffixStart : Nat) : Bool :=
  match (text.take suffixStart).getLast? with
  | none => true
  | some previous => !isWord previous

structure Split where
  emit : JsString
  hold : JsString
  state : BacktickState

def splitBefore (suffixLength : Nat) (prior : BacktickState) : Split :=
  let emit := text.take (text.length - suffixLength)
  { emit := emit
    hold := text.drop (text.length - suffixLength)
    state := scanBacktickState emit prior }

/-- Whether the fence suffix of a text is kept back. -/
def holdsFence (m : Match) (prior : BacktickState) : Bool :=
  let run := runLength (text.drop m.index)
  let before := scanBacktickState (text.take m.index) prior
  decide (m.length ≤ maxHoldChars) && before.fenceRun == 0 && before.backtickRun != run &&
    (decide (before.backtickRun > run) || isOpenerContext text m.index)

/-- The length of the suffix that is kept back. -/
def heldLength : Nat :=
  let fence := (search fencePattern text).filter fun m => holdsFence text m prior
  let emphasis := (search emphasisPattern text).filter fun m => isOpenerContext text m.index
  ((fence.orElse fun _ => emphasis).map Match.length).getD 0

def splitMarkdownBoundary : Split :=
  if text.isEmpty then { emit := [], hold := [], state := {} }
  else splitBefore text (heldLength text prior) prior

theorem emit_append_hold :
    (splitMarkdownBoundary text prior).emit ++ (splitMarkdownBoundary text prior).hold = text := by
  unfold splitMarkdownBoundary
  split
  · rename_i hempty
    exact (List.isEmpty_iff.mp hempty).symm
  · exact List.take_append_drop ..

end RedRouter.Response.MarkdownBoundary
