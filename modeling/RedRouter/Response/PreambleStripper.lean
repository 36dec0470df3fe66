import RedRouter.Lib.Regex

/-!
# Preamble strippers

The model of `utils/directivePreambleStripper.ts`: two filters for the
beginning of a stream.  The first one drops the configured directive, the
second one drops blocks and sections that look like an echo of the system
prompt.  Each keeps back what is not decided yet and gives it out at `flush`.
-/

namespace RedRouter.Response.PreambleStripper

open Regex Regex.Pattern

/-! ## The directive -/

structure DirectiveStripper where
  directive : JsString
  done : Bool := false
  position : Nat := 0

/-- How far two texts agree. -/
def commonLength : JsString → JsString → Nat
  | c :: cs, d :: ds => if c == d then commonLength cs ds + 1 else 0
  | _, _ => 0

namespace DirectiveStripper

/-- The `push` of `createDirectivePreambleStripper`. -/
def push (s : DirectiveStripper) (text : JsString) : JsString × DirectiveStripper :=
  if s.done || text.isEmpty then (text, s)
  else
    let i := commonLength (s.directive.drop s.position) text
    let position := s.position + i
    if position < s.directive.length && decide (i < text.length) then
      (s.directive.take position ++ text, { s with done := true, position := position })
    else if position = s.directive.length then
      (text.drop i, { s with done := true, position := position })
    else ([], { s with position := position })

/-- The `flush` of `createDirectivePreambleStripper`. -/
def flush (s : DirectiveStripper) : JsString × DirectiveStripper :=
  if s.done then ([], s)
  else (s.directive.take s.position, { s with done := true, position := 0 })

end DirectiveStripper

/-! ## The system prompt -/

def systemEchoThreshold : Nat := 1000

def tagNames : List JsString := [js "analysis", js "system-reminder", js "summary"]

def proseHeads : List JsString :=
  [js "# Verification Process", js "# Skill usage",
    js "Skill usage (when superpowers skills are installed)",
    js "Required skills for implementation work"]

inductive StripPhase where
  | leading
  | head
  | block

/-- A construct that is suppressed. -/
inductive Construct where
  | tag (name : JsString)
  | prose

structure SystemStripper where
  done : Bool := false
  phase : StripPhase := .leading
  stack : List Construct := []
  buf : JsString := []
  pendingDrop : JsString := []

def isAllWs (s : JsString) : Bool := (JsString.trim s).isEmpty

/-- `/\n[ \t]*\n[ \t]*(?=<|<[^>]*>|#{1,6} |[-=]{3,})/`. -/
def proseBoundaryPattern : Pattern :=
  let newline := lit (js "\n")
  let blanks := many (.unit (js " \t").contains)
  let hash := lit (js "#")
  let rule : Pattern := .unit (js "-=").contains
  cat [newline, blanks, newline, blanks, .ahead (.alt (lit (js "<"))
      (.alt (cat [lit (js "<"), many (except (js ">")), lit (js ">")])
        (.alt (cat [hash, opt hash, opt hash, opt hash, opt hash, opt hash, lit (js " ")])
          (cat [rule, rule, many1 rule]))))]

def proseBoundary (s : JsString) : Option Nat := (search proseBoundaryPattern s).map Match.index

def openTag (name : JsString) : JsString := js "<" ++ name ++ js ">"

def closeTag (name : JsString) : JsString := js "</" ++ name ++ js ">"

/-- `/^[\s;:.,\-]/`. -/
def endsHead : JsString → Bool
  | [] => true
  | c :: _ => JsString.isSpace c || (js ";:.,-").contains c

def tryOpeners (s : JsString) : Option Construct :=
  let t := JsString.trimStart s
  match tagNames.find? fun name => t.startsWith (openTag name) with
  | some name => some (.tag name)
  | none =>
      if proseHeads.any fun h => t.startsWith h && endsHead (t.drop h.length) then some .prose
      else none

def anyOpenerPrefix (s : JsString) : Bool :=
  let t := JsString.trimStart s
  tagNames.any (fun name => (openTag name).startsWith t) || proseHeads.any (·.startsWith t)

namespace SystemStripper

/-- The loop of the `push` of `createSystemPreambleStripper`.

A prose section whose boundary is at the beginning of the buffer leaves the
buffer as it is, so that the next rounds find the same section again: the
source never returns, which is `none`.  In all other rounds three times the
length of the buffer goes down, with the phase as a tie-break. -/
def pushLoop : Nat → SystemStripper → Option (JsString × SystemStripper)
  | 0, _ => none
  | fuel + 1, s =>
      match s.phase with
      | .leading =>
          if isAllWs s.buf then some ([], s) else pushLoop fuel { s with phase := .head }
      | .head =>
          if isAllWs s.buf then some ([], s)
          else
            match tryOpeners s.buf with
            | some (.tag name) =>
                let tagStart := (JsString.indexOf (js "<") s.buf).getD 0
                let afterOpen :=
                  tagStart + (JsString.indexOf (js ">") (s.buf.drop tagStart)).getD 0 + 1
                pushLoop fuel
                  { s with
                    pendingDrop := s.pendingDrop ++ s.buf.take afterOpen
                    buf := s.buf.drop afterOpen
                    stack := .tag name :: s.stack
                    phase := .block }
            | some .prose => pushLoop fuel { s with stack := .prose :: s.stack, phase := .block }
            | none =>
                if anyOpenerPrefix s.buf then some ([], s)
                else some (s.pendingDrop ++ s.buf, { s with done := true, pendingDrop := [], buf := [] })
      | .block =>
          match s.stack with
          | .prose :: stack =>
              match proseBoundary s.buf with
              | none => some ([], s)
              | some 0 => none
              | some (b + 1) =>
                  pushLoop fuel
                    { s with
                      buf := s.buf.drop (b + 1), pendingDrop := [], stack := stack, phase := .head }
          | .tag name :: stack =>
              match JsString.indexOf (closeTag name) s.buf with
              | none => some ([], s)
              | some ci =>
                  let afterClose := s.buf.drop (ci + (closeTag name).length)
                  let trailing := afterClose.dropWhile fun c => (js " \t\r\n").contains c
                  if decide (ci ≥ systemEchoThreshold) || trailing.isEmpty then
                    some (openTag name ++ s.buf.take ci ++ closeTag name ++ afterClose,
                      { s with done := true, pendingDrop := [], buf := [] })
                  else
                    pushLoop fuel
                      { s with
                        buf := trailing
                        pendingDrop := []
                        stack := stack
                        phase := if stack.isEmpty then .leading else .block }
          -- A block has an open construct.
          | [] => none

/-- The `push` of `createSystemPreambleStripper`. -/
def push (s : SystemStripper) (text : JsString) : Option (JsString × SystemStripper) :=
  if s.done || text.isEmpty then some (text, s)
  else
    let s := { s with buf := s.buf ++ text }
    pushLoop (3 * s.buf.length + 3) s

/-- The `flush` of `createSystemPreambleStripper`. -/
def flush (s : SystemStripper) : JsString × SystemStripper :=
  if s.done then ([], s)
  else (s.pendingDrop ++ s.buf, { s with done := true, pendingDrop := [], buf := [], stack := [] })

end SystemStripper

end RedRouter.Response.PreambleStripper
