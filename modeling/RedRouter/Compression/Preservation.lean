import RedRouter.Lib.Pieces

/-!
# Preserved blocks

The model of `open-sse/services/compression/preservation.ts`:
`extractPreservedBlocks` and `restorePreservedBlocks`.  The extraction runs
over the text again and again, and puts a placeholder for each block that it
takes out: the front matter, the matches of the user's patterns and of the
region patterns, the fenced code, and the matches of the built-in patterns.

The seed of the placeholders is an argument.  A pattern of the user is any
search under the `g` flag (`Matcher`), and one that does not compile is `none`.
The other patterns are those of the source, written out for the matcher of
`RedRouter.Regex`.
-/

namespace RedRouter.Compression.Preservation

open RedRouter.Regex
open RedRouter.Regex.Pattern

/-- The `kind` of a block. -/
inductive BlockKind where
  | frontmatter
  | custom
  | systemInstruction
  | fencedCode
  | mathBlock
  | mathInline
  | latexBlock
  | markdownHeading
  | markdownTable
  | typstDirective
  | inlineCode
  | markdownLink
  | url
  | constCase
  | envVar
  | version
  | dottedIdentifier
  | functionCall
  | filePath
  | errorMessage
deriving DecidableEq

structure PreservedBlock where
  placeholder : JsString
  content : JsString
  kind : BlockKind
deriving DecidableEq

/-! ## Placeholders -/

def sentinelPrefix : JsString := 0 :: js "OMNI_CAVEMAN"

/-- What `randomSentinelSeed` returns: an `r`, and hexadecimal digits or digits
to the base 36. -/
structure Seed where
  digits : JsString
  lower : ∀ c ∈ digits, unit '0' ≤ c ∧ c ≤ unit '9' ∨ unit 'a' ≤ c ∧ c ≤ unit 'z'

variable (seed : Seed)

def Seed.units : JsString := unit 'r' :: seed.digits

def placeholder (counter : Nat) : JsString :=
  sentinelPrefix ++ (js "_" ++ (seed.units ++ (js "_" ++ (JsString.ofNat counter ++ [0]))))

/-- The text so far, and the blocks taken out of it.  Their number is the
counter of the placeholders. -/
structure Extraction where
  text : JsString
  blocks : List PreservedBlock := []
deriving DecidableEq

/-- The found pieces are given to `addBlock`, and their placeholders stand in
the text. -/
def takeOut (seed : Seed) (kind : BlockKind) : List Piece → List PreservedBlock → Extraction
  | [], blocks => { text := [], blocks := blocks }
  | .kept text :: pieces, blocks =>
      let e := takeOut seed kind pieces blocks
      { e with text := text ++ e.text }
  | .found content :: pieces, blocks =>
      let placeholder := placeholder seed blocks.length
      let e := takeOut seed kind pieces (blocks ++ [⟨placeholder, content, kind⟩])
      { e with text := placeholder ++ e.text }

/-! ## Patterns -/

/-- An empty match and one that holds a placeholder are kept. -/
def guardPiece : Piece → Piece
  | .kept text => .kept text
  | .found text =>
      if text.isEmpty || text.includes sentinelPrefix then .kept text else .found text

def replacePattern (matcher : Matcher) (kind : BlockKind) (e : Extraction) : Extraction :=
  takeOut seed kind ((matcher.pieces e.text).map guardPiece) e.blocks

def compileUserPatterns (patterns : List (Option Matcher)) : List (Matcher × BlockKind) :=
  patterns.filterMap fun pattern => pattern.map fun matcher => (matcher, .custom)

/-- `/<system-reminder>[\s\S]*?<\/system-reminder>/g`. -/
def systemReminder : Pattern :=
  cat [lit (js "<system-reminder>"), manyLazy any, lit (js "</system-reminder>")]

/-- `/<instructions?>[\s\S]*?<\/instructions?>/g`. -/
def instructions : Pattern :=
  cat [lit (js "<instruction"), opt (lit (js "s")), lit (js ">"), manyLazy any,
    lit (js "</instruction"), opt (lit (js "s")), lit (js ">")]

/-- `/<project[- ]instructions?>[\s\S]*?<\/project[- ]instructions?>/g`. -/
def projectInstructions : Pattern :=
  cat [lit (js "<project"), oneOf (js "- "), lit (js "instruction"), opt (lit (js "s")),
    lit (js ">"), manyLazy any, lit (js "</project"), oneOf (js "- "), lit (js "instruction"),
    opt (lit (js "s")), lit (js ">")]

def envelopes : List (Pattern × BlockKind) :=
  [(systemReminder, .systemInstruction), (instructions, .systemInstruction),
    (projectInstructions, .systemInstruction)]

/-- `[A-Z]`. -/
def isUpper (u : UInt16) : Bool := unit 'A' ≤ u && u ≤ unit 'Z'

/-- `[A-Za-z]`. -/
def isLetter (u : UInt16) : Bool := isUpper u || (unit 'a' ≤ u && u ≤ unit 'z')

/-- `/\$\$[\s\S]*?\$\$/g`. -/
def mathDollars : Pattern := cat [lit (js "$$"), manyLazy any, lit (js "$$")]

/-- `/\\\[[\s\S]*?\\\]/g`. -/
def mathBrackets : Pattern := cat [lit (js "\\["), manyLazy any, lit (js "\\]")]

/-- `/(?<!\$)\$(?![\s$\d])(?:\\.|[^$\n\\]){1,160}?(?<!\s)\$(?!\$)/g`. -/
def mathInline : Pattern :=
  let item := alt (seq (lit (js "\\")) dot) (except (js "$\n\\"))
  cat [notBehind (· == unit '$'), lit (js "$"),
    notAhead fun u => JsString.isSpace u || u == unit '$' || isDigit u,
    times item (upTo false item 159) 1, notBehind JsString.isSpace, lit (js "$"),
    notAhead (· == unit '$')]

/-- `/\\begin\{[A-Za-z*]+\}[\s\S]*?\\end\{[A-Za-z*]+\}/g`. -/
def latexBlock : Pattern :=
  let name := many1 (.unit fun u => isLetter u || u == unit '*')
  cat [lit (js "\\begin\x7b"), name, lit (js "\x7d"), manyLazy any, lit (js "\\end\x7b"), name,
    lit (js "\x7d")]

/-- `/^#{1,6}\s+.+$/gm`. -/
def markdownHeading : Pattern :=
  let hash := lit (js "#")
  cat [lineStart, times hash (upTo true hash 5) 1, many1 space, many1 dot, lineEnd]

/-- `/^\s*\|.*\|\s*$/gm`. -/
def markdownTable : Pattern :=
  cat [lineStart, many space, lit (js "|"), many dot, lit (js "|"), many space, lineEnd]

/-- `/^\s*\|?\s*:?-{3,}:?\s*(?:\|\s*:?-{3,}:?\s*)+\|?\s*$/gm`. -/
def markdownTableRule : Pattern :=
  let colon := opt (lit (js ":"))
  let dashes := atLeast 3 (lit (js "-"))
  cat [lineStart, many space, opt (lit (js "|")), many space, colon, dashes, colon, many space,
    many1 (cat [lit (js "|"), many space, colon, dashes, colon, many space]), opt (lit (js "|")),
    many space, lineEnd]

/-- `/^\s*#(?:set|show|let|import|include)\b.+$/gm`. -/
def typstDirective : Pattern :=
  cat [lineStart, many space, lit (js "#"),
    alt (lit (js "set")) (alt (lit (js "show")) (alt (lit (js "let"))
      (alt (lit (js "import")) (lit (js "include"))))),
    wordBoundary, many1 dot, lineEnd]

/-- An inline code span: a backtick, other units on the line, a backtick. -/
def inlineCode : Pattern := cat [lit (js "`"), many1 (except (js "`\n")), lit (js "`")]

/-- `/\[[^\]\n]+\]\([^) \n]+(?:\s+"[^"]*")?\)/g`. -/
def markdownLink : Pattern :=
  cat [lit (js "["), many1 (except (js "]\n")), lit (js "]("), many1 (except (js ") \n")),
    opt (cat [many1 space, lit (js "\""), many (except (js "\"")), lit (js "\"")]), lit (js ")")]

/-- `/\bhttps?:\/\/[^\s)\]"'>]+/gi`. -/
def url : Pattern :=
  cat [wordBoundary, litIgnoreCase (js "http"), opt (litIgnoreCase (js "s")), lit (js "://"),
    many1 (.unit fun u => !(JsString.isSpace u || (js ")]\"'>").contains u))]

/-- `/\b[A-Z][A-Z0-9]*(?:_[A-Z0-9]+)+\b/g`. -/
def constCase : Pattern :=
  let part := Pattern.unit fun u => isUpper u || isDigit u
  cat [wordBoundary, .unit isUpper, many part, many1 (seq (lit (js "_")) (many1 part)),
    wordBoundary]

/-- `/\bprocess\.env\.[A-Za-z_][A-Za-z0-9_]*\b/g`. -/
def processEnv : Pattern :=
  cat [wordBoundary, lit (js "process.env."), .unit fun u => isLetter u || u == unit '_',
    many (.unit isWord), wordBoundary]

/-- `/\$[A-Z_][A-Z0-9_]*\b/g`. -/
def shellVariable : Pattern :=
  cat [lit (js "$"), .unit fun u => isUpper u || u == unit '_',
    many (.unit fun u => isUpper u || isDigit u || u == unit '_'), wordBoundary]

/-- `/\b\d+(?:\.\d+){1,3}(?:[-+][A-Za-z0-9.-]+)?\b/g`. -/
def version : Pattern :=
  let digits := many1 (.unit isDigit)
  let part := seq (lit (js ".")) digits
  cat [wordBoundary, digits, times part (upTo true part 2) 1, opt (seq (oneOf (js "-+"))
      (many1 (.unit fun u => isLetter u || isDigit u || (js ".-").contains u))),
    wordBoundary]

/-- `[a-zA-Z_$]`. -/
def identifierStart : Pattern := .unit fun u => isLetter u || (js "_$").contains u

/-- `[\w$]`. -/
def identifierPart : Pattern := .unit fun u => isWord u || u == unit '$'

/-- `/\b[a-zA-Z_$][\w$]*(?:\.[a-zA-Z_$][\w$]*)+\(\)?/g`. -/
def dottedIdentifier : Pattern :=
  cat [wordBoundary, identifierStart, many identifierPart,
    many1 (cat [lit (js "."), identifierStart, many identifierPart]), lit (js "("),
    opt (lit (js ")"))]

/-- `/\b[A-Za-z_$][\w$]*\s*\([^()\n]*\)/g`. -/
def functionCall : Pattern :=
  cat [wordBoundary, identifierStart, many identifierPart, many space, lit (js "("),
    many (except (js "()\n")), lit (js ")")]

/-- A path: at the beginning or after white space, up to two dots and a slash
with `[A-Za-z0-9_@.]`, slashes and dashes, or a drive with its backslash and the
same with backslashes for `@`. -/
def filePath : Pattern :=
  cat [alt atStart space,
    alt (cat [upTo true (lit (js ".")) 2, lit (js "/"),
        many1 (.unit fun u => isWord u || (js "@./-").contains u)])
      (cat [.unit isLetter, lit (js ":\\"),
        many1 (.unit fun u => isWord u || (js ".\\/-").contains u)])]

/-- The message of an error: its name, a colon and the rest of the line. -/
def errorMessage : Pattern :=
  cat [wordBoundary,
    alt (lit (js "TypeError")) (alt (lit (js "ReferenceError")) (alt (lit (js "SyntaxError"))
      (alt (lit (js "RangeError")) (alt (lit (js "URIError")) (alt (lit (js "EvalError"))
        (alt (lit (js "Error")) (lit (js "Exception")))))))),
    lit (js ":"), many1 (except (js "\n"))]

def builtIns : List (Pattern × BlockKind) :=
  [(mathDollars, .mathBlock), (mathBrackets, .mathBlock), (mathInline, .mathInline),
    (latexBlock, .latexBlock), (markdownHeading, .markdownHeading),
    (markdownTable, .markdownTable), (markdownTableRule, .markdownTable),
    (typstDirective, .typstDirective), (inlineCode, .inlineCode), (markdownLink, .markdownLink),
    (url, .url), (constCase, .constCase), (processEnv, .envVar), (shellVariable, .envVar),
    (version, .version), (dottedIdentifier, .dottedIdentifier), (functionCall, .functionCall),
    (filePath, .filePath), (errorMessage, .errorMessage)]

/-! ## Front matter -/

variable (text : JsString)

/-- `text.indexOf(needle, position)`. -/
def indexFrom (needle : JsString) (position : Nat) : Option Nat :=
  (JsString.indexOf needle (text.drop position)).map (· + position)

/-- Where the front matter ends. -/
def frontmatterEnd : Option Nat :=
  if text.startsWith (js "---\n") then
    (indexFrom text (js "\n---") 4).map fun close =>
      match indexFrom text (js "\n") (close + 4) with
      | none => text.length
      | some closeEnd => closeEnd + 1
  else none

def extractFrontmatter (e : Extraction) : Extraction :=
  match frontmatterEnd e.text with
  | none => e
  | some last =>
      takeOut seed .frontmatter [.found (e.text.take last), .kept (e.text.drop last)] e.blocks

/-! ## Fenced code -/

/-- The lines of a text, each with the newline that ends it. -/
def fullLines : JsString → List JsString
  | [] => []
  | c :: cs =>
      if c = unit '\n' then [c] :: fullLines cs
      else
        match fullLines cs with
        | [] => [[c]]
        | line :: lines => (c :: line) :: lines

/-- `text.match(/[^\n]*(?:\n|$)/g)`: the last match is the empty one at the
end. -/
def matchedLines : List JsString := fullLines text ++ [[]]

/-- Three backticks or tildes or more, after at most three blanks. -/
def fence : List Pattern :=
  [atStart, group 1 (upTo true (oneOf (js " \t")) 3),
    group 2 (alt (atLeast 3 (lit (js "`"))) (atLeast 3 (lit (js "~"))))]

/-- A fence, and the rest of its line. -/
def opening : Pattern := cat (fence ++ [many (except (js "\n")), alt (lit (js "\n")) atEnd])

/-- A fence with nothing but white space after it. -/
def closing : Pattern := cat (fence ++ [many space, alt (lit (js "\n")) atEnd])

def closesFence (fence line : JsString) : Bool :=
  match search closing line with
  | some m => (m.group 2).head? = fence.head? && (m.group 2).length ≥ fence.length
  | none => false

/-- The lines up to the one that closes the fence, as one text, and those after
it. -/
def closeFence (fence : JsString) : List JsString → Option (JsString × List JsString)
  | [] => none
  | line :: lines =>
      if closesFence fence line then some (line, lines)
      else (closeFence fence lines).map fun (block, rest) => (line ++ block, rest)

/-- The loop of `extractFencedCodeBlocks`: a closed fence is a found piece, and
every other line is kept.  Each round takes a line or more. -/
def fencedPieces : Nat → List JsString → List Piece
  | 0, lines => [.kept lines.flatten]
  | _ + 1, [] => []
  | fuel + 1, line :: lines =>
      if line = [] ∧ lines = [] then []
      else
        match search opening line with
        | none => .kept line :: fencedPieces fuel lines
        | some m =>
            match closeFence (m.group 2) lines with
            | none => .kept line :: fencedPieces fuel lines
            | some (block, rest) => .found (line ++ block) :: fencedPieces fuel rest

def fencedCode : List Piece :=
  fencedPieces (matchedLines text).length (matchedLines text)

def extractFencedCodeBlocks (e : Extraction) : Extraction :=
  takeOut seed .fencedCode (fencedCode e.text) e.blocks

/-! ## Extraction and restoration -/

def replacePatterns (patterns : List (Matcher × BlockKind)) (e : Extraction) : Extraction :=
  patterns.foldl (fun e pattern => replacePattern seed pattern.1 pattern.2 e) e

def compiled (patterns : List (Pattern × BlockKind)) : List (Matcher × BlockKind) :=
  patterns.map fun pattern => (Matcher.ofPattern pattern.1, pattern.2)

/-- `extractPreservedBlocks` up to the fenced code. -/
def extractRegions (preservePatterns : List (Option Matcher)) (text : JsString) : Extraction :=
  replacePatterns seed (compileUserPatterns preservePatterns ++ compiled envelopes)
    (extractFrontmatter seed { text := text })

def extractPreservedBlocks (preservePatterns : List (Option Matcher))
    (text : JsString) : Extraction :=
  replacePatterns seed (compiled builtIns)
    (extractFencedCodeBlocks seed (extractRegions seed preservePatterns text))

/-- `restorePreservedBlocks`.  `split` and `join` replace every occurrence of the
placeholder. -/
def restorePreservedBlocks (blocks : List PreservedBlock) : JsString :=
  blocks.foldl (fun result block => result.replaceAll block.placeholder block.content) text

end RedRouter.Compression.Preservation
