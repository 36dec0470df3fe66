import RedRouter.Lib.JsString

/-!
# Think tags

The model of `utils/thinkTagParser.ts`: text between `<think>` and `</think>`
is split off as reasoning.  `extractThinkTags` works on a whole text, the
other functions while the deltas of a stream come in.  A tail that may be the
beginning of a tag is kept back there.
-/

namespace RedRouter.Response.ThinkTag

def thinkOpen : JsString := js "<think>"

def thinkClose : JsString := js "</think>"

/-- The context of `initThinkState`. -/
structure ThinkState where
  enabled : Bool
  insideThink : Bool := false
  buffer : JsString := []
  active : Bool := false

def containsOrMayEndWithThinkOpenTag (value : JsString) : Bool :=
  value.includes thinkOpen || (List.range (thinkOpen.length - 1)).any
      (fun i => value.endsWith (thinkOpen.take (i + 1)))

/-- The texts that a delta gives. -/
structure Extracted where
  reasoningDelta : JsString := []
  contentDelta : JsString := []

/-- The loop of `processStreamingThinkDelta`.  Every round that goes on drops
a tag from the buffer, so the length of the buffer is enough fuel. -/
def processLoop : Nat → ThinkState → Extracted → Extracted × ThinkState
  | 0, ctx, out => (out, ctx)
  | fuel + 1, ctx, out =>
      if ctx.buffer.isEmpty then (out, ctx)
      else if ctx.insideThink then
        match JsString.indexOf thinkClose ctx.buffer with
        | none =>
            if ctx.buffer.length > thinkClose.length then
              let keep := ctx.buffer.length - (thinkClose.length - 1)
              ({ out with reasoningDelta := out.reasoningDelta ++ ctx.buffer.take keep },
                { ctx with buffer := ctx.buffer.drop keep })
            else (out, ctx)
        | some closeIdx =>
            processLoop fuel
              { ctx with
                buffer := ctx.buffer.drop (closeIdx + thinkClose.length)
                insideThink := false }
              { out with reasoningDelta := out.reasoningDelta ++ ctx.buffer.take closeIdx }
      else
        match JsString.indexOf thinkOpen ctx.buffer with
        | none =>
            if ctx.buffer.length > thinkOpen.length then
              let keep := ctx.buffer.length - (thinkOpen.length - 1)
              ({ out with contentDelta := out.contentDelta ++ ctx.buffer.take keep },
                { ctx with buffer := ctx.buffer.drop keep })
            else (out, ctx)
        | some openIdx =>
            processLoop fuel
              { ctx with
                buffer := ctx.buffer.drop (openIdx + thinkOpen.length)
                insideThink := true }
              { out with contentDelta := out.contentDelta ++ ctx.buffer.take openIdx }

def processStreamingThinkDelta (delta : JsString) (ctx : ThinkState) : Extracted × ThinkState :=
  let ctx := { ctx with buffer := ctx.buffer ++ delta }
  processLoop (ctx.buffer.length + 1) ctx {}

/-- `applyThinkTag`: the reasoning and the content of a text delta. -/
def applyThinkTag (content : JsString) (ctx : ThinkState) : Extracted × ThinkState :=
  if ctx.enabled = false then ({ contentDelta := content }, ctx)
  else if ctx.active = false ∧ containsOrMayEndWithThinkOpenTag content = false then
    ({ contentDelta := content }, ctx)
  else processStreamingThinkDelta content { ctx with active := true }

def flushThinkBuffer (ctx : ThinkState) : Extracted × ThinkState :=
  if ctx.insideThink then ({ reasoningDelta := ctx.buffer }, { ctx with buffer := [] })
  else ({ contentDelta := ctx.buffer }, { ctx with buffer := [] })

/-! ## Whole texts -/

/-- The result of `extractThinkTags`. -/
structure ThinkResult where
  reasoning : Option JsString
  content : JsString
deriving DecidableEq

/-- The loop of `extractThinkTags`, with the iterations that are left. -/
def extractLoop : Nat → JsString → JsString → JsString × JsString
  | 0, reasoning, content => (reasoning, content)
  | iterations + 1, reasoning, content =>
      match JsString.indexOf thinkOpen content with
      | none => (reasoning, content)
      | some openIdx =>
          match JsString.indexOf thinkClose (content.drop openIdx) with
          | none =>
              (reasoning ++ content.drop (openIdx + thinkOpen.length), content.take openIdx)
          | some offset =>
              let closeIdx := openIdx + offset
              let thinkContent := (content.take closeIdx).drop (openIdx + thinkOpen.length)
              extractLoop iterations
                (reasoning ++ (if reasoning.isEmpty then [] else js "\n") ++ thinkContent)
                (content.take openIdx ++ content.drop (closeIdx + thinkClose.length))

def maxIterations : Nat := 10

def extractThinkTags (text : JsString) : ThinkResult :=
  if text.includes thinkOpen then
    let (reasoning, content) := extractLoop maxIterations [] text
    let reasoning := JsString.trim reasoning
    { reasoning := if reasoning.isEmpty then none else some reasoning
      content := JsString.trim content }
  else { reasoning := none, content := text }

end RedRouter.Response.ThinkTag
