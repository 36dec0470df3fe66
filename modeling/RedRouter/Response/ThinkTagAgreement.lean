import Mathlib.Tactic.IntervalCases
import RedRouter.Lib.Search
import RedRouter.Response.ThinkTag

/-!
# Think tags with and without streaming

`extractThinkTags` takes a whole text, cuts out one block at a time and looks
again at what is left, for ten rounds at most.  The streaming parser goes
through the text once.

`throughBlocks 10` is the text up to its tenth closed block. There the two
agree (`extractLoop_spec`), as long as no opening tag is formed by what stands
before and after a block that was cut out.
-/

namespace RedRouter.Response.ThinkTag

open List

/-! ## Think tags over a whole stream

A text is cut at its think tags: at the first opening tag, then at the first
closing tag after it, and so on.  `pieces` are the parts between the tags, by
turns content and reasoning, and `render` puts the tags back.

The streaming parser gives exactly these parts (`streamed_eq`), whatever the
deltas are.  What carries the proof is `cutRest`: what the parser holds back,
with anything that may come after it, is still cut as the whole text was.
-/

def endTag (insideThink : Bool) : JsString := if insideThink then thinkClose else thinkOpen

theorem endTag_ne_nil (inside : Bool) : endTag inside ≠ [] := by
  cases inside <;> decide

variable {inside : Bool} {text : JsString}

theorem drop_endTag_lt {i : Nat} (h : JsString.indexOf (endTag inside) text = some i) :
    (text.drop (i + (endTag inside).length)).length < text.length := by
  obtain ⟨-, hend⟩ := JsString.split_of_indexOf h
  have hpos : 0 < (endTag inside).length := length_pos_iff.mpr (endTag_ne_nil inside)
  rw [length_drop]
  omega

/-- The parts of a text between its tags. -/
def pieces (inside : Bool) (text : JsString) : List JsString :=
  match _h : JsString.indexOf (endTag inside) text with
  | none => [text]
  | some i => text.take i :: pieces (!inside) (text.drop (i + (endTag inside).length))
termination_by text.length
decreasing_by exact drop_endTag_lt _h

def render (inside : Bool) : List JsString → JsString
  | [] => []
  | [piece] => piece
  | piece :: rest => piece ++ (endTag inside ++ render (!inside) rest)

/-- The parts of the two modes, each put together. -/
def collect (inside : Bool) : List JsString → Extracted
  | [] => {}
  | piece :: rest =>
      let out := collect (!inside) rest
      if inside then { out with reasoningDelta := piece ++ out.reasoningDelta }
      else { out with contentDelta := piece ++ out.contentDelta }

def Extracted.andThen (first later : Extracted) : Extracted :=
  { reasoningDelta := first.reasoningDelta ++ later.reasoningDelta
    contentDelta := first.contentDelta ++ later.contentDelta }

def processAll (ctx : ThinkState) : List JsString → Extracted × ThinkState
  | [] => ({}, ctx)
  | delta :: deltas =>
      let (out, ctx) := processStreamingThinkDelta delta ctx
      let (rest, ctx) := processAll ctx deltas
      (out.andThen rest, ctx)

/-- What comes out for the deltas and at the flush. -/
def streamed (deltas : List JsString) : Extracted :=
  let (out, ctx) := processAll { enabled := true } deltas
  out.andThen (flushThinkBuffer ctx).1

/-! ## The parts of a text -/

@[simp] theorem andThen_empty (out : Extracted) : out.andThen {} = out := by
  simp [Extracted.andThen]

@[simp] theorem empty_andThen (out : Extracted) : Extracted.andThen {} out = out := by
  simp [Extracted.andThen]

theorem andThen_assoc (a b c : Extracted) : (a.andThen b).andThen c = a.andThen (b.andThen c) := by
  simp [Extracted.andThen]

theorem pieces_of_none (h : JsString.indexOf (endTag inside) text = none) :
    pieces inside text = [text] := by
  rw [pieces]
  split
  · rfl
  · rename_i hsome
    rw [h] at hsome
    cases hsome

theorem pieces_of_some {i : Nat} (h : JsString.indexOf (endTag inside) text = some i) :
    pieces inside text =
      text.take i :: pieces (!inside) (text.drop (i + (endTag inside).length)) := by
  rw [pieces]
  split
  · rename_i hnone
    rw [h] at hnone
    cases hnone
  · rename_i hsome
    rw [h] at hsome
    cases hsome
    rfl

theorem pieces_ne_nil (inside : Bool) (text : JsString) : pieces inside text ≠ [] := by
  cases h : JsString.indexOf (endTag inside) text with
  | none => simp [pieces_of_none h]
  | some i => simp [pieces_of_some h]

theorem render_cons {piece : JsString} {rest : List JsString} (h : rest ≠ []) :
    render inside (piece :: rest) = piece ++ (endTag inside ++ render (!inside) rest) := by
  cases rest with
  | nil => exact absurd rfl h
  | cons next rest => rfl

theorem render_pieces (inside : Bool) (text : JsString) : render inside (pieces inside text) = text := by
  induction hlen : text.length using Nat.strongRecOn generalizing inside text with
  | ind n ih =>
    cases h : JsString.indexOf (endTag inside) text with
    | none => simp [pieces_of_none h, render]
    | some i =>
      have hlt := drop_endTag_lt h
      rw [pieces_of_some h, render_cons (pieces_ne_nil _ _), ih _ (by omega) _ _ rfl]
      exact (JsString.split_of_indexOf h).1.symm

/-- The text of one mode comes out. -/
def said (inside : Bool) (text : JsString) : Extracted :=
  if inside then { reasoningDelta := text } else { contentDelta := text }

theorem said_append (inside : Bool) (a b : JsString) :
    said inside (a ++ b) = (said inside a).andThen (said inside b) := by
  cases inside <;> simp [said, Extracted.andThen]

theorem collect_cons (inside : Bool) (piece : JsString) (rest : List JsString) :
    collect inside (piece :: rest) = (said inside piece).andThen (collect (!inside) rest) := by
  cases inside <;> simp [collect, said, Extracted.andThen]

def cut (inside : Bool) (text : JsString) : Extracted := collect inside (pieces inside text)

theorem cut_of_none (inside : Bool) (h : JsString.indexOf (endTag inside) text = none) :
    cut inside text = said inside text := by
  rw [cut, pieces_of_none h, collect_cons]
  simp [collect]

theorem cut_of_some (inside : Bool) {i : Nat} (h : JsString.indexOf (endTag inside) text = some i) :
    cut inside text = (said inside (text.take i)).andThen
        (cut (!inside) (text.drop (i + (endTag inside).length))) := by
  rw [cut, pieces_of_some h, collect_cons]
  rfl

/-- A text that holds no tag yet can be given out up to the last units. -/
theorem cut_hold {k : Nat} (h : JsString.indexOf (endTag inside) text = none)
    (hk : k + (endTag inside).length ≤ text.length + 1) (t : JsString) :
    cut inside (text ++ t) = (said inside (text.take k)).andThen (cut inside (text.drop k ++ t)) := by
  have hfind := JsString.indexOf_hold h hk (endTag_ne_nil inside) t
  have hpos : 0 < (endTag inside).length := length_pos_iff.mpr (endTag_ne_nil inside)
  have hsplit : text.take k ++ (text.drop k ++ t) = text ++ t := by
    rw [← append_assoc, take_append_drop]
  have hlen : (text.take k).length = k := by
    rw [length_take]
    omega
  cases hrest : JsString.indexOf (endTag inside) (text.drop k ++ t) with
  | none =>
    rw [hrest] at hfind
    rw [cut_of_none inside hfind, cut_of_none inside hrest, ← said_append, hsplit]
  | some i =>
    rw [hrest] at hfind
    have htake : (text ++ t).take (i + k) = text.take k ++ (text.drop k ++ t).take i := by
      rw [← hsplit, take_append, hlen, take_of_length_le (by omega), Nat.add_sub_cancel]
    have hdrop : (text ++ t).drop (i + k + (endTag inside).length) =
        (text.drop k ++ t).drop (i + (endTag inside).length) := by
      rw [← hsplit, drop_append, hlen, drop_of_length_le (by omega), nil_append]
      congr 1
      omega
    rw [cut_of_some inside hfind, cut_of_some inside hrest, htake, hdrop, said_append, andThen_assoc]

/-! ## One delta -/

theorem processLoop_succ (fuel : Nat) (ctx : ThinkState) (out : Extracted) :
    processLoop (fuel + 1) ctx out =
      if ctx.buffer.isEmpty then (out, ctx)
      else
        match JsString.indexOf (endTag ctx.insideThink) ctx.buffer with
        | none =>
            if ctx.buffer.length > (endTag ctx.insideThink).length then
              let keep := ctx.buffer.length - ((endTag ctx.insideThink).length - 1)
              (out.andThen (said ctx.insideThink (ctx.buffer.take keep)),
                { ctx with buffer := ctx.buffer.drop keep })
            else (out, ctx)
        | some i =>
            processLoop fuel
              { ctx with
                buffer := ctx.buffer.drop (i + (endTag ctx.insideThink).length)
                insideThink := !ctx.insideThink }
              (out.andThen (said ctx.insideThink (ctx.buffer.take i))) := by
  obtain ⟨enabled, inside, buffer, active⟩ := ctx
  rw [processLoop]
  cases inside with
  | true => cases h : JsString.indexOf thinkClose buffer <;> simp [endTag, said, Extracted.andThen, h]
  | false => cases h : JsString.indexOf thinkOpen buffer <;> simp [endTag, said, Extracted.andThen, h]

/-- What is held back does not contain the tag that is looked for. -/
def Held (ctx : ThinkState) : Prop :=
  JsString.indexOf (endTag ctx.insideThink) ctx.buffer = none

/-- The loop gives out the beginning of the text and leaves the rest to be cut
as before. -/
theorem processLoop_spec (fuel : Nat) (ctx : ThinkState) (out : Extracted)
    (hfuel : ctx.buffer.length < fuel) :
    Held (processLoop fuel ctx out).2 ∧ ∀ t, out.andThen (cut ctx.insideThink (ctx.buffer ++ t)) =
        (processLoop fuel ctx out).1.andThen (cut (processLoop fuel ctx out).2.insideThink
            ((processLoop fuel ctx out).2.buffer ++ t)) := by
  induction fuel generalizing ctx out with
  | zero => omega
  | succ fuel ih =>
    rw [processLoop_succ]
    by_cases hempty : ctx.buffer = []
    · rw [if_pos (by simp [hempty])]
      refine ⟨?_, fun t => rfl⟩
      show JsString.indexOf _ _ = none
      rw [hempty]
      cases ctx.insideThink <;> rfl
    · rw [if_neg (by simp [hempty])]
      cases hfind : JsString.indexOf (endTag ctx.insideThink) ctx.buffer with
      | none =>
        dsimp only
        split
        · refine ⟨?_, fun t => ?_⟩
          · show JsString.indexOf _ (ctx.buffer.drop _) = none
            rw [JsString.indexOf_eq_none_iff] at hfind ⊢
            exact fun h => hfind (h.trans (drop_suffix _ _).isInfix)
          · rw [cut_hold (k := ctx.buffer.length - ((endTag ctx.insideThink).length - 1)) hfind
              (by omega) t, ← andThen_assoc]
        · exact ⟨hfind, fun t => rfl⟩
      | some i =>
        have hlt := drop_endTag_lt hfind
        obtain ⟨hheld, hrest⟩ := ih
          { ctx with
            buffer := ctx.buffer.drop (i + (endTag ctx.insideThink).length)
            insideThink := !ctx.insideThink }
          (out.andThen (said ctx.insideThink (ctx.buffer.take i))) (by dsimp only; omega)
        refine ⟨hheld, fun t => ?_⟩
        obtain ⟨-, hend⟩ := JsString.split_of_indexOf hfind
        rw [← hrest t, cut_of_some ctx.insideThink (JsString.indexOf_append hfind t),
          take_append_of_le_length (by omega), drop_append_of_le_length hend,
          andThen_assoc]

theorem cutRest (ctx : ThinkState) (delta : JsString) :
    Held (processStreamingThinkDelta delta ctx).2 ∧
      ∀ t, cut ctx.insideThink (ctx.buffer ++ (delta ++ t)) =
        (processStreamingThinkDelta delta ctx).1.andThen
          (cut (processStreamingThinkDelta delta ctx).2.insideThink
            ((processStreamingThinkDelta delta ctx).2.buffer ++ t)) := by
  obtain ⟨hheld, hrest⟩ := processLoop_spec ((ctx.buffer ++ delta).length + 1)
    { ctx with buffer := ctx.buffer ++ delta } {} (Nat.lt_succ_self _)
  refine ⟨hheld, fun t => ?_⟩
  have hstep := hrest t
  rw [empty_andThen, append_assoc] at hstep
  exact hstep

/-! ## A stream -/

theorem flush_of_held {ctx : ThinkState} (h : Held ctx) :
    (flushThinkBuffer ctx).1 = cut ctx.insideThink ctx.buffer := by
  rw [cut_of_none ctx.insideThink h, flushThinkBuffer, said]
  split <;> rfl

theorem processAll_spec (ctx : ThinkState) (deltas : List JsString) (h : Held ctx) :
    (processAll ctx deltas).1.andThen (flushThinkBuffer (processAll ctx deltas).2).1 =
      cut ctx.insideThink (ctx.buffer ++ deltas.flatten) := by
  induction deltas generalizing ctx with
  | nil =>
    rw [List.flatten_nil, append_nil, ← flush_of_held h]
    exact empty_andThen _
  | cons delta deltas ih =>
    obtain ⟨hheld, hrest⟩ := cutRest ctx delta
    rw [List.flatten_cons, hrest, ← ih _ hheld, processAll]
    exact andThen_assoc _ _ _

theorem streamed_eq (deltas : List JsString) : streamed deltas = cut false deltas.flatten :=
  processAll_spec { enabled := true } deltas rfl

/-- The deltas do not matter: the content and the reasoning are those of the
whole text in one delta, and with the tags they are the text. -/
theorem streamed_chunking (deltas : List JsString) :
    (streamed deltas).contentDelta = (streamed [deltas.flatten]).contentDelta ∧
      (streamed deltas).reasoningDelta = (streamed [deltas.flatten]).reasoningDelta ∧
      ∃ parts, render false parts = deltas.flatten ∧ collect false parts = streamed deltas := by
  have hwhole : streamed [deltas.flatten] = streamed deltas := by
    rw [streamed_eq, streamed_eq]
    simp
  refine ⟨by rw [hwhole], by rw [hwhole], pieces false deltas.flatten, ?_, ?_⟩
  · exact render_pieces false _
  · exact (streamed_eq deltas).symm

/-- The text up to the end of its `n`-th closed block, and the rest.  A text
with fewer blocks has no rest. -/
def throughBlocks : Nat → JsString → JsString × JsString
  | 0, text => ([], text)
  | n + 1, text =>
      match JsString.indexOf thinkOpen text with
      | none => (text, [])
      | some i =>
          let inner := text.drop (i + thinkOpen.length)
          match JsString.indexOf thinkClose inner with
          | none => (text, [])
          | some j =>
              let (through, rest) := throughBlocks n (inner.drop (j + thinkClose.length))
              (text.take i ++ (thinkOpen ++ (inner.take j ++ (thinkClose ++ through))), rest)

/-- The blocks of a reasoning, each with the separator before it. -/
def Separated (blocks : List (JsString × JsString)) : Prop :=
  ∀ block ∈ blocks, block.1 = [] ∨ block.1 = js "\n"

/-- The same answer up to surrounding white space and the separators between
the blocks of the reasoning. -/
structure Agrees (result : ThinkResult) (out : Extracted) : Prop where
  content : JsString.trim result.content = JsString.trim out.contentDelta
  reasoning : ∃ blocks, Separated blocks ∧ out.reasoningDelta = blocks.flatMap Prod.snd ∧
    result.reasoning.getD [] = JsString.trim (blocks.flatMap fun block => block.1 ++ block.2)

/-! ## Finding the tags -/

variable {before : JsString}

theorem indexOf_open_after (h : ¬ thinkOpen <:+: before) (t : JsString) :
    JsString.indexOf thinkOpen (before ++ (thinkOpen ++ t)) = some before.length :=
  JsString.indexOf_after (by decide) h t

theorem indexOf_close_after (h : ¬ thinkClose <:+: before) (t : JsString) :
    JsString.indexOf thinkClose (before ++ (thinkClose ++ t)) = some before.length :=
  JsString.indexOf_after (by decide) h t

/-- An opening tag holds no closing one, so the search may begin at it. -/
theorem indexOf_close_skip (inner : JsString) : JsString.indexOf thinkClose (thinkOpen ++ inner) =
      (JsString.indexOf thinkClose inner).map (· + thinkOpen.length) := by
  have hskip : ∀ j < thinkOpen.length, ¬ thinkClose <+: (thinkOpen ++ inner).drop j := by
    intro j hj hprefix
    obtain ⟨rest, hrest⟩ := hprefix
    have hlt : j < 7 := hj
    interval_cases j <;> simp [thinkOpen, thinkClose, js, utf16] at hrest
  rw [JsString.indexOf_skip (by simp) hskip, drop_left]

variable {inner : JsString}

theorem cut_block (hbefore : ¬ thinkOpen <:+: before) (hinner : ¬ thinkClose <:+: inner)
    (t : JsString) :
    cut false (before ++ (thinkOpen ++ (inner ++ (thinkClose ++ t)))) =
      (said false before).andThen ((said true inner).andThen (cut false t)) := by
  have hopen := indexOf_open_after hbefore (inner ++ (thinkClose ++ t))
  have hclose := indexOf_close_after hinner t
  rw [cut_of_some false hopen, take_left]
  rw [show endTag false = thinkOpen from rfl, ← drop_drop, drop_left, drop_left]
  rw [show (!false) = true from rfl, cut_of_some true hclose, take_left]
  rw [show endTag true = thinkClose from rfl, ← drop_drop, drop_left, drop_left]
  rfl

/-! ## The rounds -/

theorem block_cases (text : JsString) : JsString.indexOf thinkOpen text = none ∨
      (∃ before inner, text = before ++ (thinkOpen ++ inner) ∧ ¬ thinkOpen <:+: before ∧
        JsString.indexOf thinkClose inner = none) ∨
      ∃ before inner rest, text = before ++ (thinkOpen ++ (inner ++ (thinkClose ++ rest))) ∧
        ¬ thinkOpen <:+: before ∧ ¬ thinkClose <:+: inner := by
  cases hopen : JsString.indexOf thinkOpen text with
  | none => exact .inl rfl
  | some i =>
    right
    have hbefore := JsString.not_infix_take_of_indexOf hopen (by decide)
    obtain ⟨hsplit, -⟩ := JsString.split_of_indexOf hopen
    cases hclose : JsString.indexOf thinkClose (text.drop (i + thinkOpen.length)) with
    | none => exact .inl ⟨_, _, hsplit, hbefore, hclose⟩
    | some j =>
      right
      have hinner := JsString.not_infix_take_of_indexOf hclose (by decide)
      obtain ⟨hsplit', -⟩ := JsString.split_of_indexOf hclose
      refine ⟨_, _, (text.drop (i + thinkOpen.length)).drop (j + thinkClose.length), ?_, hbefore,
        hinner⟩
      rw [← hsplit']
      exact hsplit

theorem throughBlocks_of_none {text : JsString} (n : Nat)
    (h : JsString.indexOf thinkOpen text = none) : throughBlocks (n + 1) text = (text, []) := by
  simp [throughBlocks, h]

theorem throughBlocks_unclosed (n : Nat) (hbefore : ¬ thinkOpen <:+: before)
    (hinner : JsString.indexOf thinkClose inner = none) :
    throughBlocks (n + 1) (before ++ (thinkOpen ++ inner)) =
      (before ++ (thinkOpen ++ inner), []) := by
  have hopen := indexOf_open_after hbefore inner
  have hdrop : (before ++ (thinkOpen ++ inner)).drop (before.length + thinkOpen.length) = inner := by
    rw [← drop_drop, drop_left, drop_left]
  simp [throughBlocks, hopen, hinner]

theorem throughBlocks_closed (n : Nat) (hbefore : ¬ thinkOpen <:+: before)
    (hinner : ¬ thinkClose <:+: inner) (t : JsString) :
    throughBlocks (n + 1) (before ++ (thinkOpen ++ (inner ++ (thinkClose ++ t)))) =
      (before ++ (thinkOpen ++ (inner ++ (thinkClose ++ (throughBlocks n t).1))),
        (throughBlocks n t).2) := by
  have hopen := indexOf_open_after hbefore (inner ++ (thinkClose ++ t))
  have hclose := indexOf_close_after hinner t
  have hdrop : (before ++ (thinkOpen ++ (inner ++ (thinkClose ++ t)))).drop
      (before.length + thinkOpen.length) = inner ++ (thinkClose ++ t) := by
    rw [← drop_drop, drop_left, drop_left]
  have hdrop' : (inner ++ (thinkClose ++ t)).drop (inner.length + thinkClose.length) = t := by
    rw [← drop_drop, drop_left, drop_left]
  simp [throughBlocks, hopen, hclose]

theorem cut_throughBlocks (n : Nat) (text : JsString) (h : ¬ thinkOpen <:+: (throughBlocks n text).2) :
    cut false text = (cut false (throughBlocks n text).1).andThen
      (said false (throughBlocks n text).2) := by
  induction n generalizing text with
  | zero =>
    have hnone : JsString.indexOf (endTag false) text = none :=
      JsString.indexOf_eq_none_iff.mpr h
    rw [cut_of_none false hnone]
    show said false text = (cut false []).andThen (said false text)
    rw [cut_of_none false rfl]
    exact (empty_andThen _).symm
  | succ n ih =>
    rcases block_cases text with hopen | ⟨before, inner, rfl, hbefore, hinner⟩ |
      ⟨before, inner, rest, rfl, hbefore, hinner⟩
    · rw [throughBlocks_of_none n hopen]
      exact (andThen_empty _).symm
    · rw [throughBlocks_unclosed n hbefore hinner]
      exact (andThen_empty _).symm
    · rw [throughBlocks_closed n hbefore hinner] at h ⊢
      rw [cut_block hbefore hinner, cut_block hbefore hinner, ih rest h]
      simp only [andThen_assoc]

theorem extractLoop_closed (n : Nat) (reasoning : JsString) (hbefore : ¬ thinkOpen <:+: before)
    (hinner : ¬ thinkClose <:+: inner) (t : JsString) :
    extractLoop (n + 1) reasoning (before ++ (thinkOpen ++ (inner ++ (thinkClose ++ t)))) =
      extractLoop n (reasoning ++ (if reasoning.isEmpty then [] else js "\n") ++ inner)
        (before ++ t) := by
  have hopen := indexOf_open_after hbefore (inner ++ (thinkClose ++ t))
  have hclose : JsString.indexOf thinkClose (thinkOpen ++ (inner ++ (thinkClose ++ t))) =
      some (inner.length + thinkOpen.length) := by
    rw [indexOf_close_skip, indexOf_close_after hinner t]
    rfl
  have hlen : before.length + (inner.length + thinkOpen.length) =
      (before ++ (thinkOpen ++ inner)).length := by
    simp only [length_append]
    omega
  have htake : (before ++ (thinkOpen ++ (inner ++ (thinkClose ++ t)))).take
      (before.length + (inner.length + thinkOpen.length)) = before ++ (thinkOpen ++ inner) := by
    rw [hlen, show before ++ (thinkOpen ++ (inner ++ (thinkClose ++ t))) =
      before ++ (thinkOpen ++ inner) ++ (thinkClose ++ t) by simp only [append_assoc],
      take_left]
  have hdrop : (before ++ (thinkOpen ++ (inner ++ (thinkClose ++ t)))).drop
      (before.length + (inner.length + thinkOpen.length) + thinkClose.length) = t := by
    rw [hlen, show before ++ (thinkOpen ++ (inner ++ (thinkClose ++ t))) =
      before ++ (thinkOpen ++ inner) ++ (thinkClose ++ t) by simp only [append_assoc],
      ← drop_drop, drop_left, drop_left]
  have hblock : (before ++ (thinkOpen ++ inner)).drop (before.length + thinkOpen.length) = inner := by
    rw [← drop_drop, drop_left, drop_left]
  simp [extractLoop, hopen, hclose, htake, hdrop]

theorem extractLoop_unclosed (n : Nat) (reasoning : JsString) (hbefore : ¬ thinkOpen <:+: before)
    (hinner : JsString.indexOf thinkClose inner = none) :
    extractLoop (n + 1) reasoning (before ++ (thinkOpen ++ inner)) =
      (reasoning ++ inner, before) := by
  have hopen := indexOf_open_after hbefore inner
  have hclose : JsString.indexOf thinkClose (thinkOpen ++ inner) = none := by
    rw [indexOf_close_skip, hinner]
    rfl
  have hdrop : (before ++ (thinkOpen ++ inner)).drop (before.length + thinkOpen.length) = inner := by
    rw [← drop_drop, drop_left, drop_left]
  simp [extractLoop, hopen, hclose]

/-- The loop cuts out the blocks of the text up to the last of its rounds.
`kept` is the content that stands before the text already. -/
theorem extractLoop_spec (n : Nat) (reasoning kept text : JsString)
    (hformed : ¬ thinkOpen <:+: kept ++ (cut false (throughBlocks n text).1).contentDelta) :
    ∃ blocks, Separated blocks ∧
      (cut false (throughBlocks n text).1).reasoningDelta = blocks.flatMap Prod.snd ∧
      extractLoop n reasoning (kept ++ text) =
        (reasoning ++ blocks.flatMap (fun block => block.1 ++ block.2),
          kept ++ ((cut false (throughBlocks n text).1).contentDelta ++
            (throughBlocks n text).2)) := by
  induction n generalizing reasoning kept text with
  | zero =>
    have hcut : cut false [] = {} := cut_of_none false rfl
    refine ⟨[], by simp [Separated], ?_, ?_⟩
    · show (cut false []).reasoningDelta = _
      simp [hcut]
    · show (reasoning, kept ++ text) = (_, kept ++ ((cut false []).contentDelta ++ text))
      simp [hcut]
  | succ n ih =>
    rcases block_cases text with hopen | ⟨before, inner, rfl, hbefore, hinner⟩ |
      ⟨before, inner, rest, rfl, hbefore, hinner⟩
    · rw [throughBlocks_of_none n hopen] at hformed ⊢
      have hcut : cut false text = said false text := cut_of_none false hopen
      rw [hcut] at hformed ⊢
      refine ⟨[], by simp [Separated], by simp [said], ?_⟩
      have hnone : JsString.indexOf thinkOpen (kept ++ text) = none :=
        JsString.indexOf_eq_none_iff.mpr hformed
      simp [extractLoop, hnone, said]
    · rw [throughBlocks_unclosed n hbefore hinner] at hformed ⊢
      have hcut : cut false (before ++ (thinkOpen ++ inner)) =
          (said false before).andThen (said true inner) := by
        rw [cut_of_some false (indexOf_open_after hbefore inner), take_left,
          show endTag false = thinkOpen from rfl, ← drop_drop, drop_left, drop_left,
          cut_of_none (!false) hinner]
        rfl
      rw [hcut] at hformed ⊢
      refine ⟨[([], inner)], by simp [Separated], by simp [said, Extracted.andThen], ?_⟩
      have hkept : ¬ thinkOpen <:+: kept ++ before := by
        simpa [said, Extracted.andThen] using hformed
      rw [← append_assoc, extractLoop_unclosed n reasoning hkept hinner]
      simp [said, Extracted.andThen]
    · rw [throughBlocks_closed n hbefore hinner] at hformed ⊢
      rw [cut_block hbefore hinner] at hformed ⊢
      have hcontent : kept ++ ((said false before).andThen ((said true inner).andThen
          (cut false (throughBlocks n rest).1))).contentDelta =
          (kept ++ before) ++ (cut false (throughBlocks n rest).1).contentDelta := by
        simp [said, Extracted.andThen]
      rw [hcontent] at hformed
      have hkept : ¬ thinkOpen <:+: kept ++ before :=
        fun h => hformed (h.trans (prefix_append _ _).isInfix)
      obtain ⟨blocks, hseparated, hreasoning, hloop⟩ := ih
        (reasoning ++ (if reasoning.isEmpty then [] else js "\n") ++ inner) (kept ++ before) rest
        hformed
      refine ⟨(if reasoning.isEmpty then [] else js "\n", inner) :: blocks, ?_, ?_, ?_⟩
      · intro block hblock
        rcases mem_cons.mp hblock with rfl | hmem
        · split
          · exact .inl rfl
          · exact .inr rfl
        · exact hseparated block hmem
      · simp [said, Extracted.andThen, hreasoning]
      · rw [← append_assoc, extractLoop_closed n reasoning hkept hinner rest, hloop]
        simp [said, Extracted.andThen]

/-! ## Agreement -/

theorem throughBlocks_plain {text : JsString} (h : ¬ thinkOpen <:+: text) :
    throughBlocks maxIterations text = (text, []) :=
  throughBlocks_of_none 9 (JsString.indexOf_eq_none_iff.mpr h)

/-- `extractThinkTags` against the text that is cut up to its tenth block. -/
theorem agrees_throughBlocks (text : JsString)
    (hformed : ¬ thinkOpen <:+: (cut false (throughBlocks maxIterations text).1).contentDelta) :
    Agrees (extractThinkTags text) ((cut false (throughBlocks maxIterations text).1).andThen
        (said false (throughBlocks maxIterations text).2)) := by
  unfold extractThinkTags
  by_cases hopen : text.includes thinkOpen = true
  · obtain ⟨blocks, hseparated, hreasoning, hloop⟩ :=
      extractLoop_spec maxIterations [] [] text hformed
    rw [nil_append] at hloop
    rw [if_pos hopen, hloop]
    refine ⟨?_, blocks, hseparated, ?_, ?_⟩
    · rw [JsString.trim_trim]
      simp [said, Extracted.andThen]
    · simp [said, Extracted.andThen, hreasoning]
    · dsimp only
      split
      · rename_i hempty
        simpa using (List.isEmpty_iff.mp hempty).symm
      · simp
  · have hnone : ¬ thinkOpen <:+: text := fun h => hopen ((JsString.includes_iff _ _).mpr h)
    have hcut : cut false text = said false text :=
      cut_of_none false (JsString.indexOf_eq_none_iff.mpr hnone)
    rw [if_neg hopen, throughBlocks_plain hnone, hcut]
    refine ⟨?_, [], by simp [Separated], ?_, ?_⟩
    · simp [said]
    · simp [said]
    · rfl

def elevenBlocks : JsString := (List.replicate 11 (js "<think>a</think>")).flatten

end RedRouter.Response.ThinkTag
