import RedRouter.Response.ClaudeToOpenai
import Mathlib.Data.List.Basic

/-!
# A Claude stream keeps its message

The chunks of a well-formed Claude stream put together give the message of the
stream: its texts, its thinking, and its tool calls under dense indices.

`BlocksOk` is the grammar of the block events. `Follows` ties the state of the
translator and the chunks so far to the events so far: the `n`-th tool block
has the dense index `n`, and the assembled calls are the calls of the tool
blocks.
-/

namespace RedRouter.Response.ClaudeToOpenai

open List Chat ThinkTag

/-! ## The message of a stream -/

def Event.text : Event → JsString
  | .blockDelta _ (.text text) => text
  | _ => []

def Event.thinking : Event → JsString
  | .blockDelta _ (.thinking thinking) => thinking
  | _ => []

def Event.toolBlock? : Event → Option (Nat × Option JsString × JsString)
  | .blockStart index (.toolUse id name) => some (index, id, name)
  | _ => none

def Event.partialJson (index : Nat) : Event → JsString
  | .blockDelta i (.inputJson fragment) => if i = index then fragment else []
  | _ => []

def textOf (events : List Event) : JsString := events.flatMap Event.text

def thinkingOf (events : List Event) : JsString := events.flatMap Event.thinking

/-- The tool blocks, in the order of their start. -/
def toolBlocksOf (events : List Event) : List (Nat × Option JsString × JsString) :=
  events.filterMap Event.toolBlock?

/-- The concatenated JSON fragments of a block. -/
def partialJsonOf (index : Nat) (events : List Event) : JsString :=
  events.flatMap (Event.partialJson index)

/-- The block events of a stream: indices are not reused, a delta lies between
the start and the stop of its block, and every block stops. -/
def BlocksOk : List Nat → List Nat → List Event → Prop
  | _, started, [] => started = []
  | used, started, .blockStart i _ :: events =>
      i ∉ used ∧ BlocksOk (i :: used) (i :: started) events
  | used, started, .blockDelta i _ :: events => i ∈ started ∧ BlocksOk used started events
  | used, started, .blockStop i :: events =>
      i ∈ started ∧ BlocksOk used (started.filter (· ≠ i)) events
  | used, started, .other :: events => BlocksOk used started events
  | _, _, _ => False

/-- A well-formed stream: its start, its blocks, at most one message delta that
is not a refusal, and its end. -/
structure WellFormed (events : List Event) : Prop where
  shape : ∃ id model usage body tail,
    events = .messageStart id model usage :: (body ++ tail) ∧ BlocksOk [] [] body ∧
      (tail = [.messageStop] ∨ ∃ reason explanation deltaUsage,
        tail = [.messageDelta reason explanation deltaUsage, .messageStop] ∧ reason ≠ some .refusal)

/-! ## The block events -/

/-- The dense index of a tool block. -/
def callIndex (s : State) (i : Nat) : Option Nat := (s.toolCalls.get i).map OpenCall.index

def emittedTools (opts : Options) (s : State) : Event → List ToolCallDelta
  | .blockStart _ (.toolUse id name) =>
      [⟨some s.toolCallIndex, id, some (mappedName opts name), some []⟩]
  | .blockDelta i (.inputJson fragment) =>
      if fragment.isEmpty then []
      else (callIndex s i).toList.map fun n => { index := some n, arguments := some fragment }
  | _ => []

def nextIndex (s : State) (event : Event) (j : Nat) : Option Nat :=
  match event with
  | .blockStart i (.toolUse _ _) => if i = j then some s.toolCallIndex else callIndex s j
  | _ => callIndex s j

/-- What one block event emits, and how the state follows it. -/
structure Emits (opts : Options) (event : Event) (s : State) (chunks : List Chunk)
    (s' : State) : Prop where
  content : contentOf chunks = event.text
  reasoning : reasoningOf chunks = event.thinking
  tools : toolDeltas chunks = emittedTools opts s event
  unfinished : ∀ c ∈ chunks, c.finishReason = none
  index : ∀ j, callIndex s' j = nextIndex s event j
  counter : s'.toolCallIndex = s.toolCallIndex + (event.toolBlock?.toList).length
  think : s'.thinkState = s.thinkState
  unsent : s'.finishReasonSent = s.finishReasonSent

variable (nowMs : Nat)

theorem contentOf_contentChunk (s : State) (text : JsString) :
    contentOf (contentChunk nowMs s text) = text := by
  cases text with
  | nil => rfl
  | cons c cs => simp [contentChunk, contentOf, createChunk]

theorem reasoningOf_contentChunk (s : State) (text : JsString) :
    reasoningOf (contentChunk nowMs s text) = [] := by
  cases text with
  | nil => rfl
  | cons c cs => rfl

theorem reasoningOf_reasoningChunk (s : State) (text : JsString) :
    reasoningOf (reasoningChunk nowMs s text) = text := by
  cases text with
  | nil => rfl
  | cons c cs => simp [reasoningChunk, reasoningOf, createChunk]

theorem contentOf_reasoningChunk (s : State) (text : JsString) :
    contentOf (reasoningChunk nowMs s text) = [] := by
  cases text with
  | nil => rfl
  | cons c cs => rfl

theorem toolDeltas_contentChunk (s : State) (text : JsString) :
    toolDeltas (contentChunk nowMs s text) = [] ∧
      ∀ c ∈ contentChunk nowMs s text, c.finishReason = none := by
  cases text with
  | nil => exact ⟨rfl, by simp [contentChunk]⟩
  | cons c cs => exact ⟨rfl, by simp [contentChunk, createChunk]⟩

theorem toolDeltas_reasoningChunk (s : State) (text : JsString) :
    toolDeltas (reasoningChunk nowMs s text) = [] ∧
      ∀ c ∈ reasoningChunk nowMs s text, c.finishReason = none := by
  cases text with
  | nil => exact ⟨rfl, by simp [reasoningChunk]⟩
  | cons c cs => exact ⟨rfl, by simp [reasoningChunk, createChunk]⟩

variable {opts : Options} {s : State}

theorem onText_quiet (hsuppress : opts.suppressThinkClose = true) (nowMs : Nat) (text : JsString)
    {ctx : ThinkState} (hctx : s.thinkState = some ctx) (henabled : ctx.enabled = false) :
    onText opts nowMs text s = (contentChunk nowMs { s with pendingThinkClose := false } text,
        { s with pendingThinkClose := false }) := by
  have happly : applyThinkTag text ctx = ({ contentDelta := text }, ctx) := by
    rw [applyThinkTag, if_pos henabled]
  have hmarker : (if s.pendingThinkClose then thinkCloseChunks opts nowMs s else []) = [] := by
    rw [thinkCloseChunks, if_pos hsuppress]
    split <;> rfl
  have hstate : { s with pendingThinkClose := false, thinkState := some ctx } =
      { s with pendingThinkClose := false } := by
    rw [← hctx]
  unfold onText
  rw [hmarker, hctx]
  dsimp only
  rw [happly, nil_append]
  simp [reasoningChunk]

theorem emits_nil {event : Event} {s' : State} (htext : event.text = [])
    (hthinking : event.thinking = []) (htool : event.toolBlock? = none)
    (htools : emittedTools opts s event = []) (hindex : ∀ j, nextIndex s event j = callIndex s j)
    (hcalls : s'.toolCalls = s.toolCalls) (hcounter : s'.toolCallIndex = s.toolCallIndex)
    (hthink : s'.thinkState = s.thinkState) (hsent : s'.finishReasonSent = s.finishReasonSent) :
    Emits opts event s [] s' where
  content := htext.symm
  reasoning := hthinking.symm
  tools := htools.symm
  unfinished := fun _ hc => absurd hc not_mem_nil
  index := fun j => by
    rw [hindex, callIndex, callIndex, hcalls]
  counter := by
    rw [hcounter, htool]
    rfl
  think := hthink
  unsent := hsent

theorem emits_blockStart (opts : Options) (nowMs i : Nat) (block : StartBlock) (s : State) :
    Emits opts (.blockStart i block) s (onBlockStart opts nowMs i block s).1
      (onBlockStart opts nowMs i block s).2 := by
  cases block with
  | text => exact emits_nil rfl rfl rfl rfl (fun _ => rfl) rfl rfl rfl rfl
  | thinking =>
    refine ⟨rfl, rfl, rfl, ?_, fun _ => rfl, rfl, rfl, rfl⟩
    simp [onBlockStart, createChunk]
  | toolUse id name =>
    refine ⟨rfl, rfl, rfl, ?_, ?_, rfl, rfl, rfl⟩
    · simp [onBlockStart, createChunk]
    · intro j
      simp only [onBlockStart, callIndex, nextIndex, JsMap.get_set]
      split <;> rfl
  | other => exact emits_nil rfl rfl rfl rfl (fun _ => rfl) rfl rfl rfl rfl

theorem emits_blockDelta (hsuppress : opts.suppressThinkClose = true) (nowMs i : Nat)
    (delta : BlockDelta)
    (hquiet : ∃ ctx, s.thinkState = some ctx ∧ ctx.enabled = false ∧ ctx.active = false) :
    Emits opts (.blockDelta i delta) s (onBlockDelta opts nowMs i delta s).1
      (onBlockDelta opts nowMs i delta s).2 := by
  obtain ⟨ctx, hctx, henabled, -⟩ := hquiet
  cases delta with
  | text text =>
    unfold onBlockDelta
    dsimp only
    split
    · rename_i hempty
      exact emits_nil (List.isEmpty_iff.mp hempty) rfl rfl rfl (fun _ => rfl) rfl rfl rfl rfl
    · rw [onText_quiet hsuppress nowMs text hctx henabled]
      obtain ⟨htools, hfinish⟩ :=
        toolDeltas_contentChunk nowMs { s with pendingThinkClose := false } text
      exact ⟨contentOf_contentChunk .., reasoningOf_contentChunk .., htools, hfinish,
        fun _ => rfl, rfl, rfl, rfl⟩
  | thinking thinking =>
    obtain ⟨htools, hfinish⟩ := toolDeltas_reasoningChunk nowMs s thinking
    exact ⟨contentOf_reasoningChunk .., reasoningOf_reasoningChunk .., htools, hfinish,
      fun _ => rfl, rfl, rfl, rfl⟩
  | inputJson fragment =>
    unfold onBlockDelta
    dsimp only
    split
    · rename_i hempty
      refine emits_nil rfl rfl rfl ?_ (fun _ => rfl) rfl rfl rfl rfl
      rw [emittedTools, if_pos hempty]
    · rename_i hne
      unfold onInputJson
      cases hget : s.toolCalls.get i with
      | none =>
        refine emits_nil rfl rfl rfl ?_ (fun _ => rfl) rfl rfl rfl rfl
        rw [emittedTools, if_neg hne, callIndex, hget]
        rfl
      | some call =>
        refine ⟨rfl, rfl, ?_, ?_, ?_, rfl, rfl, rfl⟩
        · rw [emittedTools, if_neg hne, callIndex, hget]
          rfl
        · simp [createChunk]
        · intro j
          simp only [callIndex, nextIndex, JsMap.get_set]
          split
          · rename_i heq
            subst heq
            rw [hget]
            rfl
          · rfl
  | other => exact emits_nil rfl rfl rfl rfl (fun _ => rfl) rfl rfl rfl rfl

theorem emits_blockStop (opts : Options) (nowMs i : Nat)
    (hquiet : ∃ ctx, s.thinkState = some ctx ∧ ctx.enabled = false ∧ ctx.active = false) :
    Emits opts (.blockStop i) s (onBlockStop nowMs i s).1 (onBlockStop nowMs i s).2 := by
  obtain ⟨ctx, hctx, -, hactive⟩ := hquiet
  have hflush : flushThink nowMs s = ([], s) := by
    rw [flushThink, hctx]
    dsimp only
    rw [hactive, if_neg (by simp)]
  unfold onBlockStop
  rw [hflush]
  dsimp only
  split <;> exact emits_nil rfl rfl rfl rfl (fun _ => rfl) rfl rfl rfl rfl

/-! ## The calls of a stream -/

/-- The call that the tool block number `n` of a stream stands for. -/
def callOf (opts : Options) (events : List Event)
    (entry : (Nat × Option JsString × JsString) × Nat) : AssembledCall where
  index := some entry.2
  id := entry.1.2.1
  name := some (mappedName opts entry.1.2.2)
  arguments := partialJsonOf entry.1.1 events

/-- The tool calls of a stream: one for each tool block, in the order of their
start, under the indices `0, 1, 2, …`. -/
def callsOf (opts : Options) (events : List Event) : List AssembledCall :=
  (toolBlocksOf events).zipIdx.map (callOf opts events)

/-- The state and the chunks after the events `seen`. -/
structure Follows (opts : Options) (seen : List Event) (used : List Nat) (chunks : List Chunk)
    (s : State) : Prop where
  quiet : ∃ ctx, s.thinkState = some ctx ∧ ctx.enabled = false ∧ ctx.active = false
  unsent : s.finishReasonSent = false
  fresh : ∀ i, i ∉ used → partialJsonOf i seen = []
  known : ∀ i n, callIndex s i = some n → i ∈ used
  counter : s.toolCallIndex = (toolBlocksOf seen).length
  index : ∀ i n, callIndex s i = some n ↔ ∃ b, (toolBlocksOf seen)[n]? = some b ∧ b.1 = i
  content : contentOf chunks = textOf seen
  reasoning : reasoningOf chunks = thinkingOf seen
  calls : assemble (toolDeltas chunks) = callsOf opts seen
  unfinished : ∀ c ∈ chunks, c.finishReason = none

def nextUsed (used : List Nat) : Event → List Nat
  | .blockStart i _ => i :: used
  | _ => used

/-- The block events that a stream may go on with. -/
def Allowed (used : List Nat) : Event → Prop
  | .blockStart i _ => i ∉ used
  | .blockDelta i _ => i ∈ used
  | _ => True

theorem partialJsonOf_concat (i : Nat) (seen : List Event) (event : Event) :
    partialJsonOf i (seen ++ [event]) = partialJsonOf i seen ++ event.partialJson i := by
  simp [partialJsonOf]

theorem toolBlocksOf_concat (seen : List Event) (event : Event) :
    toolBlocksOf (seen ++ [event]) = toolBlocksOf seen ++ event.toolBlock?.toList := by
  cases h : event.toolBlock? with
  | none => simp [toolBlocksOf, h]
  | some b => simp [toolBlocksOf, h]

variable {seen : List Event}

theorem callsOf_quiet {tail : List Event} (htool : toolBlocksOf tail = [])
    (hjson : ∀ b ∈ toolBlocksOf seen, partialJsonOf b.1 tail = []) :
    callsOf opts (seen ++ tail) = callsOf opts seen := by
  have hblocks : toolBlocksOf (seen ++ tail) = toolBlocksOf seen := by
    rw [toolBlocksOf, filterMap_append, ← toolBlocksOf, ← toolBlocksOf, htool, append_nil]
  rw [callsOf, hblocks, callsOf]
  apply map_congr_left
  intro entry hentry
  have hmem : entry.1 ∈ toolBlocksOf seen := fst_mem_of_mem_zipIdx hentry
  have hargs : partialJsonOf entry.1.1 (seen ++ tail) = partialJsonOf entry.1.1 seen := by
    rw [partialJsonOf, flatMap_append, ← partialJsonOf, ← partialJsonOf, hjson _ hmem, append_nil]
  rw [callOf, callOf, hargs]

theorem callsOf_start {i : Nat} {id : Option JsString} {name : JsString}
    (hfresh : partialJsonOf i seen = []) :
    callsOf opts (seen ++ [.blockStart i (.toolUse id name)]) = callsOf opts seen ++
        [⟨some (toolBlocksOf seen).length, id, some (mappedName opts name), []⟩] := by
  have hjson : ∀ j, partialJsonOf j (seen ++ [.blockStart i (.toolUse id name)]) =
      partialJsonOf j seen := by
    intro j
    rw [partialJsonOf_concat]
    exact append_nil _
  have hcall : callOf opts (seen ++ [.blockStart i (.toolUse id name)]) = callOf opts seen := by
    funext entry
    rw [callOf, callOf, hjson]
  rw [callsOf, toolBlocksOf_concat, hcall, callsOf]
  simp [Event.toolBlock?, zipIdx_append, callOf, hfresh]

theorem callsOf_fragment {i n : Nat} {fragment : JsString}
    (hnumber : ∀ m b, (toolBlocksOf seen)[m]? = some b → (b.1 = i ↔ m = n)) :
    callsOf opts (seen ++ [.blockDelta i (.inputJson fragment)]) =
      (callsOf opts seen).map fun call =>
        if call.index = some n then call.extend { index := some n, arguments := some fragment } else call := by
  rw [callsOf, toolBlocksOf_concat]
  simp only [Event.toolBlock?, Option.toList_none, append_nil, callsOf, map_map]
  apply map_congr_left
  rintro ⟨b, m⟩ hentry
  have hget : (toolBlocksOf seen)[m]? = some b := mem_zipIdx_iff_getElem?.mp hentry
  have hiff := hnumber m b hget
  have hindex : (callOf opts seen (b, m)).index = some m := rfl
  by_cases hm : m = n
  · have hb : i = b.1 := (hiff.mpr hm).symm
    rw [Function.comp_apply, hindex, if_pos (congrArg some hm), callOf, partialJsonOf_concat]
    simp [Event.partialJson, hb, callOf, AssembledCall.extend]
  · have hb : i ≠ b.1 := fun h => hm (hiff.mp h.symm)
    rw [Function.comp_apply, hindex, if_neg (fun h => hm (Option.some.inj h)), callOf, partialJsonOf_concat]
    simp [Event.partialJson, hb, callOf]

namespace Follows

variable {opts : Options} {seen : List Event} {used : List Nat} {chunks new : List Chunk}
  {s s' : State} {event : Event}

section

variable (h : Follows opts seen used chunks s)
include h

theorem number {i n : Nat} (hi : callIndex s i = some n)
    (m : Nat) (b : Nat × Option JsString × JsString) (hb : (toolBlocksOf seen)[m]? = some b) :
    b.1 = i ↔ m = n := by
  constructor
  · intro heq
    have hm : callIndex s i = some m := (h.index i m).mpr ⟨b, hb, heq⟩
    exact Option.some.inj (hm.symm.trans hi)
  · intro heq
    subst heq
    obtain ⟨b', hb', heq⟩ := (h.index i m).mp hi
    rw [hb] at hb'
    rw [Option.some.inj hb']
    exact heq

theorem calls_start {i : Nat} {id : Option JsString} {name : JsString} (hi : i ∉ used)
    (htools : toolDeltas new = emittedTools opts s (.blockStart i (.toolUse id name))) :
    assemble (toolDeltas (chunks ++ new)) =
      callsOf opts (seen ++ [.blockStart i (.toolUse id name)]) := by
  have hnew : ∀ call ∈ callsOf opts seen, call.index ≠ some s.toolCallIndex := by
    intro call hcall
    obtain ⟨⟨b, m⟩, hentry, rfl⟩ := mem_map.mp hcall
    have hm : m < (toolBlocksOf seen).length := by
      have hlt := (mem_zipIdx hentry).2.1
      omega
    rw [h.counter]
    exact fun heq => Nat.ne_of_lt hm (Option.some.inj heq)
  rw [toolDeltas_append, htools, emittedTools, assemble_concat, h.calls, addDelta_new hnew,
    callsOf_start (h.fresh i hi), h.counter]
  rfl

theorem calls_fragment {i : Nat} {fragment : JsString}
    (htools : toolDeltas new = emittedTools opts s (.blockDelta i (.inputJson fragment))) :
    assemble (toolDeltas (chunks ++ new)) =
      callsOf opts (seen ++ [.blockDelta i (.inputJson fragment)]) := by
  rw [toolDeltas_append, htools, emittedTools]
  split
  · rename_i hempty
    have hnil : fragment = [] := List.isEmpty_iff.mp hempty
    rw [append_nil, h.calls, callsOf_quiet rfl]
    intro b _
    simp [partialJsonOf, Event.partialJson, hnil]
  · cases hi : callIndex s i with
    | none =>
      rw [Option.toList_none, map_nil, append_nil, h.calls, callsOf_quiet rfl]
      intro b hb
      obtain ⟨m, hm⟩ := mem_iff_getElem?.mp hb
      have hne : i ≠ b.1 := by
        intro heq
        have hsome : callIndex s i = some m := (h.index i m).mpr ⟨b, hm, heq.symm⟩
        rw [hi] at hsome
        cases hsome
      simp [partialJsonOf, Event.partialJson, hne]
    | some n =>
      have hold : ∃ call ∈ callsOf opts seen, call.index = some n := by
        obtain ⟨b, hb, -⟩ := (h.index i n).mp hi
        exact ⟨callOf opts seen (b, n), mem_map_of_mem (mem_zipIdx_iff_getElem?.mpr hb), rfl⟩
      rw [Option.toList_some, map_singleton, assemble_concat, h.calls, addDelta_old hold,
        callsOf_fragment (h.number hi)]

section

variable (he : Emits opts event s new s')
include he

section

variable (hallowed : Allowed used event)
include hallowed

theorem calls_step : assemble (toolDeltas (chunks ++ new)) = callsOf opts (seen ++ [event]) := by
  have hquiet (htools : emittedTools opts s event = []) (htool : event.toolBlock? = none)
      (hjson : ∀ i, event.partialJson i = []) :
      assemble (toolDeltas (chunks ++ new)) = callsOf opts (seen ++ [event]) := by
    rw [toolDeltas_append, he.tools, htools, append_nil, h.calls, callsOf_quiet]
    · simp [toolBlocksOf, htool]
    · intro b _
      simp [partialJsonOf, hjson]
  match event, he, hallowed with
  | .blockStart i (.toolUse id name), he, hallowed => exact h.calls_start hallowed he.tools
  | .blockDelta i (.inputJson fragment), he, _ => exact h.calls_fragment he.tools
  | .blockStart _ .text, _, _ => exact hquiet rfl rfl fun _ => rfl
  | .blockStart _ .thinking, _, _ => exact hquiet rfl rfl fun _ => rfl
  | .blockStart _ .other, _, _ => exact hquiet rfl rfl fun _ => rfl
  | .blockDelta _ (.text _), _, _ => exact hquiet rfl rfl fun _ => rfl
  | .blockDelta _ (.thinking _), _, _ => exact hquiet rfl rfl fun _ => rfl
  | .blockDelta _ .other, _, _ => exact hquiet rfl rfl fun _ => rfl
  | .blockStop _, _, _ => exact hquiet rfl rfl fun _ => rfl
  | .messageStart _ _ _, _, _ => exact hquiet rfl rfl fun _ => rfl
  | .messageDelta _ _ _, _, _ => exact hquiet rfl rfl fun _ => rfl
  | .messageStop, _, _ => exact hquiet rfl rfl fun _ => rfl
  | .other, _, _ => exact hquiet rfl rfl fun _ => rfl

theorem index_step (i n : Nat) :
    callIndex s' i = some n ↔ ∃ b, (toolBlocksOf (seen ++ [event]))[n]? = some b ∧ b.1 = i := by
  rw [he.index, toolBlocksOf_concat]
  cases htool : event.toolBlock? with
  | none =>
    have hnext : nextIndex s event i = callIndex s i := by
      unfold nextIndex
      split
      · simp [Event.toolBlock?] at htool
      · rfl
    rw [hnext, h.index, Option.toList_none, append_nil]
  | some b =>
    obtain ⟨j, id, name, rfl⟩ : ∃ j id name, event = .blockStart j (.toolUse id name) := by
      unfold Event.toolBlock? at htool
      split at htool
      · exact ⟨_, _, _, rfl⟩
      · cases htool
    have hb : (j, id, name) = b := Option.some.inj htool
    subst hb
    have hold : callIndex s j = none := by
      cases hj : callIndex s j with
      | none => rfl
      | some m => exact absurd (h.known j m hj) hallowed
    simp only [nextIndex, Option.toList_some, getElem?_concat_iff]
    by_cases hji : j = i
    · subst hji
      rw [if_pos rfl, h.counter]
      constructor
      · intro hn
        exact ⟨_, .inr ⟨(Option.some.inj hn).symm, rfl⟩, rfl⟩
      · rintro ⟨b, hb | ⟨hn, -⟩, hbj⟩
        · have hsome : callIndex s j = some n := (h.index j n).mpr ⟨b, hb, hbj⟩
          rw [hold] at hsome
          cases hsome
        · rw [hn]
    · rw [if_neg hji, h.index]
      constructor
      · rintro ⟨b, hb, hbi⟩
        exact ⟨b, .inl hb, hbi⟩
      · rintro ⟨b, hb | ⟨-, rfl⟩, hbi⟩
        · exact ⟨b, hb, hbi⟩
        · exact absurd hbi hji

theorem step : Follows opts (seen ++ [event]) (nextUsed used event) (chunks ++ new) s' where
  quiet := by
    rw [he.think]
    exact h.quiet
  unsent := he.unsent.trans h.unsent
  fresh := by
    intro i hi
    have hused : i ∉ used := by
      intro hmem
      apply hi
      unfold nextUsed
      split
      · exact mem_cons_of_mem _ hmem
      · exact hmem
    rw [partialJsonOf_concat, h.fresh i hused, nil_append]
    unfold Event.partialJson
    split
    · rename_i j fragment
      have hne : j ≠ i := fun heq => hused (heq ▸ hallowed)
      rw [if_neg hne]
    · rfl
  known := by
    intro i n hi
    rw [he.index] at hi
    unfold nextIndex at hi
    split at hi
    · split at hi
      · rename_i heq
        exact heq ▸ mem_cons_self
      · exact mem_cons_of_mem _ (h.known i n hi)
    · have hused := h.known i n hi
      unfold nextUsed
      split
      · exact mem_cons_of_mem _ hused
      · exact hused
  counter := by
    rw [he.counter, h.counter, toolBlocksOf_concat, length_append]
  index := h.index_step he hallowed
  content := by
    rw [contentOf_append, h.content, he.content, textOf, textOf, flatMap_append, flatMap_singleton]
  reasoning := by
    rw [reasoningOf_append, h.reasoning, he.reasoning, thinkingOf, thinkingOf,
      flatMap_append, flatMap_singleton]
  calls := h.calls_step he hallowed
  unfinished := by
    intro c hc
    rcases mem_append.mp hc with hc | hc
    · exact h.unfinished c hc
    · exact he.unfinished c hc

end

end

end

end Follows

theorem follows_translate (hsuppress : opts.suppressThinkClose = true) (timed : List (Nat × Event))
    {used started : List Nat} {chunks : List Chunk} (h : Follows opts seen used chunks s)
    (hstarted : ∀ i ∈ started, i ∈ used) (hok : BlocksOk used started (timed.map Prod.snd)) :
    ∃ used', Follows opts (seen ++ timed.map Prod.snd) used'
      (chunks ++ (translate opts timed s).1) (translate opts timed s).2 := by
  induction timed generalizing seen used started chunks s with
  | nil =>
    refine ⟨used, ?_⟩
    simpa [translate] using h
  | cons entry timed ih =>
    obtain ⟨nowMs, event⟩ := entry
    -- One step, whatever the event.
    have hnext : ∀ (started' : List Nat)
        (_ : Emits opts event s (claudeToOpenAIResponse opts nowMs event s).1
          (claudeToOpenAIResponse opts nowMs event s).2) (_ : Allowed used event)
        (_ : ∀ i ∈ started', i ∈ nextUsed used event)
        (_ : BlocksOk (nextUsed used event) started' (timed.map Prod.snd)),
        ∃ used', Follows opts (seen ++ event :: timed.map Prod.snd) used'
          (chunks ++ (translate opts ((nowMs, event) :: timed) s).1)
          (translate opts ((nowMs, event) :: timed) s).2 := by
      intro started' he hallowed hstarted' hok'
      obtain ⟨used', hfollows⟩ := ih (h.step he hallowed) hstarted' hok'
      refine ⟨used', ?_⟩
      simpa [translate] using hfollows
    cases event with
    | blockStart i block =>
      refine hnext _ (emits_blockStart opts nowMs i block s) hok.1 ?_ hok.2
      intro j hj
      rcases mem_cons.mp hj with rfl | hj
      · exact mem_cons_self
      · exact mem_cons_of_mem _ (hstarted j hj)
    | blockDelta i delta =>
      exact hnext _ (emits_blockDelta hsuppress nowMs i delta h.quiet) (hstarted i hok.1) hstarted
        hok.2
    | blockStop i =>
      refine hnext _ (emits_blockStop opts nowMs i h.quiet) trivial ?_ hok.2
      intro j hj
      exact hstarted j (mem_of_mem_filter hj)
    | other =>
      exact hnext _ (emits_nil rfl rfl rfl rfl (fun _ => rfl) rfl rfl rfl rfl) trivial hstarted hok
    | messageStart id model usage => exact hok.elim
    | messageDelta reason explanation usage => exact hok.elim
    | messageStop => exact hok.elim

/-! ## Whole streams -/

/-- What a client gets from the chunks of a stream. -/
structure Preserves (opts : Options) (events : List Event) (chunks : List Chunk) : Prop where
  content : contentOf chunks = textOf events
  reasoning : reasoningOf chunks = thinkingOf events
  calls : assemble (toolDeltas chunks) = callsOf opts events
  /-- The last chunk is the only one with a finish reason. -/
  finish : ∃ before last, chunks = before ++ [last] ∧ last.finishReason ≠ none ∧
    ∀ c ∈ before, c.finishReason = none

theorem onMessageStop_unsent (hsent : s.finishReasonSent = false) :
    ∃ reason, (onMessageStop nowMs s).1 = [finalChunk nowMs s reason] := by
  unfold onMessageStop
  rw [if_neg (by simp [hsent])]
  exact ⟨_, rfl⟩

theorem onMessageStop_sent (hsent : s.finishReasonSent = true) :
    (onMessageStop nowMs s).1 = [] := by
  rw [onMessageStop, if_pos hsent]

/-- A message delta without a stop reason leaves the finish to the message stop. -/
theorem onMessageDelta_cases (hsuppress : opts.suppressThinkClose = true) (nowMs : Nat)
    {reason : Option StopReason} (hreason : reason ≠ some .refusal) (explanation : Option JsString)
    (usage : Option ClaudeUsage) {s' : State} {chunks : List Chunk}
    (h : onMessageDelta opts nowMs reason explanation usage s = (chunks, s')) :
    (chunks = [] ∧ s'.finishReasonSent = s.finishReasonSent) ∨
      (∃ s'' r, chunks = [finalChunk nowMs s'' r]) ∧ s'.finishReasonSent = true := by
  unfold onMessageDelta at h
  cases hpresent : presentReason reason with
  | none =>
    rw [hpresent] at h
    cases h
    exact .inl ⟨rfl, rfl⟩
  | some r =>
    have hr : r ≠ .refusal := by
      intro heq
      subst heq
      unfold presentReason at hpresent
      split at hpresent
      · cases hpresent
      · exact hreason hpresent
    have hmarker : ∀ (b : Bool) (s : State),
        (if b = true then thinkCloseChunks opts nowMs s else []) = [] := by
      intro b s
      rw [thinkCloseChunks, if_pos hsuppress]
      split <;> rfl
    rw [hpresent] at h
    dsimp only at h
    have hrefusal : ∀ s, refusalChunks nowMs r explanation s = [] := fun s => if_neg hr
    rw [hmarker, hrefusal] at h
    cases h
    exact .inr ⟨⟨_, _, rfl⟩, rfl⟩

theorem translate_tail (hsuppress : opts.suppressThinkClose = true)
    (hsent : s.finishReasonSent = false) {tail : List (Nat × Event)}
    (htail : tail.map Prod.snd = [.messageStop] ∨ ∃ reason explanation usage,
      tail.map Prod.snd = [.messageDelta reason explanation usage, .messageStop] ∧
        reason ≠ some .refusal) :
    ∃ nowMs s' reason, (translate opts tail s).1 = [finalChunk nowMs s' reason] := by
  rcases htail with htail | ⟨reason, explanation, usage, htail, hreason⟩
  · obtain ⟨⟨nowMs, event⟩, rest, rfl, rfl, hrest⟩ := map_eq_cons_iff.mp htail
    have hnil : rest = [] := map_eq_nil_iff.mp hrest
    subst hnil
    obtain ⟨r, hr⟩ := onMessageStop_unsent nowMs hsent
    refine ⟨nowMs, s, r, ?_⟩
    simpa [translate, claudeToOpenAIResponse] using hr
  · obtain ⟨⟨nowMs, event⟩, rest, rfl, rfl, hrest⟩ := map_eq_cons_iff.mp htail
    obtain ⟨⟨nowMs', event'⟩, rest', rfl, rfl, hrest'⟩ := map_eq_cons_iff.mp hrest
    have hnil : rest' = [] := map_eq_nil_iff.mp hrest'
    subst hnil
    cases hdelta : onMessageDelta opts nowMs reason explanation usage s with
    | mk chunks s' =>
      have heq : (translate opts [(nowMs, .messageDelta reason explanation usage),
          (nowMs', .messageStop)] s).1 = chunks ++ (onMessageStop nowMs' s').1 := by
        simp [translate, claudeToOpenAIResponse, hdelta]
      rw [heq]
      rcases onMessageDelta_cases hsuppress nowMs hreason explanation usage hdelta with
        ⟨rfl, hs'⟩ | ⟨⟨s'', r, rfl⟩, hs'⟩
      · obtain ⟨r, hr⟩ := onMessageStop_unsent nowMs' (hs'.trans hsent)
        exact ⟨nowMs', s', r, hr⟩
      · rw [onMessageStop_sent nowMs' hs']
        exact ⟨nowMs, s'', r, rfl⟩

theorem translate_append (opts : Options) (xs ys : List (Nat × Event)) (s : State) :
    (translate opts (xs ++ ys) s).1 =
      (translate opts xs s).1 ++ (translate opts ys (translate opts xs s).2).1 := by
  induction xs generalizing s with
  | nil => rfl
  | cons entry xs ih =>
    simp [translate, ih]

theorem follows_messageStart (opts : Options) (nowMs : Nat) (id model : Option JsString)
    (usage : Option ClaudeUsage) (hparse : opts.parseTags model = false) :
    Follows opts [.messageStart id model usage] [] (onMessageStart opts nowMs id model usage {}).1
      (onMessageStart opts nowMs id model usage {}).2 where
  quiet := ⟨{ enabled := opts.parseTags model }, rfl, hparse, rfl⟩
  unsent := rfl
  fresh := fun _ _ => rfl
  known := nofun
  counter := rfl
  index := fun i n => by
    constructor
    · intro h
      cases h
    · rintro ⟨b, hb, -⟩
      have hnil : toolBlocksOf [.messageStart id model usage] = [] := rfl
      cases hb
  content := rfl
  reasoning := rfl
  calls := rfl
  unfinished := by simp [onMessageStart, createChunk]

/-- The chunks of a well-formed stream give its message, when the closing think
marker is suppressed and no think tags are parsed. -/
theorem messagePreserved (opts : Options) (hsuppress : opts.suppressThinkClose = true)
    (timed : List (Nat × Event))
    (hparse : ∀ id model usage, .messageStart id model usage ∈ timed.map Prod.snd →
      opts.parseTags model = false)
    (hformed : WellFormed (timed.map Prod.snd)) :
    Preserves opts (timed.map Prod.snd) (translate opts timed {}).1 := by
  obtain ⟨id, model, usage, body, tail, hevents, hok, htail⟩ := hformed.shape
  have hquiet : opts.parseTags model = false := by
    apply hparse id model usage
    rw [hevents]
    exact mem_cons_self
  rw [hevents]
  obtain ⟨⟨nowMs, event⟩, rest, rfl, rfl, hrest⟩ := map_eq_cons_iff.mp hevents
  obtain ⟨bodyT, tailT, rfl, rfl, rfl⟩ := map_eq_append_iff.mp hrest
  obtain ⟨used, h⟩ := follows_translate hsuppress bodyT
    (follows_messageStart opts nowMs id model usage hquiet) (by simp) hok
  obtain ⟨endMs, s', reason, hend⟩ := translate_tail hsuppress h.unsent htail
  have hchunks : (translate opts ((nowMs, .messageStart id model usage) :: (bodyT ++ tailT)) {}).1 =
      ((onMessageStart opts nowMs id model usage {}).1 ++
        (translate opts bodyT (onMessageStart opts nowMs id model usage {}).2).1) ++
          [finalChunk endMs s' reason] := by
    rw [← hend, append_assoc, ← translate_append]
    rfl
  have hblocks : toolBlocksOf (tailT.map Prod.snd) = [] ∧ textOf (tailT.map Prod.snd) = [] ∧
      thinkingOf (tailT.map Prod.snd) = [] ∧ ∀ i, partialJsonOf i (tailT.map Prod.snd) = [] := by
    rcases htail with htail | ⟨r, explanation, deltaUsage, htail, -⟩
    all_goals
      rw [htail]
      exact ⟨rfl, rfl, rfl, fun _ => rfl⟩
  obtain ⟨htools, htext, hthinking, hjson⟩ := hblocks
  rw [singleton_append] at h
  rw [hchunks, ← cons_append]
  constructor
  · rw [contentOf_append, h.content, textOf, textOf, flatMap_append]
    exact congrArg _ htext.symm
  · rw [reasoningOf_append, h.reasoning, thinkingOf, thinkingOf, flatMap_append]
    exact congrArg _ hthinking.symm
  · rw [toolDeltas_append, callsOf_quiet htools fun b _ => hjson b.1, ← h.calls]
    exact congrArg assemble (append_nil _)
  · exact ⟨_, _, rfl, by simp [finalChunk], h.unfinished⟩

/-- A stream with a thinking block, a text block and two tool blocks whose deltas
alternate. -/
def interleaved : List (Nat × Event) :=
  [(1000, .messageStart (some (js "m1")) (some (js "claude")) none),
    (1001, .blockStart 0 .thinking),
    (1002, .blockDelta 0 (.thinking (js "hm"))),
    (1003, .blockStop 0),
    (1004, .blockStart 4 (.toolUse (some (js "a")) (js "read"))),
    (1005, .blockStart 2 (.toolUse (some (js "b")) (js "write"))),
    (1006, .blockDelta 4 (.inputJson (js "[1"))),
    (1007, .blockDelta 2 (.inputJson (js "[2"))),
    (1008, .blockDelta 4 (.inputJson (js ",3]"))),
    (1009, .blockDelta 2 (.inputJson (js "]"))),
    (1010, .blockStop 4),
    (1011, .blockStop 2),
    (1012, .blockStart 7 .text),
    (1013, .blockDelta 7 (.text (js "done"))),
    (1014, .blockStop 7),
    (1015, .messageDelta (some .toolUse) none none),
    (1016, .messageStop)]

def interleavedOptions : Options where
  suppressThinkClose := true
  toolNameMap := [(js "read", js "Read")]
  parseTags := fun _ => false

theorem messagePreserved_interleaved : Preserves interleavedOptions (interleaved.map Prod.snd)
        (translate interleavedOptions interleaved {}).1 ∧
      callsOf interleavedOptions (interleaved.map Prod.snd) =
        [⟨some 0, some (js "a"), some (js "Read"), js "[1,3]"⟩,
          ⟨some 1, some (js "b"), some (js "write"), js "[2]"⟩] := by
  refine ⟨messagePreserved interleavedOptions rfl interleaved (fun _ _ _ _ => rfl) ⟨?_⟩, rfl⟩
  refine ⟨_, _, _, (interleaved.map Prod.snd).tail.take 14, _, rfl, ?_,
    .inr ⟨_, _, _, rfl, by decide⟩⟩
  simp [interleaved, BlocksOk]

end RedRouter.Response.ClaudeToOpenai
