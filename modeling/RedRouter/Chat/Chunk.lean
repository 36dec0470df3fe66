import RedRouter.Chat.Message
import Mathlib.Data.List.Chain

/-!
# Chat completion chunks

The chunks of an OpenAI-format stream, as the translators read them and as they
write them.  The constant fields of a chunk (`object`, the choice index `0`, the
`type` of a tool call) are left out, and so are fields that they do not look at.

A client puts the deltas of a stream together: `contentOf` and `reasoningOf`
concatenate the two texts, and `assemble` builds the tool calls from their
deltas, one call for each index.  `appendToolCallArgumentDelta` is how the
translators put the arguments of a tool call together.
-/

namespace RedRouter.Chat

/-! ## Incoming chunks -/

/-- One entry of `delta.tool_calls`. -/
structure ToolCallFragment where
  index : Option Nat := none
  id : Option JsString := none
  name : Option JsString := none
  /-- A string, or the arguments themselves in place of their JSON text. -/
  arguments : Option Json := none

/-- One entry of `delta.reasoning_details`. -/
structure ReasoningDetail where
  text : Option JsString := none
  content : Option JsString := none

structure IncomingDelta where
  reasoningContent : Option JsString := none
  reasoning : Option JsString := none
  reasoningDetails : List ReasoningDetail := []
  content : Option JsString := none
  toolCalls : List ToolCallFragment := []

structure Choice where
  delta : IncomingDelta := {}
  finishReason : Option JsString := none

/-- The token counts of a `usage`, in the Chat Completions or in the Responses
naming; a field that is not a number is missing. -/
structure IncomingUsage where
  promptTokens : Option Int := none
  inputTokens : Option Int := none
  completionTokens : Option Int := none
  outputTokens : Option Int := none
  totalTokens : Option Int := none
  /-- The cached tokens of the prompt details, or else of the input details. -/
  cachedTokens : Option Int := none
  /-- `input_tokens_details.cached_tokens`. -/
  inputCachedTokens : Option Int := none
  /-- The created tokens of the prompt details, or else of the input details. -/
  cacheCreationTokens : Option Int := none
  /-- `cache_creation_input_tokens`. -/
  cacheCreationInputTokens : Option Int := none
  /-- The first `cache_write_tokens`: of the prompt details, of the input details, of
  the usage itself. -/
  cacheWriteTokens : Option Int := none
  /-- `output_tokens_details.reasoning_tokens`. -/
  outputReasoningTokens : Option Int := none
  /-- `completion_tokens_details.reasoning_tokens`. -/
  completionReasoningTokens : Option Int := none

/-- The `error` of a chunk that an aggregator sends in the middle of a stream. -/
structure IncomingError where
  code : Option Int := none
  /-- `metadata.error_type`. -/
  errorType : Option JsString := none
  message : Option JsString := none

structure IncomingChunk where
  id : Option JsString := none
  model : Option JsString := none
  /-- `extend_fields.requestId`. -/
  requestId : Option JsString := none
  /-- `extend_fields.traceId`. -/
  traceId : Option JsString := none
  choice : Option Choice := none
  usage : Option IncomingUsage := none
  error : Option IncomingError := none
  /-- The `[DONE]` of a stream. -/
  done : Bool := false

/-! ## The reasoning placeholder -/

/-- `NON_ANTHROPIC_THINKING_PLACEHOLDER`. -/
def reasoningPlaceholder : JsString := js "(prior reasoning summary unavailable)"

def isInternalReasoningPlaceholder (value : JsString) : Bool :=
  JsString.trim value == reasoningPlaceholder

def stripInternalReasoningPlaceholder (value : JsString) : JsString :=
  if JsString.includes value reasoningPlaceholder then
    let stripped := JsString.replaceAll value reasoningPlaceholder []
    if (JsString.trim stripped).isEmpty then [] else stripped
  else value

/-! ## Tool-call arguments -/

def normalizeIncomingFragment (codec : JsonCodec) : Json → JsString
  | .str text => text
  | .arr items => codec.stringify (.arr items)
  | .obj members => codec.stringify (.obj members)
  | .null => []
  | .bool _ => []
  | .num _ => []

def appendToolCallArgumentDelta (codec : JsonCodec) (existing : JsString) (incoming : Json) :
    JsString :=
  let next := normalizeIncomingFragment codec incoming
  if existing.isEmpty then next
  else if next.isEmpty then existing
  else if next == existing then existing
  else if next.startsWith existing then next
  else existing ++ next

/-- The arguments only grow, so that the part after the old ones is what is
new. -/
theorem appendToolCallArgumentDelta_eq_append (codec : JsonCodec) (existing : JsString)
    (incoming : Json) :
    existing ++ (appendToolCallArgumentDelta codec existing incoming).drop existing.length =
      appendToolCallArgumentDelta codec existing incoming := by
  apply List.prefix_iff_eq_append.mp
  unfold appendToolCallArgumentDelta
  dsimp only
  split
  · rename_i hempty
    rw [List.isEmpty_iff.mp hempty]
    exact List.nil_prefix
  · split
    · exact List.prefix_rfl
    · split
      · exact List.prefix_rfl
      · split
        · rename_i hstarts
          exact List.isPrefixOf_iff_prefix.mp hstarts
        · exact List.prefix_append ..

open List

/-- The fragments of the arguments of one call, put together. -/
def assembled (codec : JsonCodec) (fragments : List JsString) : JsString :=
  fragments.foldl (fun args fragment => appendToolCallArgumentDelta codec args (.str fragment)) []

section

variable (codec : JsonCodec)

theorem assembled_concat (fragments : List JsString) (fragment : JsString) :
    assembled codec (fragments ++ [fragment]) =
      appendToolCallArgumentDelta codec (assembled codec fragments) (.str fragment) := by
  rw [assembled, foldl_append]
  rfl

theorem append_snapshot {existing next : JsString} (h : existing <+: next) :
    appendToolCallArgumentDelta codec existing (.str next) = next := by
  unfold appendToolCallArgumentDelta normalizeIncomingFragment
  dsimp only
  split
  · rfl
  · split
    · rename_i hempty
      rw [isEmpty_iff.mp hempty] at h ⊢
      exact prefix_nil.mp h
    · split
      · rename_i hsame
        exact (eq_of_beq hsame).symm
      · exact if_pos ( isPrefixOf_iff_prefix.mpr h)

theorem append_delta {existing next : JsString} (hnext : next ≠ []) (h : ¬ existing <+: next) :
    appendToolCallArgumentDelta codec existing (.str next) = existing ++ next := by
  have hexisting : existing ≠ [] := by
    rintro rfl
    exact h nil_prefix
  have hsame : next ≠ existing := by
    rintro rfl
    exact h prefix_rfl
  unfold appendToolCallArgumentDelta normalizeIncomingFragment
  dsimp only
  rw [if_neg (by simpa using hexisting), if_neg (by simpa using hnext), if_neg (by simpa using hsame)]
  exact if_neg fun hstarts => h ( isPrefixOf_iff_prefix.mp hstarts)

/-- The assembled fragments are the text if and only if no fragment starts
with all that came before it; snapshots that grow give the last of them. -/
theorem assembled_eq_iff :
    (∀ fragments : List JsString, (∀ f ∈ fragments, f ≠ []) →
      (assembled codec fragments = fragments.flatten ↔
        ∀ before f, before ++ [f] <+: fragments → before ≠ [] → ¬ before.flatten <+: f)) ∧
    ∀ snapshots : List JsString, snapshots.IsChain (· <+: ·) →
      assembled codec snapshots = snapshots.getLastD [] := by
  constructor
  · intro fragments h
    induction fragments using List.reverseRecOn with
    | nil => simp [assembled]
    | append_singleton fragments f ih =>
      have hf : f ≠ [] := h f (by simp)
      have hold : ∀ g ∈ fragments, g ≠ [] := fun g hg => h g (mem_append_left _ hg)
      have hstep : assembled codec (fragments ++ [f]) = (fragments ++ [f]).flatten ↔
          assembled codec fragments = fragments.flatten ∧
            (fragments ≠ [] → ¬ fragments.flatten <+: f) := by
        rw [assembled_concat, flatten_concat]
        by_cases hpre : assembled codec fragments <+: f
        · rw [append_snapshot codec hpre, self_eq_append_left, flatten_eq_nil_iff]
          constructor
          · intro hempty
            obtain rfl := eq_nil_iff_forall_not_mem.mpr fun g hg => hold g hg (hempty g hg)
            exact ⟨rfl, fun hne => absurd rfl hne⟩
          · rintro ⟨heq, hlast⟩ g hg
            exact absurd (heq ▸ hpre) (hlast (ne_nil_of_mem hg))
        · rw [append_delta codec hf hpre, append_cancel_right_eq]
          exact ⟨fun heq => ⟨heq, fun _ => heq ▸ hpre⟩, And.left⟩
      rw [hstep, ih hold]
      constructor
      · rintro ⟨hbefore, hlast⟩ before g hpre hne
        rcases prefix_concat_iff.mp hpre with heq | hpre
        · obtain ⟨rfl, hg⟩ := append_inj' heq rfl
          rw [cons.inj hg |>.1]
          exact hlast hne
        · exact hbefore before g hpre hne
      · intro hall
        refine ⟨fun before g hpre => hall before g (hpre.trans (prefix_append _ _)), ?_⟩
        exact hall fragments f prefix_rfl
  · intro snapshots h
    induction snapshots using List.reverseRecOn with
    | nil => rfl
    | append_singleton snapshots last ih =>
      obtain ⟨hbefore, -, hlast⟩ := isChain_append.mp h
      rw [assembled_concat, ih hbefore, getLastD_concat]
      apply append_snapshot
      cases hsnapshots : snapshots.getLast? with
      | none =>
        rw [getLast?_eq_none_iff.mp hsnapshots]
        exact nil_prefix
      | some previous =>
        rw [getLastD_eq_getLast?, hsnapshots]
        exact hlast previous hsnapshots last rfl

/-- An inner object that repeats the beginning of the outer one. -/
theorem assembled_nested :
    assembled ⟨fun _ => none, fun _ => [], rfl⟩ [js "\x7b\"a\":", js "\x7b\"a\":1\x7d\x7d"] ≠
      js "\x7b\"a\":\x7b\"a\":1\x7d\x7d" := by
  decide

end

/-- One entry of `delta.tool_calls`.  An index of `none` is a `null`. -/
structure ToolCallDelta where
  index : Option Nat
  id : Option JsString := none
  name : Option JsString := none
  arguments : Option JsString := none

structure Delta where
  /-- Whether the delta carries `role: "assistant"`. -/
  role : Bool := false
  content : Option JsString := none
  reasoningContent : Option JsString := none
  /-- The `reasoning_text` that some clients read instead. -/
  reasoningText : Option JsString := none
  toolCalls : List ToolCallDelta := []

inductive FinishReason where
  | stop
  | length
  | toolCalls
  | contentFilter
  | pauseTurn
  | other (name : JsString)
deriving DecidableEq

/-- The `usage` of a final chunk. -/
structure ChunkUsage where
  promptTokens : Nat
  completionTokens : Nat
  totalTokens : Nat
  reasoningTokens : Option Nat := none
  cachedTokens : Option Nat := none
  cacheCreationTokens : Option Nat := none

structure Chunk where
  id : JsString
  created : Nat
  model : Option JsString
  delta : Delta
  finishReason : Option FinishReason := none
  usage : Option ChunkUsage := none

/-! ## Putting the deltas together -/

def contentOf (chunks : List Chunk) : JsString :=
  chunks.flatMap fun chunk => chunk.delta.content.getD []

def reasoningOf (chunks : List Chunk) : JsString :=
  chunks.flatMap fun chunk => chunk.delta.reasoningContent.getD []

def toolDeltas (chunks : List Chunk) : List ToolCallDelta :=
  chunks.flatMap fun chunk => chunk.delta.toolCalls

/-- A tool call as a client has put it together so far. -/
structure AssembledCall where
  index : Option Nat
  id : Option JsString
  name : Option JsString
  arguments : JsString

def AssembledCall.extend (call : AssembledCall) (d : ToolCallDelta) : AssembledCall :=
  { call with
    id := call.id.or d.id
    name := call.name.or d.name
    arguments := call.arguments ++ d.arguments.getD [] }

/-- A client opens a call at the first delta of an index and extends it with the
others. -/
def addDelta (calls : List AssembledCall) (d : ToolCallDelta) : List AssembledCall :=
  if calls.any (fun call => call.index == d.index) then
    calls.map fun call => if call.index = d.index then call.extend d else call
  else calls ++ [⟨d.index, d.id, d.name, d.arguments.getD []⟩]

/-- The tool calls of a stream, in the order of their first deltas. -/
def assemble (deltas : List ToolCallDelta) : List AssembledCall := deltas.foldl addDelta []

@[simp] theorem contentOf_append (xs ys : List Chunk) :
    contentOf (xs ++ ys) = contentOf xs ++ contentOf ys := flatMap_append

@[simp] theorem reasoningOf_append (xs ys : List Chunk) :
    reasoningOf (xs ++ ys) = reasoningOf xs ++ reasoningOf ys := flatMap_append

@[simp] theorem toolDeltas_append (xs ys : List Chunk) :
    toolDeltas (xs ++ ys) = toolDeltas xs ++ toolDeltas ys := flatMap_append

/-- The calls of a stream are numbered by their position in a growing list. -/
theorem getElem?_concat_iff {α : Type} (xs : List α) (x y : α) (n : Nat) :
    (xs ++ [x])[n]? = some y ↔ xs[n]? = some y ∨ n = xs.length ∧ x = y := by
  rcases Nat.lt_trichotomy n xs.length with hlt | heq | hgt
  · simp [getElem?_append_left hlt, Nat.ne_of_lt hlt]
  · simp [heq]
  · have hlen : (xs ++ [x]).length ≤ n := by
      simp only [length_append, length_singleton]
      omega
    simp [getElem?_eq_none hlen, getElem?_eq_none (Nat.le_of_lt hgt), Nat.ne_of_gt hgt]

theorem assemble_concat (deltas : List ToolCallDelta) (d : ToolCallDelta) :
    assemble (deltas ++ [d]) = addDelta (assemble deltas) d := foldl_concat ..

theorem addDelta_new {calls : List AssembledCall} {d : ToolCallDelta}
    (h : ∀ call ∈ calls, call.index ≠ d.index) :
    addDelta calls d = calls ++ [⟨d.index, d.id, d.name, d.arguments.getD []⟩] := by
  have hany : ¬ (calls.any fun call => call.index == d.index) = true := by
    simpa using h
  rw [addDelta, if_neg hany]

theorem addDelta_old {calls : List AssembledCall} {d : ToolCallDelta}
    (h : ∃ call ∈ calls, call.index = d.index) :
    addDelta calls d =
      calls.map fun call => if call.index = d.index then call.extend d else call := by
  have hany : (calls.any fun call => call.index == d.index) = true := by
    simpa using h
  rw [addDelta, if_pos hany]

end RedRouter.Chat
