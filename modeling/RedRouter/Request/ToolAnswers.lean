import RedRouter.Request.ClaudeToOpenai
import RedRouter.Lib.Segments
import Mathlib.Data.List.Find
import Mathlib.Data.List.Count

/-!
# Every tool call is answered in place

The messages of `claudeToOpenAIRequest` are a sequence of segments: a message
that is not a tool message, and the tool messages that answer its calls.
`claudeToOpenAIRequest_eq_flatten` is that normal form.  It is built in three
steps:

* `get_callIdToAssistant` and `get_toolsByAssistant` say what the two maps of
  `regroupToolMessages` hold: the first issuer of an id, and the first result
  of an id under its first issuer;
* `regroupToolMessages_eq_flatten` reads the segments off the regrouped
  list;
* `fixMissingToolResponses_flatten` adds the placeholders to each segment.
-/

namespace RedRouter.Request.ClaudeToOpenai

open List Chat JsMap

/-! ## The two maps of the regrouping -/

variable (id : JsString)

def issues (msg : Message) : Bool :=
  (callsOf msg).any (fun tc => presentId tc.id = some id)

theorem issues_iff {id : JsString} {msg : Message} :
    issues id msg = true ↔ ∃ tc ∈ callsOf msg, presentId tc.id = some id := by
  simp [issues]

theorem get_foldl_noteCall (idx : Nat) (calls : List ToolCall) (issuers : JsMap JsString Nat) :
    (calls.foldl (noteCall idx) issuers).get id = (issuers.get id).or
        (if calls.any (fun tc => presentId tc.id = some id) then some idx else none) := by
  induction calls generalizing issuers with
  | nil => simp
  | cons tc calls ih =>
    rw [foldl_cons, ih, noteCall]
    cases hid : presentId tc.id with
    | none => simp [hid]
    | some id' =>
      by_cases hhas : issuers.has id' = true
      · simp only [hhas]
        by_cases heq : id' = id
        · subst heq
          obtain ⟨n, hn⟩ := Option.isSome_iff_exists.mp hhas
          simp [hn]
        · simp [hid, heq]
      · simp only [hhas]
        by_cases heq : id' = id
        · subst heq
          have hnone : issuers.get id' = none := by
            simpa [JsMap.has] using hhas
          simp [get_set, hnone, hid]
        · simp [get_set, hid, heq]

theorem get_foldl_callIdToAssistant (messages : List Message) (n : Nat)
    (issuers : JsMap JsString Nat) :
    ((messages.zipIdx n).foldl
        (fun acc entry => (callsOf entry.1).foldl (noteCall entry.2) acc) issuers).get id =
      (issuers.get id).or ((messages.findIdx? (issues id)).map (· + n)) := by
  induction messages generalizing n issuers with
  | nil => simp
  | cons msg rest ih =>
    rw [zipIdx_cons, foldl_cons, ih, get_foldl_noteCall, findIdx?_cons]
    by_cases h : issues id msg = true
    · have hany : (callsOf msg).any (fun tc => decide (presentId tc.id = some id)) = true := h
      simp only [hany, h, if_true, Option.map_some, Nat.zero_add]
      cases issuers.get id <;> rfl
    · have hany : ¬ (callsOf msg).any (fun tc => decide (presentId tc.id = some id)) = true := h
      rw [if_neg hany, if_neg h, Option.or_none, Option.map_map]
      congr 2
      funext k
      simp only [Function.comp_apply]
      omega

theorem get_callIdToAssistant (messages : List Message) :
    (callIdToAssistant messages).get id = messages.findIdx? (issues id) := by
  rw [callIdToAssistant, get_foldl_callIdToAssistant]
  simp

def isResultOf (msg : Message) : Bool :=
  msg.role = .tool && msg.toolCallId.getD [] = id

variable (groups : JsMap Nat (JsMap JsString Message))

/-- The result of an id that is filed under an assistant index. -/
def filed (idx : Nat) (id : JsString) : Option Message :=
  (groups.get idx).bind (JsMap.get id)

theorem filed_set (idx j : Nat) (group : JsMap JsString Message) (id : JsString) :
    filed (groups.set j group) idx id = if j = idx then group.get id else filed groups idx id := by
  rw [filed, filed, get_set]
  split <;> rfl

theorem get_getD_eq_filed (idx : Nat) (id : JsString) :
    ((groups.get idx).getD []).get id = filed groups idx id := by
  rw [filed]
  cases groups.get idx with
  | none => rfl
  | some group => rfl

/-- One tool message files itself, unless an earlier result of its id is
there. -/
theorem filed_noteResult (issuers : JsMap JsString Nat)
    (groups : JsMap Nat (JsMap JsString Message)) (msg : Message) (idx : Nat)
    (id : JsString) :
    filed (noteResult issuers groups msg) idx id = (filed groups idx id).or
        (if isResultOf id msg ∧ issuers.get id = some idx then some msg else none) := by
  unfold noteResult
  by_cases hrole : msg.role = .tool
  · simp only [hrole, if_true]
    cases hget : issuers.get (msg.toolCallId.getD []) with
    | none =>
      have hno : ¬ (isResultOf id msg = true ∧ issuers.get id = some idx) := by
        rintro ⟨hres, hid⟩
        have hid' : msg.toolCallId.getD [] = id := by simpa [isResultOf, hrole] using hres
        rw [hid', hid] at hget
        exact absurd hget (Option.some_ne_none _)
      simp [hno]
    | some j =>
      simp only [filed_set]
      by_cases hj : j = idx
      · subst hj
        rw [if_pos rfl]
        by_cases hid : msg.toolCallId.getD [] = id
        · -- the message is a result of `id`, and `j` is its issuer
          rw [hid] at hget ⊢
          have hres : isResultOf id msg = true ∧ issuers.get id = some j :=
            ⟨by simp [isResultOf, hrole, hid], hget⟩
          rw [if_pos hres]
          by_cases hhas : ((groups.get j).getD []).has id = true
          · rw [if_pos hhas, get_getD_eq_filed]
            rw [JsMap.has, get_getD_eq_filed] at hhas
            obtain ⟨m, hm⟩ := Option.isSome_iff_exists.mp hhas
            rw [hm]
            rfl
          · rw [if_neg hhas, get_set, if_pos rfl]
            rw [JsMap.has, get_getD_eq_filed] at hhas
            have hnone : filed groups j id = none := by simpa using hhas
            rw [hnone]
            rfl
        · have hno : ¬ (isResultOf id msg = true ∧ issuers.get id = some j) := by
            rintro ⟨hres, -⟩
            exact hid (by simpa [isResultOf, hrole] using hres)
          rw [if_neg hno, Option.or_none]
          split
          · exact get_getD_eq_filed groups j id
          · rw [get_set, if_neg hid, get_getD_eq_filed]
      · have hno : ¬ (isResultOf id msg = true ∧ issuers.get id = some idx) := by
          rintro ⟨hres, hid⟩
          have hid' : msg.toolCallId.getD [] = id := by simpa [isResultOf, hrole] using hres
          rw [hid', hid, Option.some.injEq] at hget
          exact hj hget.symm
        rw [if_neg hj, if_neg hno, Option.or_none]
  · have hno : ¬ (isResultOf id msg = true ∧ issuers.get id = some idx) := by
      rintro ⟨hres, -⟩
      simp [isResultOf, hrole] at hres
    rw [if_neg hrole, if_neg hno, Option.or_none]

theorem filed_foldl_noteResult (issuers : JsMap JsString Nat) (messages : List Message)
    (groups : JsMap Nat (JsMap JsString Message)) (idx : Nat) (id : JsString) :
    filed (messages.foldl (noteResult issuers) groups) idx id = (filed groups idx id).or
        (if issuers.get id = some idx then messages.find? (isResultOf id) else none) := by
  induction messages generalizing groups with
  | nil => simp
  | cons msg rest ih =>
    rw [foldl_cons, ih, filed_noteResult, find?_cons]
    by_cases hid : issuers.get id = some idx
    · simp only [hid]
      cases hres : isResultOf id msg with
      | true => cases filed groups idx id <;> simp
      | false => simp
    · simp [hid]

/-- `toolsByAssistant` files the first result of an id under the first issuer
of the id. -/
theorem get_toolsByAssistant (messages : List Message) (idx : Nat) (id : JsString) :
    filed (toolsByAssistant messages) idx id =
      if messages.findIdx? (issues id) = some idx then messages.find? (isResultOf id)
      else none := by
  rw [toolsByAssistant, filed_foldl_noteResult, get_callIdToAssistant]
  simp [filed]

/-! ## The segments of the regrouped list -/

/-- A message that starts a segment: every message but a tool message. -/
def isHead (msg : Message) : Bool := msg.role != .tool

theorem isHead_eq_false_iff {msg : Message} : isHead msg = false ↔ msg.role = .tool := by
  simp [isHead]

/-- The tool message that the message at `idx` gets for one of its ids. -/
def answerOf (messages : List Message) (idx : Nat) (id : Option JsString) : Option Message :=
  (presentId id).bind fun id => filed (toolsByAssistant messages) idx id

variable {messages : List Message}

theorem answerOf_eq_some {idx : Nat} {id : Option JsString} {t : Message}
    (h : answerOf messages idx id = some t) : isResponse t = true ∧ t.toolCallId = id := by
  obtain ⟨x, hx, ht⟩ := Option.bind_eq_some_iff.mp h
  rw [get_toolsByAssistant] at ht
  split at ht
  · have hres := find?_some ht
    obtain ⟨rfl, hne⟩ := presentId_eq_some_iff.mp hx
    rw [isResultOf, Bool.and_eq_true, decide_eq_true_eq, decide_eq_true_eq] at hres
    have hid : t.toolCallId = some x := by
      cases hcall : t.toolCallId with
      | none =>
        rw [hcall] at hres
        exact absurd hres.2.symm hne
      | some y =>
        rw [hcall] at hres
        exact congrArg some hres.2
    refine ⟨?_, hid⟩
    rw [isResponse, hid, hx]
    simp [hres.1]
  · exact absurd ht.symm (Option.some_ne_none _)

theorem groupOf_eq (messages : List Message) (idx : Nat) (msg : Message) :
    groupOf (toolsByAssistant messages) idx msg =
      ((callsOf msg).map ToolCall.id).filterMap (answerOf messages idx) := by
  rw [filterMap_map]
  rfl

def segmentOf (messages : List Message) (entry : Message × Nat) : Message × List Message :=
  (entry.1, groupOf (toolsByAssistant messages) entry.2 entry.1)

def segments (messages : List Message) : List (Message × List Message) :=
  (messages.zipIdx.filter (fun entry => isHead entry.1)).map (segmentOf messages)

theorem regroupToolMessages_eq_flatten (messages : List Message) :
    regroupToolMessages messages = Segments.flatten (segments messages) := by
  unfold regroupToolMessages segments
  induction messages.zipIdx with
  | nil => rfl
  | cons entry entries ih =>
    rw [flatMap_cons, ih, filter_cons]
    by_cases hrole : entry.1.role = .tool
    · have hhead : ¬ isHead entry.1 = true := by simp [isHead, hrole]
      rw [if_pos hrole, if_neg hhead, nil_append]
    · have hhead : isHead entry.1 = true := by simp [isHead, hrole]
      rw [if_neg hrole, if_pos hhead, map_cons, Segments.flatten_cons]
      rfl

/-! ## The placeholders -/

/-- A segment with a placeholder for every call that it leaves unanswered. -/
def completed (s : Message × List Message) : Message × List Message :=
  (s.1, s.2 ++ missingResponses (callsOf s.1) s.2)

/-- What the second pass needs of a segment: its head is not a tool message,
its body is made of responses, and a head without calls has no body. -/
structure WellFormed (s : Message × List Message) : Prop where
  head : isHead s.1 = true
  body : ∀ t ∈ s.2, isResponse t = true
  bare : callsOf s.1 = [] → s.2 = []

theorem isHead_of_isResponse {t : Message} (h : isResponse t = true) : isHead t = false := by
  rw [isHead_eq_false_iff]
  rw [isResponse, Bool.and_eq_true, decide_eq_true_eq] at h
  exact h.1

variable {s : Message × List Message}

theorem wellFormed_of_mem_segments (hs : s ∈ segments messages) : WellFormed s := by
  obtain ⟨entry, hentry, rfl⟩ := mem_map.mp hs
  refine ⟨(mem_filter.mp hentry).2, ?_, ?_⟩
  · intro t ht
    rw [segmentOf, groupOf_eq, mem_filterMap] at ht
    obtain ⟨id, -, hid⟩ := ht
    exact (answerOf_eq_some hid).1
  · intro hcalls
    simp only [segmentOf] at hcalls ⊢
    rw [groupOf_eq, hcalls]
    rfl

theorem takeWhile_isResponse {body : List Message} (hbody : ∀ t ∈ body, isResponse t = true)
    {segs : List (Message × List Message)} (hsegs : ∀ s ∈ segs, WellFormed s) :
    (body ++ Segments.flatten segs).takeWhile isResponse = body ∧
      (body ++ Segments.flatten segs).dropWhile isResponse = Segments.flatten segs := by
  rw [takeWhile_append_of_pos hbody, dropWhile_append_of_pos hbody]
  cases segs with
  | nil => simp
  | cons s segs =>
    have hhead : isResponse s.1 = false := by
      by_contra hresp
      rw [Bool.not_eq_false] at hresp
      have := (hsegs s mem_cons_self).head
      rw [isHead_of_isResponse hresp] at this
      exact Bool.noConfusion this
    simp [hhead]

theorem fixMissingToolResponses_flatten {segs : List (Message × List Message)}
    (hsegs : ∀ s ∈ segs, WellFormed s) :
    fixMissingToolResponses (Segments.flatten segs) = Segments.flatten (segs.map completed) := by
  induction segs with
  | nil => simp [fixMissingToolResponses]
  | cons s segs ih =>
    have hs := hsegs s mem_cons_self
    have hrest : ∀ t ∈ segs, WellFormed t := fun t ht => hsegs t (mem_cons_of_mem _ ht)
    rw [Segments.flatten_cons, fixMissingToolResponses, map_cons, Segments.flatten_cons]
    by_cases hcalls : callsOf s.1 = []
    · have hbody := hs.bare hcalls
      simp only [hcalls, isEmpty_nil, if_true, completed, hbody, missingResponses, map_nil,
        filter_nil, nil_append]
      rw [ih hrest]
    · have hne : ¬ (callsOf s.1).isEmpty = true := by simpa using hcalls
      obtain ⟨htake, hdrop⟩ := takeWhile_isResponse hs.body hrest
      simp only [hne, htake, hdrop, completed, ih hrest, append_assoc]
      rfl

/-! ## The answers of one segment -/

theorem map_toolCallId_filterMap_answerOf (messages : List Message) (idx : Nat)
    (ids : List (Option JsString)) :
    (ids.filterMap (answerOf messages idx)).map Message.toolCallId =
      ids.filter (fun id => (answerOf messages idx id).isSome) := by
  induction ids with
  | nil => rfl
  | cons id ids ih =>
    cases h : answerOf messages idx id with
    | none => rw [filterMap_cons_none h, ih, filter_cons_of_neg (by simp [h])]
    | some t =>
      rw [filterMap_cons_some h, filter_cons_of_pos (by simp [h]), map_cons, ih,
        (answerOf_eq_some h).2]

theorem map_toolCallId_missingResponses (calls : List ToolCall) (responses : List Message) :
    (missingResponses calls responses).map Message.toolCallId = (calls.map ToolCall.id).filter
        (fun id => !(responses.map Message.toolCallId).contains id) := by
  rw [missingResponses, map_map]
  exact map_id _

/-- The tool messages of a completed segment answer its calls, each once. -/
theorem completed_perm (messages : List Message) (entry : Message × Nat) :
    ((completed (segmentOf messages entry)).2.map Message.toolCallId).Perm
      ((callsOf entry.1).map ToolCall.id) := by
  have hmissing : ((callsOf entry.1).map ToolCall.id).filter
        (fun id => !((groupOf (toolsByAssistant messages) entry.2 entry.1).map
          Message.toolCallId).contains id) =
      ((callsOf entry.1).map ToolCall.id).filter
        (fun id => !(answerOf messages entry.2 id).isSome) := by
    rw [groupOf_eq, map_toolCallId_filterMap_answerOf]
    apply filter_congr
    intro id hid
    congr 1
    rw [Bool.eq_iff_iff, contains_iff_mem, mem_filter]
    exact and_iff_right hid
  simp only [completed, segmentOf]
  rw [map_append, map_toolCallId_missingResponses, hmissing, groupOf_eq,
    map_toolCallId_filterMap_answerOf]
  exact filter_append_perm _ _

theorem isHead_placeholder (id : Option JsString) : isHead (placeholder id) = false := rfl

theorem completed_isHead (hs : WellFormed s) :
    isHead (completed s).1 = true ∧ ∀ t ∈ (completed s).2, isHead t = false := by
  refine ⟨hs.head, ?_⟩
  intro t ht
  rcases mem_append.mp ht with ht | ht
  · exact isHead_of_isResponse (hs.body t ht)
  · obtain ⟨id, -, rfl⟩ := mem_map.mp ht
    exact isHead_placeholder id

variable {entry : Message × Nat}

/-- An answer that was filed for a call is the only tool message of its
id. -/
theorem eq_answerOf {id : Option JsString} {answer t : Message}
    (hanswer : answerOf messages entry.2 id = some answer)
    (hcalls : id ∈ (callsOf entry.1).map ToolCall.id)
    (ht : t ∈ (completed (segmentOf messages entry)).2) (hid : t.toolCallId = id) : t = answer := by
  simp only [segmentOf, groupOf_eq] at ht
  rcases mem_append.mp ht with ht | ht
  · obtain ⟨id', -, hid'⟩ := mem_filterMap.mp ht
    rw [← (answerOf_eq_some hid').2, hid, hanswer] at hid'
    exact (Option.some.inj hid').symm
  · -- a placeholder would say that the id has no answer
    have hmem := mem_map_of_mem (f := Message.toolCallId) ht
    rw [map_toolCallId_missingResponses, mem_filter, map_toolCallId_filterMap_answerOf, hid] at hmem
    have hmem' := hmem.2
    simp [hcalls, hanswer] at hmem'

/-! ## The converted messages -/

/-- The blocks of a message; a string content has none. -/
def ClaudeMessage.blocks (msg : ClaudeMessage) : List Block :=
  match msg.content with
  | .blocks bs => bs
  | _ => []

def Block.toolUseId? : Block → Option (Option JsString)
  | .toolUse id _ _ => some id
  | _ => none

def Block.toolResult? : Block → Option (Option JsString × ResultContent)
  | .toolResult toolUseId content => some (toolUseId, content)
  | _ => none

/-- The ids of the `tool_use` blocks of a message. -/
def ClaudeMessage.toolUseIds (msg : ClaudeMessage) : List (Option JsString) :=
  msg.blocks.filterMap Block.toolUseId?

/-- The `tool_result` blocks of a message. -/
def ClaudeMessage.toolResults (msg : ClaudeMessage) : List (Option JsString × ResultContent) :=
  msg.blocks.filterMap Block.toolResult?

/-- The tool message of a `tool_result` block. -/
def toolMessage (codec : JsonCodec) (result : Option JsString × ResultContent) : Message :=
  { role := .tool, toolCallId := result.1, content := .str (resultContent codec result.2) }

/-- The loop over the blocks collects the calls and the results in their
order. -/
theorem foldl_collectBlock (codec : JsonCodec) (pcc : Bool) (bs : List Block) (acc : Collected) :
    (bs.foldl (collectBlock codec pcc) acc).toolCalls.map ToolCall.id =
        acc.toolCalls.map ToolCall.id ++ bs.filterMap Block.toolUseId? ∧
      (bs.foldl (collectBlock codec pcc) acc).toolResults =
        acc.toolResults ++ (bs.filterMap Block.toolResult?).map (toolMessage codec) := by
  induction bs generalizing acc with
  | nil => simp
  | cons b bs ih =>
    obtain ⟨hcalls, hresults⟩ := ih (collectBlock codec pcc acc b)
    rw [foldl_cons, hcalls, hresults]
    cases b <;>
      simp [collectBlock, Block.toolUseId?, Block.toolResult?, toolMessage, filterMap_cons]

theorem convertRole_ne_tool (role : Role) : convertRole role ≠ .tool := by
  cases role <;> simp [convertRole]

/-- The shapes of the chat messages of one Claude message: its results, or
one message with its calls, or one message without calls. -/
theorem emitCollected_cases (role : Role) (noBlocks : Bool) (acc : Collected) :
    (∃ tail : List Message, (∀ m ∈ tail, m.role = .user ∧ m.toolCalls = none) ∧
        emitCollected role noBlocks acc = acc.toolResults ++ tail) ∨
      (acc.toolResults = [] ∧ ∃ m : Message, emitCollected role noBlocks acc = [m] ∧
        (m.role = .assistant ∧ m.toolCalls = some acc.toolCalls ∨
          m.role = role ∧ m.toolCalls = none)) := by
  unfold emitCollected
  generalize (if role = .assistant then acc.reasoningContent else none) = reasoning
  by_cases hres : acc.toolResults = []
  · rw [hres]
    simp only [isEmpty_nil, Bool.not_true, Bool.false_eq_true, if_false, true_and]
    split
    · exact Or.inr ⟨_, rfl, Or.inl ⟨rfl, rfl⟩⟩
    · split
      · exact Or.inr ⟨_, rfl, Or.inr ⟨rfl, rfl⟩⟩
      · split
        · exact Or.inr ⟨_, rfl, Or.inr ⟨rfl, rfl⟩⟩
        · split
          · exact Or.inr ⟨_, rfl, Or.inr ⟨rfl, rfl⟩⟩
          · exact Or.inl ⟨[], by simp, rfl⟩
  · have hne : (!acc.toolResults.isEmpty) = true := by simpa using hres
    rw [if_pos hne]
    left
    split
    · exact ⟨[], by simp, (append_nil _).symm⟩
    · exact ⟨_, by simp, rfl⟩

variable {codec : JsonCodec}

/-- A converted message with calls has the ids of the `tool_use` blocks of its
Claude message. -/
theorem callsOf_convertClaudeMessage {pcc : Bool} {msg : ClaudeMessage} {out : Message}
    (hout : out ∈ convertClaudeMessage codec pcc msg) :
    callsOf out = [] ∨ (callsOf out).map ToolCall.id = msg.toolUseIds := by
  unfold convertClaudeMessage at hout
  unfold ClaudeMessage.toolUseIds ClaudeMessage.blocks
  cases hcontent : msg.content with
  | str s =>
    simp only [hcontent, mem_singleton] at hout
    subst hout
    exact Or.inl (by simp [callsOf])
  | other => simp [hcontent] at hout
  | blocks bs =>
    simp only [hcontent] at hout
    obtain ⟨hcalls, hresults⟩ := foldl_collectBlock codec pcc bs {}
    rcases emitCollected_cases (convertRole msg.role) bs.isEmpty
        (bs.foldl (collectBlock codec pcc) {}) with ⟨tail, htail, heq⟩ | ⟨-, m, heq, hm⟩
    · rw [heq] at hout
      left
      rcases mem_append.mp hout with hout | hout
      · rw [hresults, nil_append, mem_map] at hout
        obtain ⟨result, -, rfl⟩ := hout
        rfl
      · simp [callsOf, htail out hout]
    · rw [heq, mem_singleton] at hout
      subst hout
      rcases hm with ⟨hrole, htc⟩ | ⟨-, htc⟩
      · right
        rw [callsOf, if_pos hrole, htc]
        exact hcalls
      · left
        simp [callsOf, htc]

/-- The tool messages of a converted message are its `tool_result` blocks. -/
theorem filter_convertClaudeMessage (codec : JsonCodec) (pcc : Bool) (msg : ClaudeMessage) :
    (convertClaudeMessage codec pcc msg).filter (fun m => !isHead m) =
      msg.toolResults.map (toolMessage codec) := by
  have hrole := convertRole_ne_tool msg.role
  unfold convertClaudeMessage ClaudeMessage.toolResults ClaudeMessage.blocks
  cases hcontent : msg.content with
  | str s => simp [isHead, hrole]
  | other => rfl
  | blocks bs =>
    obtain ⟨-, hresults⟩ := foldl_collectBlock codec pcc bs {}
    rw [nil_append] at hresults
    dsimp only
    rw [← hresults]
    rcases emitCollected_cases (convertRole msg.role) bs.isEmpty
        (bs.foldl (collectBlock codec pcc) {}) with ⟨tail, htail, heq⟩ | ⟨hnil, m, heq, hm⟩
    · have htool : tail.filter (fun m => !isHead m) = [] := by
        rw [filter_eq_nil_iff]
        intro m hm
        simp [isHead, (htail m hm).1]
      rw [heq, filter_append, htool, append_nil, filter_eq_self]
      intro t ht
      rw [hresults, mem_map] at ht
      obtain ⟨result, -, rfl⟩ := ht
      rfl
    · have hm' : m.role ≠ .tool := by
        rcases hm with ⟨hassistant, -⟩ | ⟨hconv, -⟩
        · simp [hassistant]
        · rw [hconv]
          exact hrole
      rw [heq, hnil]
      simp [isHead, hm']

theorem demoteMidSystem_of_ne {out : Message} (h : out.role ≠ .system) (result : List Message) :
    demoteMidSystem result out = out := by
  rw [demoteMidSystem, if_neg (fun hsys => h hsys.1)]

theorem callsOf_demoteMidSystem (result : List Message) (out : Message) :
    callsOf (demoteMidSystem result out) = callsOf out := by
  by_cases h : out.role = .system
  · unfold demoteMidSystem
    split
    · simp [callsOf, h]
    · rfl
  · rw [demoteMidSystem_of_ne h]

theorem isHead_demoteMidSystem (result : List Message) (out : Message) :
    isHead (demoteMidSystem result out) = isHead out := by
  by_cases h : out.role = .system
  · unfold demoteMidSystem
    split
    · rw [isHead, isHead, h]
      rfl
    · rfl
  · rw [demoteMidSystem_of_ne h]

theorem filter_map_demoteMidSystem (result outs : List Message) :
    (outs.map (demoteMidSystem result)).filter (fun m => !isHead m) =
      outs.filter (fun m => !isHead m) := by
  induction outs with
  | nil => rfl
  | cons out outs ih =>
    rw [map_cons, filter_cons, filter_cons, isHead_demoteMidSystem, ih]
    split
    · rename_i hhead
      have hrole : out.role = .tool := by simpa [isHead] using hhead
      rw [demoteMidSystem_of_ne (by simp [hrole])]
    · rfl

/-- The messages that the body's system prompt makes. -/
def preamble (opts : Options) (body : Body) : List Message :=
  appendInstruction opts.systemAppend (systemMessages opts.preserveCacheControl body.system)

theorem role_systemMessages {pcc : Bool} {system : Option SystemPrompt} {msg : Message}
    (h : msg ∈ systemMessages pcc system) : msg.role = .system := by
  unfold systemMessages at h
  split at h
  · cases h
  · cases h
  · split at h
    · cases h
    · rw [mem_singleton] at h
      rw [h]

theorem role_preamble {opts : Options} {body : Body} {msg : Message}
    (h : msg ∈ preamble opts body) : msg.role = .system := by
  unfold preamble appendInstruction at h
  split at h
  · exact role_systemMessages h
  · split at h
    · obtain ⟨i, hi, rfl⟩ := getElem_of_mem h
      rw [length_modify] at hi
      have hrole := role_systemMessages (getElem_mem hi)
      rw [getElem_modify]
      split <;> exact hrole
    · rcases mem_cons.mp h with rfl | h
      · rfl
      · exact role_systemMessages h

theorem callsOf_foldl_pushConverted {pcc : Bool} {msgs : List ClaudeMessage} {result : List Message}
    {out : Message} (hout : out ∈ msgs.foldl (pushConverted codec pcc) result) :
    out ∈ result ∨ callsOf out = [] ∨
      ∃ msg ∈ msgs, (callsOf out).map ToolCall.id = msg.toolUseIds := by
  induction msgs generalizing result with
  | nil => exact Or.inl hout
  | cons msg msgs ih =>
    rcases ih hout with hmem | hnil | ⟨msg', hmsg', hids⟩
    · rcases mem_append.mp hmem with hmem | hmem
      · exact Or.inl hmem
      · obtain ⟨m, hm, rfl⟩ := mem_map.mp hmem
        rw [callsOf_demoteMidSystem]
        rcases callsOf_convertClaudeMessage hm with hnil | hids
        · exact Or.inr (Or.inl hnil)
        · exact Or.inr (Or.inr ⟨msg, mem_cons_self, hids⟩)
    · exact Or.inr (Or.inl hnil)
    · exact Or.inr (Or.inr ⟨msg', mem_cons_of_mem _ hmsg', hids⟩)

theorem filter_foldl_pushConverted (codec : JsonCodec) (pcc : Bool)
    (msgs : List ClaudeMessage) (result : List Message) :
    (msgs.foldl (pushConverted codec pcc) result).filter (fun m => !isHead m) =
      result.filter (fun m => !isHead m) ++
        (msgs.flatMap ClaudeMessage.toolResults).map (toolMessage codec) := by
  induction msgs generalizing result with
  | nil => simp
  | cons msg msgs ih =>
    rw [foldl_cons, ih, pushConverted, filter_append, filter_map_demoteMidSystem,
      filter_convertClaudeMessage, flatMap_cons, map_append, append_assoc]

/-- The `tool_result` blocks of a body, in their order. -/
def Body.toolResults (body : Body) : List (Option JsString × ResultContent) :=
  (body.messages.getD []).flatMap ClaudeMessage.toolResults

theorem filter_convertedMessages (codec : JsonCodec) (opts : Options) (body : Body) :
    (convertedMessages codec opts body).filter (fun m => !isHead m) =
      body.toolResults.map (toolMessage codec) := by
  have hpre : (preamble opts body).filter (fun m => !isHead m) = [] := by
    rw [filter_eq_nil_iff]
    intro m hm
    simp [isHead, role_preamble hm]
  unfold convertedMessages
  rw [filter_foldl_pushConverted]
  unfold preamble at hpre
  rw [hpre, nil_append]
  rfl

/-- The first `tool_result` of a body with an id. -/
def Body.firstToolResult (body : Body) (id : JsString) : Option ResultContent :=
  (body.toolResults.find? (fun result => result.1 = some id)).map Prod.snd

theorem find?_isResultOf (codec : JsonCodec) (opts : Options) (body : Body) {id : JsString}
    (hid : id ≠ []) :
    (convertedMessages codec opts body).find? (isResultOf id) =
      (body.toolResults.find? (fun result => result.1 = some id)).map (toolMessage codec) := by
  have hfilter : ∀ ms : List Message,
      ms.find? (isResultOf id) = (ms.filter (fun m => !isHead m)).find? (isResultOf id) := by
    intro ms
    rw [find?_filter]
    apply find?_congr
    intro m _
    rw [isResultOf]
    cases hhead : isHead m with
    | false => simp
    | true =>
      have : m.role ≠ .tool := by simpa [isHead] using hhead
      simp [this]
  rw [hfilter, filter_convertedMessages, find?_map]
  congr 1
  apply find?_congr
  intro result _
  cases hres : result.1 with
  | none => simp [toolMessage, isResultOf, hres, hid.symm]
  | some x => simp [toolMessage, isResultOf, hres]

/-! ## The normal form -/

variable (enabled : Bool)

/-- The segment of the user turn that `ensureUserTurn` adds. -/
def userTurnSegment (messages : List Message) : List (Message × List Message) :=
  if enabled && !messages.any (fun m => m.role = .user) then
    [({ role := .user, content := .str (js "(continue)") }, [])]
  else []

theorem ensureUserTurn_flatten (segs : List (Message × List Message)) :
    ensureUserTurn enabled (Segments.flatten segs) =
      Segments.flatten (segs ++ userTurnSegment enabled (Segments.flatten segs)) := by
  unfold ensureUserTurn userTurnSegment
  split
  · simp [Segments.flatten]
  · rw [append_nil]

/-- The entries of the messages that start a segment. -/
def heads (messages : List Message) : List (Message × Nat) :=
  messages.zipIdx.filter (fun entry => isHead entry.1)

/-- The segments of the converted messages, with their placeholders. -/
def completedSegments (messages : List Message) : List (Message × List Message) :=
  (heads messages).map (fun entry => completed (segmentOf messages entry))

def requestSegments (messages : List Message) : List (Message × List Message) :=
  completedSegments messages ++
    userTurnSegment enabled (Segments.flatten (completedSegments messages))

theorem claudeToOpenAIRequest_eq_flatten (codec : JsonCodec) (opts : Options) (body : Body) :
    claudeToOpenAIRequest codec opts body =
      Segments.flatten
        (requestSegments opts.ensureUserTurn (convertedMessages codec opts body)) := by
  rw [claudeToOpenAIRequest, regroupToolMessages_eq_flatten,
    fixMissingToolResponses_flatten (fun s hs => wellFormed_of_mem_segments hs),
    ensureUserTurn_flatten, segments, map_map]
  rfl

theorem cutBy_completedSegments (messages : List Message) :
    Segments.CutBy isHead (completedSegments messages) := by
  intro s hs
  obtain ⟨entry, hentry, rfl⟩ := mem_map.mp hs
  exact completed_isHead (wellFormed_of_mem_segments (mem_map_of_mem hentry))

theorem mem_userTurnSegment {enabled : Bool} (hs : s ∈ userTurnSegment enabled messages) :
    s = ({ role := .user, content := .str (js "(continue)") }, []) := by
  unfold userTurnSegment at hs
  split at hs
  · exact mem_singleton.mp hs
  · cases hs

theorem cutBy_requestSegments (messages : List Message) :
    Segments.CutBy isHead (requestSegments enabled messages) := by
  intro s hs
  rcases mem_append.mp hs with hs | hs
  · exact cutBy_completedSegments messages s hs
  · rw [mem_userTurnSegment hs]
    exact ⟨rfl, by simp⟩

theorem map_fst_heads (messages : List Message) :
    (heads messages).map Prod.fst = messages.filter isHead := by
  have hfilter : heads messages = messages.zipIdx.filter (isHead ∘ Prod.fst) := rfl
  rw [hfilter, ← filter_map, zipIdx_map_fst]

theorem exists_entry {enabled : Bool} {before after : List (Message × List Message)}
    (h : requestSegments enabled messages = before ++ s :: after) (hcalls : callsOf s.1 ≠ []) :
    ∃ es entry es', heads messages = es ++ entry :: es' ∧
      before = es.map (fun entry => completed (segmentOf messages entry)) ∧
      s = completed (segmentOf messages entry) := by
  rcases append_eq_append_iff.mp h with ⟨l, -, hl⟩ | ⟨l, hl, hrest⟩
  · -- the user turn has no calls
    have hs : s ∈ userTurnSegment enabled (Segments.flatten (completedSegments messages)) := by
      rw [hl]
      simp
    rw [mem_userTurnSegment hs] at hcalls
    exact absurd rfl hcalls
  · cases l with
    | nil =>
      rw [nil_append] at hrest
      have hs : s ∈ userTurnSegment enabled (Segments.flatten (completedSegments messages)) := by
        rw [← hrest]
        exact mem_cons_self
      rw [mem_userTurnSegment hs] at hcalls
      exact absurd rfl hcalls
    | cons x l =>
      obtain ⟨rfl, -⟩ := List.cons.inj hrest
      rw [completedSegments, map_eq_append_iff] at hl
      obtain ⟨es, tail, hheads, rfl, htail⟩ := hl
      obtain ⟨entry, es', rfl, rfl, -⟩ := map_eq_cons_iff.mp htail
      exact ⟨es, entry, es', hheads, rfl, rfl⟩

variable {es es' : List (Message × Nat)}

theorem heads_eq_append (h : heads messages = es ++ entry :: es') :
    ∃ ms ms', messages = ms ++ entry.1 :: ms' ∧ entry.2 = ms.length ∧
      ms.filter isHead = es.map Prod.fst := by
  obtain ⟨l, l', hl, hes, hrest⟩ := filter_eq_append_iff.mp h
  obtain ⟨skip, l'', rfl, hskip, hentry, -⟩ := filter_eq_cons_iff.mp hrest
  rw [← append_assoc] at hl
  obtain ⟨ms, rest, rfl, hms, hzip⟩ := zipIdx_eq_append_iff.mp hl
  obtain ⟨msg, ms', rfl, hmsg, -⟩ := zipIdx_eq_cons_iff.mp hzip.symm
  refine ⟨ms, ms', ?_, ?_, ?_⟩
  · rw [hmsg]
  · rw [hmsg]
    exact Nat.zero_add _
  · have hzero : skip.filter (fun entry => isHead entry.1) = [] := by
      rw [filter_eq_nil_iff]
      exact hskip
    rw [← map_fst_heads, heads, ← hms, filter_append, hes, hzero, append_nil]

/-! ## The contract -/

def toolRun (post : List Message) : List Message := post.takeWhile (fun m => m.role = .tool)

theorem toolRun_eq (post : List Message) : toolRun post = post.takeWhile (fun m => !isHead m) := by
  rw [toolRun]
  congr 1
  funext m
  rw [isHead, bne, Bool.not_not]
  rfl

/-- Every tool call is answered in place. -/
structure AnsweredInPlace (codec : JsonCodec) (opts : Options) (body : Body)
    (out : List Message) : Prop where
  /-- A call has exactly one tool message in the run after its message. -/
  answered : ∀ pre a post, out = pre ++ a :: post → ∀ tc ∈ callsOf a,
    (toolRun post).countP (fun t => t.toolCallId = tc.id) = 1
  /-- The run after a message with calls answers nothing else. -/
  no_other : ∀ pre a post, out = pre ++ a :: post → callsOf a ≠ [] →
    ∀ t ∈ toolRun post, ∃ tc ∈ callsOf a, t.toolCallId = tc.id
  /-- A tool message stands in the run after a message with calls. -/
  nowhere_else : ∀ pre t post, out = pre ++ t :: post → t.role = .tool →
    ∃ before a run, pre = before ++ a :: run ∧ callsOf a ≠ [] ∧ ∀ m ∈ run, m.role = .tool
  /-- The first issuer of an id gets the first result of the id. -/
  first_result : ∀ pre a post, out = pre ++ a :: post → ∀ tc ∈ callsOf a, ∀ id,
    tc.id = some id → (∀ m ∈ pre, issues id m = false) →
    ∀ content, body.firstToolResult id = some content →
    ∀ t ∈ toolRun post, t.toolCallId = some id → t.content = .str (resultContent codec content)
  /-- The other messages keep their order. -/
  order : out.filter isHead =
    ensureUserTurn opts.ensureUserTurn ((convertedMessages codec opts body).filter isHead)

/-- The `tool_use` ids of every message are non-empty strings and differ. -/
def Body.IdsUnique (body : Body) : Prop :=
  ∀ msg ∈ body.messages.getD [],
    (∀ id ∈ msg.toolUseIds, (presentId id).isSome = true) ∧ msg.toolUseIds.Nodup

variable {opts : Options} {body : Body}

theorem idsUnique_callsOf (h : body.IdsUnique) {m : Message}
    (hm : m ∈ convertedMessages codec opts body) :
    (∀ id ∈ (callsOf m).map ToolCall.id, (presentId id).isSome = true) ∧
      ((callsOf m).map ToolCall.id).Nodup := by
  rcases callsOf_foldl_pushConverted hm with hpre | hnil | ⟨msg, hmsg, hids⟩
  · have hrole : m.role = .system := @role_preamble opts body m hpre
    simp [callsOf, hrole]
  · simp [hnil]
  · rw [hids]
    exact h msg hmsg

theorem entry_mem (h : heads messages = es ++ entry :: es') : entry.1 ∈ messages := by
  obtain ⟨ms, ms', hms, -⟩ := heads_eq_append h
  rw [hms]
  simp

/-- A message of the request with calls, and the completed segment that it
heads. -/
theorem exists_entry_of_callsOf {pre post : List Message} {a : Message}
    (hout : claudeToOpenAIRequest codec opts body = pre ++ a :: post) (hcalls : callsOf a ≠ []) :
    ∃ es entry es', heads (convertedMessages codec opts body) = es ++ entry :: es' ∧
      entry.1 = a ∧ pre = Segments.flatten (es.map (fun entry =>
        completed (segmentOf (convertedMessages codec opts body) entry))) ∧
      toolRun post = (completed (segmentOf (convertedMessages codec opts body) entry)).2 := by
  have hcut := cutBy_requestSegments opts.ensureUserTurn (convertedMessages codec opts body)
  have ha : isHead a = true := by
    by_contra hhead
    rw [Bool.not_eq_true, isHead_eq_false_iff] at hhead
    exact hcalls (by simp [callsOf, hhead])
  rw [claudeToOpenAIRequest_eq_flatten] at hout
  obtain ⟨before, run, after, hsegs, rfl, rfl⟩ := Segments.exists_of_flatten_eq_head hcut hout ha
  obtain ⟨es, entry, es', hheads, rfl, hs⟩ := exists_entry hsegs hcalls
  have hrun : toolRun (run ++ Segments.flatten after) = run := by
    rw [toolRun_eq]
    rw [hsegs] at hcut
    exact Segments.takeWhile_body (hcut (a, run) (by simp)).2 (fun s hs => hcut s (by simp [hs]))
  refine ⟨es, entry, es', hheads, ?_, rfl, ?_⟩
  · exact (congrArg Prod.fst hs).symm
  · rw [hrun]
    exact congrArg Prod.snd hs

/-- The run after a message with calls has one tool message for each of its
calls. -/
theorem toolRun_perm {pre post : List Message} {a : Message}
    (hout : claudeToOpenAIRequest codec opts body = pre ++ a :: post) (hcalls : callsOf a ≠ []) :
    ((toolRun post).map Message.toolCallId).Perm ((callsOf a).map ToolCall.id) := by
  obtain ⟨es, entry, es', -, rfl, -, hrun⟩ := exists_entry_of_callsOf hout hcalls
  rw [hrun]
  exact completed_perm _ entry

theorem filter_isHead_request (codec : JsonCodec) (opts : Options) (body : Body) :
    (claudeToOpenAIRequest codec opts body).filter isHead =
      ensureUserTurn opts.ensureUserTurn ((convertedMessages codec opts body).filter isHead) := by
  have hfst : (completedSegments (convertedMessages codec opts body)).map Prod.fst =
      (convertedMessages codec opts body).filter isHead := by
    rw [← map_fst_heads, completedSegments, map_map]
    rfl
  have hany : (Segments.flatten (completedSegments (convertedMessages codec opts body))).any
        (fun m => m.role = .user) =
      ((convertedMessages codec opts body).filter isHead).any (fun m => m.role = .user) := by
    rw [← hfst, ← Segments.filter_flatten (cutBy_completedSegments _), any_filter]
    congr 1
    funext m
    cases hhead : isHead m with
    | true => simp
    | false => simp [isHead_eq_false_iff.mp hhead]
  rw [claudeToOpenAIRequest_eq_flatten, Segments.filter_flatten (cutBy_requestSegments _ _),
    requestSegments, map_append, hfst, userTurnSegment, ensureUserTurn, hany]
  split
  · rfl
  · rw [map_nil, append_nil]

theorem answerOf_firstIssuer {id : JsString}
    (hheads : heads (convertedMessages codec opts body) = es ++ entry :: es')
    (hissues : issues id entry.1 = true) (hid : id ≠ []) (hfirst : ∀ e ∈ es, issues id e.1 = false)
    {content : ResultContent} (hcontent : body.firstToolResult id = some content) :
    ∃ t, answerOf (convertedMessages codec opts body) entry.2 (some id) = some t ∧
      t.content = .str (resultContent codec content) := by
  obtain ⟨ms, ms', hms, hlen, hfilter⟩ := heads_eq_append hheads
  have hnone : ms.findIdx? (issues id) = none := by
    rw [findIdx?_eq_none_iff]
    intro m hm
    cases hhead : isHead m with
    | false => simp [issues, callsOf, isHead_eq_false_iff.mp hhead]
    | true =>
      have hmem : m ∈ es.map Prod.fst := by
        rw [← hfilter]
        exact mem_filter.mpr ⟨hm, hhead⟩
      obtain ⟨e, he, rfl⟩ := mem_map.mp hmem
      exact hfirst e he
  have hidx : (convertedMessages codec opts body).findIdx? (issues id) = some entry.2 := by
    rw [hms, findIdx?_append, hnone, findIdx?_cons, if_pos hissues, hlen]
    simp
  obtain ⟨result, hresult, rfl⟩ := Option.map_eq_some_iff.mp hcontent
  refine ⟨toolMessage codec result, ?_, rfl⟩
  rw [answerOf, presentId_eq_some_iff.mpr ⟨rfl, hid⟩, Option.bind_some, get_toolsByAssistant,
    if_pos hidx, find?_isResultOf codec opts body hid, hresult]
  rfl

/-- Every tool call of the request is answered in place. -/
theorem answeredInPlace (codec : JsonCodec) (opts : Options) (body : Body) (hids : body.IdsUnique) :
    AnsweredInPlace codec opts body (claudeToOpenAIRequest codec opts body) where
  answered := by
    intro pre a post hout tc htc
    have hcalls : callsOf a ≠ [] := ne_nil_of_mem htc
    obtain ⟨es, entry, es', hheads, rfl, -, -⟩ := exists_entry_of_callsOf hout hcalls
    have hnodup := (idsUnique_callsOf hids (entry_mem hheads)).2
    have hcount : ((toolRun post).map Message.toolCallId).count tc.id = 1 := by
      rw [(toolRun_perm hout hcalls).count_eq]
      exact count_eq_one_of_mem hnodup (mem_map_of_mem htc)
    rw [List.count, countP_map] at hcount
    rw [← hcount]
    apply countP_congr
    intro t _
    simp
  no_other := by
    intro pre a post hout hcalls t ht
    have hmem := (toolRun_perm hout hcalls).subset (mem_map_of_mem ht)
    obtain ⟨tc, htc, heq⟩ := mem_map.mp hmem
    exact ⟨tc, htc, heq.symm⟩
  nowhere_else := by
    intro pre t post hout hrole
    have hcut := cutBy_requestSegments opts.ensureUserTurn (convertedMessages codec opts body)
    rw [claudeToOpenAIRequest_eq_flatten] at hout
    obtain ⟨before, s, after, earlier, later, hsegs, hs, rfl⟩ :=
      Segments.exists_of_flatten_eq_body hcut hout (isHead_eq_false_iff.mpr hrole)
    refine ⟨Segments.flatten before, s.1, earlier, rfl, ?_, ?_⟩
    · -- a segment without calls has an empty body
      intro hnil
      have hmem : s ∈ requestSegments opts.ensureUserTurn (convertedMessages codec opts body) := by
        rw [hsegs]
        simp
      rcases mem_append.mp hmem with hmem | hmem
      · obtain ⟨entry, -, rfl⟩ := mem_map.mp hmem
        have hperm := completed_perm (convertedMessages codec opts body) entry
        have hcalls : callsOf entry.1 = [] := hnil
        rw [hcalls, hs] at hperm
        simp at hperm
      · rw [mem_userTurnSegment hmem] at hs
        simp at hs
    · intro m hm
      rw [hsegs] at hcut
      exact isHead_eq_false_iff.mp ((hcut s (by simp)).2 m (by rw [hs]; simp [hm]))
  first_result := by
    intro pre a post hout tc htc id hid hfirst content hcontent t ht hcall
    have hcalls : callsOf a ≠ [] := ne_nil_of_mem htc
    obtain ⟨es, entry, es', hheads, rfl, hpre, hrun⟩ := exists_entry_of_callsOf hout hcalls
    have hmem : some id ∈ (callsOf entry.1).map ToolCall.id := by
      rw [← hid]
      exact mem_map_of_mem htc
    have hne : presentId (some id) = some id := by
      have hsome := (idsUnique_callsOf hids (entry_mem hheads)).1 _ hmem
      obtain ⟨x, hx, hx'⟩ := presentId_isSome_iff.mp hsome
      rw [Option.some.inj hx]
      exact presentId_eq_some_iff.mpr ⟨rfl, hx'⟩
    have hissues : issues id entry.1 = true := issues_iff.mpr ⟨tc, htc, by rw [hid, hne]⟩
    have hbefore : ∀ e ∈ es, issues id e.1 = false := by
      intro e he
      apply hfirst
      rw [hpre, Segments.flatten, mem_flatMap]
      exact ⟨_, mem_map_of_mem he, mem_cons_self⟩
    obtain ⟨answer, hanswer, hans⟩ := answerOf_firstIssuer hheads hissues
      (presentId_eq_some_iff.mp hne).2 hbefore hcontent
    rw [hrun] at ht
    rw [eq_answerOf hanswer hmem ht hcall]
    exact hans
  order := filter_isHead_request codec opts body

/-- Two calls, answered in the other order over two turns, one of them
twice, and an id that is issued again. -/
def scattered : Body where
  system := some (.str (js "Be brief."))
  messages := some [⟨.user, .str (js "Go")⟩,
     ⟨.assistant, .blocks [.toolUse (some (js "a")) (js "ls") (some (.obj [])),
       .toolUse (some (js "b")) (js "ls") (some (.obj []))]⟩,
     ⟨.user, .blocks [.toolResult (some (js "b")) (.str (js "B")), .text (js "and") none]⟩,
     ⟨.user, .blocks [.toolResult (some (js "a")) (.str (js "A")),
       .toolResult (some (js "a")) (.str (js "late")),
       .toolResult (some (js "z")) (.str (js "orphan"))]⟩,
     ⟨.assistant, .blocks [.toolUse (some (js "a")) (js "ls") (some (.obj []))]⟩]

/-- `JSON.stringify` on the inputs of `scattered`, which are all `{}`. -/
def emptyObjectCodec : JsonCodec where
  parse := fun text => if text.isEmpty then none else some (.obj [])
  stringify := fun _ => js "\x7b\x7d"
  parse_nil := rfl

theorem answeredInPlace_scattered : scattered.IdsUnique ∧
      AnsweredInPlace emptyObjectCodec ⟨false, true, []⟩ scattered
        (claudeToOpenAIRequest emptyObjectCodec ⟨false, true, []⟩ scattered) := by
  have hids : scattered.IdsUnique := by
    unfold Body.IdsUnique
    decide
  exact ⟨hids, answeredInPlace emptyObjectCodec ⟨false, true, []⟩ scattered hids⟩

end RedRouter.Request.ClaudeToOpenai
