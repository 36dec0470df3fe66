import Mathlib.Data.List.Count
import Mathlib.Data.List.Nodup
import RedRouter.Chat.Message

/-!
# The tool-result repair of the request pipeline

The model of `getToolCallIds`, `hasToolResults`, `fixMissingToolResponses`
and `stripOrphanedToolResults` of `translator/helpers/toolCallHelper.ts`.
`translateRequest` applies the last two, in this order, once before and once
after the format translation.  `repair` is one application of the pair.

`fixMissingToolResponses` looks at one message only: the one after the
assistant message.  If that message answers one of the calls, nothing is
inserted.  If it answers none, an empty result is inserted for every call, and
a result that the client supplied further down stays as a second one.

`Repaired` is the contract of the pair, for lists in OpenAI format, and
`RepairSafe` the condition under which the pair meets it (`repaired_iff`).
-/

namespace RedRouter.Request.ToolCallHelper

open Chat

/-! ## The source functions -/

/-- The `tool_use` id of a content block, when it is truthy. -/
def toolUseId : Part → Option JsString
  | .toolUse id _ => presentId id
  | _ => none

/-- The ids of the `tool_use` blocks of a content. -/
def contentCallIds : Content → List JsString
  | .parts ps => ps.filterMap toolUseId
  | _ => []

/-- The truthy ids of the `tool_calls` of a message. -/
def toolCallsIds (msg : Message) : List JsString :=
  (msg.toolCalls.getD []).filterMap (fun tc => presentId tc.id)

/-- The ids that an assistant message issues, in both formats. -/
def getToolCallIds (msg : Message) : List JsString :=
  if msg.role = .assistant then toolCallsIds msg ++ contentCallIds msg.content else []

/-- Whether a block is a `tool_result` for one of the ids. -/
def blockAnswers (toolCallIds : List JsString) : Part → Bool
  | .toolResult toolUseId _ =>
      match presentId toolUseId with
      | some id => toolCallIds.contains id
      | none => false
  | _ => false

/-- Whether a message answers one of the ids.  A `role: "tool"` message with a
`tool_call_id` is only asked for that id. -/
def hasToolResults (msg : Message) (toolCallIds : List JsString) : Bool :=
  if toolCallIds.isEmpty then false
  else
    match msg.role, presentId msg.toolCallId, msg.content with
    | .tool, some id, _ => toolCallIds.contains id
    | .user, _, .parts ps => ps.any (blockAnswers toolCallIds)
    | _, _, _ => false

/-- The `role: "tool"` message that stands in for a missing result. -/
def emptyToolMessage (id : JsString) : Message :=
  { role := .tool, toolCallId := some id, content := .str [] }

/-- What `fixMissingToolResponses` inserts after `msg`, whose ids are
`toolCallIds`: nothing before the end of the list or before a message that
answers one of the ids. -/
def insertedResponses (msg : Message) (next : Option Message) : List Message :=
  let toolCallIds := getToolCallIds msg
  match next with
  | none => []
  | some nextMsg =>
      if toolCallIds.isEmpty || hasToolResults nextMsg toolCallIds then []
      else if (msg.toolCalls.getD []).isEmpty then
        [{ role := .user,
           content := .parts (toolCallIds.map (fun id => .toolResult (some id) (.str []))) }]
      else toolCallIds.map emptyToolMessage

/-- Insert an empty result after an assistant message whose next message
answers none of its calls. -/
def fixMissingToolResponses : List Message → List Message
  | [] => []
  | msg :: rest =>
      msg :: (insertedResponses msg rest.head? ++ fixMissingToolResponses rest)

variable (knownCallIds : List JsString)

/-- Whether a content block stays.  Only a `tool_result` of an unknown id
goes. -/
def keepBlock : Part → Bool
  | .toolResult (some id) _ => knownCallIds.contains id
  | .toolResult none _ => false
  | _ => true

/-- The content rule for a message that is not a `role: "tool"` message with
an id: unknown results are filtered out, and a content that loses all its
blocks takes the message with it. -/
def stripContent (msg : Message) : Option Message :=
  match msg.content with
  | .parts ps =>
      let cleaned := ps.filter (keepBlock knownCallIds)
      if cleaned.length = ps.length then some msg
      else if cleaned.isEmpty then none
      else some { msg with content := .parts cleaned }
  | _ => some msg

def stripMessage (msg : Message) : Option Message :=
  match msg.role, presentId msg.toolCallId with
  | .tool, some id => if knownCallIds.contains id then some msg else none
  | _, _ => stripContent knownCallIds msg

/-- Drop every result whose id no message of the list issues. -/
def stripOrphanedToolResults (messages : List Message) : List Message :=
  messages.filterMap (stripMessage (messages.flatMap getToolCallIds))

/-- The two steps of `translateRequest`, in its order. -/
def repair (messages : List Message) : List Message :=
  stripOrphanedToolResults (fixMissingToolResponses messages)

open List Chat

/-! ## Lists in OpenAI format -/

/-- A content part that is neither a call nor a result. -/
def PlainPart : Part → Prop
  | .toolUse _ _ => False
  | .toolResult _ _ => False
  | _ => True

/-- A message whose calls and results are in OpenAI format. -/
def PlainMessage (msg : Message) : Prop :=
  ∀ ps, msg.content = .parts ps → ∀ p ∈ ps, PlainPart p

/-- An OpenAI-format list whose call ids are not empty and do not repeat. -/
structure Admissible (messages : List Message) : Prop where
  plain : ∀ msg ∈ messages, PlainMessage msg
  ids_present : ∀ msg ∈ messages, ∀ tc ∈ msg.toolCalls.getD [], (presentId tc.id).isSome = true
  ids_nodup : (messages.flatMap getToolCallIds).Nodup

/-- Whether a message is a `role: "tool"` message for the id. -/
def isResultOf (id : JsString) (msg : Message) : Bool :=
  msg.role = .tool && presentId msg.toolCallId = some id

/-- The `role: "tool"` messages of a list for the id. -/
def results (id : JsString) (messages : List Message) : List Message :=
  messages.filter (isResultOf id)

theorem results_append (id : JsString) (xs ys : List Message) :
    results id (xs ++ ys) = results id xs ++ results id ys :=
  filter_append ..

variable {id : JsString} {msg : Message}

theorem isResultOf_iff : isResultOf id msg = true ↔
      msg.role = .tool ∧ presentId msg.toolCallId = some id := by
  simp [isResultOf]

theorem contentCallIds_of_plain (h : PlainMessage msg) : contentCallIds msg.content = [] := by
  unfold contentCallIds
  split
  · rename_i ps hps
    rw [filterMap_eq_nil_iff]
    intro p hp
    have hplain := h ps hps p hp
    cases p with
    | toolUse => exact absurd hplain id
    | _ => rfl
  · rfl

theorem getToolCallIds_of_plain (h : PlainMessage msg) :
    getToolCallIds msg = if msg.role = .assistant then toolCallsIds msg else [] := by
  rw [getToolCallIds, contentCallIds_of_plain h, append_nil]

theorem role_of_mem_getToolCallIds (h : id ∈ getToolCallIds msg) : msg.role = .assistant := by
  by_contra hrole
  rw [getToolCallIds, if_neg hrole] at h
  exact absurd h not_mem_nil

theorem hasToolResults_iff_of_plain (h : PlainMessage msg) (ids : List JsString) :
    hasToolResults msg ids = true ↔ ∃ id ∈ ids, isResultOf id msg = true := by
  unfold hasToolResults
  split
  · rename_i hempty
    rw [List.isEmpty_iff] at hempty
    simp [hempty]
  · split
    · rename_i id hrole hid
      rw [contains_iff_mem]
      constructor
      · intro hmem
        exact ⟨id, hmem, isResultOf_iff.mpr ⟨hrole, hid⟩⟩
      · rintro ⟨id', hmem, hres⟩
        have hid' := (isResultOf_iff.mp hres).2
        rw [hid, Option.some.injEq] at hid'
        exact hid' ▸ hmem
    · rename_i ps hrole hps
      refine iff_of_false ?_ ?_
      · rw [any_eq_true]
        rintro ⟨p, hp, hans⟩
        have hplain := h ps hps p hp
        cases p with
        | toolResult => exact hplain
        | _ => exact absurd hans Bool.false_ne_true
      · rintro ⟨id, _, hres⟩
        have := (isResultOf_iff.mp hres).1
        rw [hrole] at this
        exact Role.noConfusion this
    · rename_i hne _
      refine iff_of_false Bool.false_ne_true ?_
      rintro ⟨id, _, hres⟩
      obtain ⟨hrole, hid⟩ := isResultOf_iff.mp hres
      exact hne id hrole hid

/-! ## The insertion step -/

theorem plainMessage_emptyToolMessage (id : JsString) : PlainMessage (emptyToolMessage id) := by
  intro ps hps
  exact Content.noConfusion hps

variable {next : Message}

/-- The inserted messages of an OpenAI-format list, when there are any. -/
theorem insertedResponses_of_plain (h : PlainMessage msg) : insertedResponses msg (some next) =
      if hasToolResults next (getToolCallIds msg) then []
      else (getToolCallIds msg).map emptyToolMessage := by
  simp only [insertedResponses]
  cases hids : getToolCallIds msg with
  | nil => simp
  | cons id ids =>
    have hcalls : (msg.toolCalls.getD []).isEmpty = false := by
      rw [getToolCallIds_of_plain h] at hids
      split at hids
      · cases hcs : msg.toolCalls.getD [] with
        | nil => simp [toolCallsIds, hcs] at hids
        | cons => rfl
      · exact absurd hids.symm (cons_ne_nil _ _)
    simp [hcalls]

theorem getToolCallIds_insertedResponses (next : Option Message) {m : Message}
    (hm : m ∈ insertedResponses msg next) : getToolCallIds m = [] := by
  cases next with
  | none => exact absurd hm not_mem_nil
  | some next =>
    simp only [insertedResponses] at hm
    split_ifs at hm
    · exact absurd hm not_mem_nil
    · rw [mem_singleton] at hm
      rw [hm]
      rfl
    · obtain ⟨id, _, rfl⟩ := mem_map.mp hm
      rfl

theorem plain_insertedResponses (h : PlainMessage msg) (next : Option Message) :
    ∀ m ∈ insertedResponses msg next, PlainMessage m := by
  intro m hm
  cases next with
  | none => exact absurd hm not_mem_nil
  | some next =>
    rw [insertedResponses_of_plain h] at hm
    split at hm
    · exact absurd hm not_mem_nil
    · obtain ⟨id, _, rfl⟩ := mem_map.mp hm
      exact plainMessage_emptyToolMessage id

variable {messages : List Message}

theorem plain_fixMissingToolResponses (h : ∀ msg ∈ messages, PlainMessage msg) :
    ∀ msg ∈ fixMissingToolResponses messages, PlainMessage msg := by
  induction messages with
  | nil => simp [fixMissingToolResponses]
  | cons msg rest ih =>
    intro m hm
    rw [fixMissingToolResponses, mem_cons, mem_append] at hm
    rcases hm with rfl | hm | hm
    · exact h _ mem_cons_self
    · exact plain_insertedResponses (h msg mem_cons_self) _ m hm
    · exact ih (fun x hx => h x (mem_cons_of_mem _ hx)) m hm

theorem flatMap_ids_fixMissingToolResponses (messages : List Message) :
    (fixMissingToolResponses messages).flatMap getToolCallIds =
      messages.flatMap getToolCallIds := by
  induction messages with
  | nil => rfl
  | cons msg rest ih =>
    have hins : (insertedResponses msg rest.head?).flatMap getToolCallIds = [] := by
      rw [flatMap_eq_nil_iff]
      exact fun m hm => getToolCallIds_insertedResponses _ hm
    rw [fixMissingToolResponses, flatMap_cons, flatMap_append, hins, ih]
    rfl

theorem presentId_of_mem_getToolCallIds (h : id ∈ getToolCallIds msg) :
    presentId (some id) = some id := by
  unfold getToolCallIds at h
  split at h
  · rcases mem_append.mp h with h | h
    · obtain ⟨tc, _, htc⟩ := mem_filterMap.mp h
      exact presentId_eq_some_iff.mpr ⟨rfl, (presentId_eq_some_iff.mp htc).2⟩
    · unfold contentCallIds at h
      split at h
      · obtain ⟨p, _, hp⟩ := mem_filterMap.mp h
        cases p with
        | toolUse id' =>
          exact presentId_eq_some_iff.mpr ⟨rfl, (presentId_eq_some_iff.mp hp).2⟩
        | _ => exact absurd hp.symm (Option.some_ne_none _)
      · exact absurd h not_mem_nil
  · exact absurd h not_mem_nil

variable {ids : List JsString}

/-- The inserted results of one id among the results of a list of ids. -/
theorem results_map_emptyToolMessage (hid : presentId (some id) = some id) (hnodup : ids.Nodup) :
    results id (ids.map emptyToolMessage) =
      if id ∈ ids then [emptyToolMessage id] else [] := by
  induction ids with
  | nil => rfl
  | cons x xs ih =>
    obtain ⟨hx, hxs⟩ := nodup_cons.mp hnodup
    have hcons : results id ((x :: xs).map emptyToolMessage) =
        (if id = x then [emptyToolMessage x] else []) ++ results id (xs.map emptyToolMessage) := by
      by_cases h : id = x
      · subst h
        simp [results, isResultOf, emptyToolMessage, hid]
      · have hne : ¬ presentId (some x) = some id := fun hp =>
          h (Option.some.inj (presentId_eq_some_iff.mp hp).1).symm
        simp [results, isResultOf, emptyToolMessage, h, hne]
    rw [hcons, ih hxs]
    by_cases h : id = x
    · subst h
      simp [hx]
    · simp [h]

theorem results_insertedResponses_eq_nil (hplain : PlainMessage msg) (h : id ∉ getToolCallIds msg)
    (next : Option Message) : results id (insertedResponses msg next) = [] := by
  cases next with
  | none => rfl
  | some next =>
    rw [insertedResponses_of_plain hplain]
    split
    · rfl
    · rw [results, filter_eq_nil_iff]
      intro m hm hres
      obtain ⟨x, hx, rfl⟩ := mem_map.mp hm
      have := (isResultOf_iff.mp hres).2
      exact h ((Option.some.inj (presentId_eq_some_iff.mp this).1) ▸ hx)

variable {pre : List Message}

/-- A part of the list that does not issue the id gains no result for it. -/
theorem results_fixMissingToolResponses_append (hplain : ∀ msg ∈ pre, PlainMessage msg)
    (h : id ∉ pre.flatMap getToolCallIds) (tail : List Message) :
    results id (fixMissingToolResponses (pre ++ tail)) =
      results id pre ++ results id (fixMissingToolResponses tail) := by
  induction pre with
  | nil => rfl
  | cons msg rest ih =>
    rw [flatMap_cons, mem_append, not_or] at h
    have hins := results_insertedResponses_eq_nil (hplain msg mem_cons_self) h.1
      (rest ++ tail).head?
    have hrest := ih (fun x hx => hplain x (mem_cons_of_mem _ hx)) h.2
    have hcons : ∀ l, results id (msg :: l) = results id [msg] ++ results id l := fun l =>
      results_append id [msg] l
    rw [cons_append, fixMissingToolResponses, hcons, hcons rest, results_append, hins,
      hrest, nil_append, append_assoc]

variable {post : List Message}

/-- The results of a call of `a` after the insertion step.  No other message
issues the id, so `a` is the only place where one is inserted. -/
theorem results_fixMissingToolResponses {a : Message} (h : Admissible (pre ++ a :: next :: post))
    (hid : id ∈ getToolCallIds a) :
    results id (fixMissingToolResponses (pre ++ a :: next :: post)) = results id pre ++
        ((if hasToolResults next (getToolCallIds a) then [] else [emptyToolMessage id]) ++
          results id (next :: post)) := by
  have hplain := h.plain
  have hnodup := h.ids_nodup
  rw [flatMap_append, flatMap_cons, nodup_append] at hnodup
  obtain ⟨-, hrest, hdisj⟩ := hnodup
  obtain ⟨ha, -, hdisj'⟩ := nodup_append.mp hrest
  have hpre : id ∉ pre.flatMap getToolCallIds := fun hp =>
    hdisj id hp id (mem_append_left _ hid) rfl
  have hpost : id ∉ (next :: post).flatMap getToolCallIds := fun hp =>
    hdisj' id hid id hp rfl
  have hsucc : results id (fixMissingToolResponses (next :: post)) = results id (next :: post) := by
    have := results_fixMissingToolResponses_append
      (fun m hm => hplain m (by simp [mem_cons.mp hm])) hpost []
    simpa [fixMissingToolResponses, results] using this
  have hself : results id [a] = [] := by
    have hrole := role_of_mem_getToolCallIds hid
    simp [results, isResultOf, hrole]
  have hins : results id (insertedResponses a (some next)) =
      if hasToolResults next (getToolCallIds a) then [] else [emptyToolMessage id] := by
    rw [insertedResponses_of_plain (hplain a (by simp))]
    split
    · rfl
    · rw [results_map_emptyToolMessage (presentId_of_mem_getToolCallIds hid) ha, if_pos hid]
  rw [results_fixMissingToolResponses_append (fun m hm => hplain m (by simp [hm])) hpre,
    fixMissingToolResponses, ← singleton_append, results_append, hself,
    nil_append, results_append, hsucc]
  exact congrArg (fun l => results id pre ++ (l ++ results id (next :: post))) hins

/-! ## The strip step -/

/-- Whether the strip step keeps a message of an OpenAI-format list. -/
def keepMessage (msg : Message) : Bool :=
  match msg.role, presentId msg.toolCallId with
  | .tool, some id => knownCallIds.contains id
  | _, _ => true

theorem keepMessage_of_isResultOf (h : isResultOf id msg = true) :
    keepMessage ids msg = ids.contains id := by
  obtain ⟨hrole, hid⟩ := isResultOf_iff.mp h
  simp [keepMessage, hrole, hid]

theorem keepMessage_of_no_id
    (h : ∀ id, msg.role = .tool → presentId msg.toolCallId = some id → False) :
    keepMessage ids msg = true := by
  unfold keepMessage
  split
  · rename_i id hrole hid
    exact (h id hrole hid).elim
  · rfl

theorem stripContent_of_plain (ids : List JsString) (h : PlainMessage msg) :
    stripContent ids msg = some msg := by
  unfold stripContent
  split
  · rename_i ps hps
    have hall : ps.filter (keepBlock ids) = ps := by
      rw [filter_eq_self]
      intro p hp
      have hplain := h ps hps p hp
      cases p with
      | toolResult => exact absurd hplain (fun h => h)
      | _ => rfl
    simp [hall]
  · rfl

theorem stripMessage_of_plain (ids : List JsString) (h : PlainMessage msg) :
    stripMessage ids msg = if keepMessage ids msg then some msg else none := by
  unfold stripMessage
  split
  · rename_i id hrole hid
    rw [keepMessage_of_isResultOf (isResultOf_iff.mpr ⟨hrole, hid⟩)]
  · rename_i hne
    rw [stripContent_of_plain ids h, keepMessage_of_no_id hne, if_pos rfl]

theorem stripOrphanedToolResults_of_plain (h : ∀ msg ∈ messages, PlainMessage msg) :
    stripOrphanedToolResults messages =
      messages.filter (keepMessage (messages.flatMap getToolCallIds)) := by
  rw [stripOrphanedToolResults, ← filterMap_eq_filter]
  apply filterMap_congr
  intro msg hmsg
  rw [stripMessage_of_plain _ (h msg hmsg)]
  simp [Option.guard]

theorem keepMessage_of_assistant (h : msg.role = .assistant) : keepMessage ids msg = true := by
  simp [keepMessage, h]

theorem results_filter_keepMessage (h : id ∈ ids) (messages : List Message) :
    results id (messages.filter (keepMessage ids)) = results id messages := by
  rw [results, results, filter_filter]
  apply filter_congr
  intro msg _
  cases hres : isResultOf id msg with
  | false => rfl
  | true =>
    rw [keepMessage_of_isResultOf hres, contains_iff_mem.mpr h]
    rfl

theorem flatMap_ids_filter_keepMessage (ids : List JsString) (messages : List Message) :
    (messages.filter (keepMessage ids)).flatMap getToolCallIds =
      messages.flatMap getToolCallIds := by
  induction messages with
  | nil => rfl
  | cons msg rest ih =>
    rw [filter_cons]
    split
    · rw [flatMap_cons, flatMap_cons, ih]
    · rename_i hkeep
      have hnil : getToolCallIds msg = [] := by
        by_contra hne
        obtain ⟨id, hid⟩ := exists_mem_of_ne_nil _ hne
        exact hkeep (keepMessage_of_assistant (role_of_mem_getToolCallIds hid))
      rw [flatMap_cons, hnil, ih]
      rfl

/-! ## The repair -/

section

variable (h : ∀ msg ∈ messages, PlainMessage msg)
include h

theorem repair_of_plain : repair messages =
      (fixMissingToolResponses messages).filter
        (keepMessage (messages.flatMap getToolCallIds)) := by
  rw [repair, stripOrphanedToolResults_of_plain (plain_fixMissingToolResponses h),
    flatMap_ids_fixMissingToolResponses]

theorem plain_repair : ∀ msg ∈ repair messages, PlainMessage msg := by
  intro msg hmsg
  rw [repair_of_plain h] at hmsg
  exact plain_fixMissingToolResponses h msg (mem_of_mem_filter hmsg)

theorem flatMap_ids_repair :
    (repair messages).flatMap getToolCallIds = messages.flatMap getToolCallIds := by
  rw [repair_of_plain h, flatMap_ids_filter_keepMessage, flatMap_ids_fixMissingToolResponses]

end

/-- A list in which the insertion step finds nothing to do. -/
def Settled : List Message → Prop
  | [] => True
  | msg :: rest => insertedResponses msg rest.head? = [] ∧ Settled rest

theorem fixMissingToolResponses_of_settled (h : Settled messages) :
    fixMissingToolResponses messages = messages := by
  induction messages with
  | nil => rfl
  | cons msg rest ih => rw [fixMissingToolResponses, h.1, ih h.2, nil_append]

theorem insertedResponses_of_no_ids (h : getToolCallIds msg = []) (next : Option Message) :
    insertedResponses msg next = [] := by
  cases next with
  | none => rfl
  | some next => simp [insertedResponses, h]

theorem settled_append_of_no_ids {xs ys : List Message}
    (hx : ∀ m ∈ xs, getToolCallIds m = []) (hy : Settled ys) : Settled (xs ++ ys) := by
  induction xs with
  | nil => exact hy
  | cons x xs ih =>
    exact ⟨insertedResponses_of_no_ids (hx x mem_cons_self) _,
      ih (fun m hm => hx m (mem_cons_of_mem _ hm))⟩

/-- The first inserted message answers the calls it was inserted for. -/
theorem insertedResponses_head_insertedResponses (hmsg : PlainMessage msg) (tail : List Message) :
    insertedResponses msg (insertedResponses msg (some next) ++ next :: tail).head? = [] := by
  cases hids : getToolCallIds msg with
  | nil => exact insertedResponses_of_no_ids hids _
  | cons id ids =>
    cases hans : hasToolResults next (getToolCallIds msg) with
    | true =>
      have hnone : insertedResponses msg (some next) = [] := by
        rw [insertedResponses_of_plain hmsg, hans]
        rfl
      rw [hnone]
      exact hnone
    | false =>
      have hhead : insertedResponses msg (some next) =
          emptyToolMessage id :: ids.map emptyToolMessage := by
        rw [insertedResponses_of_plain hmsg, hans, hids]
        rfl
      rw [hhead, cons_append, head?_cons, insertedResponses_of_plain hmsg]
      have hmem : id ∈ getToolCallIds msg := by rw [hids]; exact mem_cons_self
      have hres : isResultOf id (emptyToolMessage id) = true :=
        isResultOf_iff.mpr ⟨rfl, presentId_of_mem_getToolCallIds hmem⟩
      rw [if_pos ((hasToolResults_iff_of_plain (plainMessage_emptyToolMessage id) _).mpr
        ⟨id, hmem, hres⟩)]

theorem settled_fixMissingToolResponses (h : ∀ msg ∈ messages, PlainMessage msg) :
    Settled (fixMissingToolResponses messages) := by
  induction messages with
  | nil => trivial
  | cons msg rest ih =>
    have hrest := ih (fun x hx => h x (mem_cons_of_mem _ hx))
    have hids : ∀ m ∈ insertedResponses msg rest.head?, getToolCallIds m = [] :=
      fun m hm => getToolCallIds_insertedResponses rest.head? hm
    have htail := settled_append_of_no_ids hids hrest
    refine ⟨?_, htail⟩
    cases rest with
    | nil => rfl
    | cons next rest' =>
      exact insertedResponses_head_insertedResponses (h msg mem_cons_self) _

/-- The strip step leaves no call without the answer that stood after it. -/
theorem settled_filter_keepMessage (hplain : ∀ msg ∈ messages, PlainMessage msg)
    (hids : ∀ msg ∈ messages, ∀ id ∈ getToolCallIds msg, id ∈ ids) (h : Settled messages) :
    Settled (messages.filter (keepMessage ids)) := by
  induction messages with
  | nil => trivial
  | cons msg rest ih =>
    have hrest := ih (fun x hx => hplain x (mem_cons_of_mem _ hx))
      (fun x hx => hids x (mem_cons_of_mem _ hx)) h.2
    rw [filter_cons]
    split
    · refine ⟨?_, hrest⟩
      cases rest with
      | nil => rfl
      | cons next rest' =>
        have hmsg := hplain msg mem_cons_self
        have hnext := hplain next (by simp)
        have hins := h.1
        rw [head?_cons, insertedResponses_of_plain hmsg] at hins
        split at hins
        · rename_i hans
          obtain ⟨id, hid, hres⟩ := (hasToolResults_iff_of_plain hnext _).mp hans
          have hkeep : keepMessage ids next = true := by
            rw [keepMessage_of_isResultOf hres]
            exact contains_iff_mem.mpr (hids msg mem_cons_self id hid)
          rw [filter_cons, if_pos hkeep, head?_cons, insertedResponses_of_plain hmsg, if_pos hans]
        · exact insertedResponses_of_no_ids (map_eq_nil_iff.mp hins) _
    · exact hrest

theorem repair_repair (h : ∀ msg ∈ messages, PlainMessage msg) :
    repair (repair messages) = repair messages := by
  have hsettled : Settled (repair messages) := by
    rw [repair_of_plain h]
    refine settled_filter_keepMessage (plain_fixMissingToolResponses h) ?_
      (settled_fixMissingToolResponses h)
    intro msg hmsg id hid
    rw [← flatMap_ids_fixMissingToolResponses]
    exact mem_flatMap.mpr ⟨msg, hmsg, hid⟩
  have hfix := fixMissingToolResponses_of_settled hsettled
  rw [repair_of_plain (plain_repair h), hfix, flatMap_ids_repair h, repair_of_plain h,
    filter_filter]
  simp

theorem results_repair {a : Message} (h : Admissible (pre ++ a :: next :: post))
    (hid : id ∈ getToolCallIds a) :
    results id (repair (pre ++ a :: next :: post)) = results id pre ++
        ((if hasToolResults next (getToolCallIds a) then [] else [emptyToolMessage id]) ++
          results id (next :: post)) := by
  have hmem : id ∈ (pre ++ a :: next :: post).flatMap getToolCallIds :=
    mem_flatMap.mpr ⟨a, by simp, hid⟩
  rw [repair_of_plain h.plain, results_filter_keepMessage hmem,
    results_fixMissingToolResponses h hid]

theorem results_of_assistant {a : Message} (hid : id ∈ getToolCallIds a) :
    results id (pre ++ a :: post) = results id pre ++ results id post := by
  have hrole := role_of_mem_getToolCallIds hid
  simp [results, isResultOf, hrole]

/-! ## The contract -/

/-- The contract of the two steps on the client's list `messages`. -/
structure Repaired (messages : List Message) : Prop where
  answeredOnce : ∀ pre a next post, messages = pre ++ a :: next :: post →
    ∀ id ∈ getToolCallIds a, (results id (repair messages)).length = 1
  clientContent : ∀ pre a next post, messages = pre ++ a :: next :: post →
    ∀ id ∈ getToolCallIds a, results id (next :: post) ≠ [] → ∀ m ∈ results id (repair messages),
        ∃ t ∈ results id (next :: post), m.content = t.content
  matched : ∀ m ∈ repair messages, m.role = .tool →
    ∃ id, m.toolCallId = some id ∧ id ∈ (repair messages).flatMap getToolCallIds
  stable : repair (repair messages) = repair messages

/-- The lists on which the two steps meet the contract.  Every `role: "tool"`
message names a call, and for every assistant message before the last one
the next message decides: if it answers one of the calls then every call has
its one result already, and if it answers none then no call has any. -/
structure RepairSafe (messages : List Message) : Prop where
  named : ∀ m ∈ messages, m.role = .tool → (presentId m.toolCallId).isSome = true
  complete : ∀ pre a next post, messages = pre ++ a :: next :: post →
    ∀ id ∈ getToolCallIds a, hasToolResults next (getToolCallIds a) = true →
      (results id messages).length = 1
  unanswered : ∀ pre a next post, messages = pre ++ a :: next :: post →
    ∀ id ∈ getToolCallIds a, hasToolResults next (getToolCallIds a) = false →
      results id messages = []

theorem mem_repair_of_mem (h : ∀ msg ∈ messages, PlainMessage msg) {m : Message} (hm : m ∈ messages)
    (hkeep : keepMessage (messages.flatMap getToolCallIds) m = true) : m ∈ repair messages := by
  rw [repair_of_plain h, mem_filter]
  refine ⟨?_, hkeep⟩
  clear hkeep h
  induction messages with
  | nil => exact hm
  | cons x rest ih =>
    rw [fixMissingToolResponses, mem_cons, mem_append]
    rcases mem_cons.mp hm with rfl | hm
    · exact Or.inl rfl
    · exact Or.inr (Or.inr (ih hm))

theorem safe_of_repaired (h : Admissible messages) (hr : Repaired messages) :
    RepairSafe messages := by
  refine ⟨?_, ?_, ?_⟩
  · intro m hm hrole
    by_contra hnone
    have hnone' : presentId m.toolCallId = none := by
      simpa using hnone
    have hkeep : keepMessage (messages.flatMap getToolCallIds) m = true := by
      simp [keepMessage, hnone']
    obtain ⟨id, hid, hmem⟩ := hr.matched m (mem_repair_of_mem h.plain hm hkeep) hrole
    obtain ⟨a, -, ha⟩ := mem_flatMap.mp hmem
    rw [hid, presentId_of_mem_getToolCallIds ha] at hnone'
    exact absurd hnone' (Option.some_ne_none _)
  · rintro pre a next post rfl id hid hans
    have hone := hr.answeredOnce pre a next post rfl id hid
    rw [results_repair h hid, hans] at hone
    rw [results_of_assistant hid]
    simpa using hone
  · rintro pre a next post rfl id hid hans
    have hone := hr.answeredOnce pre a next post rfl id hid
    rw [results_repair h hid, hans] at hone
    rw [results_of_assistant hid]
    simp only [Bool.false_eq_true, if_false, length_append, length_cons] at hone
    rw [append_eq_nil_iff, ← length_eq_zero_iff, ← length_eq_zero_iff]
    omega

theorem matched_of_named (h : Admissible messages)
    (hnamed : ∀ m ∈ messages, m.role = .tool → (presentId m.toolCallId).isSome = true) :
    ∀ m ∈ repair messages, m.role = .tool →
      ∃ id, m.toolCallId = some id ∧ id ∈ (repair messages).flatMap getToolCallIds := by
  intro m hm hrole
  rw [flatMap_ids_repair h.plain]
  rw [repair_of_plain h.plain, mem_filter] at hm
  obtain ⟨hfix, hkeep⟩ := hm
  have hpresent : (presentId m.toolCallId).isSome = true := by
    clear hkeep
    have hplain := h.plain
    clear h
    induction messages with
    | nil => exact absurd hfix not_mem_nil
    | cons x rest ih =>
      rw [fixMissingToolResponses, mem_cons, mem_append] at hfix
      rcases hfix with rfl | hfix | hfix
      · exact hnamed m mem_cons_self hrole
      · cases rest with
        | nil => exact absurd hfix not_mem_nil
        | cons next rest' =>
          rw [head?_cons, insertedResponses_of_plain (hplain x mem_cons_self)]
            at hfix
          split at hfix
          · exact absurd hfix not_mem_nil
          · obtain ⟨id, hid, rfl⟩ := mem_map.mp hfix
            rw [emptyToolMessage, presentId_of_mem_getToolCallIds hid]
            rfl
      · exact ih (fun y hy => hnamed y (mem_cons_of_mem _ hy)) hfix
          (fun y hy => hplain y (mem_cons_of_mem _ hy))
  obtain ⟨id, hid⟩ := Option.isSome_iff_exists.mp hpresent
  refine ⟨id, (presentId_eq_some_iff.mp hid).1, ?_⟩
  rw [keepMessage_of_isResultOf (isResultOf_iff.mpr ⟨hrole, hid⟩)] at hkeep
  exact contains_iff_mem.mp hkeep

theorem repaired_of_safe (h : Admissible messages) (hs : RepairSafe messages) :
    Repaired messages := by
  refine ⟨?_, ?_, matched_of_named h hs.named, repair_repair h.plain⟩
  · rintro pre a next post rfl id hid
    rw [results_repair h hid]
    cases hans : hasToolResults next (getToolCallIds a) with
    | true =>
      have hone := hs.complete pre a next post rfl id hid hans
      rw [results_of_assistant hid] at hone
      simpa using hone
    | false =>
      have hnil := hs.unanswered pre a next post rfl id hid hans
      rw [results_of_assistant hid, append_eq_nil_iff] at hnil
      rw [hnil.1, hnil.2]
      rfl
  · rintro pre a next post rfl id hid hsupplied m hm
    cases hans : hasToolResults next (getToolCallIds a) with
    | true =>
      have hone := hs.complete pre a next post rfl id hid hans
      rw [results_of_assistant hid, length_append] at hone
      have hpos : 0 < (results id (next :: post)).length :=
        length_pos_iff.mpr hsupplied
      have hpre : results id pre = [] := length_eq_zero_iff.mp (by omega)
      rw [results_repair h hid, hans, hpre] at hm
      exact ⟨m, by simpa using hm, rfl⟩
    | false =>
      have hnil := hs.unanswered pre a next post rfl id hid hans
      rw [results_of_assistant hid, append_eq_nil_iff] at hnil
      exact absurd hnil.2 hsupplied

/-- The two repair steps meet their contract on an admissible list exactly
when the list is `RepairSafe`. -/
theorem repaired_iff (messages : List Message) (h : Admissible messages) :
    Repaired messages ↔ RepairSafe messages :=
  ⟨safe_of_repaired h, repaired_of_safe h⟩

def parallelCalls : Message :=
  { role := .assistant,
    toolCalls := some [⟨some (js "a"), js "Read", js "x"⟩, ⟨some (js "b"), js "Read", js "y"⟩] }

/-- The client answered the first call, and the turn goes on. -/
def partlyAnswered : List Message :=
  [parallelCalls, { role := .tool, toolCallId := some (js "a"), content := .str (js "ok") },
    { role := .user, content := .str (js "go on") }]

theorem admissible_partlyAnswered : Admissible partlyAnswered := by
  refine ⟨?_, ?_, by decide⟩
  · intro msg hmsg ps hps
    simp only [partlyAnswered, mem_cons, not_mem_nil, or_false] at hmsg
    rcases hmsg with rfl | rfl | rfl <;> exact Content.noConfusion hps
  · intro msg hmsg tc htc
    simp only [partlyAnswered, parallelCalls, mem_cons, not_mem_nil, or_false] at hmsg
    rcases hmsg with rfl | rfl | rfl <;> simp at htc
    rcases htc with rfl | rfl <;> rfl

/-- The second of two parallel calls is left without a result. -/
theorem not_repaired_partlyAnswered : Admissible partlyAnswered ∧ ¬ Repaired partlyAnswered := by
  refine ⟨admissible_partlyAnswered, fun h => ?_⟩
  have hone := h.answeredOnce [] _ _ _ rfl (js "b") (by decide)
  exact absurd hone (by decide)

/-- `repaired_iff` at the partly answered list. -/
theorem repaired_iff_partlyAnswered : Repaired partlyAnswered ↔ RepairSafe partlyAnswered :=
  repaired_iff partlyAnswered admissible_partlyAnswered

end RedRouter.Request.ToolCallHelper
