import RedRouter.Compression.CompactionPairs
import RedRouter.Lib.Decimal
import RedRouter.Compression.BodyAdapter

/-!
# What the Kiro adapter restores

A text of a tool result is found by its place: the entry of the state, the
index of the result in it and the index of the part in the result.  The key of
a place says all of this (`kiroPathKey_inj`), so a rewritten text goes to the
place that its message came from.

The messages come from the results without an error
(`exists_place_of_mem_collectMessages`).  Messages that are not modified change
nothing (`nextState_unmodified`), and no messages with places of the adapter
change a result with an error (`toolResultAt_nextState_of_error`).
-/

namespace RedRouter.Compression.BodyAdapter

open JsValue List

/-! ## The body adapter for Kiro

The model of the part of `open-sse/services/compression/bodyAdapter.ts` that is
about bodies with a `conversationState`.  Every text of a tool result becomes a
message, except for the results with an error.  What the engines answer is put
back where the text was.

A message carries the place of its text under a symbol, which is
`KiroMessage.toolResultPath` here.
-/

inductive KiroScope where
  | currentMessage
  | history
deriving DecidableEq

def KiroScope.text : KiroScope → JsString
  | currentMessage => js "currentMessage"
  | history => js "history"

structure KiroToolResultPath where
  scope : KiroScope
  historyIndex : Int
  toolResultIndex : Nat
  contentIndex : Nat
deriving DecidableEq

structure KiroMessage where
  members : Body
  toolResultPath : Option KiroToolResultPath

/-- What an engine gets and answers: the messages, if it is an array of them,
and the other members. -/
structure KiroCompressionBody where
  members : Body
  messages : Option (List KiroMessage)

/-- What is changed in an envelope.  A missing history is an empty one. -/
structure KiroEnvelope where
  members : Body
  state : Body
  history : List JsValue
  currentMessage : Option Body
  messages : List KiroMessage

inductive KiroAdapter where
  /-- The body is left as it is. -/
  | whole (body : Body)
  | envelope (envelope : KiroEnvelope)

/-! ## The tool results -/

/-- The tool results of an entry, and the records around them. -/
def toolResultsOf (entry : Body) : Option (Body × Body × List JsValue) :=
  match prop entry (js "userInputMessage") with
  | .obj uim =>
      match prop uim (js "userInputMessageContext") with
      | .obj ctx =>
          match prop ctx (js "toolResults") with
          | .arr toolResults => some (uim, ctx, toolResults)
          | _ => none
      | _ => none
  | _ => none

def isErrorResult (toolResult : Body) : Bool :=
  match prop toolResult (js "status") with
  | .str status => status = js "error"
  | _ => false

section Collect

variable (scope : KiroScope) (historyIndex : Int)

def collectPart (toolResultIndex : Nat) (e : JsValue × Nat) : Option KiroMessage :=
  match textMember? (js "text") e.1 with
  | some (_, text) =>
      if text.isEmpty then none
      else some
        { members := [(js "role", .str (js "tool")), (js "content", .str text)]
          toolResultPath := some ⟨scope, historyIndex, toolResultIndex, e.2⟩ }
  | none => none

def collectResult (e : JsValue × Nat) : List KiroMessage :=
  match e.1 with
  | .obj toolResult =>
      if isErrorResult toolResult then []
      else
        match prop toolResult (js "content") with
        | .arr content => content.zipIdx.filterMap (collectPart scope historyIndex e.2)
        | _ => []
  | _ => []

def collectFrom (container : Body) : List KiroMessage :=
  match toolResultsOf container with
  | some (_, _, toolResults) => toolResults.zipIdx.flatMap (collectResult scope historyIndex)
  | none => []

end Collect

def historyOf (state : Body) : List JsValue :=
  match prop state (js "history") with
  | .arr history => history
  | _ => []

def currentMessageOf (state : Body) : Option Body :=
  match prop state (js "currentMessage") with
  | .obj currentMessage => some currentMessage
  | _ => none

def collectEntry (e : JsValue × Nat) : List KiroMessage :=
  match e.1 with
  | .obj entry => collectFrom .history e.2 entry
  | _ => []

def collectMessages (state : Body) : List KiroMessage :=
  (historyOf state).zipIdx.flatMap collectEntry ++
    ((currentMessageOf state).map (collectFrom .currentMessage (-1))).getD []

/-- `adaptKiroBodyForCompression`, for a body with the state. -/
def adaptKiroBodyForCompression (body state : Body) : KiroAdapter :=
  let messages := collectMessages state
  if messages.isEmpty then .whole body
  else .envelope
    { members := body
      state := state
      history := historyOf state
      currentMessage := currentMessageOf state
      messages := messages }

def KiroAdapter.body : KiroAdapter → KiroCompressionBody
  | whole body => ⟨body, none⟩
  | envelope e => ⟨e.members.delete (js "messages"), some e.messages⟩

/-! ## Restoring -/

def kiroPathKey (path : KiroToolResultPath) : JsString :=
  path.scope.text ++ js "|" ++ JsString.ofInt path.historyIndex ++ js "|" ++
    JsString.ofNat path.toolResultIndex ++ js "|" ++ JsString.ofNat path.contentIndex

def nextText (message : KiroMessage) : Option JsString :=
  match prop message.members (js "content") with
  | .str text => some text
  | .arr parts => parts.findSome? fun part => (textMember? (js "text") part).map Prod.snd
  | _ => none

/-- One round of the loop over the messages. -/
def collectRewrite (rewrites : JsMap JsString JsString) (message : KiroMessage) :
    JsMap JsString JsString :=
  match message.toolResultPath with
  | none => rewrites
  | some path =>
      match nextText message with
      | none => rewrites
      | some text => rewrites.set (kiroPathKey path) text

def collectRewrites (messages : List KiroMessage) : JsMap JsString JsString :=
  messages.foldl collectRewrite []

/-- The list with the elements that a function changes, if there are any. -/
def mapChanged {α : Type} (change : α × Nat → Option α) (xs : List α) : Option (List α) :=
  if xs.zipIdx.any (fun e => (change e).isSome) then
    some (xs.zipIdx.map fun e => (change e).getD e.1)
  else none

section Rewrite

variable (rewrites : JsMap JsString JsString) (scope : KiroScope) (historyIndex : Int)

/-- The part, if its text is rewritten to another one. -/
def rewritePart (toolResultIndex : Nat) (e : JsValue × Nat) : Option JsValue :=
  match textMember? (js "text") e.1 with
  | some (part, text) =>
      match rewrites.get (kiroPathKey ⟨scope, historyIndex, toolResultIndex, e.2⟩) with
      | some rewritten =>
          if rewritten = text then none else some (.obj (part.set (js "text") (.str rewritten)))
      | none => none
  | none => none

/-- The tool result, if a part of it is changed. -/
def rewriteResult (e : JsValue × Nat) : Option JsValue :=
  match e.1 with
  | .obj toolResult =>
      match prop toolResult (js "content") with
      | .arr content =>
          (mapChanged (rewritePart rewrites scope historyIndex e.2) content).map fun nextContent =>
            .obj (JsMap.set (js "content") (.arr nextContent) toolResult)
      | _ => none
  | _ => none

def rewriteKiroEntry (entry : Body) : Body :=
  match toolResultsOf entry with
  | none => entry
  | some (uim, ctx, toolResults) =>
      match mapChanged (rewriteResult rewrites scope historyIndex) toolResults with
      | none => entry
      | some nextToolResults =>
          entry.set (js "userInputMessage") (.obj (uim.set (js "userInputMessageContext")
              (.obj (ctx.set (js "toolResults") (.arr nextToolResults)))))

end Rewrite

def rewriteHistoryEntry (rewrites : JsMap JsString JsString) (e : JsValue × Nat) : JsValue :=
  match e.1 with
  | .obj entry => .obj (rewriteKiroEntry rewrites .history e.2 entry)
  | value => value

namespace KiroEnvelope

def withHistory (e : KiroEnvelope) (rewrites : JsMap JsString JsString) : Body :=
  if e.history.isEmpty then e.state
  else e.state.set (js "history") (.arr (e.history.zipIdx.map (rewriteHistoryEntry rewrites)))

def nextState (e : KiroEnvelope) (rewrites : JsMap JsString JsString) : Body :=
  match e.currentMessage with
  | none => e.withHistory rewrites
  | some currentMessage =>
      (e.withHistory rewrites).set (js "currentMessage")
        (.obj (rewriteKiroEntry rewrites .currentMessage (-1) currentMessage))

end KiroEnvelope

def KiroAdapter.restore (compressedBody : KiroCompressionBody) : KiroAdapter → Body
  | whole _ => compressedBody.members
  | envelope e =>
      let rewrites := collectRewrites (compressedBody.messages.getD [])
      (compressedBody.members.delete (js "messages")).set (js "conversationState")
        (.obj (e.nextState rewrites))

/-! ## Places -/

def entryAt (state : Body) : Option Nat → Option Body
  | none => currentMessageOf state
  | some index =>
      match (historyOf state)[index]? with
      | some (.obj entry) => some entry
      | _ => none

def resultAt (entry : Body) (index : Nat) : Option JsValue :=
  (toolResultsOf entry).bind fun found => found.2.2[index]?

def toolResultAt (state : Body) (place : Option Nat) (index : Nat) : Option JsValue :=
  (entryAt state place).bind (resultAt · index)

def textIn (toolResult : JsValue) (index : Nat) : Option JsString :=
  match toolResult with
  | .obj members =>
      match prop members (js "content") with
      | .arr content => (content[index]?.bind (textMember? (js "text"))).map Prod.snd
      | _ => none
  | _ => none

def scopeOf : Option Nat → KiroScope
  | none => .currentMessage
  | some _ => .history

def historyIndexOf : Option Nat → Int
  | none => -1
  | some index => index

def pathOf (place : Option Nat) (toolResultIndex contentIndex : Nat) : KiroToolResultPath :=
  ⟨scopeOf place, historyIndexOf place, toolResultIndex, contentIndex⟩

variable {place place' : Option Nat}

theorem pathOf_inj {i i' j j' : Nat} (h : pathOf place i j = pathOf place' i' j') :
    place = place' ∧ i = i' ∧ j = j' := by
  obtain ⟨-, hindex, hi, hj⟩ := KiroToolResultPath.mk.inj h
  refine ⟨?_, hi, hj⟩
  cases place with
  | none =>
    cases place' with
    | none => rfl
    | some index' =>
      have hneg : (-1 : Int) = index' := hindex
      omega
  | some index =>
    cases place' with
    | none =>
      have hneg : (index : Int) = -1 := hindex
      omega
    | some index' => exact congrArg some (Int.ofNat.inj hindex)

theorem text_ne_bar (scope : KiroScope) : unit '|' ∉ scope.text := by
  cases scope <;> decide

theorem scopeOf_text_inj (h : (scopeOf place).text = (scopeOf place').text) :
    scopeOf place = scopeOf place' := by
  have hne : KiroScope.currentMessage.text ≠ KiroScope.history.text := by decide
  cases place with
  | none =>
    cases place' with
    | none => rfl
    | some index' => exact absurd h hne
  | some index =>
    cases place' with
    | none => exact absurd h.symm hne
    | some index' => rfl

theorem ofInt_historyIndexOf_inj
    (h : JsString.ofInt (historyIndexOf place) = JsString.ofInt (historyIndexOf place'))
    (hscope : scopeOf place = scopeOf place') : historyIndexOf place = historyIndexOf place' := by
  cases place with
  | none =>
    cases place' with
    | none => rfl
    | some index' => cases hscope
  | some index =>
    cases place' with
    | none => cases hscope
    | some index' =>
      have hnumbers : JsString.ofInt (index : Int) = JsString.ofInt (index' : Int) := h
      rw [JsString.ofInt_natCast, JsString.ofInt_natCast] at hnumbers
      rw [JsString.ofNat_inj hnumbers]

theorem kiroPathKey_inj {i i' j j' : Nat}
    (h : kiroPathKey (pathOf place i j) = kiroPathKey (pathOf place' i' j')) :
    pathOf place i j = pathOf place' i' j' := by
  have hbar : js "|" = [unit '|'] := by decide
  have hdigit : JsString.isDecimal (unit '|') = false := by decide
  have hminus : unit '|' ≠ unit '-' := by decide
  unfold kiroPathKey at h
  simp only [append_assoc] at h
  obtain ⟨hscope, hrest⟩ := Separators.separated_inj_first (text_ne_bar _) (text_ne_bar _) h
  obtain ⟨hindex, hrest⟩ := Separators.separated_inj_first
    (JsString.not_mem_ofInt hdigit hminus) (JsString.not_mem_ofInt hdigit hminus) hrest
  obtain ⟨hi, hj⟩ := Separators.separated_inj_first
    (JsString.not_mem_ofNat hdigit) (JsString.not_mem_ofNat hdigit) hrest
  have hscopes := scopeOf_text_inj hscope
  have hindexes := ofInt_historyIndexOf_inj hindex hscopes
  obtain rfl : i = i' := JsString.ofNat_inj hi
  obtain rfl : j = j' := JsString.ofNat_inj hj
  unfold pathOf
  rw [hscopes, hindexes]

/-! ## The messages -/

def textMessage (path : KiroToolResultPath) (text : JsString) : KiroMessage :=
  { members := [(js "role", .str (js "tool")), (js "content", .str text)]
    toolResultPath := some path }

theorem nextText_textMessage (path : KiroToolResultPath) (text : JsString) :
    nextText (textMessage path text) = some text := rfl

section Collect

variable {scope : KiroScope} {historyIndex : Int} {message : KiroMessage}

theorem mem_collectResult {toolResult : JsValue} {i : Nat}
    (h : message ∈ collectResult scope historyIndex (toolResult, i)) :
    ∃ members j text, toolResult = .obj members ∧ isErrorResult members = false ∧
      textIn toolResult j = some text ∧
      message = textMessage ⟨scope, historyIndex, i, j⟩ text := by
  unfold collectResult at h
  split at h
  · rename_i members hobj
    subst hobj
    split at h
    · cases h
    · rename_i herror
      split at h
      · rename_i content hcontent
        obtain ⟨⟨part, j⟩, hpart, hmessage⟩ := mem_filterMap.mp h
        rw [mem_zipIdx_iff_getElem?] at hpart
        unfold collectPart at hmessage
        split at hmessage
        · rename_i found text htext
          split at hmessage
          · cases hmessage
          · refine ⟨members, j, text, rfl, eq_false_of_ne_true herror, ?_,
              (Option.some.inj hmessage).symm⟩
            unfold textIn
            dsimp only
            rw [hcontent]
            dsimp only
            rw [hpart, Option.bind_some, htext]
            rfl
        · cases hmessage
      · cases h
  · cases h

theorem mem_collectFrom {container : Body}
    (h : message ∈ collectFrom scope historyIndex container) :
    ∃ i members j text, resultAt container i = some (.obj members) ∧
      isErrorResult members = false ∧ textIn (.obj members) j = some text ∧
      message = textMessage ⟨scope, historyIndex, i, j⟩ text := by
  unfold collectFrom at h
  split at h
  · rename_i uim ctx toolResults hresults
    obtain ⟨⟨toolResult, i⟩, hresult, hmessage⟩ := mem_flatMap.mp h
    rw [mem_zipIdx_iff_getElem?] at hresult
    obtain ⟨members, j, text, rfl, herror, htext, hmade⟩ := mem_collectResult hmessage
    refine ⟨i, members, j, text, ?_, herror, htext, hmade⟩
    unfold resultAt
    rw [hresults]
    exact hresult
  · cases h

end Collect

/-- A message has the place of its text, and the result there has no error. -/
theorem exists_place_of_mem_collectMessages {state : Body} {message : KiroMessage}
    (h : message ∈ collectMessages state) :
    ∃ place i members j text, toolResultAt state place i = some (.obj members) ∧
      isErrorResult members = false ∧ textIn (.obj members) j = some text ∧
      message = textMessage (pathOf place i j) text := by
  rcases mem_append.mp h with hhistory | hcurrent
  · obtain ⟨⟨value, index⟩, hvalue, hmessage⟩ := mem_flatMap.mp hhistory
    rw [mem_zipIdx_iff_getElem?] at hvalue
    unfold collectEntry at hmessage
    split at hmessage
    · rename_i entry hentry
      subst hentry
      obtain ⟨i, members, j, text, hresult, hrest⟩ := mem_collectFrom hmessage
      refine ⟨some index, i, members, j, text, ?_, hrest⟩
      unfold toolResultAt entryAt
      dsimp only
      rw [hvalue]
      exact hresult
    · cases hmessage
  · cases hentry : currentMessageOf state with
    | none =>
      rw [hentry] at hcurrent
      cases hcurrent
    | some entry =>
      rw [hentry] at hcurrent
      obtain ⟨i, members, j, text, hresult, hrest⟩ := mem_collectFrom hcurrent
      refine ⟨none, i, members, j, text, ?_, hrest⟩
      unfold toolResultAt
      rw [show entryAt state none = some entry from hentry]
      exact hresult

variable {messages : List KiroMessage}

theorem exists_message_of_get_collectRewrites {key text : JsString}
    (h : (collectRewrites messages).get key = some text) :
    ∃ message ∈ messages, ∃ path, message.toolResultPath = some path ∧ kiroPathKey path = key ∧
      nextText message = some text := by
  have hloop : ∀ rewrites : JsMap JsString JsString,
      (messages.foldl collectRewrite rewrites).get key = some text →
        rewrites.get key = some text ∨ ∃ message ∈ messages, ∃ path,
          message.toolResultPath = some path ∧ kiroPathKey path = key ∧
            nextText message = some text := by
    clear h
    induction messages with
    | nil => exact fun _ hget => .inl hget
    | cons message messages ih =>
      intro rewrites hget
      rcases ih _ hget with hround | ⟨message', hmem, hrest⟩
      · unfold collectRewrite at hround
        split at hround
        · exact .inl hround
        · rename_i path hpath
          split at hround
          · exact .inl hround
          · rename_i next hnext
            rcases JsMap.get_set_cases hround with ⟨rfl, rfl⟩ | hget
            · exact .inr ⟨message, mem_cons_self, path, hpath, rfl, hnext⟩
            · exact .inl hget
      · exact .inr ⟨message', mem_cons_of_mem _ hmem, hrest⟩
  exact (hloop [] h).resolve_left (by simp)

/-! ## Rewriting an entry -/

section MapChanged

variable {α : Type} {change : α × Nat → Option α} {xs : List α}

theorem mapChanged_eq_none (h : ∀ i x, xs[i]? = some x → change (x, i) = none) :
    mapChanged change xs = none := by
  unfold mapChanged
  rw [if_neg]
  rw [any_eq_true]
  rintro ⟨⟨x, i⟩, hmem, hsome⟩
  rw [h i x (mem_zipIdx_iff_getElem?.mp hmem)] at hsome
  cases hsome

theorem getElem?_mapChanged {next : List α} (h : mapChanged change xs = some next) (i : Nat) :
    next[i]? = xs[i]?.map fun x => (change (x, i)).getD x := by
  unfold mapChanged at h
  split at h
  · rw [← Option.some.inj h, getElem?_map, getElem?_zipIdx, Option.map_map, Nat.zero_add]
    rfl
  · cases h

end MapChanged

section Rewrite

variable {rewrites : JsMap JsString JsString} {scope : KiroScope} {historyIndex : Int}

/-- Nothing is changed in a result whose texts are rewritten to themselves. -/
theorem rewriteResult_eq_none {toolResult : JsValue} {i : Nat}
    (h : ∀ j text rewritten, textIn toolResult j = some text →
      rewrites.get (kiroPathKey ⟨scope, historyIndex, i, j⟩) = some rewritten →
      rewritten = text) :
    rewriteResult rewrites scope historyIndex (toolResult, i) = none := by
  unfold rewriteResult
  split
  · rename_i members hobj
    subst hobj
    split
    · rename_i content hcontent
      rw [mapChanged_eq_none]
      · rfl
      · intro j part hpart
        unfold rewritePart
        split
        · rename_i found text htext
          split
          · rename_i rewritten hget
            have hin : textIn (.obj members) j = some text := by
              unfold textIn
              dsimp only at htext ⊢
              rw [hcontent]
              dsimp only
              rw [hpart, Option.bind_some, htext]
              rfl
            exact if_pos (h j text rewritten hin hget)
          · rfl
        · rfl
    · rfl
  · rfl

theorem rewriteKiroEntry_eq_self {entry : Body}
    (h : ∀ i toolResult, resultAt entry i = some toolResult →
      rewriteResult rewrites scope historyIndex (toolResult, i) = none) :
    rewriteKiroEntry rewrites scope historyIndex entry = entry := by
  unfold rewriteKiroEntry
  split
  · rfl
  · rename_i uim ctx toolResults hresults
    rw [mapChanged_eq_none]
    intro i toolResult hresult
    apply h
    unfold resultAt
    rw [hresults]
    exact hresult

theorem toolResultsOf_set (entry uim ctx : Body) (toolResults : List JsValue) :
    toolResultsOf (entry.set (js "userInputMessage") (.obj (uim.set (js "userInputMessageContext")
          (.obj (ctx.set (js "toolResults") (.arr toolResults)))))) =
      some (uim.set (js "userInputMessageContext")
        (.obj (ctx.set (js "toolResults") (.arr toolResults))),
        ctx.set (js "toolResults") (.arr toolResults), toolResults) := by
  unfold toolResultsOf
  rw [prop_set, if_pos rfl]
  dsimp only
  rw [prop_set, if_pos rfl]
  dsimp only
  rw [prop_set, if_pos rfl]

theorem resultAt_rewriteKiroEntry {entry : Body} {i : Nat} {toolResult : JsValue}
    (h : resultAt entry i = some toolResult) :
    resultAt (rewriteKiroEntry rewrites scope historyIndex entry) i =
      some ((rewriteResult rewrites scope historyIndex (toolResult, i)).getD toolResult) := by
  obtain ⟨⟨uim, ctx, toolResults⟩, hresults, hresult⟩ := Option.bind_eq_some_iff.mp h
  unfold rewriteKiroEntry
  rw [hresults]
  dsimp only at hresult ⊢
  cases hchanged : mapChanged (rewriteResult rewrites scope historyIndex) toolResults with
  | none =>
    have hsame : rewriteResult rewrites scope historyIndex (toolResult, i) = none := by
      unfold mapChanged at hchanged
      split at hchanged
      · cases hchanged
      · rename_i hany
        rw [Bool.not_eq_true, any_eq_false] at hany
        have hnone := hany (toolResult, i) (mem_zipIdx_iff_getElem?.mpr hresult)
        rwa [Option.not_isSome_iff_eq_none] at hnone
    rw [hsame]
    exact h
  | some next =>
    unfold resultAt
    rw [toolResultsOf_set, Option.bind_some, getElem?_mapChanged hchanged, hresult]
    rfl

end Rewrite

/-! ## Rewriting the state -/

section State

variable {e : KiroEnvelope} {rewrites : JsMap JsString JsString}

theorem set_of_prop {item : Body} {key : JsString} {value : JsValue} (h : prop item key = value)
    (hvalue : value ≠ .undefined) : item.set key value = item := by
  apply JsMap.set_of_get
  unfold prop at h
  cases hget : item.get key with
  | none =>
    rw [hget] at h
    exact absurd h.symm hvalue
  | some found =>
    rw [hget] at h
    exact congrArg some h

theorem prop_historyOf {state : Body} (h : historyOf state ≠ []) :
    prop state (js "history") = .arr (historyOf state) := by
  unfold historyOf at h ⊢
  split
  · assumption
  · rename_i hnot
    split at h
    · rename_i history hprop
      exact absurd hprop (hnot history)
    · exact absurd rfl h

theorem prop_currentMessageOf {state entry : Body} (h : currentMessageOf state = some entry) :
    prop state (js "currentMessage") = .obj entry := by
  unfold currentMessageOf at h
  split at h
  · rw [← Option.some.inj h]
    assumption
  · cases h

/-- The envelope has the entries of its state. -/
structure KiroEnvelope.OfState (e : KiroEnvelope) : Prop where
  history : e.history = historyOf e.state
  currentMessage : e.currentMessage = currentMessageOf e.state

theorem historyOf_nextState (h : e.OfState) : historyOf (e.nextState rewrites) =
      (historyOf e.state).zipIdx.map (rewriteHistoryEntry rewrites) := by
  have hhistory : historyOf (e.withHistory rewrites) =
      (historyOf e.state).zipIdx.map (rewriteHistoryEntry rewrites) := by
    unfold KiroEnvelope.withHistory
    rw [h.history]
    split
    · rename_i hempty
      rw [List.isEmpty_iff.mp hempty]
      rfl
    · rw [historyOf, prop_set, if_pos rfl]
  unfold KiroEnvelope.nextState
  split
  · exact hhistory
  · rw [← hhistory]
    unfold historyOf
    rw [prop_set, if_neg (by decide)]

theorem currentMessageOf_withHistory :
    currentMessageOf (e.withHistory rewrites) = currentMessageOf e.state := by
  unfold KiroEnvelope.withHistory
  split
  · rfl
  · unfold currentMessageOf
    rw [prop_set, if_neg (by decide)]

theorem currentMessageOf_nextState (h : e.OfState) : currentMessageOf (e.nextState rewrites) =
      (currentMessageOf e.state).map (rewriteKiroEntry rewrites .currentMessage (-1)) := by
  unfold KiroEnvelope.nextState
  rw [h.currentMessage]
  split
  · rename_i hnone
    rw [currentMessageOf_withHistory, hnone]
    rfl
  · rename_i entry hentry
    rw [hentry, currentMessageOf, prop_set, if_pos rfl]
    rfl

theorem entryAt_nextState (h : e.OfState) (place : Option Nat) :
    entryAt (e.nextState rewrites) place = (entryAt e.state place).map
        (rewriteKiroEntry rewrites (scopeOf place) (historyIndexOf place)) := by
  cases place with
  | none => exact currentMessageOf_nextState h
  | some index =>
    unfold entryAt
    dsimp only
    rw [historyOf_nextState h, getElem?_map, getElem?_zipIdx, Nat.zero_add]
    cases (historyOf e.state)[index]? with
    | none => rfl
    | some value =>
      cases value with
      | obj entry => rfl
      | undefined => rfl
      | null => rfl
      | bool b => rfl
      | num bits => rfl
      | str s => rfl
      | arr items => rfl

theorem toolResultAt_nextState (h : e.OfState) {place : Option Nat} {i : Nat}
    {toolResult : JsValue} (hresult : toolResultAt e.state place i = some toolResult) :
    toolResultAt (e.nextState rewrites) place i =
      some ((rewriteResult rewrites (scopeOf place) (historyIndexOf place) (toolResult, i)).getD
        toolResult) := by
  obtain ⟨entry, hentry, hat⟩ := Option.bind_eq_some_iff.mp hresult
  unfold toolResultAt
  rw [entryAt_nextState h, hentry, Option.map_some, Option.bind_some]
  exact resultAt_rewriteKiroEntry hat

/-- A state whose texts are all rewritten to themselves stays the same. -/
theorem nextState_eq_self (h : e.OfState)
    (hsame : ∀ place i toolResult, toolResultAt e.state place i = some toolResult →
      rewriteResult rewrites (scopeOf place) (historyIndexOf place) (toolResult, i) = none) :
    e.nextState rewrites = e.state := by
  have hentry : ∀ place entry, entryAt e.state place = some entry →
      rewriteKiroEntry rewrites (scopeOf place) (historyIndexOf place) entry = entry := by
    intro place entry hentry
    apply rewriteKiroEntry_eq_self
    intro i toolResult hresult
    apply hsame place i toolResult
    unfold toolResultAt
    rw [hentry]
    exact hresult
  have hvalue : ∀ x ∈ (historyOf e.state).zipIdx, rewriteHistoryEntry rewrites x = x.1 := by
    rintro ⟨value, index⟩ hmem
    rw [mem_zipIdx_iff_getElem?] at hmem
    unfold rewriteHistoryEntry
    split
    · rename_i entry hobj
      subst hobj
      have hat : entryAt e.state (some index) = some entry := by
        unfold entryAt
        dsimp only
        rw [hmem]
      exact congrArg JsValue.obj (hentry (some index) entry hat)
    · rfl
  have hhistory : e.withHistory rewrites = e.state := by
    unfold KiroEnvelope.withHistory
    split
    · rfl
    · rename_i hnonempty
      rw [h.history] at hnonempty ⊢
      rw [map_congr_left hvalue, zipIdx_map_fst]
      refine set_of_prop (prop_historyOf ?_) (by simp)
      exact fun hnil => hnonempty (List.isEmpty_iff.mpr hnil)
  unfold KiroEnvelope.nextState
  rw [hhistory, h.currentMessage]
  split
  · rfl
  · rename_i entry hcurrent
    rw [show rewriteKiroEntry rewrites .currentMessage (-1) entry = entry from
      hentry none entry hcurrent]
    exact set_of_prop (prop_currentMessageOf hcurrent) (by simp)

end State

/-! ## The adapter -/

def KeepsPlaces (state : Body) (messages : List KiroMessage) : Prop :=
  ∀ message ∈ messages, ∀ path, message.toolResultPath = some path →
    ∃ original ∈ collectMessages state, original.toolResultPath = some path

theorem place_of_get_collectRewrites {state : Body} (h : KeepsPlaces state messages) {i j : Nat}
    {rewritten : JsString}
    (hget : (collectRewrites messages).get (kiroPathKey (pathOf place i j)) = some rewritten) :
    ∃ members, toolResultAt state place i = some (.obj members) ∧
      isErrorResult members = false := by
  obtain ⟨message, hmem, path, hpath, hkey, -⟩ := exists_message_of_get_collectRewrites hget
  obtain ⟨original, horiginal, hsame⟩ := h message hmem path hpath
  obtain ⟨place', i', members, j', text, hresult, herror, -, rfl⟩ :=
    exists_place_of_mem_collectMessages horiginal
  obtain rfl := Option.some.inj hsame
  obtain ⟨rfl, rfl, rfl⟩ := pathOf_inj (kiroPathKey_inj hkey)
  exact ⟨members, hresult, herror⟩

theorem eq_of_get_collectRewrites {state : Body} {i j : Nat} {toolResult : JsValue}
    {text rewritten : JsString} (hresult : toolResultAt state place i = some toolResult)
    (htext : textIn toolResult j = some text)
    (hget : (collectRewrites (collectMessages state)).get (kiroPathKey (pathOf place i j)) =
      some rewritten) : rewritten = text := by
  obtain ⟨message, hmem, path, hpath, hkey, hnext⟩ := exists_message_of_get_collectRewrites hget
  obtain ⟨place', i', members, j', text', hresult', -, htext', rfl⟩ :=
    exists_place_of_mem_collectMessages hmem
  obtain rfl := Option.some.inj hpath
  obtain ⟨rfl, rfl, rfl⟩ := pathOf_inj (kiroPathKey_inj hkey)
  rw [nextText_textMessage] at hnext
  rw [hresult'] at hresult
  rw [← Option.some.inj hresult, htext'] at htext
  rw [← Option.some.inj hnext, Option.some.inj htext]

theorem nextState_unmodified {e : KiroEnvelope} (h : e.OfState) :
    e.nextState (collectRewrites (collectMessages e.state)) = e.state := by
  apply nextState_eq_self h
  intro place i toolResult hresult
  apply rewriteResult_eq_none
  intro j text rewritten htext hget
  exact eq_of_get_collectRewrites hresult htext hget

theorem toolResultAt_nextState_of_error {e : KiroEnvelope} (h : e.OfState)
    (hplaces : KeepsPlaces e.state messages) {i : Nat} {members : Body}
    (hresult : toolResultAt e.state place i = some (.obj members))
    (herror : isErrorResult members = true) :
    toolResultAt (e.nextState (collectRewrites messages)) place i = some (.obj members) := by
  rw [toolResultAt_nextState h hresult, rewriteResult_eq_none]
  · rfl
  · intro j text rewritten _ hget
    obtain ⟨members', hresult', hclean⟩ := place_of_get_collectRewrites hplaces hget
    obtain rfl := JsValue.obj.inj (Option.some.inj (hresult.symm.trans hresult'))
    rw [herror] at hclean
    cases hclean

theorem adaptKiroBodyForCompression_cases (body state : Body) :
    adaptKiroBodyForCompression body state = .whole body ∨
      ∃ e, adaptKiroBodyForCompression body state = .envelope e ∧ e.OfState ∧
        e.members = body ∧ e.state = state ∧ e.messages = collectMessages state := by
  unfold adaptKiroBodyForCompression
  dsimp only
  split
  · exact .inl rfl
  · exact .inr ⟨_, rfl, ⟨rfl, rfl⟩, rfl, rfl, rfl⟩

end RedRouter.Compression.BodyAdapter
