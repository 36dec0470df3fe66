import RedRouter.Response.GeminiToClaude

/-!
# Gemini streams give sequential Claude streams

The events of a stream are one message whose blocks come one after the other.
`Formed` ties the events so far to the state: the blocks before
`contentBlockIndex` are whole, except for the open text block.  Every function
of the translator keeps it.

The one way to lose the message is a text tool call whose name is not a
string: restoring its name throws.  `namesAreStrings` runs the extraction over
the visible texts and looks at the names; `sequentialStream_iff` says that
this decides whether the stream is translated as it should be.
-/

namespace RedRouter.Response.GeminiToClaude

open List Blocks MarkdownBoundary XmlInvoke

/-! ## The contract -/

/-- One message whose blocks come one after the other. -/
structure SequentialStream (events : List ClaudeEvent) : Prop where
  shape : ∃ id model blocks reason usage,
    events = .messageStart id model :: (blocks ++ [.messageDelta reason usage, .messageStop]) ∧
      OnlyBlocks blocks ∧ (∃ sizes, framesOf blocks = sequence sizes) ∧
      ((∃ e ∈ blocks, e.isToolUse = true) → reason = .toolUse)

/-- Exactly the last candidate has a finish reason. -/
def FinishesLast (chunks : List Chunk) : Prop :=
  ∃ before last, chunks.filterMap Chunk.candidate = before ++ [last] ∧
    (Chat.presentId last.finishReason).isSome = true ∧
    ∀ c ∈ before, Chat.presentId c.finishReason = none

def visibleText (part : Part) : Option JsString :=
  match partKind part with
  | .text text => some text
  | _ => none

/-- The visible texts of a stream, each with the time of its arrival. -/
def visibleTexts (timed : List (Nat × Chunk)) : List (Nat × JsString) :=
  timed.flatMap fun (nowMs, chunk) =>
    match chunk.candidate with
    | none => []
    | some candidate => (candidate.parts.filterMap visibleText).map fun text => (nowMs, text)

/-- Whether the tool calls in the visible texts have names that are strings. -/
def namesAreStrings (codec : JsonCodec) : JsString → List (Nat × JsString) → Bool
  | _, [] => true
  | buffer, (nowMs, text) :: texts =>
      let extracted := extractXmlInvokeBlocks codec nowMs buffer text
      extracted.toolCalls.all (fun call => isName call.name) &&
        namesAreStrings codec extracted.buffer texts

def bufferAfter (codec : JsonCodec) : JsString → List (Nat × JsString) → JsString
  | buffer, [] => buffer
  | buffer, (nowMs, text) :: texts =>
      bufferAfter codec (extractXmlInvokeBlocks codec nowMs buffer text).buffer texts

theorem namesAreStrings_append (codec : JsonCodec) (buffer : JsString)
    (xs ys : List (Nat × JsString)) :
    namesAreStrings codec buffer (xs ++ ys) = (namesAreStrings codec buffer xs &&
        namesAreStrings codec (bufferAfter codec buffer xs) ys) := by
  induction xs generalizing buffer with
  | nil => rw [nil_append, namesAreStrings, bufferAfter, Bool.true_and]
  | cons x xs ih =>
    rw [cons_append, namesAreStrings, namesAreStrings, bufferAfter, ih, Bool.and_assoc]

/-! ## Blocks so far -/

/-- The blocks of a message so far. -/
structure Formed (blocks : List ClaudeEvent) (s : State) : Prop where
  started : s.messageId.isSome = true
  onlyBlocks : OnlyBlocks blocks
  sequential : match s.openTextBlockIdx with
    | none => Sequential (framesOf blocks) s.contentBlockIndex false
    | some index => s.contentBlockIndex = index + 1 ∧ Sequential (framesOf blocks) index true
  toolUse : (∃ e ∈ blocks, e.isToolUse = true) → s.hasToolUse = true

/-- The message so far, with the results of the current chunk. -/
def Holds (before : List ClaudeEvent) (a : Acc) : Prop :=
  ∃ id model blocks, before ++ a.results = .messageStart id model :: blocks ∧ Formed blocks a.state

/-- The part of the state that says which blocks there are. -/
def blockView (s : State) := (s.messageId, s.openTextBlockIdx, s.contentBlockIndex)

variable {before : List ClaudeEvent} {a : Acc}

theorem Holds.of_view (h : Holds before a) {s : State} (hview : blockView s = blockView a.state)
    (htool : a.state.hasToolUse = true → s.hasToolUse = true) :
    Holds before { a with state := s } := by
  obtain ⟨id, model, blocks, hevents, hformed⟩ := h
  simp only [blockView, Prod.mk.injEq] at hview
  obtain ⟨hid, hopen, hindex⟩ := hview
  refine ⟨id, model, blocks, hevents, ?_, hformed.onlyBlocks, ?_, ?_⟩
  · rw [hid]
    exact hformed.started
  · rw [hopen, hindex]
    exact hformed.sequential
  · intro hany
    exact htool (hformed.toolUse hany)

theorem Holds.append (h : Holds before a) {s : State} {events : List ClaudeEvent}
    (hformed : ∀ blocks, Formed blocks a.state → Formed (blocks ++ events) s) :
    Holds before { state := s, results := a.results ++ events } := by
  obtain ⟨id, model, blocks, hevents, hblocks⟩ := h
  refine ⟨id, model, blocks ++ events, ?_, hformed blocks hblocks⟩
  rw [← append_assoc, hevents]
  rfl

theorem Formed.append {blocks events : List ClaudeEvent} {s s' : State} (h : Formed blocks s)
    (hid : s'.messageId = s.messageId) (honly : OnlyBlocks events)
    (hsequential : match s'.openTextBlockIdx with
      | none => Sequential (framesOf blocks ++ framesOf events) s'.contentBlockIndex false
      | some index => s'.contentBlockIndex = index + 1 ∧
          Sequential (framesOf blocks ++ framesOf events) index true)
    (htool : events.any ClaudeEvent.isToolUse = true ∨ s.hasToolUse = true → s'.hasToolUse = true) :
    Formed (blocks ++ events) s' := by
  refine ⟨?_, h.onlyBlocks.append honly, ?_, ?_⟩
  · rw [hid]
    exact h.started
  · rw [framesOf_append]
    exact hsequential
  · rintro ⟨e, he, hetool⟩
    apply htool
    rcases mem_append.mp he with he | he
    · exact .inr (h.toolUse ⟨e, he, hetool⟩)
    · exact .inl (any_eq_true.mpr ⟨e, he, hetool⟩)

/-! ## The functions of the translator -/

theorem holds_openText (h : Holds before a) :
    Holds before (openText a).2 ∧ (openText a).2.state.openTextBlockIdx = some (openText a).1 := by
  unfold openText
  cases hopen : a.state.openTextBlockIdx with
  | some index => exact ⟨h, hopen⟩
  | none =>
    refine ⟨h.append ?_, rfl⟩
    intro blocks hblocks
    have hsequential := hblocks.sequential
    rw [hopen] at hsequential
    refine hblocks.append rfl (by simp [OnlyBlocks, frameOf]) ?_ ?_
    · exact ⟨rfl, hsequential.start⟩
    · simp [ClaudeEvent.isToolUse]

theorem holds_emitText (text : JsString) (h : Holds before a) : Holds before (emitText text a) := by
  obtain ⟨hopen, hindex⟩ := holds_openText h
  unfold emitText
  generalize openText a = opened at hopen hindex ⊢
  apply hopen.append
  intro blocks hblocks
  have hsequential := hblocks.sequential
  rw [hindex] at hsequential
  refine hblocks.append rfl (by simp [OnlyBlocks, frameOf]) ?_ ?_
  · rw [hindex]
    exact ⟨hsequential.1, hsequential.2.delta⟩
  · simp [ClaudeEvent.isToolUse]

theorem holds_flushMarkdownBuffer (h : Holds before a) : Holds before (flushMarkdownBuffer a) := by
  unfold flushMarkdownBuffer
  dsimp only
  split
  · exact h.of_view rfl id
  · apply holds_emitText
    exact h.of_view rfl id

theorem holds_closeText (h : Holds before a) :
    Holds before (closeText a) ∧ (closeText a).state.openTextBlockIdx = none := by
  have hflush := holds_flushMarkdownBuffer h
  unfold closeText
  dsimp only
  cases hopen : (flushMarkdownBuffer a).state.openTextBlockIdx with
  | none => exact ⟨hflush, hopen⟩
  | some index =>
    refine ⟨hflush.append ?_, rfl⟩
    intro blocks hblocks
    have hsequential := hblocks.sequential
    rw [hopen] at hsequential
    refine hblocks.append rfl (by simp [OnlyBlocks, frameOf]) ?_ ?_
    · show Sequential _ (flushMarkdownBuffer a).state.contentBlockIndex false
      rw [hsequential.1]
      exact hsequential.2.stop
    · simp [ClaudeEvent.isToolUse]

theorem holds_emitBlock {block : ClaudeBlock} (delta : ClaudeDelta) (h : Holds before a)
    (hopen : a.state.openTextBlockIdx = none)
    (htool : (ClaudeEvent.blockStart a.state.contentBlockIndex block).isToolUse = true →
      a.state.hasToolUse = true) :
    Holds before (emitBlock block delta a) := by
  unfold emitBlock Acc.push
  dsimp only
  rw [append_assoc, append_assoc]
  apply h.append
  intro blocks hblocks
  have hsequential := hblocks.sequential
  rw [hopen] at hsequential
  refine hblocks.append rfl (by simp [OnlyBlocks, frameOf]) ?_ ?_
  · rw [hopen]
    exact hsequential.block
  · intro hor
    rcases hor with hor | hor
    · apply htool
      simpa [ClaudeEvent.isToolUse] using hor
    · exact hor

theorem blockView_storeSignature (signature : Option JsString) (toolId : JsString) (s : State) :
    blockView (storeSignature signature toolId s) = blockView s := by
  unfold storeSignature
  split <;> rfl

theorem holds_emitToolUse (codec : JsonCodec) (signature : Option JsString)
    (toolId name : JsString) (args : Json) (h : Holds before a)
    (hopen : a.state.openTextBlockIdx = none) :
    Holds before (emitToolUse codec signature toolId name args a) ∧
      (emitToolUse codec signature toolId name args a).state.openTextBlockIdx = none := by
  have hview := blockView_storeSignature signature toolId a.state
  have hstore : (storeSignature signature toolId a.state).openTextBlockIdx = none := by
    rw [← hopen]
    exact congrArg (fun view => view.2.1) hview
  refine ⟨?_, hstore⟩
  apply holds_emitBlock
  · exact h.of_view hview fun _ => rfl
  · exact hstore
  · exact fun _ => rfl

variable (opts : Options) (nowMs : Nat)

theorem holds_onFunctionCall (signature : Option JsString) (fc : FunctionCall)
    (h : Holds before a) : Holds before (onFunctionCall opts nowMs signature fc a) := by
  obtain ⟨hclosed, hopen⟩ := holds_closeText h
  exact (holds_emitToolUse _ _ _ _ _ hclosed hopen).1

theorem holds_emitCleaned (cleaned : JsString) (h : Holds before a) :
    Holds before (emitCleaned cleaned a) := by
  unfold emitCleaned
  dsimp only
  split
  · exact h
  · split
    · exact h.of_view rfl id
    · apply holds_emitText
      exact h.of_view rfl id

/-! ## The buffer of the extraction -/

section Buffer

@[simp] theorem emitText_xmlInvokeBuffer (text : JsString) (a : Acc) :
    (emitText text a).state.xmlInvokeBuffer = a.state.xmlInvokeBuffer := by
  unfold emitText openText
  cases a.state.openTextBlockIdx <;> rfl

@[simp] theorem closeText_xmlInvokeBuffer (a : Acc) :
    (closeText a).state.xmlInvokeBuffer = a.state.xmlInvokeBuffer := by
  have hflush : (flushMarkdownBuffer a).state.xmlInvokeBuffer = a.state.xmlInvokeBuffer := by
    unfold flushMarkdownBuffer
    dsimp only
    split
    · rfl
    · rw [emitText_xmlInvokeBuffer]
  rw [← hflush]
  unfold closeText
  dsimp only
  split <;> rfl

@[simp] theorem emitToolUse_xmlInvokeBuffer (codec : JsonCodec) (signature : Option JsString)
    (toolId name : JsString) (args : Json) (a : Acc) :
    (emitToolUse codec signature toolId name args a).state.xmlInvokeBuffer =
      a.state.xmlInvokeBuffer := by
  show (storeSignature signature toolId a.state).xmlInvokeBuffer = _
  unfold storeSignature
  split <;> rfl

@[simp] theorem emitCleaned_xmlInvokeBuffer (cleaned : JsString) (a : Acc) :
    (emitCleaned cleaned a).state.xmlInvokeBuffer = a.state.xmlInvokeBuffer := by
  unfold emitCleaned
  dsimp only
  split
  · rfl
  · split
    · rfl
    · rw [emitText_xmlInvokeBuffer]

end Buffer

/-! ## Parts -/

/-- What comes of some texts: an error when a name is not a string, and else
the message so far and the buffer. -/
inductive Outcome (before : List ClaudeEvent) (buffer : JsString) : Bool → Option Acc → Prop where
  | error : Outcome before buffer false none
  | message (a : Acc) : Holds before a → a.state.xmlInvokeBuffer = buffer →
      Outcome before buffer true (some a)

theorem Outcome.bind {buffer buffer' : JsString} {ok ok' : Bool} {result : Option Acc}
    {f : Acc → Option Acc} (h : Outcome before buffer ok result)
    (hf : ∀ a, Holds before a → a.state.xmlInvokeBuffer = buffer →
      Outcome before buffer' ok' (f a)) :
    Outcome before buffer' (ok && ok') (result >>= f) := by
  cases h with
  | error => exact .error
  | message a ha hbuffer =>
    exact hf a ha hbuffer

theorem emitTextToolCalls_outcome (signature : Option JsString) (calls : List TextToolCall)
    (h : Holds before a) (hopen : calls ≠ [] → a.state.openTextBlockIdx = none) :
    Outcome before a.state.xmlInvokeBuffer (calls.all fun call => isName call.name)
      (emitTextToolCalls opts signature calls a) := by
  induction calls generalizing a with
  | nil => exact .message a h rfl
  | cons call calls ih =>
    rw [all_cons, ← restoreTextToolName_isSome opts.names, emitTextToolCalls]
    cases restoreTextToolName opts.names call.name with
    | none => exact .error
    | some name =>
      obtain ⟨hemit, hclosed⟩ := holds_emitToolUse opts.codec signature call.id name
        (argsOrEmpty (some call.args)) h (hopen (by simp))
      have hrest := ih hemit fun _ => hclosed
      rw [emitToolUse_xmlInvokeBuffer] at hrest
      exact hrest

theorem onText_outcome (signature : Option JsString) (text : JsString) (h : Holds before a) :
    Outcome before (bufferAfter opts.codec a.state.xmlInvokeBuffer [(nowMs, text)])
      (namesAreStrings opts.codec a.state.xmlInvokeBuffer [(nowMs, text)])
      (onText opts nowMs signature text a) := by
  unfold onText
  rw [namesAreStrings, namesAreStrings, bufferAfter, bufferAfter]
  generalize extractXmlInvokeBlocks opts.codec nowMs a.state.xmlInvokeBuffer text = extracted
  -- The text block is closed first when there are calls.
  have hcalls : Outcome before extracted.buffer
      (extracted.toolCalls.all fun call => isName call.name)
      (emitTextToolCalls opts signature extracted.toolCalls (if extracted.toolCalls.isEmpty then
          { a with state := { a.state with xmlInvokeBuffer := extracted.buffer } }
        else closeText { a with state := { a.state with xmlInvokeBuffer := extracted.buffer } })) := by
    have hbuffer : Holds before
        { a with state := { a.state with xmlInvokeBuffer := extracted.buffer } } :=
      h.of_view rfl id
    split
    · rename_i hempty
      apply emitTextToolCalls_outcome opts signature extracted.toolCalls hbuffer
      intro hne
      exact absurd (List.isEmpty_iff.mp hempty) hne
    · obtain ⟨hclosed, hopen⟩ := holds_closeText hbuffer
      have houtcome := emitTextToolCalls_outcome opts signature extracted.toolCalls hclosed
        fun _ => hopen
      rw [closeText_xmlInvokeBuffer] at houtcome
      exact houtcome
  apply hcalls.bind
  intro a ha hbuffer
  refine .message _ (holds_emitCleaned _ ha) ?_
  rw [emitCleaned_xmlInvokeBuffer]
  exact hbuffer

theorem onPart_outcome (part : Part) (h : Holds before a) :
    Outcome before (bufferAfter opts.codec a.state.xmlInvokeBuffer
        ((visibleText part).toList.map fun text => (nowMs, text)))
      (namesAreStrings opts.codec a.state.xmlInvokeBuffer
        ((visibleText part).toList.map fun text => (nowMs, text)))
      (onPart opts nowMs part a) := by
  unfold onPart visibleText
  generalize Chat.presentId part.thoughtSignature = signature
  have hpending : Holds before
      { a with
        state := { a.state with
          pendingThoughtSignature :=
            signature.orElse fun _ => a.state.pendingThoughtSignature } } := h.of_view rfl id
  cases partKind part with
  | thinking text =>
    obtain ⟨hclosed, hopen⟩ := holds_closeText hpending
    refine .message _ (holds_emitBlock _ hclosed hopen ?_) ?_
    · intro htool
      cases htool
    · exact closeText_xmlInvokeBuffer _
  | silent => exact .message _ hpending rfl
  | functionCall fc =>
    refine .message _ (holds_onFunctionCall _ _ _ _ hpending) ?_
    unfold onFunctionCall
    rw [emitToolUse_xmlInvokeBuffer, closeText_xmlInvokeBuffer]
    rfl
  | text text => exact onText_outcome opts nowMs signature text hpending

theorem bufferAfter_append (codec : JsonCodec) (buffer : JsString) (xs ys : List (Nat × JsString)) :
    bufferAfter codec buffer (xs ++ ys) = bufferAfter codec (bufferAfter codec buffer xs) ys := by
  induction xs generalizing buffer with
  | nil => rfl
  | cons x xs ih => exact ih _

theorem onParts_outcome (parts : List Part) (h : Holds before a) :
    Outcome before (bufferAfter opts.codec a.state.xmlInvokeBuffer
        ((parts.filterMap visibleText).map fun text => (nowMs, text)))
      (namesAreStrings opts.codec a.state.xmlInvokeBuffer
        ((parts.filterMap visibleText).map fun text => (nowMs, text)))
      (onParts opts nowMs parts a) := by
  induction parts generalizing a with
  | nil => exact .message a h rfl
  | cons part parts ih =>
    have hsplit : (part :: parts).filterMap visibleText =
        (visibleText part).toList ++ parts.filterMap visibleText := by
      cases hvisible : visibleText part <;> simp [hvisible]
    rw [hsplit, map_append, bufferAfter_append, namesAreStrings_append, onParts]
    apply (onPart_outcome opts nowMs part h).bind
    intro a ha hbuffer
    rw [← hbuffer]
    exact ih ha

/-! ## Chunks -/

/-- The state between the chunks: nothing was sent yet, or a message has begun. -/
def Running (events : List ClaudeEvent) (s : State) : Prop :=
  (events = [] ∧ s.messageId = none ∧ s.hasToolUse = false) ∨ Holds events { state := s }

theorem holds_startMessage (chunk : Chunk) {s : State} (h : Running before s) :
    Holds before (startMessage nowMs chunk s) ∧
      (startMessage nowMs chunk s).state.xmlInvokeBuffer = s.xmlInvokeBuffer := by
  unfold startMessage
  cases hid : s.messageId with
  | some id =>
    rcases h with ⟨-, hnone, -⟩ | h
    · rw [hid] at hnone
      cases hnone
    · exact ⟨h, rfl⟩
  | none =>
    rcases h with ⟨rfl, -, htool⟩ | h
    · refine ⟨⟨_, _, [], rfl, rfl, ?_, Sequential.nil, ?_⟩, rfl⟩
      · intro e he
        cases he
      · rintro ⟨e, he, -⟩
        cases he
    · obtain ⟨id, model, blocks, -, hformed⟩ := h
      have hstarted := hformed.started
      rw [hid] at hstarted
      cases hstarted

theorem sequentialStream_onFinish (finishReason : JsString) (h : Holds before a) :
    SequentialStream (before ++ (onFinish opts finishReason a).results) := by
  obtain ⟨⟨id, model, blocks, hevents, hformed⟩, hopen⟩ := holds_closeText h
  have hsequential := hformed.sequential
  rw [hopen] at hsequential
  obtain ⟨sizes, -, hsizes⟩ := hsequential.shape
  unfold onFinish Acc.push
  dsimp only
  generalize hreason : stopReason opts.names (closeText a).state.hasToolUse
    (opts.names.toLowerCase finishReason) = reason
  generalize (closeText a).state.usage.getD ⟨0, 0, none, none⟩ = usage
  refine ⟨id, model, blocks, reason, usage, ?_, hformed.onlyBlocks, ⟨sizes, hsizes⟩, ?_⟩
  · rw [append_assoc, ← append_assoc, hevents]
    rfl
  · intro htool
    rw [← hreason, hformed.toolUse htool]
    rfl

theorem geminiToClaudeResponse_cases {chunk : Chunk} {candidate : Candidate}
    {s : State} (hcandidate : chunk.candidate = some candidate) (h : Running before s) :
    (namesAreStrings opts.codec s.xmlInvokeBuffer (visibleTexts [(nowMs, chunk)]) = false ∧
      geminiToClaudeResponse opts nowMs chunk s = none) ∨
    namesAreStrings opts.codec s.xmlInvokeBuffer (visibleTexts [(nowMs, chunk)]) = true ∧
      ∃ events s', geminiToClaudeResponse opts nowMs chunk s = some (events, s') ∧
        (Chat.presentId candidate.finishReason = none → Running (before ++ events) s' ∧
          s'.xmlInvokeBuffer =
            bufferAfter opts.codec s.xmlInvokeBuffer (visibleTexts [(nowMs, chunk)])) ∧
        ((Chat.presentId candidate.finishReason).isSome = true →
          SequentialStream (before ++ events)) := by
  obtain ⟨hstart, hbuffer⟩ := holds_startMessage nowMs chunk h
  have hparts := onParts_outcome opts nowMs candidate.parts hstart
  rw [hbuffer] at hparts
  have htexts : visibleTexts [(nowMs, chunk)] =
      (candidate.parts.filterMap visibleText).map fun text => (nowMs, text) := by
    simp [visibleTexts, hcandidate]
  unfold geminiToClaudeResponse
  rw [hcandidate, htexts]
  dsimp only
  cases hnames : namesAreStrings opts.codec s.xmlInvokeBuffer
      ((candidate.parts.filterMap visibleText).map fun text => (nowMs, text)) with
  | false =>
    rw [hnames] at hparts
    generalize onParts opts nowMs candidate.parts (startMessage nowMs chunk s) = result at hparts ⊢
    cases hparts with
    | error => exact .inl ⟨rfl, rfl⟩
  | true =>
    rw [hnames] at hparts
    generalize onParts opts nowMs candidate.parts (startMessage nowMs chunk s) = result at hparts ⊢
    cases hparts with
    | message a ha hafter =>
      refine .inr ⟨rfl, _, _, rfl, ?_, ?_⟩
      · intro hnone
        rw [hnone]
        obtain ⟨id, model, blocks, hevents, hformed⟩ := ha
        refine ⟨.inr ⟨id, model, blocks, ?_, ?_⟩, hafter⟩
        · rw [append_nil]
          exact hevents
        · exact { hformed with }
      · intro hsome
        obtain ⟨reason, hreason⟩ := Option.isSome_iff_exists.mp hsome
        rw [hreason]
        apply sequentialStream_onFinish
        exact ha.of_view rfl id

/-! ## Streams -/

theorem visibleTexts_cons (chunk : Nat × Chunk) (timed : List (Nat × Chunk)) :
    visibleTexts (chunk :: timed) = visibleTexts [chunk] ++ visibleTexts timed := by
  simp [visibleTexts]

theorem FinishesLast.of_cons {chunk : Chunk} {chunks : List Chunk} {candidate : Candidate}
    (h : FinishesLast (chunk :: chunks)) (hcandidate : chunk.candidate = some candidate) :
    ((Chat.presentId candidate.finishReason).isSome = true ∧ ∀ c ∈ chunks, c.candidate = none) ∨
    Chat.presentId candidate.finishReason = none ∧ FinishesLast chunks := by
  obtain ⟨earlier, last, hfilter, hlast, hearlier⟩ := h
  rw [filterMap_cons_some hcandidate] at hfilter
  cases earlier with
  | nil =>
    simp only [nil_append, List.cons.injEq] at hfilter
    obtain ⟨rfl, hrest⟩ := hfilter
    refine .inl ⟨hlast, ?_⟩
    intro c hc
    have hnone := filterMap_eq_nil_iff.mp hrest c hc
    exact hnone
  | cons first earlier =>
    simp only [cons_append, List.cons.injEq] at hfilter
    obtain ⟨rfl, hrest⟩ := hfilter
    refine .inr ⟨hearlier _ (by simp), earlier, last, hrest, hlast, ?_⟩
    intro c hc
    exact hearlier c (by simp [hc])

theorem translate_silent {timed : List (Nat × Chunk)}
    (h : ∀ c ∈ timed.map Prod.snd, c.candidate = none) (s : State) :
    translate opts timed s = some ([], s) ∧ visibleTexts timed = [] := by
  induction timed with
  | nil => exact ⟨rfl, rfl⟩
  | cons chunk timed ih =>
    have hchunk : chunk.2.candidate = none := h chunk.2 (by simp)
    obtain ⟨hrest, htexts⟩ := ih fun c hc => h c (by simp [hc])
    constructor
    · rw [translate, geminiToClaudeResponse, hchunk]
      simp [hrest]
    · rw [visibleTexts_cons, htexts, append_nil]
      simp [visibleTexts, hchunk]

theorem translate_cases (opts : Options) (timed : List (Nat × Chunk)) {s : State}
    (hfinishes : FinishesLast (timed.map Prod.snd)) (h : Running before s) :
    (namesAreStrings opts.codec s.xmlInvokeBuffer (visibleTexts timed) = false ∧
      translate opts timed s = none) ∨
    namesAreStrings opts.codec s.xmlInvokeBuffer (visibleTexts timed) = true ∧
      ∃ events s', translate opts timed s = some (events, s') ∧
        SequentialStream (before ++ events) := by
  induction timed generalizing before s with
  | nil =>
    obtain ⟨earlier, last, hfilter, -⟩ := hfinishes
    simp at hfilter
  | cons chunk timed ih =>
    obtain ⟨nowMs, chunk⟩ := chunk
    rw [visibleTexts_cons, namesAreStrings_append, translate]
    cases hcandidate : chunk.candidate with
    | none =>
      have hrest : FinishesLast (timed.map Prod.snd) := by
        obtain ⟨earlier, last, hfilter, hlast⟩ := hfinishes
        rw [map_cons, filterMap_cons_none hcandidate] at hfilter
        exact ⟨earlier, last, hfilter, hlast⟩
      have htexts : visibleTexts [(nowMs, chunk)] = [] := by
        simp [visibleTexts, hcandidate]
      rw [htexts, namesAreStrings, bufferAfter, geminiToClaudeResponse, hcandidate, Bool.true_and]
      rcases ih hrest h with ⟨hnames, herror⟩ | ⟨hnames, events, s', hrun, hstream⟩
      · exact .inl ⟨hnames, by simp [herror]⟩
      · exact .inr ⟨hnames, events, s', by simp [hrun], hstream⟩
    | some candidate =>
      rcases geminiToClaudeResponse_cases opts nowMs hcandidate h with
        ⟨hnames, herror⟩ | ⟨hnames, events, s', hstep, hmore, hfinish⟩
      · left
        rw [hnames, herror]
        exact ⟨rfl, rfl⟩
      · rw [hnames, hstep, Bool.true_and]
        rcases hfinishes.of_cons hcandidate with ⟨hreason, hsilent⟩ | ⟨hreason, hrest⟩
        · -- The last candidate: what follows does nothing.
          obtain ⟨hrun, htexts⟩ := translate_silent opts hsilent s'
          right
          rw [htexts]
          refine ⟨rfl, events, s', by simp [hrun], hfinish hreason⟩
        · obtain ⟨hrunning, hbuffer⟩ := hmore hreason
          rw [← hbuffer]
          rcases ih hrest hrunning with ⟨hnames, herror⟩ | ⟨hnames, rest, s'', hrun, hstream⟩
          · exact .inl ⟨hnames, by simp [herror]⟩
          · refine .inr ⟨hnames, events ++ rest, s'', by simp [hrun], ?_⟩
            rw [← append_assoc]
            exact hstream

/-- A stream is translated to a sequential stream exactly when the tool calls
in its texts have names that are strings. -/
theorem sequentialStream_iff (opts : Options) (timed : List (Nat × Chunk))
    (h : FinishesLast (timed.map Prod.snd)) :
    (∃ events, (translate opts timed {}).map Prod.fst = some events ∧ SequentialStream events) ↔
      namesAreStrings opts.codec [] (visibleTexts timed) = true := by
  have hcases := @translate_cases [] opts timed {} h (.inl ⟨rfl, rfl, rfl⟩)
  rcases hcases with ⟨hnames, herror⟩ | ⟨hnames, events, s', hrun, hstream⟩
  · rw [herror, hnames]
    simp
  · rw [hrun]
    constructor
    · intro _
      exact hnames
    · intro _
      exact ⟨events, rfl, hstream⟩

/-! ## Two streams -/

/-- `JSON.parse` and `JSON.stringify` for texts without JSON, and for a tool call
whose name is a number. -/
def numberNameCodec : JsonCodec where
  parse := fun text =>
    if text = js "\x7b\"name\":5\x7d" then
      some (.obj [(js "name", .num 0x4014000000000000)])
    else none
  stringify := fun _ => js "\x7b\x7d"
  parse_nil := by decide

def asciiOptions : Options where
  codec := numberNameCodec
  names := { toLowerCase := fun text => text.map Regex.asciiLower }

def candidateChunk (parts : List Part) (finishReason : Option JsString) : Nat × Chunk :=
  (1000, { candidate := some { parts := parts, finishReason := finishReason } })

/-- A thought, text and a function call, in two chunks with a chunk that has only
a usage between them. -/
def mixedStream : List (Nat × Chunk) :=
  [candidateChunk
      [{ text := some (js "plan"), thought := true }, { text := some (js "see **") }] none,
    (1000, { usage := some { promptTokenCount := some 3 } }),
    candidateChunk [{ functionCall := some { name := some (js "read") } }] (some (js "STOP"))]

theorem mixedStream_finishesLast : FinishesLast (mixedStream.map Prod.snd) :=
  ⟨[_], _, rfl, rfl, by simp⟩

theorem mixedStream_sequential :
    ∃ events, (translate asciiOptions mixedStream {}).map Prod.fst = some events ∧
      SequentialStream events :=
  (sequentialStream_iff asciiOptions mixedStream mixedStream_finishesLast).mpr (by decide)

/-- A text tool call whose name is a number. -/
def numberNameStream : List (Nat × Chunk) :=
  [candidateChunk
    [{ text := some (js "<tool_call>\x7b\"name\":5\x7d</tool_call>") }] (some (js "STOP"))]

theorem not_sequential_numberName : FinishesLast (numberNameStream.map Prod.snd) ∧
      ¬ ∃ events, (translate asciiOptions numberNameStream {}).map Prod.fst = some events ∧
        SequentialStream events := by
  constructor
  · exact ⟨[], _, rfl, rfl, by simp⟩
  · have herror : (translate asciiOptions numberNameStream {}).map Prod.fst = none := rfl
    rintro ⟨events, hevents, -⟩
    cases hevents

end RedRouter.Response.GeminiToClaude
