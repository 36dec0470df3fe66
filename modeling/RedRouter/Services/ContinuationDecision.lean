import RedRouter.Services.StitchedStream

/-!
# The decision to continue a stream

A stream that breaks is continued when the scans of its batches allow it.  Most
of what they found is added up, so that the batches play no part.  Two things
are asked of each batch by itself: whether a tool call was started in it and
none finished, and whether its last finish reason is that of a tool call
(`Holds`).  The second one is asked with `toolCallOrderFix` only, where a tool
call alone is enough to end the stream.

The chunks decide how the events are put into batches.  In one chunk all are
one batch, and in chunks of one byte each event is a batch of its own.
-/

namespace RedRouter.Services

open List SseScanFold

/-! ## Scans of a stream in batches

The stream is scanned as it comes: a chunk completes some events, and these are
one batch.  What the scans of two batches say together is `combine`, and a scan
of both at once says no more (`scanLines_append`).

`events` cuts a text at its blank lines.  Every batch is a row of whole events,
whatever the chunks are (`events_append`).
-/

namespace SseScanFold

/-! ## Two scans -/

def combine (fold scan : SseScanFold) : SseScanFold where
  text := fold.text ++ scan.text
  reasoningText := fold.reasoningText ++ scan.reasoningText
  sawToolCall := fold.sawToolCall || scan.sawToolCall
  toolCallFinished := fold.toolCallFinished || scan.toolCallFinished
  terminal := fold.terminal || scan.terminal
  finishReason := scan.finishReason.or fold.finishReason
  parsedOpenAi := fold.parsedOpenAi || scan.parsedOpenAi
  parsedResponses := fold.parsedResponses || scan.parsedResponses

theorem combine_empty (fold : SseScanFold) : fold.combine {} = fold := by simp [combine]

theorem empty_combine (scan : SseScanFold) : combine {} scan = scan := by simp [combine]

theorem combine_assoc (a b c : SseScanFold) :
    (a.combine b).combine c = a.combine (b.combine c) := by
  simp [combine, Bool.or_assoc, Option.or_assoc]

/-- A step of a scan adds to what was found before, and does not look at it. -/
def Adds (f : SseScanFold → SseScanFold) : Prop := ∀ fold, f fold = fold.combine (f {})

variable {f g : SseScanFold → SseScanFold}

theorem Adds.id : Adds fun fold => fold := fun fold => (combine_empty fold).symm

theorem Adds.andThen (hf : Adds f) (hg : Adds g) : Adds fun fold => g (f fold) := by
  intro fold
  show g (f fold) = fold.combine (g (f {}))
  rw [hg (f fold), hf fold, hg (f {}), combine_assoc]

theorem adds_scanChatFinishReason (reason : Option Json) : Adds (scanChatFinishReason reason) := by
  intro fold
  unfold scanChatFinishReason
  split
  · exact (combine_empty fold).symm
  · exact (combine_empty fold).symm
  · split <;> simp [combine]
  · simp [combine]

theorem adds_addText (s : Option Json) : Adds (addText s) := by
  intro fold
  unfold addText
  split <;> simp [combine]

theorem adds_addReasoning (s : Option Json) : Adds (addReasoning s) := by
  intro fold
  unfold addReasoning
  split <;> simp [combine]

theorem adds_scanToolCalls (toolCalls : Option Json) : Adds (scanToolCalls toolCalls) := by
  intro fold
  unfold scanToolCalls
  split <;> simp [combine]

theorem adds_scanDelta (delta : Json) : Adds (scanDelta delta) := by
  have hparsed : Adds fun fold => { fold with parsedOpenAi := true } := by
    intro fold
    simp [combine]
  unfold scanDelta
  by_cases hobject : isObject delta = true
  · simp only [if_pos hobject]
    exact ((hparsed.andThen (adds_addText _)).andThen (adds_addReasoning _)).andThen
      (adds_scanToolCalls _)
  · simp only [if_neg hobject]
    exact Adds.id

theorem adds_scanChatChoice (choice : Json) : Adds (scanChatChoice choice) := by
  unfold scanChatChoice
  cases choice.get? (js "delta") with
  | none => exact Adds.id.andThen (adds_scanChatFinishReason _)
  | some delta => exact (adds_scanDelta delta).andThen (adds_scanChatFinishReason _)

theorem adds_scanChatChoices (choices : List Json) :
    Adds (choices.foldl fun fold choice => fold.scanChatChoice choice) := by
  induction choices with
  | nil => exact Adds.id
  | cons choice choices ih => exact (adds_scanChatChoice choice).andThen ih

theorem adds_markToolCall (finished : Bool) : Adds (markToolCall finished) := by
  intro fold
  simp [combine, markToolCall]

theorem adds_markParsed : Adds markParsed := by
  intro fold
  simp [combine, markParsed]

theorem adds_scanResponsesOutputItem (finished : Bool) (json : Json) :
    Adds (scanResponsesOutputItem finished json) := by
  unfold scanResponsesOutputItem
  split
  · split
    · exact (adds_markToolCall finished).andThen adds_markParsed
    · exact Adds.id
  · exact Adds.id

theorem adds_scanResponsesEvent (json : Json) : Adds (scanResponsesEvent json) := by
  unfold scanResponsesEvent
  split
  · split
    · exact (adds_addText _).andThen adds_markParsed
    split
    · exact (adds_addReasoning _).andThen adds_markParsed
    split
    · exact Adds.id
    split
    · exact (adds_markToolCall false).andThen adds_markParsed
    split
    · exact (adds_markToolCall true).andThen adds_markParsed
    split
    · exact adds_scanResponsesOutputItem false json
    split
    · exact adds_scanResponsesOutputItem true json
    split
    · intro fold
      simp [combine]
    · exact Adds.id
  · exact Adds.id

end SseScanFold

variable {number : JsString → UInt64}

theorem scanPayload_adds (payload : JsString) (fold : SseScanFold) :
    scanPayload number payload fold = (scanPayload number payload {}).map fold.combine := by
  unfold scanPayload
  split
  · rw [Option.map_some, combine_empty]
  split
  · simp [combine]
  split
  · rw [Option.map_some, combine_empty]
  · rfl
  · split
    · exact congrArg some (adds_scanChatChoices _ fold)
    · exact congrArg some (adds_scanResponsesEvent _ fold)

theorem scanSseLine_adds (fold : SseScanFold) (line : JsString) :
    scanSseLine number fold line = (scanSseLine number {} line).map fold.combine := by
  unfold scanSseLine
  dsimp only
  split
  · exact scanPayload_adds _ fold
  · rw [Option.map_some, combine_empty]

/-! ## The scan of some lines -/

variable (number) in
def scanLines (lines : List JsString) : Option SseScanFold :=
  lines.foldlM (scanSseLine number) {}

theorem foldlM_scanSseLine (lines : List JsString) (fold : SseScanFold) :
    lines.foldlM (scanSseLine number) fold = (scanLines number lines).map fold.combine := by
  induction lines generalizing fold with
  | nil => exact congrArg some (combine_empty fold).symm
  | cons line lines ih =>
    unfold scanLines
    rw [foldlM_cons, foldlM_cons, scanSseLine_adds]
    cases scanSseLine number {} line with
    | none => rfl
    | some said =>
      show lines.foldlM (scanSseLine number) (fold.combine said) =
        (lines.foldlM (scanSseLine number) said).map fold.combine
      rw [ih, ih said, Option.map_map]
      exact congrArg (Option.map · _) (funext fun scan => combine_assoc fold said scan)

theorem scanLines_append (lines more : List JsString) : scanLines number (lines ++ more) =
      (scanLines number lines).bind fun fold => (scanLines number more).map fold.combine := by
  rw [scanLines, foldlM_append]
  exact congrArg (Option.bind _) (funext fun fold => foldlM_scanSseLine more fold)

/-- Blank lines say nothing. -/
theorem scanLines_filter (lines : List JsString) :
    scanLines number (lines.filter fun line => line ≠ []) = scanLines number lines := by
  unfold scanLines
  generalize ({} : SseScanFold) = fold
  induction lines generalizing fold with
  | nil => rfl
  | cons line lines ih =>
    cases line with
    | nil =>
      rw [filter_cons_of_neg (by simp), ih]
      rfl
    | cons c line =>
      exact congrArg (Option.bind _) (funext ih)

/-! ## Events -/

/-- The lines between blank lines; `event` are the lines since the last one. -/
def eventsFrom (event : List JsString) : List JsString → List (List JsString)
  | [] => []
  | [] :: lines =>
      if event = [] then eventsFrom [] lines else event :: eventsFrom [] lines
  | line :: lines => eventsFrom (event ++ [line]) lines

def events (text : JsString) : List (List JsString) := eventsFrom [] (text.splitOn lf).dropLast

theorem eventsFrom_append (event lines more : List JsString) :
    eventsFrom event (lines ++ [] :: more) =
      eventsFrom event (lines ++ [[]]) ++ eventsFrom [] more := by
  induction lines generalizing event with
  | nil => simp only [nil_append, eventsFrom]; split <;> rfl
  | cons line lines ih =>
    cases line with
    | nil =>
      simp only [cons_append, eventsFrom]
      split
      · exact ih []
      · rw [ih [], cons_append]
    | cons c line => exact ih (event ++ [c :: line])

theorem flatten_eventsFrom (event lines : List JsString) :
    (eventsFrom event (lines ++ [[]])).flatten = event ++ lines.filter fun line => line ≠ [] := by
  induction lines generalizing event with
  | nil =>
    simp only [nil_append, eventsFrom]
    split
    · rename_i hnil
      rw [hnil]
      rfl
    · simp
  | cons line lines ih =>
    cases line with
    | nil =>
      rw [filter_cons_of_neg (by simp)]
      simp only [cons_append, eventsFrom]
      split
      · rename_i hnil
        rw [ih, hnil]
      · rw [List.flatten_cons, ih, nil_append]
    | cons c line =>
      rw [filter_cons_of_pos (by simp), append_cons event]
      exact ih (event ++ [c :: line])

/-- Lines without a blank line before the last one are at most one event. -/
theorem length_eventsFrom {lines : List JsString} (h : [] ∉ lines) (event : List JsString)
    (last : JsString) : (eventsFrom event (lines ++ [last])).length ≤ 1 := by
  induction lines generalizing event with
  | nil =>
    cases last with
    | nil =>
      simp only [nil_append, eventsFrom]
      split <;> simp
    | cons c last => exact Nat.zero_le 1
  | cons line lines ih =>
    rw [mem_cons, not_or] at h
    cases line with
    | nil => exact absurd rfl h.1
    | cons c line => exact ih h.2 (event ++ [c :: line])

theorem eventsFrom_eq_nil {lines : List JsString} (h : [] ∉ lines) (event : List JsString) :
    eventsFrom event lines = [] := by
  induction lines generalizing event with
  | nil => rfl
  | cons line lines ih =>
    rw [mem_cons, not_or] at h
    cases line with
    | nil => exact absurd rfl h.1
    | cons c line => exact ih h.2 (event ++ [c :: line])

theorem dropLast_splitOn (text more : JsString) : ((text ++ lf :: more).splitOn lf).dropLast =
      text.splitOn lf ++ (more.splitOn lf).dropLast := by
  rw [splitOn_append_cons_self, dropLast_append_of_ne_nil (splitOn_ne_nil _ _)]

theorem events_blank (before more : JsString) : events (before ++ [lf, lf] ++ more) =
      eventsFrom [] (before.splitOn lf ++ [[]]) ++ events more := by
  have hmore : ((lf :: more).splitOn lf).dropLast = [] :: (more.splitOn lf).dropLast :=
    dropLast_splitOn [] more
  unfold events
  rw [append_assoc, cons_append, singleton_append, dropLast_splitOn, hmore, eventsFrom_append]

variable {text : JsString}

theorem Complete.events_append (h : Complete text) (more : JsString) :
    events (text ++ more) = events text ++ events more := by
  rcases h with rfl | ⟨before, rfl⟩
  · rfl
  · have hnil := events_blank before []
    rw [append_nil] at hnil
    rw [events_blank, hnil]
    exact congrArg (· ++ _) (append_nil _).symm

theorem Complete.scan_eq (h : Complete text) :
    scanOpenAiSseText number text = scanLines number (events text).flatten := by
  rcases h with rfl | ⟨before, rfl⟩
  · rfl
  · have hevents := events_blank before []
    rw [append_nil] at hevents
    have hlines : (before ++ [lf, lf]).splitOn lf = before.splitOn lf ++ [[], []] := by
      rw [splitOn_append_cons_self]
      rfl
    have hnil : events [] = [] := rfl
    rw [hevents, hnil, append_nil, flatten_eventsFrom, nil_append, scanLines_filter]
    show (List.splitOn lf _).foldlM _ _ = _
    rw [hlines, foldlM_append, ← scanLines]
    cases scanLines number (before.splitOn lf) <;> rfl

/-- The lines of a text without a blank line, up to the last one. -/
theorem exists_lines (h : ¬ [lf, lf] <:+: text) :
    ∃ lines last, text.splitOn lf = lines ++ [last] ∧ [] ∉ lines.tail := by
  have hlines : ∀ text : JsString, ∃ lines last,
      text.splitOn lf = lines ++ [last] ∧ text = ofLines lines ++ last := by
    intro text
    induction text with
    | nil => exact ⟨[], [], rfl, rfl⟩
    | cons c text ih =>
      obtain ⟨lines, last, hsplit, htext⟩ := ih
      by_cases hc : c = lf
      · refine ⟨[] :: lines, last, ?_, ?_⟩
        · rw [hc, ← nil_append (lf :: text), splitOn_append_cons_self, hsplit]
          rfl
        · rw [hc, htext, ofLines_cons]
          rfl
      · have hcons : (c :: text).splitOn lf = (text.splitOn lf).modifyHead (List.cons c) := by
          unfold List.splitOn
          rw [splitOnP_cons_eq_if_modifyHead, if_neg (by simpa using hc)]
        rw [hcons, hsplit, htext]
        cases lines with
        | nil => exact ⟨[], c :: last, rfl, rfl⟩
        | cons line lines => exact ⟨(c :: line) :: lines, last, rfl, rfl⟩
  obtain ⟨lines, last, hsplit, htext⟩ := hlines text
  refine ⟨lines, last, hsplit, fun hblank => h ?_⟩
  cases lines with
  | nil => cases hblank
  | cons first lines =>
    obtain ⟨before, after, rfl⟩ := append_of_mem hblank
    have hends : ∃ start, ofLines (first :: before) = start ++ [lf] := by
      rw [← dropLast_append_getLast (cons_ne_nil first before), ofLines_append, ofLines_cons]
      exact ⟨_, (append_assoc _ _ [lf]).symm⟩
    obtain ⟨start, hstart⟩ := hends
    refine ⟨start, ofLines after ++ last, ?_⟩
    rw [htext, ← cons_append, ofLines_append, hstart, ofLines_cons]
    simp

theorem events_of_no_boundary (h : ¬ [lf, lf] <:+: text) :
    events text = [] ∧ (events (text ++ [lf])).length ≤ 1 := by
  obtain ⟨lines, last, hsplit, hblank⟩ := exists_lines h
  have hsnoc : ((text ++ [lf]).splitOn lf).dropLast = lines ++ [last] := by
    rw [dropLast_splitOn, hsplit]
    simp
  unfold events
  rw [hsnoc, hsplit, dropLast_concat]
  cases lines with
  | nil => exact ⟨rfl, length_eventsFrom not_mem_nil [] last⟩
  | cons first lines =>
    cases first with
    | nil => exact ⟨eventsFrom_eq_nil hblank [], length_eventsFrom hblank [] last⟩
    | cons c first =>
      exact ⟨eventsFrom_eq_nil hblank _, length_eventsFrom hblank _ last⟩

/-! ## Tool calls -/

/-- Where a tool call belongs to: a choice of a chat completion, or an item of a
response. -/
inductive CallPlace where
  | choice (index : Option Json)
  | item (outputIndex : Option Json)

inductive CallEvent where
  | started (place : CallPlace)
  | finished (place : CallPlace)

/-- What the scan of one choice or of one item says. -/
def SseScanFold.callEvents (place : CallPlace) (said : SseScanFold) : List CallEvent :=
  (if said.sawToolCall then [.started place] else []) ++
    (if said.toolCallFinished then [.finished place] else [])

def jsonCallEvents (json : Json) : List CallEvent :=
  match json.get? (js "choices") with
  | some (.arr choices) =>
      choices.flatMap fun choice =>
        (scanChatChoice choice {}).callEvents (.choice (choice.get? (js "index")))
  | _ => (scanResponsesEvent json {}).callEvents (.item (json.get? (js "output_index")))

variable (number : JsString → UInt64)

/-- The tool calls that a line starts and finishes. -/
def lineCallEvents (line : JsString) : List CallEvent :=
  if JsString.startsWith (JsString.trimStart line) (js "data:") then
    match JsonText.parse number (JsString.trim ((JsString.trimStart line).drop 5)) with
    | some json => jsonCallEvents json
    | none => []
  else []

/-- A tool call was started, and did not finish since. -/
def Unfinished (calls : List CallEvent) : Prop :=
  ∃ before place after, calls = before ++ .started place :: after ∧ .finished place ∉ after

/-! ## Batches -/

def completeEvents (bytes : List UInt8) : List (List JsString) :=
  events (Utf8Decoder.decode {} bytes).2

def Says (p : SseScanFold → Prop) (lines : List JsString) : Prop :=
  ∃ scan, scanLines number lines = some scan ∧ p scan

/-- What keeps a batch from being continued. -/
def Holds (o : RecoverableStreamOptions) (scan : SseScanFold) : Prop :=
  if o.toolCallOrderFix then scan.finishReason = some (js "tool_calls")
  else scan.sawToolCallInFlight = true

/-- What is asked of all that was said. -/
structure Continuable (o : RecoverableStreamOptions) (said : SseScanFold) : Prop where
  enabled : o.continueStream.isSome = true
  budget : 0 < o.maxContinuations
  parsed : said.parsedOpenAi = true ∨ said.parsedResponses = true
  cut : if said.text = [] then
      said.finishReason = some (js "stop") ∧ said.sawToolCall = false ∧ said.reasoningText ≠ []
    else said.terminal = false
  order : o.toolCallOrderFix = true → said.sawToolCall = false

variable {number} {o : RecoverableStreamOptions} {p : SseScanFold → Prop}

theorem holds_combine {a b : SseScanFold} (h : Holds o (a.combine b)) : Holds o a ∨ Holds o b := by
  unfold Holds at h ⊢
  split
  · rename_i horder
    rw [if_pos horder] at h
    cases hb : b.finishReason with
    | none =>
      simp only [combine, hb] at h
      exact .inl h
    | some reason =>
      simp only [combine, hb] at h
      exact .inr h
  · rename_i horder
    rw [if_neg horder] at h
    simp only [combine, sawToolCallInFlight, Bool.and_eq_true, Bool.or_eq_true,
      Bool.not_eq_true', Bool.or_eq_false_iff] at h ⊢
    rcases h with ⟨ha | hb, hna, hnb⟩
    · exact .inl ⟨ha, hna⟩
    · exact .inr ⟨hb, hnb⟩

theorem not_holds_empty : ¬ Holds o {} := by
  unfold Holds
  split <;> simp [sawToolCallInFlight]

/-- A batch is held back only by one of its parts. -/
theorem Says.exists_part {parts : List (List JsString)}
    (h : Says number (Holds o) parts.flatten) : ∃ part ∈ parts, Says number (Holds o) part := by
  induction parts with
  | nil =>
    obtain ⟨scan, hscan, hholds⟩ := h
    obtain rfl := Option.some.inj hscan
    exact absurd hholds not_holds_empty
  | cons part parts ih =>
    obtain ⟨scan, hscan, hholds⟩ := h
    rw [List.flatten_cons, scanLines_append] at hscan
    obtain ⟨a, ha, hscan⟩ := Option.bind_eq_some_iff.mp hscan
    obtain ⟨b, hb, rfl⟩ := Option.map_eq_some_iff.mp hscan
    rcases holds_combine hholds with hholds | hholds
    · exact ⟨part, mem_cons_self, a, ha, hholds⟩
    · obtain ⟨part', hpart', hsays⟩ := ih ⟨b, hb, hholds⟩
      exact ⟨part', mem_cons_of_mem part hpart', hsays⟩

/-! ## What the stream has found -/

def total (scans : List SseScanFold) : SseScanFold := scans.foldl combine {}

theorem total_concat (scans : List SseScanFold) (scan : SseScanFold) :
    total (scans ++ [scan]) = (total scans).combine scan := by
  rw [total, foldl_append]
  rfl

theorem sawToolCall_total (scans : List SseScanFold) :
    (total scans).sawToolCall = scans.any (·.sawToolCall) := by
  induction scans using List.reverseRecOn with
  | nil => rfl
  | append_singleton scans scan ih =>
    rw [total_concat, any_append, ← ih]
    simp [combine]

theorem scanLines_batches {batches : List (List (List JsString))} {scans : List SseScanFold}
    (h : List.Forall₂ (fun batch scan => scanLines number batch.flatten = some scan) batches scans) :
    scanLines number batches.flatten.flatten = some (total scans) := by
  have hfrom : ∀ fold : SseScanFold, (scanLines number batches.flatten.flatten).map fold.combine =
      some (scans.foldl combine fold) := by
    induction h with
    | nil => exact fun fold => congrArg some (combine_empty fold)
    | @cons batch scan batches scans hscan _ ih =>
      intro fold
      rw [List.flatten_cons, flatten_append, scanLines_append, hscan, Option.bind_some,
        Option.map_map, foldl_cons, ← ih (fold.combine scan)]
      exact congrArg (Option.map · _) (funext fun more => (combine_assoc fold scan more).symm)
  have hempty := hfrom {}
  rw [funext empty_combine, Option.map_id'] at hempty
  exact hempty

namespace RecoverableStream

/-- What the stream has found, as one scan would have it. -/
def said (s : RecoverableStream) : SseScanFold where
  text := s.emittedText
  reasoningText := s.emittedReasoningText
  sawToolCall := s.emittedSawToolCall
  terminal := s.emittedTerminal
  finishReason := s.emittedFinishReason
  parsedOpenAi := s.emittedParsedOpenAi
  parsedResponses := s.emittedParsedResponses

/-- The stream has found what these scans say. -/
structure Found (scans : List SseScanFold) (s : RecoverableStream) : Prop where
  continuations : s.continuations = 0
  said : s.said = { total scans with toolCallFinished := false }
  inFlight : s.emittedToolCallInFlight = scans.any sawToolCallInFlight
  finish : s.emittedToolCallFinish =
    scans.any fun scan => scan.finishReason == some (js "tool_calls")

variable {s : RecoverableStream} {scans : List SseScanFold}

theorem found_init : Found [] { holdback := { committed := true } } := ⟨rfl, rfl, rfl, rfl⟩

theorem Found.fold (h : Found scans s) (scan : SseScanFold) :
    Found (scans ++ [scan]) (s.fold scan) where
  continuations := h.continuations
  said := by
    have hsaid : (s.fold scan).said = { s.said.combine scan with toolCallFinished := false } := rfl
    rw [hsaid, h.said, total_concat]
    rfl
  inFlight := by
    rw [any_append, ← h.inFlight]
    simp [RecoverableStream.fold]
  finish := by
    rw [any_append, ← h.finish]
    simp [RecoverableStream.fold]

theorem canContinue_eq (s : RecoverableStream) :
    s.canContinue o = (o.continueStream.isSome && decide (s.continuations < o.maxContinuations) &&
      (s.said.parsedOpenAi || s.said.parsedResponses) && !s.emittedToolCallInFlight &&
      (if s.said.text.isEmpty then s.said.finishReason == some (js "stop") &&
          !s.said.sawToolCall && s.said.text.isEmpty && !s.said.reasoningText.isEmpty
        else !s.said.terminal) &&
      !((s.said.sawToolCall || s.emittedToolCallFinish) && o.toolCallOrderFix)) :=
  rfl

theorem Found.canContinue_iff (h : Found scans s) :
    s.canContinue o = true ↔ Continuable o (total scans) ∧ ∀ scan ∈ scans, ¬ Holds o scan := by
  rw [canContinue_eq, h.said, h.continuations, h.inFlight, h.finish]
  have hcut : (if (total scans).text.isEmpty then (total scans).finishReason == some (js "stop") &&
        !(total scans).sawToolCall && (total scans).text.isEmpty &&
          !(total scans).reasoningText.isEmpty
      else !(total scans).terminal) = true ↔
        if (total scans).text = [] then (total scans).finishReason = some (js "stop") ∧
          (total scans).sawToolCall = false ∧ (total scans).reasoningText ≠ []
        else (total scans).terminal = false := by
    cases (total scans).text <;> simp [and_assoc]
  simp only [Bool.and_eq_true, decide_eq_true_eq, Bool.or_eq_true, hcut, Bool.not_eq_true',
    any_eq_false, Bool.and_eq_false_iff, Bool.or_eq_false_iff]
  constructor
  · rintro ⟨⟨⟨⟨⟨henabled, hbudget⟩, hparsed⟩, hflight⟩, hend⟩, horder⟩
    refine ⟨⟨henabled, hbudget, hparsed, hend, fun hfix => ?_⟩, fun scan hscan hholds => ?_⟩
    · rcases horder with ⟨hsaw, -⟩ | hno
      · exact hsaw
      · exact absurd (hno.symm.trans hfix) Bool.false_ne_true
    · unfold Holds at hholds
      split at hholds
      · rename_i hfix
        rcases horder with ⟨-, hfinish⟩ | hno
        · exact hfinish scan hscan (beq_iff_eq.mpr hholds)
        · exact absurd (hno.symm.trans hfix) Bool.false_ne_true
      · exact hflight scan hscan hholds
  · rintro ⟨⟨henabled, hbudget, hparsed, hend, horder⟩, hnone⟩
    cases hfix : o.toolCallOrderFix with
    | true =>
      have hsaw := horder hfix
      rw [sawToolCall_total, any_eq_false] at hsaw
      refine ⟨⟨⟨⟨⟨henabled, hbudget⟩, hparsed⟩, fun scan hscan hflight => hsaw scan hscan ?_⟩, hend⟩,
        .inl ⟨horder hfix, fun scan hscan hfinish => hnone scan hscan ?_⟩⟩
      · exact (Bool.and_eq_true_iff.mp hflight).1
      · unfold Holds
        rw [if_pos hfix]
        exact beq_iff_eq.mp hfinish
    | false =>
      refine ⟨⟨⟨⟨⟨henabled, hbudget⟩, hparsed⟩, fun scan hscan hflight => hnone scan hscan ?_⟩,
        hend⟩, .inr rfl⟩
      unfold Holds
      rw [if_neg (by rw [hfix]; exact Bool.false_ne_true)]
      exact hflight

/-! ## The batches of some chunks -/

variable (number o) in
def afterChunks (chunks : List (List UInt8)) : RecoverableStream :=
  chunks.foldl (emit number o) { holdback := { committed := true } }

variable (number o) in
def continues (chunks : List (List UInt8)) : Bool :=
  decide ((afterChunks number o chunks).status = .open) && (afterChunks number o chunks).canContinue o

theorem afterChunks_concat (chunks : List (List UInt8)) (chunk : List UInt8) :
    afterChunks number o (chunks ++ [chunk]) = emit number o (afterChunks number o chunks) chunk := by
  unfold afterChunks
  rw [foldl_append]
  rfl

theorem holdback_emit (s : RecoverableStream) (chunk : List UInt8) :
    (s.emit number o chunk).holdback = s.holdback := by
  unfold RecoverableStream.emit RecoverableStream.track
  dsimp only
  split
  · split
    · split
      · rfl
      · split <;> rfl
    · rfl
  · rfl

theorem holdback_afterChunks (chunks : List (List UInt8)) :
    (afterChunks number o chunks).holdback = { committed := true } := by
  induction chunks using List.reverseRecOn with
  | nil => rfl
  | append_singleton chunks chunk ih => rw [afterChunks_concat, holdback_emit, ih]

theorem step_committed (hcommitted : s.holdback.committed = true) (chunk : List UInt8) (now : Nat) :
    s.step number o ⟨.chunk chunk now false, false⟩ = s.emit number o chunk := by
  unfold RecoverableStream.step
  split
  · rfl
  · rename_i hdone
    unfold RecoverableStream.emit
    rw [if_neg hdone]

/-- The opening is held back, or the stream is where its chunks lead. -/
theorem run_chunks (reads : List (List UInt8 × Nat)) :
    ∃ s, run number o (reads.map fun read => ⟨.chunk read.1 read.2 false, false⟩) = s ∧
      (s = { holdback := s.holdback } ∧ s.holdback.committed = false ∧
          s.holdback.chunks = reads.map Prod.fst ∨
        s = afterChunks number o (reads.map Prod.fst)) := by
  refine ⟨_, rfl, ?_⟩
  induction reads using List.reverseRecOn with
  | nil => exact .inl ⟨rfl, rfl, rfl⟩
  | append_singleton reads read ih =>
    have hrun : run number o ((reads ++ [read]).map fun read => ⟨.chunk read.1 read.2 false, false⟩) =
        (run number o (reads.map fun read => ⟨.chunk read.1 read.2 false, false⟩)).step number o
          ⟨.chunk read.1 read.2 false, false⟩ := by
      unfold run
      rw [map_append, foldl_append]
      rfl
    rw [hrun, map_append, map_singleton]
    rcases ih with ⟨hfresh, hheld, hchunks⟩ | hafter
    · rw [hfresh]
      generalize (run number o _).holdback = held at hheld hchunks
      unfold RecoverableStream.step HoldbackBuffer.push
      dsimp only
      rw [if_pos rfl, if_neg Bool.false_ne_true, if_neg (by simp [hheld]), if_neg (by simp [hheld])]
      split
      · have hflush : ({ held with
            chunks := held.chunks ++ [read.1], bytes := held.bytes + read.1.length
            startedAt := some (held.startedAt.getD read.2) } : HoldbackBuffer).flush =
              (held.chunks ++ [read.1], { committed := true }) := by
          unfold HoldbackBuffer.flush
          rw [if_neg (by simp [hheld])]
        rw [hflush, hchunks]
        exact .inr rfl
      · exact .inl ⟨rfl, hheld, by rw [← hchunks]; rfl⟩
    · rw [hafter, step_committed (by rw [holdback_afterChunks]), ← afterChunks_concat]
      exact .inr rfl

/-- The stream has found what its batches say, and the batches are those of its
events. -/
structure Batched (number : JsString → UInt64) (chunks : List (List UInt8))
    (batches : List (List (List JsString))) (s : RecoverableStream) : Prop where
  tracks : Tracks number s
  delivered : s.delivered = chunks.flatten
  events : completeEvents chunks.flatten = batches.flatten
  found : ∃ scans, Found scans s ∧
    List.Forall₂ (fun batch scan => scanLines number batch.flatten = some scan) batches scans
  length : batches.length ≤ chunks.length
  fine : (∀ chunk ∈ chunks, chunk.length ≤ 1) → ∀ batch ∈ batches, batch.length ≤ 1

theorem batched_init : Batched number [] [] { holdback := { committed := true } } where
  tracks := ⟨rfl, ⟨[], rfl, .inl rfl, rfl⟩, by decide⟩
  delivered := rfl
  events := rfl
  found := ⟨[], found_init, .nil⟩
  length := Nat.le_refl 0
  fine := fun _ batch hbatch => absurd hbatch not_mem_nil

/-- Some of the complete events in these bytes cannot be scanned. -/
def Throws (number : JsString → UInt64) (bytes : List UInt8) : Prop :=
  ∃ scanned more, (Utf8Decoder.decode {} bytes).2 = scanned ++ more ∧ Complete scanned ∧
    scanLines number (Services.events scanned).flatten = none

theorem Throws.append {bytes : List UInt8} (h : Throws number bytes) (more : List UInt8) :
    Throws number (bytes ++ more) := by
  obtain ⟨scanned, rest, hunits, hcomplete, hnone⟩ := h
  refine ⟨scanned, rest ++ ((Utf8Decoder.decode {} bytes).1.decode more).2, ?_, hcomplete, hnone⟩
  rw [Utf8Decoder.decode_append, hunits, append_assoc]

theorem Throws.scanLines {bytes : List UInt8} (h : Throws number bytes) :
    scanLines number (completeEvents bytes).flatten = none := by
  obtain ⟨scanned, rest, hunits, hcomplete, hnone⟩ := h
  unfold completeEvents
  rw [hunits, hcomplete.events_append, flatten_append, scanLines_append, hnone]
  rfl

theorem not_infix_append {tail units : JsString} (h : ¬ [lf, lf] <:+: tail) (hunits : lf ∉ units) :
    ¬ [lf, lf] <:+: tail ++ units := by
  induction units using List.reverseRecOn with
  | nil => rwa [append_nil]
  | append_singleton units c ih =>
    rw [mem_append, not_or] at hunits
    rw [← append_assoc, infix_concat_iff, suffix_concat_iff]
    rintro ((hnil | ⟨t, heq, -⟩) | hinfix)
    · cases hnil
    · have hlast := congrArg List.getLast? heq
      rw [getLast?_concat] at hlast
      exact hunits.2 (mem_singleton.mpr (Option.some.inj hlast))
    · exact ih hunits.1 hinfix

theorem length_events_of_byte {tail batch rest : JsString} (htail : ¬ [lf, lf] <:+: tail)
    {d : Utf8Decoder} (hvalid : d.Valid) {chunk : List UInt8} (hchunk : chunk.length ≤ 1)
    (hunits : tail ++ (d.decode chunk).2 = batch ++ rest) (hcomplete : Complete batch) :
    (Services.events batch).length ≤ 1 := by
  rcases hcomplete with rfl | ⟨before, rfl⟩
  · exact Nat.zero_le 1
  have hout : Utf8Decoder.AsciiLast (d.decode chunk).2 := by
    match chunk, hchunk with
    | [], _ => exact .inl rfl
    | [b], _ =>
      rw [Utf8Decoder.decode_single]
      exact Utf8Decoder.asciiLast_step hvalid b
  rcases hout with hnil | ⟨units, c, hsplit, hhigh⟩
  · rw [hnil, append_nil] at hunits
    exact absurd ⟨before, rest, hunits.symm⟩ htail
  have hnone : ¬ [lf, lf] <:+: tail ++ units :=
    not_infix_append htail fun hlf => absurd (hhigh lf hlf) (by decide)
  rw [hsplit, ← append_assoc] at hunits
  rcases eq_nil_or_concat rest with rfl | ⟨rest, c', rfl⟩
  · rw [append_nil] at hunits
    have hc : c = lf := by simpa using congrArg List.getLast? hunits
    rw [← hunits, hc]
    exact (events_of_no_boundary hnone).2
  · have hinit := congrArg List.dropLast hunits
    rw [dropLast_concat, concat_eq_append, ← append_assoc, dropLast_concat] at hinit
    exact absurd ⟨before, rest, hinit.symm⟩ hnone

variable {chunks : List (List UInt8)}

theorem Batched.emit {batches : List (List (List JsString))} (ho : o.continueStream.isSome = true)
    (h : Batched number chunks batches s) (hopen : s.status = .open) (chunk : List UInt8) :
    ((s.emit number o chunk).status = .open ∧
        ∃ batches, Batched number (chunks ++ [chunk]) batches (s.emit number o chunk)) ∨
      (s.emit number o chunk).status = .errored ∧ Throws number (chunks ++ [chunk]).flatten := by
  have htracks := h.tracks.track chunk
  obtain ⟨scanned, hunits, hcomplete, -⟩ := h.tracks.scanned
  obtain ⟨scans, hfound, hscans⟩ := h.found
  have hdelivered : (s.enqueue chunk).delivered = (chunks ++ [chunk]).flatten := by
    rw [delivered_enqueue, h.delivered, flatten_append, flatten_singleton]
  have hscanned : Services.events scanned = batches.flatten := by
    rw [← h.events, completeEvents, ← h.delivered, hunits, hcomplete.events_append,
      (events_of_no_boundary h.tracks.tail).1, append_nil]
  have hdecode : (Utf8Decoder.decode {} (chunks ++ [chunk]).flatten).2 =
      scanned ++ (s.emittedTail ++ (s.trackDecoder.decode chunk).2) := by
    rw [← hdelivered, delivered_enqueue, Utf8Decoder.decode_append, ← h.tracks.decoder, hunits,
      append_assoc]
  have hvalid : s.trackDecoder.Valid := by
    rw [h.tracks.decoder]
    exact Utf8Decoder.valid_decode valid_init _
  have hemit : s.emit number o chunk = (s.enqueue chunk).track number chunk := by
    unfold RecoverableStream.emit
    rw [if_pos hopen, if_pos ho]
  rw [hemit]
  unfold RecoverableStream.track at htracks ⊢
  dsimp only at htracks ⊢
  generalize htail : (s.enqueue chunk).emittedTail ++
    ((s.enqueue chunk).trackDecoder.decode chunk).2 = tail at htracks ⊢
  replace htail : s.emittedTail ++ (s.trackDecoder.decode chunk).2 = tail := htail
  rw [htail] at hdecode
  have hevents : completeEvents (chunks ++ [chunk]).flatten =
      batches.flatten ++ Services.events tail := by
    rw [completeEvents, hdecode, hcomplete.events_append, hscanned]
  have hlength : (chunks ++ [chunk]).length = chunks.length + 1 := length_append
  cases hboundary : lastIndexOf (js "\n\n") tail with
  | none =>
    rw [hboundary] at htracks
    refine .inl ⟨hopen, batches, htracks hopen, hdelivered, ?_, ⟨scans, ?_, hscans⟩, ?_, ?_⟩
    · rw [hevents, (events_of_no_boundary (lastIndexOf_eq_none hboundary)).1, append_nil]
    · exact { hfound with }
    · exact hlength ▸ Nat.le_succ_of_le h.length
    · exact fun hchunks => h.fine fun c hc => hchunks c (mem_append_left _ hc)
  | some boundary =>
    obtain ⟨hbatch, hrest⟩ := cut_boundary hboundary
    have hcut := take_append_drop (boundary + 2) tail
    have hadded : Services.events tail = Services.events (tail.take (boundary + 2)) := by
      conv_lhs => rw [← hcut]
      rw [hbatch.events_append, (events_of_no_boundary hrest).1, append_nil]
    rw [hboundary] at htracks
    dsimp only at htracks ⊢
    cases hscan : scanOpenAiSseText number (tail.take (boundary + 2)) with
    | none =>
      refine .inr ⟨rfl, scanned ++ tail.take (boundary + 2), tail.drop (boundary + 2), ?_,
        hcomplete.append hbatch, ?_⟩
      · rw [hdecode, append_assoc, hcut]
      · rw [hcomplete.events_append, flatten_append, scanLines_append, hscanned,
          scanLines_batches hscans, ← hbatch.scan_eq, hscan]
        rfl
    | some scan =>
      rw [hscan] at htracks
      refine .inl ⟨hopen, batches ++ [Services.events (tail.take (boundary + 2))], htracks hopen,
        hdelivered, ?_, ⟨scans ++ [scan], ?_, ?_⟩, ?_, ?_⟩
      · rw [hevents, hadded, flatten_append, flatten_singleton]
      · refine Found.fold ?_ scan
        exact { hfound with }
      · exact rel_append hscans (.cons (hbatch.scan_eq.symm.trans hscan) .nil)
      · rw [length_append, hlength]
        exact Nat.succ_le_succ h.length
      · intro hchunks batch hmem
        rcases mem_append.mp hmem with hmem | hmem
        · exact h.fine (fun c hc => hchunks c (mem_append_left _ hc)) batch hmem
        · rw [mem_singleton.mp hmem]
          exact length_events_of_byte h.tracks.tail hvalid
            (hchunks chunk (mem_append_right _ mem_cons_self)) (htail.trans hcut.symm) hbatch

theorem batched_afterChunks (ho : o.continueStream.isSome = true) (chunks : List (List UInt8)) :
    ((afterChunks number o chunks).status = .open ∧
        ∃ batches, Batched number chunks batches (afterChunks number o chunks)) ∨
      (afterChunks number o chunks).status = .errored ∧ Throws number chunks.flatten := by
  induction chunks using List.reverseRecOn with
  | nil => exact .inl ⟨rfl, [], batched_init⟩
  | append_singleton chunks chunk ih =>
    rw [afterChunks_concat]
    rcases ih with ⟨hopen, batches, hbatched⟩ | ⟨herrored, hthrows⟩
    · exact hbatched.emit ho hopen chunk
    · refine .inr ?_
      have hdone : emit number o (afterChunks number o chunks) chunk = afterChunks number o chunks := by
        unfold RecoverableStream.emit
        rw [if_neg (by rw [herrored]; decide)]
      rw [hdone, flatten_append, flatten_singleton]
      exact ⟨herrored, hthrows.append chunk⟩

theorem forall_not_says {batches : List (List (List JsString))}
    (h : List.Forall₂ (fun batch scan => scanLines number batch.flatten = some scan) batches scans) :
    (∀ scan ∈ scans, ¬ p scan) ↔ ∀ batch ∈ batches, ¬ Says number p batch.flatten := by
  induction h with
  | nil => simp
  | @cons batch scan batches scans hscan _ ih =>
    have hsays : Says number p batch.flatten ↔ p scan := by
      unfold Says
      rw [hscan]
      simp
    rw [forall_mem_cons, forall_mem_cons, ih, hsays]

theorem continues_iff (ho : o.continueStream.isSome = true) {said : SseScanFold}
    (hsaid : scanLines number (completeEvents chunks.flatten).flatten = some said) :
    ∃ batches : List (List (List JsString)), batches.flatten = completeEvents chunks.flatten ∧
      batches.length ≤ chunks.length ∧
      ((∀ chunk ∈ chunks, chunk.length ≤ 1) → ∀ batch ∈ batches, batch.length ≤ 1) ∧
      (continues number o chunks = true ↔
        Continuable o said ∧ ∀ batch ∈ batches, ¬ Says number (Holds o) batch.flatten) := by
  rcases batched_afterChunks ho chunks with ⟨hopen, batches, h⟩ | ⟨-, hthrows⟩
  · obtain ⟨scans, hfound, hscans⟩ := h.found
    have htotal : total scans = said := by
      rw [h.events, scanLines_batches hscans] at hsaid
      exact Option.some.inj hsaid
    refine ⟨batches, h.events.symm, h.length, h.fine, ?_⟩
    rw [continues, Bool.and_eq_true, decide_eq_true_eq, hfound.canContinue_iff, htotal,
      forall_not_says hscans]
    exact and_iff_right hopen
  · rw [hthrows.scanLines] at hsaid
    cases hsaid

theorem continues_of_throws
    (hnone : scanLines number (completeEvents chunks.flatten).flatten = none) :
    continues number o chunks = false := by
  unfold continues
  cases hcontinue : (afterChunks number o chunks).canContinue o with
  | false => exact Bool.and_false _
  | true =>
    rcases batched_afterChunks (isSome_of_canContinue hcontinue) chunks with
      ⟨-, batches, h⟩ | ⟨herrored, -⟩
    · obtain ⟨scans, -, hscans⟩ := h.found
      rw [h.events, scanLines_batches hscans] at hnone
      cases hnone
    · rw [herrored]
      rfl

/-! ## The decision -/

variable (number o)

/-- Whether the stream is continued is decided by the bytes that were delivered,
and it is not continued inside a tool call. -/
structure DecidedByEvents (bytes : List UInt8) : Prop where
  chunks : ∀ chunks chunks' : List (List UInt8), chunks.flatten = bytes → chunks'.flatten = bytes →
    continues number o chunks = continues number o chunks'
  calls : Unfinished ((completeEvents bytes).flatten.flatMap (lineCallEvents number)) →
    ∀ chunks : List (List UInt8), chunks.flatten = bytes → continues number o chunks = false

/-- All events together do not keep the stream from being continued, although
one of them alone does, or a tool call is not finished. -/
def Exposed (bytes : List UInt8) : Prop :=
  ∃ said, scanLines number (completeEvents bytes).flatten = some said ∧ Continuable o said ∧
    ¬ Holds o said ∧
    ((∃ event ∈ completeEvents bytes, Says number (Holds o) event) ∨
      Unfinished ((completeEvents bytes).flatten.flatMap (lineCallEvents number)))

variable {number o} {bytes : List UInt8}

/-- In one chunk the events are one batch. -/
theorem continues_whole {said : SseScanFold} (hcontinuable : Continuable o said)
    (hsaid : scanLines number (completeEvents bytes).flatten = some said) (hholds : ¬ Holds o said) :
    continues number o [bytes] = true := by
  have hbytes : [bytes].flatten = bytes := flatten_singleton
  rw [← hbytes] at hsaid
  obtain ⟨batches, hevents, hlength, -, hiff⟩ := continues_iff hcontinuable.enabled hsaid
  refine hiff.mpr ⟨hcontinuable, fun batch hbatch ⟨scan, hscan, hheld⟩ => hholds ?_⟩
  match batches, hlength with
  | [], _ => cases hbatch
  | [only], _ =>
    obtain rfl := mem_singleton.mp hbatch
    rw [← hevents, flatten_singleton, hscan] at hsaid
    exact Option.some.inj hsaid ▸ hheld

theorem flatten_bytes (bytes : List UInt8) : (bytes.map fun b => [b]).flatten = bytes := by
  rw [← flatMap_def]
  exact flatMap_singleton' bytes

/-- In chunks of one byte an event is a batch of its own. -/
theorem not_continues_bytes {said : SseScanFold} (henabled : o.continueStream.isSome = true)
    (hsaid : scanLines number (completeEvents bytes).flatten = some said) {event : List JsString}
    (hevent : event ∈ completeEvents bytes) (hholds : Says number (Holds o) event) :
    continues number o (bytes.map fun b => [b]) = false := by
  have hbytes := flatten_bytes bytes
  rw [← hbytes] at hsaid hevent
  obtain ⟨batches, hevents, -, hfine, hiff⟩ := continues_iff henabled hsaid
  rw [← hevents] at hevent
  obtain ⟨batch, hbatch, hmem⟩ := mem_flatten.mp hevent
  have hsmall := hfine (fun chunk hchunk => by
    obtain ⟨b, -, rfl⟩ := mem_map.mp hchunk
    exact Nat.le_refl 1) batch hbatch
  have hsingle : batch = [event] := by
    match batch, hsmall with
    | [], _ => cases hmem
    | [only], _ => rw [mem_singleton.mp hmem]
  refine Bool.eq_false_iff.mpr fun hcontinues => (hiff.mp hcontinues).2 batch hbatch ?_
  rw [hsingle, flatten_singleton]
  exact hholds

/-- Otherwise the batches decide as all events together. -/
theorem continues_iff_of_not_exposed (h : ¬ Exposed number o bytes) {said : SseScanFold}
    (hsaid : scanLines number (completeEvents bytes).flatten = some said)
    (hchunks : chunks.flatten = bytes) :
    continues number o chunks = true ↔ Continuable o said ∧ ¬ Holds o said := by
  subst hchunks
  by_cases ho : o.continueStream.isSome = true
  · obtain ⟨batches, hevents, -, -, hiff⟩ := continues_iff ho hsaid
    rw [hiff]
    constructor
    · rintro ⟨hcontinuable, hnone⟩
      refine ⟨hcontinuable, fun hholds => ?_⟩
      have hparts : (batches.map List.flatten).flatten =
          (completeEvents chunks.flatten).flatten := by
        rw [← hevents, flatten_flatten]
      obtain ⟨part, hpart, hsays⟩ := Says.exists_part ⟨said, hparts ▸ hsaid, hholds⟩
      obtain ⟨batch, hbatch, rfl⟩ := mem_map.mp hpart
      exact hnone batch hbatch hsays
    · rintro ⟨hcontinuable, hholds⟩
      refine ⟨hcontinuable, fun batch hbatch hsays => h ⟨said, hsaid, hcontinuable, hholds, .inl ?_⟩⟩
      obtain ⟨event, hevent, hsays⟩ := hsays.exists_part
      exact ⟨event, hevents ▸ mem_flatten.mpr ⟨batch, hbatch, hevent⟩, hsays⟩
  · constructor
    · intro hcontinues
      exact absurd (isSome_of_canContinue (Bool.and_eq_true_iff.mp hcontinues).2) ho
    · exact fun hcontinuable => absurd hcontinuable.1.enabled ho

/-- The chunks play no part, and no stream is continued inside a tool call,
exactly when the stream is not exposed. -/
theorem decidedByEvents_iff (number : JsString → UInt64) (o : RecoverableStreamOptions)
    (bytes : List UInt8) : DecidedByEvents number o bytes ↔ ¬ Exposed number o bytes := by
  constructor
  · rintro h ⟨said, hsaid, hcontinuable, hholds, hwhy⟩
    have hwhole := continues_whole hcontinuable hsaid hholds
    rcases hwhy with ⟨event, hevent, hsays⟩ | hunfinished
    · have hfine := not_continues_bytes hcontinuable.enabled hsaid hevent hsays
      rw [← h.chunks [bytes] _ flatten_singleton (flatten_bytes bytes), hwhole] at hfine
      cases hfine
    · rw [h.calls hunfinished [bytes] flatten_singleton] at hwhole
      cases hwhole
  · intro h
    cases hsaid : scanLines number (completeEvents bytes).flatten with
    | none =>
      have hnever : ∀ chunks : List (List UInt8), chunks.flatten = bytes →
          continues number o chunks = false := by
        rintro chunks rfl
        exact continues_of_throws hsaid
      exact ⟨fun chunks chunks' hchunks hchunks' =>
        (hnever chunks hchunks).trans (hnever chunks' hchunks').symm, fun _ => hnever⟩
    | some said =>
      refine ⟨fun chunks chunks' hchunks hchunks' => Bool.eq_iff_iff.mpr ?_,
        fun hunfinished chunks hchunks => Bool.eq_false_iff.mpr fun hcontinues => ?_⟩
      · rw [continues_iff_of_not_exposed h hsaid hchunks, continues_iff_of_not_exposed h hsaid hchunks']
      · obtain ⟨hcontinuable, hholds⟩ :=
          (continues_iff_of_not_exposed h hsaid hchunks).mp hcontinues
        exact h ⟨said, hsaid, hcontinuable, hholds, .inr hunfinished⟩

/-! ### A tool call in two events -/

def callStart : List UInt8 :=
  encodeEvent (js "\x7b\"choices\":[\x7b\"index\":0,\"delta\":\x7b\"content\":\"Hi\"," ++
    js "\"tool_calls\":[\x7b\"index\":0\x7d]\x7d\x7d]\x7d")

def callFinish : List UInt8 :=
  encodeEvent (js "\x7b\"choices\":[\x7b\"index\":0,\"delta\":\x7b\x7d," ++
    js "\"finish_reason\":\"tool_calls\"\x7d]\x7d")

def twoCalls : List UInt8 := callStart ++ callFinish ++ callStart

def callOptions : RecoverableStreamOptions where
  continueStream := some fun _ _ => none

/-- In one chunk the stream is continued inside the second call, and in two it is not. -/
theorem not_decidedByEvents_twoCalls : continues (fun _ => 0) callOptions [twoCalls] = true ∧
      continues (fun _ => 0) callOptions [callStart, callFinish ++ callStart] = false ∧
      ¬ DecidedByEvents (fun _ => 0) callOptions twoCalls := by
  have hwhole : continues (fun _ => 0) callOptions [twoCalls] = true := by decide +kernel
  have hcut : continues (fun _ => 0) callOptions [callStart, callFinish ++ callStart] = false := by
    decide +kernel
  refine ⟨hwhole, hcut, fun h => ?_⟩
  have hsame := h.chunks [twoCalls] [callStart, callFinish ++ callStart] flatten_singleton
    (by simp [twoCalls])
  rw [hwhole, hcut] at hsame
  cases hsame

end RecoverableStream

end RedRouter.Services
