import RedRouter.Services.StreamRecovery

/-!
# The chunks that are stitched

What `tryContinue` of `open-sse/services/streamRecovery.ts` writes itself: the
chunk with the rest of the text, in the format of the turn, and the end of the
stream.  `JSON.parse` reads the chunks back, their text is the suffix, and each
can be the data of an event as it is.
-/

namespace RedRouter.Services

open List EventStream JsValue

/-! ## What a client reads of a stream

A client reads the events of the stream and takes the text from their data.
For a stream in the format of the OpenAI API the scan of
`open-sse/services/streamRecovery.ts` reads the same text (`read_lines`), up to
the last event that is complete.
-/

/-! ## The text of an event -/

def choiceText (choice : Json) : JsString :=
  (((choice.get? (js "delta")).bind (Json.get? (js "content"))).bind Json.str?).getD []

def responseText (json : Json) : JsString :=
  if (json.get? (js "type")).bind Json.str? = some (js "response.output_text.delta") then
    ((json.get? (js "delta")).bind Json.str?).getD []
  else []

def chunkText (json : Json) : JsString :=
  match json.get? (js "choices") with
  | some (.arr choices) => choices.flatMap choiceText
  | _ => responseText json

theorem chunkText_choices {json : Json} {choices : List Json}
    (h : json.get? (js "choices") = some (.arr choices)) :
    chunkText json = choices.flatMap choiceText := by
  unfold chunkText
  rw [h]

theorem chunkText_other {json : Json}
    (h : ∀ choices, json.get? (js "choices") ≠ some (.arr choices)) :
    chunkText json = responseText json := by
  unfold chunkText
  split
  · rename_i choices hchoices
    exact absurd hchoices (h choices)
  · rfl

variable (number : JsString → UInt64)

/-- The text that a client takes from the data of an event. -/
def assistantText (data : JsString) : JsString :=
  match JsonText.parse number data with
  | some json => chunkText json
  | none => []

def lineText (line : JsString) : JsString :=
  if JsString.startsWith (JsString.trimStart line) (js "data:") then
    assistantText number (JsString.trim ((JsString.trimStart line).drop 5))
  else []

def scanText (sse : JsString) : JsString := (sse.splitOn lf).flatMap (lineText number)

/-! ## The scan reads the text -/

namespace SseScanFold

variable (fold : SseScanFold)

theorem text_addText (s : Option Json) :
    (fold.addText s).text = fold.text ++ (s.bind Json.str?).getD [] := by
  unfold addText
  split
  · rfl
  · rename_i hother
    cases s with
    | none => exact (append_nil _).symm
    | some json =>
      cases json with
      | str s => exact absurd rfl (hother s)
      | _ => exact (append_nil _).symm

@[simp] theorem text_addReasoning (s : Option Json) : (fold.addReasoning s).text = fold.text := by
  unfold addReasoning
  split <;> rfl

@[simp] theorem text_scanToolCalls (toolCalls : Option Json) :
    (fold.scanToolCalls toolCalls).text = fold.text := by
  unfold scanToolCalls
  split <;> rfl

@[simp] theorem text_scanChatFinishReason (reason : Option Json) :
    (fold.scanChatFinishReason reason).text = fold.text := by
  unfold scanChatFinishReason
  split
  · rfl
  · rfl
  · split <;> rfl
  · rfl

@[simp] theorem text_markParsed : fold.markParsed.text = fold.text := rfl

@[simp] theorem text_markToolCall (finished : Bool) :
    (fold.markToolCall finished).text = fold.text := rfl

@[simp] theorem text_scanResponsesOutputItem (finished : Bool) (json : Json) :
    (fold.scanResponsesOutputItem finished json).text = fold.text := by
  unfold scanResponsesOutputItem
  split
  · split <;> rfl
  · rfl

theorem text_scanDelta (delta : Json) : (fold.scanDelta delta).text =
      fold.text ++ ((delta.get? (js "content")).bind Json.str?).getD [] := by
  unfold scanDelta
  split
  · rw [text_scanToolCalls, text_addReasoning, text_addText]
  · rename_i hobject
    cases delta with
    | obj members => exact absurd rfl hobject
    | arr items => exact absurd rfl hobject
    | _ => exact (append_nil _).symm

theorem text_scanChatChoice (choice : Json) :
    (fold.scanChatChoice choice).text = fold.text ++ choiceText choice := by
  unfold scanChatChoice choiceText
  rw [text_scanChatFinishReason]
  cases choice.get? (js "delta") with
  | none => exact (append_nil _).symm
  | some delta => exact text_scanDelta fold delta

theorem text_scanChatChoices (choices : List Json) :
    (choices.foldl (fun fold choice => fold.scanChatChoice choice) fold).text =
      fold.text ++ choices.flatMap choiceText := by
  induction choices generalizing fold with
  | nil => exact (append_nil _).symm
  | cons choice choices ih =>
    rw [foldl_cons, ih, text_scanChatChoice, flatMap_cons, append_assoc]

theorem text_scanResponsesEvent (json : Json) :
    (fold.scanResponsesEvent json).text = fold.text ++ responseText json := by
  have hother : ∀ eventType, json.get? (js "type") = some (.str eventType) →
      eventType ≠ js "response.output_text.delta" → responseText json = [] := by
    intro eventType htype hne
    unfold responseText
    rw [htype]
    exact if_neg (fun h => hne (Option.some.inj h))
  unfold scanResponsesEvent
  split
  · rename_i eventType htype
    by_cases hdelta : eventType = js "response.output_text.delta"
    · unfold responseText
      rw [if_pos hdelta, text_markParsed, text_addText, htype, hdelta]
      rfl
    · rw [if_neg hdelta, hother eventType htype hdelta, append_nil]
      split_ifs <;> simp
  · rename_i hnot
    have hnone : responseText json = [] := by
      refine if_neg fun h => ?_
      cases htype : json.get? (js "type") with
      | none =>
        rw [htype] at h
        cases h
      | some value =>
        cases value with
        | str eventType => exact hnot eventType htype
        | _ =>
          rw [htype] at h
          cases h
    rw [hnone, append_nil]

end SseScanFold

open SseScanFold

variable {number : JsString → UInt64}

theorem parse_done : JsonText.parse number (js "[DONE]") = none := rfl

theorem text_scanPayload {payload : JsString} {fold scanned : SseScanFold}
    (h : scanPayload number payload fold = some scanned) :
    scanned.text = fold.text ++ assistantText number payload := by
  have hnone : JsonText.parse number payload = none → assistantText number payload = [] := by
    intro hparse
    unfold assistantText
    rw [hparse]
  unfold scanPayload at h
  split at h
  · rename_i hempty
    rw [hnone (by rw [hempty]; rfl), ← Option.some.inj h, append_nil]
  · split at h
    · rename_i hdone
      rw [hnone (by rw [hdone, parse_done]), ← Option.some.inj h, append_nil]
    · split at h
      · rename_i hparse
        rw [hnone hparse, ← Option.some.inj h, append_nil]
      · cases h
      · rename_i json hnull hparse
        have hread : assistantText number payload = chunkText json := by
          unfold assistantText
          rw [hparse]
        rw [hread]
        split at h
        · rename_i choices hchoices
          rw [chunkText_choices hchoices, ← Option.some.inj h]
          exact text_scanChatChoices fold choices
        · rename_i hother
          rw [chunkText_other hother, ← Option.some.inj h]
          exact text_scanResponsesEvent fold json

theorem text_scanSseLine {line : JsString} {fold scanned : SseScanFold}
    (h : scanSseLine number fold line = some scanned) :
    scanned.text = fold.text ++ lineText number line := by
  unfold scanSseLine at h
  unfold lineText
  split
  · rename_i hdata
    rw [if_pos hdata] at h
    exact text_scanPayload h
  · rename_i hother
    rw [if_neg hother] at h
    rw [Option.some.inj h]
    exact (append_nil _).symm

theorem text_scanLines {lines : List JsString} {fold scanned : SseScanFold}
    (h : lines.foldlM (scanSseLine number) fold = some scanned) :
    scanned.text = fold.text ++ lines.flatMap (lineText number) := by
  induction lines generalizing fold with
  | nil =>
    obtain rfl := Option.some.inj h
    exact (append_nil _).symm
  | cons line lines ih =>
    obtain ⟨next, hline, hrest⟩ := Option.bind_eq_some_iff.mp h
    rw [ih hrest, text_scanSseLine hline, flatMap_cons, append_assoc]

theorem text_scanOpenAiSseText {sse : JsString} {scan : SseScanFold}
    (h : scanOpenAiSseText number sse = some scan) : scan.text = scanText number sse :=
  text_scanLines h

theorem scanText_append (sse more : JsString) :
    scanText number (sse ++ lf :: more) = scanText number sse ++ scanText number more := by
  unfold scanText
  rw [splitOn_append_cons_self, flatMap_append]

@[simp] theorem scanText_nil : scanText number [] = [] := rfl

theorem scanText_line {line : JsString} (h : NoBreak line) :
    scanText number line = lineText number line := by
  unfold scanText
  rw [splitOn_eq_singleton fun hlf => (h lf hlf).1 rfl]
  simp

theorem scanText_snoc (sse : JsString) : scanText number (sse ++ [lf]) = scanText number sse := by
  rw [scanText_append, scanText_nil, append_nil]

/-! ## The format -/

/-- A comment, or a field other than the data. -/
def IsField (line : JsString) : Prop :=
  NoBreak line ∧ line ≠ [] ∧ lineData line = none ∧
    JsString.startsWith (JsString.trimStart line) (js "data:") = false

/-- What follows `data:` in a line: the data, and a space before it or none. -/
def IsPayload (payload : JsString) : Prop :=
  NoBreak payload ∧ JsString.trim payload = dropSpace payload

/-- The lines of a stream: an event has at most one line of data, and the blank
line comes right after it. -/
inductive OpenAiLines : List JsString → Prop where
  | nil : OpenAiLines []
  | blank {lines} (rest : OpenAiLines lines) : OpenAiLines ([] :: lines)
  | field {line lines} (hline : IsField line) (rest : OpenAiLines lines) :
      OpenAiLines (line :: lines)
  | data {payload lines} (hpayload : IsPayload payload) (rest : OpenAiLines lines) :
      OpenAiLines ((js "data:" ++ payload) :: [] :: lines)

/-- Each line ends with a line feed. -/
def ofLines (lines : List JsString) : JsString := lines.flatMap (· ++ [lf])

theorem ofLines_cons (line : JsString) (lines : List JsString) :
    ofLines (line :: lines) = line ++ lf :: ofLines lines := by
  unfold ofLines
  rw [flatMap_cons, append_assoc]
  rfl

theorem ofLines_append (lines more : List JsString) :
    ofLines (lines ++ more) = ofLines lines ++ ofLines more :=
  flatMap_append

theorem OpenAiLines.append {lines more : List JsString} (h : OpenAiLines lines)
    (h' : OpenAiLines more) : OpenAiLines (lines ++ more) := by
  induction h with
  | nil => exact h'
  | blank _ ih => exact .blank ih
  | field hline _ ih => exact .field hline ih
  | data hpayload _ ih => exact .data hpayload ih

/-! ## The client reads what the scan reads -/

variable {s : EventStream}

theorem lineText_field {line : JsString} (h : IsField line) : lineText number line = [] := by
  unfold lineText
  rw [if_neg (by rw [h.2.2.2]; decide)]

theorem lineText_data {payload : JsString} (h : IsPayload payload) :
    lineText number (js "data:" ++ payload) = assistantText number (dropSpace payload) := by
  have htrim : JsString.trimStart (js "data:" ++ payload) = js "data:" ++ payload := by
    have hfirst : JsString.isSpace (unit 'd') = false := by decide
    show List.dropWhile JsString.isSpace (unit 'd' :: (js "ata:" ++ payload)) = _
    rfl
  have hdrop : (js "data:" ++ payload).drop 5 = payload := rfl
  unfold lineText
  rw [htrim, if_pos, hdrop, h.2]
  exact isPrefixOf_iff_prefix.mpr (prefix_append _ _)

theorem noBreak_line {payload : JsString} (h : IsPayload payload) :
    NoBreak (js "data:" ++ payload) :=
  noBreak_append.mpr ⟨noBreak_of_all (by decide), h.1⟩

theorem read_between_blank (h : s.Between) : s.read [lf] = s := by
  rw [read_blank h.1 h.2.1]
  exact if_pos h.2.2

theorem read_between_field (h : s.Between) {line : JsString} (hline : IsField line) :
    s.read (line ++ [lf]) = s := by
  rw [read_line hline.1 h.1, h.2.1, nil_append]
  unfold endLine
  rw [if_neg hline.2.1, hline.2.2.1, ← h.1, ← h.2.1]

theorem read_between_data (h : s.Between) {payload : JsString} (hpayload : IsPayload payload) :
    s.read (js "data:" ++ payload ++ [lf]) = { s with data := [dropSpace payload] } := by
  have hne : js "data:" ++ payload ≠ [] := by
    intro hnil
    cases (append_eq_nil_iff.mp hnil).1
  rw [read_line (noBreak_line hpayload) h.1, h.2.1, nil_append]
  unfold endLine
  rw [if_neg hne, lineData_field, h.2.2, ← h.1, ← h.2.1]
  rfl

theorem read_data_blank (h : s.Between) (data : JsString) :
    ({ s with data := [data] } : EventStream).read [lf] =
      { s with events := s.events ++ [data] } := by
  have hjoin : JsString.join [lf] [data] = data := by simp [JsString.join]
  have hcr : ({ s with data := [data] } : EventStream).afterCr = false := h.1
  rw [read_blank hcr h.2.1]
  unfold endEvent
  rw [if_neg (cons_ne_nil _ _), hjoin, h.2.2]

theorem read_break (line text : JsString) :
    s.read (line ++ lf :: text) = (s.read (line ++ [lf])).read text := by
  rw [← read_append, append_assoc]
  rfl

theorem Between.events (h : s.Between) (events : List JsString) :
    ({ s with events := events } : EventStream).Between := h

theorem read_lines {lines : List JsString} (hlines : OpenAiLines lines) (h : s.Between) :
    ∃ more, s.read (ofLines lines) = { s with events := s.events ++ more } ∧
      more.flatMap (assistantText number) = scanText number (ofLines lines) := by
  induction hlines generalizing s with
  | nil => exact ⟨[], by rw [append_nil]; rfl, rfl⟩
  | blank _ ih =>
    obtain ⟨more, hread, htext⟩ := ih h
    refine ⟨more, ?_, ?_⟩
    · rw [ofLines_cons, read_break, nil_append, read_between_blank h, hread]
    · rw [htext, ofLines_cons, scanText_append, scanText_nil, nil_append]
  | @field line lines hline _ ih =>
    obtain ⟨more, hread, htext⟩ := ih h
    refine ⟨more, ?_, ?_⟩
    · rw [ofLines_cons, read_break, read_between_field h hline, hread]
    · rw [htext, ofLines_cons, scanText_append, scanText_line hline.1, lineText_field hline,
        nil_append]
  | @data payload lines hpayload _ ih =>
    obtain ⟨more, hread, htext⟩ := ih (Between.events h (s.events ++ [dropSpace payload]))
    refine ⟨dropSpace payload :: more, ?_, ?_⟩
    · rw [ofLines_cons, read_break, read_between_data h hpayload, ofLines_cons, read_break,
        nil_append, read_data_blank h, hread, append_assoc]
      rfl
    · rw [flatMap_cons, htext, ofLines_cons, ofLines_cons, scanText_append,
        scanText_line (noBreak_line hpayload), lineText_data hpayload, scanText_append,
        scanText_nil, nil_append]

/-! ## A stream that was cut -/

/-- A line feed comes next in a stream that begins with `text`. -/
def BlankFollows (text all : JsString) : Prop := ∃ rest, all = text ++ lf :: rest

theorem cut_line {line rest text : JsString} (h : text <+: line ++ lf :: rest) :
    text <+: line ∨ ∃ more, text = line ++ lf :: more ∧ more <+: rest := by
  obtain ⟨dropped, hdropped⟩ := h
  rcases append_eq_append_iff.mp hdropped with ⟨middle, hline, -⟩ | ⟨middle, htext, hrest⟩
  · exact .inl ⟨middle, hline.symm⟩
  · cases middle with
    | nil => exact .inl ⟨[], by rw [htext, append_nil, append_nil]⟩
    | cons c more =>
      obtain ⟨rfl, hmore⟩ := List.cons.inj hrest
      exact .inr ⟨more, htext, dropped, hmore.symm⟩

/-- A reader after a cut in a stream of whole lines. -/
def CutInv (s : EventStream) (text all : JsString) : Prop :=
  s.afterCr = false ∧ (s.data ≠ [] → s.line = [] ∧ BlankFollows text all) ∧
    (s.Between → ∃ whole, OpenAiLines whole ∧ text = ofLines whole)

theorem cutInv_inside (h : s.Between) {line text : JsString} (hline : NoBreak line)
    (hcut : text <+: line) (all : JsString) : CutInv (s.read text) text all := by
  have htext : NoBreak text := by
    obtain ⟨rest, rfl⟩ := hcut
    exact (noBreak_append.mp hline).1
  rw [read_noBreak htext h.1, h.2.1, nil_append]
  refine ⟨h.1, fun hdata => absurd h.2.2 hdata, fun hbetween => ⟨[], .nil, ?_⟩⟩
  exact hbetween.2.1

/-- Behind a cut inside a line, the line is under way; elsewhere the events are
whole, or only the blank line of the last one is missing. -/
theorem read_cut {lines : List JsString} (hlines : OpenAiLines lines) (h : s.Between)
    {text : JsString} (hcut : text <+: ofLines lines) :
    CutInv (s.read text) text (ofLines lines) := by
  induction hlines generalizing s text with
  | nil =>
    obtain rfl := prefix_nil.mp hcut
    exact cutInv_inside h noBreak_nil (prefix_refl _) _
  | @blank lines _ ih =>
    rw [ofLines_cons] at hcut ⊢
    rcases cut_line hcut with hinside | ⟨more, rfl, hmore⟩
    · exact cutInv_inside h noBreak_nil hinside _
    · obtain ⟨hcr, hdata, hwhole⟩ := ih h hmore
      rw [read_break, nil_append, read_between_blank h]
      refine ⟨hcr, fun hne => ⟨(hdata hne).1, ?_⟩, fun hbetween => ?_⟩
      · obtain ⟨rest, hrest⟩ := (hdata hne).2
        exact ⟨rest, by rw [hrest]; rfl⟩
      · obtain ⟨whole, hlines, rfl⟩ := hwhole hbetween
        exact ⟨[] :: whole, .blank hlines, (ofLines_cons [] whole).symm⟩
  | @field line lines hline _ ih =>
    rw [ofLines_cons] at hcut ⊢
    rcases cut_line hcut with hinside | ⟨more, rfl, hmore⟩
    · exact cutInv_inside h hline.1 hinside _
    · obtain ⟨hcr, hdata, hwhole⟩ := ih h hmore
      rw [read_break, read_between_field h hline]
      refine ⟨hcr, fun hne => ⟨(hdata hne).1, ?_⟩, fun hbetween => ?_⟩
      · obtain ⟨rest, hrest⟩ := (hdata hne).2
        exact ⟨rest, by rw [hrest]; simp⟩
      · obtain ⟨whole, hlines, rfl⟩ := hwhole hbetween
        exact ⟨line :: whole, .field hline hlines, (ofLines_cons line whole).symm⟩
  | @data payload lines hpayload _ ih =>
    rw [ofLines_cons] at hcut ⊢
    rcases cut_line hcut with hinside | ⟨more, rfl, hmore⟩
    · exact cutInv_inside h (noBreak_line hpayload) hinside _
    · rw [ofLines_cons] at hmore
      rw [read_break, read_between_data h hpayload]
      rcases cut_line hmore with hinside | ⟨behind, rfl, hbehind⟩
      · obtain rfl := prefix_nil.mp hinside
        refine ⟨h.1, fun _ => ⟨h.2.1, ofLines lines, ?_⟩, fun hbetween => ?_⟩
        · rw [ofLines_cons]
          simp
        · cases hbetween.2.2
      · obtain ⟨hcr, hdata, hwhole⟩ := ih (Between.events h _) hbehind
        rw [read_break, nil_append, read_data_blank h]
        refine ⟨hcr, fun hne => ⟨(hdata hne).1, ?_⟩, fun hbetween => ?_⟩
        · obtain ⟨rest, hrest⟩ := (hdata hne).2
          exact ⟨rest, by rw [ofLines_cons, hrest]; simp⟩
        · obtain ⟨whole, hlines, rfl⟩ := hwhole hbetween
          refine ⟨_, .data hpayload hlines, ?_⟩
          rw [ofLines_cons, ofLines_cons]

theorem endLine_line (hline : s.line ≠ []) : s.endLine.events = s.events := by
  unfold endLine
  rw [if_neg hline]
  split <;> rfl

theorem read_unfinished (h : s.Between) {text : JsString} (hcr : cr ∉ text)
    (hblank : ¬ [lf, lf] <:+: text) :
    (s.read text).events = s.events ∧ (s.read text).afterCr = false ∧
      ((s.read text).line = [] → (s.read text).data = [] ∨ ∃ line, text = line ++ [lf]) := by
  induction text using List.reverseRecOn with
  | nil => exact ⟨rfl, h.1, fun _ => .inl h.2.2⟩
  | append_singleton text c ih =>
    obtain ⟨hevents, hfresh, hdata⟩ := ih (fun hmem => hcr (mem_append_left _ hmem))
      (fun hbefore => hblank (hbefore.trans (prefix_append _ _).isInfix))
    have hc : c ≠ cr := by
      rintro rfl
      exact hcr (mem_append_right _ (mem_singleton_self _))
    have hstep : (s.read text).read [c] = (s.read text).step c := rfl
    rw [read_append, hstep]
    unfold step
    by_cases hlf : c = lf
    · rw [if_pos hlf, if_neg (by rw [hfresh]; decide)]
      obtain ⟨-, hnext⟩ := endLine_fresh (s.read text)
      refine ⟨?_, hnext, fun _ => .inr ⟨text, by rw [hlf]⟩⟩
      by_cases hline : (s.read text).line = []
      · rcases hdata hline with hempty | ⟨line, rfl⟩
        · unfold endLine endEvent
          rw [if_pos hline, if_pos hempty]
          exact hevents
        · -- the line feed before this one ended a line
          refine absurd ?_ hblank
          rw [hlf, append_assoc]
          exact (suffix_append line _).isInfix
      · rw [endLine_line hline, hevents]
    · rw [if_neg hlf, if_neg hc]
      refine ⟨hevents, rfl, fun hnil => ?_⟩
      exact absurd hnil (append_ne_nil_of_right_ne_nil _ (cons_ne_nil _ _))

theorem OpenAiLines.cr_not_mem {lines : List JsString} (h : OpenAiLines lines) :
    cr ∉ ofLines lines := by
  have hline : ∀ {line : JsString}, NoBreak line → ∀ {rest : JsString}, cr ∉ rest →
      cr ∉ line ++ lf :: rest := by
    intro line hline rest hrest hmem
    rcases mem_append.mp hmem with hinside | hbehind
    · exact (hline cr hinside).2 rfl
    · exact hrest (mem_of_ne_of_mem (by decide) hbehind)
  induction h with
  | nil => exact not_mem_nil
  | blank _ ih =>
    exact hline noBreak_nil ih
  | field hfield _ ih =>
    rw [ofLines_cons]
    exact hline hfield.1 ih
  | data hpayload _ ih =>
    rw [ofLines_cons, ofLines_cons]
    exact hline (noBreak_line hpayload) (hline noBreak_nil ih)

theorem between_of_blank {text : JsString} (hfresh : (s.read text).afterCr = false) :
    (s.read (text ++ [lf, lf])).Between := by
  have hend : s.read (text ++ [lf]) = (s.read text).endLine := by
    rw [read_append]
    show (s.read text).step lf = _
    unfold step
    rw [if_pos rfl, if_neg (by rw [hfresh]; decide)]
  obtain ⟨hline, hcr⟩ := endLine_fresh (s.read text)
  have hsplit : text ++ [lf, lf] = text ++ [lf] ++ [lf] := by simp
  rw [hsplit, read_append, hend, read_blank hcr hline]
  unfold endEvent Between
  split
  · rename_i hempty
    exact ⟨hcr, hline, hempty⟩
  · exact ⟨hcr, hline, rfl⟩

/-- The scan of the complete events reads what the client reads of the stream. -/
theorem text_of_cut {lines : List JsString} (hlines : OpenAiLines lines) (h : s.Between)
    {scanned tail : JsString} (hcut : scanned ++ tail <+: ofLines lines)
    (hscanned : scanned = [] ∨ ∃ text, scanned = text ++ [lf, lf])
    (htail : ¬ [lf, lf] <:+: tail) :
    ((s.read (scanned ++ tail)).events).flatMap (assistantText number) =
      s.events.flatMap (assistantText number) ++ scanText number scanned := by
  have hprefix : scanned <+: ofLines lines := (prefix_append scanned tail).trans hcut
  have hbetween : (s.read scanned).Between := by
    rcases hscanned with rfl | ⟨text, rfl⟩
    · exact h
    · exact between_of_blank (read_cut hlines h ((prefix_append text _).trans hprefix)).1
  obtain ⟨whole, hwhole, rfl⟩ := (read_cut hlines h hprefix).2.2 hbetween
  obtain ⟨more, hread, htext⟩ := @read_lines number s whole hwhole h
  have hcr : cr ∉ tail := fun hmem =>
    hlines.cr_not_mem (hcut.subset (mem_append_right _ hmem))
  rw [read_append, (read_unfinished hbetween hcr htail).1, hread, ← htext, flatMap_append]

theorem noBreak_quote (s : JsString) : NoBreak (quote s) := by
  refine JsonText.quote_of (P := NoBreak) (fun ha hb => noBreak_append.mpr ⟨ha, hb⟩) ?_ ?_ s
  · intro c hc _ _ d hd
    rw [mem_singleton.mp hd]
    constructor
    all_goals
      rintro rfl
      exact absurd hc (by decide)
  · intro c d hc hd e he
    rcases mem_cons.mp he with rfl | he
    · constructor
      all_goals
        rintro rfl
        exact absurd hc (by decide)
    · rw [mem_singleton.mp he]
      constructor
      all_goals
        rintro rfl
        exact absurd hd (by decide)

theorem wellFormed_quote (s : JsString) : WellFormed (quote s) :=
  JsonText.quote_of (P := WellFormed) (fun ha hb => ha.append hb)
    (fun _ _ hhigh hlow => wellFormed_unit hhigh hlow) (fun _ _ hc hd => wellFormed_pair hc hd) s

theorem js_marks : js "\x7b" = [unit '\x7b'] ∧ js "\x7d" = [unit '\x7d'] ∧ js "[" = [unit '['] ∧
    js "]" = [unit ']'] ∧ js ":" = [unit ':'] ∧ js "," = [unit ','] ∧ js "0" = [unit '0'] :=
  ⟨rfl, rfl, rfl, rfl, rfl, rfl, rfl⟩

variable (suffix : JsString)

theorem stringify_chatChunk : stringifyChunk (chatChunk suffix) =
      unit '\x7b' :: (quote (js "choices") ++ unit ':' :: unit '[' :: unit '\x7b' ::
        (quote (js "index") ++ unit ':' :: unit '0' :: unit ',' ::
          (quote (js "delta") ++ unit ':' :: unit '\x7b' :: (quote (js "content") ++ unit ':' ::
              (quote suffix ++ [unit '\x7d', unit '\x7d', unit ']', unit '\x7d']))))) := by
  obtain ⟨hopen, hclose, hopen', hclose', hcolon, hcomma, hzero⟩ := js_marks
  have hfinite : isFinite 0 = true := by decide
  unfold stringifyChunk chatChunk
  simp only [serialize, serializeItems, serializeMembers, isOmitted, hfinite, JsString.join, hopen,
    hclose, hopen', hclose', hcolon, hcomma, hzero]
  simp

theorem stringify_responsesChunk : stringifyChunk (responsesChunk suffix) =
      unit '\x7b' :: (quote (js "type") ++ unit ':' ::
        (quote (js "response.output_text.delta") ++ unit ',' ::
          (quote (js "output_index") ++ unit ':' :: unit '0' :: unit ',' ::
            (quote (js "content_index") ++ unit ':' :: unit '0' :: unit ',' ::
              (quote (js "delta") ++ unit ':' :: (quote suffix ++ [unit '\x7d'])))))) := by
  obtain ⟨hopen, hclose, -, -, hcolon, hcomma, hzero⟩ := js_marks
  have hfinite : isFinite 0 = true := by decide
  unfold stringifyChunk responsesChunk
  simp only [serialize, serializeMembers, isOmitted, hfinite, JsString.join, hopen, hclose, hcolon,
    hcomma, hzero]
  simp

variable {number : JsString → UInt64}

open JsonText

theorem parse_chatChunk : parse number (stringifyChunk (chatChunk suffix)) =
      some (.obj [(js "choices", .arr [.obj [(js "index", .num (number (js "0"))),
        (js "delta", .obj [(js "content", .str suffix)])]])]) := by
  obtain ⟨fuel, hfuel⟩ : ∃ fuel, (stringifyChunk (chatChunk suffix)).length + 1 = fuel + 10 := by
    refine ⟨(stringifyChunk (chatChunk suffix)).length - 9, ?_⟩
    rw [stringify_chatChunk]
    simp only [length_cons, length_append]
    omega
  have hcontent := members_last (@value_quote number fuel suffix
    [unit '\x7d', unit '\x7d', unit ']', unit '\x7d']) [] (js "content")
  have hdelta := members_last (value_obj hcontent)
    [(js "index", .num (number (js "0")))] (js "delta")
  have hindex := fun t => members_more (@value_zero number (fuel + 3) (unit ',') (.inl rfl) t) []
    (js "index")
  have hchoices := members_last (value_single (value_obj ((hindex _).trans hdelta))) []
    (js "choices")
  refine parse_of_value hfuel ?_
  rw [stringify_chatChunk]
  exact value_obj hchoices

theorem parse_responsesChunk :
    parse number (stringifyChunk (responsesChunk suffix)) =
      some (.obj [(js "type", .str (js "response.output_text.delta")),
        (js "output_index", .num (number (js "0"))), (js "content_index", .num (number (js "0"))),
        (js "delta", .str suffix)]) := by
  obtain ⟨fuel, hfuel⟩ : ∃ fuel, (stringifyChunk (responsesChunk suffix)).length + 1 = fuel + 6 := by
    refine ⟨(stringifyChunk (responsesChunk suffix)).length - 5, ?_⟩
    rw [stringify_responsesChunk]
    simp only [length_cons, length_append]
    omega
  have hdelta := fun read => members_last (@value_quote number fuel suffix [unit '\x7d']) read
    (js "delta")
  have hzero := fun fuel key read t =>
    members_more (@value_zero number fuel (unit ',') (.inl rfl) t) read key
  have htype := fun t => members_more (@value_quote number (fuel + 3)
    (js "response.output_text.delta") (unit ',' :: t)) [] (js "type")
  refine parse_of_value hfuel ?_
  rw [stringify_responsesChunk]
  refine value_obj ((htype _).trans ?_)
  rw [hzero (fuel + 2), hzero (fuel + 1), hdelta]
  rfl

theorem assistantText_chatChunk :
    assistantText number (stringifyChunk (chatChunk suffix)) = suffix := by
  unfold assistantText
  rw [parse_chatChunk]
  show [_].flatMap choiceText = suffix
  rw [flatMap_singleton]
  rfl

theorem assistantText_responsesChunk :
    assistantText number (stringifyChunk (responsesChunk suffix)) = suffix := by
  unfold assistantText
  rw [parse_responsesChunk]
  show responseText _ = suffix
  unfold responseText
  refine (if_pos ?_).trans ?_
  · rfl
  · rfl

theorem chatTerminal_eq : chatTerminal =
      unit '\x7b' :: (quote (js "choices") ++ unit ':' :: unit '[' :: unit '\x7b' ::
        (quote (js "index") ++ unit ':' :: unit '0' :: unit ',' ::
          (quote (js "delta") ++ unit ':' :: unit '\x7b' :: unit '\x7d' :: unit ',' ::
            (quote (js "finish_reason") ++ unit ':' ::
              (quote (js "stop") ++ [unit '\x7d', unit ']', unit '\x7d']))))) := by
  decide +kernel

theorem responsesTerminal_eq : responsesTerminal =
      unit '\x7b' :: (quote (js "type") ++ unit ':' :: (quote (js "response.completed") ++ unit ',' ::
        (quote (js "response") ++ unit ':' :: unit '\x7b' ::
          (quote (js "status") ++ unit ':' :: (quote (js "completed") ++ unit ',' ::
            (quote (js "output") ++ unit ':' :: unit '[' :: unit ']' ::
              [unit '\x7d', unit '\x7d'])))))) := by
  decide +kernel

theorem parse_chatTerminal : parse number chatTerminal =
      some (.obj [(js "choices", .arr [.obj [(js "index", .num (number (js "0"))),
        (js "delta", .obj []), (js "finish_reason", .str (js "stop"))]])]) := by
  have hfuel : chatTerminal.length + 1 = chatTerminal.length - 8 + 9 := by decide +kernel
  have hreason := fun read => members_last (@value_quote number (chatTerminal.length - 8) (js "stop")
    [unit '\x7d', unit ']', unit '\x7d']) read (js "finish_reason")
  have hdelta := fun fuel t read => members_more (@value_emptyObj number fuel (unit ',' :: t)) read
    (js "delta")
  have hindex := fun fuel t read => members_more (@value_zero number fuel (unit ',') (.inl rfl) t)
    read (js "index")
  have hchoice := value_obj ((hindex _ _ []).trans ((hdelta _ _ _).trans (hreason _)))
  refine parse_of_value hfuel ?_
  rw [chatTerminal_eq]
  exact value_obj (members_last (value_single hchoice) [] (js "choices"))

theorem parse_responsesTerminal : parse number responsesTerminal =
      some (.obj [(js "type", .str (js "response.completed")),
        (js "response", .obj [(js "status", .str (js "completed")), (js "output", .arr [])])]) := by
  have hfuel : responsesTerminal.length + 1 = responsesTerminal.length - 6 + 7 := by decide +kernel
  have houtput := fun read => members_last (@value_emptyArr number (responsesTerminal.length - 6)
    [unit '\x7d', unit '\x7d']) read (js "output")
  have hstring := fun fuel key s t read => members_more (@value_quote number fuel s (unit ',' :: t))
    read key
  have hresponse := value_obj ((hstring _ (js "status") (js "completed") _ []).trans (houtput _))
  refine parse_of_value hfuel ?_
  rw [responsesTerminal_eq]
  exact value_obj ((hstring _ (js "type") _ _ []).trans (members_last hresponse _ (js "response")))

theorem assistantText_chatTerminal : assistantText number chatTerminal = [] := by
  unfold assistantText
  rw [parse_chatTerminal]
  rfl

theorem assistantText_responsesTerminal : assistantText number responsesTerminal = [] := by
  unfold assistantText
  rw [parse_responsesTerminal]
  show responseText _ = []
  unfold responseText
  refine if_neg ?_
  show ¬ some (js "response.completed") = some (js "response.output_text.delta")
  decide

theorem assistantText_done : assistantText number (js "[DONE]") = [] := by
  unfold assistantText
  rw [parse_done]

/-! ## They can be the data of an event -/

/-- A text inside one line, without lone surrogates. -/
def Plain (text : JsString) : Prop := NoBreak text ∧ WellFormed text

/-- A text that can be the data of an event as it is. -/
def Stitchable (text : JsString) : Prop := Plain text ∧ JsString.trim (unit ' ' :: text) = text

theorem Plain.append {text text' : JsString} (h : Plain text) (h' : Plain text') :
    Plain (text ++ text') :=
  ⟨noBreak_append.mpr ⟨h.1, h'.1⟩, h.2.append h'.2⟩

theorem plain_quote (s : JsString) : Plain (quote s) := ⟨noBreak_quote s, wellFormed_quote s⟩

theorem plain_ascii {text : JsString}
    (hascii : (text.all fun c => decide (0x20 ≤ c.toNat) && decide (c.toNat < 0x80)) = true) :
    Plain text := by
  have h : ∀ c ∈ text, 0x20 ≤ c.toNat ∧ c.toNat < 0x80 := by
    intro c hc
    have hall := all_eq_true.mp hascii c hc
    rwa [Bool.and_eq_true, decide_eq_true_iff, decide_eq_true_iff] at hall
  refine ⟨fun c hc => ⟨?_, ?_⟩, wellFormed_units fun c hc => ⟨?_, ?_⟩⟩
  · rintro rfl
    exact absurd (h lf hc).1 (by decide)
  · rintro rfl
    exact absurd (h cr hc).1 (by decide)
  · rw [← Bool.not_eq_true, isHigh_iff]
    have hsmall := (h c hc).2
    omega
  · rw [← Bool.not_eq_true, isLow_iff]
    have hsmall := (h c hc).2
    omega

theorem Plain.cons {text : JsString} (h : Plain text) {c : UInt16}
    (hc : 0x20 ≤ c.toNat ∧ c.toNat < 0x80) : Plain (c :: text) := by
  have hunit : Plain [c] := plain_ascii (by simp [hc.1, hc.2])
  exact hunit.append h

/-- Nothing is trimmed from a text that does not begin or end with a space. -/
theorem trim_text {text : JsString} {first last : UInt16} (hhead : text.head? = some first)
    (hlast : text.getLast? = some last) (hfirst : JsString.isSpace first = false)
    (hend : JsString.isSpace last = false) : JsString.trim (unit ' ' :: text) = text := by
  have hspace : JsString.isSpace (unit ' ') = true := by decide
  have hstart : JsString.trimStart (unit ' ' :: text) = text := by
    obtain ⟨rest, rfl⟩ := head?_eq_some_iff.mp hhead
    unfold JsString.trimStart
    rw [dropWhile_cons, if_pos hspace, dropWhile_cons, if_neg (by rw [hfirst]; decide)]
  obtain ⟨rest, rfl⟩ := getLast?_eq_some_iff.mp hlast
  unfold JsString.trim
  rw [hstart, reverse_append, reverse_singleton, singleton_append,
    dropWhile_cons, if_neg (by rw [hend]; decide), reverse_cons, reverse_reverse]

theorem stitchable_chatChunk : Stitchable (stringifyChunk (chatChunk suffix)) := by
  have hclose : Plain [unit '\x7d', unit '\x7d', unit ']', unit '\x7d'] := plain_ascii (by decide)
  have hcontent := (plain_quote (js "content")).append
    (((plain_quote suffix).append hclose).cons (c := unit ':') (by decide))
  have hdelta := (plain_quote (js "delta")).append
    ((hcontent.cons (c := unit '\x7b') (by decide)).cons (c := unit ':') (by decide))
  have hindex := (plain_quote (js "index")).append
    (((hdelta.cons (c := unit ',') (by decide)).cons (c := unit '0') (by decide)).cons
      (c := unit ':') (by decide))
  have hchoices := (plain_quote (js "choices")).append
    (((hindex.cons (c := unit '\x7b') (by decide)).cons (c := unit '[') (by decide)).cons
      (c := unit ':') (by decide))
  rw [stringify_chatChunk]
  refine ⟨hchoices.cons (by decide), @trim_text _ (unit '\x7b') (unit '\x7d') rfl ?_ (by decide)
    (by decide)⟩
  simp [getLast?_cons]

theorem stitchable_responsesChunk : Stitchable (stringifyChunk (responsesChunk suffix)) := by
  have hclose : Plain [unit '\x7d'] := plain_ascii (by decide)
  have hdelta := (plain_quote (js "delta")).append
    (((plain_quote suffix).append hclose).cons (c := unit ':') (by decide))
  have hzero : ∀ {text}, Plain text → Plain (unit ':' :: unit '0' :: unit ',' :: text) :=
    fun h => ((h.cons (by decide)).cons (by decide)).cons (by decide)
  have hcontent := (plain_quote (js "content_index")).append (hzero hdelta)
  have houtput := (plain_quote (js "output_index")).append (hzero hcontent)
  have htype := (plain_quote (js "type")).append
    (((plain_quote (js "response.output_text.delta")).append
      (houtput.cons (c := unit ',') (by decide))).cons (c := unit ':') (by decide))
  rw [stringify_responsesChunk]
  refine ⟨htype.cons (by decide), @trim_text _ (unit '\x7b') (unit '\x7d') rfl ?_ (by decide)
    (by decide)⟩
  simp [getLast?_cons]

theorem stitchable_terminals :
    Stitchable responsesTerminal ∧ Stitchable chatTerminal ∧ Stitchable (js "[DONE]") := by
  refine ⟨⟨plain_ascii ?_, ?_⟩, ⟨plain_ascii ?_, ?_⟩, ⟨plain_ascii ?_, ?_⟩⟩ <;> decide +kernel

end RedRouter.Services
