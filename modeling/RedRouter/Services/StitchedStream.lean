import RedRouter.Services.StitchedChunks

/-!
# Streams that were stitched

The text that `tryContinue` of `open-sse/services/streamRecovery.ts` puts after
a cut is an event of its own.  The chunks before the cut went to the client as
they came, so the cut may be inside an event.

`stitched_iff` says that a client reads the stitched events, and their text once,
exactly when the cut is between two events.
-/

namespace RedRouter.Services

open List EventStream

/-! ## The client -/

/-- The client's reader behind some bytes. -/
def reader (bytes : List UInt8) : EventStream :=
  EventStream.read {} (Utf8Decoder.decode {} bytes).2

def clientEvents (bytes : List UInt8) : List JsString := (reader bytes).events

def clientText (number : JsString → UInt64) (bytes : List UInt8) : JsString :=
  (clientEvents bytes).flatMap (assistantText number)

/-- The bytes end between two events: no code point, no line and no event is
under way. -/
def BetweenEvents (bytes : List UInt8) : Prop :=
  (Utf8Decoder.decode {} bytes).1.needed = 0 ∧ (reader bytes).Between

/-- An upstream in the format of the OpenAI API. -/
structure OpenAiUpstream where
  bytes : List UInt8
  lines : List JsString
  format : OpenAiLines lines
  decodes : (Utf8Decoder.decode {} bytes).2 = ofLines lines

open RecoverableStream (encodeEvent)

theorem reader_append (bytes more : List UInt8) : reader (bytes ++ more) =
      (reader bytes).read ((Utf8Decoder.decode {} bytes).1.decode more).2 := by
  unfold reader
  rw [Utf8Decoder.decode_append, EventStream.read_append]

theorem decode_event {d : Utf8Decoder} (hvalid : d.Valid) {text : JsString} (h : Stitchable text) :
    d.decode (encodeEvent text) = ({ started := true }, d.flush ++ event text) := by
  have hbreak : WellFormed [lf] := wellFormed_unit (by decide) (by decide)
  have hbreaks : WellFormed (js "\n\n") := hbreak.append hbreak
  have hfield : WellFormed (js "ata: ") := (plain_ascii (by decide)).2
  exact Utf8Decoder.decode_utf8_ascii hvalid (c := unit 'd') (by decide)
    (hfield.append (h.1.2.append hbreaks))

theorem valid_init : Utf8Decoder.Valid {} := .inl rfl

theorem read_event_between {bytes : List UInt8} (h : BetweenEvents bytes) {text : JsString}
    (htext : Stitchable text) :
    BetweenEvents (bytes ++ encodeEvent text) ∧ reader (bytes ++ encodeEvent text) =
        { reader bytes with events := clientEvents bytes ++ [text] } := by
  have hdecode := decode_event (Utf8Decoder.valid_decode valid_init bytes) htext
  have hflush : (Utf8Decoder.decode {} bytes).1.flush = [] := if_pos h.1
  have hread : reader (bytes ++ encodeEvent text) =
      { reader bytes with events := clientEvents bytes ++ [text] } := by
    rw [reader_append, hdecode, hflush, nil_append]
    exact read_event h.2 htext.1.1
  refine ⟨⟨?_, ?_⟩, hread⟩
  · rw [Utf8Decoder.decode_append, hdecode]
  · rw [hread]
    exact Between.events h.2 _

theorem clientEvents_stitched {bytes : List UInt8} (h : BetweenEvents bytes)
    {texts : List JsString} (htexts : ∀ text ∈ texts, Stitchable text) :
    clientEvents (bytes ++ (texts.map encodeEvent).flatten) = clientEvents bytes ++ texts := by
  induction texts generalizing bytes with
  | nil =>
    show clientEvents (bytes ++ []) = clientEvents bytes ++ []
    rw [append_nil, append_nil]
  | cons text texts ih =>
    obtain ⟨hbetween, hread⟩ := read_event_between h (htexts text mem_cons_self)
    rw [map_cons, List.flatten_cons, ← append_assoc,
      ih hbetween fun t ht => htexts t (mem_cons_of_mem text ht)]
    show (reader _).events ++ texts = _
    rw [hread, append_assoc]
    rfl

theorem between_nil : BetweenEvents [] := ⟨rfl, rfl, rfl, rfl⟩

theorem OpenAiUpstream.cut (U : OpenAiUpstream) {bytes : List UInt8} (h : bytes <+: U.bytes) :
    (Utf8Decoder.decode {} bytes).2 <+: ofLines U.lines := by
  rw [← U.decodes]
  exact Utf8Decoder.decode_prefix h

theorem between_init : ({} : EventStream).Between := ⟨rfl, rfl, rfl⟩

/-- Where the blank line of an event is missing, no code point is under way. -/
theorem OpenAiUpstream.ready_of_blank (U : OpenAiUpstream) {bytes : List UInt8}
    (h : bytes <+: U.bytes) (hdata : (reader bytes).data ≠ [])
    (hblank : BlankFollows (Utf8Decoder.decode {} bytes).2 (ofLines U.lines)) :
    (Utf8Decoder.decode {} bytes).1.needed = 0 := by
  by_contra hpending
  obtain ⟨more, hmore⟩ := h
  have hstarted : (Utf8Decoder.decode {} bytes).1.started = true := by
    rcases @Utf8Decoder.started_decode {} bytes with hstarted | ⟨hnone, -⟩
    · exact hstarted
    · refine absurd ?_ hdata
      unfold reader
      rw [hnone]
      rfl
  obtain ⟨rest, hrest⟩ := hblank
  have hnext : ((Utf8Decoder.decode {} bytes).1.decode more).2 = lf :: rest := by
    have hall := U.decodes
    rw [← hmore, Utf8Decoder.decode_append, hrest] at hall
    exact append_cancel_left hall
  have hbig := Utf8Decoder.decode_pending hstarted
    (Utf8Decoder.valid_decode valid_init bytes) hpending more lf (by rw [hnext]; rfl)
  exact absurd hbig (by decide)

theorem OpenAiUpstream.swallowed (U : OpenAiUpstream) {bytes : List UInt8} (h : bytes <+: U.bytes)
    (hinside : ¬ BetweenEvents bytes) {text : JsString} {texts : List JsString}
    (htexts : ∀ t ∈ text :: texts, Stitchable t) :
    clientEvents (bytes ++ ((text :: texts).map encodeEvent).flatten) ≠
      clientEvents bytes ++ text :: texts := by
  have htext : Stitchable text := htexts text mem_cons_self
  have hvalid := Utf8Decoder.valid_decode valid_init bytes
  obtain ⟨hfresh, hdata, -⟩ : CutInv (reader bytes) _ _ :=
    read_cut U.format between_init (U.cut h)
  have hflush : NoBreak (Utf8Decoder.decode {} bytes).1.flush := by
    unfold Utf8Decoder.flush
    split
    · exact noBreak_nil
    · exact noBreak_of_all (by decide)
  have hglued : ∃ more, more ≠ [text] ∧
      reader (bytes ++ encodeEvent text) = { events := clientEvents bytes ++ more } := by
    rw [reader_append, decode_event hvalid htext, EventStream.read_append,
      read_noBreak hflush hfresh]
    refine read_glued (s := { reader bytes with line := (reader bytes).line ++ _ }) hfresh ?_ ?_
      htext.1.1
    · by_contra hnothing
      rw [not_or, not_not, not_not] at hnothing
      obtain ⟨hline, hflushed⟩ := append_eq_nil_iff.mp hnothing.1
      refine hinside ⟨?_, hfresh, hline, hnothing.2⟩
      by_contra hpending
      unfold Utf8Decoder.flush at hflushed
      rw [if_neg hpending] at hflushed
      cases hflushed
    · intro hne
      obtain ⟨hline, hblank⟩ := hdata hne
      exact append_eq_nil_iff.mpr ⟨hline, if_pos (U.ready_of_blank h hne hblank)⟩
  obtain ⟨more, hmore, hread⟩ := hglued
  have hbetween : BetweenEvents (bytes ++ encodeEvent text) := by
    refine ⟨?_, ?_⟩
    · rw [Utf8Decoder.decode_append, decode_event hvalid htext]
    · rw [hread]
      exact ⟨rfl, rfl, rfl⟩
  rw [map_cons, List.flatten_cons, ← append_assoc,
    clientEvents_stitched hbetween fun t ht => htexts t (mem_cons_of_mem text ht)]
  intro hsame
  have hevents : clientEvents (bytes ++ encodeEvent text) = clientEvents bytes ++ more := by
    show (reader _).events = _
    rw [hread]
  rw [hevents, append_assoc, append_cancel_left_eq] at hsame
  exact hmore (append_cancel_right (hsame.trans singleton_append.symm))

/-! ## What the stream knows of its chunks -/

theorem lastIndexOf_eq_none {needle text : JsString} (h : lastIndexOf needle text = none) :
    ¬ needle <:+: text := by
  induction text with
  | nil =>
    unfold lastIndexOf at h
    split at h
    · cases h
    · rename_i hne
      intro hblank
      rw [infix_nil] at hblank
      rw [hblank] at hne
      exact hne rfl
  | cons c rest ih =>
    rw [lastIndexOf] at h
    split at h
    · cases h
    · rename_i hrest
      split at h
      · cases h
      · rename_i hprefix
        rw [infix_cons_iff]
        rintro (hhere | hbehind)
        · exact hprefix ( isPrefixOf_iff_prefix.mpr hhere)
        · exact ih hrest hbehind

theorem lastIndexOf_eq_some {needle text : JsString} {i : Nat} (hne : needle ≠ [])
    (h : lastIndexOf needle text = some i) :
    (∃ before after, text = before ++ (needle ++ after) ∧ before.length = i) ∧
      ¬ needle <:+: text.drop (i + 1) := by
  induction text generalizing i with
  | nil =>
    unfold lastIndexOf at h
    rw [if_neg (by simpa using hne)] at h
    cases h
  | cons c rest ih =>
    rw [lastIndexOf] at h
    split at h
    · rename_i j hrest
      obtain rfl := Option.some.inj h
      obtain ⟨⟨before, after, htext, hlength⟩, hnone⟩ := ih hrest
      exact ⟨⟨c :: before, after, by rw [htext]; rfl, by rw [length_cons, hlength]⟩, hnone⟩
    · rename_i hrest
      split at h
      · rename_i hprefix
        obtain rfl := Option.some.inj h
        obtain ⟨after, hafter⟩ := isPrefixOf_iff_prefix.mp hprefix
        exact ⟨⟨[], after, hafter.symm, rfl⟩, lastIndexOf_eq_none hrest⟩
      · cases h

/-- No event, or events with the last blank line. -/
def Complete (text : JsString) : Prop := text = [] ∨ ∃ before, text = before ++ [lf, lf]

variable {number : JsString → UInt64} {o : RecoverableStreamOptions}

theorem Complete.scanText_append {text : JsString} (h : Complete text) (more : JsString) :
    scanText number (text ++ more) = scanText number text ++ scanText number more := by
  rcases h with rfl | ⟨before, rfl⟩
  · rfl
  · have hsplit : before ++ [lf, lf] = before ++ [lf] ++ [lf] := by simp
    rw [hsplit, scanText_snoc, append_assoc, singleton_append, RedRouter.Services.scanText_append]

theorem cut_boundary {text : JsString} {i : Nat} (h : lastIndexOf (js "\n\n") text = some i) :
    Complete (text.take (i + 2)) ∧ ¬ [lf, lf] <:+: text.drop (i + 2) := by
  obtain ⟨⟨before, after, htext, hlength⟩, hnone⟩ := lastIndexOf_eq_some (by decide) h
  refine ⟨.inr ⟨before, ?_⟩, fun hblank => hnone ?_⟩
  · have hsplit : text = before ++ [lf, lf] ++ after := by
      rw [htext, append_assoc]
      rfl
    have htwo : i + 2 = (before ++ [lf, lf]).length := by
      rw [length_append, hlength]
      rfl
    rw [hsplit, htwo, take_left]
  · have hdrop : text.drop (i + 2) = (text.drop (i + 1)).drop 1 := by rw [drop_drop]
    rw [hdrop] at hblank
    exact hblank.trans (drop_suffix 1 _).isInfix

theorem Complete.append {text more : JsString} (h : Complete text) (h' : Complete more) :
    Complete (text ++ more) := by
  rcases h' with rfl | ⟨before, rfl⟩
  · rw [append_nil]
    exact h
  · exact .inr ⟨text ++ before, (append_assoc _ _ _).symm⟩

namespace RecoverableStream

variable {s : RecoverableStream}

def delivered (s : RecoverableStream) : List UInt8 := s.enqueued.flatten

theorem delivered_enqueue (chunk : List UInt8) :
    (s.enqueue chunk).delivered = s.delivered ++ chunk := by
  unfold delivered enqueue
  rw [flatten_append, flatten_singleton]

/-- The decoder is behind the delivered bytes; the complete events were scanned,
and the tail has none. -/
structure Tracks (number : JsString → UInt64) (s : RecoverableStream) : Prop where
  decoder : s.trackDecoder = (Utf8Decoder.decode {} s.delivered).1
  scanned : ∃ scanned, (Utf8Decoder.decode {} s.delivered).2 = scanned ++ s.emittedTail ∧
    Complete scanned ∧ s.emittedText = scanText number scanned
  tail : ¬ [lf, lf] <:+: s.emittedTail

theorem tracks_init : Tracks number {} where
  decoder := rfl
  scanned := ⟨[], rfl, .inl rfl, rfl⟩
  tail := by decide

theorem Tracks.track (h : Tracks number s) (chunk : List UInt8)
    (hnext : ((s.enqueue chunk).track number chunk).status = .open) :
    Tracks number ((s.enqueue chunk).track number chunk) := by
  obtain ⟨scanned, hunits, hcomplete, htext⟩ := h.scanned
  have hdecode : Utf8Decoder.decode {} (s.delivered ++ chunk) = ((s.trackDecoder.decode chunk).1,
        scanned ++ (s.emittedTail ++ (s.trackDecoder.decode chunk).2)) := by
    rw [Utf8Decoder.decode_append, ← h.decoder, hunits, append_assoc]
  rw [← delivered_enqueue] at hdecode
  unfold RecoverableStream.track at hnext ⊢
  dsimp only at hnext ⊢
  generalize htail : (s.enqueue chunk).emittedTail ++
    ((s.enqueue chunk).trackDecoder.decode chunk).2 = tail at hnext ⊢
  have hdecode' : Utf8Decoder.decode {} (s.enqueue chunk).delivered =
      ((s.trackDecoder.decode chunk).1, scanned ++ tail) := by
    rw [hdecode, ← htail]
    rfl
  cases hboundary : lastIndexOf (js "\n\n") tail with
  | none =>
    refine ⟨(congrArg Prod.fst hdecode').symm, ⟨scanned, ?_, hcomplete, htext⟩,
      lastIndexOf_eq_none hboundary⟩
    exact congrArg Prod.snd hdecode'
  | some boundary =>
    obtain ⟨hevents, hrest⟩ := cut_boundary hboundary
    rw [hboundary] at hnext
    dsimp only at hnext ⊢
    cases hscan : scanOpenAiSseText number (tail.take (boundary + 2)) with
    | none =>
      rw [hscan] at hnext
      cases hnext
    | some scan =>
      refine ⟨(congrArg Prod.fst hdecode').symm,
        ⟨scanned ++ tail.take (boundary + 2), ?_, hcomplete.append hevents, ?_⟩, hrest⟩
      · have hsplit : scanned ++ tail =
            scanned ++ tail.take (boundary + 2) ++ tail.drop (boundary + 2) := by
          rw [append_assoc, take_append_drop]
        exact (congrArg Prod.snd hdecode').trans hsplit
      · show s.emittedText ++ scan.text = _
        rw [htext, text_scanOpenAiSseText hscan, hcomplete.scanText_append]

theorem Tracks.emit (ho : o.continueStream.isSome = true)
    (h : s.status = .open → Tracks number s) (chunk : List UInt8)
    (hnext : (s.emit number o chunk).status = .open) : Tracks number (s.emit number o chunk) := by
  unfold RecoverableStream.emit at hnext ⊢
  split
  · rename_i hopen
    rw [if_pos hopen, if_pos ho] at hnext
    exact (h hopen).track chunk hnext
  · rename_i hdone
    rw [if_neg hdone] at hnext
    exact absurd hnext hdone

theorem Tracks.emitAll (ho : o.continueStream.isSome = true)
    (h : s.status = .open → Tracks number s) (chunks : List (List UInt8)) :
    (chunks.foldl (RecoverableStream.emit number o) s).status = .open →
      Tracks number (chunks.foldl (RecoverableStream.emit number o) s) := by
  induction chunks generalizing s with
  | nil => exact h
  | cons chunk chunks ih => exact ih (Tracks.emit ho h chunk)

theorem finish_status {status : StreamStatus} (hstatus : status ≠ .open) :
    (s.finish status).status ≠ .open := by
  unfold finish
  split
  · exact hstatus
  · assumption

theorem continueOr_status {otherwise : StreamStatus} (hstatus : otherwise ≠ .open) :
    (s.continueOr number o otherwise).status ≠ .open := by
  unfold continueOr
  split
  · exact finish_status (by decide)
  · exact finish_status hstatus
  · exact finish_status (by decide)

theorem Tracks.reopenOrFlush (h : Tracks number s) (reopens : Bool) :
    (s.reopenOrFlush number o reopens).status = .open →
      Tracks number (s.reopenOrFlush number o reopens) := by
  unfold RecoverableStream.reopenOrFlush tryReopen
  split
  · rename_i reopened hreopen
    split_ifs at hreopen
    · cases hreopen
    · obtain rfl := (Prod.mk.inj hreopen).2
      exact fun _ => { h with }
    · cases hreopen
  · exact fun hopen => absurd hopen (finish_status (by decide))

theorem Tracks.step (ho : o.continueStream.isSome = true) (h : s.status = .open → Tracks number s)
    (read : Read) : (s.step number o read).status = .open → Tracks number (s.step number o read) := by
  unfold RecoverableStream.step
  split
  · rename_i hopen
    have htracks := h hopen
    split
    · split
      · split
        · exact fun hnext => absurd hnext (continueOr_status (by decide))
        · exact fun hnext => absurd hnext (finish_status (by decide))
      · split
        · exact htracks.reopenOrFlush _
        · exact fun hnext => absurd hnext (finish_status (by decide))
    · split
      · exact fun hnext => absurd hnext (continueOr_status (by decide))
      · split
        · exact fun hnext => absurd hnext (finish_status (by decide))
        · exact htracks.reopenOrFlush _
    · split
      · split
        · exact fun hnext => absurd hnext (continueOr_status (by decide))
        · exact htracks.reopenOrFlush _
      · split
        · exact Tracks.emit ho h _
        · refine Tracks.emitAll ho (fun _ => ?_) _
          exact { htracks with }
  · exact h

theorem tracks_run (ho : o.continueStream.isSome = true) (reads : List Read) :
    (run number o reads).status = .open → Tracks number (run number o reads) := by
  induction reads using List.reverseRecOn with
  | nil => exact fun _ => tracks_init
  | append_singleton reads read ih =>
    have hlast : run number o (reads ++ [read]) = (run number o reads).step number o read := by
      unfold run
      rw [foldl_append]
      rfl
    rw [hlast]
    exact Tracks.step ho ih read

theorem Tracks.text (h : Tracks number s) (U : OpenAiUpstream) (hcut : s.delivered <+: U.bytes) :
    s.emittedText = clientText number s.delivered := by
  obtain ⟨scanned, hunits, hcomplete, htext⟩ := h.scanned
  have hlines := U.cut hcut
  rw [hunits] at hlines
  have hclient := @text_of_cut number {} U.lines U.format between_init scanned s.emittedTail hlines
    hcomplete h.tail
  rw [htext]
  unfold clientText clientEvents reader
  rw [hunits]
  exact hclient.symm

/-! ## The continuations -/

def continuationText (number : JsString → UInt64) (chunks : List (List UInt8)) : JsString :=
  scanText number (Utf8Decoder.decode {} chunks.flatten).2

/-- A text that is continued from one attempt to another: each attempt asks for
the rest of the text so far, and a continuation that is accepted adds the part
of it that does not repeat the text. -/
inductive ContinuedText (number : JsString → UInt64) (o : RecoverableStreamOptions) :
    Nat → JsString → Nat → JsString → Prop where
  | done {attempt text} : ContinuedText number o attempt text attempt text
  | noStream {attempt text} (hask : o.ask (attempt + 1) text = none) :
      ContinuedText number o attempt text (attempt + 1) text
  | restart {attempt text attempt' text' chunks} (hask : o.ask (attempt + 1) text = some chunks)
      (hrestart : isSuspectedRestart text (continuationText number chunks) = true)
      (rest : ContinuedText number o (attempt + 1) text attempt' text') :
      ContinuedText number o attempt text attempt' text'
  | resume {attempt text attempt' text' chunks} (hask : o.ask (attempt + 1) text = some chunks)
      (hresume : isSuspectedRestart text (continuationText number chunks) = false)
      (rest : ContinuedText number o (attempt + 1)
        (text ++ trimContinuationOverlap text (continuationText number chunks)) attempt' text') :
      ContinuedText number o attempt text attempt' text'

/-- What was delivered are whole events, and they were scanned. -/
structure Whole (number : JsString → UInt64) (s : RecoverableStream) : Prop where
  tracks : Tracks number s
  ready : (Utf8Decoder.decode {} s.delivered).1.needed = 0
  format : ∃ lines, OpenAiLines lines ∧ (Utf8Decoder.decode {} s.delivered).2 = ofLines lines

theorem Whole.upstream (h : Whole number s) : ∃ U : OpenAiUpstream, U.bytes = s.delivered := by
  obtain ⟨lines, hlines, hdecode⟩ := h.format
  exact ⟨⟨s.delivered, lines, hlines, hdecode⟩, rfl⟩

theorem Whole.between (h : Whole number s) : BetweenEvents s.delivered := by
  obtain ⟨lines, hlines, hdecode⟩ := h.format
  obtain ⟨more, hread, -⟩ := @read_lines number {} lines hlines between_init
  refine ⟨h.ready, ?_⟩
  unfold reader
  rw [hdecode, hread]
  exact Between.events between_init _

theorem Whole.text (h : Whole number s) : s.emittedText = clientText number s.delivered := by
  obtain ⟨U, hbytes⟩ := h.upstream
  exact h.tracks.text U (hbytes ▸ prefix_refl _)

theorem event_ofLines (text : JsString) :
    event text = ofLines [js "data:" ++ unit ' ' :: text, []] := by
  rw [event_lines, ofLines_cons, ofLines_cons]
  show _ = js "data:" ++ unit ' ' :: text ++ [lf, lf]
  have hspace : js "data: " = js "data:" ++ [unit ' '] := rfl
  rw [hspace]
  simp

theorem openAiLines_event {text : JsString} (h : Stitchable text) :
    OpenAiLines [js "data:" ++ unit ' ' :: text, []] := by
  refine .data ⟨?_, h.2⟩ .nil
  have hspace : NoBreak [unit ' '] := noBreak_of_all (by decide)
  exact noBreak_append.mpr ⟨hspace, h.1.1⟩

theorem Whole.emit (h : Whole number s) (ho : o.continueStream.isSome = true)
    {text : JsString} (htext : Stitchable text)
    (hnext : (s.emit number o (encodeEvent text)).status = .open)
    (hdelivered : (s.emit number o (encodeEvent text)).delivered = s.delivered ++ encodeEvent text) :
    Whole number (s.emit number o (encodeEvent text)) ∧
      (s.emit number o (encodeEvent text)).emittedText =
        s.emittedText ++ assistantText number text := by
  obtain ⟨lines, hlines, hdecode⟩ := h.format
  have hevent := decode_event (Utf8Decoder.valid_decode valid_init s.delivered) htext
  have hflush : (Utf8Decoder.decode {} s.delivered).1.flush = [] := if_pos h.ready
  have hall : Utf8Decoder.decode {} (s.delivered ++ encodeEvent text) =
      ({ started := true }, ofLines (lines ++ [js "data:" ++ unit ' ' :: text, []])) := by
    rw [Utf8Decoder.decode_append, hevent, hflush, nil_append, hdecode, event_ofLines,
      ofLines_append]
  rw [← hdelivered] at hall
  have hwhole : Whole number (s.emit number o (encodeEvent text)) := by
    refine ⟨Tracks.emit ho (fun _ => h.tracks) _ hnext, ?_, _,
      hlines.append (openAiLines_event htext), ?_⟩
    all_goals rw [hall]
  refine ⟨hwhole, ?_⟩
  rw [hwhole.text, h.text, hdelivered]
  unfold clientText
  have hread :
      clientEvents (s.delivered ++ encodeEvent text) = clientEvents s.delivered ++ [text] := by
    show (reader _).events = _
    rw [(read_event_between h.between htext).2]
  rw [hread, flatMap_append, flatMap_singleton]

/-- The events that are written from one state to another, and what they do to
the text. -/
structure Stitches (number : JsString → UInt64) (o : RecoverableStreamOptions)
    (s s' : RecoverableStream) (texts : List JsString) : Prop where
  stitchable : ∀ text ∈ texts, Stitchable text
  enqueued : s'.enqueued = s.enqueued ++ texts.map encodeEvent
  continued : Whole number s → ContinuedText number o s.continuations s.emittedText
    s'.continuations (s.emittedText ++ texts.flatMap (assistantText number))

variable {s' : RecoverableStream}

theorem emitCleanTerminal_texts (s : RecoverableStream) :
    ∃ texts : List JsString, texts ≠ [] ∧ (∀ text ∈ texts, Stitchable text) ∧
      s.emitCleanTerminal.enqueued = s.enqueued ++ texts.map encodeEvent ∧
      s.emitCleanTerminal.continuations = s.continuations ∧
      texts.flatMap (assistantText number) = [] := by
  obtain ⟨hresponses, hchat, hdone⟩ := stitchable_terminals
  unfold emitCleanTerminal
  split
  · refine ⟨[responsesTerminal], cons_ne_nil _ _, ?_, rfl, rfl, ?_⟩
    · simpa using hresponses
    · rw [flatMap_singleton, assistantText_responsesTerminal]
  · refine ⟨[chatTerminal, js "[DONE]"], cons_ne_nil _ _, ?_, ?_, rfl, ?_⟩
    · simpa using ⟨hchat, hdone⟩
    · show s.enqueued ++ [_] ++ [_] = _
      rw [append_assoc]
      rfl
    · rw [flatMap_cons, flatMap_singleton, assistantText_chatTerminal,
        assistantText_done, append_nil]

theorem stitches_terminal {t : RecoverableStream} (henqueued : t.enqueued = s.enqueued)
    (hattempts : ContinuedText number o s.continuations s.emittedText t.continuations s.emittedText) :
    ∃ texts, texts ≠ [] ∧ Stitches number o s t.emitCleanTerminal texts := by
  obtain ⟨texts, hne, hstitchable, hwritten, hsame, htext⟩ := @emitCleanTerminal_texts number t
  refine ⟨texts, hne, hstitchable, ?_, fun _ => ?_⟩
  · rw [hwritten, henqueued]
  · rw [htext, append_nil, hsame]
    exact hattempts

theorem emit_enqueued (hopen : s.status = .open) (chunk : List UInt8) :
    (s.emit number o chunk).enqueued = s.enqueued ++ [chunk] ∧
      (s.emit number o chunk).continuations = s.continuations := by
  have htrack : ∀ t : RecoverableStream, (t.track number chunk).enqueued = t.enqueued ∧
      (t.track number chunk).continuations = t.continuations := by
    intro t
    unfold RecoverableStream.track
    dsimp only
    split
    · exact ⟨rfl, rfl⟩
    · split <;> exact ⟨rfl, rfl⟩
  unfold emit
  rw [if_pos hopen]
  split
  · exact htrack _
  · exact ⟨rfl, rfl⟩

/-- Events with the text `suffix` are written, and scanned. -/
def Writes (number : JsString → UInt64) (s s' : RecoverableStream) (suffix : JsString) : Prop :=
  ∃ texts : List JsString, (∀ text ∈ texts, Stitchable text) ∧
    s'.enqueued = s.enqueued ++ texts.map encodeEvent ∧ s'.continuations = s.continuations ∧
    texts.flatMap (assistantText number) = suffix ∧
    (s'.status = .open → Whole number s →
      Whole number s' ∧ s'.emittedText = s.emittedText ++ suffix)

theorem writes_event (hopen : s.status = .open) (ho : o.continueStream.isSome = true)
    {text : JsString} (htext : Stitchable text) :
    Writes number s (s.emit number o (encodeEvent text)) (assistantText number text) := by
  obtain ⟨henqueued, hsame⟩ := @emit_enqueued number o s hopen (encodeEvent text)
  refine ⟨[text], ?_, henqueued, hsame, flatMap_singleton _ _, fun hnext hwhole => ?_⟩
  · simpa using htext
  · refine hwhole.emit ho htext hnext ?_
    unfold delivered
    rw [henqueued, flatten_append, flatten_singleton]

theorem writes_suffix (hopen : s.status = .open) (ho : o.continueStream.isSome = true)
    (suffix : JsString) : Writes number s (s.emitSuffix number o suffix) suffix := by
  unfold emitSuffix
  split
  · rename_i hempty
    refine ⟨[], by simp, (append_nil _).symm, rfl, hempty.symm, fun _ hwhole => ⟨hwhole, ?_⟩⟩
    rw [hempty, append_nil]
  · split
    · have hevent := @writes_event number o s hopen ho _ (stitchable_responsesChunk suffix)
      rwa [assistantText_responsesChunk] at hevent
    · have hevent := @writes_event number o s hopen ho _ (stitchable_chatChunk suffix)
      rwa [assistantText_chatChunk] at hevent

theorem orClose_ne_refused (c : Continuation) : orClose c ≠ .refused s' := by
  intro hc
  cases c <;> cases hc

theorem tryContinue_refused {fuel : Nat} (h : s.tryContinue number o fuel = .refused s') :
    s'.enqueued = s.enqueued ∧
      ContinuedText number o s.continuations s.emittedText s'.continuations s.emittedText := by
  cases fuel with
  | zero =>
    obtain rfl := Continuation.refused.inj h
    exact ⟨rfl, .done⟩
  | succ fuel =>
    unfold tryContinue at h
    dsimp only at h
    split at h
    · split at h
      · rename_i hask
        obtain rfl := Continuation.refused.inj h
        exact ⟨rfl, .noStream hask⟩
      · split at h
        · cases h
        · split at h
          · exact absurd h (orClose_ne_refused _)
          · split at h
            · split at h
              · cases h
              · split at h
                · cases h
                · exact absurd h (orClose_ne_refused _)
            · cases h
    · obtain rfl := Continuation.refused.inj h
      exact ⟨rfl, .done⟩

/-- What follows an attempt: the stream is continued again, or it ends. -/
theorem stitches_orClose {fuel : Nat} (hagain : s.tryContinue number o fuel = .stitched s' →
      ∃ texts, texts ≠ [] ∧ Stitches number o s s' texts)
    (h : orClose (s.tryContinue number o fuel) = .stitched s') :
    ∃ texts, texts ≠ [] ∧ Stitches number o s s' texts := by
  cases hc : s.tryContinue number o fuel with
  | threw t =>
    rw [hc] at h
    cases h
  | refused t =>
    rw [hc] at h
    obtain rfl := Continuation.stitched.inj h
    obtain ⟨henqueued, hattempts⟩ := tryContinue_refused hc
    exact stitches_terminal henqueued hattempts
  | stitched t =>
    rw [hc] at h
    exact hagain (hc.trans h)

theorem Whole.nextAttempt (h : Whole number s) : Whole number s.nextAttempt :=
  ⟨{ h.tracks with }, h.ready, h.format⟩

theorem Stitches.restart {texts : List JsString} {chunks : List (List UInt8)}
    (hask : o.ask (s.continuations + 1) s.emittedText = some chunks)
    (hrestart : isSuspectedRestart s.emittedText (continuationText number chunks) = true)
    (h : Stitches number o s.nextAttempt s' texts) :
    Stitches number o s s' texts where
  stitchable := h.stitchable
  enqueued := h.enqueued
  continued := fun hwhole => .restart hask hrestart (h.continued hwhole.nextAttempt)

theorem Stitches.resume {texts : List JsString} {chunks : List (List UInt8)}
    {t : RecoverableStream} (hask : o.ask (s.continuations + 1) s.emittedText = some chunks)
    (hresume : isSuspectedRestart s.emittedText (continuationText number chunks) = false)
    (hwrites : Writes number s.nextAttempt t
      (trimContinuationOverlap s.emittedText (continuationText number chunks)))
    (hopen : t.status = .open) (h : Stitches number o t s' texts) :
    ∃ before, Stitches number o s s' (before ++ texts) := by
  obtain ⟨before, hstitchable, henqueued, hsame, htext, hnext⟩ := hwrites
  refine ⟨before, ?_, ?_, fun hwhole => ?_⟩
  · intro text hmem
    exact (mem_append.mp hmem).elim (hstitchable text) (h.stitchable text)
  · rw [h.enqueued, henqueued, map_append, append_assoc]
    rfl
  · obtain ⟨hwhole', hemitted⟩ := hnext hopen hwhole.nextAttempt
    have hrest := h.continued hwhole'
    rw [hsame, hemitted] at hrest
    rw [flatMap_append, htext, ← append_assoc]
    exact .resume hask hresume hrest

theorem isSome_of_canContinue (h : s.canContinue o = true) : o.continueStream.isSome = true := by
  unfold canContinue at h
  simp only [Bool.and_eq_true] at h
  exact h.1.1.1.1.1

theorem isSome_of_stitched {fuel : Nat} (h : s.tryContinue number o fuel = .stitched s') :
    o.continueStream.isSome = true := by
  cases fuel with
  | zero => cases h
  | succ fuel =>
    unfold tryContinue at h
    split at h
    · rename_i hcan
      exact isSome_of_canContinue hcan
    · cases h

/-- An accepted continuation writes events, and the text goes on with them. -/
theorem tryContinue_stitched {fuel : Nat} (hopen : s.status = .open)
    (h : s.tryContinue number o fuel = .stitched s') :
    ∃ texts, texts ≠ [] ∧ Stitches number o s s' texts := by
  induction fuel generalizing s with
  | zero => cases h
  | succ fuel ih =>
    unfold tryContinue at h
    dsimp only at h
    split at h
    · rename_i hcan
      have ho : o.continueStream.isSome = true := isSome_of_canContinue hcan
      have hopen' : s.nextAttempt.status = .open := hopen
      split at h
      · cases h
      · rename_i chunks hask
        split at h
        · cases h
        · rename_i scan hscan
          have htext : scan.text = continuationText number chunks := text_scanOpenAiSseText hscan
          rw [htext] at h
          split at h
          · rename_i hrestart
            obtain ⟨texts, hne, hstitches⟩ := stitches_orClose (ih hopen') h
            exact ⟨texts, hne, hstitches.restart hask hrestart⟩
          · rename_i hresume
            rw [Bool.not_eq_true] at hresume
            have hwrites := @writes_suffix number o s.nextAttempt hopen' ho
              (trimContinuationOverlap s.emittedText (continuationText number chunks))
            split at h
            · rename_i hnext
              -- what is written after the suffix
              have hrest : ∃ texts, texts ≠ [] ∧ Stitches number o
                  (s.nextAttempt.emitSuffix number o
                    (trimContinuationOverlap s.emittedText (continuationText number chunks)))
                  s' texts := by
                split at h
                · obtain rfl := Continuation.stitched.inj h
                  exact stitches_terminal rfl .done
                · split at h
                  · obtain rfl := Continuation.stitched.inj h
                    exact stitches_terminal rfl .done
                  · exact stitches_orClose (ih hnext) h
              obtain ⟨texts, hne, hstitches⟩ := hrest
              obtain ⟨before, hall⟩ := hstitches.resume hask hresume hwrites hnext
              exact ⟨before ++ texts, append_ne_nil_of_right_ne_nil _ hne, hall⟩
            · cases h
    · cases h

/-! ## A cut that the client does not see -/

/-- The client reads the events before the cut and every event that was written
after it, and its text goes on with the rest of each continuation. -/
structure SeamlessStitch (number : JsString → UInt64) (o : RecoverableStreamOptions)
    (s s' : RecoverableStream) : Prop where
  events : clientEvents s'.delivered =
    clientEvents s.delivered ++ clientEvents (s'.enqueued.drop s.enqueued.length).flatten
  text : ContinuedText number o s.continuations (clientText number s.delivered) s'.continuations
    (clientText number s'.delivered)

/-- After any reads of an upstream in the format of the OpenAI API, a
continuation that is accepted reads on from the cut exactly when the cut is
between two events. -/
theorem stitched_iff (number : JsString → UInt64) (o : RecoverableStreamOptions)
    (reads : List Read) (U : OpenAiUpstream) (s' : RecoverableStream)
    (hopen : (run number o reads).status = .open)
    (hcut : (run number o reads).delivered <+: U.bytes)
    (hstitched : (run number o reads).continueCut number o = .stitched s') :
    SeamlessStitch number o (run number o reads) s' ↔
      BetweenEvents (run number o reads).delivered := by
  generalize hs : run number o reads = s at hopen hcut hstitched
  have htracks : Tracks number s := by
    have hrun := @tracks_run number o (isSome_of_stitched hstitched) reads
    rw [hs] at hrun
    exact hrun hopen
  obtain ⟨texts, hne, hstitches⟩ := tryContinue_stitched hopen hstitched
  have hdelivered : s'.delivered = s.delivered ++ (texts.map encodeEvent).flatten := by
    unfold delivered
    rw [hstitches.enqueued, flatten_append]
  have hwritten : clientEvents (s'.enqueued.drop s.enqueued.length).flatten = texts := by
    rw [hstitches.enqueued, drop_left, ← nil_append (texts.map encodeEvent).flatten,
      clientEvents_stitched between_nil hstitches.stitchable]
    rfl
  constructor
  · intro hseamless
    by_contra hinside
    have hevents := hseamless.events
    rw [hdelivered, hwritten] at hevents
    cases htexts : texts with
    | nil => exact hne htexts
    | cons text rest =>
      rw [htexts] at hevents
      exact U.swallowed hcut hinside (htexts ▸ hstitches.stitchable) hevents
  · intro hbetween
    have hwhole : Whole number s :=
      ⟨htracks, hbetween.1, (read_cut U.format between_init (U.cut hcut)).2.2 hbetween.2⟩
    have hread : clientEvents s'.delivered = clientEvents s.delivered ++ texts := by
      rw [hdelivered, clientEvents_stitched hbetween hstitches.stitchable]
    refine ⟨?_, ?_⟩
    · rw [hread, hwritten]
    · have htext : clientText number s'.delivered =
          s.emittedText ++ texts.flatMap (assistantText number) := by
        rw [hwhole.text]
        unfold clientText
        rw [hread, flatMap_append]
      rw [htext, ← hwhole.text]
      exact hstitches.continued hwhole

/-! ### One stream, cut in two places -/

def helloChunk : JsString := stringifyChunk (chatChunk (js "Hello, wor"))

def restChunk : JsString := stringifyChunk (chatChunk (js "ld!"))

theorem openAiLines_hello :
    OpenAiLines [js "data:" ++ unit ' ' :: helloChunk, [], js "data:" ++ unit ' ' :: restChunk, []] :=
  (openAiLines_event (stitchable_chatChunk _)).append (openAiLines_event (stitchable_chatChunk _))

theorem decode_hello : (Utf8Decoder.decode {} (encodeEvent helloChunk ++ encodeEvent restChunk)).2 =
      ofLines [js "data:" ++ unit ' ' :: helloChunk, [], js "data:" ++ unit ' ' :: restChunk, []] := by
  decide +kernel

/-- A stream of two chunks. -/
def hello : OpenAiUpstream where
  bytes := encodeEvent helloChunk ++ encodeEvent restChunk
  lines := [js "data:" ++ unit ' ' :: helloChunk, [], js "data:" ++ unit ' ' :: restChunk, []]
  format := openAiLines_hello
  decodes := decode_hello

/-- The upstream begins the text again when it is asked for the rest. -/
def helloOptions : RecoverableStreamOptions where
  holdbackMs := 0
  continueStream := some fun _ _ =>
    some [encodeEvent (stringifyChunk (chatChunk (js "Hello, world!"))), encodeEvent (js "[DONE]")]

/-- The first chunk and `more` bytes of the second one. -/
def helloReads (more : Nat) : List Read :=
  [⟨.chunk (hello.bytes.take ((encodeEvent helloChunk).length + more)) 0 false, false⟩]

def helloCut (more : Nat) : RecoverableStream := run (fun _ => 0) helloOptions (helloReads more)

def helloStitched (more : Nat) : RecoverableStream :=
  ((helloCut more).continueCut (fun _ => 0) helloOptions).stream

theorem stitched_iff_hello :
    (helloCut 0).continueCut (fun _ => 0) helloOptions = .stitched (helloStitched 0) ∧
      SeamlessStitch (fun _ => 0) helloOptions (helloCut 0) (helloStitched 0) ∧
      clientText (fun _ => 0) (helloStitched 0).delivered = js "Hello, world!" := by
  have hstitched : (helloCut 0).continueCut (fun _ => 0) helloOptions =
      .stitched (helloStitched 0) := by decide +kernel
  have hopen : (helloCut 0).status = .open := by decide +kernel
  have hcut : (helloCut 0).delivered <+: hello.bytes := by decide +kernel
  have hbetween : BetweenEvents (helloCut 0).delivered := by
    refine ⟨?_, ?_, ?_, ?_⟩ <;> decide +kernel
  exact ⟨hstitched, (stitched_iff (fun _ => 0) helloOptions (helloReads 0) hello (helloStitched 0)
    hopen hcut hstitched).mpr hbetween, by decide +kernel⟩

/-- The second chunk was begun: what is stitched is read as a part of it. -/
theorem stitched_swallowed :
    (helloCut 10).status = .open ∧ (helloCut 10).delivered <+: hello.bytes ∧
      (helloCut 10).continueCut (fun _ => 0) helloOptions = .stitched (helloStitched 10) ∧
      clientText (fun _ => 0) (helloStitched 10).delivered = js "Hello, wor" ∧
      ¬ SeamlessStitch (fun _ => 0) helloOptions (helloCut 10) (helloStitched 10) := by
  refine ⟨?_, ?_, ?_, ?_, ?_⟩
  · decide +kernel
  · decide +kernel
  · decide +kernel
  · decide +kernel
  · intro hseamless
    have hevents := hseamless.events
    revert hevents
    decide +kernel

end RecoverableStream

end RedRouter.Services
