import RedRouter.Lib.Runs
import RedRouter.Services.StreamAwaits

/-!
# Upstream streams of a cancelled client

A live upstream stream is one that was neither read to its end nor cancelled.
`NoLeak` says that each of them is still being read: it is the one that the
`pull` reads, or would read next, or the continuation that is drained.  When
nothing is awaited any more, none is live (`NoLeak.at_rest`).

`noLeak_iff` names the reads after which a stream is left behind.  The first
kind is the one that the cancel of the client brings about: it comes while the
stream is opened again, the new stream comes later, and the `pull` returns after
its first read.
-/

namespace RedRouter.Services.RecoverySession

open List Option

variable {number : JsString → UInt64} {o : RecoverableStreamOptions} {s : RecoverySession}

def BeingRead (s : RecoverySession) (id : Nat) : Prop :=
  (id = s.reader ∧ (s.phase = .reading ∨ s.phase = .idle ∧ s.cancelled = false)) ∨
    ∃ raw, s.phase = .draining id raw

def NoLeak (s : RecoverySession) : Prop :=
  ∀ id u, s.upstreams[id]? = some u → u.fate = .live → s.BeingRead id

/-- Nothing is awaited, and the client asks for nothing more. -/
def AtRest (s : RecoverySession) : Prop :=
  s.phase = .returned ∨ s.phase = .idle ∧ s.cancelled = true

/-- Every stream that was obtained was read to its end or cancelled. -/
def AllClosed (s : RecoverySession) : Prop := ∀ u ∈ s.upstreams, u.fate ≠ .live

theorem NoLeak.at_rest (h : s.NoLeak) (hrest : s.AtRest) : s.AllClosed := by
  intro u hu hlive
  obtain ⟨id, hid⟩ := getElem?_of_mem hu
  rcases h id u hid hlive with ⟨-, hphase⟩ | ⟨raw, hphase⟩
  · rcases hrest with hrest | ⟨hrest, hcancelled⟩ <;> simp_all
  · rcases hrest with hrest | ⟨hrest, -⟩ <;> simp_all

theorem AllClosed.noLeak (h : s.AllClosed) : s.NoLeak :=
  fun _ u hu hlive => absurd hlive (h u (mem_of_getElem? hu))

/-! ## What the functions keep -/

/-- The streams, which of them is read, whether the client has cancelled, and how
often `reopen` was called. -/
structure Frame (s s' : RecoverySession) : Prop where
  upstreams : s'.upstreams = s.upstreams
  reader : s'.reader = s.reader
  cancelled : s'.cancelled = s.cancelled
  reopenCalls : s'.reopenCalls = s.reopenCalls

variable {s' : RecoverySession} {stream : RecoverableStream}

theorem Frame.of_stream (h : Frame { s with stream := stream } s') : Frame s s' :=
  { h with }

theorem frame_runFinalize (s : RecoverySession) : Frame s s.runFinalize := by
  unfold runFinalize
  split <;> exact ⟨rfl, rfl, rfl, rfl⟩

theorem runFinalize_phase (s : RecoverySession) : s.runFinalize.phase = s.phase := by
  unfold runFinalize
  split <;> rfl

theorem frame_finish (status : StreamStatus) (s : RecoverySession) : Frame s (s.finish status) :=
  let h := frame_runFinalize s
  { h with }

theorem frame_throw (s : RecoverySession) : Frame s s.throw := ⟨rfl, rfl, rfl, rfl⟩

theorem frame_flushAndClose (s : RecoverySession) : Frame s (s.flushAndClose number o) := by
  unfold flushAndClose
  simp only
  split
  · exact (frame_throw { s with stream := s.stream.flushHeld number o }).of_stream
  · exact (frame_finish .closed { s with stream := s.stream.flushHeld number o }).of_stream

theorem flushAndClose_phase (s : RecoverySession) :
    (s.flushAndClose number o).phase = .returned := by
  unfold flushAndClose
  simp only
  split <;> rfl

theorem frame_terminalAndClose (s : RecoverySession) : Frame s s.terminalAndClose := by
  unfold terminalAndClose
  split
  · exact (frame_finish .closed { s with stream := s.stream.emitCleanTerminal }).of_stream
  · exact frame_throw s

theorem frame_refuseContinuation (otherwise : Option StreamStatus) (s : RecoverySession) :
    Frame s (s.refuseContinuation otherwise) := by
  cases otherwise with
  | none => exact frame_terminalAndClose s
  | some status => exact frame_finish status s

theorem frame_tryContinue (otherwise : Option StreamStatus) (s : RecoverySession) :
    Frame s (s.tryContinue o otherwise) := by
  unfold tryContinue
  split
  · exact ⟨rfl, rfl, rfl, rfl⟩
  · exact frame_refuseContinuation otherwise s

theorem frame_emitAll (chunks : List (List UInt8)) (s : RecoverySession) :
    Frame s (s.emitAll number o chunks) := by
  unfold emitAll
  simp only
  split <;> exact ⟨rfl, rfl, rfl, rfl⟩

theorem frame_onChunk (value : List UInt8) (now : Nat) (s : RecoverySession) :
    Frame s (s.onChunk number o value now) := by
  unfold onChunk
  split
  · exact frame_emitAll [value] s
  · simp only
    split
    · exact (frame_emitAll _ _).of_stream
    · exact ⟨rfl, rfl, rfl, rfl⟩

theorem frame_onDrained (raw : List UInt8) (s : RecoverySession) :
    Frame s (s.onDrained number o raw) := by
  unfold onDrained
  split
  · exact frame_throw s
  · split
    · exact frame_tryContinue none s
    · simp only
      split
      · exact ⟨rfl, rfl, rfl, rfl⟩
      · split
        · exact (frame_terminalAndClose _).of_stream
        · split
          · exact (frame_terminalAndClose _).of_stream
          · exact (frame_tryContinue none _).of_stream

theorem getElem?_setUpstream (id i : Nat) (f : Upstream → Upstream) (s : RecoverySession) :
    (s.setUpstream id f).upstreams[i]? =
      if id = i then s.upstreams[i]?.map f else s.upstreams[i]? := by
  rw [setUpstream, getElem?_modify]
  split <;> simp

theorem fate_finish (u : Upstream) : u.finish.fate ≠ .live := by
  unfold Upstream.finish
  split
  · simp
  · assumption

theorem fate_cancel (u : Upstream) : u.cancel.fate ≠ .live := by
  unfold Upstream.cancel
  split
  · simp
  · assumption

/-- Only this stream may be live. -/
def OnlyLive (id : Nat) (s : RecoverySession) : Prop :=
  ∀ i u, s.upstreams[i]? = some u → u.fate = .live → i = id

theorem OnlyLive.setUpstream {id : Nat} (h : s.OnlyLive id) (f : Upstream → Upstream)
    (hf : ∀ u : Upstream, (f u).fate ≠ .live) : (s.setUpstream id f).AllClosed := by
  intro u hu hlive
  obtain ⟨i, hi⟩ := getElem?_of_mem hu
  rw [getElem?_setUpstream] at hi
  split at hi
  · obtain ⟨before, -, rfl⟩ := map_eq_some_iff.mp hi
    exact hf before hlive
  · rename_i hne
    exact hne (h i u hi hlive).symm

theorem OnlyLive.setUpstream_of_closed {id : Nat} (h : s.OnlyLive id)
    (hclosed : ∀ u, s.upstreams[id]? = some u → u.fate ≠ .live) {f : Upstream → Upstream}
    (hf : ∀ u : Upstream, (f u).fate = .live → u.fate = .live) :
    (s.setUpstream id f).AllClosed := by
  intro u hu hlive
  obtain ⟨i, hi⟩ := getElem?_of_mem hu
  rw [getElem?_setUpstream] at hi
  split at hi
  · rename_i hid
    obtain ⟨before, hbefore, rfl⟩ := map_eq_some_iff.mp hi
    exact hclosed before (hid ▸ hbefore) (hf before hlive)
  · rename_i hne
    exact hne (h i u hi hlive).symm

theorem NoLeak.onlyLive_reader (h : s.NoLeak) (hphase : s.phase = .reading) :
    s.OnlyLive s.reader := by
  intro i u hi hlive
  rcases h i u hi hlive with ⟨rfl, -⟩ | ⟨raw, hraw⟩
  · rfl
  · rw [hphase] at hraw
    cases hraw

theorem NoLeak.allClosed (h : s.NoLeak) (hidle : s.phase ≠ .idle) (hreading : s.phase ≠ .reading)
    (hdraining : ∀ id raw, s.phase ≠ .draining id raw) : s.AllClosed := by
  intro u hu hlive
  obtain ⟨i, hi⟩ := getElem?_of_mem hu
  rcases h i u hi hlive with ⟨-, hphase | ⟨hphase, -⟩⟩ | ⟨raw, hphase⟩
  · exact hreading hphase
  · exact hidle hphase
  · exact hdraining i raw hphase

variable {u : Upstream}

/-- A stream that was added to closed ones is the only one that may be live. -/
theorem eq_of_getElem?_concat (h : s.AllClosed) {new : Upstream} {i : Nat}
    (hu : (s.upstreams ++ [new])[i]? = some u) (hlive : u.fate = .live) :
    i = s.upstreams.length := by
  rcases Nat.lt_trichotomy i s.upstreams.length with hlt | heq | hgt
  · rw [getElem?_append_left hlt] at hu
    exact absurd hlive (h u (mem_of_getElem? hu))
  · exact heq
  · rw [getElem?_eq_none (by simp; omega)] at hu
    cases hu

theorem AllClosed.of_upstreams (h : s.AllClosed) (heq : s'.upstreams = s.upstreams) :
    s'.AllClosed := by
  unfold AllClosed
  rw [heq]
  exact h

theorem AllClosed.of_frame (h : s.AllClosed) (hframe : Frame s s') : s'.AllClosed :=
  h.of_upstreams hframe.upstreams

theorem AllClosed.tryReopen (h : s.AllClosed) {otherwise : RecoverySession}
    (hotherwise : otherwise.AllClosed) : (s.tryReopen o otherwise).AllClosed := by
  unfold RecoverySession.tryReopen
  split
  · exact hotherwise
  · intro u hu
    obtain ⟨i, hi⟩ := getElem?_of_mem hu
    rw [cancelReader, getElem?_setUpstream] at hi
    split at hi
    · obtain ⟨before, -, rfl⟩ := map_eq_some_iff.mp hi
      exact fate_cancel before
    · exact h u (mem_of_getElem? hi)

/-! ## Reads that leave a stream behind -/

/-- What reaches the client when the chunk is pushed. -/
def released (o : RecoverableStreamOptions) (s : RecoverySession) (value : List UInt8) (now : Nat) :
    List (List UInt8) :=
  if s.stream.holdback.committed then [value] else (s.stream.holdback.push o now value).1

/-- The scan of what reaches the client throws: an event is complete whose data
is `null`. -/
def ScanThrows (number : JsString → UInt64) (o : RecoverableStreamOptions) (s : RecoverySession)
    (chunks : List (List UInt8)) : Prop :=
  0 < chunks.length ∧ (chunks.foldl (RecoverableStream.emit number o) s.stream).status = .errored

/-- The read of a stream that goes on leaves it behind: the client has cancelled
before the stream was there; the watchdog aborts it before the commit when no
retry is left; or the scan of what reaches the client throws. -/
def LeavesBehind (number : JsString → UInt64) (o : RecoverableStreamOptions) (s : RecoverySession) :
    ReadResult → Prop
  | .chunk value now abort =>
      s.cancelled = true ∨ (abort = true ∧ s.stream.holdback.committed = false ∧
          o.maxEarlyRetries ≤ s.stream.retries) ∨
        (abort = false ∧ ScanThrows number o s (s.released o value now))
  | _ => False

/-- The step does not leave a live stream behind. -/
def Keeps (number : JsString → UInt64) (o : RecoverableStreamOptions) (s : RecoverySession) :
    SessionEvent → Prop
  | .readSettles result =>
      s.phase = .reading → ∀ u, s.upstreams[s.reader]? = some u → u.fate = .live →
        ¬ LeavesBehind number o s result
  | _ => True

theorem onlyLive_noLeak (h : s.OnlyLive s.reader)
    (hphase : s.phase = .reading ∨ s.phase = .idle ∧ s.cancelled = false) : s.NoLeak :=
  fun id u hu hlive => .inl ⟨h id u hu hlive, hphase⟩

theorem not_noLeak_of_returned {id : Nat} (hu : s.upstreams[id]? = some u) (hlive : u.fate = .live)
    (hphase : s.phase = .returned) : ¬ s.NoLeak :=
  fun h => h.at_rest (.inl hphase) u (mem_of_getElem? hu) hlive

theorem AllClosed.onRead (h : s.AllClosed) (result : ReadResult) :
    (s.onRead number o result).AllClosed := by
  have hflush : (s.flushAndClose number o).AllClosed := h.of_frame (frame_flushAndClose s)
  cases result with
  | chunk value now abort =>
    simp only [RecoverySession.onRead]
    split
    · split
      · exact AllClosed.of_upstreams (OnlyLive.setUpstream (fun i u hu hlive =>
          absurd hlive (h u (mem_of_getElem? hu))) _ fate_cancel) rfl
      · exact h.tryReopen hflush
    · exact h.of_frame (frame_onChunk value now s)
  | done =>
    simp only [RecoverySession.onRead]
    split
    · exact h.of_frame (frame_tryContinue _ s)
    · split
      · exact hflush
      · exact h.tryReopen hflush
  | error retryable =>
    simp only [RecoverySession.onRead]
    split
    · split
      · exact h.of_frame (frame_tryContinue _ s)
      · exact h.of_frame (frame_finish _ s)
    · split
      · exact h.tryReopen hflush
      · exact hflush

theorem emit_holdback (h : HoldbackBuffer) (stream : RecoverableStream) (chunk : List UInt8) :
    RecoverableStream.emit number o { stream with holdback := h } chunk =
      { RecoverableStream.emit number o stream chunk with holdback := h } := by
  simp only [RecoverableStream.emit, RecoverableStream.track, RecoverableStream.enqueue]
  split
  · split
    · split
      · rfl
      · split <;> rfl
    · rfl
  · rfl

theorem emitAll_holdback (h : HoldbackBuffer) (stream : RecoverableStream)
    (chunks : List (List UInt8)) :
    chunks.foldl (RecoverableStream.emit number o) { stream with holdback := h } =
      { chunks.foldl (RecoverableStream.emit number o) stream with holdback := h } := by
  induction chunks generalizing stream with
  | nil => rfl
  | cons chunk rest ih => rw [foldl_cons, foldl_cons, emit_holdback, ih]

/-- A chunk of the stream that is read keeps it, unless the scan throws. -/
theorem noLeak_onChunk_iff (h : s.OnlyLive s.reader) (hphase : s.phase = .reading)
    (hcancelled : s.cancelled = false) (hu : s.upstreams[s.reader]? = some u)
    (hlive : u.fate = .live) (value : List UInt8) (now : Nat) :
    (s.onChunk number o value now).NoLeak ↔ ¬ ScanThrows number o s (s.released o value now) := by
  have hemit : ∀ (stream : RecoverableStream) (chunks : List (List UInt8)), 0 < chunks.length →
      (({ s with stream := stream }.emitAll number o chunks).NoLeak ↔
        (chunks.foldl (RecoverableStream.emit number o) stream).status ≠ .errored) := by
    intro stream chunks _
    unfold emitAll
    simp only
    split
    · rename_i hthrows
      exact iff_of_false (not_noLeak_of_returned hu hlive rfl) (absurd hthrows)
    · rename_i hopen
      exact iff_of_true (onlyLive_noLeak h (.inr ⟨rfl, hcancelled⟩)) hopen
  unfold onChunk released ScanThrows
  split
  · simpa using hemit s.stream [value] Nat.one_pos
  · simp only
    by_cases hpos : 0 < (s.stream.holdback.push o now value).1.length
    · rw [if_pos hpos, hemit _ _ hpos, emitAll_holdback]
      simp [hpos]
    · rw [if_neg hpos]
      exact iff_of_true (onlyLive_noLeak h (.inl hphase)) fun hthrows => hpos hthrows.1

theorem fate_settle_chunk (u : Upstream) (value : List UInt8) (now : Nat) (abort : Bool) :
    (u.settle (.chunk value now abort)).fate = u.fate := by
  unfold Upstream.settle
  simp only
  split <;> rfl

theorem noLeak_chunk_iff (h : s.OnlyLive s.reader) (hphase : s.phase = .reading)
    (hu : s.upstreams[s.reader]? = some u) (hlive : u.fate = .live) (value : List UInt8) (now : Nat)
    (abort : Bool) :
    NoLeak (if s.cancelled then
        { s.setUpstream s.reader (·.settle (.chunk value now abort)) with phase := .returned }
      else (s.setUpstream s.reader (·.settle (.chunk value now abort))).onRead number o
        (.chunk value now abort)) ↔
      Keeps number o s (.readSettles (.chunk value now abort)) := by
  have hread : (s.setUpstream s.reader (·.settle (.chunk value now abort))).upstreams[s.reader]? =
      some (u.settle (.chunk value now abort)) := by
    rw [getElem?_setUpstream, if_pos rfl, hu, map_some]
  have hreadLive : (u.settle (.chunk value now abort)).fate = .live := by
    rw [fate_settle_chunk, hlive]
  have honly : (s.setUpstream s.reader (·.settle (.chunk value now abort))).OnlyLive s.reader := by
    intro i v hv hvlive
    rw [getElem?_setUpstream] at hv
    split at hv
    · rename_i hi
      exact hi.symm
    · exact h i v hv hvlive
  have hkeeps : Keeps number o s (.readSettles (.chunk value now abort)) ↔
      ¬ LeavesBehind number o s (.chunk value now abort) :=
    ⟨fun hk => hk hphase u hu hlive, fun hk _ _ _ _ => hk⟩
  rw [hkeeps]
  unfold LeavesBehind
  by_cases hcancelled : s.cancelled = true
  · rw [if_pos hcancelled]
    exact iff_of_false (not_noLeak_of_returned hread hreadLive rfl) fun hk => hk (.inl hcancelled)
  · rw [if_neg hcancelled]
    cases abort with
    | false =>
      have hchunk : ((s.setUpstream s.reader (·.settle (.chunk value now false))).onChunk number o
          value now).NoLeak ↔ ¬ ScanThrows number o s (s.released o value now) :=
        noLeak_onChunk_iff honly hphase (Bool.eq_false_iff.mpr hcancelled) hread hreadLive value now
      simpa [hcancelled, onRead] using hchunk
    | true =>
      by_cases hcommitted : s.stream.holdback.committed = true
      · refine iff_of_true ?_ (by simp [hcancelled, hcommitted])
        refine AllClosed.noLeak ?_
        simp only [onRead]
        rw [if_pos (show (s.setUpstream _ _).stream.holdback.committed = true from hcommitted)]
        exact AllClosed.of_upstreams (honly.setUpstream _ fate_cancel) rfl
      · have hopen : s.stream.holdback.committed = false := Bool.eq_false_iff.mpr hcommitted
        simp only [onRead, if_true]
        rw [if_neg (show ¬ (s.setUpstream _ _).stream.holdback.committed = true from hcommitted)]
        unfold tryReopen
        by_cases hretries : o.maxEarlyRetries ≤ s.stream.retries
        · rw [if_pos (by simp [setUpstream, hretries])]
          refine iff_of_false (fun hnoLeak => ?_) (by simp [hopen, hretries])
          rw [← (frame_flushAndClose _).upstreams] at hread
          exact not_noLeak_of_returned hread hreadLive (flushAndClose_phase _) hnoLeak
        · rw [if_neg (by simp [setUpstream, hcancelled, hretries])]
          refine iff_of_true ?_ (by simp [hcancelled, hretries])
          exact AllClosed.noLeak (honly.setUpstream _ fate_cancel)

theorem noLeak_read_iff (h : s.NoLeak) (hphase : s.phase = .reading) (result : ReadResult) :
    (s.step number o (.readSettles result)).NoLeak ↔ Keeps number o s (.readSettles result) := by
  have honly := h.onlyLive_reader hphase
  have hstep : s.step number o (.readSettles result) =
      if s.cancelled then
        { s.setUpstream s.reader (·.settle result) with phase := .returned }
      else (s.setUpstream s.reader (·.settle result)).onRead number o result := by
    simp only [step, if_pos hphase]
    rfl
  rw [hstep]
  -- once the stream that is read is closed, nothing is left behind
  have hclosed : (s.setUpstream s.reader (·.settle result)).AllClosed →
      NoLeak (if s.cancelled then
        { s.setUpstream s.reader (·.settle result) with phase := .returned }
      else (s.setUpstream s.reader (·.settle result)).onRead number o result) := by
    intro hall
    split
    · exact AllClosed.noLeak (hall.of_upstreams rfl)
    · exact (hall.onRead result).noLeak
  cases hresult : result with
  | done =>
    subst hresult
    exact iff_of_true (hclosed (honly.setUpstream _ fate_finish)) fun _ _ _ _ => id
  | error retryable =>
    subst hresult
    exact iff_of_true (hclosed (honly.setUpstream _ fate_finish)) fun _ _ _ _ => id
  | chunk value now abort =>
    subst hresult
    by_cases hreader : ∃ u, s.upstreams[s.reader]? = some u ∧ u.fate = .live
    · obtain ⟨u, hu, hlive⟩ := hreader
      exact noLeak_chunk_iff honly hphase hu hlive value now abort
    · have hall : (s.setUpstream s.reader (·.settle (.chunk value now abort))).AllClosed := by
        refine honly.setUpstream_of_closed (fun u hu hlive => hreader ⟨u, hu, hlive⟩) fun u => ?_
        rw [fate_settle_chunk]
        exact id
      exact iff_of_true (hclosed hall) fun _ u hu hlive => absurd ⟨u, hu, hlive⟩ hreader

theorem noLeak_step_iff (h : s.NoLeak) (event : SessionEvent) :
    (s.step number o event).NoLeak ↔ Keeps number o s event := by
  by_cases hread : ∃ result, event = .readSettles result ∧ s.phase = .reading
  · obtain ⟨result, rfl, hphase⟩ := hread
    exact noLeak_read_iff h hphase result
  · refine iff_of_true ?_ ?_
    · cases event with
      | pull =>
        simp only [step]
        split
        · rename_i hidle
          refine onlyLive_noLeak (fun i u hu hlive => ?_) (.inl rfl)
          rcases h i u hu hlive with ⟨hi, -⟩ | ⟨raw, hraw⟩
          · exact hi
          · rw [hidle.1] at hraw
            cases hraw
        · exact h
      | readSettles result =>
        simp only [step]
        rw [if_neg fun hphase => hread ⟨result, rfl, hphase⟩]
        exact h
      | cancelSettles =>
        simp only [step]
        split
        · rename_i hphase
          exact AllClosed.noLeak
            (AllClosed.of_upstreams (h.allClosed (by simp [hphase]) (by simp [hphase])
              (by simp [hphase])) rfl)
        · rename_i hphase
          exact AllClosed.noLeak
            (AllClosed.of_upstreams (h.allClosed (by simp [hphase]) (by simp [hphase])
              (by simp [hphase])) (frame_tryContinue _ s).upstreams)
        · exact h
      | reopenSettles stream =>
        simp only [step]
        split
        · rename_i hphase
          have hall := h.allClosed (by simp [hphase]) (by simp [hphase]) (by simp [hphase])
          split
          · refine onlyLive_noLeak (fun i u hu hlive => ?_) (.inl rfl)
            exact eq_of_getElem?_concat hall hu hlive
          · exact AllClosed.noLeak (hall.of_frame (frame_flushAndClose s))
        · exact h
      | continueSettles stream =>
        simp only [step]
        split
        · rename_i otherwise hphase
          have hall := h.allClosed (by simp [hphase]) (by simp [hphase]) (by simp [hphase])
          split
          · intro i u hu hlive
            exact .inr ⟨[], by rw [eq_of_getElem?_concat hall hu hlive]⟩
          · exact AllClosed.noLeak (hall.of_frame (frame_refuseContinuation otherwise s))
        · exact h
      | drainSettles chunk =>
        simp only [step]
        split
        · rename_i id raw hphase
          have honly : s.OnlyLive id := by
            intro i u hu hlive
            rcases h i u hu hlive with ⟨-, hidle⟩ | ⟨raw', hraw⟩
            · simp [hphase] at hidle
            · rw [hphase] at hraw
              cases hraw
              rfl
          cases chunk with
          | some value =>
            intro i u hu hlive
            refine .inr ⟨raw ++ value, ?_⟩
            simp only [getElem?_setUpstream] at hu
            split at hu
            · rename_i hi
              rw [hi]
            · rw [honly i u hu hlive]
          | none =>
            exact AllClosed.noLeak
              (AllClosed.of_frame (honly.setUpstream _ fate_finish) (frame_onDrained raw _))
        · exact h
      | clientCancel queued =>
        simp only [step]
        split
        · intro i u hu hlive
          simp only [onCancel, cancelReader, getElem?_setUpstream, (frame_runFinalize s).upstreams,
            (frame_runFinalize s).reader] at hu
          split at hu
          · obtain ⟨before, -, rfl⟩ := map_eq_some_iff.mp hu
            exact absurd hlive (fate_cancel before)
          · rename_i hne
            rcases h i u hu hlive with ⟨hi, -⟩ | ⟨raw, hraw⟩
            · exact absurd hi.symm hne
            · exact .inr ⟨raw, (runFinalize_phase s).trans hraw⟩
        · exact h
    · cases event with
      | readSettles result => exact fun hphase => absurd ⟨result, rfl, hphase⟩ hread
      | _ => trivial

/-! ## Nothing is enqueued after the cancel -/

/-- The stream takes no more chunks, and the client has what it had. -/
def Silent (s s' : RecoverySession) : Prop :=
  s'.stream.status ≠ .open ∧ s'.stream.enqueued = s.stream.enqueued

theorem Silent.of_enqueued {t : RecoverySession} (h : Silent t s')
    (henqueued : t.stream.enqueued = s.stream.enqueued) : Silent s s' :=
  ⟨h.1, h.2.trans henqueued⟩

section

variable (h : stream.status ≠ .open)
include h

theorem emit_of_not_open (chunk : List UInt8) :
    RecoverableStream.emit number o stream chunk = stream := by
  rw [RecoverableStream.emit, if_neg h]

theorem emitAll_of_not_open (chunks : List (List UInt8)) :
    chunks.foldl (RecoverableStream.emit number o) stream = stream := by
  induction chunks with
  | nil => rfl
  | cons chunk rest ih => rw [foldl_cons, emit_of_not_open h, ih]

theorem finish_of_not_open (status : StreamStatus) : stream.finish status = stream := by
  rw [RecoverableStream.finish, if_neg h]

theorem emitSuffix_of_not_open (suffix : JsString) :
    stream.emitSuffix number o suffix = stream := by
  unfold RecoverableStream.emitSuffix
  split
  · rfl
  · split <;> exact emit_of_not_open h _

end

theorem silent_finish (h : s.stream.status ≠ .open) (status : StreamStatus) :
    Silent s (s.finish status) := by
  unfold Silent finish
  rw [finish_of_not_open h]
  exact ⟨h, rfl⟩

theorem silent_throw (h : s.stream.status ≠ .open) : Silent s s.throw := by
  unfold Silent throw
  rw [finish_of_not_open h]
  exact ⟨h, rfl⟩

theorem flushHeld_of_not_open (h : stream.status ≠ .open) :
    stream.flushHeld number o = { stream with holdback := stream.holdback.flush.2 } := by
  rw [RecoverableStream.flushHeld, emitAll_holdback, emitAll_of_not_open h]

section

variable (h : s.stream.status ≠ .open)
include h

theorem silent_flushAndClose : Silent s (s.flushAndClose number o) := by
  simp only [flushAndClose, flushHeld_of_not_open h]
  split
  · refine Silent.of_enqueued (silent_throw ?_) rfl
    exact h
  · refine Silent.of_enqueued (silent_finish ?_ .closed) rfl
    exact h

theorem silent_terminalAndClose : Silent s s.terminalAndClose := by
  rw [terminalAndClose, if_neg h]
  exact silent_throw h

theorem silent_refuseContinuation (otherwise : Option StreamStatus) :
    Silent s (s.refuseContinuation otherwise) := by
  cases otherwise with
  | none => exact silent_terminalAndClose h
  | some status => exact silent_finish h status

theorem silent_tryContinue (otherwise : Option StreamStatus) :
    Silent s (s.tryContinue o otherwise) := by
  unfold tryContinue
  split
  · exact ⟨h, rfl⟩
  · exact silent_refuseContinuation h otherwise

theorem silent_onDrained (raw : List UInt8) : Silent s (s.onDrained number o raw) := by
  unfold onDrained
  split
  · exact silent_throw h
  · split
    · exact silent_tryContinue h none
    · simp only [emitSuffix_of_not_open h]
      split
      · exact silent_throw h
      · split
        · exact silent_terminalAndClose h
        · split
          · exact silent_terminalAndClose h
          · exact silent_tryContinue h none

end

/-- What the platform does for a stream that the client has cancelled. -/
theorem silent_step (hcancelled : s.cancelled = true) (h : s.stream.status ≠ .open)
    (event : SessionEvent) : Silent s (s.step number o event) := by
  have hsame : Silent s s := ⟨h, rfl⟩
  cases event with
  | pull =>
    simp only [step]
    split <;> exact hsame
  | readSettles result =>
    simp only [step]
    split
    · rw [if_pos (show (s.setUpstream _ _).cancelled = true from hcancelled)]
      exact hsame
    · exact hsame
  | cancelSettles =>
    simp only [step]
    split
    · exact hsame
    · exact silent_tryContinue h _
    · exact hsame
  | reopenSettles stream =>
    simp only [step]
    split
    · split
      · exact hsame
      · exact silent_flushAndClose h
    · exact hsame
  | continueSettles stream =>
    simp only [step]
    split
    · split
      · exact hsame
      · exact silent_refuseContinuation h _
    · exact hsame
  | drainSettles chunk =>
    simp only [step]
    split
    · cases chunk with
      | some value => exact hsame
      | none => exact silent_onDrained (s := s.setUpstream _ _) h _
    · exact hsame
  | clientCancel queued =>
    simp only [step]
    rw [if_neg (by simp [hcancelled])]
    exact hsame

/-- A read neither cancels nor opens a stream again. -/
structure ReadFrame (s s' : RecoverySession) : Prop where
  cancelled : s'.cancelled = s.cancelled
  reopenCalls : s'.reopenCalls = s.reopenCalls

theorem Frame.readFrame (h : Frame s s') : ReadFrame s s' :=
  ⟨h.cancelled, h.reopenCalls⟩

theorem readFrame_tryReopen {otherwise : RecoverySession} (h : ReadFrame s otherwise) :
    ReadFrame s (s.tryReopen o otherwise) := by
  unfold tryReopen
  split
  · exact h
  · exact ⟨rfl, rfl⟩

theorem readFrame_onRead (result : ReadResult) (s : RecoverySession) :
    ReadFrame s (s.onRead number o result) := by
  have hflush : ReadFrame s (s.flushAndClose number o) := (frame_flushAndClose s).readFrame
  cases result with
  | chunk value now abort =>
    simp only [onRead]
    split
    · split
      · exact ⟨rfl, rfl⟩
      · exact readFrame_tryReopen hflush
    · exact (frame_onChunk value now s).readFrame
  | done =>
    simp only [onRead]
    split
    · exact (frame_tryContinue _ s).readFrame
    · split
      · exact hflush
      · exact readFrame_tryReopen hflush
  | error retryable =>
    simp only [onRead]
    split
    · split
      · exact (frame_tryContinue _ s).readFrame
      · exact (frame_finish _ s).readFrame
    · split
      · exact readFrame_tryReopen hflush
      · exact hflush

theorem cancelled_step {event : SessionEvent} (hevent : ∀ queued, event ≠ .clientCancel queued)
    (s : RecoverySession) : (s.step number o event).cancelled = s.cancelled := by
  cases event with
  | pull =>
    simp only [step]
    split <;> rfl
  | readSettles result =>
    simp only [step]
    split
    · split
      · rfl
      · exact (readFrame_onRead result (s.setUpstream s.reader (·.settle result))).cancelled
    · rfl
  | cancelSettles =>
    simp only [step]
    split
    · rfl
    · exact (frame_tryContinue _ s).cancelled
    · rfl
  | reopenSettles stream =>
    simp only [step]
    split
    · split
      · rfl
      · exact (frame_flushAndClose s).cancelled
    · rfl
  | continueSettles stream =>
    simp only [step]
    split
    · split
      · rfl
      · exact (frame_refuseContinuation _ s).cancelled
    · rfl
  | drainSettles chunk =>
    simp only [step]
    split
    · cases chunk with
      | some value => rfl
      | none => exact (frame_onDrained _ (s.setUpstream _ _)).cancelled
    · rfl
  | clientCancel queued => exact absurd rfl (hevent queued)

/-- The stream of a client that has cancelled takes no more chunks. -/
def CancelledIsClosed (s : RecoverySession) : Prop := s.cancelled = true → s.stream.status ≠ .open

theorem CancelledIsClosed.step (h : s.CancelledIsClosed) (event : SessionEvent) :
    (s.step number o event).CancelledIsClosed := by
  intro hcancelled
  by_cases hbefore : s.cancelled = true
  · exact (silent_step hbefore (h hbefore) event).1
  · cases event with
    | clientCancel queued =>
      simp only [RecoverySession.step] at hcancelled ⊢
      split at hcancelled
      · rename_i hcancel
        rw [if_pos hcancel]
        show (s.stream.finish .closed).status ≠ .open
        unfold RecoverableStream.finish
        split
        · exact StreamStatus.noConfusion
        · assumption
      · exact absurd hcancelled hbefore
    | _ =>
      rw [cancelled_step (fun _ heq => SessionEvent.noConfusion heq)] at hcancelled
      exact absurd hcancelled hbefore

theorem enqueued_after_cancel (h : s.CancelledIsClosed) (hcancelled : s.cancelled = true)
    (later : List SessionEvent) :
    (later.foldl (step number o) s).stream.enqueued = s.stream.enqueued := by
  induction later generalizing s with
  | nil => rfl
  | cons event later ih =>
    have hsilent : Silent s (s.step number o event) := silent_step hcancelled (h hcancelled) event
    have hstill : (s.step number o event).cancelled = true := by
      by_cases hcancel : ∃ queued, event = .clientCancel queued
      · obtain ⟨queued, rfl⟩ := hcancel
        simp only [step]
        split
        · rfl
        · exact hcancelled
      · rw [cancelled_step (fun queued heq => hcancel ⟨queued, heq⟩), hcancelled]
    exact (ih (h.step event) hstill).trans hsilent.2

/-! ## Every run -/

theorem noLeak_initial : NoLeak {} := by
  intro id u hu _
  cases id with
  | zero => exact .inl ⟨rfl, .inr ⟨rfl, rfl⟩⟩
  | succ id => cases hu

/-- After its cancel the client is given nothing.  A run leaks no stream exactly
when none of its reads leaves the stream behind that it is from. -/
theorem noLeak_iff (number : JsString → UInt64) (o : RecoverableStreamOptions)
    (events : List SessionEvent) :
    (∀ before later, before ++ later = events → (run number o before).cancelled = true →
        (run number o events).stream.enqueued = (run number o before).stream.enqueued) ∧
      ((∀ before, before <+: events → (run number o before).NoLeak ∧
          ((run number o before).AtRest → (run number o before).AllClosed)) ↔
        ∀ before event, before ++ [event] <+: events → Keeps number o (run number o before) event) := by
  constructor
  · rintro before later rfl hcancelled
    have hclosed : (run number o before).CancelledIsClosed :=
      Runs.foldl_invariant CancelledIsClosed (fun _ event h => h.step event)
        (fun h => Bool.noConfusion h) before
    rw [run, foldl_append]
    exact enqueued_after_cancel hclosed hcancelled later
  · have hiff : (∀ before, before <+: events → (run number o before).NoLeak) ↔ _ :=
      Runs.prefixes_iff NoLeak (fun _ event h => noLeak_step_iff h event) noLeak_initial events
    exact ⟨fun h => hiff.mp fun before hbefore => (h before hbefore).1,
      fun h before hbefore => ⟨hiff.mpr h before hbefore, (hiff.mpr h before hbefore).at_rest⟩⟩

/-- The client cancels while the stream is opened again.  The new stream comes,
and the `pull` returns after its first chunk. -/
theorem reopened_after_cancel :
    ¬ ∀ (number : JsString → UInt64) (o : RecoverableStreamOptions) (events : List SessionEvent),
      (run number o events).cancelled = true → (run number o events).AtRest →
        (run number o events).AllClosed := by
  intro h
  have hclosed := h (fun _ => 0) {}
    [.pull, .readSettles (.error true), .cancelSettles, .clientCancel false, .reopenSettles true,
      .readSettles (.chunk [100] 0 false)] rfl (.inl rfl)
  exact hclosed { received := [[100]] } (mem_of_getElem? (i := 1) rfl) rfl

end RedRouter.Services.RecoverySession
