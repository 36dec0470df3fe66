import RedRouter.Services.StreamLeaks

/-!
# Attempts of a stream that is opened again

Without continuations and without a cancel of the client, a recovered stream
tries one upstream stream after the other.  While its opening is held back, the
client has nothing and the buffer holds what was read of the attempt; after the
commit the client has what was read of it.  `Unmixed` says this for each await.
-/

namespace RedRouter.Services.RecoverySession

open List Bool

variable {number : JsString → UInt64} {o : RecoverableStreamOptions} {s : RecoverySession}

/-- What was read of the stream that is tried. -/
def attempt (s : RecoverySession) : List (List UInt8) :=
  ((s.upstreams[s.reader]?).map Upstream.received).getD []

/-! ## Streams without continuations -/

section

variable (hcontinue : o.continueStream = none)
include hcontinue

theorem emit_plain {stream : RecoverableStream}
    (hopen : stream.status = .open) (chunk : List UInt8) :
    RecoverableStream.emit number o stream chunk = stream.enqueue chunk := by
  simp [RecoverableStream.emit, hopen, hcontinue]

theorem emitAll_plain {stream : RecoverableStream}
    (hopen : stream.status = .open) (chunks : List (List UInt8)) :
    chunks.foldl (RecoverableStream.emit number o) stream =
      { stream with enqueued := stream.enqueued ++ chunks } := by
  induction chunks generalizing stream with
  | nil => simp
  | cons chunk rest ih =>
    rw [foldl_cons, emit_plain hcontinue hopen, ih (by exact hopen)]
    simp [RecoverableStream.enqueue]

theorem canContinue_plain (stream : RecoverableStream) : stream.canContinue o = false := by
  simp [RecoverableStream.canContinue, hcontinue]

end

/-! ## What an attempt keeps -/

/-- The pull has not returned. -/
structure Attempting (o : RecoverableStreamOptions) (s : RecoverySession) : Prop where
  status : s.stream.status = .open
  cancelled : s.cancelled = false
  finalized : s.finalized = false
  finalizeCalls : s.finalizeCalls = 0
  last : s.reader + 1 = s.upstreams.length
  held : s.stream.holdback.committed = false →
    s.stream.enqueued = [] ∧ s.stream.holdback.chunks = s.attempt
  passed : s.stream.holdback.committed = true → s.stream.enqueued = s.attempt
  reopenCalls : s.reopenCalls ≤ s.stream.retries
  retries : s.stream.retries ≤ o.maxEarlyRetries

/-- The last pull has returned. -/
structure Returned (o : RecoverableStreamOptions) (s : RecoverySession) : Prop where
  phase : s.phase = .returned
  status : s.stream.status ≠ .open
  cancelled : s.cancelled = false
  finalizeCalls : s.finalizeCalls = 1
  last : s.reader + 1 = s.upstreams.length
  delivered : s.stream.enqueued = s.attempt
  reopenCalls : s.reopenCalls ≤ o.maxEarlyRetries

def Unmixed (o : RecoverableStreamOptions) (s : RecoverySession) : Prop :=
  match s.phase with
  | .idle => s.Attempting o
  | .reading => s.Attempting o
  | .cancellingOld =>
      s.Attempting o ∧ s.stream.holdback.committed = false ∧ s.reopenCalls < s.stream.retries
  | .reopening => s.Attempting o ∧ s.stream.holdback.committed = false
  | .cancellingActive => s.Attempting o ∧ s.stream.holdback.committed = true
  | .continuing _ => False
  | .draining _ _ => False
  | .returned => s.Returned o

/-- The attempt is the same, and nothing more was read of it. -/
structure SameAttempt (s s' : RecoverySession) : Prop where
  reader : s'.reader = s.reader
  length : s'.upstreams.length = s.upstreams.length
  attempt : s'.attempt = s.attempt

theorem Frame.sameAttempt {s' : RecoverySession} (h : Frame s s') : SameAttempt s s' where
  reader := h.reader
  length := by rw [h.upstreams]
  attempt := by rw [RecoverySession.attempt, RecoverySession.attempt, h.upstreams, h.reader]

theorem SameAttempt.trans {s' s'' : RecoverySession} (h : SameAttempt s s')
    (h' : SameAttempt s' s'') : SameAttempt s s'' :=
  ⟨h'.reader.trans h.reader, h'.length.trans h.length, h'.attempt.trans h.attempt⟩

theorem sameAttempt_setUpstream {f : Upstream → Upstream}
    (hf : ∀ u : Upstream, (f u).received = u.received) (s : RecoverySession) :
    SameAttempt s (s.setUpstream s.reader f) where
  reader := rfl
  length := by simp [setUpstream]
  attempt := by
    show ((s.setUpstream s.reader f).upstreams[s.reader]?.map Upstream.received).getD [] = s.attempt
    rw [getElem?_setUpstream, if_pos rfl, Option.map_map, attempt]
    congr 2
    exact funext hf

theorem received_cancel (u : Upstream) : u.cancel.received = u.received := by
  unfold Upstream.cancel
  split <;> rfl

theorem received_finish (u : Upstream) : u.finish.received = u.received := by
  unfold Upstream.finish
  split <;> rfl

def Ends : ReadResult → Prop
  | .chunk _ _ abort => abort = true
  | .done => True
  | .error _ => True

theorem received_settle {result : ReadResult} (h : Ends result) (u : Upstream) :
    (u.settle result).received = u.received := by
  cases result with
  | chunk value now abort => simp [Upstream.settle, show abort = true from h]
  | done => exact received_finish u
  | error retryable => exact received_finish u

theorem attempt_settle_chunk (hlast : s.reader + 1 = s.upstreams.length) (value : List UInt8)
    (now : Nat) :
    (s.setUpstream s.reader (·.settle (.chunk value now false))).attempt = s.attempt ++ [value] := by
  have hreader : s.reader < s.upstreams.length := by omega
  show ((s.setUpstream s.reader _).upstreams[s.reader]?.map Upstream.received).getD [] = _
  rw [getElem?_setUpstream, if_pos rfl, attempt, getElem?_eq_getElem hreader]
  rfl

theorem Attempting.of_sameAttempt (h : s.Attempting o) {s' : RecoverySession}
    (hsame : SameAttempt s s') (hstream : s'.stream = s.stream)
    (hcancelled : s'.cancelled = s.cancelled) (hfinalized : s'.finalized = s.finalized)
    (hfinalizeCalls : s'.finalizeCalls = s.finalizeCalls)
    (hreopenCalls : s'.reopenCalls = s.reopenCalls) : s'.Attempting o where
  status := by rw [hstream, h.status]
  cancelled := by rw [hcancelled, h.cancelled]
  finalized := by rw [hfinalized, h.finalized]
  finalizeCalls := by rw [hfinalizeCalls, h.finalizeCalls]
  last := by rw [hsame.reader, hsame.length, h.last]
  held := by rw [hstream, hsame.attempt]; exact h.held
  passed := by rw [hstream, hsame.attempt]; exact h.passed
  reopenCalls := by rw [hstream, hreopenCalls]; exact h.reopenCalls
  retries := by rw [hstream]; exact h.retries

/-! ## How an attempt ends -/

theorem runFinalize_first (h : s.finalized = false) (hcalls : s.finalizeCalls = 0) :
    s.runFinalize = { s with finalized := true, finalizeCalls := 1 } := by
  simp [runFinalize, h, hcalls]

theorem Attempting.finish (h : s.Attempting o) (hcommitted : s.stream.holdback.committed = true)
    {status : StreamStatus} (hstatus : status ≠ .open) : (s.finish status).Returned o := by
  unfold RecoverySession.finish
  rw [runFinalize_first h.finalized h.finalizeCalls, RecoverableStream.finish, if_pos h.status]
  exact
    { phase := rfl
      status := hstatus
      cancelled := h.cancelled
      finalizeCalls := rfl
      last := h.last
      delivered := h.passed hcommitted
      reopenCalls := h.reopenCalls.trans h.retries }

theorem Attempting.tryContinue (hcontinue : o.continueStream = none) (h : s.Attempting o)
    (hcommitted : s.stream.holdback.committed = true) {status : StreamStatus}
    (hstatus : status ≠ .open) : (s.tryContinue o (some status)).Returned o := by
  rw [RecoverySession.tryContinue, canContinue_plain hcontinue, if_neg Bool.false_ne_true]
  exact h.finish hcommitted hstatus

theorem Attempting.flushAndClose (hcontinue : o.continueStream = none) (h : s.Attempting o)
    (hheld : s.stream.holdback.committed = false) : (s.flushAndClose number o).Returned o := by
  obtain ⟨hnothing, hchunks⟩ := h.held hheld
  have hflush : s.stream.flushHeld number o =
      { s.stream with holdback := { committed := true }, enqueued := s.attempt } := by
    rw [RecoverableStream.flushHeld, emitAll_plain hcontinue (by exact h.status),
      HoldbackBuffer.flush, hheld]
    simp [hnothing, hchunks]
  simp only [RecoverySession.flushAndClose, hflush]
  rw [if_neg (by simp [h.status])]
  refine Attempting.finish ?_ rfl StreamStatus.noConfusion
  exact
    { h with
      held := fun hfalse => Bool.noConfusion hfalse
      passed := fun _ => rfl }

theorem sameAttempt_flushAndClose (s : RecoverySession) :
    SameAttempt s (s.flushAndClose number o) :=
  (frame_flushAndClose s).sameAttempt

/-- An attempt has ended: another is asked for, or the pull returns. -/
structure Ended (o : RecoverableStreamOptions) (s s' : RecoverySession) : Prop where
  unmixed : s'.Unmixed o
  same : SameAttempt s s'
  phase : s'.phase = .cancellingOld ∨ s'.phase = .cancellingActive ∨ s'.phase = .returned

theorem Returned.ended {s' : RecoverySession} (h : s'.Returned o) (hsame : SameAttempt s s') :
    Ended o s s' where
  unmixed := by
    unfold Unmixed
    rw [h.phase]
    exact h
  same := hsame
  phase := .inr (.inr h.phase)

/-- Nothing was delivered, so that another attempt can take its place. -/
theorem Attempting.tryReopen (hcontinue : o.continueStream = none) (h : s.Attempting o)
    (hheld : s.stream.holdback.committed = false) :
    Ended o s (s.tryReopen o (s.flushAndClose number o)) := by
  unfold RecoverySession.tryReopen
  by_cases hretries : s.stream.retries ≥ o.maxEarlyRetries
  · rw [if_pos (by simp [hretries])]
    exact (h.flushAndClose hcontinue hheld).ended (sameAttempt_flushAndClose s)
  · rw [if_neg (by simp [h.cancelled, hretries])]
    have hsame : SameAttempt s (cancelReader { s with
        stream := { s.stream with retries := s.stream.retries + 1 }, phase := .cancellingOld }) :=
      let hcancel := sameAttempt_setUpstream received_cancel s
      { hcancel with }
    refine ⟨⟨?_, hheld, Nat.lt_succ_of_le h.reopenCalls⟩, hsame, .inl rfl⟩
    exact
      { h with
        last := by rw [hsame.reader, hsame.length, h.last]
        held := by rw [hsame.attempt]; exact h.held
        passed := by rw [hsame.attempt]; exact h.passed
        reopenCalls := Nat.le_succ_of_le h.reopenCalls
        retries := Nat.lt_of_not_le hretries }

theorem Attempting.ends (hcontinue : o.continueStream = none) (h : s.Attempting o)
    {result : ReadResult} (hends : Ends result) : Ended o s (s.onRead number o result) := by
  have hflush (hheld : s.stream.holdback.committed = false) :
      Ended o s (s.flushAndClose number o) :=
    (h.flushAndClose hcontinue hheld).ended (sameAttempt_flushAndClose s)
  cases result with
  | chunk value now abort =>
    simp only [RecoverySession.onRead]
    rw [if_pos (show abort = true from hends)]
    by_cases hcommitted : s.stream.holdback.committed = true
    · rw [if_pos hcommitted]
      have hsame : SameAttempt s { s.cancelReader with phase := .cancellingActive } :=
        let hcancel := sameAttempt_setUpstream received_cancel s
        { hcancel with }
      exact ⟨⟨h.of_sameAttempt hsame rfl rfl rfl rfl rfl, hcommitted⟩, hsame, .inr (.inl rfl)⟩
    · rw [if_neg hcommitted]
      exact h.tryReopen hcontinue (eq_false_iff.mpr hcommitted)
  | done =>
    simp only [RecoverySession.onRead]
    by_cases hcommitted : s.stream.holdback.committed = true
    · rw [if_pos hcommitted]
      exact (h.tryContinue hcontinue hcommitted StreamStatus.noConfusion).ended
        (frame_tryContinue _ s).sameAttempt
    · have hheld := eq_false_iff.mpr hcommitted
      rw [if_neg hcommitted]
      split
      · exact hflush hheld
      · exact h.tryReopen hcontinue hheld
  | error retryable =>
    simp only [RecoverySession.onRead]
    by_cases hcommitted : s.stream.holdback.committed = true
    · rw [if_pos hcommitted]
      split
      · exact (h.tryContinue hcontinue hcommitted StreamStatus.noConfusion).ended
          (frame_tryContinue _ s).sameAttempt
      · exact (h.finish hcommitted StreamStatus.noConfusion).ended (frame_finish _ s).sameAttempt
    · have hheld := eq_false_iff.mpr hcommitted
      rw [if_neg hcommitted]
      split
      · exact h.tryReopen hcontinue hheld
      · exact hflush hheld

/-! ## A chunk of the attempt -/

theorem emitAll_open (hcontinue : o.continueStream = none) (hopen : s.stream.status = .open)
    (chunks : List (List UInt8)) :
    s.emitAll number o chunks =
      { s with
        stream := { s.stream with enqueued := s.stream.enqueued ++ chunks }
        phase := .idle } := by
  simp only [emitAll, emitAll_plain hcontinue hopen]
  rw [if_neg (by simp [hopen])]

theorem push_cases {buffer : HoldbackBuffer} (hheld : buffer.committed = false) (now : Nat)
    (chunk : List UInt8) :
    (∃ held, buffer.push o now chunk = ([], held) ∧ held.committed = false ∧
        held.chunks = buffer.chunks ++ [chunk]) ∨
      buffer.push o now chunk = (buffer.chunks ++ [chunk], { committed := true }) := by
  unfold HoldbackBuffer.push
  simp only [hheld, false_eq_true, if_false]
  split
  · right
    rw [HoldbackBuffer.flush, if_neg Bool.false_ne_true]
  · exact .inl ⟨_, rfl, rfl, rfl⟩

theorem onChunk_cases (hcontinue : o.continueStream = none) (hopen : s.stream.status = .open)
    (value : List UInt8) (now : Nat) :
    (s.stream.holdback.committed = true ∧ s.onChunk number o value now =
        { s with
          stream := { s.stream with enqueued := s.stream.enqueued ++ [value] }
          phase := .idle }) ∨
    (s.stream.holdback.committed = false ∧ s.onChunk number o value now =
        { s with
          stream :=
            { s.stream with
              holdback := { committed := true }
              enqueued := s.stream.enqueued ++ (s.stream.holdback.chunks ++ [value]) }
          phase := .idle }) ∨
    (s.stream.holdback.committed = false ∧ ∃ held : HoldbackBuffer, held.committed = false ∧
        held.chunks = s.stream.holdback.chunks ++ [value] ∧
        s.onChunk number o value now = { s with stream := { s.stream with holdback := held } }) := by
  unfold onChunk
  by_cases hcommitted : s.stream.holdback.committed = true
  · rw [if_pos hcommitted, emitAll_open hcontinue hopen]
    exact .inl ⟨hcommitted, rfl⟩
  · have hheld := eq_false_iff.mpr hcommitted
    rw [if_neg hcommitted]
    rcases push_cases hheld now value with ⟨held, hpush, hstill, hchunks⟩ | hpush
    · rw [hpush]
      exact .inr (.inr ⟨hheld, held, hstill, hchunks, rfl⟩)
    · refine .inr (.inl ⟨hheld, ?_⟩)
      rw [hpush]
      simp only
      rw [if_pos (by simp)]
      exact emitAll_open hcontinue (by exact hopen) _

theorem Attempting.onChunk (hcontinue : o.continueStream = none) (h : s.Attempting o)
    (hphase : s.phase = .reading) (value : List UInt8) (now : Nat) {read : RecoverySession}
    (hread : read = s.setUpstream s.reader (·.settle (.chunk value now false))) :
    (read.onChunk number o value now).Attempting o ∧
      ((read.onChunk number o value now).phase = .idle ∨
        (read.onChunk number o value now).phase = .reading) := by
  have hattempt : read.attempt = s.attempt ++ [value] := by
    rw [hread, attempt_settle_chunk h.last]
  have hlast : s.reader + 1 = read.upstreams.length := by simp [hread, setUpstream, h.last]
  have hopen : read.stream.status = .open := by rw [hread]; exact h.status
  subst hread
  rcases onChunk_cases hcontinue hopen value now with
    ⟨hcommitted, heq⟩ | ⟨hheld, heq⟩ | ⟨hheld, held, hstill, hchunks, heq⟩
  · rw [heq]
    refine ⟨{ h with last := hlast, held := fun hheld => ?_, passed := fun _ => ?_ }, .inl rfl⟩
    · exact Bool.noConfusion (hcommitted.symm.trans hheld)
    · exact (congrArg (· ++ [value]) (h.passed hcommitted)).trans hattempt.symm
  · obtain ⟨hnothing, hbuffer⟩ := h.held hheld
    rw [heq]
    refine ⟨{ h with last := hlast, held := Bool.noConfusion, passed := fun _ => ?_ }, .inl rfl⟩
    show s.stream.enqueued ++ (s.stream.holdback.chunks ++ [value]) = _
    rw [hnothing, hbuffer, nil_append]
    exact hattempt.symm
  · obtain ⟨hnothing, hbuffer⟩ := h.held hheld
    rw [heq]
    refine ⟨{ h with last := hlast, held := fun _ => ⟨hnothing, ?_⟩, passed := fun hcommitted => ?_ },
      .inr hphase⟩
    · show held.chunks = _
      rw [hchunks]
      exact (congrArg (· ++ [value]) hbuffer).trans hattempt.symm
    · exact Bool.noConfusion (hstill.symm.trans hcommitted)

/-! ## The steps of an attempt -/

variable (number)

/-- The loop reads, or will at the next pull. -/
def Waiting (o : RecoverableStreamOptions) (s : RecoverySession) : Prop :=
  s.Attempting o ∧ (s.phase = .idle ∨ s.phase = .reading)

theorem Waiting.unmixed (h : s.Waiting o) : s.Unmixed o := by
  unfold Unmixed
  rcases h with ⟨h, hphase | hphase⟩
  all_goals
    rw [hphase]
    exact h

theorem Returned.unmixed (h : s.Returned o) : s.Unmixed o := by
  unfold Unmixed
  rw [h.phase]
  exact h

theorem Waiting.pull (h : s.Waiting o) :
    (s.step number o .pull).Attempting o ∧ (s.step number o .pull).phase = .reading ∧
      SameAttempt s (s.step number o .pull) := by
  obtain ⟨h, hphase⟩ := h
  simp only [step]
  by_cases hidle : s.phase = .idle
  · rw [if_pos ⟨hidle, h.status⟩]
    exact ⟨{ h with }, rfl, ⟨rfl, rfl, rfl⟩⟩
  · rw [if_neg fun hpull => hidle hpull.1]
    exact ⟨h, hphase.resolve_left hidle, ⟨rfl, rfl, rfl⟩⟩

theorem Attempting.read (h : s.Attempting o) (hphase : s.phase = .reading) (result : ReadResult) :
    s.step number o (.readSettles result) =
      (s.setUpstream s.reader (·.settle result)).onRead number o result := by
  simp only [step, if_pos hphase]
  rw [if_neg (by simp [setUpstream, h.cancelled])]

section

variable (hcontinue : o.continueStream = none)
include hcontinue

theorem Attempting.chunk (h : s.Attempting o)
    (hphase : s.phase = .reading) (value : List UInt8) (now : Nat) :
    let s' := s.step number o (.readSettles (.chunk value now false))
    s'.Waiting o ∧ s'.reader = s.reader ∧ s'.attempt = s.attempt ++ [value] := by
  intro s'
  have hs' : s' = (s.setUpstream s.reader (·.settle (.chunk value now false))).onChunk number o
      value now := by
    simp only [s', h.read number hphase]
    rfl
  rw [hs']
  have hsame : SameAttempt (s.setUpstream s.reader (·.settle (.chunk value now false)))
      (RecoverySession.onChunk number o value now _) := (frame_onChunk value now _).sameAttempt
  exact ⟨h.onChunk hcontinue hphase value now rfl, hsame.reader,
    hsame.attempt.trans (attempt_settle_chunk h.last value now)⟩

theorem Attempting.ended (h : s.Attempting o)
    (hphase : s.phase = .reading) {result : ReadResult} (hends : Ends result) :
    Ended o s (s.step number o (.readSettles result)) := by
  have hsame : SameAttempt s (s.setUpstream s.reader (·.settle result)) :=
    sameAttempt_setUpstream (received_settle hends) s
  have hended : Ended o (s.setUpstream s.reader (·.settle result)) (onRead number o result _) :=
    (h.of_sameAttempt hsame rfl rfl rfl rfl rfl).ends hcontinue hends
  rw [h.read number hphase]
  exact ⟨hended.unmixed, hsame.trans hended.same, hended.phase⟩

/-- The reader is cancelled: another attempt is asked for, or the pull returns. -/
theorem Unmixed.cancelSettles (h : s.Unmixed o) :
    (s.step number o .cancelSettles).Unmixed o ∧ SameAttempt s (s.step number o .cancelSettles) ∧
      (s.phase = .cancellingOld ∨ s.phase = .cancellingActive ∨ s.phase = .returned →
        (s.step number o .cancelSettles).phase = .reopening ∨
          (s.step number o .cancelSettles).phase = .returned) := by
  have hsame : SameAttempt s s := ⟨rfl, rfl, rfl⟩
  cases hphase : s.phase with
  | cancellingOld =>
    simp only [Unmixed, hphase] at h
    obtain ⟨h, hheld, hreopens⟩ := h
    simp only [step, hphase]
    exact ⟨⟨{ h with reopenCalls := hreopens }, hheld⟩, ⟨rfl, rfl, rfl⟩, fun _ => .inl trivial⟩
  | cancellingActive =>
    simp only [Unmixed, hphase] at h
    have hreturned : (s.tryContinue o (some .errored)).Returned o :=
      h.1.tryContinue hcontinue h.2 StreamStatus.noConfusion
    simp only [step, hphase]
    exact ⟨hreturned.unmixed, (frame_tryContinue _ s).sameAttempt, fun _ => .inr hreturned.phase⟩
  | returned =>
    simp only [step, hphase]
    exact ⟨h, hsame, fun _ => .inr trivial⟩
  | _ =>
    simp only [step, hphase]
    exact ⟨h, hsame, fun hother => by simp at hother⟩

theorem Unmixed.reopenSettles (h : s.Unmixed o) (hphase : s.phase = .reopening) (stream : Bool) :
    let s' := s.step number o (.reopenSettles stream)
    if stream then s'.Waiting o ∧ s'.reader = s.reader + 1 ∧ s'.attempt = []
    else s'.Returned o ∧ SameAttempt s s' := by
  simp only [Unmixed, hphase] at h
  obtain ⟨h, hheld⟩ := h
  simp only [step, hphase]
  cases stream with
  | false =>
    exact ⟨h.flushAndClose hcontinue hheld, sameAttempt_flushAndClose s⟩
  | true =>
    have hattempt : attempt { s with
        stream := { s.stream with holdback := s.stream.holdback.discard }
        reader := s.upstreams.length
        upstreams := s.upstreams ++ [{}]
        phase := .reading } = [] := by
      simp [attempt]
    refine ⟨⟨{ h with
      last := by simp
      held := fun _ => ⟨(h.held hheld).1, hattempt.symm⟩
      passed := fun hcommitted => ?_ }, .inr rfl⟩, h.last.symm, hattempt⟩
    exact Bool.noConfusion (hheld.symm.trans hcommitted)

theorem Unmixed.step (h : s.Unmixed o)
    {event : SessionEvent} (hevent : ∀ queued, event ≠ .clientCancel queued) :
    (s.step number o event).Unmixed o := by
  cases event with
  | pull =>
    simp only [RecoverySession.step]
    split
    · rename_i hpull
      simp only [Unmixed, hpull.1] at h
      exact { h with }
    · exact h
  | readSettles result =>
    by_cases hphase : s.phase = .reading
    · simp only [Unmixed, hphase] at h
      by_cases hends : Ends result
      · exact (h.ended number hcontinue hphase hends).unmixed
      · cases result with
        | chunk value now abort =>
          obtain rfl : abort = false := eq_false_iff.mpr hends
          exact (h.chunk number hcontinue hphase value now).1.unmixed
        | done => exact absurd trivial hends
        | error retryable => exact absurd trivial hends
    · simp only [RecoverySession.step]
      rw [if_neg hphase]
      exact h
  | cancelSettles => exact (h.cancelSettles number hcontinue).1
  | reopenSettles stream =>
    by_cases hphase : s.phase = .reopening
    · cases stream with
      | true => exact (h.reopenSettles number hcontinue hphase true).1.unmixed
      | false => exact (h.reopenSettles number hcontinue hphase false).1.unmixed
    · simp only [RecoverySession.step]
      rw [if_neg hphase]
      exact h
  | continueSettles stream =>
    simp only [RecoverySession.step]
    split
    · rename_i hphase
      simp only [Unmixed, hphase] at h
    · exact h
  | drainSettles chunk =>
    simp only [RecoverySession.step]
    split
    · rename_i hphase
      simp only [Unmixed, hphase] at h
    · exact h
  | clientCancel queued => exact absurd rfl (hevent queued)

end

/-! ## Every run without a cancel -/

theorem unmixed_initial (o : RecoverableStreamOptions) : Unmixed o {} where
  status := rfl
  cancelled := rfl
  finalized := rfl
  finalizeCalls := rfl
  last := rfl
  held := fun _ => ⟨rfl, rfl⟩
  passed := Bool.noConfusion
  reopenCalls := Nat.le_refl 0
  retries := Nat.zero_le _

/-- The client does not cancel. -/
def Uncancelled (events : List SessionEvent) : Prop :=
  ∀ event ∈ events, ∀ queued, event ≠ .clientCancel queued

theorem Uncancelled.append {first rest : List SessionEvent} (h : Uncancelled first)
    (h' : Uncancelled rest) : Uncancelled (first ++ rest) := by
  intro event hevent
  rcases mem_append.mp hevent with hfirst | hrest
  · exact h event hfirst
  · exact h' event hrest

theorem Unmixed.foldl (hcontinue : o.continueStream = none) (h : s.Unmixed o)
    {events : List SessionEvent} (hevents : Uncancelled events) :
    (events.foldl (RecoverySession.step number o) s).Unmixed o := by
  induction events generalizing s with
  | nil => exact h
  | cons event rest ih =>
    exact ih (h.step number hcontinue (hevents event mem_cons_self)) fun later hlater =>
      hevents later (mem_cons_of_mem event hlater)

theorem Attempting.delivered (h : s.Attempting o) : s.stream.enqueued <+: s.attempt := by
  by_cases hcommitted : s.stream.holdback.committed = true
  · rw [h.passed hcommitted]
  · rw [(h.held (eq_false_iff.mpr hcommitted)).1]
    exact nil_prefix

/-- What the client and the hooks see of an attempt. -/
structure OneAttempt (o : RecoverableStreamOptions) (s : RecoverySession) : Prop where
  /-- the attempt is the stream that was opened last -/
  last : s.reader + 1 = s.upstreams.length
  delivered : s.stream.enqueued <+: s.attempt
  whole : s.phase = .returned → s.stream.enqueued = s.attempt
  finalizeCalls : s.finalizeCalls = if s.phase = .returned then 1 else 0
  reopenCalls : s.reopenCalls ≤ o.maxEarlyRetries
  /-- a step calls `reopen` only if the client has nothing -/
  reopening : ∀ (number : JsString → UInt64) (event : SessionEvent),
    (s.step number o event).reopenCalls ≠ s.reopenCalls → s.stream.enqueued = []

/-- `reopen` is called when the dead reader was cancelled, and nowhere else. -/
theorem reopenCalls_step {event : SessionEvent}
    (hreopens : (s.step number o event).reopenCalls ≠ s.reopenCalls) :
    s.phase = .cancellingOld := by
  by_contra hphase
  apply hreopens
  cases event with
  | pull =>
    simp only [step]
    split <;> rfl
  | readSettles result =>
    simp only [step]
    split
    · split
      · rfl
      · exact (readFrame_onRead result (s.setUpstream s.reader (·.settle result))).reopenCalls
    · rfl
  | cancelSettles =>
    simp only [step]
    split
    · rename_i hold
      exact absurd hold hphase
    · exact (frame_tryContinue _ s).reopenCalls
    · rfl
  | reopenSettles stream =>
    simp only [step]
    split
    · split
      · rfl
      · exact (frame_flushAndClose s).reopenCalls
    · rfl
  | continueSettles stream =>
    simp only [step]
    split
    · split
      · rfl
      · exact (frame_refuseContinuation _ s).reopenCalls
    · rfl
  | drainSettles chunk =>
    simp only [step]
    split
    · cases chunk with
      | some value => rfl
      | none => exact (frame_onDrained _ (s.setUpstream _ _)).reopenCalls
    · rfl
  | clientCancel queued =>
    simp only [step]
    split
    · exact (frame_runFinalize s).reopenCalls
    · rfl

theorem Attempting.oneAttempt (h : s.Attempting o) (hphase : s.phase ≠ .returned)
    (hold : s.phase = .cancellingOld → s.stream.holdback.committed = false) : s.OneAttempt o where
  last := h.last
  delivered := h.delivered
  whole := fun hreturned => absurd hreturned hphase
  finalizeCalls := by rw [if_neg hphase, h.finalizeCalls]
  reopenCalls := h.reopenCalls.trans h.retries
  reopening := fun number _ hreopens => (h.held (hold (reopenCalls_step number hreopens))).1

theorem Unmixed.oneAttempt (h : s.Unmixed o) : s.OneAttempt o := by
  cases hphase : s.phase <;> simp only [Unmixed, hphase] at h
  case idle => exact h.oneAttempt (by simp [hphase]) (by simp [hphase])
  case reading => exact h.oneAttempt (by simp [hphase]) (by simp [hphase])
  case cancellingOld => exact h.1.oneAttempt (by simp [hphase]) fun _ => h.2.1
  case reopening => exact h.1.oneAttempt (by simp [hphase]) (by simp [hphase])
  case cancellingActive => exact h.1.oneAttempt (by simp [hphase]) (by simp [hphase])
  case returned =>
    exact
      { last := h.last
        delivered := by rw [h.delivered]
        whole := fun _ => h.delivered
        finalizeCalls := by rw [if_pos hphase, h.finalizeCalls]
        reopenCalls := h.reopenCalls
        reopening := fun number _ hreopens =>
          absurd (reopenCalls_step number hreopens) (by simp [hphase]) }

/-! ## A sequence of attempts -/

inductive AttemptEnd where
  | done
  | error (retryable : Bool)
  /-- the chunk at which the watchdog aborts -/
  | watchdog (value : List UInt8) (now : Nat)

def AttemptEnd.result : AttemptEnd → ReadResult
  | .done => .done
  | .error retryable => .error retryable
  | .watchdog value now => .chunk value now true

/-- An upstream stream: its chunks and when they are read, and how it ends. -/
structure Attempt where
  chunks : List (List UInt8 × Nat)
  ending : AttemptEnd

def Attempt.reads (chunks : List (List UInt8 × Nat)) : List SessionEvent :=
  chunks.flatMap fun (value, now) => [.pull, .readSettles (.chunk value now false)]

/-- The attempt is read to its end; `more` says whether `reopen` gives a stream then. -/
def Attempt.events (attempt : Attempt) (more : Bool) : List SessionEvent :=
  Attempt.reads attempt.chunks ++
    [.pull, .readSettles attempt.ending.result, .cancelSettles, .reopenSettles more]

/-- The streams are tried in turn; `reopen` gives none after the last. -/
def script : List Attempt → List SessionEvent
  | [] => []
  | attempt :: rest => attempt.events (!rest.isEmpty) ++ script rest

theorem uncancelled_script (attempts : List Attempt) : Uncancelled (script attempts) := by
  induction attempts with
  | nil => exact fun _ hevent => absurd hevent not_mem_nil
  | cons attempt rest ih =>
    refine Uncancelled.append (Uncancelled.append ?_ ?_ : Uncancelled (attempt.events _)) ih
    · intro event hevent queued
      obtain ⟨chunk, -, hevent⟩ := mem_flatMap.mp hevent
      rintro rfl
      simp at hevent
    · rintro event hevent queued rfl
      simp at hevent

theorem AttemptEnd.ends (ending : AttemptEnd) : Ends ending.result := by
  cases ending with
  | done => trivial
  | error retryable => trivial
  | watchdog value now => rfl

theorem Returned.step (h : s.Returned o) {event : SessionEvent}
    (hevent : ∀ queued, event ≠ .clientCancel queued) : s.step number o event = s := by
  cases event with
  | clientCancel queued => exact absurd rfl (hevent queued)
  | _ => simp [RecoverySession.step, h.phase]

theorem Returned.foldl (h : s.Returned o) {events : List SessionEvent}
    (hevents : Uncancelled events) : events.foldl (RecoverySession.step number o) s = s := by
  induction events with
  | nil => rfl
  | cons event rest ih =>
    rw [foldl_cons, h.step number (hevents event mem_cons_self)]
    exact ih fun later hlater => hevents later (mem_cons_of_mem event hlater)

section

variable (hcontinue : o.continueStream = none)
include hcontinue

theorem Waiting.reads (h : s.Waiting o) (chunks : List (List UInt8 × Nat)) :
    let s' := (Attempt.reads chunks).foldl (RecoverySession.step number o) s
    s'.Waiting o ∧ s'.reader = s.reader ∧ s'.attempt = s.attempt ++ chunks.map Prod.fst := by
  induction chunks generalizing s with
  | nil => exact ⟨h, rfl, (append_nil _).symm⟩
  | cons chunk rest ih =>
    obtain ⟨value, now⟩ := chunk
    obtain ⟨hpulled, hphase, hpull⟩ := h.pull number
    obtain ⟨hread, hreader, hattempt⟩ := hpulled.chunk number hcontinue hphase value now
    obtain ⟨hlast, hreader', hattempt'⟩ := ih hread
    refine ⟨hlast, hreader'.trans (hreader.trans hpull.reader), hattempt'.trans ?_⟩
    rw [hattempt, hpull.attempt, append_assoc]
    rfl

/-- An attempt is read to its end: the pull returns, or the next stream is read. -/
theorem Waiting.attempted (h : s.Waiting o)
    (hnothing : s.attempt = []) (attempt : Attempt) (more : Bool) :
    let s' := (attempt.events more).foldl (RecoverySession.step number o) s
    (s'.Returned o ∧ s'.reader = s.reader ∧ s'.attempt = attempt.chunks.map Prod.fst) ∨
      (more = true ∧ s'.Waiting o ∧ s'.reader = s.reader + 1 ∧ s'.attempt = []) := by
  obtain ⟨hwaiting, hreader, hchunks⟩ := h.reads number hcontinue attempt.chunks
  rw [hnothing, nil_append] at hchunks
  rw [Attempt.events, foldl_append]
  generalize (Attempt.reads attempt.chunks).foldl (RecoverySession.step number o) s = read at *
  obtain ⟨hpulled, hphase, hpull⟩ := hwaiting.pull number
  have hended := hpulled.ended number hcontinue hphase attempt.ending.ends
  obtain ⟨hunmixed, hcancel, hphases⟩ := hended.unmixed.cancelSettles number hcontinue
  have hsame := (hpull.trans hended.same).trans hcancel
  rcases hphases hended.phase with hreopening | hreturned
  · have hreopened := hunmixed.reopenSettles number hcontinue hreopening more
    cases more with
    | true =>
      obtain ⟨hnext, hnextReader, hnextAttempt⟩ := hreopened
      exact .inr ⟨rfl, hnext, by rw [← hreader, ← hsame.reader]; exact hnextReader, hnextAttempt⟩
    | false =>
      obtain ⟨hlast, hlastSame⟩ := hreopened
      have hall := hsame.trans hlastSame
      exact .inl ⟨hlast, hall.reader.trans hreader, hall.attempt.trans hchunks⟩
  · simp only [Unmixed, hreturned] at hunmixed
    refine .inl ?_
    simp only [foldl_cons]
    rw [hunmixed.step number fun _ heq => SessionEvent.noConfusion heq]
    exact ⟨hunmixed, hsame.reader.trans hreader, hsame.attempt.trans hchunks⟩

/-- The pull returns after the attempts, or before, with the whole of one of them. -/
theorem Waiting.script (h : s.Waiting o)
    (hnothing : s.attempt = []) (first : Attempt) (rest : List Attempt) :
    let s' := (script (first :: rest)).foldl (RecoverySession.step number o) s
    s'.Returned o ∧ ∃ k last, s'.reader = s.reader + k ∧ (first :: rest)[k]? = some last ∧
      s'.attempt = last.chunks.map Prod.fst := by
  induction rest generalizing first s with
  | nil =>
    rcases h.attempted number hcontinue hnothing first false with
      ⟨hreturned, hreader, hattempt⟩ | ⟨hmore, -⟩
    · simp only [RecoverySession.script, append_nil]
      exact ⟨hreturned, 0, first, hreader, rfl, hattempt⟩
    · cases hmore
  | cons next rest ih =>
    rw [show RecoverySession.script (first :: next :: rest) =
      first.events true ++ RecoverySession.script (next :: rest) from rfl, foldl_append]
    rcases h.attempted number hcontinue hnothing first true with
      ⟨hreturned, hreader, hattempt⟩ | ⟨-, hnext, hreader, hattempt⟩
    · rw [hreturned.foldl number (uncancelled_script _)]
      exact ⟨hreturned, 0, first, hreader, rfl, hattempt⟩
    · obtain ⟨hreturned, k, last, hlast, hk, hwhole⟩ := ih hnext hattempt next
      exact ⟨hreturned, k + 1, last, by rw [hlast, hreader]; omega, hk, hwhole⟩

end

/-! ## Attempts are not mixed -/

/-- In every state of a run the client has a part of what was read of the stream
that was opened last.  A sequence of attempts ends with the whole of one of them. -/
theorem one_attempt (number : JsString → UInt64) (o : RecoverableStreamOptions)
    (hcontinue : o.continueStream = none) :
    (∀ events, Uncancelled events → (run number o events).OneAttempt o) ∧
      ∀ first rest, (run number o (script (first :: rest))).phase = .returned ∧
        ∃ last, (first :: rest)[(run number o (script (first :: rest))).reader]? = some last ∧
          (run number o (script (first :: rest))).stream.enqueued = last.chunks.map Prod.fst := by
  constructor
  · intro events hevents
    exact (Unmixed.foldl number hcontinue (unmixed_initial o) hevents).oneAttempt
  · intro first rest
    have hwaiting : Waiting o {} := ⟨unmixed_initial o, .inl rfl⟩
    obtain ⟨hreturned, k, last, hreader, hlast, hattempt⟩ :=
      hwaiting.script number hcontinue rfl first rest
    have hk : (run number o (script (first :: rest))).reader = k := hreader.trans (Nat.zero_add k)
    refine ⟨hreturned.phase, last, ?_, hreturned.delivered.trans hattempt⟩
    rw [hk, hlast]

/-- The first stream breaks while its opening is held back, and the second is
delivered whole. -/
theorem one_attempt_second : (run (fun _ => 0) {} (script
      [⟨[([1], 0)], .error true⟩, ⟨[([2], 10), ([3], 20)], .done⟩])).stream.enqueued =
      [[2], [3]] := by
  obtain ⟨-, last, hlast, hdelivered⟩ := (one_attempt (fun _ => 0) {} rfl).2
    ⟨[([1], 0)], .error true⟩ [⟨[([2], 10), ([3], 20)], .done⟩]
  rw [hdelivered]
  have hreader : (run (fun _ => 0) {} (script
      [⟨[([1], 0)], .error true⟩, ⟨[([2], 10), ([3], 20)], .done⟩])).reader = 1 := by decide
  cases hlast
  rfl

end RedRouter.Services.RecoverySession
