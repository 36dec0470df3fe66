import RedRouter.Services.TokenRefresh

/-!
# The guard of the persist

A refresh that runs under `runWithCasGuard` reads the row of its connection
again before it writes its tokens, and leaves the row alone when it no longer
holds the token that the caller presented.  The reading and the write are two
steps, and others write the row as well.

The tokens of the connection are numbered in the order in which the provider
issued them.  `casGuard_keeps_order_iff` says which steps put an older token
after a newer one.
-/

namespace RedRouter.Services

open List Places Runs

/-! ## The guard -/

/-- Both are strings that are not empty, and they differ. -/
def wasRefreshTokenRotated {Token : Type} [DecidableEq Token]
    (attemptedRefreshToken latestRefreshToken : Option Token) : Bool :=
  match attemptedRefreshToken, latestRefreshToken with
  | some attempted, some latest => attempted ≠ latest
  | _, _ => false

/-- What `guard.reread()` settles with. -/
inductive Reread (Token : Type) where
  | failed
  | read (refreshToken : Option Token)

/-- `casGuardShouldSkipPersist`; the token is `none` without a guard. -/
def casGuardShouldSkipPersist {Token : Type} [DecidableEq Token]
    (expectedRefreshToken : Option Token) (reread : Reread Token) : Bool :=
  match expectedRefreshToken with
  | none => false
  | some _ =>
      match reread with
      | .failed => false
      | .read current => wasRefreshTokenRotated expectedRefreshToken current

/-! ## The refreshes of a connection -/

/-- Where a refresh has its result from. -/
inductive TokenSource where
  /-- the provider issued it to this refresh -/
  | issued
  /-- the provider took the token and gave it back -/
  | kept
  /-- the rotation map -/
  | rotated
  /-- the row, which was still valid -/
  | row
deriving DecidableEq

inductive GuardPhase where
  | looking
  | rereading
  | presenting
  /-- the guard is to come -/
  | obtained (token : Nat) (source : TokenSource)
  /-- the guard let the write through when the row had been written `seen` times -/
  | writing (token : Nat) (source : TokenSource) (seen : Nat)
  | ended
deriving DecidableEq

/-- A refresh under the guard.  `token` is `credentials.refreshToken`, which a
re-read replaces, also for the attempts after it. -/
structure GuardedRefresh where
  expected : Nat
  token : Nat
  phase : GuardPhase
deriving DecidableEq

/-- `stored` are the tokens that the row held one after the other, and `issued`
is the last one that the provider issued. -/
structure TokenChain where
  issued : Nat
  row : Nat
  rowExpiresAt : Nat := 0
  stored : List Nat
  rotationMap : RotationMap Nat := []
  refreshes : List GuardedRefresh := []
  now : Nat := 0
deriving DecidableEq

inductive ChainAnswer where
  | issues
  | keeps
  | refuses
deriving DecidableEq

inductive ChainEvent where
  | start (expected token : Nat)
  | lookup (i : Nat)
  | readRow (i : Nat) (failed : Bool)
  | answer (i : Nat) (answer : ChainAnswer)
  | recheck (i : Nat)
  | write (i : Nat) (expiresAt : Nat)
  /-- the provider issues a token to somebody else -/
  | issueElsewhere
  | writeElsewhere (token : Nat) (expiresAt : Nat)
  | advance (ms : Nat)
deriving DecidableEq

namespace TokenChain

def start (expected token : Nat) (s : TokenChain) : TokenChain :=
  if expected ≤ s.issued ∧ token ≤ s.issued then
    { s with refreshes := s.refreshes ++ [⟨expected, token, .looking⟩] }
  else s

def modifyRefresh (i : Nat) (f : GuardedRefresh → GuardedRefresh) (s : TokenChain) : TokenChain :=
  { s with refreshes := s.refreshes.modify i f }

def setPhase (i : Nat) (phase : GuardPhase) (s : TokenChain) : TokenChain :=
  s.modifyRefresh i fun r => { r with phase := phase }

def lookup (i : Nat) (s : TokenChain) : TokenChain :=
  match s.refreshes[i]? with
  | none => s
  | some r =>
      if r.phase = .looking then
        match s.rotationMap.lookup s.now r.token with
        | some entry => s.setPhase i (.obtained entry.refreshToken .rotated)
        | none => s.setPhase i .rereading
      else s

def readRow (i : Nat) (failed : Bool) (s : TokenChain) : TokenChain :=
  match s.refreshes[i]? with
  | none => s
  | some r =>
      if r.phase = .rereading then
        match TokenRefresh.checkFreshness s.now r.token
            (if failed then none else some ⟨some s.row, s.rowExpiresAt⟩) with
        | .valid => s.setPhase i (.obtained s.row .row)
        | .present token => s.modifyRefresh i fun r => { r with token := token, phase := .presenting }
      else s

def answer (i : Nat) (answer : ChainAnswer) (s : TokenChain) : TokenChain :=
  match s.refreshes[i]? with
  | none => s
  | some r =>
      if r.phase = .presenting then
        match answer with
        | .issues =>
            { s.setPhase i (.obtained (s.issued + 1) .issued) with
              issued := s.issued + 1
              rotationMap := s.rotationMap.record s.now r.token (s.issued + 1) }
        | .keeps => s.setPhase i (.obtained r.token .kept)
        | .refuses => s.setPhase i .ended
      else s

/-- The row is read for the guard. -/
def recheck (i : Nat) (s : TokenChain) : TokenChain :=
  match s.refreshes[i]? with
  | none => s
  | some r =>
      match r.phase with
      | .obtained token source =>
          if casGuardShouldSkipPersist (some r.expected) (.read (some s.row)) then
            s.setPhase i .ended
          else s.setPhase i (.writing token source s.stored.length)
      | _ => s

def store (token expiresAt : Nat) (s : TokenChain) : TokenChain :=
  { s with row := token, rowExpiresAt := expiresAt, stored := s.stored ++ [token] }

/-- The write of `onPersist` lands. -/
def write (i : Nat) (expiresAt : Nat) (s : TokenChain) : TokenChain :=
  match s.refreshes[i]? with
  | none => s
  | some r =>
      match r.phase with
      | .writing token _ _ => (s.store token expiresAt).setPhase i .ended
      | _ => s

def step (s : TokenChain) : ChainEvent → TokenChain
  | .start expected token => s.start expected token
  | .lookup i => s.lookup i
  | .readRow i failed => s.readRow i failed
  | .answer i answer => s.answer i answer
  | .recheck i => s.recheck i
  | .write i expiresAt => s.write i expiresAt
  | .issueElsewhere => { s with issued := s.issued + 1 }
  | .writeElsewhere token expiresAt => if token ≤ s.issued then s.store token expiresAt else s
  | .advance ms => { s with now := s.now + ms }

/-- A run that starts with a row of the last token. -/
def run (events : List ChainEvent) : TokenChain :=
  events.foldl step { issued := 0, row := 0, stored := [0] }

/-! ## Which results are newer -/

/-- The result of a refresh that took the token of the row over, and got
nothing newer from the provider. -/
def TakesOver (r : GuardedRefresh) (source : TokenSource) : Prop :=
  source = .row ∨ source ≠ .issued ∧ r.token ≠ r.expected

/-- The result of any other refresh is not older than what its caller presented. -/
def Newer (issued : Nat) (r : GuardedRefresh) (token : Nat) (source : TokenSource) : Prop :=
  token ≤ issued ∧ (TakesOver r source ∨ r.expected ≤ token)

def PhaseInv (s : TokenChain) (r : GuardedRefresh) : Prop :=
  match r.phase with
  | .obtained token source => Newer s.issued r token source
  | .writing token source seen =>
      Newer s.issued r token source ∧ ∃ before, before ++ [r.expected] <+: s.stored ∧
        seen = before.length + 1
  | _ => True

structure ChainInv (s : TokenChain) : Prop where
  row : ∃ before, s.stored = before ++ [s.row]
  rowIssued : s.row ≤ s.issued
  tokens : ∀ (i : Nat) (r : GuardedRefresh), s.refreshes[i]? = some r →
    r.expected ≤ s.issued ∧ r.token ≤ s.issued
  keys : (JsMap.keys s.rotationMap).Nodup
  /-- a token is exchanged for a newer one -/
  rotations : ∀ token entry, s.rotationMap.get token = some entry →
    token ≤ entry.refreshToken ∧ entry.refreshToken ≤ s.issued
  phases : ∀ (i : Nat) (r : GuardedRefresh), s.refreshes[i]? = some r → PhaseInv s r

variable {s : TokenChain}

theorem Newer.later {issued issued' : Nat} {r : GuardedRefresh} {token : Nat}
    {source : TokenSource} (h : Newer issued r token source) (hle : issued ≤ issued') :
    Newer issued' r token source :=
  ⟨Nat.le_trans h.1 hle, h.2⟩

/-- What holds of a refresh is kept while more tokens are issued and stored. -/
theorem PhaseInv.later {s' : TokenChain} {r : GuardedRefresh} (h : PhaseInv s r)
    (hissued : s.issued ≤ s'.issued) (hstored : s.stored <+: s'.stored) : PhaseInv s' r := by
  unfold PhaseInv at h ⊢
  split
  · rename_i token source hphase
    rw [hphase] at h
    exact Newer.later h hissued
  · rename_i token source seen hphase
    rw [hphase] at h
    obtain ⟨hnewer, before, hbefore, hseen⟩ := h
    exact ⟨hnewer.later hissued, before, hbefore.trans hstored, hseen⟩
  · trivial

section

variable (h : ChainInv s)
include h

theorem ChainInv.modifyRefresh {i : Nat} {r : GuardedRefresh}
    {f : GuardedRefresh → GuardedRefresh} (hr : s.refreshes[i]? = some r)
    (htokens : (f r).expected ≤ s.issued ∧ (f r).token ≤ s.issued) (hphase : PhaseInv s (f r)) :
    ChainInv (s.modifyRefresh i f) where
  row := h.row
  rowIssued := h.rowIssued
  tokens := by
    intro j r' hr'
    obtain ⟨r₀, hr₀, ⟨rfl, rfl⟩ | ⟨-, rfl⟩⟩ := modify_cases hr'
    · obtain rfl := unique hr₀ hr
      exact htokens
    · exact h.tokens j r' hr₀
  keys := h.keys
  rotations := h.rotations
  phases := by
    intro j r' hr'
    have hsame : ∀ r : GuardedRefresh, PhaseInv s r → PhaseInv (s.modifyRefresh i f) r :=
      fun r hr => hr.later (Nat.le_refl _) (prefix_refl _)
    obtain ⟨r₀, hr₀, ⟨rfl, rfl⟩ | ⟨-, rfl⟩⟩ := modify_cases hr'
    · obtain rfl := unique hr₀ hr
      exact hsame _ hphase
    · exact hsame r' (h.phases j r' hr₀)

theorem ChainInv.setPhase {i : Nat} {r : GuardedRefresh} {phase : GuardPhase}
    (hr : s.refreshes[i]? = some r) (hphase : PhaseInv s { r with phase := phase }) :
    ChainInv (s.setPhase i phase) :=
  h.modifyRefresh hr (h.tokens i r hr) hphase

theorem ChainInv.store {token : Nat} (htoken : token ≤ s.issued)
    (expiresAt : Nat) : ChainInv (s.store token expiresAt) where
  row := ⟨s.stored, rfl⟩
  rowIssued := htoken
  tokens := h.tokens
  keys := h.keys
  rotations := h.rotations
  phases := fun i r hr =>
    (h.phases i r hr).later (Nat.le_refl _) (prefix_append s.stored [token])

theorem ChainInv.issue : ChainInv { s with issued := s.issued + 1 } where
  row := h.row
  rowIssued := Nat.le_succ_of_le h.rowIssued
  tokens := fun i r hr =>
    ⟨Nat.le_succ_of_le (h.tokens i r hr).1, Nat.le_succ_of_le (h.tokens i r hr).2⟩
  keys := h.keys
  rotations := fun token entry hget =>
    ⟨(h.rotations token entry hget).1, Nat.le_succ_of_le (h.rotations token entry hget).2⟩
  phases := fun i r hr =>
    (h.phases i r hr).later (Nat.le_succ s.issued) (prefix_refl _)

theorem ChainInv.record {oldToken newToken : Nat} (hold : oldToken ≤ newToken)
    (hnew : newToken ≤ s.issued) :
    ChainInv { s with rotationMap := s.rotationMap.record s.now oldToken newToken } where
  row := h.row
  rowIssued := h.rowIssued
  tokens := h.tokens
  keys := RotationMap.nodup_record h.keys newToken
  rotations := by
    intro token entry hget
    have hget' : (s.rotationMap.record s.now oldToken newToken).get token = some entry := hget
    unfold RotationMap.record at hget'
    split at hget'
    · exact h.rotations token entry hget'
    · rcases JsMap.get_set_cases hget' with ⟨rfl, rfl⟩ | hkept
      · exact ⟨hold, hnew⟩
      · exact h.rotations token entry hkept
  phases := fun i r hr => (h.phases i r hr).later (Nat.le_refl _) (prefix_refl _)

end

theorem checkFreshness_token {now token : Nat} {row : Option (DbConnection Nat)} {presented : Nat}
    (h : TokenRefresh.checkFreshness now token row = .present presented) :
    presented = token ∨ ∃ r, row = some r ∧ r.refreshToken = some presented := by
  unfold TokenRefresh.checkFreshness at h
  split at h
  · exact .inl (TokenRefresh.Freshness.present.inj h).symm
  · rename_i row
    split at h
    · exact .inl (TokenRefresh.Freshness.present.inj h).symm
    · rename_i dbToken hdb
      split at h
      · split at h
        · cases h
        · rw [← TokenRefresh.Freshness.present.inj h]
          exact .inr ⟨row, rfl, hdb⟩
      · exact .inl (TokenRefresh.Freshness.present.inj h).symm

theorem ChainInv.step (h : ChainInv s) (e : ChainEvent) : ChainInv (s.step e) := by
  cases e with
  | start expected token =>
    show ChainInv (s.start expected token)
    unfold TokenChain.start
    split
    · rename_i hissued
      refine ⟨h.row, h.rowIssued, ?_, h.keys, h.rotations, ?_⟩
      · intro i r hr
        rcases append_cases hr with hold | ⟨-, rfl⟩
        · exact h.tokens i r hold
        · exact hissued
      · intro i r hr
        rcases append_cases hr with hold | ⟨-, rfl⟩
        · exact (h.phases i r hold).later (Nat.le_refl _) (prefix_refl _)
        · trivial
    · exact h
  | lookup i =>
    show ChainInv (s.lookup i)
    unfold TokenChain.lookup
    split
    · exact h
    · rename_i r hr
      split
      · split
        · rename_i entry hlook
          have hget := (RotationMap.get_of_cleanup h.keys hlook).1
          obtain ⟨hle, hissued⟩ := h.rotations r.token entry hget
          refine h.setPhase hr ⟨hissued, ?_⟩
          by_cases hsame : r.token = r.expected
          · exact .inr (hsame ▸ hle)
          · exact .inl (.inr ⟨nofun, hsame⟩)
        · exact h.setPhase hr trivial
      · exact h
  | readRow i failed =>
    show ChainInv (s.readRow i failed)
    unfold TokenChain.readRow
    split
    · exact h
    · rename_i r hr
      split
      · split
        · exact h.setPhase hr ⟨h.rowIssued, .inl (.inl rfl)⟩
        · rename_i token hfresh
          obtain ⟨hexpected, htoken⟩ := h.tokens i r hr
          refine h.modifyRefresh hr ⟨hexpected, ?_⟩ trivial
          rcases checkFreshness_token hfresh with rfl | ⟨row, hrow, hdb⟩
          · exact htoken
          · split at hrow
            · cases hrow
            · obtain rfl := Option.some.inj hrow
              rw [← Option.some.inj hdb]
              exact h.rowIssued
      · exact h
  | answer i answer =>
    show ChainInv (s.answer i answer)
    unfold TokenChain.answer
    split
    · exact h
    · rename_i r hr
      obtain ⟨hexpected, htoken⟩ := h.tokens i r hr
      split
      · split
        · have hissue : ChainInv { s with issued := s.issued + 1 } := h.issue
          have hrecord := hissue.record (Nat.le_succ_of_le htoken) (Nat.le_refl (s.issued + 1))
          exact hrecord.setPhase hr ⟨Nat.le_refl _, .inr (Nat.le_succ_of_le hexpected)⟩
        · refine h.setPhase hr ⟨htoken, ?_⟩
          by_cases hsame : r.token = r.expected
          · exact .inr (Nat.le_of_eq hsame.symm)
          · exact .inl (.inr ⟨nofun, hsame⟩)
        · exact h.setPhase hr trivial
      · exact h
  | recheck i =>
    show ChainInv (s.recheck i)
    unfold TokenChain.recheck
    split
    · exact h
    · rename_i r hr
      split
      · rename_i token source hphase
        split
        · exact h.setPhase hr trivial
        · rename_i hpass
          have hnewer : Newer s.issued r token source := by
            have hinv := h.phases i r hr
            unfold PhaseInv at hinv
            rw [hphase] at hinv
            exact hinv
          have hrow : r.expected = s.row := by
            simpa [casGuardShouldSkipPersist, wasRefreshTokenRotated] using hpass
          obtain ⟨before, hbefore⟩ := h.row
          refine h.setPhase hr ⟨hnewer, before, ?_, ?_⟩
          · show before ++ [r.expected] <+: s.stored
            rw [hrow, hbefore]
          · rw [hbefore, length_append]
            rfl
      · exact h
  | write i expiresAt =>
    show ChainInv (s.write i expiresAt)
    unfold TokenChain.write
    split
    · exact h
    · rename_i r hr
      split
      · rename_i token source seen hphase
        have hinv := h.phases i r hr
        unfold PhaseInv at hinv
        rw [hphase] at hinv
        exact (h.store hinv.1.1 expiresAt).setPhase hr trivial
      · exact h
  | issueElsewhere => exact h.issue
  | writeElsewhere token expiresAt =>
    show ChainInv (if token ≤ s.issued then s.store token expiresAt else s)
    split
    · rename_i htoken
      exact h.store htoken expiresAt
    · exact h
  | advance ms =>
    exact { h with phases := fun i r hr => (h.phases i r hr).later (Nat.le_refl _) (prefix_refl _) }

/-! ## The order of the tokens stored -/

def InIssueOrder (s : TokenChain) : Prop := s.stored.Pairwise (· ≤ ·)

/-- A write lands when no newer token was written since the row was read for
the guard, and what a refresh took over from the row is not older than what its
caller presented.  Others write no older token than the row has. -/
def KeepsOrder (s : TokenChain) : ChainEvent → Prop
  | .write i _ => ∀ r token source seen, s.refreshes[i]? = some r →
      r.phase = .writing token source seen → (∀ written ∈ s.stored.drop seen, written ≤ token) ∧
          (TakesOver r source → r.expected ≤ token)
  | .writeElsewhere token _ => token ≤ s.issued → s.row ≤ token
  | _ => True

theorem inIssueOrder_store (horder : InIssueOrder s) (token expiresAt : Nat) :
    InIssueOrder (s.store token expiresAt) ↔ ∀ written ∈ s.stored, written ≤ token := by
  show (s.stored ++ [token]).Pairwise _ ↔ _
  rw [pairwise_append]
  constructor
  · rintro ⟨-, -, hall⟩ written hwritten
    exact hall written hwritten token (mem_singleton_self token)
  · intro hall
    refine ⟨horder, pairwise_singleton _ _, ?_⟩
    intro written hwritten last hlast
    rw [mem_singleton.mp hlast]
    exact hall written hwritten

theorem le_last {before : List Nat} {last : Nat} (horder : (before ++ [last]).Pairwise (· ≤ ·)) :
    ∀ written ∈ before ++ [last], written ≤ last := by
  intro written hwritten
  rcases mem_append.mp hwritten with hbefore | hlast
  · exact (pairwise_append.mp horder).2.2 written hbefore last (mem_singleton_self last)
  · exact Nat.le_of_eq (mem_singleton.mp hlast)

/-- A write keeps the order exactly when the tokens written since the re-read
are not newer, and the one that was there is not either. -/
theorem ChainInv.written_le_iff (h : ChainInv s) (horder : InIssueOrder s) {i : Nat}
    {r : GuardedRefresh} {token : Nat} {source : TokenSource} {seen : Nat}
    (hr : s.refreshes[i]? = some r) (hphase : r.phase = .writing token source seen) :
    (∀ written ∈ s.stored, written ≤ token) ↔ (∀ written ∈ s.stored.drop seen, written ≤ token) ∧
        (TakesOver r source → r.expected ≤ token) := by
  have hinv := h.phases i r hr
  unfold PhaseInv at hinv
  rw [hphase] at hinv
  obtain ⟨⟨-, hnewer⟩, before, ⟨later, hstored⟩, hseen⟩ := hinv
  have hdrop : s.stored.drop seen = later := by
    rw [← hstored, hseen, ← length_singleton (a := r.expected), ← length_append, drop_left]
  rw [hdrop]
  constructor
  · intro hall
    refine ⟨?_, fun _ => ?_⟩
    · intro written hwritten
      exact hall written (hstored ▸ mem_append_right _ hwritten)
    · exact hall r.expected (hstored ▸ by simp)
  · rintro ⟨hlater, htakes⟩
    have hexpected : r.expected ≤ token := hnewer.elim htakes id
    have hfirst : (before ++ [r.expected]).Pairwise (· ≤ ·) := by
      unfold InIssueOrder at horder
      rw [← hstored] at horder
      exact (pairwise_append.mp horder).1
    intro written hwritten
    rw [← hstored] at hwritten
    rcases mem_append.mp hwritten with hold | hnew
    · exact Nat.le_trans (le_last hfirst written hold) hexpected
    · exact hlater written hnew

theorem inIssueOrder_step (h : ChainInv s) (horder : InIssueOrder s) (e : ChainEvent) :
    InIssueOrder (s.step e) ↔ KeepsOrder s e := by
  cases e with
  | write i expiresAt =>
    show InIssueOrder (s.write i expiresAt) ↔ _
    unfold TokenChain.write KeepsOrder
    split
    · rename_i hnone
      exact iff_of_true horder fun r token source seen hr => by rw [hnone] at hr; cases hr
    · rename_i r hr
      split
      · rename_i token source seen hphase
        have hstore := inIssueOrder_store horder token expiresAt
        refine hstore.trans ((h.written_le_iff horder hr hphase).trans ?_)
        constructor
        · intro hkeeps r' token' source' seen' hr' hphase'
          obtain rfl := unique hr' hr
          rw [hphase] at hphase'
          obtain ⟨rfl, rfl, rfl⟩ := GuardPhase.writing.inj hphase'
          exact hkeeps
        · intro hall
          exact hall r token source seen hr hphase
      · rename_i hother
        refine iff_of_true horder ?_
        intro r' token source seen hr' hphase
        rw [unique hr' hr] at hphase
        exact absurd hphase (hother token source seen)
  | writeElsewhere token expiresAt =>
    show InIssueOrder (if token ≤ s.issued then s.store token expiresAt else s) ↔
      (token ≤ s.issued → s.row ≤ token)
    split
    · rename_i htoken
      rw [inIssueOrder_store horder]
      obtain ⟨before, hbefore⟩ := h.row
      rw [hbefore]
      constructor
      · exact fun hall _ => hall s.row (by simp)
      · intro hle written hwritten
        unfold InIssueOrder at horder
        rw [hbefore] at horder
        exact Nat.le_trans (le_last horder written hwritten) (hle htoken)
    · rename_i hnot
      exact iff_of_true horder fun htoken => absurd htoken hnot
  | start | lookup | readRow | answer | recheck =>
    refine iff_of_true ?_ trivial
    unfold TokenChain.step
    simp only [TokenChain.start, TokenChain.lookup, TokenChain.readRow, TokenChain.answer,
      TokenChain.recheck]
    repeat' split
    all_goals exact horder
  | issueElsewhere => exact iff_of_true horder trivial
  | advance ms => exact iff_of_true horder trivial

theorem chainInv_init : ChainInv { issued := 0, row := 0, stored := [0] } where
  row := ⟨[], rfl⟩
  rowIssued := Nat.le_refl 0
  tokens := by intro i r hr; cases hr
  keys := nodup_nil
  rotations := by intro token entry hget; cases hget
  phases := by intro i r hr; cases hr

/-- The tokens stored follow the order in which they were issued, in every state
of a run, exactly when every write of the run keeps the order. -/
theorem casGuard_keeps_order_iff (events : List ChainEvent) :
    (∀ before, before <+: events → InIssueOrder (run before)) ↔
      ∀ before e, before ++ [e] <+: events → KeepsOrder (run before) e :=
  along_prefixes_iff InIssueOrder ChainInv
    (fun _ e h _ => h.step e) (fun _ e h _ horder => inIssueOrder_step h horder e)
    chainInv_init (pairwise_singleton _ _) (along_trivial step _ events)

/-- Another writer stores a newer token between the re-read and the write. -/
def lateWrite : List ChainEvent :=
  [.start 0 0, .lookup 0, .readRow 0 false, .answer 0 .issues, .recheck 0, .issueElsewhere,
    .writeElsewhere 2 0, .write 0 0]

theorem casGuard_overwrites_newer :
    (run lateWrite).stored = [0, 2, 1] ∧ ¬ InIssueOrder (run lateWrite) := by
  have hstored : (run lateWrite).stored = [0, 2, 1] := by decide
  refine ⟨hstored, ?_⟩
  unfold InIssueOrder
  decide

end TokenChain

end RedRouter.Services
