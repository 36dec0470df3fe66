import RedRouter.Lib.Separators
import RedRouter.Compression.CcrMoves

/-!
# The isolation of the principals

A block is named by a hash and a principal, and has two places: the key of the
map, and the row of the table.  Both are made of the two names, and two
different blocks can have a place in common.  `Collide` says so.

`Origins` traces what lies in the places back to the blocks that were stored.
-/

namespace RedRouter.Compression.Ccr

open List JsMap

/-! ## Places -/

structure BlockName where
  hash : JsString
  principalId : Option JsString
deriving DecidableEq

def BlockName.key (b : BlockName) : JsString := buildStoreKey b.hash b.principalId

def BlockName.row (out : Outside) (b : BlockName) : JsString × JsString :=
  (out.column (owner b.principalId), out.column b.hash)

/-- Different blocks with a place in common. -/
def Collide (out : Outside) (b b' : BlockName) : Prop :=
  b ≠ b' ∧ (b.key = b'.key ∨ b.row out = b'.row out)

namespace Store

variable (out : Outside)

def StoredBy (events : List Event) (text : JsString) (principalId : Option JsString) : Prop :=
  ∃ before options now hash metadata, before ++ [.store text principalId options now] <+: events ∧
      ((run out [] before).tryStoreBlock out text principalId options now).1 = .stored hash metadata

/-- No block that is read in the run collides with a block that is stored. -/
def Separate (events : List Event) : Prop :=
  ∀ before hash principalId now, before ++ [.retrieve hash principalId now] <+: events →
    ∀ text principalId', StoredBy out before text principalId' →
      ¬ Collide out ⟨hash, principalId⟩ ⟨hashContent out text, principalId'⟩

/-- The columns keep the texts that are stored. -/
def Legible (events : List Event) : Prop :=
  ∀ text principalId options now,
    Event.store text principalId options now ∈ events → out.column text = text

/-- Everything in the places comes from blocks with these texts and principals. -/
structure Origins (known : JsString → Option JsString → Prop) (s : Store) : Prop where
  entries : ∀ key entry, s.ccrStore.get key = some entry → ∃ text principalId,
    known text principalId ∧ entry.content = text ∧
      key = buildStoreKey (hashContent out text) principalId
  deferred : ∀ row, .persist row ∈ s.deferred → ∃ text principalId,
    known text principalId ∧ row.content = text ∧ row.principalId = owner principalId ∧
      row.hash = hashContent out text
  rows : ∀ row ∈ s.rows, ∃ text principalId,
    known text principalId ∧ row.content = out.column text ∧
      (row.principalId, row.hash) = BlockName.row out ⟨hashContent out text, principalId⟩

variable {out} {s s' : Store} {known known' : JsString → Option JsString → Prop} {key : JsString}
  {entry : CcrEntry}

theorem Origins.mono (hknown : ∀ text principalId, known text principalId → known' text principalId)
    (h : Origins out known s) : Origins out known' s where
  entries := fun key entry hget => by
    obtain ⟨text, principalId, hfrom, hrest⟩ := h.entries key entry hget
    exact ⟨text, principalId, hknown _ _ hfrom, hrest⟩
  deferred := fun row hrow => by
    obtain ⟨text, principalId, hfrom, hrest⟩ := h.deferred row hrow
    exact ⟨text, principalId, hknown _ _ hfrom, hrest⟩
  rows := fun row hrow => by
    obtain ⟨text, principalId, hfrom, hrest⟩ := h.rows row hrow
    exact ⟨text, principalId, hknown _ _ hfrom, hrest⟩

/-! ## What the operations do to the origins -/

theorem Origins.of_subset (h : Origins out known s)
    (hentries : ∀ key entry, s'.ccrStore.get key = some entry →
      ∃ old, s.ccrStore.get key = some old ∧ entry.content = old.content)
    (hdeferred : ∀ row, .persist row ∈ s'.deferred → .persist row ∈ s.deferred)
    (hrows : ∀ row ∈ s'.rows, ∃ old ∈ s.rows, row.content = old.content ∧
      row.principalId = old.principalId ∧ row.hash = old.hash) : Origins out known s' where
  entries := fun key entry hget => by
    obtain ⟨old, hold, hcontent⟩ := hentries key entry hget
    rw [hcontent]
    exact h.entries key old hold
  deferred := fun row hrow => h.deferred row (hdeferred row hrow)
  rows := fun row hrow => by
    obtain ⟨old, hold, hcontent, hprincipal, hhash⟩ := hrows row hrow
    rw [hcontent, hprincipal, hhash]
    exact h.rows old hold

theorem Origins.of_rows (h : Origins out known s) (hstore : s'.ccrStore = s.ccrStore)
    (hdeferred : s'.deferred = s.deferred)
    (hrows : ∀ row ∈ s'.rows, ∃ old ∈ s.rows, row.content = old.content ∧
      row.principalId = old.principalId ∧ row.hash = old.hash) : Origins out known s' :=
  h.of_subset (fun _ entry hget => ⟨entry, hstore ▸ hget, rfl⟩) (fun _ hrow => hdeferred ▸ hrow) hrows

theorem Origins.removeEntry (h : Origins out known s) (key : JsString)
    (reason : Option EvictReason) : Origins out known (s.removeEntry out key reason).2 := by
  refine h.of_subset ?_ ?_ ?_
  · intro key' entry hget
    rw [removeEntry_ccrStore, get_delete] at hget
    split at hget
    · cases hget
    · exact ⟨entry, hget, rfl⟩
  · intro row hrow
    rcases removeEntry_deferred out s key reason with heq | ⟨principalId, hash, heq⟩
    · rw [heq] at hrow
      exact hrow
    · rw [heq, mem_append, mem_singleton] at hrow
      rcases hrow with hrow | hrow
      · exact hrow
      · cases hrow
  · intro row hrow
    have hrows : (s.removeEntry out key reason).2.rows = s.rows :=
      congrArg Table.rows (removeEntry_table reason)
    rw [hrows] at hrow
    exact ⟨row, hrow, rfl, rfl, rfl⟩

theorem Removed.origins (h : Removed out s s') (hs : Origins out known s) : Origins out known s' :=
  h.invariant (Origins out known) (fun _ key reason hs => hs.removeEntry key reason) hs

theorem Origins.moveToEnd {entry' : CcrEntry} (h : Origins out known s)
    (hget : s.ccrStore.get key = some entry) (hcontent : entry'.content = entry.content) :
    Origins out known (s.moveToEnd key entry') := by
  refine h.of_subset ?_ (fun _ hrow => hrow) (fun row hrow => ⟨row, hrow, rfl, rfl, rfl⟩)
  intro key' found hfound
  rcases get_set_cases hfound with ⟨rfl, rfl⟩ | hfound
  · exact ⟨entry, hget, hcontent⟩
  · exact ⟨found, (get_delete_eq_some hfound).2, rfl⟩

theorem Origins.forgetEntry (h : Origins out known s) (hash principalId : JsString) :
    Origins out known (s.forgetEntry out hash principalId) := by
  rcases forgetEntry_eq out s hash principalId with heq | heq
  · rw [heq]
    exact h
  · rw [heq]
    refine h.of_subset (fun _ entry hget => ⟨entry, hget, rfl⟩) ?_
      (fun row hrow => ⟨row, hrow, rfl, rfl, rfl⟩)
    intro row hrow
    rcases mem_append.mp hrow with hrow | hrow
    · exact hrow
    · cases mem_singleton.mp hrow

variable {principalId : Option JsString} {text : JsString}

section

variable (h : Origins out known s)
include h

theorem Origins.addEntry (hfrom : known text principalId) (hcontent : entry.content = text) :
    Origins out known (s.addEntry (buildStoreKey (hashContent out text) principalId) entry) where
  entries := fun key found hfound => by
    rcases get_set_cases hfound with ⟨rfl, rfl⟩ | hfound
    · exact ⟨text, principalId, hfrom, hcontent, rfl⟩
    · exact h.entries key found hfound
  deferred := h.deferred
  rows := h.rows

theorem Origins.persistEntry (hfrom : known text principalId)
    (hcontent : entry.content = text) (hprincipal : entry.principalId = owner principalId)
    (hhash : entry.hash = hashContent out text) : Origins out known (s.persistEntry out entry) := by
  obtain ⟨hledger, htable, hdeferred⟩ := persistEntry_eq out s entry
  have hstore : (s.persistEntry out entry).ccrStore = s.ccrStore :=
    congrArg Ledger.ccrStore hledger
  have hrows : (s.persistEntry out entry).rows = s.rows := congrArg Table.rows htable
  refine ⟨?_, ?_, ?_⟩
  · rw [hstore]
    exact h.entries
  · intro row hrow
    rcases hdeferred with heq | heq
    · rw [heq] at hrow
      exact h.deferred row hrow
    · rw [heq, mem_append, mem_singleton] at hrow
      rcases hrow with hrow | hrow
      · exact h.deferred row hrow
      · cases hrow
        exact ⟨text, principalId, hfrom, hcontent, hprincipal, hhash⟩
  · rw [hrows]
    exact h.rows

theorem Origins.deleteCcrBlockRow (principalId hash : JsString) :
    Origins out known (s.deleteCcrBlockRow out principalId hash) :=
  h.of_rows rfl rfl fun row hrow => ⟨row, mem_of_mem_filter hrow, rfl, rfl, rfl⟩

theorem Origins.pruneExpiredCcrBlocks (now : Int) :
    Origins out known (s.pruneExpiredCcrBlocks now) :=
  h.of_rows rfl rfl fun row hrow => ⟨row, mem_of_mem_filter hrow, rfl, rfl, rfl⟩

theorem Origins.touchCcrBlock (principalId hash : JsString) (lastAccessedAt : Int) :
    Origins out known (s.touchCcrBlock out principalId hash lastAccessedAt) := by
  refine h.of_rows rfl rfl fun row hrow => ?_
  obtain ⟨old, hold, rfl⟩ := mem_map.mp hrow
  refine ⟨old, hold, ?_⟩
  split <;> exact ⟨rfl, rfl, rfl⟩

theorem Origins.persistCcrBlock {row : CcrBlockRow} (hrow : ∃ text principalId, known text principalId ∧ row.content = text ∧
      row.principalId = owner principalId ∧ row.hash = hashContent out text) (now : Int) :
    Origins out known (s.persistCcrBlock out row now) := by
  obtain ⟨hledger, hdeferred, -, hrows⟩ := persistCcrBlock_spec out s row now
  have hstore : (s.persistCcrBlock out row now).ccrStore = s.ccrStore :=
    congrArg Ledger.ccrStore hledger
  refine ⟨?_, ?_, ?_⟩
  · rw [hstore]
    exact h.entries
  · rw [hdeferred]
    exact h.deferred
  · intro row' hrow'
    rcases hrows row' hrow' with hold | rfl
    · exact h.rows row' hold
    · obtain ⟨text, principalId, hfrom, hcontent, hprincipal, hhash⟩ := hrow
      refine ⟨text, principalId, hfrom, congrArg out.column hcontent, ?_⟩
      show (out.column row.principalId, out.column row.hash) = _
      rw [hprincipal, hhash]
      rfl

theorem Origins.runDeferred (now : Int) : Origins out known (s.runDeferred out now) := by
  unfold Store.runDeferred
  cases hdeferred : s.deferred with
  | nil => exact h
  | cons work rest =>
    have hrest : Origins out known { s with deferred := rest } :=
      h.of_subset (fun _ entry hget => ⟨entry, hget, rfl⟩) (fun row hrow => by
          rw [hdeferred]
          exact mem_cons_of_mem _ hrow)
        (fun row hrow => ⟨row, hrow, rfl, rfl, rfl⟩)
    dsimp only
    split
    · cases work with
      | persist row =>
        refine hrest.persistCcrBlock (h.deferred row ?_) now
        rw [hdeferred]
        exact mem_cons_self
      | delete principalId hash => exact hrest.deleteCcrBlockRow principalId hash
    · exact hrest

end

/-! ## Store and retrieve -/

variable {events : List Event}

theorem storedBy_concat (event : Event) (h : StoredBy out events text principalId) :
    StoredBy out (events ++ [event]) text principalId := by
  obtain ⟨before, options, now, hash, metadata, hinit, hresult⟩ := h
  exact ⟨before, options, now, hash, metadata, hinit.trans (prefix_append _ _), hresult⟩

theorem Origins.tryStoreBlock {options : StoreCcrBlockOptions} {now : Int}
    (h : Origins out (StoredBy out events) (run out [] events)) :
    Origins out (StoredBy out (events ++ [.store text principalId options now]))
      ((run out [] events).tryStoreBlock out text principalId options now).2 := by
  have hremoved : Removed out (run out [] events) _ := purgeExpired_removed now
  have hpurged := (hremoved.origins h).mono
    fun _ _ hfrom => storedBy_concat (.store text principalId options now) hfrom
  rcases tryStoreBlock_cases out (run out [] events) text principalId options now with
    ⟨existing, hget, heq⟩ | ⟨-, ⟨s₂, reason, hremoved, -, heq⟩ | ⟨s₂, hroom, metadata, heq⟩⟩
  · rw [heq]
    exact hpurged.moveToEnd hget rfl
  · rw [heq]
    have hremoved' := hremoved.origins hpurged
    exact { hremoved' with }
  · have hknown : StoredBy out (events ++ [.store text principalId options now]) text principalId :=
      ⟨events, options, now, _, metadata, prefix_refl _, congrArg Prod.fst heq⟩
    rw [heq]
    exact (((Removed.of_makeRoom hroom).origins hpurged).addEntry hknown rfl).persistEntry hknown
      rfl rfl rfl

/-- What a principal reads is its own, when the block collides with no other. -/
theorem Origins.retrieveBlock {hash : JsString} {now : Int}
    (h : Origins out (StoredBy out events) s) (hlegible : Legible out events)
    (hseparate : ∀ text principalId', StoredBy out events text principalId' →
      ¬ Collide out ⟨hash, principalId⟩ ⟨hashContent out text, principalId'⟩) :
    Origins out (StoredBy out events) (s.retrieveBlock out hash principalId now).2 ∧
      ∀ content, (s.retrieveBlock out hash principalId now).1 = some content →
        StoredBy out events content principalId := by
  have hown : ∀ text principalId', StoredBy out events text principalId' →
      (BlockName.key ⟨hash, principalId⟩ = BlockName.key ⟨hashContent out text, principalId'⟩ ∨
        BlockName.row out ⟨hash, principalId⟩ =
          BlockName.row out ⟨hashContent out text, principalId'⟩) →
      hash = hashContent out text ∧ principalId = principalId' := by
    intro text principalId' hfrom hplace
    have hsame : (⟨hash, principalId⟩ : BlockName) = ⟨hashContent out text, principalId'⟩ := by
      by_contra hne
      exact hseparate text principalId' hfrom ⟨hne, hplace⟩
    exact BlockName.mk.inj hsame
  rcases retrieveBlock_cases out s hash principalId now with
    ⟨entry, hget, -, heq⟩ | ⟨-, s₁, hremoved, -, heq⟩
  · rw [heq]
    refine ⟨h.moveToEnd hget rfl, ?_⟩
    intro content hcontent
    obtain ⟨text, principalId', hfrom, htext, hkey⟩ := h.entries _ entry hget
    obtain ⟨-, rfl⟩ := hown text principalId' hfrom (.inl hkey)
    rw [← Option.some.inj hcontent, htext]
    exact hfrom
  · have h₁ := hremoved.origins h
    rw [heq]
    rcases rehydrateEntry_cases out s₁ hash principalId now with
      ⟨-, hnone, hsame | hdeleted⟩ | ⟨row, hrow, hnames, -, hsome, hstate⟩
    · rw [hnone, hsame]
      exact ⟨h₁, nofun⟩
    · rw [hnone, hdeleted]
      exact ⟨h₁.deleteCcrBlockRow _ _, nofun⟩
    · obtain ⟨text, principalId', hfrom, htext, hplace⟩ := h₁.rows row hrow
      have hrowName : BlockName.row out ⟨hash, principalId⟩ = (row.principalId, row.hash) := by
        obtain ⟨hprincipal, hhash⟩ := of_decide_eq_true hnames
        rw [hprincipal, hhash]
        rfl
      obtain ⟨rfl, rfl⟩ := hown text principalId' hfrom (.inr (hrowName.trans hplace))
      have hkept : out.column text = text := by
        obtain ⟨before, options, now', _, _, hinit, -⟩ := hfrom
        exact hlegible text principalId options now'
          (hinit.subset (mem_append_right _ mem_cons_self))
      rw [hkept] at htext
      rw [hsome]
      refine ⟨?_, fun content hcontent => ?_⟩
      · rcases hstate with ⟨reason, s₂, hroom, hstate⟩ | ⟨s₂, hroom, hstate⟩
        · rw [hstate]
          exact ((Removed.of_makeRoom hroom).origins h₁).touchCcrBlock _ _ _
        · rw [hstate]
          refine Origins.touchCcrBlock
            (Origins.addEntry ((Removed.of_makeRoom hroom).origins h₁) hfrom ?_) _ _ _
          exact htext
      · rw [← Option.some.inj hcontent]
        show StoredBy out events row.content principalId
        rw [htext]
        exact hfrom

/-! ## Runs -/

theorem run_concat (rows : List CcrBlockRow) (events : List Event) (event : Event) :
    run out rows (events ++ [event]) = (run out rows events).step out event := by
  rw [run, run, foldl_append]
  rfl

theorem origins_run (hseparate : Separate out events) (hlegible : Legible out events) :
    Origins out (StoredBy out events) (run out [] events) := by
  induction events using List.reverseRecOn with
  | nil =>
    refine ⟨?_, ?_, ?_⟩
    · intro key entry hget
      cases hget
    all_goals
      intro row hrow
      cases hrow
  | append_singleton events event ih =>
    have hbefore : Legible out events := fun text principalId options now hmem =>
      hlegible text principalId options now (mem_append_left _ hmem)
    have h := ih (fun before hash principalId now hinit =>
      hseparate before hash principalId now (hinit.trans (prefix_append _ _))) hbefore
    have hmono : ∀ {s : Store}, Origins out (StoredBy out events) s →
        Origins out (StoredBy out (events ++ [event])) s :=
      fun hs => hs.mono fun _ _ hfrom => storedBy_concat event hfrom
    rw [run_concat]
    cases event with
    | store text principalId options now => exact h.tryStoreBlock
    | retrieve hash principalId now =>
      exact hmono (h.retrieveBlock hbefore
        (hseparate events hash principalId now (prefix_refl _))).1
    | delete hash principalId =>
      show Origins out _ (Store.deleteCcrBlock out hash principalId _).2
      rw [deleteCcrBlock_snd]
      exact hmono ((h.removeEntry _ _).forgetEntry _ _)
    | inspect hash principalId now =>
      show Origins out _ (Store.getActiveEntry out (buildStoreKey hash principalId) now _).2
      rcases getActiveEntry_cases out (run out [] events) (buildStoreKey hash principalId) now with
        ⟨entry, -, -, heq⟩ | ⟨-, s₁, heq, hremoved, -⟩
      · rw [heq]
        exact hmono h
      · rw [heq]
        exact hmono (hremoved.origins h)
    | stats principalId now => exact hmono ((purgeExpired_removed now).origins h)
    | recordRetrieval hash principalId => exact hmono { h with }
    | deferred now => exact hmono (h.runDeferred now)
    | cleanup now =>
      show Origins out _ (if (run out [] events).usable then _ else _)
      split
      · exact hmono (h.pruneExpiredCcrBlocks now)
      · exact hmono h
    | database usable => exact hmono { h with }

/-- In a run in which no block that is read collides with a stored one, a
principal reads texts that it stored itself. -/
theorem retrieveBlock_own (out : Outside) (events : List Event) (hash : JsString)
    (principalId : Option JsString) (now : Int)
    (hseparate : Separate out (events ++ [.retrieve hash principalId now]))
    (hlegible : Legible out events) (content : JsString)
    (h : ((run out [] events).retrieveBlock out hash principalId now).1 = some content) :
    StoredBy out events content principalId := by
  have hrun := origins_run (fun before hash principalId now hinit =>
    hseparate before hash principalId now (hinit.trans (prefix_append _ _))) hlegible
  exact (hrun.retrieveBlock hlegible
    (hseparate events hash principalId now (prefix_refl _))).2 content h

/-- The SHA-256 of `hello`. -/
def helloDigest : List UInt8 :=
  [0x2c, 0xf2, 0x4d, 0xba, 0x5f, 0xb0, 0xa3, 0x0e, 0x26, 0xe8, 0x3b, 0x2a, 0xc5, 0xb9, 0xe2, 0x9e,
    0x1b, 0x16, 0x1e, 0x5c, 0x1f, 0xa7, 0x42, 0x5e, 0x73, 0x04, 0x33, 0x62, 0x93, 0x8b, 0x98, 0x24]

def helloOutside : Outside := ⟨fun _ => helloDigest, id, true⟩

/-- A principal that reads the block it has stored. -/
theorem retrieveBlock_own_hello :
    StoredBy helloOutside [.store (js "hello") (some (js "a")) {} 0] (js "hello") (some (js "a")) := by
  refine retrieveBlock_own helloOutside [.store (js "hello") (some (js "a")) {} 0]
    (hashContent helloOutside (js "hello")) (some (js "a")) 1 ?_ (fun _ _ _ _ _ => rfl) (js "hello")
    (by decide)
  intro before hash principalId now hinit text principalId' hstored hcollide
  have hread : Event.retrieve hash principalId now ∈ _ :=
    hinit.subset (mem_append_right _ (mem_singleton.mpr rfl))
  obtain ⟨first, options, now', _, _, hfirst, -⟩ := hstored
  have hwrote : Event.store text principalId' options now' ∈ _ :=
    hinit.subset (mem_append_left _ (hfirst.subset (mem_append_right _ (mem_singleton.mpr rfl))))
  simp only [cons_append, nil_append, mem_cons, not_mem_nil, or_false,
    reduceCtorEq, false_or, Event.retrieve.injEq, Event.store.injEq] at hread hwrote
  obtain ⟨rfl, rfl, -⟩ := hread
  obtain ⟨rfl, rfl, -⟩ := hwrote
  exact hcollide.1 rfl

/-- The principal `a` reads the block of the principal `a b`, and a call
without a principal the block of the principal `__anon__`. -/
theorem other_principal_reads :
    (((run helloOutside [] [.store (js "hello") (some (js "a b")) {} 0]).retrieveBlock helloOutside
          (js "b " ++ hashContent helloOutside (js "hello")) (some (js "a")) 1).1 = some (js "hello") ∧
        ¬ StoredBy helloOutside [.store (js "hello") (some (js "a b")) {} 0] (js "hello")
          (some (js "a"))) ∧
      ((run helloOutside [] [.store (js "hello") (some anon) {} 0]).retrieveBlock helloOutside
          (hashContent helloOutside (js "hello")) none 1).1 = some (js "hello") ∧
        ¬ StoredBy helloOutside [.store (js "hello") (some anon) {} 0] (js "hello") none := by
  refine ⟨⟨by decide, ?_⟩, by decide, ?_⟩
  · rintro ⟨before, options, now, _, _, hinit, -⟩
    have hwrote := hinit.subset (mem_append_right before (mem_singleton.mpr rfl))
    simp only [mem_singleton, Event.store.injEq, Option.some.injEq] at hwrote
    exact absurd hwrote.2.1 (by decide)
  · rintro ⟨before, options, now, _, _, hinit, -⟩
    have hwrote := hinit.subset (mem_append_right before (mem_singleton.mpr rfl))
    simp only [mem_singleton, Event.store.injEq, reduceCtorEq, false_and, and_false] at hwrote

end Store

end RedRouter.Compression.Ccr
