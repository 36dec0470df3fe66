import RedRouter.Lib.Runs
import RedRouter.Lib.WriteBehind
import RedRouter.Compression.CcrIsolation

/-!
# The deletion of blocks

A deletion takes the entry out of the map at once and defers the deletion of
the row.  `Gone` says that the block is not in the map, and that its row will
not be there when the deferred writes have been performed.  It may be there
until then.

`Quiet` says of an event after the deletion that it does not fall into that
gap: it does not read the row of the deleted block while its deletion is
deferred, the database does not throw that deletion away, and no other block
shares a place with this one.
-/

namespace RedRouter.Compression.Ccr.Store

open List JsMap

open WriteBehind (outcome)

variable (out : Outside) (b : BlockName)

def createsRow : DurableWork → Bool
  | .persist row => isRowOf out (owner b.principalId) b.hash (columns out row)
  | .delete _ _ => false

def clearsRow : DurableWork → Bool
  | .persist _ => false
  | .delete principalId hash => (out.column principalId, out.column hash) = b.row out

def hasRow (s : Store) : Bool := s.rows.any (isRowOf out (owner b.principalId) b.hash)

/-- The block is not in the map, and its row will not be in the table. -/
structure Gone (s : Store) : Prop where
  entry : s.ccrStore.get b.key = none
  row : out.durableTierEnabled = true →
    outcome (createsRow out b) (clearsRow out b) (s.hasRow out b) s.deferred = false

variable {out b} {s s' : Store}

/-! ## What the operations do to a deleted block -/

theorem durableRow_eq_none (h : s.hasRow out b = false) (now : Int) :
    s.durableRow out b.hash b.principalId now = none := by
  unfold hasRow at h
  rw [any_eq_false] at h
  unfold durableRow loadCcrBlock
  rw [find?_eq_none.mpr h]
  split <;> rfl

/-- The deferred writes are the old ones and some that create no row of the
block, and the table has no row of it that it did not have. -/
theorem Gone.of_writes {writes : List DurableWork} (h : Gone out b s)
    (hentry : s'.ccrStore.get b.key = none) (hdeferred : s'.deferred = s.deferred ++ writes)
    (hwrites : ∀ w ∈ writes, createsRow out b w = false)
    (hrow : s'.hasRow out b = true → s.hasRow out b = true) : Gone out b s' := by
  refine ⟨hentry, fun hdurable => ?_⟩
  have hbefore := WriteBehind.outcome_mono hrow (h.row hdurable)
  rw [hdeferred]
  clear hdeferred
  induction writes using List.reverseRecOn with
  | nil =>
    rw [append_nil]
    exact hbefore
  | append_singleton writes w ih =>
    have hrest := ih fun w' hw' => hwrites w' (mem_append_left _ hw')
    rw [← append_assoc, WriteBehind.outcome_concat, hrest, WriteBehind.perform,
      hwrites w (mem_append_right _ mem_cons_self)]
    split <;> rfl

theorem hasRow_congr (h : s'.table = s.table) : s'.hasRow out b = s.hasRow out b := by
  have hrows : s'.rows = s.rows := congrArg Table.rows h
  rw [hasRow, hasRow, hrows]

theorem Gone.removeEntry (h : Gone out b s) (key : JsString) (reason : Option EvictReason) :
    Gone out b (s.removeEntry out key reason).2 := by
  have hentry : (s.removeEntry out key reason).2.ccrStore.get b.key = none := by
    rw [removeEntry_ccrStore, get_delete]
    split
    · rfl
    · exact h.entry
  have hrow : (s.removeEntry out key reason).2.hasRow out b = true → s.hasRow out b = true := by
    rw [hasRow_congr (removeEntry_table reason)]
    exact id
  rcases removeEntry_deferred out s key reason with hsame | ⟨principalId, hash, hmore⟩
  · refine h.of_writes hentry (hsame.trans (append_nil _).symm) ?_ hrow
    exact fun w hw => absurd hw not_mem_nil
  · refine h.of_writes hentry hmore ?_ hrow
    intro w hw
    rw [mem_singleton.mp hw]
    rfl

theorem Removed.gone (h : Removed out s s') (hs : Gone out b s) : Gone out b s' :=
  h.invariant (Gone out b) (fun _ key reason hs => hs.removeEntry key reason) hs

/-- The map and the table change away from the block, and nothing is deferred. -/
theorem Gone.of_same (h : Gone out b s) (hentry : s'.ccrStore.get b.key = none)
    (hdeferred : s'.deferred = s.deferred)
    (hrow : s'.hasRow out b = true → s.hasRow out b = true) : Gone out b s' :=
  h.of_writes hentry (hdeferred.trans (append_nil _).symm) (fun _ hw => absurd hw not_mem_nil) hrow

theorem Gone.forgetEntry (h : Gone out b s) (hash principalId : JsString) :
    Gone out b (s.forgetEntry out hash principalId) := by
  rcases forgetEntry_eq out s hash principalId with heq | heq
  · rw [heq]
    exact h
  · rw [heq]
    refine h.of_writes h.entry rfl ?_ id
    intro w hw
    rw [mem_singleton.mp hw]
    rfl

theorem hasRow_of_subset (h : ∀ row ∈ s'.rows, row ∈ s.rows) (hrow : s'.hasRow out b = true) :
    s.hasRow out b = true := by
  obtain ⟨row, hmem, hnames⟩ := any_eq_true.mp hrow
  exact any_eq_true.mpr ⟨row, h row hmem, hnames⟩

theorem hasRow_touchCcrBlock {principalId hash : JsString} {lastAccessedAt : Int}
    (hrow : (s.touchCcrBlock out principalId hash lastAccessedAt).hasRow out b = true) :
    s.hasRow out b = true := by
  obtain ⟨row, hmem, hnames⟩ := any_eq_true.mp hrow
  obtain ⟨old, hold, rfl⟩ := mem_map.mp hmem
  refine any_eq_true.mpr ⟨old, hold, ?_⟩
  split at hnames
  all_goals exact hnames

theorem get_set_other {key : JsString} {entry : CcrEntry} {m : JsMap JsString CcrEntry}
    (hkey : key ≠ b.key) (hget : m.get b.key = none) : (m.set key entry).get b.key = none := by
  rw [get_set, if_neg hkey]
  exact hget

theorem Gone.moveToEnd {key : JsString} {entry : CcrEntry} (h : Gone out b s)
    (hkey : key ≠ b.key) : Gone out b (s.moveToEnd key entry) := by
  refine h.of_same (get_set_other hkey ?_) rfl id
  rw [get_delete, if_neg hkey]
  exact h.entry

theorem Gone.addEntry {key : JsString} (entry : CcrEntry) (h : Gone out b s)
    (hkey : key ≠ b.key) : Gone out b (s.addEntry key entry) :=
  h.of_same (get_set_other hkey h.entry) rfl id

theorem Gone.persistEntry {entry : CcrEntry} (h : Gone out b s)
    (hcreates : createsRow out b (.persist entry) = false) :
    Gone out b (s.persistEntry out entry) := by
  obtain ⟨hledger, htable, hdeferred⟩ := persistEntry_eq out s entry
  have hentry : (s.persistEntry out entry).ccrStore.get b.key = none := by
    rw [show (s.persistEntry out entry).ccrStore = s.ccrStore from congrArg Ledger.ccrStore hledger]
    exact h.entry
  have hrow : (s.persistEntry out entry).hasRow out b = true → s.hasRow out b = true := by
    rw [hasRow_congr htable]
    exact id
  rcases hdeferred with hsame | hmore
  · exact h.of_same hentry hsame hrow
  · refine h.of_writes hentry hmore ?_ hrow
    intro w hw
    rw [mem_singleton.mp hw]
    exact hcreates

/-! ## Steps -/

variable (out b) in
/-- The event does not bring the deleted block back. -/
def Quiet (s : Store) : Event → Prop
  | .store text principalId _ _ => ¬ Collide out ⟨hashContent out text, principalId⟩ b
  | .retrieve hash principalId now =>
      ¬ Collide out ⟨hash, principalId⟩ b ∧
        (⟨hash, principalId⟩ = b → s.deferred.any (clearsRow out b) = true →
          s.durableRow out hash principalId now = none)
  | .deferred _ =>
      s.deferred.head?.any (clearsRow out b) = true → s.usable = false → s.hasRow out b = false
  | _ => True

theorem Collide.of_ne {out : Outside} {b b' : BlockName} (h : ¬ Collide out b' b) (hne : b' ≠ b) :
    b'.key ≠ b.key ∧ b'.row out ≠ b.row out := by
  constructor
  · exact fun hkey => h ⟨hne, .inl hkey⟩
  · exact fun hrow => h ⟨hne, .inr hrow⟩

theorem Gone.tryStoreBlock (h : Gone out b s) (text : JsString) (principalId : Option JsString)
    (options : StoreCcrBlockOptions) (now : Int)
    (hother : (⟨hashContent out text, principalId⟩ : BlockName) ≠ b)
    (hquiet : ¬ Collide out ⟨hashContent out text, principalId⟩ b) :
    Gone out b (s.tryStoreBlock out text principalId options now).2 := by
  obtain ⟨hkey, hrow⟩ := Collide.of_ne hquiet hother
  have hpurged : Gone out b (s.purgeExpired out now) := (purgeExpired_removed now).gone h
  rcases tryStoreBlock_cases out s text principalId options now with
    ⟨existing, -, heq⟩ | ⟨-, ⟨s₂, reason, hremoved, -, heq⟩ | ⟨s₂, hroom, metadata, heq⟩⟩
  · rw [heq]
    exact hpurged.moveToEnd hkey
  · rw [heq]
    have h₂ := hremoved.gone hpurged
    exact h₂.of_same h₂.entry rfl id
  · rw [heq]
    refine (((Removed.of_makeRoom hroom).gone hpurged).addEntry _ hkey).persistEntry ?_
    rw [createsRow, isRowOf, decide_eq_false_iff_not]
    exact fun hnames => hrow (Prod.ext hnames.1 hnames.2)

theorem Gone.durableRow (h : Gone out b s) (now : Int)
    (hquiet : s.deferred.any (clearsRow out b) = true →
      s.durableRow out b.hash b.principalId now = none) :
    s.durableRow out b.hash b.principalId now = none := by
  cases hdurable : out.durableTierEnabled with
  | false => simp [Store.durableRow, hdurable]
  | true =>
    cases hclears : s.deferred.any (clearsRow out b) with
    | true => exact hquiet hclears
    | false =>
      refine durableRow_eq_none (WriteBehind.eq_false_of_outcome (h.row hdurable) ?_) now
      intro w hw
      rw [any_eq_false] at hclears
      exact Bool.eq_false_of_not_eq_true (hclears w hw)

theorem Gone.retrieveBlock (h : Gone out b s) (hash : JsString) (principalId : Option JsString)
    (now : Int) (hquiet : s.Quiet out b (.retrieve hash principalId now)) :
    Gone out b (s.retrieveBlock out hash principalId now).2 ∧
      (⟨hash, principalId⟩ = b → (s.retrieveBlock out hash principalId now).1 = none) := by
  obtain ⟨hcollide, hpending⟩ := hquiet
  rcases retrieveBlock_cases out s hash principalId now with
    ⟨entry, hget, -, heq⟩ | ⟨-, s₁, hremoved, -, heq⟩
  · have hkey : buildStoreKey hash principalId ≠ b.key := by
      intro hsame
      rw [hsame, h.entry] at hget
      cases hget
    rw [heq]
    exact ⟨h.moveToEnd hkey, fun hsame => absurd (congrArg BlockName.key hsame) hkey⟩
  · have h₁ := hremoved.gone h
    rw [heq]
    rcases rehydrateEntry_cases out s₁ hash principalId now with
      ⟨-, hnone, hsame | hdeleted⟩ | ⟨row, -, -, hread, hsome, hstate⟩
    · rw [hnone, hsame]
      exact ⟨h₁, fun _ => rfl⟩
    · rw [hnone, hdeleted]
      refine ⟨?_, fun _ => rfl⟩
      exact h₁.of_same h₁.entry rfl (hasRow_of_subset fun _ hrow => mem_of_mem_filter hrow)
    · have hother : (⟨hash, principalId⟩ : BlockName) ≠ b := by
        rintro rfl
        have hnone := h.durableRow now (hpending rfl)
        rw [← durableRow_congr out hremoved.table hash principalId now, hread] at hnone
        cases hnone
      obtain ⟨hkey, -⟩ := Collide.of_ne hcollide hother
      refine ⟨?_, fun hsame => absurd hsame hother⟩
      rcases hstate with ⟨reason, s₂, hroom, hstate⟩ | ⟨s₂, hroom, hstate⟩
      · rw [hstate]
        have h₂ := (Removed.of_makeRoom hroom).gone h₁
        exact h₂.of_same h₂.entry rfl hasRow_touchCcrBlock
      · rw [hstate]
        have h₂ := (Removed.of_makeRoom hroom).gone h₁
        refine Gone.of_same (h₂.addEntry _ hkey) ?_ rfl hasRow_touchCcrBlock
        exact (h₂.addEntry _ hkey).entry

theorem hasRow_persistCcrBlock {row : CcrBlockRow} {now : Int}
    (h : (s.persistCcrBlock out row now).hasRow out b = true) :
    s.hasRow out b = true ∨ createsRow out b (.persist row) = true := by
  obtain ⟨row', hmem, hnames⟩ := any_eq_true.mp h
  rcases (persistCcrBlock_spec out s row now).2.2.2 row' hmem with hold | rfl
  · exact .inl (any_eq_true.mpr ⟨row', hold, hnames⟩)
  · exact .inr hnames

theorem hasRow_deleteCcrBlockRow {principalId hash : JsString}
    (hclears : clearsRow out b (.delete principalId hash) = true) :
    (s.deleteCcrBlockRow out principalId hash).hasRow out b = false := by
  rw [hasRow, any_eq_false]
  intro row hrow hnames
  have hnot := (mem_filter.mp hrow).2
  obtain ⟨hprincipal, hhash⟩ := Prod.mk.inj (of_decide_eq_true hclears)
  obtain ⟨hprincipal', hhash'⟩ := of_decide_eq_true hnames
  refine of_decide_eq_true hnot (decide_eq_true ⟨?_, ?_⟩)
  · rw [hprincipal', hprincipal]
  · rw [hhash', hhash]

theorem Gone.runDeferred (h : Gone out b s) (now : Int) (hquiet : s.Quiet out b (.deferred now)) :
    Gone out b (s.runDeferred out now) := by
  unfold Store.runDeferred
  unfold Quiet at hquiet
  cases hdeferred : s.deferred with
  | nil => exact h
  | cons work rest =>
    rw [hdeferred] at hquiet
    have hnext : out.durableTierEnabled = true → outcome (createsRow out b) (clearsRow out b)
          (WriteBehind.perform (createsRow out b) (clearsRow out b) (s.hasRow out b) work) rest =
            false := by
      intro hdurable
      rw [← WriteBehind.outcome_cons, ← hdeferred]
      exact h.row hdurable
    dsimp only
    by_cases husable : s.usable = true
    · rw [if_pos husable]
      cases work with
      | persist row =>
        obtain ⟨hledger, hqueue, -⟩ := persistCcrBlock_spec out { s with deferred := rest } row now
        refine ⟨?_, fun hdurable => ?_⟩
        · show (persistCcrBlock out row now { s with deferred := rest }).ccrStore.get b.key = none
          rw [show (persistCcrBlock out row now { s with deferred := rest }).ccrStore = s.ccrStore from
            congrArg Ledger.ccrStore hledger]
          exact h.entry
        · show outcome _ _ (hasRow out b (persistCcrBlock out row now { s with deferred := rest }))
            (persistCcrBlock out row now { s with deferred := rest }).deferred = false
          rw [hqueue]
          refine WriteBehind.outcome_mono ?_ (hnext hdurable)
          intro hrow
          have hrest : hasRow out b { s with deferred := rest } = true ∨
              createsRow out b (.persist row) = true := hasRow_persistCcrBlock hrow
          have hold : s.hasRow out b = true ∨ createsRow out b (.persist row) = true := hrest
          simpa [WriteBehind.perform, clearsRow] using hold
      | delete principalId hash =>
        refine ⟨h.entry, fun hdurable => WriteBehind.outcome_mono ?_ (hnext hdurable)⟩
        intro hrow
        cases hclears : clearsRow out b (.delete principalId hash) with
        | true =>
          have hgone : hasRow out b (deleteCcrBlockRow out principalId hash { s with deferred := rest })
              = false := hasRow_deleteCcrBlockRow hclears
          exact absurd (hrow.symm.trans hgone) Bool.true_eq_false_eq_False
        | false =>
          have hold : s.hasRow out b = true :=
            hasRow_of_subset (fun _ hmem => mem_of_mem_filter hmem) hrow
          simp [WriteBehind.perform, hclears, hold]
    · rw [if_neg husable]
      refine ⟨h.entry, fun hdurable => WriteBehind.outcome_mono ?_ (hnext hdurable)⟩
      intro hrow
      have hhas : s.hasRow out b = true := hrow
      unfold WriteBehind.perform
      cases hclears : clearsRow out b work with
      | true =>
        rw [hquiet hclears (Bool.eq_false_of_not_eq_true husable)] at hhas
        cases hhas
      | false => simp [hhas]

theorem Gone.step (h : Gone out b s) (event : Event)
    (hstore : ∀ text principalId options now, event = .store text principalId options now →
      (⟨hashContent out text, principalId⟩ : BlockName) ≠ b)
    (hquiet : s.Quiet out b event) : Gone out b (s.step out event) := by
  cases event with
  | store text principalId options now =>
    exact h.tryStoreBlock text principalId options now (hstore _ _ _ _ rfl) hquiet
  | retrieve hash principalId now => exact (h.retrieveBlock hash principalId now hquiet).1
  | delete hash principalId =>
    show Gone out b (s.deleteCcrBlock out hash principalId).2
    rw [deleteCcrBlock_snd]
    exact (h.removeEntry _ _).forgetEntry _ _
  | inspect hash principalId now =>
    show Gone out b (s.getActiveEntry out (buildStoreKey hash principalId) now).2
    rcases getActiveEntry_cases out s (buildStoreKey hash principalId) now with
      ⟨entry, -, -, heq⟩ | ⟨-, s₁, heq, hremoved, -⟩
    · rw [heq]
      exact h
    · rw [heq]
      exact hremoved.gone h
  | stats principalId now => exact (purgeExpired_removed now).gone h
  | recordRetrieval hash principalId => exact h.of_same h.entry rfl id
  | deferred now => exact h.runDeferred now hquiet
  | cleanup now =>
    show Gone out b (if s.usable then s.pruneExpiredCcrBlocks now else s)
    split
    · exact h.of_same h.entry rfl (hasRow_of_subset fun _ hrow => mem_of_mem_filter hrow)
    · exact h
  | database usable => exact h.of_same h.entry rfl id

/-! ## Runs -/

theorem gone_deleteCcrBlock (out : Outside) (s : Store) (b : BlockName) :
    Gone out b (s.deleteCcrBlock out b.hash b.principalId).2 := by
  rw [deleteCcrBlock_snd]
  refine ⟨?_, fun hdurable => ?_⟩
  · have hstore : (forgetEntry out b.hash (owner b.principalId)
        (s.removeEntry out (buildStoreKey b.hash b.principalId) none).2).ccrStore =
        (s.removeEntry out (buildStoreKey b.hash b.principalId) none).2.ccrStore :=
      congrArg Ledger.ccrStore (forgetEntry_ledger _ _)
    rw [hstore, removeEntry_ccrStore, get_delete]
    exact if_pos rfl
  · rw [forgetEntry_of_durable hdurable]
    show outcome _ _ _ (_ ++ [DurableWork.delete (owner b.principalId) b.hash]) = false
    rw [WriteBehind.outcome_concat]
    simp [WriteBehind.perform, clearsRow, BlockName.row]

/-- After a deletion, and until the principal stores the block again, the block
is not read in a run of quiet events. -/
theorem delete_effective (out : Outside) (rows : List CcrBlockRow) (before after : List Event)
    (hash : JsString) (principalId : Option JsString) (now : Int)
    (hstore : ∀ text options now', .store text principalId options now' ∈ after →
      hashContent out text ≠ hash)
    (hquiet : Runs.Along (step out) (Quiet out ⟨hash, principalId⟩)
      (run out rows (before ++ [.delete hash principalId])) (after ++ [.retrieve hash principalId now])) :
    ((run out rows (before ++ [.delete hash principalId] ++ after)).retrieveBlock out hash
      principalId now).1 = none := by
  have hstart : Gone out ⟨hash, principalId⟩ (run out rows (before ++ [.delete hash principalId])) := by
    rw [run_concat]
    exact gone_deleteCcrBlock out _ ⟨hash, principalId⟩
  obtain ⟨halong, hlast⟩ := Runs.along_concat.mp hquiet
  have hrun : run out rows (before ++ [.delete hash principalId] ++ after) =
      after.foldl (step out) (run out rows (before ++ [.delete hash principalId])) :=
    foldl_append
  rw [hrun]
  generalize run out rows (before ++ [.delete hash principalId]) = s at hstart halong hlast
  have hgone : Gone out ⟨hash, principalId⟩ (after.foldl (step out) s) := by
    clear hquiet hlast hrun
    induction after generalizing s with
    | nil => exact hstart
    | cons event after ih =>
      refine ih (fun text options now' hmem => hstore text options now' (mem_cons_of_mem _ hmem))
        _ (hstart.step event ?_ halong.1) halong.2
      rintro text principalId' options now' rfl hsame
      obtain ⟨hhash, rfl⟩ := BlockName.mk.inj hsame
      exact hstore text options now' mem_cons_self hhash
  exact (hgone.retrieveBlock hash principalId now hlast).2 rfl

instance (out : Outside) (b b' : BlockName) : Decidable (Collide out b b') :=
  inferInstanceAs (Decidable (b ≠ b' ∧ (b.key = b'.key ∨ b.row out = b'.row out)))

instance (out : Outside) (b : BlockName) (s : Store) : (event : Event) → Decidable (s.Quiet out b event)
  | .store text principalId _ _ =>
      inferInstanceAs (Decidable (¬ Collide out ⟨hashContent out text, principalId⟩ b))
  | .retrieve hash principalId now => inferInstanceAs (Decidable
      (¬ Collide out ⟨hash, principalId⟩ b ∧
        (⟨hash, principalId⟩ = b → s.deferred.any (clearsRow out b) = true →
          s.durableRow out hash principalId now = none)))
  | .deferred _ => inferInstanceAs (Decidable
      (s.deferred.head?.any (clearsRow out b) = true → s.usable = false → s.hasRow out b = false))
  | .delete _ _ => isTrue trivial
  | .inspect _ _ _ => isTrue trivial
  | .stats _ _ => isTrue trivial
  | .recordRetrieval _ _ => isTrue trivial
  | .cleanup _ => isTrue trivial
  | .database _ => isTrue trivial

/-- A block that is read after its row has been deleted. -/
theorem delete_effective_hello :
    ((run helloOutside [] ([.store (js "hello") (some (js "a")) {} 0, .deferred 1] ++
        [.delete (hashContent helloOutside (js "hello")) (some (js "a"))] ++ [.deferred 2])).retrieveBlock
      helloOutside (hashContent helloOutside (js "hello")) (some (js "a")) 3).1 = none :=
  delete_effective helloOutside [] [.store (js "hello") (some (js "a")) {} 0, .deferred 1] [.deferred 2]
    (hashContent helloOutside (js "hello")) (some (js "a")) 3 (by simp) (by decide)

/-- A block that is read while the deletion of its row is deferred comes back,
and stays after the row has been deleted. -/
theorem deleted_block_returns :
    let hash := hashContent helloOutside (js "hello")
    let deleted := run helloOutside []
      [.store (js "hello") (some (js "a")) {} 0, .deferred 1, .delete hash (some (js "a"))]
    let later := [.retrieve hash (some (js "a")) 2, .deferred 3].foldl (step helloOutside) deleted
    (deleted.retrieveBlock helloOutside hash (some (js "a")) 2).1 = some (js "hello") ∧
      (later.retrieveBlock helloOutside hash (some (js "a")) 4).1 = some (js "hello") := by
  decide

end RedRouter.Compression.Ccr.Store
