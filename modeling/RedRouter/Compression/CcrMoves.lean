import RedRouter.Lib.WeightedMap
import RedRouter.Compression.CcrStore

/-!
# What the operations do to the block store

The store has two parts that hardly meet.  `ledger` is the map with its totals,
and `table` is the table with the state of the database.  The deferred writes
are between them.

Entries leave the map by `removeEntry` only.  `Removed` says that a store comes
from another one by removals, and `Removed.invariant` is the rule for a
property that a removal keeps.  The expiry, the evictions and the two budgets
are removals.
-/

namespace RedRouter.Compression.Ccr.Store

/-- The map and its totals. -/
structure Ledger where
  ccrStore : JsMap JsString CcrEntry
  principalBytesMap : JsMap JsString Nat
  ccrTotalBytes : Nat

def ledger (s : Store) : Ledger := ⟨s.ccrStore, s.principalBytesMap, s.ccrTotalBytes⟩

/-- The table and the state of the database. -/
structure Table where
  rows : List CcrBlockRow
  usable : Bool

def table (s : Store) : Table := ⟨s.rows, s.usable⟩

variable {out : Outside} {s s' s'' : Store} {key : JsString} {entry : CcrEntry}

/-! ## Deferred writes -/

theorem forgetEntry_eq (out : Outside) (s : Store) (hash principalId : JsString) :
    s.forgetEntry out hash principalId = s ∨
      s.forgetEntry out hash principalId =
        { s with deferred := s.deferred ++ [.delete principalId hash] } := by
  unfold forgetEntry deferDurable
  split
  · exact .inl rfl
  · right
    simp

theorem forgetEntry_of_durable (h : out.durableTierEnabled = true) (hash principalId : JsString) :
    s.forgetEntry out hash principalId =
      { s with deferred := s.deferred ++ [.delete principalId hash] } := by
  simp [forgetEntry, deferDurable, h]

theorem forgetEntry_ledger (hash principalId : JsString) :
    (s.forgetEntry out hash principalId).ledger = s.ledger := by
  rcases forgetEntry_eq out s hash principalId with h | h
  · rw [h]
  · rw [h]
    rfl

theorem forgetEntry_table (hash principalId : JsString) :
    (s.forgetEntry out hash principalId).table = s.table := by
  rcases forgetEntry_eq out s hash principalId with h | h
  · rw [h]
  · rw [h]
    rfl

theorem forgetEntry_deferred (out : Outside) (s : Store) (hash principalId : JsString) :
    (s.forgetEntry out hash principalId).deferred = s.deferred ∨
      (s.forgetEntry out hash principalId).deferred = s.deferred ++ [.delete principalId hash] :=
  (forgetEntry_eq out s hash principalId).imp (congrArg deferred) (congrArg deferred)

theorem persistEntry_eq (out : Outside) (s : Store) (entry : CcrEntry) :
    (s.persistEntry out entry).ledger = s.ledger ∧ (s.persistEntry out entry).table = s.table ∧
      ((s.persistEntry out entry).deferred = s.deferred ∨
        (s.persistEntry out entry).deferred = s.deferred ++ [.persist entry]) := by
  unfold persistEntry deferDurable
  split
  · exact ⟨rfl, rfl, .inl rfl⟩
  · split
    · exact ⟨rfl, rfl, .inl rfl⟩
    · split
      · exact ⟨rfl, rfl, .inl rfl⟩
      · exact ⟨rfl, rfl, .inr rfl⟩

/-- A row takes the place of the one with its names, and the rest stays, or is
pruned. -/
theorem persistCcrBlock_spec (out : Outside) (s : Store) (row : CcrBlockRow) (now : Int) :
    (s.persistCcrBlock out row now).ledger = s.ledger ∧
      (s.persistCcrBlock out row now).deferred = s.deferred ∧
      (s.persistCcrBlock out row now).usable = s.usable ∧
      ∀ row' ∈ (s.persistCcrBlock out row now).rows, row' ∈ s.rows ∨ row' = columns out row := by
  have hrows : ∀ row' ∈ (s.deleteCcrBlockRow out row.principalId row.hash).rows ++ [columns out row],
      row' ∈ s.rows ∨ row' = columns out row := by
    intro row' hrow'
    rcases List.mem_append.mp hrow' with hrow' | hrow'
    · exact .inl (List.mem_of_mem_filter hrow')
    · exact .inr (List.mem_singleton.mp hrow')
  unfold persistCcrBlock
  dsimp only
  split
  · exact ⟨rfl, rfl, rfl, fun row' hrow' => hrows row' (List.mem_of_mem_filter hrow')⟩
  · exact ⟨rfl, rfl, rfl, hrows⟩

/-! ## Removals -/

variable (reason : Option EvictReason)

theorem removeEntry_of_none (h : s.ccrStore.get key = none) :
    (s.removeEntry out key reason).2 = s := by
  rw [removeEntry, h]

theorem removeEntry_of_get (h : s.ccrStore.get key = some entry) :
    (s.removeEntry out key reason).2.ledger =
      ({ s with ccrStore := s.ccrStore.delete key }.subtractBytes entry).ledger := by
  rw [removeEntry, h]
  cases reason with
  | none => rfl
  | some reason =>
    cases reason with
    | expired => exact forgetEntry_ledger _ _
    | capacity => rfl

theorem removeEntry_ccrStore (out : Outside) (s : Store) (key : JsString)
    (reason : Option EvictReason) :
    (s.removeEntry out key reason).2.ccrStore = s.ccrStore.delete key := by
  cases hget : s.ccrStore.get key with
  | none => rw [removeEntry_of_none reason hget, JsMap.delete_of_get_none hget]
  | some entry => exact congrArg Ledger.ccrStore (removeEntry_of_get reason hget)

theorem removeEntry_table : (s.removeEntry out key reason).2.table = s.table := by
  cases hget : s.ccrStore.get key with
  | none => rw [removeEntry_of_none reason hget]
  | some entry =>
    rw [removeEntry, hget]
    cases reason with
    | none => rfl
    | some reason =>
      cases reason with
      | expired => exact forgetEntry_table _ _
      | capacity => rfl

theorem removeEntry_deferred (out : Outside) (s : Store) (key : JsString)
    (reason : Option EvictReason) :
    (s.removeEntry out key reason).2.deferred = s.deferred ∨
      ∃ principalId hash, (s.removeEntry out key reason).2.deferred =
        s.deferred ++ [.delete principalId hash] := by
  cases hget : s.ccrStore.get key with
  | none => exact .inl (by rw [removeEntry_of_none reason hget])
  | some entry =>
    rw [removeEntry, hget]
    cases reason with
    | none => exact .inl rfl
    | some reason =>
      cases reason with
      | capacity => exact .inl rfl
      | expired =>
        rcases forgetEntry_deferred out _ entry.hash entry.principalId with h | h
        · exact .inl h
        · exact .inr ⟨_, _, h⟩

/-- The second store is the first one after some removals. -/
inductive Removed (out : Outside) (s : Store) : Store → Prop where
  | refl : Removed out s s
  | step {s' : Store} (key : JsString) (reason : Option EvictReason) :
      Removed out s s' → Removed out s (s'.removeEntry out key reason).2

theorem Removed.trans (h : Removed out s s') (h' : Removed out s' s'') : Removed out s s'' := by
  induction h' with
  | refl => exact h
  | step key reason _ ih => exact ih.step key reason

theorem Removed.invariant (P : Store → Prop)
    (hremove : ∀ s key reason, P s → P (s.removeEntry out key reason).2)
    (h : Removed out s s') (hs : P s) : P s' := by
  induction h with
  | refl => exact hs
  | step key reason _ ih => exact hremove _ key reason ih

theorem Removed.table (h : Removed out s s') : s'.table = s.table :=
  h.invariant (fun s' => s'.table = s.table)
    (fun _ _ reason hs => (removeEntry_table reason).trans hs) rfl

theorem Removed.get_none (h : Removed out s s') (hs : s.ccrStore.get key = none) :
    s'.ccrStore.get key = none := by
  refine h.invariant (fun s' => s'.ccrStore.get key = none) ?_ hs
  intro s key' reason hnone
  rw [removeEntry_ccrStore, JsMap.get_delete]
  split
  · rfl
  · exact hnone

/-! ## Expiry and eviction -/

theorem purgeExpired_removed (now : Int) : Removed out s (s.purgeExpired out now) := by
  suffices h : ∀ (entries : JsMap JsString CcrEntry) (s' : Store), Removed out s s' →
      Removed out s (entries.foldl (fun s e =>
        if e.2.expiresAt ≤ now then (s.removeEntry out e.1 (some .expired)).2 else s) s') from
    h s.ccrStore s .refl
  intro entries
  induction entries with
  | nil => exact fun _ h => h
  | cons e entries ih =>
    intro s' h
    rw [List.foldl_cons]
    split
    · exact ih _ (h.step e.1 (some .expired))
    · exact ih _ h

theorem evictOldestMatching_removed {predicate : CcrEntry → Bool}
    (h : s.evictOldestMatching out predicate = some s') : Removed out s s' := by
  obtain ⟨e, -, rfl⟩ := Option.map_eq_some_iff.mp h
  exact Removed.refl.step e.1 (some .capacity)

theorem evictOwned_removed (owner : JsString) (bytes rounds : Nat) :
    Removed out s (evictOwned out owner bytes rounds s) := by
  induction rounds generalizing s with
  | zero => exact .refl
  | succ rounds ih =>
    rw [evictOwned]
    split
    · split
      · exact .refl
      · rename_i s' hevict
        exact (evictOldestMatching_removed hevict).trans ih
    · exact .refl

theorem evictOverBudget_removed (owner : JsString) (bytes rounds : Nat) :
    Removed out s (evictOverBudget out owner bytes rounds s) := by
  induction rounds generalizing s with
  | zero => exact .refl
  | succ rounds ih =>
    rw [evictOverBudget]
    split
    · split
      · rename_i s' hevict
        exact (evictOldestMatching_removed hevict).trans ih
      · split
        · rename_i s' hevict
          exact (evictOldestMatching_removed hevict).trans ih
        · exact .refl
    · exact .refl

theorem enforcePrincipalBudget_removed (owner : JsString) (bytes : Nat) :
    Removed out s (s.enforcePrincipalBudget out owner bytes).2 :=
  evictOwned_removed owner bytes _

theorem enforceGlobalBudget_removed (owner : JsString) (bytes : Nat) :
    Removed out s (s.enforceGlobalBudget out owner bytes).2 :=
  evictOverBudget_removed owner bytes _

theorem makeRoom_removed (owner : JsString) (bytes : Nat) :
    Removed out s (s.makeRoom out owner bytes).2 := by
  have hprincipal : Removed out s (s.enforcePrincipalBudget out owner bytes).2 :=
    enforcePrincipalBudget_removed owner bytes
  unfold makeRoom
  dsimp only
  split
  · exact hprincipal
  · split <;> exact hprincipal.trans (enforceGlobalBudget_removed owner bytes)

theorem Removed.of_makeRoom {owner : JsString} {bytes : Nat} {reason : Option RejectReason}
    (hroom : s.makeRoom out owner bytes = (reason, s')) : Removed out s s' := by
  have hmade : Removed out s (s.makeRoom out owner bytes).2 := makeRoom_removed owner bytes
  rw [hroom] at hmade
  exact hmade

/-! ## Store and retrieve -/

/-- A block that is stored again is renewed, and a new one is rejected, or put
into the room that was made for it. -/
theorem tryStoreBlock_cases (out : Outside) (s : Store) (text : JsString)
    (principalId : Option JsString) (options : StoreCcrBlockOptions) (now : Int) :
    let hash := hashContent out text
    let key := buildStoreKey hash principalId
    let entry := newEntry out text principalId options now
    let s₁ := s.purgeExpired out now
    (∃ existing, s₁.ccrStore.get key = some existing ∧
        let renewed := { existing with lastAccessedAt := now, expiresAt := entry.expiresAt }
        s.tryStoreBlock out text principalId options now =
          (.stored hash (s₁.publicMetadata renewed), s₁.moveToEnd key renewed)) ∨
      s₁.ccrStore.get key = none ∧
        ((∃ s₂ reason, Removed out s₁ s₂ ∧
            (maxCcrBlockBytes < entry.bytes ∨
              s₁.makeRoom out (owner principalId) entry.bytes = (some reason, s₂)) ∧
            s.tryStoreBlock out text principalId options now =
              s₂.rejectStore hash (owner principalId) reason) ∨
          ∃ s₂, s₁.makeRoom out (owner principalId) entry.bytes = (none, s₂) ∧
            ∃ metadata, s.tryStoreBlock out text principalId options now =
              (.stored hash metadata, (s₂.addEntry key entry).persistEntry out entry)) := by
  intro hash key entry s₁
  unfold tryStoreBlock
  dsimp only
  cases hget : s₁.ccrStore.get key with
  | some existing =>
    left
    exact ⟨existing, rfl, rfl⟩
  | none =>
    right
    refine ⟨rfl, ?_⟩
    dsimp only
    split
    · rename_i hlarge
      exact .inl ⟨s₁, _, .refl, .inl hlarge, rfl⟩
    · split
      · rename_i reason s₂ hroom
        exact .inl ⟨s₂, reason, .of_makeRoom hroom, .inr hroom, rfl⟩
      · rename_i s₂ hroom
        exact .inr ⟨s₂, hroom, _, rfl⟩

/-- The entry is there and not expired, or it is not there afterwards. -/
theorem getActiveEntry_cases (out : Outside) (s : Store) (key : JsString) (now : Int) :
    (∃ entry, s.ccrStore.get key = some entry ∧ ¬ entry.expiresAt ≤ now ∧
        s.getActiveEntry out key now = (some entry, s)) ∨
      (∀ entry, s.ccrStore.get key = some entry → entry.expiresAt ≤ now) ∧
        ∃ s₁, s.getActiveEntry out key now = (none, s₁) ∧ Removed out s s₁ ∧
          s₁.ccrStore = s.ccrStore.delete key := by
  unfold getActiveEntry
  cases hget : s.ccrStore.get key with
  | none =>
    refine .inr ⟨fun _ h => (Option.some_ne_none _ h.symm).elim, s, rfl, .refl, ?_⟩
    exact (JsMap.delete_of_get_none hget).symm
  | some entry =>
    dsimp only
    by_cases hexpired : entry.expiresAt ≤ now
    · rw [if_pos hexpired]
      refine .inr ⟨fun _ h => Option.some.inj h ▸ hexpired, _, rfl, ?_, removeEntry_ccrStore ..⟩
      exact Removed.refl.step key (some .expired)
    · rw [if_neg hexpired]
      exact .inl ⟨entry, rfl, hexpired, rfl⟩

/-- The row of a block that the second tier can give back. -/
def durableRow (out : Outside) (s : Store) (hash : JsString) (principalId : Option JsString)
    (now : Int) : Option CcrBlockRow :=
  if out.durableTierEnabled ∧ s.usable then (s.loadCcrBlock out (owner principalId) hash now).1
  else none

theorem durableRow_congr (out : Outside) (h : s'.table = s.table) (hash : JsString) (principalId : Option JsString)
    (now : Int) : s'.durableRow out hash principalId now = s.durableRow out hash principalId now := by
  have hrows : s'.rows = s.rows := congrArg Table.rows h
  have husable : s'.usable = s.usable := congrArg Table.usable h
  unfold durableRow loadCcrBlock
  rw [hrows, husable]
  split
  · split
    · rfl
    · split <;> rfl
  · rfl

theorem rehydrateEntry_cases (out : Outside) (s : Store) (hash : JsString)
    (principalId : Option JsString) (now : Int) :
    s.durableRow out hash principalId now = none ∧
        (s.rehydrateEntry out hash principalId now).1 = none ∧
        ((s.rehydrateEntry out hash principalId now).2 = s ∨
          (s.rehydrateEntry out hash principalId now).2 =
            s.deleteCcrBlockRow out (owner principalId) hash) ∨
      ∃ row ∈ s.rows, isRowOf out (owner principalId) hash row = true ∧
        let entry := { row with
          principalId := owner principalId, hash := hash, lastAccessedAt := now }
        s.durableRow out hash principalId now =
            some { row with principalId := owner principalId, hash := hash } ∧
          (s.rehydrateEntry out hash principalId now).1 = some entry ∧
          ((∃ reason s₂, s.makeRoom out (owner principalId) row.bytes = (some reason, s₂) ∧
              (s.rehydrateEntry out hash principalId now).2 =
                s₂.touchCcrBlock out (owner principalId) hash now) ∨
            ∃ s₂, s.makeRoom out (owner principalId) row.bytes = (none, s₂) ∧
              (s.rehydrateEntry out hash principalId now).2 =
                (s₂.addEntry (buildStoreKey hash principalId) entry).touchCcrBlock out
                  (owner principalId) hash now) := by
  unfold rehydrateEntry durableRow loadCcrBlock
  by_cases htier : out.durableTierEnabled = true ∧ s.usable = true
  · rw [if_neg (not_not.mpr htier), if_pos htier]
    cases hfind : s.rows.find? (isRowOf out (owner principalId) hash) with
    | none => exact .inl ⟨rfl, rfl, .inl rfl⟩
    | some row =>
      dsimp only
      by_cases hexpired : row.expiresAt ≤ now
      · rw [if_pos hexpired]
        exact .inl ⟨rfl, rfl, .inr rfl⟩
      · rw [if_neg hexpired]
        refine .inr ⟨row, List.mem_of_find?_eq_some hfind, List.find?_some hfind, rfl, rfl, ?_⟩
        dsimp only
        cases hroom : s.makeRoom out (owner principalId) row.bytes with
        | mk reason s₂ =>
          cases reason with
          | some reason => exact .inl ⟨reason, s₂, rfl, rfl⟩
          | none => exact .inr ⟨s₂, rfl, rfl⟩
  · rw [if_pos htier, if_neg htier]
    exact .inl ⟨rfl, rfl, .inl rfl⟩

theorem retrieveBlock_cases (out : Outside) (s : Store) (hash : JsString)
    (principalId : Option JsString) (now : Int) :
    let key := buildStoreKey hash principalId
    (∃ entry, s.ccrStore.get key = some entry ∧ ¬ entry.expiresAt ≤ now ∧
        s.retrieveBlock out hash principalId now =
          (some entry.content, s.moveToEnd key { entry with lastAccessedAt := now })) ∨
      (∀ entry, s.ccrStore.get key = some entry → entry.expiresAt ≤ now) ∧
        ∃ s₁, Removed out s s₁ ∧ s₁.ccrStore = s.ccrStore.delete key ∧
          s.retrieveBlock out hash principalId now =
            ((s₁.rehydrateEntry out hash principalId now).1.map fun entry => entry.content,
              (s₁.rehydrateEntry out hash principalId now).2) := by
  intro key
  unfold retrieveBlock
  rcases getActiveEntry_cases out s key now with
    ⟨entry, hget, hactive, heq⟩ | ⟨hexpired, s₁, heq, hremoved, hstore⟩
  · left
    refine ⟨entry, hget, hactive, ?_⟩
    dsimp only
    rw [heq]
  · right
    refine ⟨hexpired, s₁, hremoved, hstore, ?_⟩
    dsimp only
    rw [heq]

theorem deleteCcrBlock_snd (out : Outside) (s : Store) (hash : JsString)
    (principalId : Option JsString) :
    (s.deleteCcrBlock out hash principalId).2 =
      (s.removeEntry out (buildStoreKey hash principalId) none).2.forgetEntry out hash
        (owner principalId) := rfl

end RedRouter.Compression.Ccr.Store
