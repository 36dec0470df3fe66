import RedRouter.Lib.Runs
import RedRouter.Compression.CcrMoves

/-!
# The accounting of the block store

`Ledger.Exact` says that the totals are the sums of the sizes of the entries,
that a principal has a total exactly when it is not zero, and that the caps are
kept.

A removal and a move keep it. A new entry that finds room keeps it when its
principal has bytes in the store afterwards (`addEntry_exact_iff`): an entry
without bytes leaves a total of zero for a principal that has no others. Only
the empty text has no bytes.
-/

namespace RedRouter.Compression.Ccr.Store

open List

open JsMap (weight)

variable {out : Outside} {s s' : Store} {key : JsString} {entry : CcrEntry}

def bytesFor (principalId : JsString) (entry : CcrEntry) : Nat :=
  if decide (entry.principalId = principalId) then entry.bytes else 0

theorem bytesFor_self (entry : CcrEntry) : bytesFor entry.principalId entry = entry.bytes := by
  simp [bytesFor]

theorem bytesFor_other {principalId : JsString} (h : entry.principalId ≠ principalId) :
    bytesFor principalId entry = 0 := by
  simp [bytesFor, h]

structure Ledger.Exact (l : Ledger) : Prop where
  keys : l.ccrStore.keys.Nodup
  total : l.ccrTotalBytes = weight (fun entry => entry.bytes) l.ccrStore
  principals : ∀ principalId, l.principalBytesMap.get principalId =
    if weight (bytesFor principalId) l.ccrStore = 0 then none
    else some (weight (bytesFor principalId) l.ccrStore)
  entries : l.ccrStore.length ≤ maxCcrEntries
  globalBytes : l.ccrTotalBytes ≤ maxCcrGlobalBytes
  principalBytes : ∀ principalId, weight (bytesFor principalId) l.ccrStore ≤ maxCcrPrincipalBytes

theorem exact_start (rows : List CcrBlockRow) : ({ rows := rows } : Store).ledger.Exact where
  keys := nodup_nil
  total := rfl
  principals := fun _ => rfl
  entries := Nat.zero_le _
  globalBytes := Nat.zero_le _
  principalBytes := fun _ => Nat.zero_le _

theorem principalBytes_eq (h : s.ledger.Exact) (principalId : JsString) :
    s.principalBytes principalId = weight (bytesFor principalId) s.ccrStore := by
  have hget : s.principalBytesMap.get principalId = _ := h.principals principalId
  unfold principalBytes
  rw [hget]
  show Option.getD (if weight (bytesFor principalId) s.ccrStore = 0 then none else _) 0 = _
  split
  · rename_i hzero
    exact hzero.symm
  · rfl

/-! ## Removals and moves -/

theorem subtractBytes_exact (h : s.ledger.Exact) (hget : s.ccrStore.get key = some entry) :
    ({ s with ccrStore := s.ccrStore.delete key }.subtractBytes entry).ledger.Exact := by
  have hkeys : s.ccrStore.keys.Nodup := h.keys
  have htotal := JsMap.weight_of_get (fun entry : CcrEntry => entry.bytes) hkeys hget
  have hgroup := fun p => JsMap.weight_of_get (bytesFor p) hkeys hget
  have hlength := JsMap.length_of_get hkeys hget
  have hold : s.ccrTotalBytes = weight (fun entry => entry.bytes) s.ccrStore := h.total
  have hremaining : s.principalBytes entry.principalId - entry.bytes =
      weight (bytesFor entry.principalId) (s.ccrStore.delete key) := by
    rw [principalBytes_eq h, hgroup, bytesFor_self, Nat.add_sub_cancel_left]
  have hother : ∀ p, entry.principalId ≠ p →
      weight (bytesFor p) s.ccrStore = weight (bytesFor p) (s.ccrStore.delete key) := by
    intro p hp
    rw [hgroup, bytesFor_other hp, Nat.zero_add]
  refine ⟨JsMap.nodup_keys_delete hkeys, ?_, ?_, ?_, ?_, ?_⟩
  · show s.ccrTotalBytes - entry.bytes = _
    rw [hold, htotal, Nat.add_sub_cancel_left]
    rfl
  · intro p
    show JsMap.get p (if s.principalBytes entry.principalId - entry.bytes = 0 then
        s.principalBytesMap.delete entry.principalId
      else s.principalBytesMap.set entry.principalId
        (s.principalBytes entry.principalId - entry.bytes)) =
      if weight (bytesFor p) (s.ccrStore.delete key) = 0 then none
      else some (weight (bytesFor p) (s.ccrStore.delete key))
    have hbefore : s.principalBytesMap.get p = _ := h.principals p
    rw [hremaining]
    by_cases hp : entry.principalId = p
    · subst hp
      split
      · rw [JsMap.get_delete, if_pos rfl]
      · rw [JsMap.get_set, if_pos rfl]
    · rw [← hother p hp]
      split
      · rw [JsMap.get_delete, if_neg hp, hbefore]
        rfl
      · rw [JsMap.get_set, if_neg hp, hbefore]
        rfl
  · have hentries : s.ccrStore.length ≤ maxCcrEntries := h.entries
    show (s.ccrStore.delete key).length ≤ maxCcrEntries
    omega
  · have hglobal : s.ccrTotalBytes ≤ maxCcrGlobalBytes := h.globalBytes
    show s.ccrTotalBytes - entry.bytes ≤ maxCcrGlobalBytes
    omega
  · intro p
    exact (JsMap.weight_delete_le (bytesFor p) hkeys).trans (h.principalBytes p)

theorem removeEntry_exact (h : s.ledger.Exact) (key : JsString) (reason : Option EvictReason) :
    (s.removeEntry out key reason).2.ledger.Exact := by
  cases hget : s.ccrStore.get key with
  | none =>
    rw [removeEntry_of_none reason hget]
    exact h
  | some entry =>
    rw [removeEntry_of_get reason hget]
    exact subtractBytes_exact h hget

theorem Removed.exact (h : Removed out s s') (hs : s.ledger.Exact) : s'.ledger.Exact :=
  h.invariant (fun s => s.ledger.Exact) (fun _ key reason hs => removeEntry_exact hs key reason) hs

theorem moveToEnd_exact {entry' : CcrEntry} (h : s.ledger.Exact)
    (hget : s.ccrStore.get key = some entry) (hbytes : entry'.bytes = entry.bytes)
    (hprincipal : entry'.principalId = entry.principalId) :
    (s.moveToEnd key entry').ledger.Exact := by
  have hkeys : s.ccrStore.keys.Nodup := h.keys
  have hgroup : ∀ p, weight (bytesFor p) ((s.ccrStore.delete key).set key entry') =
      weight (bytesFor p) s.ccrStore := by
    intro p
    refine JsMap.weight_reset (bytesFor p) hkeys hget ?_
    rw [bytesFor, bytesFor, hbytes, hprincipal]
  refine ⟨JsMap.nodup_keys_set (JsMap.nodup_keys_delete hkeys), ?_, ?_, ?_, h.globalBytes, ?_⟩
  · exact (h.total).trans (JsMap.weight_reset (fun entry => entry.bytes) hkeys hget hbytes).symm
  · intro p
    show s.principalBytesMap.get p =
      if weight (bytesFor p) ((s.ccrStore.delete key).set key entry') = 0 then none
      else some (weight (bytesFor p) ((s.ccrStore.delete key).set key entry'))
    rw [hgroup p]
    exact h.principals p
  · show ((s.ccrStore.delete key).set key entry').length ≤ maxCcrEntries
    rw [JsMap.length_reset hkeys hget]
    exact h.entries
  · intro p
    show weight (bytesFor p) ((s.ccrStore.delete key).set key entry') ≤ maxCcrPrincipalBytes
    rw [hgroup p]
    exact h.principalBytes p

/-! ## New entries -/

/-- There is room for an entry of the principal. -/
structure HasRoom (s : Store) (owner : JsString) (bytes : Nat) : Prop where
  entries : s.ccrStore.length < maxCcrEntries
  globalBytes : s.ccrTotalBytes + bytes ≤ maxCcrGlobalBytes
  principalBytes : s.principalBytes owner + bytes ≤ maxCcrPrincipalBytes

/-- A new entry is counted well when its principal has bytes afterwards. -/
theorem addEntry_exact_iff (entry : CcrEntry) (h : s.ledger.Exact) (hget : s.ccrStore.get key = none)
    (hroom : s.HasRoom entry.principalId entry.bytes) :
    (s.addEntry key entry).ledger.Exact ↔ 0 < s.principalBytes entry.principalId + entry.bytes := by
  have hkeys : s.ccrStore.keys.Nodup := h.keys
  have hown : weight (bytesFor entry.principalId) (s.ccrStore.set key entry) =
      s.principalBytes entry.principalId + entry.bytes := by
    rw [JsMap.weight_set_new _ entry hkeys hget, principalBytes_eq h, bytesFor_self, Nat.add_comm]
  have hother : ∀ p, entry.principalId ≠ p →
      weight (bytesFor p) (s.ccrStore.set key entry) = weight (bytesFor p) s.ccrStore := by
    intro p hp
    rw [JsMap.weight_set_new _ entry hkeys hget, bytesFor_other hp, Nat.zero_add]
  have hgetOwn : (s.addEntry key entry).principalBytesMap.get entry.principalId =
      some (s.principalBytes entry.principalId + entry.bytes) := by
    show (s.principalBytesMap.set entry.principalId _).get entry.principalId = _
    rw [JsMap.get_set, if_pos rfl]
  constructor
  · intro hexact
    have hprincipals : (s.addEntry key entry).principalBytesMap.get entry.principalId =
        if weight (bytesFor entry.principalId) (s.ccrStore.set key entry) = 0 then none
        else some (weight (bytesFor entry.principalId) (s.ccrStore.set key entry)) :=
      hexact.principals entry.principalId
    rw [hgetOwn] at hprincipals
    split at hprincipals
    · cases hprincipals
    · rename_i hzero
      omega
  · intro hpos
    refine ⟨JsMap.nodup_keys_set hkeys, ?_, ?_, ?_, hroom.globalBytes, ?_⟩
    · show s.ccrTotalBytes + entry.bytes = weight _ (s.ccrStore.set key entry)
      rw [JsMap.weight_set_new _ entry hkeys hget, Nat.add_comm]
      exact congrArg (entry.bytes + ·) h.total
    · intro p
      show (s.addEntry key entry).principalBytesMap.get p =
        if weight (bytesFor p) (s.ccrStore.set key entry) = 0 then none
        else some (weight (bytesFor p) (s.ccrStore.set key entry))
      by_cases hp : entry.principalId = p
      · subst hp
        rw [hgetOwn, hown, if_neg (by omega)]
      · rw [hother p hp]
        show (s.principalBytesMap.set entry.principalId _).get p = _
        rw [JsMap.get_set, if_neg hp]
        exact h.principals p
    · have hentries := hroom.entries
      show (s.ccrStore.set key entry).length ≤ maxCcrEntries
      rw [JsMap.length_set_new entry hkeys hget]
      omega
    · intro p
      show weight (bytesFor p) (s.ccrStore.set key entry) ≤ maxCcrPrincipalBytes
      by_cases hp : entry.principalId = p
      · subst hp
        rw [hown]
        exact hroom.principalBytes
      · rw [hother p hp]
        exact h.principalBytes p

/-! ## The budgets -/

theorem evictOldestMatching_some {predicate : CcrEntry → Bool} (hkeys : s.ccrStore.keys.Nodup)
    (h : s.evictOldestMatching out predicate = some s') :
    ∃ e, s.ccrStore.find? (fun e => predicate e.2) = some e ∧
      s'.ccrStore = s.ccrStore.delete e.1 ∧ s.ccrStore.length = s'.ccrStore.length + 1 := by
  obtain ⟨e, hfind, rfl⟩ := Option.map_eq_some_iff.mp h
  have hget : s.ccrStore.get e.1 = some e.2 :=
    JsMap.get_of_mem hkeys (mem_of_find?_eq_some hfind)
  have hstore := removeEntry_ccrStore out s e.1 (some .capacity)
  refine ⟨e, hfind, hstore, ?_⟩
  rw [hstore]
  exact JsMap.length_of_get hkeys hget

theorem evictOverBudget_spec {owner : JsString} {bytes rounds : Nat} (h : s.ledger.Exact)
    (hrounds : s.ccrStore.length ≤ rounds) :
    (evictOverBudget out owner bytes rounds s).ccrStore.length < maxCcrEntries := by
  induction rounds generalizing s with
  | zero =>
    rw [evictOverBudget]
    exact Nat.lt_of_le_of_lt hrounds (by decide)
  | succ rounds ih =>
    rw [evictOverBudget]
    split
    · split
      · rename_i s' hevict
        obtain ⟨e, -, -, hlength⟩ := evictOldestMatching_some h.keys hevict
        exact ih ((evictOldestMatching_removed hevict).exact h) (by omega)
      · split
        · rename_i s' hevict
          obtain ⟨e, -, -, hlength⟩ := evictOldestMatching_some h.keys hevict
          exact ih ((evictOldestMatching_removed hevict).exact h) (by omega)
        · rename_i hevict
          have hempty : s.ccrStore = [] := by
            cases hstore : s.ccrStore with
            | nil => rfl
            | cons e entries =>
              unfold evictOldestMatching at hevict
              rw [hstore, find?_cons_of_pos rfl] at hevict
              cases hevict
          rw [hempty]
          decide
    · rename_i hwithin
      simp only [overBudget, decide_eq_true_eq, not_or, Nat.not_le] at hwithin
      exact hwithin.1

theorem Removed.principalBytes_le (h : Removed out s s') (hs : s.ledger.Exact)
    (principalId : JsString) : s'.principalBytes principalId ≤ s.principalBytes principalId := by
  have hboth : s'.ledger.Exact ∧ s'.principalBytes principalId ≤ s.principalBytes principalId := by
    refine h.invariant (fun s' => s'.ledger.Exact ∧
      s'.principalBytes principalId ≤ s.principalBytes principalId) ?_ ⟨hs, Nat.le_refl _⟩
    intro s' key reason ⟨hexact, hle⟩
    have hnext : (s'.removeEntry out key reason).2.ledger.Exact :=
      removeEntry_exact hexact key reason
    refine ⟨hnext, ?_⟩
    rw [principalBytes_eq hnext, removeEntry_ccrStore]
    rw [principalBytes_eq hexact] at hle
    exact (JsMap.weight_delete_le _ hexact.keys).trans hle
  exact hboth.2

theorem makeRoom_hasRoom {owner : JsString} {bytes : Nat} {s₂ : Store} (h : s.ledger.Exact)
    (hroom : s.makeRoom out owner bytes = (none, s₂)) : s₂.HasRoom owner bytes := by
  have hprincipal : Removed out s (s.enforcePrincipalBudget out owner bytes).2 :=
    enforcePrincipalBudget_removed owner bytes
  have hexact := hprincipal.exact h
  unfold makeRoom at hroom
  dsimp only at hroom
  split at hroom
  · cases hroom
  · rename_i hfits
    split at hroom
    · cases hroom
    · rename_i hglobal
      obtain rfl := (Prod.mk.inj hroom).2
      rw [not_not] at hfits hglobal
      have hglobally : Removed out (s.enforcePrincipalBudget out owner bytes).2 _ :=
        enforceGlobalBudget_removed owner bytes
      have hle := hglobally.principalBytes_le hexact owner
      have howned : (s.enforcePrincipalBudget out owner bytes).2.principalBytes owner + bytes ≤
          maxCcrPrincipalBytes := of_decide_eq_true hfits
      exact ⟨evictOverBudget_spec hexact (Nat.le_refl _), of_decide_eq_true hglobal, by omega⟩

/-! ## Blocks without bytes -/

/-- The bytes that a principal keeps when a block without bytes comes to these
entries: when they are as many as there can be, its oldest one goes. -/
def keptBytes (principalId : JsString) (entries : JsMap JsString CcrEntry) : Nat :=
  let own := entries.filter fun e => decide (e.2.principalId = principalId)
  weight (fun entry => entry.bytes) (if maxCcrEntries ≤ entries.length then own.drop 1 else own)

theorem ownBytes_eq (h : s.ledger.Exact) (principalId : JsString) :
    s.principalBytes principalId = weight (fun entry => entry.bytes)
      (s.ccrStore.filter fun e => decide (e.2.principalId = principalId)) := by
  rw [principalBytes_eq h]
  exact JsMap.weight_group (fun entry : CcrEntry => entry.bytes)
    (fun entry => decide (entry.principalId = principalId)) s.ccrStore

theorem evictOverBudget_within {owner : JsString} {rounds : Nat} (h : s.ledger.Exact)
    (hentries : s.ccrStore.length < maxCcrEntries) :
    evictOverBudget out owner 0 rounds s = s := by
  cases rounds with
  | zero => rfl
  | succ rounds =>
    have hglobal : s.ccrTotalBytes ≤ maxCcrGlobalBytes := h.globalBytes
    have hwithin : ¬ s.overBudget 0 = true := by
      simp only [overBudget, decide_eq_true_eq]
      omega
    rw [evictOverBudget, if_neg hwithin]

theorem evictOverBudget_zero (out : Outside) {owner : JsString} {rounds : Nat} (h : s.ledger.Exact)
    (hrounds : s.ccrStore.length ≤ rounds) :
    (evictOverBudget out owner 0 rounds s).principalBytes owner = keptBytes owner s.ccrStore := by
  by_cases hfull : maxCcrEntries ≤ s.ccrStore.length
  · have hkeys : s.ccrStore.keys.Nodup := h.keys
    have hlimit : s.ccrStore.length ≤ maxCcrEntries := h.entries
    have hmost : 0 < maxCcrEntries := by decide
    obtain ⟨rounds, rfl⟩ : ∃ n, rounds = n + 1 := ⟨rounds - 1, by omega⟩
    have hover : s.overBudget 0 = true := decide_eq_true (.inl hfull)
    rw [evictOverBudget, if_pos hover, keptBytes, if_pos hfull]
    cases hevict : s.evictOldestMatching out fun entry => decide (entry.principalId = owner) with
    | some s' =>
      dsimp only
      have hexact := (evictOldestMatching_removed hevict).exact h
      obtain ⟨e, hfind, hstore, hlength⟩ := evictOldestMatching_some hkeys hevict
      rw [evictOverBudget_within hexact (by omega), ownBytes_eq hexact, hstore,
        JsMap.filter_delete_find hkeys hfind]
    | none =>
      dsimp only
      have hnone : s.ccrStore.filter (fun e => decide (e.2.principalId = owner)) = [] := by
        unfold evictOldestMatching at hevict
        rw [Option.map_eq_none_iff, find?_eq_none] at hevict
        exact filter_eq_nil_iff.mpr hevict
      have hzero : s.principalBytes owner = 0 := by
        rw [ownBytes_eq h, hnone]
        rfl
      rw [hnone]
      show _ = 0
      split
      · rename_i s' holdest
        have hremoved := evictOldestMatching_removed holdest
        obtain ⟨e, -, -, hlength⟩ := evictOldestMatching_some hkeys holdest
        rw [evictOverBudget_within (hremoved.exact h) (by omega)]
        have hle := hremoved.principalBytes_le h owner
        omega
      · exact hzero
  · rw [evictOverBudget_within h (by omega), keptBytes, ownBytes_eq h, if_neg hfull]

theorem makeRoom_zero (out : Outside) (owner : JsString) (h : s.ledger.Exact) :
    ∃ s₂, s.makeRoom out owner 0 = (none, s₂) ∧
      s₂.principalBytes owner = keptBytes owner s.ccrStore := by
  have hcap : s.principalBytes owner ≤ maxCcrPrincipalBytes := by
    rw [principalBytes_eq h]
    exact h.principalBytes owner
  have howned : evictOwned out owner 0 s.ccrStore.length s = s := by
    cases s.ccrStore.length with
    | zero => rfl
    | succ rounds => rw [evictOwned, if_neg (by omega)]
  have hprincipal : s.enforcePrincipalBudget out owner 0 = (true, s) := by
    unfold enforcePrincipalBudget
    dsimp only
    rw [howned, Nat.add_zero, decide_eq_true hcap]
  have hexact : (evictOverBudget out owner 0 s.ccrStore.length s).ledger.Exact :=
    (evictOverBudget_removed owner 0 _).exact h
  have hglobal : s.enforceGlobalBudget out owner 0 =
      (true, evictOverBudget out owner 0 s.ccrStore.length s) := by
    have hcap : (evictOverBudget out owner 0 s.ccrStore.length s).ccrTotalBytes ≤
        maxCcrGlobalBytes := hexact.globalBytes
    unfold enforceGlobalBudget
    dsimp only
    rw [Nat.add_zero, decide_eq_true hcap]
  refine ⟨_, ?_, evictOverBudget_zero out h (Nat.le_refl _)⟩
  unfold makeRoom
  rw [hprincipal]
  dsimp only
  rw [hglobal]
  rfl

/-! ## Steps -/

/-- There is an entry under the key that is not expired. -/
def isActive (s : Store) (key : JsString) (now : Int) : Bool :=
  ((s.ccrStore.get key).filter fun entry => decide (¬ entry.expiresAt ≤ now)).isSome

theorem purgeExpired_ccrStore (h : s.ledger.Exact) (now : Int) : (s.purgeExpired out now).ccrStore =
      s.ccrStore.filter fun e => decide (¬ e.2.expiresAt ≤ now) := by
  have hkeys : s.ccrStore.keys.Nodup := h.keys
  have hloop : ∀ (entries : JsMap JsString CcrEntry) (s' : Store), (entries.foldl (fun s e =>
        if e.2.expiresAt ≤ now then (s.removeEntry out e.1 (some .expired)).2 else s) s').ccrStore =
      entries.foldl (fun m e => if decide (e.2.expiresAt ≤ now) then m.delete e.1 else m)
        s'.ccrStore := by
    intro entries
    induction entries with
    | nil => exact fun _ => rfl
    | cons e entries ih =>
      intro s'
      rw [foldl_cons, foldl_cons, ih]
      by_cases hexpired : e.2.expiresAt ≤ now
      · rw [if_pos hexpired, decide_eq_true hexpired, if_pos rfl, removeEntry_ccrStore]
      · rw [if_neg hexpired, decide_eq_false hexpired, if_neg Bool.false_ne_true]
  unfold purgeExpired
  rw [hloop, JsMap.foldl_delete _ hkeys]
  refine filter_congr fun e _ => ?_
  rw [decide_not]

theorem purgeExpired_get (h : s.ledger.Exact) (key : JsString) (now : Int) :
    (s.purgeExpired out now).ccrStore.get key =
      (s.ccrStore.get key).filter fun entry => decide (¬ entry.expiresAt ≤ now) := by
  rw [purgeExpired_ccrStore h]
  exact JsMap.get_filter (fun entry : CcrEntry => decide (¬ entry.expiresAt ≤ now)) key h.keys

variable (out) in
/-- The event brings a block without bytes only to a principal that keeps
others. -/
def Countable (s : Store) : Event → Prop
  | .store text principalId _ now =>
      text = [] → s.isActive (buildStoreKey (hashContent out text) principalId) now = false →
        0 < keptBytes (owner principalId)
          (s.ccrStore.filter fun e => decide (¬ e.2.expiresAt ≤ now))
  | .retrieve hash principalId now =>
      ∀ row, s.durableRow out hash principalId now = some row → row.bytes = 0 →
        s.isActive (buildStoreKey hash principalId) now = false →
          0 < keptBytes (owner principalId) (s.ccrStore.delete (buildStoreKey hash principalId))
  | _ => True

theorem tryStoreBlock_exact_iff (h : s.ledger.Exact) (text : JsString)
    (principalId : Option JsString) (options : StoreCcrBlockOptions) (now : Int) :
    (s.tryStoreBlock out text principalId options now).2.ledger.Exact ↔
      s.Countable out (.store text principalId options now) := by
  have hpurged : (s.purgeExpired out now).ledger.Exact := (purgeExpired_removed now).exact h
  rcases tryStoreBlock_cases out s text principalId options now with
    ⟨existing, hget, heq⟩ | ⟨hget, ⟨s₂, reason, hremoved, hwhy, heq⟩ | ⟨s₂, hroom, metadata, heq⟩⟩
  · refine iff_of_true ?_ ?_
    · rw [heq]
      exact moveToEnd_exact hpurged hget rfl rfl
    · intro _ hinactive
      rw [purgeExpired_get h] at hget
      rw [isActive, hget] at hinactive
      cases hinactive
  · refine iff_of_true ?_ ?_
    · rw [heq]
      exact hremoved.exact hpurged
    · intro hempty
      subst hempty
      rcases hwhy with hlarge | hroom
      · exact absurd hlarge (Nat.not_lt_zero _)
      · obtain ⟨s₃, hzero, -⟩ := makeRoom_zero out (owner principalId) hpurged
        rw [show (newEntry out [] principalId options now).bytes = 0 from rfl, hzero] at hroom
        cases hroom
  · have hremoved : Removed out (s.purgeExpired out now) s₂ := .of_makeRoom hroom
    have hadd := addEntry_exact_iff (newEntry out text principalId options now)
      (hremoved.exact hpurged) (hremoved.get_none hget) (makeRoom_hasRoom hpurged hroom)
    rw [heq]
    show (persistEntry out _ _).ledger.Exact ↔ _
    rw [(persistEntry_eq out _ _).1, hadd]
    have hinactive : s.isActive (buildStoreKey (hashContent out text) principalId) now = false := by
      rw [purgeExpired_get h] at hget
      rw [isActive, hget]
      rfl
    by_cases hempty : text = []
    · subst hempty
      obtain ⟨s₃, hzero, hkept⟩ := makeRoom_zero out (owner principalId) hpurged
      rw [show (newEntry out [] principalId options now).bytes = 0 from rfl, hzero] at hroom
      obtain rfl := (Prod.mk.inj hroom).2
      show 0 < s₃.principalBytes (owner principalId) + 0 ↔ _
      rw [Nat.add_zero, hkept, purgeExpired_ccrStore h]
      exact ⟨fun hpos _ _ => hpos, fun hcountable => hcountable rfl hinactive⟩
    · have hbytes : 0 < (newEntry out text principalId options now).bytes :=
        length_pos_of_ne_nil (utf8_ne_nil hempty)
      exact iff_of_true (by omega) fun hnil => absurd hnil hempty

theorem retrieveBlock_exact_iff (h : s.ledger.Exact) (hash : JsString)
    (principalId : Option JsString) (now : Int) :
    (s.retrieveBlock out hash principalId now).2.ledger.Exact ↔
      s.Countable out (.retrieve hash principalId now) := by
  rcases retrieveBlock_cases out s hash principalId now with
    ⟨entry, hget, hactive, heq⟩ | ⟨hexpired, s₁, hremoved, hstore, heq⟩
  · rw [heq]
    refine iff_of_true (moveToEnd_exact h hget rfl rfl) ?_
    intro row _ _ hinactive
    simp [isActive, hget, hactive] at hinactive
  · have hexact := hremoved.exact h
    have hinactive : s.isActive (buildStoreKey hash principalId) now = false := by
      unfold isActive
      cases hget : s.ccrStore.get (buildStoreKey hash principalId) with
      | none => rfl
      | some entry => simp [hexpired entry hget]
    have hnone : s₁.ccrStore.get (buildStoreKey hash principalId) = none := by
      rw [hstore, JsMap.get_delete, if_pos rfl]
    rw [heq]
    dsimp only [Countable]
    rw [← durableRow_congr out hremoved.table hash principalId now, ← hstore]
    rcases rehydrateEntry_cases out s₁ hash principalId now with
      ⟨hrow, -, hsame | hdeleted⟩ |
      ⟨row, -, -, hrow, -, ⟨reason, s₂, hroom, hstate⟩ | ⟨s₂, hroom, hstate⟩⟩
    · refine iff_of_true ?_ (by simp [hrow])
      rw [hsame]
      exact hexact
    · refine iff_of_true ?_ (by simp [hrow])
      rw [hdeleted]
      exact hexact
    · refine iff_of_true ?_ ?_
      · rw [hstate]
        exact (Removed.of_makeRoom hroom).exact hexact
      · intro row' hrow' hbytes
        rw [hrow] at hrow'
        obtain rfl := Option.some.inj hrow'
        obtain ⟨s₃, hzero, -⟩ := makeRoom_zero out (owner principalId) hexact
        rw [show row.bytes = 0 from hbytes, hzero] at hroom
        cases hroom
    · have hmade : Removed out s₁ s₂ := .of_makeRoom hroom
      rw [hstate]
      show (s₂.addEntry _ _).ledger.Exact ↔ _
      rw [addEntry_exact_iff _ (hmade.exact hexact) (hmade.get_none hnone)
        (makeRoom_hasRoom hexact hroom), hrow]
      show 0 < s₂.principalBytes (owner principalId) + row.bytes ↔ _
      by_cases hbytes : row.bytes = 0
      · obtain ⟨s₃, hzero, hkept⟩ := makeRoom_zero out (owner principalId) hexact
        rw [hbytes, hzero] at hroom
        obtain rfl := (Prod.mk.inj hroom).2
        rw [hbytes, Nat.add_zero, hkept]
        constructor
        · exact fun hpos _ _ _ _ => hpos
        · exact fun hcountable => hcountable _ rfl rfl hinactive
      · refine iff_of_true (by omega) ?_
        intro row' hrow' hzero
        obtain rfl := Option.some.inj hrow'
        exact absurd hzero hbytes

theorem runDeferred_ledger (now : Int) : (s.runDeferred out now).ledger = s.ledger := by
  unfold runDeferred
  split
  · rfl
  · dsimp only
    split
    · unfold performWork
      split
      · exact (persistCcrBlock_spec out _ _ _).1
      · rfl
    · rfl

/-- One step keeps the accounts exact when it is countable, and only then. -/
theorem step_exact_iff (event : Event) (h : s.ledger.Exact) :
    (s.step out event).ledger.Exact ↔ s.Countable out event := by
  cases event with
  | store text principalId options now => exact tryStoreBlock_exact_iff h text principalId options now
  | retrieve hash principalId now => exact retrieveBlock_exact_iff h hash principalId now
  | delete hash principalId =>
    refine iff_of_true ?_ trivial
    show (s.deleteCcrBlock out hash principalId).2.ledger.Exact
    rw [deleteCcrBlock_snd, forgetEntry_ledger]
    exact removeEntry_exact h _ _
  | inspect hash principalId now =>
    refine iff_of_true ?_ trivial
    show (s.getActiveEntry out (buildStoreKey hash principalId) now).2.ledger.Exact
    rcases getActiveEntry_cases out s (buildStoreKey hash principalId) now with
      ⟨entry, -, -, heq⟩ | ⟨-, s₁, heq, hremoved, -⟩
    · rw [heq]
      exact h
    · rw [heq]
      exact hremoved.exact h
  | stats principalId now => exact iff_of_true ((purgeExpired_removed now).exact h) trivial
  | recordRetrieval hash principalId => exact iff_of_true h trivial
  | deferred now =>
    refine iff_of_true ?_ trivial
    show (s.runDeferred out now).ledger.Exact
    rw [runDeferred_ledger]
    exact h
  | cleanup now =>
    refine iff_of_true ?_ trivial
    show (if s.usable then s.pruneExpiredCcrBlocks now else s).ledger.Exact
    split <;> exact h
  | database usable => exact iff_of_true h trivial

/-- The accounts are exact in every state of a run exactly when every event of
it is countable in the store it comes to. -/
theorem exact_iff_countable (out : Outside) (rows : List CcrBlockRow) (events : List Event) :
    (∀ before, before <+: events → (run out rows before).ledger.Exact) ↔
      ∀ before event, before ++ [event] <+: events → (run out rows before).Countable out event :=
  Runs.prefixes_iff (fun s : Store => s.ledger.Exact) (fun _ event h => step_exact_iff event h)
    (exact_start rows) events

/-- The SHA-256 of the empty text. -/
def emptyDigest : List UInt8 :=
  [0xe3, 0xb0, 0xc4, 0x42, 0x98, 0xfc, 0x1c, 0x14, 0x9a, 0xfb, 0xf4, 0xc8, 0x99, 0x6f, 0xb9, 0x24,
    0x27, 0xae, 0x41, 0xe4, 0x64, 0x9b, 0x93, 0x4c, 0xa4, 0x95, 0x99, 0x1b, 0x78, 0x52, 0xb8, 0x55]

/-- The empty text leaves its principal with a total of zero bytes. -/
theorem empty_block_miscounted : ¬ (run ⟨fun _ => emptyDigest, id, true⟩ []
      [.store [] (some (js "a")) {} 0]).ledger.Exact := by
  intro h
  have hget := h.principals (js "a")
  revert hget
  decide

end RedRouter.Compression.Ccr.Store
