import Mathlib.Data.Set.Function
import RedRouter.Lib.Runs
import RedRouter.Lib.Separators
import RedRouter.Lib.WeightedMap
import RedRouter.Compression.LiveZone

/-!
# The stability of the kept output

Two things hold in every state of the cache.

* `Counted` says that the total is the sum of the sizes, and `WithinCaps` that
  the caps are kept.  An entry is stored before the oldest ones are pruned, so
  the caps hold after the pruning only.
* `Sound` traces every entry back to an answer: the entry has the digests of
  the request and the items of the answer, and its key is the one of the
  request.  What a request that waits for the engine is going to reuse is such
  an entry too, and fits the request.

The key ends with the field and the digest of the variant, and neither has a
colon, so that requests with one key agree in both (`makeKey_inj`).
-/

namespace RedRouter.Compression.LiveZone

open List JsValue
open JsMap (weight)
open Separators

variable {out : Outside}

/-! ## Keys -/

theorem colon_not_mem_digest (value : JsValue) : unit ':' ∉ digest out value :=
  not_mem_hex (by decide) _

theorem colon_not_mem_name (field : Field) : unit ':' ∉ field.name := by
  cases field with
  | messages => decide
  | input => decide

variable {field : Field}

theorem name_inj {field' : Field} (h : field.name = field'.name) : field = field' := by
  revert h
  cases field with
  | messages =>
    cases field' with
    | messages => exact fun _ => rfl
    | input =>
      intro h
      exact absurd h (by decide)
  | input =>
    cases field' with
    | messages =>
      intro h
      exact absurd h (by decide)
    | input => exact fun _ => rfl

variable {options : LiveZoneOptions}

theorem makeKey_eq_some {key : JsString} (h : makeKey out options field = some key) :
    ∃ names, names ≠ [] ∧
      key = (names ++ ([unit ':'] ++ field.name)) ++ ([unit ':'] ++ digest out options.variant) := by
  have hcolon : js ":" = [unit ':'] := by decide
  unfold makeKey at h
  split at h
  · rename_i principal session hprincipal hsession
    rw [← Option.some.inj h, hcolon]
    refine ⟨principal ++ [unit ':'] ++ session, by simp, ?_⟩
    simp only [append_assoc]
  · cases h

/-- Requests with one key agree in the field and in the digest of the variant. -/
theorem makeKey_inj {options' : LiveZoneOptions} {field' : Field} {key : JsString}
    (h : makeKey out options field = some key) (h' : makeKey out options' field' = some key) :
    field = field' ∧ digest out options.variant = digest out options'.variant := by
  obtain ⟨names, -, hkey⟩ := makeKey_eq_some h
  obtain ⟨names', -, hkey'⟩ := makeKey_eq_some h'
  obtain ⟨hfront, hvariant⟩ := separated_inj_last (colon_not_mem_digest _)
    (colon_not_mem_digest _) (hkey.symm.trans hkey')
  obtain ⟨-, hfield⟩ := separated_inj_last (colon_not_mem_name _) (colon_not_mem_name _) hfront
  exact ⟨name_inj hfield, hvariant⟩

theorem makeKey_ne_nil {key : JsString} (h : makeKey out options field = some key) : key ≠ [] := by
  obtain ⟨names, hnames, rfl⟩ := makeKey_eq_some h
  simp

theorem resolveLiveZoneContext_eq_some {body : Body} {now : Int} {context : LiveZoneContext}
    (h : resolveLiveZoneContext out body options now = some context) :
    sequenceField body = some context.field ∧ makeKey out options context.field = some context.key ∧
      itemsOf body context.field = some context.rawItems ∧
      context.rawItemDigests = context.rawItems.map (digest out) ∧
      context.rawStableFieldsDigest = digest out (.obj (pickStableFields body)) := by
  unfold resolveLiveZoneContext at h
  split at h
  · cases h
  · rename_i field hfield
    split at h
    · rename_i key rawItems hkey hitems
      obtain rfl := Option.some.inj h
      exact ⟨hfield, hkey, hitems, rfl, rfl⟩
    · cases h

namespace Cache

variable {s s' s'' : Cache} {key : JsString} {entry : LiveZoneEntry}

/-! ## Evictions -/

/-- Entries are evicted, and nothing else happens. -/
def Evicted (s s' : Cache) : Prop :=
  ∃ entries totalBytes, s' = { s with entries := entries, totalBytes := totalBytes } ∧
    ∀ key entry, entries.get key = some entry → s.entries.get key = some entry

theorem Evicted.refl (s : Cache) : Evicted s s := ⟨s.entries, s.totalBytes, rfl, fun _ _ h => h⟩

theorem Evicted.trans (h : Evicted s s') (h' : Evicted s' s'') : Evicted s s'' := by
  obtain ⟨entries, totalBytes, rfl, hget⟩ := h
  obtain ⟨entries', totalBytes', rfl, hget'⟩ := h'
  exact ⟨entries', totalBytes', rfl, fun key entry hentry => hget key entry (hget' key entry hentry)⟩

theorem deleteEntry_evicted (key : JsString) (s : Cache) : Evicted s (s.deleteEntry key) := by
  unfold deleteEntry
  split
  · exact .refl s
  · refine ⟨_, _, rfl, ?_⟩
    intro key' entry hget
    exact (JsMap.get_delete_eq_some hget).2

theorem pruneOldest_evicted (rounds : Nat) (s : Cache) : Evicted s (pruneOldest rounds s) := by
  induction rounds generalizing s with
  | zero => exact .refl s
  | succ rounds ih =>
    rw [pruneOldest]
    split
    · split
      · exact .refl s
      · split
        · exact .refl s
        · exact (deleteEntry_evicted _ s).trans (ih _)
    · exact .refl s

theorem pruneExpired_evicted (now : Int) (entries : JsMap JsString LiveZoneEntry) (s : Cache) :
    Evicted s (entries.foldl (fun s e => if isExpired now e.2 then s.deleteEntry e.1 else s) s) := by
  induction entries generalizing s with
  | nil => exact .refl s
  | cons e entries ih =>
    rw [foldl_cons]
    split
    · exact (deleteEntry_evicted _ s).trans (ih _)
    · exact ih s

theorem prune_evicted (now : Int) (s : Cache) : Evicted s (s.prune now) :=
  (pruneExpired_evicted now s.entries s).trans (pruneOldest_evicted _ _)

/-! ## Accounting -/

/-- The total is the sum of the sizes, and no entry is too large. -/
structure Counted (s : Cache) : Prop where
  keys : s.entries.keys.Nodup
  named : ∀ key ∈ s.entries.keys, key ≠ []
  sizes : ∀ key entry, s.entries.get key = some entry → entry.bytes ≤ maxEntryBytes
  total : s.totalBytes = (weight (fun entry => entry.bytes) s.entries : Nat)

structure WithinCaps (s : Cache) : Prop where
  entries : s.entries.length ≤ maxEntries
  totalBytes : s.totalBytes ≤ maxTotalBytes

theorem Counted.deleteEntry (h : Counted s) (key : JsString) : Counted (s.deleteEntry key) := by
  unfold Cache.deleteEntry
  split
  · exact h
  · rename_i existing hget
    have hweight := JsMap.weight_of_get (fun entry : LiveZoneEntry => entry.bytes) h.keys hget
    refine ⟨JsMap.nodup_keys_delete h.keys, ?_, ?_, ?_⟩
    · intro key' hkey'
      exact h.named key' (((JsMap.delete_sublist key s.entries).map Prod.fst).subset hkey')
    · intro key' entry hget'
      obtain ⟨-, hold⟩ := JsMap.get_delete_eq_some hget'
      exact h.sizes key' entry hold
    · show s.totalBytes - existing.bytes = _
      rw [h.total, hweight]
      simp

theorem length_deleteEntry (h : Counted s) (hget : s.entries.get key = some entry) :
    s.entries.length = (s.deleteEntry key).entries.length + 1 := by
  unfold Cache.deleteEntry
  rw [hget]
  exact JsMap.length_of_get h.keys hget

theorem Counted.pruneExpired (h : Counted s) (now : Int) (entries : JsMap JsString LiveZoneEntry) :
    Counted (entries.foldl (fun s e => if isExpired now e.2 then s.deleteEntry e.1 else s) s) := by
  induction entries generalizing s with
  | nil => exact h
  | cons e entries ih =>
    rw [foldl_cons]
    split
    · exact ih (h.deleteEntry e.1)
    · exact ih h

theorem Counted.pruneOldest {rounds : Nat} (h : Counted s) (hrounds : s.entries.length ≤ rounds) :
    Counted (pruneOldest rounds s) ∧ WithinCaps (pruneOldest rounds s) := by
  induction rounds generalizing s with
  | zero =>
    have hempty : s.entries = [] := length_eq_zero_iff.mp (Nat.le_zero.mp hrounds)
    have htotal := h.total
    rw [hempty] at htotal
    refine ⟨h, ?_, ?_⟩
    · rw [Cache.pruneOldest, hempty]
      exact Nat.zero_le _
    · rw [Cache.pruneOldest, htotal]
      decide
  | succ rounds ih =>
    rw [Cache.pruneOldest]
    split
    · rename_i hover
      split
      · rename_i hempty
        have htotal := h.total
        rw [hempty] at htotal hover
        rw [htotal] at hover
        exact absurd hover (by decide)
      · rename_i oldest entry rest hentries
        have hmem : oldest ∈ s.entries.keys := by
          rw [hentries]
          exact mem_cons_self
        have hnamed : ¬ oldest.isEmpty = true := by
          rw [List.isEmpty_iff]
          exact h.named oldest hmem
        have hget : s.entries.get oldest = some entry := by
          rw [hentries, JsMap.get, if_pos rfl]
        have hlength := length_deleteEntry h hget
        rw [if_neg hnamed]
        exact ih (h.deleteEntry oldest) (by omega)
    · rename_i hwithin
      rw [not_or, Nat.not_lt, Int.not_lt] at hwithin
      exact ⟨h, hwithin.1, hwithin.2⟩

theorem Counted.prune (h : Counted s) (now : Int) :
    Counted (s.prune now) ∧ WithinCaps (s.prune now) :=
  (h.pruneExpired now s.entries).pruneOldest (Nat.le_refl _)

/-- An entry is stored under the key of its context, or is too large. -/
theorem store_cases (out : Outside) (context : LiveZoneContext) (result : CompressionResult)
    (now : Int) (s : Cache) :
    s.store out context result now = s ∨
      ∃ entry : LiveZoneEntry, entry.rawItemDigests = context.rawItemDigests ∧
        entry.rawStableFieldsDigest = context.rawStableFieldsDigest ∧
        itemsOf result.body context.field = some entry.transformedPrefix ∧
        entry.bytes ≤ maxEntryBytes ∧
        s.store out context result now = prune now
            { s.deleteEntry context.key with
              entries := (s.deleteEntry context.key).entries.set context.key entry
              totalBytes := (s.deleteEntry context.key).totalBytes + entry.bytes
              nextEntry := (s.deleteEntry context.key).nextEntry + 1 } := by
  unfold store
  cases hitems : itemsOf result.body context.field with
  | none => exact .inl rfl
  | some transformedPrefix =>
    dsimp only
    split
    · exact .inl rfl
    · rename_i hbytes
      exact .inr ⟨_, rfl, rfl, rfl, Nat.not_lt.mp hbytes, rfl⟩

theorem deleteEntry_get_self (key : JsString) (s : Cache) :
    (s.deleteEntry key).entries.get key = none := by
  unfold Cache.deleteEntry
  cases hget : s.entries.get key with
  | none => exact hget
  | some entry =>
    show (s.entries.delete key).get key = none
    rw [JsMap.get_delete, if_pos rfl]

theorem Counted.store {context : LiveZoneContext} (h : Counted s) (hcaps : WithinCaps s)
    (hkey : context.key ≠ []) (result : CompressionResult) (now : Int) :
    Counted (s.store out context result now) ∧ WithinCaps (s.store out context result now) := by
  rcases store_cases out context result now s with heq | ⟨entry, -, -, -, hbytes, heq⟩
  · rw [heq]
    exact ⟨h, hcaps⟩
  · rw [heq]
    have hdeleted := h.deleteEntry context.key
    have hgone := deleteEntry_get_self context.key s
    refine Counted.prune ⟨JsMap.nodup_keys_set hdeleted.keys, ?_, ?_, ?_⟩ now
    · intro key hmem
      rw [JsMap.keys_set] at hmem
      split at hmem
      · exact hdeleted.named key hmem
      · rcases mem_append.mp hmem with hmem | hmem
        · exact hdeleted.named key hmem
        · rw [mem_singleton.mp hmem]
          exact hkey
    · intro key' entry' hget'
      rcases JsMap.get_set_cases hget' with ⟨-, rfl⟩ | hold
      · exact hbytes
      · exact hdeleted.sizes key' entry' hold
    · show (s.deleteEntry context.key).totalBytes + entry.bytes = _
      rw [hdeleted.total, JsMap.weight_set_new _ entry hdeleted.keys hgone]
      omega

/-! ## The origin of the entries -/

/-- The entry was made of one of the answers, for a request with this key. -/
def Emitted (out : Outside) (answers : List Answer) (key : JsString) (entry : LiveZoneEntry) :
    Prop :=
  ∃ a ∈ answers, ∃ context now,
    resolveLiveZoneContext out a.request.body a.request.options now = some context ∧
      context.key = key ∧ context.rawItemDigests = entry.rawItemDigests ∧
      context.rawStableFieldsDigest = entry.rawStableFieldsDigest ∧
      itemsOf a.result.body context.field = some entry.transformedPrefix

def Fits (context : LiveZoneContext) (entry : LiveZoneEntry) : Prop :=
  entry.rawStableFieldsDigest = context.rawStableFieldsDigest ∧
    entry.rawItemDigests <+: context.rawItemDigests

/-- What a waiting request is going to do. -/
def Planned (out : Outside) (answers : List Answer) (p : Pending) : Prop :=
  match p.plan with
  | .pass => True
  | .compressAndStore context =>
      ∃ now, resolveLiveZoneContext out p.request.body p.request.options now = some context
  | .reuse context previous =>
      (∃ now, resolveLiveZoneContext out p.request.body p.request.options now = some context) ∧
        Emitted out answers context.key previous ∧ Fits context previous

/-- The answer begins with the items of an entry that fits its request. -/
def Reused (out : Outside) (answers : List Answer) (a : Answer) (entry : LiveZoneEntry) : Prop :=
  ∃ context now, resolveLiveZoneContext out a.request.body a.request.options now = some context ∧
      Emitted out answers context.key entry ∧ Fits context entry ∧
      ∃ live, itemsOf a.result.body context.field = some (entry.transformedPrefix ++ live)

structure Sound (out : Outside) (s : Cache) : Prop where
  entries : ∀ key entry, s.entries.get key = some entry → Emitted out s.answers key entry
  pending : ∀ i p, s.pending.get i = some p → Planned out s.answers p
  answers : ∀ earlier a later, s.answers = earlier ++ a :: later →
    ∀ entry, a.reused = some entry → Reused out earlier a entry

variable {answers : List Answer}

theorem Emitted.concat (h : Emitted out answers key entry) (a : Answer) :
    Emitted out (answers ++ [a]) key entry := by
  obtain ⟨a', hmem, hrest⟩ := h
  exact ⟨a', mem_append_left _ hmem, hrest⟩

theorem Planned.concat {p : Pending} (h : Planned out answers p) (a : Answer) :
    Planned out (answers ++ [a]) p := by
  unfold Planned at h ⊢
  split
  · trivial
  · rename_i context hplan
    rw [hplan] at h
    exact h
  · rename_i context previous hplan
    rw [hplan] at h
    exact ⟨h.1, h.2.1.concat a, h.2.2⟩

theorem Evicted.sound (h : Evicted s s') (hs : Sound out s) : Sound out s' := by
  obtain ⟨entries, totalBytes, rfl, hget⟩ := h
  exact ⟨fun key entry hentry => hs.entries key entry (hget key entry hentry), hs.pending, hs.answers⟩

theorem Sound.await (h : Sound out s) {request : Request} {plan : Plan}
    (hplan : Planned out s.answers ⟨request, engineCall request.body plan, plan⟩) :
    Sound out (s.await request plan) := by
  refine ⟨h.entries, ?_, h.answers⟩
  intro i p hget
  rcases JsMap.get_set_cases hget with ⟨-, rfl⟩ | hold
  · exact hplan
  · exact h.pending i p hold

theorem Sound.fail (h : Sound out s) (i : Nat) : Sound out (s.fail i) :=
  ⟨h.entries, fun j p hget => h.pending j p (JsMap.get_delete_eq_some hget).2, h.answers⟩

theorem Sound.apply (h : Sound out s) (request : Request) (now : Int) :
    Sound out (s.apply out request now) := by
  unfold Cache.apply
  split
  · exact h.await trivial
  · split
    · exact h.await trivial
    · rename_i context hcontext
      have hpruned := (prune_evicted context.now s).sound h
      dsimp only
      split
      · exact hpruned.await ⟨now, hcontext⟩
      · rename_i previous hget
        have hemitted := hpruned.entries context.key previous hget
        split
        · rename_i hfits
          have hmoved : Sound out
              { s.prune context.now with
                entries := ((s.prune context.now).entries.delete context.key).set context.key
                  { previous with lastAccess := context.now } } := by
            refine ⟨?_, hpruned.pending, hpruned.answers⟩
            intro key entry hentry
            rcases JsMap.get_set_cases hentry with ⟨rfl, rfl⟩ | hold
            · exact hemitted
            · exact hpruned.entries key entry (JsMap.get_delete_eq_some hold).2
          apply hmoved.await
          show (∃ now, _) ∧ Emitted _ _ _ _ ∧ Fits _ _
          exact ⟨⟨now, hcontext⟩, hemitted, hfits.1, isPrefixOf_iff_prefix.mp hfits.2⟩
        · exact hpruned.await ⟨now, hcontext⟩

theorem answers_concat {earlier later : List Answer} {a a' : Answer}
    (h : answers ++ [a] = earlier ++ a' :: later) :
    (earlier = answers ∧ a' = a) ∨ ∃ later', answers = earlier ++ a' :: later' := by
  rcases eq_nil_or_concat later with rfl | ⟨later', last, rfl⟩
  · obtain ⟨hfront, hlast⟩ := append_inj' h rfl
    exact .inl ⟨hfront.symm, (List.cons.inj hlast).1.symm⟩
  · have hparts : answers ++ [a] = (earlier ++ a' :: later') ++ [last] := by
      rw [h]
      simp
    exact .inr ⟨later', (append_inj' hparts rfl).1⟩

/-- A request is answered, when the entries come from the answers so far and
from this one. -/
theorem Sound.answer (h : Sound out s) {entries : JsMap JsString LiveZoneEntry} {totalBytes : Int}
    {nextEntry : Nat} {a : Answer}
    (hentries : ∀ key entry, entries.get key = some entry → Emitted out (s.answers ++ [a]) key entry)
    (hlast : ∀ entry, a.reused = some entry → Reused out s.answers a entry) :
    Sound out
      { s with
        entries := entries
        totalBytes := totalBytes
        nextEntry := nextEntry
        answers := s.answers ++ [a] } := by
  refine ⟨hentries, fun i p hget => (h.pending i p hget).concat a, ?_⟩
  intro earlier a' later hsplit entry hreused
  rcases answers_concat hsplit with ⟨rfl, rfl⟩ | ⟨later', hold⟩
  · exact hlast entry hreused
  · exact h.answers earlier a' later' hold entry hreused

theorem Sound.respond (h : Sound out s) {request : Request} {result : CompressionResult}
    {reused : Option LiveZoneEntry}
    (hlast : ∀ entry, reused = some entry → Reused out s.answers ⟨request, result, reused⟩ entry) :
    Sound out (s.respond request result reused) :=
  h.answer (fun key entry hentry => (h.entries key entry hentry).concat _) hlast

theorem store_entries (out : Outside) (context : LiveZoneContext) (result : CompressionResult)
    (now : Int) (s : Cache) :
    ∃ entries totalBytes nextEntry, s.store out context result now =
          { s with entries := entries, totalBytes := totalBytes, nextEntry := nextEntry } ∧
        ∀ key entry, entries.get key = some entry → s.entries.get key = some entry ∨
            key = context.key ∧ context.rawItemDigests = entry.rawItemDigests ∧
              context.rawStableFieldsDigest = entry.rawStableFieldsDigest ∧
              itemsOf result.body context.field = some entry.transformedPrefix := by
  rcases store_cases out context result now s with heq | ⟨stored, hdigests, hstable, hitems, -, heq⟩
  · exact ⟨s.entries, s.totalBytes, s.nextEntry, heq, fun _ _ hget => .inl hget⟩
  · obtain ⟨entries, totalBytes, hdeleted, hold⟩ := deleteEntry_evicted context.key s
    obtain ⟨entries', totalBytes', hpruned, hkept⟩ := prune_evicted now
      { s.deleteEntry context.key with
        entries := (s.deleteEntry context.key).entries.set context.key stored
        totalBytes := (s.deleteEntry context.key).totalBytes + stored.bytes
        nextEntry := (s.deleteEntry context.key).nextEntry + 1 }
    refine ⟨entries', totalBytes', s.nextEntry + 1, ?_, ?_⟩
    · rw [heq, hpruned, hdeleted]
    · intro key entry hget
      have hset := hkept key entry hget
      rw [hdeleted] at hset
      rcases JsMap.get_set_cases hset with ⟨rfl, rfl⟩ | hset
      · exact .inr ⟨rfl, hdigests.symm, hstable.symm, hitems⟩
      · exact .inl (hold key entry hset)

theorem Sound.storeAndRespond (h : Sound out s) {context : LiveZoneContext} {request : Request}
    {result : CompressionResult} {reused : Option LiveZoneEntry} (now : Int)
    (hcontext : ∃ t, resolveLiveZoneContext out request.body request.options t = some context)
    (hlast : ∀ entry, reused = some entry → Reused out s.answers ⟨request, result, reused⟩ entry) :
    Sound out ((s.store out context result now).respond request result reused) := by
  obtain ⟨t, hcontext⟩ := hcontext
  obtain ⟨entries, totalBytes, nextEntry, heq, hstored⟩ := store_entries out context result now s
  rw [heq]
  refine h.answer ?_ hlast
  intro key entry hentry
  rcases hstored key entry hentry with hold | ⟨rfl, hdigests, hstable, hitems⟩
  · exact (h.entries key entry hold).concat _
  · exact ⟨_, mem_append_right _ mem_cons_self, context, t, hcontext, rfl, hdigests,
      hstable, hitems⟩

theorem reusedResult_items (out : Outside) (body : Body) (context : LiveZoneContext)
    (previous : LiveZoneEntry) (engine : CompressionResult) (now : Int) :
    ∃ live, itemsOf (reusedResult out body context previous engine now).body context.field =
      some (previous.transformedPrefix ++ live) := by
  refine ⟨(compressLiveToolOutputs body context.field (liveItems context previous) previous.stats
    engine).2, ?_⟩
  show itemsOf (JsMap.set context.field.name _ _) context.field = _
  unfold itemsOf
  rw [JsMap.get_set, if_pos rfl]

theorem Sound.complete (h : Sound out s) (i : Nat) (engine : CompressionResult) (now : Int) :
    Sound out (s.complete out i engine now) := by
  unfold Cache.complete
  cases hget : s.pending.get i with
  | none => exact h
  | some p =>
    have hplanned := h.pending i p hget
    have hdropped : Sound out { s with pending := s.pending.delete i } := h.fail i
    unfold Planned at hplanned
    dsimp only
    cases hplan : p.plan with
    | pass => exact hdropped.respond nofun
    | compressAndStore context =>
      rw [hplan] at hplanned
      exact hdropped.storeAndRespond context.now hplanned nofun
    | reuse context previous =>
      rw [hplan] at hplanned
      obtain ⟨hcontext, hemitted, hfits⟩ := hplanned
      obtain ⟨t, hresolved⟩ := id hcontext
      have hreused : ∀ entry, some previous = some entry → Reused out s.answers
          ⟨p.request, reusedResult out p.request.body context previous engine now, some previous⟩
          entry := by
        intro entry hsame
        obtain rfl := Option.some.inj hsame
        exact ⟨context, t, hresolved, hemitted, hfits,
          reusedResult_items out p.request.body context previous engine now⟩
      dsimp only
      split
      · exact hdropped.storeAndRespond now hcontext hreused
      · exact hdropped.respond hreused

/-! ## Runs -/

theorem Sound.reset (h : Sound out s) : Sound out s.reset :=
  ⟨fun _ _ hnone => (by cases hnone), h.pending, h.answers⟩

/-- The total is right, and within the caps with the number of entries. -/
def Accounted (s : Cache) : Prop := Counted s ∧ WithinCaps s

theorem Accounted.congr (h : Accounted s) (hentries : s'.entries = s.entries)
    (htotal : s'.totalBytes = s.totalBytes) : Accounted s' := by
  obtain ⟨⟨hkeys, hnamed, hsizes, hsum⟩, hlength, hbytes⟩ := h
  refine ⟨⟨?_, ?_, ?_, ?_⟩, ?_, ?_⟩
  · rw [hentries]
    exact hkeys
  · rw [hentries]
    exact hnamed
  · rw [hentries]
    exact hsizes
  · rw [hentries, htotal]
    exact hsum
  · rw [hentries]
    exact hlength
  · rw [htotal]
    exact hbytes

theorem Accounted.await (h : Accounted s) (request : Request) (plan : Plan) :
    Accounted (s.await request plan) := h.congr rfl rfl

theorem Accounted.respond (h : Accounted s) (request : Request) (result : CompressionResult)
    (reused : Option LiveZoneEntry) : Accounted (s.respond request result reused) := h.congr rfl rfl

/-- An entry that is used becomes the newest one, and is as large as it was. -/
theorem Accounted.touch (h : Accounted s) (hget : s.entries.get key = some entry)
    {touched : LiveZoneEntry} (hbytes : touched.bytes = entry.bytes) :
    Accounted { s with entries := (s.entries.delete key).set key touched } := by
  have hkeys := h.1.keys
  refine ⟨⟨JsMap.nodup_keys_set (JsMap.nodup_keys_delete hkeys), ?_, ?_, ?_⟩, ?_, h.2.totalBytes⟩
  · intro key' hmem
    rw [JsMap.keys_set] at hmem
    have hold : ∀ x ∈ (s.entries.delete key).keys, x ≠ [] := fun x hx =>
      h.1.named x (((JsMap.delete_sublist key s.entries).map Prod.fst).subset hx)
    split at hmem
    · exact hold key' hmem
    · rcases mem_append.mp hmem with hmem | hmem
      · exact hold key' hmem
      · rw [mem_singleton.mp hmem]
        exact h.1.named key (JsMap.get_isSome_iff.mp (by rw [hget]; rfl))
  · intro key' entry' hget'
    rcases JsMap.get_set_cases hget' with ⟨-, rfl⟩ | hold
    · rw [hbytes]
      exact h.1.sizes key entry hget
    · exact h.1.sizes key' entry' (JsMap.get_delete_eq_some hold).2
  · show s.totalBytes = _
    rw [h.1.total, JsMap.weight_reset _ hkeys hget hbytes]
  · show (JsMap.set key touched (s.entries.delete key)).length ≤ _
    rw [JsMap.length_reset hkeys hget]
    exact h.2.entries

theorem Accounted.apply (h : Accounted s) (request : Request) (now : Int) :
    Accounted (s.apply out request now) := by
  unfold Cache.apply
  split
  · exact h.await request .pass
  · split
    · exact h.await request .pass
    · rename_i context hcontext
      have hpruned : Accounted (s.prune context.now) := h.1.prune context.now
      dsimp only
      split
      · exact hpruned.await request _
      · rename_i previous hget
        split
        · apply Accounted.await
          exact hpruned.touch hget rfl
        · exact hpruned.await request _

theorem Accounted.complete (h : Accounted s) (hs : Sound out s) (i : Nat)
    (engine : CompressionResult) (now : Int) : Accounted (s.complete out i engine now) := by
  unfold Cache.complete
  cases hget : s.pending.get i with
  | none => exact h
  | some p =>
    have hplanned := hs.pending i p hget
    have hdropped : Accounted { s with pending := s.pending.delete i } := h.congr rfl rfl
    have hstore : ∀ (context : LiveZoneContext) (result : CompressionResult) (now' : Int),
        (∃ t, resolveLiveZoneContext out p.request.body p.request.options t = some context) →
        Accounted (Cache.store out context result now' { s with pending := s.pending.delete i }) := by
      intro context result now' hcontext
      obtain ⟨t, hcontext⟩ := hcontext
      obtain ⟨-, hkey, -⟩ := resolveLiveZoneContext_eq_some hcontext
      exact hdropped.1.store hdropped.2 (makeKey_ne_nil hkey) result now'
    unfold Planned at hplanned
    dsimp only
    cases hplan : p.plan with
    | pass => exact hdropped.respond _ _ _
    | compressAndStore context =>
      rw [hplan] at hplanned
      exact (hstore context engine context.now hplanned).respond _ _ _
    | reuse context previous =>
      rw [hplan] at hplanned
      dsimp only
      split
      · exact (hstore context _ now hplanned.1).respond _ _ _
      · exact hdropped.respond _ _ _

theorem accounted_empty : Accounted {} :=
  ⟨⟨nodup_nil, fun _ hmem => (by cases hmem), fun _ _ hnone => (by cases hnone), rfl⟩,
    Nat.zero_le _, by decide⟩

theorem step_invariant (h : Sound out s ∧ Accounted s) (event : Event) :
    Sound out (step out s event) ∧ Accounted (step out s event) := by
  obtain ⟨hs, ha⟩ := h
  cases event with
  | apply request now => exact ⟨hs.apply request now, ha.apply request now⟩
  | complete i engine now => exact ⟨hs.complete i engine now, ha.complete hs i engine now⟩
  | fail i => exact ⟨hs.fail i, ha.congr rfl rfl⟩
  | reset => exact ⟨hs.reset, accounted_empty.congr rfl rfl⟩

theorem run_invariant (out : Outside) (events : List Event) :
    Sound out (run out events) ∧ Accounted (run out events) := by
  have hempty : Sound out {} := by
    refine ⟨fun _ _ hnone => (by cases hnone), fun _ _ hnone => (by cases hnone), ?_⟩
    intro earlier a later hsplit
    exact absurd hsplit.symm (by simp)
  exact Runs.foldl_invariant (fun s => Sound out s ∧ Accounted s)
    (fun _ event h => step_invariant h event) ⟨hempty, accounted_empty⟩ events

/-- The answer of a hit begins with the items of an earlier answer, whose
request agrees with the new one in what is digested, as far as it goes. -/
theorem Reused.origin {earlier : List Answer} {a : Answer} (h : Reused out earlier a entry) :
    ∃ a' ∈ earlier, ∃ field items items' live,
      sequenceField a.request.body = some field ∧ sequenceField a'.request.body = some field ∧
        itemsOf a.request.body field = some items ∧ itemsOf a'.request.body field = some items' ∧
        itemsOf a'.result.body field = some entry.transformedPrefix ∧
        itemsOf a.result.body field = some (entry.transformedPrefix ++ live) ∧
        entry.rawItemDigests = items'.map (digest out) ∧
        entry.rawItemDigests <+: items.map (digest out) ∧
        digest out (.obj (pickStableFields a.request.body)) =
          digest out (.obj (pickStableFields a'.request.body)) ∧
        digest out a.request.options.variant = digest out a'.request.options.variant := by
  obtain ⟨context, now, hcontext, hemitted, ⟨hstable, hdigests⟩, live, hlive⟩ := h
  obtain ⟨a', hmem, context', now', hcontext', hkey, hdigests', hstable', hprefix⟩ := hemitted
  obtain ⟨hfield, hmade, hitems, hraw, hfields⟩ := resolveLiveZoneContext_eq_some hcontext
  obtain ⟨hfield', hmade', hitems', hraw', hfields'⟩ := resolveLiveZoneContext_eq_some hcontext'
  rw [hkey] at hmade'
  obtain ⟨hsame, hvariant⟩ := makeKey_inj hmade hmade'
  rw [← hsame] at hfield' hitems' hprefix
  refine ⟨a', hmem, context.field, context.rawItems, context'.rawItems, live, hfield, hfield', hitems,
    hitems', hprefix, hlive, ?_, ?_, ?_, hvariant⟩
  · rw [← hdigests', hraw']
  · rw [← hraw]
    exact hdigests
  · rw [← hfields, ← hfields', ← hstable, hstable']

/-- In every state of a run, the total is the sum of the sizes and the caps are
kept.  An answer that reuses an entry begins with the items of the earlier
answer that the entry was made of.  The digests of the entry are those of the
earlier items, and the digests of the new items begin with them, and the stable
fields and the variant are the same, when the digest tells them apart. -/
theorem prefix_stable (out : Outside) (values : Set JsValue)
    (hdigest : Set.InjOn (digest out) values) (events : List Event) :
    ((run out events).totalBytes =
          (weight (fun entry => entry.bytes) (run out events).entries : Nat) ∧
        (run out events).entries.length ≤ maxEntries ∧
        (run out events).totalBytes ≤ maxTotalBytes ∧
        ∀ key entry, (run out events).entries.get key = some entry → entry.bytes ≤ maxEntryBytes) ∧
      ∀ earlier a later, (run out events).answers = earlier ++ a :: later →
        ∀ entry, a.reused = some entry → ∃ a' ∈ earlier, ∃ field items items' live,
            sequenceField a.request.body = some field ∧ sequenceField a'.request.body = some field ∧
              itemsOf a.request.body field = some items ∧
              itemsOf a'.request.body field = some items' ∧
              itemsOf a'.result.body field = some entry.transformedPrefix ∧
              itemsOf a.result.body field = some (entry.transformedPrefix ++ live) ∧
              entry.rawItemDigests = items'.map (digest out) ∧
              entry.rawItemDigests <+: items.map (digest out) ∧
              (.obj (pickStableFields a.request.body) ∈ values →
                .obj (pickStableFields a'.request.body) ∈ values →
                pickStableFields a.request.body = pickStableFields a'.request.body) ∧
              (a.request.options.variant ∈ values → a'.request.options.variant ∈ values →
                a.request.options.variant = a'.request.options.variant) := by
  obtain ⟨hsound, hcounted, hcaps⟩ := run_invariant out events
  refine ⟨⟨hcounted.total, hcaps.entries, hcaps.totalBytes, hcounted.sizes⟩, ?_⟩
  intro earlier a later hsplit entry hreused
  obtain ⟨a', hmem, field, items, items', live, hfield, hfield', hitems, hitems', hprefix, hlive,
    hraw, hdigests, hstable, hvariant⟩ := (hsound.answers earlier a later hsplit entry hreused).origin
  refine ⟨a', hmem, field, items, items', live, hfield, hfield', hitems, hitems', hprefix, hlive, hraw,
    hdigests, ?_, fun hin hin' => hdigest hin hin' hvariant⟩
  intro hin hin'
  exact JsValue.obj.inj (hdigest hin hin' hstable)

/-- The SHA-256 of the bytes of `null`, and of those of an empty object. -/
def nullDigest : List UInt8 :=
  [0x74, 0x23, 0x4e, 0x98, 0xaf, 0xe7, 0x49, 0x8f, 0xb5, 0xda, 0xf1, 0xf3, 0x6a, 0xc2, 0xd7, 0x8a,
    0xcc, 0x33, 0x94, 0x64, 0xf9, 0x50, 0x70, 0x3b, 0x8c, 0x01, 0x98, 0x92, 0xf9, 0x82, 0xb9, 0x0b]

def emptyDigest : List UInt8 :=
  [0x44, 0x13, 0x6f, 0xa3, 0x55, 0xb3, 0x67, 0x8a, 0x11, 0x46, 0xad, 0x16, 0xf7, 0xe8, 0x64, 0x9e,
    0x94, 0xfb, 0x4f, 0xc2, 0x1f, 0xe7, 0x7e, 0x83, 0x10, 0xc0, 0x60, 0xf6, 0x1c, 0xaa, 0xff, 0x8a]

def turnFmt (bits : UInt64) : JsString :=
  if bits = 0 then js "0" else if bits = 0x3FF0000000000000 then js "1" else js "6"

/-- What is outside in a conversation of two turns, of six tokens in the end. -/
def turnOutside : Outside :=
  { sha256 := fun bytes => if bytes = utf8 (js "null") then nullDigest else emptyDigest
    fmt := turnFmt
    estimateCompressionTokens := fun body =>
      (Utils.jsonLengthStrippingBase64DataUris turnFmt (.obj body) + 3) / 4
    liveZoneStats := fun _ _ _ _ _ _ => .obj
      [(js "techniquesUsed", .arr [.str (js "live-zone-prefix-reuse")]),
        (js "mode", .str (js "stacked")), (js "timestamp", .num 0),
        (js "originalTokens", .num 0x4018000000000000),
        (js "compressedTokens", .num 0x4018000000000000), (js "savingsPercent", .num 0),
        (js "liveZone", .obj
          [(js "cacheHit", .bool true), (js "frozenItems", .num 0x3FF0000000000000),
            (js "liveItems", .num 0x3FF0000000000000)])] }

def turnRequest (items : Nat) : Request :=
  { body := [(js "messages", .arr (List.replicate items .null))]
    options := { principalId := some (js "a"), sessionId := some (js "b"), variant := .null } }

def turnEvents : List Event :=
  [.apply (turnRequest 1) 0, .complete 0 ⟨(turnRequest 1).body, false, .null⟩ 0,
    .apply (turnRequest 2) 0, .complete 1 ⟨[], false, .null⟩ 0]

/-- The second turn of a conversation goes on after the answer to the first. -/
theorem prefix_stable_second_turn :
    ∃ earlier a later entry, (run turnOutside turnEvents).answers = earlier ++ a :: later ∧
      a.reused = some entry ∧ ∃ a' ∈ earlier, ∃ field live,
        itemsOf a'.result.body field = some entry.transformedPrefix ∧
          itemsOf a.result.body field = some (entry.transformedPrefix ++ live) := by
  have hdigest : Set.InjOn (digest turnOutside) {.null, .obj []} := by
    have hapart : digest turnOutside .null ≠ digest turnOutside (.obj []) := by decide +kernel
    rintro _ (rfl | rfl) _ (rfl | rfl) hsame
    · rfl
    · exact absurd hsame hapart
    · exact absurd hsame.symm hapart
    · rfl
  have hhit : (run turnOutside turnEvents).answers.any (fun a => a.reused.isSome) = true := by
    decide +kernel
  obtain ⟨a, ha, hreused⟩ := any_eq_true.mp hhit
  obtain ⟨entry, hentry⟩ := Option.isSome_iff_exists.mp hreused
  obtain ⟨earlier, later, hsplit⟩ := append_of_mem ha
  obtain ⟨-, hstable⟩ := prefix_stable turnOutside {.null, .obj []} hdigest turnEvents
  obtain ⟨a', hmem, field, -, -, live, -, -, -, -, hprefix, hlive, -⟩ :=
    hstable _ _ _ hsplit entry hentry
  exact ⟨earlier, a, later, entry, hsplit, hentry, a', hmem, field, live, hprefix, hlive⟩

end Cache

end RedRouter.Compression.LiveZone
