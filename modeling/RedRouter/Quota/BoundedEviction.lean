import Mathlib.Data.List.Induction
import RedRouter.Lib.JsMap
import RedRouter.Lib.JsString
import RedRouter.Lib.Recency

/-!
# The bounded map and what it evicts

The size-capped map of the quota caches.  A new key makes room when the map is
at its limit: expired entries go first, and then the first entry in the order
of the map that may be evicted, until one more fits.  Entries that
`shouldEvict` protects stay, and the map grows past its limit when nothing else
is left.

An entry moves to the end when its key is set, and under the `lru` policy also
when it is read, so the map is in the order of the last uses of its keys
(`run_byLastUse`).  `Keeps` says of one operation at the end of a run what it
does to the entries that were there.  Under `ttl` an entry that was just read
can be the one that goes (`not_keeps_read`).
-/

namespace RedRouter.Quota

/-! ## The map -/

open RedRouter.Recency

inductive BoundedMapPolicy where
  | lru
  | ttl
deriving DecidableEq

structure BoundedMapEntry (V : Type) where
  value : V
  ts : Int
deriving DecidableEq

/-- What `boundedMap` is called with. -/
structure BoundedMapConfig (K V : Type) where
  limit : Nat
  policy : BoundedMapPolicy
  ttlMs : Int := 0
  shouldEvict : V → K → Int → Bool := fun _ _ _ => true

structure BoundedMap (K V : Type) where
  inner : JsMap K (BoundedMapEntry V) := []
  evictions : Nat := 0
  overflowInserts : Nat := 0
deriving DecidableEq

namespace BoundedMap

variable {K V : Type} (conf : BoundedMapConfig K V)

def expires : Bool := conf.policy = .ttl && 0 < conf.ttlMs

def isExpired (entry : BoundedMapEntry V) (nowMs : Int) : Bool :=
  expires conf && conf.ttlMs < nowMs - entry.ts

def evictable (nowMs : Int) (e : K × BoundedMapEntry V) : Bool :=
  conf.shouldEvict e.2.value e.1 nowMs

def sweepExpired (nowMs : Int) (inner : JsMap K (BoundedMapEntry V)) :
    JsMap K (BoundedMapEntry V) :=
  inner.filter fun e => !isExpired conf e.2 nowMs

def findVictim (nowMs : Int) (inner : JsMap K (BoundedMapEntry V)) : Option K :=
  (inner.find? (evictable conf nowMs)).map Prod.fst

variable [DecidableEq K]

/-- The loop of `makeRoom`.  Each round drops an entry or ends the loop. -/
def evictLoop (nowMs : Int) : Nat → BoundedMap K V → BoundedMap K V
  | 0, m => m
  | fuel + 1, m =>
      if m.inner.length < conf.limit then m
      else
        match findVictim conf nowMs m.inner with
        | none => { m with overflowInserts := m.overflowInserts + 1 }
        | some victim =>
            evictLoop nowMs fuel
              { m with inner := m.inner.delete victim, evictions := m.evictions + 1 }

def makeRoom (nowMs : Int) (m : BoundedMap K V) : BoundedMap K V :=
  if m.inner.length < conf.limit then m
  else
    let swept := if expires conf then sweepExpired conf nowMs m.inner else m.inner
    evictLoop conf nowMs (swept.length + 1) { m with inner := swept }

def get (key : K) (nowMs : Int) (m : BoundedMap K V) : Option V × BoundedMap K V :=
  match m.inner.get key with
  | none => (none, m)
  | some entry =>
      if isExpired conf entry nowMs then (none, { m with inner := m.inner.delete key })
      else
        let read :=
          match conf.policy with
          | .lru => { m with inner := (m.inner.delete key).set key entry }
          | .ttl => m
        (some entry.value, read)

def set (key : K) (value : V) (nowMs : Int) (m : BoundedMap K V) : BoundedMap K V :=
  let room :=
    if m.inner.has key then { m with inner := m.inner.delete key }
    else makeRoom conf nowMs m
  { room with inner := room.inner.set key ⟨value, nowMs⟩ }

def delete (key : K) (m : BoundedMap K V) : BoundedMap K V :=
  { m with inner := m.inner.delete key }

omit [DecidableEq K] in
def clear (m : BoundedMap K V) : BoundedMap K V := { m with inner := [] }

/-- A call on the map. -/
inductive Op (K V : Type) where
  | get (key : K) (nowMs : Int)
  | set (key : K) (value : V) (nowMs : Int)
  | delete (key : K)
  | clear

def step (m : BoundedMap K V) : Op K V → BoundedMap K V
  | .get key nowMs => (get conf key nowMs m).2
  | .set key value nowMs => set conf key value nowMs m
  | .delete key => delete key m
  | .clear => clear m

def run (ops : List (Op K V)) : BoundedMap K V := ops.foldl (step conf) {}

def uses (policy : BoundedMapPolicy) : Op K V → K → Bool
  | .get key _, k => policy = .lru && key = k
  | .set key _ _, k => key = k
  | .delete _, _ => false
  | .clear, _ => false

end BoundedMap

end RedRouter.Quota

namespace RedRouter.Quota.BoundedMap

open List RedRouter.Recency

variable {K V : Type} [DecidableEq K]

variable (conf : BoundedMapConfig K V)

/-! ## The loop that evicts -/

/-- Some entries that may be evicted are gone, and those that stay and may be
evicted too all stood behind them. -/
structure Evicts (nowMs : Int) (before after : JsMap K (BoundedMapEntry V)) : Prop where
  sublist : after.Sublist before
  evictable : ∀ e ∈ before, e ∉ after → evictable conf nowMs e = true
  behind : ∀ R : K × BoundedMapEntry V → K × BoundedMapEntry V → Prop, before.Pairwise R →
    ∀ e ∈ before, e ∉ after → ∀ other ∈ after, BoundedMap.evictable conf nowMs other = true →
      R e other

section Loop

variable {conf} {nowMs : Int} {inner before mid after : JsMap K (BoundedMapEntry V)}

omit [DecidableEq K] in
theorem Evicts.refl (nowMs : Int) (inner : JsMap K (BoundedMapEntry V)) :
    Evicts conf nowMs inner inner where
  sublist := List.Sublist.refl inner
  evictable _ he hgone := absurd he hgone
  behind _ _ _ he hgone := absurd he hgone

omit [DecidableEq K] in
theorem Evicts.trans (h : Evicts conf nowMs before mid) (h' : Evicts conf nowMs mid after) :
    Evicts conf nowMs before after where
  sublist := h'.sublist.trans h.sublist
  evictable e he hgone := by
    by_cases hmid : e ∈ mid
    · exact h'.evictable e hmid hgone
    · exact h.evictable e he hmid
  behind R hR e he hgone other hother hevict := by
    by_cases hmid : e ∈ mid
    · exact h'.behind R (hR.sublist h.sublist) e hmid hgone other hother hevict
    · exact h.behind R hR e he hmid other (h'.sublist.mem hother) hevict

omit [DecidableEq K] in
theorem findVictim_eq_none (h : findVictim conf nowMs inner = none) :
    ∀ e ∈ inner, evictable conf nowMs e = false := by
  intro e he
  have hfind := Option.map_eq_none_iff.mp h
  rw [find?_eq_none] at hfind
  exact Bool.eq_false_iff.mpr (hfind e he)

theorem evicts_delete (hkeys : (JsMap.keys inner).Nodup) {victim : K}
    (h : findVictim conf nowMs inner = some victim) :
    Evicts conf nowMs inner (inner.delete victim) ∧
      (inner.delete victim).length < inner.length := by
  obtain ⟨⟨key, entry⟩, hfind, rfl⟩ := Option.map_eq_some_iff.mp h
  obtain ⟨hevict, front, back, rfl, hfront⟩ := find?_eq_some_iff_append.mp hfind
  have hnot : key ∉ JsMap.keys front ∧ key ∉ JsMap.keys back := by
    rw [JsMap.keys, map_append, map_cons, nodup_middle, nodup_cons, mem_append, not_or] at hkeys
    exact hkeys.1
  have hdelete : JsMap.delete key (front ++ (key, entry) :: back) = front ++ back := by
    rw [JsMap.delete_append, JsMap.delete, if_pos rfl, JsMap.delete_of_not_mem hnot.1,
      JsMap.delete_of_not_mem hnot.2]
  rw [hdelete]
  have hvictim : ∀ e ∈ front ++ (key, entry) :: back, e ∉ front ++ back → e = (key, entry) := by
    intro e he hgone
    rw [mem_append, mem_cons] at he
    rw [mem_append, not_or] at hgone
    rcases he with he | he | he
    · exact absurd he hgone.1
    · exact he
    · exact absurd he hgone.2
  refine ⟨⟨?_, ?_, ?_⟩, by simp⟩
  · exact (List.Sublist.refl front).append (sublist_cons_self _ back)
  · intro e he hgone
    rw [hvictim e he hgone]
    exact hevict
  · intro R hR e he hgone other hother hmay
    rw [hvictim e he hgone]
    rcases mem_append.mp hother with hother | hother
    · have hprotected := hfront other hother
      rw [hmay] at hprotected
      cases hprotected
    · exact rel_of_pairwise_cons (pairwise_append.mp hR).2.1 hother

theorem evicts_evictLoop (fuel : Nat) {m : BoundedMap K V} (hkeys : (JsMap.keys m.inner).Nodup) :
    Evicts conf nowMs m.inner (evictLoop conf nowMs fuel m).inner := by
  induction fuel generalizing m with
  | zero => exact Evicts.refl nowMs m.inner
  | succ fuel ih =>
    rw [evictLoop]
    split
    · exact Evicts.refl nowMs m.inner
    · cases hvictim : findVictim conf nowMs m.inner with
      | none => exact Evicts.refl nowMs m.inner
      | some victim =>
        have hevicts := (evicts_delete hkeys hvictim).1
        exact hevicts.trans (ih (m := ⟨m.inner.delete victim, _, _⟩) (JsMap.nodup_keys_delete hkeys))

/-- The loop ends with room for one more entry, or with protected entries only. -/
theorem room_evictLoop {fuel : Nat} {m : BoundedMap K V} (hkeys : (JsMap.keys m.inner).Nodup)
    (hfuel : m.inner.length < fuel) :
    (evictLoop conf nowMs fuel m).inner.length < conf.limit ∨
      ∀ e ∈ (evictLoop conf nowMs fuel m).inner, evictable conf nowMs e = false := by
  induction fuel generalizing m with
  | zero => exact absurd hfuel (Nat.not_lt_zero _)
  | succ fuel ih =>
    rw [evictLoop]
    split
    · rename_i hroom
      exact .inl hroom
    · cases hvictim : findVictim conf nowMs m.inner with
      | none => exact .inr (findVictim_eq_none hvictim)
      | some victim =>
        have hlt := (evicts_delete hkeys hvictim).2
        exact ih (m := ⟨m.inner.delete victim, _, _⟩) (JsMap.nodup_keys_delete hkeys)
          (show (m.inner.delete victim).length < fuel by omega)

theorem makeRoom_evicts (conf : BoundedMapConfig K V) (nowMs : Int) {m : BoundedMap K V}
    (hkeys : (JsMap.keys m.inner).Nodup) :
    ∃ swept, swept.Sublist m.inner ∧ (∀ e ∈ m.inner, e ∉ swept → isExpired conf e.2 nowMs = true) ∧
      Evicts conf nowMs swept (makeRoom conf nowMs m).inner ∧
      ((makeRoom conf nowMs m).inner.length < conf.limit ∨
        ∀ e ∈ (makeRoom conf nowMs m).inner, evictable conf nowMs e = false) := by
  unfold makeRoom
  split
  · rename_i hroom
    exact ⟨m.inner, List.Sublist.refl _, fun e he hgone => absurd he hgone,
      Evicts.refl nowMs m.inner, .inl hroom⟩
  · have hsub : (if expires conf then sweepExpired conf nowMs m.inner else m.inner).Sublist
        m.inner := by
      split
      · exact filter_sublist
      · exact List.Sublist.refl _
    have hnodup := hkeys.sublist (hsub.map Prod.fst)
    refine ⟨_, hsub, ?_, evicts_evictLoop (m := { m with inner := _ }) _ hnodup,
      room_evictLoop (m := { m with inner := _ }) hnodup (Nat.lt_succ_self _)⟩
    intro e he hgone
    split at hgone
    · unfold sweepExpired at hgone
      simpa [he] using hgone
    · exact absurd he hgone

end Loop

/-! ## The order of the map -/

theorem set_inner (key : K) (value : V) (nowMs : Int) {m : BoundedMap K V}
    (hkeys : (JsMap.keys m.inner).Nodup) :
    ∃ kept : JsMap K (BoundedMapEntry V), kept.Sublist m.inner ∧ key ∉ JsMap.keys kept ∧
      (set conf key value nowMs m).inner = kept ++ [(key, ⟨value, nowMs⟩)] ∧
      (m.inner.has key = true → kept = m.inner.delete key) ∧
      (m.inner.has key = false → kept = (makeRoom conf nowMs m).inner) := by
  unfold set
  cases hhas : m.inner.has key with
  | true =>
    have hnot := JsMap.not_mem_keys_delete key m.inner
    exact ⟨m.inner.delete key, JsMap.delete_sublist key m.inner, hnot,
      JsMap.set_of_not_mem hnot, fun _ => rfl, fun h => Bool.noConfusion h⟩
  | false =>
    obtain ⟨swept, hswept, -, hevicts, -⟩ := makeRoom_evicts conf nowMs hkeys
    have hsub := hevicts.sublist.trans hswept
    have hnot : key ∉ JsMap.keys m.inner := by
      rw [← JsMap.get_isSome_iff]
      exact Bool.eq_false_iff.mp hhas
    have hkept : key ∉ JsMap.keys (makeRoom conf nowMs m).inner :=
      fun hmem => hnot ((hsub.map Prod.fst).mem hmem)
    exact ⟨(makeRoom conf nowMs m).inner, hsub, hkept, JsMap.set_of_not_mem hkept,
      fun h => Bool.noConfusion h, fun _ => rfl⟩

theorem run_concat (ops : List (Op K V)) (op : Op K V) :
    run conf (ops ++ [op]) = step conf (run conf ops) op := by
  unfold run
  rw [foldl_append]
  rfl

variable {conf} in
theorem step_byLastUse {ops : List (Op K V)} {op : Op K V} {m : BoundedMap K V}
    (h : ByLastUse (uses conf.policy) ops (JsMap.keys m.inner)) :
    ByLastUse (uses conf.policy) (ops ++ [op]) (JsMap.keys (step conf m op).inner) := by
  have hdelete : ∀ key, ByLastUse (uses conf.policy) ops (JsMap.keys (m.inner.delete key)) :=
    fun key => h.sublist ((JsMap.delete_sublist key m.inner).map Prod.fst)
  cases op with
  | get key nowMs =>
    have hother : ∀ k ∈ JsMap.keys (m.inner.delete key),
        uses conf.policy (Op.get key nowMs : Op K V) k = false := by
      intro k hk
      have hne : key ≠ k := fun heq => JsMap.not_mem_keys_delete key m.inner (heq ▸ hk)
      simp [uses, hne]
    simp only [step, get]
    cases hget : m.inner.get key with
    | none =>
      have hsame := JsMap.delete_of_not_mem (JsMap.get_eq_none_iff.mp hget)
      rw [hsame] at hother
      exact h.unused hother
    | some entry =>
      simp only
      split
      · exact (hdelete key).unused hother
      · cases hpolicy : conf.policy with
        | lru =>
          rw [hpolicy] at hdelete hother
          rw [JsMap.set_of_not_mem (JsMap.not_mem_keys_delete key m.inner), JsMap.keys, map_append]
          exact (hdelete key).used hother (by simp [uses])
        | ttl =>
          rw [hpolicy] at h
          exact h.unused fun k _ => by simp [uses]
  | set key value nowMs =>
    obtain ⟨kept, hsub, hnot, hset, -, -⟩ := set_inner conf key value nowMs h.nodup
    have hother : ∀ k ∈ JsMap.keys kept,
        uses conf.policy (Op.set key value nowMs : Op K V) k = false := by
      intro k hk
      have hne : key ≠ k := fun heq => hnot (heq ▸ hk)
      simp [uses, hne]
    simp only [step]
    rw [hset, JsMap.keys, map_append]
    exact (h.sublist (hsub.map Prod.fst)).used hother (by simp [uses])
  | delete key => exact (hdelete key).unused fun _ _ => rfl
  | clear => exact List.Pairwise.nil

theorem run_byLastUse (ops : List (Op K V)) :
    ByLastUse (uses conf.policy) ops (JsMap.keys (run conf ops).inner) := by
  induction ops using List.reverseRecOn with
  | nil => exact List.Pairwise.nil
  | append_singleton ops op ih =>
    rw [run_concat]
    exact step_byLastUse ih

/-! ## Lookups -/

section Lookups

variable {conf} {key k : K} {value : V} {nowMs : Int} {m : BoundedMap K V}

theorem nodup_set (hkeys : (JsMap.keys m.inner).Nodup) :
    (JsMap.keys (set conf key value nowMs m).inner).Nodup := by
  obtain ⟨kept, hsub, hnot, hset, -, -⟩ := set_inner conf key value nowMs hkeys
  rw [hset, JsMap.keys, map_append]
  refine nodup_append.mpr ⟨hkeys.sublist (hsub.map Prod.fst), nodup_singleton _, ?_⟩
  intro x hx y hy heq
  have hlast : y = key := mem_singleton.mp hy
  exact hnot (hlast ▸ heq ▸ hx)

theorem get_set_self : (set conf key value nowMs m).inner.get key = some ⟨value, nowMs⟩ := by
  unfold set
  rw [JsMap.get_set, if_pos rfl]

theorem get_of_set {entry : BoundedMapEntry V} (hkeys : (JsMap.keys m.inner).Nodup)
    (hne : key ≠ k) (h : (set conf key value nowMs m).inner.get k = some entry) :
    m.inner.get k = some entry := by
  obtain ⟨kept, hsub, -, hset, -, -⟩ := set_inner conf key value nowMs hkeys
  have hmem := JsMap.mem_of_get h
  rw [hset, mem_append, mem_singleton] at hmem
  rcases hmem with hmem | heq
  · exact JsMap.get_of_mem hkeys (hsub.mem hmem)
  · exact absurd (Prod.mk.inj heq).1.symm hne

/-- Another key loses its entry only when the entry is expired or may be evicted. -/
theorem get_set_of_ne {entry : BoundedMapEntry V} (hkeys : (JsMap.keys m.inner).Nodup)
    (hne : key ≠ k) (h : m.inner.get k = some entry) :
    (set conf key value nowMs m).inner.get k = some entry ∨
      isExpired conf entry nowMs = true ∨ evictable conf nowMs (k, entry) = true := by
  obtain ⟨kept, hsub, -, hset, hold, hnew⟩ :=
    set_inner conf key value nowMs hkeys
  have hstays : (k, entry) ∈ kept → (set conf key value nowMs m).inner.get k = some entry := by
    intro hin
    refine JsMap.get_of_mem (nodup_set hkeys) ?_
    rw [hset]
    exact mem_append_left _ hin
  cases hhas : m.inner.has key with
  | true =>
    refine .inl (hstays (JsMap.mem_of_get ?_))
    rw [hold hhas, JsMap.get_delete, if_neg hne, h]
  | false =>
    obtain ⟨swept, -, hexpired, hevicts, -⟩ :=
      makeRoom_evicts conf nowMs hkeys
    rw [← hnew hhas] at hevicts
    by_cases hkept : (k, entry) ∈ kept
    · exact .inl (hstays hkept)
    · by_cases hswept : (k, entry) ∈ swept
      · exact .inr (.inr (hevicts.evictable _ hswept hkept))
      · exact .inr (.inl (hexpired _ (JsMap.mem_of_get h) hswept))

theorem get_fst (conf : BoundedMapConfig K V) (key : K) (nowMs : Int) (m : BoundedMap K V)
    (hexpires : expires conf = false) :
    (get conf key nowMs m).1 = (m.inner.get key).map BoundedMapEntry.value := by
  unfold get isExpired
  rw [hexpires]
  cases m.inner.get key with
  | none => rfl
  | some entry => rfl

theorem get_snd (hexpires : expires conf = false) :
    (get conf key nowMs m).2.inner.get k = m.inner.get k := by
  unfold get isExpired
  rw [hexpires]
  cases hget : m.inner.get key with
  | none => rfl
  | some entry =>
    cases conf.policy with
    | lru =>
      simp only [Bool.false_and, Bool.false_eq_true, if_false]
      rw [JsMap.get_set, JsMap.get_delete]
      split
      · rename_i hkey
        rw [← hkey, hget]
      · rfl
    | ttl => rfl

theorem nodup_get (hkeys : (JsMap.keys m.inner).Nodup) :
    (JsMap.keys (get conf key nowMs m).2.inner).Nodup := by
  have hdelete : (JsMap.keys (m.inner.delete key)).Nodup := JsMap.nodup_keys_delete hkeys
  unfold get
  cases m.inner.get key with
  | none => exact hkeys
  | some entry =>
    simp only
    split
    · exact hdelete
    · cases conf.policy with
      | lru => exact JsMap.nodup_keys_set hdelete
      | ttl => exact hkeys

end Lookups

/-! ## What an operation does to the entries -/

def Dropped (e : K × BoundedMapEntry V) : Op K V → Prop
  | .get key nowMs => e.1 = key ∧ isExpired conf e.2 nowMs = true
  | .set _ _ nowMs => isExpired conf e.2 nowMs = true
  | .delete key => e.1 = key
  | .clear => True

/-- What an operation at the end of a run does to the entries. -/
structure Keeps (usage : BoundedMapPolicy) (ops : List (Op K V)) (op : Op K V) : Prop where
  bounded : ∀ key value nowMs, op = .set key value nowMs →
    (run conf ops).inner.has key = false →
      (run conf (ops ++ [op])).inner.length ≤ conf.limit ∨
        ∀ e ∈ (run conf (ops ++ [op])).inner, e.1 ≠ key → evictable conf nowMs e = false
  evicted : ∀ e ∈ (run conf ops).inner, e.1 ∉ JsMap.keys (run conf (ops ++ [op])).inner →
    ¬ Dropped conf e op →
      ∃ key value nowMs, op = .set key value nowMs ∧ (run conf ops).inner.has key = false ∧
        evictable conf nowMs e = true ∧
        ∀ other ∈ (run conf (ops ++ [op])).inner, other.1 ≠ key →
          evictable conf nowMs other = true →
            idle (uses usage) ops other.1 < idle (uses usage) ops e.1

variable {conf} in
theorem dropped_of_get {key : K} {nowMs : Int} {m : BoundedMap K V}
    (hkeys : (JsMap.keys m.inner).Nodup) {e : K × BoundedMapEntry V} (he : e ∈ m.inner)
    (hgone : e.1 ∉ JsMap.keys (get conf key nowMs m).2.inner) :
    Dropped conf e (.get key nowMs) := by
  have hmem : e.1 ∈ JsMap.keys m.inner := mem_map_of_mem he
  have hstays : e.1 ∉ JsMap.keys (m.inner.delete key) → e.1 = key := by
    intro hnot
    by_contra hne
    exact hnot (JsMap.mem_keys_delete.mpr ⟨Ne.symm hne, hmem⟩)
  unfold get at hgone
  cases hget : m.inner.get key with
  | none =>
    rw [hget] at hgone
    exact absurd hmem hgone
  | some entry =>
    simp only [hget] at hgone
    split at hgone
    · rename_i hexpired
      obtain rfl := hstays hgone
      have hentry := JsMap.get_of_mem hkeys he
      rw [hget] at hentry
      exact ⟨rfl, Option.some.inj hentry ▸ hexpired⟩
    · cases hpolicy : conf.policy with
      | lru =>
        simp only [hpolicy] at hgone
        rw [JsMap.keys_set, if_neg (JsMap.not_mem_keys_delete key m.inner), mem_append,
          not_or, mem_singleton] at hgone
        exact absurd (hstays hgone.1) hgone.2
      | ttl =>
        simp only [hpolicy] at hgone
        exact absurd hmem hgone

theorem keeps_last (ops : List (Op K V)) (op : Op K V) : Keeps conf conf.policy ops op := by
  have horder := run_byLastUse conf ops
  have hstep := run_concat conf ops op
  constructor
  · rintro key value nowMs rfl hnew
    obtain ⟨kept, -, hnot, hset, -, hkept⟩ :=
      set_inner conf key value nowMs horder.nodup
    obtain ⟨swept, -, -, -, hroom⟩ :=
      makeRoom_evicts conf nowMs horder.nodup
    rw [← hkept hnew] at hroom
    have hafter : (run conf (ops ++ [.set key value nowMs])).inner =
        kept ++ [(key, ⟨value, nowMs⟩)] := by
      rw [hstep]
      exact hset
    rw [hafter]
    rcases hroom with hroom | hroom
    · left
      rw [length_append]
      exact hroom
    · right
      intro e he hne
      rcases mem_append.mp he with he | he
      · exact hroom e he
      · rw [mem_singleton.mp he] at hne
        exact absurd rfl hne
  · intro e he hgone hnot
    have hmem : e.1 ∈ JsMap.keys (run conf ops).inner := mem_map_of_mem he
    rw [hstep] at hgone ⊢
    cases op with
    | get key nowMs => exact absurd (dropped_of_get horder.nodup he hgone) hnot
    | set key value nowMs =>
      obtain ⟨kept, -, hkey, hset, hold, hnew⟩ :=
        set_inner conf key value nowMs horder.nodup
      simp only [step] at hgone ⊢
      rw [hset, JsMap.keys, map_append, mem_append, not_or] at hgone
      have hne : e.1 ≠ key := fun heq => hgone.2 (by simp [heq])
      cases hhas : (run conf ops).inner.has key with
      | true =>
        rw [hold hhas] at hgone
        exact absurd (JsMap.mem_keys_delete.mpr ⟨Ne.symm hne, hmem⟩) hgone.1
      | false =>
        obtain ⟨swept, hsub, hexpired, hevicts, -⟩ :=
          makeRoom_evicts conf nowMs horder.nodup
        rw [← hnew hhas] at hevicts
        have hkept : e ∉ kept := fun hin => hgone.1 (mem_map_of_mem hin)
        have hswept : e ∈ swept := by
          by_contra hnot'
          exact hnot (hexpired e he hnot')
        have hbehind := (pairwise_map.mp horder).sublist hsub
        refine ⟨key, value, nowMs, rfl, hhas, hevicts.evictable e hswept hkept, ?_⟩
        intro other hother hother' hmay
        rw [hset, mem_append, mem_singleton] at hother
        rcases hother with hother | rfl
        · exact hevicts.behind _ hbehind e hswept hkept other hother hmay
        · exact absurd rfl hother'
    | delete key =>
      refine absurd ?_ hnot
      by_contra hne
      exact hgone (JsMap.mem_keys_delete.mpr ⟨Ne.symm hne, hmem⟩)
    | clear => exact absurd trivial hnot

/-- Under `ttl` the entry that was read last can be the one that goes. -/
theorem not_keeps_read :
    ¬ ∀ (conf : BoundedMapConfig JsString Nat) (ops : List (Op JsString Nat))
      (op : Op JsString Nat), Keeps conf .lru ops op := by
  intro hall
  have hkeeps := hall ⟨2, .ttl, 0, fun _ _ _ => true⟩
    [.set (js "a") 1 0, .set (js "b") 2 1, .get (js "a") 2] (.set (js "c") 3 3)
  obtain ⟨key, value, nowMs, hop, -, -, hlast⟩ :=
    hkeeps.evicted (js "a", ⟨1, 0⟩) (by decide) (by decide) (by simp [Dropped, isExpired, expires])
  obtain ⟨rfl, -, rfl⟩ := Op.set.inj hop
  have hread := hlast (js "b", ⟨2, 1⟩) (by decide) (by decide) rfl
  exact absurd hread (by decide)

end RedRouter.Quota.BoundedMap
