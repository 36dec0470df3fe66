import RedRouter.Lib.Decimal
import RedRouter.Lib.JsMap
import RedRouter.Lib.Runs
import RedRouter.Lib.Separators

/-!
# The API keys of a connection

The model of `open-sse/services/apiKeyRotator.ts`: the rotation over the keys
of a connection, and their health.  The health of every key of every
connection is in one map of limited size, and an entry that is dropped takes
its failures with it (`Spares`).

`getValidApiKey` numbers the extra keys that are not blank, and
`resolveKeyForRequest` all of them.
-/

namespace RedRouter.Services.ApiKeys

open JsString Option

inductive KeyStatus
  | active
  | warning
  | invalid
deriving DecidableEq

structure KeyHealth where
  status : KeyStatus := .active
  failures : Nat := 0
  lastFailure : Option JsString := none
  lastSuccess : Option JsString := none
  totalRequests : Nat := 0
  totalFailures : Nat := 0

structure ApiKey where
  key : JsString
  keyId : JsString
deriving DecidableEq

structure Rotator where
  keyIndexes : JsMap JsString Nat := []
  keyHealth : JsMap JsString KeyHealth := []

def maxKeyHealthEntries : Nat := 500

def failureThreshold : Nat := 2

variable (connectionId : JsString) (keyId : JsString)

def scopedKey : JsString := connectionId ++ ([unit ':'] ++ keyId)

def primaryId : JsString := js "primary"

def extraId (i : Nat) : JsString := js "extra_" ++ ofNat i

def validExtras (extraKeys : List JsString) : List JsString :=
  extraKeys.filter fun k => k.trim ≠ []

/-- The keys that can be rotated, with their ids. -/
def numberedKeys (primaryKey : JsString) (extraKeys : List JsString) : List ApiKey :=
  (if primaryKey = [] then [] else [⟨primaryKey, primaryId⟩]) ++
    (validExtras extraKeys).zipIdx.map fun extra => ⟨extra.1, extraId extra.2⟩

/-- `/^extra_(\d+)$/` and the number it finds. -/
def extraIndex : Option Nat :=
  if (js "extra_").isPrefixOf keyId && keyId.length > 6 then readNat (keyId.drop 6) else none

/-- The map of the health, with an entry for the key. -/
def withEntry (health : JsMap JsString KeyHealth) (key : JsString) : JsMap JsString KeyHealth :=
  if health.has key then health
  else
    let health :=
      match health with
      | [] => health
      | oldest :: _ =>
          if maxKeyHealthEntries ≤ health.length then health.delete oldest.1 else health
    health.set key {}

namespace Rotator

def getOrCreateHealth (s : Rotator) : KeyHealth × Rotator :=
  let health := withEntry s.keyHealth (scopedKey connectionId keyId)
  ((health.get (scopedKey connectionId keyId)).getD {}, { s with keyHealth := health })

/-- The caller changes the entry in place. -/
def updateHealth (f : KeyHealth → KeyHealth) (s : Rotator) : KeyHealth × Rotator :=
  let (health, s) := s.getOrCreateHealth connectionId keyId
  (f health, { s with keyHealth := s.keyHealth.set (scopedKey connectionId keyId) (f health) })

def recordKeyFailure (now : JsString) (s : Rotator) : KeyHealth × Rotator :=
  s.updateHealth connectionId keyId fun health =>
    { health with
      failures := health.failures + 1
      totalRequests := health.totalRequests + 1
      totalFailures := health.totalFailures + 1
      lastFailure := some now
      status := if failureThreshold ≤ health.failures + 1 then .invalid else .warning }

def recordKeyTerminal (now : JsString) (s : Rotator) : KeyHealth × Rotator :=
  s.updateHealth connectionId keyId fun health =>
    { health with
      failures := max (health.failures + 1) failureThreshold
      totalRequests := health.totalRequests + 1
      totalFailures := health.totalFailures + 1
      lastFailure := some now
      status := .invalid }

def recordKeySuccess (now : JsString) (s : Rotator) : KeyHealth × Rotator :=
  s.updateHealth connectionId keyId fun health =>
    { health with
      failures := 0
      totalRequests := health.totalRequests + 1
      lastSuccess := some now
      status := .active }

def resetKeyStatus (s : Rotator) : KeyHealth × Rotator :=
  s.updateHealth connectionId keyId fun health =>
    { health with failures := 0, status := .active, lastFailure := none }

/-- One key is kept when its health, of the caller's table or of the map, is not invalid. -/
def consider (health : JsMap JsString KeyHealth)
    (acc : List ApiKey × Rotator) (entry : ApiKey) : List ApiKey × Rotator :=
  let (keyHealth, s) :=
    match health.get entry.keyId with
    | some keyHealth => (keyHealth, acc.2)
    | none => acc.2.getOrCreateHealth connectionId entry.keyId
  (if keyHealth.status = .invalid then acc.1 else acc.1 ++ [entry], s)

def getValidApiKey (primaryKey : JsString) (extraKeys : List JsString)
    (health : JsMap JsString KeyHealth) (s : Rotator) : Option ApiKey × Rotator :=
  let (allKeys, s) :=
    (numberedKeys primaryKey extraKeys).foldl (consider connectionId health) ([], s)
  match allKeys with
  | [] => (none, s)
  | [only] => (some only, s)
  | _ =>
      let current := (s.keyIndexes.get connectionId).getD 0
      (allKeys[current % allKeys.length]?,
        { s with keyIndexes := s.keyIndexes.set connectionId (current + 1) })

/-- The key that an id of the caller names. -/
def selectedKey (primaryKey : JsString) (extraKeys : List JsString) (keyId : JsString) :
    Option ApiKey :=
  if keyId = primaryId ∧ primaryKey ≠ [] then some ⟨primaryKey, primaryId⟩
  else
    match (extraIndex keyId).bind fun idx => extraKeys[idx]? with
    | some key => if key.trim ≠ [] then some ⟨key, keyId⟩ else none
    | none => none

/-- An empty id is like no id. -/
def resolveKeyForRequest (primaryKey : JsString) (extraKeys : List JsString)
    (selectedKeyId : JsString) (s : Rotator) : Option ApiKey × Rotator :=
  if selectedKeyId = [] then s.getValidApiKey connectionId primaryKey extraKeys []
  else
    let (health, s) := s.getOrCreateHealth connectionId selectedKeyId
    match selectedKey primaryKey extraKeys selectedKeyId with
    | some key =>
        if health.status = .invalid then s.getValidApiKey connectionId primaryKey extraKeys []
        else (some key, s)
    | none => s.getValidApiKey connectionId primaryKey extraKeys []

end Rotator

/-! ## The map of the health -/

variable {health : JsMap JsString KeyHealth} {key other : JsString} {h : KeyHealth}

/-- No room has to be made for the key, or the entry that goes is not one of `kept`. -/
def Spares (kept : JsString) (health : JsMap JsString KeyHealth) (key : JsString) : Prop :=
  key ∈ JsMap.keys health ∨ health.length < maxKeyHealthEntries ∨
    ∀ oldest ∈ health.head?, oldest.1 = kept → oldest.2.failures = 0

theorem get_withEntry_self : (withEntry health key).get key = some ((health.get key).getD {}) := by
  unfold withEntry
  split
  · rename_i hhas
    obtain ⟨h, hget⟩ := isSome_iff_exists.mp hhas
    rw [hget]
    rfl
  · rename_i hhas
    rw [Bool.not_eq_true, JsMap.has, isSome_eq_false_iff, isNone_iff_eq_none] at hhas
    rw [JsMap.get_set, if_pos rfl, hhas]
    rfl

theorem get_of_withEntry (hne : key ≠ other) (hget : (withEntry health key).get other = some h) :
    health.get other = some h := by
  unfold withEntry at hget
  split at hget
  · exact hget
  · rw [JsMap.get_set, if_neg hne] at hget
    split at hget
    · exact hget
    · split at hget
      · exact (JsMap.get_delete_eq_some hget).2
      · exact hget

theorem get_withEntry (hne : key ≠ other) (hget : health.get other = some h)
    (hspares : Spares other health key) (hpos : 0 < h.failures) :
    (withEntry health key).get other = some h := by
  unfold withEntry
  split
  · exact hget
  · rename_i hhas
    rw [JsMap.get_set, if_neg hne]
    split
    · exact hget
    · rename_i oldest rest
      split
      · have hother : oldest.1 ≠ other := by
          rintro rfl
          have hfirst : h = oldest.2 := by
            rw [JsMap.get, if_pos rfl] at hget
            exact (Option.some.inj hget).symm
          rcases hspares with hmem | hroom | hzero
          · exact hhas (JsMap.get_isSome_iff.mpr hmem)
          · omega
          · have hzero' := hzero oldest rfl rfl
            rw [hfirst] at hpos
            omega
        rw [JsMap.get_delete, if_neg hother]
        exact hget
      · exact hget

theorem withEntry_fresh {rest : JsMap JsString KeyHealth} (hkey : key ≠ other)
    (hfresh : key ∉ JsMap.keys rest) :
    withEntry ((other, h) :: rest) key = JsMap.set key ({} : KeyHealth)
      (if maxKeyHealthEntries ≤ rest.length + 1 then JsMap.delete other ((other, h) :: rest)
        else (other, h) :: rest) := by
  have hhas : JsMap.has key ((other, h) :: rest) = false := by
    rw [JsMap.has, JsMap.get, if_neg hkey.symm, JsMap.get_eq_none_iff.mpr hfresh]
    rfl
  unfold withEntry
  rw [hhas]
  rfl

theorem get_foldl_withEntry {keys : List JsString} (hkeys : ∀ key ∈ keys, key ≠ other)
    (hnone : health.get other = none) : (keys.foldl withEntry health).get other = none := by
  induction keys generalizing health with
  | nil => exact hnone
  | cons key keys ih =>
    refine ih (fun later hlater => hkeys later (List.mem_cons_of_mem _ hlater)) ?_
    refine eq_none_iff_forall_ne_some.mpr fun h hget => ?_
    rw [get_of_withEntry (hkeys key List.mem_cons_self) hget] at hnone
    cases hnone

/-- New entries take the place of the oldest one when there are more than the map has room for. -/
theorem oldest_dropped {keys : List JsString} {rest : JsMap JsString KeyHealth}
    (hnodup : keys.Nodup) (hkeys : ∀ key ∈ keys, key ≠ other ∧ key ∉ JsMap.keys rest)
    (hroom : rest.length < maxKeyHealthEntries)
    (henough : maxKeyHealthEntries ≤ rest.length + keys.length) :
    (keys.foldl withEntry ((other, h) :: rest)).get other = none := by
  induction keys generalizing rest with
  | nil => exact absurd hroom (Nat.not_lt.mpr henough)
  | cons key keys ih =>
    obtain ⟨hne, hfresh⟩ := hkeys key List.mem_cons_self
    have hlater : ∀ later ∈ keys, later ≠ other ∧ later ∉ JsMap.keys rest := fun later hmem =>
      hkeys later (List.mem_cons_of_mem _ hmem)
    rw [List.foldl_cons, withEntry_fresh hne hfresh]
    split
    · refine get_foldl_withEntry (fun later hmem => (hlater later hmem).1) ?_
      rw [JsMap.get_set, if_neg hne, JsMap.get_delete, if_pos rfl]
    · rename_i hfull
      rw [JsMap.set, if_neg hne.symm, JsMap.set_of_not_mem hfresh]
      refine ih (List.nodup_cons.mp hnodup).2 (fun later hmem => ⟨(hlater later hmem).1, ?_⟩) ?_ ?_
      · rw [JsMap.keys, List.map_append, List.mem_append, not_or]
        refine ⟨(hlater later hmem).2, fun hlast => (List.nodup_cons.mp hnodup).1 ?_⟩
        have hsame : later = key := List.mem_singleton.mp hlast
        rwa [← hsame]
      · rw [List.length_append]
        exact Nat.not_le.mp hfull
      · rw [List.length_append, List.length_singleton, Nat.add_right_comm]
        exact henough

/-! ## Invalid keys -/

inductive Event
  | failure (connectionId keyId now : JsString)
  | terminal (connectionId keyId now : JsString)
  | success (connectionId keyId now : JsString)
  | reset (connectionId keyId : JsString)
  | rotate (connectionId primaryKey : JsString) (extraKeys : List JsString)

def step (s : Rotator) : Event → Rotator
  | .failure c k now => (s.recordKeyFailure c k now).2
  | .terminal c k now => (s.recordKeyTerminal c k now).2
  | .success c k now => (s.recordKeySuccess c k now).2
  | .reset c k => (s.resetKeyStatus c k).2
  | .rotate c primaryKey extraKeys => (s.getValidApiKey c primaryKey extraKeys []).2

section Streak

variable (c k : JsString)

/-- The consecutive failures of a key.  A terminal one makes up for what is missing. -/
def streakStep (n : Nat) : Event → Nat
  | .failure c' k' _ => if c' = c ∧ k' = k then n + 1 else n
  | .terminal c' k' _ => if c' = c ∧ k' = k then max (n + 1) failureThreshold else n
  | .success c' k' _ | .reset c' k' => if c' = c ∧ k' = k then 0 else n
  | .rotate .. => n

def streak (events : List Event) : Nat := events.foldl (streakStep c k) 0

/-- The entries that are looked up one after the other spare the one of the key. -/
def SparesAll (c' : JsString) : JsMap JsString KeyHealth → List ApiKey → Prop
  | _, [] => True
  | health, entry :: entries =>
      Spares (scopedKey c k) health (scopedKey c' entry.keyId) ∧
        SparesAll c' (withEntry health (scopedKey c' entry.keyId)) entries

/-- The entry of a key that has failed is not dropped for another one, and no other key with
the same scoped name is taken for it. -/
def KeepsFailures (s : Rotator) : Event → Prop
  | .failure c' k' _ | .terminal c' k' _ =>
      Spares (scopedKey c k) s.keyHealth (scopedKey c' k')
  | .success c' k' _ | .reset c' k' =>
      Spares (scopedKey c k) s.keyHealth (scopedKey c' k') ∧
        (scopedKey c' k' = scopedKey c k → c' = c ∧ k' = k)
  | .rotate c' primaryKey extraKeys =>
      SparesAll c k c' s.keyHealth (numberedKeys primaryKey extraKeys)

/-- The entry of the key holds its failures, and entries with enough of them are invalid. -/
structure Remembers (n : Nat) (health : JsMap JsString KeyHealth) : Prop where
  held : 0 < n → ∃ h, health.get (scopedKey c k) = some h ∧ n ≤ h.failures
  invalid : ∀ key h, health.get key = some h → failureThreshold ≤ h.failures → h.status = .invalid

end Streak

variable {c k c' k' : JsString} {n m : Nat}

theorem Remembers.withEntry (hrem : Remembers c k n health)
    (hspares : Spares (scopedKey c k) health key) : Remembers c k n (withEntry health key) := by
  constructor
  · intro hn
    obtain ⟨h, hget, hle⟩ := hrem.held hn
    by_cases hkey : key = scopedKey c k
    · refine ⟨h, ?_, hle⟩
      rw [← hkey] at hget ⊢
      rw [get_withEntry_self, hget]
      rfl
    · exact ⟨h, get_withEntry hkey hget hspares (by omega), hle⟩
  · intro other h hget hfailures
    by_cases hkey : key = other
    · subst hkey
      rw [get_withEntry_self] at hget
      cases hold : health.get key with
      | none =>
        rw [hold] at hget
        cases hget
        cases hfailures
      | some old =>
        rw [hold] at hget
        cases hget
        exact hrem.invalid key old hold hfailures
    · exact hrem.invalid other h (get_of_withEntry hkey hget) hfailures

theorem Remembers.updateHealth {s : Rotator} {f : KeyHealth → KeyHealth}
    (hrem : Remembers c k n s.keyHealth)
    (hspares : Spares (scopedKey c k) s.keyHealth (scopedKey c' k'))
    (hvalid : ∀ h, (failureThreshold ≤ h.failures → h.status = .invalid) →
      failureThreshold ≤ (f h).failures → (f h).status = .invalid)
    (hsame : scopedKey c' k' = scopedKey c k → ∀ h, n ≤ h.failures → m ≤ (f h).failures)
    (hother : scopedKey c' k' ≠ scopedKey c k → m ≤ n) :
    Remembers c k m (s.updateHealth c' k' f).2.keyHealth := by
  have hentry := hrem.withEntry hspares
  show Remembers c k m (JsMap.set (scopedKey c' k') (f _) (ApiKeys.withEntry s.keyHealth _))
  generalize hfound : ((ApiKeys.withEntry s.keyHealth (scopedKey c' k')).get _).getD {} = found
  have hget : (ApiKeys.withEntry s.keyHealth (scopedKey c' k')).get (scopedKey c' k') =
      some found := by
    rw [← hfound, get_withEntry_self]
    rfl
  constructor
  · intro hm
    rw [JsMap.get_set]
    split
    · rename_i heq
      refine ⟨f found, rfl, hsame heq found ?_⟩
      by_cases hn : 0 < n
      · obtain ⟨h, hheld, hle⟩ := hentry.held hn
        rw [← heq, hget] at hheld
        cases hheld
        exact hle
      · omega
    · rename_i hne
      have hle := hother hne
      obtain ⟨h, hheld, hn⟩ := hentry.held (by omega)
      exact ⟨h, hheld, by omega⟩
  · intro key h hnew hfailures
    rw [JsMap.get_set] at hnew
    split at hnew
    · cases hnew
      exact hvalid found (hentry.invalid _ found hget) hfailures
    · exact hentry.invalid key h hnew hfailures

/-- A rotation over keys that spares the entry keeps it, and leaves out the key of the entry. -/
theorem Remembers.consider {entries : List ApiKey} {acc : List ApiKey × Rotator}
    (hrem : Remembers c k n acc.2.keyHealth)
    (hspares : SparesAll c k c' acc.2.keyHealth entries) :
    Remembers c k n (entries.foldl (Rotator.consider c' []) acc).2.keyHealth ∧
      (c' = c → failureThreshold ≤ n → (∀ entry ∈ acc.1, entry.keyId ≠ k) →
        ∀ entry ∈ (entries.foldl (Rotator.consider c' []) acc).1, entry.keyId ≠ k) := by
  induction entries generalizing acc with
  | nil => exact ⟨hrem, fun _ _ hacc => hacc⟩
  | cons entry entries ih =>
    obtain ⟨hfirst, hrest⟩ := hspares
    have hentry := hrem.withEntry hfirst
    obtain ⟨hkept, hout⟩ := @ih (Rotator.consider c' [] acc entry) hentry hrest
    refine ⟨hkept, fun hc hn hacc => hout hc hn ?_⟩
    subst hc
    intro found hfound
    unfold Rotator.consider at hfound
    dsimp only [JsMap.get, Rotator.getOrCreateHealth] at hfound
    split at hfound
    · exact hacc found hfound
    · rename_i hstatus
      rcases List.mem_append.mp hfound with hold | hnew
      · exact hacc found hold
      · rw [List.mem_singleton.mp hnew]
        rintro rfl
        obtain ⟨h, hget, hle⟩ := hentry.held (by unfold failureThreshold at hn; omega)
        refine hstatus ?_
        rw [hget]
        exact hentry.invalid _ h hget (by omega)

theorem streakStep_other (h : scopedKey c' k' ≠ scopedKey c k) : ¬ (c' = c ∧ k' = k) := by
  rintro ⟨rfl, rfl⟩
  exact h rfl

theorem Remembers.step {s : Rotator} {event : Event} (hrem : Remembers c k n s.keyHealth)
    (hkeeps : KeepsFailures c k s event) :
    Remembers c k (streakStep c k n event) (step s event).keyHealth := by
  cases event with
  | failure c' k' now =>
    refine hrem.updateHealth hkeeps (fun _ _ hle => if_pos hle) ?_ fun hne =>
      (if_neg (streakStep_other hne)).le
    intro _ h hle
    show (if c' = c ∧ k' = k then n + 1 else n) ≤ h.failures + 1
    split <;> omega
  | terminal c' k' now =>
    refine hrem.updateHealth hkeeps (fun _ _ _ => rfl) ?_ fun hne =>
      (if_neg (streakStep_other hne)).le
    intro _ h hle
    show (if c' = c ∧ k' = k then max (n + 1) failureThreshold else n) ≤
      max (h.failures + 1) failureThreshold
    split <;> omega
  | success c' k' now =>
    refine hrem.updateHealth hkeeps.1 (fun _ _ hle => absurd hle (Nat.not_succ_le_zero 1))
      (fun heq _ _ => (if_pos (hkeeps.2 heq)).le) fun _ => ?_
    show (if c' = c ∧ k' = k then 0 else n) ≤ n
    split <;> omega
  | reset c' k' =>
    refine hrem.updateHealth hkeeps.1 (fun _ _ hle => absurd hle (Nat.not_succ_le_zero 1))
      (fun heq _ _ => (if_pos (hkeeps.2 heq)).le) fun _ => ?_
    show (if c' = c ∧ k' = k then 0 else n) ≤ n
    split <;> omega
  | rotate c' primaryKey extraKeys =>
    have hkept := (@Remembers.consider c k c' n _ ([], s) hrem hkeeps).1
    show Remembers c k n (s.getValidApiKey c' primaryKey extraKeys []).2.keyHealth
    unfold Rotator.getValidApiKey
    dsimp only
    split <;> exact hkept

theorem mem_of_getValidApiKey {s : Rotator} {primaryKey : JsString} {extraKeys : List JsString}
    {key : ApiKey} (hkey : (s.getValidApiKey c primaryKey extraKeys health).1 = some key) :
    key ∈ ((numberedKeys primaryKey extraKeys).foldl (Rotator.consider c health) ([], s)).1 := by
  unfold Rotator.getValidApiKey at hkey
  dsimp only at hkey
  split at hkey
  · cases hkey
  · rename_i honly
    cases hkey
    rw [honly]
    exact List.mem_cons_self
  · exact List.mem_of_getElem? hkey

/-- In a run whose steps keep the failures of a key, the key is not rotated to after a terminal
failure or two consecutive ones, until it succeeds or is reset. -/
theorem invalidKey_stays_out (c k : JsString) (events : List Event)
    (hkeeps : Runs.Along step (KeepsFailures c k) {} events) (before : List Event)
    (primaryKey : JsString) (extraKeys : List JsString)
    (hrun : before ++ [.rotate c primaryKey extraKeys] <+: events)
    (hout : failureThreshold ≤ streak c k before) (key : ApiKey)
    (hkey : ((before.foldl step {}).getValidApiKey c primaryKey extraKeys []).1 = some key) :
    key.keyId ≠ k := by
  obtain ⟨rest, rfl⟩ := hrun
  obtain ⟨hbefore, hnow⟩ := Runs.along_concat.mp (Runs.along_append.mp hkeeps).1
  have hrem : ∀ (events : List Event) (s : Rotator) (n : Nat), Remembers c k n s.keyHealth →
      Runs.Along step (KeepsFailures c k) s events →
      Remembers c k (events.foldl (streakStep c k) n) (events.foldl step s).keyHealth := by
    intro events
    induction events with
    | nil => exact fun _ _ hrem _ => hrem
    | cons event events ih => exact fun s n hrem halong => ih _ _ (hrem.step halong.1) halong.2
  have hstart : Remembers c k 0 ({} : Rotator).keyHealth :=
    ⟨fun h => absurd h (Nat.lt_irrefl 0), fun _ _ h => absurd h (by simp)⟩
  exact (@Remembers.consider c k c _ _ ([], _) (hrem before {} 0 hstart hbefore) hnow).2 rfl hout
    (fun _ hentry => absurd hentry List.not_mem_nil) key (mem_of_getValidApiKey hkey)

theorem invalidKey_stays_out_extra : extraId 0 ≠ js "primary" :=
  invalidKey_stays_out (js "c") (js "primary")
    [.terminal (js "c") (js "primary") [], .rotate (js "c") (js "p") [js "e"]]
    ⟨.inr (.inl (by decide)), ⟨.inl (by decide), .inr (.inl (by decide)), trivial⟩, trivial⟩
    [.terminal (js "c") (js "primary") []] (js "p") [js "e"] (List.prefix_refl _) (by decide)
    ⟨js "e", extraId 0⟩ (by decide)

theorem keyHealth_getValidApiKey (s : Rotator) (primaryKey : JsString)
    (extraKeys : List JsString) : (s.getValidApiKey c primaryKey extraKeys []).2.keyHealth =
      ((numberedKeys primaryKey extraKeys).map fun entry => scopedKey c entry.keyId).foldl
        withEntry s.keyHealth := by
  have hconsider : ∀ (entries : List ApiKey) (acc : List ApiKey × Rotator),
      (entries.foldl (Rotator.consider c []) acc).2.keyHealth =
        (entries.map fun entry => scopedKey c entry.keyId).foldl withEntry acc.2.keyHealth := by
    intro entries
    induction entries with
    | nil => exact fun _ => rfl
    | cons entry entries ih => exact fun _ => ih _
  rw [← hconsider _ ([], s)]
  unfold Rotator.getValidApiKey
  dsimp only
  split <;> rfl

theorem consider_active {entry : ApiKey} {acc : List ApiKey × Rotator}
    (hactive : ((acc.2.keyHealth.get (scopedKey c entry.keyId)).getD {}).status = .active) :
    (Rotator.consider c [] acc entry).1 = acc.1 ++ [entry] := by
  refine if_neg ?_
  show (((withEntry acc.2.keyHealth _).get _).getD {}).status ≠ .invalid
  rw [get_withEntry_self, getD_some, hactive]
  exact KeyStatus.noConfusion

theorem extraId_inj {i j : Nat} (h : extraId i = extraId j) : i = j :=
  ofNat_inj (List.append_cancel_left h)

theorem keyIds_extras (extraKeys : List JsString) :
    (numberedKeys [] extraKeys).map (scopedKey c ·.keyId) =
      (List.range' 0 (validExtras extraKeys).length).map fun i => scopedKey c (extraId i) := by
  rw [← List.zipIdx_map_snd 0 (validExtras extraKeys), List.map_map]
  exact List.map_map

/-- A connection with as many keys as the map has entries drops a key of another one that is
out of credits, and the next rotation returns it. -/
theorem invalidKey_returned :
    ¬ ∀ (c k : JsString) (events before : List Event) (primaryKey : JsString)
      (extraKeys : List JsString), before ++ [.rotate c primaryKey extraKeys] <+: events →
      failureThreshold ≤ streak c k before → ∀ key : ApiKey,
      ((before.foldl step {}).getValidApiKey c primaryKey extraKeys []).1 = some key →
      key.keyId ≠ k := by
  intro hall
  obtain ⟨extraKeys, hextras⟩ : ∃ keys, keys = List.replicate 500 (js "e") := ⟨_, rfl⟩
  let first : Rotator := step {} (.terminal (js "c") primaryId [])
  have hvalid : (validExtras extraKeys).length = 500 := by
    rw [hextras, validExtras, List.filter_replicate, if_pos (by decide), List.length_replicate]
  have hgone : (first.getValidApiKey (js "d") [] extraKeys []).2.keyHealth.get
      (scopedKey (js "c") primaryId) = none := by
    rw [keyHealth_getValidApiKey, keyIds_extras, hvalid]
    have hfirst : first.keyHealth = [(scopedKey (js "c") primaryId,
        { status := .invalid, failures := 2, lastFailure := some [], totalRequests := 1,
          totalFailures := 1 })] := rfl
    refine oldest_dropped ?_ ?_ (by decide) ?_
    · refine List.Nodup.map (fun i j h => extraId_inj ?_) List.nodup_range'
      exact List.append_cancel_left (List.append_cancel_left h)
    · intro key hkey
      obtain ⟨i, _, rfl⟩ := List.mem_map.mp hkey
      refine ⟨fun h => ?_, List.not_mem_nil⟩
      have hhead : some (unit 'd') = some (unit 'c') := congrArg List.head? h
      exact absurd hhead (by decide)
    · rw [List.length_map, List.length_range', List.length_nil, Nat.zero_add]
      exact Nat.le_refl 500
  refine hall (js "c") primaryId _
    [.terminal (js "c") primaryId [], .rotate (js "d") [] extraKeys] (js "p") []
    (List.prefix_refl _) (Nat.le_refl 2) ⟨js "p", primaryId⟩ ?_ rfl
  show (Rotator.getValidApiKey (js "c") (js "p") [] []
    (first.getValidApiKey (js "d") [] extraKeys []).2).1 = _
  generalize (first.getValidApiKey (js "d") [] extraKeys []).2 = s at hgone
  have hkept : (Rotator.consider (js "c") [] ([], s) ⟨js "p", primaryId⟩).1 =
      [⟨js "p", primaryId⟩] := consider_active (by rw [hgone]; rfl)
  have hnumbered : numberedKeys (js "p") [] = [⟨js "p", primaryId⟩] := rfl
  unfold Rotator.getValidApiKey
  rw [hnumbered]
  dsimp only [List.foldl]
  rw [hkept]

/-! ## The keys of an id -/

def GivenOut (primaryKey : JsString) (extraKeys : List JsString) (key : ApiKey) : Prop :=
  ∃ s health, (Rotator.getValidApiKey connectionId primaryKey extraKeys health s).1 = some key

variable {primaryKey : JsString} {extraKeys : List JsString} {entry entry' : ApiKey}

theorem mem_numberedKeys : entry ∈ numberedKeys primaryKey extraKeys ↔
    (primaryKey ≠ [] ∧ entry = ⟨primaryKey, primaryId⟩) ∨
      ∃ i, (validExtras extraKeys)[i]? = some entry.key ∧ entry.keyId = extraId i := by
  unfold numberedKeys
  rw [List.mem_append, List.mem_map]
  refine or_congr ?_ ⟨?_, ?_⟩
  · split
    · rename_i hempty
      simp [hempty]
    · rename_i hsome
      simp [hsome]
  · rintro ⟨⟨key, i⟩, hmem, rfl⟩
    exact ⟨i, List.mem_zipIdx_iff_getElem?.mp hmem, rfl⟩
  · rintro ⟨i, hget, hid⟩
    refine ⟨(entry.key, i), List.mem_zipIdx_iff_getElem?.mpr hget, ?_⟩
    rw [← hid]

theorem extraId_ne_primaryId (i : Nat) : extraId i ≠ primaryId := by
  intro h
  have hhead : some (unit 'e') = some (unit 'p') := congrArg List.head? h
  exact absurd hhead (by decide)

theorem extraIndex_extraId (i : Nat) : extraIndex (extraId i) = some i := by
  have hpos : 0 < (ofNat i).length := by
    rw [length_ofNat]
    exact Nat.length_toDigits_pos
  have hlength : (extraId i).length > 6 := by
    unfold extraId
    rw [List.length_append]
    exact Nat.lt_add_of_pos_right hpos
  unfold extraIndex
  rw [decide_eq_true hlength, Bool.and_true, if_pos]
  · exact readNat_ofNat i
  · exact List.isPrefixOf_iff_prefix.mpr (List.prefix_append _ _)

/-- The keys have different ids. -/
theorem eq_of_keyId (h : entry ∈ numberedKeys primaryKey extraKeys)
    (h' : entry' ∈ numberedKeys primaryKey extraKeys) (hid : entry.keyId = entry'.keyId) :
    entry = entry' := by
  rcases mem_numberedKeys.mp h with ⟨_, rfl⟩ | ⟨i, hi, hextra⟩ <;>
    rcases mem_numberedKeys.mp h' with ⟨_, rfl⟩ | ⟨j, hj, hextra'⟩
  · rfl
  · exact absurd (hextra'.symm.trans hid.symm) (extraId_ne_primaryId j)
  · exact absurd (hextra.symm.trans hid) (extraId_ne_primaryId i)
  · rw [hextra, hextra'] at hid
    rw [extraId_inj hid, hj] at hi
    obtain ⟨key, keyId⟩ := entry
    cases hi
    exact congrArg _ (hextra.trans ((congrArg extraId (extraId_inj hid)).trans hextra'.symm))

theorem consider_subset (entries : List ApiKey) (acc : List ApiKey × Rotator)
    (h : entry ∈ (entries.foldl (Rotator.consider c health) acc).1) :
    entry ∈ acc.1 ∨ entry ∈ entries := by
  induction entries generalizing acc with
  | nil => exact .inl h
  | cons first entries ih =>
    have hfirst : (Rotator.consider c health acc first).1 = acc.1 ∨
        (Rotator.consider c health acc first).1 = acc.1 ++ [first] := ite_eq_or_eq ..
    rcases ih _ h with hold | hmem
    · rcases hfirst with heq | heq <;> rw [heq] at hold
      · exact .inl hold
      · rw [List.mem_append, List.mem_singleton] at hold
        exact hold.imp_right fun hnew => List.mem_cons.mpr (.inl hnew)
    · exact .inr (List.mem_cons_of_mem _ hmem)

/-- With no failures on record all keys are kept. -/
theorem consider_all (entries : List ApiKey) (acc : List ApiKey × Rotator)
    (hactive : ∀ key h, acc.2.keyHealth.get key = some h → h.status = .active) :
    (entries.foldl (Rotator.consider c []) acc).1 = acc.1 ++ entries ∧
      (entries.foldl (Rotator.consider c []) acc).2.keyIndexes = acc.2.keyIndexes := by
  induction entries generalizing acc with
  | nil => exact ⟨(List.append_nil _).symm, rfl⟩
  | cons entry entries ih =>
    have hstatus : ((acc.2.keyHealth.get (scopedKey c entry.keyId)).getD {}).status = .active := by
      cases hget : acc.2.keyHealth.get (scopedKey c entry.keyId) with
      | none => rfl
      | some h => exact hactive _ h hget
    obtain ⟨hkeys, hindexes⟩ := ih (Rotator.consider c [] acc entry) fun key h hget => by
      have hentry : (withEntry acc.2.keyHealth (scopedKey c entry.keyId)).get key = some h := hget
      by_cases hkey : scopedKey c entry.keyId = key
      · rw [← hkey, get_withEntry_self] at hentry
        rw [← Option.some.inj hentry, hstatus]
      · exact hactive key h (get_of_withEntry hkey hentry)
    refine ⟨?_, hindexes⟩
    rw [List.foldl_cons, hkeys, consider_active hstatus, List.append_assoc]
    rfl

theorem givenOut_iff : GivenOut c primaryKey extraKeys entry ↔
    entry ∈ numberedKeys primaryKey extraKeys := by
  constructor
  · rintro ⟨s, health, hkey⟩
    exact (consider_subset _ _ (mem_of_getValidApiKey hkey)).resolve_left List.not_mem_nil
  · intro hmem
    obtain ⟨i, hi, rfl⟩ := List.getElem_of_mem hmem
    refine ⟨{ keyIndexes := [(c, i)] }, [], ?_⟩
    obtain ⟨hkeys, hindexes⟩ := consider_all (c := c) (numberedKeys primaryKey extraKeys)
      ([], { keyIndexes := [(c, i)] }) (fun _ _ h => absurd h (by simp))
    unfold Rotator.getValidApiKey
    dsimp only
    rw [List.nil_append] at hkeys
    rw [hkeys, hindexes]
    clear hkeys hindexes
    generalize numberedKeys primaryKey extraKeys = keys at hi
    rcases keys with _ | ⟨first, _ | ⟨second, rest⟩⟩
    · exact absurd hi (Nat.not_lt_zero i)
    · obtain rfl := Nat.lt_one_iff.mp hi
      rfl
    · have hget : (JsMap.get c [(c, i)]).getD 0 = i := by
        rw [JsMap.get, if_pos rfl]
        rfl
      show (first :: second :: rest)[(JsMap.get c [(c, i)]).getD 0 % _]? = _
      rw [hget, Nat.mod_eq_of_lt hi]
      exact List.getElem?_eq_getElem hi

theorem mem_of_selectedKey {keyId : JsString}
    (hcond : ∀ i key, extraIndex keyId = some i → extraKeys[i]? = some key → key.trim ≠ [] →
      keyId = extraId i ∧ (validExtras extraKeys)[i]? = some key)
    (h : Rotator.selectedKey primaryKey extraKeys keyId = some entry) :
    entry ∈ numberedKeys primaryKey extraKeys := by
  unfold Rotator.selectedKey at h
  split at h
  · rename_i hprimary
    cases h
    exact mem_numberedKeys.mpr (.inl ⟨hprimary.2, rfl⟩)
  · split at h
    · rename_i extra hbind
      obtain ⟨i, hindex, hget⟩ := bind_eq_some_iff.mp hbind
      split at h
      · rename_i hkey
        cases h
        obtain ⟨hid, hvalid⟩ := hcond i extra hindex hget hkey
        exact mem_numberedKeys.mpr (.inr ⟨i, hvalid, hid⟩)
      · cases h
    · cases h

/-- A key that is resolved for an id is rotated to under this id, and no other key is, exactly
when an id of an extra key is written plainly and names the same key with the blank ones left
out. -/
theorem resolved_givenOut_iff (c primaryKey : JsString) (extraKeys : List JsString)
    (keyId : JsString) :
    (∀ s key, (Rotator.resolveKeyForRequest c primaryKey extraKeys keyId s).1 = some key →
      GivenOut c primaryKey extraKeys key ∧
        ∀ key', GivenOut c primaryKey extraKeys key' → key'.keyId = key.keyId → key' = key) ↔
    ∀ i key, extraIndex keyId = some i → extraKeys[i]? = some key → key.trim ≠ [] →
      keyId = extraId i ∧ (validExtras extraKeys)[i]? = some key := by
  constructor
  · intro hprop i key hindex hget hkey
    have hno : extraIndex primaryId = none ∧ extraIndex [] = none := by decide
    have hid : keyId ≠ primaryId := by
      rintro rfl
      cases hindex
    have hsome : keyId ≠ [] := by
      rintro rfl
      cases hindex
    have hfresh : (Rotator.getOrCreateHealth c keyId {}).1 = {} := by
      show ((withEntry [] (scopedKey c keyId)).get _).getD {} = {}
      rw [get_withEntry_self]
      rfl
    have hresolved : (Rotator.resolveKeyForRequest c primaryKey extraKeys keyId {}).1 =
        some ⟨key, keyId⟩ := by
      unfold Rotator.resolveKeyForRequest Rotator.selectedKey
      rw [if_neg hsome, if_neg fun h => hid h.1, hindex, bind_some, hget]
      dsimp only
      rw [if_pos hkey, hfresh]
      rfl
    rcases mem_numberedKeys.mp (givenOut_iff.mp (hprop _ _ hresolved).1) with h | ⟨j, hj, hextra⟩
    · exact absurd (congrArg ApiKey.keyId h.2) hid
    · have hij : j = i := by
        rw [show keyId = extraId j from hextra, extraIndex_extraId] at hindex
        exact Option.some.inj hindex
      rw [hij] at hj hextra
      exact ⟨hextra, hj⟩
  · intro hcond s key hkey
    have hgiven : ∀ s, (Rotator.getValidApiKey c primaryKey extraKeys [] s).1 = some key →
        key ∈ numberedKeys primaryKey extraKeys := fun s h => givenOut_iff.mp ⟨s, [], h⟩
    have hmem : key ∈ numberedKeys primaryKey extraKeys := by
      unfold Rotator.resolveKeyForRequest at hkey
      split at hkey
      · exact hgiven s hkey
      · dsimp only at hkey
        split at hkey
        · rename_i hselected
          split at hkey
          · exact hgiven _ hkey
          · cases hkey
            exact mem_of_selectedKey hcond hselected
        · exact hgiven _ hkey
    exact ⟨givenOut_iff.mpr hmem, fun key' h hid => eq_of_keyId (givenOut_iff.mp h) hmem hid⟩

/-- Behind a blank entry an id stands for two keys. -/
theorem resolved_otherKey :
    ¬ ∀ (c primaryKey : JsString) (extraKeys : List JsString) (keyId : JsString) (s : Rotator)
      (key : ApiKey),
      (Rotator.resolveKeyForRequest c primaryKey extraKeys keyId s).1 = some key →
      GivenOut c primaryKey extraKeys key ∧
        ∀ key', GivenOut c primaryKey extraKeys key' → key'.keyId = key.keyId → key' = key := by
  intro hall
  have hsame := (hall [] (js "p") [[], js "a", js "b"] (js "extra_1") {}
    ⟨js "a", js "extra_1"⟩ (by decide)).2 ⟨js "b", js "extra_1"⟩
    ⟨{ keyIndexes := [([], 2)] }, [], by decide⟩ rfl
  exact absurd hsame (by decide)

end RedRouter.Services.ApiKeys
