import Mathlib.Algebra.Group.Defs
import RedRouter.Lib.JsMap

/-!
# Counters that expire

A store holds counters under keys, and each may have a time after which it is
gone.  `incrBy` and `expire` are the two commands that change one, as the store
runs them: an expired counter starts again, and keeps the time it has otherwise.

`Lasting` is the invariant: no counter expires while it is still needed.  Under
it a needed counter is read as it is stored (`Lasting.read_eq`), so what is
stored (`stored`) only changes by the amounts of the increments.
-/

namespace RedRouter

structure ExpiringEntry (V : Type) where
  value : V
  expireAt : Option Nat := none
deriving DecidableEq

abbrev ExpiringStore (K V : Type) := JsMap K (ExpiringEntry V)

def ExpiringEntry.live {V : Type} (nowMs : Nat) (entry : ExpiringEntry V) : Bool :=
  match entry.expireAt with
  | none => true
  | some expireAt => nowMs ≤ expireAt

namespace ExpiringStore

variable {K V : Type} [DecidableEq K]

def read (store : ExpiringStore K V) (nowMs : Nat) (key : K) : Option (ExpiringEntry V) :=
  (store.get key).filter (ExpiringEntry.live nowMs)

/-- Sets when a counter expires, unless it is gone. -/
def expire (store : ExpiringStore K V) (nowMs : Nat) (key : K) (seconds : Nat) :
    ExpiringStore K V :=
  match store.read nowMs key with
  | some entry => store.set key { entry with expireAt := some (nowMs + seconds * 1000) }
  | none => store

variable [AddMonoid V]

def value (store : ExpiringStore K V) (nowMs : Nat) (key : K) : V :=
  ((store.read nowMs key).map ExpiringEntry.value).getD 0

/-- Adds to a counter, and gives the new value. -/
def incrBy (store : ExpiringStore K V) (nowMs : Nat) (key : K) (amount : V) :
    V × ExpiringStore K V :=
  let next := store.value nowMs key + amount
  (next, store.set key ⟨next, (store.read nowMs key).bind ExpiringEntry.expireAt⟩)

def stored (store : ExpiringStore K V) (key : K) : V :=
  ((store.get key).map ExpiringEntry.value).getD 0

variable {needed : K → Nat → Prop} {store : ExpiringStore K V} {nowMs : Nat}

omit [AddMonoid V] in
/-- No counter expires before the last time that it is needed at. -/
def Lasting (needed : K → Nat → Prop) (store : ExpiringStore K V) (nowMs : Nat) : Prop :=
  ∀ key last, needed key last → nowMs ≤ last → ∀ entry, store.get key = some entry →
      ∀ expireAt, entry.expireAt = some expireAt → last ≤ expireAt

omit [AddMonoid V] in
theorem Lasting.later (h : Lasting needed store nowMs) {laterMs : Nat} (hle : nowMs ≤ laterMs) :
    Lasting needed store laterMs :=
  fun key last hneeded hlast => h key last hneeded (Nat.le_trans hle hlast)

omit [AddMonoid V] in
theorem Lasting.read_eq (h : Lasting needed store nowMs) {key : K} {last : Nat}
    (hneeded : needed key last) (hlast : nowMs ≤ last) : store.read nowMs key = store.get key := by
  unfold read
  cases hget : store.get key with
  | none => rfl
  | some entry =>
    have hlive : entry.live nowMs = true := by
      unfold ExpiringEntry.live
      split
      · rfl
      · rename_i expireAt hexpire
        have hle := h key last hneeded hlast entry hget expireAt hexpire
        exact decide_eq_true (Nat.le_trans hlast hle)
    simp [hlive]

theorem Lasting.value_eq (h : Lasting needed store nowMs) {key : K} {last : Nat}
    (hneeded : needed key last) (hlast : nowMs ≤ last) :
    store.value nowMs key = store.stored key := by
  rw [value, h.read_eq hneeded hlast, stored]

omit [AddMonoid V] in
theorem get_of_read {key : K} {entry : ExpiringEntry V}
    (h : store.read nowMs key = some entry) : store.get key = some entry :=
  (Option.filter_eq_some_iff.mp h).1

theorem Lasting.incrBy (h : Lasting needed store nowMs) (key : K) (amount : V) :
    Lasting needed (store.incrBy nowMs key amount).2 nowMs := by
  intro key' last hneeded hlast entry hget expireAt hexpire
  rcases JsMap.get_set_cases hget with ⟨rfl, rfl⟩ | hold
  · obtain ⟨old, hread, hkept⟩ := Option.bind_eq_some_iff.mp hexpire
    exact h key' last hneeded hlast old (get_of_read hread) expireAt hkept
  · exact h key' last hneeded hlast entry hold expireAt hexpire

omit [AddMonoid V] in
theorem Lasting.expire (h : Lasting needed store nowMs) {key : K} {seconds : Nat}
    (hlong : ∀ last, needed key last → last ≤ nowMs + seconds * 1000) :
    Lasting needed (store.expire nowMs key seconds) nowMs := by
  unfold ExpiringStore.expire
  split
  · intro key' last hneeded hlast entry hget expireAt hexpire
    rcases JsMap.get_set_cases hget with ⟨rfl, rfl⟩ | hold
    · obtain rfl := Option.some.inj hexpire
      exact hlong last hneeded
    · exact h key' last hneeded hlast entry hold expireAt hexpire
  · exact h

theorem Lasting.stored_incrBy (h : Lasting needed store nowMs) {key : K} {last : Nat}
    (hneeded : needed key last) (hlast : nowMs ≤ last) (amount : V) (key' : K) :
    (store.incrBy nowMs key amount).2.stored key' =
      store.stored key' + if key = key' then amount else 0 := by
  have hvalue := h.value_eq hneeded hlast
  unfold ExpiringStore.incrBy stored
  rw [JsMap.get_set]
  split
  · rename_i hkey
    subst hkey
    exact congrArg (· + amount) hvalue
  · rw [add_zero]

theorem stored_expire (store : ExpiringStore K V) (nowMs : Nat) (key : K) (seconds : Nat)
    (key' : K) : (store.expire nowMs key seconds).stored key' = store.stored key' := by
  unfold expire
  split
  · rename_i entry hread
    unfold stored
    rw [JsMap.get_set]
    split
    · rename_i hkey
      rw [← hkey, get_of_read hread]
      rfl
    · rfl
  · rfl

end ExpiringStore

end RedRouter
