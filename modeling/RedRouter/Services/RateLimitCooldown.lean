import RedRouter.Lib.Runs
import RedRouter.Services.RateLimitSemaphore

/-!
# Cooldowns of the rate-limit semaphore

The cooldown of a model lives in its gate, and a gate without running and
waiting requests is removed.  The code removes it also while the cooldown
runs, and the next request gets a new gate without a cooldown.

`KeepsCooldown` says in the state before a step that the step does not lose a
cooldown: it does not remove an idle gate in its cooldown, and does not set a
shorter cooldown over a longer one.  When every step of a run is of this kind,
every cooldown holds for as long as it was asked for.
-/

namespace RedRouter.Services.RateLimit

open List JsMap

namespace ModelGate

variable {gate : ModelGate} {now : Nat} {u : Int}

theorem isRateLimited_of_lt (hu : gate.rateLimitedUntil = some u) (hlt : (now : Int) < u) :
    gate.isRateLimited now = (true, gate) := by
  unfold isRateLimited
  rw [hu]
  split
  · rename_i h
    cases h
  · rename_i h
    have hzero := Option.some.inj h
    omega
  · rename_i h
    cases h
    rw [if_neg (by omega)]

theorem hasSlot_of_lt (hu : gate.rateLimitedUntil = some u) (hlt : (now : Int) < u) :
    gate.hasSlot now = (false, gate) := by
  unfold hasSlot
  rw [isRateLimited_of_lt hu hlt]
  split <;> rfl

theorem isRateLimited_until (h : (gate.isRateLimited now).2.rateLimitedUntil = some u) :
    gate.rateLimitedUntil = some u := by
  unfold isRateLimited at h
  split at h
  · exact h
  · exact h
  · split at h
    · cases h
    · exact h

theorem isRateLimited_load (gate : ModelGate) (now : Nat) :
    (gate.isRateLimited now).2.running = gate.running ∧
      (gate.isRateLimited now).2.queue = gate.queue := by
  unfold isRateLimited
  split
  · exact ⟨rfl, rfl⟩
  · exact ⟨rfl, rfl⟩
  · split <;> exact ⟨rfl, rfl⟩

theorem hasSlot_load (gate : ModelGate) (now : Nat) :
    (gate.hasSlot now).2.running = gate.running ∧ (gate.hasSlot now).2.queue = gate.queue := by
  unfold hasSlot
  split
  · exact isRateLimited_load gate now
  · exact ⟨rfl, rfl⟩

theorem hasSlot_until (h : (gate.hasSlot now).2.rateLimitedUntil = some u) :
    gate.rateLimitedUntil = some u := by
  unfold hasSlot at h
  split at h
  · exact isRateLimited_until h
  · exact h

theorem drain_of_lt (hu : gate.rateLimitedUntil = some u) (hlt : (now : Int) < u) :
    gate.drain now gate.queue = (gate, []) := by
  cases hqueue : gate.queue with
  | nil =>
    rw [drain, ← hqueue]
  | cons next queue =>
    rw [drain, hasSlot_of_lt hu hlt, ← hqueue]
    rfl

theorem drain_until {queue : List QueueItem} (h : (gate.drain now queue).1.rateLimitedUntil = some u) :
    gate.rateLimitedUntil = some u := by
  induction queue generalizing gate with
  | nil => exact h
  | cons next queue ih =>
    rw [drain] at h
    dsimp only at h
    split at h
    · have hrest := ih h
      exact hasSlot_until hrest
    · exact hasSlot_until h

end ModelGate

namespace Semaphore

variable {s s' s'' : Semaphore} {m : JsString}

/-- No cooldown of the model runs. -/
def Open (s : Semaphore) (m : JsString) : Prop :=
  ∀ g u, s.gates.get m = some g → (s.heap g).rateLimitedUntil = some u → u ≤ s.now

theorem Open.put (h : s.Open m) {g : Nat} {gate : ModelGate}
    (hgate : ∀ u, gate.rateLimitedUntil = some u → (s.heap g).rateLimitedUntil = some u) :
    (s.put g gate).Open m := by
  intro g' u hg hu
  replace hu : (if g' = g then gate else s.heap g').rateLimitedUntil = some u := hu
  split at hu
  · rename_i heq
    subst heq
    exact h g' u hg (hgate u hu)
  · exact h g' u hg hu

/-- What an operation does to the cooldown of a model. -/
structure Calm (m : JsString) (s s' : Semaphore) : Prop where
  now : s'.now = s.now
  keeps : ∀ g u, s.gates.get m = some g → (s.heap g).rateLimitedUntil = some u → (s.now : Int) < u →
    s'.gates.get m = some g ∧ (s'.heap g).rateLimitedUntil = some u
  slots : ∀ (i : Nat) (slot' : Slot), s'.slots[i]? = some slot' → slot'.modelStr = m →
    (∃ slot : Slot, s.slots[i]? = some slot ∧ slot.modelStr = m ∧ slot.grantedAt = slot'.grantedAt) ∨
      (s.Open m ∧ slot'.grantedAt = s.now)

namespace Calm

theorem refl (m : JsString) (s : Semaphore) : Calm m s s where
  now := rfl
  keeps := fun _ _ hg hu _ => ⟨hg, hu⟩
  slots := fun _ slot hslot hm => .inl ⟨slot, hslot, hm, rfl⟩

theorem open_of_open (h : Calm m s s') (hopen : s'.Open m) : s.Open m := by
  intro g u hg hu
  by_contra hlt
  obtain ⟨hg', hu'⟩ := h.keeps g u hg hu (by omega)
  have hle := hopen g u hg' hu'
  rw [h.now] at hle
  exact hlt hle

theorem trans (h : Calm m s s') (h' : Calm m s' s'') : Calm m s s'' where
  now := h'.now.trans h.now
  keeps := by
    intro g u hg hu hlt
    obtain ⟨hg', hu'⟩ := h.keeps g u hg hu hlt
    exact h'.keeps g u hg' hu' (by rw [h.now]; exact hlt)
  slots := by
    intro i slot'' hslot hm
    rcases h'.slots i slot'' hslot hm with ⟨slot', hslot', hm', hat⟩ | ⟨hopen, hat⟩
    · rcases h.slots i slot' hslot' hm' with ⟨slot, hslot, hm, hat'⟩ | ⟨hopen, hat'⟩
      · exact .inl ⟨slot, hslot, hm, hat'.trans hat⟩
      · exact .inr ⟨hopen, hat.symm.trans hat'⟩
    · exact .inr ⟨h.open_of_open hopen, hat.trans h.now⟩

theorem put {g : Nat} {gate : ModelGate}
    (h : ∀ u, s.gates.get m = some g → (s.heap g).rateLimitedUntil = some u → (s.now : Int) < u →
      gate.rateLimitedUntil = some u) : Calm m s (s.put g gate) where
  now := rfl
  keeps := by
    intro g' u hg hu hlt
    refine ⟨hg, ?_⟩
    show (if g' = g then gate else s.heap g').rateLimitedUntil = some u
    split
    · rename_i heq
      subst heq
      exact h u hg hu hlt
    · exact hu
  slots := fun _ slot hslot hm => .inl ⟨slot, hslot, hm, rfl⟩

theorem delete {modelStr : JsString} (h : modelStr = m → s.Open m) :
    Calm m s { s with gates := s.gates.delete modelStr } where
  now := rfl
  keeps := by
    intro g u hg hu hlt
    refine ⟨?_, hu⟩
    show (s.gates.delete modelStr).get m = some g
    rw [get_delete]
    split
    · rename_i heq
      have hle := h heq g u hg hu
      omega
    · exact hg
  slots := fun _ slot hslot hm => .inl ⟨slot, hslot, hm, rfl⟩

theorem grant {new : List Slot} (hgates : s'.gates = s.gates) (hheap : s'.heap = s.heap)
    (hnow : s'.now = s.now) (hslots : s'.slots = s.slots ++ new)
    (hnew : ∀ slot ∈ new, slot.modelStr = m → s.Open m ∧ slot.grantedAt = s.now) : Calm m s s' where
  now := hnow
  keeps := by
    intro g u hg hu _
    rw [hgates, hheap]
    exact ⟨hg, hu⟩
  slots := by
    intro i slot' hslot hm
    rw [hslots, getElem?_append] at hslot
    split at hslot
    · exact .inl ⟨slot', hslot, hm, rfl⟩
    · exact .inr (hnew slot' (mem_of_getElem? hslot) hm)

theorem resolve {modelStr : JsString} {granted : List QueueItem}
    (h : modelStr = m → granted ≠ [] → s.Open m) : Calm m s (s.resolve modelStr granted) := by
  refine grant rfl rfl rfl rfl ?_
  intro slot hslot hm
  obtain ⟨item, hitem, rfl⟩ := mem_map.mp hslot
  exact ⟨h hm (ne_nil_of_mem hitem), rfl⟩

theorem setReleased {i : Nat} {slot : Slot} (hslot : s.slots[i]? = some slot) :
    Calm m s { s with slots := s.slots.set i { slot with released := true } } where
  now := rfl
  keeps := fun _ _ hg hu _ => ⟨hg, hu⟩
  slots := by
    intro j slot' hslot' hm
    replace hslot' : (s.slots.set i { slot with released := true })[j]? = some slot' := hslot'
    rw [getElem?_set] at hslot'
    split at hslot'
    · rename_i hij
      subst hij
      split at hslot'
      · rw [← Option.some.inj hslot'] at hm ⊢
        exact .inl ⟨slot, hslot, hm, rfl⟩
      · cases hslot'
    · exact .inl ⟨slot', hslot', hm, rfl⟩

end Calm

/-- The references of the models. -/
structure Referenced (s : Semaphore) : Prop where
  allocated : ∀ m g, s.gates.get m = some g → g < s.allocated
  apart : ∀ m m' g, s.gates.get m = some g → s.gates.get m' = some g → m = m'

theorem Referenced.put (h : Referenced s) (g : Nat) (gate : ModelGate) : Referenced (s.put g gate) :=
  ⟨h.allocated, h.apart⟩

theorem Referenced.delete (h : Referenced s) (modelStr : JsString) :
    Referenced { s with gates := s.gates.delete modelStr } := by
  have hget : ∀ m g, (s.gates.delete modelStr).get m = some g → s.gates.get m = some g :=
    fun _ _ hg => (get_delete_eq_some hg).2
  exact ⟨fun m g hg => h.allocated m g (hget m g hg),
    fun m m' g hg hg' => h.apart m m' g (hget m g hg) (hget m' g hg')⟩

/-! ## The operations -/

variable (modelStr : JsString)

theorem getGate_get (max : Nat) (s : Semaphore) :
    (s.getGate modelStr max).2.gates.get modelStr = some (s.getGate modelStr max).1 := by
  unfold getGate
  split
  · rename_i hget
    exact hget
  · show (s.gates.set modelStr s.allocated).get modelStr = _
    rw [get_set, if_pos rfl]

theorem getGate_now (max : Nat) (s : Semaphore) : (s.getGate modelStr max).2.now = s.now := by
  unfold getGate
  split <;> rfl

theorem getGate_heap (max : Nat) (s : Semaphore) :
    ((s.getGate modelStr max).2.heap (s.getGate modelStr max).1 =
        { s.heap (s.getGate modelStr max).1 with max := max } ∧
      s.gates.get modelStr = some (s.getGate modelStr max).1) ∨
    ((s.getGate modelStr max).2.heap (s.getGate modelStr max).1 = { max := max } ∧
      s.gates.get modelStr = none) := by
  unfold getGate
  split
  · rename_i g hget
    exact .inl ⟨if_pos rfl, hget⟩
  · rename_i hget
    exact .inr ⟨if_pos rfl, hget⟩

theorem Calm.getGate (href : Referenced s) (m modelStr : JsString) (max : Nat) :
    Calm m s (s.getGate modelStr max).2 := by
  unfold Semaphore.getGate
  split
  · exact Calm.put fun u _ hu _ => hu
  · rename_i hnone
    refine ⟨rfl, ?_, fun _ slot hslot hm => .inl ⟨slot, hslot, hm, rfl⟩⟩
    intro g u hg hu _
    have hne : modelStr ≠ m := by
      rintro rfl
      rw [hnone] at hg
      cases hg
    have hold : g ≠ s.allocated := Nat.ne_of_lt (href.allocated m g hg)
    refine ⟨?_, ?_⟩
    · show (s.gates.set modelStr s.allocated).get m = some g
      rw [get_set, if_neg hne]
      exact hg
    · show (if g = s.allocated then _ else s.heap g).rateLimitedUntil = some u
      rw [if_neg hold]
      exact hu

theorem Referenced.getGate (h : Referenced s) (modelStr : JsString) (max : Nat) :
    Referenced (s.getGate modelStr max).2 := by
  unfold Semaphore.getGate
  split
  · exact h.put _ _
  · have hget : ∀ m g, (s.gates.set modelStr s.allocated).get m = some g →
        (m = modelStr ∧ g = s.allocated) ∨ s.gates.get m = some g :=
      fun m g hg => get_set_cases hg
    refine ⟨?_, ?_⟩
    · intro m g hg
      show g < s.allocated + 1
      rcases hget m g hg with ⟨-, rfl⟩ | hg
      · omega
      · have hlt := h.allocated m g hg
        omega
    · intro m m' g hg hg'
      rcases hget m g hg with ⟨rfl, rfl⟩ | hold
      · rcases hget m' _ hg' with ⟨rfl, -⟩ | hold'
        · rfl
        · exact absurd (h.allocated m' _ hold') (Nat.lt_irrefl _)
      · rcases hget m' g hg' with ⟨rfl, rfl⟩ | hold'
        · exact absurd (h.allocated m _ hold) (Nat.lt_irrefl _)
        · exact h.apart m m' g hold hold'

theorem Referenced.drainQueue (h : Referenced s) (modelStr : JsString) :
    Referenced (s.drainQueue modelStr) := by
  unfold Semaphore.drainQueue
  split
  · exact h
  · rename_i g _
    have hput : Referenced ((s.put g ((s.heap g).drain s.now (s.heap g).queue).1).resolve modelStr
        ((s.heap g).drain s.now (s.heap g).queue).2) := ⟨h.allocated, h.apart⟩
    dsimp only
    split
    · exact hput.delete modelStr
    · exact hput

/-- A drain keeps a running cooldown when the gate of the model is not idle. -/
theorem Calm.drainQueue (href : Referenced s) (m modelStr : JsString)
    (hidle : ∀ g, modelStr = m → s.gates.get m = some g → (s.heap g).running = 0 →
      (s.heap g).queue = [] → s.Open m) : Calm m s (s.drainQueue modelStr) := by
  unfold Semaphore.drainQueue
  split
  · exact Calm.refl m s
  rename_i g hget
  by_cases hcool : ∃ u, modelStr = m ∧ (s.heap g).rateLimitedUntil = some u ∧ (s.now : Int) < u
  · -- The gate of the model is in its cooldown: nothing is granted and nothing changes.
    obtain ⟨u, rfl, hu, hlt⟩ := hcool
    rw [ModelGate.drain_of_lt hu hlt]
    dsimp only
    have hsame : Calm modelStr s ((s.put g (s.heap g)).resolve modelStr []) :=
      (Calm.put fun u _ hu _ => hu).trans (Calm.resolve fun _ hne => absurd rfl hne)
    split
    · rename_i hempty
      have hle := hidle g rfl hget hempty.1 hempty.2 g u hget hu
      omega
    · exact hsame
  · have hopen : modelStr = m → s.Open m := by
      rintro rfl g' u hg' hu
      by_contra hlt
      rw [hget] at hg'
      cases hg'
      exact hcool ⟨u, rfl, hu, by omega⟩
    dsimp only
    have hput : Calm m s (s.put g ((s.heap g).drain s.now (s.heap g).queue).1) := by
      refine Calm.put ?_
      intro u hg hu hlt
      exact absurd ⟨u, href.apart _ _ g hget hg, hu, hlt⟩ hcool
    have hopen' : modelStr = m → (s.put g ((s.heap g).drain s.now (s.heap g).queue).1).Open m :=
      fun hm => (hopen hm).put fun _ hu => ModelGate.drain_until hu
    have hresolve : Calm m s ((s.put g ((s.heap g).drain s.now (s.heap g).queue).1).resolve modelStr
        ((s.heap g).drain s.now (s.heap g).queue).2) :=
      hput.trans (Calm.resolve fun hm _ => hopen' hm)
    split
    · exact hresolve.trans (Calm.delete fun hm => hopen' hm)
    · exact hresolve

def cooling (gate : ModelGate) (now : Nat) : Bool :=
  gate.rateLimitedUntil.any fun u => (now : Int) < u

theorem open_of_not_cooling (h : ∀ gate ∈ s.gateOf m, cooling gate s.now = false) : s.Open m := by
  intro g u hg hu
  have hgate := h (s.heap g) (by rw [gateOf, hg]; rfl)
  rw [cooling, hu] at hgate
  have hle : ¬ (s.now : Int) < u := by simpa using hgate
  omega

/-- In the state before it, the step loses no cooldown: an idle gate in its
cooldown is not removed, and no cooldown is made shorter. -/
def KeepsCooldown (s : Semaphore) : Event → Prop
  | .acquire modelStr options => options.maxQueueSize = some 0 → ∀ gate ∈ s.gateOf modelStr,
      gate.running = 0 → gate.queue = [] → cooling gate s.now = false
  | .release i => ∀ slot ∈ s.slots[i]?, slot.released = false → ∀ gate ∈ s.gateOf slot.modelStr,
      gate.running = 1 → gate.queue = [] → cooling gate s.now = false
  | .markRateLimited modelStr cooldownMs => ∀ gate ∈ s.gateOf modelStr,
      ∀ u ∈ gate.rateLimitedUntil, (s.now : Int) < u → u ≤ s.now + cooldownMs
  -- Only a timer of a gate that was removed can find another gate in its cooldown.
  | .cooldown i => ∀ t ∈ s.cooldownTimers[i]?, t.dueAt ≤ s.now →
      s.gates.get t.modelStr ≠ some t.gate → cooldownOver (s.heap t.gate) s.now = true →
      ∀ gate ∈ s.gateOf t.modelStr, gate.running = 0 → gate.queue = [] → cooling gate s.now = false
  | .timeout _ => True
  | .advance _ => True

theorem gateOf_of_get {g : Nat} (hg : s.gates.get m = some g) : s.heap g ∈ s.gateOf m := by
  rw [gateOf, hg]
  rfl

theorem open_of_idle {g : Nat} (hg : s.gates.get m = some g)
    (h : cooling (s.heap g) s.now = false) : s.Open m := by
  refine open_of_not_cooling ?_
  intro gate hgate
  rw [gateOf, hg] at hgate
  cases hgate
  exact h

theorem Calm.put_hasSlot {g : Nat} : Calm m s (s.put g ((s.heap g).hasSlot s.now).2) := by
  refine Calm.put ?_
  intro u _ hu hlt
  rw [ModelGate.hasSlot_of_lt hu hlt]
  exact hu

theorem open_of_hasSlot {g : Nat} (hg : s.gates.get m = some g)
    (h : ((s.heap g).hasSlot s.now).1 = true) : s.Open m := by
  intro g' u hg' hu
  rw [hg] at hg'
  cases hg'
  by_contra hlt
  rw [ModelGate.hasSlot_of_lt hu (by omega)] at h
  cases h

theorem queueFull_idle {maxQueueSize : Option Int} {gate : ModelGate} {size : Int}
    (h : queueFull maxQueueSize gate = some size) (hqueue : gate.queue = []) :
    maxQueueSize = some 0 := by
  obtain ⟨hsize, hbounds⟩ := Option.filter_eq_some_iff.mp h
  simp only [hqueue, length_nil, decide_eq_true_eq] at hbounds
  rw [hsize]
  congr 1
  omega

section

variable (href : Referenced s)
include href

theorem step_acquire {modelStr : JsString} {options : AcquireOptions}
    (hkeeps : s.KeepsCooldown (.acquire modelStr options)) (m : JsString) :
    Calm m s (s.acquire modelStr options).2 ∧ Referenced (s.acquire modelStr options).2 := by
  have hget := getGate_get modelStr options.maxConcurrency s
  have hgate := getGate_heap modelStr options.maxConcurrency s
  have hnow := getGate_now modelStr options.maxConcurrency s
  have hcalm := Calm.getGate href m modelStr options.maxConcurrency
  have href' := href.getGate modelStr options.maxConcurrency
  unfold acquire
  generalize s.getGate modelStr options.maxConcurrency = found at *
  obtain ⟨g, s'⟩ := found
  dsimp only at *
  have hchecked : Calm m s (s'.put g ((s'.heap g).hasSlot s'.now).2) := hcalm.trans Calm.put_hasSlot
  have hload := ModelGate.hasSlot_load (s'.heap g) s'.now
  have huntil : ∀ u, ((s'.heap g).hasSlot s'.now).2.rateLimitedUntil = some u →
      (s'.heap g).rateLimitedUntil = some u := fun u hu => ModelGate.hasSlot_until hu
  generalize hslot : (s'.heap g).hasSlot s'.now = slot at *
  obtain ⟨free, gate⟩ := slot
  have hwritten : (s'.put g gate).heap g = gate := if_pos rfl
  split
  · rename_i hfree
    refine ⟨?_, href'.allocated, href'.apart⟩
    have hrun : Calm m s ((s'.put g gate).put g { gate with running := gate.running + 1 }) :=
      hchecked.trans (Calm.put fun u _ hu _ => by rw [hwritten] at hu; exact hu)
    refine hrun.trans (Calm.grant rfl rfl rfl rfl ?_)
    intro new hnew hm
    rw [mem_singleton.mp hnew] at hm ⊢
    subst hm
    have hopen : s'.Open modelStr := open_of_hasSlot hget (by rw [hslot]; exact hfree)
    refine ⟨(hopen.put huntil).put ?_, rfl⟩
    intro u hu
    rw [hwritten]
    exact hu
  · split
    · rename_i size hfull
      split
      · rename_i hidle
        refine ⟨hchecked.trans (Calm.delete ?_), (href'.put g gate).delete modelStr⟩
        rintro rfl
        -- The gate is the one of the state before, or a new one without a cooldown.
        refine Open.put ?_ huntil
        intro g' u hg' hu
        rw [hget] at hg'
        cases hg'
        rcases hgate with ⟨hold, hgets⟩ | ⟨hfresh, -⟩
        · have hquiet := hkeeps (queueFull_idle hfull hidle.2) (s.heap g) (gateOf_of_get hgets)
            (by rw [← hidle.1, hload.1, hold]) (by rw [← hidle.2, hload.2, hold])
          rw [hold] at hu
          have hle := open_of_idle hgets hquiet g u hgets hu
          rw [hnow]
          exact hle
        · rw [hfresh] at hu
          cases hu
      · exact ⟨hchecked, href'.allocated, href'.apart⟩
    · refine ⟨?_, href'.allocated, href'.apart⟩
      have hqueued : Calm m s ((s'.put g gate).put g
          { gate with queue := gate.queue ++ [⟨s'.nextTimer⟩] }) :=
        hchecked.trans (Calm.put fun u _ hu _ => by rw [hwritten] at hu; exact hu)
      exact hqueued.trans (Calm.grant rfl rfl rfl (append_nil _).symm
        (fun _ hnil => absurd hnil not_mem_nil))

theorem step_giveBack (m modelStr : JsString)
    (hlast : ∀ g, s.gates.get modelStr = some g → (s.heap g).running = 1 → (s.heap g).queue = [] →
      s.Open modelStr) : Calm m s (s.giveBack modelStr) ∧ Referenced (s.giveBack modelStr) := by
  unfold giveBack
  split
  · exact ⟨Calm.refl m s, href⟩
  rename_i g hget
  split
  · dsimp only
    have href' := href.put g { s.heap g with running := (s.heap g).running - 1 }
    have hless : Calm m s (s.put g { s.heap g with running := (s.heap g).running - 1 }) :=
      Calm.put fun u _ hu _ => hu
    split
    · rename_i hidle
      refine ⟨hless.trans (Calm.delete ?_), href'.delete _⟩
      rintro rfl
      exact (hlast g hget (by omega) hidle.2).put fun u hu => hu
    · rename_i hbusy
      refine ⟨hless.trans (Calm.drainQueue href' m modelStr ?_), href'.drainQueue _⟩
      rintro g' rfl hg' hrunning hqueue
      replace hg' : s.gates.get modelStr = some g' := hg'
      rw [hget] at hg'
      cases hg'
      have hwritten : (s.put g { s.heap g with running := (s.heap g).running - 1 }).heap g =
          { s.heap g with running := (s.heap g).running - 1 } := if_pos rfl
      rw [hwritten] at hrunning hqueue
      exact absurd ⟨hrunning, hqueue⟩ hbusy
  · exact ⟨Calm.refl m s, href⟩

theorem step_release {i : Nat} (hkeeps : s.KeepsCooldown (.release i))
    (m : JsString) : Calm m s (s.release i) ∧ Referenced (s.release i) := by
  unfold release
  split
  · exact ⟨Calm.refl m s, href⟩
  rename_i slot hslot
  split
  · exact ⟨Calm.refl m s, href⟩
  rename_i hrel
  have hflag : Calm m s { s with slots := s.slots.set i { slot with released := true } } :=
    Calm.setReleased hslot
  have hflagged : Referenced { s with slots := s.slots.set i { slot with released := true } } :=
    ⟨href.allocated, href.apart⟩
  have hback := step_giveBack hflagged m slot.modelStr (by
    intro g hget hrunning hqueue
    exact open_of_idle hget (hkeeps slot hslot (by simpa using hrel) (s.heap g)
      (gateOf_of_get hget) hrunning hqueue))
  exact ⟨hflag.trans hback.1, hback.2⟩

theorem step_timeout (timer : Nat) (m : JsString) :
    Calm m s (s.onTimeout timer).2 ∧ Referenced (s.onTimeout timer).2 := by
  unfold onTimeout
  split
  · exact ⟨Calm.refl m s, href⟩
  · rename_i t _
    refine ⟨?_, href.allocated, href.apart⟩
    have herased : Calm m s (s.put t.gate
        { s.heap t.gate with queue := (s.heap t.gate).queue.erase ⟨timer⟩ }) :=
      Calm.put fun u _ hu _ => hu
    exact herased.trans (Calm.grant rfl rfl rfl (append_nil _).symm
      (fun _ hnil => absurd hnil not_mem_nil))

end

theorem le_of_cooldownOver {gate : ModelGate} {now : Nat} {u : Int}
    (h : cooldownOver gate now = true) (hu : gate.rateLimitedUntil = some u) : u ≤ now := by
  unfold cooldownOver at h
  rw [hu] at h
  split at h
  · cases h
  · cases h
  · rename_i heq
    cases heq
    simpa using h

theorem step_endCooldown (href : Referenced s) {t : CooldownTimer} (m : JsString)
    (hstale : s.gates.get t.modelStr ≠ some t.gate → cooldownOver (s.heap t.gate) s.now = true →
      ∀ g, s.gates.get t.modelStr = some g → (s.heap g).running = 0 → (s.heap g).queue = [] →
        s.Open t.modelStr) : Calm m s (s.endCooldown t) ∧ Referenced (s.endCooldown t) := by
  unfold endCooldown
  split
  · rename_i hover
    have href' := href.put t.gate { s.heap t.gate with rateLimitedUntil := none }
    have hcleared : Calm m s (s.put t.gate { s.heap t.gate with rateLimitedUntil := none }) := by
      refine Calm.put ?_
      intro u _ hu hlt
      have hle := le_of_cooldownOver hover hu
      omega
    refine ⟨hcleared.trans (Calm.drainQueue href' m t.modelStr ?_), href'.drainQueue _⟩
    rintro g rfl hg hrunning hqueue
    replace hg : s.gates.get t.modelStr = some g := hg
    by_cases hown : g = t.gate
    · -- The timer's own gate has no cooldown any more.
      have hopen : s.Open t.modelStr := by
        intro g' u hg' hu
        rw [hg, hown] at hg'
        cases hg'
        exact le_of_cooldownOver hover hu
      exact hopen.put nofun
    · have hother : (s.put t.gate { s.heap t.gate with rateLimitedUntil := none }).heap g =
          s.heap g := if_neg hown
      rw [hother] at hrunning hqueue
      have hgone : s.gates.get t.modelStr ≠ some t.gate := by
        rw [hg]
        exact fun heq => hown (Option.some.inj heq)
      exact (hstale hgone hover g hg hrunning hqueue).put nofun
  · exact ⟨Calm.refl m s, href⟩

theorem step_cooldown (href : Referenced s) {i : Nat} (hkeeps : s.KeepsCooldown (.cooldown i))
    (m : JsString) : Calm m s (s.onCooldown i) ∧ Referenced (s.onCooldown i) := by
  unfold onCooldown
  split
  · exact ⟨Calm.refl m s, href⟩
  rename_i t ht
  split
  · rename_i hdue
    have hfired : Calm m s { s with cooldownTimers := s.cooldownTimers.eraseIdx i } :=
      Calm.grant rfl rfl rfl (append_nil _).symm (fun _ hnil => absurd hnil not_mem_nil)
    have href' : Referenced { s with cooldownTimers := s.cooldownTimers.eraseIdx i } :=
      ⟨href.allocated, href.apart⟩
    have hended := step_endCooldown href' (t := t) m (by
      intro hgone hover g hget hrunning hqueue
      exact open_of_idle hget (hkeeps t ht hdue hgone hover (s.heap g) (gateOf_of_get hget)
        hrunning hqueue))
    exact ⟨hfired.trans hended.1, hended.2⟩
  · exact ⟨Calm.refl m s, href⟩

theorem Referenced.mark (href : Referenced s) (modelStr : JsString) (cooldownMs : Int) :
    Referenced (s.markRateLimited modelStr cooldownMs) :=
  have hgate := href.getGate modelStr (((s.gateOf modelStr).map ModelGate.max).getD 3)
  ⟨hgate.allocated, hgate.apart⟩

theorem markRateLimited_until (cooldownMs : Int) (s : Semaphore) :
    ∃ g, (s.markRateLimited modelStr cooldownMs).gates.get modelStr = some g ∧
      ((s.markRateLimited modelStr cooldownMs).heap g).rateLimitedUntil =
        some (s.now + cooldownMs) := by
  have hget := getGate_get modelStr (((s.gateOf modelStr).map ModelGate.max).getD 3) s
  have hnow := getGate_now modelStr (((s.gateOf modelStr).map ModelGate.max).getD 3) s
  refine ⟨_, hget, ?_⟩
  unfold markRateLimited
  dsimp only
  rw [hnow]
  exact congrArg ModelGate.rateLimitedUntil (if_pos rfl)

theorem markRateLimited_frame (cooldownMs : Int) (s : Semaphore) :
    (s.markRateLimited modelStr cooldownMs).now = s.now ∧
      (s.markRateLimited modelStr cooldownMs).slots = s.slots := by
  have hslots : (s.getGate modelStr (((s.gateOf modelStr).map ModelGate.max).getD 3)).2.slots =
      s.slots := by
    unfold getGate
    split <;> rfl
  exact ⟨getGate_now modelStr (((s.gateOf modelStr).map ModelGate.max).getD 3) s, hslots⟩

theorem Calm.mark (href : Referenced s) {m modelStr : JsString} (hne : modelStr ≠ m)
    (cooldownMs : Int) : Calm m s (s.markRateLimited modelStr cooldownMs) := by
  have hget := getGate_get modelStr (((s.gateOf modelStr).map ModelGate.max).getD 3) s
  have hcalm := Calm.getGate href m modelStr (((s.gateOf modelStr).map ModelGate.max).getD 3)
  have href' := href.getGate modelStr (((s.gateOf modelStr).map ModelGate.max).getD 3)
  unfold markRateLimited
  dsimp only
  generalize s.getGate modelStr (((s.gateOf modelStr).map ModelGate.max).getD 3) = found at *
  obtain ⟨g, s'⟩ := found
  have hput : Calm m s' (s'.put g { s'.heap g with rateLimitedUntil := some (s'.now + cooldownMs) }) :=
    Calm.put fun u hg _ _ => absurd (href'.apart _ _ g hget hg) hne
  exact (hcalm.trans hput).trans (Calm.grant rfl rfl rfl (append_nil _).symm
    (fun _ hnil => absurd hnil not_mem_nil))

/-! ## Runs -/

/-- A cooldown of the model lasts until a time, and of the slots after the
first ones none is granted for the model before that time. -/
structure Paused (m : JsString) (resumesAt : Int) (first : Nat) (s : Semaphore) : Prop where
  referenced : Referenced s
  cooldown : (s.now : Int) < resumesAt →
    ∃ g u, s.gates.get m = some g ∧ (s.heap g).rateLimitedUntil = some u ∧ resumesAt ≤ u
  late : ∀ (i : Nat) (slot : Slot), first ≤ i → s.slots[i]? = some slot → slot.modelStr = m →
    resumesAt ≤ slot.grantedAt

variable {resumesAt : Int} {first : Nat}

theorem Paused.calm (h : Paused m resumesAt first s) (hcalm : Calm m s s') (href : Referenced s') :
    Paused m resumesAt first s' where
  referenced := href
  cooldown := by
    intro hlt
    rw [hcalm.now] at hlt
    obtain ⟨g, u, hg, hu, hle⟩ := h.cooldown hlt
    obtain ⟨hg', hu'⟩ := hcalm.keeps g u hg hu (by omega)
    exact ⟨g, u, hg', hu', hle⟩
  late := by
    intro i slot' hi hslot' hm
    rcases hcalm.slots i slot' hslot' hm with ⟨slot, hslot, hm', hat⟩ | ⟨hopen, hat⟩
    · rw [← hat]
      exact h.late i slot hi hslot hm'
    · -- A slot that is granted now: no cooldown runs, so the time has come.
      by_contra hlt
      obtain ⟨g, u, hg, hu, hle⟩ := h.cooldown (by omega)
      have hover := hopen g u hg hu
      omega

theorem Paused.step (h : Paused m resumesAt first s) {event : Event}
    (hkeeps : s.KeepsCooldown event) : Paused m resumesAt first (s.step event) := by
  cases event with
  | acquire modelStr options =>
    have hacquire := step_acquire h.referenced hkeeps m
    exact h.calm hacquire.1 hacquire.2
  | release i =>
    have hrelease := step_release h.referenced hkeeps m
    exact h.calm hrelease.1 hrelease.2
  | timeout timer =>
    have htimeout := step_timeout h.referenced timer m
    exact h.calm htimeout.1 htimeout.2
  | cooldown i =>
    have hcooldown := step_cooldown h.referenced hkeeps m
    exact h.calm hcooldown.1 hcooldown.2
  | markRateLimited modelStr cooldownMs =>
    have href := h.referenced.mark modelStr cooldownMs
    by_cases hm : modelStr = m
    · subst hm
      obtain ⟨hnow, hslots⟩ := markRateLimited_frame modelStr cooldownMs s
      obtain ⟨g, hg, hu⟩ := markRateLimited_until modelStr cooldownMs s
      refine ⟨href, ?_, ?_⟩
      · intro hlt
        rw [step, hnow] at hlt
        obtain ⟨g', u', hg', hu', hle⟩ := h.cooldown hlt
        have hlonger := hkeeps (s.heap g') (gateOf_of_get hg') u' hu' (by omega)
        exact ⟨g, _, hg, hu, by omega⟩
      · intro i slot hi hslot
        rw [step, hslots] at hslot
        exact h.late i slot hi hslot
    · exact h.calm (Calm.mark h.referenced hm cooldownMs) href
  | advance ms =>
    refine ⟨⟨h.referenced.allocated, h.referenced.apart⟩, ?_, h.late⟩
    intro hlt
    refine h.cooldown ?_
    have hlt : ((s.now + ms : Nat) : Int) < resumesAt := hlt
    omega

theorem Referenced.step (href : Referenced s) {event : Event} (hkeeps : s.KeepsCooldown event) :
    Referenced (s.step event) := by
  have hpaused : Paused [] s.now s.slots.length s := by
    refine ⟨href, fun hlt => absurd hlt (by omega), ?_⟩
    intro i slot hi hslot
    have hlt := (List.getElem?_eq_some_iff.mp hslot).1
    omega
  exact (hpaused.step hkeeps).referenced

theorem referenced_start (now : Nat) : Referenced { now := now } where
  allocated := nofun
  apart := nofun

/-- When no step of a run loses a cooldown, no request for a model is granted
before the cooldown of every earlier mark of the model is over. -/
theorem no_grant_before_cooldown (now : Nat) (before after : List Event) (modelStr : JsString)
    (cooldownMs : Int)
    (h : Runs.Along step KeepsCooldown { now := now }
      (before ++ .markRateLimited modelStr cooldownMs :: after)) :
    ∀ (i : Nat) (slot : Slot), (run now before).slots.length ≤ i →
      (run now (before ++ .markRateLimited modelStr cooldownMs :: after)).slots[i]? = some slot →
      slot.modelStr = modelStr → (run now before).now + cooldownMs ≤ slot.grantedAt := by
  obtain ⟨hbefore, -, hafter⟩ := Runs.along_append.mp h
  have href : Referenced (run now before) :=
    Runs.along_invariant Referenced (fun _ _ href hkeeps => href.step hkeeps)
      (referenced_start now) hbefore
  have hpaused : Paused modelStr ((run now before).now + cooldownMs) (run now before).slots.length
      ((run now before).markRateLimited modelStr cooldownMs) := by
    obtain ⟨g, hg, hu⟩ := markRateLimited_until modelStr cooldownMs (run now before)
    refine ⟨href.mark modelStr cooldownMs, fun _ => ⟨g, _, hg, hu, Int.le_refl _⟩, ?_⟩
    intro i slot hi hslot
    rw [(markRateLimited_frame modelStr cooldownMs _).2] at hslot
    have hlt := (List.getElem?_eq_some_iff.mp hslot).1
    omega
  have hend := Runs.along_invariant
    (Paused modelStr ((run now before).now + cooldownMs) (run now before).slots.length)
    (fun _ _ hpaused hkeeps => hpaused.step hkeeps) hpaused hafter
  have hrun : run now (before ++ .markRateLimited modelStr cooldownMs :: after) =
      after.foldl step ((run now before).markRateLimited modelStr cooldownMs) := by
    rw [run, foldl_append]
    rfl
  intro i slot hi hslot hm
  rw [hrun] at hslot
  exact hend.late i slot hi hslot hm

instance (s : Semaphore) : (event : Event) → Decidable (s.KeepsCooldown event)
  | .acquire modelStr options => inferInstanceAs (Decidable (options.maxQueueSize = some 0 →
      ∀ gate ∈ s.gateOf modelStr, gate.running = 0 → gate.queue = [] → cooling gate s.now = false))
  | .release i => inferInstanceAs (Decidable (∀ slot ∈ s.slots[i]?, slot.released = false →
      ∀ gate ∈ s.gateOf slot.modelStr, gate.running = 1 → gate.queue = [] →
        cooling gate s.now = false))
  | .markRateLimited modelStr cooldownMs => inferInstanceAs (Decidable (∀ gate ∈ s.gateOf modelStr,
      ∀ u ∈ gate.rateLimitedUntil, (s.now : Int) < u → u ≤ s.now + cooldownMs))
  | .cooldown i => inferInstanceAs (Decidable (∀ t ∈ s.cooldownTimers[i]?, t.dueAt ≤ s.now →
      s.gates.get t.modelStr ≠ some t.gate → cooldownOver (s.heap t.gate) s.now = true →
      ∀ gate ∈ s.gateOf t.modelStr, gate.running = 0 → gate.queue = [] →
        cooling gate s.now = false))
  | .timeout _ => isTrue trivial
  | .advance _ => isTrue trivial

/-- Two requests run when the model is marked, and one of them completes in
the cooldown.  A third one is granted when the cooldown is over. -/
theorem no_grant_before_cooldown_busy :
    let before : List Event := [.acquire (js "m") {}, .acquire (js "m") {}]
    let after : List Event := [.release 0, .acquire (js "m") {}, .advance 1050, .cooldown 0]
    Runs.Along step KeepsCooldown { now := 0 } (before ++ .markRateLimited (js "m") 1000 :: after) ∧
      (run 0 (before ++ .markRateLimited (js "m") 1000 :: after)).slots[2]? =
        some ⟨js "m", 1050, false⟩ ∧
      (run 0 before).now + (1000 : Int) ≤ (1050 : Nat) := by
  intro before after
  have hkeeps : Runs.Along step KeepsCooldown { now := 0 }
      (before ++ .markRateLimited (js "m") 1000 :: after) := by decide
  have hslot : (run 0 (before ++ .markRateLimited (js "m") 1000 :: after)).slots[2]? =
      some ⟨js "m", 1050, false⟩ := by decide
  have hfirst : (run 0 before).slots.length ≤ 2 := by decide
  have hlate := no_grant_before_cooldown 0 before after (js "m") 1000 hkeeps 2
    ⟨js "m", 1050, false⟩ hfirst hslot rfl
  exact ⟨hkeeps, hslot, hlate⟩

/-- The only running request completes in the cooldown.  Its release removes
the gate, and the next request is granted at once. -/
theorem release_loses_cooldown :
    let before : List Event := [.acquire (js "m") {}]
    let after : List Event := [.release 0, .acquire (js "m") {}]
    (run 0 before).slots.length ≤ 1 ∧
      (run 0 (before ++ .markRateLimited (js "m") 1000 :: after)).slots[1]? =
        some ⟨js "m", 0, false⟩ ∧
      ¬ (run 0 before).now + (1000 : Int) ≤ (0 : Nat) := by
  decide

end Semaphore

end RedRouter.Services.RateLimit
