import RedRouter.Lib.Decimal
import RedRouter.Lib.ExpiringStore
import RedRouter.Lib.FixedWindow
import RedRouter.Lib.Separators

/-!
# The rate limiter of the API keys

`checkRateLimit` answers the rules of a key from counters that are kept either
in the process or in Redis.  The counters in the process are entries of a map
under the key, the window and the number of the window, and the entries of
windows that are over are dropped when the map has grown.  The counters in
Redis are read and written by a script, and expire.

Both show the units that the accepted calls consumed (`memory_step`,
`redis_step`), so both are limiters of `FixedWindow`.
-/

namespace RedRouter.Shared.RateLimiter

open List FixedWindow Separators

structure RateLimitResult where
  allowed : Bool
  failedWindow : Option Nat := none
  resetAt : Option Nat := none
deriving DecidableEq

def computeFixedWindowResetAt (nowSeconds windowSeconds : Nat) : Nat :=
  (nowSeconds / windowSeconds + 1) * windowSeconds * 1000

/-! ## In the process -/

abbrev MemoryStore := JsMap JsString Nat

def evictionThreshold : Nat := 50

def windowKey (keyId : JsString) (window number : Nat) : JsString :=
  js "rl:api_key:" ++ keyId ++ js ":" ++ JsString.ofNat window ++ js ":" ++ JsString.ofNat number

/-- Whether a key names a window that is over, read from its last two colons. -/
def isStale (nowSeconds : Nat) (key : JsString) : Bool :=
  match cutLast (unit ':') key with
  | none => false
  | some (before, windowNumber) =>
      match cutLast (unit ':') before with
      | none => false
      | some (_, windowSize) =>
          match JsString.readNat windowNumber, JsString.readNat windowSize with
          | some windowNumber, some windowSize =>
              decide (0 < windowSize ∧ (windowNumber + 1) * windowSize ≤ nowSeconds)
          | _, _ => false

variable (store : MemoryStore)

def evictStaleRateLimitWindows (nowSeconds : Nat) : MemoryStore :=
  store.filter fun entry => !isStale nowSeconds entry.1

def MemoryStore.count (keyId : JsString) (window number : Nat) : Nat :=
  (store.get (windowKey keyId window number)).getD 0

/-- One more unit of the current window of a rule. -/
def MemoryStore.consume (now : Nat) (keyId : JsString) (store : MemoryStore) (rule : Rule) :
    MemoryStore :=
  let currentWindow := now / rule.window
  store.set (windowKey keyId rule.window currentWindow)
    (store.count keyId rule.window currentWindow + 1)

def checkInMemoryRateLimit (nowMs : Nat) (keyId : JsString)
    (rules : List Rule) : RateLimitResult × MemoryStore :=
  let now := nowMs / 1000
  let store :=
    if evictionThreshold < store.length then evictStaleRateLimitWindows store now else store
  match rules.find? fun rule => rule.limit ≤ store.count keyId rule.window (now / rule.window) with
  | some rule =>
      ({ allowed := false, failedWindow := some rule.window,
         resetAt := some (computeFixedWindowResetAt now rule.window) }, store)
  | none => ({ allowed := true }, rules.foldl (MemoryStore.consume now keyId) store)

/-! ## In Redis -/

abbrev RedisDb := ExpiringStore JsString Nat

/-- The text of a number that Lua joins to a string: 14 significant digits, as
`%.14g` writes them. -/
def luaNumberText (n : Nat) : JsString :=
  if n < 10 ^ 14 then JsString.ofNat n
  else
    let exponent := (Nat.toDigits 10 n).length - 1
    let scale := 10 ^ (exponent - 13)
    let rest := n % scale
    let rounded :=
      if scale < 2 * rest ∨ scale = 2 * rest ∧ n / scale % 2 = 1 then n / scale + 1
      else n / scale
    let carried := decide (rounded = 10 ^ 14)
    let mantissa := JsString.ofNat (if carried then 10 ^ 13 else rounded)
    let fraction := ((mantissa.drop 1).reverse.dropWhile (· == unit '0')).reverse
    mantissa.take 1 ++ (if fraction.isEmpty then [] else js "." ++ fraction) ++ js "e+" ++
      JsString.ofNat (if carried then exponent + 1 else exponent)

/-- The key of a counter in Redis.  `keyPrefix` is `REDIS_KEY_PREFIX`, which the
client puts in front of the key it passes. -/
def redisWindowKey (keyPrefix keyId : JsString) (window number : Nat) : JsString :=
  keyPrefix ++ (js "rl:api_key:" ++ keyId) ++ js ":" ++ luaNumberText window ++ js ":" ++
    luaNumberText number

/-- `GET`, with 0 for no counter. -/
def RedisDb.count (keyPrefix : JsString) (db : RedisDb) (nowMs : Nat) (keyId : JsString)
    (window number : Nat) : Nat :=
  db.value nowMs (redisWindowKey keyPrefix keyId window number)

/-- The second pass of the script for one rule: `INCR`, and `EXPIRE` for a
counter that starts.  The bound of Redis on the time of an expiry is far above
the windows. -/
def RedisDb.consume (keyPrefix : JsString) (nowMs currentTime : Nat) (keyId : JsString)
    (db : RedisDb) (rule : Rule) : RedisDb :=
  let key := redisWindowKey keyPrefix keyId rule.window (currentTime / rule.window)
  let counted := db.incrBy nowMs key 1
  if counted.1 = 1 then counted.2.expire nowMs key (rule.window * 2) else counted.2

def rateLimitScript (keyPrefix : JsString) (db : RedisDb) (nowMs currentTime : Nat)
    (keyId : JsString) (rules : List Rule) : List Nat × RedisDb :=
  match rules.find? fun rule =>
    rule.limit ≤ db.count keyPrefix nowMs keyId rule.window (currentTime / rule.window) with
  | some rule => ([0, rule.window, (currentTime / rule.window + 1) * rule.window * 1000], db)
  | none => ([1, 0], rules.foldl (RedisDb.consume keyPrefix nowMs currentTime keyId) db)

def readScriptResult (result : List Nat) : RateLimitResult :=
  if result[0]? = some 0 then
    { allowed := false, failedWindow := result[1]?, resetAt := result[2]? }
  else { allowed := true }

/-! ## The limiter -/

abbrev KeyCall := FixedWindow.Call JsString

/-- Where the counters are kept. -/
inductive RateLimitStore where
  | memory (store : MemoryStore)
  | redis (db : RedisDb)

/-- `checkRateLimit`, with Redis reachable when it is configured. -/
def checkRateLimit (keyPrefix : JsString) (store : RateLimitStore) (call : KeyCall) :
    RateLimitResult × RateLimitStore :=
  if call.rules.isEmpty then ({ allowed := true }, store)
  else
    match store with
    | .memory counters =>
        let checked := checkInMemoryRateLimit counters call.nowMs call.key call.rules
        (checked.1, .memory checked.2)
    | .redis db =>
        let evaluated :=
          rateLimitScript keyPrefix db call.nowMs (call.nowMs / 1000) call.key call.rules
        (readScriptResult evaluated.1, .redis evaluated.2)

/-- The answer to a call whose first broken rule is known. -/
def verdict (call : KeyCall) (broken : Option Rule) : RateLimitResult :=
  match broken with
  | some rule =>
      { allowed := false, failedWindow := some rule.window,
        resetAt := some (computeFixedWindowResetAt call.seconds rule.window) }
  | none => { allowed := true }

def RateLimitStore.count (keyPrefix : JsString) (store : RateLimitStore) (nowMs : Nat)
    (keyId : JsString) (window number : Nat) : Nat :=
  match store with
  | .memory counters => counters.count keyId window number
  | .redis db => db.count keyPrefix nowMs keyId window number

def limiterStep (keyPrefix : JsString) (store : RateLimitStore) (call : KeyCall) :
    Bool × RateLimitStore :=
  let checked := checkRateLimit keyPrefix store call
  (checked.1.allowed, checked.2)

def run (keyPrefix : JsString) (store : RateLimitStore) (calls : List KeyCall) :
    RateLimitStore × List KeyCall :=
  calls.foldl (serve (limiterStep keyPrefix)) (store, [])

/-! ## The keys of the counters -/

theorem colon_not_mem (n : Nat) : unit ':' ∉ JsString.ofNat n :=
  JsString.not_mem_ofNat (by decide)

theorem windowKey_eq (keyId : JsString) (window number : Nat) : windowKey keyId window number =
      (js "rl:api_key:" ++ keyId ++ ([unit ':'] ++ JsString.ofNat window)) ++
        ([unit ':'] ++ JsString.ofNat number) := by
  have hcolon : js ":" = [unit ':'] := by decide
  simp [windowKey, hcolon]

theorem windowKey_inj {keyId keyId' : JsString} {window window' number number' : Nat}
    (h : windowKey keyId window number = windowKey keyId' window' number') :
    keyId = keyId' ∧ window = window' ∧ number = number' := by
  rw [windowKey_eq, windowKey_eq] at h
  obtain ⟨hbefore, hnumber⟩ :=
    separated_inj_last (colon_not_mem number) (colon_not_mem number') h
  obtain ⟨hkey, hwindow⟩ :=
    separated_inj_last (colon_not_mem window) (colon_not_mem window') hbefore
  exact ⟨append_cancel_left hkey, JsString.ofNat_inj hwindow, JsString.ofNat_inj hnumber⟩

theorem isStale_windowKey (nowSeconds : Nat) (keyId : JsString) (window number : Nat) :
    isStale nowSeconds (windowKey keyId window number) =
      decide (0 < window ∧ (number + 1) * window ≤ nowSeconds) := by
  rw [windowKey_eq]
  unfold isStale
  rw [cutLast_append (colon_not_mem number)]
  dsimp only
  rw [cutLast_append (colon_not_mem window)]
  dsimp only
  rw [JsString.readNat_ofNat, JsString.readNat_ofNat]

/-! ## The counters in the process -/

variable {number window : Nat}

theorem count_evict (store : MemoryStore) {now : Nat} (keyId : JsString) (hwindow : 0 < window)
    (hnumber : now / window ≤ number) :
    (evictStaleRateLimitWindows store now).count keyId window number =
      store.count keyId window number := by
  have hrunning : isStale now (windowKey keyId window number) = false := by
    rw [isStale_windowKey, decide_eq_false_iff_not]
    rintro ⟨-, hover⟩
    have hlt : now < (number + 1) * window := by
      exact (Nat.div_lt_iff_lt_mul hwindow).mp (Nat.lt_succ_of_le hnumber)
    omega
  unfold MemoryStore.count evictStaleRateLimitWindows
  rw [JsMap.get_filter_key (fun key => !isStale now key), hrunning]
  rfl

theorem count_consume (now : Nat) (keyId key : JsString) (store : MemoryStore) (rule : Rule)
    (window number : Nat) :
    (store.consume now keyId rule).count key window number = store.count key window number +
        if keyId = key ∧ now / window = number ∧ rule.window = window then 1 else 0 := by
  unfold MemoryStore.consume MemoryStore.count
  rw [JsMap.get_set]
  by_cases hsame : keyId = key ∧ now / window = number ∧ rule.window = window
  · obtain ⟨rfl, rfl, rfl⟩ := hsame
    simp
  · rw [if_neg hsame, if_neg]
    · rfl
    · intro hkey
      obtain ⟨hid, hwindow, hnumber⟩ := windowKey_inj hkey
      rw [hwindow] at hnumber
      exact hsame ⟨hid, hnumber, hwindow⟩

theorem count_consumeAll (call : KeyCall) (key : JsString) (window number : Nat) :
    (call.rules.foldl (MemoryStore.consume call.seconds call.key) store).count key window number =
      store.count key window number + call.consumes key window number :=
  (foldl_consumes (fun _ _ => True) MemoryStore.count
    (MemoryStore.consume call.seconds call.key) (fun _ => True) (fun _ _ _ _ => trivial)
    (fun store rule _ _ key window number _ =>
      count_consume call.seconds call.key key store rule window number)
    trivial).2 key window number trivial

/-- What a check does: it answers as the counters say, keeps the counters of a
refused call, and adds the units of an allowed one. -/
structure Checked (range : Nat → Nat → Prop) (call : KeyCall)
    (before after : JsString → Nat → Nat → Nat) (result : RateLimitResult) : Prop where
  answered : result = verdict call (call.rules.find? fun rule =>
    rule.limit ≤ before call.key rule.window (call.seconds / rule.window))
  counted : ∀ key window number, range window number → 0 < window →
    call.seconds / window ≤ number → after key window number =
      before key window number + if result.allowed then call.consumes key window number else 0

theorem allowed_verdict (call : KeyCall) (broken : Option Rule) :
    (verdict call broken).allowed = !broken.isSome := by
  cases broken <;> rfl

variable {call : KeyCall}

theorem Checked.shows {range : Nat → Nat → Prop} {before after : JsString → Nat → Nat → Nat}
    {result : RateLimitResult} (h : Checked range call before after result)
    {accepted : List KeyCall} (hshows : Shows range before accepted call.nowMs)
    (hrange : ∀ rule ∈ call.rules, range rule.window (call.seconds / rule.window)) :
    result = verdict call (usedUp accepted call) ∧
      Shows range after (accept accepted call) call.nowMs := by
  have hanswer : result = verdict call (usedUp accepted call) := by
    rw [h.answered, hshows.usedUp hrange]
  refine ⟨hanswer, ?_⟩
  have hallowed : result.allowed = !(usedUp accepted call).isSome := by
    rw [hanswer, allowed_verdict]
  unfold accept
  split
  · rename_i hrefused
    rw [hrefused] at hallowed
    intro key window number hr hwindow hnumber
    rw [h.counted key window number hr hwindow hnumber, hallowed]
    exact hshows key window number hr hwindow hnumber
  · rename_i haccepted
    rw [Bool.not_eq_true] at haccepted
    rw [haccepted] at hallowed
    refine hshows.accept fun key window number hr hwindow hnumber => ?_
    rw [h.counted key window number hr hwindow hnumber, hallowed]
    rfl

theorem checkInMemoryRateLimit_spec (store : MemoryStore) (call : KeyCall) :
    let checked := checkInMemoryRateLimit store call.nowMs call.key call.rules
    Checked (fun _ _ => True) call store.count checked.2.count checked.1 := by
  intro checked
  let swept :=
    if evictionThreshold < store.length then evictStaleRateLimitWindows store call.seconds
    else store
  have hswept : ∀ key window number, 0 < window → call.seconds / window ≤ number →
      swept.count key window number = store.count key window number := by
    intro key window number hwindow hnumber
    show MemoryStore.count (if _ then _ else _) _ _ _ = _
    split
    · exact count_evict store key hwindow hnumber
    · rfl
  have hfind : (call.rules.find? fun rule =>
        rule.limit ≤ swept.count call.key rule.window (call.seconds / rule.window)) =
      call.rules.find? fun rule =>
        rule.limit ≤ store.count call.key rule.window (call.seconds / rule.window) := by
    apply find?_congr
    intro rule _
    rw [hswept call.key rule.window _ rule.window_pos (Nat.le_refl _)]
  have hchecked : checked =
      match call.rules.find? fun rule =>
        rule.limit ≤ swept.count call.key rule.window (call.seconds / rule.window) with
      | some rule =>
          ({ allowed := false, failedWindow := some rule.window,
             resetAt := some (computeFixedWindowResetAt call.seconds rule.window) }, swept)
      | none =>
          ({ allowed := true }, call.rules.foldl (MemoryStore.consume call.seconds call.key) swept)
      := rfl
  rw [hfind] at hchecked
  cases hbroken : call.rules.find? fun rule =>
    rule.limit ≤ store.count call.key rule.window (call.seconds / rule.window) with
  | some rule =>
    rw [hbroken] at hchecked
    refine ⟨by rw [hchecked, hbroken]; rfl, ?_⟩
    intro key window number _ hwindow hnumber
    rw [hchecked]
    exact hswept key window number hwindow hnumber
  | none =>
    rw [hbroken] at hchecked
    refine ⟨by rw [hchecked, hbroken]; rfl, ?_⟩
    intro key window number _ hwindow hnumber
    rw [hchecked]
    show MemoryStore.count (List.foldl _ swept _) _ _ _ = _
    rw [count_consumeAll, hswept key window number hwindow hnumber]
    rfl

/-! ## The counters in Redis -/

/-- The windows and numbers that Lua writes with all their digits. -/
def Written (window number : Nat) : Prop := window < 10 ^ 14 ∧ number < 10 ^ 14

theorem luaNumberText_eq {n : Nat} (h : n < 10 ^ 14) : luaNumberText n = JsString.ofNat n :=
  if_pos h

theorem redisWindowKey_inj {keyPrefix keyId keyId' : JsString} {window' number' : Nat}
    (hw : Written window number) (hw' : Written window' number')
    (h : redisWindowKey keyPrefix keyId window number =
      redisWindowKey keyPrefix keyId' window' number') :
    keyId = keyId' ∧ window = window' ∧ number = number' := by
  unfold redisWindowKey at h
  rw [luaNumberText_eq hw.1, luaNumberText_eq hw.2, luaNumberText_eq hw'.1,
    luaNumberText_eq hw'.2] at h
  simp only [append_assoc] at h
  refine @windowKey_inj keyId keyId' _ _ _ _ ?_
  have hrest := append_cancel_left h
  simpa only [windowKey, append_assoc] using hrest

/-- The counter of a window is needed until the last millisecond of the window. -/
def Needed (keyPrefix key : JsString) (last : Nat) : Prop :=
  ∃ keyId window number, Written window number ∧ 0 < window ∧
    key = redisWindowKey keyPrefix keyId window number ∧
    last + 1 = (number + 1) * window * 1000

def RedisDb.stored (keyPrefix : JsString) (db : RedisDb) (keyId : JsString)
    (window number : Nat) : Nat :=
  ExpiringStore.stored db (redisWindowKey keyPrefix keyId window number)

variable {keyPrefix : JsString} {db : RedisDb} {nowMs : Nat}

theorem needed_windowEnd (keyPrefix keyId : JsString) (hw : Written window number)
    (hwindow : 0 < window) (hnumber : nowMs / 1000 / window ≤ number) :
    ∃ last, Needed keyPrefix (redisWindowKey keyPrefix keyId window number) last ∧
      nowMs ≤ last := by
  have hseconds : nowMs / 1000 < (number + 1) * window :=
    (Nat.div_lt_iff_lt_mul hwindow).mp (Nat.lt_succ_of_le hnumber)
  refine ⟨(number + 1) * window * 1000 - 1, ⟨keyId, window, number, hw, hwindow, rfl, ?_⟩, ?_⟩
  · omega
  · omega

/-- No counter expires before its window is over. -/
abbrev Lasting (keyPrefix : JsString) (db : RedisDb) (nowMs : Nat) : Prop :=
  ExpiringStore.Lasting (Needed keyPrefix) db nowMs

section

variable (h : Lasting keyPrefix db nowMs)
include h

/-- The counter of a window that is not over is read as it is stored. -/
theorem count_eq_stored (hw : Written window number)
    (hwindow : 0 < window) (hnumber : nowMs / 1000 / window ≤ number) (keyId : JsString) :
    db.count keyPrefix nowMs keyId window number = db.stored keyPrefix keyId window number := by
  obtain ⟨last, hneeded, hlast⟩ := needed_windowEnd keyPrefix keyId hw hwindow hnumber
  exact h.value_eq hneeded hlast

/-- A counter that starts gets the time of two windows, which is long enough. -/
theorem lasting_consume {rule : Rule}
    (hw : Written rule.window (nowMs / 1000 / rule.window)) (keyId : JsString) :
    Lasting keyPrefix (db.consume keyPrefix nowMs (nowMs / 1000) keyId rule) nowMs := by
  have hcounted := h.incrBy
    (redisWindowKey keyPrefix keyId rule.window (nowMs / 1000 / rule.window)) 1
  unfold RedisDb.consume
  dsimp only
  split
  · refine hcounted.expire fun last hneeded => ?_
    obtain ⟨keyId', window, number, hw', -, hkey, hlast⟩ := hneeded
    obtain ⟨-, rfl, rfl⟩ := redisWindowKey_inj hw hw' hkey
    have hstart : nowMs / 1000 / rule.window * rule.window ≤ nowMs / 1000 :=
      Nat.div_mul_le_self _ _
    rw [Nat.add_mul] at hlast
    omega
  · exact hcounted

theorem stored_consume {rule : Rule}
    (hw : Written rule.window (nowMs / 1000 / rule.window)) (keyId key : JsString)
    (hw' : Written window number) :
    (db.consume keyPrefix nowMs (nowMs / 1000) keyId rule).stored keyPrefix key window number =
      db.stored keyPrefix key window number +
        if keyId = key ∧ nowMs / 1000 / window = number ∧ rule.window = window then 1 else 0 := by
  obtain ⟨last, hneeded, hlast⟩ := needed_windowEnd keyPrefix keyId hw rule.window_pos (le_refl _)
  have hcounted := h.stored_incrBy hneeded hlast 1 (redisWindowKey keyPrefix key window number)
  have hstored : (db.consume keyPrefix nowMs (nowMs / 1000) keyId rule).stored keyPrefix key
      window number = ExpiringStore.stored (db.incrBy nowMs
        (redisWindowKey keyPrefix keyId rule.window (nowMs / 1000 / rule.window)) 1).2
        (redisWindowKey keyPrefix key window number) := by
    unfold RedisDb.consume RedisDb.stored
    dsimp only
    split
    · rw [ExpiringStore.stored_expire]
    · rfl
  rw [hstored, hcounted]
  congr 1
  by_cases hsame : keyId = key ∧ nowMs / 1000 / window = number ∧ rule.window = window
  · obtain ⟨rfl, rfl, rfl⟩ := hsame
    rw [if_pos rfl, if_pos ⟨rfl, rfl, rfl⟩]
  · rw [if_neg hsame, if_neg]
    intro hkey
    obtain ⟨hid, hwindow, hnumber⟩ := redisWindowKey_inj hw hw' hkey
    rw [hwindow] at hnumber
    exact hsame ⟨hid, hnumber, hwindow⟩

end

/-- The calls whose windows Lua writes with all their digits.  The clock is the
one of `Date.now()`, which ends at 8640000000000000. -/
def InDigits (call : KeyCall) : Prop :=
  call.nowMs ≤ 8640000000000000 ∧ ∀ rule ∈ call.rules, rule.window < 10 ^ 14

theorem InDigits.written (h : InDigits call) :
    ∀ rule ∈ call.rules, Written rule.window (call.seconds / rule.window) := by
  intro rule hrule
  refine ⟨h.2 rule hrule, ?_⟩
  have hclock := h.1
  have hle : call.seconds / rule.window ≤ call.seconds := Nat.div_le_self _ _
  unfold FixedWindow.Call.seconds at hle ⊢
  omega

theorem rateLimitScript_spec (h : Lasting keyPrefix db call.nowMs) (hdigits : InDigits call) :
    let evaluated :=
      rateLimitScript keyPrefix db call.nowMs call.seconds call.key call.rules
    Lasting keyPrefix evaluated.2 call.nowMs ∧
      Checked Written call (db.stored keyPrefix) (evaluated.2.stored keyPrefix)
        (readScriptResult evaluated.1) := by
  intro evaluated
  have hfind : (call.rules.find? fun rule => rule.limit ≤
        db.count keyPrefix call.nowMs call.key rule.window (call.seconds / rule.window)) =
      call.rules.find? fun rule =>
        rule.limit ≤ db.stored keyPrefix call.key rule.window (call.seconds / rule.window) := by
    apply find?_congr
    intro rule hrule
    rw [count_eq_stored h (hdigits.written rule hrule) rule.window_pos (le_refl _)]
  have hevaluated : evaluated =
      match call.rules.find? fun rule => rule.limit ≤
        db.count keyPrefix call.nowMs call.key rule.window (call.seconds / rule.window) with
      | some rule =>
          ([0, rule.window, (call.seconds / rule.window + 1) * rule.window * 1000], db)
      | none =>
          ([1, 0], call.rules.foldl
            (RedisDb.consume keyPrefix call.nowMs call.seconds call.key) db) := rfl
  rw [hfind] at hevaluated
  cases hbroken : call.rules.find? fun rule =>
    rule.limit ≤ db.stored keyPrefix call.key rule.window (call.seconds / rule.window) with
  | some rule =>
    rw [hbroken] at hevaluated
    rw [hevaluated]
    refine ⟨h, ⟨by rw [hbroken]; rfl, ?_⟩⟩
    intro key window number _ _ _
    rfl
  | none =>
    rw [hbroken] at hevaluated
    rw [hevaluated]
    obtain ⟨hlasting, hcounts⟩ := foldl_consumes Written (RedisDb.stored keyPrefix)
      (RedisDb.consume keyPrefix call.nowMs call.seconds call.key)
      (fun db => Lasting keyPrefix db call.nowMs)
      (fun db rule hrule hdb => lasting_consume hdb (hdigits.written rule hrule) call.key)
      (fun db rule hrule hdb key window number hw =>
        stored_consume hdb (hdigits.written rule hrule) call.key key hw) h
    refine ⟨hlasting, ⟨by rw [hbroken]; rfl, ?_⟩⟩
    intro key window number hw _ _
    rw [hcounts key window number hw]
    rfl

/-! ## Runs -/

theorem checked_noRules {range : Nat → Nat → Prop} (hrules : call.rules.isEmpty = true)
    (counts : JsString → Nat → Nat → Nat) :
    Checked range call counts counts { allowed := true } := by
  have hnil : call.rules = [] := List.isEmpty_iff.mp hrules
  refine ⟨by rw [hnil]; rfl, ?_⟩
  intro key window number _ _ _
  simp [FixedWindow.Call.consumes, FixedWindow.Call.units, hnil]

theorem checkRateLimit_memory (keyPrefix : JsString) (counters : MemoryStore) (call : KeyCall) :
    let checked := checkRateLimit keyPrefix (.memory counters) call
    ∃ counters', checked.2 = .memory counters' ∧
      Checked (fun _ _ => True) call counters.count counters'.count checked.1 := by
  intro checked
  by_cases hrules : call.rules.isEmpty
  · have hchecked : checked = ({ allowed := true }, .memory counters) := if_pos hrules
    rw [hchecked]
    exact ⟨counters, rfl, checked_noRules hrules counters.count⟩
  · have hchecked : checked =
        ((checkInMemoryRateLimit counters call.nowMs call.key call.rules).1,
          .memory (checkInMemoryRateLimit counters call.nowMs call.key call.rules).2) :=
      if_neg hrules
    rw [hchecked]
    exact ⟨_, rfl, checkInMemoryRateLimit_spec counters call⟩

theorem checkRateLimit_redis (h : Lasting keyPrefix db call.nowMs) (hdigits : InDigits call) :
    let checked := checkRateLimit keyPrefix (.redis db) call
    ∃ db', checked.2 = .redis db' ∧ Lasting keyPrefix db' call.nowMs ∧
      Checked Written call (db.stored keyPrefix) (db'.stored keyPrefix) checked.1 := by
  intro checked
  by_cases hrules : call.rules.isEmpty
  · have hchecked : checked = ({ allowed := true }, .redis db) := if_pos hrules
    rw [hchecked]
    exact ⟨db, rfl, h, checked_noRules hrules (db.stored keyPrefix)⟩
  · have hchecked : checked =
        (readScriptResult
            (rateLimitScript keyPrefix db call.nowMs call.seconds call.key call.rules).1,
          .redis (rateLimitScript keyPrefix db call.nowMs call.seconds call.key call.rules).2) :=
      if_neg hrules
    rw [hchecked]
    obtain ⟨hlasting, hspec⟩ := rateLimitScript_spec h hdigits
    exact ⟨_, rfl, hlasting, hspec⟩

/-- The counters in the process show the accepted calls. -/
def MemoryRep (store : RateLimitStore) (accepted : List KeyCall) (nowMs : Nat) : Prop :=
  ∃ counters, store = .memory counters ∧ Shows (fun _ _ => True) counters.count accepted nowMs

/-- The counters in Redis show the accepted calls, and last long enough. -/
def RedisRep (keyPrefix : JsString) (store : RateLimitStore) (accepted : List KeyCall)
    (nowMs : Nat) : Prop :=
  ∃ db, store = .redis db ∧ Lasting keyPrefix db nowMs ∧
    Shows Written (db.stored keyPrefix) accepted nowMs

theorem memoryRep_step {store : RateLimitStore} {accepted : List KeyCall} {nowMs : Nat}
    {call : KeyCall} (h : MemoryRep store accepted nowMs) (hle : nowMs ≤ call.nowMs) :
    (checkRateLimit keyPrefix store call).1 = verdict call (usedUp accepted call) ∧
      MemoryRep (checkRateLimit keyPrefix store call).2 (accept accepted call) call.nowMs := by
  obtain ⟨counters, rfl, hshows⟩ := h
  obtain ⟨counters', hstore, hchecked⟩ := checkRateLimit_memory keyPrefix counters call
  obtain ⟨hanswer, hshows'⟩ := hchecked.shows (hshows.later hle) fun _ _ => trivial
  exact ⟨hanswer, counters', hstore, hshows'⟩

theorem redisRep_step {store : RateLimitStore} {accepted : List KeyCall}
    (h : RedisRep keyPrefix store accepted nowMs) (hle : nowMs ≤ call.nowMs)
    (hdigits : InDigits call) :
    (checkRateLimit keyPrefix store call).1 = verdict call (usedUp accepted call) ∧
      RedisRep keyPrefix (checkRateLimit keyPrefix store call).2 (accept accepted call)
        call.nowMs := by
  obtain ⟨db, rfl, hlasting, hshows⟩ := h
  obtain ⟨db', hstore, hlasting', hchecked⟩ :=
    checkRateLimit_redis (hlasting.later hle) hdigits
  obtain ⟨hanswer, hshows'⟩ := hchecked.shows (hshows.later hle) hdigits.written
  exact ⟨hanswer, db', hstore, hlasting', hshows'⟩

theorem run_memory (keyPrefix : JsString) {calls : List KeyCall} (horder : InOrder calls) :
    (run keyPrefix (.memory []) calls).2 = accepted calls ∧
      MemoryRep (run keyPrefix (.memory []) calls).1 (accepted calls) (clock calls) := by
  refine @run_refines _ _ _ _ _ (fun _ => True) ?_ _ ?_ _ horder (fun _ _ => trivial)
  · intro store accepted nowMs call hrep hle _
    obtain ⟨hanswer, hnext⟩ := @memoryRep_step keyPrefix _ _ _ _ hrep hle
    refine ⟨?_, hnext⟩
    show (checkRateLimit keyPrefix store call).1.allowed = _
    rw [hanswer, allowed_verdict]
  · exact ⟨[], rfl, fun _ _ _ _ _ _ => rfl⟩

theorem run_redis (keyPrefix : JsString) {calls : List KeyCall} (horder : InOrder calls)
    (hdigits : ∀ call ∈ calls, InDigits call) :
    (run keyPrefix (.redis []) calls).2 = accepted calls ∧
      RedisRep keyPrefix (run keyPrefix (.redis []) calls).1 (accepted calls) (clock calls) := by
  refine run_refines ?_ ?_ horder hdigits
  · intro store accepted nowMs call hrep hle hcall
    obtain ⟨hanswer, hnext⟩ := redisRep_step hrep hle hcall
    refine ⟨?_, hnext⟩
    show (checkRateLimit keyPrefix store call).1.allowed = _
    rw [hanswer, allowed_verdict]
  · refine ⟨[], rfl, ?_, fun _ _ _ _ _ _ => rfl⟩
    intro key last _ _ entry hget
    cases hget

/-- After any run in the order of the clock, a call is rejected exactly when a
rule of it finds its units consumed in the current window, and consumes its
units exactly when it is accepted.  The units of a window are those of the
accepted calls of the key, one for each rule that lists the window: the calls
themselves when no call lists a window twice.  Redis answers the same while
the windows are written with all their digits. -/
theorem checkRateLimit_counts (keyPrefix : JsString) (calls : List KeyCall)
    (call : KeyCall) (horder : InOrder (calls ++ [call])) :
    let state := run keyPrefix (.memory []) calls
    let result := (checkRateLimit keyPrefix state.1 call).1
    let next := (checkRateLimit keyPrefix state.1 call).2
    (result.allowed = false ↔ ∃ rule ∈ call.rules,
      rule.limit ≤ consumed state.2 call.key rule.window (call.seconds / rule.window)) ∧
    (∀ key window number, 0 < window → call.seconds / window ≤ number →
      next.count keyPrefix call.nowMs key window number =
        state.1.count keyPrefix call.nowMs key window number +
          if result.allowed then call.consumes key window number else 0) ∧
    ((∀ c ∈ calls, (c.rules.map Rule.window).Nodup) → ∀ key window number,
      consumed state.2 key window number = state.2.countP fun c => c.key = key ∧
        c.seconds / window = number ∧ window ∈ c.rules.map Rule.window) ∧
    ((∀ c ∈ calls ++ [call], InDigits c) →
      (checkRateLimit keyPrefix (run keyPrefix (.redis []) calls).1 call).1 = result) := by
  intro state result next
  obtain ⟨hsame, hrep⟩ := run_memory keyPrefix (pairwise_append.mp horder).1
  obtain ⟨hanswer, -⟩ := @memoryRep_step keyPrefix _ _ _ _ hrep (clock_le horder)
  have hresult : result = verdict call (usedUp (accepted calls) call) := hanswer
  have hstate : state.2 = accepted calls := hsame
  refine ⟨?_, ?_, ?_, ?_⟩
  · rw [hstate, ← usedUp_isSome_iff, hresult, allowed_verdict]
    cases usedUp (accepted calls) call <;> simp
  · intro key window number hwindow hnumber
    obtain ⟨counters, hstore, -⟩ := hrep
    obtain ⟨counters', hstore', hchecked⟩ := checkRateLimit_memory keyPrefix counters call
    have hnow : state.1 = .memory counters := hstore
    have hnext : next = .memory counters' := by
      show (checkRateLimit keyPrefix state.1 call).2 = _
      rw [hnow, hstore']
    have hgave : result = (checkRateLimit keyPrefix (.memory counters) call).1 := by
      show (checkRateLimit keyPrefix state.1 call).1 = _
      rw [hnow]
    rw [hnext, hnow, hgave]
    exact hchecked.counted key window number trivial hwindow hnumber
  · intro hdistinct
    rw [hstate]
    exact consumed_eq_countP fun c hc => hdistinct c ((accepted_sublist calls).subset hc)
  · intro hdigits
    obtain ⟨-, hredis⟩ := run_redis keyPrefix (pairwise_append.mp horder).1
      fun c hc => hdigits c (mem_append_left _ hc)
    obtain ⟨hanswer', -⟩ := redisRep_step hredis (clock_le horder)
      (hdigits call (mem_append_right _ (mem_singleton_self call)))
    rw [hanswer', hresult]

def minuteAndHour : List Rule := [⟨2, 60, by decide⟩, ⟨5, 3600, by decide⟩]

theorem checkRateLimit_counts_minuteAndHour :
    let calls : List KeyCall :=
      [⟨0, js "key", minuteAndHour⟩, ⟨1000, js "key", minuteAndHour⟩]
    let call : KeyCall := ⟨2000, js "key", minuteAndHour⟩
    let state := run (js "omniroute:") (.memory []) calls
    (checkRateLimit (js "omniroute:") state.1 call).1.allowed = false := by
  have horder : InOrder ([⟨0, js "key", minuteAndHour⟩, ⟨1000, js "key", minuteAndHour⟩] ++
      [(⟨2000, js "key", minuteAndHour⟩ : KeyCall)]) := by
    simp [InOrder]
  refine (checkRateLimit_counts (js "omniroute:") _ _ horder).1.mpr ?_
  exact ⟨⟨2, 60, by decide⟩, by simp [minuteAndHour], by decide +kernel⟩

/-- A key never consumes more of a window than a rule that each of its calls lists once allows. -/
theorem run_within_limit (keyPrefix : JsString) {calls : List KeyCall} (horder : InOrder calls)
    {key : JsString} {rule : Rule}
    (hrule : ∀ call ∈ calls, call.key = key → rule ∈ call.rules ∧ call.units rule.window = 1)
    (number : Nat) :
    consumed (run keyPrefix (.memory []) calls).2 key rule.window number ≤ rule.limit := by
  rw [(run_memory keyPrefix horder).1]
  exact consumed_accepted_le hrule number

theorem run_within_limit_minuteAndHour :
    consumed (run (js "omniroute:") (.memory []) (.replicate 3 ⟨0, js "key", minuteAndHour⟩)).2
      (js "key") 60 0 ≤ 2 := by
  refine @run_within_limit _ _ (by simp [InOrder]) _ ⟨2, 60, by decide⟩ ?_ 0
  simp [minuteAndHour, FixedWindow.Call.units]

/-- A rule that lists a window twice uses it up twice as fast, a call that does
not list a window is not counted in it, and Lua writes two long windows alike. -/
theorem checkRateLimit_not_counts :
    let run := run (js "omniroute:")
    let check := checkRateLimit (js "omniroute:")
    let twice : KeyCall := ⟨0, js "key", [⟨2, 60, by decide⟩, ⟨2, 60, by decide⟩]⟩
    let minute : KeyCall := ⟨0, js "key", [⟨2, 60, by decide⟩]⟩
    let hour : KeyCall := ⟨0, js "key", [⟨1, 3600, by decide⟩]⟩
    let long : KeyCall := ⟨0, js "key", [⟨1, 10 ^ 15, by decide⟩]⟩
    let longer : KeyCall := ⟨0, js "key", [⟨1, 10 ^ 15 + 1, by decide⟩]⟩
    ((run (.memory []) [twice]).2.length = 1 ∧
      (check (run (.memory []) [twice]).1 twice).1.allowed = false) ∧
    ((run (.memory []) [minute]).2.length = 1 ∧
      (check (run (.memory []) [minute]).1 hour).1.allowed = true) ∧
    ((check (run (.memory []) [long]).1 longer).1.allowed = true ∧
      (check (run (.redis []) [long]).1 longer).1.allowed = false) := by
  decide +kernel

end RedRouter.Shared.RateLimiter
