import Mathlib.Algebra.BigOperators.Group.List.Basic
import Mathlib.Algebra.Field.Rat
import Mathlib.Algebra.Order.Field.Basic
import Mathlib.Algebra.Order.Field.Rat
import Mathlib.Algebra.Order.BigOperators.Group.List
import Mathlib.Data.List.Induction
import Mathlib.Tactic.Linarith
import Mathlib.Tactic.Ring
import RedRouter.Lib.Decimal
import RedRouter.Lib.ExpiringStore
import RedRouter.Quota.Dimensions

/-!
# The quota stores

A quota store counts what each API key consumed of each dimension, in buckets
as long as the window of the dimension.  What counts at a time is the current
bucket and the part of the previous one that the window still covers.

The counters are rows of a table or keys of Redis.  `redis_shows` and
`sqlite_shows` say that both hold what was spent.  They differ in the total of
a pool: the table adds up the rows of every key, and Redis those of the keys
that the pool allocates to now (`quotaStores_agree_iff`).

Amounts are exact, so the rounding of doubles is left out.
-/

namespace RedRouter.Quota

open List

/-- The id of an API key, which is a UUID or `env-key`. -/
structure ApiKeyId where
  text : JsString
  noColon : unit ':' ∉ text
deriving DecidableEq

def bucketOf (nowMs : Nat) (window : QuotaWindow) : Int := (nowMs / windowMs window : Nat)

def slidingWindowEffective (curr prev : ℚ) (nowMs windowMs : Nat) : ℚ :=
  let currentBucketIndex := nowMs / windowMs
  let currentBucketStartMs := currentBucketIndex * windowMs
  let elapsed := nowMs - currentBucketStartMs
  let weight := 1 - (elapsed : ℚ) / windowMs
  prev * weight + curr

/-! ## The table -/

/-- The primary key of `quota_consumption`. -/
structure ConsumptionKey where
  apiKeyId : JsString
  dimensionKey : JsString
  bucketIndex : Int
deriving DecidableEq

/-- The rows of `quota_consumption`. -/
abbrev QuotaConsumption := JsMap ConsumptionKey ℚ

variable (rows : QuotaConsumption)

namespace QuotaConsumption

def getBucket (key : ConsumptionKey) : ℚ := (rows.get key).getD 0

def incrementBucket (key : ConsumptionKey) (delta : ℚ) : QuotaConsumption :=
  rows.set key (rows.getBucket key + delta)

def getPair (apiKeyId dimensionKey : JsString) (currentBucket : Int) : ℚ × ℚ :=
  (rows.getBucket ⟨apiKeyId, dimensionKey, currentBucket⟩,
    rows.getBucket ⟨apiKeyId, dimensionKey, currentBucket - 1⟩)

/-- `SUM(consumed)` over the rows of all keys. -/
def sumBucket (dimensionKey : JsString) (bucketIndex : Int) : ℚ :=
  ((rows.filter fun row =>
    row.1.dimensionKey = dimensionKey ∧ row.1.bucketIndex = bucketIndex).map Prod.snd).sum

def sumPoolDimension (dimensionKey : JsString) (currentBucket : Int) : ℚ × ℚ :=
  (rows.sumBucket dimensionKey currentBucket, rows.sumBucket dimensionKey (currentBucket - 1))

end QuotaConsumption

namespace SqliteQuotaStore

def peek (nowMs : Nat) (apiKeyId : ApiKeyId) (dim : DimensionKey) : ℚ :=
  let pair := rows.getPair apiKeyId.text (dimensionKeyToString dim) (bucketOf nowMs dim.window)
  slidingWindowEffective pair.1 pair.2 nowMs (windowMs dim.window)

def consume (nowMs : Nat) (apiKeyId : ApiKeyId) (dim : DimensionKey)
    (cost : ℚ) : ℚ × QuotaConsumption :=
  let rows := rows.incrementBucket
    ⟨apiKeyId.text, dimensionKeyToString dim, bucketOf nowMs dim.window⟩ cost
  (peek rows nowMs apiKeyId dim, rows)

/-- The pool is not looked at: the rows of the dimension are those of its keys. -/
def poolConsumedTotal (nowMs : Nat) (dim : DimensionKey) : ℚ :=
  let totals := rows.sumPoolDimension (dimensionKeyToString dim) (bucketOf nowMs dim.window)
  slidingWindowEffective totals.1 totals.2 nowMs (windowMs dim.window)

end SqliteQuotaStore

/-! ## Redis -/

/-- What the store reads of a pool.  Its allocations have the pool and the key
as their primary key. -/
structure QuotaPool where
  allocations : List ApiKeyId
  distinct : allocations.Nodup

abbrev QuotaCounters := ExpiringStore JsString ℚ

def bucketText (bucketIndex : Int) : JsString :=
  (if bucketIndex < 0 then js "-" else []) ++ JsString.ofNat bucketIndex.natAbs

/-- The key of a counter.  `keyPrefix` is `REDIS_KEY_PREFIX`. -/
def bucketKey (keyPrefix : JsString) (apiKeyId dimensionKey : JsString) (bucketIndex : Int) :
    JsString :=
  keyPrefix ++ js "quota" ++ js ":" ++ apiKeyId ++ js ":" ++ dimensionKey ++ js ":" ++
    bucketText bucketIndex

/-- Two windows, rounded up to seconds. -/
def ttlSeconds (windowMs : Nat) : Nat := (2 * windowMs + 999) / 1000

namespace RedisQuotaStore

variable (keyPrefix : JsString)

def consume (counters : QuotaCounters) (nowMs : Nat) (apiKeyId : ApiKeyId) (dim : DimensionKey)
    (cost : ℚ) : ℚ × QuotaCounters :=
  let dimKey := dimensionKeyToString dim
  let currentBucket := bucketOf nowMs dim.window
  let currKey := bucketKey keyPrefix apiKeyId.text dimKey currentBucket
  let prevKey := bucketKey keyPrefix apiKeyId.text dimKey (currentBucket - 1)
  let ttl := ttlSeconds (windowMs dim.window)
  let counted := counters.incrBy nowMs currKey cost
  let counters := (counted.2.expire nowMs currKey ttl).expire nowMs prevKey ttl
  (slidingWindowEffective counted.1 (counters.value nowMs prevKey) nowMs (windowMs dim.window),
    counters)

def peek (counters : QuotaCounters) (nowMs : Nat) (apiKeyId : ApiKeyId) (dim : DimensionKey) : ℚ :=
  let dimKey := dimensionKeyToString dim
  let currentBucket := bucketOf nowMs dim.window
  slidingWindowEffective
    (counters.value nowMs (bucketKey keyPrefix apiKeyId.text dimKey currentBucket))
    (counters.value nowMs (bucketKey keyPrefix apiKeyId.text dimKey (currentBucket - 1)))
    nowMs (windowMs dim.window)

/-- `pool` is what `getPool` finds. -/
def poolConsumedTotal (counters : QuotaCounters) (nowMs : Nat) (pool : Option QuotaPool)
    (dim : DimensionKey) : ℚ :=
  match pool with
  | none => 0
  | some pool =>
      if pool.allocations.isEmpty then 0
      else
        let dimKey := dimensionKeyToString dim
        let currentBucket := bucketOf nowMs dim.window
        let total := fun bucketIndex => (pool.allocations.map fun apiKeyId =>
          counters.value nowMs (bucketKey keyPrefix apiKeyId.text dimKey bucketIndex)).sum
        slidingWindowEffective (total currentBucket) (total (currentBucket - 1)) nowMs
          (windowMs dim.window)

end RedisQuotaStore

/-! ## Histories -/

/-- A call of `consume`.  Only positive costs are recorded. -/
structure ConsumeCall where
  nowMs : Nat
  apiKeyId : ApiKeyId
  dim : DimensionKey
  cost : ℚ
  cost_pos : 0 < cost

def ConsumeCall.bucket (call : ConsumeCall) : Int := bucketOf call.nowMs call.dim.window

def sqliteRows (history : List ConsumeCall) : QuotaConsumption :=
  history.foldl (fun rows call =>
    (SqliteQuotaStore.consume rows call.nowMs call.apiKeyId call.dim call.cost).2) []

def redisCounters (keyPrefix : JsString) (history : List ConsumeCall) : QuotaCounters :=
  history.foldl (fun counters call =>
    (RedisQuotaStore.consume keyPrefix counters call.nowMs call.apiKeyId call.dim call.cost).2) []

/-! ## What was spent -/

def spent (kind : ApiKeyId → Prop) [DecidablePred kind] (history : List ConsumeCall)
    (dim : DimensionKey) (bucket : Int) : ℚ :=
  (history.map fun call =>
    if kind call.apiKeyId ∧ call.dim = dim ∧ call.bucket = bucket then call.cost else 0).sum

variable {kind kind' : ApiKeyId → Prop} [DecidablePred kind] [DecidablePred kind']

section

variable (history : List ConsumeCall)
include history

theorem spent_append (call : ConsumeCall) (dim : DimensionKey) (bucket : Int) :
    spent kind (history ++ [call]) dim bucket = spent kind history dim bucket +
      if kind call.apiKeyId ∧ call.dim = dim ∧ call.bucket = bucket then call.cost else 0 := by
  simp [spent]

variable (dim : DimensionKey) (bucket : Int)

theorem spent_or (hapart : ∀ key, kind key → ¬ kind' key) :
    spent (fun key => kind key ∨ kind' key) history dim bucket =
      spent kind history dim bucket + spent kind' history dim bucket := by
  unfold spent
  rw [← sum_map_add]
  congr 1
  apply map_congr_left
  intro call _
  by_cases hkey : kind call.apiKeyId
  · simp [hapart _ hkey]
  · simp [hkey]

theorem spent_congr (hsame : ∀ key, kind key ↔ kind' key) :
    spent kind history dim bucket = spent kind' history dim bucket := by
  simp [spent, hsame]

theorem spent_nonneg : 0 ≤ spent kind history dim bucket := by
  apply sum_nonneg
  intro amount hamount
  obtain ⟨call, -, rfl⟩ := mem_map.mp hamount
  split
  · exact call.cost_pos.le
  · exact le_refl 0

theorem spent_eq_zero_iff : spent kind history dim bucket = 0 ↔
      ∀ call ∈ history, call.dim = dim → call.bucket = bucket → ¬ kind call.apiKeyId := by
  induction history with
  | nil => simp [spent]
  | cons call history ih =>
    have hcons : spent kind (call :: history) dim bucket =
        (if kind call.apiKeyId ∧ call.dim = dim ∧ call.bucket = bucket then call.cost else 0) +
          spent kind history dim bucket := by
      simp [spent]
    have hrest := @spent_nonneg kind _ history dim bucket
    rw [forall_mem_cons, ← ih, hcons]
    by_cases hcall : kind call.apiKeyId ∧ call.dim = dim ∧ call.bucket = bucket
    · have hcost := call.cost_pos
      rw [if_pos hcall]
      constructor
      · intro hsum
        linarith
      · rintro ⟨hnot, -⟩
        exact absurd hcall.1 (hnot hcall.2.1 hcall.2.2)
    · rw [if_neg hcall, zero_add]
      exact ⟨fun h => ⟨fun hdim hbucket hkind => hcall ⟨hkind, hdim, hbucket⟩, h⟩, fun h => h.2⟩

theorem spent_mem {keys : List ApiKeyId} (hkeys : keys.Nodup) :
    spent (· ∈ keys) history dim bucket =
      (keys.map fun key => spent (· = key) history dim bucket).sum := by
  induction keys with
  | nil => simp [spent]
  | cons key keys ih =>
    obtain ⟨hnot, hrest⟩ := nodup_cons.mp hkeys
    have hapart : ∀ other : ApiKeyId, other = key → ¬ other ∈ keys := by
      rintro other rfl
      exact hnot
    rw [map_cons, sum_cons, ← ih hrest, ← spent_or history dim bucket hapart]
    exact spent_congr history dim bucket fun other => mem_cons

end

/-! ## The table shows what was spent -/

theorem getBucket_increment (key key' : ConsumptionKey) (delta : ℚ) :
    (rows.incrementBucket key delta).getBucket key' =
      rows.getBucket key' + if key = key' then delta else 0 := by
  unfold QuotaConsumption.incrementBucket QuotaConsumption.getBucket
  rw [JsMap.get_set]
  split
  · rename_i hkey
    rw [hkey]
    rfl
  · rw [add_zero]

theorem sumBucket_increment (key : ConsumptionKey) (delta : ℚ)
    (dimensionKey : JsString) (bucket : Int) :
    (rows.incrementBucket key delta).sumBucket dimensionKey bucket =
      rows.sumBucket dimensionKey bucket +
        if key.dimensionKey = dimensionKey ∧ key.bucketIndex = bucket then delta else 0 := by
  unfold QuotaConsumption.incrementBucket QuotaConsumption.getBucket
  induction rows with
  | nil =>
    unfold QuotaConsumption.sumBucket
    simp only [JsMap.set, filter_cons, decide_eq_true_eq]
    split <;> simp
  | cons row rows ih =>
    obtain ⟨other, amount⟩ := row
    unfold QuotaConsumption.sumBucket at ih ⊢
    by_cases hkey : other = key
    · subst hkey
      simp only [JsMap.set, JsMap.get, if_true, filter_cons, decide_eq_true_eq]
      split
      · simp
        ring
      · simp
    · simp only [JsMap.set, JsMap.get, if_neg hkey, filter_cons]
      split
      · rw [map_cons, map_cons, sum_cons, sum_cons, ih, add_assoc]
      · exact ih

theorem consumptionKey_eq_iff {apiKeyId apiKeyId' : ApiKeyId} {dim dim' : DimensionKey}
    {bucket bucket' : Int} :
    (⟨apiKeyId.text, dimensionKeyToString dim, bucket⟩ : ConsumptionKey) =
        ⟨apiKeyId'.text, dimensionKeyToString dim', bucket'⟩ ↔
      apiKeyId = apiKeyId' ∧ dim = dim' ∧ bucket = bucket' := by
  constructor
  · intro h
    obtain ⟨hid, hdim, hbucket⟩ := ConsumptionKey.mk.inj h
    refine ⟨?_, dimensionKeyToString_inj hdim, hbucket⟩
    cases apiKeyId
    cases apiKeyId'
    obtain rfl := hid
    rfl
  · rintro ⟨rfl, rfl, rfl⟩
    rfl

/-- The rows are what each key spent, and their sums what all keys spent. -/
theorem sqlite_shows (history : List ConsumeCall) (dim : DimensionKey) (bucket : Int) :
    (∀ apiKeyId : ApiKeyId, (sqliteRows history).getBucket
        ⟨apiKeyId.text, dimensionKeyToString dim, bucket⟩ =
      spent (· = apiKeyId) history dim bucket) ∧
    (sqliteRows history).sumBucket (dimensionKeyToString dim) bucket =
      spent (fun _ => True) history dim bucket := by
  induction history using List.reverseRecOn with
  | nil => exact ⟨fun _ => rfl, rfl⟩
  | append_singleton history call ih =>
    have hrows : sqliteRows (history ++ [call]) = (sqliteRows history).incrementBucket
        ⟨call.apiKeyId.text, dimensionKeyToString call.dim, call.bucket⟩ call.cost := by
      simp [sqliteRows, SqliteQuotaStore.consume, ConsumeCall.bucket]
    rw [hrows]
    constructor
    · intro apiKeyId
      rw [getBucket_increment, ih.1 apiKeyId, spent_append]
      simp only [consumptionKey_eq_iff]
    · have hdim : dimensionKeyToString call.dim = dimensionKeyToString dim ↔ call.dim = dim :=
        ⟨dimensionKeyToString_inj, fun h => by rw [h]⟩
      rw [sumBucket_increment, ih.2, spent_append]
      simp [hdim]

/-! ## Redis shows what was spent -/

theorem bucketText_noColon (bucket : Int) : unit ':' ∉ bucketText bucket := by
  unfold bucketText
  rw [mem_append, not_or]
  refine ⟨?_, JsString.not_mem_ofNat (by decide)⟩
  split <;> decide

theorem bucketText_inj {bucket bucket' : Int} (h : bucketText bucket = bucketText bucket') :
    bucket = bucket' := by
  have hminus : ∀ n : Nat, unit '-' ∉ JsString.ofNat n := fun n =>
    JsString.not_mem_ofNat (by decide)
  have hmark : js "-" = [unit '-'] := by decide
  have hsign : ∀ m n : Nat, js "-" ++ JsString.ofNat m ≠ JsString.ofNat n := by
    intro m n heq
    exact hminus n (heq ▸ mem_cons_self)
  unfold bucketText at h
  by_cases hneg : bucket < 0
  · by_cases hneg' : bucket' < 0
    · rw [if_pos hneg, if_pos hneg'] at h
      have habs := JsString.ofNat_inj (append_cancel_left h)
      omega
    · rw [if_pos hneg, if_neg hneg'] at h
      exact absurd h (hsign _ _)
  · by_cases hneg' : bucket' < 0
    · rw [if_neg hneg, if_pos hneg'] at h
      exact absurd h.symm (hsign _ _)
    · rw [if_neg hneg, if_neg hneg'] at h
      have habs := JsString.ofNat_inj (append_cancel_left h)
      omega

/-- The text of a key tells the API key, the dimension and the bucket. -/
theorem bucketKey_inj {keyPrefix : JsString} {apiKeyId apiKeyId' : ApiKeyId}
    {dim dim' : DimensionKey} {bucket bucket' : Int}
    (h : bucketKey keyPrefix apiKeyId.text (dimensionKeyToString dim) bucket =
      bucketKey keyPrefix apiKeyId'.text (dimensionKeyToString dim') bucket') :
    apiKeyId = apiKeyId' ∧ dim = dim' ∧ bucket = bucket' := by
  have hcolon : js ":" = [unit ':'] := by decide
  have htext : ∀ (key dimKey : JsString) (b : Int), bucketKey keyPrefix key dimKey b =
      ((keyPrefix ++ js "quota" ++ js ":") ++ (key ++ ([unit ':'] ++ dimKey))) ++
        ([unit ':'] ++ bucketText b) := by
    intro key dimKey b
    simp [bucketKey, hcolon]
  rw [htext, htext] at h
  obtain ⟨hbefore, hbucket⟩ := Separators.separated_inj_last (bucketText_noColon bucket)
    (bucketText_noColon bucket') h
  obtain ⟨hid, hdim⟩ := Separators.separated_inj_first apiKeyId.noColon apiKeyId'.noColon
    (append_cancel_left hbefore)
  refine ⟨?_, dimensionKeyToString_inj hdim, bucketText_inj hbucket⟩
  cases apiKeyId
  cases apiKeyId'
  obtain rfl := hid
  rfl

variable {keyPrefix : JsString}

/-- A counter is needed until the bucket after its own is over. -/
def Needed (keyPrefix key : JsString) (last : Nat) : Prop :=
  ∃ (apiKeyId : ApiKeyId) (dim : DimensionKey) (bucket : Int),
    key = bucketKey keyPrefix apiKeyId.text (dimensionKeyToString dim) bucket ∧
      (last : Int) + 1 = (bucket + 2) * windowMs dim.window

theorem bucketOf_bounds (nowMs : Nat) (window : QuotaWindow) :
    bucketOf nowMs window * windowMs window ≤ nowMs ∧
      (nowMs : Int) < (bucketOf nowMs window + 1) * windowMs window := by
  have hle := Nat.div_mul_le_self nowMs (windowMs window)
  have hlt := Nat.lt_mul_div_succ nowMs (windowMs_pos window)
  unfold bucketOf
  constructor
  · exact_mod_cast hle
  · rw [Int.mul_comm]
    exact_mod_cast hlt

theorem needed_read (keyPrefix : JsString) (nowMs : Nat) (apiKeyId : ApiKeyId) (dim : DimensionKey)
    {bucket : Int}
    (hbucket : bucket = bucketOf nowMs dim.window ∨ bucket = bucketOf nowMs dim.window - 1) :
    ∃ last, Needed keyPrefix
      (bucketKey keyPrefix apiKeyId.text (dimensionKeyToString dim) bucket) last ∧
        nowMs ≤ last := by
  obtain ⟨-, hlt⟩ := bucketOf_bounds nowMs dim.window
  have hend : (nowMs : Int) < (bucket + 2) * windowMs dim.window := by
    rcases hbucket with rfl | rfl <;> linarith
  refine ⟨((bucket + 2) * windowMs dim.window - 1).toNat, ⟨apiKeyId, dim, bucket, rfl, ?_⟩, ?_⟩
  · omega
  · omega

theorem ttl_long (nowMs : Nat) (apiKeyId : ApiKeyId) (dim : DimensionKey) {bucket : Int}
    (hbucket : bucket = bucketOf nowMs dim.window ∨ bucket = bucketOf nowMs dim.window - 1) :
    ∀ last, Needed keyPrefix
      (bucketKey keyPrefix apiKeyId.text (dimensionKeyToString dim) bucket) last →
        last ≤ nowMs + ttlSeconds (windowMs dim.window) * 1000 := by
  rintro last ⟨apiKeyId', dim', bucket', hkey, hlast⟩
  obtain ⟨-, rfl, rfl⟩ := bucketKey_inj hkey
  obtain ⟨hle, -⟩ := bucketOf_bounds nowMs dim.window
  have htwice : 2 * windowMs dim.window ≤ ttlSeconds (windowMs dim.window) * 1000 := by
    unfold ttlSeconds
    omega
  have hend : (bucket + 2) * (windowMs dim.window : Int) ≤ nowMs + 2 * windowMs dim.window := by
    rcases hbucket with rfl | rfl <;> linarith
  omega

/-- The counters hold what each key spent, and last long enough. -/
structure RedisShows (keyPrefix : JsString) (history : List ConsumeCall) (nowMs : Nat)
    (counters : QuotaCounters) : Prop where
  lasting : ExpiringStore.Lasting (Needed keyPrefix) counters nowMs
  stored : ∀ (apiKeyId : ApiKeyId) (dim : DimensionKey) (bucket : Int),
    counters.stored (bucketKey keyPrefix apiKeyId.text (dimensionKeyToString dim) bucket) =
      spent (· = apiKeyId) history dim bucket

variable {counters : QuotaCounters} {history : List ConsumeCall}

theorem RedisShows.later {nowMs laterMs : Nat} (h : RedisShows keyPrefix history nowMs counters)
    (hle : nowMs ≤ laterMs) : RedisShows keyPrefix history laterMs counters :=
  ⟨h.lasting.later hle, h.stored⟩

theorem RedisShows.value_eq {nowMs : Nat} (h : RedisShows keyPrefix history nowMs counters)
    (apiKeyId : ApiKeyId) (dim : DimensionKey) {bucket : Int}
    (hbucket : bucket = bucketOf nowMs dim.window ∨ bucket = bucketOf nowMs dim.window - 1) :
    counters.value nowMs (bucketKey keyPrefix apiKeyId.text (dimensionKeyToString dim) bucket) =
      spent (· = apiKeyId) history dim bucket := by
  obtain ⟨last, hneeded, hlast⟩ := needed_read keyPrefix nowMs apiKeyId dim hbucket
  rw [h.lasting.value_eq hneeded hlast, h.stored]

theorem RedisShows.consume {call : ConsumeCall}
    (h : RedisShows keyPrefix history call.nowMs counters) :
    RedisShows keyPrefix (history ++ [call]) call.nowMs
      (RedisQuotaStore.consume keyPrefix counters call.nowMs call.apiKeyId call.dim call.cost).2 := by
  constructor
  · refine ExpiringStore.Lasting.expire (ExpiringStore.Lasting.expire (h.lasting.incrBy _ _) ?_) ?_
    · exact ttl_long call.nowMs call.apiKeyId call.dim (.inl rfl)
    · exact ttl_long call.nowMs call.apiKeyId call.dim (.inr rfl)
  · intro apiKeyId dim bucket
    obtain ⟨last, hneeded, hlast⟩ :=
      needed_read keyPrefix call.nowMs call.apiKeyId call.dim (.inl rfl)
    have hcounted := h.lasting.stored_incrBy hneeded hlast call.cost
      (bucketKey keyPrefix apiKeyId.text (dimensionKeyToString dim) bucket)
    have hsame : bucketKey keyPrefix call.apiKeyId.text (dimensionKeyToString call.dim)
          (bucketOf call.nowMs call.dim.window) =
        bucketKey keyPrefix apiKeyId.text (dimensionKeyToString dim) bucket ↔
        call.apiKeyId = apiKeyId ∧ call.dim = dim ∧ call.bucket = bucket :=
      ⟨bucketKey_inj, by rintro ⟨rfl, rfl, rfl⟩; rfl⟩
    rw [spent_append]
    simp only [RedisQuotaStore.consume, ExpiringStore.stored_expire]
    rw [hcounted, h.stored]
    simp only [hsame]

/-- The calls are in the order of the clock, and the last of them is not late. -/
def ClockOrder (history : List ConsumeCall) (nowMs : Nat) : Prop :=
  history.Pairwise (fun c d => c.nowMs ≤ d.nowMs) ∧ ∀ call ∈ history, call.nowMs ≤ nowMs

theorem redis_shows {history : List ConsumeCall} {nowMs : Nat} (h : ClockOrder history nowMs) :
    RedisShows keyPrefix history nowMs (redisCounters keyPrefix history) := by
  induction history using List.reverseRecOn generalizing nowMs with
  | nil =>
    refine ⟨?_, fun _ _ _ => rfl⟩
    intro key last _ _ entry hget
    cases hget
  | append_singleton history call ih =>
    obtain ⟨horder, hbefore⟩ := h
    obtain ⟨hfirst, -, hlast⟩ := pairwise_append.mp horder
    have hshows := @ih call.nowMs ⟨hfirst, fun c hc => hlast c hc call (mem_singleton_self call)⟩
    have hcall : call.nowMs ≤ nowMs :=
      hbefore call (mem_append_right _ (mem_singleton_self call))
    have hrun : redisCounters keyPrefix (history ++ [call]) = (RedisQuotaStore.consume keyPrefix
        (redisCounters keyPrefix history) call.nowMs call.apiKeyId call.dim call.cost).2 := by
      simp [redisCounters]
    rw [hrun]
    exact hshows.consume.later hcall

/-! ## Agreement -/

section

variable {history : List ConsumeCall} {nowMs : Nat}

def effective (kind : ApiKeyId → Prop) [DecidablePred kind] (history : List ConsumeCall)
    (nowMs : Nat) (dim : DimensionKey) : ℚ :=
  slidingWindowEffective (spent kind history dim (bucketOf nowMs dim.window))
    (spent kind history dim (bucketOf nowMs dim.window - 1)) nowMs (windowMs dim.window)

theorem sqlite_peek (history : List ConsumeCall) (nowMs : Nat) (apiKeyId : ApiKeyId)
    (dim : DimensionKey) :
    SqliteQuotaStore.peek (sqliteRows history) nowMs apiKeyId dim =
      effective (· = apiKeyId) history nowMs dim := by
  simp [SqliteQuotaStore.peek, QuotaConsumption.getPair, (sqlite_shows history dim _).1, effective]

theorem sqlite_total (history : List ConsumeCall) (nowMs : Nat) (dim : DimensionKey) :
    SqliteQuotaStore.poolConsumedTotal (sqliteRows history) nowMs dim =
      effective (fun _ => True) history nowMs dim := by
  simp [SqliteQuotaStore.poolConsumedTotal, QuotaConsumption.sumPoolDimension,
    (sqlite_shows history dim _).2, effective]

theorem sqlite_consume (history : List ConsumeCall) (call : ConsumeCall) :
    (SqliteQuotaStore.consume (sqliteRows history) call.nowMs call.apiKeyId call.dim call.cost).1 =
      effective (· = call.apiKeyId) (history ++ [call]) call.nowMs call.dim := by
  rw [← sqlite_peek]
  simp [SqliteQuotaStore.consume, sqliteRows]

theorem redis_peek (h : ClockOrder history nowMs) (apiKeyId : ApiKeyId) (dim : DimensionKey) :
    RedisQuotaStore.peek keyPrefix (redisCounters keyPrefix history) nowMs apiKeyId dim =
      effective (· = apiKeyId) history nowMs dim := by
  have hshows := @redis_shows keyPrefix _ _ h
  simp [RedisQuotaStore.peek, hshows.value_eq apiKeyId dim (.inl rfl),
    hshows.value_eq apiKeyId dim (.inr rfl), effective]

theorem redis_consume {call : ConsumeCall} (h : ClockOrder history call.nowMs) :
    (RedisQuotaStore.consume keyPrefix (redisCounters keyPrefix history) call.nowMs call.apiKeyId
        call.dim call.cost).1 =
      effective (· = call.apiKeyId) (history ++ [call]) call.nowMs call.dim := by
  have hshows := @redis_shows keyPrefix _ _ h
  have hprev := hshows.consume.value_eq call.apiKeyId call.dim (.inr rfl)
  have hcurr := hshows.value_eq call.apiKeyId call.dim (.inl rfl)
  have hadded : spent (· = call.apiKeyId) (history ++ [call]) call.dim
        (bucketOf call.nowMs call.dim.window) =
      spent (· = call.apiKeyId) history call.dim (bucketOf call.nowMs call.dim.window) +
        call.cost := by
    rw [spent_append, if_pos ⟨rfl, rfl, rfl⟩]
  unfold effective
  rw [← hprev, hadded, ← hcurr]
  rfl

def allocatedKeys (pool : Option QuotaPool) : List ApiKeyId :=
  match pool with
  | none => []
  | some pool => pool.allocations

theorem redis_total (h : ClockOrder history nowMs) (pool : Option QuotaPool) (dim : DimensionKey) :
    RedisQuotaStore.poolConsumedTotal keyPrefix (redisCounters keyPrefix history) nowMs pool dim =
      effective (· ∈ allocatedKeys pool) history nowMs dim := by
  have hnone : effective (· ∈ ([] : List ApiKeyId)) history nowMs dim = 0 := by
    have hzero : ∀ bucket, spent (· ∈ ([] : List ApiKeyId)) history dim bucket = 0 := by
      intro bucket
      rw [spent_mem history dim bucket nodup_nil]
      rfl
    unfold effective
    rw [hzero, hzero]
    simp [slidingWindowEffective]
  cases pool with
  | none => exact hnone.symm
  | some pool =>
    unfold RedisQuotaStore.poolConsumedTotal
    dsimp only
    split
    · rename_i hempty
      rw [allocatedKeys, List.isEmpty_iff.mp hempty, hnone]
    · have hshows := @redis_shows keyPrefix _ _ h
      have htotal : ∀ bucket, bucket = bucketOf nowMs dim.window ∨
            bucket = bucketOf nowMs dim.window - 1 →
          (pool.allocations.map fun apiKeyId => (redisCounters keyPrefix history).value nowMs
            (bucketKey keyPrefix apiKeyId.text (dimensionKeyToString dim) bucket)).sum =
            spent (· ∈ pool.allocations) history dim bucket := by
        intro bucket hbucket
        rw [spent_mem history dim bucket pool.distinct]
        congr 1
        apply map_congr_left
        intro apiKeyId _
        exact hshows.value_eq apiKeyId dim hbucket
      rw [htotal _ (.inl rfl), htotal _ (.inr rfl)]
      rfl

theorem slidingWindowEffective_add (curr curr' prev prev' : ℚ) (nowMs windowMs : Nat) :
    slidingWindowEffective (curr + curr') (prev + prev') nowMs windowMs =
      slidingWindowEffective curr prev nowMs windowMs +
        slidingWindowEffective curr' prev' nowMs windowMs := by
  unfold slidingWindowEffective
  ring

/-- The weight of the previous bucket is never zero, so nothing counts exactly
when nothing was consumed. -/
theorem slidingWindowEffective_eq_zero_iff {curr prev : ℚ} (hcurr : 0 ≤ curr) (hprev : 0 ≤ prev)
    (nowMs : Nat) {windowMs : Nat} (hpos : 0 < windowMs) :
    slidingWindowEffective curr prev nowMs windowMs = 0 ↔ curr = 0 ∧ prev = 0 := by
  have helapsed : nowMs - nowMs / windowMs * windowMs < windowMs := by
    have hlt := Nat.lt_mul_div_succ nowMs hpos
    rw [Nat.mul_succ, Nat.mul_comm] at hlt
    omega
  have hweight : 0 < 1 - ((nowMs - nowMs / windowMs * windowMs : Nat) : ℚ) / windowMs := by
    have hwindow : (0 : ℚ) < windowMs := by exact_mod_cast hpos
    have hpart : ((nowMs - nowMs / windowMs * windowMs : Nat) : ℚ) / windowMs < 1 := by
      rw [div_lt_one hwindow]
      exact_mod_cast helapsed
    linarith
  unfold slidingWindowEffective
  dsimp only
  generalize 1 - ((nowMs - nowMs / windowMs * windowMs : Nat) : ℚ) / windowMs = weight at hweight
  have hcovered : 0 ≤ prev * weight := mul_nonneg hprev hweight.le
  constructor
  · intro hsum
    have hzero : prev * weight = 0 := by linarith
    exact ⟨by linarith, (mul_eq_zero.mp hzero).resolve_right hweight.ne'⟩
  · rintro ⟨rfl, rfl⟩
    simp

/-- After any history, both stores count the same for every key, and the totals
of a pool are the same exactly when every key that consumed in the two buckets
is allocated to when the total is read. -/
theorem quotaStores_agree_iff (keyPrefix : JsString) {history : List ConsumeCall} {nowMs : Nat}
    (h : ClockOrder history nowMs) (pool : Option QuotaPool) (dim : DimensionKey) :
    let rows := sqliteRows history
    let counters := redisCounters keyPrefix history
    ((∀ apiKeyId, SqliteQuotaStore.peek rows nowMs apiKeyId dim =
        RedisQuotaStore.peek keyPrefix counters nowMs apiKeyId dim) ∧
      (∀ apiKeyId cost, 0 < cost → (SqliteQuotaStore.consume rows nowMs apiKeyId dim cost).1 =
        (RedisQuotaStore.consume keyPrefix counters nowMs apiKeyId dim cost).1) ∧
      SqliteQuotaStore.poolConsumedTotal rows nowMs dim =
        RedisQuotaStore.poolConsumedTotal keyPrefix counters nowMs pool dim) ↔
    ∀ call ∈ history, call.dim = dim →
      call.bucket = bucketOf nowMs dim.window ∨ call.bucket = bucketOf nowMs dim.window - 1 →
        call.apiKeyId ∈ allocatedKeys pool := by
  intro rows counters
  have hsplit : effective (fun _ => True) history nowMs dim =
      effective (· ∈ allocatedKeys pool) history nowMs dim +
        effective (· ∉ allocatedKeys pool) history nowMs dim := by
    have hbucket : ∀ bucket, spent (fun _ => True) history dim bucket =
        spent (· ∈ allocatedKeys pool) history dim bucket +
          spent (· ∉ allocatedKeys pool) history dim bucket := by
      intro bucket
      rw [← spent_or history dim bucket fun key hkey hnot => hnot hkey]
      exact spent_congr history dim bucket fun key => iff_of_true trivial (em _)
    unfold effective
    rw [hbucket, hbucket, slidingWindowEffective_add]
  have htotals : SqliteQuotaStore.poolConsumedTotal rows nowMs dim =
        RedisQuotaStore.poolConsumedTotal keyPrefix counters nowMs pool dim ↔
      effective (· ∉ allocatedKeys pool) history nowMs dim = 0 := by
    rw [sqlite_total, redis_total h pool dim, hsplit]
    constructor
    · intro heq
      linarith
    · intro hzero
      rw [hzero, add_zero]
  have houtside : effective (· ∉ allocatedKeys pool) history nowMs dim = 0 ↔
      ∀ call ∈ history, call.dim = dim →
        call.bucket = bucketOf nowMs dim.window ∨ call.bucket = bucketOf nowMs dim.window - 1 →
          call.apiKeyId ∈ allocatedKeys pool := by
    unfold effective
    rw [slidingWindowEffective_eq_zero_iff (spent_nonneg _ _ _) (spent_nonneg _ _ _) nowMs
      (windowMs_pos dim.window), spent_eq_zero_iff, spent_eq_zero_iff]
    constructor
    · rintro ⟨hcurr, hprev⟩ call hcall hdim (hbucket | hbucket)
      · exact not_not.mp (hcurr call hcall hdim hbucket)
      · exact not_not.mp (hprev call hcall hdim hbucket)
    · intro hall
      exact ⟨fun call hcall hdim hbucket => not_not.mpr (hall call hcall hdim (.inl hbucket)),
        fun call hcall hdim hbucket => not_not.mpr (hall call hcall hdim (.inr hbucket))⟩
  rw [← houtside, ← htotals]
  constructor
  · exact fun hagree => hagree.2.2
  · intro htotal
    refine ⟨?_, ?_, htotal⟩
    · intro apiKeyId
      rw [sqlite_peek, redis_peek h]
    · intro apiKeyId cost hcost
      have hsqlite := sqlite_consume history ⟨nowMs, apiKeyId, dim, cost, hcost⟩
      have hredis := @redis_consume keyPrefix _ ⟨nowMs, apiKeyId, dim, cost, hcost⟩ h
      exact hsqlite.trans hredis.symm

end

/-- A key that consumed, and the key that the pool is given to afterwards. -/
def formerKey : ApiKeyId := ⟨js "key-1", by decide⟩

def currentKey : ApiKeyId := ⟨js "key-2", by decide⟩

def hourlyRequests : DimensionKey := ⟨js "pool-1", .requests, .hourly⟩

def formerHistory : List ConsumeCall := [⟨0, formerKey, hourlyRequests, 3, by decide +kernel⟩]

theorem clockOrder_formerHistory : ClockOrder formerHistory 1000 := by
  refine ⟨pairwise_singleton _ _, ?_⟩
  intro call hcall
  rw [mem_singleton.mp hcall]
  decide

theorem quotaStores_agree_former :
    ((∀ apiKeyId, SqliteQuotaStore.peek (sqliteRows formerHistory) 1000 apiKeyId hourlyRequests =
        RedisQuotaStore.peek (js "omniroute:") (redisCounters (js "omniroute:") formerHistory) 1000
          apiKeyId hourlyRequests) ∧
      (∀ apiKeyId cost, 0 < cost →
        (SqliteQuotaStore.consume (sqliteRows formerHistory) 1000 apiKeyId hourlyRequests cost).1 =
          (RedisQuotaStore.consume (js "omniroute:")
            (redisCounters (js "omniroute:") formerHistory) 1000 apiKeyId hourlyRequests cost).1) ∧
      SqliteQuotaStore.poolConsumedTotal (sqliteRows formerHistory) 1000 hourlyRequests =
        RedisQuotaStore.poolConsumedTotal (js "omniroute:")
          (redisCounters (js "omniroute:") formerHistory) 1000
          (some ⟨[formerKey, currentKey], by decide⟩) hourlyRequests) := by
  refine (quotaStores_agree_iff (js "omniroute:") clockOrder_formerHistory _ _).mpr ?_
  intro call hcall _ _
  rw [mem_singleton.mp hcall]
  decide

/-- Once the pool is given to another key, the table still counts what the
former key consumed, and Redis does not. -/
theorem quotaStores_disagree :
    SqliteQuotaStore.poolConsumedTotal (sqliteRows formerHistory) 1000 hourlyRequests = 3 ∧
      RedisQuotaStore.poolConsumedTotal (js "omniroute:")
        (redisCounters (js "omniroute:") formerHistory) 1000
        (some ⟨[currentKey], by decide⟩) hourlyRequests = 0 := by
  decide +kernel

end RedRouter.Quota
