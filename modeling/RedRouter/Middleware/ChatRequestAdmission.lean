import RedRouter.Lib.Decimal
import RedRouter.Middleware.IngestByteAdmission

/-!
# Admission of a chat request

The model of `admitChatRequest` in `chatBodyAdmission.ts`: a declared length may
reserve before the body is read, and otherwise the body reserves when the bytes
read so far come to `largeBodyBytes`.  There is one reservation.

The bytes that are reserved need not be the bytes that are read.
`charged_iff` says when they are not: the body goes on behind the chunk that
reserved, or beyond a declared length.
-/

namespace RedRouter.Middleware.ChatRequestAdmission

open List JsString IngestByteAdmissionController

/-- `request.body`, and what its reader will give. -/
inductive RequestBody where
  | none
  /-- another reader has it, so `getReader` throws -/
  | locked
  | stream (chunks : List (List UInt8)) (fails : Bool)

structure ChatRequest where
  internalBypass : Bool
  /-- the header `content-length` -/
  contentLength : Option JsString
  body : RequestBody

/-- The options of a call, and what the controller answers it. -/
structure Admission where
  largeBodyBytes : Nat
  hardMaxBytes : Nat
  maxInflightBytes : Nat
  /-- `pressureSeverity() === "critical"` -/
  critical : Bool
  heapPressureCheck : Bool
  tryAcquireHeavy : Bool
  tryAcquireHealthyHeadroom : Bool
  acquireHeavyWithin : Nat → Bool
  /-- whether room for these bytes is found in time -/
  budgetFree : Nat → Bool

/-- What a call holds: slots of the count gate, and bytes of the ingest budget. -/
structure Ledger where
  slots : Nat := 0
  charged : Nat := 0
deriving DecidableEq

/-- A composed lease: one slot, and the charge. -/
structure Lease where
  charge : Nat
deriving DecidableEq

inductive Rejection where
  | resourcePressure
  | tooLarge
  | bodyExceedsBudget
  | busy
deriving DecidableEq

inductive Result where
  | admitted (body : Option (List UInt8)) (lease : Option Lease)
  | rejected (reason : Rejection)
  | threw
deriving DecidableEq

def release (lease : Option Lease) (ledger : Ledger) : Ledger :=
  match lease with
  | none => ledger
  | some lease => { slots := ledger.slots - 1, charged := ledger.charged - lease.charge }

def parseContentLength (header : Option JsString) : Option Nat := do
  let digits ← header.map trim
  guard (digits ≠ [] ∧ (digits = js "0" ∨ digits.head? ≠ some (unit '0')))
  let parsed ← readNat digits
  guard (parsed ≤ 9007199254740991)
  return parsed

variable (a : Admission) (bytes : Nat)

def canFitBudget : Bool := canFit a.maxInflightBytes bytes

/-- Whether `reserve` gets its two leases. -/
def acquireCount : Bool :=
  a.tryAcquireHeavy || (!a.heapPressureCheck && a.tryAcquireHealthyHeadroom) ||
    a.acquireHeavyWithin bytes

def acquireBudgetWithin : Option Nat :=
  if canFitBudget a bytes && a.budgetFree bytes then some (normalizeCharge bytes) else none

/-- `reserve`: the lease that there is then, if any. -/
def reserve (lease : Option Lease) (ledger : Ledger) : Option Lease × Ledger :=
  match lease with
  | some lease => (some lease, ledger)
  | none =>
    if !acquireCount a bytes then (none, ledger)
    else
      let ledger := { ledger with slots := ledger.slots + 1 }
      match acquireBudgetWithin a bytes with
      | none => (none, { ledger with slots := ledger.slots - 1 })
      | some charge => (some { charge }, { ledger with charged := ledger.charged + charge })

def ingest (fails : Bool) : List (List UInt8) → List UInt8 → Option Lease → Ledger → Result × Ledger
  | [], body, lease, ledger =>
      if fails then (.threw, release lease ledger) else (.admitted (some body) lease, ledger)
  | value :: chunks, read, lease, ledger =>
      let totalBytes := read.length + value.length
      if totalBytes > a.hardMaxBytes then (.rejected .tooLarge, release lease ledger)
      else if totalBytes ≥ a.largeBodyBytes ∧ !canFitBudget a totalBytes then
        (.rejected .bodyExceedsBudget, release lease ledger)
      else if totalBytes ≥ a.largeBodyBytes then
        match reserve a totalBytes lease ledger with
        | (none, ledger) => (.rejected .busy, ledger)
        | (some lease, ledger) => ingest fails chunks (read ++ value) (some lease) ledger
      else ingest fails chunks (read ++ value) lease ledger

/-- The loop of the internal self-loop, which reserves nothing. -/
def ingestInternal (fails : Bool) : List (List UInt8) → List UInt8 → Result
  | [], body => if fails then .threw else .admitted (some body) none
  | value :: chunks, read =>
      if read.length + value.length > a.hardMaxBytes then .rejected .tooLarge
      else ingestInternal fails chunks (read ++ value)

def admitInternal (contentLength : Option Nat) (body : RequestBody) : Result :=
  if contentLength.any (· > a.hardMaxBytes) then .rejected .tooLarge
  else
    match body with
    | .none => .admitted none none
    | .locked => .threw
    | .stream chunks fails => ingestInternal a fails chunks []

def readBody (body : RequestBody) (lease : Option Lease) (ledger : Ledger) : Result × Ledger :=
  match body with
  | .none => (.admitted none lease, ledger)
  -- `getReader` is not inside the `try`
  | .locked => (.threw, ledger)
  | .stream chunks fails => ingest a fails chunks [] lease ledger

def admitChatRequest (request : ChatRequest) : Result × Ledger :=
  let contentLength := parseContentLength request.contentLength
  if request.internalBypass then (admitInternal a contentLength request.body, {})
  else if a.critical then (.rejected .resourcePressure, {})
  else if contentLength.any (· > a.hardMaxBytes) then (.rejected .tooLarge, {})
  else
    match contentLength.filter (· ≥ a.largeBodyBytes) with
    | none => readBody a request.body none {}
    | some contentLength =>
      if !canFitBudget a contentLength then (.rejected .bodyExceedsBudget, {})
      else
        match reserve a (min contentLength a.hardMaxBytes) none {} with
        | (none, ledger) => (.rejected .busy, ledger)
        | (lease, ledger) => readBody a request.body lease ledger

/-! ## What an admission owes -/

/-- A large body is charged in full, and what is not admitted holds nothing. -/
def Charged (r : Result × Ledger) : Prop :=
  match r.1 with
  | .admitted (some body) _ => a.largeBodyBytes ≤ body.length → body.length ≤ r.2.charged
  | .admitted none _ => True
  | .rejected _ => r.2 = {}
  | .threw => r.2 = {}

/-- Both leases are there for a reservation of these bytes. -/
def Granted : Prop :=
  acquireCount a bytes = true ∧ bytes ≤ a.maxInflightBytes ∧ a.budgetFree bytes = true

/-- As many bytes are read to the end. -/
def Fits : Prop := bytes ≤ a.hardMaxBytes ∧ bytes ≤ a.maxInflightBytes

/-- Bytes follow on the chunk that brings the bytes read to `largeBodyBytes`, and
that chunk gets its reservation. -/
def GoesOn (read : List UInt8) (chunks : List (List UInt8)) : Prop :=
  ∃ before chunk after, chunks = before ++ chunk :: after ∧
    (before = [] ∨ (read ++ before.flatten).length < a.largeBodyBytes) ∧
    a.largeBodyBytes ≤ (read ++ before.flatten ++ chunk).length ∧
    Granted a (read ++ before.flatten ++ chunk).length ∧ after.flatten ≠ []

/-- The body is read to its end, beyond what is reserved for it; or a length is
reserved for a body that another reader has. -/
def Exposed (request : ChatRequest) : Prop :=
  a.critical = false ∧ (∀ length, parseContentLength request.contentLength = some length →
      length ≤ a.hardMaxBytes) ∧
    match (parseContentLength request.contentLength).filter (· ≥ a.largeBodyBytes) with
    | some length => Granted a length ∧
        (request.body = .locked ∨ ∃ chunks, request.body = .stream chunks false ∧
          Fits a chunks.flatten.length ∧ length < chunks.flatten.length)
    | none => ∃ chunks, request.body = .stream chunks false ∧
        Fits a chunks.flatten.length ∧ GoesOn a [] chunks

/-- What a call with this lease holds. -/
def held : Option Lease → Ledger
  | none => {}
  | some lease => { slots := 1, charged := lease.charge }

variable {a} {fails : Bool} {chunks : List (List UInt8)} {read : List UInt8}

theorem release_held (lease : Option Lease) : release lease (held lease) = {} := by
  cases lease with
  | none => rfl
  | some lease =>
    show Ledger.mk (1 - 1) (lease.charge - lease.charge) = {}
    rw [Nat.sub_self, Nat.sub_self]

theorem normalizeCharge_natCast (n : Nat) : normalizeCharge (n : ℚ) = n := by
  rw [normalizeCharge, Int.floor_natCast, max_eq_right (Int.natCast_nonneg n), Int.toNat_natCast]

theorem canFitBudget_iff {bytes : Nat} : canFitBudget a bytes ↔ bytes ≤ a.maxInflightBytes := by
  rw [canFitBudget, canFit, normalizeCharge_natCast, decide_eq_true_iff]

theorem reserve_of_granted {bytes : Nat} (h : Granted a bytes) :
    reserve a bytes none {} = (some ⟨bytes⟩, held (some ⟨bytes⟩)) := by
  have hfit : canFitBudget a bytes = true := canFitBudget_iff.mpr h.2.1
  simp [reserve, acquireBudgetWithin, h.1, hfit, h.2.2, normalizeCharge_natCast, held]

theorem reserve_of_not_granted {bytes : Nat} (h : ¬ Granted a bytes) :
    reserve a bytes none {} = (none, {}) := by
  unfold reserve acquireBudgetWithin
  by_cases hcount : acquireCount a bytes = true
  · by_cases hbudget : (canFitBudget a bytes && a.budgetFree bytes) = true
    · rw [Bool.and_eq_true, canFitBudget_iff] at hbudget
      exact absurd ⟨hcount, hbudget⟩ h
    · simp [hbudget]
  · simp [hcount]

theorem charged_ingest_some {lease : Lease} (hlarge : a.largeBodyBytes ≤ lease.charge)
    (hread : read.length ≤ lease.charge ∨ Fits a read.length) :
    Charged a (ingest a fails chunks read (some lease) (held (some lease))) ↔
      ¬ (fails = false ∧ Fits a (read ++ chunks.flatten).length ∧
        lease.charge < (read ++ chunks.flatten).length) := by
  induction chunks generalizing read with
  | nil =>
    rw [List.flatten_nil, append_nil]
    unfold ingest
    cases fails with
    | true => simp [Charged, release_held]
    | false =>
      simp only [Bool.false_eq_true, if_false, Charged, held, true_and]
      constructor
      · rintro h ⟨-, hlt⟩
        omega
      · intro h _
        by_contra hlt
        exact h ⟨hread.resolve_left (by omega), by omega⟩
  | cons value chunks ih =>
    have hlength : (read ++ (value :: chunks).flatten).length =
        read.length + value.length + chunks.flatten.length := by
      simp [Nat.add_assoc]
    have happend : read ++ (value :: chunks).flatten = (read ++ value) ++ chunks.flatten := by
      simp
    have hvalue : (read ++ value).length = read.length + value.length := length_append
    unfold ingest
    dsimp only
    split
    · simp only [Charged, release_held, true_iff]
      rintro ⟨-, hfits, -⟩
      have := hfits.1
      omega
    · split
      · rename_i hfull
        simp only [Charged, release_held, true_iff]
        rintro ⟨-, hfits, -⟩
        rw [Bool.not_eq_true', ← Bool.not_eq_true, canFitBudget_iff] at hfull
        have := hfits.2
        omega
      · rename_i hmax hfull
        rw [happend]
        split
        · have hfit : canFitBudget a (read.length + value.length) = true := by
            by_contra hn
            exact hfull ⟨‹_›, by simpa using hn⟩
          apply ih
          right
          rw [hvalue]
          exact ⟨Nat.not_lt.mp hmax, canFitBudget_iff.mp hfit⟩
        · apply ih
          left
          omega

theorem goesOn_cons {value : List UInt8} : GoesOn a read (value :: chunks) ↔
      (a.largeBodyBytes ≤ (read ++ value).length ∧ Granted a (read ++ value).length ∧
          chunks.flatten ≠ []) ∨
        ((read ++ value).length < a.largeBodyBytes ∧ GoesOn a (read ++ value) chunks) := by
  constructor
  · rintro ⟨before, chunk, after, hsplit, hbefore, hlarge, hgranted, hafter⟩
    cases before with
    | nil =>
      obtain ⟨rfl, rfl⟩ := List.cons.inj hsplit
      rw [List.flatten_nil, append_nil] at hlarge hgranted
      exact .inl ⟨hlarge, hgranted, hafter⟩
    | cons first before =>
      obtain ⟨rfl, rfl⟩ := List.cons.inj hsplit
      right
      have hlt := hbefore.resolve_left (cons_ne_nil _ _)
      rw [List.flatten_cons, ← append_assoc] at hlt hlarge hgranted
      have hvalue : (read ++ value).length < a.largeBodyBytes := by
        rw [length_append] at hlt
        omega
      exact ⟨hvalue, before, chunk, after, rfl, .inr hlt, hlarge, hgranted, hafter⟩
  · rintro (⟨hlarge, hgranted, hafter⟩ | ⟨hvalue, before, chunk, after, rfl, hbefore, hlarge,
      hgranted, hafter⟩)
    · exact ⟨[], value, chunks, rfl, .inl rfl, by simpa using hlarge, by simpa using hgranted,
        hafter⟩
    · refine ⟨value :: before, chunk, after, rfl, .inr ?_, ?_, ?_, hafter⟩
      all_goals rw [List.flatten_cons, ← append_assoc]
      · rcases hbefore with rfl | hlt
        · simpa using hvalue
        · exact hlt
      · exact hlarge
      · exact hgranted

theorem charged_ingest_none (hread : read = [] ∨ read.length < a.largeBodyBytes) :
    Charged a (ingest a fails chunks read none {}) ↔
      ¬ (fails = false ∧ Fits a (read ++ chunks.flatten).length ∧ GoesOn a read chunks) := by
  induction chunks generalizing read with
  | nil =>
    have hgo : ¬ GoesOn a read [] := by
      rintro ⟨before, chunk, after, hsplit, -⟩
      simp at hsplit
    unfold ingest
    cases fails with
    | true => simp [Charged, release]
    | false =>
      simp only [hgo, and_false, not_false_iff, iff_true]
      intro hlarge
      rcases hread with rfl | hlt
      · exact Nat.le_refl 0
      · omega
  | cons value chunks ih =>
    have happend : read ++ (value :: chunks).flatten = (read ++ value) ++ chunks.flatten := by
      simp
    have hlength : ((read ++ value) ++ chunks.flatten).length =
        read.length + value.length + chunks.flatten.length := by
      simp [Nat.add_assoc]
    have hvalue : (read ++ value).length = read.length + value.length := length_append
    have hempty : chunks.flatten ≠ [] ↔ 0 < chunks.flatten.length := length_pos_iff.symm
    rw [happend, goesOn_cons]
    unfold ingest
    dsimp only
    rw [← hvalue]
    split
    · simp only [Charged, release, true_iff]
      rintro ⟨-, hfits, -⟩
      have := hfits.1
      omega
    · split
      · rename_i hfull
        simp only [Charged, release, true_iff]
        rintro ⟨-, hfits, -⟩
        rw [Bool.not_eq_true', ← Bool.not_eq_true, canFitBudget_iff] at hfull
        have := hfits.2
        omega
      · split
        · rename_i hlarge
          have hnot : ¬ (read ++ value).length < a.largeBodyBytes := Nat.not_lt.mpr hlarge
          by_cases hgranted : Granted a (read ++ value).length
          · rw [reserve_of_granted hgranted]
            rw [charged_ingest_some hlarge (.inl (Nat.le_refl _))]
            simp only [hnot, false_and, or_false, hgranted, true_and, hempty]
            rw [and_iff_right hlarge]
            have hlt : (read ++ value).length < ((read ++ value) ++ chunks.flatten).length ↔
                0 < chunks.flatten.length := by omega
            rw [hlt]
          · rw [reserve_of_not_granted hgranted]
            simp only [Charged, hgranted, hnot, false_and, and_false, or_self, not_false_iff]
        · rename_i hsmall
          have hnot : ¬ a.largeBodyBytes ≤ (read ++ value).length := hsmall
          have hlt := Nat.not_le.mp hnot
          rw [ih (.inr hlt)]
          simp only [hnot, hlt, false_and, false_or, true_and]

theorem charged_readBody_none (body : RequestBody) : Charged a (readBody a body none {}) ↔
      ¬ ∃ chunks, body = .stream chunks false ∧ Fits a chunks.flatten.length ∧
        GoesOn a [] chunks := by
  cases body with
  | none => simp [readBody, Charged]
  | locked => simp [readBody, Charged]
  | stream chunks fails =>
    simp [readBody, charged_ingest_none (.inl rfl)]

theorem charged_readBody_some (body : RequestBody) {lease : Lease}
    (hlarge : a.largeBodyBytes ≤ lease.charge) :
    Charged a (readBody a body (some lease) (held (some lease))) ↔
      ¬ (body = .locked ∨ ∃ chunks, body = .stream chunks false ∧
        Fits a chunks.flatten.length ∧ lease.charge < chunks.flatten.length) := by
  cases body with
  | none => simp [readBody, Charged]
  | locked => simp [readBody, Charged, held]
  | stream chunks fails =>
    have hnil : ([] : List UInt8).length ≤ lease.charge := Nat.zero_le _
    simp [readBody, charged_ingest_some hlarge (.inl hnil)]

/-- Every admitted large body is charged in full and every other call holds
nothing, exactly when the request is not exposed. -/
theorem charged_iff (a : Admission) (request : ChatRequest) (h : request.internalBypass = false) :
    Charged a (admitChatRequest a request) ↔ ¬ Exposed a request := by
  unfold admitChatRequest Exposed
  rw [h]
  rw [if_neg Bool.false_ne_true]
  generalize parseContentLength request.contentLength = contentLength
  by_cases hcritical : a.critical = true
  · simp [Charged, hcritical]
  rw [if_neg hcritical, and_iff_right (Bool.eq_false_iff.mpr hcritical)]
  cases contentLength with
  | none => simpa using charged_readBody_none request.body
  | some length =>
    by_cases hmax : length ≤ a.hardMaxBytes
    · have hall : ∀ other, some length = some other → other ≤ a.hardMaxBytes := by
        rintro _ ⟨rfl⟩
        exact hmax
      rw [and_iff_right hall, Option.any_some, if_neg (by simpa using hmax), Option.filter_some]
      by_cases hlarge : length ≥ a.largeBodyBytes
      · rw [if_pos (decide_eq_true hlarge)]
        dsimp only
        rw [Nat.min_eq_left hmax]
        by_cases hgranted : Granted a length
        · have hfit : canFitBudget a length = true := canFitBudget_iff.mpr hgranted.2.1
          rw [hfit, reserve_of_granted hgranted]
          rw [if_neg (by decide), charged_readBody_some request.body hlarge, and_iff_right hgranted]
        · rw [reserve_of_not_granted hgranted]
          simp only [hgranted, false_and, not_false_iff, iff_true]
          split <;> rfl
      · rw [if_neg (by simpa using hlarge)]
        exact charged_readBody_none request.body
    · have hover : ¬ ∀ other, some length = some other → other ≤ a.hardMaxBytes :=
        fun hall => hmax (hall length rfl)
      simp only [hover, false_and, not_false_iff, iff_true]
      rw [Option.any_some, if_pos (by simpa using hmax)]
      rfl

/-- A controller that has room for all. -/
def roomy : Admission where
  largeBodyBytes := 2
  hardMaxBytes := 10
  maxInflightBytes := 10
  critical := false
  heapPressureCheck := false
  tryAcquireHeavy := true
  tryAcquireHealthyHeadroom := true
  acquireHeavyWithin _ := true
  budgetFree _ := true

/-- No declared length, and one byte behind the first two. -/
def growing : ChatRequest where
  internalBypass := false
  contentLength := none
  body := .stream [[1, 2], [3]] false

theorem charged_iff_growing : growing.internalBypass = false ∧
      (Charged roomy (admitChatRequest roomy growing) ↔ ¬ Exposed roomy growing) :=
  ⟨rfl, charged_iff roomy growing rfl⟩

theorem admit_growing :
    admitChatRequest roomy growing = (.admitted (some [1, 2, 3]) (some ⟨2⟩), ⟨1, 2⟩) := by
  decide

/-- Three bytes are admitted, and two are charged. -/
theorem not_charged : ¬ ∀ (a : Admission) (request : ChatRequest), request.internalBypass = false →
      Charged a (admitChatRequest a request) := by
  intro h
  have hcharged := h roomy growing rfl
  exact absurd (hcharged (by decide)) (by decide)

end RedRouter.Middleware.ChatRequestAdmission
