import RedRouter.Lib.Rounding
import RedRouter.Admission.Queue

/-!
# Admission configuration and request costs

The model of `services/admission/config.ts` and `services/admission/cost.ts`.
A checked number is a subtype that carries its bounds, so a
`ValidatedConfig` that breaks a check of `validateConfig` cannot be built.

A value of the caller is a `RawNumber`: the checks of the source look at its
type, at whether it is finite and at whether it is a safe integer.
-/

namespace RedRouter.Admission

/-- A value that should be a number. -/
inductive RawNumber where
  | notANumber
  | nan
  | infinity
  | negInfinity
  | finite (value : ℚ)

def maxAdmissionWindowMs : Nat := 86400000

def maxAdmissionCostOrLimit : Nat := maxSafeInteger / maxAdmissionWindowMs

/-- A positive integer up to a maximum. -/
abbrev BoundedInt (max : Nat) := { n : Nat // 0 < n ∧ n ≤ max }

/-- A double in `(0, 1]`. -/
abbrev UnitInterval := { q : ℚ // 0 < q ∧ q ≤ 1 }

/-- A double in `(0, 1)`. -/
abbrev DecreaseFactor := { q : ℚ // 0 < q ∧ q < 1 }

def RawNumber.positiveSafeInteger? : RawNumber → Option Nat
  | .finite q => if q.den = 1 ∧ 0 < q.num ∧ q.num ≤ maxSafeInteger then some q.num.toNat else none
  | _ => none

/-- `requirePositiveInt` and `requirePositiveSafeInteger`; the error is the
message of the `RangeError`. -/
def requirePositiveInt (name : String) (value : RawNumber) (max : Nat) :
    Except String (BoundedInt max) :=
  match value.positiveSafeInteger? with
  | none => .error (name ++ " must be a positive safe integer")
  | some n =>
      if h : 0 < n ∧ n ≤ max then .ok ⟨n, h⟩
      else .error (name ++ " must be <= " ++ toString max)

def requireUnitInterval (name : String) (value : Option RawNumber) (fallback : UnitInterval) :
    Except String UnitInterval :=
  match value with
  | none => .ok fallback
  | some (.finite q) =>
      if h : 0 < q ∧ q ≤ 1 then .ok ⟨q, h⟩ else .error (name ++ " must be in (0, 1]")
  | some _ => .error (name ++ " must be in (0, 1]")

def requireDecreaseFactor (name : String) (value : Option RawNumber) (fallback : DecreaseFactor) :
    Except String DecreaseFactor :=
  match value with
  | none => .ok fallback
  | some (.finite q) =>
      if h : 0 < q ∧ q < 1 then .ok ⟨q, h⟩ else .error (name ++ " must be in (0, 1)")
  | some _ => .error (name ++ " must be in (0, 1)")

/-! ## Costs -/

abbrev Quantum := BoundedInt maxAdmissionCostOrLimit

structure CostConfig where
  baseCost : Quantum
  bodyBytesPerUnit : Quantum
  tokensPerUnit : Quantum
  messagesPerUnit : Quantum
  toolsPerUnit : Quantum
  fanoutPerUnit : Quantum
  streamingClassCost : Quantum
  nonStreamingClassCost : Quantum
  maxRequestCost : Quantum

/-- A cost configuration of the caller; a missing or null quantum takes its
default. -/
structure RawCostConfig where
  baseCost : Option RawNumber := none
  bodyBytesPerUnit : Option RawNumber := none
  tokensPerUnit : Option RawNumber := none
  messagesPerUnit : Option RawNumber := none
  toolsPerUnit : Option RawNumber := none
  fanoutPerUnit : Option RawNumber := none
  streamingClassCost : Option RawNumber := none
  nonStreamingClassCost : Option RawNumber := none
  maxRequestCost : Option RawNumber := none

def resolveQuantum (name : String) (value : Option RawNumber) (default : Nat) :
    Except String Quantum :=
  requirePositiveInt name (value.getD (.finite default)) maxAdmissionCostOrLimit

/-- `resolveCostConfig`, with the values of `DEFAULT_ADMISSION_COST_CONFIG`. -/
def resolveCostConfig (raw : RawCostConfig) : Except String CostConfig := do
  let baseCost ← resolveQuantum "baseCost" raw.baseCost 1
  let bodyBytesPerUnit ← resolveQuantum "bodyBytesPerUnit" raw.bodyBytesPerUnit 16384
  let tokensPerUnit ← resolveQuantum "tokensPerUnit" raw.tokensPerUnit 1024
  let messagesPerUnit ← resolveQuantum "messagesPerUnit" raw.messagesPerUnit 32
  let toolsPerUnit ← resolveQuantum "toolsPerUnit" raw.toolsPerUnit 8
  let fanoutPerUnit ← resolveQuantum "fanoutPerUnit" raw.fanoutPerUnit 1
  let streamingClassCost ← resolveQuantum "streamingClassCost" raw.streamingClassCost 1
  let nonStreamingClassCost ← resolveQuantum "nonStreamingClassCost" raw.nonStreamingClassCost 2
  let maxRequestCost ← resolveQuantum "maxRequestCost" raw.maxRequestCost 1000
  return { baseCost, bodyBytesPerUnit, tokensPerUnit, messagesPerUnit, toolsPerUnit,
           fanoutPerUnit, streamingClassCost, nonStreamingClassCost, maxRequestCost }

structure CostFeatures where
  bodyBytes : RawNumber := .notANumber
  estimatedInputTokens : RawNumber := .notANumber
  messageCount : RawNumber := .notANumber
  toolCount : RawNumber := .notANumber
  requestedFanout : RawNumber := .notANumber
  /-- `streaming !== false`. -/
  streaming : Bool := true

def finiteNonNegative : RawNumber → ℚ
  | .finite q => if q < 0 then 0 else min q maxSafeInteger
  | _ => 0

def unitsFrom (R : Rounding) (amount : ℚ) (quantum : Quantum) : Nat :=
  if amount ≤ 0 then 0 else ⌈R.fl (amount / quantum.1)⌉₊

def addBounded (maximum total contribution : Nat) : Nat :=
  if (contribution : Int) ≥ maximum - total then maximum else total + contribution

/-- `estimateAdmissionCost` on a resolved configuration.  The early exit of
the source's loop is at the maximum, where `addBounded` stays. -/
def estimateAdmissionCost (R : Rounding) (features : CostFeatures) (cfg : CostConfig) : Nat :=
  let contributions : List Nat :=
    [unitsFrom R (finiteNonNegative features.bodyBytes) cfg.bodyBytesPerUnit,
     unitsFrom R (finiteNonNegative features.estimatedInputTokens) cfg.tokensPerUnit,
     unitsFrom R (finiteNonNegative features.messageCount) cfg.messagesPerUnit,
     unitsFrom R (finiteNonNegative features.toolCount) cfg.toolsPerUnit,
     unitsFrom R (max 1 (finiteNonNegative features.requestedFanout)) cfg.fanoutPerUnit,
     if features.streaming then cfg.streamingClassCost.1 else cfg.nonStreamingClassCost.1]
  contributions.foldl (addBounded cfg.maxRequestCost.1) (min cfg.baseCost.1 cfg.maxRequestCost.1)

def normalizeRequestCost (cost : RawNumber) (maxRequestCost : Nat) : Except String Nat :=
  match requirePositiveInt "request cost" cost maxAdmissionCostOrLimit with
  | .ok value => .ok (min value.1 maxRequestCost)
  | .error message => .error message

/-! ## The configuration -/

inductive Mode where
  | off
  | shadow
  | enforce
deriving DecidableEq

/-- `AdaptationParams`.  Its `minLimit`, `maxLimit` and `windowMs` are those
of the configuration. -/
structure AdaptationParams where
  shortLatencyAlpha : UnitInterval
  longLatencyAlpha : UnitInterval
  increaseStep : BoundedInt maxAdmissionCostOrLimit
  decreaseFactor : DecreaseFactor
  criticalDecreaseFactor : DecreaseFactor
  highUtilizationThreshold : UnitInterval
  lowUtilizationThreshold : UnitInterval
  latencyGradientThreshold : UnitInterval
  maxIncreasePerWindow : BoundedInt maxAdmissionCostOrLimit
  critical_le : criticalDecreaseFactor.1 ≤ decreaseFactor.1
  low_lt_high : lowUtilizationThreshold.1 < highUtilizationThreshold.1
  long_lt_short : longLatencyAlpha.1 < shortLatencyAlpha.1

structure ValidatedConfig where
  mode : Mode
  minLimit : BoundedInt maxAdmissionCostOrLimit
  maxLimit : BoundedInt maxAdmissionCostOrLimit
  initialLimit : BoundedInt maxAdmissionCostOrLimit
  maxQueueCount : BoundedInt maxSafeInteger
  maxQueueCost : BoundedInt maxAdmissionCostOrLimit
  defaultMaxWaitMs : BoundedInt maxAdmissionWindowMs
  windowMs : BoundedInt maxAdmissionWindowMs
  adaptation : AdaptationParams
  costConfig : CostConfig
  virtualLanes : Bool
  min_le_max : minLimit.1 ≤ maxLimit.1

/-- A configuration of the caller.  The mode is `none` when it is missing and
`some none` when it is not one of the three. -/
structure RawConfig where
  mode : Option (Option Mode) := none
  minLimit : RawNumber
  maxLimit : RawNumber
  initialLimit : RawNumber
  maxQueueCount : RawNumber
  maxQueueCost : RawNumber
  defaultMaxWaitMs : Option RawNumber := none
  windowMs : Option RawNumber := none
  shortLatencyAlpha : Option RawNumber := none
  longLatencyAlpha : Option RawNumber := none
  increaseStep : Option RawNumber := none
  decreaseFactor : Option RawNumber := none
  criticalDecreaseFactor : Option RawNumber := none
  highUtilizationThreshold : Option RawNumber := none
  lowUtilizationThreshold : Option RawNumber := none
  latencyGradientThreshold : Option RawNumber := none
  maxIncreasePerWindow : Option RawNumber := none
  cost : RawCostConfig := {}
  virtualLanes : Bool := false

def resolveMode : Option (Option Mode) → Except String Mode
  | none => .ok .shadow
  | some (some mode) => .ok mode
  | some none => .error "mode must be off|shadow|enforce"

def requireOr (name : String) (value : Option RawNumber) (max : Nat) (fallback : BoundedInt max) :
    Except String (BoundedInt max) :=
  match value with
  | none => .ok fallback
  | some value => requirePositiveInt name value max

/-- The double `0.8`. -/
def double0_8 : ℚ := 3602879701896397 / 2 ^ 52

/-- The double `0.1`. -/
def double0_1 : ℚ := 3602879701896397 / 2 ^ 55

/-- The double `0.7`. -/
def double0_7 : ℚ := 3152519739159347 / 2 ^ 52

/-- The double `0.3`. -/
def double0_3 : ℚ := 5404319552844595 / 2 ^ 54

def resolveAdaptationParams (input : RawConfig) : Except String AdaptationParams := do
  let decreaseFactor ← requireDecreaseFactor "decreaseFactor" input.decreaseFactor
    ⟨double0_8, by norm_num [double0_8]⟩
  let criticalDecreaseFactor ← requireDecreaseFactor "criticalDecreaseFactor"
    input.criticalDecreaseFactor ⟨1 / 2, by norm_num⟩
  let increaseStep ← requireOr "increaseStep" input.increaseStep maxAdmissionCostOrLimit
    ⟨1, by decide⟩
  let maxIncreasePerWindow ← requireOr "maxIncreasePerWindow" input.maxIncreasePerWindow
    maxAdmissionCostOrLimit increaseStep
  let shortLatencyAlpha ← requireUnitInterval "shortLatencyAlpha" input.shortLatencyAlpha
    ⟨1 / 2, by norm_num⟩
  let longLatencyAlpha ← requireUnitInterval "longLatencyAlpha" input.longLatencyAlpha
    ⟨double0_1, by norm_num [double0_1]⟩
  let highUtilizationThreshold ← requireUnitInterval "highUtilizationThreshold"
    input.highUtilizationThreshold ⟨double0_7, by norm_num [double0_7]⟩
  let lowUtilizationThreshold ← requireUnitInterval "lowUtilizationThreshold"
    input.lowUtilizationThreshold ⟨double0_3, by norm_num [double0_3]⟩
  if hcritical : criticalDecreaseFactor.1 ≤ decreaseFactor.1 then
    if hlow : lowUtilizationThreshold.1 < highUtilizationThreshold.1 then
      if hshort : longLatencyAlpha.1 < shortLatencyAlpha.1 then
        let latencyGradientThreshold ← requireUnitInterval "latencyGradientThreshold"
          input.latencyGradientThreshold ⟨1 / 4, by norm_num⟩
        return { shortLatencyAlpha, longLatencyAlpha, increaseStep, decreaseFactor,
                 criticalDecreaseFactor, highUtilizationThreshold, lowUtilizationThreshold,
                 latencyGradientThreshold, maxIncreasePerWindow,
                 critical_le := hcritical, low_lt_high := hlow, long_lt_short := hshort }
      else throw "shortLatencyAlpha must be > longLatencyAlpha"
    else throw "lowUtilizationThreshold must be < highUtilizationThreshold"
  else throw "criticalDecreaseFactor must be <= decreaseFactor"

def validateConfig (input : RawConfig) : Except String ValidatedConfig := do
  let minLimit ← requirePositiveInt "minLimit" input.minLimit maxAdmissionCostOrLimit
  let maxLimit ← requirePositiveInt "maxLimit" input.maxLimit maxAdmissionCostOrLimit
  if hle : minLimit.1 ≤ maxLimit.1 then
    let initialLimit ← requirePositiveInt "initialLimit" input.initialLimit maxAdmissionCostOrLimit
    let maxQueueCount ← requirePositiveInt "maxQueueCount" input.maxQueueCount maxSafeInteger
    let maxQueueCost ← requirePositiveInt "maxQueueCost" input.maxQueueCost maxAdmissionCostOrLimit
    let windowMs ← requireOr "windowMs" input.windowMs maxAdmissionWindowMs ⟨1000, by decide⟩
    let defaultMaxWaitMs ← requireOr "defaultMaxWaitMs" input.defaultMaxWaitMs
      maxAdmissionWindowMs ⟨5000, by decide⟩
    let costConfig ← resolveCostConfig input.cost
    let mode ← resolveMode input.mode
    let adaptation ← resolveAdaptationParams input
    return { mode, minLimit, maxLimit, initialLimit, maxQueueCount, maxQueueCost,
             defaultMaxWaitMs, windowMs, adaptation, costConfig,
             virtualLanes := input.virtualLanes, min_le_max := hle }
  else throw "minLimit must be <= maxLimit"

namespace Controller

/-- A small enforcing configuration with the defaults of the source. -/
def smallConfig : ValidatedConfig where
  mode := .enforce
  minLimit := ⟨1, by decide⟩
  maxLimit := ⟨10, by decide⟩
  initialLimit := ⟨4, by decide⟩
  maxQueueCount := ⟨8, by decide⟩
  maxQueueCost := ⟨20, by decide⟩
  defaultMaxWaitMs := ⟨5000, by decide⟩
  windowMs := ⟨1000, by decide⟩
  adaptation :=
    { shortLatencyAlpha := ⟨1 / 2, by norm_num⟩
      longLatencyAlpha := ⟨double0_1, by norm_num [double0_1]⟩
      increaseStep := ⟨1, by decide⟩
      decreaseFactor := ⟨double0_8, by norm_num [double0_8]⟩
      criticalDecreaseFactor := ⟨1 / 2, by norm_num⟩
      highUtilizationThreshold := ⟨double0_7, by norm_num [double0_7]⟩
      lowUtilizationThreshold := ⟨double0_3, by norm_num [double0_3]⟩
      latencyGradientThreshold := ⟨1 / 4, by norm_num⟩
      maxIncreasePerWindow := ⟨1, by decide⟩
      critical_le := by norm_num [double0_8]
      low_lt_high := by norm_num [double0_3, double0_7]
      long_lt_short := by norm_num [double0_1] }
  costConfig :=
    { baseCost := ⟨1, by decide⟩
      bodyBytesPerUnit := ⟨16384, by decide⟩
      tokensPerUnit := ⟨1024, by decide⟩
      messagesPerUnit := ⟨32, by decide⟩
      toolsPerUnit := ⟨8, by decide⟩
      fanoutPerUnit := ⟨1, by decide⟩
      streamingClassCost := ⟨1, by decide⟩
      nonStreamingClassCost := ⟨2, by decide⟩
      maxRequestCost := ⟨1000, by decide⟩ }
  virtualLanes := false
  min_le_max := by decide

end Controller

end RedRouter.Admission
