import RedRouter.Lib.JsNumber

/-!
# The resource pressure tracker

The model of `open-sse/utils/resourcePressurePolicy.ts`.  A sample of the heap,
of the control group and of the pressure stall information is classified, and
the tracker moves between three severities on what it has seen of late.

A metric is absent or a number.  The quotients are rounded in a way that the
model leaves open.  `psiDisabled` is the switch of the environment that has the
stall information ignored; it is read anew for every sample.
-/

namespace RedRouter.Utils

inductive PressureSeverity where
  | normal
  | high
  | critical
deriving DecidableEq

inductive PressureReason where
  | none
  | v8HeapRatio
  | cgroupRatio
  | cgroupHigh
  | psiSome
  | psiFull
  | oomEvent
deriving DecidableEq

structure MemoryEvents where
  high : Option JsNumber
  max : Option JsNumber
  oom : Option JsNumber
  oomKill : Option JsNumber
deriving DecidableEq

inductive PsiSource where
  | cgroup
  | host
deriving DecidableEq

structure StallInformation where
  someAvg10 : Option JsNumber
  fullAvg10 : Option JsNumber
  psiSource : Option PsiSource
deriving DecidableEq

/-- The signals that the tracker looks at. -/
structure ResourceSignals where
  observedAtMs : JsNumber
  heapUsedBytes : JsNumber
  heapLimitBytes : JsNumber
  currentBytes : Option JsNumber
  maxBytes : Option JsNumber
  highBytes : Option JsNumber
  fileBytes : Option JsNumber
  events : Option MemoryEvents
  psi : Option StallInformation
  psiDisabled : Bool
deriving DecidableEq

structure ResourcePressureThresholds where
  highRatio : JsNumber
  criticalRatio : JsNumber
  recoveryRatio : JsNumber
  highPsiAvg10 : JsNumber
  criticalPsiAvg10 : JsNumber
  recoveryPsiAvg10 : JsNumber
  sustainedSamplesHigh : Int
  sustainedSamplesCritical : Int
  sustainedSamplesRecovery : Int
  heapAbsoluteThresholdMb : Option JsNumber
deriving DecidableEq

def defaultResourcePressureThresholds : ResourcePressureThresholds where
  highRatio := .fin (85 / 100)
  criticalRatio := .fin (92 / 100)
  recoveryRatio := .fin (75 / 100)
  highPsiAvg10 := 30
  criticalPsiAvg10 := 60
  recoveryPsiAvg10 := 15
  sustainedSamplesHigh := 2
  sustainedSamplesCritical := 2
  sustainedSamplesRecovery := 1
  heapAbsoluteThresholdMb := none

/-! ## The thresholds that are accepted -/

def maxSustainedSamples : Int := 10000

/-- `requireFiniteRange`, whose bounds are 0 and `maximum`. -/
def requireFiniteRange (name : String) (value : JsNumber) (maximum : Nat) : Except String Unit :=
  if !value.isFinite || value < 0 || JsNumber.fin maximum < value then
    .error (name ++ " must be finite and between 0 and " ++ toString maximum)
  else .ok ()

/-- `requirePositiveInteger`.  The count is an integer. -/
def requirePositiveInteger (name : String) (value : Int) : Except String Unit :=
  if value < 1 || value > maxSustainedSamples then
    .error (name ++ " must be an integer between 1 and " ++ toString maxSustainedSamples)
  else .ok ()

/-- `recovery < high < critical`, or an error. -/
def requireOrder (name : String) (recovery high critical : JsNumber) : Except String Unit :=
  if recovery < high ∧ high < critical then .ok ()
  else .error (name ++ " thresholds must satisfy recovery < high < critical")

def requireHeapThreshold (heap : Option JsNumber) : Except String Unit :=
  if heap.any fun mb => !mb.isFinite || mb ≤ 0 then
    .error "heapAbsoluteThresholdMb must be positive and finite or null"
  else .ok ()

/-- `resolveResourcePressureThresholds`, when the defaults are filled in. -/
def resolveResourcePressureThresholds (resolved : ResourcePressureThresholds) :
    Except String ResourcePressureThresholds := do
  requireFiniteRange "recoveryRatio" resolved.recoveryRatio 1
  requireFiniteRange "highRatio" resolved.highRatio 1
  requireFiniteRange "criticalRatio" resolved.criticalRatio 1
  requireOrder "ratio" resolved.recoveryRatio resolved.highRatio resolved.criticalRatio
  requireFiniteRange "recoveryPsiAvg10" resolved.recoveryPsiAvg10 100
  requireFiniteRange "highPsiAvg10" resolved.highPsiAvg10 100
  requireFiniteRange "criticalPsiAvg10" resolved.criticalPsiAvg10 100
  requireOrder "PSI" resolved.recoveryPsiAvg10 resolved.highPsiAvg10 resolved.criticalPsiAvg10
  requirePositiveInteger "sustainedSamplesHigh" resolved.sustainedSamplesHigh
  requirePositiveInteger "sustainedSamplesCritical" resolved.sustainedSamplesCritical
  requirePositiveInteger "sustainedSamplesRecovery" resolved.sustainedSamplesRecovery
  requireHeapThreshold resolved.heapAbsoluteThresholdMb
  return resolved

/-! ## The level of a sample -/

structure RawLevel where
  severity : PressureSeverity
  reason : PressureReason
deriving DecidableEq

def severityRank : PressureSeverity → Nat
  | .critical => 2
  | .high => 1
  | .normal => 0

def maxLevel (current : RawLevel) : Option RawLevel → RawLevel
  | none => current
  | some candidate =>
      if severityRank candidate.severity ≤ severityRank current.severity then current
      else candidate

variable (a : Arithmetic) (t : ResourcePressureThresholds)

def ratioLevel (used limit : Option JsNumber) (reason : PressureReason) : Option RawLevel :=
  match used, limit with
  | some used, some limit =>
      if used < 0 ∨ limit ≤ 0 then none
      else if t.criticalRatio ≤ a.div used limit then some ⟨.critical, reason⟩
      else if t.highRatio ≤ a.div used limit then some ⟨.high, reason⟩
      else none
  | _, _ => none

def psiLevel (value : Option JsNumber) (reason : PressureReason) : Option RawLevel :=
  match value with
  | some value =>
      if !value.isFinite then none
      else if t.criticalPsiAvg10 ≤ value then some ⟨.critical, reason⟩
      else if t.highPsiAvg10 ≤ value then some ⟨.high, reason⟩
      else none
  | none => none

/-- A counter has gone up since it was last known. -/
def increased (previous current : Option JsNumber) : Bool :=
  match previous, current with
  | some previous, some current => previous < current
  | _, _ => false

structure ThrottleCounters where
  high : Option JsNumber
  max : Option JsNumber
deriving DecidableEq

def hasCounterIncreaseGeneric (previous current : ThrottleCounters) : Bool :=
  increased previous.high current.high || increased previous.max current.max

def throttleCountersReset (previous current : ThrottleCounters) : Bool :=
  increased current.high previous.high || increased current.max previous.max

def MemoryEvents.throttle (events : MemoryEvents) : ThrottleCounters := ⟨events.high, events.max⟩

/-- `value != null && value > 0`. -/
def aboveZero : Option JsNumber → Bool
  | some value => (0 : JsNumber) < value
  | none => false

def StallInformation.aboveZero (psi : StallInformation) : Bool :=
  Utils.aboveZero psi.someAvg10 || Utils.aboveZero psi.fullAvg10

variable (signals : ResourceSignals) (previousEvents : Option ThrottleCounters)

/-- `hasKernelThrottleProof`, with `none` when no proof can be had. -/
def hasKernelThrottleProof : Option Bool :=
  let psiAboveZero := signals.psi.any StallInformation.aboveZero
  let cgroupPsi := signals.psi.any fun psi => psi.psiSource = some .cgroup
  match signals.events with
  | none =>
      if signals.psi.isNone then none
      else if signals.psiDisabled then none
      else some psiAboveZero
  | some events =>
      match previousEvents with
      | some previous =>
          if throttleCountersReset previous events.throttle then some false
          else if hasCounterIncreaseGeneric previous events.throttle then some true
          else if signals.psi.isNone || signals.psiDisabled then some false
          else some (cgroupPsi && psiAboveZero)
      | none =>
          if signals.psi.isNone then
            if events.high.isNone && events.max.isNone then none else some false
          else if signals.psiDisabled then some false
          else some (psiAboveZero && cgroupPsi)

def workingSetBytes : Option JsNumber :=
  match signals.currentBytes with
  | none => none
  | some current =>
      match signals.fileBytes with
      | none => some current
      | some file =>
          if file ≤ 0 then some current
          else if current < file then some current
          else some (a.sub current file)

/-- The level of the memory that is charged against the high mark. -/
def cgroupHighLevel : Option RawLevel :=
  let highRatio := ratioLevel a t signals.currentBytes signals.highBytes .cgroupHigh
  match highRatio with
  | some ⟨.critical, _⟩ =>
      if hasKernelThrottleProof signals previousEvents = some false then
        some ⟨.high, .cgroupHigh⟩
      else highRatio
  | _ => highRatio

def classifyAdaptiveResourcePressureWithHistory : RawLevel :=
  let best : RawLevel := ⟨.normal, .none⟩
  let best := maxLevel best
    (ratioLevel a t (some signals.heapUsedBytes) (some signals.heapLimitBytes) .v8HeapRatio)
  let best := maxLevel best
    (ratioLevel a t (workingSetBytes a signals) signals.maxBytes .cgroupRatio)
  let best := maxLevel best (cgroupHighLevel a t signals previousEvents)
  if signals.psiDisabled then best
  else
    let best := maxLevel best (psiLevel t (signals.psi.bind (·.someAvg10)) .psiSome)
    maxLevel best (psiLevel t (signals.psi.bind (·.fullAvg10)) .psiFull)

/-- `used != null && limit != null && limit > 0 && used / limit > recoveryRatio`. -/
def aboveRecovery (used limit : Option JsNumber) : Bool :=
  match used, limit with
  | some used, some limit => (0 : JsNumber) < limit && t.recoveryRatio < a.div used limit
  | _, _ => false

def mb : JsNumber := .fin (1024 * 1024)

def isRecovered : Bool :=
  if aboveRecovery a t (some signals.heapUsedBytes) (some signals.heapLimitBytes) ||
      aboveRecovery a t (workingSetBytes a signals) signals.maxBytes ||
      aboveRecovery a t signals.currentBytes signals.highBytes then false
  else if t.heapAbsoluteThresholdMb.any fun heap =>
      a.mul heap t.recoveryRatio < a.div signals.heapUsedBytes mb then false
  else if signals.psiDisabled then true
  else
    !((signals.psi.bind (·.someAvg10)).any (t.recoveryPsiAvg10 < ·) ||
      (signals.psi.bind (·.fullAvg10)).any (t.recoveryPsiAvg10 < ·))

/-! ## The tracker -/

structure OomCounters where
  oom : Option JsNumber
  oomKill : Option JsNumber
deriving DecidableEq

def hasCounterIncrease (previous current : OomCounters) : Bool :=
  increased previous.oom current.oom || increased previous.oomKill current.oomKill

def countersReset (previous current : OomCounters) : Bool :=
  increased current.oom previous.oom || increased current.oomKill previous.oomKill

def MemoryEvents.ooms (events : MemoryEvents) : OomCounters := ⟨events.oom, events.oomKill⟩

structure ResourcePressureState where
  severity : PressureSeverity := .normal
  reason : PressureReason := .none
  elevatedStreak : Nat := 0
  recoveryStreak : Nat := 0
  lastTransitionAtMs : JsNumber := 0
  observedAtMs : JsNumber := 0
deriving DecidableEq

structure ResourcePressureTracker where
  state : ResourcePressureState := {}
  pending : Option RawLevel := none
  previousOom : Option OomCounters := none
  previousEvents : Option ThrottleCounters := none
deriving DecidableEq

variable (tr : ResourcePressureTracker)

namespace ResourcePressureTracker

/-- The kernel has killed or has failed to allocate since the last sample. -/
def oomEvent (signals : ResourceSignals) : Bool :=
  match tr.previousOom, signals.events with
  | some previous, some events =>
      !countersReset previous events.ooms && hasCounterIncrease previous events.ooms
  | _, _ => false

/-- The counters that a sample is compared with: its own after a reset. -/
def comparedEvents (signals : ResourceSignals) : Option ThrottleCounters :=
  match tr.previousEvents, signals.events with
  | some previous, some events =>
      if throttleCountersReset previous events.throttle then some events.throttle
      else some previous
  | previous, _ => previous

def rawLevel (signals : ResourceSignals) : RawLevel :=
  if tr.oomEvent signals then ⟨.critical, .oomEvent⟩
  else classifyAdaptiveResourcePressureWithHistory a t signals (tr.comparedEvents signals)

/-- How many samples of a level it takes. -/
def sustained (severity : PressureSeverity) : Int :=
  if severity = .critical then t.sustainedSamplesCritical else t.sustainedSamplesHigh

/-- The samples of the pending level, one of the level included. -/
def streakWith (raw : RawLevel) : Nat :=
  if tr.pending = some raw then tr.state.elevatedStreak + 1 else 1

/-- The state and the pending level after a sample that comes at a normal severity. -/
def advanceNormal (raw : RawLevel) : ResourcePressureState × Option RawLevel :=
  let s := tr.state
  if raw.severity = .normal then
    ({ s with recoveryStreak := 0, elevatedStreak := 0, reason := .none }, none)
  else if sustained t raw.severity ≤ tr.streakWith raw then
    ({ s with
        severity := raw.severity, reason := raw.reason, elevatedStreak := 0, recoveryStreak := 0 },
      none)
  else ({ s with elevatedStreak := tr.streakWith raw, recoveryStreak := 0 }, some raw)

def advanceElevated (raw : RawLevel) (signals : ResourceSignals) :
    ResourcePressureState × Option RawLevel :=
  let s := tr.state
  if s.severity = .high ∧ raw.severity = .critical then
    if t.sustainedSamplesCritical ≤ tr.streakWith raw then
      ({ s with
          severity := .critical, reason := raw.reason, elevatedStreak := 0, recoveryStreak := 0 },
        none)
    else ({ s with elevatedStreak := tr.streakWith raw, recoveryStreak := 0 }, some raw)
  else if raw.severity = s.severity then
    ({ s with reason := raw.reason, elevatedStreak := 0, recoveryStreak := 0 }, none)
  else if isRecovered a t signals then
    if t.sustainedSamplesRecovery ≤ (s.recoveryStreak + 1 : Nat) then
      ({ s with
          severity := .normal, reason := .none, elevatedStreak := 0, recoveryStreak := 0 },
        none)
    else ({ s with elevatedStreak := 0, recoveryStreak := s.recoveryStreak + 1 }, none)
  else ({ s with elevatedStreak := 0, recoveryStreak := 0 }, none)

def advance (signals : ResourceSignals) : ResourcePressureState × Option RawLevel :=
  if tr.oomEvent signals then
    ({ tr.state with
        severity := .critical, reason := .oomEvent, elevatedStreak := 0, recoveryStreak := 0 },
      none)
  else if tr.state.severity = .normal then tr.advanceNormal t (tr.rawLevel a t signals)
  else tr.advanceElevated a t (tr.rawLevel a t signals) signals

def observe (signals : ResourceSignals) : ResourcePressureTracker :=
  let (next, pending) := tr.advance a t signals
  { state :=
      { next with
        lastTransitionAtMs :=
          if next.severity ≠ tr.state.severity ∨ next.reason ≠ tr.state.reason then
            signals.observedAtMs
          else tr.state.lastTransitionAtMs
        observedAtMs := signals.observedAtMs }
    pending := pending
    previousOom := signals.events.map MemoryEvents.ooms
    previousEvents := signals.events.map MemoryEvents.throttle }

/-- The tracker that `createResourcePressureTracker` makes, after the samples. -/
def run (samples : List ResourceSignals) : ResourcePressureTracker := samples.foldl (observe a t) {}

end ResourcePressureTracker

end RedRouter.Utils
