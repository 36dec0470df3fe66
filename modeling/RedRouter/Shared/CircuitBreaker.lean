import Mathlib.Algebra.Group.Nat.Defs
import RedRouter.Lib.JsMap

/-!
# The circuit breaker

The model of `CircuitBreaker` in `shared/utils/circuitBreaker.ts`.  Every
operation takes the options and the time it runs at.

`execute` waits for the function it is given, and other calls go on meanwhile.
It is two operations here: `beginExecute` up to the `await`, with the probe
generation that the call keeps, and `settleExecute` with the way in which the
function was settled.

Times and timeouts are whole milliseconds.  A timeout can still be `NaN`: the
backoff factor is infinite from `Math.pow(2, 1024)` on, and `0 * Infinity` is
no number.  `none` stands for it.  The listeners of a transition are outside
the model, and so is the update of the options by the registry.
-/

namespace RedRouter.Shared

/-- `STATE`. -/
inductive CircuitState where
  | closed
  | degraded
  | opened
  | halfOpen
deriving DecidableEq

inductive FailureKind where
  | rateLimit
  | quotaExhausted
  | transient
deriving DecidableEq

def FailureKind.text : FailureKind → String
  | .rateLimit => "rate_limit"
  | .quotaExhausted => "quota_exhausted"
  | .transient => "transient"

/-- `FailureKindThresholds`, without the `cooldown` that nothing reads. -/
structure KindThresholds where
  threshold : Option Nat := none
  immediateOpen : Bool := false

/-- The options of a breaker, with the defaults of its constructor.  An
override of `cooldownByKind` that is no finite number counts as none. -/
structure BreakerOptions where
  name : String := ""
  failureThreshold : Nat := 5
  resetTimeout : Nat := 30000
  halfOpenRequests : Int := 1
  cooldownByKind : FailureKind → Option Int := fun _ => none
  kindThresholds : FailureKind → Option KindThresholds := fun _ => none
  degradationThreshold : Nat := (failureThreshold * 60 + 99) / 100
  maxBackoffMultiplier : Nat := 16
  backoffEscalationCount : Nat := 3

structure TransitionRecord where
  oldState : CircuitState
  newState : CircuitState
  timestamp : Int
  failureCount : Nat
  reason : Option String
deriving DecidableEq

/-- The record of a breaker in the database. -/
structure SavedBreaker where
  state : CircuitState
  failureCount : Nat
  lastFailureTime : Option Int
  failureThreshold : Nat
  resetTimeout : Nat
  halfOpenRequests : Int
  lastFailureKind : Option FailureKind
  openCycleCount : Nat
  kindFailureCounts : JsMap FailureKind Nat
deriving DecidableEq

structure CircuitBreaker where
  state : CircuitState := .closed
  failureCount : Nat := 0
  successCount : Nat := 0
  lastFailureTime : Option Int := none
  halfOpenAllowed : Int := 0
  halfOpenProbeStartedAt : Option Int := none
  halfOpenProbeGeneration : Nat := 0
  lastFailureKind : Option FailureKind := none
  kindFailureCounts : JsMap FailureKind Nat := []
  openCycleCount : Nat := 0
  transitionHistory : List TransitionRecord := []
  /-- What the database holds. -/
  saved : Option SavedBreaker := none
deriving DecidableEq

/-- How a resolved result is accounted. -/
inductive ResultOutcome where
  | success
  | failure
  | ignore
deriving DecidableEq

/-- How the function of an `execute` call was settled.  Of a result the
breaker sees what `classifyResult` says, of an error what `isFailure` and
`classifyError` say.  A classifier that throws says `none`. -/
inductive Settled where
  | resolved (classifyResult : Option ResultOutcome)
  | threw (isFailure : Bool) (classifyError : Option FailureKind)
deriving DecidableEq

/-- `CircuitBreakerStatus`. -/
structure BreakerStatus where
  name : String
  state : CircuitState
  failureCount : Nat
  lastFailureTime : Option Int
  retryAfterMs : Option Int
  lastFailureKind : Option FailureKind
  openCycleCount : Nat
  kindFailureCounts : JsMap FailureKind Nat
  degradationThreshold : Nat
  effectiveResetTimeout : Option Int
  transitionHistory : List TransitionRecord
deriving DecidableEq

structure CircuitBreakerOpenError where
  message : String
  circuitName : String
  retryAfterMs : Option Int
deriving DecidableEq

variable (opts : BreakerOptions) (now : Int) (b : CircuitBreaker) (kind : Option FailureKind)

namespace CircuitBreaker

/-! ## Persistence -/

/-- `_persistToDb`. -/
def persistToDb : CircuitBreaker :=
  { b with
    saved := some
      { state := b.state
        failureCount := b.failureCount
        lastFailureTime := b.lastFailureTime
        failureThreshold := opts.failureThreshold
        resetTimeout := opts.resetTimeout
        halfOpenRequests := opts.halfOpenRequests
        lastFailureKind := b.lastFailureKind
        openCycleCount := b.openCycleCount
        kindFailureCounts := b.kindFailureCounts } }

/-- The constructor with `_restoreFromDb`.  A record whose state is unknown
reads as one that is closed. -/
def create : Option SavedBreaker → CircuitBreaker
  | none => {}
  | some saved =>
      { state := saved.state
        failureCount := saved.failureCount
        lastFailureTime := saved.lastFailureTime
        halfOpenAllowed := if saved.state = .halfOpen then opts.halfOpenRequests else 0
        lastFailureKind := saved.lastFailureKind
        kindFailureCounts := saved.kindFailureCounts
        openCycleCount := saved.openCycleCount
        saved := some saved }

/-! ## Timeouts -/

/-- `Math.pow(2, n)`, with `none` for the infinite powers. -/
def pow2 (n : Nat) : Option Nat := if n < 1024 then some (2 ^ n) else none

/-- The escalation of a timeout by the open cycles. -/
def escalated (timeout : Nat) : Option Int :=
  if b.openCycleCount ≤ opts.backoffEscalationCount then some timeout
  else
    match pow2 (b.openCycleCount - opts.backoffEscalationCount) with
    | some factor => some (min (timeout * factor) (timeout * opts.maxBackoffMultiplier) : Nat)
    | none => if timeout = 0 then none else some (timeout * opts.maxBackoffMultiplier : Nat)

/-- `_effectiveResetTimeout`. -/
def effectiveResetTimeout : Option Int :=
  b.escalated opts opts.resetTimeout

/-- The timeout that `_effectiveCooldown` escalates. -/
def baseCooldown : Nat :=
  match b.lastFailureKind.bind opts.cooldownByKind with
  | some override => if 0 ≤ override then override.toNat else opts.resetTimeout
  | none => opts.resetTimeout

/-- `_effectiveCooldown`. -/
def effectiveCooldown : Option Int :=
  b.escalated opts (b.baseCooldown opts)

/-- `elapsed >= cooldown`. -/
def elapsed (cooldown : Option Int) (since now : Int) : Bool :=
  match cooldown with
  | some ms => ms ≤ now - since
  | none => false

/-- `_shouldAttemptReset`. -/
def shouldAttemptReset : Bool :=
  if b.lastFailureTime.getD 0 = 0 then true
  else elapsed (b.effectiveCooldown opts) (b.lastFailureTime.getD 0) now

/-- `Math.max(0, cooldown - elapsed)`. -/
def remaining (cooldown : Option Int) (since now : Int) : Option Int :=
  cooldown.map fun ms => max 0 (ms - (now - since))

/-- `_timeUntilReset`. -/
def timeUntilReset : Option Int :=
  match b.state, b.halfOpenProbeStartedAt with
  | .halfOpen, some startedAt => remaining (some opts.resetTimeout) startedAt now
  | _, _ =>
      if b.lastFailureTime.getD 0 = 0 then some 0
      else remaining (b.effectiveCooldown opts) (b.lastFailureTime.getD 0) now

/-! ## Transitions -/

def maxTransitionHistory : Nat := 20

/-- `_transition`. -/
def transition (newState : CircuitState)
    (reason : Option String) (b : CircuitBreaker) : CircuitBreaker :=
  let history := b.transitionHistory ++
    [{ oldState := b.state
       newState := newState
       timestamp := now
       failureCount := b.failureCount
       reason := reason }]
  { b with
    state := newState
    halfOpenAllowed := if newState = .halfOpen then opts.halfOpenRequests else b.halfOpenAllowed
    halfOpenProbeGeneration := b.halfOpenProbeGeneration + 1
    halfOpenProbeStartedAt := none
    transitionHistory := if history.length > maxTransitionHistory then history.tail else history }

/-- `_openCircuit`. -/
def openCircuit (b : CircuitBreaker) : CircuitBreaker :=
  b.transition opts now .opened (kind.map fun kind => "kind:" ++ kind.text)

/-- The probe permits are handed out anew. -/
def rearm : CircuitBreaker :=
  { b with
    halfOpenAllowed := opts.halfOpenRequests
    halfOpenProbeStartedAt := none
    halfOpenProbeGeneration := b.halfOpenProbeGeneration + 1 }

/-- Whether the probes of a half-open breaker have all been out for the reset
timeout. -/
def probesExpired : Bool :=
  b.halfOpenAllowed ≤ 0 &&
    match b.halfOpenProbeStartedAt with
    | some startedAt => elapsed (some opts.resetTimeout) startedAt now
    | none => false

/-- `_refreshOpenState`. -/
def refreshOpenState : CircuitBreaker :=
  if b.state = .opened ∧ b.shouldAttemptReset opts now = true then
    (b.transition opts now .halfOpen (some "timeout-elapsed")).persistToDb opts
  else if b.state = .halfOpen ∧ b.probesExpired opts now = true then b.rearm opts
  else b

/-! ## Results -/

/-- `_onSuccess`. -/
def onSuccess : CircuitBreaker :=
  let b :=
    match b.state with
    | .opened =>
        { b.transition opts now .closed (some "success-recovery") with
          failureCount := 0
          successCount := 0
          lastFailureTime := none
          lastFailureKind := none
          openCycleCount := 0
          kindFailureCounts := [] }
    | .halfOpen =>
        { ({ b with successCount := b.successCount + 1 }).transition opts now .closed
            (some "probe-success") with
          failureCount := 0
          lastFailureKind := none
          openCycleCount := 0
          kindFailureCounts := [] }
    | .closed => { b with failureCount := b.failureCount - 1 }
    | .degraded =>
        let b := { b with failureCount := b.failureCount - 1 }
        if b.failureCount ≤ opts.degradationThreshold then
          b.transition opts now .closed (some "recovery")
        else b
  b.persistToDb opts

def countFailure (b : CircuitBreaker) : CircuitBreaker :=
  let b := { b with
    failureCount := b.failureCount + 1
    lastFailureTime := some now
    lastFailureKind := kind }
  match kind with
  | none => b
  | some kind =>
      { b with kindFailureCounts :=
          b.kindFailureCounts.set kind ((b.kindFailureCounts.get kind).getD 0 + 1) }

/-- `threshold || fallback`. -/
def thresholdOr (threshold : Option Nat) (fallback : Nat) : Nat :=
  if threshold.getD 0 = 0 then fallback else threshold.getD 0

def kindTrips (b : CircuitBreaker) : Bool :=
  match kind with
  | none => false
  | some kind =>
      match opts.kindThresholds kind with
      | none => false
      | some config =>
          let count := (b.kindFailureCounts.get kind).getD 0
          config.immediateOpen && count ≥ thresholdOr config.threshold 1 ||
            count ≥ thresholdOr config.threshold opts.failureThreshold

def failureTransition (b : CircuitBreaker) : CircuitBreaker :=
  match b.state with
  | .opened => b
  | .halfOpen =>
      let b := { b with openCycleCount := b.openCycleCount + 1 }
      b.transition opts now .opened
        (some ("probe-failed (cycle " ++ toString b.openCycleCount ++ ")"))
  | .degraded =>
      if b.failureCount ≥ opts.failureThreshold then b.openCircuit opts now kind else b
  | .closed =>
      if b.failureCount ≥ opts.failureThreshold then b.openCircuit opts now kind
      else if b.failureCount ≥ opts.degradationThreshold then
        b.transition opts now .degraded
          (some ("elevated-failures (" ++ toString b.failureCount ++ "/" ++
            toString opts.failureThreshold ++ ")"))
      else b

/-- `_onFailure`.  The threshold of a kind returns early, before the breaker
is persisted. -/
def onFailure (b : CircuitBreaker) : CircuitBreaker :=
  let b := b.countFailure now kind
  if b.kindTrips opts kind then b.openCircuit opts now kind
  else (b.failureTransition opts now kind).persistToDb opts

/-! ## The public operations -/

def canExecute : Bool × CircuitBreaker :=
  let b := b.refreshOpenState opts now
  (match b.state with
    | .closed | .degraded => true
    | .opened => false
    | .halfOpen => b.halfOpenAllowed > 0, b)

def getRetryAfterMs : Option Int × CircuitBreaker :=
  let b := b.refreshOpenState opts now
  (match b.state with
    | .closed | .degraded => some 0
    | _ => b.timeUntilReset opts now, b)

def getStatus : BreakerStatus × CircuitBreaker :=
  let b := b.refreshOpenState opts now
  let (retryAfterMs, b) := b.getRetryAfterMs opts now
  ({ name := opts.name
     state := b.state
     failureCount := b.failureCount
     lastFailureTime := b.lastFailureTime
     retryAfterMs := retryAfterMs
     lastFailureKind := b.lastFailureKind
     openCycleCount := b.openCycleCount
     kindFailureCounts := b.kindFailureCounts
     degradationThreshold := opts.degradationThreshold
     effectiveResetTimeout := b.effectiveResetTimeout opts
     transitionHistory := b.transitionHistory }, b)

/-- `execute` up to the `await`.  A call that may go on keeps the generation of
the probes it belongs to, or `none` when it is no probe. -/
def beginExecute : Except CircuitBreakerOpenError (Option Nat) × CircuitBreaker :=
  let b := b.refreshOpenState opts now
  match b.state with
  | .opened =>
      (.error
        { message := "Circuit breaker \"" ++ opts.name ++ "\" is OPEN. Try again later."
          circuitName := opts.name
          retryAfterMs := b.timeUntilReset opts now }, b)
  | .halfOpen =>
      if b.halfOpenAllowed ≤ 0 then
        (.error
          { message := "Circuit breaker \"" ++ opts.name ++
              "\" is HALF_OPEN, no more probe requests allowed."
            circuitName := opts.name
            retryAfterMs := b.timeUntilReset opts now }, b)
      else
        (.ok (some b.halfOpenProbeGeneration),
          { b with
            halfOpenAllowed := b.halfOpenAllowed - 1
            halfOpenProbeStartedAt := some (b.halfOpenProbeStartedAt.getD now) })
  | .closed | .degraded => (.ok none, b)

/-- What `execute` does with a result or an error that it accounts. -/
def recordSettled (settled : Settled) (b : CircuitBreaker) : CircuitBreaker :=
  match settled with
  | .resolved outcome =>
      match outcome.getD .success with
      | .success => b.onSuccess opts now
      | .failure => b.onFailure opts now none
      | .ignore => b
  | .threw isFailure kind => if isFailure then b.onFailure opts now kind else b

/-- `execute` after the `await`.  The result of a probe counts in its own
generation. -/
def settleExecute (probe : Option Nat) (settled : Settled) (b : CircuitBreaker) : CircuitBreaker :=
  if probe = none ∨ probe = some b.halfOpenProbeGeneration then b.recordSettled opts now settled
  else b

def reset (opts : BreakerOptions) (now : Int) (b : CircuitBreaker) : CircuitBreaker :=
  let b := b.transition opts now .closed (some "manual-reset")
  persistToDb opts
    { b with
      failureCount := 0
      successCount := 0
      lastFailureTime := none
      lastFailureKind := none
      openCycleCount := 0
      kindFailureCounts := [] }

end CircuitBreaker

end RedRouter.Shared
