import RedRouter.Lib.JsString

/-!
# Schedules

The weekly windows of a quota pool, and what they say about an instant.  A
window opens on each of its days and closes on the same day, or on the next one
when it wraps past midnight.  A blackout closes the pool, and an allow window
opens it; a pool with allow windows is closed when none of them is open.

Times are milliseconds of the epoch.  A zone is at a fixed whole number of
minutes from UTC, `offset`, and `none` is the zone of the server.
`localeCompare` is a function on which nothing is assumed.

What no function here reads of a schedule is left out: its label, its reserves
and its budget.
-/

namespace RedRouter.Quota

inductive ScheduleMode where
  | allow
  | block
deriving DecidableEq

structure QuotaSchedule where
  id : JsString
  /-- 0 is Sunday. -/
  days : List Nat
  startMinute : Nat
  /-- At most `startMinute` for a window that wraps past midnight. -/
  endMinute : Nat
  timezone : Option JsString
  mode : ScheduleMode
  priority : Int
  enabled : Bool
  days_lt : ∀ d ∈ days, d < 7
  startMinute_lt : startMinute < 1440
  endMinute_le : endMinute ≤ 1440

inductive ClosedReason where
  | blackout
  | outsideWindow
deriving DecidableEq

inductive ScheduleVerdict where
  | unscheduled
  | active (schedule : QuotaSchedule)
  | closed (reason : ClosedReason) (schedule : Option QuotaSchedule)
      (retryAfterSeconds : Option Int)

namespace Schedules

def minutesPerDay : Int := 1440

variable (offset : Option JsString → Int)

/-- The day of the week and the minute of the day, in a zone.  The epoch began
on a Thursday. -/
def localDayAndMinute (nowMs : Int) (timezone : Option JsString) : Nat × Int :=
  let minutes := nowMs / 60000 + offset timezone
  (((minutes / minutesPerDay + 4) % 7).toNat, minutes % minutesPerDay)

def isScheduleActive (schedule : QuotaSchedule) (nowMs : Int) : Bool :=
  if !schedule.enabled || schedule.days.isEmpty then false
  else
    let (day, minute) := localDayAndMinute offset nowMs schedule.timezone
    if schedule.startMinute < schedule.endMinute then
      schedule.days.contains day && schedule.startMinute ≤ minute && minute < schedule.endMinute
    else if schedule.startMinute ≤ minute then schedule.days.contains day
    else if minute < schedule.endMinute then schedule.days.contains ((day + 6) % 7)
    else false

/-- The minutes until a schedule opens next, from the local day and minute. -/
def deltaMinutes (schedule : QuotaSchedule) (day : Nat) (minute : Int) : Option Int :=
  let delta := fun ahead : Nat => ahead * minutesPerDay + schedule.startMinute - minute
  ((List.range 8).find? fun ahead =>
    schedule.days.contains ((day + ahead) % 7) && !(delta ahead ≤ 0)).map delta

/-- The loop over the schedules, with the best wait so far. -/
def nextDelta (nowMs : Int) (best : Option Int) (schedule : QuotaSchedule) : Option Int :=
  if !schedule.enabled || schedule.mode ≠ .allow || schedule.days.isEmpty then best
  else
    let (day, minute) := localDayAndMinute offset nowMs schedule.timezone
    match deltaMinutes schedule day minute with
    | none => best
    | some delta =>
        match best with
        | none => some delta
        | some least => if delta < least then some delta else some least

def secondsUntilNextWindow (schedules : List QuotaSchedule) (nowMs : Int) : Option Int :=
  (schedules.foldl (nextDelta offset nowMs) none).map (· * 60)

variable (localeCompare : JsString → JsString → Int)

def byPriority (a b : QuotaSchedule) : Int :=
  if b.priority - a.priority ≠ 0 then b.priority - a.priority else localeCompare a.id b.id

/-- The enabled schedules that are open, in the order of their priority. -/
def matching (schedules : List QuotaSchedule) (nowMs : Int) : List QuotaSchedule :=
  ((schedules.filter QuotaSchedule.enabled).filter fun s => isScheduleActive offset s nowMs).mergeSort
    fun a b => byPriority localeCompare a b ≤ 0

def resolveActiveSchedule (schedules : List QuotaSchedule) (nowMs : Int) : ScheduleVerdict :=
  let enabled := schedules.filter QuotaSchedule.enabled
  if enabled.isEmpty then .unscheduled
  else
    let matching := matching offset localeCompare schedules nowMs
    match matching.find? fun s => s.mode = .block with
    | some blackout => .closed .blackout (some blackout) none
    | none =>
        match matching.find? fun s => s.mode = .allow with
        | some window => .active window
        | none =>
            if enabled.any fun s => s.mode = .allow then
              .closed .outsideWindow none (secondsUntilNextWindow offset enabled nowMs)
            else .unscheduled

end Schedules

end RedRouter.Quota
