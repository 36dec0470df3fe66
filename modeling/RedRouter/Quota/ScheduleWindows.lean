import RedRouter.Quota.Schedules

/-!
# When windows are open

`weekMs` is the local time since a Sunday midnight.  On this line a schedule is
a union of intervals, one for each of its days in each week (`InWindow`), and
`isScheduleActive` decides membership in it (`isScheduleActive_iff`).  The same
in minutes is `InWindowMinute`, and a window opens at an `Opening`.

A pool that is closed because no allow window is open gives the wait until the
next one.  It counts from the start of the current minute (`retryHint`).
-/

namespace RedRouter.Quota.Schedules

open List Option

variable (offset : Option JsString → Int)

/-! ## The intervals of a schedule -/

def windowMinutes (schedule : QuotaSchedule) : Int :=
  if schedule.startMinute < schedule.endMinute then schedule.endMinute - schedule.startMinute
  else schedule.endMinute + 1440 - schedule.startMinute

/-- The local time since the Sunday before the epoch. -/
def weekMs (nowMs : Int) (timezone : Option JsString) : Int :=
  nowMs + offset timezone * 60000 + 4 * 86400000

/-- The time lies in the window of one of the days, in some week. -/
def InWindow (schedule : QuotaSchedule) (localMs : Int) : Prop :=
  ∃ d ∈ schedule.days, ∃ week : Int,
    let opensMs := (week * 7 + d) * 86400000 + schedule.startMinute * 60000
    opensMs ≤ localMs ∧ localMs < opensMs + windowMinutes schedule * 60000

def Opening (schedule : QuotaSchedule) (k : Int) : Prop :=
  ∃ d ∈ schedule.days, ∃ week : Int, k = (week * 7 + d) * 1440 + schedule.startMinute

def InWindowMinute (schedule : QuotaSchedule) (n : Int) : Prop :=
  ∃ k, Opening schedule k ∧ k ≤ n ∧ n < k + windowMinutes schedule

variable {schedule : QuotaSchedule}

theorem windowMinutes_pos (schedule : QuotaSchedule) : 0 < windowMinutes schedule := by
  have := schedule.startMinute_lt
  unfold windowMinutes
  split <;> omega

theorem inWindow_iff {localMs : Int} :
    InWindow schedule localMs ↔ InWindowMinute schedule (localMs / 60000) := by
  constructor
  · rintro ⟨d, hd, week, hopens, hcloses⟩
    exact ⟨_, ⟨d, hd, week, rfl⟩, by omega, by omega⟩
  · rintro ⟨_, ⟨d, hd, week, rfl⟩, hopens, hcloses⟩
    exact ⟨d, hd, week, by omega, by omega⟩

/-- The local minutes since the Sunday before the epoch. -/
def weekMinute (nowMs : Int) (timezone : Option JsString) : Int :=
  nowMs / 60000 + offset timezone + 5760

theorem weekMs_div (nowMs : Int) (timezone : Option JsString) :
    weekMs offset nowMs timezone / 60000 = weekMinute offset nowMs timezone := by
  unfold weekMs weekMinute
  omega

theorem localDayAndMinute_eq (nowMs : Int) (timezone : Option JsString) :
    localDayAndMinute offset nowMs timezone = ((weekMinute offset nowMs timezone / 1440 % 7).toNat,
        weekMinute offset nowMs timezone % 1440) := by
  unfold localDayAndMinute weekMinute minutesPerDay
  refine Prod.ext ?_ ?_
  · show Int.toNat _ = Int.toNat _
    congr 1
    omega
  · show _ % _ = _ % _
    omega

/-- The day is the one of the window, or the window began on the day before. -/
theorem inWindowMinute_iff {n : Int} {day : Nat} {minute : Int} (hday : day = (n / 1440 % 7).toNat)
    (hminute : minute = n % 1440) :
    InWindowMinute schedule n ↔
      if schedule.startMinute < schedule.endMinute then
        day ∈ schedule.days ∧ schedule.startMinute ≤ minute ∧ minute < schedule.endMinute
      else
        day ∈ schedule.days ∧ schedule.startMinute ≤ minute ∨
          (day + 6) % 7 ∈ schedule.days ∧ minute < schedule.endMinute := by
  have hstart := schedule.startMinute_lt
  have hend := schedule.endMinute_le
  have hsame : ∀ d ∈ schedule.days, ∀ week : Int, n / 1440 = week * 7 + d → d = day := by
    intro d hd week heq
    have := schedule.days_lt d hd
    omega
  have hbefore : ∀ d ∈ schedule.days, ∀ week : Int, n / 1440 = week * 7 + d + 1 →
      d = (day + 6) % 7 := by
    intro d hd week heq
    have := schedule.days_lt d hd
    omega
  unfold InWindowMinute Opening windowMinutes
  split
  · constructor
    · rintro ⟨_, ⟨d, hd, week, rfl⟩, hopens, hcloses⟩
      have heq : n / 1440 = week * 7 + d := by omega
      exact ⟨hsame d hd week heq ▸ hd, by omega, by omega⟩
    · rintro ⟨hd, hopens, hcloses⟩
      exact ⟨_, ⟨day, hd, n / 1440 / 7, rfl⟩, by omega, by omega⟩
  · constructor
    · rintro ⟨_, ⟨d, hd, week, rfl⟩, hopens, hcloses⟩
      by_cases heq : n / 1440 = week * 7 + d
      · exact .inl ⟨hsame d hd week heq ▸ hd, by omega⟩
      · have heq' : n / 1440 = week * 7 + d + 1 := by omega
        exact .inr ⟨hbefore d hd week heq' ▸ hd, by omega⟩
    · rintro (⟨hd, hopens⟩ | ⟨hd, hcloses⟩)
      · exact ⟨_, ⟨day, hd, n / 1440 / 7, rfl⟩, by omega, by omega⟩
      · exact ⟨_, ⟨_, hd, (n / 1440 - 1) / 7, rfl⟩, by omega, by omega⟩

theorem isScheduleActive_iff (schedule : QuotaSchedule) (nowMs : Int) :
    isScheduleActive offset schedule nowMs = true ↔
      schedule.enabled = true ∧ InWindow schedule (weekMs offset nowMs schedule.timezone) := by
  rw [inWindow_iff, weekMs_div, inWindowMinute_iff rfl rfl]
  unfold isScheduleActive
  rw [localDayAndMinute_eq]
  cases schedule.enabled with
  | false => simp
  | true =>
    by_cases hdays : schedule.days = []
    · simp [hdays]
    · have hsome : schedule.days.isEmpty = false := by simpa using hdays
      simp only [hsome]
      by_cases hsame : schedule.startMinute < schedule.endMinute
      · rw [if_pos hsame, if_pos hsame]
        simp [and_assoc]
      · by_cases hopens : schedule.startMinute ≤ weekMinute offset nowMs schedule.timezone % 1440
        · have hcloses : ¬ weekMinute offset nowMs schedule.timezone % 1440 < schedule.endMinute := by
            omega
          simp [hopens, hcloses]
        · simp [hopens, and_comm]

/-! ## The next opening -/

theorem exists_ahead {n k : Int} {day : Nat} (hday : day = (n / 1440 % 7).toNat) (hk : n < k)
    (hopening : Opening schedule k) :
    ∃ ahead < 8, (day + ahead) % 7 ∈ schedule.days ∧
      0 < ahead * 1440 + schedule.startMinute - n % 1440 ∧
      ahead * 1440 + schedule.startMinute - n % 1440 ≤ k - n := by
  have hstart := schedule.startMinute_lt
  obtain ⟨d, hd, week, rfl⟩ := hopening
  have hlt := schedule.days_lt d hd
  have hahead : ∀ ahead : Nat, (day + ahead) % 7 = d → (day + ahead) % 7 ∈ schedule.days :=
    fun ahead heq => heq ▸ hd
  by_cases hnear : week * 7 + d - n / 1440 ≤ 7
  · exact ⟨(week * 7 + d - n / 1440).toNat, by omega, hahead _ (by omega), by omega, by omega⟩
  · by_cases hsame : (week * 7 + d - n / 1440) % 7 = 0
    · exact ⟨7, by omega, hahead _ (by omega), by omega, by omega⟩
    · exact ⟨((week * 7 + d - n / 1440) % 7).toNat, by omega, hahead _ (by omega), by omega,
        by omega⟩

theorem deltaMinutes_spec {n : Int} {day : Nat} {minute : Int} (hday : day = (n / 1440 % 7).toNat)
    (hminute : minute = n % 1440) {delta : Int} (h : deltaMinutes schedule day minute = some delta) :
    0 < delta ∧ Opening schedule (n + delta) ∧ ∀ k, n < k → Opening schedule k → delta ≤ k - n := by
  unfold deltaMinutes minutesPerDay at h
  obtain ⟨ahead, hfind, rfl⟩ := map_eq_some_iff.mp h
  obtain ⟨hahead, -, hfirst⟩ := find?_range_eq_some.mp hfind
  simp only [Bool.and_eq_true, contains_iff_mem, Bool.not_eq_true', decide_eq_false_iff_not]
    at hahead
  refine ⟨by omega, ?_, ?_⟩
  · refine ⟨_, hahead.1, (n / 1440 + ahead) / 7, ?_⟩
    omega
  · intro k hk hopening
    obtain ⟨other, hother, hmem, hpos, hle⟩ := exists_ahead hday hk hopening
    have hnot : ¬ other < ahead := by
      intro hbefore
      have hmissed := hfirst other hbefore
      simp only [Bool.not_eq_true', Bool.and_eq_false_iff, contains_eq_mem,
        decide_eq_false_iff_not, Bool.not_eq_false', decide_eq_true_eq] at hmissed
      rcases hmissed with hmissed | hmissed
      · exact hmissed hmem
      · omega
    omega

theorem deltaMinutes_isSome (hdays : schedule.days ≠ []) {n : Int} {day : Nat} {minute : Int}
    (hday : day = (n / 1440 % 7).toNat) (hminute : minute = n % 1440) :
    ∃ delta, deltaMinutes schedule day minute = some delta := by
  obtain ⟨d, hd⟩ := exists_mem_of_ne_nil _ hdays
  have hopening : Opening schedule (((n / 10080 + 1) * 7 + d) * 1440 + schedule.startMinute) :=
    ⟨d, hd, n / 10080 + 1, rfl⟩
  obtain ⟨ahead, hahead, hmem, hpos, -⟩ := exists_ahead hday (by omega) hopening
  unfold deltaMinutes minutesPerDay
  rw [← isSome_iff_exists, isSome_map, find?_isSome]
  refine ⟨ahead, List.mem_range.mpr hahead, ?_⟩
  simp only [Bool.and_eq_true, contains_iff_mem, Bool.not_eq_true', decide_eq_false_iff_not]
  exact ⟨hmem, by omega⟩

/-- The wait for one schedule, when it is an allow window at all. -/
def wait (nowMs : Int) (schedule : QuotaSchedule) : Option Int :=
  if !schedule.enabled || schedule.mode ≠ .allow || schedule.days.isEmpty then none
  else
    deltaMinutes schedule (localDayAndMinute offset nowMs schedule.timezone).1
      (localDayAndMinute offset nowMs schedule.timezone).2

theorem foldl_nextDelta (nowMs : Int) (best : Option Int) (schedules : List QuotaSchedule) :
    schedules.foldl (nextDelta offset nowMs) best =
      (best.toList ++ schedules.filterMap (wait offset nowMs)).min? := by
  induction schedules generalizing best with
  | nil =>
    cases best with
    | none => rfl
    | some least => rfl
  | cons schedule schedules ih =>
    have hnext : nextDelta offset nowMs best schedule =
        (best.toList ++ (wait offset nowMs schedule).toList).min? := by
      unfold nextDelta wait
      split
      · cases best with
        | none => rfl
        | some least => rfl
      · simp only
        cases deltaMinutes schedule (localDayAndMinute offset nowMs schedule.timezone).1
            (localDayAndMinute offset nowMs schedule.timezone).2 with
        | none =>
          cases best with
          | none => rfl
          | some least => rfl
        | some delta =>
          cases best with
          | none => rfl
          | some least =>
            show (if delta < least then some delta else some least) = some (min least delta)
            split <;> exact congrArg some (by omega)
    rw [foldl_cons, ih, hnext, filterMap_cons]
    cases best with
    | none =>
      cases wait offset nowMs schedule with
      | none => rfl
      | some delta => rfl
    | some least =>
      cases wait offset nowMs schedule with
      | none => rfl
      | some delta => rfl

theorem secondsUntilNextWindow_eq (schedules : List QuotaSchedule) (nowMs : Int) :
    secondsUntilNextWindow offset schedules nowMs =
      ((schedules.filterMap (wait offset nowMs)).min?).map (· * 60) := by
  unfold secondsUntilNextWindow
  rw [foldl_nextDelta]
  rfl

variable {offset}

theorem wait_spec {nowMs delta : Int} (h : wait offset nowMs schedule = some delta) :
    schedule.enabled = true ∧ schedule.mode = .allow ∧ 0 < delta ∧
      Opening schedule (weekMinute offset nowMs schedule.timezone + delta) ∧
      ∀ k, weekMinute offset nowMs schedule.timezone < k → Opening schedule k →
        delta ≤ k - weekMinute offset nowMs schedule.timezone := by
  unfold wait at h
  split at h
  · cases h
  · rename_i huse
    simp only [Bool.or_eq_true, Bool.not_eq_true', decide_eq_true_eq, not_or, Decidable.not_not,
      Bool.not_eq_false] at huse
    rw [localDayAndMinute_eq] at h
    exact ⟨huse.1.1, huse.1.2, deltaMinutes_spec rfl rfl h⟩

theorem wait_isSome {nowMs : Int} (henabled : schedule.enabled = true)
    (hmode : schedule.mode = .allow) {k : Int} (hopening : Opening schedule k) :
    ∃ delta, wait offset nowMs schedule = some delta := by
  obtain ⟨d, hd, -⟩ := hopening
  have hdays : schedule.days ≠ [] := ne_nil_of_mem hd
  have hsome : schedule.days.isEmpty = false := by simpa using hdays
  unfold wait
  rw [localDayAndMinute_eq, henabled, hmode, hsome]
  exact deltaMinutes_isSome hdays rfl rfl

/-! ## The verdict -/

def OpenNow (offset : Option JsString → Int) (mode : ScheduleMode)
    (schedules : List QuotaSchedule) (nowMs : Int) : Prop :=
  ∃ schedule ∈ schedules, schedule.mode = mode ∧ schedule.enabled = true ∧
    InWindow schedule (weekMs offset nowMs schedule.timezone)

variable {localeCompare : JsString → JsString → Int} {schedules : List QuotaSchedule} {nowMs : Int}

variable (offset localeCompare) in
theorem mem_matching {schedule : QuotaSchedule} :
    schedule ∈ matching offset localeCompare schedules nowMs ↔
      schedule ∈ schedules ∧ isScheduleActive offset schedule nowMs = true := by
  unfold matching
  rw [mem_mergeSort, mem_filter, mem_filter, isScheduleActive_iff]
  exact ⟨fun h => ⟨h.1.1, h.2⟩, fun h => ⟨⟨h.1, h.2.1⟩, h.2⟩⟩

variable (offset localeCompare) in
theorem openNow_iff (mode : ScheduleMode) : OpenNow offset mode schedules nowMs ↔
      ((matching offset localeCompare schedules nowMs).find? fun s => s.mode = mode).isSome =
        true := by
  rw [find?_isSome]
  constructor
  · rintro ⟨schedule, hin, hmode, hactive⟩
    rw [← isScheduleActive_iff] at hactive
    exact ⟨schedule, (mem_matching offset localeCompare).mpr ⟨hin, hactive⟩, decide_eq_true hmode⟩
  · rintro ⟨schedule, hmem, hmode⟩
    obtain ⟨hin, hactive⟩ := (mem_matching offset localeCompare).mp hmem
    rw [isScheduleActive_iff] at hactive
    exact ⟨schedule, hin, of_decide_eq_true hmode, hactive.1, hactive.2⟩

theorem resolve_active_iff :
    (∃ schedule, resolveActiveSchedule offset localeCompare schedules nowMs = .active schedule) ↔
      OpenNow offset .allow schedules nowMs ∧ ¬ OpenNow offset .block schedules nowMs := by
  rw [openNow_iff offset localeCompare, openNow_iff offset localeCompare]
  unfold resolveActiveSchedule
  simp only
  by_cases hnone : (schedules.filter QuotaSchedule.enabled).isEmpty = true
  · have hmatching : matching offset localeCompare schedules nowMs = [] := by
      unfold matching
      rw [List.isEmpty_iff.mp hnone, filter_nil, mergeSort_nil]
    rw [if_pos hnone, hmatching]
    simp
  · rw [if_neg hnone]
    cases (matching offset localeCompare schedules nowMs).find? fun s => s.mode = .block with
    | some blackout => simp
    | none =>
      cases (matching offset localeCompare schedules nowMs).find? fun s => s.mode = .allow with
      | some window => simp
      | none =>
        simp only
        split <;> simp

/-- A denial with a hint is one outside all allow windows, and the hint is the
least wait. -/
theorem hint_of_closed {reason : ClosedReason} {schedule : Option QuotaSchedule} {seconds : Int}
    (h : resolveActiveSchedule offset localeCompare schedules nowMs =
      .closed reason schedule (some seconds)) :
    ¬ OpenNow offset .allow schedules nowMs ∧
      secondsUntilNextWindow offset (schedules.filter QuotaSchedule.enabled) nowMs =
        some seconds := by
  rw [openNow_iff offset localeCompare]
  unfold resolveActiveSchedule at h
  simp only at h
  split at h
  · cases h
  · split at h
    · cases h
    · split at h
      · cases h
      · rename_i hallow
        split at h
        · rw [hallow]
          exact ⟨Bool.false_ne_true, (ScheduleVerdict.closed.inj h).2.2⟩
        · cases h

theorem opening_of_later {n m : Int} (hle : n ≤ m) (hclosed : ¬ InWindowMinute schedule n)
    (hopen : InWindowMinute schedule m) : ∃ k, Opening schedule k ∧ n < k ∧ k ≤ m := by
  obtain ⟨k, hopening, hk, hlt⟩ := hopen
  refine ⟨k, hopening, ?_, hk⟩
  by_contra hbefore
  exact hclosed ⟨k, hopening, by omega, by omega⟩

theorem retryHint {reason : ClosedReason} {schedule : Option QuotaSchedule} {seconds : Int}
    (h : resolveActiveSchedule offset localeCompare schedules nowMs =
      .closed reason schedule (some seconds)) :
    OpenNow offset .allow schedules (nowMs + seconds * 1000) ∧
      ∀ t, nowMs ≤ t → t < nowMs / 60000 * 60000 + seconds * 1000 →
        ¬ OpenNow offset .allow schedules t := by
  obtain ⟨hclosed, hhint⟩ := hint_of_closed h
  rw [secondsUntilNextWindow_eq] at hhint
  obtain ⟨delta, hmin, rfl⟩ := map_eq_some_iff.mp hhint
  obtain ⟨hmem, hleast⟩ := min?_eq_some_iff.mp hmin
  obtain ⟨first, hfirst, hwait⟩ := mem_filterMap.mp hmem
  obtain ⟨henabled, hmode, hpos, hopening, -⟩ := wait_spec hwait
  constructor
  · refine ⟨first, (mem_filter.mp hfirst).1, hmode, henabled, ?_⟩
    rw [inWindow_iff, weekMs_div]
    refine ⟨_, hopening, ?_, ?_⟩
    · unfold weekMinute
      omega
    · have := windowMinutes_pos first
      unfold weekMinute
      omega
  · rintro t hnow ht ⟨other, hother, hmode, henabled, hwindow⟩
    rw [inWindow_iff, weekMs_div] at hwindow
    have hnot : ¬ InWindowMinute other (weekMinute offset nowMs other.timezone) := by
      rw [← weekMs_div, ← inWindow_iff]
      exact fun hin => hclosed ⟨other, hother, hmode, henabled, hin⟩
    obtain ⟨k, hopening', hafter, hbefore⟩ := opening_of_later
      (show weekMinute offset nowMs other.timezone ≤ weekMinute offset t other.timezone by
        unfold weekMinute
        omega) hnot hwindow
    obtain ⟨wait', hwait'⟩ := wait_isSome henabled hmode hopening'
    have hle := hleast wait' (mem_filterMap.mpr ⟨other, mem_filter.mpr ⟨hother, henabled⟩, hwait'⟩)
    have hnext := (wait_spec hwait').2.2.2.2 k hafter hopening'
    unfold weekMinute at hafter hbefore hnext
    omega

/-- What the windows of a pool are, and what its verdict and its hint say. -/
theorem schedule_windows (offset : Option JsString → Int)
    (localeCompare : JsString → JsString → Int) (schedules : List QuotaSchedule) (nowMs : Int) :
    (∀ schedule ∈ schedules, isScheduleActive offset schedule nowMs = true ↔
      schedule.enabled = true ∧ InWindow schedule (weekMs offset nowMs schedule.timezone)) ∧
    ((∃ schedule, resolveActiveSchedule offset localeCompare schedules nowMs = .active schedule) ↔
      OpenNow offset .allow schedules nowMs ∧ ¬ OpenNow offset .block schedules nowMs) ∧
    ∀ reason schedule seconds, resolveActiveSchedule offset localeCompare schedules nowMs =
        .closed reason schedule (some seconds) →
      OpenNow offset .allow schedules (nowMs + seconds * 1000) ∧
        ∀ t, nowMs ≤ t → t < nowMs / 60000 * 60000 + seconds * 1000 →
          ¬ OpenNow offset .allow schedules t :=
  ⟨fun schedule _ => isScheduleActive_iff offset schedule nowMs, resolve_active_iff,
    fun _ _ _ => retryHint⟩

/-- A window from 00:01 to 00:02 on Thursdays. -/
def oneMinute : QuotaSchedule where
  id := js "w"
  days := [4]
  startMinute := 1
  endMinute := 2
  timezone := none
  mode := .allow
  priority := 0
  enabled := true
  days_lt := by decide
  startMinute_lt := by decide
  endMinute_le := by decide

/-- Half a minute before the window opens, the hint is a whole minute. -/
theorem not_schedule_windows_exact :
    ¬ ∀ (offset : Option JsString → Int) (localeCompare : JsString → JsString → Int)
      (schedules : List QuotaSchedule) (nowMs : Int) (reason : ClosedReason)
      (schedule : Option QuotaSchedule) (seconds : Int),
      resolveActiveSchedule offset localeCompare schedules nowMs =
        .closed reason schedule (some seconds) →
      OpenNow offset .allow schedules (nowMs + seconds * 1000) ∧
        ∀ t, nowMs ≤ t → t < nowMs + seconds * 1000 → ¬ OpenNow offset .allow schedules t := by
  intro hall
  have hmatching : matching (fun _ => 0) (fun _ _ => 0) [oneMinute] 30000 = [] := by
    have hfilter : ([oneMinute].filter QuotaSchedule.enabled).filter
        (fun s => isScheduleActive (fun _ => 0) s 30000) = [] := by decide
    unfold matching
    rw [hfilter, mergeSort_nil]
  have hclosed : resolveActiveSchedule (fun _ => 0) (fun _ _ => 0) [oneMinute] 30000 =
      .closed .outsideWindow none (some 60) := by
    unfold resolveActiveSchedule
    rw [hmatching]
    rfl
  refine (hall _ _ _ _ _ _ _ hclosed).2 60000 (by decide) (by decide) ?_
  refine ⟨oneMinute, mem_singleton_self _, rfl, ?_⟩
  rw [← isScheduleActive_iff]
  decide

end RedRouter.Quota.Schedules
