import TradeCore.Analytics.NextRun
import TradeCore.Lib.Run
import TradeCore.Lib.Table

/-!
# TradeCore.Analytics.ScheduledReports

The run over the reports that are due. For each of them a report is created first; then the next run is
computed, which may throw, and only then is the row saved.

* `accepted_run`: a row with a next run has a cron expression with which its next run was computed once.
* `processed_iff`: a run creates one report for each due row and sets its next run after the start of
  the run exactly when every due row has one (`HasNext`) and a start date for its report (`HasStart`).
-/

namespace TradeCore
namespace Analytics

open Lib Instant

inductive ReportStatus where
  | pending
  | processing
  | completed
  | failed
  deriving DecidableEq

/-- `details` stands for the columns that are handed to the report generator as they are. `nextRunAt`
is a `Date`, which may be invalid, or null. -/
structure SavedReport (α : Type) where
  id : String
  userId : String
  name : String
  details : α
  status : ReportStatus
  isScheduled : Bool
  scheduleCron : Option String
  scheduleFrequency : Option String
  recipients : Option (List String)
  nextRunAt : Option (Option Instant)
  lastRunAt : Option Instant

/-- A call of `createReport` for the schedule of a row. -/
structure ReportRequest (α : Type) where
  schedule : String
  userId : String
  name : String
  dateFrom : String
  dateTo : String
  details : α

structure ScheduleConfig where
  frequency : ScheduleFrequency
  cronExpression : Option String
  recipients : List String

structure UpdateConfig where
  frequency : Option ScheduleFrequency
  cronExpression : Option String
  recipients : Option (List String)
  isActive : Option Bool

/-- What the clock shows while one report is processed: for its name, its start date, its end date and
its next run. -/
structure Readings where
  named : Instant
  started : Instant
  ended : Instant
  now : Instant

def ScheduleFrequency.text : ScheduleFrequency → String
  | .daily => "daily"
  | .weekly => "weekly"
  | .monthly => "monthly"
  | .quarterly => "quarterly"
  | .custom => "custom"

/-- The frequency with a stored text. -/
def ScheduleFrequency.ofText? (text : String) : Option ScheduleFrequency :=
  [.daily, .weekly, .monthly, .quarterly, .custom].find? fun f => f.text = text

def fullSet (min max : Nat) : Finset Nat := .Icc min max

def getFrequencyFromCron (cronExpression : String) : ScheduleFrequency :=
  if trim cronExpression.toList = [] then .custom
  else
    match parseCronExpression cronExpression with
    | .error _ => .custom
    | .ok schedule =>
      if schedule.minute = {0} ∧ schedule.hour = {0} ∧ schedule.dayOfMonth = fullSet 1 31 ∧
          schedule.month = fullSet 1 12 ∧ schedule.dayOfWeek = {0, 1, 2, 3, 4, 5, 6} then .daily
      else if schedule.minute = {0} ∧ schedule.hour = {0} ∧ schedule.dayOfMonth = fullSet 1 31 ∧
          schedule.month = fullSet 1 12 ∧ schedule.dayOfWeek = {0} then .weekly
      else if schedule.minute = {0} ∧ schedule.hour = {0} ∧ schedule.dayOfMonth = {1} ∧
          schedule.month = fullSet 1 12 ∧ schedule.dayOfWeek = {0, 1, 2, 3, 4, 5, 6} then .monthly
      else if schedule.minute = {0} ∧ schedule.hour = {0} ∧ schedule.dayOfMonth = {1} ∧
          schedule.month = {1, 4, 7, 10} ∧ schedule.dayOfWeek = {0, 1, 2, 3, 4, 5, 6} then .quarterly
      else .custom

section Reports

variable {α : Type} (zone : Int)

/-- Prefers the stored frequency; falls back to parsing the cron for legacy rows. -/
def resolveReportFrequency (report : SavedReport α) : ScheduleFrequency :=
  match report.scheduleFrequency.bind ScheduleFrequency.ofText? with
  | some frequency => frequency
  | none => getFrequencyFromCron (report.scheduleCron.getD "")

/-- `none` is the `RangeError` of `toISOString` on an invalid date. -/
def getStartDateForFrequency (frequency : ScheduleFrequency) (from_ : Instant) : Option String :=
  let start :=
    match frequency with
    | .quarterly => from_.setMonth zone (from_.getMonth zone - 3)
    | .monthly => from_.setMonth zone (from_.getMonth zone - 1)
    | .weekly => from_.setDate zone (from_.getDate zone - 7)
    | _ => from_.setDate zone (from_.getDate zone - 1)
  start.map toISOString

def scheduleReport (report : SavedReport α) (config : ScheduleConfig) (now : Instant) :
    Except String (SavedReport α) := do
  let scheduleCron ← getCronForFrequency config.frequency config.cronExpression
  let nextRunAt ← calculateNextRun zone config.frequency (some scheduleCron) now
  .ok { report with
    isScheduled := true
    scheduleCron := some scheduleCron
    scheduleFrequency := some config.frequency.text
    recipients := some config.recipients
    nextRunAt := some nextRunAt }

/-- The schedule that an update sets, before recipients and activity. -/
def updateCron (report : SavedReport α) (config : UpdateConfig) (now : Instant) :
    Except String (SavedReport α) :=
  match config.frequency with
  | some frequency => do
    let scheduleCron ← getCronForFrequency frequency config.cronExpression
    let nextRunAt ← calculateNextRun zone frequency (some scheduleCron) now
    .ok { report with
      scheduleCron := some scheduleCron
      scheduleFrequency := some frequency.text
      nextRunAt := some nextRunAt }
  | none =>
    match config.cronExpression with
    | none | some "" => .ok report
    | some cronExpression => do
      let nextRunAt ← calculateNextRun zone .custom (some cronExpression) now
      .ok { report with
        scheduleCron := some cronExpression
        scheduleFrequency := some ScheduleFrequency.custom.text
        nextRunAt := some nextRunAt }

def updateSchedule (report : SavedReport α) (config : UpdateConfig) (now : Instant) :
    Except String (SavedReport α) := do
  let report ← updateCron zone report config now
  .ok { report with
    recipients := match config.recipients with
      | some recipients => some recipients
      | none => report.recipients
    isScheduled := config.isActive.getD report.isScheduled }

/-- The other columns of the schedule are set to `undefined`, which `save` leaves as they are. -/
def removeSchedule (report : SavedReport α) : SavedReport α := { report with isScheduled := false }

/-- What `createReport` was called with, and the row that was saved. -/
def processScheduledReport (report : SavedReport α) (r : Readings) :
    List (ReportRequest α) × Option (SavedReport α) :=
  let frequency := resolveReportFrequency report
  let cron : Except String String := match report.scheduleCron with
    | some cron => .ok cron
    | none => getCronForFrequency frequency none
  match cron, getStartDateForFrequency zone frequency r.started with
  | .ok cron, some dateFrom =>
    let request : ReportRequest α :=
      { schedule := report.id
        userId := report.userId
        name := report.name ++ " - " ++ r.named.isoDate
        dateFrom := dateFrom
        dateTo := r.ended.toISOString
        details := report.details }
    match calculateNextRun zone frequency (some cron) r.now with
    | .ok next => ([request], some { report with nextRunAt := some next, lastRunAt := some r.now })
    | .error _ => ([request], none)
  | _, _ => ([], none)

/-- The query for the reports that are scheduled and due. -/
def isDue (now : Instant) (report : SavedReport α) : Bool :=
  report.isScheduled && report.status = .completed &&
    report.nextRunAt.any fun next => next.any fun d => d.time ≤ now.time

/-- The loop over the due reports: the table and the reports created. What is thrown is logged. -/
def processReports (readings : String → Readings) :
    List (SavedReport α) → List (SavedReport α) → List (SavedReport α) × List (ReportRequest α)
  | [], table => (table, [])
  | report :: due, table =>
    let (requests, saved) := processScheduledReport zone report (readings report.id)
    let table := match saved with
      | some row => upsert SavedReport.id row table
      | none => table
    let (table, rest) := processReports readings due table
    (table, requests ++ rest)

def processScheduledReports (table : List (SavedReport α)) (now : Instant)
    (readings : String → Readings) : List (SavedReport α) × List (ReportRequest α) :=
  processReports zone readings (table.filter (isDue now)) table

inductive ReportCall (α : Type) where
  | create (id userId name : String) (details : α)
  | setStatus (id : String) (status : ReportStatus)
  | schedule (id : String) (config : ScheduleConfig) (now : Instant)
  | update (id : String) (config : UpdateConfig) (now : Instant)
  | remove (id : String)
  | process (now : Instant) (readings : String → Readings)

/-- A row that `f` finds and saves. When it throws, nothing is saved. -/
def saveRow (table : List (SavedReport α)) (id : String)
    (f : SavedReport α → Except String (SavedReport α)) : List (SavedReport α) :=
  match lookup SavedReport.id id table with
  | none => table
  | some report =>
    match f report with
    | .error _ => table
    | .ok row => upsert SavedReport.id row table

def reportStep (table : List (SavedReport α)) : ReportCall α → List (SavedReport α)
  | .create id userId name details =>
    if id ∈ table.map SavedReport.id then table
    else table ++ [⟨id, userId, name, details, .pending, false, none, none, none, none, none⟩]
  | .setStatus id status => saveRow table id fun report => .ok { report with status := status }
  | .schedule id config now => saveRow table id fun report => scheduleReport zone report config now
  | .update id config now => saveRow table id fun report => updateSchedule zone report config now
  | .remove id => saveRow table id fun report => .ok (removeSchedule report)
  | .process now readings => (processScheduledReports zone table now readings).1

/-! ## What was accepted -/

/-- The next run was computed with the cron expression of the row, at some time. -/
def Accepted (r : SavedReport α) : Prop :=
  ∃ cron, r.scheduleCron = some cron ∧
    ∃ from_ next, calculateNextRun zone (resolveReportFrequency r) (some cron) from_ = .ok next

/-- A row that may be due has been accepted. -/
def RowInv (r : SavedReport α) : Prop := r.nextRunAt ≠ none → Accepted zone r

structure TableInv (table : List (SavedReport α)) : Prop where
  ids : (table.map SavedReport.id).Nodup
  rows : ∀ r ∈ table, RowInv zone r

variable {zone}

theorem ofText?_text (f : ScheduleFrequency) : ScheduleFrequency.ofText? f.text = some f := by
  cases f <;> decide

theorem resolve_stored {r : SavedReport α} {f : ScheduleFrequency}
    (h : r.scheduleFrequency = some f.text) : resolveReportFrequency r = f := by
  rw [resolveReportFrequency, h, Option.bind_some, ofText?_text]

/-- The next run of a row depends on its cron expression and its frequency. -/
theorem Accepted.of_eq {r row : SavedReport α} (h : Accepted zone r)
    (hc : row.scheduleCron = r.scheduleCron) (hf : row.scheduleFrequency = r.scheduleFrequency) :
    Accepted zone row := by
  have hresolve : resolveReportFrequency row = resolveReportFrequency r := by
    unfold resolveReportFrequency
    rw [hc, hf]
  obtain ⟨cron, hcron, hnext⟩ := h
  rw [← hresolve] at hnext
  exact ⟨cron, hc.trans hcron, hnext⟩

theorem scheduleReport_inv {r row : SavedReport α} {config : ScheduleConfig} {now : Instant}
    (h : scheduleReport zone r config now = .ok row) : row.id = r.id ∧ RowInv zone row := by
  obtain ⟨cron, -, h⟩ := bind_eq_ok.mp h
  obtain ⟨next, hnext, h⟩ := bind_eq_ok.mp h
  cases h
  refine ⟨rfl, fun _ => ⟨cron, rfl, now, next, ?_⟩⟩
  rw [resolve_stored rfl]
  exact hnext

theorem updateCron_inv {r row : SavedReport α} {config : UpdateConfig} {now : Instant}
    (h : updateCron zone r config now = .ok row) (hr : RowInv zone r) : row.id = r.id ∧ RowInv zone row := by
  rw [updateCron] at h
  split at h
  · obtain ⟨cron, -, h⟩ := bind_eq_ok.mp h
    obtain ⟨next, hnext, h⟩ := bind_eq_ok.mp h
    cases h
    refine ⟨rfl, fun _ => ⟨cron, rfl, now, next, ?_⟩⟩
    rw [resolve_stored rfl]
    exact hnext
  · split at h
    · cases h
      exact ⟨rfl, hr⟩
    · cases h
      exact ⟨rfl, hr⟩
    · rename_i cron _ _
      obtain ⟨next, hnext, h⟩ := bind_eq_ok.mp h
      cases h
      refine ⟨rfl, fun _ => ⟨cron, rfl, now, next, ?_⟩⟩
      rw [resolve_stored rfl]
      exact hnext

theorem updateSchedule_inv {r row : SavedReport α} {config : UpdateConfig} {now : Instant}
    (h : updateSchedule zone r config now = .ok row) (hr : RowInv zone r) :
    row.id = r.id ∧ RowInv zone row := by
  obtain ⟨mid, hmid, h⟩ := bind_eq_ok.mp h
  cases h
  obtain ⟨hid, hinv⟩ := updateCron_inv hmid hr
  exact ⟨hid, fun hne => (hinv hne).of_eq rfl rfl⟩

theorem TableInv.upsert {table : List (SavedReport α)} (h : TableInv zone table) {row : SavedReport α}
    (hrow : RowInv zone row) : TableInv zone (upsert SavedReport.id row table) := by
  refine ⟨nodup_upsert h.ids, fun r hr => ?_⟩
  rcases mem_upsert hr with rfl | hr
  · exact hrow
  · exact h.rows r hr

theorem TableInv.saveRow {table : List (SavedReport α)} (h : TableInv zone table) {id : String}
    {f : SavedReport α → Except String (SavedReport α)}
    (hf : ∀ r row, f r = .ok row → RowInv zone r → RowInv zone row) :
    TableInv zone (saveRow table id f) := by
  rw [Analytics.saveRow]
  split
  · exact h
  · rename_i report hl
    split
    · exact h
    · rename_i row hrow
      exact h.upsert (hf report row hrow (h.rows report (mem_of_lookup hl)))

/-! ## One report -/

theorem process_saved {r row : SavedReport α} {t : Readings}
    (h : (processScheduledReport zone r t).2 = some row) :
    ∃ next, row = { r with nextRunAt := some next, lastRunAt := some t.now } := by
  rw [processScheduledReport] at h
  simp only at h
  split at h
  · split at h
    · rename_i next _
      cases h
      exact ⟨next, rfl⟩
    · cases h
  · cases h

theorem process_requests {r : SavedReport α} {t : Readings} {q : ReportRequest α}
    (h : q ∈ (processScheduledReport zone r t).1) : q.schedule = r.id := by
  rw [processScheduledReport] at h
  simp only at h
  split at h
  · split at h <;> rw [List.mem_singleton.mp h]
  · cases h

/-- The days by which the start date of a report is moved back, negative. -/
def backDays (frequency : ScheduleFrequency) (d : Int) : Int :=
  match frequency with
  | .quarterly => firstDay (monthIndex d - 3) - firstDay (monthIndex d)
  | .monthly => firstDay (monthIndex d - 1) - firstDay (monthIndex d)
  | .weekly => -7
  | _ => -1

variable (zone) in
/-- The start date of the report is one a `Date` can hold. -/
def HasStart (r : SavedReport α) (started : Instant) : Prop :=
  -maxTime ≤ started.time +
    backDays (resolveReportFrequency r) (started.getDayNumber zone) * 86400000

theorem backDays_neg (frequency : ScheduleFrequency) (d : Int) : backDays frequency d < 0 := by
  have hmono := firstDay_mono (show monthIndex d - 3 ≤ monthIndex d - 1 by omega)
  have hlen := monthLength_bounds (monthIndex d - 1)
  unfold monthLength at hlen
  rw [Int.sub_add_cancel] at hlen
  cases frequency <;> simp only [backDays] <;> omega

theorem hasStart_iff {r : SavedReport α} {started : Instant} :
    HasStart zone r started ↔
      ∃ text, getStartDateForFrequency zone (resolveReportFrequency r) started = some text := by
  have hdate : started.getDate zone =
      started.getDayNumber zone - firstDay (monthIndex (started.getDayNumber zone)) + 1 := dateFromDay_eq _
  have hindex : monthIndex (started.getDayNumber zone) =
      12 * started.getFullYear zone + started.getMonth zone := rfl
  have hset : ∀ n : Int, started.setDate zone (started.getDate zone - n) =
      timeClip (started.time + -n * 86400000) := by
    intro n
    rw [setDate_eq, hdate, ← ofLocal_shift]
    congr 2
    omega
  have hmonth : ∀ n : Int, started.setMonth zone (started.getMonth zone - n) = timeClip (started.time +
      (firstDay (monthIndex (started.getDayNumber zone) - n) -
        firstDay (monthIndex (started.getDayNumber zone))) * 86400000) := by
    intro n
    have hM : 12 * started.getFullYear zone + (started.getMonth zone - n) =
        monthIndex (started.getDayNumber zone) - n := by
      rw [hindex]
      omega
    rw [setMonth_shift hM]
  have hstart : getStartDateForFrequency zone (resolveReportFrequency r) started =
      (timeClip (started.time +
        backDays (resolveReportFrequency r) (started.getDayNumber zone) * 86400000)).map toISOString := by
    unfold getStartDateForFrequency
    cases resolveReportFrequency r <;> simp only [backDays, hset, hmonth]
  have hneg := backDays_neg (resolveReportFrequency r) (started.getDayNumber zone)
  have hvalid := started.valid
  rw [hstart, HasStart]
  cases hc : timeClip (started.time +
      backDays (resolveReportFrequency r) (started.getDayNumber zone) * 86400000) with
  | none =>
    have hnone := timeClip_eq_none.mp hc
    constructor
    · exact fun h => absurd h (by omega)
    · rintro ⟨_, h⟩
      cases h
  | some u =>
    have htime := timeClip_eq_some.mp hc
    have huvalid := u.valid
    exact ⟨fun _ => ⟨u.toISOString, rfl⟩, fun _ => by omega⟩

variable (zone) in
/-- The schedule has a next run after the clock: for a custom one a minute within 366 days, for the
others a date that a `Date` can hold. -/
def HasNext (r : SavedReport α) (now : Instant) : Prop :=
  match resolveReportFrequency r with
  | .custom => ∃ cron schedule, r.scheduleCron = some cron ∧ parseCronExpression cron = .ok schedule ∧
      ∃ u, MinuteAfter now u ∧ InReach now u ∧ Fires zone schedule u
  | frequency => now.time + shiftDays frequency (now.getDayNumber zone) * 86400000 ≤ maxTime

theorem calculateNextRun_after {frequency : ScheduleFrequency} {c : Option String} {now next : Instant}
    (h : calculateNextRun zone frequency c now = .ok (some next)) : now.time < next.time := by
  by_cases hf : frequency = .custom
  · subst hf
    obtain ⟨u, hu, h⟩ := bind_eq_ok.mp h
    cases h
    obtain ⟨schedule, hparse, -⟩ := bind_eq_ok.mp hu
    exact ((calculateNextRunFromCron_ok hparse).mp hu).2.1.after
  · cases hm : inBetween zone frequency now with
    | none =>
      rw [calculateNextRun_none hf hm] at h
      cases h
    | some m =>
      obtain ⟨w, hw, hlocal⟩ := @calculateNextRun_some zone frequency hf c now m hm
      rw [hw] at h
      cases h
      have hgt := (landingDay_bounds hf (now.getDayNumber zone)).1
      have hnow : now.localTime zone = _ := now.localTime_eq
      have hin : 0 ≤ now.timeWithinDay zone ∧ _ := now.timeWithinDay_bounds
      unfold localTime at hlocal hnow
      omega

theorem hasNext_iff {r : SavedReport α} {cron : String} (hcron : r.scheduleCron = some cron)
    (h : Accepted zone r) {now : Instant} :
    HasNext zone r now ↔
      ∃ next, calculateNextRun zone (resolveReportFrequency r) (some cron) now = .ok (some next) := by
  obtain ⟨cron', hcron', from_, next', hnext'⟩ := h
  obtain rfl : cron = cron' := Option.some.inj (hcron.symm.trans hcron')
  rw [HasNext]
  by_cases hf : resolveReportFrequency r = .custom
  · rw [hf] at hnext' ⊢
    obtain ⟨u', hu', -⟩ := bind_eq_ok.mp hnext'
    obtain ⟨schedule, hparse, -⟩ := bind_eq_ok.mp hu'
    have hparse : parseCronExpression cron = .ok schedule := hparse
    have hcustom : ∀ u, calculateNextRun zone .custom (some cron) now = .ok (some u) ↔
        calculateNextRunFromCron zone cron now = .ok u := by
      intro u
      rw [calculateNextRun, bind_eq_ok]
      constructor
      · rintro ⟨v, hv, h⟩
        cases h
        exact hv
      · exact fun hu => ⟨u, hu, rfl⟩
    simp only [hcustom]
    have herror := @calculateNextRunFromCron_error zone schedule cron hparse now
    constructor
    · rintro ⟨cron', schedule', hc, hp, hex⟩
      obtain rfl : cron = cron' := Option.some.inj (hcron.symm.trans hc)
      rw [hparse] at hp
      cases hp
      cases hcalc : calculateNextRunFromCron zone cron now with
      | ok u => exact ⟨u, rfl⟩
      | error e => exact absurd hex (herror.mp ⟨e, hcalc⟩)
    · rintro ⟨u, hu⟩
      obtain ⟨hfires, hafter, hreach, -⟩ := (calculateNextRunFromCron_ok hparse).mp hu
      exact ⟨cron, schedule, hcron, hparse, u, hafter, hreach, hfires⟩
  · have hvalid := now.valid
    have hgt := landingDay_bounds hf (now.getDayNumber zone)
    have hrange : (now.time + shiftDays (resolveReportFrequency r) (now.getDayNumber zone) * 86400000 ≤
        maxTime) ↔ ∃ next, calculateNextRun zone (resolveReportFrequency r) (some cron) now =
          .ok (some next) := by
      cases hm : inBetween zone (resolveReportFrequency r) now with
      | none =>
        have hnone := timeClip_eq_none.mp hm
        rw [calculateNextRun_none hf hm]
        constructor
        · exact fun h => absurd h (by omega)
        · rintro ⟨_, h⟩
          cases h
      | some m =>
        obtain ⟨w, hw, -⟩ := @calculateNextRun_some zone _ hf (some cron) now m hm
        have htime := timeClip_eq_some.mp hm
        have hmvalid := m.valid
        exact ⟨fun _ => ⟨w, hw⟩, fun _ => by omega⟩
    rw [← hrange]
    cases hr : resolveReportFrequency r with
    | custom => exact absurd hr hf
    | daily | weekly | monthly | quarterly => exact Iff.rfl

theorem process_after {r row : SavedReport α} {t : Readings} {next : Instant}
    (h : (processScheduledReport zone r t).2 = some row) (hnext : row.nextRunAt = some (some next)) :
    t.now.time < next.time := by
  rw [processScheduledReport] at h
  simp only at h
  split at h
  · split at h
    · rename_i next' hcalc
      cases h
      obtain rfl : next' = some next := Option.some.inj hnext
      exact calculateNextRun_after hcalc
    · cases h
  · cases h

/-- What one report leaves: one request when it has a start date, and then a row with its next run
when it has one. -/
theorem process_one {r : SavedReport α} (h : Accepted zone r) {t : Readings} :
    ((processScheduledReport zone r t).1.length = 1 ↔ HasStart zone r t.started) ∧
      (HasStart zone r t.started → (HasNext zone r t.now ↔
        ∃ row next, (processScheduledReport zone r t).2 = some row ∧
          row.nextRunAt = some (some next))) := by
  obtain ⟨cron, hcron, -⟩ := id h
  have hnext := @hasNext_iff α zone r cron hcron h t.now
  rw [hasStart_iff, processScheduledReport]
  simp only [hcron]
  cases hstart : getStartDateForFrequency zone (resolveReportFrequency r) t.started with
  | none =>
    simp
  | some dateFrom =>
    simp only [hnext]
    cases hcalc : calculateNextRun zone (resolveReportFrequency r) (some cron) t.now with
    | error e => simp
    | ok next =>
      refine ⟨by simp, fun _ => ⟨?_, ?_⟩⟩
      · rintro ⟨u, hu⟩
        obtain rfl : next = some u := Except.ok.inj hu
        exact ⟨_, u, rfl, rfl⟩
      · rintro ⟨row, u, hrow, hu⟩
        obtain rfl := Option.some.inj hrow
        exact ⟨u, congrArg Except.ok (Option.some.inj hu)⟩

/-! ## The loop -/

/-- The calls of `createReport` for one schedule. -/
def requestsFor (id : String) (requests : List (ReportRequest α)) : Nat :=
  requests.countP fun q => q.schedule = id

theorem requestsFor_process {r : SavedReport α} {t : Readings} (id : String) :
    requestsFor id (processScheduledReport zone r t).1 =
      if r.id = id then (processScheduledReport zone r t).1.length else 0 := by
  unfold requestsFor
  split
  · rename_i h
    exact List.countP_eq_length.mpr fun q hq => by simp [process_requests hq, h]
  · rename_i h
    exact List.countP_eq_zero.mpr fun q hq => by simp [process_requests hq, h]

theorem processReports_spec (readings : String → Readings) {due : List (SavedReport α)}
    (hids : (due.map SavedReport.id).Nodup) (table : List (SavedReport α)) (id : String) :
    requestsFor id (processReports zone readings due table).2 =
        (match lookup SavedReport.id id due with
          | some r => (processScheduledReport zone r (readings r.id)).1.length
          | none => 0) ∧
      lookup SavedReport.id id (processReports zone readings due table).1 =
        (match lookup SavedReport.id id due with
          | some r => ((processScheduledReport zone r (readings r.id)).2).or
              (lookup SavedReport.id id table)
          | none => lookup SavedReport.id id table) := by
  induction due generalizing table with
  | nil => exact ⟨rfl, rfl⟩
  | cons r due ih =>
    simp only [List.map_cons, List.nodup_cons] at hids
    have happend : ∀ qs : List (ReportRequest α), requestsFor id
        ((processScheduledReport zone r (readings r.id)).1 ++ qs) =
          (if r.id = id then (processScheduledReport zone r (readings r.id)).1.length else 0) +
            requestsFor id qs := by
      intro qs
      rw [← requestsFor_process]
      exact List.countP_append
    -- the row of the first report, as a later query finds it
    have hrow : ∀ table : List (SavedReport α), lookup SavedReport.id id
        (match (processScheduledReport zone r (readings r.id)).2 with
          | some row => upsert SavedReport.id row table
          | none => table) =
        if r.id = id then ((processScheduledReport zone r (readings r.id)).2).or
            (lookup SavedReport.id id table)
        else lookup SavedReport.id id table := by
      intro table
      cases hp : (processScheduledReport zone r (readings r.id)).2 with
      | none => simp
      | some row =>
        obtain ⟨next, rfl⟩ := process_saved hp
        simp only [lookup_upsert]
        rfl
    obtain ⟨hq, hl⟩ := ih hids.2 (match (processScheduledReport zone r (readings r.id)).2 with
      | some row => upsert SavedReport.id row table
      | none => table)
    rw [hrow] at hl
    simp only [processReports]
    rw [happend, hq, hl]
    by_cases hid : r.id = id
    · have hnone : lookup SavedReport.id id due = none := by
        rw [lookup, List.find?_eq_none]
        intro x hx hxid
        exact hids.1 (List.mem_map.mpr ⟨x, hx, by rw [hid]; simpa using hxid⟩)
      have hfound : lookup SavedReport.id id (r :: due) = some r := by simp [lookup, hid]
      rw [hnone, hfound, if_pos hid]
      exact ⟨rfl, if_pos hid⟩
    · have hskip : lookup SavedReport.id id (r :: due) = lookup SavedReport.id id due := by
        simp [lookup, hid]
      rw [hskip, if_neg hid, if_neg hid, Nat.zero_add]
      exact ⟨rfl, rfl⟩

theorem processReports_inv (readings : String → Readings) {due table : List (SavedReport α)}
    (hdue : ∀ r ∈ due, Accepted zone r) (h : TableInv zone table) :
    TableInv zone (processReports zone readings due table).1 := by
  induction due generalizing table with
  | nil => exact h
  | cons r due ih =>
    simp only [processReports]
    refine ih (fun x hx => hdue x (List.mem_cons_of_mem r hx)) ?_
    cases hp : (processScheduledReport zone r (readings r.id)).2 with
    | none => exact h
    | some row =>
      obtain ⟨next, rfl⟩ := process_saved hp
      exact h.upsert fun _ => (hdue r List.mem_cons_self).of_eq rfl rfl

theorem isDue_iff {now : Instant} {r : SavedReport α} :
    isDue now r = true ↔ r.isScheduled = true ∧ r.status = .completed ∧
      ∃ next, r.nextRunAt = some (some next) ∧ next.time ≤ now.time := by
  unfold isDue
  rw [Bool.and_eq_true, Bool.and_eq_true, decide_eq_true_eq, and_assoc]
  cases r.nextRunAt with
  | none => simp
  | some next => cases next <;> simp

theorem accepted_due {table : List (SavedReport α)} (h : TableInv zone table) {now : Instant} :
    ∀ r ∈ table.filter (isDue now), Accepted zone r := by
  intro r hr
  obtain ⟨hin, hdue⟩ := List.mem_filter.mp hr
  obtain ⟨-, -, next, hnext, -⟩ := isDue_iff.mp hdue
  exact h.rows r hin (by rw [hnext]; exact Option.some_ne_none _)

theorem reportStep_inv {table : List (SavedReport α)} (h : TableInv zone table) (call : ReportCall α) :
    TableInv zone (reportStep zone table call) := by
  cases call with
  | create id userId name details =>
    simp only [reportStep]
    split
    · exact h
    · rename_i hnew
      refine ⟨?_, fun r hr => ?_⟩
      · rw [List.map_append, List.map_singleton]
        refine List.nodup_append.mpr ⟨h.ids, List.nodup_singleton _, ?_⟩
        rintro k hk k' hk' rfl
        have hid : k = id := by simpa using hk'
        exact hnew (hid ▸ hk)
      · rcases List.mem_append.mp hr with hr | hr
        · exact h.rows r hr
        · rw [List.mem_singleton.mp hr]
          exact fun hne => absurd rfl hne
  | setStatus id status =>
    simp only [reportStep]
    refine h.saveRow fun r row hrow hr => ?_
    cases hrow
    exact fun hne => (hr hne).of_eq rfl rfl
  | schedule id config now => exact h.saveRow fun r row hrow _ => (scheduleReport_inv hrow).2
  | update id config now => exact h.saveRow fun r row hrow hr => (updateSchedule_inv hrow hr).2
  | remove id =>
    simp only [reportStep]
    refine h.saveRow fun r row hrow hr => ?_
    cases hrow
    exact fun hne => (hr hne).of_eq rfl rfl
  | process now readings => exact processReports_inv readings (accepted_due h) h

theorem accepted_run (calls : List (ReportCall α)) : TableInv zone (run (reportStep zone) [] calls) := by
  have hstart : TableInv zone ([] : List (SavedReport α)) :=
    ⟨List.nodup_nil, fun r hr => absurd hr List.not_mem_nil⟩
  have hstep : ∀ (table : List (SavedReport α)) call, TableInv zone table → True →
      TableInv zone (reportStep zone table call) := fun _ call h _ => reportStep_inv h call
  exact run_inv hstep hstart along_true

/-! ## A run over the due reports -/

variable (zone) in
/-- One report is created for the row, and its next run is after the start of the run. -/
def RowProgresses (table : List (SavedReport α)) (now : Instant) (readings : String → Readings)
    (r : SavedReport α) : Prop :=
  requestsFor r.id (processScheduledReports zone table now readings).2 = 1 ∧
    ∃ row next, lookup SavedReport.id r.id (processScheduledReports zone table now readings).1 =
        some row ∧ row.nextRunAt = some (some next) ∧ now.time < next.time

theorem rowProgresses_iff {table : List (SavedReport α)} (h : TableInv zone table) {now : Instant}
    {readings : String → Readings} (hclock : ∀ id, now.time ≤ (readings id).now.time)
    {r : SavedReport α} (hr : r ∈ table) (hdue : isDue now r = true) :
    RowProgresses zone table now readings r ↔
      HasStart zone r (readings r.id).started ∧ HasNext zone r (readings r.id).now := by
  have hin : r ∈ table.filter (isDue now) := List.mem_filter.mpr ⟨hr, hdue⟩
  have hids : ((table.filter (isDue now)).map SavedReport.id).Nodup :=
    h.ids.sublist ((List.filter_sublist).map _)
  obtain ⟨hq, hl⟩ := @processReports_spec α zone readings _ hids table r.id
  rw [lookup_of_mem hids hin] at hq hl
  simp only [lookup_of_mem h.ids hr] at hl
  obtain ⟨hstart, hnext⟩ := @process_one α zone r (accepted_due h r hin) (readings r.id)
  rw [RowProgresses, processScheduledReports, hq, hl]
  obtain ⟨-, -, next, hold, hle⟩ := isDue_iff.mp hdue
  constructor
  · rintro ⟨hone, row, next', hrow, hrun, hlt⟩
    have hs := hstart.mp hone
    refine ⟨hs, (hnext hs).mpr ?_⟩
    cases hp : (processScheduledReport zone r (readings r.id)).2 with
    | none =>
      -- the row is as it was, and its next run is past
      rw [hp] at hrow
      obtain rfl : r = row := Option.some.inj hrow
      obtain rfl : next = next' := Option.some.inj (Option.some.inj (hold.symm.trans hrun))
      omega
    | some saved =>
      rw [hp] at hrow
      obtain rfl : saved = row := Option.some.inj hrow
      exact ⟨saved, next', rfl, hrun⟩
  · rintro ⟨hs, hn⟩
    obtain ⟨row, next', hrow, hrun⟩ := (hnext hs).mp hn
    have hafter := process_after hrow hrun
    exact ⟨hstart.mpr hs, row, next', by rw [hrow]; rfl, hrun, Int.lt_of_le_of_lt (hclock r.id) hafter⟩

theorem processed_iff (zone : Int) {table : List (SavedReport α)} (h : TableInv zone table)
    {now : Instant} {readings : String → Readings} (hclock : ∀ id, now.time ≤ (readings id).now.time) :
    (∀ r ∈ table, isDue now r = true → RowProgresses zone table now readings r) ↔
      ∀ r ∈ table, isDue now r = true →
        HasStart zone r (readings r.id).started ∧ HasNext zone r (readings r.id).now :=
  forall₂_congr fun _ hr => forall_congr' fun hdue => rowProgresses_iff h hclock hr hdue

/-! ## A leap day -/

def leapSchedule : CronSchedule := ⟨{0}, {0}, {29}, {2}, .range 7, true, false, "0 0 29 2 *"⟩

/-- Scheduled before 29 February 2028, and due on that day. -/
def leapReport : SavedReport Unit where
  id := "r"
  userId := "u"
  name := "leap day"
  details := ()
  status := .completed
  isScheduled := true
  scheduleCron := some "0 0 29 2 *"
  scheduleFrequency := some "custom"
  recipients := some []
  nextRunAt := some (some ⟨1835395200000, by decide⟩)
  lastRunAt := none

/-- Five minutes past midnight. -/
def leapNow : Instant := ⟨1835395500000, by decide⟩

theorem parse_leap : parseCronExpression "0 0 29 2 *" = .ok leapSchedule :=
  parse_of_same (by decide +kernel)

theorem leap_inv : TableInv 0 [leapReport] := by
  refine ⟨List.nodup_singleton _, fun r hr _ => ?_⟩
  rw [List.mem_singleton.mp hr]
  have hnext : calculateNextRunFromCron 0 "0 0 29 2 *" ⟨1835395140000, by decide⟩ =
      .ok ⟨1835395200000, by decide⟩ := by
    refine (calculateNextRunFromCron_ok parse_leap).mpr ⟨?_, ⟨by decide, by decide⟩, by unfold InReach; decide, ?_⟩
    · exact ⟨by decide, by decide, by decide, nofun, fun _ _ => by decide, nofun⟩
    · rintro v ⟨⟨k, hk⟩, hlt⟩ -
      simp only at hlt ⊢
      omega
  refine ⟨"0 0 29 2 *", rfl, ⟨1835395140000, by decide⟩, some ⟨1835395200000, by decide⟩, ?_⟩
  rw [resolve_stored (f := .custom) rfl]
  exact bind_eq_ok.mpr ⟨_, hnext, rfl⟩

theorem no_leap_day {u : Instant} (hafter : MinuteAfter leapNow u) (hreach : InReach leapNow u) :
    ¬ Fires 0 leapSchedule u := by
  intro hu
  have hhours : u.getHours 0 = 0 := by
    have := Finset.mem_singleton.mp hu.hour
    unfold getHours at this ⊢
    omega
  have hminutes : u.getMinutes 0 = 0 := by
    have := Finset.mem_singleton.mp hu.minute
    unfold getMinutes at this ⊢
    omega
  have hmonth : u.getMonth 0 + 1 = 2 := Finset.mem_singleton.mp hu.month
  have hdate : (u.getDate 0).toNat = 29 := Finset.mem_singleton.mp (hu.dayOfMonth rfl nofun)
  have hmid := (midnight_iff hafter.whole).mpr ⟨hhours, hminutes⟩
  have hlocal : u.localTime 0 = _ := u.localTime_eq
  have hlt := hafter.after
  unfold InReach leapNow at hreach
  unfold leapNow at hlt
  unfold localTime at hlocal
  simp only at hlt hreach
  have h1 : monthIndex 21244 ≤ monthIndex (u.getDayNumber 0) := monthIndex_mono (by omega)
  have h2 : monthIndex (u.getDayNumber 0) ≤ monthIndex 21609 := monthIndex_mono (by omega)
  have h3 : monthIndex 21244 = 24338 := by decide
  have h4 : monthIndex 21609 = 24350 := by decide
  have hindex : monthIndex (u.getDayNumber 0) =
      12 * yearFromDay (u.getDayNumber 0) + u.getMonth 0 := rfl
  have h5 : monthIndex (u.getDayNumber 0) = 24349 := by omega
  have h6 := (firstDay_monthIndex (u.getDayNumber 0)).2
  have h7 : u.getDate 0 = _ := dateFromDay_eq (u.getDayNumber 0)
  have h8 : firstDay 24349 = 21581 := by decide
  have h9 : firstDay (24349 + 1) = 21609 := by decide
  rw [h5] at h6 h7
  omega

/-- The report is created, no next run is found within 366 days, and the row stays due. -/
theorem leap_report_repeats :
    TableInv 0 [leapReport] ∧ isDue leapNow leapReport = true ∧
      ¬ RowProgresses 0 [leapReport] leapNow (fun _ => ⟨leapNow, leapNow, leapNow, leapNow⟩)
        leapReport := by
  have hdue : isDue leapNow leapReport = true := by decide
  refine ⟨leap_inv, hdue, fun h => ?_⟩
  have hnext := ((rowProgresses_iff leap_inv (fun _ => Int.le_refl _) List.mem_cons_self hdue).mp h).2
  rw [HasNext, resolve_stored (f := .custom) rfl] at hnext
  obtain ⟨cron, schedule, hcron, hparse, u, hafter, hreach, hu⟩ := hnext
  obtain rfl : "0 0 29 2 *" = cron := Option.some.inj hcron
  obtain rfl : leapSchedule = schedule := Except.ok.inj (parse_leap.symm.trans hparse)
  exact no_leap_day hafter hreach hu

def dailyReport : SavedReport Unit :=
  { leapReport with scheduleCron := some "0 0 * * *", scheduleFrequency := some "daily" }

theorem daily_inv : TableInv 0 [dailyReport] := by
  refine ⟨List.nodup_singleton _, fun r hr _ => ?_⟩
  rw [List.mem_singleton.mp hr]
  have hf : ScheduleFrequency.daily ≠ .custom := by decide
  exact ⟨"0 0 * * *", rfl, leapNow, _, by rw [resolve_stored (f := .daily) rfl, calculateNextRun_eq hf]⟩

theorem daily_report_progresses :
    isDue leapNow dailyReport = true ∧
      RowProgresses 0 [dailyReport] leapNow (fun _ => ⟨leapNow, leapNow, leapNow, leapNow⟩)
        dailyReport := by
  have hdue : isDue leapNow dailyReport = true := by decide
  refine ⟨hdue, (processed_iff 0 daily_inv fun _ => Int.le_refl _).mpr (fun r hr _ => ?_) _
    (List.mem_singleton.mpr rfl) hdue⟩
  rw [List.mem_singleton.mp hr, HasStart, HasNext, resolve_stored (f := .daily) rfl]
  exact ⟨by decide, by decide⟩

end Reports

end Analytics
end TradeCore
