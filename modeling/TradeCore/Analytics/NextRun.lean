import Mathlib.Order.Interval.Finset.Nat
import TradeCore.Analytics.CronSearch

/-!
# TradeCore.Analytics.NextRun

The next run of a schedule, computed from its frequency. `calculateNextRun` moves the date to the day
of the next run first and then clears the date and the time of day, so the day in between has to be
one a `Date` can hold, and in the month it was moved to.

* `nextRunDay` is the day the schedule of the frequency fires next (`nextRunDay_least`).
* `calculateNextRun_agrees_iff`: the run is the one that the cron expression of the frequency gives
  exactly when the day in between is there (`StaysInMonth`) and in the range of a `Date`.
-/

namespace TradeCore
namespace Analytics

open Lib Instant

inductive ScheduleFrequency where
  | daily
  | weekly
  | monthly
  | quarterly
  | custom
  deriving DecidableEq

def getCronForFrequency (frequency : ScheduleFrequency) (cronExpression : Option String) :
    Except String String :=
  match frequency with
  | .daily => .ok "0 0 * * *"
  | .weekly => .ok "0 0 * * 0"
  | .monthly => .ok "0 0 1 * *"
  | .quarterly => .ok "0 0 1 1,4,7,10 *"
  | .custom =>
    match cronExpression with
    | none => .error "CUSTOM frequency requires a cronExpression (e.g. \"30 2 * * *\")"
    | some expression =>
      if trim expression.toList = [] then
        .error "CUSTOM frequency requires a cronExpression (e.g. \"30 2 * * *\")"
      else do
        let _ ← parseCronExpression expression
        .ok (String.ofList (trim expression.toList))

section NextRun

variable (zone : Int)

/-- `next.setHours(0, 0, 0, 0)` on a date that may be invalid. -/
def clearTime (next : Option Instant) : Option Instant := next.bind fun d => d.setHours zone 0 0 0 0

/-- `next.setDate(1)` on a date that may be invalid. -/
def firstOfMonth (next : Option Instant) : Option Instant := next.bind fun d => d.setDate zone 1

/-- The run is a `Date`, which may be invalid. -/
def calculateNextRun (frequency : ScheduleFrequency) (cronExpression : Option String) (from_ : Instant) :
    Except String (Option Instant) :=
  match frequency with
  | .custom => do
    let next ← calculateNextRunFromCron zone (cronExpression.getD "") from_
    .ok (some next)
  | .daily => .ok (clearTime zone (from_.setDate zone (from_.getDate zone + 1)))
  | .weekly =>
    let advance := 7 - from_.getDay zone
    .ok (clearTime zone (from_.setDate zone
      (from_.getDate zone + if advance = 7 then 7 else if advance = 0 then 7 else advance)))
  | .monthly => .ok (clearTime zone (firstOfMonth zone (from_.setMonth zone (from_.getMonth zone + 1))))
  | .quarterly =>
    let currentQuarter : Int := from_.getMonth zone / 3
    let nextQuarterMonth := (currentQuarter + 1) * 3
    .ok (clearTime zone (firstOfMonth zone (from_.setMonth zone nextQuarterMonth)))

/-! ## The day of the next run -/

def targetMonth (frequency : ScheduleFrequency) (d : Int) : Int :=
  match frequency with
  | .monthly => monthIndex d + 1
  | .quarterly => 3 * (monthIndex d / 3) + 3
  | _ => monthIndex d

def nextRunDay (frequency : ScheduleFrequency) (d : Int) : Int :=
  match frequency with
  | .daily => d + 1
  | .weekly => d + (7 - weekDay d)
  | _ => firstDay (targetMonth frequency d)

/-- The days on which the schedule of the frequency fires. -/
def RunsOn (frequency : ScheduleFrequency) (d : Int) : Prop :=
  match frequency with
  | .daily | .custom => True
  | .weekly => weekDay d = 0
  | .monthly => dateFromDay d = 1
  | .quarterly => dateFromDay d = 1 ∧ monthIndex d % 3 = 0

variable {zone}

theorem dateFromDay_eq_one {d : Int} : dateFromDay d = 1 ↔ d = firstDay (monthIndex d) := by
  rw [dateFromDay_eq]
  omega

theorem monthIndex_firstDay (M : Int) : monthIndex (firstDay M) = M := by
  have := monthLength_bounds M
  unfold monthLength at this
  exact monthIndex_eq_iff.mpr ⟨Int.le_refl _, by omega⟩

theorem dateFromDay_firstDay (M : Int) : dateFromDay (firstDay M) = 1 := by
  rw [dateFromDay_eq_one, monthIndex_firstDay]

/-- A later month begins after the day. -/
theorem lt_firstDay {d M : Int} (h : monthIndex d < M) : d < firstDay M := by
  have := (firstDay_monthIndex d).2
  have := firstDay_mono (show monthIndex d + 1 ≤ M by omega)
  omega

theorem monthIndex_between {d e M : Int} (hde : d < e) (he : e < firstDay M) (h1 : dateFromDay e = 1) :
    monthIndex d < monthIndex e ∧ monthIndex e < M := by
  have hfirst := dateFromDay_eq_one.mp h1
  constructor
  · by_contra hle
    have heq : monthIndex e = monthIndex d :=
      Int.le_antisymm (Int.not_lt.mp hle) (monthIndex_mono (Int.le_of_lt hde))
    have := (firstDay_monthIndex d).1
    rw [heq] at hfirst
    omega
  · by_contra hle
    have := firstDay_mono (Int.not_lt.mp hle)
    omega

theorem nextRunDay_least {frequency : ScheduleFrequency} (hf : frequency ≠ .custom) (d : Int) :
    d < nextRunDay frequency d ∧ nextRunDay frequency d ≤ d + 93 ∧
      RunsOn frequency (nextRunDay frequency d) ∧
      ∀ e, d < e → e < nextRunDay frequency d → ¬ RunsOn frequency e := by
  have hmonth := firstDay_monthIndex d
  cases frequency with
  | custom => exact absurd rfl hf
  | daily =>
    refine ⟨?_, ?_, trivial, fun e h1 h2 => ?_⟩ <;> simp only [nextRunDay] at * <;> omega
  | weekly =>
    have hw : 0 ≤ weekDay d ∧ weekDay d ≤ 6 := by
      unfold weekDay
      omega
    refine ⟨?_, ?_, ?_, fun e h1 h2 he => ?_⟩ <;> simp only [nextRunDay, RunsOn, weekDay] at * <;> omega
  | monthly =>
    have hlen := monthLength_bounds (monthIndex d)
    unfold monthLength at hlen
    refine ⟨lt_firstDay (by simp only [targetMonth]; omega), ?_, dateFromDay_firstDay _,
      fun e h1 h2 he => ?_⟩
    · simp only [nextRunDay, targetMonth]
      omega
    · have := monthIndex_between h1 h2 he
      simp only [targetMonth] at this
      omega
  | quarterly =>
    have h0 := monthLength_bounds (monthIndex d)
    have h1 := monthLength_bounds (monthIndex d + 1)
    have h2 := monthLength_bounds (monthIndex d + 1 + 1)
    unfold monthLength at h0 h1 h2
    have hmono := firstDay_mono (show 3 * (monthIndex d / 3) + 3 ≤ monthIndex d + 1 + 1 + 1 by omega)
    refine ⟨lt_firstDay (by simp only [targetMonth]; omega), ?_, ⟨dateFromDay_firstDay _, ?_⟩,
      fun e h1 h2 he => ?_⟩
    · simp only [nextRunDay, targetMonth]
      omega
    · simp only [nextRunDay, targetMonth, monthIndex_firstDay]
      omega
    · have := monthIndex_between h1 h2 he.1
      simp only [targetMonth] at this
      have := he.2
      omega

/-! ## The cron expression of a frequency -/

/-- What the expression of the frequency is parsed to. -/
def scheduleOf : ScheduleFrequency → CronSchedule
  | .weekly => ⟨{0}, {0}, .Icc 1 31, .Icc 1 12, {0}, false, true, "0 0 * * 0"⟩
  | .monthly => ⟨{0}, {0}, {1}, .Icc 1 12, .range 7, true, false, "0 0 1 * *"⟩
  | .quarterly => ⟨{0}, {0}, {1}, {1, 4, 7, 10}, .range 7, true, false, "0 0 1 1,4,7,10 *"⟩
  | _ => ⟨{0}, {0}, .Icc 1 31, .Icc 1 12, .range 7, false, false, "0 0 * * *"⟩

/-- Schedules with the same sets, flags and text, compared one by one. -/
def same (s t : CronSchedule) : Bool :=
  s.minute = t.minute && s.hour = t.hour && s.dayOfMonth = t.dayOfMonth && s.month = t.month &&
    s.dayOfWeek = t.dayOfWeek && s.dayOfMonthRestricted = t.dayOfMonthRestricted &&
    s.dayOfWeekRestricted = t.dayOfWeekRestricted && s.expression = t.expression

theorem parse_of_same {cron : String} {s : CronSchedule}
    (h : (parseCronExpression cron).toOption.any (same s) = true) : parseCronExpression cron = .ok s := by
  cases hparse : parseCronExpression cron with
  | error e =>
    rw [hparse] at h
    cases h
  | ok t =>
    rw [hparse] at h
    simp only [Except.toOption, Option.any_some, same, Bool.and_eq_true, decide_eq_true_eq] at h
    obtain ⟨⟨⟨⟨⟨⟨⟨h1, h2⟩, h3⟩, h4⟩, h5⟩, h6⟩, h7⟩, h8⟩ := h
    congr 1
    cases s
    cases t
    subst h1 h2 h3 h4 h5 h6 h7 h8
    rfl

theorem parse_cron {frequency : ScheduleFrequency} (hf : frequency ≠ .custom) {c : Option String}
    {cron : String} (hcron : getCronForFrequency frequency c = .ok cron) :
    parseCronExpression cron = .ok (scheduleOf frequency) := by
  cases frequency with
  | custom => exact absurd rfl hf
  | daily | weekly | monthly | quarterly =>
    cases hcron
    exact parse_of_same (by decide +kernel)

theorem fires_iff {frequency : ScheduleFrequency} (hf : frequency ≠ .custom) {u : Instant}
    (hwhole : 60000 ∣ u.time) : Fires zone (scheduleOf frequency) u ↔
      u.timeWithinDay zone = 0 ∧ RunsOn frequency (u.getDayNumber zone) := by
  have hmonth : u.getMonth zone ≤ 11 := monthFromDay_le _
  have hindex : monthIndex (u.getDayNumber zone) =
      12 * yearFromDay (u.getDayNumber zone) + u.getMonth zone := rfl
  have hhours : 0 ≤ u.getHours zone := by
    unfold getHours
    omega
  have hminutes : 0 ≤ u.getMinutes zone := by
    unfold getMinutes
    omega
  have hday : 0 ≤ u.getDay zone := by
    unfold getDay weekDay
    omega
  have hzero : ∀ {n : Int}, 0 ≤ n → (n.toNat ∈ ({0} : Finset Nat) ↔ n = 0) := by
    intro n hn
    rw [Finset.mem_singleton]
    omega
  rw [midnight_iff hwhole]
  cases frequency with
  | custom => exact absurd rfl hf
  | daily =>
    constructor
    · intro h
      exact ⟨⟨(hzero hhours).mp h.hour, (hzero hminutes).mp h.minute⟩, trivial⟩
    · rintro ⟨⟨hh, hm⟩, -⟩
      exact ⟨(hzero hminutes).mpr hm, (hzero hhours).mpr hh, Finset.mem_Icc.mpr (by omega),
        nofun, nofun, nofun⟩
  | weekly =>
    constructor
    · intro h
      exact ⟨⟨(hzero hhours).mp h.hour, (hzero hminutes).mp h.minute⟩,
        (hzero hday).mp (h.dayOfWeek rfl nofun)⟩
    · rintro ⟨⟨hh, hm⟩, hw⟩
      exact ⟨(hzero hminutes).mpr hm, (hzero hhours).mpr hh, Finset.mem_Icc.mpr (by omega),
        nofun, nofun, fun _ _ => (hzero hday).mpr hw⟩
  | monthly =>
    constructor
    · intro h
      have hdate := Finset.mem_singleton.mp (h.dayOfMonth rfl nofun)
      refine ⟨⟨(hzero hhours).mp h.hour, (hzero hminutes).mp h.minute⟩, ?_⟩
      simp only [RunsOn]
      unfold getDate at hdate
      omega
    · rintro ⟨⟨hh, hm⟩, hdate⟩
      simp only [RunsOn] at hdate
      exact ⟨(hzero hminutes).mpr hm, (hzero hhours).mpr hh, Finset.mem_Icc.mpr (by omega),
        nofun, fun _ _ => Finset.mem_singleton.mpr (by unfold getDate; omega), nofun⟩
  | quarterly =>
    have hquarter : u.getMonth zone + 1 ∈ ({1, 4, 7, 10} : Finset Nat) ↔
        monthIndex (u.getDayNumber zone) % 3 = 0 := by
      simp only [Finset.mem_insert, Finset.mem_singleton]
      omega
    constructor
    · intro h
      have hdate := Finset.mem_singleton.mp (h.dayOfMonth rfl nofun)
      refine ⟨⟨(hzero hhours).mp h.hour, (hzero hminutes).mp h.minute⟩, ?_, hquarter.mp h.month⟩
      unfold getDate at hdate
      omega
    · rintro ⟨⟨hh, hm⟩, hdate, hmonth3⟩
      exact ⟨(hzero hminutes).mpr hm, (hzero hhours).mpr hh, hquarter.mpr hmonth3,
        nofun, fun _ _ => Finset.mem_singleton.mpr (by unfold getDate; omega), nofun⟩

/-- The search finds midnight of the day on which the frequency runs next. -/
theorem cron_ok_iff {frequency : ScheduleFrequency} (hf : frequency ≠ .custom) {c : Option String}
    {cron : String} (hcron : getCronForFrequency frequency c = .ok cron) {from_ u : Instant} :
    calculateNextRunFromCron zone cron from_ = .ok u ↔
      u.localTime zone = nextRunDay frequency (from_.getDayNumber zone) * 86400000 := by
  obtain ⟨hlt, hle, hruns, hleast⟩ := nextRunDay_least hf (from_.getDayNumber zone)
  have hfrom : from_.localTime zone = _ := from_.localTime_eq
  have hin : 0 ≤ from_.timeWithinDay zone ∧ _ := from_.timeWithinDay_bounds
  -- a time after `from` at which the frequency runs is midnight of the next run's day or a later one
  have hlater : ∀ v, MinuteAfter from_ v → Fires zone (scheduleOf frequency) v →
      v.localTime zone = v.getDayNumber zone * 86400000 ∧
        nextRunDay frequency (from_.getDayNumber zone) ≤ v.getDayNumber zone := by
    intro v hv hfires
    obtain ⟨hmid, hday⟩ := (fires_iff hf hv.whole).mp hfires
    have hlocal : v.localTime zone = _ := v.localTime_eq
    rw [hmid, Int.add_zero] at hlocal
    have hafter := hv.after
    have hgt : from_.getDayNumber zone < v.getDayNumber zone := by
      unfold localTime at hlocal hfrom
      omega
    exact ⟨hlocal, Int.not_lt.mp fun h => hleast _ hgt h hday⟩
  have htarget : ∀ w : Instant,
      w.localTime zone = nextRunDay frequency (from_.getDayNumber zone) * 86400000 →
      MinuteAfter from_ w ∧ Fires zone (scheduleOf frequency) w := by
    intro w hw
    have hafter : MinuteAfter from_ w := by
      unfold localTime at hw hfrom
      exact ⟨⟨nextRunDay frequency (from_.getDayNumber zone) * 1440 - zone, by omega⟩, by omega⟩
    obtain ⟨hday, hmid⟩ := getDayNumber_of_local (r := 0) (by rw [hw, Int.add_zero]) (by omega) (by omega)
    exact ⟨hafter, (fires_iff hf hafter.whole).mpr ⟨hmid, by rw [hday]; exact hruns⟩⟩
  rw [calculateNextRunFromCron_ok (parse_cron hf hcron)]
  constructor
  · rintro ⟨hu, hafter, -, hmin⟩
    obtain ⟨hlocal, hge⟩ := hlater u hafter hu
    have huvalid := u.valid
    have hfvalid := from_.valid
    obtain ⟨w, hw⟩ : ∃ w : Instant,
        w.localTime zone = nextRunDay frequency (from_.getDayNumber zone) * 86400000 := by
      unfold localTime at hlocal hfrom ⊢
      exact ⟨⟨nextRunDay frequency (from_.getDayNumber zone) * 86400000 - zone * 60000, by omega⟩, by
        simp⟩
    obtain ⟨hwafter, hwfires⟩ := htarget w hw
    have := hmin w hwafter hwfires
    unfold localTime at hlocal hw ⊢
    omega
  · intro hu
    obtain ⟨hafter, hfires⟩ := htarget u hu
    refine ⟨hfires, hafter, ?_, fun v hv hvf => ?_⟩
    · unfold InReach
      unfold localTime at hu hfrom
      omega
    · obtain ⟨hlocal, hge⟩ := hlater v hv hvf
      unfold localTime at hu hlocal
      omega

/-! ## The day in between -/

/-- The days the date is moved by before it is cleared. -/
def shiftDays (frequency : ScheduleFrequency) (d : Int) : Int :=
  match frequency with
  | .daily => 1
  | .weekly => 7 - weekDay d
  | _ => firstDay (targetMonth frequency d) - firstDay (monthIndex d)

/-- The date the day has is one of the month it is moved to. -/
def StaysInMonth (frequency : ScheduleFrequency) (d : Int) : Prop :=
  match frequency with
  | .monthly | .quarterly => dateFromDay d ≤ monthLength (targetMonth frequency d)
  | _ => True

def landingDay (frequency : ScheduleFrequency) (d : Int) : Int :=
  match frequency with
  | .monthly | .quarterly => firstDay (monthIndex (d + shiftDays frequency d))
  | _ => d + shiftDays frequency d

theorem landingDay_bounds {frequency : ScheduleFrequency} (hf : frequency ≠ .custom) (d : Int) :
    d < landingDay frequency d ∧ landingDay frequency d ≤ d + shiftDays frequency d := by
  have hmonth : ∀ M, monthIndex d < M → d < firstDay (monthIndex (d + (firstDay M - firstDay (monthIndex d)))) ∧
      firstDay (monthIndex (d + (firstDay M - firstDay (monthIndex d)))) ≤
        d + (firstDay M - firstDay (monthIndex d)) := by
    intro M hM
    have h1 := firstDay_monthIndex d
    have h2 := firstDay_monthIndex (d + (firstDay M - firstDay (monthIndex d)))
    refine ⟨lt_firstDay ?_, h2.1⟩
    have hmono := monthIndex_mono (show firstDay M ≤ d + (firstDay M - firstDay (monthIndex d)) by omega)
    rw [monthIndex_firstDay] at hmono
    omega
  cases frequency with
  | custom => exact absurd rfl hf
  | daily => exact ⟨Int.lt_succ d, Int.le_refl _⟩
  | weekly =>
    have : 0 ≤ weekDay d ∧ weekDay d ≤ 6 := by
      unfold weekDay
      omega
    simp only [landingDay, shiftDays]
    omega
  | monthly => exact hmonth (monthIndex d + 1) (by omega)
  | quarterly => exact hmonth (3 * (monthIndex d / 3) + 3) (by omega)

theorem landingDay_eq_iff {frequency : ScheduleFrequency} (hf : frequency ≠ .custom) (d : Int) :
    landingDay frequency d = nextRunDay frequency d ↔ StaysInMonth frequency d := by
  have hmonth : ∀ M, firstDay (monthIndex (d + (firstDay M - firstDay (monthIndex d)))) = firstDay M ↔
      dateFromDay d ≤ monthLength M := by
    intro M
    have h1 := firstDay_monthIndex d
    have hdate := dateFromDay_eq d
    unfold monthLength
    constructor
    · intro h
      have h2 := (firstDay_monthIndex (d + (firstDay M - firstDay (monthIndex d)))).2
      have hindex := congrArg monthIndex h
      rw [monthIndex_firstDay, monthIndex_firstDay] at hindex
      rw [hindex] at h2
      omega
    · intro h
      have hindex : monthIndex (d + (firstDay M - firstDay (monthIndex d))) = M :=
        monthIndex_eq_iff.mpr ⟨by omega, by omega⟩
      rw [hindex]
  cases frequency with
  | custom => exact absurd rfl hf
  | daily => exact ⟨fun _ => trivial, fun _ => rfl⟩
  | weekly => exact ⟨fun _ => trivial, fun _ => rfl⟩
  | monthly => exact hmonth (monthIndex d + 1)
  | quarterly => exact hmonth (3 * (monthIndex d / 3) + 3)

/-- The time the date has in between: `from` on another day. -/
def inBetween (zone : Int) (frequency : ScheduleFrequency) (from_ : Instant) : Option Instant :=
  timeClip (from_.time + shiftDays frequency (from_.getDayNumber zone) * 86400000)

theorem ofLocal_shift {from_ : Instant} {n : Int} :
    ofLocal zone ((from_.getDayNumber zone + n) * 86400000 + from_.timeWithinDay zone) =
      timeClip (from_.time + n * 86400000) := by
  have hlocal : from_.localTime zone = _ := from_.localTime_eq
  unfold ofLocal
  unfold localTime at hlocal
  congr 1
  omega

/-- The shift of a month, as the setter computes it. -/
theorem setMonth_shift {from_ : Instant} {month M : Int}
    (hM : 12 * from_.getFullYear zone + month = M) :
    from_.setMonth zone month = timeClip
      (from_.time + (firstDay M - firstDay (monthIndex (from_.getDayNumber zone))) * 86400000) := by
  rw [setMonth_eq, hM, ← ofLocal_shift]
  unfold getDate
  rw [dateFromDay_eq]
  congr 2
  omega

theorem calculateNextRun_eq {frequency : ScheduleFrequency} (hf : frequency ≠ .custom)
    (c : Option String) (from_ : Instant) :
    calculateNextRun zone frequency c from_ = .ok (match frequency with
      | .monthly | .quarterly => clearTime zone (firstOfMonth zone (inBetween zone frequency from_))
      | _ => clearTime zone (inBetween zone frequency from_)) := by
  have hdate : from_.getDate zone =
      from_.getDayNumber zone - firstDay (monthIndex (from_.getDayNumber zone)) + 1 := dateFromDay_eq _
  have hindex : monthIndex (from_.getDayNumber zone) =
      12 * from_.getFullYear zone + from_.getMonth zone := rfl
  have hmonth : from_.getMonth zone ≤ 11 := monthFromDay_le _
  have hset : ∀ n, from_.setDate zone (from_.getDate zone + n) =
      timeClip (from_.time + n * 86400000) := by
    intro n
    rw [setDate_eq, hdate, ← ofLocal_shift]
    congr 2
    omega
  cases frequency with
  | custom => exact absurd rfl hf
  | daily => simp only [calculateNextRun, hset, inBetween, shiftDays]
  | weekly =>
    have hday : 0 ≤ from_.getDay zone ∧ from_.getDay zone ≤ 6 := by
      unfold getDay weekDay
      omega
    have hadvance : (if 7 - from_.getDay zone = 7 then 7
        else if 7 - from_.getDay zone = 0 then 7 else 7 - from_.getDay zone) = 7 - from_.getDay zone := by
      split
      · omega
      · rw [if_neg (by omega)]
    simp only [calculateNextRun, hadvance, hset, inBetween, shiftDays]
    rfl
  | monthly =>
    have hshift := @setMonth_shift zone from_ (from_.getMonth zone + 1) _ rfl
    simp only [calculateNextRun, inBetween, shiftDays, targetMonth, hshift, hindex, Int.add_assoc]
  | quarterly =>
    have hquarter : 12 * from_.getFullYear zone + ((from_.getMonth zone : Int) / 3 + 1) * 3 =
        3 * (monthIndex (from_.getDayNumber zone) / 3) + 3 := by
      rw [hindex]
      omega
    have hshift := setMonth_shift hquarter
    simp only [calculateNextRun, inBetween, shiftDays, targetMonth, hshift]

/-- With a date in between, the run is midnight of the landing day. -/
theorem calculateNextRun_some {frequency : ScheduleFrequency} (hf : frequency ≠ .custom)
    {c : Option String} {from_ m : Instant} (hm : inBetween zone frequency from_ = some m) :
    ∃ w : Instant, calculateNextRun zone frequency c from_ = .ok (some w) ∧
      w.localTime zone = landingDay frequency (from_.getDayNumber zone) * 86400000 := by
  obtain ⟨hgt, hle⟩ := landingDay_bounds hf (from_.getDayNumber zone)
  have htime := timeClip_eq_some.mp hm
  have hfrom : from_.localTime zone = _ := from_.localTime_eq
  have hin : 0 ≤ from_.timeWithinDay zone ∧ _ := from_.timeWithinDay_bounds
  have hmlocal : m.localTime zone = (from_.getDayNumber zone +
      shiftDays frequency (from_.getDayNumber zone)) * 86400000 + from_.timeWithinDay zone := by
    unfold localTime at hfrom ⊢
    omega
  obtain ⟨hmday, hmin⟩ := getDayNumber_of_local hmlocal hin.1 hin.2
  have hmvalid := m.valid
  have hfvalid := from_.valid
  -- a day after that of `from` and up to the one in between can be set, with any time of day up to its
  have hset : ∀ r, 0 ≤ r → r ≤ from_.timeWithinDay zone →
      ∃ w : Instant, ofLocal zone (landingDay frequency (from_.getDayNumber zone) * 86400000 + r) = some w ∧
        w.localTime zone = landingDay frequency (from_.getDayNumber zone) * 86400000 + r := by
    intro r h0 hr
    unfold localTime at hfrom hmlocal
    refine ⟨⟨landingDay frequency (from_.getDayNumber zone) * 86400000 + r - zone * 60000, by omega⟩,
      ?_, ?_⟩
    · exact timeClip_eq_some.mpr rfl
    · unfold localTime
      simp
  have hclear : ∀ d : Instant, d.getDayNumber zone = landingDay frequency (from_.getDayNumber zone) →
      ∃ w : Instant, clearTime zone (some d) = some w ∧
        w.localTime zone = landingDay frequency (from_.getDayNumber zone) * 86400000 := by
    intro d hd
    obtain ⟨w, hw, hlocal⟩ := hset 0 (Int.le_refl 0) hin.1
    rw [Int.add_zero] at hw hlocal
    refine ⟨w, ?_, hlocal⟩
    rw [clearTime, Option.bind_some, setHours_zero, hd, hw]
  have hfirst : landingDay frequency (from_.getDayNumber zone) =
        firstDay (monthIndex (m.getDayNumber zone)) →
      ∃ w : Instant, clearTime zone (firstOfMonth zone (some m)) = some w ∧
        w.localTime zone = landingDay frequency (from_.getDayNumber zone) * 86400000 := by
    intro hlanding
    obtain ⟨d, hd, hlocal⟩ := hset _ hin.1 (Int.le_refl _)
    obtain ⟨hdday, -⟩ := getDayNumber_of_local hlocal hin.1 hin.2
    have hone : firstOfMonth zone (some m) = some d := by
      rw [firstOfMonth, Option.bind_some, setDate_eq, hmin, ← hd, hlanding]
      congr 2
      omega
    rw [hone]
    exact hclear d hdday
  rw [calculateNextRun_eq hf, hm]
  cases frequency with
  | custom => exact absurd rfl hf
  | daily | weekly =>
    obtain ⟨w, hw, hlocal⟩ := hclear m hmday
    exact ⟨w, congrArg Except.ok hw, hlocal⟩
  | monthly | quarterly =>
    obtain ⟨w, hw, hlocal⟩ := hfirst (by rw [hmday]; rfl)
    exact ⟨w, congrArg Except.ok hw, hlocal⟩

theorem calculateNextRun_none {frequency : ScheduleFrequency} (hf : frequency ≠ .custom)
    {c : Option String} {from_ : Instant} (hm : inBetween zone frequency from_ = none) :
    calculateNextRun zone frequency c from_ = .ok none := by
  rw [calculateNextRun_eq hf, hm]
  cases frequency <;> rfl

theorem calculateNextRun_agrees_iff (zone : Int) {frequency : ScheduleFrequency}
    (hf : frequency ≠ .custom) {c : Option String} {cron : String}
    (hcron : getCronForFrequency frequency c = .ok cron) (from_ : Instant) :
    calculateNextRun zone frequency c from_ =
        (calculateNextRunFromCron zone cron from_).map some ↔
      StaysInMonth frequency (from_.getDayNumber zone) ∧
        from_.time + shiftDays frequency (from_.getDayNumber zone) * 86400000 ≤ maxTime := by
  have hgt := landingDay_bounds hf (from_.getDayNumber zone)
  have hvalid := from_.valid
  cases hm : inBetween zone frequency from_ with
  | none =>
    rw [calculateNextRun_none hf hm]
    have hbeyond : ¬ from_.time + shiftDays frequency (from_.getDayNumber zone) * 86400000 ≤ maxTime := by
      have hnone := timeClip_eq_none.mp hm
      omega
    refine ⟨fun h => ?_, fun h => absurd h.2 hbeyond⟩
    cases hc : calculateNextRunFromCron zone cron from_ <;> rw [hc] at h <;> cases h
  | some m =>
    obtain ⟨w, hw, hlocal⟩ := @calculateNextRun_some zone frequency hf c from_ m hm
    have hwithin : from_.time + shiftDays frequency (from_.getDayNumber zone) * 86400000 ≤ maxTime := by
      have := m.valid
      rw [← timeClip_eq_some.mp hm]
      exact this.2
    rw [hw, ← landingDay_eq_iff hf]
    constructor
    · intro h
      cases hc : calculateNextRunFromCron zone cron from_ with
      | error e =>
        rw [hc] at h
        cases h
      | ok u =>
        rw [hc] at h
        cases h
        have hu := (cron_ok_iff hf hcron).mp hc
        exact ⟨by omega, hwithin⟩
    · rintro ⟨heq, -⟩
      rw [(cron_ok_iff hf hcron).mpr (by rw [hlocal, heq])]
      rfl

/-- From noon on 31 January 2024 the run is on 1 March, and the cron expression fires on 1 February. -/
theorem february_skipped :
    getCronForFrequency .monthly none = .ok "0 0 1 * *" ∧
      calculateNextRun 0 .monthly none ⟨1706702400000, by decide⟩ =
        .ok (some ⟨1709251200000, by decide⟩) ∧
      calculateNextRunFromCron 0 "0 0 1 * *" ⟨1706702400000, by decide⟩ =
        .ok ⟨1706745600000, by decide⟩ ∧
      calculateNextRun 0 .monthly none ⟨1706702400000, by decide⟩ ≠
        (calculateNextRunFromCron 0 "0 0 1 * *" ⟨1706702400000, by decide⟩).map some := by
  have hf : ScheduleFrequency.monthly ≠ .custom := by decide
  have hrun : calculateNextRun 0 .monthly none ⟨1706702400000, by decide⟩ =
      .ok (some ⟨1709251200000, by decide⟩) := rfl
  have hcron : calculateNextRunFromCron 0 "0 0 1 * *" ⟨1706702400000, by decide⟩ =
      .ok ⟨1706745600000, by decide⟩ := (cron_ok_iff hf (c := none) rfl).mpr rfl
  refine ⟨rfl, hrun, hcron, fun h => ?_⟩
  rw [hrun, hcron] at h
  simp only [Except.map, Except.ok.injEq, Option.some.injEq, Instant.mk.injEq] at h
  omega

/-- From the start of 1970 the run is on 1 February either way. -/
theorem calculateNextRun_agrees_epoch :
    calculateNextRun 0 .monthly none ⟨0, by decide⟩ =
      (calculateNextRunFromCron 0 "0 0 1 * *" ⟨0, by decide⟩).map some :=
  have hf : ScheduleFrequency.monthly ≠ .custom := by decide
  (calculateNextRun_agrees_iff 0 hf (c := none) rfl ⟨0, by decide⟩).mpr
    ⟨by unfold StaysInMonth; decide, by decide⟩

end NextRun

end Analytics
end TradeCore
