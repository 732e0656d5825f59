import TradeCore.Analytics.CronExpression
import TradeCore.Lib.DateTime

/-!
# TradeCore.Analytics.CronSearch

The next run of a cron expression: from the first whole minute after `from` on, `366 * 24 * 60`
minutes are tried one by one.

* `calculateNextRunFromCron_least`: the search returns the least whole minute after `from` at which
  the schedule fires, when there is one among these, and throws otherwise.
-/

namespace TradeCore
namespace Analytics

open Lib Instant

section Search

variable (zone : Int)

/-- A field of an invalid date is `NaN`, which is in no set. -/
def cronMatches (schedule : CronSchedule) : Option Instant → Bool
  | none => false
  | some date =>
    if (date.getMinutes zone).toNat ∉ schedule.minute then false
    else if (date.getHours zone).toNat ∉ schedule.hour then false
    else if date.getMonth zone + 1 ∉ schedule.month then false
    else
      let domMatches := decide ((date.getDate zone).toNat ∈ schedule.dayOfMonth)
      let dowMatches := decide ((date.getDay zone).toNat ∈ schedule.dayOfWeek)
      if schedule.dayOfMonthRestricted ∧ schedule.dayOfWeekRestricted then domMatches || dowMatches
      else if schedule.dayOfMonthRestricted then domMatches
      else if schedule.dayOfWeekRestricted then dowMatches
      else true

/-- `candidate.setMinutes(candidate.getMinutes() + 1)`. -/
def nextMinute (candidate : Option Instant) : Option Instant :=
  candidate.bind fun c => c.setMinutes zone (c.getMinutes zone + 1)

/-- The loop of the search, with the number of rounds left. -/
def searchMinutes (schedule : CronSchedule) : Nat → Option Instant → Option Instant
  | 0, _ => none
  | rounds + 1, candidate =>
    if cronMatches zone schedule candidate then candidate
    else searchMinutes schedule rounds (nextMinute zone candidate)

def searchRounds : Nat := 366 * 24 * 60

def calculateNextRunFromCron (expression : String) (from_ : Instant) : Except String Instant := do
  let schedule ← parseCronExpression expression
  match searchMinutes zone schedule searchRounds (nextMinute zone (from_.setSeconds zone 0 0)) with
  | some next => .ok next
  | none => .error ("No next run found for cron " ++ quoted expression.toList ++ " within 366 days")

/-- When a schedule fires: the two fields for the day are alternatives when both are restricted. -/
structure Fires (schedule : CronSchedule) (u : Instant) : Prop where
  minute : (u.getMinutes zone).toNat ∈ schedule.minute
  hour : (u.getHours zone).toNat ∈ schedule.hour
  month : u.getMonth zone + 1 ∈ schedule.month
  either : schedule.dayOfMonthRestricted → schedule.dayOfWeekRestricted →
    (u.getDate zone).toNat ∈ schedule.dayOfMonth ∨ (u.getDay zone).toNat ∈ schedule.dayOfWeek
  dayOfMonth : schedule.dayOfMonthRestricted → ¬ schedule.dayOfWeekRestricted →
    (u.getDate zone).toNat ∈ schedule.dayOfMonth
  dayOfWeek : schedule.dayOfWeekRestricted → ¬ schedule.dayOfMonthRestricted →
    (u.getDay zone).toNat ∈ schedule.dayOfWeek

/-- A whole minute after `from`. -/
structure MinuteAfter (from_ u : Instant) : Prop where
  whole : 60000 ∣ u.time
  after : from_.time < u.time

/-- It is one of the first `366 * 24 * 60` whole minutes. -/
def InReach (from_ u : Instant) : Prop := u.time ≤ (from_.time / 60000 + 366 * 24 * 60) * 60000

variable {zone} {schedule : CronSchedule}

theorem cronMatches_iff {u : Instant} : cronMatches zone schedule (some u) = true ↔ Fires zone schedule u := by
  simp only [cronMatches]
  constructor
  · intro h
    split at h
    · cases h
    rename_i h1
    split at h
    · cases h
    rename_i h2
    split at h
    · cases h
    rename_i h3
    refine ⟨not_not.mp h1, not_not.mp h2, not_not.mp h3, fun hm hw => ?_, fun hm hw => ?_, fun hw hm => ?_⟩
    · simpa [hm, hw] using h
    · simpa [hm, hw] using h
    · simpa [hm, hw] using h
  · rintro ⟨h1, h2, h3, h4, h5, h6⟩
    rw [if_neg (not_not.mpr h1), if_neg (not_not.mpr h2), if_neg (not_not.mpr h3)]
    cases hm : schedule.dayOfMonthRestricted <;> cases hw : schedule.dayOfWeekRestricted
    · simp
    · simpa using h6 hw (by simp [hm])
    · simpa using h5 hm (by simp [hw])
    · simpa using h4 hm hw

theorem nextMinute_timeClip {t : Int} (h : -maxTime ≤ t) :
    nextMinute zone (timeClip t) = timeClip (t + 60000) := by
  cases hc : timeClip t with
  | some u =>
    rw [nextMinute, Option.bind_some, setMinutes_succ, timeClip_eq_some.mp hc]
  | none =>
    -- past the last time of a `Date` the candidate stays invalid
    rw [timeClip_eq_none] at hc
    exact (timeClip_eq_none.mpr (by omega)).symm

theorem searchMinutes_iff {rounds : Nat} {t : Int} (h : -maxTime ≤ t) {u : Instant} :
    searchMinutes zone schedule rounds (timeClip t) = some u ↔
      Fires zone schedule u ∧ (∃ i < rounds, u.time = t + i * 60000) ∧
        ∀ v : Instant, v.time < u.time → (∃ i : Nat, v.time = t + i * 60000) → ¬ Fires zone schedule v := by
  induction rounds generalizing t with
  | zero => simp [searchMinutes]
  | succ rounds ih =>
    rw [searchMinutes, nextMinute_timeClip h]
    split
    · rename_i hmatch
      cases hc : timeClip t with
      | none =>
        rw [hc] at hmatch
        cases hmatch
      | some c =>
        rw [hc, cronMatches_iff] at hmatch
        have htime := timeClip_eq_some.mp hc
        constructor
        · rintro ⟨rfl⟩
          refine ⟨hmatch, ⟨0, Nat.succ_pos _, by omega⟩, ?_⟩
          rintro v hlt ⟨i, hi⟩
          omega
        · rintro ⟨hu, ⟨i, hi, hiu⟩, hleast⟩
          by_contra hne
          refine hleast c ?_ ⟨0, by omega⟩ hmatch
          have : c.time ≠ u.time := fun he => hne (congrArg some (ext_time he))
          omega
    · rename_i hno
      have hnot : ∀ v : Instant, v.time = t → ¬ Fires zone schedule v := by
        rintro v rfl hv
        rw [timeClip_time, cronMatches_iff] at hno
        exact hno hv
      rw [ih (by omega)]
      constructor
      · rintro ⟨hu, ⟨i, hi, hiu⟩, hleast⟩
        refine ⟨hu, ⟨i + 1, Nat.succ_lt_succ hi, by omega⟩, ?_⟩
        rintro v hlt ⟨j, hj⟩
        cases j with
        | zero => exact hnot v (by omega)
        | succ j => exact hleast v hlt ⟨j, by omega⟩
      · rintro ⟨hu, ⟨i, hi, hiu⟩, hleast⟩
        cases i with
        | zero => exact absurd hu (hnot u (by omega))
        | succ i =>
          refine ⟨hu, ⟨i, Nat.lt_of_succ_lt_succ hi, by omega⟩, ?_⟩
          rintro v hlt ⟨j, hj⟩
          exact hleast v hlt ⟨j + 1, by omega⟩

theorem first_candidate (from_ : Instant) :
    nextMinute zone (from_.setSeconds zone 0 0) = timeClip ((from_.time / 60000 + 1) * 60000) := by
  have hvalid := from_.valid
  unfold maxTime at hvalid
  rw [setSeconds_zero, nextMinute_timeClip (by unfold maxTime; omega)]
  congr 1
  omega

theorem minuteAfter_iff {from_ u : Instant} :
    MinuteAfter from_ u ↔ ∃ i : Nat, u.time = (from_.time / 60000 + 1) * 60000 + i * 60000 := by
  constructor
  · rintro ⟨⟨k, hk⟩, hlt⟩
    exact ⟨(k - (from_.time / 60000 + 1)).toNat, by omega⟩
  · rintro ⟨i, hi⟩
    exact ⟨⟨from_.time / 60000 + 1 + i, by omega⟩, by omega⟩

/-- The search on a schedule, by what it returns. -/
theorem search_iff {from_ u : Instant} :
    searchMinutes zone schedule searchRounds (nextMinute zone (from_.setSeconds zone 0 0)) = some u ↔
      Fires zone schedule u ∧ MinuteAfter from_ u ∧ InReach from_ u ∧
        ∀ v, MinuteAfter from_ v → Fires zone schedule v → u.time ≤ v.time := by
  have hvalid := from_.valid
  unfold maxTime at hvalid
  rw [first_candidate, searchMinutes_iff (by unfold maxTime; omega)]
  constructor
  · rintro ⟨hu, ⟨i, hi, hiu⟩, hleast⟩
    refine ⟨hu, minuteAfter_iff.mpr ⟨i, hiu⟩, ?_, fun v hv hfires => ?_⟩
    · unfold InReach
      unfold searchRounds at hi
      omega
    · by_contra hlt
      exact hleast v (by omega) (minuteAfter_iff.mp hv) hfires
  · rintro ⟨hu, hafter, hreach, hleast⟩
    obtain ⟨i, hi⟩ := minuteAfter_iff.mp hafter
    refine ⟨hu, ⟨i, ?_, hi⟩, fun v hlt hv hfires => ?_⟩
    · unfold InReach at hreach
      unfold searchRounds
      omega
    · have := hleast v (minuteAfter_iff.mpr hv) hfires
      omega

/-- A schedule that fires after `from` has a first time. -/
theorem exists_least {from_ u : Instant} (hafter : MinuteAfter from_ u) (hu : Fires zone schedule u) :
    ∃ w, w.time ≤ u.time ∧ Fires zone schedule w ∧ MinuteAfter from_ w ∧
      ∀ v, MinuteAfter from_ v → Fires zone schedule v → w.time ≤ v.time := by
  classical
  have hex : ∃ i : Nat, ∃ v : Instant, v.time = (from_.time / 60000 + 1) * 60000 + i * 60000 ∧
      Fires zone schedule v := by
    obtain ⟨i, hi⟩ := minuteAfter_iff.mp hafter
    exact ⟨i, u, hi, hu⟩
  obtain ⟨w, hw, hfires⟩ := Nat.find_spec hex
  have hleast : ∀ v, MinuteAfter from_ v → Fires zone schedule v → w.time ≤ v.time := by
    intro v hv hvf
    obtain ⟨j, hj⟩ := minuteAfter_iff.mp hv
    have := Nat.find_min' hex ⟨v, hj, hvf⟩
    omega
  exact ⟨w, hleast u hafter hu, hfires, minuteAfter_iff.mpr ⟨_, hw⟩, hleast⟩

theorem search_none_iff {from_ : Instant} :
    searchMinutes zone schedule searchRounds (nextMinute zone (from_.setSeconds zone 0 0)) = none ↔
      ¬ ∃ u, MinuteAfter from_ u ∧ InReach from_ u ∧ Fires zone schedule u := by
  constructor
  · rintro hnone ⟨u, hafter, hreach, hu⟩
    obtain ⟨w, hle, hw, hwafter, hleast⟩ := exists_least hafter hu
    have hwreach : InReach from_ w := Int.le_trans hle hreach
    rw [search_iff.mpr ⟨hw, hwafter, hwreach, hleast⟩] at hnone
    cases hnone
  · intro hno
    cases hs : searchMinutes zone schedule searchRounds (nextMinute zone (from_.setSeconds zone 0 0)) with
    | none => rfl
    | some u =>
      obtain ⟨hu, hafter, hreach, -⟩ := search_iff.mp hs
      exact absurd ⟨u, hafter, hreach, hu⟩ hno

theorem calculateNextRunFromCron_ok {expression : String}
    (hparse : parseCronExpression expression = .ok schedule) {from_ u : Instant} :
    calculateNextRunFromCron zone expression from_ = .ok u ↔
      Fires zone schedule u ∧ MinuteAfter from_ u ∧ InReach from_ u ∧
        ∀ v, MinuteAfter from_ v → Fires zone schedule v → u.time ≤ v.time := by
  rw [← search_iff, calculateNextRunFromCron, hparse, bind_eq_ok]
  constructor
  · rintro ⟨_, ⟨rfl⟩, h⟩
    split at h
    · rename_i next hs
      cases h
      exact hs
    · cases h
  · intro hs
    refine ⟨schedule, rfl, ?_⟩
    rw [hs]

theorem calculateNextRunFromCron_error {expression : String}
    (hparse : parseCronExpression expression = .ok schedule) {from_ : Instant} :
    (∃ message, calculateNextRunFromCron zone expression from_ = .error message) ↔
      ¬ ∃ u, MinuteAfter from_ u ∧ InReach from_ u ∧ Fires zone schedule u := by
  rw [← search_none_iff]
  cases hs : searchMinutes zone schedule searchRounds (nextMinute zone (from_.setSeconds zone 0 0)) with
  | none =>
    refine ⟨fun _ => rfl, fun _ =>
      ⟨"No next run found for cron " ++ quoted expression.toList ++ " within 366 days", ?_⟩⟩
    rw [calculateNextRunFromCron, hparse]
    simp only [bind, Except.bind, hs]
  | some u =>
    have hok := (calculateNextRunFromCron_ok hparse).mpr (search_iff.mp hs)
    rw [hok]
    constructor
    · rintro ⟨_, h⟩
      cases h
    · intro h
      cases h

theorem calculateNextRunFromCron_least (zone : Int) {expression : String} {schedule : CronSchedule}
    (hparse : parseCronExpression expression = .ok schedule) (from_ : Instant) :
    (∀ u, calculateNextRunFromCron zone expression from_ = .ok u ↔
        Fires zone schedule u ∧ MinuteAfter from_ u ∧ InReach from_ u ∧
          ∀ v, MinuteAfter from_ v → Fires zone schedule v → u.time ≤ v.time) ∧
      ((∃ message, calculateNextRunFromCron zone expression from_ = .error message) ↔
        ¬ ∃ u, MinuteAfter from_ u ∧ InReach from_ u ∧ Fires zone schedule u) :=
  ⟨fun _ => calculateNextRunFromCron_ok hparse, calculateNextRunFromCron_error hparse⟩

/-- Midnight of a first of January or of a Sunday in January, from a minute before the new year, five and
a half hours east of UTC. -/
theorem calculateNextRunFromCron_new_year :
    calculateNextRunFromCron 330 "0 0 1 1 0" ⟨-19860000, by decide⟩ = .ok ⟨-19800000, by decide⟩ := by
  have hparse : parseCronExpression "0 0 1 1 0" =
      .ok ⟨{0}, {0}, {1}, {1}, {0}, true, true, "0 0 1 1 0"⟩ := by decide +kernel
  refine ((calculateNextRunFromCron_least 330 hparse _).1 _).mpr
    ⟨?_, ⟨by decide, by decide⟩, by unfold InReach; decide, ?_⟩
  · exact ⟨by decide, by decide, by decide, fun _ _ => .inl (by decide), nofun, nofun⟩
  · rintro v ⟨⟨k, hk⟩, hlt⟩ -
    simp only at hlt ⊢
    omega

end Search

end Analytics
end TradeCore
