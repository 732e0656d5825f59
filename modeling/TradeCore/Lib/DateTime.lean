import Mathlib.Order.Basic
import TradeCore.Lib.Calendar

/-!
# TradeCore.Lib.DateTime

`Date` in a time zone without offset changes. An `Instant` is a time value a `Date` can hold, in
milliseconds, and `none` stands for an invalid `Date`. The zone is its offset from UTC in minutes.

The getters read the fields of the local time. A setter computes a local time from its argument and
the other fields and clips it to the times a `Date` can hold; fields beyond their ranges carry over.
`toISOString` is the text of an instant in UTC.
-/

namespace Lib

def maxTime : Int := 8640000000000000

structure Instant where
  time : Int
  valid : -maxTime ≤ time ∧ time ≤ maxTime
  deriving DecidableEq

def timeClip (t : Int) : Option Instant :=
  if h : -maxTime ≤ t ∧ t ≤ maxTime then some ⟨t, h⟩ else none

namespace Instant

variable (zone : Int)

def localTime (t : Instant) : Int := t.time + zone * 60000

def ofLocal (l : Int) : Option Instant := timeClip (l - zone * 60000)

def getDayNumber (t : Instant) : Int := t.localTime zone / 86400000

def getHours (t : Instant) : Int := t.localTime zone / 3600000 % 24

def getMinutes (t : Instant) : Int := t.localTime zone / 60000 % 60

def getSeconds (t : Instant) : Int := t.localTime zone / 1000 % 60

def getMilliseconds (t : Instant) : Int := t.localTime zone % 1000

def getFullYear (t : Instant) : Int := yearFromDay (t.getDayNumber zone)

def getMonth (t : Instant) : Nat := monthFromDay (t.getDayNumber zone)

def getDate (t : Instant) : Int := dateFromDay (t.getDayNumber zone)

def getDay (t : Instant) : Int := weekDay (t.getDayNumber zone)

def makeTime (hour minute second ms : Int) : Int := hour * 3600000 + minute * 60000 + second * 1000 + ms

def makeDate (day time : Int) : Int := day * 86400000 + time

def setSeconds (t : Instant) (second ms : Int) : Option Instant :=
  ofLocal zone (makeDate (t.getDayNumber zone)
    (makeTime (t.getHours zone) (t.getMinutes zone) second ms))

def setMinutes (t : Instant) (minute : Int) : Option Instant :=
  ofLocal zone (makeDate (t.getDayNumber zone)
    (makeTime (t.getHours zone) minute (t.getSeconds zone) (t.getMilliseconds zone)))

def setMinutesSecondsMs (t : Instant) (minute second ms : Int) : Option Instant :=
  ofLocal zone (makeDate (t.getDayNumber zone) (makeTime (t.getHours zone) minute second ms))

def setHours (t : Instant) (hour minute second ms : Int) : Option Instant :=
  ofLocal zone (makeDate (t.getDayNumber zone) (makeTime hour minute second ms))

def timeWithinDay (t : Instant) : Int := t.localTime zone % 86400000

def setDate (t : Instant) (date : Int) : Option Instant :=
  ofLocal zone (makeDate (makeDay (t.getFullYear zone) (t.getMonth zone) date) (t.timeWithinDay zone))

def setMonth (t : Instant) (month : Int) : Option Instant :=
  ofLocal zone (makeDate (makeDay (t.getFullYear zone) month (t.getDate zone)) (t.timeWithinDay zone))

/-- A number with at least `width` digits. -/
def padded (width : Nat) (n : Int) : String :=
  String.ofList (List.leftpad width '0' (Nat.toDigits 10 n.toNat))

/-- Years outside 0 to 9999 have a sign and six digits. -/
def yearText (y : Int) : String :=
  if 0 ≤ y ∧ y ≤ 9999 then padded 4 y
  else if y < 0 then "-" ++ padded 6 (-y)
  else "+" ++ padded 6 y

/-- `toISOString().split('T')[0]`. -/
def isoDate (t : Instant) : String :=
  yearText (t.getFullYear 0) ++ "-" ++ padded 2 (t.getMonth 0 + 1) ++ "-" ++ padded 2 (t.getDate 0)

def toISOString (t : Instant) : String :=
  t.isoDate ++ "T" ++ padded 2 (t.getHours 0) ++ ":" ++ padded 2 (t.getMinutes 0) ++ ":" ++
    padded 2 (t.getSeconds 0) ++ "." ++ padded 3 (t.getMilliseconds 0) ++ "Z"

variable {zone}

theorem ext_time {t u : Instant} (h : t.time = u.time) : t = u := by
  cases t
  cases u
  cases h
  rfl

instance : PartialOrder Instant where
  le t u := t.time ≤ u.time
  le_refl _ := Int.le_refl _
  le_trans _ _ _ := Int.le_trans
  le_antisymm _ _ h h' := ext_time (Int.le_antisymm h h')

theorem le_iff_time {t u : Instant} : t ≤ u ↔ t.time ≤ u.time := Iff.rfl

theorem timeClip_time (t : Instant) : timeClip t.time = some t := dif_pos t.valid

theorem timeClip_eq_some {t : Int} {u : Instant} : timeClip t = some u ↔ u.time = t := by
  constructor
  · intro h
    unfold timeClip at h
    split at h
    · cases h
      rfl
    · cases h
  · rintro rfl
    exact timeClip_time u

theorem timeClip_eq_none {t : Int} : timeClip t = none ↔ ¬ (-maxTime ≤ t ∧ t ≤ maxTime) := by
  unfold timeClip
  split <;> simp [*]

theorem setSeconds_zero (t : Instant) :
    t.setSeconds zone 0 0 = timeClip (t.time - t.time % 60000) := by
  unfold setSeconds ofLocal makeDate makeTime getDayNumber getHours getMinutes localTime
  congr 1
  omega

theorem setMinutesSecondsMs_zero (t : Instant) :
    t.setMinutesSecondsMs zone 0 0 0 = ofLocal zone (t.localTime zone - t.localTime zone % 3600000) := by
  unfold setMinutesSecondsMs makeDate makeTime getDayNumber getHours
  congr 1
  omega

theorem setMinutes_succ (t : Instant) :
    t.setMinutes zone (t.getMinutes zone + 1) = timeClip (t.time + 60000) := by
  unfold setMinutes ofLocal makeDate makeTime getDayNumber getHours getMinutes getSeconds
    getMilliseconds localTime
  congr 1
  omega

theorem setHours_zero (t : Instant) :
    t.setHours zone 0 0 0 0 = ofLocal zone (t.getDayNumber zone * 86400000) := by
  unfold setHours makeDate makeTime
  congr 1
  omega

/-- A date is set by moving the day within its month. -/
theorem setDate_eq (t : Instant) (date : Int) :
    t.setDate zone date = ofLocal zone
      ((firstDay (monthIndex (t.getDayNumber zone)) + date - 1) * 86400000 + t.timeWithinDay zone) := by
  unfold setDate makeDate getFullYear getMonth
  rw [makeDay_eq]
  rfl

/-- A month is set by moving to its first day, and the date from there. -/
theorem setMonth_eq (t : Instant) (month : Int) :
    t.setMonth zone month = ofLocal zone
      ((firstDay (12 * t.getFullYear zone + month) + t.getDate zone - 1) * 86400000 +
        t.timeWithinDay zone) := by
  unfold setMonth makeDate
  rw [makeDay_eq]

theorem getDayNumber_of_local {t : Instant} {d r : Int} (h : t.localTime zone = d * 86400000 + r)
    (h0 : 0 ≤ r) (hlt : r < 86400000) : t.getDayNumber zone = d ∧ t.timeWithinDay zone = r := by
  unfold getDayNumber timeWithinDay
  omega

theorem localTime_eq (t : Instant) :
    t.localTime zone = t.getDayNumber zone * 86400000 + t.timeWithinDay zone := by
  unfold getDayNumber timeWithinDay
  omega

theorem timeWithinDay_bounds (t : Instant) :
    0 ≤ t.timeWithinDay zone ∧ t.timeWithinDay zone < 86400000 := by
  unfold timeWithinDay
  omega

/-- Midnight is when the hours and the minutes are 0, for a whole minute. -/
theorem midnight_iff {t : Instant} (h : 60000 ∣ t.time) :
    t.timeWithinDay zone = 0 ↔ t.getHours zone = 0 ∧ t.getMinutes zone = 0 := by
  unfold timeWithinDay getHours getMinutes localTime
  omega

end Instant

end Lib
