import Mathlib.Tactic.IntervalCases

/-!
# TradeCore.Lib.Calendar

Days and dates of the proleptic Gregorian calendar. A day is its number counted from 1 January 1970.
Years are numbered from 0 on and months from 0 to 11, as a JavaScript `Date` does.

* `yearFromDay`, `monthFromDay`, `dateFromDay`, `weekDay`  the fields of a day.
* `makeDay y m d`  the day with these fields. Months beyond the year and dates beyond the month carry
  over.
* `monthIndex`, `firstDay`  months counted through, and the day each begins with. A day belongs to the
  month `M` exactly when it is one from `firstDay M` up to `firstDay (M + 1)` (`monthIndex_eq_iff`).
-/

namespace Lib

/-! ## Years -/

def dayFromYear (y : Int) : Int :=
  365 * (y - 1970) + (y - 1969) / 4 - (y - 1901) / 100 + (y - 1601) / 400

def leapDays (y : Int) : Int := if y % 4 = 0 ∧ (y % 100 ≠ 0 ∨ y % 400 = 0) then 1 else 0

/-- The year a day is in: the mean length of a year gives it up to one. -/
def yearFromDay (d : Int) : Int :=
  let y := d * 400 / 146097 + 1970
  if dayFromYear (y + 1) ≤ d then y + 1 else if d < dayFromYear y then y - 1 else y

theorem dayFromYear_succ (y : Int) : dayFromYear (y + 1) = dayFromYear y + 365 + leapDays y := by
  unfold dayFromYear leapDays
  split <;> omega

theorem leapDays_bounds (y : Int) : 0 ≤ leapDays y ∧ leapDays y ≤ 1 := by
  unfold leapDays
  split <;> omega

theorem yearFromDay_spec (d : Int) :
    dayFromYear (yearFromDay d) ≤ d ∧ d < dayFromYear (yearFromDay d + 1) := by
  unfold yearFromDay
  simp only
  split
  · rename_i h
    refine ⟨h, ?_⟩
    unfold dayFromYear
    omega
  · rename_i h1
    split
    · rename_i h2
      refine ⟨?_, by simpa using h2⟩
      unfold dayFromYear
      omega
    · exact ⟨by omega, by omega⟩

/-! ## Months -/

/-- The days of a year before a month. -/
def monthStart (leap : Int) : Nat → Int
  | 0 => 0
  | 1 => 31
  | 2 => 59 + leap
  | 3 => 90 + leap
  | 4 => 120 + leap
  | 5 => 151 + leap
  | 6 => 181 + leap
  | 7 => 212 + leap
  | 8 => 243 + leap
  | 9 => 273 + leap
  | 10 => 304 + leap
  | 11 => 334 + leap
  | _ => 365 + leap

/-- The last month up to `m` that has begun on the day `n` of a year. -/
def begunMonth (leap n : Int) : Nat → Nat
  | 0 => 0
  | m + 1 => if monthStart leap (m + 1) ≤ n then m + 1 else begunMonth leap n m

def dayInYear (d : Int) : Int := d - dayFromYear (yearFromDay d)

def monthFromDay (d : Int) : Nat := begunMonth (leapDays (yearFromDay d)) (dayInYear d) 11

def dateFromDay (d : Int) : Int :=
  dayInYear d - monthStart (leapDays (yearFromDay d)) (monthFromDay d) + 1

/-- Sunday is 0. -/
def weekDay (d : Int) : Int := (d + 4) % 7

def makeDay (year month date : Int) : Int :=
  dayFromYear (year + month / 12) + monthStart (leapDays (year + month / 12)) (month % 12).toNat + date - 1

theorem begunMonth_le (leap n : Int) (m : Nat) : begunMonth leap n m ≤ m := by
  induction m with
  | zero => exact Nat.le_refl 0
  | succ m ih =>
    rw [begunMonth]
    split
    · exact Nat.le_refl _
    · exact Nat.le_succ_of_le ih

theorem begunMonth_spec {leap n : Int} (hn : 0 ≤ n) {m : Nat} (hlt : n < monthStart leap (m + 1)) :
    monthStart leap (begunMonth leap n m) ≤ n ∧ n < monthStart leap (begunMonth leap n m + 1) := by
  induction m with
  | zero => exact ⟨hn, hlt⟩
  | succ m ih =>
    rw [begunMonth]
    split
    · rename_i h
      exact ⟨h, hlt⟩
    · rename_i h
      exact ih (Int.not_le.mp h)

/-- Every month has 28 to 31 days. -/
theorem monthStart_succ {leap : Int} (hl : 0 ≤ leap ∧ leap ≤ 1) {m : Nat} (hm : m ≤ 11) :
    monthStart leap m + 28 ≤ monthStart leap (m + 1) ∧
      monthStart leap (m + 1) ≤ monthStart leap m + 31 := by
  interval_cases m <;> simp only [monthStart] <;> omega

/-! ## Months counted through -/

def monthIndex (d : Int) : Int := 12 * yearFromDay d + monthFromDay d

def firstDay (M : Int) : Int := makeDay 0 M 1

def monthLength (M : Int) : Int := firstDay (M + 1) - firstDay M

theorem makeDay_eq (year month date : Int) :
    makeDay year month date = firstDay (12 * year + month) + date - 1 := by
  unfold firstDay makeDay
  have h1 : (0 : Int) + (12 * year + month) / 12 = year + month / 12 := by omega
  have h2 : (12 * year + month) % 12 = month % 12 := by omega
  rw [h1, h2]
  omega

theorem firstDay_eq {y : Int} {m : Nat} (hm : m ≤ 11) :
    firstDay (12 * y + m) = dayFromYear y + monthStart (leapDays y) m := by
  unfold firstDay makeDay
  have h1 : (0 : Int) + (12 * y + m) / 12 = y := by omega
  have h2 : ((12 * y + m) % 12).toNat = m := by omega
  rw [h1, h2]
  omega

theorem firstDay_succ {y : Int} {m : Nat} (hm : m ≤ 11) :
    firstDay (12 * y + m + 1) = dayFromYear y + monthStart (leapDays y) (m + 1) := by
  by_cases h : m = 11
  · subst h
    have hnext : 12 * y + (11 : Nat) + 1 = 12 * (y + 1) + (0 : Nat) := by omega
    rw [hnext, firstDay_eq (Nat.zero_le 11), dayFromYear_succ]
    simp only [monthStart]
    omega
  · have hnext : 12 * y + (m : Int) + 1 = 12 * y + (m + 1 : Nat) := by omega
    rw [hnext, firstDay_eq (by omega)]

theorem exists_month (M : Int) : ∃ (y : Int) (m : Nat), m ≤ 11 ∧ M = 12 * y + m :=
  ⟨M / 12, (M % 12).toNat, by omega, by omega⟩

theorem monthLength_bounds (M : Int) : 28 ≤ monthLength M ∧ monthLength M ≤ 31 := by
  obtain ⟨y, m, hm, rfl⟩ := exists_month M
  have := monthStart_succ (leapDays_bounds y) hm
  rw [monthLength, firstDay_eq hm, firstDay_succ hm]
  omega

theorem monthFromDay_le (d : Int) : monthFromDay d ≤ 11 := begunMonth_le _ _ 11

/-- Every day is one of its month. -/
theorem firstDay_monthIndex (d : Int) : firstDay (monthIndex d) ≤ d ∧ d < firstDay (monthIndex d + 1) := by
  have hy := yearFromDay_spec d
  rw [dayFromYear_succ] at hy
  have h0 : 0 ≤ dayInYear d := by
    unfold dayInYear
    omega
  have hlt : dayInYear d < monthStart (leapDays (yearFromDay d)) (11 + 1) := by
    unfold dayInYear
    simp only [monthStart]
    omega
  have hspec : monthStart (leapDays (yearFromDay d)) (monthFromDay d) ≤ dayInYear d ∧
      dayInYear d < monthStart (leapDays (yearFromDay d)) (monthFromDay d + 1) := begunMonth_spec h0 hlt
  rw [monthIndex, firstDay_eq (monthFromDay_le d), firstDay_succ (monthFromDay_le d)]
  unfold dayInYear at hspec
  omega

theorem firstDay_mono {M N : Int} (h : M ≤ N) : firstDay M ≤ firstDay N := by
  obtain ⟨k, rfl⟩ : ∃ k : Nat, N = M + k := ⟨(N - M).toNat, by omega⟩
  clear h
  induction k with
  | zero => simp
  | succ k ih =>
    have := monthLength_bounds (M + k)
    unfold monthLength at this
    push_cast
    rw [← Int.add_assoc]
    omega

theorem monthIndex_eq_iff {d M : Int} : monthIndex d = M ↔ firstDay M ≤ d ∧ d < firstDay (M + 1) := by
  constructor
  · rintro rfl
    exact firstDay_monthIndex d
  · rintro ⟨h1, h2⟩
    obtain ⟨h3, h4⟩ := firstDay_monthIndex d
    by_contra hne
    rcases Int.lt_or_gt_of_ne hne with hlt | hgt
    · have := firstDay_mono (show monthIndex d + 1 ≤ M by omega)
      omega
    · have := firstDay_mono (show M + 1 ≤ monthIndex d by omega)
      omega

theorem monthIndex_mono {d e : Int} (h : d ≤ e) : monthIndex d ≤ monthIndex e := by
  by_contra hlt
  have h1 := (firstDay_monthIndex d).1
  have h2 := (firstDay_monthIndex e).2
  have := firstDay_mono (show monthIndex e + 1 ≤ monthIndex d by omega)
  omega

theorem dateFromDay_eq (d : Int) : dateFromDay d = d - firstDay (monthIndex d) + 1 := by
  rw [dateFromDay, monthIndex, firstDay_eq (monthFromDay_le d), dayInYear]
  omega

end Lib
