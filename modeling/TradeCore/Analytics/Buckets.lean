import TradeCore.Lib.DateTime

/-!
# TradeCore.Analytics.Buckets

The start of the minute, hour, day, week or month a date lies in, as the analytics services compute
it with the setters of `Date`.

* `getBucketKey_eq`: the setters come to arithmetic on the local time, `bucketStart`.
* A bucket of a smaller period lies in one of a larger (`bucketStart_bucketStart`, for periods that
  `Nests`), and later times lie in later buckets (`bucketStart_mono`).
-/

namespace TradeCore
namespace Analytics

open Lib Instant

inductive MetricAggregation where
  | minute
  | hour
  | day
  | week
  | month
  deriving DecidableEq, Repr

/-- `getBucketKey` of the market analytics, `getAggregationTimestamp` of the collector and
`getAggregationKey` of the pipeline: the start of the bucket, as a `Date` that may be invalid. -/
def getBucketKey (zone : Int) (date : Instant) : MetricAggregation → Option Instant
  | .minute => date.setSeconds zone 0 0
  | .hour => date.setMinutesSecondsMs zone 0 0 0
  | .day => date.setHours zone 0 0 0 0
  | .week =>
    let day := date.getDay zone
    (date.setHours zone 0 0 0 0).bind fun d => d.setDate zone (d.getDate zone - day)
  | .month => (date.setDate zone 1).bind fun d => d.setHours zone 0 0 0 0

/-- The local time at which the bucket of a local time starts. -/
def bucketStart (l : Int) : MetricAggregation → Int
  | .minute => l - l % 60000
  | .hour => l - l % 3600000
  | .day => l - l % 86400000
  | .week => (l / 86400000 - weekDay (l / 86400000)) * 86400000
  | .month => firstDay (monthIndex (l / 86400000)) * 86400000

/-- The buckets of `a` lie in those of `b`. -/
def Nests (a b : MetricAggregation) : Prop :=
  a = b ∨ a = .minute ∨ a = .hour ∧ b ≠ .minute ∨ a = .day ∧ (b = .week ∨ b = .month)

instance (a b : MetricAggregation) : Decidable (Nests a b) :=
  inferInstanceAs (Decidable (_ ∨ _ ∨ _ ∧ _ ∨ _ ∧ (_ ∨ _)))

section Start

variable {l l' : Int}

theorem bucketStart_le (l : Int) (a : MetricAggregation) :
    bucketStart l a ≤ l ∧ l - bucketStart l a < 31 * 86400000 := by
  cases a with
  | minute | hour | day =>
    simp only [bucketStart]
    omega
  | week =>
    simp only [bucketStart, weekDay]
    omega
  | month =>
    simp only [bucketStart]
    obtain ⟨hle, hlt⟩ := firstDay_monthIndex (l / 86400000)
    have hlen := (monthLength_bounds (monthIndex (l / 86400000))).2
    unfold monthLength at hlen
    omega

theorem bucketStart_mono (a : MetricAggregation) (h : l ≤ l') : bucketStart l a ≤ bucketStart l' a := by
  cases a with
  | minute | hour | day =>
    simp only [bucketStart]
    omega
  | week =>
    simp only [bucketStart, weekDay]
    omega
  | month =>
    have hday : l / 86400000 ≤ l' / 86400000 := by omega
    have := firstDay_mono (monthIndex_mono hday)
    simp only [bucketStart]
    omega

/-- The bucket of the start of a smaller bucket. -/
theorem bucketStart_bucketStart {a b : MetricAggregation} (h : Nests a b) (l : Int) :
    bucketStart (bucketStart l a) b = bucketStart l b := by
  have hday : ∀ c, c = .minute ∨ c = .hour ∨ c = .day →
      bucketStart l c / 86400000 = l / 86400000 := by
    rintro c (rfl | rfl | rfl) <;> simp only [bucketStart] <;> omega
  rcases h with rfl | rfl | ⟨rfl, hb⟩ | ⟨rfl, hb⟩
  · cases a with
    | minute | hour | day =>
      simp only [bucketStart]
      omega
    | week =>
      simp only [bucketStart, weekDay]
      omega
    | month =>
      have hfirst : monthIndex (firstDay (monthIndex (l / 86400000))) = monthIndex (l / 86400000) := by
        have hlen := (monthLength_bounds (monthIndex (l / 86400000))).1
        unfold monthLength at hlen
        exact monthIndex_eq_iff.mpr ⟨Int.le_refl _, by omega⟩
      simp only [bucketStart]
      rw [Int.mul_ediv_cancel _ (by decide), hfirst]
  · cases b with
    | minute | hour | day =>
      simp only [bucketStart]
      omega
    | week | month =>
      have := hday .minute (.inl rfl)
      simp only [bucketStart] at this ⊢
      rw [this]
  · cases b with
    | minute => exact absurd rfl hb
    | hour | day =>
      simp only [bucketStart]
      omega
    | week | month =>
      have := hday .hour (.inr (.inl rfl))
      simp only [bucketStart] at this ⊢
      rw [this]
  · have := hday .day (.inr (.inr rfl))
    rcases hb with rfl | rfl <;> simp only [bucketStart] at this ⊢ <;> rw [this]

end Start

section Key

variable {zone : Int}

theorem ofLocal_eq_some {l : Int} {u : Instant} : ofLocal zone l = some u ↔ u.localTime zone = l := by
  rw [ofLocal, timeClip_eq_some]
  unfold localTime
  omega

/-- The setters compute the start of the bucket. -/
theorem getBucketKey_eq (t : Instant) (a : MetricAggregation) :
    getBucketKey zone t a = ofLocal zone (bucketStart (t.localTime zone) a) := by
  have hvalid := t.valid
  cases a with
  | minute =>
    simp only [getBucketKey, bucketStart, setSeconds_zero, ofLocal, localTime]
    congr 1
    omega
  | hour => exact setMinutesSecondsMs_zero t
  | day =>
    simp only [getBucketKey, bucketStart, setHours_zero, getDayNumber]
    congr 1
    omega
  | week =>
    simp only [getBucketKey, bucketStart, setHours_zero]
    have hday : 0 ≤ weekDay (t.getDayNumber zone) := by
      unfold weekDay
      omega
    cases hd : ofLocal zone (t.getDayNumber zone * 86400000) with
    | none =>
      -- midnight is before the first time a `Date` can hold, and so is the start of the week
      rw [Option.bind_none, eq_comm, ofLocal, timeClip_eq_none]
      rw [ofLocal, timeClip_eq_none] at hd
      simp only [getDayNumber, localTime] at hday hd ⊢
      omega
    | some d =>
      have hlocal := ofLocal_eq_some.mp hd
      obtain ⟨hnum, hwithin⟩ := getDayNumber_of_local (r := 0) (by rw [hlocal, Int.add_zero])
        (Int.le_refl 0) (by decide)
      rw [Option.bind_some, setDate_eq, hnum, hwithin]
      have hdate : d.getDate zone =
          t.getDayNumber zone - firstDay (monthIndex (t.getDayNumber zone)) + 1 := by
        unfold getDate
        rw [hnum]
        exact dateFromDay_eq _
      rw [hdate]
      congr 1
      unfold getDay getDayNumber
      omega
  | month =>
    simp only [getBucketKey, bucketStart, setDate_eq]
    have hwithin : 0 ≤ t.timeWithinDay zone ∧ _ := t.timeWithinDay_bounds
    have hle := (firstDay_monthIndex (t.getDayNumber zone)).1
    have hlocal : t.localTime zone = _ := t.localTime_eq
    cases hd : ofLocal zone ((firstDay (monthIndex (t.getDayNumber zone)) + 1 - 1) * 86400000 +
        t.timeWithinDay zone) with
    | none =>
      rw [Option.bind_none, eq_comm, ofLocal, timeClip_eq_none]
      rw [ofLocal, timeClip_eq_none] at hd
      change ¬ (_ ≤ firstDay (monthIndex (t.getDayNumber zone)) * 86400000 - zone * 60000 ∧ _)
      unfold localTime at hlocal
      omega
    | some d =>
      have hdlocal := ofLocal_eq_some.mp hd
      obtain ⟨hnum, -⟩ := getDayNumber_of_local hdlocal hwithin.1 hwithin.2
      rw [Option.bind_some, setHours_zero, hnum, Int.add_sub_cancel]
      rfl

/-- The bucket of the start of a smaller bucket. -/
theorem getBucketKey_getBucketKey {a b : MetricAggregation} (h : Nests a b) {t s : Instant}
    (hs : getBucketKey zone t a = some s) : getBucketKey zone s b = getBucketKey zone t b := by
  rw [getBucketKey_eq] at hs
  rw [getBucketKey_eq, getBucketKey_eq, ofLocal_eq_some.mp hs, bucketStart_bucketStart h]

end Key

end Analytics
end TradeCore
