import Mathlib.Data.Rat.Floor
import Mathlib.Tactic.GCongr
import Mathlib.Tactic.Linarith
import Mathlib.Tactic.NormNum

/-!
# TradeCore.Lib.Rounding

`mathRound` is `Math.round`: the nearest whole number, and of two the larger one. `roundTo` is the
rounding of a `numeric` column: so many decimals, and of two the one away from zero.
-/

namespace Lib

def mathRound (x : ℚ) : ℤ := ⌊x + 1 / 2⌋

theorem mathRound_mono {x y : ℚ} (h : x ≤ y) : mathRound x ≤ mathRound y :=
  Int.floor_mono (by gcongr)

theorem mathRound_eq_iff {x : ℚ} {n : ℤ} : mathRound x = n ↔ (n : ℚ) - 1 / 2 ≤ x ∧ x < n + 1 / 2 := by
  rw [mathRound, Int.floor_eq_iff]
  constructor <;> rintro ⟨hlow, hhigh⟩ <;> constructor <;> linarith

def roundTo (scale : ℕ) (x : ℚ) : ℚ :=
  (if x < 0 then -1 else 1) * ⌊|x| * 10 ^ scale + 1 / 2⌋ / 10 ^ scale

section Scaled

variable {scale : ℕ} {x y : ℚ}

/-- The column keeps what has no more decimals than it. -/
theorem roundTo_eq_self_iff : roundTo scale x = x ↔ ∃ n : ℤ, x = n / 10 ^ scale := by
  have hpow : (0 : ℚ) < 10 ^ scale := pow_pos (by norm_num) scale
  constructor
  · intro h
    refine ⟨(if x < 0 then -1 else 1) * ⌊|x| * 10 ^ scale + 1 / 2⌋, h.symm.trans ?_⟩
    rw [roundTo]
    push_cast
    rfl
  · rintro ⟨n, rfl⟩
    have hfloor : ⌊|(n : ℚ) / 10 ^ scale| * 10 ^ scale + 1 / 2⌋ = |n| := by
      rw [abs_div, abs_of_pos hpow, div_mul_cancel₀ _ hpow.ne', Int.floor_eq_iff]
      push_cast
      constructor <;> linarith
    rw [roundTo, hfloor, Int.cast_abs]
    split
    · rename_i hneg
      have : (n : ℚ) < 0 := by
        by_contra hnot
        exact absurd (div_nonneg (not_lt.mp hnot) hpow.le) (not_le.mpr hneg)
      rw [abs_of_neg this, neg_one_mul, neg_neg]
    · rename_i hpos
      have : (0 : ℚ) ≤ n := by
        by_contra hnot
        exact hpos (div_neg_of_neg_of_pos (not_le.mp hnot) hpow)
      rw [abs_of_nonneg this, one_mul]

theorem roundTo_roundTo : roundTo scale (roundTo scale x) = roundTo scale x := by
  refine roundTo_eq_self_iff.mpr ⟨(if x < 0 then -1 else 1) * ⌊|x| * 10 ^ scale + 1 / 2⌋, ?_⟩
  rw [roundTo]
  push_cast
  rfl

theorem roundTo_of_nonneg (h : 0 ≤ x) : roundTo scale x = mathRound (x * 10 ^ scale) / 10 ^ scale := by
  rw [roundTo, if_neg (not_lt.mpr h), abs_of_nonneg h, one_mul, mathRound]

theorem roundTo_nonneg (h : 0 ≤ x) : 0 ≤ roundTo scale x := by
  have hround : 0 ≤ mathRound (x * 10 ^ scale) := Int.floor_nonneg.mpr (by positivity)
  rw [roundTo_of_nonneg h]
  positivity

/-- What is added to a value of the column is rounded by itself. -/
theorem roundTo_add_of_nonneg (hx : roundTo scale x = x) (hpos : 0 ≤ x) (hy : 0 ≤ y) :
    roundTo scale (x + y) = x + roundTo scale y := by
  obtain ⟨n, rfl⟩ := roundTo_eq_self_iff.mp hx
  have hpow : (10 : ℚ) ^ scale ≠ 0 := by positivity
  have hround : mathRound ((n / 10 ^ scale + y) * 10 ^ scale) = n + mathRound (y * 10 ^ scale) := by
    rw [mathRound, mathRound, add_mul, div_mul_cancel₀ _ hpow, add_assoc, Int.floor_intCast_add]
  rw [roundTo_of_nonneg (add_nonneg hpos hy), hround, roundTo_of_nonneg hy]
  push_cast
  rw [add_div]

theorem roundTo_zero : roundTo scale 0 = 0 := roundTo_eq_self_iff.mpr ⟨0, by simp⟩

theorem roundTo_add (hx : roundTo scale x = x) (hy : roundTo scale y = y) :
    roundTo scale (x + y) = x + y := by
  obtain ⟨m, rfl⟩ := roundTo_eq_self_iff.mp hx
  obtain ⟨n, rfl⟩ := roundTo_eq_self_iff.mp hy
  exact roundTo_eq_self_iff.mpr ⟨m + n, by push_cast; rw [add_div]⟩

theorem roundTo_sub (hx : roundTo scale x = x) (hy : roundTo scale y = y) :
    roundTo scale (x - y) = x - y := by
  obtain ⟨m, rfl⟩ := roundTo_eq_self_iff.mp hx
  obtain ⟨n, rfl⟩ := roundTo_eq_self_iff.mp hy
  exact roundTo_eq_self_iff.mpr ⟨m - n, by push_cast; rw [sub_div]⟩

theorem roundTo_min (hx : roundTo scale x = x) (hy : roundTo scale y = y) :
    roundTo scale (min x y) = min x y := by
  rcases min_choice x y with h | h
  · rw [h, hx]
  · rw [h, hy]

end Scaled

end Lib
