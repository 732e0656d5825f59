import Mathlib.Data.Int.Log
import Mathlib.Data.Nat.Cast.Order.Field
import Mathlib.Data.Rat.Floor
import Mathlib.Algebra.Order.Floor.Ring
import Mathlib.Algebra.Order.Field.Rat
import Mathlib.Algebra.Order.Field.Power
import Mathlib.Tactic.Linarith
import Mathlib.Tactic.Positivity
import Mathlib.Tactic.FieldSimp
import Mathlib.Tactic.NormNum

/-!
# TradeCore.Lib.Double

The numbers of a JavaScript runtime, by their exact values.

* `nearestDouble x` the double next to `x`, of two the one with the even significand, if the exponent
  had no upper bound.
* `toDouble? x`     the same with it: `none` is an infinity.

Nothing is off by more than `x / 2^53` (`abs_nearestDouble_sub_le`), whole numbers below `2^53` are
exact (`nearestDouble_natCast`), and a whole number is an infinity from `overflow` on
(`toDouble?_natCast`). `floor_nearestDouble_div` is the division by a decimal literal: `0.1` is a little
more than a tenth, and the whole part of a product with it is the quotient by ten all the same.
-/

namespace Lib

/-- The nearest whole number, of two the even one. -/
def roundHalfEven (x : ℚ) : ℤ :=
  let n := ⌊x⌋
  if x - n < 1 / 2 then n
  else if 1 / 2 < x - n then n + 1
  else if n % 2 = 0 then n
  else n + 1

/-- The unit in the last place of the doubles around `x`. -/
def ulp (x : ℚ) : ℚ := 2 ^ max (Int.log 2 |x| - 52) (-1074)

def nearestDouble (x : ℚ) : ℚ := roundHalfEven (x / ulp x) * ulp x

def toDouble? (x : ℚ) : Option ℚ :=
  if |nearestDouble x| < 2 ^ 1024 then some (nearestDouble x) else none

/-! ## The nearest whole number -/

theorem abs_roundHalfEven_sub_le (x : ℚ) : |(roundHalfEven x : ℚ) - x| ≤ 1 / 2 := by
  have hlow := Int.floor_le x
  have hhigh := Int.lt_floor_add_one x
  simp only [roundHalfEven]
  rw [abs_le]
  split_ifs <;> push_cast <;> constructor <;> linarith

theorem floor_le_roundHalfEven (x : ℚ) : ⌊x⌋ ≤ roundHalfEven x := by
  simp only [roundHalfEven]
  split_ifs <;> omega

theorem le_roundHalfEven {x : ℚ} {n : ℤ} (h : (n : ℚ) ≤ x) : n ≤ roundHalfEven x :=
  (Int.le_floor.mpr h).trans (floor_le_roundHalfEven x)

theorem roundHalfEven_intCast (n : ℤ) : roundHalfEven n = n := by
  simp [roundHalfEven]

/-- Below an even number it is the middle that decides, and the middle itself goes up. -/
theorem roundHalfEven_lt_iff {x : ℚ} {n : ℤ} (hn : n % 2 = 0) :
    roundHalfEven x < n ↔ x < n - 1 / 2 := by
  have hlow := Int.floor_le x
  have hhigh := Int.lt_floor_add_one x
  constructor
  · intro h
    by_contra hge
    have hfloor : ⌊x⌋ = n - 1 := by
      have := (floor_le_roundHalfEven x).trans_lt h
      have : n - 1 ≤ ⌊x⌋ := Int.le_floor.mpr (by push_cast; linarith)
      omega
    have hcast : ((⌊x⌋ : ℤ) : ℚ) = n - 1 := by rw [hfloor]; push_cast; rfl
    have hfrac : ¬ x - ⌊x⌋ < 1 / 2 := by rw [hcast]; linarith
    simp only [roundHalfEven, if_neg hfrac] at h
    split_ifs at h <;> omega
  · intro h
    have hlt : ⌊x⌋ < n := Int.floor_lt.mpr (by linarith)
    rcases (show ⌊x⌋ = n - 1 ∨ ⌊x⌋ + 1 < n by omega) with hfloor | hfloor
    · have hcast : ((⌊x⌋ : ℤ) : ℚ) = n - 1 := by rw [hfloor]; push_cast; rfl
      have hfrac : x - ⌊x⌋ < 1 / 2 := by rw [hcast]; linarith
      simp only [roundHalfEven, if_pos hfrac]
      exact hlt
    · simp only [roundHalfEven]
      split_ifs <;> omega

/-! ## The nearest double -/

theorem ulp_pos (x : ℚ) : 0 < ulp x := zpow_pos (by norm_num) _

theorem ulp_eq {x : ℚ} (h : 2 ^ (-1022 : ℤ) ≤ x) : ulp x = 2 ^ (Int.log 2 x - 52) := by
  have hpos : 0 < x := (zpow_pos (by norm_num) _).trans_le h
  have hlog : -1022 ≤ Int.log 2 x :=
    (Int.zpow_le_iff_le_log (by norm_num) hpos).mp (by exact_mod_cast h)
  rw [ulp, abs_of_pos hpos, max_eq_left (by omega)]

theorem two_zpow_split (e : ℤ) (k : ℕ) : (2 : ℚ) ^ e = 2 ^ k * 2 ^ (e - k) := by
  rw [← zpow_natCast, ← zpow_add₀ (by norm_num)]
  congr 1
  ring

theorem two_pow_mul_ulp {x : ℚ} (h : 2 ^ (-1022 : ℤ) ≤ x) (k : ℕ) :
    2 ^ k * ulp x = 2 ^ (Int.log 2 x + (k - 52)) := by
  rw [ulp_eq h, ← zpow_natCast, ← zpow_add₀ (by norm_num)]
  congr 1
  ring

/-- A number that is not below the normal ones has a significand of 53 binary digits. -/
theorem ulp_bounds {x : ℚ} (h : 2 ^ (-1022 : ℤ) ≤ x) : 2 ^ 52 * ulp x ≤ x ∧ x < 2 ^ 53 * ulp x := by
  have hpos : 0 < x := (zpow_pos (by norm_num) _).trans_le h
  have hlow : (2 : ℚ) ^ Int.log 2 x ≤ x := by exact_mod_cast Int.zpow_log_le_self (b := 2) (by norm_num) hpos
  have hhigh : x < (2 : ℚ) ^ (Int.log 2 x + 1) := by
    exact_mod_cast Int.lt_zpow_succ_log_self (b := 2) (by norm_num) x
  rw [two_pow_mul_ulp h, two_pow_mul_ulp h]
  exact ⟨by simpa using hlow, by simpa using hhigh⟩

theorem abs_nearestDouble_sub_le_ulp (x : ℚ) : |nearestDouble x - x| ≤ ulp x / 2 := by
  have hpos := ulp_pos x
  have hx : nearestDouble x - x = (roundHalfEven (x / ulp x) - x / ulp x) * ulp x := by
    rw [nearestDouble]
    field_simp
  rw [hx, abs_mul, abs_of_pos hpos]
  have := mul_le_mul_of_nonneg_right (abs_roundHalfEven_sub_le (x / ulp x)) hpos.le
  linarith

theorem abs_nearestDouble_sub_le {x : ℚ} (h : 2 ^ (-1022 : ℤ) ≤ x) :
    |nearestDouble x - x| ≤ x / 2 ^ 53 := by
  refine (abs_nearestDouble_sub_le_ulp x).trans ?_
  have hlow := (ulp_bounds h).1
  rw [le_div_iff₀ (by positivity)]
  calc ulp x / 2 * 2 ^ 53 = 2 ^ 52 * ulp x := by ring
    _ ≤ x := hlow

/-- Below `2^53` the unit divides every whole number. -/
theorem exists_mul_ulp {x : ℚ} (hnormal : 2 ^ (-1022 : ℤ) ≤ x) (hx : x < 2 ^ 53) :
    ∃ k : ℕ, 2 ^ k * ulp x = 1 := by
  have hpos : 0 < x := (zpow_pos (by norm_num) _).trans_le hnormal
  have hlog : Int.log 2 x < 53 :=
    (Int.lt_zpow_iff_log_lt (by norm_num) hpos).mp (by exact_mod_cast hx)
  obtain ⟨k, hk⟩ : ∃ k : ℕ, 52 - Int.log 2 x = k := ⟨_, (Int.toNat_of_nonneg (by omega)).symm⟩
  refine ⟨k, ?_⟩
  rw [two_pow_mul_ulp hnormal, ← hk, show Int.log 2 x + (52 - Int.log 2 x - 52) = 0 by ring, zpow_zero]

/-- A whole number below `x` stays below its double, as long as the doubles there are dense enough. -/
theorem le_nearestDouble {x : ℚ} {n : ℤ} (hnormal : 2 ^ (-1022 : ℤ) ≤ x) (hx : x < 2 ^ 53)
    (h : (n : ℚ) ≤ x) : (n : ℚ) ≤ nearestDouble x := by
  obtain ⟨k, hunit⟩ := exists_mul_ulp hnormal hx
  have hscaled : ((n * 2 ^ k : ℤ) : ℚ) ≤ x / ulp x := by
    rw [le_div_iff₀ (ulp_pos x)]
    push_cast
    rw [mul_assoc, hunit, mul_one]
    exact h
  have hround : ((n * 2 ^ k : ℤ) : ℚ) ≤ roundHalfEven (x / ulp x) := by
    exact_mod_cast le_roundHalfEven hscaled
  calc (n : ℚ) = ((n * 2 ^ k : ℤ) : ℚ) * ulp x := by push_cast; rw [mul_assoc, hunit, mul_one]
    _ ≤ nearestDouble x := mul_le_mul_of_nonneg_right hround (ulp_pos x).le

theorem nearestDouble_zero : nearestDouble 0 = 0 := by
  rw [nearestDouble, zero_div]
  have := roundHalfEven_intCast 0
  rw [Int.cast_zero] at this
  rw [this, Int.cast_zero, zero_mul]

theorem normal_of_one_le {x : ℚ} (h : 1 ≤ x) : 2 ^ (-1022 : ℤ) ≤ x :=
  (zpow_le_one_of_nonpos₀ (by norm_num) (by norm_num)).trans h

theorem nearestDouble_natCast {n : ℕ} (h : n < 2 ^ 53) : nearestDouble n = n := by
  rcases n.eq_zero_or_pos with rfl | hn
  · exact_mod_cast nearestDouble_zero
  · obtain ⟨k, hunit⟩ := exists_mul_ulp (x := n) (normal_of_one_le (by exact_mod_cast hn))
      (by exact_mod_cast h)
    have hscaled : (n : ℚ) / ulp n = ((n * 2 ^ k : ℤ) : ℚ) := by
      rw [div_eq_iff (ulp_pos _).ne']
      push_cast
      rw [mul_assoc, hunit, mul_one]
    rw [nearestDouble, hscaled, roundHalfEven_intCast]
    push_cast
    rw [mul_assoc, hunit, mul_one]

theorem nearestDouble_nonneg' {x : ℚ} (hx : 0 ≤ x) : 0 ≤ nearestDouble x := by
  have hround := le_roundHalfEven (n := 0) (by push_cast; exact div_nonneg hx (ulp_pos x).le)
  exact mul_nonneg (by exact_mod_cast hround) (ulp_pos x).le

/-- Below the normal numbers the doubles are `2^-1074` apart. -/
theorem ulp_of_lt {x : ℚ} (hx : 0 < x) (h : x < 2 ^ (-1022 : ℤ)) :
    ulp x = 2 ^ (-1022 : ℤ) * (1 / 2 ^ 52) := by
  have hlog : Int.log 2 x < -1022 :=
    (Int.lt_zpow_iff_log_lt (by norm_num) hx).mp (by exact_mod_cast h)
  rw [ulp, abs_of_pos hx, max_eq_right (by omega), two_zpow_split (-1022) 52, mul_comm, ← mul_assoc,
    one_div, inv_mul_cancel₀ (by norm_num), one_mul]
  rfl

/-! ## Overflow -/

section Binade

variable {x : ℚ} {e : ℤ}

/-- Doubling is more than rounding does. -/
theorem nearestDouble_lt_of_log_lt (hnormal : 2 ^ (-1022 : ℤ) ≤ x) (h : x < 2 ^ (e - 1)) :
    nearestDouble x < 2 ^ e := by
  have hpos : 0 < x := (zpow_pos (by norm_num) _).trans_le hnormal
  have herror := abs_le.mp (abs_nearestDouble_sub_le hnormal)
  have hhalf := two_zpow_split e 1
  push_cast at hhalf
  linarith [herror.2]

/-- The significand does not go below its least value. -/
theorem le_nearestDouble_of_le_log (hnormal : 2 ^ (-1022 : ℤ) ≤ x) (h : e ≤ Int.log 2 x) :
    (2 : ℚ) ^ e ≤ nearestDouble x := by
  have hulp : 2 ^ 52 * ulp x = 2 ^ Int.log 2 x := by simpa using two_pow_mul_ulp hnormal 52
  have hsig : (2 ^ 52 : ℚ) ≤ x / ulp x := (le_div_iff₀ (ulp_pos x)).mpr (ulp_bounds hnormal).1
  have hround := le_roundHalfEven (x := x / ulp x) (n := 2 ^ (52 : ℕ)) (by push_cast; exact hsig)
  rw [← Int.cast_le (R := ℚ), Int.cast_pow, Int.cast_ofNat] at hround
  calc (2 : ℚ) ^ e ≤ 2 ^ Int.log 2 x := zpow_le_zpow_right₀ (by norm_num) h
    _ = 2 ^ 52 * ulp x := hulp.symm
    _ ≤ nearestDouble x := mul_le_mul_of_nonneg_right hround (ulp_pos x).le

/-- In the last binade below a power of two it is reached from half a unit before it on. -/
theorem nearestDouble_lt_iff_of_log_eq (hnormal : 2 ^ (-1022 : ℤ) ≤ x) (h : Int.log 2 x = e - 1) :
    nearestDouble x < 2 ^ e ↔ x < 2 ^ e - 2 ^ (e - 54) := by
  have hlast : 2 ^ 53 * ulp x = 2 ^ e := by
    rw [two_pow_mul_ulp hnormal, h]
    congr 1
    push_cast
    ring
  have hunder := two_zpow_split e 54
  push_cast at hunder
  have hround := roundHalfEven_lt_iff (x := x / ulp x) (n := 2 ^ (53 : ℕ)) (by norm_num)
  rw [← Int.cast_lt (R := ℚ), Int.cast_pow, Int.cast_ofNat] at hround
  have hbound : (2 ^ 53 - 1 / 2) * ulp x = 2 ^ e - 2 ^ (e - 54) := by linarith
  rw [← hbound, ← div_lt_iff₀ (ulp_pos x), ← hround, nearestDouble, ← hlast,
    mul_lt_mul_iff_left₀ (ulp_pos x)]

/-- A power of two is reached from half a unit below it on. -/
theorem nearestDouble_lt_iff (hnormal : 2 ^ (-1022 : ℤ) ≤ x) (e : ℤ) :
    nearestDouble x < 2 ^ e ↔ x < 2 ^ e - 2 ^ (e - 54) := by
  have hpos : 0 < x := (zpow_pos (by norm_num) _).trans_le hnormal
  have hsmall : (0 : ℚ) < 2 ^ (e - 54) := zpow_pos (by norm_num) _
  rcases lt_trichotomy (Int.log 2 x) (e - 1) with hlog | hlog | hlog
  · have hlt : x < 2 ^ (e - 1) := by
      exact_mod_cast (Int.lt_zpow_iff_log_lt (by norm_num) hpos).mpr hlog
    have hhalf := two_zpow_split e 1
    have hunder := two_zpow_split e 54
    push_cast at hhalf hunder
    exact iff_of_true (nearestDouble_lt_of_log_lt hnormal hlt) (by linarith)
  · exact nearestDouble_lt_iff_of_log_eq hnormal hlog
  · have hle : (2 : ℚ) ^ e ≤ x := by
      exact_mod_cast (Int.zpow_le_iff_le_log (b := 2) (by norm_num) hpos).mpr (by omega)
    exact iff_of_false (not_lt.mpr (le_nearestDouble_of_le_log hnormal (by omega)))
      (not_lt.mpr (by linarith))

end Binade

theorem nearestDouble_nonneg {x : ℚ} (hnormal : 2 ^ (-1022 : ℤ) ≤ x) : 0 ≤ nearestDouble x := by
  have hpos : 0 < x := (zpow_pos (by norm_num) _).trans_le hnormal
  have herror := abs_le.mp (abs_nearestDouble_sub_le hnormal)
  linarith [herror.1]

/-- From here on the double of a whole number is an infinity: half a unit below `2^1024`. -/
@[irreducible] def overflow : ℕ := 2 ^ 1024 - 2 ^ 970

theorem cast_two_pow_sub {m n : ℕ} (h : m ≤ n) :
    ((2 ^ n - 2 ^ m : ℕ) : ℚ) = 2 ^ (n : ℤ) - 2 ^ (m : ℤ) := by
  rw [Nat.cast_sub (Nat.pow_le_pow_right Nat.two_pos h), Nat.cast_pow, Nat.cast_pow, Nat.cast_ofNat,
    zpow_natCast, zpow_natCast]

theorem cast_overflow : (overflow : ℚ) = 2 ^ (1024 : ℤ) - 2 ^ ((1024 : ℤ) - 54) := by
  unfold overflow
  exact cast_two_pow_sub (by norm_num)

theorem nearestDouble_natCast_lt_iff (n : ℕ) : |nearestDouble n| < 2 ^ 1024 ↔ n < overflow := by
  rcases n.eq_zero_or_pos with rfl | hn
  · rw [Nat.cast_zero, nearestDouble_zero, abs_zero]
    have hpos : (0 : ℚ) < overflow := by
      rw [cast_overflow, sub_pos]
      exact zpow_lt_zpow_right₀ (by norm_num) (by norm_num)
    exact iff_of_true (pow_pos (by norm_num) _) (by exact_mod_cast hpos)
  · have hnormal := normal_of_one_le (x := n) (by exact_mod_cast hn)
    rw [abs_of_nonneg (nearestDouble_nonneg hnormal), ← Nat.cast_lt (α := ℚ), cast_overflow]
    exact nearestDouble_lt_iff hnormal 1024

/-- `Number(n)`. -/
theorem toDouble?_natCast (n : ℕ) :
    toDouble? n = if n < overflow then some (nearestDouble n) else none := by
  rw [toDouble?]
  simp only [nearestDouble_natCast_lt_iff]

/-- The product of a whole number with a factor of at most a half stays finite. -/
theorem toDouble?_mul {n : ℕ} (hn : n < overflow) {p : ℚ} (hlow : 1 / 2 ^ 100 ≤ p)
    (hhigh : p ≤ 1 / 2) :
    toDouble? (nearestDouble n * p) = some (nearestDouble (nearestDouble n * p)) ∧
      0 ≤ nearestDouble (nearestDouble n * p) := by
  have hfinite := (nearestDouble_natCast_lt_iff n).mpr hn
  rcases n.eq_zero_or_pos with rfl | hpos
  · rw [Nat.cast_zero, nearestDouble_zero, zero_mul, toDouble?, nearestDouble_zero, abs_zero]
    exact ⟨if_pos (pow_pos (by norm_num) _), le_rfl⟩
  · have hone : (1 : ℚ) ≤ n := by exact_mod_cast hpos
    have herror := abs_le.mp (abs_nearestDouble_sub_le (normal_of_one_le hone))
    have hx : 1 / 2 ≤ nearestDouble n := by linarith [herror.1]
    generalize nearestDouble n = x at hx hfinite ⊢
    have hnormal : 2 ^ (-1022 : ℤ) ≤ x * p :=
      calc (2 : ℚ) ^ (-1022 : ℤ) ≤ 2 ^ (-101 : ℤ) := zpow_le_zpow_right₀ (by norm_num) (by norm_num)
        _ = 1 / 2 * (1 / 2 ^ 100) := by norm_num
        _ ≤ x * p := mul_le_mul hx hlow (by positivity) (by linarith)
    have hnonneg := nearestDouble_nonneg hnormal
    have herror' := abs_le.mp (abs_nearestDouble_sub_le hnormal)
    have hhalf : x * p ≤ x * (1 / 2) := mul_le_mul_of_nonneg_left hhigh (by linarith)
    rw [abs_of_nonneg (by linarith)] at hfinite
    refine ⟨?_, hnonneg⟩
    rw [toDouble?, abs_of_nonneg hnonneg, if_pos]
    refine lt_of_le_of_lt ?_ hfinite
    linarith [herror'.2]

/-! ## Division by a literal -/

/-- The product with a literal a `2^54`th part above `1 / d` has the whole part of the quotient by `d`. -/
theorem floor_nearestDouble_div {n d : ℕ} (hn : n < 2 ^ 52) (hd : 0 < d) (hd' : d ≤ 2 ^ 100) :
    ⌊nearestDouble (n * ((1 + 1 / 2 ^ 54) / d))⌋ = n / d := by
  rcases n.eq_zero_or_pos with rfl | hpos
  · simp [nearestDouble_zero]
  · have hdpos : (0 : ℚ) < d := by exact_mod_cast hd
    have hnq : (n : ℚ) ≤ 2 ^ 52 := by exact_mod_cast hn.le
    have hnpos : (1 : ℚ) ≤ n := by exact_mod_cast hpos
    set x : ℚ := n * ((1 + 1 / 2 ^ 54) / d) with hx
    have hxd : x * d = n * (1 + 1 / 2 ^ 54) := by rw [hx]; field_simp
    have hlow : (n : ℚ) / d ≤ x := by
      rw [div_le_iff₀ hdpos, hxd]
      linarith
    have hnormal : 2 ^ (-1022 : ℤ) ≤ x :=
      calc (2 : ℚ) ^ (-1022 : ℤ) ≤ 2 ^ (-100 : ℤ) := zpow_le_zpow_right₀ (by norm_num) (by norm_num)
        _ = 1 / 2 ^ 100 := by rw [zpow_neg, zpow_ofNat, one_div]
        _ ≤ n / d := div_le_div₀ (by linarith) hnpos hdpos (by exact_mod_cast hd')
        _ ≤ x := hlow
    have hlt : x < 2 ^ 53 := by
      have hone : (1 : ℚ) ≤ d := by exact_mod_cast hd
      have hxpos : 0 < x := (zpow_pos (by norm_num) _).trans_le hnormal
      have hmul : x * 1 ≤ x * d := mul_le_mul_of_nonneg_left hone hxpos.le
      rw [mul_one, hxd] at hmul
      linarith
    have herror := abs_le.mp (abs_nearestDouble_sub_le hnormal)
    have hquot : ((n / d : ℕ) : ℚ) ≤ n / d := Nat.cast_div_le
    rw [Int.floor_eq_iff]
    constructor
    · have := le_nearestDouble (n := ((n / d : ℕ) : ℤ)) hnormal hlt (by exact_mod_cast hquot.trans hlow)
      exact_mod_cast this
    · -- the error is less than what is missing to the next whole number
      have hnext : ((n : ℚ) + 1) / d ≤ (n / d : ℕ) + 1 := by
        rw [div_le_iff₀ hdpos]
        have := Nat.lt_div_mul_add hd (a := n)
        have : n + 1 ≤ (n / d + 1) * d := by rw [Nat.add_mul]; omega
        exact_mod_cast this
      have hless : x + x / 2 ^ 53 < (n + 1) / d := by
        rw [lt_div_iff₀ hdpos, add_mul, div_mul_eq_mul_div, hxd]
        linarith
      have hfinal : nearestDouble x < (n / d : ℕ) + 1 := by linarith [herror.2]
      exact_mod_cast hfinal

end Lib
