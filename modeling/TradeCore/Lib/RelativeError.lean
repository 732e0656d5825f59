import TradeCore.Lib.Double

/-!
# TradeCore.Lib.RelativeError

What rounding makes of a computation with numbers that are not negative.

* `Clear e x`       `x` is zero or at least `2^e`, so that no rounding of it is lost to underflow.
* `Rounded u n x y` `y` is `x` up to `n` factors between `1 - u` and `1 + u`.

`Clear.nearestDouble` and `Rounded.nearestDouble` go one rounding on, `nearestDouble_between` is the same
between two bounds; the sum and the product of what was rounded are `Rounded.add` and `Rounded.mul`.
-/

namespace Lib

def Clear (e : ℤ) (x : ℚ) : Prop := x = 0 ∨ 2 ^ e ≤ x

/-- The unit roundoff of doubles. -/
def roundoff : ℚ := 1 / 2 ^ 53

structure Rounded (u : ℚ) (n : ℕ) (x y : ℚ) : Prop where
  low : x * (1 - u) ^ n ≤ y
  high : y ≤ x * (1 + u) ^ n

section Clear

variable {e e' : ℤ} {x y : ℚ}

theorem Clear.zero (e : ℤ) : Clear e 0 := .inl rfl

theorem Clear.nonneg (h : Clear e x) : 0 ≤ x := by
  rcases h with rfl | h
  · exact le_rfl
  · exact (zpow_pos (by norm_num) _).le.trans h

theorem Clear.mono (h : Clear e x) (he : e' ≤ e) : Clear e' x :=
  h.imp id fun hle => (zpow_le_zpow_right₀ (by norm_num) he).trans hle

theorem Clear.add (hx : Clear e x) (hy : Clear e y) : Clear e (x + y) := by
  rcases hx with rfl | hx
  · rwa [zero_add]
  · exact .inr (hx.trans (le_add_of_nonneg_right hy.nonneg))

theorem Clear.mul (hx : Clear e x) (hy : Clear e' y) : Clear (e + e') (x * y) := by
  rcases hx with rfl | hx
  · rw [zero_mul]
    exact .zero _
  · rcases hy with rfl | hy
    · rw [mul_zero]
      exact .zero _
    · refine .inr ?_
      rw [zpow_add₀ (by norm_num)]
      exact mul_le_mul hx hy (zpow_pos (by norm_num) _).le ((zpow_pos (by norm_num) _).le.trans hx)

/-- A power of two is a double, and no number above it is rounded to one below. -/
theorem Clear.nearestDouble (he : -1022 ≤ e) (h : Clear e x) : Clear e (nearestDouble x) := by
  rcases h with rfl | h
  · rw [nearestDouble_zero]
    exact .zero e
  · have hpos : 0 < x := (zpow_pos (by norm_num) _).trans_le h
    have hnormal : (2 : ℚ) ^ (-1022 : ℤ) ≤ x := (zpow_le_zpow_right₀ (by norm_num) he).trans h
    exact .inr (le_nearestDouble_of_le_log hnormal
      ((Int.zpow_le_iff_le_log (b := 2) (by norm_num) hpos).mp (by exact_mod_cast h)))

end Clear

section Rounded

variable {u x x' y y' : ℚ} {n m : ℕ}

theorem Rounded.refl (u x : ℚ) : Rounded u 0 x x := ⟨by simp, by simp⟩

theorem Rounded.zero (u : ℚ) (n : ℕ) : Rounded u n 0 0 := ⟨by simp, by simp⟩

theorem Rounded.add (h : Rounded u n x y) (h' : Rounded u n x' y') : Rounded u n (x + x') (y + y') where
  low := by
    rw [add_mul]
    exact add_le_add h.low h'.low
  high := by
    rw [add_mul]
    exact add_le_add h.high h'.high

variable (hu : 0 ≤ u) (hu1 : u ≤ 1)
include hu hu1

theorem Rounded.mono (h : Rounded u n x y) (hx : 0 ≤ x) (hnm : n ≤ m) : Rounded u m x y where
  low := (mul_le_mul_of_nonneg_left (pow_le_pow_of_le_one (by linarith) (by linarith) hnm) hx).trans h.low
  high := h.high.trans (mul_le_mul_of_nonneg_left (pow_le_pow_right₀ (by linarith) hnm) hx)

theorem Rounded.mul (h : Rounded u n x y) (h' : Rounded u m x' y') (hx : 0 ≤ x) (hx' : 0 ≤ x') :
    Rounded u (n + m) (x * x') (y * y') where
  low := by
    have hlow : 0 ≤ x' * (1 - u) ^ m := mul_nonneg hx' (pow_nonneg (by linarith) m)
    have hy : 0 ≤ y := (mul_nonneg hx (pow_nonneg (by linarith) n)).trans h.low
    calc x * x' * (1 - u) ^ (n + m) = x * (1 - u) ^ n * (x' * (1 - u) ^ m) := by ring
      _ ≤ y * y' := mul_le_mul h.low h'.low hlow hy
  high := by
    have hy' : 0 ≤ y' := (mul_nonneg hx' (pow_nonneg (by linarith) m)).trans h'.low
    have hhigh : 0 ≤ x * (1 + u) ^ n := mul_nonneg hx (pow_nonneg (by linarith) n)
    calc y * y' ≤ x * (1 + u) ^ n * (x' * (1 + u) ^ m) := mul_le_mul h.high h'.high hy' hhigh
      _ = x * x' * (1 + u) ^ (n + m) := by ring

end Rounded

theorem roundoff_nonneg : 0 ≤ roundoff := by norm_num [roundoff]

theorem roundoff_le_one : roundoff ≤ 1 := by norm_num [roundoff]

theorem Rounded.pos {x y : ℚ} {n : ℕ} (h : Rounded roundoff n x y) (hx : 0 < x) : 0 < y :=
  (mul_pos hx (pow_pos (by norm_num [roundoff]) n)).trans_le h.low

/-- One rounding of a number between `a` and `b`. -/
theorem nearestDouble_between {a b y : ℚ} {e : ℤ} (he : -1022 ≤ e) (ha : Clear e a) (hb : Clear e b)
    (hlow : a ≤ y) (hhigh : y ≤ b) :
    a * (1 - roundoff) ≤ nearestDouble y ∧ nearestDouble y ≤ b * (1 + roundoff) := by
  have hy : 0 ≤ y := ha.nonneg.trans hlow
  rcases le_or_gt (2 ^ (-1022 : ℤ)) y with hnormal | hsmall
  · have := abs_le.mp (abs_nearestDouble_sub_le hnormal)
    have ha := ha.nonneg
    constructor <;> rw [roundoff] <;> linarith [this.1, this.2]
  · -- a number below the normal ones is above no bound but zero, and rounding adds next to nothing
    have hzero : a = 0 := ha.resolve_right fun h =>
      absurd (((zpow_le_zpow_right₀ (by norm_num) he).trans h).trans hlow) (not_le.mpr hsmall)
    rw [hzero, zero_mul]
    refine ⟨nearestDouble_nonneg' hy, ?_⟩
    rcases hb with rfl | hb
    · rw [le_antisymm hhigh hy, nearestDouble_zero]
      simp
    rcases hy.eq_or_lt with rfl | hpos
    · rw [nearestDouble_zero]
      exact mul_nonneg ((zpow_pos (by norm_num) _).le.trans hb) (by norm_num [roundoff])
    · have hb : (2 : ℚ) ^ (-1022 : ℤ) ≤ b := (zpow_le_zpow_right₀ (by norm_num) he).trans hb
      have herror := abs_le.mp (abs_nearestDouble_sub_le_ulp y)
      rw [ulp_of_lt hpos hsmall] at herror
      have hroom := mul_le_mul_of_nonneg_right hb roundoff_nonneg
      have hhalf : (2 : ℚ) ^ (-1022 : ℤ) * (1 / 2 ^ 52) / 2 = 2 ^ (-1022 : ℤ) * roundoff := by
        rw [roundoff]
        ring
      linarith [herror.2]

/-- A rounding more. -/
theorem Rounded.nearestDouble {x y : ℚ} {n : ℕ} {e : ℤ} (h : Rounded roundoff n x y) (he : -1022 ≤ e)
    (hy : Clear e y) : Rounded roundoff (n + 1) x (nearestDouble y) := by
  have herror := nearestDouble_between he hy hy le_rfl le_rfl
  have hpos : (0 : ℚ) ≤ 1 - roundoff := by norm_num [roundoff]
  have hpos' : (0 : ℚ) ≤ 1 + roundoff := by norm_num [roundoff]
  constructor
  · calc x * (1 - roundoff) ^ (n + 1) = x * (1 - roundoff) ^ n * (1 - roundoff) := by ring
      _ ≤ y * (1 - roundoff) := mul_le_mul_of_nonneg_right h.low hpos
      _ ≤ Lib.nearestDouble y := herror.1
  · calc Lib.nearestDouble y ≤ y * (1 + roundoff) := herror.2
      _ ≤ x * (1 + roundoff) ^ n * (1 + roundoff) := mul_le_mul_of_nonneg_right h.high hpos'
      _ = x * (1 + roundoff) ^ (n + 1) := by ring

end Lib
