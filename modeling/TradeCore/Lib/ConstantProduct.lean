import Mathlib.Algebra.Order.Field.Basic
import Mathlib.Tactic.FieldSimp
import Mathlib.Tactic.Linarith
import Mathlib.Tactic.Positivity
import Mathlib.Tactic.Ring

/-!
# TradeCore.Lib.ConstantProduct

The curve of a constant-product pool whose two reserves are equal: what comes out for an amount `w`
that goes in. The more is in already, the less another amount brings (`curve_gain_anti`), and the
output stays below what the reserves leave of the input (`curve_mul_le`).
-/

namespace Lib

section ConstantProduct

variable {K : Type} [Field K] [LinearOrder K] [IsStrictOrderedRing K]

def curve (r w : K) : K := w * r / (r + w)

omit [LinearOrder K] [IsStrictOrderedRing K] in
@[simp] theorem curve_zero (r : K) : curve r 0 = 0 := by simp [curve]

variable {r w w' d x : K}

theorem curve_gain (hr : 0 < r) (hw : 0 ≤ w) (hd : 0 ≤ d) :
    curve r (w + d) - curve r w = d * r ^ 2 / ((r + w) * (r + (w + d))) := by
  have h1 : r + w ≠ 0 := by positivity
  have h2 : r + (w + d) ≠ 0 := by positivity
  unfold curve
  rw [div_sub_div _ _ h2 h1, div_eq_div_iff (mul_ne_zero h2 h1) (mul_ne_zero h1 h2)]
  ring

theorem curve_gain_nonneg (hr : 0 < r) (hw : 0 ≤ w) (hd : 0 ≤ d) :
    0 ≤ curve r (w + d) - curve r w := by
  rw [curve_gain hr hw hd]
  positivity

theorem curve_gain_pos (hr : 0 < r) (hw : 0 ≤ w) (hd : 0 < d) :
    0 < curve r (w + d) - curve r w := by
  rw [curve_gain hr hw hd.le]
  positivity

theorem curve_gain_anti (hr : 0 < r) (hw : 0 ≤ w) (hww : w ≤ w') (hd : 0 ≤ d) :
    curve r (w' + d) - curve r w' ≤ curve r (w + d) - curve r w := by
  have hw' : 0 ≤ w' := hw.trans hww
  rw [curve_gain hr hw' hd, curve_gain hr hw hd]
  have hle : (r + w) * (r + (w + d)) ≤ (r + w') * (r + (w' + d)) := by gcongr
  have hpos : 0 < (r + w) * (r + (w + d)) := by positivity
  gcongr

theorem curve_mul_le (hr : 0 < r) (hw : 0 ≤ w) (hwx : w ≤ x) : curve r w * (r + x) ≤ x * r := by
  have hpos : 0 < r + w := by positivity
  unfold curve
  rw [div_mul_eq_mul_div, div_le_iff₀ hpos]
  have h : w * r * r ≤ x * r * r := by gcongr
  linarith [mul_comm (w * r) x, mul_assoc x w r]

end ConstantProduct

end Lib
