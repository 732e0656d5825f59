import Mathlib.Algebra.Order.Field.Basic
import Mathlib.Tactic.Linarith
import Mathlib.Tactic.Ring

/-!
# TradeCore.Lib.Bisection

A bracket that is halved a fixed number of times: where the midpoint is `below`, the lower end moves
there, else the upper end. The bracket that is left has the width of the first one over a power of two
(`bisect_width`), and each end is either the first one or a point that was tried.
-/

namespace Lib

section Bisection

variable {K : Type} [Field K] (below : K → Prop) [DecidablePred below]

def bisect : ℕ → K → K → K × K
  | 0, low, high => (low, high)
  | n + 1, low, high =>
    if below ((low + high) / 2) then bisect n ((low + high) / 2) high
    else bisect n low ((low + high) / 2)

theorem bisect_fst (n : ℕ) (low high : K) :
    (bisect below n low high).1 = low ∨ below (bisect below n low high).1 := by
  induction n generalizing low high with
  | zero => exact .inl rfl
  | succ n ih =>
    rw [bisect]
    split
    next hmid =>
      rcases ih ((low + high) / 2) high with heq | hlow
      · exact .inr (by rwa [heq])
      · exact .inr hlow
    next => exact ih low _

theorem bisect_snd (n : ℕ) (low high : K) :
    (bisect below n low high).2 = high ∨ ¬below (bisect below n low high).2 := by
  induction n generalizing low high with
  | zero => exact .inl rfl
  | succ n ih =>
    rw [bisect]
    split
    next => exact ih _ high
    next hmid =>
      rcases ih low ((low + high) / 2) with heq | hhigh
      · exact .inr (by rwa [heq])
      · exact .inr hhigh

variable [LinearOrder K] [IsStrictOrderedRing K]

theorem bisect_width (n : ℕ) (low high : K) :
    (bisect below n low high).2 - (bisect below n low high).1 = (high - low) / 2 ^ n := by
  induction n generalizing low high with
  | zero => simp [bisect]
  | succ n ih =>
    rw [bisect]
    split <;> rw [ih, pow_succ', ← div_div] <;> ring

theorem le_bisect_fst (n : ℕ) {low high : K} (h : low ≤ high) : low ≤ (bisect below n low high).1 := by
  induction n generalizing low high with
  | zero => exact le_refl low
  | succ n ih =>
    have hmid : low ≤ (low + high) / 2 := by linarith
    rw [bisect]
    split
    · exact hmid.trans (ih (by linarith))
    · exact ih hmid

end Bisection

end Lib
