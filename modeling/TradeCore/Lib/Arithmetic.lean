import TradeCore.Lib.Double
import TradeCore.Lib.Rounding

/-!
# TradeCore.Lib.Arithmetic

Programs that keep numbers as decimal texts, compute with the numbers of a JavaScript runtime and store
them in `numeric` columns.

A number is represented by the decimal that prints it. `Arithmetic` says how two of them are added and
subtracted and what a column keeps of one, so that one definition of a program can be read with either
meaning:

* `Exact.arithmetic`: nothing is rounded.
* `Doubles.arithmetic`: a text is read as the double next to it, the sum and the difference are the
  doubles next to the exact ones, printed with as few digits as tell them from the other doubles, and a
  column rounds to its scale.
-/

namespace Lib

/-- The decimal with `k + 1` digits that prints the double `x`: the one next to `x`, or else on either
side of it, that is read back as `x`. -/
def printedWith (k : ℕ) (x : ℚ) : Option ℚ :=
  let unit : ℚ := 10 ^ (Int.log 10 |x| - k)
  ([roundHalfEven (x / unit), ⌊x / unit⌋, ⌈x / unit⌉].map fun s => s * unit).find? (nearestDouble · = x)

/-- `toString` of the double `x`, as a number; 17 digits are enough for every double. -/
def printed (x : ℚ) : ℚ := ((List.range 17).findSome? (printedWith · x)).getD x

class Arithmetic where
  add : ℚ → ℚ → ℚ
  sub : ℚ → ℚ → ℚ
  /-- What a column with this many decimals keeps. -/
  column : ℕ → ℚ → ℚ

namespace Exact

scoped instance arithmetic : Arithmetic where
  add a b := a + b
  sub a b := a - b
  column _ x := x

@[simp] theorem add_eq (a b : ℚ) : Arithmetic.add a b = a + b := rfl

@[simp] theorem sub_eq (a b : ℚ) : Arithmetic.sub a b = a - b := rfl

@[simp] theorem column_eq (scale : ℕ) (x : ℚ) : Arithmetic.column scale x = x := rfl

end Exact

namespace Doubles

scoped instance arithmetic : Arithmetic where
  add a b := printed (nearestDouble (nearestDouble a + nearestDouble b))
  sub a b := printed (nearestDouble (nearestDouble a - nearestDouble b))
  column := roundTo

end Doubles

end Lib
