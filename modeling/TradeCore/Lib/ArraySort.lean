import TradeCore.Lib.StableSort

/-!
# TradeCore.Lib.ArraySort

`Array.prototype.sort` with a comparator, as far as the language fixes it. Only the sign of what the
comparator returns counts, and `none` is `NaN`. A comparator that goes by a key sorts stably by the key;
of any other one it is left to the runtime which permutation comes out.

`insertion` is a sort that a runtime may have: insertion sort, with `NaN` taken for equal.
-/

namespace Lib

class ArraySort where
  sort {α : Type} (compare : α → α → Option Ordering) (l : List α) : List α
  sort_perm {α : Type} (compare : α → α → Option Ordering) (l : List α) : (sort compare l).Perm l
  sort_eq {α κ : Type} [LinearOrder κ] {compare : α → α → Option Ordering} (key : α → κ) {l : List α}
    (h : ∀ a ∈ l, ∀ b ∈ l, compare a b = some (cmp (key a) (key b))) :
    sort compare l = l.insertionSort fun a b => key a ≤ key b

namespace Insertion

scoped instance insertion : ArraySort where
  sort compare l := l.insertionSort fun a b => compare a b ≠ some .gt
  sort_perm compare l := List.perm_insertionSort _ l
  sort_eq key l h := insertionSort_congr fun a ha b hb => by
    rw [h a ha b hb, Ne, Option.some.injEq, cmp_eq_gt_iff, not_lt]

end Insertion

end Lib
