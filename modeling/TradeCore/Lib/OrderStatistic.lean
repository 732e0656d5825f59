import Mathlib.Data.List.Sort

/-!
# TradeCore.Lib.OrderStatistic

The element at an index of a list in ascending order: at most `i` elements are below `x` if and only if
`x` is at most the `i`-th smallest one (`countP_lt_le_iff`).
-/

namespace Lib

section OrderStatistic

variable {α : Type} [LinearOrder α]

def ascending (l : List α) : List α := l.insertionSort (· ≤ ·)

theorem length_ascending (l : List α) : (ascending l).length = l.length :=
  List.length_insertionSort _ l

theorem ascending_perm (l : List α) : (ascending l).Perm l := List.perm_insertionSort _ l

theorem pairwise_ascending (l : List α) : (ascending l).Pairwise (· ≤ ·) :=
  List.pairwise_insertionSort _ l

theorem countP_lt_eq_zero {l : List α} {x : α} (h : ∀ b ∈ l, x ≤ b) : l.countP (· < x) = 0 := by
  refine List.countP_eq_zero.mpr fun b hb hlt => ?_
  exact absurd (of_decide_eq_true hlt) (not_lt.mpr (h b hb))

theorem countP_lt_le_iff_of_sorted {l : List α} (h : l.Pairwise (· ≤ ·)) {i : ℕ} {a x : α}
    (hi : l[i]? = some a) : l.countP (· < x) ≤ i ↔ x ≤ a := by
  induction l generalizing i with
  | nil => simp at hi
  | cons b l ih =>
    obtain ⟨hb, hl⟩ := List.pairwise_cons.mp h
    by_cases hlt : b < x
    · simp only [List.countP_cons, hlt, decide_true, if_true]
      cases i with
      | zero =>
        obtain rfl : b = a := by simpa using hi
        simp [hlt]
      | succ i =>
        rw [List.getElem?_cons_succ] at hi
        rw [Nat.add_le_add_iff_right, ih hl hi]
    · -- nothing is below `x` from here on
      have hle : x ≤ b := not_lt.mp hlt
      have hall : ∀ c ∈ b :: l, x ≤ c := by
        intro c hc
        rcases List.mem_cons.mp hc with rfl | hc
        · exact hle
        · exact hle.trans (hb c hc)
      rw [countP_lt_eq_zero hall]
      exact iff_of_true (Nat.zero_le i) (hall a (List.mem_of_getElem? hi))

theorem countP_lt_le_iff {l : List α} {i : ℕ} {a x : α} (hi : (ascending l)[i]? = some a) :
    l.countP (· < x) ≤ i ↔ x ≤ a := by
  rw [← (ascending_perm l).countP_eq]
  exact countP_lt_le_iff_of_sorted (pairwise_ascending l) hi

end OrderStatistic

end Lib
