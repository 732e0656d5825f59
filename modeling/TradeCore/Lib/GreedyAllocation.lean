import Mathlib.Algebra.BigOperators.Ring.Finset
import Mathlib.Algebra.Order.BigOperators.Group.Finset
import Mathlib.Data.Finset.Max
import Mathlib.Tactic.Linarith
import Mathlib.Tactic.Ring

/-!
# TradeCore.Lib.GreedyAllocation

Equal units are given to takers one after the other, each to a taker that gains most by it. When the
gains of every taker diminish, the allocation is `Balanced` after every unit: nobody would gain more
by the next unit than anybody gained by the last. A balanced allocation is best among all that give
away as many units (`Balanced.optimal`). `firstBest` is the loop that finds such a taker.
-/

namespace Lib

section FirstBest

variable {α K : Type} [LinearOrder K]

/-- The first element with the highest key, as a loop that replaces the best so far finds it. -/
def firstBest (key : α → K) (first : α) (l : List α) : α :=
  l.foldl (fun best a => if key best < key a then a else best) first

theorem firstBest_spec (key : α → K) (first : α) (l : List α) :
    firstBest key first l ∈ first :: l ∧ (∀ a ∈ first :: l, key a ≤ key (firstBest key first l)) ∧
      (firstBest key first l = first ∨ key first < key (firstBest key first l)) := by
  induction l generalizing first with
  | nil => exact ⟨by simp [firstBest], by simp [firstBest], .inl rfl⟩
  | cons a l ih =>
    obtain ⟨hmem, hall, hgrows⟩ := ih (if key first < key a then a else first)
    have hbest : firstBest key first (a :: l) =
        firstBest key (if key first < key a then a else first) l := rfl
    rw [hbest]
    obtain ⟨hhead, hrest⟩ := List.forall_mem_cons.mp hall
    by_cases hlt : key first < key a
    · rw [if_pos hlt] at hmem hhead hrest ⊢
      exact ⟨List.mem_cons_of_mem _ hmem,
        List.forall_mem_cons.mpr ⟨hlt.le.trans hhead, List.forall_mem_cons.mpr ⟨hhead, hrest⟩⟩,
        .inr (hlt.trans_le hhead)⟩
    · rw [if_neg hlt] at hmem hhead hgrows hrest ⊢
      refine ⟨?_, List.forall_mem_cons.mpr ⟨hhead, List.forall_mem_cons.mpr ⟨?_, hrest⟩⟩, hgrows⟩
      · rcases List.mem_cons.mp hmem with heq | hmem
        · simp [heq]
        · simp [hmem]
      · exact (not_lt.mp hlt).trans hhead

end FirstBest

section GreedyAllocation

variable {ι K : Type} [CommRing K] [LinearOrder K] (value : ι → ℕ → K)

def gain (i : ι) (n : ℕ) : K := value i (n + 1) - value i n

def Diminishing (takers : Finset ι) : Prop := ∀ i ∈ takers, ∀ n, gain value i (n + 1) ≤ gain value i n

def Balanced (takers : Finset ι) (k : ι → ℕ) : Prop :=
  ∀ i ∈ takers, ∀ j ∈ takers, 0 < k i → gain value j (k j) ≤ gain value i (k i - 1)

/-- One more unit for `i`. -/
def give [DecidableEq ι] (i : ι) (k : ι → ℕ) : ι → ℕ := Function.update k i (k i + 1)

variable {value} {takers : Finset ι} {k : ι → ℕ} {i : ι}

@[simp] theorem give_self [DecidableEq ι] (i : ι) (k : ι → ℕ) : give i k i = k i + 1 :=
  Function.update_self ..

theorem give_of_ne [DecidableEq ι] {j : ι} (h : j ≠ i) (k : ι → ℕ) : give i k j = k j :=
  Function.update_of_ne h ..

theorem sum_give [DecidableEq ι] (hi : i ∈ takers) (k : ι → ℕ) :
    ∑ j ∈ takers, give i k j = ∑ j ∈ takers, k j + 1 := by
  rw [← Finset.add_sum_erase _ _ hi, ← Finset.add_sum_erase takers k hi, give_self]
  have : ∑ j ∈ takers.erase i, give i k j = ∑ j ∈ takers.erase i, k j :=
    Finset.sum_congr rfl fun j hj => give_of_ne (Finset.ne_of_mem_erase hj) k
  omega

theorem balanced_zero : Balanced value takers fun _ => 0 := by
  intro i _ j _ h
  exact absurd h (Nat.lt_irrefl 0)

theorem Balanced.give [DecidableEq ι] (hd : Diminishing value takers) (h : Balanced value takers k)
    (hi : i ∈ takers) (hbest : ∀ j ∈ takers, gain value j (k j) ≤ gain value i (k i)) :
    Balanced value takers (give i k) := by
  -- nobody gains more by the next unit than before
  have hnext : ∀ j ∈ takers, gain value j (Lib.give i k j) ≤ gain value j (k j) := by
    intro j hj
    by_cases hji : j = i
    · subst hji
      rw [give_self]
      exact hd j hj _
    · rw [give_of_ne hji]
  intro m hm j hj hpos
  by_cases hmi : m = i
  · subst hmi
    rw [give_self, Nat.add_sub_cancel]
    exact (hnext j hj).trans (hbest j hj)
  · rw [give_of_ne hmi] at hpos ⊢
    exact (hnext j hj).trans (h m hm j hj hpos)

theorem Diminishing.anti (hd : Diminishing value takers) (hi : i ∈ takers) {m n : ℕ} (hmn : m ≤ n) :
    gain value i n ≤ gain value i m := by
  induction n, hmn using Nat.le_induction with
  | base => exact le_refl _
  | succ n _ ih => exact (hd i hi n).trans ih

variable [IsStrictOrderedRing K]

/-- A price per unit between the last gain and the next bounds every other number of units. -/
theorem value_le (hd : Diminishing value takers) (hi : i ∈ takers) {m : ℕ} {price : K}
    (hnext : gain value i m ≤ price) (hlast : 0 < m → price ≤ gain value i (m - 1)) (n : ℕ) :
    value i n ≤ value i m + ((n : K) - m) * price := by
  rcases Nat.le_total m n with hmn | hnm
  · induction n, hmn using Nat.le_induction with
    | base => simp
    | succ n hmn ih =>
      have hstep : gain value i n ≤ price := (hd.anti hi hmn).trans hnext
      unfold gain at hstep
      push_cast
      linarith
  · induction hnm using Nat.decreasingInduction with
    | self => simp
    | of_succ n hn ih =>
      have hstep : price ≤ gain value i n :=
        (hlast (Nat.zero_lt_of_lt hn)).trans (hd.anti hi (Nat.le_sub_one_of_lt hn))
      unfold gain at hstep
      push_cast at ih
      linarith

theorem Balanced.optimal (hd : Diminishing value takers) (h : Balanced value takers k) {k' : ι → ℕ}
    (hsum : ∑ i ∈ takers, k' i = ∑ i ∈ takers, k i) :
    ∑ i ∈ takers, value i (k' i) ≤ ∑ i ∈ takers, value i (k i) := by
  rcases takers.eq_empty_or_nonempty with rfl | hne
  · simp
  obtain ⟨best, hbest, hmax⟩ := takers.exists_max_image (fun i => gain value i (k i)) hne
  -- the best of the next gains is the price
  have hle : ∀ i ∈ takers,
      value i (k' i) ≤ value i (k i) + ((k' i : K) - k i) * gain value best (k best) := fun i hi =>
    value_le hd hi (hmax i hi) (h i hi best hbest) (k' i)
  have hzero : ∑ i ∈ takers, ((k' i : K) - k i) = 0 := by
    rw [Finset.sum_sub_distrib, ← Nat.cast_sum, ← Nat.cast_sum, hsum, sub_self]
  calc ∑ i ∈ takers, value i (k' i)
      ≤ ∑ i ∈ takers, (value i (k i) + ((k' i : K) - k i) * gain value best (k best)) :=
        Finset.sum_le_sum hle
    _ = ∑ i ∈ takers, value i (k i) := by
        rw [Finset.sum_add_distrib, ← Finset.sum_mul, hzero, zero_mul, add_zero]

end GreedyAllocation

end Lib
