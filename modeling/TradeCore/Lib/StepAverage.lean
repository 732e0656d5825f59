import Mathlib.Algebra.Order.Field.Basic
import Mathlib.Tactic.Linarith
import Mathlib.Tactic.Ring

/-!
# TradeCore.Lib.StepAverage

Samples of a value, each a time and the value from then on: the average over the time between the first
sample and the last. Over samples in the order of time it lies between any bounds of the values
(`stepAverage_between`), and the value of a sample counts with the time up to the next one
(`stepAverage_change`).
-/

namespace Lib

section StepAverage

variable {K : Type} [Field K]

def stepSum : List (K × K) → K
  | p :: q :: rest => p.2 * (q.1 - p.1) + stepSum (q :: rest)
  | _ => 0

def span : List (K × K) → K
  | p :: q :: rest => q.1 - p.1 + span (q :: rest)
  | _ => 0

theorem span_eq (p : K × K) (rest : List (K × K)) : span (p :: rest) = (rest.getLast?.getD p).1 - p.1 := by
  induction rest generalizing p with
  | nil => simp [span]
  | cons q rest ih =>
    rw [span, ih q, List.getLast?_cons]
    simp

/-- A sample's value counts once, for the time up to the next sample. -/
theorem stepSum_change (before after : List (K × K)) (p q : K × K) (v : K) :
    stepSum (before ++ (p.1, v) :: q :: after) =
      stepSum (before ++ p :: q :: after) + (v - p.2) * (q.1 - p.1) := by
  induction before with
  | nil =>
    simp only [List.nil_append, stepSum]
    ring
  | cons a before ih =>
    cases before with
    | nil =>
      simp only [List.cons_append, List.nil_append, stepSum]
      ring
    | cons b before =>
      simp only [List.cons_append, stepSum] at ih ⊢
      rw [ih]
      ring

theorem span_change (before after : List (K × K)) (p : K × K) (v : K) :
    span (before ++ (p.1, v) :: after) = span (before ++ p :: after) := by
  induction before with
  | nil => cases after <;> simp [span]
  | cons a before ih =>
    cases before with
    | nil => cases after <;> simp [span]
    | cons b before =>
      simp only [List.cons_append, span] at ih ⊢
      rw [ih]

variable [LinearOrder K]

def stepAverage (samples : List (K × K)) : K :=
  if 0 < span samples then stepSum samples / span samples else 0

variable [IsStrictOrderedRing K] {samples : List (K × K)}

theorem stepSum_between (hsorted : samples.Pairwise fun p q => p.1 ≤ q.1) {lo hi : K}
    (h : ∀ p ∈ samples, lo ≤ p.2 ∧ p.2 ≤ hi) :
    lo * span samples ≤ stepSum samples ∧ stepSum samples ≤ hi * span samples := by
  induction samples with
  | nil => simp [span, stepSum]
  | cons p rest ih =>
    obtain ⟨hfirst, hsorted⟩ := List.pairwise_cons.mp hsorted
    obtain ⟨⟨hlo, hhi⟩, hrest⟩ := List.forall_mem_cons.mp h
    cases rest with
    | nil => simp [span, stepSum]
    | cons q rest =>
      obtain ⟨hlow, hhigh⟩ := ih hsorted hrest
      have htime : 0 ≤ q.1 - p.1 := sub_nonneg.mpr (hfirst q (by simp))
      rw [span, stepSum, mul_add, mul_add]
      exact ⟨add_le_add (mul_le_mul_of_nonneg_right hlo htime) hlow,
        add_le_add (mul_le_mul_of_nonneg_right hhi htime) hhigh⟩

theorem sub_le_span {p q : K × K} (hsorted : samples.Pairwise fun p q => p.1 ≤ q.1) (hp : p ∈ samples)
    (hq : q ∈ samples) : q.1 - p.1 ≤ span samples := by
  have hfirst : ∀ (rest : List (K × K)) (a : K × K), (a :: rest).Pairwise (fun p q => p.1 ≤ q.1) →
      ∀ q ∈ a :: rest, q.1 - a.1 ≤ span (a :: rest) := by
    intro rest
    induction rest with
    | nil => simp [span]
    | cons b rest ih =>
      intro a hsorted q hq
      obtain ⟨hle, hrest⟩ := List.pairwise_cons.mp hsorted
      have hab : a.1 ≤ b.1 := hle b (by simp)
      rw [span]
      rcases List.mem_cons.mp hq with heq | hq
      · have := ih b hrest b (by simp)
        rw [heq]
        linarith
      · have := ih b hrest q hq
        linarith
  cases samples with
  | nil => cases hp
  | cons a rest =>
    have hle : a.1 ≤ p.1 := by
      rcases List.mem_cons.mp hp with rfl | hp
      · exact le_refl _
      · exact List.rel_of_pairwise_cons hsorted hp
    have := hfirst rest a hsorted q hq
    linarith

theorem stepAverage_between (hsorted : samples.Pairwise fun p q => p.1 ≤ q.1) (hspan : 0 < span samples)
    {lo hi : K} (h : ∀ p ∈ samples, lo ≤ p.2 ∧ p.2 ≤ hi) :
    lo ≤ stepAverage samples ∧ stepAverage samples ≤ hi := by
  rw [stepAverage, if_pos hspan, le_div_iff₀ hspan, div_le_iff₀ hspan]
  exact stepSum_between hsorted h

omit [IsStrictOrderedRing K] in
theorem stepAverage_change {before after : List (K × K)} {p q : K × K}
    (hspan : 0 < span (before ++ p :: q :: after)) (v : K) :
    stepAverage (before ++ (p.1, v) :: q :: after) =
      stepAverage (before ++ p :: q :: after) +
        (v - p.2) * (q.1 - p.1) / span (before ++ p :: q :: after) := by
  rw [stepAverage, stepAverage, span_change, if_pos hspan, if_pos hspan, stepSum_change, add_div]

end StepAverage

end Lib
