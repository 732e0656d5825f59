import Mathlib.Order.Bounds.Basic
import Mathlib.Algebra.Order.Group.MinMax
import Mathlib.Algebra.Order.Floor.Semiring
import Mathlib.Algebra.Order.BigOperators.Group.List
import TradeCore.Lib.OrderStatistic
import TradeCore.Lib.Rounding
import TradeCore.Risk.Liquidation

/-!
# TradeCore.Risk.ValueAtRisk

`ValueAtRiskService`: the loss that a series of returns does not exceed with a confidence, as an element of
the sorted series, and the one of a portfolio. `historical_isLeast` says which quantile it is.

The series of a portfolio is as long as the first series in the order of the positions
(`portfolioReturns_eq`); `calculate_perm_iff` says when that order does not matter.
-/

namespace TradeCore
namespace Risk

open Lib

inductive VarMethod where
  | historical
  | parametric
  deriving DecidableEq, Repr

/-- Without the clock's part of the result. -/
structure VaRResult where
  valueAtRisk95 : ℚ
  valueAtRisk99 : ℚ
  method : VarMethod
  sampleSize : ℕ
  deriving DecidableEq, Repr

namespace ValueAtRiskService

/-- For a confidence of at most 1; above it the source reads before the first return. -/
def historical (returns : List ℚ) (confidence : ℚ) : ℚ :=
  match returns with
  | [] => 0
  | _ :: _ =>
    let sorted := ascending returns
    let index := ⌊(1 - confidence) * sorted.length⌋₊
    let percentile := (sorted[min index (sorted.length - 1)]?).getD 0
    |min 0 percentile|

def positionValue (position : Position) : ℚ := |position.quantity| * position.currentPrice

def unrealizedPnl (position : Position) : ℚ :=
  let direction := if position.quantity < 0 then -1 else 1
  direction * (position.currentPrice - position.entryPrice) * |position.quantity|

/-- `portfolioReturns[i] += returns[i] * weight` for the indices both series have. -/
def addScaled (weight : ℚ) : List ℚ → List ℚ → List ℚ
  | [], _ => []
  | sum, [] => sum
  | sum :: sums, r :: returns => (sum + r * weight) :: addScaled weight sums returns

/-- The two variables of the loop. -/
structure Series where
  portfolioReturns : List ℚ
  sampleSize : ℕ
  deriving DecidableEq, Repr

def accumulate (totalValue : ℚ) (returnsByAsset : String → Option (List ℚ)) (s : Series)
    (position : Position) : Series :=
  match returnsByAsset position.asset with
  | none | some [] => s
  | some (r :: returns) =>
    let weight := positionValue position / totalValue
    let zeroed := if s.portfolioReturns.length = 0 then (r :: returns).map fun _ => 0 else s.portfolioReturns
    { portfolioReturns := addScaled weight zeroed (r :: returns)
      sampleSize := max s.sampleSize (r :: returns).length }

section Calculate

-- the variance-covariance method, which takes roots and logarithms
variable (parametric : List ℚ → ℚ → ℚ)

def portfolioVar (returns : List ℚ) (confidence : ℚ) (method : VarMethod) : ℚ :=
  match returns, method with
  | [], _ => 0
  | _ :: _, .historical => historical returns confidence
  | _ :: _, .parametric => parametric returns confidence

def totalValue (positions : List Position) : ℚ :=
  positions.foldl (fun sum position => sum + positionValue position) 0

def series (positions : List Position) (returnsByAsset : String → Option (List ℚ)) : Series :=
  if 0 < totalValue positions then
    positions.foldl (accumulate (totalValue positions) returnsByAsset) ⟨[], 0⟩
  else ⟨[], 0⟩

def calculate (positions : List Position) (returnsByAsset : String → Option (List ℚ))
    (method : VarMethod) : VaRResult :=
  let s := series positions returnsByAsset
  { valueAtRisk95 := portfolioVar parametric s.portfolioReturns (95 / 100) method * totalValue positions
    valueAtRisk99 := portfolioVar parametric s.portfolioReturns (99 / 100) method * totalValue positions
    method := method
    sampleSize := s.sampleSize }

end Calculate

/-! ## The quantile -/

theorem floor_lt_length {returns : List ℚ} (hne : returns ≠ []) {c : ℚ} (hpos : 0 < c) (hlt : c < 1) :
    ⌊(1 - c) * returns.length⌋₊ < returns.length := by
  have hlen : (0 : ℚ) < returns.length := by exact_mod_cast List.length_pos_iff.mpr hne
  have hrest : (1 - c) * returns.length < returns.length := by nlinarith
  exact (Nat.floor_lt (mul_nonneg (sub_nonneg.mpr hlt.le) hlen.le)).mpr hrest

theorem historical_eq {returns : List ℚ} (hne : returns ≠ []) {c : ℚ} (hpos : 0 < c) (hlt : c < 1) :
    ∃ percentile, (ascending returns)[⌊(1 - c) * returns.length⌋₊]? = some percentile ∧
      historical returns c = max 0 (-percentile) := by
  have hindex := floor_lt_length hne hpos hlt
  have hsome : ⌊(1 - c) * returns.length⌋₊ < (ascending returns).length := by
    rw [length_ascending]
    exact hindex
  refine ⟨(ascending returns)[⌊(1 - c) * returns.length⌋₊], List.getElem?_eq_getElem hsome, ?_⟩
  have hmin : min ⌊(1 - c) * returns.length⌋₊ (returns.length - 1) = ⌊(1 - c) * returns.length⌋₊ :=
    min_eq_left (by omega)
  cases returns with
  | nil => exact absurd rfl hne
  | cons r returns =>
    simp only [historical, length_ascending, hmin, List.getElem?_eq_getElem hsome, Option.getD_some]
    rw [abs_of_nonpos (min_le_left 0 _), ← max_neg_neg, neg_zero]

/-- The losses that at most the share `1 - c` of the returns goes beyond. -/
def Covers (returns : List ℚ) (c v : ℚ) : Prop :=
  (returns.countP (· < -v) : ℚ) ≤ (1 - c) * returns.length

theorem covers_iff {returns : List ℚ} (hne : returns ≠ []) {c : ℚ} (hpos : 0 < c) (hlt : c < 1)
    {v : ℚ} (hv : 0 ≤ v) : Covers returns c v ↔ historical returns c ≤ v := by
  obtain ⟨percentile, hget, heq⟩ := historical_eq hne hpos hlt
  have hshare : 0 ≤ (1 - c) * returns.length := mul_nonneg (sub_nonneg.mpr hlt.le) (Nat.cast_nonneg _)
  rw [Covers, ← Nat.le_floor_iff hshare, countP_lt_le_iff hget, heq]
  constructor
  · exact fun h => max_le hv (neg_le.mp h)
  · exact fun h => neg_le.mpr ((le_max_right 0 _).trans h)

theorem historical_nonneg (returns : List ℚ) (c : ℚ) : 0 ≤ historical returns c := by
  cases returns with
  | nil => exact le_rfl
  | cons r returns => exact abs_nonneg _

theorem historical_mem {returns : List ℚ} (hne : returns ≠ []) {c : ℚ} (hpos : 0 < c) (hlt : c < 1) :
    Covers returns c (historical returns c) :=
  (covers_iff hne hpos hlt (historical_nonneg _ _)).mpr le_rfl

/-- Series that cover the same losses have the same value at risk. -/
theorem historical_eq_iff {r s : List ℚ} (hr : r ≠ []) (hs : s ≠ []) {c : ℚ} (hpos : 0 < c) (hlt : c < 1) :
    historical r c = historical s c ↔ ∀ v, 0 ≤ v → (Covers r c v ↔ Covers s c v) := by
  constructor
  · intro h v hv
    rw [covers_iff hr hpos hlt hv, covers_iff hs hpos hlt hv, h]
  · intro h
    apply le_antisymm
    · rw [← covers_iff hr hpos hlt (historical_nonneg _ _), h _ (historical_nonneg _ _)]
      exact historical_mem hs hpos hlt
    · rw [← covers_iff hs hpos hlt (historical_nonneg _ _), ← h _ (historical_nonneg _ _)]
      exact historical_mem hr hpos hlt

theorem historical_isLeast {returns : List ℚ} (hne : returns ≠ []) {c : ℚ} (hpos : 0 < c) (hlt : c < 1) :
    IsLeast {v | 0 ≤ v ∧ (returns.countP (· < -v) : ℚ) ≤ (1 - c) * returns.length} (historical returns c) ∧
    (∀ returns', returns'.Perm returns → historical returns' c = historical returns c) ∧
    (∀ c', c ≤ c' → c' < 1 → historical returns c ≤ historical returns c') := by
  refine ⟨⟨⟨historical_nonneg _ _, historical_mem hne hpos hlt⟩, ?_⟩, ?_, ?_⟩
  · rintro v ⟨hv, hcovers⟩
    exact (covers_iff hne hpos hlt hv).mp hcovers
  · intro returns' hperm
    have hne' : returns' ≠ [] := fun h => hne (by rw [h] at hperm; exact hperm.nil_eq.symm)
    refine (historical_eq_iff hne' hne hpos hlt).mpr fun v _ => ?_
    rw [Covers, Covers, hperm.countP_eq, hperm.length_eq]
  · intro c' hle hlt'
    rw [← covers_iff hne hpos hlt (historical_nonneg _ _)]
    have hcovers := historical_mem hne (hpos.trans_le hle) hlt'
    have hlen : (0 : ℚ) ≤ returns.length := Nat.cast_nonneg _
    unfold Covers at hcovers ⊢
    exact hcovers.trans (mul_le_mul_of_nonneg_right (by linarith) hlen)

theorem second_smallest :
    IsLeast {v | 0 ≤ v ∧ (([3, -2, 1, -5] : List ℚ).countP (· < -v) : ℚ) ≤
        (1 - 3 / 4) * (([3, -2, 1, -5] : List ℚ).length : ℚ)}
      (historical [3, -2, 1, -5] (3 / 4)) ∧ historical [3, -2, 1, -5] (3 / 4) = 2 :=
  ⟨(historical_isLeast (by simp) (by norm_num) (by norm_num)).1, by decide +kernel⟩

/-! ## The order of the positions -/

section Portfolio

variable (returnsByAsset : String → Option (List ℚ))

def dataOf (position : Position) : List ℚ := (returnsByAsset position.asset).getD []

/-- The length of the first series in the list. -/
def firstLength : List Position → ℕ
  | [] => 0
  | p :: ps => if (dataOf returnsByAsset p).length = 0 then firstLength ps else (dataOf returnsByAsset p).length

/-- What a position adds to the `i`-th return of the portfolio. -/
def contribution (total : ℚ) (i : ℕ) (position : Position) : ℚ :=
  ((dataOf returnsByAsset position)[i]?).getD 0 * (positionValue position / total)

/-- The first `n` returns of the portfolio, every position adding what it has. -/
def weighted (positions : List Position) (n : ℕ) : List ℚ :=
  (List.range n).map fun i => (positions.map (contribution returnsByAsset (totalValue positions) i)).sum

variable {returnsByAsset}

theorem getElem?_addScaled (w : ℚ) (sums returns : List ℚ) (i : ℕ) :
    (addScaled w sums returns)[i]? = sums[i]?.map fun sum => sum + (returns[i]?).getD 0 * w := by
  induction sums generalizing returns i with
  | nil => simp [addScaled]
  | cons sum sums ih =>
    cases returns with
    | nil => cases i <;> simp [addScaled]
    | cons r returns =>
      cases i with
      | zero => simp [addScaled]
      | succ i => simpa [addScaled] using ih returns i

theorem addScaled_range (w : ℚ) (n : ℕ) (g : ℕ → ℚ) (returns : List ℚ) :
    addScaled w ((List.range n).map g) returns =
      (List.range n).map fun i => g i + (returns[i]?).getD 0 * w := by
  apply List.ext_getElem?
  intro i
  rw [getElem?_addScaled, List.getElem?_map, List.getElem?_map, Option.map_map]
  by_cases hi : i < n
  · simp [List.getElem?_range hi]
  · simp [List.getElem?_eq_none (l := List.range n) (by simpa using hi)]

theorem accumulate_portfolioReturns {total : ℚ} {s : Series} {n : ℕ} {g : ℕ → ℚ}
    (hs : s.portfolioReturns = (List.range n).map g) (hg : n = 0 → ∀ i, g i = 0) (p : Position) :
    (accumulate total returnsByAsset s p).portfolioReturns =
      (List.range (if n = 0 then (dataOf returnsByAsset p).length else n)).map
        fun i => g i + contribution returnsByAsset total i p := by
  unfold accumulate contribution dataOf
  have hlen : s.portfolioReturns.length = n := by rw [hs, List.length_map, List.length_range]
  split
  next hnone =>
    rw [hs, hnone]
    by_cases hn : n = 0 <;> simp [hn]
  next hempty =>
    rw [hs, hempty]
    by_cases hn : n = 0 <;> simp [hn]
  next r returns hdata =>
    simp only [hdata, Option.getD_some, hlen]
    by_cases hn : n = 0
    · have hzeroed : ((r :: returns).map fun _ => (0 : ℚ)) = (List.range (r :: returns).length).map g := by
        apply List.ext_getElem
        · simp
        · intro i _ _
          rw [List.getElem_map, List.getElem_map, hg hn]
      rw [if_pos hn, if_pos hn, hzeroed, addScaled_range]
    · rw [if_neg hn, if_neg hn, hs, addScaled_range]

theorem foldl_portfolioReturns {total : ℚ} (positions : List Position) {s : Series} {n : ℕ} {g : ℕ → ℚ}
    (hs : s.portfolioReturns = (List.range n).map g) (hg : n = 0 → ∀ i, g i = 0) :
    (positions.foldl (accumulate total returnsByAsset) s).portfolioReturns =
      (List.range (if n = 0 then firstLength returnsByAsset positions else n)).map
        fun i => g i + (positions.map (contribution returnsByAsset total i)).sum := by
  induction positions generalizing s n g with
  | nil => by_cases hn : n = 0 <;> simp [hs, hn, firstLength]
  | cons p positions ih =>
    rw [List.foldl_cons, ih (accumulate_portfolioReturns hs hg p)]
    · have hlength : (if (if n = 0 then (dataOf returnsByAsset p).length else n) = 0 then
            firstLength returnsByAsset positions
          else if n = 0 then (dataOf returnsByAsset p).length else n) =
          if n = 0 then firstLength returnsByAsset (p :: positions) else n := by
        by_cases hn : n = 0 <;> simp [hn, firstLength]
      rw [hlength]
      simp only [List.map_cons, List.sum_cons, add_assoc]
    · intro hzero i
      by_cases hn : n = 0
      · rw [if_pos hn] at hzero
        rw [hg hn, contribution, List.length_eq_zero_iff.mp hzero]
        simp
      · rw [if_neg hn] at hzero
        exact absurd hzero hn

theorem portfolioReturns_eq {positions : List Position} (h : 0 < totalValue positions) :
    (series positions returnsByAsset).portfolioReturns =
      weighted returnsByAsset positions (firstLength returnsByAsset positions) := by
  rw [series, if_pos h, foldl_portfolioReturns (n := 0) (g := fun _ => 0) positions rfl fun _ _ => rfl]
  simp [weighted]

theorem totalValue_eq (positions : List Position) :
    totalValue positions = (positions.map positionValue).sum := by
  have hfold : ∀ (x : ℚ) (ps : List Position),
      ps.foldl (fun sum position => sum + positionValue position) x = x + (ps.map positionValue).sum := by
    intro x ps
    induction ps generalizing x with
    | nil => simp
    | cons p ps ih => rw [List.foldl_cons, ih, List.map_cons, List.sum_cons, add_assoc]
  rw [totalValue, hfold, zero_add]

theorem totalValue_nonneg {positions : List Position} (h : ∀ p ∈ positions, 0 ≤ p.currentPrice) :
    0 ≤ totalValue positions := by
  rw [totalValue_eq]
  refine List.sum_nonneg fun x hx => ?_
  obtain ⟨p, hp, rfl⟩ := List.mem_map.mp hx
  exact mul_nonneg (abs_nonneg _) (h p hp)

theorem totalValue_perm {positions positions' : List Position} (h : positions'.Perm positions) :
    totalValue positions' = totalValue positions := by
  rw [totalValue_eq, totalValue_eq, (h.map _).sum_eq]

theorem weighted_perm {positions positions' : List Position} (h : positions'.Perm positions) (n : ℕ) :
    weighted returnsByAsset positions' n = weighted returnsByAsset positions n := by
  simp only [weighted, totalValue_perm h, (h.map _).sum_eq]

theorem weighted_ne_nil {positions : List Position} {n : ℕ} (h : 0 < n) :
    weighted returnsByAsset positions n ≠ [] := by
  rw [weighted, Ne, List.map_eq_nil_iff, List.range_eq_nil]
  omega

variable (returnsByAsset) in
theorem firstLength_cases (positions : List Position) :
    (firstLength returnsByAsset positions = 0 ∧
        ∀ p ∈ positions, (dataOf returnsByAsset p).length = 0) ∨
      ∃ p ∈ positions, 0 < (dataOf returnsByAsset p).length ∧
        firstLength returnsByAsset positions = (dataOf returnsByAsset p).length := by
  induction positions with
  | nil => exact .inl ⟨rfl, fun p hp => absurd hp List.not_mem_nil⟩
  | cons p positions ih =>
    by_cases hp : (dataOf returnsByAsset p).length = 0
    · rcases ih with ⟨hzero, hall⟩ | ⟨q, hq, hpos, hlen⟩
      · refine .inl ⟨by rw [firstLength, if_pos hp, hzero], fun q hq => ?_⟩
        rcases List.mem_cons.mp hq with rfl | hq
        · exact hp
        · exact hall q hq
      · exact .inr ⟨q, .tail _ hq, hpos, by rw [firstLength, if_pos hp, hlen]⟩
    · exact .inr ⟨p, .head _, by omega, by rw [firstLength, if_neg hp]⟩

theorem portfolioVar_historical (parametric : List ℚ → ℚ → ℚ) (returns : List ℚ) (c : ℚ) :
    portfolioVar parametric returns c .historical = historical returns c := by
  cases returns <;> rfl

/-- The value at risk of a portfolio at a confidence, before the two of them are put into a result. -/
def varAt (returnsByAsset : String → Option (List ℚ)) (positions : List Position) (c : ℚ) : ℚ :=
  historical (series positions returnsByAsset).portfolioReturns c * totalValue positions

theorem varAt_eq {positions : List Position} (h : 0 < totalValue positions) (c : ℚ) :
    varAt returnsByAsset positions c =
      historical (weighted returnsByAsset positions (firstLength returnsByAsset positions)) c *
        totalValue positions := by
  rw [varAt, portfolioReturns_eq h]

variable (returnsByAsset)

/-- At the lengths of any two series the portfolio exceeds its losses equally often. -/
def TailsAgree (positions : List Position) (c : ℚ) : Prop :=
  ∀ p ∈ positions, ∀ q ∈ positions, 0 < (dataOf returnsByAsset p).length →
    0 < (dataOf returnsByAsset q).length → ∀ v, 0 ≤ v →
      (Covers (weighted returnsByAsset positions (dataOf returnsByAsset p).length) c v ↔
        Covers (weighted returnsByAsset positions (dataOf returnsByAsset q).length) c v)

variable {returnsByAsset}

theorem varAt_perm_iff {positions : List Position} (h : 0 < totalValue positions) {c : ℚ} (hpos : 0 < c)
    (hlt : c < 1) :
    (∀ positions' : List Position, positions'.Perm positions →
        varAt returnsByAsset positions' c = varAt returnsByAsset positions c) ↔
      TailsAgree returnsByAsset positions c := by
  constructor
  · intro hperm p hp q hq hplen hqlen
    rw [← historical_eq_iff (weighted_ne_nil hplen) (weighted_ne_nil hqlen) hpos hlt]
    -- each of the two in front of the others
    have hfront : ∀ r ∈ positions, 0 < (dataOf returnsByAsset r).length →
        historical (weighted returnsByAsset positions (dataOf returnsByAsset r).length) c *
          totalValue positions = varAt returnsByAsset positions c := by
      intro r hr hlen
      have hmoved : (r :: positions.erase r).Perm positions := (List.perm_cons_erase hr).symm
      have htotal : 0 < totalValue (r :: positions.erase r) := by
        rw [totalValue_perm hmoved]
        exact h
      have heq : varAt returnsByAsset (r :: positions.erase r) c = _ := varAt_eq htotal c
      rw [firstLength, if_neg (by omega), weighted_perm hmoved, totalValue_perm hmoved] at heq
      rw [← heq, hperm _ hmoved]
    exact mul_right_cancel₀ h.ne' ((hfront p hp hplen).trans (hfront q hq hqlen).symm)
  · intro htails positions' hperm
    have h' : 0 < totalValue positions' := by
      rw [totalValue_perm hperm]
      exact h
    rw [varAt_eq h, varAt_eq h', totalValue_perm hperm, weighted_perm hperm]
    congr 1
    rcases firstLength_cases returnsByAsset positions with ⟨hzero, hall⟩ | ⟨p, hp, hplen, hpeq⟩
    · rcases firstLength_cases returnsByAsset positions' with ⟨hzero', -⟩ | ⟨q, hq, hqlen, -⟩
      · rw [hzero, hzero']
      · exact absurd (hall q (hperm.mem_iff.mp hq)) hqlen.ne'
    · rcases firstLength_cases returnsByAsset positions' with ⟨-, hall'⟩ | ⟨q, hq, hqlen, hqeq⟩
      · exact absurd (hall' p (hperm.mem_iff.mpr hp)) hplen.ne'
      · rw [hpeq, hqeq, historical_eq_iff (weighted_ne_nil hqlen) (weighted_ne_nil hplen) hpos hlt]
        exact htails q (hperm.mem_iff.mp hq) p hp hqlen hplen

end Portfolio

/-- Neither figure depends on the order of the positions. -/
def PermInvariant (parametric : List ℚ → ℚ → ℚ) (positions : List Position)
    (returnsByAsset : String → Option (List ℚ)) : Prop :=
  ∀ positions' : List Position, positions'.Perm positions →
    (calculate parametric positions' returnsByAsset .historical).valueAtRisk95 =
        (calculate parametric positions returnsByAsset .historical).valueAtRisk95 ∧
      (calculate parametric positions' returnsByAsset .historical).valueAtRisk99 =
        (calculate parametric positions returnsByAsset .historical).valueAtRisk99

theorem permInvariant_iff_varAt {parametric : List ℚ → ℚ → ℚ} {positions : List Position}
    {returnsByAsset : String → Option (List ℚ)} :
    PermInvariant parametric positions returnsByAsset ↔
      ∀ positions' : List Position, positions'.Perm positions →
        varAt returnsByAsset positions' (95 / 100) = varAt returnsByAsset positions (95 / 100) ∧
          varAt returnsByAsset positions' (99 / 100) = varAt returnsByAsset positions (99 / 100) := by
  simp only [PermInvariant, calculate, portfolioVar_historical, varAt]

theorem calculate_perm_iff (parametric : List ℚ → ℚ → ℚ) {positions : List Position}
    (returnsByAsset : String → Option (List ℚ)) (hprice : ∀ p ∈ positions, 0 ≤ p.currentPrice) :
    (PermInvariant parametric positions returnsByAsset ↔
      totalValue positions = 0 ∨
        TailsAgree returnsByAsset positions (95 / 100) ∧ TailsAgree returnsByAsset positions (99 / 100)) ∧
    ((∀ p ∈ positions, ∀ q ∈ positions, 0 < (dataOf returnsByAsset p).length →
        0 < (dataOf returnsByAsset q).length →
        (dataOf returnsByAsset p).length = (dataOf returnsByAsset q).length) →
      PermInvariant parametric positions returnsByAsset) := by
  have hiff : PermInvariant parametric positions returnsByAsset ↔
      totalValue positions = 0 ∨
        TailsAgree returnsByAsset positions (95 / 100) ∧ TailsAgree returnsByAsset positions (99 / 100) := by
    rw [permInvariant_iff_varAt]
    rcases (totalValue_nonneg hprice).eq_or_lt with hzero | hpos
    · refine iff_of_true (fun positions' hperm => ?_) (.inl hzero.symm)
      simp only [varAt, totalValue_perm hperm, ← hzero, mul_zero, and_self]
    · rw [or_iff_right hpos.ne', ← varAt_perm_iff hpos (by norm_num) (by norm_num),
        ← varAt_perm_iff hpos (by norm_num) (by norm_num)]
      exact forall₂_and
  refine ⟨hiff, fun hlengths => hiff.mpr (.inr ⟨?_, ?_⟩)⟩ <;>
  · intro p hp q hq hplen hqlen v _
    rw [hlengths p hp q hq hplen hqlen]

def holding (asset : String) : Position where
  id := asset
  asset := asset
  poolId := none
  quantity := 1
  entryPrice := 100
  currentPrice := 100
  liquidationThreshold := none
  leverage := none
  counterparty := none
  isLiquidityProvider := false

def seriesOf (a b : List ℚ) : String → Option (List ℚ) := fun asset =>
  if asset = "A" then some a else if asset = "B" then some b else none

theorem equal_lengths_invariant :
    PermInvariant (fun _ _ => 0) [holding "A", holding "B"]
      (seriesOf [1 / 10, -1 / 10] [-1 / 5, 1 / 5]) := by
  have hlength : ∀ p ∈ [holding "A", holding "B"],
      (dataOf (seriesOf [1 / 10, -1 / 10] [-1 / 5, 1 / 5]) p).length = 2 := by
    rintro p hp
    rcases List.mem_pair.mp hp with rfl | rfl <;> rfl
  refine (@calculate_perm_iff (fun _ _ => 0) [holding "A", holding "B"]
    (seriesOf [1 / 10, -1 / 10] [-1 / 5, 1 / 5]) fun p hp => ?_).2 fun p hp q hq _ _ => ?_
  · rcases List.mem_pair.mp hp with rfl | rfl <;> decide +kernel
  · rw [hlength p hp, hlength q hq]

/-- The loss of the second period is only seen when the longer series comes first. -/
theorem short_series_first :
    (calculate (fun _ _ => 0) [holding "A", holding "B"] (seriesOf [1 / 10] [1 / 10, -1 / 10])
        .historical).valueAtRisk95 = 0 ∧
      (calculate (fun _ _ => 0) [holding "B", holding "A"] (seriesOf [1 / 10] [1 / 10, -1 / 10])
        .historical).valueAtRisk95 = 10 ∧
      ¬ PermInvariant (fun _ _ => 0) [holding "A", holding "B"] (seriesOf [1 / 10] [1 / 10, -1 / 10]) := by
  have hshort : (calculate (fun _ _ => 0) [holding "A", holding "B"] (seriesOf [1 / 10] [1 / 10, -1 / 10])
      .historical).valueAtRisk95 = 0 := by decide +kernel
  have hlong : (calculate (fun _ _ => 0) [holding "B", holding "A"] (seriesOf [1 / 10] [1 / 10, -1 / 10])
      .historical).valueAtRisk95 = 10 := by decide +kernel
  refine ⟨hshort, hlong, fun h => ?_⟩
  have heq := (h [holding "B", holding "A"] (.swap _ _ [])).1
  rw [hshort, hlong] at heq
  norm_num at heq

end ValueAtRiskService
end Risk
end TradeCore
