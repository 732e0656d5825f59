import TradeCore.Liquidity.Splitter
import TradeCore.Lib.Bisection

/-!
# TradeCore.Liquidity.PriceImpact

`PriceImpactService`: what a pool gives for an amount, how far its price is from the market price, and
the largest input whose impact stays below 5%, found by fifty halvings and rounded down to a whole
number. Amounts up to that input are feasible, amounts a unit and a bracket above it are not
(`feasible_around_maxInput`).
-/

namespace TradeCore
namespace Liquidity

open Lib

structure PriceImpactResult where
  poolId : Uuid
  poolName : String
  inputAmount : ℚ
  outputAmount : ℚ
  marketPrice : ℚ
  executionPrice : ℚ
  priceImpactPercent : ℚ
  estimatedSlippage : ℚ
  isFeasible : Bool
  maxInputBeforeHighImpact : ℚ
  deriving DecidableEq, Repr

structure MultiPoolImpactComparison where
  tokenIn : String
  tokenOut : String
  amountIn : ℚ
  results : List PriceImpactResult
  bestPool : Option PriceImpactResult
  deriving DecidableEq, Repr

def emptyResult (pool : LiquidityPool) (amountIn : ℚ) : PriceImpactResult where
  poolId := pool.id
  poolName := pool.name
  inputAmount := amountIn
  outputAmount := 0
  marketPrice := 0
  executionPrice := 0
  priceImpactPercent := 100
  estimatedSlippage := 100
  isFeasible := false
  maxInputBeforeHighImpact := 0

def computeImpact (reserveIn reserveOut feeRate amountIn : ℚ) : ℚ :=
  let marketPrice := reserveOut / reserveIn
  let amountInWithFee := amountIn * (1 - feeRate)
  let output := amountInWithFee * reserveOut / (reserveIn + amountInWithFee)
  let execPrice := if 0 < amountIn then output / amountIn else 0
  if 0 < marketPrice then (marketPrice - execPrice) / marketPrice else 0

def findMaxInputForImpact (reserveIn reserveOut feeRate threshold : ℚ) : ℚ :=
  if reserveIn ≤ 0 then 0
  else
    ⌊(bisect (fun mid => computeImpact reserveIn reserveOut feeRate mid < threshold) 50 0
      (reserveIn * 10)).1⌋

def calculatePoolImpact (pool : LiquidityPool) (amountIn : ℚ) : PriceImpactResult :=
  if pool.tvl ≤ 0 then emptyResult pool amountIn
  else
    let reserveIn := pool.tvl / 2
    let reserveOut := pool.tvl / 2
    let marketPrice := reserveOut / reserveIn
    let amountInWithFee := amountIn * (1 - pool.feeRate)
    let numerator := amountInWithFee * reserveOut
    let denominator := reserveIn + amountInWithFee
    let outputAmount := if 0 < denominator then numerator / denominator else 0
    let executionPrice := if 0 < amountIn then outputAmount / amountIn else 0
    let priceImpactPercent :=
      if 0 < marketPrice then (marketPrice - executionPrice) / marketPrice * 100 else 0
    { poolId := pool.id
      poolName := pool.name
      inputAmount := amountIn
      outputAmount := outputAmount
      marketPrice := marketPrice
      executionPrice := executionPrice
      priceImpactPercent := priceImpactPercent
      estimatedSlippage := min (amountIn / reserveIn) 1 * 100
      isFeasible := priceImpactPercent < 5
      maxInputBeforeHighImpact := findMaxInputForImpact reserveIn reserveOut pool.feeRate (5 / 100) }

/-- `feasible.reduce(…)`: the first of the feasible results with the highest output. -/
def bestOf (results : List PriceImpactResult) : Option PriceImpactResult :=
  match results.filter (·.isFeasible) with
  | [] => none
  | first :: rest =>
    some (rest.foldl (fun best r => if best.outputAmount < r.outputAmount then r else best) first)

def estimatePriceImpact (t : Registry) (tokenIn : String) (tokenInIssuer : Option String)
    (tokenOut : String) (tokenOutIssuer : Option String) (amountIn : ℚ) (poolId : Option Uuid) :
    MultiPoolImpactComparison :=
  let pools :=
    match poolId with
    | some id => (lookup LiquidityPool.id id t.pools).toList
    | none => t.matching tokenIn tokenInIssuer tokenOut tokenOutIssuer
  let results := pools.map fun pool => calculatePoolImpact pool amountIn
  { tokenIn := tokenIn
    tokenOut := tokenOut
    amountIn := amountIn
    results := results
    bestPool := bestOf results }

/-! ## The best pool -/

theorem bestPool_best (t : Registry) (tokenIn : String) (tokenInIssuer : Option String)
    (tokenOut : String) (tokenOutIssuer : Option String) (amountIn : ℚ) (poolId : Option Uuid)
    {best : PriceImpactResult}
    (h : (estimatePriceImpact t tokenIn tokenInIssuer tokenOut tokenOutIssuer amountIn poolId).bestPool =
      some best) :
    let results := (estimatePriceImpact t tokenIn tokenInIssuer tokenOut tokenOutIssuer amountIn poolId).results
    best ∈ results ∧ best.isFeasible ∧
      ∀ r ∈ results, r.isFeasible → r.outputAmount ≤ best.outputAmount := by
  intro results
  change bestOf results = some best at h
  unfold bestOf at h
  split at h
  next => cases h
  next first rest hfilter =>
    obtain ⟨hmem, hall, -⟩ := firstBest_spec PriceImpactResult.outputAmount first rest
    rw [← hfilter, show firstBest _ first rest = best from Option.some.inj h] at hmem hall
    obtain ⟨hresults, hfeasible⟩ := List.mem_filter.mp hmem
    exact ⟨hresults, hfeasible, fun r hr hfeasible => hall r (List.mem_filter.mpr ⟨hr, hfeasible⟩)⟩

/-! ## The largest input -/

section MaxInput

variable {reserve feeRate x y : ℚ} (hreserve : 0 < reserve) (hfee : feeRate < 1)
include hreserve hfee

theorem computeImpact_eq (hx : 0 < x) :
    computeImpact reserve reserve feeRate x =
      1 - (1 - feeRate) * reserve / (reserve + x * (1 - feeRate)) := by
  have hrest : 0 < 1 - feeRate := sub_pos.mpr hfee
  have hpos : 0 < reserve + x * (1 - feeRate) := by positivity
  simp only [computeImpact, div_self hreserve.ne', if_pos hx, zero_lt_one, if_true, div_one]
  field_simp

theorem computeImpact_mono (hx : 0 < x) (hxy : x ≤ y) :
    computeImpact reserve reserve feeRate x ≤ computeImpact reserve reserve feeRate y := by
  have hrest : 0 < 1 - feeRate := sub_pos.mpr hfee
  rw [computeImpact_eq hreserve hfee hx, computeImpact_eq hreserve hfee (hx.trans_le hxy)]
  have hpos : 0 < reserve + x * (1 - feeRate) := by positivity
  gcongr

theorem high_at_ten_reserves : 9 / 10 ≤ computeImpact reserve reserve feeRate (reserve * 10) := by
  have hrest : 0 < 1 - feeRate := sub_pos.mpr hfee
  have hpos : 0 < reserve + reserve * 10 * (1 - feeRate) := by positivity
  rw [computeImpact_eq hreserve hfee (by positivity)]
  have : (1 - feeRate) * reserve / (reserve + reserve * 10 * (1 - feeRate)) ≤ 1 / 10 := by
    rw [div_le_div_iff₀ hpos (by norm_num)]
    linarith
  linarith

theorem impact_around_maxInput (hx : 0 < x) {threshold : ℚ} (hthreshold : threshold ≤ 9 / 10) :
    (x ≤ findMaxInputForImpact reserve reserve feeRate threshold →
      computeImpact reserve reserve feeRate x < threshold) ∧
    (findMaxInputForImpact reserve reserve feeRate threshold + (1 + reserve * 10 / 2 ^ 50) ≤ x →
      threshold ≤ computeImpact reserve reserve feeRate x) := by
  set below := fun mid => computeImpact reserve reserve feeRate mid < threshold with hbelow
  have hmax : findMaxInputForImpact reserve reserve feeRate threshold =
      ⌊(bisect below 50 0 (reserve * 10)).1⌋ := if_neg hreserve.not_ge
  set ends := bisect below 50 0 (reserve * 10) with hends
  have hwidth : ends.2 - ends.1 = reserve * 10 / 2 ^ 50 := by rw [hends, bisect_width, sub_zero]
  have hlow : 0 ≤ ends.1 := le_bisect_fst below 50 (by positivity)
  rw [hmax]
  constructor
  · intro hle
    have hxlow : x ≤ ends.1 := hle.trans (Int.floor_le _)
    rcases bisect_fst below 50 0 (reserve * 10) with hzero | himpact
    · exact absurd (hx.trans_le hxlow) (by rw [hends, hzero]; exact lt_irrefl 0)
    · exact (computeImpact_mono hreserve hfee hx hxlow).trans_lt himpact
  · intro hle
    have hfloor : ends.1 < ⌊ends.1⌋ + 1 := Int.lt_floor_add_one _
    have hhigh : ends.2 ≤ x := by linarith
    have hpos : 0 < ends.2 := by
      have : 0 < reserve * 10 / 2 ^ 50 := by positivity
      linarith
    have himpact : threshold ≤ computeImpact reserve reserve feeRate ends.2 := by
      rcases bisect_snd below 50 0 (reserve * 10) with hten | hnot
      · rw [hends, hten]
        exact hthreshold.trans (high_at_ten_reserves hreserve hfee)
      · exact not_lt.mp hnot
    exact himpact.trans (computeImpact_mono hreserve hfee hpos hhigh)

end MaxInput

theorem isFeasible_iff {pool : LiquidityPool} (htvl : 0 < pool.tvl) (hfee : pool.feeRate < 1)
    {amountIn : ℚ} (hamount : 0 < amountIn) :
    (calculatePoolImpact pool amountIn).isFeasible ↔
      computeImpact (pool.tvl / 2) (pool.tvl / 2) pool.feeRate amountIn < 5 / 100 := by
  have hreserve : 0 < pool.tvl / 2 := half_pos htvl
  have hrest : 0 < 1 - pool.feeRate := sub_pos.mpr hfee
  have hpos : 0 < pool.tvl / 2 + amountIn * (1 - pool.feeRate) := by positivity
  simp only [calculatePoolImpact, if_neg htvl.not_ge, computeImpact, div_self hreserve.ne', if_pos hpos,
    if_pos hamount, zero_lt_one, if_true, div_one, decide_eq_true_iff]
  constructor <;> intro h <;> linarith

theorem feasible_around_maxInput {pool : LiquidityPool} (htvl : 0 < pool.tvl) (hfee : pool.feeRate < 1)
    {amountIn : ℚ} (hamount : 0 < amountIn) :
    (amountIn ≤ (calculatePoolImpact pool amountIn).maxInputBeforeHighImpact →
      (calculatePoolImpact pool amountIn).isFeasible = true) ∧
    ((calculatePoolImpact pool amountIn).maxInputBeforeHighImpact + (1 + pool.tvl / 2 * 10 / 2 ^ 50) ≤
        amountIn →
      (calculatePoolImpact pool amountIn).isFeasible = false) := by
  have hmax : (calculatePoolImpact pool amountIn).maxInputBeforeHighImpact =
      findMaxInputForImpact (pool.tvl / 2) (pool.tvl / 2) pool.feeRate (5 / 100) := by
    rw [calculatePoolImpact, if_neg htvl.not_ge]
  obtain ⟨hbelow, habove⟩ :=
    impact_around_maxInput (half_pos htvl) hfee hamount (show (5 / 100 : ℚ) ≤ 9 / 10 by norm_num)
  rw [hmax]
  constructor
  · exact fun hle => (isFeasible_iff htvl hfee hamount).mpr (hbelow hle)
  · intro hle
    rw [← Bool.not_eq_true, isFeasible_iff htvl hfee hamount, not_lt]
    exact habove hle

theorem deep_pool_limits :
    (calculatePoolImpact (splitPool 1 4000) 90).isFeasible = true ∧
      (calculatePoolImpact (splitPool 1 4000) 110).isFeasible = false :=
  ⟨(feasible_around_maxInput (show 0 < (splitPool 1 4000).tvl by decide +kernel) (by decide +kernel)
      (show (0 : ℚ) < 90 by norm_num)).1 (by decide +kernel),
    (feasible_around_maxInput (show 0 < (splitPool 1 4000).tvl by decide +kernel) (by decide +kernel)
      (show (0 : ℚ) < 110 by norm_num)).2 (by decide +kernel)⟩

/-- A shallow pool: the largest input is rounded down to 0, and a tenth is feasible. -/
theorem rounded_down_to_zero :
    (calculatePoolImpact (splitPool 0 10) (1 / 10)).maxInputBeforeHighImpact + 50 / 2 ^ 50 < 1 / 10 ∧
      (calculatePoolImpact (splitPool 0 10) (1 / 10)).isFeasible = true := by
  decide +kernel

end Liquidity
end TradeCore
