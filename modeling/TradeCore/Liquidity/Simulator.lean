import Mathlib.Algebra.Order.Field.Basic
import Mathlib.Data.List.Perm.Subperm
import Mathlib.Data.List.TakeWhile
import Mathlib.Tactic.FieldSimp
import Mathlib.Tactic.GCongr
import Mathlib.Tactic.Linarith
import TradeCore.Liquidity.Freshness

/-!
# TradeCore.Liquidity.Simulator

`RouteExecutionSimulatorService`: a dry run of a route against the registry as it is. It has its own
constant-product swap and walks the path with a loop that stops at the first pool without liquidity.

`simulateHops_currentAmount` is the loop: it leaves what the router's swaps give over the pools
before that one. `simulateRoute_agrees_iff` says when this is the composition over the whole path.
-/

namespace TradeCore
namespace Liquidity

open Lib

structure SimulationStep where
  poolId : Uuid
  poolName : String
  tokenIn : String
  tokenOut : String
  amountIn : ℚ
  amountOut : ℚ
  fee : ℚ
  priceImpact : ℚ
  effectivePrice : ℚ
  deriving DecidableEq, Repr

structure SimulationResult where
  poolPath : List Uuid
  inputAmount : ℚ
  finalOutput : ℚ
  executionPrice : ℚ
  totalFees : ℚ
  overallPriceImpact : ℚ
  isFeasible : Bool
  steps : List SimulationStep
  estimatedGas : ℕ
  onChainValidated : Bool
  simulatedAt : Time
  deriving DecidableEq, Repr

/-- Stroops for one contract invocation. -/
def baseGasPerHop : ℕ := 100000

def maxAcceptableImpact : ℚ := 1 / 10

/-! ## The pools of a path -/

/-- One query for all ids of the path; the rows are then put in its order. -/
def loadPools (t : Registry) (poolPath : List Uuid) : Except HttpError (List LiquidityPool) :=
  let pools := t.pools.filter fun p => p.id ∈ poolPath ∧ p.status = .active
  if pools.length ≠ poolPath.length then
    let missing := poolPath.filter fun id => id ∉ pools.map (·.id)
    .error (.badRequest
      ("Pools not found or inactive: " ++ ", ".intercalate (missing.map fun id => s!"{id}")))
  else .ok (poolPath.filterMap fun id => lookup (·.id) id pools)

theorem filterMap_lookup {pools : List LiquidityPool} {path : List Uuid}
    (h : ∀ id ∈ path, id ∈ pools.map (·.id)) :
    (path.filterMap fun id => lookup (·.id) id pools).map (·.id) = path ∧
      ∀ p ∈ path.filterMap (fun id => lookup (·.id) id pools), p ∈ pools := by
  refine ⟨?_, ?_⟩
  · induction path with
    | nil => rfl
    | cons id path ih =>
      obtain ⟨p, hp, hid⟩ := List.mem_map.mp (h id List.mem_cons_self)
      obtain ⟨row, hrow⟩ : ∃ row, lookup (·.id) id pools = some row :=
        Option.isSome_iff_exists.mp (List.find?_isSome.mpr ⟨p, hp, by simp [hid]⟩)
      simp only [List.filterMap_cons, hrow]
      rw [List.map_cons, lookup_key hrow, ih fun i hi => h i (List.mem_cons_of_mem id hi)]
  · intro p hp
    obtain ⟨id, -, hid⟩ := List.mem_filterMap.mp hp
    exact mem_of_lookup hid

/-- The loaded pools are active rows, in the order of the path. As many rows as ids means that
every id has one. -/
theorem loadPools_ok {t : Registry} {poolPath : List Uuid} {pools : List LiquidityPool}
    (h : loadPools t poolPath = .ok pools) :
    pools.map (·.id) = poolPath ∧ ∀ p ∈ pools, p ∈ t.pools ∧ p.status = .active := by
  simp only [loadPools] at h
  split at h
  · cases h
  · rename_i hlen
    cases h
    have hnodup : ((t.pools.filter fun p => p.id ∈ poolPath ∧ p.status = .active).map (·.id)).Nodup :=
      t.distinct.sublist (List.filter_sublist.map _)
    have hsub : (t.pools.filter fun p => p.id ∈ poolPath ∧ p.status = .active).map (·.id) ⊆
        poolPath := by
      intro id hid
      obtain ⟨p, hp, rfl⟩ := List.mem_map.mp hid
      have := (List.mem_filter.mp hp).2
      simp only [decide_eq_true_eq] at this
      exact this.1
    have hperm := (List.subperm_of_subset hnodup hsub).perm_of_length_le (by rw [List.length_map]; omega)
    obtain ⟨hids, hin⟩ := filterMap_lookup fun id hid => hperm.mem_iff.mpr hid
    refine ⟨hids, fun p hp => ?_⟩
    obtain ⟨hrow, hcond⟩ := List.mem_filter.mp (hin p hp)
    simp only [decide_eq_true_eq] at hcond
    exact ⟨hrow, hcond.2⟩

/-! ## The simulation -/

def determineOutputAsset (pool : LiquidityPool) (inputAsset : String) : String :=
  if pool.assetCodeA = inputAsset then pool.assetCodeB else pool.assetCodeA

def determineInputAsset (pool : LiquidityPool) (previousOutput : String) : String :=
  if pool.assetCodeA = previousOutput then pool.assetCodeB else pool.assetCodeA

/-- The variables of the loop; each turn adds one step. -/
structure SimState where
  currentAmount : ℚ
  totalFees : ℚ
  cumulativeImpact : ℚ
  steps : List SimulationStep
  deriving DecidableEq, Repr

def previousAsset (pool : LiquidityPool) (steps : List SimulationStep) : String :=
  match steps.getLast? with
  | none => pool.assetCodeA
  | some previous => determineOutputAsset pool previous.tokenOut

def nextAsset (pool : LiquidityPool) (steps : List SimulationStep) : String :=
  match steps.getLast? with
  | none => pool.assetCodeB
  | some previous => determineInputAsset pool previous.tokenOut

def simulateHops : List LiquidityPool → SimState → SimState
  | [], s => s
  | pool :: pools, s =>
    if pool.tvl ≤ 0 then
      -- the loop ends here and `currentAmount` stays what came in
      { s with
        steps := s.steps ++
          [{ poolId := pool.id
             poolName := pool.name
             tokenIn := previousAsset pool s.steps
             tokenOut := nextAsset pool s.steps
             amountIn := s.currentAmount
             amountOut := 0
             fee := 0
             priceImpact := 100
             effectivePrice := 0 }] }
    else
      let reserveIn := pool.tvl / 2
      let reserveOut := pool.tvl / 2
      let amountInWithFee := s.currentAmount * (1 - pool.feeRate)
      let denominator := reserveIn + amountInWithFee
      let amountOut := if 0 < denominator then amountInWithFee * reserveOut / denominator else 0
      let fee := s.currentAmount * pool.feeRate
      let marketPrice := reserveOut / reserveIn
      let execPrice := amountOut / (if s.currentAmount = 0 then 1 else s.currentAmount)
      let stepImpact := if 0 < marketPrice then (marketPrice - execPrice) / marketPrice else 1
      simulateHops pools
        { currentAmount := amountOut
          totalFees := s.totalFees + fee
          cumulativeImpact := s.cumulativeImpact * (1 - stepImpact)
          steps := s.steps ++
            [{ poolId := pool.id
               poolName := pool.name
               tokenIn := previousAsset pool s.steps
               tokenOut := nextAsset pool s.steps
               amountIn := s.currentAmount
               amountOut := amountOut
               fee := fee
               priceImpact := stepImpact * 100
               effectivePrice := execPrice }] }

def simulateRoute (t : Registry) (now : Time) (poolPath : List Uuid) (amountIn : ℚ)
    (minAmountOut : Option ℚ) : Except HttpError SimulationResult :=
  if poolPath = [] then .error (.badRequest "Pool path must not be empty")
  else do
    let pools ← loadPools t poolPath
    let s := simulateHops pools ⟨amountIn, 0, 1, []⟩
    let overallPriceImpact := (1 - s.cumulativeImpact) * 100
    return {
      poolPath := poolPath
      inputAmount := amountIn
      finalOutput := s.currentAmount
      executionPrice := if 0 < amountIn then s.currentAmount / amountIn else 0
      totalFees := s.totalFees
      overallPriceImpact := overallPriceImpact
      isFeasible := 0 < s.currentAmount && overallPriceImpact < maxAcceptableImpact * 100 &&
        minAmountOut.all fun least => least ≤ s.currentAmount
      steps := s.steps
      estimatedGas := pools.length * baseGasPerHop
      onChainValidated := false
      simulatedAt := now }

/-- The pools before the first one without liquidity. -/
def liquidPrefix (pools : List LiquidityPool) : List LiquidityPool :=
  pools.takeWhile fun p => 0 < p.tvl

/-- The loop is the router's swaps over the pools before the first one without liquidity. -/
theorem simulateHops_currentAmount (pools : List LiquidityPool) (s : SimState) :
    (simulateHops pools s).currentAmount = swapAlong (liquidPrefix pools) s.currentAmount := by
  induction pools generalizing s with
  | nil => rfl
  | cons pool pools ih =>
    by_cases htvl : pool.tvl ≤ 0
    · have hliquid : liquidPrefix (pool :: pools) = [] := by
        simp [liquidPrefix, not_lt.mpr htvl]
      rw [hliquid, simulateHops, if_pos htvl]
      rfl
    · have hliquid : liquidPrefix (pool :: pools) = pool :: liquidPrefix pools := by
        simp [liquidPrefix, not_le.mp htvl]
      rw [hliquid, simulateHops, if_neg htvl, ih, swapAlong]
      simp only [simulateSwap, if_neg htvl]

theorem simulateRoute_ok {t : Registry} {now : Time} {poolPath : List Uuid} {amountIn : ℚ}
    {minAmountOut : Option ℚ} {pools : List LiquidityPool} {r : SimulationResult}
    (hpools : loadPools t poolPath = .ok pools)
    (h : simulateRoute t now poolPath amountIn minAmountOut = .ok r) :
    r.finalOutput = swapAlong (liquidPrefix pools) amountIn ∧
      (r.finalOutput ≤ 0 → r.isFeasible = false) := by
  unfold simulateRoute at h
  split at h
  · cases h
  · rw [hpools] at h
    cases h
    refine ⟨simulateHops_currentAmount pools _, fun hout => ?_⟩
    simp only [Bool.and_eq_false_iff, decide_eq_false_iff_not, not_lt]
    exact .inl (.inl hout)

/-! ## Against the router -/

theorem swapAlong_zero (pools : List LiquidityPool) : swapAlong pools 0 = 0 := by
  induction pools with
  | nil => rfl
  | cons pool pools ih =>
    have hswap : simulateSwap pool pool.assetCodeA pool.assetCodeB 0 = 0 := by simp [simulateSwap]
    rw [swapAlong, hswap, ih]

theorem swapAlong_of_dry {pools : List LiquidityPool} (h : ∃ p ∈ pools, p.tvl ≤ 0) (amount : ℚ) :
    swapAlong pools amount = 0 := by
  induction pools generalizing amount with
  | nil =>
    obtain ⟨p, hp, -⟩ := h
    cases hp
  | cons pool pools ih =>
    obtain ⟨p, hp, hdry⟩ := h
    rcases List.mem_cons.mp hp with rfl | hp
    · rw [swapAlong, simulateSwap, if_pos hdry, swapAlong_zero]
    · exact ih ⟨p, hp, hdry⟩ _

theorem liquidPrefix_eq {pools : List LiquidityPool} (h : ∀ p ∈ pools, 0 < p.tvl) :
    liquidPrefix pools = pools :=
  List.takeWhile_eq_self_iff.mpr fun p hp => decide_eq_true (h p hp)

theorem mem_liquidPrefix {pools : List LiquidityPool} {p : LiquidityPool}
    (h : p ∈ liquidPrefix pools) : 0 < p.tvl := by
  simpa using List.mem_takeWhile_imp h

theorem swapAlong_of_full_fee {pools : List LiquidityPool} (h : ∃ p ∈ pools, p.feeRate = 1)
    (amount : ℚ) : swapAlong pools amount = 0 := by
  induction pools generalizing amount with
  | nil =>
    obtain ⟨p, hp, -⟩ := h
    cases hp
  | cons pool pools ih =>
    obtain ⟨p, hp, hfee⟩ := h
    rcases List.mem_cons.mp hp with rfl | hp
    · have hswap : simulateSwap p p.assetCodeA p.assetCodeB amount = 0 := by
        simp [simulateSwap, hfee]
      rw [swapAlong, hswap, swapAlong_zero]
    · exact ih ⟨p, hp, hfee⟩ _

theorem simulateSwap_small {p : LiquidityPool} (htvl : 0 < p.tvl) (hfee : p.feeRate ≠ 1)
    {bound : ℚ} (hb : 0 < bound) : ∃ δ > 0, ∀ a : ℚ, a ≠ 0 → |a| < δ →
      simulateSwap p p.assetCodeA p.assetCodeB a ≠ 0 ∧
        |simulateSwap p p.assetCodeA p.assetCodeB a| < bound := by
  have hk : 0 < |1 - p.feeRate| := abs_pos.mpr (sub_ne_zero.mpr (Ne.symm hfee))
  have hhalf : 0 < p.tvl / 2 := by linarith
  refine ⟨min (p.tvl / 2) bound / (2 * |1 - p.feeRate|),
    div_pos (lt_min hhalf hb) (by linarith), fun a ha hsmall => ?_⟩
  have hin : |a * (1 - p.feeRate)| < min (p.tvl / 2) bound / 2 := by
    rw [abs_mul]
    rw [lt_div_iff₀ (by linarith)] at hsmall
    linarith
  have hreserve : |a * (1 - p.feeRate)| < p.tvl / 2 / 2 :=
    lt_of_lt_of_le hin (by linarith [min_le_left (p.tvl / 2) bound])
  have hbound : |a * (1 - p.feeRate)| < bound / 2 :=
    lt_of_lt_of_le hin (by linarith [min_le_right (p.tvl / 2) bound])
  have hnonzero : a * (1 - p.feeRate) ≠ 0 := mul_ne_zero ha (sub_ne_zero.mpr (Ne.symm hfee))
  -- the denominator stays above half the reserve
  have hden : p.tvl / 2 / 2 < p.tvl / 2 + a * (1 - p.feeRate) := by
    have := neg_abs_le (a * (1 - p.feeRate))
    linarith
  have hpos : 0 < p.tvl / 2 + a * (1 - p.feeRate) := by linarith
  have hswap : simulateSwap p p.assetCodeA p.assetCodeB a =
      a * (1 - p.feeRate) * (p.tvl / 2) / (p.tvl / 2 + a * (1 - p.feeRate)) := by
    simp only [simulateSwap, if_neg (not_le.mpr htvl), if_pos hpos]
  rw [hswap]
  refine ⟨div_ne_zero (mul_ne_zero hnonzero hhalf.ne') hpos.ne', ?_⟩
  rw [abs_div, abs_mul, abs_of_pos hhalf, abs_of_pos hpos, div_lt_iff₀ hpos]
  calc |a * (1 - p.feeRate)| * (p.tvl / 2)
      ≤ bound / 2 * (p.tvl / 2) := by gcongr
    _ = bound * (p.tvl / 2 / 2) := by ring
    _ < bound * (p.tvl / 2 + a * (1 - p.feeRate)) := by gcongr

theorem swapAlong_small {pools : List LiquidityPool} (htvl : ∀ p ∈ pools, 0 < p.tvl)
    (hfee : ∀ p ∈ pools, p.feeRate ≠ 1) :
    ∃ δ > 0, ∀ a : ℚ, a ≠ 0 → |a| < δ → swapAlong pools a ≠ 0 := by
  induction pools with
  | nil => exact ⟨1, one_pos, fun a ha _ => ha⟩
  | cons p pools ih =>
    obtain ⟨bound, hb, hrest⟩ := ih (fun q hq => htvl q (List.mem_cons_of_mem p hq))
      fun q hq => hfee q (List.mem_cons_of_mem p hq)
    obtain ⟨δ, hδ, hp⟩ := simulateSwap_small (htvl p List.mem_cons_self)
      (hfee p List.mem_cons_self) hb
    refine ⟨δ, hδ, fun a ha hsmall => ?_⟩
    obtain ⟨hne, hlt⟩ := hp a ha hsmall
    exact hrest _ hne hlt

/-- The simulation of a route and the router: the output is the composition of the swaps, and a
route with a pool without liquidity is not feasible. -/
def SimulationAgrees (pools : List LiquidityPool) (amountIn : ℚ) (r : SimulationResult) : Prop :=
  r.finalOutput = swapAlong pools amountIn ∧ ((∃ p ∈ pools, p.tvl ≤ 0) → r.isFeasible = false)

theorem simulateRoute_total {t : Registry} {poolPath : List Uuid} {pools : List LiquidityPool}
    (hpools : loadPools t poolPath = .ok pools) (hne : pools ≠ []) (now : Time) (amountIn : ℚ)
    (minAmountOut : Option ℚ) : ∃ r, simulateRoute t now poolPath amountIn minAmountOut = .ok r := by
  have hpath : poolPath ≠ [] := by
    intro hnil
    rw [hnil] at hpools
    exact hne (List.map_eq_nil_iff.mp (loadPools_ok hpools).1)
  unfold simulateRoute
  rw [if_neg hpath, hpools]
  exact ⟨_, rfl⟩

theorem agrees_iff {t : Registry} {now : Time} {poolPath : List Uuid} {pools : List LiquidityPool}
    {amountIn : ℚ} {minAmountOut : Option ℚ} {r : SimulationResult}
    (hpools : loadPools t poolPath = .ok pools)
    (h : simulateRoute t now poolPath amountIn minAmountOut = .ok r) :
    SimulationAgrees pools amountIn r ↔
      (∀ p ∈ pools, 0 < p.tvl) ∨ swapAlong (liquidPrefix pools) amountIn = 0 := by
  obtain ⟨hout, hfeasible⟩ := simulateRoute_ok hpools h
  by_cases hall : ∀ p ∈ pools, 0 < p.tvl
  · refine iff_of_true ⟨by rw [hout, liquidPrefix_eq hall], ?_⟩ (.inl hall)
    rintro ⟨p, hp, hdry⟩
    exact absurd (hall p hp) (not_lt.mpr hdry)
  · have hdry : ∃ p ∈ pools, p.tvl ≤ 0 := by
      push Not at hall
      exact hall
    constructor
    · intro hagrees
      exact .inr (hout.symm.trans (hagrees.1.trans (swapAlong_of_dry hdry amountIn)))
    · rintro (hpos | hzero)
      · exact absurd hpos hall
      · have hnone : r.finalOutput = 0 := hout.trans hzero
        exact ⟨by rw [hnone, swapAlong_of_dry hdry], fun _ => hfeasible hnone.le⟩

/-- For one amount the simulation of a route agrees with the router exactly when every pool of the
path has liquidity or nothing reaches the first one that has none; for all amounts, exactly when
every pool has liquidity or one before that takes the whole amount as its fee. -/
theorem simulateRoute_agrees_iff {t : Registry} {now : Time} {poolPath : List Uuid}
    {pools : List LiquidityPool} (hpools : loadPools t poolPath = .ok pools) :
    (∀ amountIn minAmountOut r, simulateRoute t now poolPath amountIn minAmountOut = .ok r →
      (SimulationAgrees pools amountIn r ↔
        (∀ p ∈ pools, 0 < p.tvl) ∨ swapAlong (liquidPrefix pools) amountIn = 0)) ∧
    ((∀ amountIn minAmountOut r, simulateRoute t now poolPath amountIn minAmountOut = .ok r →
      SimulationAgrees pools amountIn r) ↔
        (∀ p ∈ pools, 0 < p.tvl) ∨ ∃ p ∈ liquidPrefix pools, p.feeRate = 1) := by
  refine ⟨fun amountIn minAmountOut r h => agrees_iff hpools h, ?_, ?_⟩
  · intro hagrees
    by_contra hnot
    push Not at hnot
    obtain ⟨⟨dry, hdry, hnone⟩, hfee⟩ := hnot
    -- a small amount reaches the pool without liquidity
    obtain ⟨δ, hδ, hsmall⟩ := swapAlong_small (fun p => mem_liquidPrefix) hfee
    have hreaches : swapAlong (liquidPrefix pools) (δ / 2) ≠ 0 :=
      hsmall (δ / 2) (by linarith) (by rw [abs_of_pos (by linarith)]; linarith)
    obtain ⟨r, hr⟩ := simulateRoute_total hpools (List.ne_nil_of_mem hdry) now (δ / 2) none
    rcases (agrees_iff hpools hr).mp (hagrees _ _ r hr) with hall | hzero
    · exact absurd (hall dry hdry) (not_lt.mpr hnone)
    · exact hreaches hzero
  · intro hcond amountIn minAmountOut r hr
    exact (agrees_iff hpools hr).mpr (hcond.imp id fun hfee => swapAlong_of_full_fee hfee amountIn)

/-- While the graph is fresh, the simulation of a route the search finds agrees with the router. -/
theorem found_route_agrees {s : Aggregator} (h : Fresh s) {q : RouteQuery} {route : RouteResult}
    (hroute : route ∈ searchRoutes s.graph q) {pools : List LiquidityPool}
    (hpools : loadPools s.registry route.poolPath = .ok pools) {now : Time} {amountIn : ℚ}
    {minAmountOut : Option ℚ} {r : SimulationResult}
    (hr : simulateRoute s.registry now route.poolPath amountIn minAmountOut = .ok r) :
    SimulationAgrees pools amountIn r := by
  obtain ⟨copies, hcopies, hpath, -⟩ := search_over_copies h hroute
  obtain ⟨hids, hrows⟩ := loadPools_ok hpools
  refine (agrees_iff hpools hr).mpr (.inl fun p hp => ?_)
  -- the row of `p` is the row of one of the copies
  obtain ⟨copy, hcopy, hid⟩ : ∃ copy ∈ copies, copy.id = p.id := by
    have hmem : p.id ∈ pools.map (·.id) := List.mem_map.mpr ⟨p, hp, rfl⟩
    rw [hids, hpath] at hmem
    exact List.mem_map.mp hmem
  obtain ⟨hmap, hpos⟩ := hcopies copy hcopy
  obtain ⟨row, hrow, hrowid, -, htvl, -⟩ := h.copies copy hmap
  rw [s.registry.eq_of_id (hrows p hp).1 hrow (hid.symm.trans hrowid.symm), htvl]
  exact hpos

/-- The simulation of a route of one pool with liquidity. -/
def liquidSimulation : SimulationResult :=
  { poolPath := [0]
    inputAmount := 100
    finalOutput := 250 / 3
    executionPrice := 5 / 6
    totalFees := 0
    overallPriceImpact := 50 / 3
    isFeasible := false
    steps := [⟨0, "XLM/USDC", "XLM", "USDC", 100, 250 / 3, 0, 50 / 3, 5 / 6⟩]
    estimatedGas := 100000
    onChainValidated := false
    simulatedAt := 5 }

theorem liquidSimulation_agrees : SimulationAgrees searchedOnce.registry.pools 100 liquidSimulation := by
  have hpools : loadPools searchedOnce.registry [0] = .ok searchedOnce.registry.pools := by
    decide +kernel
  have hr : simulateRoute searchedOnce.registry 5 [0] 100 none = .ok liquidSimulation := by
    decide +kernel
  exact ((simulateRoute_agrees_iff hpools).1 100 none liquidSimulation hr).mpr
    (.inl (by decide +kernel))

/-- The pool of the route found before is drained. -/
def drainedOnce : Aggregator := step searchedOnce (.refreshPool 0 ⟨0, 0, 0, 0⟩)

/-- The simulation of the route then returns the input as the output and calls it feasible. -/
theorem drained_route_feasible :
    ((searchRoutes searchedOnce.graph (xlmToUsdc 100)).map (·.poolPath) = [[0]]) ∧
    (drainedOnce.registry.pools.map (·.tvl) = [0]) ∧
    ((simulateRoute drainedOnce.registry 5 [0] 100 none).toOption.map
      fun r => (r.finalOutput, r.isFeasible)) = some (100, true) ∧
    swapAlong drainedOnce.registry.pools 100 = 0 ∧
    ¬ ∀ r, simulateRoute drainedOnce.registry 5 [0] 100 none = .ok r →
      SimulationAgrees drainedOnce.registry.pools 100 r := by
  refine ⟨by decide +kernel, by decide +kernel, by decide +kernel, by decide +kernel, ?_⟩
  intro h
  have hpools : loadPools drainedOnce.registry [0] = .ok drainedOnce.registry.pools := by
    decide +kernel
  obtain ⟨r, hr⟩ := simulateRoute_total hpools (by decide +kernel) 5 100 none
  have hcond := (agrees_iff hpools hr).mp (h r hr)
  revert hcond
  decide +kernel

end Liquidity
end TradeCore
