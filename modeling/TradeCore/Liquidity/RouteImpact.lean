import TradeCore.Liquidity.Routes
import TradeCore.Lib.ConstantProduct

/-!
# TradeCore.Liquidity.RouteImpact

What a route leaves out. The graph joins pools by asset codes and forgets the issuers, and `dfs`
estimates the price impact at its end, from the amount that comes out. `route_exact_iff` says for every
answer of every run when a route is right nevertheless, in terms of its pools and the amount: what comes
out of them is `amountOut`, and `leftAlong` is the share that the estimate leaves. The estimate for the
amount that comes out is below the one for the amount that goes in whenever no fee rate is negative
(`left_lt_left`).
-/

namespace TradeCore
namespace Liquidity

open Lib

/-! ## Shared assets -/

/-- The pools lead from one asset, a code with its issuer, to another. -/
def Joined : String × Option String → List LiquidityPool → String × Option String → Prop
  | a, [], b => a = b
  | a, pool :: pools, b =>
    ((pool.assetCodeA, pool.assetIssuerA) = a ∧ Joined (pool.assetCodeB, pool.assetIssuerB) pools b) ∨
      ((pool.assetCodeB, pool.assetIssuerB) = a ∧ Joined (pool.assetCodeA, pool.assetIssuerA) pools b)

/-- The issuer of the asset of the pool that has this code. -/
def LiquidityPool.issuerOf (pool : LiquidityPool) (code : String) : Option String :=
  if pool.assetCodeA = code then pool.assetIssuerA else pool.assetIssuerB

/-- Where one edge ends and the next one starts, their pools mean the same issuer. -/
def IssuersAgree : List GraphEdge → Prop
  | [] => True
  | [_] => True
  | e :: e' :: es =>
    e.pool.issuerOf e.targetAsset = e'.pool.issuerOf e.targetAsset ∧ IssuersAgree (e' :: es)

theorem joined_cons {pools : List LiquidityPool} {code : String} {issuer : Option String}
    {b : String × Option String} {e : GraphEdge} {rest : List LiquidityPool}
    (he : e ∈ edgesFrom (buildGraph pools).nodes code) (hne : e.targetAsset ≠ code) :
    Joined (code, issuer) (e.pool :: rest) b ↔ issuer = e.pool.issuerOf code ∧
      Joined (e.targetAsset, e.pool.issuerOf e.targetAsset) rest b := by
  rw [edgesFrom_buildGraph] at he
  obtain ⟨pool, -, he⟩ := List.mem_flatMap.mp he
  change (_ ∧ Joined _ rest b) ∨ (_ ∧ Joined _ rest b) ↔ _
  unfold LiquidityPool.issuerOf
  rcases mem_poolEdges.mp he with ⟨hcode, rfl⟩ | ⟨hcode, rfl⟩
  · have hback : ¬ pool.assetCodeB = code := hne
    simp only [edgeOf, hcode, Prod.mk.injEq, true_and, if_true, hback, false_and, or_false,
      if_neg (fun h : code = pool.assetCodeB => hback h.symm)]
    exact and_congr_left' eq_comm
  · have hback : ¬ pool.assetCodeA = code := hne
    simp only [edgeOf, hcode, Prod.mk.injEq, true_and, if_true, hback, false_and, false_or, if_false]
    exact and_congr_left' eq_comm

theorem joined_iff {pools : List LiquidityPool} {code goal : String} {issuer : Option String}
    {e : GraphEdge} {es : List GraphEdge}
    (h : Leads (edgesFrom (buildGraph pools).nodes) (·.targetAsset) code (e :: es) goal)
    (hn : (code :: (e :: es).map (·.targetAsset)).Nodup) :
    (∃ issuerOut, Joined (code, issuer) ((e :: es).map (·.pool)) (goal, issuerOut)) ↔
      issuer = e.pool.issuerOf code ∧ IssuersAgree (e :: es) := by
  induction es generalizing code issuer e with
  | nil =>
    obtain ⟨he, hgoal⟩ := h
    have hne : e.targetAsset ≠ code := by
      rintro heq
      simp [heq] at hn
    simp only [List.map_cons, List.map_nil, joined_cons he hne, IssuersAgree, and_true, Joined,
      Prod.mk.injEq]
    constructor
    · rintro ⟨_, hi, -⟩
      exact hi
    · exact fun hi => ⟨_, hi, hgoal, rfl⟩
  | cons e' es ih =>
    obtain ⟨he, hrest⟩ := h
    rw [List.map_cons, List.nodup_cons] at hn
    have hne : e.targetAsset ≠ code := fun heq => hn.1 (by simp [heq])
    have ih := @ih _ (e.pool.issuerOf e.targetAsset) _ hrest hn.2
    simp only [List.map_cons] at ih ⊢
    simp only [joined_cons he hne, IssuersAgree, exists_and_left, ih]

/-! ## The estimate along a path -/

/-- The share of the amount that is left behind the pools. -/
def leftAlong : List LiquidityPool → ℚ → ℚ
  | [], _ => 1
  | pool :: pools, amount =>
    let kept := 1 - min (amount / (pool.tvl / 2)) 1
    kept * leftAlong pools (amount * kept)

/-- What is left of an amount after the fees of the pools. -/
def afterFees (pools : List LiquidityPool) : ℚ := (pools.map fun pool => 1 - pool.feeRate).prod

/-- The reciprocal reserves, each with the fees up to its pool. -/
def slippage : List LiquidityPool → ℚ
  | [] => 0
  | pool :: pools => (1 - pool.feeRate) * (1 / (pool.tvl / 2) + slippage pools)

/-- What comes out of the pools, one after the other, as long as something comes out of each. -/
def amountOut (pools : List LiquidityPool) (amount : ℚ) : ℚ :=
  amount * afterFees pools / (1 + amount * slippage pools)

/-- The sum of the reciprocal reserves. -/
def thinness (pools : List LiquidityPool) : ℚ := (pools.map fun pool => 1 / (pool.tvl / 2)).sum

theorem leftAlong_mem (pools : List LiquidityPool) {amount : ℚ} (h : 0 ≤ amount)
    (hp : ∀ p ∈ pools, 0 < p.tvl) : 0 ≤ leftAlong pools amount ∧ leftAlong pools amount ≤ 1 := by
  induction pools generalizing amount with
  | nil => exact ⟨zero_le_one, le_refl 1⟩
  | cons pool pools ih =>
    have hr : 0 < pool.tvl / 2 := half_pos (hp pool (by simp))
    have hu : 0 ≤ min (amount / (pool.tvl / 2)) 1 := le_min (div_nonneg h hr.le) zero_le_one
    have hu1 : min (amount / (pool.tvl / 2)) 1 ≤ 1 := min_le_right _ _
    have hkept : 0 ≤ 1 - min (amount / (pool.tvl / 2)) 1 := sub_nonneg.mpr hu1
    obtain ⟨h0, h1⟩ := ih (mul_nonneg h hkept) fun p hin => hp p (by simp [hin])
    exact ⟨mul_nonneg hkept h0, mul_le_one₀ (sub_le_self 1 hu) h0 h1⟩

theorem thinness_nonneg {pools : List LiquidityPool} (hp : ∀ p ∈ pools, 0 < p.tvl) :
    0 ≤ thinness pools := by
  refine List.sum_nonneg fun x hx => ?_
  obtain ⟨p, hin, rfl⟩ := List.mem_map.mp hx
  have := hp p hin
  positivity

theorem thinness_cons (pool : LiquidityPool) (pools : List LiquidityPool) :
    thinness (pool :: pools) = 1 / (pool.tvl / 2) + thinness pools := rfl

/-- The share that is left is at most that of a swap without fees, and below it along a route that takes
something. -/
theorem leftAlong_mul {pools : List LiquidityPool} {amount : ℚ} (h : 0 ≤ amount)
    (hp : ∀ p ∈ pools, 0 < p.tvl) :
    leftAlong pools amount * (1 + amount * thinness pools) ≤ 1 ∧
      (0 < amount → pools ≠ [] → leftAlong pools amount * (1 + amount * thinness pools) < 1) := by
  induction pools generalizing amount with
  | nil => simp [leftAlong, thinness]
  | cons pool pools ih =>
    have hr : 0 < pool.tvl / 2 := half_pos (hp pool (by simp))
    have hp' : ∀ p ∈ pools, 0 < p.tvl := fun p hin => hp p (by simp [hin])
    have hS := thinness_nonneg hp'
    rw [thinness_cons]
    simp only [leftAlong]
    set u := amount / (pool.tvl / 2) with hu
    have hu0 : 0 ≤ u := div_nonneg h hr.le
    rcases le_or_gt 1 u with hfull | hpart
    · rw [min_eq_right hfull]
      simp
    · rw [min_eq_left hpart.le]
      set L := leftAlong pools (amount * (1 - u)) with hL
      have hkept : 0 ≤ amount * (1 - u) := mul_nonneg h (by linarith)
      obtain ⟨hle, -⟩ := ih hkept hp'
      have hL0 : 0 ≤ L := (leftAlong_mem pools hkept hp').1
      have hmul : (1 - u) * L * (1 + amount * (1 / (pool.tvl / 2) + thinness pools)) =
          L * (1 + amount * (1 - u) * thinness pools) - u ^ 2 * L := by
        have : amount * (1 / (pool.tvl / 2)) = u := by rw [hu]; ring
        rw [mul_add amount, this]
        ring
      rw [hmul]
      refine ⟨by nlinarith [mul_nonneg (sq_nonneg u) hL0], fun hpos _ => ?_⟩
      have hupos : 0 < u := div_pos hpos hr
      rcases hL0.eq_or_lt with hzero | hLpos
      · rw [← hzero]
        norm_num
      · have := mul_pos (pow_pos hupos 2) hLpos
        linarith

theorem le_leftAlong {pools : List LiquidityPool} {amount : ℚ} (h : 0 ≤ amount)
    (hp : ∀ p ∈ pools, 0 < p.tvl) : 1 - amount * thinness pools ≤ leftAlong pools amount := by
  induction pools generalizing amount with
  | nil => simp [leftAlong, thinness]
  | cons pool pools ih =>
    have hr : 0 < pool.tvl / 2 := half_pos (hp pool (by simp))
    have hp' : ∀ p ∈ pools, 0 < p.tvl := fun p hin => hp p (by simp [hin])
    have hS := thinness_nonneg hp'
    rw [thinness_cons]
    simp only [leftAlong]
    set u := min (amount / (pool.tvl / 2)) 1 with hu
    have hu0 : 0 ≤ u := le_min (div_nonneg h hr.le) zero_le_one
    have hu1 : u ≤ 1 := min_le_right _ _
    have hule : u ≤ amount * (1 / (pool.tvl / 2)) := (min_le_left _ _).trans_eq (by ring)
    have hkept : 0 ≤ amount * (1 - u) := mul_nonneg h (by linarith)
    have ih := ih hkept hp'
    obtain ⟨-, hL1⟩ := leftAlong_mem pools hkept hp'
    set L := leftAlong pools (amount * (1 - u))
    have hless : amount * (1 - u) * thinness pools ≤ amount * thinness pools := by
      have := mul_nonneg (mul_nonneg h hu0) hS
      linarith
    have : u * L ≤ u * 1 := mul_le_mul_of_nonneg_left hL1 hu0
    linarith [mul_add amount (1 / (pool.tvl / 2)) (thinness pools), sub_mul 1 u L]

theorem curve_of_swap {pool : LiquidityPool} {x y : String} {amount : ℚ}
    (h : 0 < simulateSwap pool x y amount) :
    0 < amount * (1 - pool.feeRate) ∧
      simulateSwap pool x y amount = curve (pool.tvl / 2) (amount * (1 - pool.feeRate)) := by
  have htvl := tvl_pos_of_swap h
  have hr : 0 < pool.tvl / 2 := half_pos htvl
  unfold simulateSwap at h ⊢
  rw [if_neg (not_le.mpr htvl)] at h ⊢
  dsimp only at h ⊢
  split at h
  · rename_i hden
    rw [if_pos hden]
    have hnum := (div_pos_iff_of_pos_right hden).mp h
    exact ⟨pos_of_mul_pos_left hnum hr.le, rfl⟩
  · exact absurd h (lt_irrefl 0)

theorem curve_next {r w : ℚ} (hr : 0 < r) (hw : 0 < w) (g h : ℚ) :
    curve r w * g / (1 + curve r w * h) = w * g / (1 + w * (1 / r + h)) := by
  have hsum : 0 < r + w := add_pos hr hw
  have hshare : r / (r + w) ≠ 0 := (div_pos hr hsum).ne'
  have hnum : curve r w * g = r / (r + w) * (w * g) := by
    unfold curve
    ring
  have hden : 1 + curve r w * h = r / (r + w) * (1 + w * (1 / r + h)) := by
    unfold curve
    field_simp
    ring
  rw [hnum, hden, mul_div_mul_left _ _ hshare]

theorem swapAlong_eq {pools : List LiquidityPool} {amount : ℚ}
    (hout : ∀ k < pools.length, 0 < swapAlong (pools.take (k + 1)) amount) :
    swapAlong pools amount = amountOut pools amount := by
  induction pools generalizing amount with
  | nil => simp [swapAlong, amountOut, afterFees, slippage]
  | cons pool pools ih =>
    have hypos : 0 < simulateSwap pool pool.assetCodeA pool.assetCodeB amount := hout 0 (by simp)
    obtain ⟨hw, hcurve⟩ := curve_of_swap hypos
    have hr : 0 < pool.tvl / 2 := half_pos (tvl_pos_of_swap hypos)
    have hrest := @ih (simulateSwap pool pool.assetCodeA pool.assetCodeB amount) fun k hk =>
      hout (k + 1) (by simpa using hk)
    rw [swapAlong, hrest, hcurve, amountOut, curve_next hr hw]
    simp only [amountOut, afterFees, slippage, List.map_cons, List.prod_cons, mul_assoc]

theorem swapAlong_mul_le {pools : List LiquidityPool} {amount : ℚ} (h : 0 < amount)
    (hfee : ∀ p ∈ pools, 0 ≤ p.feeRate)
    (hout : ∀ k < pools.length, 0 < swapAlong (pools.take (k + 1)) amount) :
    swapAlong pools amount * (1 + amount * thinness pools) ≤ amount := by
  induction pools generalizing amount with
  | nil => simp [swapAlong, thinness]
  | cons pool pools ih =>
    set y := simulateSwap pool pool.assetCodeA pool.assetCodeB amount with hy
    have hypos : 0 < y := hout 0 (by simp)
    obtain ⟨hw, hcurve⟩ := curve_of_swap hypos
    have hr : 0 < pool.tvl / 2 := half_pos (tvl_pos_of_swap hypos)
    have hwle : amount * (1 - pool.feeRate) ≤ amount := by
      have := mul_nonneg h.le (hfee pool (by simp))
      linarith [mul_sub amount 1 pool.feeRate]
    have hstep : y * (1 + amount * (1 / (pool.tvl / 2))) ≤ amount := by
      have hmul := curve_mul_le hr hw.le hwle
      rw [← hcurve, ← hy] at hmul
      calc y * (1 + amount * (1 / (pool.tvl / 2)))
          = y * (pool.tvl / 2 + amount) / (pool.tvl / 2) := by
            rw [mul_div_assoc, add_div, div_self hr.ne', mul_one_div]
        _ ≤ amount * (pool.tvl / 2) / (pool.tvl / 2) := by gcongr
        _ = amount := mul_div_cancel_right₀ amount hr.ne'
    have ih := ih hypos (fun p hp => hfee p (by simp [hp])) fun k hk => hout (k + 1) (by simpa using hk)
    have hout : 0 < swapAlong pools y := by
      have := hout pools.length (by simp)
      rwa [List.take_of_length_le (by simp)] at this
    rw [thinness_cons]
    change swapAlong pools y * _ ≤ amount
    set out := swapAlong pools y
    refine le_of_mul_le_mul_right ?_ hypos
    calc out * (1 + amount * (1 / (pool.tvl / 2) + thinness pools)) * y
        = out * (y * (1 + amount * (1 / (pool.tvl / 2))) + amount * y * thinness pools) := by ring
      _ ≤ out * (amount + amount * y * thinness pools) := by gcongr
      _ = amount * (out * (1 + y * thinness pools)) := by ring
      _ ≤ amount * y := by gcongr

/-- Without negative fees, the amount that comes out leaves a larger share behind the same pools than
the amount that goes in. -/
theorem left_lt_left {pools : List LiquidityPool} {amount : ℚ} (h : 0 < amount) (hne : pools ≠ [])
    (hfee : ∀ p ∈ pools, 0 ≤ p.feeRate)
    (hout : ∀ k < pools.length, 0 < swapAlong (pools.take (k + 1)) amount)
    (hp : ∀ p ∈ pools, 0 < p.tvl) :
    leftAlong pools amount < leftAlong pools (swapAlong pools amount) := by
  have hlast : 0 < swapAlong pools amount := by
    have := hout (pools.length - 1) (Nat.sub_lt (List.length_pos_iff.mpr hne) Nat.one_pos)
    rwa [List.take_of_length_le (by omega)] at this
  have hS := thinness_nonneg hp
  have hleft := (leftAlong_mul h.le hp).2 h hne
  have hright := le_leftAlong hlast.le hp
  have hswap := swapAlong_mul_le h hfee hout
  set out := swapAlong pools amount
  have hpos : 0 < 1 + amount * thinness pools := by positivity
  refine lt_of_mul_lt_mul_right ?_ hpos.le
  calc leftAlong pools amount * (1 + amount * thinness pools) < 1 := hleft
    _ ≤ (1 - out * thinness pools) * (1 + amount * thinness pools) := by
      have := mul_le_mul_of_nonneg_right hswap hS
      linarith
    _ ≤ leftAlong pools out * (1 + amount * thinness pools) := by gcongr

theorem tvl_pos_of_swapAlong {pools : List LiquidityPool} {amount : ℚ}
    (h : ∀ k < pools.length, 0 < swapAlong (pools.take (k + 1)) amount) : ∀ p ∈ pools, 0 < p.tvl := by
  induction pools generalizing amount with
  | nil => simp
  | cons pool pools ih =>
    intro p hp
    rcases List.mem_cons.mp hp with rfl | hp
    · exact tvl_pos_of_swap (x := p.assetCodeA) (y := p.assetCodeB) (h 0 (by simp))
    · exact ih (fun k hk => h (k + 1) (by simpa using hk)) p hp

theorem foldl_impactStep {poolMap pools : List LiquidityPool}
    (hlook : ∀ p ∈ pools, lookup (·.id) p.id poolMap = some p) (hp : ∀ p ∈ pools, 0 < p.tvl)
    (amount impact : ℚ) :
    ((pools.map (·.id)).foldl (impactStep poolMap) (amount, impact)).2 =
      1 - (1 - impact) * leftAlong pools amount := by
  induction pools generalizing amount impact with
  | nil => simp [leftAlong]
  | cons pool pools ih =>
    have hdry : ¬ pool.tvl ≤ 0 := not_le.mpr (hp pool (by simp))
    rw [List.map_cons, List.foldl_cons, impactStep, hlook pool (by simp)]
    dsimp only
    rw [if_neg hdry, ih (fun p h => hlook p (by simp [h])) fun p h => hp p (by simp [h])]
    simp only [leftAlong]
    ring

theorem estimate_eq {pools path : List LiquidityPool} (hd : (pools.map (·.id)).Nodup)
    (hin : ∀ p ∈ path, p ∈ pools) (hp : ∀ p ∈ path, 0 < p.tvl) (amount : ℚ) :
    estimateRoutePriceImpact (buildGraph pools).poolMap (path.map (·.id)) amount =
      1 - leftAlong path amount := by
  unfold estimateRoutePriceImpact
  rw [poolMap_buildGraph hd, foldl_impactStep (fun p h => lookup_of_mem hd (hin p h)) hp]
  ring

/-! ## The answers of a run -/

/-- The row is that of the path, with its impact rounded to the column. -/
structure RowOf (g : RouteGraph) (q : RouteQuery) (es : List GraphEdge) (row : RouteCache) : Prop where
  tokenIn : row.tokenIn = q.tokenIn
  tokenOut : row.tokenOut = q.tokenOut
  amountIn : row.amountIn = q.amountIn
  poolPath : row.poolPath = es.map (·.poolId)
  priceImpact : row.priceImpact = roundTo 8 (routeOf g q es).priceImpact

/-- What the aggregator has searched: its rows come from paths of its graph. -/
structure Searched (s : Aggregator) : Prop where
  built : ∃ t : Registry, s.routed.graph = buildGraph t.active
  rows : ∀ row ∈ s.routeCache, s.graph.nodes ≠ [] ∧
    ∃ q es, FeasiblePath s.graph q es ∧ RowOf s.graph q es row

theorem routed_of_nodes {s : Aggregator} (h : s.graph.nodes ≠ []) : s.routed = s := by
  unfold Aggregator.routed
  rw [if_neg h]

theorem routed_of_no_nodes {s : Aggregator} (h : s.graph.nodes = []) :
    s.routed.graph = buildGraph s.registry.active := by
  unfold Aggregator.routed
  rw [if_pos h]

theorem FeasiblePath.nodes_ne {g : RouteGraph} {q : RouteQuery} {es : List GraphEdge}
    (h : FeasiblePath g q es) : g.nodes ≠ [] := by
  intro hn
  cases es with
  | nil => exact h.some_hop rfl
  | cons e es =>
    have he := h.leads.1
    rw [hn] at he
    cases he

theorem cacheRoute_rowOf {now : Time} {g : RouteGraph} {q : RouteQuery} {es : List GraphEdge}
    {row : RouteCache} (h : cacheRoute now q (routeOf g q es) = .ok row) : RowOf g q es row := by
  obtain ⟨expectedOutput, -, h⟩ := bind_eq_ok.mp h
  obtain ⟨priceImpact, himpact, h⟩ := bind_eq_ok.mp h
  obtain ⟨estimatedGas, -, h⟩ := bind_eq_ok.mp h
  obtain ⟨confidence, -, h⟩ := bind_eq_ok.mp h
  cases h
  exact ⟨rfl, rfl, rfl, rfl, numeric_ok himpact⟩

theorem route_of_search {g : RouteGraph} {q : RouteQuery} {r : RouteResult}
    (h : r ∈ searchRoutes g q) : ∃ es, FeasiblePath g q es ∧ r = routeOf g q es := by
  have hcand := (List.mem_insertionSort _).mp (List.mem_of_mem_take h)
  rw [candidates_eq] at hcand
  obtain ⟨es, hes, rfl⟩ := List.mem_map.mp hcand
  exact ⟨es, feasiblePath_iff.mpr (mem_simplePaths.mp hes), rfl⟩

theorem searched_start (registry : Registry) : Searched (.start registry) :=
  ⟨⟨registry, routed_of_no_nodes rfl⟩, fun row h => by cases h⟩

theorem searched_routed {s : Aggregator} (h : Searched s) : Searched s.routed := by
  by_cases hn : s.graph.nodes = []
  · have hrows : ∀ row, row ∉ s.routed.routeCache := fun row hrow => by
      rw [routed_routeCache] at hrow
      exact (h.rows row hrow).1 hn
    refine ⟨?_, fun row hrow => absurd hrow (hrows row)⟩
    by_cases hr : s.routed.graph.nodes = []
    · exact ⟨s.routed.registry, routed_of_no_nodes hr⟩
    · rw [routed_of_nodes hr]
      exact h.built
  · rw [routed_of_nodes hn]
    exact h

theorem searched_step {s : Aggregator} (r : Request) (h : Searched s) : Searched (step s r) := by
  have hwrite : ∀ result, Searched (s.write result) := by
    intro result
    cases result with
    | error e => exact h
    | ok registry =>
      refine ⟨?_, h.rows⟩
      by_cases hn : s.graph.nodes = []
      · exact ⟨registry, routed_of_no_nodes (s := { s with registry := registry }) hn⟩
      · obtain ⟨t, ht⟩ := h.built
        rw [routed_of_nodes hn] at ht
        exact ⟨t, by rwa [Aggregator.write, routed_of_nodes (s := { s with registry := registry }) hn]⟩
  cases r with
  | register dto => exact hwrite _
  | deactivate id => exact hwrite _
  | refreshPool poolId metrics => exact hwrite _
  | findOptimalRoutes now q =>
    have hs := searched_routed h
    rcases findOptimalRoutes_state s now q with heq | ⟨best, hbest, row, hrow, heq⟩
    · rw [step, heq]
      exact hs
    · obtain ⟨es, hes, rfl⟩ := route_of_search hbest
      have hnodes := hes.nodes_ne
      obtain ⟨t, ht⟩ := hs.built
      rw [routed_of_nodes hnodes] at ht
      rw [step, heq]
      refine ⟨⟨t, ?_⟩, fun row' hrow' => ⟨hnodes, ?_⟩⟩
      · rw [routed_of_nodes (s := { s.routed with routeCache := s.routeCache ++ [row] }) hnodes]
        exact ht
      · rcases List.mem_append.mp hrow' with hold | hnew
        · exact (hs.rows row' (by rwa [routed_routeCache])).2
        · rw [List.mem_singleton.mp hnew]
          exact ⟨q, es, hes, cacheRoute_rowOf hrow⟩

theorem searched_run (registry : Registry) (rs : List Request) :
    Searched (run step (.start registry) rs) :=
  run_inv (G := fun _ _ => True) (fun _ r h _ => searched_step r h) (searched_start registry) along_true

/-! ## When a route is right -/

def poolsOn (g : RouteGraph) (poolPath : List Uuid) : List LiquidityPool :=
  poolPath.filterMap fun id => lookup (·.id) id g.poolMap

/-- Consecutive pools share the asset between them, and the impact is that of the input. -/
structure ExactRoute (g : RouteGraph) (q : RouteQuery) (r : RouteResult) : Prop where
  joined : ∃ issuerIn issuerOut,
    Joined (q.tokenIn, issuerIn) (poolsOn g r.poolPath) (q.tokenOut, issuerOut)
  impact : r.priceImpact = estimateRoutePriceImpact g.poolMap r.poolPath q.amountIn

/-- What a call reports as the impact of the pools, in terms of the amount it is called with, or of the
amount the row that answers it was computed for. -/
def reportedImpact (pools : List LiquidityPool) (amountIn : ℚ) : Option RouteCache → ℚ
  | none => 1 - leftAlong pools (amountOut pools amountIn)
  | some row => roundTo 8 (1 - leftAlong pools (amountOut pools row.amountIn))

theorem mem_pools_of_leads {pools : List LiquidityPool} {code goal : String} {es : List GraphEdge}
    (h : Leads (edgesFrom (buildGraph pools).nodes) (·.targetAsset) code es goal) :
    ∀ e ∈ es, e.pool ∈ pools ∧ e.poolId = e.pool.id := by
  induction es generalizing code with
  | nil => simp
  | cons e es ih =>
    intro e' he'
    rcases List.mem_cons.mp he' with rfl | he'
    · exact mem_edgesFrom_buildGraph h.1
    · exact ih h.2 e' he'

theorem poolsOn_path {pools : List LiquidityPool} (hd : (pools.map (·.id)).Nodup) {es : List GraphEdge}
    (h : ∀ e ∈ es, e.pool ∈ pools ∧ e.poolId = e.pool.id) :
    poolsOn (buildGraph pools) (es.map (·.poolId)) = es.map (·.pool) := by
  unfold poolsOn
  rw [poolMap_buildGraph hd]
  induction es with
  | nil => rfl
  | cons e es ih =>
    obtain ⟨hin, hid⟩ := h e (by simp)
    rw [List.map_cons, List.filterMap_cons_some (b := e.pool) (by rw [hid, lookup_of_mem hd hin]),
      List.map_cons, ih fun e' he' => h e' (by simp [he'])]

theorem served_tokens {s : Aggregator} {now : Time} {q : RouteQuery} {row : RouteCache}
    (h : s.served now q = some row) : row.tokenIn = q.tokenIn ∧ row.tokenOut = q.tokenOut := by
  unfold Aggregator.served at h
  split at h
  · have hlast := (Option.filter_eq_some_iff.mp h).1
    simpa using (List.mem_filter.mp (List.mem_of_getLast? hlast)).2
  · cases h

theorem findOptimalRoutes_served {s : Aggregator} {now : Time} {q : RouteQuery} {row : RouteCache}
    (h : s.served now q = some row) :
    (findOptimalRoutes s now q).1 = .ok [row.result q.tokenIn q.tokenOut] := by
  have hserved : s.routed.served now q = some row := by
    rw [← h]
    simp only [Aggregator.served, routed_routeCache]
  simp only [findOptimalRoutes, hserved]

/-- The pools of a path let something through, one after the other. -/
theorem FeasiblePath.passes {g : RouteGraph} {q : RouteQuery} {es : List GraphEdge}
    (h : FeasiblePath g q es) :
    ∀ k < (es.map (·.pool)).length, 0 < swapAlong ((es.map (·.pool)).take (k + 1)) q.amountIn := by
  intro k hk
  rw [← List.map_take]
  exact h.positive k (by simpa using hk)

/-- The estimate on a path, for any amount. -/
theorem FeasiblePath.estimate {pools : List LiquidityPool} (hd : (pools.map (·.id)).Nodup)
    {q : RouteQuery} {es : List GraphEdge} (h : FeasiblePath (buildGraph pools) q es) (amount : ℚ) :
    estimateRoutePriceImpact (buildGraph pools).poolMap (es.map (·.poolId)) amount =
      1 - leftAlong (es.map (·.pool)) amount := by
  have hpools := mem_pools_of_leads h.leads
  have hids : es.map (·.poolId) = (es.map (·.pool)).map (·.id) := by
    rw [List.map_map]
    exact List.map_congr_left fun e he => (hpools e he).2
  rw [hids]
  refine estimate_eq hd (fun p hp => ?_) (tvl_pos_of_swapAlong h.passes) amount
  obtain ⟨e, he, rfl⟩ := List.mem_map.mp hp
  exact (hpools e he).1

/-- The impact a search reports is that of what comes out. -/
theorem FeasiblePath.reported {pools : List LiquidityPool} (hd : (pools.map (·.id)).Nodup)
    {q : RouteQuery} {es : List GraphEdge} (h : FeasiblePath (buildGraph pools) q es) :
    (routeOf (buildGraph pools) q es).priceImpact =
      1 - leftAlong (es.map (·.pool)) (amountOut (es.map (·.pool)) q.amountIn) := by
  rw [← swapAlong_eq h.passes, ← h.estimate hd]
  rfl

theorem route_of_answer {s : Aggregator} (hs : Searched s) {now : Time} {q : RouteQuery}
    {routes : List RouteResult} (h : (findOptimalRoutes s now q).1 = .ok routes) {r : RouteResult}
    (hr : r ∈ routes) : ∃ q' es, q'.tokenIn = q.tokenIn ∧ q'.tokenOut = q.tokenOut ∧
      FeasiblePath s.routed.graph q' es ∧ r.poolPath = es.map (·.poolId) ∧
      r.priceImpact = reportedImpact (es.map (·.pool)) q.amountIn (s.served now q) ∧
      (s.served now q = none → q' = q) := by
  obtain ⟨t, hgraph⟩ := hs.built
  have hd := nodup_active t
  cases hserved : s.served now q with
  | none =>
    rw [findOptimalRoutes_uncached hserved] at h
    split at h
    · cases h
      obtain ⟨es, hes, rfl⟩ := route_of_search hr
      refine ⟨q, es, rfl, rfl, hes, rfl, ?_, fun _ => rfl⟩
      rw [hgraph] at hes ⊢
      exact hes.reported hd
    · cases h
  | some row =>
    rw [findOptimalRoutes_served hserved] at h
    cases h
    obtain ⟨hn, q', es, hes, hrow⟩ := hs.rows row (served_mem hserved)
    obtain ⟨htin, htout⟩ := served_tokens hserved
    rw [List.mem_singleton.mp hr]
    rw [← routed_of_nodes hn, hgraph] at hes hrow
    refine ⟨q', es, hrow.tokenIn.symm.trans htin, hrow.tokenOut.symm.trans htout, hgraph ▸ hes,
      hrow.poolPath, ?_, fun h => by cases h⟩
    rw [reportedImpact, hrow.amountIn, ← hes.reported hd]
    exact hrow.priceImpact

theorem FeasiblePath.left_ne {g : RouteGraph} {q : RouteQuery} {es : List GraphEdge}
    (h : FeasiblePath g q es) (hpos : 0 < q.amountIn) (hfee : ∀ p ∈ es.map (·.pool), 0 ≤ p.feeRate) :
    leftAlong (es.map (·.pool)) (amountOut (es.map (·.pool)) q.amountIn) ≠
      leftAlong (es.map (·.pool)) q.amountIn := by
  rw [← swapAlong_eq h.passes]
  exact (left_lt_left hpos (by simpa using h.some_hop) hfee h.passes
    (tvl_pos_of_swapAlong h.passes)).ne'

theorem FeasiblePath.joined_iff {pools : List LiquidityPool} (hd : (pools.map (·.id)).Nodup)
    {q : RouteQuery} {es : List GraphEdge} (h : FeasiblePath (buildGraph pools) q es) :
    (∃ issuerIn issuerOut, Joined (q.tokenIn, issuerIn)
      (poolsOn (buildGraph pools) (es.map (·.poolId))) (q.tokenOut, issuerOut)) ↔ IssuersAgree es := by
  rw [poolsOn_path hd (mem_pools_of_leads h.leads)]
  cases es with
  | nil => exact absurd rfl h.some_hop
  | cons e es =>
    simp only [Liquidity.joined_iff h.leads h.simple]
    exact ⟨fun ⟨_, h⟩ => h.2, fun h => ⟨_, rfl, h⟩⟩

/-- A route is right exactly when its pools mean the same issuers and leave the same share of the
amount that comes out as of the amount that goes in. Without negative fees they do not. -/
theorem route_exact_iff (registry : Registry) (rs : List Request) {now : Time} {q : RouteQuery}
    {routes : List RouteResult} {r : RouteResult}
    (h : (findOptimalRoutes (run step (.start registry) rs) now q).1 = .ok routes) (hr : r ∈ routes) :
    ∃ es : List GraphEdge,
      Leads (edgesFrom (run step (.start registry) rs).routed.graph.nodes) (·.targetAsset) q.tokenIn es
        q.tokenOut ∧
      r.poolPath = es.map (·.poolId) ∧
      (ExactRoute (run step (.start registry) rs).routed.graph q r ↔ IssuersAgree es ∧
        reportedImpact (es.map (·.pool)) q.amountIn ((run step (.start registry) rs).served now q) =
          1 - leftAlong (es.map (·.pool)) q.amountIn) ∧
      ((run step (.start registry) rs).served now q = none → 0 < q.amountIn →
        (∀ e ∈ es, 0 ≤ e.pool.feeRate) →
        ¬ ExactRoute (run step (.start registry) rs).routed.graph q r) := by
  have hs := searched_run registry rs
  set s := run step (.start registry) rs
  obtain ⟨t, hgraph⟩ := hs.built
  obtain ⟨q', es, hin, hout, hes, hpath, himpact, hsame⟩ := route_of_answer hs h hr
  have hd := nodup_active t
  rw [hgraph] at hes ⊢
  have hjoined := hes.joined_iff hd
  have hleads := hes.leads
  rw [hin, hout, ← hpath] at hjoined
  rw [hin, hout] at hleads
  have hestimate := hes.estimate hd q.amountIn
  rw [← hpath] at hestimate
  have hexact : ExactRoute (buildGraph t.active) q r ↔ IssuersAgree es ∧
      reportedImpact (es.map (·.pool)) q.amountIn (s.served now q) =
        1 - leftAlong (es.map (·.pool)) q.amountIn := by
    rw [← hjoined, ← hestimate, ← himpact]
    exact ⟨fun hex => ⟨hex.joined, hex.impact⟩, fun ⟨hj, hi⟩ => ⟨hj, hi⟩⟩
  refine ⟨es, hleads, hpath, hexact, fun hnone hpos hfee hex => ?_⟩
  have hequal := (hexact.mp hex).2
  rw [hnone, reportedImpact] at hequal
  rw [hsame hnone] at hes
  refine hes.left_ne hpos (fun p hp => ?_) (sub_right_injective hequal)
  obtain ⟨e, he, rfl⟩ := List.mem_map.mp hp
  exact hfee e he

theorem single_answer {β : Type} {x : Except HttpError (List RouteResult)} {f : RouteResult → β} {b : β}
    (h : x.toOption.map (·.map f) = some [b]) : ∃ r, x = .ok [r] ∧ f r = b := by
  cases x with
  | error e => cases h
  | ok routes =>
    obtain ⟨r, rest, rfl, hr, hrest⟩ := List.map_eq_cons_iff.mp (Option.some.inj h)
    rw [List.map_eq_nil_iff.mp hrest]
    exact ⟨r, rfl, hr⟩

def onePool : List Request := [.register xlmUsdc, .refreshPool 0 ⟨1000, 50, 1, 3 / 1000⟩]

/-- For 100 XLM the route reports the impact of the 83 USDC that come out. -/
theorem one_hop_inexact : ∃ routes, ∃ r ∈ routes,
    (findOptimalRoutes (run step (.start emptyRegistry) onePool) 0 (xlmToUsdc 100)).1 = .ok routes ∧
      ¬ ExactRoute (run step (.start emptyRegistry) onePool).routed.graph (xlmToUsdc 100) r := by
  obtain ⟨r, hok, -⟩ := single_answer (f := (·.poolPath)) (b := [0])
    (x := (findOptimalRoutes (run step (.start emptyRegistry) onePool) 0 (xlmToUsdc 100)).1)
    (by decide +kernel)
  have hr : r ∈ [r] := List.mem_singleton_self r
  obtain ⟨es, hleads, -, -, hno⟩ := route_exact_iff emptyRegistry onePool hok hr
  refine ⟨[r], r, hr, hok, hno (by decide +kernel) (by decide +kernel) fun e he => ?_⟩
  rw [routed_of_no_nodes (by decide +kernel)] at hleads
  have hpools := mem_pools_of_leads hleads e he
  have hfees : ∀ p ∈ (run step (.start emptyRegistry) onePool).registry.active, 0 ≤ p.feeRate := by
    decide +kernel
  exact hfees _ hpools.1

def usdcOfA : RegisterPoolDto := ⟨"XLM/USDC", .amm, "XLM", none, "USDC", some "GA", none⟩

def usdcOfB : RegisterPoolDto := ⟨"USDC/EURC", .amm, "USDC", some "GB", "EURC", some "GE", none⟩

/-- Two pools whose USDC have different issuers. -/
def mixedPools : Aggregator :=
  run step (.start emptyRegistry)
    [.register usdcOfA, .register usdcOfB, .refreshPool 0 ⟨1000, 50, 1, 3 / 1000⟩,
      .refreshPool 1 ⟨1000, 50, 1, 3 / 1000⟩]

def xlmToEurc : RouteQuery := ⟨"XLM", "EURC", 100, 4, 1⟩

/-- The route goes on with the USDC of another issuer, and its impact is not that of 100 XLM. -/
theorem issuers_mixed : ∃ routes, ∃ r ∈ routes,
    (findOptimalRoutes mixedPools 0 xlmToEurc).1 = .ok routes ∧
      (¬ ∃ issuerIn issuerOut, Joined (xlmToEurc.tokenIn, issuerIn)
        (poolsOn mixedPools.routed.graph r.poolPath) (xlmToEurc.tokenOut, issuerOut)) ∧
      r.priceImpact ≠ estimateRoutePriceImpact mixedPools.routed.graph.poolMap r.poolPath
        xlmToEurc.amountIn := by
  obtain ⟨r, hok, hr⟩ := single_answer (f := fun r => (r.poolPath, decide (r.priceImpact =
      estimateRoutePriceImpact mixedPools.routed.graph.poolMap r.poolPath xlmToEurc.amountIn)))
    (b := ([0, 1], false)) (x := (findOptimalRoutes mixedPools 0 xlmToEurc).1) (by decide +kernel)
  obtain ⟨hpath, himpact⟩ := Prod.mk.inj hr
  refine ⟨[r], r, List.mem_singleton_self r, hok, ?_, of_decide_eq_false himpact⟩
  rw [hpath]
  have hsides : (poolsOn mixedPools.routed.graph [0, 1]).map
      (fun p => ((p.assetCodeA, p.assetIssuerA), p.assetCodeB, p.assetIssuerB)) =
      [(("XLM", none), "USDC", some "GA"), (("USDC", some "GB"), "EURC", some "GE")] := by
    decide +kernel
  rintro ⟨issuerIn, issuerOut, h⟩
  obtain ⟨p, rest, hpools, hp, hrest⟩ := List.map_eq_cons_iff.mp hsides
  obtain ⟨p', rest', rfl, hp', -⟩ := List.map_eq_cons_iff.mp hrest
  rw [hpools] at h
  simp only [Joined, Prod.mk.injEq] at h hp hp'
  simp [hp, hp', xlmToEurc] at h

end Liquidity
end TradeCore
