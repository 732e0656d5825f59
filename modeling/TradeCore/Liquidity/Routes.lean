import TradeCore.Liquidity.Freshness
import TradeCore.Lib.SimplePaths

/-!
# TradeCore.Liquidity.Routes

What `findOptimalRoutes` returns without the cache. `dfs` lists the routes of the simple paths that an
amount gets through (`dfs_eq`), each once, and the answer is the best `topN` of them
(`findOptimalRoutes_best`).
-/

namespace TradeCore
namespace Liquidity

open Lib

/-! ## The paths of the search -/

/-- A hop that nothing comes out of ends the path. -/
def swapEdge (e : GraphEdge) (amount : ℚ) : Option ℚ :=
  let outputAmount := simulateSwap e.pool e.pool.assetCodeA e.pool.assetCodeB amount
  if outputAmount ≤ 0 then none else some outputAmount

def swapEdges (es : List GraphEdge) (amount : ℚ) : ℚ := swapAlong (es.map (·.pool)) amount

/-- A simple path of assets from `tokenIn` to `tokenOut` over pools that let something through. -/
structure FeasiblePath (g : RouteGraph) (q : RouteQuery) (es : List GraphEdge) : Prop where
  leads : Leads (edgesFrom g.nodes) (·.targetAsset) q.tokenIn es q.tokenOut
  some_hop : es ≠ []
  hops : es.length ≤ q.maxHops
  simple : (q.tokenIn :: es.map (·.targetAsset)).Nodup
  positive : ∀ k < es.length, 0 < swapEdges (es.take (k + 1)) q.amountIn

def routeOf (g : RouteGraph) (q : RouteQuery) (es : List GraphEdge) : RouteResult where
  poolPath := es.map (·.poolId)
  assetPath := q.tokenIn :: es.map (·.targetAsset)
  totalWeight := (es.map (·.weight)).sum
  estimatedOutput := swapEdges es q.amountIn
  priceImpact := estimateRoutePriceImpact g.poolMap (es.map (·.poolId)) (swapEdges es q.amountIn)
  estimatedGas := es.length * 100000

theorem swapEdges_cons (e : GraphEdge) (es : List GraphEdge) (amount : ℚ) :
    swapEdges (e :: es) amount =
      swapEdges es (simulateSwap e.pool e.pool.assetCodeA e.pool.assetCodeB amount) := rfl

theorem carry_isSome_iff {es : List GraphEdge} {amount : ℚ} :
    (carry swapEdge es amount).isSome ↔ ∀ k < es.length, 0 < swapEdges (es.take (k + 1)) amount := by
  induction es generalizing amount with
  | nil => simp [carry]
  | cons e es ih =>
    by_cases hout : simulateSwap e.pool e.pool.assetCodeA e.pool.assetCodeB amount ≤ 0
    · have hnone : carry swapEdge (e :: es) amount = none := by simp [carry, swapEdge, hout]
      rw [hnone]
      refine iff_of_false (by simp) fun h => ?_
      exact absurd (h 0 (by simp)) (not_lt.mpr hout)
    · have hsome : carry swapEdge (e :: es) amount =
          carry swapEdge es (simulateSwap e.pool e.pool.assetCodeA e.pool.assetCodeB amount) := by
        simp [carry, swapEdge, hout]
      rw [hsome, ih]
      constructor
      · intro h k hk
        cases k with
        | zero => exact not_le.mp hout
        | succ k => exact h k (by simpa using hk)
      · exact fun h k hk => h (k + 1) (by simpa using hk)

theorem feasiblePath_iff {g : RouteGraph} {q : RouteQuery} {es : List GraphEdge} :
    FeasiblePath g q es ↔ IsSimple (edgesFrom g.nodes) (·.targetAsset) swapEdge q.tokenOut q.maxHops
      false [] q.tokenIn q.amountIn es :=
  ⟨fun h => ⟨h.leads, .inr h.some_hop, h.hops, h.simple, by simp, carry_isSome_iff.mpr h.positive⟩,
    fun h => ⟨h.leads, h.leaves.resolve_left (by simp), h.short, h.nodup, carry_isSome_iff.mp h.passes⟩⟩

/-- The search lists the routes of the simple paths. -/
theorem dfs_eq (g : RouteGraph) (target : String) (hops : ℕ) (current : String) (amount : ℚ)
    (poolPath : List Uuid) (assetPath visited : List String) (weight : ℚ) :
    dfs g target hops current amount poolPath assetPath visited weight =
      (simplePaths (edgesFrom g.nodes) (·.targetAsset) swapEdge target hops (decide (poolPath ≠ []))
        visited current amount).map fun es =>
          { poolPath := poolPath ++ es.map (·.poolId)
            assetPath := assetPath ++ current :: es.map (·.targetAsset)
            totalWeight := weight + (es.map (·.weight)).sum
            estimatedOutput := swapEdges es amount
            priceImpact := estimateRoutePriceImpact g.poolMap (poolPath ++ es.map (·.poolId))
              (swapEdges es amount)
            estimatedGas := (poolPath.length + es.length : ℕ) * 100000 } := by
  induction hops generalizing current amount poolPath assetPath visited weight with
  | zero =>
    unfold dfs simplePaths
    simp only [decide_eq_true_eq]
    split
    · simp [swapEdges, swapAlong]
    · rfl
  | succ hops ih =>
    unfold dfs simplePaths
    simp only [decide_eq_true_eq]
    split
    · simp [swapEdges, swapAlong]
    · rw [List.map_flatMap]
      congr 1
      funext e
      split
      · rfl
      · have hswap : simulateSwap e.pool current e.targetAsset amount =
            simulateSwap e.pool e.pool.assetCodeA e.pool.assetCodeB amount := rfl
        dsimp only [swapEdge]
        rw [hswap]
        split
        · rfl
        · dsimp only
          rw [ih, List.map_map]
          have hne : decide (poolPath ++ [e.poolId] ≠ []) = true := by simp
          rw [hne]
          congr 1
          funext es
          simp only [Function.comp_apply, List.map_cons, List.append_assoc, List.singleton_append,
            List.sum_cons, swapEdges_cons, List.length_append, List.length_cons, List.length_nil,
            RouteResult.mk.injEq, true_and]
          refine ⟨by ring, ?_⟩
          push_cast
          ring

/-! ## The edges of the graph -/

/-- The edges a pool adds to an asset: one for each of its sides. -/
def poolEdges (asset : String) (pool : LiquidityPool) : List GraphEdge :=
  (if pool.assetCodeA = asset then [edgeOf pool pool.assetCodeB] else []) ++
    if pool.assetCodeB = asset then [edgeOf pool pool.assetCodeA] else []

theorem edgesFrom_buildGraph (pools : List LiquidityPool) (asset : String) :
    edgesFrom (buildGraph pools).nodes asset = pools.flatMap (poolEdges asset) := by
  induction pools using List.reverseRecOn with
  | nil => rfl
  | append_singleton pools pool ih =>
    rw [buildGraph_concat, List.flatMap_append, List.flatMap_singleton, ← ih]
    simp only [RouteGraph.addPool, edgesFrom_addEdge, poolEdges]
    split <;> split <;> simp

theorem mem_poolEdges {asset : String} {pool : LiquidityPool} {e : GraphEdge} :
    e ∈ poolEdges asset pool ↔ pool.assetCodeA = asset ∧ e = edgeOf pool pool.assetCodeB ∨
      pool.assetCodeB = asset ∧ e = edgeOf pool pool.assetCodeA := by
  unfold poolEdges
  rw [List.mem_append]
  split <;> split <;> simp [*]

theorem pool_of_mem_poolEdges {asset : String} {pool : LiquidityPool} {e : GraphEdge}
    (h : e ∈ poolEdges asset pool) : e.pool = pool ∧ e.poolId = pool.id := by
  rcases mem_poolEdges.mp h with ⟨-, rfl⟩ | ⟨-, rfl⟩ <;> exact ⟨rfl, rfl⟩

theorem edgesFrom_distinct {pools : List LiquidityPool} (h : (pools.map (·.id)).Nodup) (asset : String) :
    (edgesFrom (buildGraph pools).nodes asset).Pairwise fun e e' => e = e' → e.targetAsset = asset := by
  rw [edgesFrom_buildGraph, List.pairwise_flatMap]
  constructor
  · intro pool _
    unfold poolEdges
    split <;> split <;> simp [edgeOf, *]
  · refine (List.pairwise_map.mp h).imp fun {p p'} hne e he e' he' hee => absurd ?_ hne
    rw [← (pool_of_mem_poolEdges he).2, ← (pool_of_mem_poolEdges he').2, hee]

/-! ## The best routes -/

/-- `routes` are the `topN` best of all routes there are. -/
def BestRoutes (g : RouteGraph) (q : RouteQuery) (routes : List RouteResult) : Prop :=
  ∃ (paths : List (List GraphEdge)) (rest : List RouteResult),
    paths.Nodup ∧ (∀ es, es ∈ paths ↔ FeasiblePath g q es) ∧
    (routes ++ rest).Perm (paths.map (routeOf g q)) ∧
    routes.length = min q.topN paths.length ∧
    routes.Pairwise (fun r r' => r'.estimatedOutput ≤ r.estimatedOutput) ∧
    ∀ r ∈ routes, ∀ r' ∈ rest, r'.estimatedOutput ≤ r.estimatedOutput

def pathsOf (g : RouteGraph) (q : RouteQuery) : List (List GraphEdge) :=
  simplePaths (edgesFrom g.nodes) (·.targetAsset) swapEdge q.tokenOut q.maxHops false [] q.tokenIn
    q.amountIn

theorem candidates_eq (g : RouteGraph) (q : RouteQuery) :
    dfs g q.tokenOut q.maxHops q.tokenIn q.amountIn [] [] [] 0 = (pathsOf g q).map (routeOf g q) := by
  rw [dfs_eq]
  simp [pathsOf, routeOf]

theorem searchRoutes_best {pools : List LiquidityPool} (h : (pools.map (·.id)).Nodup) (q : RouteQuery) :
    BestRoutes (buildGraph pools) q (searchRoutes (buildGraph pools) q) := by
  unfold searchRoutes
  dsimp only
  rw [candidates_eq]
  set ranked := ((pathsOf (buildGraph pools) q).map (routeOf (buildGraph pools) q)).insertionSort
    fun a b => b.estimatedOutput ≤ a.estimatedOutput with hranked
  have hperm : ranked.Perm ((pathsOf (buildGraph pools) q).map (routeOf (buildGraph pools) q)) :=
    List.perm_insertionSort _ _
  have htotal : Std.Total fun a b : RouteResult => b.estimatedOutput ≤ a.estimatedOutput :=
    ⟨fun a b => le_total b.estimatedOutput a.estimatedOutput⟩
  have htrans : IsTrans RouteResult fun a b => b.estimatedOutput ≤ a.estimatedOutput :=
    ⟨fun _ _ _ hab hbc => le_trans hbc hab⟩
  have hsorted : ranked.Pairwise fun a b => b.estimatedOutput ≤ a.estimatedOutput :=
    List.pairwise_insertionSort _ _
  have hsplit := List.take_append_drop q.topN ranked
  rw [← hsplit, List.pairwise_append] at hsorted
  refine ⟨pathsOf (buildGraph pools) q, ranked.drop q.topN, ?_, ?_, ?_, ?_, hsorted.1, hsorted.2.2⟩
  · exact nodup_simplePaths (edgesFrom_distinct h)
  · exact fun es => mem_simplePaths.trans feasiblePath_iff.symm
  · rw [hsplit]
    exact hperm
  · rw [List.length_take, hperm.length_eq, List.length_map]

theorem BestRoutes.head {g : RouteGraph} {q : RouteQuery} {routes : List RouteResult}
    (h : BestRoutes g q routes) {best : RouteResult} (hbest : best ∈ routes.head?)
    {es : List GraphEdge} (hes : FeasiblePath g q es) :
    swapEdges es q.amountIn ≤ best.estimatedOutput := by
  obtain ⟨paths, rest, -, hpaths, hperm, -, hsorted, hrest⟩ := h
  have hin : routeOf g q es ∈ routes ++ rest :=
    hperm.mem_iff.mpr (List.mem_map_of_mem ((hpaths es).mpr hes))
  cases routes with
  | nil => cases hbest
  | cons r routes =>
    obtain rfl : r = best := Option.some.inj hbest
    rcases List.mem_append.mp hin with hin | hin
    · rcases List.mem_cons.mp hin with heq | hin
      · rw [← heq]
        rfl
      · exact (List.pairwise_cons.mp hsorted).1 _ hin
    · exact hrest r List.mem_cons_self _ hin

/-- The numbers of the row for the cache fit their columns. -/
def Storable (r : RouteResult) : Prop :=
  |roundTo 7 r.estimatedOutput| < 10 ^ 23 ∧ |roundTo 8 r.priceImpact| < 10 ^ 2 ∧
    |roundTo 0 r.estimatedGas| < 10 ^ 20 ∧ |roundTo 4 (max 0 (1 - r.priceImpact))| < 10

instance : DecidablePred Storable := fun _ => inferInstanceAs (Decidable (_ ∧ _ ∧ _ ∧ _))

theorem cacheRoute_of_storable {r : RouteResult} (h : Storable r) (now : Time) (q : RouteQuery) :
    ∃ row, cacheRoute now q r = .ok row := by
  obtain ⟨hout, himpact, hgas, hconf⟩ := h
  simp [cacheRoute, numeric, hout, himpact, hgas, hconf, bind, Except.bind, pure, Except.pure]

theorem cacheRoute_of_not_storable {r : RouteResult} (h : ¬ Storable r) (now : Time) (q : RouteQuery) :
    cacheRoute now q r = .error databaseError := by
  by_cases hout : |roundTo 7 r.estimatedOutput| < 10 ^ 23
  · by_cases himpact : |roundTo 8 r.priceImpact| < 10 ^ 2
    · by_cases hgas : |roundTo 0 r.estimatedGas| < 10 ^ 20
      · have hconf : ¬ |roundTo 4 (max 0 (1 - r.priceImpact))| < 10 :=
          fun hconf => h ⟨hout, himpact, hgas, hconf⟩
        simp [cacheRoute, numeric, hout, himpact, hgas, hconf, bind, Except.bind]
      · simp [cacheRoute, numeric, hout, himpact, hgas, bind, Except.bind]
    · simp [cacheRoute, numeric, hout, himpact, bind, Except.bind]
  · simp [cacheRoute, numeric, hout, bind, Except.bind]

/-- A search without the cache fails as a whole when its best route cannot be stored. -/
theorem findOptimalRoutes_uncached {s : Aggregator} {now : Time} {q : RouteQuery}
    (h : s.served now q = none) :
    (findOptimalRoutes s now q).1 =
      if ∀ best ∈ (searchRoutes s.routed.graph q).head?, Storable best then
        .ok (searchRoutes s.routed.graph q)
      else .error databaseError := by
  have hserved : s.routed.served now q = none := by
    rw [← h]
    simp only [Aggregator.served, routed_routeCache]
  simp only [findOptimalRoutes, hserved]
  cases searchRoutes s.routed.graph q with
  | nil => simp
  | cons best rest =>
    simp only [List.head?_cons, Option.mem_def, Option.some.injEq, forall_eq']
    by_cases hbest : Storable best
    · obtain ⟨row, hrow⟩ := cacheRoute_of_storable hbest now q
      rw [hrow, if_pos hbest]
    · rw [cacheRoute_of_not_storable hbest, if_neg hbest]

/-- A call that no cached row answers returns the best routes, best first, unless a number of the best
one does not fit its column in the cache. -/
theorem findOptimalRoutes_best {s : Aggregator} {t : Registry} (now : Time) {q : RouteQuery}
    (hgraph : s.routed.graph = buildGraph t.active) (huncached : s.served now q = none) :
    ∃ routes, BestRoutes s.routed.graph q routes ∧
      (∀ best ∈ routes.head?, ∀ es, FeasiblePath s.routed.graph q es →
        swapEdges es q.amountIn ≤ best.estimatedOutput) ∧
      (findOptimalRoutes s now q).1 =
        if ∀ best ∈ routes.head?, Storable best then .ok routes else .error databaseError := by
  have hbest : BestRoutes s.routed.graph q (searchRoutes s.routed.graph q) := by
    rw [hgraph]
    exact searchRoutes_best (nodup_active t) q
  exact ⟨_, hbest, fun best hb es hes => hbest.head hb hes, findOptimalRoutes_uncached huncached⟩

def twoXlmUsdc : RegisterPoolDto := ⟨"XLM/USDC", .stellarDex, "XLM", none, "USDC", none, none⟩

/-- Two parallel pools from XLM to USDC, and a way round over yXLM that nothing comes through. -/
def parallelPools : Aggregator :=
  run step (.start emptyRegistry)
    [.register xlmUsdc, .refreshPool 0 ⟨1000, 50, 1, 3 / 1000⟩, .register twoXlmUsdc,
      .refreshPool 1 ⟨4000, 50, 1, 3 / 1000⟩, .register yxlmUsdc]

theorem parallelPools_best :
    ∃ routes, BestRoutes parallelPools.routed.graph (xlmToUsdc 100) routes ∧
      (findOptimalRoutes parallelPools 0 (xlmToUsdc 100)).1 = .ok routes := by
  obtain ⟨routes, hbest, -, hanswer⟩ :=
    findOptimalRoutes_best (s := parallelPools) (t := parallelPools.registry) 0
      (q := xlmToUsdc 100) (by decide +kernel) (by decide +kernel)
  have hsome : (findOptimalRoutes parallelPools 0 (xlmToUsdc 100)).1.toOption.isSome := by
    decide +kernel
  split at hanswer
  · exact ⟨routes, hbest, hanswer⟩
  · rw [hanswer] at hsome
    cases hsome

end Liquidity
end TradeCore
