import TradeCore.Liquidity.Router

/-!
# TradeCore.Liquidity.Freshness

Whether the router answers with the pools as they are. Its graph and its cached routes are copies,
and no request to the registry reaches them: the graph is built once, and a cached row answers every
call for its pair until it expires.

* `routes_current`: as long as the registry leaves the pools of the graph alone and a row only
  answers for the amount it was computed for, every route runs over active pools and its output is
  theirs. The invariant is `Fresh`.
* `cache_agrees_iff`: a call answered from the cache never gets what the search returns, since the
  asset path of the row has one asset too many.
-/

namespace TradeCore
namespace Liquidity

open Lib

/-! ## What one request can do -/

theorem Registry.register_ok {t t' : Registry} {dto : RegisterPoolDto}
    (h : t.register dto = .ok t') : ∃ pool, t'.pools = t.pools ++ [pool] := by
  unfold Registry.register at h
  split at h
  · cases h
  · obtain ⟨feeRate, -, h⟩ := bind_eq_ok.mp h
    cases h
    exact ⟨_, rfl⟩

theorem Registry.deactivate_ok {t t' : Registry} {id : Uuid} (h : t.deactivate id = .ok t') :
    ∃ pool : LiquidityPool, pool.id = id ∧
      t'.pools = upsert (·.id) { pool with status := .inactive } t.pools := by
  unfold Registry.deactivate at h
  split at h
  · cases h
  · rename_i pool hpool
    cases h
    exact ⟨pool, (Registry.findById_ok hpool).2, rfl⟩

theorem columns_ok {metrics m : PoolMetrics} (h : metrics.columns = .ok m) :
    m.tvl = roundTo 7 metrics.tvl ∧ m.feeRate = roundTo 8 metrics.feeRate := by
  obtain ⟨tvl, htvl, h⟩ := bind_eq_ok.mp h
  obtain ⟨volume24h, -, h⟩ := bind_eq_ok.mp h
  obtain ⟨feeRevenue24h, -, h⟩ := bind_eq_ok.mp h
  obtain ⟨feeRate, hfee, h⟩ := bind_eq_ok.mp h
  cases h
  exact ⟨numeric_ok htvl, numeric_ok hfee⟩

theorem Registry.refreshPool_ok {t t' : Registry} {poolId : Uuid} {metrics : PoolMetrics}
    (h : t.refreshPool poolId metrics = .ok t') :
    ∃ pool ∈ t.pools, ∃ m, pool.id = poolId ∧ metrics.columns = .ok m ∧
      t'.pools = upsert (·.id) (pool.refreshed m) t.pools := by
  unfold Registry.refreshPool at h
  split at h
  · cases h
  · rename_i pool hpool
    obtain ⟨hin, hid⟩ := Registry.findById_ok hpool
    cases hm : metrics.columns with
    | error e => rw [hm] at h; cases h
    | ok m =>
      rw [hm] at h
      cases h
      exact ⟨pool, hin, m, hid, rfl, rfl⟩

@[simp] theorem routed_registry (s : Aggregator) : s.routed.registry = s.registry := by
  unfold Aggregator.routed
  split <;> rfl

@[simp] theorem routed_routeCache (s : Aggregator) : s.routed.routeCache = s.routeCache := by
  unfold Aggregator.routed
  split <;> rfl

theorem cacheRoute_ok {now : Time} {q : RouteQuery} {r : RouteResult} {row : RouteCache}
    (h : cacheRoute now q r = .ok row) :
    row.poolPath = r.poolPath ∧ row.amountIn = q.amountIn ∧
      row.expectedOutput = roundTo 7 r.estimatedOutput := by
  obtain ⟨expectedOutput, hout, h⟩ := bind_eq_ok.mp h
  obtain ⟨priceImpact, -, h⟩ := bind_eq_ok.mp h
  obtain ⟨estimatedGas, -, h⟩ := bind_eq_ok.mp h
  obtain ⟨confidence, -, h⟩ := bind_eq_ok.mp h
  cases h
  exact ⟨rfl, rfl, numeric_ok hout⟩

/-- The state behind a search: the graph is there, and at most one row is new. -/
theorem findOptimalRoutes_state (s : Aggregator) (now : Time) (q : RouteQuery) :
    (findOptimalRoutes s now q).2 = s.routed ∨
    ∃ best ∈ searchRoutes s.routed.graph q, ∃ row, cacheRoute now q best = .ok row ∧
      (findOptimalRoutes s now q).2 = { s.routed with routeCache := s.routeCache ++ [row] } := by
  simp only [findOptimalRoutes]
  split
  · exact .inl rfl
  · split
    · exact .inl rfl
    · rename_i best rest hsearch
      split
      · exact .inl rfl
      · rename_i row hrow
        refine .inr ⟨best, ?_, row, hrow, by rw [routed_routeCache]⟩
        rw [hsearch]
        exact List.mem_cons_self

theorem findOptimalRoutes_answer {s : Aggregator} {now : Time} {q : RouteQuery}
    {routes : List RouteResult} (h : (findOptimalRoutes s now q).1 = .ok routes) :
    (∃ row, s.served now q = some row ∧ routes = [row.result q.tokenIn q.tokenOut]) ∨
      routes = searchRoutes s.routed.graph q := by
  have hserved : s.routed.served now q = s.served now q := by
    simp only [Aggregator.served, routed_routeCache]
  simp only [findOptimalRoutes, hserved] at h
  split at h
  · rename_i row hrow
    cases h
    exact .inl ⟨row, hrow, rfl⟩
  · split at h
    · rename_i hsearch
      cases h
      exact .inr hsearch.symm
    · rename_i best rest hsearch
      split at h
      · cases h
      · cases h
        exact .inr hsearch.symm

theorem served_mem {s : Aggregator} {now : Time} {q : RouteQuery} {row : RouteCache}
    (h : s.served now q = some row) : row ∈ s.routeCache := by
  unfold Aggregator.served at h
  split at h
  · have hlast := (Option.filter_eq_some_iff.mp h).1
    exact List.mem_of_mem_filter (List.mem_of_getLast? hlast)
  · cases h

/-! ## The copies and the registry -/

/-- The row of `p` is active and has the TVL and the fee of `p`. -/
def Registry.Offers (t : Registry) (p : LiquidityPool) : Prop :=
  ∃ row ∈ t.pools, row.id = p.id ∧ row.status = .active ∧ row.tvl = p.tvl ∧ row.feeRate = p.feeRate

/-- A route over active rows of the registry, whose output is what they give for the amount, or
that value as a cached row keeps it. -/
def CurrentRoute (t : Registry) (amountIn : ℚ) (r : RouteResult) : Prop :=
  ∃ rows : List LiquidityPool,
    (∀ row ∈ rows, row ∈ t.pools ∧ row.status = .active) ∧
    r.poolPath = rows.map (·.id) ∧
    (r.estimatedOutput = swapAlong rows amountIn ∨
      r.estimatedOutput = roundTo 7 (swapAlong rows amountIn))

/-- Every route of the answer is current. -/
def AnswersCurrent (s : Aggregator) : Request → Prop
  | .findOptimalRoutes now q =>
    ∀ routes, (findOptimalRoutes s now q).1 = .ok routes →
      ∀ r ∈ routes, CurrentRoute s.registry q.amountIn r
  | _ => True

/-- The registry leaves the pools that the graph has copied, and a row of the cache answers a call
with the amount it was computed for. -/
def Untouched (s : Aggregator) : Request → Prop
  | .register _ => True
  | .deactivate id => ∀ p ∈ s.graph.poolMap, p.id ≠ id
  | .refreshPool poolId metrics =>
    ∀ p ∈ s.graph.poolMap, p.id = poolId →
      roundTo 7 metrics.tvl = p.tvl ∧ roundTo 8 metrics.feeRate = p.feeRate
  | .findOptimalRoutes now q => ∀ row ∈ (s.served now q).toList, row.amountIn = q.amountIn

instance (s : Aggregator) : ∀ r : Request, Decidable (Untouched s r)
  | .register _ => inferInstanceAs (Decidable True)
  | .deactivate id => inferInstanceAs (Decidable (∀ p ∈ s.graph.poolMap, p.id ≠ id))
  | .refreshPool poolId metrics =>
    inferInstanceAs (Decidable (∀ p ∈ s.graph.poolMap, p.id = poolId →
      roundTo 7 metrics.tvl = p.tvl ∧ roundTo 8 metrics.feeRate = p.feeRate))
  | .findOptimalRoutes now q =>
    inferInstanceAs (Decidable (∀ row ∈ (s.served now q).toList, row.amountIn = q.amountIn))

theorem rows_of_copies {t : Registry} {ps : List LiquidityPool} (h : ∀ p ∈ ps, t.Offers p) :
    ∃ rows : List LiquidityPool, (∀ row ∈ rows, row ∈ t.pools ∧ row.status = .active) ∧
      rows.map (·.id) = ps.map (·.id) ∧
      ∀ amount, swapAlong rows amount = swapAlong ps amount := by
  induction ps with
  | nil => exact ⟨[], by simp, rfl, fun _ => rfl⟩
  | cons p ps ih =>
    obtain ⟨row, hrow, hid, hactive, htvl, hfee⟩ := h p List.mem_cons_self
    obtain ⟨rows, hin, hids, hout⟩ := ih fun q hq => h q (List.mem_cons_of_mem p hq)
    refine ⟨row :: rows, ?_, ?_, ?_⟩
    · intro x hx
      rcases List.mem_cons.mp hx with rfl | hx
      · exact ⟨hrow, hactive⟩
      · exact hin x hx
    · rw [List.map_cons, List.map_cons, hid, hids]
    · intro amount
      rw [swapAlong, swapAlong, hout,
        simulateSwap_congr htvl hfee p.assetCodeA p.assetCodeB row.assetCodeA row.assetCodeB]

/-- The invariant: the edges carry pools of `poolMap`, a cached row was computed over some of them,
and the registry offers every one. -/
structure Fresh (s : Aggregator) : Prop where
  copies : ∀ p ∈ s.graph.poolMap, s.registry.Offers p
  edges : ∀ asset, ∀ e ∈ edgesFrom s.graph.nodes asset,
    e.pool ∈ s.graph.poolMap ∧ e.poolId = e.pool.id
  built : s.graph.nodes = [] → s.graph.poolMap = []
  rows : ∀ row ∈ s.routeCache, ∃ ps : List LiquidityPool,
    (∀ p ∈ ps, p ∈ s.graph.poolMap) ∧ row.poolPath = ps.map (·.id) ∧
    row.expectedOutput = roundTo 7 (swapAlong ps row.amountIn)

theorem fresh_start (registry : Registry) : Fresh (.start registry) where
  copies := by intro p hp; cases hp
  edges := by intro asset e he; cases he
  built := fun _ => rfl
  rows := by intro row hrow; cases hrow

theorem nodup_active (t : Registry) : (t.active.map (·.id)).Nodup :=
  t.distinct.sublist (List.filter_sublist.map _)

theorem fresh_routed {s : Aggregator} (h : Fresh s) : Fresh s.routed := by
  unfold Aggregator.routed
  split
  · rename_i hnodes
    have hmap := poolMap_buildGraph (nodup_active s.registry)
    refine ⟨?_, ?_, ?_, ?_⟩
    · intro p hp
      rw [hmap] at hp
      obtain ⟨hin, hactive⟩ := List.mem_filter.mp hp
      exact ⟨p, hin, rfl, by simpa using hactive, rfl, rfl⟩
    · intro asset e he
      rw [hmap]
      exact mem_edgesFrom_buildGraph he
    · intro hempty
      exact hmap.trans (nodes_buildGraph hempty)
    · intro row hrow
      obtain ⟨ps, hps, hpath, hout⟩ := h.rows row hrow
      refine ⟨ps, fun p hp => ?_, hpath, hout⟩
      have hnone := hps p hp
      rw [h.built hnodes] at hnone
      cases hnone
  · exact h

/-- What the search finds runs over the copies of the graph. -/
theorem search_over_copies {s : Aggregator} (h : Fresh s) {q : RouteQuery} {r : RouteResult}
    (hr : r ∈ searchRoutes s.graph q) : ∃ ps : List LiquidityPool,
      (∀ p ∈ ps, p ∈ s.graph.poolMap ∧ 0 < p.tvl) ∧ r.poolPath = ps.map (·.id) ∧
      r.estimatedOutput = swapAlong ps q.amountIn := by
  obtain ⟨edges, hin, hpools, -, hout⟩ := mem_searchRoutes hr
  have hcopy : ∀ e ∈ edges, e.pool ∈ s.graph.poolMap ∧ e.poolId = e.pool.id := by
    intro e he
    obtain ⟨⟨asset, hasset⟩, -⟩ := hin e he
    exact h.edges asset e hasset
  refine ⟨edges.map (·.pool), ?_, ?_, hout⟩
  · intro p hp
    obtain ⟨e, he, rfl⟩ := List.mem_map.mp hp
    exact ⟨(hcopy e he).1, (hin e he).2⟩
  · rw [hpools, List.map_map]
    exact List.map_congr_left fun e he => (hcopy e he).2

theorem fresh_find {s : Aggregator} (h : Fresh s) (now : Time) (q : RouteQuery) :
    Fresh (findOptimalRoutes s now q).2 := by
  have hrouted := fresh_routed h
  rcases findOptimalRoutes_state s now q with hstate | ⟨best, hbest, row, hrow, hstate⟩
  · rw [hstate]
    exact hrouted
  · rw [hstate]
    refine ⟨hrouted.copies, hrouted.edges, hrouted.built, ?_⟩
    intro x hx
    rcases List.mem_append.mp hx with hx | hx
    · exact hrouted.rows x (by rwa [routed_routeCache])
    · rw [List.mem_singleton.mp hx]
      obtain ⟨hpath, hamount, hout⟩ := cacheRoute_ok hrow
      obtain ⟨ps, hps, hids, hswap⟩ := search_over_copies hrouted hbest
      exact ⟨ps, fun p hp => (hps p hp).1, hpath.trans hids, by rw [hout, hswap, hamount]⟩

/-- A write to the registry keeps the invariant when it goes on offering the copies. -/
theorem fresh_write {s : Aggregator} (h : Fresh s) {result : Except HttpError Registry}
    (hw : ∀ t', result = .ok t' → ∀ p ∈ s.graph.poolMap, t'.Offers p) : Fresh (s.write result) := by
  cases result with
  | error e => exact h
  | ok t' => exact ⟨hw t' rfl, h.edges, h.built, h.rows⟩

theorem offers_upsert_of_ne {t t' : Registry} {pool p : LiquidityPool}
    (ht : t'.pools = upsert (·.id) pool t.pools) (hne : p.id ≠ pool.id) (h : t.Offers p) :
    t'.Offers p := by
  obtain ⟨row, hrow, hid, hrest⟩ := h
  refine ⟨row, ?_, hid, hrest⟩
  rw [ht]
  exact mem_upsert_of_ne hrow (by rw [hid]; exact hne)

theorem fresh_step {s : Aggregator} {r : Request} (h : Fresh s) (hr : Untouched s r) :
    Fresh (step s r) := by
  cases r with
  | register dto =>
    refine fresh_write h fun t' ht p hp => ?_
    obtain ⟨pool, hpools⟩ := Registry.register_ok ht
    obtain ⟨row, hrow, hrest⟩ := h.copies p hp
    exact ⟨row, by rw [hpools]; exact List.mem_append_left _ hrow, hrest⟩
  | deactivate id =>
    refine fresh_write h fun t' ht p hp => ?_
    obtain ⟨pool, hid, hpools⟩ := Registry.deactivate_ok ht
    exact offers_upsert_of_ne hpools (by rw [hid]; exact hr p hp) (h.copies p hp)
  | refreshPool poolId metrics =>
    refine fresh_write h fun t' ht p hp => ?_
    obtain ⟨pool, hin, m, hid, hm, hpools⟩ := Registry.refreshPool_ok ht
    by_cases hp' : p.id = poolId
    · -- the row of the copy is replaced: by the values the copy has
      obtain ⟨htvl, hfee⟩ := hr p hp hp'
      obtain ⟨hmtvl, hmfee⟩ := columns_ok hm
      obtain ⟨row, hrow, hrowid, hactive, -, -⟩ := h.copies p hp
      have hsame : row = pool := s.registry.eq_of_id hrow hin (hrowid.trans (hp'.trans hid.symm))
      subst hsame
      refine ⟨row.refreshed m, ?_, hrowid, hactive, hmtvl.trans htvl, hmfee.trans hfee⟩
      rw [hpools]
      exact mem_upsert_self _ _
    · exact offers_upsert_of_ne hpools (fun e => hp' (e.trans hid)) (h.copies p hp)
  | findOptimalRoutes now q => exact fresh_find h now q

theorem answers_current {s : Aggregator} {r : Request} (h : Fresh s) (hr : Untouched s r) :
    AnswersCurrent s r := by
  cases r with
  | findOptimalRoutes now q =>
    intro routes hok r hmem
    rcases findOptimalRoutes_answer hok with ⟨row, hrow, rfl⟩ | rfl
    · rw [List.mem_singleton.mp hmem]
      obtain ⟨ps, hps, hpath, hout⟩ := h.rows row (served_mem hrow)
      obtain ⟨rows, hin, hids, hswap⟩ := rows_of_copies fun p hp => h.copies p (hps p hp)
      refine ⟨rows, hin, hpath.trans hids.symm, .inr ?_⟩
      have hamount : row.amountIn = q.amountIn := hr row (by simp [hrow])
      rw [hswap, ← hamount]
      exact hout
    · have hrouted := fresh_routed h
      obtain ⟨ps, hps, hpath, hout⟩ := search_over_copies hrouted hmem
      obtain ⟨rows, hin, hids, hswap⟩ := rows_of_copies fun p hp => hrouted.copies p (hps p hp).1
      rw [routed_registry] at hin
      exact ⟨rows, hin, hpath.trans hids.symm, .inl (by rw [hout, hswap])⟩
  | register _ => trivial
  | deactivate _ => trivial
  | refreshPool _ _ => trivial

/-- In every run that leaves the copied pools alone, every route returned runs over active pools
with their reserves and fees. -/
theorem routes_current (registry : Registry) (rs : List Request)
    (h : Along step Untouched (.start registry) rs) :
    Along step AnswersCurrent (.start registry) rs :=
  along_of_inv (fun _ _ => answers_current) (fun _ _ => fresh_step) (fresh_start registry) h

def emptyRegistry : Registry := ⟨[], 0, List.nodup_nil, by simp⟩

def xlmUsdc : RegisterPoolDto := ⟨"XLM/USDC", .amm, "XLM", none, "USDC", none, some (3 / 1000)⟩

def yxlmUsdc : RegisterPoolDto := ⟨"yXLM/USDC", .amm, "yXLM", none, "USDC", none, none⟩

def xlmToUsdc (amountIn : ℚ) : RouteQuery := ⟨"XLM", "USDC", amountIn, 4, 1⟩

/-- A pool is added and filled after the graph is built: the route found before and the cached
answer still use the pool they did. -/
theorem later_pool_leaves_routes_current :
    Along step AnswersCurrent (.start emptyRegistry)
      [.register xlmUsdc, .refreshPool 0 ⟨1000, 50, 1, 3 / 1000⟩,
        .findOptimalRoutes 0 (xlmToUsdc 100), .register yxlmUsdc,
        .refreshPool 1 ⟨2000, 0, 0, 0⟩, .findOptimalRoutes 1 (xlmToUsdc 100)] :=
  routes_current emptyRegistry _ (by decide +kernel)

/-- The pool is deactivated after a search; the next search comes when the cached row has expired. -/
def deactivatedRun : List Request :=
  [.register xlmUsdc, .refreshPool 0 ⟨1000, 50, 1, 3 / 1000⟩, .findOptimalRoutes 0 (xlmToUsdc 100),
    .deactivate 0, .findOptimalRoutes 60000 (xlmToUsdc 100)]

/-- The last search returns a route over the pool, which is inactive. -/
theorem inactive_pool_routed : ¬ Along step AnswersCurrent (.start emptyRegistry) deactivatedRun := by
  intro h
  obtain ⟨-, -, -, -, hlast, -⟩ := h
  have hroute : ((findOptimalRoutes (run step (.start emptyRegistry) (deactivatedRun.take 4)) 60000
      (xlmToUsdc 100)).1.toOption.map fun routes => routes.map (·.poolPath)) = some [[0]] := by
    decide +kernel
  have hinactive : ∀ p ∈ (run step (.start emptyRegistry) (deactivatedRun.take 4)).registry.pools,
      p.status ≠ .active := by decide +kernel
  cases hfind : (findOptimalRoutes (run step (.start emptyRegistry) (deactivatedRun.take 4)) 60000
      (xlmToUsdc 100)).1 with
  | error e => rw [hfind] at hroute; cases hroute
  | ok routes =>
    rw [hfind] at hroute
    have hpaths : routes.map (·.poolPath) = [[0]] := Option.some.inj hroute
    obtain ⟨r, hr, hpath⟩ := List.mem_map.mp (by rw [hpaths]; exact List.mem_singleton_self [0])
    obtain ⟨rows, hin, hids, -⟩ := hlast routes hfind r hr
    cases rows with
    | nil => rw [hpath] at hids; cases hids
    | cons row rows =>
      obtain ⟨hrow, hactive⟩ := hin row List.mem_cons_self
      exact hinactive row hrow hactive

/-! ## Answers from the cache -/

/-- What a caller reads of a route. -/
def RouteResult.answer (r : RouteResult) : List Uuid × List String × ℚ :=
  (r.poolPath, r.assetPath, r.estimatedOutput)

/-- A call that a cached row answers gets what the search over the graph returns. -/
def CacheAgrees (s : Aggregator) : Request → Prop
  | .findOptimalRoutes now q =>
    ∀ row, s.served now q = some row →
      [(row.result q.tokenIn q.tokenOut).answer] =
        (searchRoutes s.routed.graph q).map RouteResult.answer
  | _ => True

/-- No row answers the call. -/
def AnsweredBySearch (s : Aggregator) : Request → Prop
  | .findOptimalRoutes now q => s.served now q = none
  | _ => True

theorem length_result_assetPath (row : RouteCache) (tokenIn tokenOut : String) :
    (row.result tokenIn tokenOut).assetPath.length =
      (row.result tokenIn tokenOut).poolPath.length + 2 := by
  simp [RouteCache.result]

theorem length_search_assetPath {g : RouteGraph} {q : RouteQuery} {r : RouteResult}
    (h : r ∈ searchRoutes g q) : r.assetPath.length = r.poolPath.length + 1 := by
  obtain ⟨edges, -, hpools, hassets, -⟩ := mem_searchRoutes h
  rw [hassets, hpools, List.length_map]

theorem result_ne_search {g : RouteGraph} {q : RouteQuery} (row : RouteCache) :
    [(row.result q.tokenIn q.tokenOut).answer] ≠ (searchRoutes g q).map RouteResult.answer := by
  intro h
  obtain ⟨r, hr, hanswer⟩ := List.mem_map.mp (by rw [← h]; exact List.mem_singleton_self _)
  have hpools : r.poolPath = (row.result q.tokenIn q.tokenOut).poolPath := congrArg (·.1) hanswer
  have hassets : r.assetPath = (row.result q.tokenIn q.tokenOut).assetPath :=
    congrArg (·.2.1) hanswer
  have hlong := length_result_assetPath row q.tokenIn q.tokenOut
  have hshort := length_search_assetPath hr
  rw [hpools, hassets] at hshort
  omega

theorem cacheAgrees_iff_searched (s : Aggregator) (r : Request) :
    CacheAgrees s r ↔ AnsweredBySearch s r := by
  cases r with
  | findOptimalRoutes now q =>
    constructor
    · intro h
      cases hrow : s.served now q with
      | none => exact hrow
      | some row => exact absurd (h row hrow) (result_ne_search row)
    · intro h row hrow
      rw [show s.served now q = none from h] at hrow
      cases hrow
  | register _ => exact Iff.rfl
  | deactivate _ => exact Iff.rfl
  | refreshPool _ _ => exact Iff.rfl

/-- The answers from the cache are those of the search exactly in the runs in which the cache
answers nothing. -/
theorem cache_agrees_iff (registry : Registry) (rs : List Request) :
    Along step CacheAgrees (.start registry) rs ↔
      Along step AnsweredBySearch (.start registry) rs :=
  ⟨Along.mono fun s r => (cacheAgrees_iff_searched s r).mp,
    Along.mono fun s r => (cacheAgrees_iff_searched s r).mpr⟩

/-- The state after a search for 100 XLM. -/
def searchedOnce : Aggregator :=
  run step (.start emptyRegistry)
    [.register xlmUsdc, .refreshPool 0 ⟨1000, 50, 1, 0⟩, .findOptimalRoutes 0 (xlmToUsdc 100)]

/-- For 500 XLM the cache then answers with the output for 100, and with three assets for one hop. -/
theorem cached_answer_differs :
    ((findOptimalRoutes searchedOnce 1 (xlmToUsdc 500)).1.toOption.map
      (·.map RouteResult.answer)) = some [([0], ["XLM", "", "USDC"], 833333333 / 10000000)] ∧
    (searchRoutes searchedOnce.routed.graph (xlmToUsdc 500)).map RouteResult.answer =
      [([0], ["XLM", "USDC"], 250)] ∧
    ¬ Along step CacheAgrees (.start emptyRegistry)
      [.register xlmUsdc, .refreshPool 0 ⟨1000, 50, 1, 0⟩, .findOptimalRoutes 0 (xlmToUsdc 100),
        .findOptimalRoutes 1 (xlmToUsdc 500)] := by
  refine ⟨by decide +kernel, by decide +kernel, ?_⟩
  intro h
  obtain ⟨-, -, -, hlast, -⟩ := h
  have hserved : (searchedOnce.served 1 (xlmToUsdc 500)).isSome = true := by decide +kernel
  obtain ⟨row, hrow⟩ := Option.isSome_iff_exists.mp hserved
  exact result_ne_search row (hlast row hrow)

end Liquidity
end TradeCore
