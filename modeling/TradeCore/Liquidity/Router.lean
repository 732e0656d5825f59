import Mathlib.Algebra.Order.Field.Rat
import Mathlib.Data.Rat.Floor
import Mathlib.Data.List.Induction
import Mathlib.Data.List.Sort
import TradeCore.Common
import TradeCore.Lib.Rounding
import TradeCore.Lib.Run
import TradeCore.Lib.Table

/-!
# TradeCore.Liquidity.Router

The liquidity aggregator: the registry of pools (`PoolRegistryService`) and the search for routes
(`RouteGraphService`). The registry is a table; the router keeps a graph with its own copies of the
pools, built once from the active rows, and a table of cached routes. A run is a list of requests.

Amounts, rates and weights are exact. A search that returns a route has followed edges of the
graph: `mem_dfs` says through which pools, and what comes out at the end.
-/

namespace TradeCore
namespace Liquidity

open Lib

/-! ## Pools -/

inductive PoolType where
  | amm
  | orderBook
  | stellarDex
  deriving DecidableEq, Repr

inductive PoolStatus where
  | active
  | inactive
  | deprecated
  deriving DecidableEq, Repr

structure LiquidityPool where
  id : Uuid
  name : String
  type : PoolType
  status : PoolStatus
  assetCodeA : String
  assetIssuerA : Option String
  assetCodeB : String
  assetIssuerB : Option String
  tvl : ℚ
  feeRate : ℚ
  volume24h : ℚ
  feeRevenue24h : ℚ
  deriving DecidableEq, Repr

/-- A column `numeric(precision, scale)`: a value with too many digits fails the statement. -/
def numeric (precision scale : ℕ) (x : ℚ) : Except HttpError ℚ :=
  if |roundTo scale x| < 10 ^ (precision - scale) then .ok (roundTo scale x) else .error databaseError

theorem numeric_ok {precision scale : ℕ} {x y : ℚ} (h : numeric precision scale x = .ok y) :
    y = roundTo scale x := by
  unfold numeric at h
  split at h
  · cases h
    rfl
  · cases h

/-- The table `liquidity_pools`. -/
structure Registry where
  pools : List LiquidityPool
  nextId : Uuid
  distinct : (pools.map (·.id)).Nodup
  fresh : ∀ p ∈ pools, p.id < nextId

theorem Registry.eq_of_id (t : Registry) {p q : LiquidityPool} (hp : p ∈ t.pools) (hq : q ∈ t.pools)
    (h : p.id = q.id) : p = q :=
  List.inj_on_of_nodup_map t.distinct hp hq h

/-- `poolRepository.find({ where: { status: ACTIVE } })`. -/
def Registry.active (t : Registry) : List LiquidityPool := t.pools.filter fun p => p.status = .active

def Registry.findById (t : Registry) (id : Uuid) : Except HttpError LiquidityPool :=
  match lookup (·.id) id t.pools with
  | some pool => .ok pool
  | none => .error (.notFound s!"Pool {id} not found")

theorem Registry.findById_ok {t : Registry} {id : Uuid} {pool : LiquidityPool}
    (h : t.findById id = .ok pool) : pool ∈ t.pools ∧ pool.id = id := by
  unfold Registry.findById at h
  split at h
  · rename_i p hp
    cases h
    exact ⟨mem_of_lookup hp, lookup_key hp⟩
  · cases h

/-- Saves a pool under the id of a row that is there. -/
def Registry.save (t : Registry) (pool : LiquidityPool) (h : ∃ p ∈ t.pools, p.id = pool.id) :
    Registry where
  pools := upsert (·.id) pool t.pools
  nextId := t.nextId
  distinct := nodup_upsert t.distinct
  fresh := by
    intro p hp
    rcases mem_upsert hp with rfl | hp
    · obtain ⟨q, hq, hid⟩ := h
      rw [← hid]
      exact t.fresh q hq
    · exact t.fresh p hp

structure RegisterPoolDto where
  name : String
  type : PoolType
  assetCodeA : String
  assetIssuerA : Option String
  assetCodeB : String
  assetIssuerB : Option String
  feeRate : Option ℚ
  deriving DecidableEq, Repr

/-- `undefined` in a `where` is no condition. -/
def issuerMatches (given issuer : Option String) : Bool := given.isNone || issuer == given

def Registry.existing (t : Registry) (dto : RegisterPoolDto) : Option LiquidityPool :=
  t.pools.find? fun p =>
    p.assetCodeA == dto.assetCodeA && issuerMatches dto.assetIssuerA p.assetIssuerA &&
      p.assetCodeB == dto.assetCodeB && issuerMatches dto.assetIssuerB p.assetIssuerB &&
      p.type == dto.type

/-- Inserts a row under the next id. -/
def Registry.insert (t : Registry) (pool : LiquidityPool) : Registry where
  pools := t.pools ++ [{ pool with id := t.nextId }]
  nextId := t.nextId + 1
  distinct := by
    rw [List.map_append, List.nodup_append]
    refine ⟨t.distinct, by simp, ?_⟩
    intro a ha b hb
    obtain ⟨p, hp, rfl⟩ := List.mem_map.mp ha
    simp only [List.map_cons, List.map_nil, List.mem_singleton] at hb
    rw [hb]
    exact Nat.ne_of_lt (t.fresh p hp)
  fresh := by
    intro p hp
    rcases List.mem_append.mp hp with hp | hp
    · exact Nat.lt_succ_of_lt (t.fresh p hp)
    · rw [List.mem_singleton.mp hp]
      exact Nat.lt_succ_self _

def Registry.register (t : Registry) (dto : RegisterPoolDto) : Except HttpError Registry :=
  match t.existing dto with
  | some _ => .error (.badRequest "A pool for this asset pair and type already exists")
  | none => do
    let feeRate ← numeric 10 8 (dto.feeRate.getD 0)
    return t.insert
      { id := t.nextId
        name := dto.name
        type := dto.type
        status := .active
        assetCodeA := dto.assetCodeA
        assetIssuerA := dto.assetIssuerA
        assetCodeB := dto.assetCodeB
        assetIssuerB := dto.assetIssuerB
        tvl := 0
        feeRate := feeRate
        volume24h := 0
        feeRevenue24h := 0 }

def Registry.deactivate (t : Registry) (id : Uuid) : Except HttpError Registry :=
  match h : t.findById id with
  | .error e => .error e
  | .ok pool => .ok (t.save { pool with status := .inactive } ⟨pool, (Registry.findById_ok h).1, rfl⟩)

/-- What a refresh writes to the row of the pool. -/
structure PoolMetrics where
  tvl : ℚ
  volume24h : ℚ
  feeRevenue24h : ℚ
  feeRate : ℚ
  deriving DecidableEq, Repr

/-- The columns of a refreshed row. -/
def PoolMetrics.columns (m : PoolMetrics) : Except HttpError PoolMetrics := do
  let tvl ← numeric 30 7 m.tvl
  let volume24h ← numeric 30 7 m.volume24h
  let feeRevenue24h ← numeric 30 7 m.feeRevenue24h
  let feeRate ← numeric 10 8 m.feeRate
  return ⟨tvl, volume24h, feeRevenue24h, feeRate⟩

def LiquidityPool.refreshed (pool : LiquidityPool) (m : PoolMetrics) : LiquidityPool :=
  { pool with
    tvl := m.tvl
    volume24h := m.volume24h
    feeRevenue24h := m.feeRevenue24h
    feeRate := m.feeRate }

def Registry.refreshPool (t : Registry) (poolId : Uuid) (metrics : PoolMetrics) :
    Except HttpError Registry :=
  match h : t.findById poolId with
  | .error e => .error e
  | .ok pool =>
    metrics.columns.map fun m => t.save (pool.refreshed m) ⟨pool, (Registry.findById_ok h).1, rfl⟩

/-! ## The graph -/

structure GraphEdge where
  targetAsset : String
  poolId : Uuid
  pool : LiquidityPool
  weight : ℚ
  capacity : ℚ
  deriving DecidableEq, Repr

structure GraphNode where
  assetCode : String
  edges : List GraphEdge
  deriving DecidableEq, Repr

structure RouteGraph where
  nodes : List GraphNode
  poolMap : List LiquidityPool
  deriving DecidableEq, Repr

def RouteGraph.empty : RouteGraph := ⟨[], []⟩

def edgeOf (pool : LiquidityPool) (target : String) : GraphEdge :=
  let slippageEstimate := if 0 < pool.tvl then min (1 / 20) (1000 / pool.tvl) else 1 / 20
  { targetAsset := target
    poolId := pool.id
    pool := pool
    weight := pool.feeRate + slippageEstimate
    capacity := pool.tvl }

def edgesFrom (nodes : List GraphNode) (asset : String) : List GraphEdge :=
  match lookup (·.assetCode) asset nodes with
  | some node => node.edges
  | none => []

def addEdge (nodes : List GraphNode) (pool : LiquidityPool) (source target : String) :
    List GraphNode :=
  upsert (·.assetCode) ⟨source, edgesFrom nodes source ++ [edgeOf pool target]⟩ nodes

/-- Both directions of one pool. -/
def RouteGraph.addPool (g : RouteGraph) (pool : LiquidityPool) : RouteGraph where
  nodes := addEdge (addEdge g.nodes pool pool.assetCodeA pool.assetCodeB) pool pool.assetCodeB
    pool.assetCodeA
  poolMap := upsert (·.id) pool g.poolMap

def buildGraph (pools : List LiquidityPool) : RouteGraph := pools.foldl RouteGraph.addPool .empty

/-! ## Swaps -/

/-- The tokens of the swap are not looked at: both reserves are half the TVL. -/
def simulateSwap (pool : LiquidityPool) (_tokenIn _tokenOut : String) (amountIn : ℚ) : ℚ :=
  if pool.tvl ≤ 0 then 0
  else
    let halfTvl := pool.tvl / 2
    let amountInWithFee := amountIn * (1 - pool.feeRate)
    let denominator := halfTvl + amountInWithFee
    if 0 < denominator then amountInWithFee * halfTvl / denominator else 0

/-- The amount and the impact after the pools of a route. -/
def impactStep (poolMap : List LiquidityPool) (acc : ℚ × ℚ) (poolId : Uuid) : ℚ × ℚ :=
  match lookup (·.id) poolId poolMap with
  | none => acc
  | some pool =>
    if pool.tvl ≤ 0 then acc
    else
      let impact := min (acc.1 / (pool.tvl / 2)) 1
      (acc.1 * (1 - impact), acc.2 + impact * (1 - acc.2))

def estimateRoutePriceImpact (poolMap : List LiquidityPool) (poolPath : List Uuid) (amountIn : ℚ) : ℚ :=
  (poolPath.foldl (impactStep poolMap) (amountIn, 0)).2

/-! ## The search -/

structure RouteResult where
  poolPath : List Uuid
  assetPath : List String
  totalWeight : ℚ
  estimatedOutput : ℚ
  priceImpact : ℚ
  estimatedGas : ℚ
  deriving DecidableEq, Repr

structure RouteQuery where
  tokenIn : String
  tokenOut : String
  amountIn : ℚ
  maxHops : ℕ
  topN : ℕ
  deriving DecidableEq, Repr

/-- `hops` is `maxHops - poolPath.length`; `visited` is restored when a call returns. -/
def dfs (g : RouteGraph) (target : String) (hops : ℕ) (current : String) (currentAmount : ℚ)
    (poolPath : List Uuid) (assetPath : List String) (visited : List String) (totalWeight : ℚ) :
    List RouteResult :=
  if current = target ∧ poolPath ≠ [] then
    [{ poolPath := poolPath
       assetPath := assetPath ++ [current]
       totalWeight := totalWeight
       estimatedOutput := currentAmount
       priceImpact := estimateRoutePriceImpact g.poolMap poolPath currentAmount
       estimatedGas := poolPath.length * 100000 }]
  else
    match hops with
    | 0 => []
    | hops + 1 =>
      (edgesFrom g.nodes current).flatMap fun edge =>
        if edge.targetAsset ∈ current :: visited then []
        else
          let outputAmount := simulateSwap edge.pool current edge.targetAsset currentAmount
          if outputAmount ≤ 0 then []
          else
            dfs g target hops edge.targetAsset outputAmount (poolPath ++ [edge.poolId])
              (assetPath ++ [current]) (current :: visited) (totalWeight + edge.weight)

/-- The search of `findOptimalRoutes`, without the cache. -/
def searchRoutes (g : RouteGraph) (q : RouteQuery) : List RouteResult :=
  let candidates := dfs g q.tokenOut q.maxHops q.tokenIn q.amountIn [] [] [] 0
  (candidates.insertionSort fun a b => b.estimatedOutput ≤ a.estimatedOutput).take q.topN

/-! ## The route cache -/

/-- A row of `route_cache`. `amountIn` is no column: it is the amount the row was computed for. -/
structure RouteCache where
  tokenIn : String
  tokenOut : String
  poolPath : List Uuid
  expectedOutput : ℚ
  priceImpact : ℚ
  estimatedGas : ℚ
  confidence : ℚ
  expiresAt : Time
  amountIn : ℚ
  deriving DecidableEq, Repr

/-- The latest row of the pair, unless it has expired. -/
def liveRow (cache : List RouteCache) (tokenIn tokenOut : String) (now : Time) : Option RouteCache :=
  ((cache.filter fun row => row.tokenIn = tokenIn ∧ row.tokenOut = tokenOut).getLast?).filter
    fun row => ¬ row.expiresAt < now

def RouteCache.result (row : RouteCache) (tokenIn tokenOut : String) : RouteResult where
  poolPath := row.poolPath
  assetPath := [tokenIn] ++ row.poolPath.map (fun _ => "") ++ [tokenOut]
  totalWeight := 0
  estimatedOutput := row.expectedOutput
  priceImpact := row.priceImpact
  estimatedGas := row.estimatedGas

def ttlMs : Time := 30000

def cacheRoute (now : Time) (q : RouteQuery) (result : RouteResult) : Except HttpError RouteCache := do
  let expectedOutput ← numeric 30 7 result.estimatedOutput
  let priceImpact ← numeric 10 8 result.priceImpact
  let estimatedGas ← numeric 20 0 result.estimatedGas
  let confidence ← numeric 5 4 (max 0 (1 - result.priceImpact))
  return { tokenIn := q.tokenIn
           tokenOut := q.tokenOut
           poolPath := result.poolPath
           expectedOutput := expectedOutput
           priceImpact := priceImpact
           estimatedGas := estimatedGas
           confidence := confidence
           expiresAt := now + ttlMs
           amountIn := q.amountIn }

/-! ## Requests -/

structure Aggregator where
  registry : Registry
  graph : RouteGraph
  routeCache : List RouteCache

/-- A new process over the rows of the registry. -/
def Aggregator.start (registry : Registry) : Aggregator := ⟨registry, .empty, []⟩

/-- `if (this.graph.size === 0) await this.buildGraph()`. -/
def Aggregator.routed (s : Aggregator) : Aggregator :=
  if s.graph.nodes = [] then { s with graph := buildGraph s.registry.active } else s

/-- The row that answers a call instead of a search. -/
def Aggregator.served (s : Aggregator) (now : Time) (q : RouteQuery) : Option RouteCache :=
  if q.topN = 1 then liveRow s.routeCache q.tokenIn q.tokenOut now else none

/-- The answer and the state behind it; the graph stays built when the row cannot be saved. -/
def findOptimalRoutes (s : Aggregator) (now : Time) (q : RouteQuery) :
    Except HttpError (List RouteResult) × Aggregator :=
  let s := s.routed
  match s.served now q with
  | some row => (.ok [row.result q.tokenIn q.tokenOut], s)
  | none =>
    match searchRoutes s.graph q with
    | [] => (.ok [], s)
    | best :: rest =>
      match cacheRoute now q best with
      | .error e => (.error e, s)
      | .ok row => (.ok (best :: rest), { s with routeCache := s.routeCache ++ [row] })

inductive Request where
  | register (dto : RegisterPoolDto)
  | deactivate (id : Uuid)
  | refreshPool (poolId : Uuid) (metrics : PoolMetrics)
  | findOptimalRoutes (now : Time) (q : RouteQuery)
  deriving DecidableEq, Repr

/-- A failed request leaves the registry. -/
def Aggregator.write (s : Aggregator) : Except HttpError Registry → Aggregator
  | .ok registry => { s with registry := registry }
  | .error _ => s

def step (s : Aggregator) : Request → Aggregator
  | .register dto => s.write (s.registry.register dto)
  | .deactivate id => s.write (s.registry.deactivate id)
  | .refreshPool poolId metrics => s.write (s.registry.refreshPool poolId metrics)
  | .findOptimalRoutes now q => (findOptimalRoutes s now q).2

/-! ## What a route is -/

/-- The composition of `simulateSwap` along the pools of a route. -/
def swapAlong : List LiquidityPool → ℚ → ℚ
  | [], amount => amount
  | pool :: pools, amount =>
    swapAlong pools (simulateSwap pool pool.assetCodeA pool.assetCodeB amount)

/-- A swap reads the TVL and the fee of the pool. -/
theorem simulateSwap_congr {p p' : LiquidityPool} (htvl : p'.tvl = p.tvl)
    (hfee : p'.feeRate = p.feeRate) (x y x' y' : String) (amount : ℚ) :
    simulateSwap p' x' y' amount = simulateSwap p x y amount := by
  simp only [simulateSwap, htvl, hfee]

theorem tvl_pos_of_swap {pool : LiquidityPool} {x y : String} {amount : ℚ}
    (h : 0 < simulateSwap pool x y amount) : 0 < pool.tvl := by
  by_contra hdry
  rw [simulateSwap, if_pos (not_lt.mp hdry)] at h
  exact lt_irrefl 0 h

/-- A route of the search follows edges of the graph over pools with liquidity: its pools are
theirs, its output is what the swaps leave, and its assets are one more than its hops. -/
theorem mem_dfs {g : RouteGraph} {target current : String} {hops : ℕ} {amount weight : ℚ}
    {poolPath : List Uuid} {assetPath visited : List String} {r : RouteResult}
    (h : r ∈ dfs g target hops current amount poolPath assetPath visited weight) :
    ∃ edges : List GraphEdge,
      (∀ e ∈ edges, (∃ asset, e ∈ edgesFrom g.nodes asset) ∧ 0 < e.pool.tvl) ∧
      r.poolPath = poolPath ++ edges.map (·.poolId) ∧
      r.assetPath.length = assetPath.length + edges.length + 1 ∧
      r.estimatedOutput = swapAlong (edges.map (·.pool)) amount := by
  induction hops generalizing current amount weight poolPath assetPath visited with
  | zero =>
    unfold dfs at h
    split at h
    · rw [List.mem_singleton] at h
      subst h
      exact ⟨[], by simp, by simp, by simp, rfl⟩
    · cases h
  | succ hops ih =>
    unfold dfs at h
    split at h
    · rw [List.mem_singleton] at h
      subst h
      exact ⟨[], by simp, by simp, by simp, rfl⟩
    · obtain ⟨e, he, h⟩ := List.mem_flatMap.mp h
      -- an edge into a visited asset, or with nothing coming out, gives no route
      split at h
      · cases h
      · dsimp only at h
        split at h
        · cases h
        · rename_i hsome
          obtain ⟨edges, hin, hpools, hassets, hout⟩ := ih h
          refine ⟨e :: edges, ?_, ?_, ?_, ?_⟩
          · intro e' he'
            rcases List.mem_cons.mp he' with rfl | he'
            · exact ⟨⟨current, he⟩, tvl_pos_of_swap (not_le.mp hsome)⟩
            · exact hin e' he'
          · rw [hpools, List.map_cons, List.append_assoc, List.singleton_append]
          · rw [hassets, List.length_append, List.length_singleton, List.length_cons]
            omega
          · rw [hout, List.map_cons]
            rfl

theorem mem_searchRoutes {g : RouteGraph} {q : RouteQuery} {r : RouteResult}
    (h : r ∈ searchRoutes g q) : ∃ edges : List GraphEdge,
      (∀ e ∈ edges, (∃ asset, e ∈ edgesFrom g.nodes asset) ∧ 0 < e.pool.tvl) ∧
      r.poolPath = edges.map (·.poolId) ∧
      r.assetPath.length = edges.length + 1 ∧
      r.estimatedOutput = swapAlong (edges.map (·.pool)) q.amountIn := by
  have hcand := (List.mem_insertionSort _).mp (List.mem_of_mem_take h)
  obtain ⟨edges, hin, hpools, hassets, hout⟩ := mem_dfs hcand
  refine ⟨edges, hin, by simpa using hpools, ?_, hout⟩
  rw [hassets, List.length_nil, Nat.zero_add]

/-! ## What the graph holds -/

theorem edgesFrom_addEdge (nodes : List GraphNode) (pool : LiquidityPool)
    (source target asset : String) :
    edgesFrom (addEdge nodes pool source target) asset =
      if source = asset then edgesFrom nodes asset ++ [edgeOf pool target]
      else edgesFrom nodes asset := by
  unfold edgesFrom addEdge
  rw [lookup_upsert]
  by_cases h : source = asset
  · rw [if_pos h, if_pos h, h]
    rfl
  · rw [if_neg h, if_neg h]

theorem mem_edgesFrom_addPool {g : RouteGraph} {pool : LiquidityPool} {asset : String}
    {e : GraphEdge} (h : e ∈ edgesFrom (g.addPool pool).nodes asset) :
    e ∈ edgesFrom g.nodes asset ∨ e.pool = pool ∧ e.poolId = pool.id := by
  simp only [RouteGraph.addPool, edgesFrom_addEdge] at h
  split at h <;> split at h
  · simp only [List.mem_append, List.mem_singleton] at h
    rcases h with (h | rfl) | rfl
    · exact .inl h
    · exact .inr ⟨rfl, rfl⟩
    · exact .inr ⟨rfl, rfl⟩
  · rcases List.mem_append.mp h with h | h
    · exact .inl h
    · rw [List.mem_singleton.mp h]
      exact .inr ⟨rfl, rfl⟩
  · rcases List.mem_append.mp h with h | h
    · exact .inl h
    · rw [List.mem_singleton.mp h]
      exact .inr ⟨rfl, rfl⟩
  · exact .inl h

theorem buildGraph_concat (pools : List LiquidityPool) (pool : LiquidityPool) :
    buildGraph (pools ++ [pool]) = (buildGraph pools).addPool pool := by
  rw [buildGraph, List.foldl_append]
  rfl

/-- Every edge carries a copy of one of the pools the graph was built from. -/
theorem mem_edgesFrom_buildGraph {pools : List LiquidityPool} {asset : String} {e : GraphEdge}
    (h : e ∈ edgesFrom (buildGraph pools).nodes asset) : e.pool ∈ pools ∧ e.poolId = e.pool.id := by
  induction pools using List.reverseRecOn with
  | nil => cases h
  | append_singleton pools pool ih =>
    rw [buildGraph_concat] at h
    rcases mem_edgesFrom_addPool h with h | ⟨hpool, hid⟩
    · exact ⟨List.mem_append_left _ (ih h).1, (ih h).2⟩
    · exact ⟨by simp [hpool], by rw [hid, hpool]⟩

theorem poolMap_buildGraph {pools : List LiquidityPool} (h : (pools.map (·.id)).Nodup) :
    (buildGraph pools).poolMap = pools := by
  induction pools using List.reverseRecOn with
  | nil => rfl
  | append_singleton pools pool ih =>
    rw [List.map_append, List.nodup_append] at h
    have hnew : pool.id ∉ pools.map (·.id) := fun hin => h.2.2 _ hin pool.id (by simp) rfl
    rw [buildGraph_concat, RouteGraph.addPool, ih h.1, upsert_of_not_mem hnew]

/-- The graph of no pool is the one that is built again. -/
theorem nodes_buildGraph {pools : List LiquidityPool} (h : (buildGraph pools).nodes = []) :
    pools = [] := by
  induction pools using List.reverseRecOn with
  | nil => rfl
  | append_singleton pools pool _ =>
    rw [buildGraph_concat] at h
    exact absurd h (upsert_ne_nil _ _)

end Liquidity
end TradeCore
