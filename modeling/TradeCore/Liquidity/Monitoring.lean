import Mathlib.Algebra.Order.Field.Basic
import Mathlib.Tactic.Linarith
import Mathlib.Tactic.Positivity
import TradeCore.Lib.KeyedFold
import TradeCore.Liquidity.Router
import TradeCore.Soroban.StateKey

/-!
# TradeCore.Liquidity.Monitoring

The search for arbitrage (`LiquidityMonitoringService.scanArbitrage`). The active pools are grouped by
their two asset codes and every two pools of a group compared; then a search of depth three looks
for cycles in the graph of the pools. What is found is saved.

`scanArbitrage_pairs`: whatever the order of the pools, the scan finds the ordered pairs of pools of
one group of which the first is cheaper by the spread, each once, and no cycle; and it fails as a whole
when one of them does not fit its columns.
-/

namespace TradeCore
namespace Liquidity
namespace LiquidityMonitoringService

open Lib

inductive ArbitrageStatus where
  | detected
  | simulated
  | executed
  | expired
  | invalidated
  deriving DecidableEq, Repr

structure ArbitrageOpportunity where
  baseAsset : String
  quoteAsset : String
  cyclePools : List Uuid
  estimatedProfit : ℚ
  maxProfitableSize : ℚ
  spreadPercent : ℚ
  estimatedGasCost : ℕ
  status : ArbitrageStatus
  detectedAt : Time
  expiresAt : Time
  deriving DecidableEq, Repr

structure ArbitrageScanResult where
  opportunitiesFound : ℕ
  totalEstimatedProfit : ℚ
  opportunities : List ArbitrageOpportunity
  scannedAt : Time
  deriving DecidableEq, Repr

def arbitrageTtl : Time := 5 * 60 * 1000

/-! ## Prices and rates -/

/-- `[a, b].sort().join('-')`, by code units. -/
def pairKey (pool : LiquidityPool) : String :=
  if Soroban.codeUnits pool.assetCodeB.toList < Soroban.codeUnits pool.assetCodeA.toList then
    pool.assetCodeB ++ "-" ++ pool.assetCodeA
  else pool.assetCodeA ++ "-" ++ pool.assetCodeB

/-- The turnover of the pool stands for its price, and the fee for that of a pool nobody used. -/
def getPoolPrice (pool : LiquidityPool) : ℚ :=
  if pool.tvl ≤ 0 then 0
  else if pool.volume24h / pool.tvl = 0 then pool.feeRate
  else pool.volume24h / pool.tvl

def getPoolRate (pool : LiquidityPool) (source target : String) : ℚ :=
  if pool.assetCodeA = source ∧ pool.assetCodeB = target then 1 / (1 + pool.feeRate)
  else if pool.assetCodeB = source ∧ pool.assetCodeA = target then 1 / (1 + pool.feeRate)
  else 0

/-! ## Pairs -/

/-- What two pools of a group make, if anything. -/
def arbitrageOf (now : Time) (minSpread : ℚ) (a b : LiquidityPool) : Option ArbitrageOpportunity :=
  let priceA := getPoolPrice a
  let priceB := getPoolPrice b
  if priceA ≤ 0 ∨ priceB ≤ 0 then none
  else
    let spread := |priceA - priceB| / min priceA priceB
    let spreadPercent := spread * 100
    if minSpread ≤ spreadPercent then
      let cheaperPool := if priceA < priceB then a else b
      let expensivePool := if priceA < priceB then b else a
      let tvlMin := min cheaperPool.tvl expensivePool.tvl
      let maxProfitable := tvlMin * spread * (1 / 2)
      some
        { baseAsset := cheaperPool.assetCodeA
          quoteAsset := cheaperPool.assetCodeB
          cyclePools := [cheaperPool.id, expensivePool.id]
          estimatedProfit := maxProfitable * spread
          maxProfitableSize := maxProfitable
          spreadPercent := roundTo 6 spreadPercent
          estimatedGasCost := 200000
          status := .detected
          detectedAt := now
          expiresAt := now + arbitrageTtl }
    else none

def findArbitrageInPair (now : Time) (minSpread : ℚ) (pools : List LiquidityPool) :
    List ArbitrageOpportunity :=
  (pairs pools).filterMap fun p => arbitrageOf now minSpread p.1 p.2

/-! ## Cycles -/

structure RateEdge where
  neighbor : String
  pool : LiquidityPool
  rate : ℚ
  deriving DecidableEq, Repr

abbrev Adjacency := List (String × List RateEdge)

/-- `if (!adj.has(asset)) adj.set(asset, [])`. -/
def ensureAsset (asset : String) (adj : Adjacency) : Adjacency :=
  if (adj.lookup asset).isSome then adj else adj ++ [(asset, [])]

def pushEdge (asset : String) (e : RateEdge) (adj : Adjacency) : Adjacency :=
  adj.map fun n => if n.1 = asset then (n.1, n.2 ++ [e]) else n

def addPool (adj : Adjacency) (pool : LiquidityPool) : Adjacency :=
  let rateAB := getPoolRate pool pool.assetCodeA pool.assetCodeB
  let rateBA := getPoolRate pool pool.assetCodeB pool.assetCodeA
  let adj := ensureAsset pool.assetCodeB (ensureAsset pool.assetCodeA adj)
  let adj := if 0 < rateAB then pushEdge pool.assetCodeA ⟨pool.assetCodeB, pool, rateAB⟩ adj else adj
  if 0 < rateBA then pushEdge pool.assetCodeB ⟨pool.assetCodeA, pool, rateBA⟩ adj else adj

def adjacency (pools : List LiquidityPool) : Adjacency := pools.foldl addPool []

/-- `adj.get(asset) ?? []`. -/
def edgesAt (adj : Adjacency) (asset : String) : List RateEdge := (adj.lookup asset).getD []

/-- The cycle that three edges close, when its rate exceeds one by the spread. -/
def cycleOf (now : Time) (minSpread : ℚ) (start : String) (n1 n2 n3 : RateEdge) :
    Option ArbitrageOpportunity :=
  let cycleRate := n1.rate * n2.rate * n3.rate
  let spreadPercent := (cycleRate - 1) * 100
  if minSpread ≤ spreadPercent then
    let tvlMin := min n1.pool.tvl (min n2.pool.tvl n3.pool.tvl)
    let maxProfitable := tvlMin * (cycleRate - 1) * (3 / 10)
    some
      { baseAsset := start
        quoteAsset := n1.neighbor
        cyclePools := [n1.pool.id, n2.pool.id, n3.pool.id]
        estimatedProfit := maxProfitable * (cycleRate - 1)
        maxProfitableSize := maxProfitable
        spreadPercent := roundTo 6 spreadPercent
        estimatedGasCost := 300000
        status := .detected
        detectedAt := now
        expiresAt := now + arbitrageTtl }
  else none

def findTriangularArbitrage (now : Time) (minSpread : ℚ) (pools : List LiquidityPool) :
    List ArbitrageOpportunity :=
  let adj := adjacency pools
  (adj.map Prod.fst).flatMap fun start =>
    (edgesAt adj start).flatMap fun n1 =>
      (edgesAt adj n1.neighbor).flatMap fun n2 =>
        if n2.neighbor = start ∨ n2.pool.id = n1.pool.id then []
        else
          (edgesAt adj n2.neighbor).filterMap fun n3 =>
            if n3.neighbor ≠ start ∨ n3.pool.id = n1.pool.id ∨ n3.pool.id = n2.pool.id then none
            else cycleOf now minSpread start n1 n2 n3

/-! ## The scan -/

/-- The columns of a row. -/
def ArbitrageOpportunity.columns (o : ArbitrageOpportunity) : Except HttpError ArbitrageOpportunity := do
  let estimatedProfit ← numeric 30 7 o.estimatedProfit
  let maxProfitableSize ← numeric 30 7 o.maxProfitableSize
  let spreadPercent ← numeric 10 6 o.spreadPercent
  return { o with estimatedProfit, maxProfitableSize, spreadPercent }

/-- The loop over the groups of `groupPoolsByAssetPair`. -/
def arbitrageInPairs (now : Time) (minSpread : ℚ) (pools : List LiquidityPool) :
    List ArbitrageOpportunity :=
  (groups pairKey pools).flatMap fun g =>
    let pairPools := g.2.1 :: g.2.2
    if pairPools.length < 2 then [] else findArbitrageInPair now minSpread pairPools

def scanResult (now : Time) (saved : List ArbitrageOpportunity) : ArbitrageScanResult where
  opportunitiesFound := saved.length
  totalEstimatedProfit := (saved.map (·.estimatedProfit)).sum
  opportunities := saved
  scannedAt := now

/-- A scan of the pools that are active, in the order in which `find` returns them. `save` inserts all
rows or none, and leaves the objects it was given as they are. -/
def scanArbitrage (table : List ArbitrageOpportunity) (pools : List LiquidityPool) (now : Time)
    (minSpread : ℚ) : Except HttpError (ArbitrageScanResult × List ArbitrageOpportunity) := do
  let opportunities := arbitrageInPairs now minSpread pools
  let triangularArbs := findTriangularArbitrage now minSpread pools
  let saved := opportunities ++ triangularArbs
  let rows ← saved.mapM ArbitrageOpportunity.columns
  return (scanResult now saved, table ++ rows)

/-! ## What a scan should find -/

/-- How much more the second pool asks, as a part of the price of the first. -/
def spreadOf (p q : LiquidityPool) : ℚ := (getPoolPrice q - getPoolPrice p) / getPoolPrice p

/-- One is cheaper than the other, in the same two assets, by the spread. -/
def Undercuts (minSpread : ℚ) (p q : LiquidityPool) : Prop :=
  pairKey p = pairKey q ∧ 0 < getPoolPrice p ∧ getPoolPrice p < getPoolPrice q ∧
    minSpread ≤ spreadOf p q * 100

instance (minSpread : ℚ) : DecidableRel (Undercuts minSpread) := fun p q =>
  inferInstanceAs (Decidable (pairKey p = pairKey q ∧ 0 < getPoolPrice p ∧
    getPoolPrice p < getPoolPrice q ∧ minSpread ≤ spreadOf p q * 100))

/-- Buy in the first pool, sell in the second. -/
def opportunity (now : Time) (p q : LiquidityPool) : ArbitrageOpportunity :=
  let maxProfitable := min p.tvl q.tvl * spreadOf p q * (1 / 2)
  { baseAsset := p.assetCodeA
    quoteAsset := p.assetCodeB
    cyclePools := [p.id, q.id]
    estimatedProfit := maxProfitable * spreadOf p q
    maxProfitableSize := maxProfitable
    spreadPercent := roundTo 6 (spreadOf p q * 100)
    estimatedGasCost := 200000
    status := .detected
    detectedAt := now
    expiresAt := now + arbitrageTtl }

theorem undercuts_asymm {minSpread : ℚ} (p q : LiquidityPool) (h : Undercuts minSpread p q) :
    ¬ Undercuts minSpread q p := fun h' => lt_asymm h.2.2.1 h'.2.2.1

/-! ## The key of a group -/

theorem codeUnits_injective {s t : List Char} (h : Soroban.codeUnits s = Soroban.codeUnits t) : s = t := by
  induction s generalizing t with
  | nil =>
    cases t with
    | nil => rfl
    | cons d t =>
      rw [Soroban.codeUnits, Soroban.codeUnits, List.flatMap_cons] at h
      split at h <;> simp at h
  | cons c s ih =>
    cases t with
    | nil =>
      rw [Soroban.codeUnits, Soroban.codeUnits, List.flatMap_cons] at h
      split at h <;> simp at h
    | cons d t =>
      have hc : c.toNat < 0xD800 ∨ 0xDFFF < c.toNat ∧ c.toNat < 0x110000 := c.valid
      have hd : d.toNat < 0xD800 ∨ 0xDFFF < d.toNat ∧ d.toNat < 0x110000 := d.valid
      -- the first unit tells a surrogate pair from a single unit
      have hboth : c.toNat = d.toNat ∧ Soroban.codeUnits s = Soroban.codeUnits t := by
        rw [Soroban.codeUnits, Soroban.codeUnits, List.flatMap_cons, List.flatMap_cons] at h
        split at h <;> split at h <;>
          simp only [List.cons_append, List.nil_append, List.cons.injEq] at h
        · exact h
        · omega
        · omega
        · exact ⟨by omega, h.2.2⟩
      rw [Char.toNat_inj.mp hboth.1, ih hboth.2]

theorem joined_inj {a b c d : String} (ha : '-' ∉ a.toList) (hb : '-' ∉ b.toList) :
    a ++ "-" ++ b = c ++ "-" ++ d ↔ a = c ∧ b = d := by
  rw [← String.toList_inj]
  simp only [String.toList_append, List.append_assoc]
  change a.toList ++ '-' :: b.toList = c.toList ++ '-' :: d.toList ↔ _
  rw [List.append_cons_inj_of_notMem ha hb, String.toList_inj, String.toList_inj]
  simp

/-- Pools of the same two assets share a group, in whichever order they have them; no others do when no
code has a dash. -/
theorem pairKey_eq_iff {p q : LiquidityPool} (hA : '-' ∉ p.assetCodeA.toList)
    (hB : '-' ∉ p.assetCodeB.toList) :
    pairKey p = pairKey q ↔ p.assetCodeA = q.assetCodeA ∧ p.assetCodeB = q.assetCodeB ∨
      p.assetCodeA = q.assetCodeB ∧ p.assetCodeB = q.assetCodeA := by
  unfold pairKey
  constructor
  · intro h
    split at h <;> split at h <;> rw [joined_inj (by assumption) (by assumption)] at h
    · exact .inl h.symm
    · exact .inr h.symm
    · exact .inr h
    · exact .inl h
  · rintro (⟨ha, hb⟩ | ⟨ha, hb⟩)
    · rw [ha, hb]
    · rw [ha, hb]
      split <;> split
      · rename_i h h'
        exact absurd h' (List.lt_asymm h)
      · rfl
      · rfl
      · rename_i h h'
        -- neither code comes first, so they are one
        have heq := codeUnits_injective (List.le_antisymm (List.not_lt.mp h) (List.not_lt.mp h'))
        rw [String.toList_inj.mp heq]

/-! ## Pairs of a group -/

section Pairs

variable {now : Time} {minSpread : ℚ}

theorem arbitrageOf_of_lt {a b : LiquidityPool} (hkey : pairKey a = pairKey b)
    (hlt : getPoolPrice a < getPoolPrice b) :
    arbitrageOf now minSpread a b = if Undercuts minSpread a b then some (opportunity now a b) else none := by
  unfold arbitrageOf
  by_cases ha : getPoolPrice a ≤ 0
  · have : ¬ Undercuts minSpread a b := fun h => absurd h.2.1 (not_lt.mpr ha)
    simp [ha, this]
  · have ha := not_le.mp ha
    have hb : ¬ getPoolPrice b ≤ 0 := not_le.mpr (ha.trans hlt)
    have hspread : |getPoolPrice a - getPoolPrice b| / min (getPoolPrice a) (getPoolPrice b) =
        spreadOf a b := by
      rw [abs_sub_comm, abs_of_pos (sub_pos.mpr hlt), min_eq_left hlt.le, spreadOf]
    have hunder : Undercuts minSpread a b ↔ minSpread ≤ spreadOf a b * 100 :=
      ⟨fun h => h.2.2.2, fun h => ⟨hkey, ha, hlt, h⟩⟩
    simp only [not_le.mpr ha, hb, or_self, if_false, hspread, hlt, if_true, hunder, opportunity]

theorem arbitrageOf_comm (a b : LiquidityPool) (hne : getPoolPrice a ≠ getPoolPrice b) :
    arbitrageOf now minSpread a b = arbitrageOf now minSpread b a := by
  unfold arbitrageOf
  rcases lt_or_gt_of_ne hne with h | h
  · simp only [abs_sub_comm (getPoolPrice a), min_comm (getPoolPrice a), or_comm, h, not_lt.mpr h.le,
      if_true, if_false]
  · simp only [abs_sub_comm (getPoolPrice a), min_comm (getPoolPrice a), or_comm, h, not_lt.mpr h.le,
      if_true, if_false]

theorem arbitrageOf_eq (hmin : 0 < minSpread) {a b : LiquidityPool} (hkey : pairKey a = pairKey b) :
    arbitrageOf now minSpread a b =
      (orient (Undercuts minSpread) (a, b)).map fun e => opportunity now e.1 e.2 := by
  unfold orient
  rcases lt_trichotomy (getPoolPrice a) (getPoolPrice b) with h | h | h
  · have hno : ¬ Undercuts minSpread b a := fun h' => lt_asymm h h'.2.2.1
    rw [arbitrageOf_of_lt hkey h]
    simp only [hno, if_false]
    split <;> simp
  · have hno : ¬ Undercuts minSpread a b := fun h' => h'.2.2.1.ne h
    have hno' : ¬ Undercuts minSpread b a := fun h' => h'.2.2.1.ne h.symm
    have hzero : ¬ minSpread ≤ 0 := not_le.mpr hmin
    simp [hno, hno', arbitrageOf, h, hzero]
  · have hno : ¬ Undercuts minSpread a b := fun h' => lt_asymm h h'.2.2.1
    rw [arbitrageOf_comm a b h.ne', arbitrageOf_of_lt hkey.symm h]
    simp only [hno, if_false]
    split <;> simp

theorem findArbitrageInPair_eq (hmin : 0 < minSpread) {pools : List LiquidityPool} {k : String}
    (hkey : ∀ p ∈ pools, pairKey p = k) :
    findArbitrageInPair now minSpread pools =
      ((pairs pools).filterMap (orient (Undercuts minSpread))).map fun e => opportunity now e.1 e.2 := by
  unfold findArbitrageInPair
  rw [List.map_filterMap]
  refine List.filterMap_congr fun p hp => ?_
  obtain ⟨h1, h2⟩ := mem_of_mem_pairs hp
  exact arbitrageOf_eq hmin ((hkey _ h1).trans (hkey _ h2).symm)

theorem arbitrageInPairs_perm (hmin : 0 < minSpread) (pools : List LiquidityPool) :
    (arbitrageInPairs now minSpread pools).Perm
      (((pools.product pools).filter fun e => Undercuts minSpread e.1 e.2).map fun e =>
        opportunity now e.1 e.2) := by
  have hgroup : ∀ g ∈ groups pairKey pools,
      (if (g.2.1 :: g.2.2).length < 2 then [] else findArbitrageInPair now minSpread (g.2.1 :: g.2.2)) =
        ((pairs (g.2.1 :: g.2.2)).filterMap (orient (Undercuts minSpread))).map fun e =>
          opportunity now e.1 e.2 := by
    intro g hg
    have hkey : ∀ p ∈ g.2.1 :: g.2.2, pairKey p = g.1 := by
      intro p hp
      rw [← mem_groups.mp hg, List.mem_filter] at hp
      exact of_decide_eq_true hp.2
    rw [← findArbitrageInPair_eq hmin hkey]
    split
    · rename_i h
      rw [findArbitrageInPair, pairs_nil_of_length h]
      rfl
    · rfl
  unfold arbitrageInPairs
  rw [List.flatMap_congr hgroup, ← List.map_flatMap]
  exact (flatMap_orient_groups undercuts_asymm (fun _ _ h => h.1) pools).map _

end Pairs

/-! ## No cycle pays -/

/-- Every edge gives at most what it takes. -/
def Lossy (adj : Adjacency) : Prop := ∀ n ∈ adj, ∀ e ∈ n.2, 0 < e.rate ∧ e.rate ≤ 1

theorem lossy_ensureAsset {adj : Adjacency} (h : Lossy adj) (asset : String) :
    Lossy (ensureAsset asset adj) := by
  unfold ensureAsset
  split
  · exact h
  · intro n hn
    rcases List.mem_append.mp hn with hn | hn
    · exact h n hn
    · rw [List.mem_singleton.mp hn]
      simp

theorem lossy_pushEdge {adj : Adjacency} (h : Lossy adj) (asset : String) {e : RateEdge}
    (he : 0 < e.rate ∧ e.rate ≤ 1) : Lossy (pushEdge asset e adj) := by
  intro n hn
  obtain ⟨n', hn', rfl⟩ := List.mem_map.mp hn
  intro e' he'
  split at he'
  · rcases List.mem_append.mp he' with he' | he'
    · exact h n' hn' e' he'
    · rw [List.mem_singleton.mp he']
      exact he
  · exact h n' hn' e' he'

theorem getPoolRate_le_one {pool : LiquidityPool} (hfee : 0 ≤ pool.feeRate) (source target : String) :
    getPoolRate pool source target ≤ 1 := by
  have hle : 1 / (1 + pool.feeRate) ≤ 1 := by
    rw [div_le_one (by linarith)]
    linarith
  unfold getPoolRate
  split
  · exact hle
  · split
    · exact hle
    · exact zero_le_one

theorem lossy_addPool {adj : Adjacency} (h : Lossy adj) {pool : LiquidityPool} (hfee : 0 ≤ pool.feeRate) :
    Lossy (addPool adj pool) := by
  have hensured := lossy_ensureAsset (lossy_ensureAsset h pool.assetCodeA) pool.assetCodeB
  have hpushed : ∀ {adj : Adjacency}, Lossy adj → ∀ source target,
      Lossy (if 0 < getPoolRate pool source target then
        pushEdge source ⟨target, pool, getPoolRate pool source target⟩ adj else adj) := by
    intro adj h source target
    split
    · rename_i hpos
      exact lossy_pushEdge h _ ⟨hpos, getPoolRate_le_one hfee _ _⟩
    · exact h
  exact hpushed (hpushed hensured _ _) _ _

theorem lossy_adjacency {pools : List LiquidityPool} (hfee : ∀ p ∈ pools, 0 ≤ p.feeRate) :
    Lossy (adjacency pools) := by
  unfold adjacency
  refine List.foldlRecOn pools addPool (motive := Lossy) ?_ ?_
  · simp [Lossy]
  · exact fun adj h pool hpool => lossy_addPool h (hfee pool hpool)

theorem rate_edgesAt {adj : Adjacency} (h : Lossy adj) {asset : String} {e : RateEdge}
    (he : e ∈ edgesAt adj asset) : 0 < e.rate ∧ e.rate ≤ 1 := by
  unfold edgesAt at he
  cases hl : adj.lookup asset with
  | none => simp [hl] at he
  | some es =>
    rw [hl] at he
    exact h _ (mem_of_lookup_eq hl) e he

theorem cycleOf_none {now : Time} {minSpread : ℚ} (hmin : 0 < minSpread) (start : String)
    {n1 n2 n3 : RateEdge} (h1 : 0 < n1.rate ∧ n1.rate ≤ 1) (h2 : 0 < n2.rate ∧ n2.rate ≤ 1)
    (h3 : 0 < n3.rate ∧ n3.rate ≤ 1) : cycleOf now minSpread start n1 n2 n3 = none := by
  have h12 : n1.rate * n2.rate ≤ 1 := mul_le_one₀ h1.2 h2.1.le h2.2
  have hcycle : n1.rate * n2.rate * n3.rate ≤ 1 := mul_le_one₀ h12 h3.1.le h3.2
  have : ¬ minSpread ≤ (n1.rate * n2.rate * n3.rate - 1) * 100 := by linarith
  simp [cycleOf, this]

theorem findTriangularArbitrage_nil {now : Time} {minSpread : ℚ} (hmin : 0 < minSpread)
    {pools : List LiquidityPool} (hfee : ∀ p ∈ pools, 0 ≤ p.feeRate) :
    findTriangularArbitrage now minSpread pools = [] := by
  have hadj := lossy_adjacency hfee
  simp only [findTriangularArbitrage, List.flatMap_eq_nil_iff]
  intro start _ n1 h1 n2 h2
  split
  · rfl
  · rw [List.filterMap_eq_nil_iff]
    intro n3 h3
    split
    · rfl
    · exact cycleOf_none hmin start (rate_edgesAt hadj h1) (rate_edgesAt hadj h2) (rate_edgesAt hadj h3)

/-! ## What is saved -/

/-- The values keep within the precision of their columns. -/
def ArbitrageOpportunity.Fits (o : ArbitrageOpportunity) : Prop :=
  |roundTo 7 o.estimatedProfit| < 10 ^ 23 ∧ |roundTo 7 o.maxProfitableSize| < 10 ^ 23 ∧
    |roundTo 6 o.spreadPercent| < 10 ^ 4

instance : DecidablePred ArbitrageOpportunity.Fits := fun o =>
  inferInstanceAs (Decidable (|roundTo 7 o.estimatedProfit| < 10 ^ 23 ∧
    |roundTo 7 o.maxProfitableSize| < 10 ^ 23 ∧ |roundTo 6 o.spreadPercent| < 10 ^ 4))

def ArbitrageOpportunity.row (o : ArbitrageOpportunity) : ArbitrageOpportunity :=
  { o with
    estimatedProfit := roundTo 7 o.estimatedProfit
    maxProfitableSize := roundTo 7 o.maxProfitableSize
    spreadPercent := roundTo 6 o.spreadPercent }

theorem columns_eq (o : ArbitrageOpportunity) :
    o.columns = if o.Fits then .ok o.row else .error databaseError := by
  unfold ArbitrageOpportunity.columns ArbitrageOpportunity.Fits numeric
  by_cases h1 : |roundTo 7 o.estimatedProfit| < 10 ^ 23
  · by_cases h2 : |roundTo 7 o.maxProfitableSize| < 10 ^ 23
    · by_cases h3 : |roundTo 6 o.spreadPercent| < 10 ^ 4
      · simp [h1, h2, h3, ArbitrageOpportunity.row, bind, Except.bind, pure, Except.pure]
      · simp [h1, h2, h3, bind, Except.bind]
    · simp [h1, h2, bind, Except.bind]
  · simp [h1, bind, Except.bind]

theorem mapM_columns (os : List ArbitrageOpportunity) :
    os.mapM ArbitrageOpportunity.columns =
      if ∀ o ∈ os, o.Fits then .ok (os.map ArbitrageOpportunity.row) else .error databaseError := by
  induction os with
  | nil => rfl
  | cons o os ih =>
    rw [List.mapM_cons, ih, columns_eq]
    by_cases ho : o.Fits
    · by_cases hos : ∀ o ∈ os, o.Fits
      · have hall : ∀ o' ∈ o :: os, o'.Fits := List.forall_mem_cons.mpr ⟨ho, hos⟩
        rw [if_pos hos, if_pos ho, if_pos hall]
        rfl
      · rw [if_neg hos]
        simp [ho, hos, bind, Except.bind]
    · simp [ho, bind, Except.bind]

/-- Over pools whose fees are not negative, a scan finds the pairs of which one undercuts the other, each
once, and nothing else; it saves them all, or fails when one of them does not fit. -/
theorem scanArbitrage_pairs (table : List ArbitrageOpportunity) {pools : List LiquidityPool}
    (hfee : ∀ p ∈ pools, 0 ≤ p.feeRate) (now : Time) {minSpread : ℚ} (hmin : 0 < minSpread) :
    ∃ found : List ArbitrageOpportunity,
      found.Perm (((pools.product pools).filter fun e => Undercuts minSpread e.1 e.2).map fun e =>
        opportunity now e.1 e.2) ∧
      scanArbitrage table pools now minSpread =
        if ∀ o ∈ found, o.Fits then
          .ok (scanResult now found, table ++ found.map ArbitrageOpportunity.row)
        else .error databaseError := by
  refine ⟨arbitrageInPairs now minSpread pools, arbitrageInPairs_perm hmin pools, ?_⟩
  unfold scanArbitrage
  simp only [findTriangularArbitrage_nil hmin hfee, List.append_nil, mapM_columns]
  split <;> rfl

/-- A pool of the two assets in which `volume24h` of 1000 has been traded. -/
def poolOf (id : Uuid) (assetCodeA assetCodeB : String) (volume24h : ℚ) : LiquidityPool where
  id := id
  name := assetCodeA ++ "/" ++ assetCodeB
  type := .amm
  status := .active
  assetCodeA := assetCodeA
  assetIssuerA := none
  assetCodeB := assetCodeB
  assetIssuerB := none
  tvl := 1000
  feeRate := 3 / 1000
  volume24h := volume24h
  feeRevenue24h := 0

/-- The second pool has half the turnover of the first, and its assets the other way round. -/
def twoPools : List LiquidityPool := [poolOf 1 "XLM" "USDC" 20, poolOf 2 "USDC" "XLM" 10]

theorem scanArbitrage_pairs_two :
    ∃ found : List ArbitrageOpportunity,
      found.Perm [opportunity 0 (poolOf 2 "USDC" "XLM" 10) (poolOf 1 "XLM" "USDC" 20)] ∧
      scanArbitrage [] twoPools 0 (1 / 10) =
        .ok (scanResult 0 found, found.map ArbitrageOpportunity.row) := by
  have hfee : ∀ p ∈ twoPools, 0 ≤ p.feeRate := by decide +kernel
  have hmin : (0 : ℚ) < 1 / 10 := by norm_num
  have hpairs : ((twoPools.product twoPools).filter fun e => Undercuts (1 / 10) e.1 e.2) =
      [(poolOf 2 "USDC" "XLM" 10, poolOf 1 "XLM" "USDC" 20)] := by decide +kernel
  obtain ⟨found, hperm, hscan⟩ := scanArbitrage_pairs [] hfee 0 hmin
  rw [hpairs] at hperm
  have hfits : ∀ o ∈ found, o.Fits := by
    intro o ho
    rw [List.mem_singleton.mp (hperm.mem_iff.mp ho)]
    decide +kernel
  rw [if_pos hfits] at hscan
  exact ⟨found, hperm, hscan⟩

/-- Two pools whose turnovers are too far apart fail the scan for all the others. -/
example : ¬ (opportunity 0 (poolOf 1 "XLM" "USDC" (1 / 10)) (poolOf 2 "XLM" "USDC" 20)).Fits := by
  decide +kernel

end LiquidityMonitoringService
end Liquidity
end TradeCore
