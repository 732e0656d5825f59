import TradeCore.Liquidity.Router
import TradeCore.Lib.RelativeError
import TradeCore.Lib.StepAverage
import Mathlib.Data.List.Sort
import Mathlib.Order.Bounds.Basic

/-!
# TradeCore.Liquidity.Oracle

`PriceOracleService`: the price history of a pool and its time-weighted average. The price of a snapshot
counts for the time up to the next one (`twap_of_history`): the last one closes the last interval and its
price counts for nothing, and a history that spans no time has the average 0.

`fl` is the rounding of every number that is computed: `nearestDouble` in the service, `id` in exact
arithmetic. What rounding takes from the bounds of the average is `getTWAP_rounded`.
-/

namespace TradeCore
namespace Liquidity

open Lib

structure PoolSnapshot where
  id : Uuid
  poolId : Uuid
  volume24h : ℚ
  spotPrice : ℚ
  snapshotAt : Time
  deriving DecidableEq, Repr

structure SnapshotTable where
  rows : List PoolSnapshot
  distinct : (rows.map (·.id)).Nodup

structure PricePoint where
  timestamp : Time
  price : ℚ
  volume : ℚ
  deriving DecidableEq, Repr

def SnapshotTable.window (t : SnapshotTable) (poolId : Uuid) (fromDate toDate : Time) :
    List PoolSnapshot :=
  t.rows.filter fun s => s.poolId = poolId ∧ fromDate ≤ s.snapshotAt ∧ s.snapshotAt ≤ toDate

/-- The rows that the query returns, rows of the same time in the order of the table. -/
def SnapshotTable.history (t : SnapshotTable) (poolId : Uuid) (fromDate toDate : Time) (limit : ℕ) :
    List PoolSnapshot :=
  ((t.window poolId fromDate toDate).insertionSort fun a b => a.snapshotAt ≤ b.snapshotAt).take limit

/-- `new Date(ms)`: a fraction of a millisecond is cut off. -/
def dateOf (ms : ℚ) : Time := if ms < 0 then ⌈ms⌉ else ⌊ms⌋

section Service

variable (fl : ℚ → ℚ)

def pricePoint (s : PoolSnapshot) : PricePoint where
  timestamp := s.snapshotAt
  price := fl s.spotPrice
  volume := fl s.volume24h

def getHistoricalPrices (t : SnapshotTable) (poolId : Uuid) (fromDate toDate : Time) (limit : ℕ) :
    List PricePoint :=
  (t.history poolId fromDate toDate limit).map (pricePoint fl)

def windowStart (now : Time) (windowMinutes : ℚ) : Time :=
  dateOf (fl (now - fl (fl (windowMinutes * 60) * 1000)))

-- the difference of two times is a whole number of milliseconds, which every double holds
def getTWAP (t : SnapshotTable) (now : Time) (poolId : Uuid) (windowMinutes : ℚ) : ℚ :=
  let prices := getHistoricalPrices fl t poolId (windowStart fl now windowMinutes) now 100
  match prices with
  | [] => 0
  | first :: rest =>
    let twap := (prices.zip rest).foldl
      (fun twap p =>
        let timeDelta := fl (((p.2.timestamp : ℚ) - p.1.timestamp) / 1000)
        fl (twap + fl (p.1.price * timeDelta))) 0
    let totalTime := fl ((((rest.getLast?.getD first).timestamp : ℚ) - first.timestamp) / 1000)
    if 0 < totalTime then fl (twap / totalTime) else 0

end Service

/-! ## The average -/

def PoolSnapshot.sample (s : PoolSnapshot) : ℚ × ℚ := ((s.snapshotAt : ℚ) / 1000, s.spotPrice)

theorem sample_le {a b : PoolSnapshot} (h : a.snapshotAt ≤ b.snapshotAt) : a.sample.1 ≤ b.sample.1 :=
  div_le_div_of_nonneg_right (by exact_mod_cast h) (by norm_num)

theorem sample_lt {a b : PoolSnapshot} (h : a.snapshotAt < b.snapshotAt) : a.sample.1 < b.sample.1 :=
  div_lt_div_of_pos_right (by exact_mod_cast h) (by norm_num)

/-- The seconds from a snapshot to the next one. -/
def seconds (a b : PoolSnapshot) : ℚ := ((b.snapshotAt : ℚ) - a.snapshotAt) / 1000

theorem sample_sub (a b : PoolSnapshot) : b.sample.1 - a.sample.1 = seconds a b := by
  rw [PoolSnapshot.sample, PoolSnapshot.sample, seconds, sub_div]

/-- The sum that the loop over the rows computes. -/
def weightedSum (fl : ℚ → ℚ) (twap : ℚ) : List PoolSnapshot → ℚ
  | a :: b :: rows => weightedSum fl (fl (twap + fl (fl a.spotPrice * fl (seconds a b)))) (b :: rows)
  | _ => twap

theorem foldl_weightedSum (fl : ℚ → ℚ) (first : PoolSnapshot) (rest : List PoolSnapshot) (twap : ℚ) :
    ((pricePoint fl first :: rest.map (pricePoint fl)).zip (rest.map (pricePoint fl))).foldl
      (fun twap p => fl (twap + fl (p.1.price * fl (((p.2.timestamp : ℚ) - p.1.timestamp) / 1000)))) twap =
      weightedSum fl twap (first :: rest) := by
  induction rest generalizing first twap with
  | nil => rfl
  | cons next rest ih =>
    rw [List.map_cons, List.zip_cons_cons, List.foldl_cons, ih next]
    rfl

theorem getTWAP_eq (fl : ℚ → ℚ) (t : SnapshotTable) (now : Time) (poolId : Uuid) (windowMinutes : ℚ) :
    getTWAP fl t now poolId windowMinutes =
      let rows := t.history poolId (windowStart fl now windowMinutes) now 100
      let totalTime := fl (span (rows.map (·.sample)))
      if rows ≠ [] ∧ 0 < totalTime then fl (weightedSum fl 0 rows / totalTime) else 0 := by
  unfold getTWAP getHistoricalPrices
  generalize t.history poolId (windowStart fl now windowMinutes) now 100 = rows
  cases rows with
  | nil => rfl
  | cons first rest =>
    have hspan : span ((first :: rest).map (·.sample)) =
        ((((rest.map (pricePoint fl)).getLast?.getD (pricePoint fl first)).timestamp : ℚ) -
          (pricePoint fl first).timestamp) / 1000 := by
      rw [List.map_cons, span_eq, List.getLast?_map, List.getLast?_map]
      cases rest.getLast? <;> exact (sub_div ..).symm
    simp only [List.map_cons, foldl_weightedSum, ne_eq, reduceCtorEq, not_false_eq_true, true_and]
    rw [← List.map_cons, hspan]

theorem weightedSum_id (twap : ℚ) (rows : List PoolSnapshot) :
    weightedSum id twap rows = twap + stepSum (rows.map (·.sample)) := by
  induction rows generalizing twap with
  | nil => simp [weightedSum, stepSum]
  | cons a rows ih =>
    cases rows with
    | nil => simp [weightedSum, stepSum]
    | cons b rows =>
      rw [weightedSum, ih]
      simp only [List.map_cons, stepSum, id, ← sample_sub, add_assoc]
      rfl

theorem getTWAP_exact (t : SnapshotTable) (now : Time) (poolId : Uuid) (windowMinutes : ℚ) :
    getTWAP id t now poolId windowMinutes =
      stepAverage ((t.history poolId (windowStart id now windowMinutes) now 100).map (·.sample)) := by
  rw [getTWAP_eq]
  generalize t.history poolId (windowStart id now windowMinutes) now 100 = rows
  simp only [weightedSum_id, zero_add, id, stepAverage]
  cases rows with
  | nil => simp [span]
  | cons first rest => simp

theorem mem_history {t : SnapshotTable} {poolId : Uuid} {fromDate toDate : Time} {limit : ℕ}
    {s : PoolSnapshot} (h : s ∈ t.history poolId fromDate toDate limit) :
    s ∈ t.window poolId fromDate toDate :=
  (List.mem_insertionSort _).mp (List.mem_of_mem_take h)

theorem history_distinct (t : SnapshotTable) (poolId : Uuid) (fromDate toDate : Time) (limit : ℕ) :
    ((t.history poolId fromDate toDate limit).map (·.id)).Nodup := by
  have hwindow : ((t.window poolId fromDate toDate).map (·.id)).Nodup :=
    t.distinct.sublist (List.filter_sublist.map _)
  have hsorted := ((List.perm_insertionSort (fun a b : PoolSnapshot => a.snapshotAt ≤ b.snapshotAt)
    (t.window poolId fromDate toDate)).map (·.id)).nodup_iff.mpr hwindow
  exact hsorted.sublist ((List.take_sublist ..).map _)

theorem history_sorted (t : SnapshotTable) (poolId : Uuid) (fromDate toDate : Time) (limit : ℕ) :
    (t.history poolId fromDate toDate limit).Pairwise fun a b => a.snapshotAt ≤ b.snapshotAt := by
  have : Std.Total fun a b : PoolSnapshot => a.snapshotAt ≤ b.snapshotAt := ⟨fun a b => le_total ..⟩
  have : IsTrans PoolSnapshot fun a b => a.snapshotAt ≤ b.snapshotAt := ⟨fun a b c => le_trans⟩
  exact (List.pairwise_insertionSort _ _).sublist (List.take_sublist ..)

theorem samples_sorted (t : SnapshotTable) (poolId : Uuid) (fromDate toDate : Time) (limit : ℕ) :
    ((t.history poolId fromDate toDate limit).map (·.sample)).Pairwise fun p q => p.1 ≤ q.1 :=
  (history_sorted t poolId fromDate toDate limit).map _ fun _ _ => sample_le

theorem span_history_pos {t : SnapshotTable} {poolId : Uuid} {fromDate toDate : Time} {limit : ℕ}
    {a b : PoolSnapshot} (ha : a ∈ t.history poolId fromDate toDate limit)
    (hb : b ∈ t.history poolId fromDate toDate limit) (hab : a.snapshotAt < b.snapshotAt) :
    0 < span ((t.history poolId fromDate toDate limit).map (·.sample)) :=
  (sub_pos.mpr (sample_lt hab)).trans_le
    (sub_le_span (samples_sorted ..) (List.mem_map_of_mem ha) (List.mem_map_of_mem hb))

/-! ## Another price -/

def PoolSnapshot.reprice (id : Uuid) (price : ℚ) (s : PoolSnapshot) : PoolSnapshot :=
  if s.id = id then { s with spotPrice := price } else s

@[simp] theorem reprice_id (id : Uuid) (price : ℚ) (s : PoolSnapshot) : (s.reprice id price).id = s.id := by
  unfold PoolSnapshot.reprice
  split <;> rfl

@[simp] theorem reprice_poolId (id : Uuid) (price : ℚ) (s : PoolSnapshot) :
    (s.reprice id price).poolId = s.poolId := by
  unfold PoolSnapshot.reprice
  split <;> rfl

@[simp] theorem reprice_snapshotAt (id : Uuid) (price : ℚ) (s : PoolSnapshot) :
    (s.reprice id price).snapshotAt = s.snapshotAt := by
  unfold PoolSnapshot.reprice
  split <;> rfl

theorem reprice_of_ne {id : Uuid} {s : PoolSnapshot} (h : s.id ≠ id) (price : ℚ) : s.reprice id price = s :=
  if_neg h

/-- The table with another price in one snapshot. -/
def SnapshotTable.reprice (t : SnapshotTable) (id : Uuid) (price : ℚ) : SnapshotTable where
  rows := t.rows.map (·.reprice id price)
  distinct := by
    rw [List.map_map]
    simpa only [Function.comp_def, reprice_id] using t.distinct

theorem history_reprice (t : SnapshotTable) (id : Uuid) (price : ℚ) (poolId : Uuid)
    (fromDate toDate : Time) (limit : ℕ) :
    (t.reprice id price).history poolId fromDate toDate limit =
      (t.history poolId fromDate toDate limit).map (·.reprice id price) := by
  have hwindow : (t.reprice id price).window poolId fromDate toDate =
      (t.window poolId fromDate toDate).map (·.reprice id price) := by
    simp only [SnapshotTable.window, SnapshotTable.reprice, List.filter_map, Function.comp_def,
      reprice_poolId, reprice_snapshotAt]
  simp only [SnapshotTable.history, hwindow]
  rw [List.map_take, List.map_insertionSort (s := fun a b => a.snapshotAt ≤ b.snapshotAt) _ _ _
    fun a _ b _ => by simp only [reprice_snapshotAt]]

theorem map_reprice {before after : List PoolSnapshot} {s : PoolSnapshot}
    (h : ((before ++ s :: after).map (·.id)).Nodup) (price : ℚ) :
    (before ++ s :: after).map (·.reprice s.id price) =
      before ++ { s with spotPrice := price } :: after := by
  rw [List.map_append, List.map_cons, List.nodup_append, List.nodup_cons] at h
  obtain ⟨-, ⟨hafter, -⟩, hbefore⟩ := h
  have hkeep : ∀ rows : List PoolSnapshot, (∀ r ∈ rows, r.id ≠ s.id) →
      rows.map (·.reprice s.id price) = rows := fun rows hne =>
    (List.map_congr_left fun r hr => reprice_of_ne (hne r hr) price).trans (List.map_id _)
  rw [List.map_append, List.map_cons, hkeep before, hkeep after]
  · simp [PoolSnapshot.reprice]
  · exact fun r hr heq => hafter (heq ▸ List.mem_map_of_mem hr)
  · exact fun r hr => hbefore _ (List.mem_map_of_mem hr) _ (by simp)

/-- The average depends on the price of the snapshot. -/
def Contributes (t : SnapshotTable) (now : Time) (poolId : Uuid) (windowMinutes : ℚ) (s : PoolSnapshot) :
    Prop :=
  ∀ price, price ≠ s.spotPrice →
    getTWAP id (t.reprice s.id price) now poolId windowMinutes ≠ getTWAP id t now poolId windowMinutes

theorem contributes_of_later {t : SnapshotTable} {now : Time} {poolId : Uuid} {windowMinutes : ℚ}
    {before after : List PoolSnapshot} {s next : PoolSnapshot}
    (hsplit : t.history poolId (windowStart id now windowMinutes) now 100 = before ++ s :: next :: after)
    (hlt : s.snapshotAt < next.snapshotAt) : Contributes t now poolId windowMinutes s := by
  have hdistinct := history_distinct t poolId (windowStart id now windowMinutes) now 100
  have hs : s ∈ t.history poolId (windowStart id now windowMinutes) now 100 := by simp [hsplit]
  have hnext : next ∈ t.history poolId (windowStart id now windowMinutes) now 100 := by simp [hsplit]
  have hspan := span_history_pos hs hnext hlt
  rw [hsplit] at hdistinct hspan
  intro price hprice heq
  rw [getTWAP_exact, getTWAP_exact, history_reprice, hsplit, map_reprice hdistinct] at heq
  simp only [List.map_append, List.map_cons] at hspan heq
  have hchange := stepAverage_change hspan price
  have hshare : (price - s.sample.2) * (next.sample.1 - s.sample.1) ≠ 0 :=
    mul_ne_zero (sub_ne_zero.mpr hprice) (sub_pos.mpr (sample_lt hlt)).ne'
  exact div_ne_zero hshare hspan.ne' (left_eq_add.mp (heq.symm.trans hchange))

/-! ## Rounding -/

/-- A price that is not negative, as the column holds it. -/
def TenDecimals (x : ℚ) : Prop := ∃ n : ℕ, x = n / 10 ^ 10

theorem TenDecimals.clear {x : ℚ} (h : TenDecimals x) : Clear (-34) x := by
  obtain ⟨n, rfl⟩ := h
  rcases n.eq_zero_or_pos with rfl | hn
  · exact .inl (by simp)
  · have hone : (1 : ℚ) ≤ n := by exact_mod_cast hn
    right
    rw [le_div_iff₀ (by norm_num)]
    refine le_trans ?_ hone
    norm_num

theorem clear_seconds {a b : PoolSnapshot} (h : a.snapshotAt ≤ b.snapshotAt) : Clear (-10) (seconds a b) := by
  rcases h.eq_or_lt with h | h
  · exact .inl (by simp [seconds, h])
  · have hone : (1 : ℚ) ≤ b.snapshotAt - a.snapshotAt := by exact_mod_cast Int.le_sub_left_of_add_le h
    right
    rw [seconds, le_div_iff₀ (by norm_num)]
    refine le_trans ?_ hone
    norm_num

theorem clear_span {rows : List PoolSnapshot}
    (hsorted : rows.Pairwise fun a b => a.snapshotAt ≤ b.snapshotAt) :
    Clear (-10) (span (rows.map (·.sample))) := by
  induction rows with
  | nil => exact .zero _
  | cons a rows ih =>
    cases rows with
    | nil => exact .zero _
    | cons b rows =>
      obtain ⟨hle, hsorted⟩ := List.pairwise_cons.mp hsorted
      simp only [List.map_cons, span, sample_sub] at ih ⊢
      exact (clear_seconds (hle b (List.mem_cons_self ..))).add (ih hsorted)

theorem rounded_interval {a b : PoolSnapshot} (hprice : TenDecimals a.spotPrice)
    (h : a.snapshotAt ≤ b.snapshotAt) :
    Rounded roundoff 3 (a.spotPrice * seconds a b)
        (nearestDouble (nearestDouble a.spotPrice * nearestDouble (seconds a b))) ∧
      Clear (-44) (nearestDouble (nearestDouble a.spotPrice * nearestDouble (seconds a b))) := by
  have hp := hprice.clear
  have ht := clear_seconds h
  have hclear := (hp.nearestDouble (by norm_num)).mul (ht.nearestDouble (by norm_num))
  have hprod := ((Rounded.refl roundoff a.spotPrice).nearestDouble (by norm_num) hp).mul roundoff_nonneg
    roundoff_le_one ((Rounded.refl roundoff (seconds a b)).nearestDouble (by norm_num) ht) hp.nonneg ht.nonneg
  exact ⟨hprod.nearestDouble (by norm_num) hclear, hclear.nearestDouble (by norm_num)⟩

theorem rounded_weightedSum {rows : List PoolSnapshot}
    (hsorted : rows.Pairwise fun a b => a.snapshotAt ≤ b.snapshotAt)
    (hprices : ∀ s ∈ rows, TenDecimals s.spotPrice) {n : ℕ} {x twap : ℚ} (hx : 0 ≤ x)
    (h : Rounded roundoff (3 + n) x twap) (hclear : Clear (-44) twap) :
    Rounded roundoff (3 + n + rows.length) (x + stepSum (rows.map (·.sample)))
      (weightedSum nearestDouble twap rows) := by
  induction rows generalizing n x twap with
  | nil => simpa [weightedSum, stepSum] using h
  | cons a rows ih =>
    cases rows with
    | nil =>
      simpa [weightedSum, stepSum] using h.mono roundoff_nonneg roundoff_le_one hx (Nat.le_succ _)
    | cons b rows =>
      obtain ⟨hle, hsorted⟩ := List.pairwise_cons.mp hsorted
      have hab := hle b (List.mem_cons_self ..)
      have hprice := hprices a (List.mem_cons_self ..)
      obtain ⟨hterm, hterm'⟩ := rounded_interval hprice hab
      have hpos : 0 ≤ a.spotPrice * seconds a b :=
        mul_nonneg hprice.clear.nonneg (clear_seconds hab).nonneg
      have hsum := h.add (hterm.mono roundoff_nonneg roundoff_le_one hpos (Nat.le_add_right 3 n))
      have hnext : Rounded roundoff (3 + (n + 1)) _ _ := hsum.nearestDouble (by norm_num) (hclear.add hterm')
      have hrest := ih hsorted (fun s hs => hprices s (List.mem_cons_of_mem a hs)) (add_nonneg hx hpos)
        hnext ((hclear.add hterm').nearestDouble (by norm_num))
      have hcount : 3 + n + ((b :: rows).length + 1) = 3 + (n + 1) + (b :: rows).length := by omega
      rw [weightedSum, List.length_cons, hcount]
      simp only [List.map_cons, stepSum, sample_sub, ← add_assoc] at hrest ⊢
      exact hrest

/-- The prices of the snapshots in the window. -/
def SnapshotTable.prices (t : SnapshotTable) (poolId : Uuid) (fromDate toDate : Time) : Set ℚ :=
  { x | ∃ s ∈ t.window poolId fromDate toDate, s.spotPrice = x }

/-- The rows that are read span some time. -/
def Spans (t : SnapshotTable) (poolId : Uuid) (fromDate toDate : Time) : Prop :=
  ∃ a ∈ t.history poolId fromDate toDate 100, ∃ b ∈ t.history poolId fromDate toDate 100,
    a.snapshotAt < b.snapshotAt

theorem Spans.span_pos {t : SnapshotTable} {poolId : Uuid} {fromDate toDate : Time}
    (h : Spans t poolId fromDate toDate) :
    0 < span ((t.history poolId fromDate toDate 100).map (·.sample)) := by
  obtain ⟨a, ha, b, hb, hab⟩ := h
  exact span_history_pos ha hb hab

theorem rounded_quotient {S T twap totalTime lo hi : ℚ} (hsum : Rounded roundoff 103 S twap)
    (htime : Rounded roundoff 1 T totalTime) (hT : 0 < T) (hlo : 0 ≤ lo) (hhi : 0 ≤ hi)
    (hlow : lo * T ≤ S) (hhigh : S ≤ hi * T) :
    lo * (1 - 1 / 2 ^ 46) ≤ twap / totalTime ∧ twap / totalTime ≤ hi * (1 + 1 / 2 ^ 46) := by
  have htotal := htime.pos hT
  rw [le_div_iff₀ htotal, div_le_iff₀ htotal]
  constructor
  · have hroom : ((1 - 1 / 2 ^ 46) * (1 + roundoff) ^ 1 : ℚ) ≤ (1 - roundoff) ^ 103 := by
      norm_num [roundoff]
    calc lo * (1 - 1 / 2 ^ 46) * totalTime
        ≤ lo * (1 - 1 / 2 ^ 46) * (T * (1 + roundoff) ^ 1) :=
          mul_le_mul_of_nonneg_left htime.high (mul_nonneg hlo (by norm_num))
      _ = lo * T * ((1 - 1 / 2 ^ 46) * (1 + roundoff) ^ 1) := by ring
      _ ≤ lo * T * (1 - roundoff) ^ 103 := mul_le_mul_of_nonneg_left hroom (mul_nonneg hlo hT.le)
      _ ≤ S * (1 - roundoff) ^ 103 := mul_le_mul_of_nonneg_right hlow (by norm_num [roundoff])
      _ ≤ twap := hsum.low
  · have hroom : ((1 + roundoff) ^ 103 : ℚ) ≤ (1 + 1 / 2 ^ 46) * (1 - roundoff) ^ 1 := by
      norm_num [roundoff]
    calc twap ≤ S * (1 + roundoff) ^ 103 := hsum.high
      _ ≤ hi * T * (1 + roundoff) ^ 103 := mul_le_mul_of_nonneg_right hhigh (by norm_num [roundoff])
      _ ≤ hi * T * ((1 + 1 / 2 ^ 46) * (1 - roundoff) ^ 1) :=
          mul_le_mul_of_nonneg_left hroom (mul_nonneg hhi hT.le)
      _ = hi * (1 + 1 / 2 ^ 46) * (T * (1 - roundoff) ^ 1) := by ring
      _ ≤ hi * (1 + 1 / 2 ^ 46) * totalTime :=
          mul_le_mul_of_nonneg_left htime.low (mul_nonneg hhi (by norm_num))

/-- Doubles take no more from the bounds than a `2^45`th part of them. -/
theorem getTWAP_rounded {t : SnapshotTable} {now : Time} {poolId : Uuid} {windowMinutes smallest largest : ℚ}
    (h : Spans t poolId (windowStart nearestDouble now windowMinutes) now)
    (hprices : ∀ s ∈ t.window poolId (windowStart nearestDouble now windowMinutes) now,
      TenDecimals s.spotPrice)
    (hsmall : IsLeast (t.prices poolId (windowStart nearestDouble now windowMinutes) now) smallest)
    (hlarge : IsGreatest (t.prices poolId (windowStart nearestDouble now windowMinutes) now) largest) :
    smallest * (1 - 1 / 2 ^ 45) ≤ getTWAP nearestDouble t now poolId windowMinutes ∧
      getTWAP nearestDouble t now poolId windowMinutes ≤ largest * (1 + 1 / 2 ^ 45) := by
  have hspan := h.span_pos
  rw [getTWAP_eq]
  generalize hrows : t.history poolId (windowStart nearestDouble now windowMinutes) now 100 = rows at hspan
  have hmem : ∀ s ∈ rows, s ∈ t.window poolId (windowStart nearestDouble now windowMinutes) now :=
    fun s hs => mem_history (hrows ▸ hs)
  have hsorted : rows.Pairwise fun a b => a.snapshotAt ≤ b.snapshotAt := hrows ▸ history_sorted ..
  have hlength : rows.length ≤ 100 := hrows ▸ List.length_take_le ..
  obtain ⟨s₁, hs₁, rfl⟩ := hsmall.1
  obtain ⟨s₂, hs₂, rfl⟩ := hlarge.1
  have hlo := (hprices s₁ hs₁).clear
  have hhi := (hprices s₂ hs₂).clear
  -- the exact sum lies between the bounds, and both it and the time are rounded
  have hvalues : ∀ p ∈ rows.map (·.sample), s₁.spotPrice ≤ p.2 ∧ p.2 ≤ s₂.spotPrice := by
    intro p hp
    obtain ⟨s, hs, rfl⟩ := List.mem_map.mp hp
    exact ⟨hsmall.2 ⟨s, hmem s hs, rfl⟩, hlarge.2 ⟨s, hmem s hs, rfl⟩⟩
  have htimes : (rows.map (·.sample)).Pairwise fun p q => p.1 ≤ q.1 :=
    hsorted.map _ fun _ _ => sample_le
  have hbounds := stepSum_between htimes hvalues
  have hsum := rounded_weightedSum hsorted (fun s hs => hprices s (hmem s hs)) le_rfl
    (Rounded.zero roundoff (3 + 0)) (.zero _)
  have htime := (Rounded.refl roundoff (span (rows.map (·.sample)))).nearestDouble (by norm_num)
    (clear_span hsorted)
  rw [zero_add] at hsum
  have hsum := hsum.mono roundoff_nonneg roundoff_le_one ((mul_nonneg hlo.nonneg hspan.le).trans hbounds.1)
    (show 3 + 0 + rows.length ≤ 103 by omega)
  have htotal := htime.pos hspan
  have hne : rows ≠ [] := by
    rintro rfl
    exact hspan.false
  obtain ⟨hlow, hhigh⟩ := rounded_quotient hsum htime hspan hlo.nonneg hhi.nonneg hbounds.1 hbounds.2
  have hlo' : Clear (-34 + -1) (s₁.spotPrice * (1 - 1 / 2 ^ 46)) := hlo.mul (.inr (by norm_num))
  have hhi' : Clear (-34 + -1) (s₂.spotPrice * (1 + 1 / 2 ^ 46)) := hhi.mul (.inr (by norm_num))
  have hfinal := nearestDouble_between (by norm_num) hlo' hhi' hlow hhigh
  rw [if_pos ⟨hne, htotal⟩]
  have hmin := mul_le_mul_of_nonneg_left
    (show (1 - 1 / 2 ^ 45 : ℚ) ≤ (1 - 1 / 2 ^ 46) * (1 - roundoff) by norm_num [roundoff]) hlo.nonneg
  have hmax := mul_le_mul_of_nonneg_left
    (show ((1 + 1 / 2 ^ 46) * (1 + roundoff) : ℚ) ≤ 1 + 1 / 2 ^ 45 by norm_num [roundoff]) hhi.nonneg
  rw [← mul_assoc] at hmin hmax
  exact ⟨hmin.trans hfinal.1, hfinal.2.trans hmax⟩

theorem twap_of_history (t : SnapshotTable) (now : Time) (poolId : Uuid) (windowMinutes : ℚ) :
    (Spans t poolId (windowStart id now windowMinutes) now → ∀ smallest largest,
      IsLeast (t.prices poolId (windowStart id now windowMinutes) now) smallest →
      IsGreatest (t.prices poolId (windowStart id now windowMinutes) now) largest →
        smallest ≤ getTWAP id t now poolId windowMinutes ∧ getTWAP id t now poolId windowMinutes ≤ largest) ∧
    (∀ before s next after,
      t.history poolId (windowStart id now windowMinutes) now 100 = before ++ s :: next :: after →
      s.snapshotAt < next.snapshotAt → Contributes t now poolId windowMinutes s) ∧
    (Spans t poolId (windowStart nearestDouble now windowMinutes) now →
      (∀ s ∈ t.window poolId (windowStart nearestDouble now windowMinutes) now, TenDecimals s.spotPrice) →
      ∀ smallest largest,
        IsLeast (t.prices poolId (windowStart nearestDouble now windowMinutes) now) smallest →
        IsGreatest (t.prices poolId (windowStart nearestDouble now windowMinutes) now) largest →
          smallest * (1 - 1 / 2 ^ 45) ≤ getTWAP nearestDouble t now poolId windowMinutes ∧
            getTWAP nearestDouble t now poolId windowMinutes ≤ largest * (1 + 1 / 2 ^ 45)) := by
  refine ⟨fun hspans smallest largest hsmall hlarge => ?_, fun _ _ _ _ hsplit hlt =>
    contributes_of_later hsplit hlt, fun hspans hprices _ _ => getTWAP_rounded hspans hprices⟩
  rw [getTWAP_exact]
  refine stepAverage_between (samples_sorted ..) hspans.span_pos fun p hp => ?_
  obtain ⟨s, hs, rfl⟩ := List.mem_map.mp hp
  exact ⟨hsmall.2 ⟨s, mem_history hs, rfl⟩, hlarge.2 ⟨s, mem_history hs, rfl⟩⟩

/-- Two snapshots of pool 0, half a minute apart. -/
def twoSnapshots : SnapshotTable where
  rows := [⟨0, 0, 50, 1, 0⟩, ⟨1, 0, 50, 3, 30000⟩]
  distinct := by decide

theorem first_snapshot_contributes : Contributes twoSnapshots 60000 0 1 ⟨0, 0, 50, 1, 0⟩ :=
  (twap_of_history twoSnapshots 60000 0 1).2.1
    [] ⟨0, 0, 50, 1, 0⟩ ⟨1, 0, 50, 3, 30000⟩ [] (by decide +kernel) (by decide)

def oneSnapshot : SnapshotTable where
  rows := [⟨0, 0, 50, 5, 0⟩]
  distinct := by decide

/-- One price throughout, twice within a minute. -/
def samePrice : SnapshotTable where
  rows := [⟨0, 0, 50, 12 / 100, 0⟩, ⟨1, 0, 50, 12 / 100, 60000⟩]
  distinct := by decide

theorem last_price_ignored :
    ¬Contributes twoSnapshots 60000 0 1 ⟨1, 0, 50, 3, 30000⟩ ∧
      oneSnapshot.window 0 (windowStart id 60000 1) 60000 = [⟨0, 0, 50, 5, 0⟩] ∧
      getTWAP id oneSnapshot 60000 0 1 = 0 ∧
      getTWAP nearestDouble samePrice 60000 0 1 < nearestDouble (12 / 100) := by
  refine ⟨fun h => h 7 (by norm_num) (by decide +kernel), by decide +kernel, by decide +kernel,
    by decide +kernel⟩

end Liquidity
end TradeCore
