import Mathlib.Algebra.Order.Field.Rat
import TradeCore.Common
import TradeCore.Analytics.Buckets
import TradeCore.Lib.KeyedFold

/-!
# TradeCore.Analytics.PriceAction

Open, high, low, close and volume of an asset by period (`getPriceAction`). The trades come from the
table in the order of their times; each goes to the list of its bucket, and every list makes a bar.
Quantities and prices are exact. A date column holds a `Timestamptz`, whose buckets are all in the
range of a `Date`, so no key is the text of an invalid date.

* `getPriceAction_bars`: the bars are those of the trades, bucket by bucket, and add up to them.
* `getPriceAction_rollUp`: the bars of a period can be computed from those of a smaller one.
-/

namespace TradeCore
namespace Analytics

open Lib Instant

/-- A time of a `timestamptz` column that a `Date` can hold. The column has none before 4713 BC. -/
structure Timestamptz where
  instant : Instant
  since : -210866803200000 ≤ instant.time

structure Trade where
  id : Uuid
  assetCode : String
  quantity : ℚ
  price : ℚ
  createdAt : Timestamptz

structure PriceAction where
  timestamp : Instant
  «open» : ℚ
  high : ℚ
  low : ℚ
  close : ℚ
  volume : ℚ
  trades : Nat

def Trade.volume (t : Trade) : ℚ := t.quantity * t.price

/-- The query: the trades of the asset between the two dates, by time. -/
def tradesBetween (table : List Trade) (assetCode : String) (dateFrom dateTo : Instant) : List Trade :=
  (table.filter fun t => t.assetCode = assetCode ∧ dateFrom.time ≤ t.createdAt.instant.time ∧
    t.createdAt.instant.time ≤ dateTo.time).mergeSort
    fun t u => t.createdAt.instant.time ≤ u.createdAt.instant.time

/-- The bar of a bucket with these trades. -/
def priceActionOf (bucketKey : Instant) (t : Trade) (rest : List Trade) : PriceAction where
  timestamp := bucketKey
  «open» := t.price
  high := (rest.map Trade.price).foldl max t.price
  low := (rest.map Trade.price).foldl min t.price
  close := (rest.getLastD t).price
  volume := ((t :: rest).map Trade.volume).sum
  trades := (t :: rest).length

/-- `none` when the key of a bucket is the text of an invalid date, which throws. -/
def getPriceAction (zone : Int) (table : List Trade) (assetCode : String) (dateFrom dateTo : Instant)
    (aggregation : MetricAggregation) : Option (List PriceAction) := do
  let keyed ← (tradesBetween table assetCode dateFrom dateTo).mapM fun t =>
    (getBucketKey zone t.createdAt.instant aggregation).map fun bucketKey => (bucketKey, t)
  return (groups Prod.fst keyed).map fun g => priceActionOf g.1 g.2.1.2 (g.2.2.map Prod.snd)

/-! ## Buckets of a date column -/

section Bucket

variable {zone : Int}

/-- The start of the bucket of a date column's time. -/
def bucketOf (zone : Int) (a : MetricAggregation) (t : Timestamptz) : Instant where
  time := bucketStart (t.instant.localTime zone) a - zone * 60000
  valid := by
    have hstart := bucketStart_le (t.instant.localTime zone) a
    have hsince := t.since
    have hvalid := t.instant.valid
    unfold localTime at hstart ⊢
    unfold maxTime at hvalid ⊢
    omega

theorem localTime_bucketOf (a : MetricAggregation) (t : Timestamptz) :
    (bucketOf zone a t).localTime zone = bucketStart (t.instant.localTime zone) a :=
  Int.sub_add_cancel _ _

theorem getBucketKey_timestamptz (a : MetricAggregation) (t : Timestamptz) :
    getBucketKey zone t.instant a = some (bucketOf zone a t) := by
  rw [getBucketKey_eq, ofLocal_eq_some, localTime_bucketOf]

theorem getBucketKey_bucketOf {a b : MetricAggregation} (h : Nests a b) (t : Timestamptz) :
    getBucketKey zone (bucketOf zone a t) b = some (bucketOf zone b t) := by
  rw [getBucketKey_getBucketKey h (getBucketKey_timestamptz a t), getBucketKey_timestamptz]

theorem bucketOf_mono (a : MetricAggregation) {t u : Timestamptz} (h : t.instant.time ≤ u.instant.time) :
    bucketOf zone a t ≤ bucketOf zone a u := by
  have := bucketStart_mono a (Int.add_le_add_right h (zone * 60000))
  rw [le_iff_time]
  exact Int.sub_le_sub_right this _

end Bucket

theorem mapM_eq_map {α β : Type} {f : α → Option β} {g : α → β} {l : List α}
    (h : ∀ x ∈ l, f x = some (g x)) : l.mapM f = some (l.map g) := by
  induction l with
  | nil => rfl
  | cons x l ih =>
    rw [List.mapM_cons, h x (.head _), ih fun y hy => h y (.tail _ hy)]
    rfl

section Bars

variable {zone : Int} {table : List Trade} {assetCode : String} {dateFrom dateTo : Instant}

/-- The trades with the starts of their buckets. -/
def keyedBy (zone : Int) (a : MetricAggregation) (ts : List Trade) : List (Instant × Trade) :=
  ts.map fun t => (bucketOf zone a t.createdAt, t)

theorem getPriceAction_eq (a : MetricAggregation) :
    getPriceAction zone table assetCode dateFrom dateTo a =
      some ((groups Prod.fst (keyedBy zone a (tradesBetween table assetCode dateFrom dateTo))).map
        fun g => priceActionOf g.1 g.2.1.2 (g.2.2.map Prod.snd)) := by
  unfold getPriceAction
  rw [mapM_eq_map fun t _ => by rw [getBucketKey_timestamptz, Option.map_some]]
  rfl

theorem tradesBetween_sorted (table : List Trade) (assetCode : String) (dateFrom dateTo : Instant) :
    (tradesBetween table assetCode dateFrom dateTo).Pairwise
      fun t u => t.createdAt.instant.time ≤ u.createdAt.instant.time := by
  have h : (tradesBetween table assetCode dateFrom dateTo).Pairwise fun t u =>
      decide (t.createdAt.instant.time ≤ u.createdAt.instant.time) = true :=
    List.pairwise_mergeSort (by intro t u v; simp; omega) (by intro t u; simp; omega) _
  exact h.imp of_decide_eq_true

variable (zone) in
theorem keyedBy_sorted (a : MetricAggregation) {ts : List Trade}
    (h : ts.Pairwise fun t u => t.createdAt.instant.time ≤ u.createdAt.instant.time) :
    ((keyedBy zone a ts).map Prod.fst).Pairwise (· ≤ ·) := by
  rw [keyedBy, List.map_map, List.pairwise_map]
  exact h.imp fun hle => bucketOf_mono a hle

/-! ## The bars -/

/-- The bar of the trades `ts` of one bucket, in the order of their times. -/
structure IsBar (ts : List Trade) (bar : PriceAction) : Prop where
  «open» : ts.head?.map Trade.price = some bar.open
  close : ts.getLast?.map Trade.price = some bar.close
  high : bar.high ∈ ts.map Trade.price ∧ ∀ t ∈ ts, t.price ≤ bar.high
  low : bar.low ∈ ts.map Trade.price ∧ ∀ t ∈ ts, bar.low ≤ t.price
  volume : bar.volume = (ts.map Trade.volume).sum
  trades : bar.trades = ts.length

/-- The bars of trades sorted by time: one for each bucket with a trade in it, by time. -/
structure Bars (zone : Int) (a : MetricAggregation) (ts : List Trade) (bars : List PriceAction) :
    Prop where
  increasing : (bars.map PriceAction.timestamp).Pairwise (· < ·)
  covered : ∀ t ∈ ts, bucketOf zone a t.createdAt ∈ bars.map PriceAction.timestamp
  isBar : ∀ bar ∈ bars, IsBar (ts.filter fun t => bucketOf zone a t.createdAt = bar.timestamp) bar
  volume : (bars.map PriceAction.volume).sum = (ts.map Trade.volume).sum
  trades : (bars.map PriceAction.trades).sum = ts.length

theorem foldl_max_spec (p : ℚ) (l : List ℚ) :
    l.foldl max p ∈ p :: l ∧ ∀ q ∈ p :: l, q ≤ l.foldl max p := by
  induction l generalizing p with
  | nil => simp
  | cons r l ih =>
    obtain ⟨hmem, hle⟩ := ih (max p r)
    simp only [List.foldl_cons, List.mem_cons, forall_eq_or_imp, max_le_iff] at hmem hle ⊢
    refine ⟨?_, hle.1.1, hle.1.2, hle.2⟩
    rcases hmem with h | h
    · rcases max_choice p r with hm | hm <;> rw [h, hm] <;> simp
    · exact .inr (.inr h)

theorem foldl_min_spec (p : ℚ) (l : List ℚ) :
    l.foldl min p ∈ p :: l ∧ ∀ q ∈ p :: l, l.foldl min p ≤ q := by
  induction l generalizing p with
  | nil => simp
  | cons r l ih =>
    obtain ⟨hmem, hle⟩ := ih (min p r)
    simp only [List.foldl_cons, List.mem_cons, forall_eq_or_imp, le_min_iff] at hmem hle ⊢
    refine ⟨?_, hle.1.1, hle.1.2, hle.2⟩
    rcases hmem with h | h
    · rcases min_choice p r with hm | hm <;> rw [h, hm] <;> simp
    · exact .inr (.inr h)

theorem priceActionOf_isBar (k : Instant) (t : Trade) (rest : List Trade) :
    IsBar (t :: rest) (priceActionOf k t rest) where
  «open» := rfl
  close := by
    cases rest with
    | nil => rfl
    | cons u rest =>
      rw [List.getLast?_cons_cons, List.getLast?_eq_getLast_of_ne_nil (List.cons_ne_nil u rest)]
      simp [priceActionOf, List.getLastD_eq_getLast?, List.getLast?_eq_getLast_of_ne_nil]
  high := by
    obtain ⟨hmem, hle⟩ := foldl_max_spec t.price (rest.map Trade.price)
    exact ⟨hmem, fun u hu => hle _ (List.mem_map_of_mem (f := Trade.price) hu)⟩
  low := by
    obtain ⟨hmem, hle⟩ := foldl_min_spec t.price (rest.map Trade.price)
    exact ⟨hmem, fun u hu => hle _ (List.mem_map_of_mem (f := Trade.price) hu)⟩
  volume := rfl
  trades := rfl

theorem filter_of_mem_groups {a : MetricAggregation} {ts : List Trade} {k : Instant}
    {x : Instant × Trade} {l : List (Instant × Trade)} (h : (k, x, l) ∈ groups Prod.fst (keyedBy zone a ts)) :
    ts.filter (fun t => bucketOf zone a t.createdAt = k) = x.2 :: l.map Prod.snd := by
  have := mem_groups.mp h
  rw [keyedBy, List.filter_map] at this
  have := congrArg (List.map Prod.snd) this
  simpa [Function.comp_def] using this

theorem getPriceAction_bars (zone : Int) (table : List Trade) (assetCode : String)
    (dateFrom dateTo : Instant) (a : MetricAggregation) :
    ∃ bars, getPriceAction zone table assetCode dateFrom dateTo a = some bars ∧
      Bars zone a (tradesBetween table assetCode dateFrom dateTo) bars := by
  refine ⟨_, getPriceAction_eq a, ?_⟩
  generalize hts : tradesBetween table assetCode dateFrom dateTo = ts
  have hsorted : ((keyedBy zone a ts).map Prod.fst).Pairwise (· ≤ ·) :=
    keyedBy_sorted _ a (hts ▸ tradesBetween_sorted table assetCode dateFrom dateTo)
  have hkeys : ∀ gs : List (Instant × (Instant × Trade) × List (Instant × Trade)),
      (gs.map fun g => priceActionOf g.1 g.2.1.2 (g.2.2.map Prod.snd)).map PriceAction.timestamp =
        gs.map Prod.fst := fun gs => by rw [List.map_map]; rfl
  constructor
  case increasing =>
    rw [hkeys]
    exact pairwise_groupFold _ _ hsorted
  case covered =>
    intro t ht
    rw [hkeys, groups, mem_keys_groupFold]
    exact ⟨_, List.mem_map_of_mem ht, rfl⟩
  case isBar =>
    intro bar hbar
    obtain ⟨⟨k, x, l⟩, hg, rfl⟩ := List.mem_map.mp hbar
    change IsBar (ts.filter fun t => bucketOf zone a t.createdAt = k) _
    rw [filter_of_mem_groups hg]
    exact priceActionOf_isBar k x.2 _
  case volume =>
    have hsum := sum_groups Prod.fst (fun x : Instant × Trade => x.2.volume) (keyedBy zone a ts)
    have hsnd : (keyedBy zone a ts).map (fun x => x.2.volume) = ts.map Trade.volume := List.map_map
    rw [hsnd] at hsum
    rw [List.map_map]
    simpa [Function.comp_def, priceActionOf, groups] using hsum
  case trades =>
    have hsum := sum_groups Prod.fst (fun _ : Instant × Trade => 1) (keyedBy zone a ts)
    rw [List.map_map]
    simpa [Function.comp_def, priceActionOf, groups, keyedBy, add_comm] using hsum

end Bars

/-! ## Roll-up -/

/-- A bar and a later one of the same bucket. -/
def mergeBars (b c : PriceAction) : PriceAction :=
  { b with
    high := max b.high c.high
    low := min b.low c.low
    close := c.close
    volume := b.volume + c.volume
    trades := b.trades + c.trades }

/-- The bars of larger buckets, from bars by time. -/
def rollUp (zone : Int) (b : MetricAggregation) (bars : List PriceAction) : Option (List PriceAction) := do
  let keyed ← bars.mapM fun bar => (getBucketKey zone bar.timestamp b).map fun bucketKey => (bucketKey, bar)
  return (groupFold Prod.snd (fun bar e => mergeBars bar e.2) Prod.fst keyed).map fun e =>
    { e.2 with timestamp := e.1 }

section RollUp

variable {zone : Int} {table : List Trade} {assetCode : String} {dateFrom dateTo : Instant}

/-- A bar without the start of its bucket, which is the key of its entry. -/
def PriceAction.untimed (bar : PriceAction) : PriceAction := { bar with timestamp := ⟨0, by decide⟩ }

def barOfTrade (t : Trade) : PriceAction := (priceActionOf ⟨0, by decide⟩ t []).untimed

/-- The entries of the bars. -/
def barEntries (zone : Int) (a : MetricAggregation) (ts : List Trade) : List (Instant × PriceAction) :=
  groupFold barOfTrade (fun bar t => mergeBars bar (barOfTrade t)) (fun t => bucketOf zone a t.createdAt) ts

def stamped (e : Instant × PriceAction) : PriceAction := { e.2 with timestamp := e.1 }

theorem priceActionOf_append (k : Instant) (t u : Trade) (rest : List Trade) :
    priceActionOf k t (rest ++ [u]) = mergeBars (priceActionOf k t rest) (barOfTrade u) := by
  simp [priceActionOf, mergeBars, barOfTrade, PriceAction.untimed, add_assoc]

theorem getPriceAction_eq_entries (a : MetricAggregation) :
    getPriceAction zone table assetCode dateFrom dateTo a =
      some ((barEntries zone a (tradesBetween table assetCode dateFrom dateTo)).map stamped) := by
  generalize hts : tradesBetween table assetCode dateFrom dateTo = ts
  have hmap : (groups Prod.fst (keyedBy zone a ts)).map
      (Prod.map id fun g => (priceActionOf ⟨0, by decide⟩ g.1.2 (g.2.map Prod.snd)).untimed) =
        groupFold (fun x : Instant × Trade => barOfTrade x.2)
          (fun bar x => mergeBars bar (barOfTrade x.2)) Prod.fst (keyedBy zone a ts) :=
    groupFold_map (fun x => rfl)
      (fun g x => by rw [List.map_append, List.map_singleton, priceActionOf_append]; rfl) _
  have hentries : groupFold (fun x : Instant × Trade => barOfTrade x.2)
      (fun bar x => mergeBars bar (barOfTrade x.2)) Prod.fst (keyedBy zone a ts) = barEntries zone a ts :=
    groupFold_comap _ ts
  rw [getPriceAction_eq, hts, ← hentries, ← hmap, List.map_map]
  rfl

theorem map_stamped_untimed (m : List (Instant × PriceAction)) :
    (m.map (Prod.map id PriceAction.untimed)).map stamped = m.map stamped := by
  rw [List.map_map]
  rfl

theorem rollUp_eq {b : MetricAggregation} {m : List (Instant × PriceAction)} (coarse : Instant → Instant)
    (hkey : ∀ k ∈ m.map Prod.fst, getBucketKey zone k b = some (coarse k)) :
    rollUp zone b (m.map stamped) =
      some ((groupFold Prod.snd (fun bar e => mergeBars bar e.2) (fun e => coarse e.1) m).map stamped) := by
  have hkeyed : (m.map stamped).mapM (fun bar =>
      (getBucketKey zone bar.timestamp b).map fun bucketKey => (bucketKey, bar)) =
        some (m.map fun e => (coarse e.1, stamped e)) := by
    rw [mapM_eq_map (g := fun bar => (coarse bar.timestamp, bar)), List.map_map]
    · rfl
    · intro bar hbar
      obtain ⟨e, he, rfl⟩ := List.mem_map.mp hbar
      rw [show (stamped e).timestamp = e.1 from rfl, hkey _ (List.mem_map_of_mem he), Option.map_some]
  unfold rollUp
  rw [hkeyed]
  refine congrArg some ?_
  change (groupFold Prod.snd (fun bar e => mergeBars bar e.2) Prod.fst _).map stamped = _
  rw [groupFold_comap, ← map_stamped_untimed, ← map_stamped_untimed (groupFold _ _ _ m)]
  refine congrArg (List.map stamped) ?_
  -- the timestamps that the bars bring along do not reach the result
  have huntimed : (groupFold Prod.snd (fun bar e => mergeBars bar e.2) (fun e => coarse e.1) m).map
      (Prod.map id PriceAction.untimed) =
        groupFold (fun e => e.2.untimed) (fun bar e => mergeBars bar e.2) (fun e => coarse e.1) m :=
    groupFold_map (fun _ => rfl) (fun _ _ => rfl) m
  exact (groupFold_map (fun _ => rfl) (fun _ _ => rfl) m).trans huntimed.symm

/-- The bars of a period are those of a smaller one, rolled up. -/
theorem getPriceAction_rollUp {a b : MetricAggregation} (h : Nests a b) (zone : Int) (table : List Trade)
    (assetCode : String) (dateFrom dateTo : Instant) :
    (getPriceAction zone table assetCode dateFrom dateTo a).bind (rollUp zone b) =
      getPriceAction zone table assetCode dateFrom dateTo b := by
  rw [getPriceAction_eq_entries, getPriceAction_eq_entries, Option.bind_some]
  have hsorted := tradesBetween_sorted table assetCode dateFrom dateTo
  generalize tradesBetween table assetCode dateFrom dateTo = ts at hsorted ⊢
  let coarse : Instant → Instant := fun k => (getBucketKey zone k b).getD k
  have hcoarse : ∀ t : Timestamptz, getBucketKey zone (bucketOf zone a t) b =
      some (coarse (bucketOf zone a t)) ∧ coarse (bucketOf zone a t) = bucketOf zone b t := by
    intro t
    simp only [coarse, getBucketKey_bucketOf h, Option.getD_some, and_self]
  have hkeys : ((ts.map fun t => bucketOf zone a t.createdAt)).Pairwise (· ≤ ·) := by
    have := keyedBy_sorted zone a hsorted
    rwa [keyedBy, List.map_map] at this
  rw [rollUp_eq coarse, barEntries, groupFold_rollUp _ _ hkeys]
  · simp only [(hcoarse _).2]
    rfl
  · intro b t
    rfl
  · intro b c t
    simp [mergeBars, max_assoc, min_assoc, add_assoc]
  · intro k hk
    obtain ⟨t, -, rfl⟩ := mem_keys_groupFold.mp hk
    exact (hcoarse _).1

theorem getPriceAction_rollUp_hours :
    (getPriceAction 0 [⟨1, "XLM", 2, 1 / 10, ⟨⟨0, by decide⟩, by decide⟩⟩] "XLM" ⟨0, by decide⟩
      ⟨3600000, by decide⟩ .hour).bind (rollUp 0 .day) =
    getPriceAction 0 [⟨1, "XLM", 2, 1 / 10, ⟨⟨0, by decide⟩, by decide⟩⟩] "XLM" ⟨0, by decide⟩
      ⟨3600000, by decide⟩ .day :=
  getPriceAction_rollUp (by decide) 0 _ "XLM" _ _

end RollUp

end Analytics
end TradeCore
