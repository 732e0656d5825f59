import Mathlib.Algebra.Order.BigOperators.Group.List
import Mathlib.Algebra.BigOperators.Ring.List
import Mathlib.Algebra.Order.Field.Rat
import Mathlib.Data.List.Sort
import Mathlib.Tactic.Linarith
import Mathlib.Tactic.Positivity
import TradeCore.Lib.KeyedFold
import TradeCore.Portfolio.Trustlines

/-!
# TradeCore.Portfolio.Dashboard

What a user holds (`PortfolioService`): the lumens of the wallets and the balances of the trust lines,
merged by asset, with the part each asset is of the whole. Amounts and prices are exact.

* `buildHoldings_allocated`: merging keeps what was gathered, and the parts make up the whole.
* `holdings_run`: after every run of the assets and trust lines a dashboard lists lumens and nothing else.
-/

namespace TradeCore
namespace Portfolio

open Lib

structure AssetHolding where
  assetCode : String
  assetIssuer : Option String
  balance : ℚ
  currentPriceUsd : ℚ
  valueUsd : ℚ
  change24h : ℚ
  allocation : ℚ
  deriving DecidableEq, Repr

/-! ## Prices -/

/-- `parseFloat` of the text of a column. -/
def amountOf {p s : ℕ} (x : SqlNumeric p s) : ℚ := x.units / 10 ^ s

/-- An empty issuer is none. -/
def truthy (issuer : Option String) : Option String := issuer.filter fun i => i ≠ ""

def getAssetPrice (db : Db) (code : String) (issuer : Option String) : ℚ :=
  match db.assetOf code (truthy issuer) with
  | none => 0
  | some asset =>
    if 0 < amountOf asset.totalSupply then if asset.isNative then 12 / 100 else 0
    else if asset.isNative then 12 / 100 else 0

/-! ## Holdings -/

def newHolding (code : String) (issuer : Option String) (balance price : ℚ) : AssetHolding where
  assetCode := code
  assetIssuer := issuer
  balance := balance
  currentPriceUsd := price
  valueUsd := balance * price
  change24h := 0
  allocation := 0

def walletHolding (db : Db) (cachedBalance : SqlNumeric 20 7) : Option AssetHolding :=
  if 0 < amountOf cachedBalance then
    some (newHolding "XLM" none (amountOf cachedBalance) (getAssetPrice db "XLM" none))
  else none

/-- The asset comes with the row; without one the code of it cannot be read. -/
def trustlineHolding (db : Db) (tl : TrustLine) : Except HttpError (Option AssetHolding) :=
  if 0 < amountOf tl.balance then
    match lookup (·.id) tl.asset db.assets with
    | none => .error (.internal "Internal server error")
    | some asset =>
      .ok (newHolding asset.code asset.issuer (amountOf tl.balance)
        (getAssetPrice db asset.code asset.issuer))
  else .ok none

/-- What is pushed, in this order. -/
def gather (db : Db) (wallets : List (SqlNumeric 20 7)) (trustlines : List TrustLine) :
    Except HttpError (List AssetHolding) := do
  let lines ← trustlines.mapM (trustlineHolding db)
  return wallets.filterMap (walletHolding db) ++ lines.filterMap id

def holdingKey (h : AssetHolding) : String :=
  match truthy h.assetIssuer with
  | some issuer => h.assetCode ++ ":" ++ issuer
  | none => h.assetCode

def mergeHolding (existing h : AssetHolding) : AssetHolding :=
  { existing with
    balance := existing.balance + h.balance
    valueUsd := existing.valueUsd + h.valueUsd
    currentPriceUsd := h.currentPriceUsd }

def mergeHoldings (holdings : List AssetHolding) : List AssetHolding :=
  (groupFold (fun h => h) mergeHolding holdingKey holdings).map Prod.snd

def totalOf (holdings : List AssetHolding) : ℚ := (holdings.map (·.valueUsd)).sum

/-- `percent` and `allocation`. -/
def percentOf (valueUsd totalValueUsd : ℚ) : ℚ :=
  if 0 < totalValueUsd then valueUsd / totalValueUsd * 100 else 0

def allocate (totalValue : ℚ) (h : AssetHolding) : AssetHolding :=
  { h with allocation := percentOf h.valueUsd totalValue }

def buildHoldings (db : Db) (wallets : List (SqlNumeric 20 7)) (trustlines : List TrustLine) :
    Except HttpError (List AssetHolding) := do
  let holdings ← gather db wallets trustlines
  let merged := mergeHoldings holdings
  return merged.map (allocate (totalOf merged))

structure AssetShare where
  assetCode : String
  valueUsd : ℚ
  percent : ℚ
  deriving DecidableEq, Repr

structure TypeShare where
  type : String
  valueUsd : ℚ
  percent : ℚ
  deriving DecidableEq, Repr

structure AllocationBreakdown where
  byAsset : List AssetShare
  byType : List TypeShare
  deriving DecidableEq, Repr

def buildAllocation (holdings : List AssetHolding) (totalValueUsd : ℚ) : AllocationBreakdown :=
  let byAsset := holdings.map fun h => ⟨h.assetCode, h.valueUsd, percentOf h.valueUsd totalValueUsd⟩
  let native := totalOf (holdings.filter fun h => (truthy h.assetIssuer).isNone)
  let tokenized := totalValueUsd - native
  { byAsset := byAsset.insertionSort fun a b => b.valueUsd ≤ a.valueUsd
    byType :=
      [⟨"Native (XLM)", native, percentOf native totalValueUsd⟩,
        ⟨"Tokenized Assets", tokenized, percentOf tokenized totalValueUsd⟩] }

def Db.trustlinesOf (db : Db) (userId : Uuid) : List TrustLine :=
  db.trustlines.filter fun t => t.user = userId

/-! ## What is gathered -/

theorem getAssetPrice_nonneg (db : Db) (code : String) (issuer : Option String) :
    0 ≤ getAssetPrice db code issuer := by
  unfold getAssetPrice
  split
  · exact le_rfl
  · split <;> split <;> norm_num

/-- A positive balance at the price of its asset. -/
def Priced (db : Db) (h : AssetHolding) : Prop :=
  ∃ code issuer balance, 0 < balance ∧ h = newHolding code issuer balance (getAssetPrice db code issuer)

theorem priced_of_trustline {db : Db} {tl : TrustLine} {h : AssetHolding}
    (hok : trustlineHolding db tl = .ok (some h)) : Priced db h := by
  unfold trustlineHolding at hok
  split at hok
  · rename_i hpos
    split at hok
    · cases hok
    · cases hok
      exact ⟨_, _, _, hpos, rfl⟩
  · cases hok

theorem priced_of_mapM {db : Db} {trustlines : List TrustLine} {lines : List (Option AssetHolding)}
    (hok : trustlines.mapM (trustlineHolding db) = .ok lines) : ∀ h ∈ lines.filterMap id, Priced db h := by
  induction trustlines generalizing lines with
  | nil =>
    cases hok
    intro h hh
    cases hh
  | cons tl trustlines ih =>
    rw [List.mapM_cons] at hok
    obtain ⟨line, hline, hok⟩ := bind_eq_ok.mp hok
    obtain ⟨rest, hrest, hok⟩ := bind_eq_ok.mp hok
    cases hok
    have htail := ih hrest
    cases line with
    | none => exact htail
    | some h => exact List.forall_mem_cons.mpr ⟨priced_of_trustline hline, htail⟩

theorem priced_of_gather {db : Db} {wallets : List (SqlNumeric 20 7)} {trustlines : List TrustLine}
    {gathered : List AssetHolding} (hok : gather db wallets trustlines = .ok gathered) :
    ∀ h ∈ gathered, Priced db h := by
  obtain ⟨lines, hlines, hok⟩ := bind_eq_ok.mp hok
  cases hok
  intro h hh
  rcases List.mem_append.mp hh with hh | hh
  · obtain ⟨cachedBalance, -, hwallet⟩ := List.mem_filterMap.mp hh
    unfold walletHolding at hwallet
    split at hwallet
    · rename_i hpos
      cases hwallet
      exact ⟨_, _, _, hpos, rfl⟩
    · cases hwallet
  · exact priced_of_mapM hlines h hh

theorem Priced.valueUsd_nonneg {db : Db} {h : AssetHolding} (hp : Priced db h) : 0 ≤ h.valueUsd := by
  obtain ⟨code, issuer, balance, hpos, rfl⟩ := hp
  exact mul_nonneg hpos.le (getAssetPrice_nonneg db code issuer)

/-! ## What is merged -/

theorem foldl_mergeHolding (hs : List AssetHolding) (h : AssetHolding) :
    let merged := hs.foldl mergeHolding h
    holdingKey merged = holdingKey h ∧ merged.balance = h.balance + (hs.map (·.balance)).sum ∧
      merged.valueUsd = h.valueUsd + (hs.map (·.valueUsd)).sum := by
  induction hs generalizing h with
  | nil => simp
  | cons h' hs ih =>
    obtain ⟨hkey, hbalance, hvalue⟩ := ih (mergeHolding h h')
    refine ⟨hkey, ?_, ?_⟩
    · rw [List.foldl_cons, hbalance, List.map_cons, List.sum_cons, ← add_assoc]
      rfl
    · rw [List.foldl_cons, hvalue, List.map_cons, List.sum_cons, ← add_assoc]
      rfl

/-- What was gathered of one key. -/
def ofKey (gathered : List AssetHolding) (key : String) : List AssetHolding :=
  gathered.filter fun g => holdingKey g = key

theorem merged_entry {gathered : List AssetHolding} {key : String} {h : AssetHolding}
    (hmem : (key, h) ∈ groupFold (fun h => h) mergeHolding holdingKey gathered) :
    holdingKey h = key ∧ h.balance = ((ofKey gathered key).map (·.balance)).sum ∧
      h.valueUsd = ((ofKey gathered key).map (·.valueUsd)).sum := by
  rw [mem_groupFold] at hmem
  unfold ofKey
  cases hof : gathered.filter fun g => decide (holdingKey g = key) with
  | nil => simp [hof, foldEntry] at hmem
  | cons g gs =>
    rw [hof] at hmem
    cases hmem
    have hg : holdingKey g = key := by
      have : g ∈ gathered.filter fun g => decide (holdingKey g = key) := by simp [hof]
      simpa using (List.mem_filter.mp this).2
    obtain ⟨hkey, hbalance, hvalue⟩ := foldl_mergeHolding gs g
    exact ⟨hkey.trans hg, by simpa using hbalance, by simpa using hvalue⟩

theorem holdingKey_mergeHoldings (gathered : List AssetHolding) :
    (mergeHoldings gathered).map holdingKey =
      (groupFold (fun h => h) mergeHolding holdingKey gathered).map Prod.fst := by
  rw [mergeHoldings, List.map_map]
  exact List.map_congr_left fun e he => (@merged_entry gathered e.1 e.2 he).1

theorem totalOf_mergeHoldings (gathered : List AssetHolding) :
    totalOf (mergeHoldings gathered) = totalOf gathered := by
  rw [totalOf, mergeHoldings, List.map_map]
  exact sum_groupFold (w := AssetHolding.valueUsd) (fun _ => rfl) (fun _ _ => rfl) gathered

/-! ## The parts -/

theorem percentOf_nonneg {x total : ℚ} (hx : 0 ≤ x) : 0 ≤ percentOf x total := by
  unfold percentOf
  split
  · positivity
  · exact le_rfl

theorem percentOf_le {x total : ℚ} (hx : x ≤ total) : percentOf x total ≤ 100 := by
  unfold percentOf
  split
  · rename_i hpos
    have : x / total ≤ 1 := (div_le_one hpos).mpr hx
    linarith
  · norm_num

theorem sum_percentOf {total : ℚ} (hpos : 0 < total) (hs : List AssetHolding) (hsum : totalOf hs = total) :
    (hs.map fun h => percentOf h.valueUsd total).sum = 100 := by
  have hsplit : ∀ hs : List AssetHolding, (hs.map fun h => percentOf h.valueUsd total).sum =
      totalOf hs / total * 100 := by
    intro hs
    induction hs with
    | nil => simp [totalOf]
    | cons h hs ih =>
      rw [totalOf, List.map_cons, List.sum_cons, ih, percentOf, if_pos hpos, List.map_cons, List.sum_cons, totalOf]
      ring
  rw [hsplit, hsum, div_self hpos.ne', one_mul]

/-- Holdings that are what was gathered, by asset. -/
structure Allocated (gathered holdings : List AssetHolding) : Prop where
  once : (holdings.map holdingKey).Nodup
  covered : ∀ g ∈ gathered, holdingKey g ∈ holdings.map holdingKey
  balances : ∀ h ∈ holdings, h.balance = ((ofKey gathered (holdingKey h)).map (·.balance)).sum
  values : ∀ h ∈ holdings, h.valueUsd = ((ofKey gathered (holdingKey h)).map (·.valueUsd)).sum
  total : totalOf holdings = totalOf gathered
  part : ∀ h ∈ holdings, 0 ≤ h.allocation ∧ h.allocation ≤ 100
  whole : 0 < totalOf gathered → (holdings.map (·.allocation)).sum = 100

theorem allocated_of_priced {db : Db} {gathered : List AssetHolding} (hp : ∀ h ∈ gathered, Priced db h) :
    Allocated gathered ((mergeHoldings gathered).map (allocate (totalOf (mergeHoldings gathered)))) := by
  have hkeys : ((mergeHoldings gathered).map (allocate (totalOf (mergeHoldings gathered)))).map holdingKey =
      (groupFold (fun h => h) mergeHolding holdingKey gathered).map Prod.fst := by
    rw [← holdingKey_mergeHoldings, List.map_map]
    rfl
  have hvalues : totalOf ((mergeHoldings gathered).map (allocate (totalOf (mergeHoldings gathered)))) =
      totalOf gathered := by
    have htotal := totalOf_mergeHoldings gathered
    rw [totalOf, List.map_map]
    exact htotal
  have hentry : ∀ h ∈ mergeHoldings gathered,
      h.balance = ((ofKey gathered (holdingKey h)).map (·.balance)).sum ∧
        h.valueUsd = ((ofKey gathered (holdingKey h)).map (·.valueUsd)).sum := by
    intro h hh
    obtain ⟨e, he, rfl⟩ := List.mem_map.mp hh
    obtain ⟨hkey, hboth⟩ := @merged_entry gathered e.1 e.2 he
    rw [hkey]
    exact hboth
  have hnonneg : ∀ h ∈ mergeHoldings gathered, 0 ≤ h.valueUsd := by
    intro h hh
    rw [(hentry h hh).2]
    refine List.sum_nonneg fun v hv => ?_
    obtain ⟨g, hg, rfl⟩ := List.mem_map.mp hv
    exact (hp g (List.mem_of_mem_filter hg)).valueUsd_nonneg
  have hle : ∀ h ∈ mergeHoldings gathered, h.valueUsd ≤ totalOf (mergeHoldings gathered) := by
    intro h hh
    refine List.single_le_sum (fun v hv => ?_) _ (List.mem_map_of_mem hh)
    obtain ⟨h', hh', rfl⟩ := List.mem_map.mp hv
    exact hnonneg h' hh'
  refine ⟨?_, fun g hg => ?_, fun h hh => ?_, fun h hh => ?_, hvalues, fun h hh => ?_, fun hpos => ?_⟩
  · rw [hkeys]
    exact nodup_groupFold gathered
  · rw [hkeys]
    exact mem_keys_groupFold.mpr ⟨g, hg, rfl⟩
  · obtain ⟨h', hh', rfl⟩ := List.mem_map.mp hh
    exact (hentry h' hh').1
  · obtain ⟨h', hh', rfl⟩ := List.mem_map.mp hh
    exact (hentry h' hh').2
  · obtain ⟨h', hh', rfl⟩ := List.mem_map.mp hh
    exact ⟨percentOf_nonneg (hnonneg h' hh'), percentOf_le (hle h' hh')⟩
  · rw [← totalOf_mergeHoldings] at hpos
    rw [List.map_map]
    exact sum_percentOf hpos _ rfl

theorem buildHoldings_allocated {db : Db} {wallets : List (SqlNumeric 20 7)} {trustlines : List TrustLine}
    {gathered : List AssetHolding} (hok : gather db wallets trustlines = .ok gathered) :
    ∃ holdings, buildHoldings db wallets trustlines = .ok holdings ∧ Allocated gathered holdings := by
  refine ⟨_, ?_, allocated_of_priced (priced_of_gather hok)⟩
  rw [buildHoldings, hok]
  rfl

/-- Two wallets and a trust line, which no price makes worth anything. -/
def lumensAndDollars : Db where
  assets := [⟨1, "XLM", none, true, zero⟩, ⟨2, "USDC", some "GA5Z", false, zero⟩]
  trustlines := [⟨3, 9, 2, ⟨50000000, by decide⟩, zero⟩]
  nextId := 4

theorem buildHoldings_allocated_three :
    ∃ holdings,
      buildHoldings lumensAndDollars [⟨20000000, by decide⟩, ⟨0, by decide⟩, ⟨30000000, by decide⟩]
        lumensAndDollars.trustlines = .ok holdings ∧
      Allocated [newHolding "XLM" none 2 (12 / 100), newHolding "XLM" none 3 (12 / 100),
        newHolding "USDC" (some "GA5Z") 5 0] holdings :=
  buildHoldings_allocated (by decide +kernel)

theorem byAsset_sorted (holdings : List AssetHolding) (totalValueUsd : ℚ) :
    ((buildAllocation holdings totalValueUsd).byAsset).Pairwise fun a b => b.valueUsd ≤ a.valueUsd := by
  have : Std.Total fun a b : AssetShare => b.valueUsd ≤ a.valueUsd :=
    ⟨fun a b => le_total b.valueUsd a.valueUsd⟩
  have : IsTrans AssetShare fun a b => b.valueUsd ≤ a.valueUsd := ⟨fun _ _ _ hab hbc => hbc.trans hab⟩
  exact List.pairwise_insertionSort _ _

/-! ## After every run -/

theorem trustlineHolding_unfunded {db : Db} {tl : TrustLine} (h : tl.balance = zero) :
    trustlineHolding db tl = .ok none := by
  have hzero : ¬ 0 < amountOf tl.balance := by simp [h, zero, amountOf]
  rw [trustlineHolding, if_neg hzero]

theorem mapM_unfunded {db : Db} {trustlines : List TrustLine} (h : ∀ tl ∈ trustlines, tl.balance = zero) :
    trustlines.mapM (trustlineHolding db) = .ok (trustlines.map fun _ => none) := by
  induction trustlines with
  | nil => rfl
  | cons tl trustlines ih =>
    rw [List.mapM_cons, trustlineHolding_unfunded (h tl (.head _)), ih fun t ht => h t (.tail _ ht)]
    rfl

def lumens (balances : List ℚ) (price : ℚ) : List AssetHolding := balances.map fun b => newHolding "XLM" none b price

theorem filterMap_walletHolding (db : Db) (wallets : List (SqlNumeric 20 7)) :
    wallets.filterMap (walletHolding db) =
      lumens ((wallets.map amountOf).filter fun b => 0 < b) (getAssetPrice db "XLM" none) := by
  induction wallets with
  | nil => rfl
  | cons w wallets ih =>
    rw [List.filterMap_cons, walletHolding, ih, List.map_cons, List.filter_cons]
    by_cases h : 0 < amountOf w <;> simp [h, lumens]

theorem foldl_lumens (price b : ℚ) (balances : List ℚ) :
    (lumens balances price).foldl mergeHolding (newHolding "XLM" none b price) =
      newHolding "XLM" none (b + balances.sum) price := by
  induction balances generalizing b with
  | nil => simp [lumens]
  | cons b' balances ih =>
    have hmerge : mergeHolding (newHolding "XLM" none b price) (newHolding "XLM" none b' price) =
        newHolding "XLM" none (b + b') price := by
      simp [mergeHolding, newHolding, add_mul]
    rw [lumens, List.map_cons, List.foldl_cons, hmerge, List.sum_cons, ← add_assoc]
    exact ih (b + b')

theorem mergeHoldings_lumens (balances : List ℚ) (price : ℚ) :
    mergeHoldings (lumens balances price) =
      if balances = [] then [] else [newHolding "XLM" none balances.sum price] := by
  have hkey : ∀ h ∈ lumens balances price, holdingKey h = "XLM" := by
    intro h hh
    obtain ⟨b, -, rfl⟩ := List.mem_map.mp hh
    rfl
  rw [mergeHoldings, groupFold_of_key hkey]
  cases balances with
  | nil => rfl
  | cons b balances =>
    have hfold := foldl_lumens price b balances
    simp only [lumens] at hfold
    simp [lumens, foldEntry, hfold]

/-- What a dashboard lists when there are lumens only. -/
def onlyLumens (balances : List ℚ) (price : ℚ) : List AssetHolding :=
  if balances = [] then []
  else [{ newHolding "XLM" none balances.sum price with allocation := if 0 < price then 100 else 0 }]

theorem sum_pos_of_pos {balances : List ℚ} (hne : balances ≠ []) (hpos : ∀ b ∈ balances, 0 < b) :
    0 < balances.sum := by
  cases balances with
  | nil => exact absurd rfl hne
  | cons b balances =>
    have hrest : 0 ≤ balances.sum := List.sum_nonneg fun x hx => (hpos x (.tail _ hx)).le
    have hb := hpos b (.head _)
    rw [List.sum_cons]
    linarith

theorem map_allocate_lumens {balances : List ℚ} (hpos : ∀ b ∈ balances, 0 < b) (price : ℚ) :
    let merged := mergeHoldings (lumens balances price)
    merged.map (allocate (totalOf merged)) = onlyLumens balances price := by
  intro merged
  have hmerged : merged = _ := mergeHoldings_lumens balances price
  rw [hmerged, onlyLumens]
  by_cases hne : balances = []
  · rw [if_pos hne, if_pos hne]
    rfl
  · rw [if_neg hne, if_neg hne]
    have hsum := sum_pos_of_pos hne hpos
    have htotal : totalOf [newHolding "XLM" none balances.sum price] = balances.sum * price := by
      simp [totalOf, newHolding]
    have hpercent : percentOf (balances.sum * price) (balances.sum * price) = if 0 < price then 100 else 0 := by
      unfold percentOf
      by_cases hprice : 0 < price
      · have hvalue : 0 < balances.sum * price := mul_pos hsum hprice
        rw [if_pos hvalue, if_pos hprice, div_self hvalue.ne', one_mul]
      · have hvalue : ¬ 0 < balances.sum * price := fun h => hprice ((mul_pos_iff_of_pos_left hsum).mp h)
        rw [if_neg hvalue, if_neg hprice]
    rw [htotal, List.map_cons, List.map_nil, allocate, ← hpercent]
    rfl

theorem getAssetPrice_of_sound {db : Db} (h : Sound db) (code : String) :
    getAssetPrice db code none = if (code, none) ∈ db.indexed then 12 / 100 else 0 := by
  unfold getAssetPrice
  split
  · rename_i hnone
    have hout : (code, none) ∉ db.indexed := assetOf_none hnone
    rw [if_neg hout]
  · rename_i asset hsome
    obtain ⟨hmem, hcode, hissuer⟩ := assetOf_some hsome
    have hnone : asset.issuer = none := hissuer
    have hnative : asset.isNative = true := by rw [h.native asset hmem, hnone]; rfl
    have hin : (code, none) ∈ db.indexed := List.mem_map.mpr ⟨asset, hmem, by rw [hcode, hnone]⟩
    simp [hnative, hin]

theorem byType_onlyLumens (balances : List ℚ) (price : ℚ) :
    (buildAllocation (onlyLumens balances price) (totalOf (onlyLumens balances price))).byType.map
      TypeShare.valueUsd = [totalOf (onlyLumens balances price), 0] := by
  have hnative : ((onlyLumens balances price).filter fun h => (truthy h.assetIssuer).isNone) =
      onlyLumens balances price := by
    unfold onlyLumens
    split
    · rfl
    · simp [newHolding, truthy]
  simp [buildAllocation, hnative]

/-- A dashboard lists the lumens of the wallets, in one holding, and no other asset; they have a price once
lumens have been indexed. -/
theorem holdings_run (ops : List AssetOp) (wallets : List (SqlNumeric 20 7)) (userId : Uuid) :
    let db := run step Db.empty ops
    let holdings := onlyLumens ((wallets.map amountOf).filter fun b => 0 < b)
      (if ∃ op ∈ ops, op.indexed = some ("XLM", none) then 12 / 100 else 0)
    buildHoldings db wallets (db.trustlinesOf userId) = .ok holdings ∧
      (buildAllocation holdings (totalOf holdings)).byType.map TypeShare.valueUsd = [totalOf holdings, 0] := by
  intro db holdings
  refine ⟨?_, byType_onlyLumens _ _⟩
  have hsound : Sound db := Sound.run ops
  have hprice : getAssetPrice db "XLM" none =
      if ∃ op ∈ ops, op.indexed = some ("XLM", none) then 12 / 100 else 0 := by
    rw [getAssetPrice_of_sound hsound]
    refine if_congr ?_ rfl rfl
    rw [mem_indexed_run Sound.empty ops]
    simp [Db.indexed, Db.empty]
  have hunfunded : ∀ tl ∈ db.trustlinesOf userId, tl.balance = zero :=
    fun tl htl => hsound.unfunded tl (List.mem_of_mem_filter htl)
  have hgather : gather db wallets (db.trustlinesOf userId) =
      .ok (lumens ((wallets.map amountOf).filter fun b => 0 < b) (getAssetPrice db "XLM" none)) := by
    rw [gather, mapM_unfunded hunfunded, filterMap_walletHolding]
    simp [bind, Except.bind, pure, Except.pure]
  have hpositive : ∀ b ∈ (wallets.map amountOf).filter fun b => 0 < b, 0 < b := fun b hb => by
    simpa using (List.mem_filter.mp hb).2
  have hholdings : holdings = onlyLumens ((wallets.map amountOf).filter fun b => 0 < b)
      (getAssetPrice db "XLM" none) := by
    rw [hprice]
  rw [buildHoldings, hgather, hholdings, ← map_allocate_lumens hpositive]
  rfl

end Portfolio
end TradeCore
