import TradeCore.Lib.DecimalText
import TradeCore.Lib.KeyedFold
import TradeCore.Lib.Run
import TradeCore.Lib.Table
import TradeCore.Lib.Weights
import TradeCore.Risk.Liquidation

/-!
# TradeCore.Risk.Concentration

`PositionMonitorService`: the open positions, and how concentrated the portfolio is. Quantities and prices
are exact.

* `concentration_run`: after every run of updates with prices that are not negative, the index lies
  between the square of the greatest share and the greatest share, and there is a breach exactly when a
  share is over its limit.
* A level of `high` therefore never stands without a breach at the limit of a half, or a lower one.
-/

namespace TradeCore
namespace Risk
namespace PositionMonitorService

open Lib

structure RiskThresholds where
  maxAssetShare : Option ℚ
  maxCounterpartyShare : Option ℚ
  deriving DecidableEq, Repr

inductive ConcentrationLevel where
  | low | medium | high
  deriving DecidableEq, Repr

structure ConcentrationRisk where
  level : ConcentrationLevel
  topAssetShare : ℚ
  herfindahlIndex : ℚ
  breaches : List String
  deriving DecidableEq, Repr

def positionValue (position : Position) : ℚ := |position.quantity| * position.currentPrice

def portfolioValue (positions : List Position) : ℚ :=
  positions.foldl (fun sum position => sum + positionValue position) 0

/-- `(x * 100).toFixed(1)`. -/
def percent (x : ℚ) : String :=
  String.ofList (signedText 1 (if x < 0 then -⌊-x * 1000 + 1 / 2⌋ else ⌊x * 1000 + 1 / 2⌋))

def byAsset (positions : List Position) : List (String × ℚ) := sumsByKey Position.asset positionValue positions

/-- The positions with a counterparty; an empty text is as good as none. -/
def byCounterparty (positions : List Position) : List (String × ℚ) :=
  sumsByKey (fun position => position.counterparty.getD "") positionValue
    (positions.filter fun position => position.counterparty.getD "" ≠ "")

def concentration (thresholds : RiskThresholds) (positions : List Position) : ConcentrationRisk :=
  let total := portfolioValue positions
  if total ≤ 0 ∨ positions = [] then ⟨.low, 0, 0, []⟩
  else
    let shares := (byAsset positions).map fun e => e.2 / total
    let topAssetShare := greatest shares
    let herfindahlIndex := squares shares
    let maxAssetShare := thresholds.maxAssetShare.getD (5 / 10)
    let maxCounterpartyShare := thresholds.maxCounterpartyShare.getD (6 / 10)
    let assetBreach :=
      if maxAssetShare < topAssetShare then
        ["Largest asset exposure " ++ percent topAssetShare ++ "% exceeds the " ++ percent maxAssetShare ++
          "% limit"]
      else []
    let counterpartyBreaches := ((byCounterparty positions).filter fun e => maxCounterpartyShare < e.2 / total).map
      fun e => "Counterparty " ++ e.1 ++ " holds " ++ percent (e.2 / total) ++ "% of the portfolio, above the " ++
        percent maxCounterpartyShare ++ "% limit"
    let level : ConcentrationLevel :=
      if 7 / 10 < topAssetShare ∨ 5 / 10 < herfindahlIndex then .high
      else if maxAssetShare < topAssetShare ∨ 3 / 10 < herfindahlIndex then .medium
      else .low
    ⟨level, topAssetShare, herfindahlIndex, assetBreach ++ counterpartyBreaches⟩

inductive MonitorOp where
  | upsertPosition (position : Position)
  | removePosition (positionId : String)
  | updatePrice (positionId : String) (price : ℚ)

/-- The map of the positions, by id. -/
def step (positions : List Position) : MonitorOp → List Position
  | .upsertPosition position => upsert Position.id position positions
  | .removePosition positionId => positions.filter fun position => position.id ≠ positionId
  | .updatePrice positionId price =>
    match lookup Position.id positionId positions with
    | none => positions
    | some position => upsert Position.id { position with currentPrice := price } positions

/-- No price is negative. -/
def MonitorOp.Priced : MonitorOp → Prop
  | .upsertPosition position => 0 ≤ position.currentPrice
  | .removePosition _ => True
  | .updatePrice _ price => 0 ≤ price

instance : (op : MonitorOp) → Decidable op.Priced
  | .upsertPosition position => inferInstanceAs (Decidable (0 ≤ position.currentPrice))
  | .removePosition _ => inferInstanceAs (Decidable True)
  | .updatePrice _ price => inferInstanceAs (Decidable (0 ≤ price))

/-! ## The shares -/

def assetShare (positions : List Position) (asset : String) : ℚ :=
  ((positions.filter fun position => position.asset = asset).map positionValue).sum / portfolioValue positions

def counterpartyShare (positions : List Position) (counterparty : String) : ℚ :=
  ((positions.filter fun position => position.counterparty = some counterparty).map positionValue).sum /
    portfolioValue positions

/-- What the numbers and the breaches say about the portfolio. -/
structure Measured (thresholds : RiskThresholds) (positions : List Position) (r : ConcentrationRisk) :
    Prop where
  top : ∀ asset, assetShare positions asset ≤ r.topAssetShare
  attained : 0 < portfolioValue positions → ∃ asset, assetShare positions asset = r.topAssetShare
  bounded : r.topAssetShare ≤ 1
  square_le_index : r.topAssetShare * r.topAssetShare ≤ r.herfindahlIndex
  index_le : r.herfindahlIndex ≤ r.topAssetShare
  breaches : 0 < portfolioValue positions → (r.breaches = [] ↔
    (∀ asset, (∃ p ∈ positions, p.asset = asset) → assetShare positions asset ≤ thresholds.maxAssetShare.getD (5 / 10)) ∧
      ∀ counterparty ≠ "", (∃ p ∈ positions, p.counterparty = some counterparty) →
        counterpartyShare positions counterparty ≤ thresholds.maxCounterpartyShare.getD (6 / 10))
  high : r.level = .high → thresholds.maxAssetShare.getD (5 / 10) ≤ 5 / 10 → r.breaches ≠ []

theorem portfolioValue_eq (positions : List Position) :
    portfolioValue positions = (positions.map positionValue).sum := by
  have hfold : ∀ sum : ℚ, positions.foldl (fun sum position => sum + positionValue position) sum =
      sum + (positions.map positionValue).sum := by
    induction positions with
    | nil => simp
    | cons position positions ih =>
      intro sum
      rw [List.foldl_cons, ih, List.map_cons, List.sum_cons, add_assoc]
  rw [portfolioValue, hfold, zero_add]

section Shares

variable {positions : List Position} (hprices : ∀ p ∈ positions, 0 ≤ p.currentPrice)

include hprices

theorem positionValue_nonneg {p : Position} (hp : p ∈ positions) : 0 ≤ positionValue p :=
  mul_nonneg (abs_nonneg _) (hprices p hp)

theorem sum_values_nonneg (q : Position → Bool) : 0 ≤ ((positions.filter q).map positionValue).sum := by
  refine List.sum_nonneg fun v hv => ?_
  obtain ⟨p, hp, rfl⟩ := List.mem_map.mp hv
  exact positionValue_nonneg hprices (List.mem_of_mem_filter hp)

theorem portfolioValue_nonneg : 0 ≤ portfolioValue positions := by
  have := sum_values_nonneg hprices fun _ => true
  rwa [List.filter_true, ← portfolioValue_eq] at this

theorem shares_nonneg : ∀ s ∈ (byAsset positions).map (fun e => e.2 / portfolioValue positions), 0 ≤ s := by
  intro s hs
  obtain ⟨⟨asset, value⟩, he, rfl⟩ := List.mem_map.mp hs
  obtain ⟨-, rfl⟩ := mem_sumsByKey.mp he
  exact div_nonneg (sum_values_nonneg hprices _) (portfolioValue_nonneg hprices)

end Shares

theorem mem_shares {positions : List Position} {s : ℚ} :
    s ∈ (byAsset positions).map (fun e => e.2 / portfolioValue positions) ↔
      ∃ asset, (∃ p ∈ positions, p.asset = asset) ∧ assetShare positions asset = s := by
  constructor
  · intro hs
    obtain ⟨⟨asset, value⟩, he, rfl⟩ := List.mem_map.mp hs
    obtain ⟨hex, rfl⟩ := mem_sumsByKey.mp he
    exact ⟨asset, hex, rfl⟩
  · rintro ⟨asset, hex, rfl⟩
    exact List.mem_map.mpr ⟨(asset, _), mem_sumsByKey.mpr ⟨hex, rfl⟩, rfl⟩

theorem sum_shares {positions : List Position} (htotal : 0 < portfolioValue positions) :
    ((byAsset positions).map fun e => e.2 / portfolioValue positions).sum = 1 := by
  have hdiv : ((byAsset positions).map fun e => e.2 / portfolioValue positions) =
      ((byAsset positions).map Prod.snd).map fun v => v * (portfolioValue positions)⁻¹ := by
    rw [List.map_map]
    rfl
  rw [hdiv, List.sum_map_mul_right, List.map_id', byAsset, sum_sumsByKey, ← portfolioValue_eq]
  exact mul_inv_cancel₀ htotal.ne'

theorem mem_byCounterparty {positions : List Position} {counterparty : String} {value : ℚ} :
    (counterparty, value) ∈ byCounterparty positions ↔ counterparty ≠ "" ∧
      (∃ p ∈ positions, p.counterparty = some counterparty) ∧
      value = ((positions.filter fun p => p.counterparty = some counterparty).map positionValue).sum := by
  have hiff : counterparty ≠ "" → ∀ c : Option String,
      (c.getD "" = counterparty ∧ c.getD "" ≠ "") ↔ c = some counterparty := by
    intro hne c
    cases c with
    | none => simp
    | some c => exact ⟨fun h => congrArg some h.1, fun h => by cases h; exact ⟨rfl, hne⟩⟩
  rw [byCounterparty, mem_sumsByKey, List.filter_filter]
  constructor
  · rintro ⟨⟨p, hp, hkey⟩, rfl⟩
    rw [List.mem_filter, decide_eq_true_eq] at hp
    have hne : counterparty ≠ "" := hkey ▸ hp.2
    refine ⟨hne, ⟨p, hp.1, (hiff hne _).mp ⟨hkey, hp.2⟩⟩, ?_⟩
    simp only [← Bool.decide_and, hiff hne]
  · rintro ⟨hne, ⟨p, hp, hcounterparty⟩, rfl⟩
    obtain ⟨hkey, hp'⟩ := (hiff hne _).mpr hcounterparty
    refine ⟨⟨p, List.mem_filter.mpr ⟨hp, decide_eq_true hp'⟩, hkey⟩, ?_⟩
    simp only [← Bool.decide_and, hiff hne]

theorem counterparties_within {positions : List Position} {limit : ℚ} :
    ((byCounterparty positions).filter fun e => limit < e.2 / portfolioValue positions) = [] ↔
      ∀ counterparty ≠ "", (∃ p ∈ positions, p.counterparty = some counterparty) →
        counterpartyShare positions counterparty ≤ limit := by
  rw [List.filter_eq_nil_iff]
  constructor
  · intro h counterparty hne hcounterparty
    have := h (counterparty, _) (mem_byCounterparty.mpr ⟨hne, hcounterparty, rfl⟩)
    simpa [counterpartyShare] using this
  · rintro h ⟨counterparty, value⟩ he
    obtain ⟨hne, hcounterparty, rfl⟩ := mem_byCounterparty.mp he
    simpa [counterpartyShare] using h counterparty hne hcounterparty

theorem assets_within {positions : List Position} {shares : List ℚ} {limit : ℚ}
    (hmem : ∀ {s}, s ∈ shares ↔ ∃ asset, (∃ p ∈ positions, p.asset = asset) ∧ assetShare positions asset = s)
    (hgreatest : greatest shares ∈ shares) :
    greatest shares ≤ limit ↔
      ∀ asset, (∃ p ∈ positions, p.asset = asset) → assetShare positions asset ≤ limit := by
  constructor
  · intro hle asset hasset
    exact (le_greatest (hmem.mpr ⟨asset, hasset, rfl⟩)).trans hle
  · intro h
    obtain ⟨asset, hasset, hshare⟩ := hmem.mp hgreatest
    exact hshare ▸ h asset hasset

theorem concentration_measured (thresholds : RiskThresholds) {positions : List Position}
    (hprices : ∀ p ∈ positions, 0 ≤ p.currentPrice) :
    Measured thresholds positions (concentration thresholds positions) := by
  by_cases htotal : 0 < portfolioValue positions
  · have hne : positions ≠ [] := by
      rintro rfl
      simp [portfolioValue] at htotal
    have hguard : ¬ (portfolioValue positions ≤ 0 ∨ positions = []) := by
      simp only [not_or, not_le]
      exact ⟨htotal, hne⟩
    simp only [concentration, if_neg hguard]
    generalize hshares : (byAsset positions).map (fun e => e.2 / portfolioValue positions) = shares
    have hnonneg : ∀ s ∈ shares, 0 ≤ s := hshares ▸ shares_nonneg hprices
    have hsum : shares.sum = 1 := hshares ▸ sum_shares htotal
    have hmem : ∀ {s}, s ∈ shares ↔ ∃ asset, (∃ p ∈ positions, p.asset = asset) ∧ assetShare positions asset = s :=
      fun {s} => hshares ▸ mem_shares
    have hsome : shares ≠ [] := by
      rintro rfl
      simp at hsum
    have hgreatest := greatest_mem hnonneg hsome
    have hindex : squares shares ≤ greatest shares := by
      have := squares_le hnonneg
      rwa [hsum, mul_one] at this
    constructor
    case top =>
      intro asset
      by_cases hasset : ∃ p ∈ positions, p.asset = asset
      · exact le_greatest (hmem.mpr ⟨asset, hasset, rfl⟩)
      · have hnil : positions.filter (fun p => p.asset = asset) = [] := by
          simpa [List.filter_eq_nil_iff] using hasset
        rw [assetShare, hnil, List.map_nil, List.sum_nil, zero_div]
        exact greatest_nonneg shares
    case attained =>
      intro _
      obtain ⟨asset, -, hasset⟩ := hmem.mp hgreatest
      exact ⟨asset, hasset⟩
    case bounded => exact hsum ▸ le_sum_of_mem hnonneg hgreatest
    case square_le_index => exact sq_greatest_le_squares hnonneg
    case index_le => exact hindex
    case breaches =>
      intro _
      rw [List.append_eq_nil_iff]
      refine and_congr ?_ ?_
      · rw [ite_eq_right_iff, ← assets_within hmem hgreatest]
        simp
      · rw [List.map_eq_nil_iff, counterparties_within]
    case high =>
      intro hhigh hmax
      have htop : 5 / 10 < greatest shares := by
        by_contra hnot
        have hseven : ¬ 7 / 10 < greatest shares := by linarith
        have hfive : ¬ 5 / 10 < squares shares := by linarith
        rw [if_neg (by simp only [not_or]; exact ⟨hseven, hfive⟩)] at hhigh
        split at hhigh <;> cases hhigh
      have hlt : thresholds.maxAssetShare.getD (5 / 10) < greatest shares := by linarith
      simp [hlt]
  · have hzero : portfolioValue positions = 0 := le_antisymm (not_lt.mp htotal) (portfolioValue_nonneg hprices)
    have hguard : portfolioValue positions ≤ 0 ∨ positions = [] := .inl hzero.le
    simp only [concentration, if_pos hguard]
    refine ⟨fun asset => ?_, fun h => absurd h htotal, by norm_num, by norm_num, le_refl _,
      fun h => absurd h htotal, fun h => by cases h⟩
    rw [assetShare, hzero, div_zero]

theorem prices_step {positions : List Position} (h : ∀ p ∈ positions, 0 ≤ p.currentPrice) {op : MonitorOp}
    (hop : op.Priced) : ∀ p ∈ step positions op, 0 ≤ p.currentPrice := by
  intro p hp
  cases op with
  | upsertPosition position =>
    rcases mem_upsert hp with rfl | hp
    · exact hop
    · exact h p hp
  | removePosition positionId => exact h p (List.mem_of_mem_filter hp)
  | updatePrice positionId price =>
    simp only [step] at hp
    split at hp
    · exact h p hp
    · rcases mem_upsert hp with rfl | hp
      · exact hop
      · exact h p hp

/-- After every run. -/
theorem concentration_run (thresholds : RiskThresholds) {ops : List MonitorOp}
    (h : Along step (fun _ op => op.Priced) [] ops) :
    Measured thresholds (run step [] ops) (concentration thresholds (run step [] ops)) :=
  concentration_measured thresholds
    (run_inv (I := fun positions => ∀ p ∈ positions, 0 ≤ p.currentPrice)
      (fun _ _ hI hop => prices_step hI hop) (fun _ hp => by cases hp) h)

/-- Two assets and a price that goes up. -/
theorem concentration_run_rising :
    Measured ⟨none, none⟩
      (run step [] [.upsertPosition ⟨"a", "XLM", none, 2, 1, 1, none, none, none, false⟩,
        .upsertPosition ⟨"b", "USDC", none, 1, 1, 1, none, none, some "maker", false⟩, .updatePrice "a" 3])
      (concentration ⟨none, none⟩
        (run step [] [.upsertPosition ⟨"a", "XLM", none, 2, 1, 1, none, none, none, false⟩,
          .upsertPosition ⟨"b", "USDC", none, 1, 1, 1, none, none, some "maker", false⟩, .updatePrice "a" 3])) :=
  concentration_run ⟨none, none⟩ (by decide +kernel)

end PositionMonitorService
end Risk
end TradeCore
