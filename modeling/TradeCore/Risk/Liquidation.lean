import Mathlib.Tactic.NormNum
import Mathlib.Tactic.Linarith
import Mathlib.Tactic.FieldSimp
import Mathlib.Algebra.Order.Field.Rat

/-!
# TradeCore.Risk.Liquidation

`LiquidationRiskService.assess` and `StressTestingService.run` over one portfolio. Both compute the price
at which a position is liquidated. The stress test compares it with the current price from the side of the
position; the distance of `assess` is the one of a long for a short as well
(`distance_nonpos_iff`). `assess_agrees_iff` says which positions the two services tell the same of.
-/

namespace TradeCore
namespace Risk

structure Position where
  id : String
  asset : String
  poolId : Option String
  quantity : ℚ
  entryPrice : ℚ
  currentPrice : ℚ
  liquidationThreshold : Option ℚ
  leverage : Option ℚ
  counterparty : Option String
  isLiquidityProvider : Bool
  deriving DecidableEq, Repr

structure LiquidationRisk where
  positionId : String
  currentPrice : ℚ
  liquidationPrice : ℚ
  distanceToLiquidation : ℚ
  atRisk : Bool
  cascadeDepth : ℕ
  deriving DecidableEq, Repr

structure StressScenario where
  id : String
  name : String
  priceShock : ℚ
  liquidityShock : Option ℚ
  counterpartyShock : Option String
  description : Option String
  deriving DecidableEq, Repr

structure StressResult where
  scenarioId : String
  portfolioValueBefore : ℚ
  portfolioValueAfter : ℚ
  loss : ℚ
  lossPercent : ℚ
  marginCalls : List String
  breaches : List String
  deriving DecidableEq, Repr

namespace LiquidationRiskService

def liquidationPrice (position : Position) : Option ℚ :=
  let leverage := position.leverage.getD 1
  if leverage ≤ 1 then none
  else
    let margin := position.liquidationThreshold.getD (5 / 100)
    let isShort := position.quantity < 0
    let price :=
      if isShort then position.entryPrice * (1 + 1 / leverage - margin)
      else position.entryPrice * (1 - 1 / leverage + margin)
    some (max 0 price)

def assess (position : Position) : LiquidationRisk :=
  let current := position.currentPrice
  match liquidationPrice position with
  | none =>
    { positionId := position.id
      currentPrice := current
      liquidationPrice := current
      distanceToLiquidation := 100
      atRisk := false
      cascadeDepth := 0 }
  | some liquidation =>
    let distanceToLiquidation := if current = 0 then 100 else (current - liquidation) / current * 100
    { positionId := position.id
      currentPrice := current
      liquidationPrice := liquidation
      distanceToLiquidation := distanceToLiquidation
      atRisk := distanceToLiquidation ≤ 10
      cascadeDepth := 0 }

def assessAll (positions : List Position) : List LiquidationRisk := positions.map assess

end LiquidationRiskService

namespace StressTestingService

def totalValue (positions : List Position) : ℚ :=
  positions.foldl (fun sum position => sum + |position.quantity| * position.currentPrice) 0

def wouldBeLiquidated (position : Position) (shockedPrice : ℚ) : Bool :=
  let leverage := position.leverage.getD 1
  if leverage ≤ 1 then false
  else
    let margin := position.liquidationThreshold.getD (5 / 100)
    let isShort := position.quantity < 0
    let liquidation :=
      if isShort then position.entryPrice * (1 + 1 / leverage - margin)
      else position.entryPrice * (1 - 1 / leverage + margin)
    if isShort then liquidation ≤ shockedPrice else shockedPrice ≤ liquidation

/-- What the loop of `run` has gathered. -/
structure Totals where
  after : ℚ
  marginCalls : List String
  breaches : List String
  deriving DecidableEq, Repr

def shock (scenario : StressScenario) (t : Totals) (position : Position) : Totals :=
  let shockedPrice := position.currentPrice * (1 + scenario.priceShock)
  let value := |position.quantity| * shockedPrice
  let value :=
    match position.isLiquidityProvider, scenario.liquidityShock with
    | true, some liquidityShock => value * max 0 (1 + liquidityShock)
    | _, _ => value
  let defaulted : Bool := scenario.counterpartyShock.isSome ∧ position.counterparty = scenario.counterpartyShock
  { after := t.after + (if defaulted then 0 else value)
    marginCalls :=
      if wouldBeLiquidated position shockedPrice then t.marginCalls ++ [position.id] else t.marginCalls
    breaches :=
      if defaulted then
        t.breaches ++ ["Counterparty " ++ scenario.counterpartyShock.getD "" ++ " defaulted; position " ++
          position.id ++ " written down to zero"]
      else t.breaches }

def run (positions : List Position) (scenario : StressScenario) : StressResult :=
  let before := totalValue positions
  let t := positions.foldl (shock scenario) ⟨0, [], []⟩
  let loss := before - t.after
  { scenarioId := scenario.id
    portfolioValueBefore := before
    portfolioValueAfter := t.after
    loss := loss
    lossPercent := if before = 0 then 0 else loss / before * 100
    marginCalls := t.marginCalls
    breaches := t.breaches }

def runAll (positions : List Position) (scenarios : List StressScenario) : List StressResult :=
  scenarios.map (run positions)

end StressTestingService

open LiquidationRiskService StressTestingService

/-! ## The margin calls -/

theorem marginCalls_foldl (scenario : StressScenario) (positions : List Position) (t : Totals) :
    (positions.foldl (shock scenario) t).marginCalls =
      t.marginCalls ++ (positions.filter fun position =>
        wouldBeLiquidated position (position.currentPrice * (1 + scenario.priceShock))).map Position.id := by
  induction positions generalizing t with
  | nil => simp
  | cons position positions ih =>
    rw [List.foldl_cons, ih, List.filter_cons]
    simp only [shock]
    split <;> simp

theorem mem_marginCalls {positions : List Position} {scenario : StressScenario} {id : String} :
    id ∈ (run positions scenario).marginCalls ↔
      ∃ position ∈ positions, position.id = id ∧
        wouldBeLiquidated position (position.currentPrice * (1 + scenario.priceShock)) = true := by
  simp only [run, marginCalls_foldl, List.nil_append, List.mem_map, List.mem_filter]
  exact ⟨fun ⟨p, ⟨hmem, hliq⟩, hid⟩ => ⟨p, hmem, hid, hliq⟩,
    fun ⟨p, hmem, hid, hliq⟩ => ⟨p, ⟨hmem, hliq⟩, hid⟩⟩

/-- A scenario without a price shock calls the position if and only if it is liquidated at its own price. -/
theorem mem_marginCalls_unshocked {positions : List Position} {scenario : StressScenario}
    (hshock : scenario.priceShock = 0) {position : Position} (hmem : position ∈ positions)
    (hid : ∀ q ∈ positions, q.id = position.id → q = position) :
    position.id ∈ (run positions scenario).marginCalls ↔
      wouldBeLiquidated position position.currentPrice = true := by
  rw [mem_marginCalls, hshock]
  constructor
  · rintro ⟨q, hq, hqid, hliq⟩
    rw [hid q hq hqid, add_zero, mul_one] at hliq
    exact hliq
  · intro hliq
    exact ⟨position, hmem, rfl, by rw [add_zero, mul_one]; exact hliq⟩

/-! ## The two rules -/

/-- The price both services start from, before one of them cuts it at 0. -/
def triggerPrice (position : Position) (leverage : ℚ) : ℚ :=
  if position.quantity < 0 then
    position.entryPrice * (1 + 1 / leverage - position.liquidationThreshold.getD (5 / 100))
  else position.entryPrice * (1 - 1 / leverage + position.liquidationThreshold.getD (5 / 100))

section Leveraged

variable {position : Position} {leverage : ℚ} (hleverage : position.leverage = some leverage)
  (hgt : 1 < leverage) (hprice : 0 < position.currentPrice)
include hleverage hgt

theorem liquidationPrice_eq :
    liquidationPrice position = some (max 0 (triggerPrice position leverage)) := by
  simp only [liquidationPrice, hleverage, Option.getD_some, if_neg (not_le.mpr hgt), triggerPrice]

theorem wouldBeLiquidated_iff {x : ℚ} :
    wouldBeLiquidated position x = true ↔
      if position.quantity < 0 then triggerPrice position leverage ≤ x
      else x ≤ triggerPrice position leverage := by
  simp only [wouldBeLiquidated, hleverage, Option.getD_some, if_neg (not_le.mpr hgt), triggerPrice]
  split <;> simp

theorem atRisk_iff :
    (assess position).atRisk = true ↔ (assess position).distanceToLiquidation ≤ 10 := by
  simp only [assess, liquidationPrice_eq hleverage hgt, decide_eq_true_eq]

include hprice

theorem distance_eq :
    (assess position).distanceToLiquidation =
      (position.currentPrice - max 0 (triggerPrice position leverage)) / position.currentPrice * 100 := by
  simp only [assess, liquidationPrice_eq hleverage hgt, if_neg hprice.ne']

/-- The side of the position does not matter to the distance. -/
theorem distance_nonpos_iff :
    (assess position).distanceToLiquidation ≤ 0 ↔
      position.currentPrice ≤ triggerPrice position leverage := by
  rw [distance_eq hleverage hgt hprice]
  constructor
  · intro h
    have hdiff : position.currentPrice - max 0 (triggerPrice position leverage) ≤ 0 := by
      by_contra hpos
      have hquot := div_pos (not_le.mp hpos) hprice
      linarith
    rcases le_max_iff.mp (sub_nonpos.mp hdiff) with hzero | hle
    · exact absurd hprice (not_lt.mpr hzero)
    · exact hle
  · intro h
    have hdiff : position.currentPrice - max 0 (triggerPrice position leverage) ≤ 0 :=
      sub_nonpos.mpr (h.trans (le_max_right 0 _))
    have hquot := div_nonpos_of_nonpos_of_nonneg hdiff hprice.le
    linarith

end Leveraged

/-- The two services tell the same of the position, whatever portfolio it stands in under its own id. -/
def AssessAgrees (position : Position) : Prop :=
  ∀ (positions : List Position) (scenario : StressScenario), scenario.priceShock = 0 →
    position ∈ positions → (∀ q ∈ positions, q.id = position.id → q = position) →
    ((assess position).distanceToLiquidation ≤ 0 ↔ position.id ∈ (run positions scenario).marginCalls) ∧
      (position.id ∈ (run positions scenario).marginCalls → (assess position).atRisk = true)

def unshocked : StressScenario where
  id := "unshocked"
  name := "current prices"
  priceShock := 0
  liquidityShock := none
  counterpartyShock := none
  description := none

theorem assess_agrees_iff {position : Position} {leverage : ℚ}
    (hleverage : position.leverage = some leverage) (hgt : 1 < leverage)
    (hprice : 0 < position.currentPrice) :
    AssessAgrees position ↔
      0 ≤ position.quantity ∨
        position.currentPrice =
          position.entryPrice * (1 + 1 / leverage - position.liquidationThreshold.getD (5 / 100)) := by
  have hdist := distance_nonpos_iff hleverage hgt hprice
  constructor
  · intro h
    have hcall : position.id ∈ (run [position] unshocked).marginCalls ↔ _ :=
      mem_marginCalls_unshocked rfl (List.mem_singleton_self position) fun q hq _ => List.mem_singleton.mp hq
    obtain ⟨hagree, -⟩ := h [position] unshocked rfl (List.mem_singleton_self position)
      fun q hq _ => List.mem_singleton.mp hq
    rw [hdist, hcall, wouldBeLiquidated_iff hleverage hgt] at hagree
    by_cases hshort : position.quantity < 0
    · rw [if_pos hshort] at hagree
      have heq : position.currentPrice = triggerPrice position leverage := by
        rcases le_total position.currentPrice (triggerPrice position leverage) with hle | hle
        · exact le_antisymm hle (hagree.mp hle)
        · exact le_antisymm (hagree.mpr hle) hle
      rw [triggerPrice, if_pos hshort] at heq
      exact .inr heq
    · exact .inl (not_lt.mp hshort)
  · intro h positions scenario hshock hmem hid
    rw [mem_marginCalls_unshocked hshock hmem hid, hdist, wouldBeLiquidated_iff hleverage hgt]
    have hsame : (position.currentPrice ≤ triggerPrice position leverage ↔
        if position.quantity < 0 then triggerPrice position leverage ≤ position.currentPrice
        else position.currentPrice ≤ triggerPrice position leverage) := by
      by_cases hshort : position.quantity < 0
      · have heq := h.resolve_left (not_le.mpr hshort)
        have htrigger : triggerPrice position leverage = position.currentPrice := by
          rw [triggerPrice, if_pos hshort, heq]
        rw [if_pos hshort, htrigger]
      · rw [if_neg hshort]
    refine ⟨hsame, fun hliq => ?_⟩
    rw [atRisk_iff hleverage hgt]
    exact (hdist.mpr (hsame.mpr hliq)).trans (by norm_num)

def leveraged (quantity entryPrice currentPrice : ℚ) : Position where
  id := "p1"
  asset := "XLM"
  poolId := none
  quantity := quantity
  entryPrice := entryPrice
  currentPrice := currentPrice
  liquidationThreshold := none
  leverage := some 10
  counterparty := none
  isLiquidityProvider := false

theorem long_agrees : AssessAgrees (leveraged 1 100 90) :=
  (assess_agrees_iff rfl (by norm_num : (1 : ℚ) < 10) (by decide +kernel)).mpr
    (.inl (by decide +kernel))

/-- Two shorts opened at 100 with ten times leverage, to be liquidated at 105. The one at 50 is in profit
and is past its liquidation for `assess`; the one at 120 is liquidated and is not at risk. -/
theorem short_disagrees :
    ((assess (leveraged (-1) 100 50)).distanceToLiquidation = -110 ∧
      (run [leveraged (-1) 100 50] unshocked).marginCalls = []) ∧
    ((run [leveraged (-1) 100 120] unshocked).marginCalls = ["p1"] ∧
      (assess (leveraged (-1) 100 120)).atRisk = false) := by
  decide +kernel

end Risk
end TradeCore
