import TradeCore.Lib.DecimalText
import TradeCore.Marketplace.OrderMonitor

/-!
# TradeCore.Marketplace.OrderCreation

`createOrder`, and what `evaluateOrderTrigger` says of the orders it stores. A stop-loss order has to come
with a price, which the request documents as the stop price; it is stored as the price, the stop price of
the row stays empty, and it is the stop price the trigger reads: the order never triggers
(`stopLoss_never_triggers`).
-/

namespace TradeCore
namespace Marketplace

open Lib

inductive ListingStatus where
  | active
  | sold
  | cancelled
  deriving DecidableEq, Repr

/-- What `createOrder` reads of a listing. -/
structure ListingRow where
  id : Uuid
  status : ListingStatus
  deriving DecidableEq, Repr

structure CreateOrderDto where
  listingId : Uuid
  side : OrderSide
  orderType : OrderType
  amount : String
  price : Option String
  stopPercentage : Option String
  deriving DecidableEq, Repr

/-- The row with the columns that no trigger reads. -/
structure CreatedOrder extends Order where
  amount : SqlNumeric 20 7
  stopPercentage : Option (SqlNumeric 5 2)
  filledAmount : SqlNumeric 20 7

/-- A column `numeric(p, s)`: a text that is no number of its size fails the insert. -/
def column (p s : Nat) (text : String) : Except HttpError (SqlNumeric p s) :=
  match SqlNumeric.ofText? p s text.toList with
  | none => .error databaseError
  | some x => .ok x

def nullableColumn (p s : Nat) : Option String → Except HttpError (Option (SqlNumeric p s))
  | none => .ok none
  | some text => (column p s text).map some

/-- `!dto.price`. -/
def hasNoPrice (dto : CreateOrderDto) : Bool := dto.price.getD "" = ""

def createOrder (listings : List ListingRow) (buyerId : Uuid) (dto : CreateOrderDto) (newId : Uuid) :
    Except HttpError CreatedOrder := do
  if listings.all fun listing => ¬ (listing.id = dto.listingId ∧ listing.status = .active) then
    .error (.notFound "Listing not found or not active")
  else if dto.orderType = .limit ∧ hasNoPrice dto then
    .error (.badRequest "Limit orders require a price")
  else if dto.orderType = .stopLoss ∧ hasNoPrice dto then
    .error (.badRequest "Stop-loss orders require a price (stop price)")
  else
    let amount ← column 20 7 dto.amount
    let price ← nullableColumn 20 7 dto.price
    let stopPercentage ← nullableColumn 5 2 dto.stopPercentage
    let filledAmount ← column 20 7 "0"
    -- the request has no `stopPrice` to copy
    .ok {
      id := newId
      userId := buyerId
      listingId := dto.listingId
      orderType := dto.orderType
      side := dto.side
      price := price.map fun x => x.units / 10 ^ 7
      stopPrice := none
      status := .pending
      triggeredAt := none
      amount := amount
      stopPercentage := stopPercentage
      filledAmount := filledAmount }

theorem createOrder_ok {listings : List ListingRow} {buyerId newId : Uuid} {dto : CreateOrderDto}
    {order : CreatedOrder} (h : createOrder listings buyerId dto newId = .ok order) :
    order.orderType = dto.orderType ∧ order.side = dto.side ∧ order.stopPrice = none ∧
      order.status = .pending := by
  unfold createOrder at h
  split at h
  · cases h
  · split at h
    · cases h
    · split at h
      · cases h
      · obtain ⟨amount, -, h⟩ := bind_eq_ok.mp h
        obtain ⟨price, -, h⟩ := bind_eq_ok.mp h
        obtain ⟨stopPercentage, -, h⟩ := bind_eq_ok.mp h
        obtain ⟨filledAmount, -, h⟩ := bind_eq_ok.mp h
        cases h
        exact ⟨rfl, rfl, rfl, rfl⟩

theorem evaluateOrderTrigger_of_none {order : Order} (htype : order.orderType = .stopLoss ∨
    order.orderType = .trailingStop) (h : order.stopPrice = none) (x : ℚ) :
    evaluateOrderTrigger order x = false := by
  simp only [evaluateOrderTrigger, if_pos htype, h, Option.getD_none, le_refl, if_true, ite_self]

theorem stopLoss_never_triggers {listings : List ListingRow} {buyerId newId : Uuid} {dto : CreateOrderDto}
    {order : CreatedOrder} (h : createOrder listings buyerId dto newId = .ok order)
    (htype : dto.orderType = .stopLoss ∨ dto.orderType = .trailingStop) (x : ℚ) :
    evaluateOrderTrigger order.toOrder x = false := by
  obtain ⟨hordertype, -, hstop, -⟩ := createOrder_ok h
  exact evaluateOrderTrigger_of_none (hordertype ▸ htype) hstop x

/-- The market price has come to the stop price, from the side the order waits on. -/
def StopReached (side : OrderSide) (p x : ℚ) : Prop :=
  (side = .buy ∧ p ≤ x) ∨ (side = .sell ∧ x ≤ p)

/-- The price of the request as a number. -/
def requestedPrice (dto : CreateOrderDto) : ℚ := (dto.price.bind fun text => textValue? text.toList).getD 0

theorem stopLoss_trigger_iff {listings : List ListingRow} {buyerId newId : Uuid} {dto : CreateOrderDto}
    {order : CreatedOrder} (h : createOrder listings buyerId dto newId = .ok order)
    (htype : dto.orderType = .stopLoss) (x : ℚ) :
    (evaluateOrderTrigger order.toOrder x = true ↔ StopReached dto.side (requestedPrice dto) x) ↔
      (dto.side = .buy ∧ x < requestedPrice dto) ∨ (dto.side = .sell ∧ requestedPrice dto < x) := by
  rw [stopLoss_never_triggers h (.inl htype)]
  simp only [Bool.false_eq_true, false_iff, StopReached]
  cases dto.side <;> simp

def stopAt100 : CreateOrderDto where
  listingId := 1
  side := .sell
  orderType := .stopLoss
  amount := "5"
  price := some "100"
  stopPercentage := none

theorem stopAt100_accepted : ∃ order, createOrder [⟨1, .active⟩] 7 stopAt100 2 = .ok order := by
  have hok : (createOrder [⟨1, .active⟩] 7 stopAt100 2).isOk = true := by decide +kernel
  cases h : createOrder [⟨1, .active⟩] 7 stopAt100 2 with
  | error e => rw [h] at hok; cases hok
  | ok order => exact ⟨order, rfl⟩

theorem stopAt100_not_reached :
    ∃ order, createOrder [⟨1, .active⟩] 7 stopAt100 2 = .ok order ∧
      (evaluateOrderTrigger order.toOrder 110 = true ↔ StopReached .sell 100 110) := by
  obtain ⟨order, h⟩ := stopAt100_accepted
  have hprice : requestedPrice stopAt100 = 100 := by decide +kernel
  exact ⟨order, h, hprice ▸ (stopLoss_trigger_iff h rfl 110).mpr (.inr ⟨rfl, by decide +kernel⟩)⟩

/-- A sell order to stop at 100 does not trigger at 90. -/
theorem stop_passed_over :
    ∃ order, createOrder [⟨1, .active⟩] 7 stopAt100 2 = .ok order ∧ requestedPrice stopAt100 = 100 ∧
      StopReached .sell 100 90 ∧ evaluateOrderTrigger order.toOrder 90 = false := by
  obtain ⟨order, h⟩ := stopAt100_accepted
  exact ⟨order, h, by decide +kernel, .inr ⟨rfl, by decide +kernel⟩, stopLoss_never_triggers h (.inl rfl) 90⟩

end Marketplace
end TradeCore
