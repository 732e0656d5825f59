import Mathlib.Data.List.Sort
import Mathlib.Algebra.Order.Field.Rat
import TradeCore.Common
import TradeCore.Lib.Arithmetic
import TradeCore.Lib.ArraySort
import TradeCore.Lib.Loop
import TradeCore.Lib.Table

/-!
# TradeCore.Trading.Model

`TradingEngineService`: the in-memory order books, the tables, the matching loop and the three
operations that change them.

An order in memory is an object that the books and the calls in flight share. Matching changes only
its `filledQuantity` and `status`; these two live in `fills`, under the id of the order, and an
`Order` is the rest of the object, which never changes. A row of the table, and a copy read from it,
is an `OrderRow` that carries both.

Quantities and prices are the decimals of their texts. `Arithmetic` says how the texts are added and
subtracted and what a `numeric(30, 7)` column keeps of one, `ArraySort` how a side is sorted. An id is
the number of orders created before, so that ids grow with the time of creation. Where the source tests
a price for being there, a price of 0 counts as missing too.
-/

namespace TradeCore
namespace Trading

open Lib

inductive OrderSide where
  | buy
  | sell
  deriving DecidableEq, Repr

def OrderSide.opposite : OrderSide → OrderSide
  | .buy => .sell
  | .sell => .buy

inductive OrderType where
  | market
  | limit
  deriving DecidableEq, Repr

inductive OrderStatus where
  | pending
  | open
  | partiallyFilled
  | filled
  | cancelled
  | expired
  | rejected
  deriving DecidableEq, Repr

structure Order where
  id : Uuid
  userId : Uuid
  assetCode : String
  assetIssuer : Option String
  side : OrderSide
  type : OrderType
  quantity : ℚ
  price : Option ℚ
  expiresAt : Option Time
  deriving DecidableEq

structure Fill where
  filledQuantity : ℚ
  status : OrderStatus
  deriving DecidableEq

structure OrderRow where
  order : Order
  fill : Fill
  deriving DecidableEq

structure Trade where
  makerOrderId : Uuid
  takerOrderId : Uuid
  makerUserId : Uuid
  takerUserId : Uuid
  assetCode : String
  assetIssuer : Option String
  quantity : ℚ
  price : Option ℚ
  settled : Bool
  deriving DecidableEq

structure OrderBook where
  bids : List Order
  asks : List Order

structure Db where
  orders : List OrderRow
  trades : List Trade

structure State where
  orderBooks : String → Option OrderBook
  fills : Uuid → Fill
  db : Db
  nextId : Uuid

def State.empty : State := ⟨fun _ => none, fun _ => ⟨0, .pending⟩, ⟨[], []⟩, 0⟩

/-! ## The books -/

def getAssetKey (assetCode : String) (assetIssuer : Option String) : String :=
  match assetIssuer with
  | none => assetCode
  | some issuer => if issuer = "" then assetCode else assetCode ++ "-" ++ issuer

def Order.assetKey (order : Order) : String := getAssetKey order.assetCode order.assetIssuer

def OrderBook.side (book : OrderBook) : OrderSide → List Order
  | .buy => book.bids
  | .sell => book.asks

def OrderBook.setSide (book : OrderBook) : OrderSide → List Order → OrderBook
  | .buy, orders => { book with bids := orders }
  | .sell, orders => { book with asks := orders }

/-- A price `p` on this side reaches as far as `q`: a bid at `p` buys from an ask at `q`, an ask at
`p` sells to a bid at `q`, and in the book of this side `p` is as good as `q` or better. -/
def OrderSide.Reaches : OrderSide → ℚ → ℚ → Prop
  | .buy, p, q => q ≤ p
  | .sell, p, q => p ≤ q

instance (side : OrderSide) (p q : ℚ) : Decidable (side.Reaches p q) :=
  match side with
  | .buy => inferInstanceAs (Decidable (q ≤ p))
  | .sell => inferInstanceAs (Decidable (p ≤ q))

/-- The comparator of the sort: the difference of the prices, `NaN` where one is missing. -/
def comparePrices (side : OrderSide) (a b : Order) : Option Ordering :=
  match a.price, b.price with
  | some p, some q =>
    match side with
    | .buy => some (cmp q p)
    | .sell => some (cmp p q)
  | _, _ => none

/-- `a` may stand before `b`: the comparator is not positive. -/
def Precedes (side : OrderSide) (a b : Order) : Prop :=
  match a.price, b.price with
  | some p, some q => side.Reaches p q
  | _, _ => True

instance (side : OrderSide) : DecidableRel (Precedes side) := fun a b => by
  unfold Precedes
  split <;> infer_instance

def addToOrderBook [ArraySort] (books : String → Option OrderBook) (order : Order) :
    String → Option OrderBook :=
  let orderBook := (books order.assetKey).getD ⟨[], []⟩
  Function.update books order.assetKey (some (orderBook.setSide order.side
    (ArraySort.sort (comparePrices order.side) (orderBook.side order.side ++ [order]))))

def removeFromOrderBook (books : String → Option OrderBook) (order : Order) :
    String → Option OrderBook :=
  match books order.assetKey with
  | none => books
  | some orderBook => Function.update books order.assetKey (some (orderBook.setSide order.side
      ((orderBook.side order.side).filter (·.id ≠ order.id))))

/-! ## Matching -/

/-- A price that is there. -/
def Priced (price : Option ℚ) : Prop := price ≠ none ∧ price ≠ some 0

instance (price : Option ℚ) : Decidable (Priced price) := inferInstanceAs (Decidable (_ ∧ _))

/-- The price check of the loop. -/
def Accepts (newOrder bestOpposite : Order) : Prop :=
  match newOrder.type with
  | .market => True
  | .limit =>
    match newOrder.price, bestOpposite.price with
    | some p, some q => p ≠ 0 ∧ q ≠ 0 ∧ newOrder.side.Reaches p q
    | _, _ => False

instance (newOrder bestOpposite : Order) : Decidable (Accepts newOrder bestOpposite) := by
  unfold Accepts
  split
  · infer_instance
  · split <;> infer_instance

structure MatchState where
  remainingQuantity : ℚ
  oppositeOrders : List Order
  fills : Uuid → Fill
  trades : List Trade
  touched : List Order

def tradeOf (newOrder bestOpposite : Order) (tradeQuantity : ℚ) : Trade where
  makerOrderId := if newOrder.side = .buy then bestOpposite.id else newOrder.id
  takerOrderId := if newOrder.side = .buy then newOrder.id else bestOpposite.id
  makerUserId := if newOrder.side = .buy then bestOpposite.userId else newOrder.userId
  takerUserId := if newOrder.side = .buy then newOrder.userId else bestOpposite.userId
  assetCode := newOrder.assetCode
  assetIssuer := newOrder.assetIssuer
  quantity := tradeQuantity
  price := bestOpposite.price
  settled := false

section Loop

variable [Arithmetic]

/-- The new order after `tradeQuantity` more. -/
def takerFill (newOrder : Order) (fill : Fill) (tradeQuantity : ℚ) : Fill where
  filledQuantity := Arithmetic.add fill.filledQuantity tradeQuantity
  status :=
    if newOrder.quantity ≤ Arithmetic.add fill.filledQuantity tradeQuantity then .filled
    else if 0 < Arithmetic.add fill.filledQuantity tradeQuantity then .partiallyFilled
    else fill.status

/-- The resting order after `tradeQuantity` more; it is never marked as partially filled. -/
def makerFill (bestOpposite : Order) (fill : Fill) (tradeQuantity : ℚ) : Fill where
  filledQuantity := Arithmetic.add fill.filledQuantity tradeQuantity
  status :=
    if bestOpposite.quantity ≤ Arithmetic.add fill.filledQuantity tradeQuantity then .filled
    else fill.status

def tradeQuantity (s : MatchState) (bestOpposite : Order) : ℚ :=
  min s.remainingQuantity
    (Arithmetic.sub bestOpposite.quantity (s.fills bestOpposite.id).filledQuantity)

/-- The body of the loop, on the head of the opposite side. -/
def matchHead (newOrder bestOpposite : Order) (rest : List Order) (s : MatchState) : MatchState :=
  let q := tradeQuantity s bestOpposite
  let best := makerFill bestOpposite (s.fills bestOpposite.id) q
  { remainingQuantity := Arithmetic.sub s.remainingQuantity q
    oppositeOrders :=
      if bestOpposite.quantity ≤ best.filledQuantity then rest else bestOpposite :: rest
    fills := Function.update
      (Function.update s.fills newOrder.id (takerFill newOrder (s.fills newOrder.id) q))
      bestOpposite.id best
    trades := s.trades ++ [tradeOf newOrder bestOpposite q]
    touched := if bestOpposite ∈ s.touched then s.touched else s.touched ++ [bestOpposite] }

/-- One iteration of the loop. -/
def matchStep (newOrder : Order) (s : MatchState) : Option MatchState :=
  match s.oppositeOrders with
  | [] => none
  | bestOpposite :: rest =>
    if s.remainingQuantity ≤ 0 then none
    else if ¬ Accepts newOrder bestOpposite then none
    else some (matchHead newOrder bestOpposite rest s)

structure MatchResult where
  orderBooks : String → Option OrderBook
  fills : Uuid → Fill
  trades : List Trade
  touchedOrders : List Order

def matchStart (newOrder : Order) (fills : Uuid → Fill) (oppositeOrders : List Order) : MatchState where
  remainingQuantity :=
    if 0 < (fills newOrder.id).filledQuantity then
      Arithmetic.sub newOrder.quantity (fills newOrder.id).filledQuantity
    else newOrder.quantity
  oppositeOrders := oppositeOrders
  fills := fills
  trades := []
  touched := []

/-- Every iteration removes the head or uses the quantity up, so the length of the opposite side is
fuel enough (`matchLoop_exit`). Rounding can leave a head in place that is all but filled, which is then
met again with what is missing; there is fuel for a hundred visits to each. -/
def matchLoop (newOrder : Order) (fills : Uuid → Fill) (oppositeOrders : List Order) : MatchState :=
  loop (matchStep newOrder) (100 * (oppositeOrders.length + 1))
    (matchStart newOrder fills oppositeOrders)

def matchOrder (books : String → Option OrderBook) (fills : Uuid → Fill) (newOrder : Order) :
    MatchResult :=
  match books newOrder.assetKey with
  | none => ⟨books, fills, [], []⟩
  | some orderBook =>
    let s := matchLoop newOrder fills (orderBook.side newOrder.side.opposite)
    ⟨Function.update books newOrder.assetKey
        (some (orderBook.setSide newOrder.side.opposite s.oppositeOrders)),
      s.fills, s.trades, s.touched⟩

end Loop

/-! ## Creating an order -/

structure CreateOrderDto where
  side : OrderSide
  type : OrderType
  assetCode : String
  assetIssuer : Option String
  quantity : ℚ
  price : Option ℚ
  expiresAt : Option Time

/-- What the database refuses in a `createOrder`: the first save, or the transaction. A number with
too many digits for its column is a reason. -/
inductive CreateFault where
  | save
  | transaction
  deriving DecidableEq

def createOrder.validate (dto : CreateOrderDto) (now : Time) : Except HttpError Unit :=
  if dto.type = .limit ∧ ¬ Priced dto.price then
    .error (.badRequest "Limit orders must specify a price")
  else if dto.expiresAt.any (· < now) then
    .error (.badRequest "Expiration date must be in the future")
  else .ok ()

def createOrder.order (id userId : Uuid) (dto : CreateOrderDto) : Order where
  id := id
  userId := userId
  assetCode := dto.assetCode
  assetIssuer := dto.assetIssuer
  side := dto.side
  type := dto.type
  quantity := dto.quantity
  price := dto.price
  expiresAt := dto.expiresAt

def OrderRow.id (row : OrderRow) : Uuid := row.order.id

section Columns

variable [Arithmetic]

/-- What the columns `quantity`, `price` and `filledQuantity`, all `numeric(30, 7)`, keep. -/
def OrderRow.column (row : OrderRow) : OrderRow where
  order := { row.order with
    quantity := Arithmetic.column 7 row.order.quantity
    price := row.order.price.map (Arithmetic.column 7) }
  fill := { row.fill with filledQuantity := Arithmetic.column 7 row.fill.filledQuantity }

def Trade.column (trade : Trade) : Trade :=
  { trade with
    quantity := Arithmetic.column 7 trade.quantity
    price := trade.price.map (Arithmetic.column 7) }

end Columns

namespace Db

def order? (db : Db) (id : Uuid) : Option OrderRow := lookup OrderRow.id id db.orders

/-- `orderRepository.save` of a copy that was read: its numbers are what the columns hold. -/
def saveCopy (db : Db) (row : OrderRow) : Db :=
  { db with orders := upsert OrderRow.id row db.orders }

section Save

variable [Arithmetic]

/-- `orderRepository.save`: every column is written. -/
def saveOrder (db : Db) (row : OrderRow) : Db := db.saveCopy row.column

def saveOrders (db : Db) (rows : List OrderRow) : Db := rows.foldl saveOrder db

def saveTrades (db : Db) (trades : List Trade) : Db :=
  { db with trades := db.trades ++ trades.map Trade.column }

end Save

theorem order?_saveCopy (db : Db) (row : OrderRow) (id : Uuid) :
    (db.saveCopy row).order? id = if row.id = id then some row else db.order? id :=
  lookup_upsert row id db.orders

theorem order?_id {db : Db} {id : Uuid} {row : OrderRow} (h : db.order? id = some row) :
    row.id = id := lookup_key h

end Db

/-- The object as it is now. -/
def State.row (st : State) (order : Order) : OrderRow := ⟨order, st.fills order.id⟩

section Transaction

variable [Arithmetic]

/-- The new object, saved as OPEN. -/
def createOrder.save (st : State) (order : Order) : State :=
  { st with
    fills := Function.update st.fills order.id ⟨0, .open⟩
    db := st.db.saveOrder ⟨order, ⟨0, .open⟩⟩
    nextId := st.nextId + 1 }

def State.matchOrder (st : State) (order : Order) : MatchResult :=
  Trading.matchOrder st.orderBooks st.fills order

/-- A match changes the objects and the books, no table. -/
def createOrder.matched (st : State) (order : Order) : State :=
  { st with
    orderBooks := (st.matchOrder order).orderBooks
    fills := (st.matchOrder order).fills }

/-- The transaction writes the trades, the new order and the makers it touched, as the objects are
now. The `price` column of a trade admits no null. -/
def createOrder.persist (st : State) (order : Order) (trades : List Trade) (touched : List Order)
    (fails : Bool) : Except HttpError State :=
  if fails ∨ trades.any (·.price.isNone) then .error (.internal "transaction failed")
  else .ok { st with
    db := ((st.db.saveTrades trades).saveOrder (st.row order)).saveOrders (touched.map st.row) }

end Transaction

def openStatuses : List OrderStatus := [.open, .partiallyFilled]

/-- What is left of the order goes to the book. -/
def createOrder.rest [ArraySort] (st : State) (order : Order) : State :=
  if (st.fills order.id).status ∈ openStatuses then
    { st with orderBooks := addToOrderBook st.orderBooks order }
  else st

def createOrder [Arithmetic] [ArraySort] (st : State) (userId : Uuid) (dto : CreateOrderDto)
    (now : Time) (fault : Option CreateFault) : State × Except HttpError Order :=
  match createOrder.validate dto now with
  | .error e => (st, .error e)
  | .ok () =>
    if fault = some .save then (st, .error (.internal "save failed"))
    else
      let order := createOrder.order st.nextId userId dto
      let saved := createOrder.save st order
      let r := saved.matchOrder order
      let matched := createOrder.matched saved order
      match createOrder.persist matched order r.trades r.touchedOrders (fault = some .transaction) with
      | .error e => (matched, .error e)
      | .ok persisted => (createOrder.rest persisted order, .ok order)

/-! ## Cancelling and expiring -/

/-- Take the order out of its book; the copy that will be written carries the new status. -/
def closeOrder.remove (st : State) (row : OrderRow) : State :=
  { st with orderBooks := removeFromOrderBook st.orderBooks row.order }

def closeOrder.write (st : State) (row : OrderRow) (status : OrderStatus) : State :=
  { st with db := st.db.saveCopy { row with fill := { row.fill with status := status } } }

theorem closeOrder.write_order? (st : State) (row : OrderRow) (status : OrderStatus) (id : Uuid) :
    (closeOrder.write st row status).db.order? id =
      if row.id = id then some { row with fill := { row.fill with status := status } }
      else st.db.order? id :=
  Db.order?_saveCopy st.db { row with fill := { row.fill with status := status } } id

def cancelOrder.read (db : Db) (orderId userId : Uuid) : Except HttpError OrderRow :=
  match db.order? orderId with
  | none => .error (.notFound "Order not found")
  | some row =>
    if row.order.userId ≠ userId then
      .error (.badRequest "You can only cancel your own orders")
    else if row.fill.status ∉ openStatuses then
      .error (.badRequest "Cannot cancel order that is not open")
    else .ok row

def cancelOrder (st : State) (orderId userId : Uuid) : State × Except HttpError OrderRow :=
  match cancelOrder.read st.db orderId userId with
  | .error e => (st, .error e)
  | .ok row => (closeOrder.write (closeOrder.remove st row) row .cancelled, .ok row)

def cleanupExpiredOrders.read (db : Db) (now : Time) : List OrderRow :=
  db.orders.filter fun row => row.fill.status ∈ openStatuses ∧ row.order.expiresAt.any (· < now)

def cleanupExpiredOrders (st : State) (now : Time) : State :=
  (cleanupExpiredOrders.read st.db now).foldl
    (fun st row => closeOrder.write (closeOrder.remove st row) row .expired) st

theorem cancelOrder.read_ok {db : Db} {k u : Uuid} {row : OrderRow}
    (h : cancelOrder.read db k u = .ok row) : db.order? k = some row ∧ row.fill.status ∈ openStatuses := by
  unfold cancelOrder.read at h
  split at h
  · cases h
  · rename_i found hfound
    split at h
    · cases h
    · split at h
      · cases h
      · rename_i hopen
        cases h
        exact ⟨hfound, not_not.mp hopen⟩

section Closing

variable {I : State → Prop} {st : State}

/-- What closing one open order keeps, a cancellation keeps. -/
theorem cancelOrder_inv (h : I st) (k u : Uuid)
    (hclose : ∀ row, st.db.order? row.id = some row → row.fill.status ∈ openStatuses →
      I (closeOrder.write (closeOrder.remove st row) row .cancelled)) :
    I (cancelOrder st k u).1 := by
  unfold cancelOrder
  split
  · exact h
  · rename_i row hread
    obtain ⟨hrow, hopen⟩ := cancelOrder.read_ok hread
    exact hclose row (Db.order?_id hrow ▸ hrow) hopen

theorem closeAll_inv (hclose : ∀ st row, I st → st.db.order? row.id = some row →
      row.fill.status ∈ openStatuses → I (closeOrder.write (closeOrder.remove st row) row .expired))
    {rows : List OrderRow} (h : I st)
    (hrows : ∀ row ∈ rows, st.db.order? row.id = some row ∧ row.fill.status ∈ openStatuses)
    (hnd : (rows.map OrderRow.id).Nodup) :
    I (rows.foldl (fun st row => closeOrder.write (closeOrder.remove st row) row .expired) st) := by
  induction rows generalizing st with
  | nil => exact h
  | cons row rows ih =>
    obtain ⟨hrow, hopen⟩ := hrows row (.head _)
    simp only [List.map_cons, List.nodup_cons] at hnd
    refine ih (hclose st row h hrow hopen) (fun r hr => ?_) hnd.2
    obtain ⟨hr', hopen'⟩ := hrows r (.tail _ hr)
    refine ⟨?_, hopen'⟩
    have hne : row.id ≠ r.id := fun e => hnd.1 (e ▸ List.mem_map_of_mem hr)
    exact (closeOrder.write_order? (closeOrder.remove st row) _ _ _).trans ((if_neg hne).trans hr')

theorem cleanupExpiredOrders_inv (h : I st) (hkeys : (st.db.orders.map OrderRow.id).Nodup) (now : Time)
    (hclose : ∀ st row, I st → st.db.order? row.id = some row →
      row.fill.status ∈ openStatuses → I (closeOrder.write (closeOrder.remove st row) row .expired)) :
    I (cleanupExpiredOrders st now) := by
  refine closeAll_inv hclose h (fun row hrow => ?_) (hkeys.sublist (List.filter_sublist.map _))
  rw [cleanupExpiredOrders.read, List.mem_filter, decide_eq_true_eq] at hrow
  exact ⟨lookup_of_mem hkeys hrow.1, hrow.2.1⟩

end Closing

/-! ## Runs of whole calls -/

inductive Op where
  | createOrder (userId : Uuid) (dto : CreateOrderDto) (now : Time) (fault : Option CreateFault)
  | cancelOrder (orderId userId : Uuid)
  | cleanupExpiredOrders (now : Time)

def step [Arithmetic] [ArraySort] (st : State) : Op → State
  | .createOrder userId dto now fault => (createOrder st userId dto now fault).1
  | .cancelOrder orderId userId => (cancelOrder st orderId userId).1
  | .cleanupExpiredOrders now => cleanupExpiredOrders st now

/-- The trades that a call makes, whether its transaction goes through or not. -/
def produced [Arithmetic] (st : State) : Op → List Trade
  | .createOrder u dto now fault =>
    if createOrder.validate dto now = .ok () ∧ fault ≠ some .save then
      ((createOrder.save st (createOrder.order st.nextId u dto)).matchOrder
        (createOrder.order st.nextId u dto)).trades
    else []
  | _ => []

section

variable [Arithmetic]

/-- Everything a `createOrder` can leave behind: nothing new, the state after the match when the
transaction fails, and otherwise what the transaction wrote, with the rest of the order in the book. -/
theorem createOrder_cases [ArraySort] (st : State) (u : Uuid) (dto : CreateOrderDto) (now : Time)
    (fault : Option CreateFault) :
    ((createOrder.validate dto now = .ok () → fault = some .save) ∧
      (createOrder st u dto now fault).1 = st) ∨
    ∃ o saved, o = createOrder.order st.nextId u dto ∧ saved = createOrder.save st o ∧
      createOrder.validate dto now = .ok () ∧ fault ≠ some .save ∧
      ((∃ e, createOrder.persist (createOrder.matched saved o) o (saved.matchOrder o).trades
          (saved.matchOrder o).touchedOrders (fault = some .transaction) = .error e ∧
          (createOrder st u dto now fault).1 = createOrder.matched saved o) ∨
        ∃ persisted, createOrder.persist (createOrder.matched saved o) o (saved.matchOrder o).trades
          (saved.matchOrder o).touchedOrders (fault = some .transaction) = .ok persisted ∧
          (createOrder st u dto now fault).1 = createOrder.rest persisted o) := by
  unfold createOrder
  split
  · rename_i e hv
    exact .inl ⟨fun h => absurd (hv.symm.trans h) (by simp), rfl⟩
  · rename_i hv
    split
    · rename_i hf
      exact .inl ⟨fun _ => hf, rfl⟩
    · rename_i hf
      refine .inr ⟨_, _, rfl, rfl, hv, hf, ?_⟩
      dsimp only
      split
      · rename_i e he
        exact .inl ⟨e, he, rfl⟩
      · rename_i persisted hp
        exact .inr ⟨persisted, hp, rfl⟩

theorem createOrder.persist_ok {st st' : State} {order : Order} {trades : List Trade}
    {touched : List Order} {fails : Bool}
    (h : createOrder.persist st order trades touched fails = .ok st') :
    fails = false ∧ (∀ t ∈ trades, t.price ≠ none) ∧ st' = { st with
      db := ((st.db.saveTrades trades).saveOrder (st.row order)).saveOrders (touched.map st.row) } := by
  unfold createOrder.persist at h
  split at h
  · cases h
  · rename_i hok
    cases h
    simp only [not_or, List.any_eq_true, not_exists, not_and, Option.isNone_iff_eq_none] at hok
    exact ⟨by simpa using hok.1, hok.2, rfl⟩

theorem createOrder.persist_error {st : State} {order : Order} {trades : List Trade}
    {touched : List Order} {fails : Bool} {e : HttpError}
    (h : createOrder.persist st order trades touched fails = .error e) :
    fails = true ∨ ∃ t ∈ trades, t.price = none := by
  unfold createOrder.persist at h
  split at h
  · rename_i hf
    simpa only [List.any_eq_true, Option.isNone_iff_eq_none] using hf
  · cases h

end

/-! ## Without rounding -/

section Exact

open Lib.Exact

theorem OrderRow.column_eq (row : OrderRow) : row.column = row := by
  have hprice : row.order.price.map (Arithmetic.column 7) = row.order.price := Option.map_id_apply
  rw [OrderRow.column, hprice]
  rfl

theorem Trade.column_eq (t : Trade) : t.column = t := by
  have hprice : t.price.map (Arithmetic.column 7) = t.price := Option.map_id_apply
  rw [Trade.column, hprice]
  rfl

namespace Db

theorem saveOrder_eq (db : Db) (row : OrderRow) : db.saveOrder row = db.saveCopy row := by
  rw [saveOrder, row.column_eq]

theorem order?_saveOrder (db : Db) (row : OrderRow) (id : Uuid) :
    (db.saveOrder row).order? id = if row.id = id then some row else db.order? id := by
  rw [saveOrder_eq]
  exact order?_saveCopy db row id

theorem saveTrades_trades (db : Db) (trades : List Trade) :
    (db.saveTrades trades).trades = db.trades ++ trades := by
  rw [saveTrades, List.map_congr_left fun t _ => t.column_eq, List.map_id']

theorem saveOrders_trades (db : Db) (rows : List OrderRow) :
    (db.saveOrders rows).trades = db.trades := by
  induction rows generalizing db with
  | nil => rfl
  | cons row rows ih => exact ih (db.saveOrder row)

theorem order?_saveOrders_other {rows : List OrderRow} {id : Uuid} (h : ∀ row ∈ rows, row.id ≠ id)
    (db : Db) : (db.saveOrders rows).order? id = db.order? id := by
  induction rows generalizing db with
  | nil => rfl
  | cons row rows ih =>
    refine (ih (fun r hr => h r (.tail _ hr)) (db.saveOrder row)).trans ?_
    rw [order?_saveOrder, if_neg (h row (.head _))]

theorem order?_saveOrders {rows : List OrderRow} {row : OrderRow} (hrow : row ∈ rows)
    (huniq : ∀ r ∈ rows, r.id = row.id → r = row) (db : Db) :
    (db.saveOrders rows).order? row.id = some row := by
  induction rows generalizing db with
  | nil => cases hrow
  | cons r rows ih =>
    have huniq' : ∀ r ∈ rows, r.id = row.id → r = row := fun r hr => huniq r (.tail _ hr)
    by_cases hin : row ∈ rows
    · exact ih hin huniq' (db.saveOrder r)
    · obtain rfl : row = r := by simpa [hin] using hrow
      refine (order?_saveOrders_other (fun r hr e => ?_) (db.saveOrder row)).trans ?_
      · exact hin (huniq' r hr e ▸ hr)
      · rw [order?_saveOrder, if_pos rfl]

theorem nodup_saveOrders (rows : List OrderRow) {db : Db} (h : (db.orders.map OrderRow.id).Nodup) :
    ((db.saveOrders rows).orders.map OrderRow.id).Nodup := by
  induction rows generalizing db with
  | nil => exact h
  | cons row rows ih =>
    have h' : ((db.saveOrder row).orders.map OrderRow.id).Nodup := nodup_upsert h
    exact ih h'

end Db

theorem createOrder.save_self (st : State) (order : Order) :
    (createOrder.save st order).fills order.id = ⟨0, .open⟩ := Function.update_self _ _ _

theorem createOrder.save_other (st : State) {order : Order} {id : Uuid} (hid : id ≠ order.id) :
    (createOrder.save st order).fills id = st.fills id := Function.update_of_ne hid _ _

theorem createOrder.save_order? (st : State) (order : Order) (id : Uuid) :
    (createOrder.save st order).db.order? id =
      if order.id = id then some ⟨order, ⟨0, .open⟩⟩ else st.db.order? id :=
  Db.order?_saveOrder st.db ⟨order, ⟨0, .open⟩⟩ id

/-- The transaction writes the rows of its orders and no others. -/
theorem createOrder.persist_row {st st' : State} {o : Order} {trades : List Trade}
    {touched : List Order} {fails : Bool}
    (h : createOrder.persist st o trades touched fails = .ok st')
    (huniq : ∀ x ∈ o :: touched, ∀ y ∈ o :: touched, x.id = y.id → x = y) (id : Uuid) :
    (∃ x ∈ o :: touched, x.id = id ∧ st'.db.order? id = some (st.row x)) ∨
      (∀ x ∈ o :: touched, x.id ≠ id) ∧ st'.db.order? id = st.db.order? id := by
  obtain ⟨-, -, rfl⟩ := createOrder.persist_ok h
  by_cases hid : ∃ x ∈ o :: touched, x.id = id
  · obtain ⟨x, hx, rfl⟩ := hid
    have hmem : st.row x ∈ (o :: touched).map st.row := List.mem_map_of_mem hx
    refine .inl ⟨x, hx, rfl, Db.order?_saveOrders hmem (fun r hr e => ?_) (st.db.saveTrades trades)⟩
    obtain ⟨y, hy, rfl⟩ := List.mem_map.mp hr
    rw [huniq y hy x hx e]
  · have hnot : ∀ x ∈ o :: touched, x.id ≠ id := fun x hx e => hid ⟨x, hx, e⟩
    have hother : ∀ r ∈ (o :: touched).map st.row, r.id ≠ id := by
      intro r hr
      obtain ⟨y, hy, rfl⟩ := List.mem_map.mp hr
      exact hnot y hy
    exact .inr ⟨hnot, Db.order?_saveOrders_other hother (st.db.saveTrades trades)⟩

/-- What the transaction makes of the table of orders. -/
theorem createOrder.persist_order? {st st' : State} {o : Order} {trades : List Trade}
    {touched : List Order} {fails : Bool}
    (h : createOrder.persist st o trades touched fails = .ok st')
    (huniq : ∀ x ∈ touched, ∀ y ∈ touched, x.id = y.id → x = y) (hne : ∀ x ∈ touched, x.id ≠ o.id) :
    (∀ x ∈ touched, st'.db.order? x.id = some (st.row x)) ∧ st'.db.order? o.id = some (st.row o) ∧
      ∀ id, id ≠ o.id → (∀ x ∈ touched, x.id ≠ id) → st'.db.order? id = st.db.order? id := by
  have huniq' : ∀ x ∈ o :: touched, ∀ y ∈ o :: touched, x.id = y.id → x = y := by
    intro x hx y hy e
    rcases List.mem_cons.mp hx with hxo | hx'
    · rcases List.mem_cons.mp hy with hyo | hy'
      · rw [hxo, hyo]
      · exact absurd (hxo ▸ e.symm) (hne y hy')
    · rcases List.mem_cons.mp hy with hyo | hy'
      · exact absurd (hyo ▸ e) (hne x hx')
      · exact huniq x hx' y hy' e
  have hwritten : ∀ x ∈ o :: touched, st'.db.order? x.id = some (st.row x) := by
    intro x hx
    rcases createOrder.persist_row h huniq' x.id with ⟨y, hy, e, hrow⟩ | ⟨hnot, -⟩
    · rw [hrow, huniq' y hy x hx e]
    · exact absurd rfl (hnot x hx)
  refine ⟨fun x hx => hwritten x (.tail _ hx), hwritten o (.head _), fun id hid hnot => ?_⟩
  rcases createOrder.persist_row h huniq' id with ⟨x, hx, rfl, -⟩ | ⟨-, hsame⟩
  · rcases List.mem_cons.mp hx with rfl | hx
    · exact absurd rfl hid
    · exact absurd rfl (hnot x hx)
  · exact hsame

end Exact

end Trading
end TradeCore
