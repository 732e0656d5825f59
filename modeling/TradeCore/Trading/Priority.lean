import TradeCore.Lib.Run
import TradeCore.Trading.Book

/-!
# TradeCore.Trading.Priority

Price, time and crossing over runs of whole calls.

`BookInv` holds after every call of a run that creates orders of positive quantity and never leaves
an order without a price in the book (`bookInv_step`).

* `limit_books_ordered`: runs of limit orders, cancellations and expiries keep the books sorted by
  price and time, uncrossed, and without overfilled orders.
* `books_uncrossed_of_deep`: with market orders, the books stay uncrossed and every trade has the
  price of the resting order, as long as every market order without a price finds enough on the
  opposite side.
-/

namespace TradeCore
namespace Trading

open Lib Lib.Exact

/-- Sorted by price, equal prices by creation. -/
def Before (side : OrderSide) (a b : Order) : Prop :=
  Precedes side a b ∧ (a.price = b.price → a.id < b.id)

structure BookInv (st : State) : Prop where
  placed : Placed st.orderBooks
  sorted : Sorted st.orderBooks
  time : ∀ key side, (bookSide st.orderBooks key side).Pairwise (Before side)
  created : ∀ x, InBook st.orderBooks x → x.id < st.nextId
  resting : ∀ x, InBook st.orderBooks x → Resting st.fills x
  uncrossed : ∀ x y, InBook st.orderBooks x → InBook st.orderBooks y → y.assetKey = x.assetKey →
    y.side = x.side.opposite → ¬ Crosses x y

theorem bookInv_of_empty {st : State} (h : ∀ key side, bookSide st.orderBooks key side = []) :
    BookInv st := by
  have hnot : ∀ x, ¬ InBook st.orderBooks x := fun x hx => by simp [InBook, h] at hx
  refine ⟨⟨?_, ?_, ?_⟩, ⟨?_, ?_⟩, ?_, ?_, ?_, ?_⟩
  · intro key side x hx; simp [h] at hx
  · intro key side; simp [h]
  · exact fun x y hx => absurd hx (hnot x)
  · intro key side x hx; simp [h] at hx
  · intro key side; simp [h]
  · intro key side; simp [h]
  · exact fun x hx => absurd hx (hnot x)
  · exact fun x hx => absurd hx (hnot x)
  · exact fun x y hx => absurd hx (hnot x)

/-- Taking orders out of the books. -/
theorem BookInv.mono {st st' : State} (h : BookInv st) (hid : st.nextId ≤ st'.nextId)
    (hsub : ∀ key side, (bookSide st'.orderBooks key side).Sublist (bookSide st.orderBooks key side))
    (hrest : ∀ x, InBook st'.orderBooks x → Resting st'.fills x) : BookInv st' where
  placed := h.placed.mono hsub
  sorted := h.sorted.mono hsub
  time key side := (h.time key side).sublist (hsub key side)
  created x hx := (h.created x ((hsub _ _).subset hx)).trans_le hid
  resting := hrest
  uncrossed x y hx hy := h.uncrossed x y ((hsub _ _).subset hx) ((hsub _ _).subset hy)

theorem bookInv_remove {st : State} (h : BookInv st) (row : OrderRow) :
    BookInv (closeOrder.remove st row) :=
  h.mono (le_refl _) (remove_sublist _ _) fun x hx =>
    h.resting x ((remove_sublist _ _ _ _).subset hx)

theorem bookInv_write {st : State} (h : BookInv st) (row : OrderRow) (status : OrderStatus) :
    BookInv (closeOrder.write st row status) :=
  ⟨h.placed, h.sorted, h.time, h.created, h.resting, h.uncrossed⟩

theorem bookInv_cancelOrder {st : State} (h : BookInv st) (k u : Uuid) :
    BookInv (cancelOrder st k u).1 := by
  unfold cancelOrder
  split
  · exact h
  · exact bookInv_write (bookInv_remove h _) _ _

theorem bookInv_cleanupExpiredOrders {st : State} (h : BookInv st) (now : Time) :
    BookInv (cleanupExpiredOrders st now) := by
  unfold cleanupExpiredOrders
  generalize cleanupExpiredOrders.read st.db now = rows
  induction rows generalizing st with
  | nil => exact h
  | cons row rows ih => exact ih (bookInv_write (bookInv_remove h row) row .expired)

/-! ## Creating an order -/

section Create

variable {st : State} {u : Uuid} {dto : CreateOrderDto}

/-- The new object, before it is matched. -/
structure Newborn (st : State) (o : Order) : Prop where
  inv : BookInv st
  new : New (st.fills o.id)
  last : ∀ x, InBook st.orderBooks x → x.id < o.id
  created : o.id < st.nextId

theorem Newborn.fresh {o : Order} (h : Newborn st o) : ∀ x, InBook st.orderBooks x → x.id ≠ o.id :=
  fun x hx => (h.last x hx).ne

theorem save_newborn (h : BookInv st) {o : Order} (ho : o.id = st.nextId) :
    Newborn (createOrder.save st o) o := by
  have hfresh : ∀ x, InBook st.orderBooks x → x.id < o.id := fun x hx => ho ▸ h.created x hx
  refine ⟨h.mono (Nat.le_succ _) (fun _ _ => .refl _) fun x hx => ?_, ?_, hfresh, ?_⟩
  · rw [Resting, createOrder.save_other st (hfresh x hx).ne]
    exact h.resting x hx
  · exact createOrder.save_self st o
  · rw [ho]
    exact Nat.lt_succ_self _

theorem Newborn.side {o : Order} (h : Newborn st o) :
    Side o (bookSide st.orderBooks o.assetKey o.side.opposite) :=
  h.inv.placed.toSide h.fresh _ _

/-- The orders a match may touch are in the books, and nothing is overfilled. -/
theorem Newborn.matched_inv {o : Order} (h : Newborn st o) :
    BookInv (createOrder.matched st o) := by
  have hsub := match_sublist h.inv.placed h.fresh st.fills
  refine h.inv.mono (le_refl _) hsub fun x hx => ?_
  have hx0 : InBook st.orderBooks x := (hsub _ _).subset hx
  show Resting (matchOrder st.orderBooks st.fills o).fills x
  by_cases hk : x.assetKey = o.assetKey ∧ x.side = o.side.opposite
  · have hbounds := (matchLoop_bounds h.side h.new fun y hy => h.inv.resting y (h.inv.placed.inBook hy)).1
    rw [(matchOrder_eq st.orderBooks st.fills o).1]
    refine hbounds x ?_
    have hx' : x ∈ bookSide (matchOrder st.orderBooks st.fills o).orderBooks x.assetKey x.side := hx
    rwa [(matchOrder_eq st.orderBooks st.fills o).2.2.2, if_pos hk] at hx'
  · rw [Resting, match_frame h.inv.placed h.fresh st.fills hx0 hk]
    exact h.inv.resting x hx0

theorem matched_fills (st : State) (o : Order) :
    (createOrder.matched st o).fills = (bookMatch st.orderBooks st.fills o).fills :=
  (matchOrder_eq st.orderBooks st.fills o).1

theorem Newborn.left_resting {o : Order} (h : Newborn st o) (hq : 0 < o.quantity)
    (hopen : ((createOrder.matched st o).fills o.id).status ∈ openStatuses) :
    Resting (createOrder.matched st o).fills o := by
  have htaker : Taker o (bookMatch st.orderBooks st.fills o) := matchLoop_taker h.side h.new hq
  rw [matched_fills] at hopen
  rw [Resting, matched_fills]
  have hrem : 0 < (bookMatch st.orderBooks st.fills o).remainingQuantity := by
    by_contra hle
    rw [htaker.filled (not_lt.mp hle)] at hopen
    simp [openStatuses] at hopen
  refine ⟨(matchLoop_bounds h.side h.new fun y hy => h.inv.resting y (h.inv.placed.inBook hy)).2, ?_⟩
  have := htaker.remaining
  linarith

theorem Newborn.add_inv [ArraySort] {o : Order} (h : Newborn st o) (hq : 0 < o.quantity)
    (hlimit : o.type = .limit → Priced o.price) (hpriced : Priced o.price)
    (hopen : ((createOrder.matched st o).fills o.id).status ∈ openStatuses) :
    BookInv { (createOrder.matched st o) with
      orderBooks := addToOrderBook (createOrder.matched st o).orderBooks o } := by
  have hm := h.matched_inv
  have hsub : ∀ x, InBook (createOrder.matched st o).orderBooks x → InBook st.orderBooks x :=
    fun x hx => (match_sublist h.inv.placed h.fresh st.fills _ _).subset hx
  have hlast : ∀ x, InBook (createOrder.matched st o).orderBooks x → x.id < o.id :=
    fun x hx => h.last x (hsub x hx)
  have hno : ∀ x, InBook (createOrder.matched st o).orderBooks x → x.assetKey = o.assetKey →
      x.side = o.side.opposite → ¬ Crosses o x :=
    fun x => match_uncrossed h.inv.placed h.inv.sorted h.fresh h.new hq hlimit hopen
  refine ⟨hm.placed.add fun x hx => (hlast x hx).ne, hm.sorted.add hpriced, ?_, ?_, ?_, ?_⟩
  · refine pairwise_add hm.sorted hpriced (fun _ _ _ hab => hab.1) hm.time ?_ ?_
    · exact fun a ha hab => ⟨hab, fun _ => hlast a (hm.placed.inBook ha)⟩
    · refine fun a ha hab => ⟨precedes_of_not hab, fun e => absurd ?_ hab⟩
      obtain ⟨p, hp⟩ := Option.ne_none_iff_exists'.mp hpriced.1
      have hpa : a.price = some p := by rw [← e, hp]
      simp only [Precedes, hp, hpa]
      cases o.side <;> exact le_refl p
  · intro x hx
    rcases inBook_add.mp hx with hx | rfl
    · exact hm.created x hx
    · exact h.created
  · intro x hx
    rcases inBook_add.mp hx with hx | rfl
    · exact hm.resting x hx
    · exact h.left_resting hq hopen
  · intro x y hx hy hk hs
    rcases inBook_add.mp hx with hx' | rfl
    · rcases inBook_add.mp hy with hy' | rfl
      · exact hm.uncrossed x y hx' hy' hk hs
      · intro hc
        have hs' : x.side = y.side.opposite := by rw [hs]; cases x.side <;> rfl
        exact hno x hx' hk.symm hs' (hc.symm hs)
    · rcases inBook_add.mp hy with hy' | rfl
      · exact hno y hy' hk hs
      · cases hside : y.side <;> simp [hside, OrderSide.opposite] at hs

end Create

/-! ## Whole calls -/

/-- The created order has a positive quantity, and a market order without a price that goes through
finds as much on the opposite side. -/
def Deep (st : State) : Op → Prop
  | .createOrder _ dto now fault => 0 < dto.quantity ∧
      (createOrder.validate dto now = .ok () → fault ≠ some .transaction →
        dto.type = .market → ¬ Priced dto.price →
        dto.quantity ≤ depth st.fills (bookSide st.orderBooks
          (getAssetKey dto.assetCode dto.assetIssuer) dto.side.opposite))
  | _ => True

theorem validate_ok {dto : CreateOrderDto} {now : Time} (h : createOrder.validate dto now = .ok ()) :
    dto.type = .limit → Priced dto.price := by
  unfold createOrder.validate at h
  split at h
  · cases h
  · rename_i hv
    intro ht
    by_contra hp
    exact hv ⟨ht, hp⟩

theorem left_priced {st : State} {u : Uuid} {dto : CreateOrderDto} {now : Time}
    {fault : Option CreateFault} {o : Order} (h : BookInv st)
    (hv : createOrder.validate dto now = .ok ()) (ho : o = createOrder.order st.nextId u dto)
    (hd : Deep st (.createOrder u dto now fault)) (hf : fault ≠ some .transaction)
    (hopen : ((createOrder.matched (createOrder.save st o) o).fills o.id).status ∈ openStatuses) :
    Priced o.price := by
  by_contra hp
  have hnew : Newborn (createOrder.save st o) o := save_newborn h (by rw [ho]; rfl)
  subst ho
  have hmarket : dto.type = .market := by
    cases ht : dto.type with
    | market => rfl
    | limit => exact absurd (validate_ok hv ht) hp
  have hdepth := hd.2 hv hf hmarket hp
  have hsame : ∀ x ∈ bookSide st.orderBooks (getAssetKey dto.assetCode dto.assetIssuer)
      dto.side.opposite, (createOrder.save st (createOrder.order st.nextId u dto)).fills x.id =
        st.fills x.id :=
    fun x hx => createOrder.save_other st (h.created x (h.placed.inBook hx)).ne
  rw [← depth_congr hsame] at hdepth
  have hfilled := matchLoop_filled hnew.side hnew.new hd.1 hmarket
    (fun y hy => hnew.inv.resting y (hnew.inv.placed.inBook hy)) hdepth
  rw [matched_fills, bookMatch, hfilled] at hopen
  simp [openStatuses] at hopen

theorem BookInv.congr {st st' : State} (h : BookInv st) (hb : st'.orderBooks = st.orderBooks)
    (hf : st'.fills = st.fills) (hid : st'.nextId = st.nextId) : BookInv st' := by
  refine h.mono hid.ge (fun key side => by rw [hb]) fun x hx => ?_
  rw [hf]
  exact h.resting x (hb ▸ hx)

theorem bookInv_createOrder [ArraySort] {st : State} (u : Uuid) (dto : CreateOrderDto) (now : Time)
    (fault : Option CreateFault) (h : BookInv st) (hd : Deep st (.createOrder u dto now fault)) :
    BookInv (createOrder st u dto now fault).1 := by
  rcases createOrder_cases st u dto now fault with
    ⟨-, hs⟩ | ⟨o, saved, ho, rfl, hv, -, ⟨e, -, hs⟩ | ⟨persisted, hp, hs⟩⟩
  · rw [hs]; exact h
  · have hnew : Newborn (createOrder.save st o) o := save_newborn h (by rw [ho]; rfl)
    rw [hs]
    exact hnew.matched_inv
  · have hnew : Newborn (createOrder.save st o) o := save_newborn h (by rw [ho]; rfl)
    have hq : 0 < o.quantity := by rw [ho]; exact hd.1
    have hlimit : o.type = .limit → Priced o.price := by rw [ho]; exact validate_ok hv
    obtain ⟨hf, -, rfl⟩ := createOrder.persist_ok hp
    rw [decide_eq_false_iff_not] at hf
    rw [hs, createOrder.rest]
    split
    · rename_i hopen
      exact (hnew.add_inv hq hlimit (left_priced h hv ho hd hf hopen) hopen).congr rfl rfl rfl
    · exact hnew.matched_inv.congr rfl rfl rfl

/-- **One call keeps the books in order.** -/
theorem bookInv_step [ArraySort] (st : State) (op : Op) (h : BookInv st) (hd : Deep st op) :
    BookInv (step st op) := by
  cases op with
  | createOrder u dto now fault => exact bookInv_createOrder u dto now fault h hd
  | cancelOrder k u => exact bookInv_cancelOrder h k u
  | cleanupExpiredOrders now => exact bookInv_cleanupExpiredOrders h now

/-- No two orders with a price on opposite sides of one book cross. -/
def Uncrossed (st : State) : Prop :=
  ∀ key, ∀ b ∈ bookSide st.orderBooks key .buy, ∀ a ∈ bookSide st.orderBooks key .sell,
    ∀ p q, b.price = some p → a.price = some q → p < q

theorem BookInv.uncrossed_books {st : State} (h : BookInv st) : Uncrossed st := by
  intro key b hb a ha p q hp hq
  obtain ⟨hbk, hbs⟩ := h.placed.placed key .buy b hb
  obtain ⟨hak, has⟩ := h.placed.placed key .sell a ha
  by_contra hle
  refine h.uncrossed b a (h.placed.inBook hb) (h.placed.inBook ha) (hak.trans hbk.symm)
    (by rw [has, hbs]; rfl) ⟨p, q, hp, hq, ?_⟩
  rw [hbs]
  exact not_lt.mp hle

/-! ## Limit orders -/

/-- The number of a price; a limit order has one. -/
def Order.limitPrice (o : Order) : ℚ := o.price.getD 0

/-- Price and time priority, fills within their quantities, and no crossing, in every book. -/
structure Ordered (st : State) : Prop where
  bids : ∀ key, (bookSide st.orderBooks key .buy).Pairwise fun a b => b.limitPrice ≤ a.limitPrice
  asks : ∀ key, (bookSide st.orderBooks key .sell).Pairwise fun a b => a.limitPrice ≤ b.limitPrice
  time : ∀ key side, (bookSide st.orderBooks key side).Pairwise fun a b =>
    a.limitPrice = b.limitPrice → a.id < b.id
  resting : ∀ key side, ∀ x ∈ bookSide st.orderBooks key side,
    0 ≤ (st.fills x.id).filledQuantity ∧ (st.fills x.id).filledQuantity < x.quantity
  uncrossed : ∀ key, ∀ b ∈ bookSide st.orderBooks key .buy,
    ∀ a ∈ bookSide st.orderBooks key .sell, b.limitPrice < a.limitPrice

/-- A limit order of positive price and quantity, a cancellation or an expiry. -/
def Op.PositiveLimit : Op → Prop
  | .createOrder _ dto _ _ => dto.type = .limit ∧ 0 < dto.quantity ∧ ∃ p, 0 < p ∧ dto.price = some p
  | _ => True

theorem deep_of_positiveLimit {st : State} {op : Op} (h : op.PositiveLimit) : Deep st op := by
  cases op with
  | createOrder u dto now fault => exact ⟨h.2.1, fun _ _ hm => by rw [h.1] at hm; cases hm⟩
  | cancelOrder | cleanupExpiredOrders => trivial

theorem price_eq_limitPrice {o : Order} (h : Priced o.price) : o.price = some o.limitPrice := by
  obtain ⟨p, hp⟩ := Option.ne_none_iff_exists'.mp h.1
  rw [Order.limitPrice, hp]
  rfl

theorem BookInv.ordered {st : State} (h : BookInv st) : Ordered st := by
  have hprice : ∀ key side, ∀ x ∈ bookSide st.orderBooks key side, x.price = some x.limitPrice :=
    fun key side x hx => price_eq_limitPrice (h.sorted.priced key side x hx)
  have hbefore : ∀ key side, (bookSide st.orderBooks key side).Pairwise fun a b =>
      side.Reaches a.limitPrice b.limitPrice ∧ (a.limitPrice = b.limitPrice → a.id < b.id) := by
    intro key side
    refine (h.time key side).imp_of_mem fun ha hb hab => ?_
    have hpa := hprice key side _ ha
    have hpb := hprice key side _ hb
    obtain ⟨hr, ht⟩ := hab
    simp only [Precedes, hpa, hpb] at hr
    exact ⟨hr, fun e => ht (by rw [hpa, hpb, e])⟩
  refine ⟨fun key => (hbefore key .buy).imp fun hab => hab.1,
    fun key => (hbefore key .sell).imp fun hab => hab.1,
    fun key side => (hbefore key side).imp fun hab => hab.2,
    fun key side x hx => h.resting x (h.placed.inBook hx), fun key b hb a ha => ?_⟩
  exact h.uncrossed_books key b hb a ha _ _ (hprice _ _ b hb) (hprice _ _ a ha)

/-- **Runs of limit orders keep every book in price and time priority and uncrossed**, from any
state whose books are empty, whatever the transactions do. -/
theorem limit_books_ordered [ArraySort] {st : State}
    (hempty : ∀ key side, bookSide st.orderBooks key side = []) (ops : List Op) (hops : ∀ op ∈ ops, op.PositiveLimit) : Always step Ordered st ops :=
  always_of_inv (G := fun _ op => op.PositiveLimit) (fun _ h => h.ordered)
    (fun st op h hop => bookInv_step st op h (deep_of_positiveLimit hop)) (bookInv_of_empty hempty)
    (along_of_forall hops)

/-- An order of `XLM` without an expiry. -/
def orderDto (side : OrderSide) (type : OrderType) (quantity : ℚ) (price : Option ℚ) : CreateOrderDto :=
  ⟨side, type, "XLM", none, quantity, price, none⟩

/-- Two bids of one price, an ask that fills the first and half of the second, and a cancellation. -/
def limitRun : List Op :=
  [.createOrder 1 (orderDto .buy .limit 4 (some 100)) 0 none,
    .createOrder 2 (orderDto .buy .limit 4 (some 100)) 0 none,
    .createOrder 3 (orderDto .sell .limit 6 (some 90)) 0 none,
    .createOrder 3 (orderDto .sell .limit 6 (some 110)) 0 none,
    .cancelOrder 3 3]

open Lib.Insertion in
theorem limitRun_ordered : Always step Ordered State.empty limitRun ∧
    (bookSide (run step State.empty limitRun).orderBooks "XLM" .buy).map Order.id = [1] ∧
    bookSide (run step State.empty limitRun).orderBooks "XLM" .sell = [] := by
  refine ⟨limit_books_ordered (fun _ _ => rfl) limitRun ?_, by decide +kernel, by decide +kernel⟩
  intro op hop
  simp only [limitRun, List.mem_cons, List.not_mem_nil, or_false] at hop
  rcases hop with rfl | rfl | rfl | rfl | rfl
  · exact ⟨rfl, by decide +kernel, 100, by decide +kernel, rfl⟩
  · exact ⟨rfl, by decide +kernel, 100, by decide +kernel, rfl⟩
  · exact ⟨rfl, by decide +kernel, 90, by decide +kernel, rfl⟩
  · exact ⟨rfl, by decide +kernel, 110, by decide +kernel, rfl⟩
  · trivial

/-! ## Market orders -/

/-- Every trade of a call has a price, that of an order in the books that it names. -/
def TradesPriced [Arithmetic] (st : State) (op : Op) : Prop :=
  ∀ t ∈ produced st op,
    ∃ x p, InBook st.orderBooks x ∧ t.Names x.id ∧ x.price = some p ∧ t.price = some p

theorem BookInv.tradesPriced {st : State} (h : BookInv st) (op : Op) : TradesPriced st op := by
  cases op with
  | createOrder u dto now fault =>
    intro t ht
    by_cases hgo : createOrder.validate dto now = .ok () ∧ fault ≠ some .save
    · have hnew : Newborn (createOrder.save st (createOrder.order st.nextId u dto))
          (createOrder.order st.nextId u dto) := save_newborn h rfl
      have hwalk := matchLoop_walk (createOrder.save st (createOrder.order st.nextId u dto)).fills
        hnew.side
      rw [produced, if_pos hgo, State.matchOrder, (matchOrder_eq _ _ _).2.1] at ht
      obtain ⟨x, hx, q, rfl⟩ := hwalk.trades t ht
      have hxb := hwalk.touched x hx
      have hp := price_eq_limitPrice (hnew.inv.sorted.priced _ _ x hxb)
      exact ⟨x, x.limitPrice, hnew.inv.placed.inBook hxb, tradeOf_names.mpr (.inr rfl), hp, hp⟩
    · rw [produced, if_neg hgo] at ht
      cases ht
  | cancelOrder | cleanupExpiredOrders => exact List.forall_mem_nil _

/-- Runs that leave no order without a price over keep the books uncrossed and price every trade. -/
theorem books_uncrossed_of_deep [ArraySort] {st : State}
    (hempty : ∀ key side, bookSide st.orderBooks key side = []) (ops : List Op)
    (hdeep : Along step Deep st ops) :
    Along step TradesPriced st ops ∧ Always step Uncrossed st ops :=
  ⟨along_of_inv (fun _ op h _ => h.tradesPriced op) bookInv_step (bookInv_of_empty hempty) hdeep,
    always_of_inv (fun _ h => h.uncrossed_books) bookInv_step (bookInv_of_empty hempty) hdeep⟩

end Trading
end TradeCore
