import TradeCore.Trading.Sweep

/-!
# TradeCore.Trading.Roles

Who is maker and who is taker in a trade.

`matchOrder` takes the roles from the side of the new order: the seller is the maker and the buyer
the taker. So the resting order is the maker exactly when the new order buys (`roles_iff_buy`); a
selling order that trades is named as the maker of its own trades (`seller_is_maker`). The price is
that of the resting order on both sides. The arithmetic plays no part.
-/

namespace TradeCore
namespace Trading

open Lib Lib.Doubles

/-- The trade names the resting order `x` as maker and the new one as taker, at the price of `x`, which
is within the limit of the new one. -/
structure Roles (o x : Order) (t : Trade) : Prop where
  maker : t.makerOrderId = x.id ∧ t.makerUserId = x.userId
  taker : t.takerOrderId = o.id ∧ t.takerUserId = o.userId
  price : t.price = x.price
  limit : o.type = .limit → ∃ p q, o.price = some p ∧ t.price = some q ∧ o.side.Reaches p q

theorem matchLoop_trades [Arithmetic] (o : Order) (fills : Uuid → Fill) (opp : List Order) :
    ∀ t ∈ (matchLoop o fills opp).trades, ∃ x ∈ opp, Accepts o x ∧ ∃ q, t = tradeOf o x q := by
  refine (matchLoop_inv (I := fun s => (∀ x ∈ s.oppositeOrders, x ∈ opp) ∧
    ∀ t ∈ s.trades, ∃ x ∈ opp, Accepts o x ∧ ∃ q, t = tradeOf o x q)
    ⟨fun _ hx => hx, List.forall_mem_nil _⟩ ?_).2
  rintro s best rest ⟨hsub, htrades⟩ hopp - hacc
  rw [hopp] at hsub
  refine ⟨fun x hx => ?_, fun t ht => ?_⟩
  · exact hsub x (mem_of_mem_matchHead hx)
  · rcases List.mem_append.mp ht with ht | ht
    · exact htrades t ht
    · exact ⟨best, hsub best (.head _), hacc, _, List.mem_singleton.mp ht⟩

theorem matchLoop_head_trades [Arithmetic] {o best : Order} {fills : Uuid → Fill} {rest : List Order}
    (hrem : 0 < (matchStart o fills (best :: rest)).remainingQuantity) (hacc : Accepts o best) :
    tradeOf o best (tradeQuantity (matchStart o fills (best :: rest)) best) ∈
      (matchLoop o fills (best :: rest)).trades := by
  have hstep : matchStep o (matchStart o fills (best :: rest)) =
      some (matchHead o best rest (matchStart o fills (best :: rest))) := by
    show (if _ then _ else if _ then _ else _) = _
    rw [if_neg (not_le.mpr hrem), if_neg (not_not.mpr hacc)]
  rw [matchLoop, List.length_cons, Nat.mul_succ, loop_some hstep]
  generalize ht : tradeOf o best _ = t
  refine loop_inv (I := fun s : MatchState => t ∈ s.trades) (fun s s' hs hstep' => ?_) ?_ _
  · obtain ⟨best', rest', -, -, -, rfl⟩ := matchStep_some hstep'
    exact List.mem_append_left _ hs
  · rw [← ht]
    exact List.mem_append_right _ (.head _)

theorem roles_of_buy {x : Order} {q : ℚ} (ho : o.side = .buy) (hacc : Accepts o x) :
    Roles o x (tradeOf o x q) := by
  refine ⟨?_, ?_, rfl, fun hl => ?_⟩
  · simp [tradeOf, ho]
  · simp [tradeOf, ho]
  · rcases accepts_iff.mp hacc with hm | ⟨p, q', hp, hq, -, -, hr⟩
    · rw [hl] at hm
      cases hm
    · exact ⟨p, q', hp, hq, hr⟩

/-- **Exactly a buying order, or one that trades nothing, leaves trades with the resting order as
maker.** -/
theorem roles_iff_buy [Arithmetic] {books : String → Option OrderBook} {fills : Uuid → Fill} {o : Order}
    (hfresh : ∀ x ∈ bookSide books o.assetKey o.side.opposite, o.id ≠ x.id) :
    (∀ t ∈ (matchOrder books fills o).trades,
      ∃ x ∈ bookSide books o.assetKey o.side.opposite, Roles o x t) ↔
    o.side = .buy ∨
      (matchStart o fills (bookSide books o.assetKey o.side.opposite)).remainingQuantity ≤ 0 ∨
      ∀ x ∈ (bookSide books o.assetKey o.side.opposite).head?, ¬ CrossesLimit o x := by
  rw [(matchOrder_eq books fills o).2.1, bookMatch]
  generalize bookSide books o.assetKey o.side.opposite = opp at hfresh ⊢
  constructor
  · intro h
    by_contra hnot
    simp only [not_or, not_forall, not_not, not_le, exists_prop] at hnot
    obtain ⟨hside, hrem, best, hbest, hcross⟩ := hnot
    obtain ⟨rest, rfl⟩ : ∃ rest, opp = best :: rest := by
      cases opp with
      | nil => cases hbest
      | cons x rest => exact ⟨rest, by rw [Option.mem_some.mp hbest]⟩
    obtain ⟨x, hx, hroles⟩ := h _ (matchLoop_head_trades hrem (accepts_iff.mpr hcross))
    have hmaker := hroles.maker.1
    rw [tradeOf, if_neg hside] at hmaker
    exact hfresh x hx hmaker
  · intro hcond t ht
    obtain ⟨x, hx, hacc, q, rfl⟩ := matchLoop_trades o fills opp t ht
    rcases hcond with hbuy | hstop
    · exact ⟨x, hx, roles_of_buy hbuy hacc⟩
    · have hstart : matchLoop o fills opp = matchStart o fills opp := by
        refine loop_none ?_ _
        cases opp with
        | nil => rfl
        | cons best rest =>
          show (if _ then _ else if _ then _ else _) = _
          rcases hstop with hrem | hhead
          · rw [if_pos hrem]
          · have hnot : ¬ Accepts o best := fun ha => hhead best rfl (accepts_iff.mp ha)
            rw [if_pos hnot, ite_self]
      rw [hstart] at ht
      cases ht

/-- A bid of 10 at 100 that rests, and an ask of 4 at 100 that comes in. -/
def bidRun : List Op := [.createOrder 1 (orderDto .buy .limit 10 (some 100)) 0 none]

def incomingAsk : Order := createOrder.order 1 2 (orderDto .sell .limit 4 (some 100))

open Lib.Insertion in
def bidState : State := createOrder.save (run step State.empty bidRun) incomingAsk

/-- The incoming ask is named as the maker of the trade and the resting bid as the taker. -/
theorem seller_is_maker :
    (bidState.matchOrder incomingAsk).trades = [tradeOf incomingAsk
      (createOrder.order 0 1 (orderDto .buy .limit 10 (some 100))) 4] ∧
    ¬ ∀ t ∈ (matchOrder bidState.orderBooks bidState.fills incomingAsk).trades,
      ∃ x ∈ bookSide bidState.orderBooks incomingAsk.assetKey incomingAsk.side.opposite,
        Roles incomingAsk x t := by
  have hside : bookSide bidState.orderBooks incomingAsk.assetKey incomingAsk.side.opposite =
      [createOrder.order 0 1 (orderDto .buy .limit 10 (some 100))] := by decide +kernel
  have htrades : (matchOrder bidState.orderBooks bidState.fills incomingAsk).trades = [tradeOf incomingAsk
      (createOrder.order 0 1 (orderDto .buy .limit 10 (some 100))) 4] := by decide +kernel
  refine ⟨htrades, fun h => ?_⟩
  rw [htrades, hside] at h
  obtain ⟨x, hx, hroles⟩ := h _ (.head _)
  rw [List.mem_singleton] at hx
  have hmaker := hroles.maker.1
  rw [hx] at hmaker
  exact absurd hmaker (by decide)

/-- The bid of 10 at 100 again, coming in on three asks. -/
theorem askBid_roles :
    (matchOrder askState.orderBooks askState.fills askBid).trades.map Trade.takerOrderId = [3, 3] ∧
    ∀ t ∈ (matchOrder askState.orderBooks askState.fills askBid).trades,
      ∃ x ∈ bookSide askState.orderBooks askBid.assetKey askBid.side.opposite, Roles askBid x t :=
  ⟨by decide +kernel, (roles_iff_buy (by decide +kernel)).mpr (.inl rfl)⟩

end Trading
end TradeCore
