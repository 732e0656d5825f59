import TradeCore.Trading.Objects
import TradeCore.Trading.Sweep

/-!
# TradeCore.Trading.Statuses

The status of an order against what is filled of it.

Matching sets the status of the new order at every trade, but of the resting order only when it is
filled. So the statuses are right as long as no new order ends inside a resting order of which nothing
is filled yet, and wrong from then on (`always_statuses_iff`).
-/

namespace TradeCore
namespace Trading

open Lib Lib.Exact

/-- The status is the one that goes with what is filled. -/
structure StatusAgrees (quantity : ℚ) (fill : Fill) : Prop where
  filled : fill.status = .filled ↔ fill.filledQuantity = quantity
  partiallyFilled : fill.status = .partiallyFilled ↔
    0 < fill.filledQuantity ∧ fill.filledQuantity < quantity
  opened : fill.status = .open ↔ fill.filledQuantity = 0

/-- A positive quantity, filled within it, and the status that goes with that. -/
structure Consistent (o : Order) (fill : Fill) : Prop where
  positive : 0 < o.quantity
  nonneg : 0 ≤ fill.filledQuantity
  le : fill.filledQuantity ≤ o.quantity
  status : StatusAgrees o.quantity fill

theorem consistent_new {o : Order} (h : 0 < o.quantity) : Consistent o ⟨0, .open⟩ :=
  ⟨h, le_refl _, h.le, by simp [h.ne], by simp, by simp⟩

variable {o x : Order} {fill : Fill} {q : ℚ}

theorem consistent_filled (h : 0 < o.quantity) (hf : fill.filledQuantity = o.quantity)
    (hs : fill.status = .filled) : Consistent o fill := by
  refine ⟨h, by rw [hf]; exact h.le, hf.le, ?_, ?_, ?_⟩
  · simp [hs, hf]
  · simp [hs, hf]
  · simp [hs, hf, h.ne']

theorem consistent_partial (h0 : 0 < fill.filledQuantity) (hlt : fill.filledQuantity < o.quantity)
    (hs : fill.status = .partiallyFilled) : Consistent o fill := by
  refine ⟨h0.trans hlt, h0.le, hlt.le, ?_, ?_, ?_⟩
  · simp [hs, hlt.ne]
  · simp [hs, h0, hlt]
  · simp [hs, h0.ne']

theorem Consistent.taker (h : Consistent o fill) (hq : 0 ≤ q)
    (hle : fill.filledQuantity + q ≤ o.quantity) : Consistent o (takerFill o fill q) := by
  by_cases hfull : o.quantity ≤ fill.filledQuantity + q
  · refine consistent_filled h.positive (le_antisymm hle hfull) ?_
    rw [takerFill_eq, if_pos hfull]
  · by_cases hpos : 0 < fill.filledQuantity + q
    · refine consistent_partial hpos (not_le.mp hfull) ?_
      rw [takerFill_eq, if_neg hfull, if_pos hpos]
    · -- nothing was filled and nothing is added
      have hnon := h.nonneg
      have hzero : q = 0 := by linarith
      have hsame : takerFill o fill q = fill := by
        rw [takerFill_eq, if_neg hfull, if_neg hpos, hzero, add_zero]
      rw [hsame]
      exact h

/-- The resting order keeps its status unless it is filled, which is right when it was filled in
part before. -/
theorem Consistent.maker (h : Consistent x fill) (hq : 0 ≤ q)
    (hle : fill.filledQuantity + q ≤ x.quantity)
    (hpart : fill.filledQuantity + q < x.quantity → 0 < fill.filledQuantity) :
    Consistent x (makerFill x fill q) := by
  by_cases hfull : x.quantity ≤ fill.filledQuantity + q
  · refine consistent_filled h.positive (le_antisymm hle hfull) ?_
    rw [makerFill_eq, if_pos hfull]
  · have hlt := not_le.mp hfull
    have hpos := hpart hlt
    have hstatus : fill.status = .partiallyFilled :=
      h.status.partiallyFilled.mpr ⟨hpos, by linarith⟩
    refine consistent_partial (add_pos_of_pos_of_nonneg hpos hq) hlt ?_
    rw [makerFill_eq, if_neg hfull, hstatus]

theorem matchLoop_consistent {fills : Uuid → Fill} {opp : List Order} (hside : Side o opp)
    (hnew : Consistent o (fills o.id)) (hopp : ∀ x ∈ opp, 0 ≤ left fills x) :
    Consistent o ((matchLoop o fills opp).fills o.id) := by
  refine (matchLoop_walk_inv (I := fun s => Consistent o (s.fills o.id) ∧
    s.remainingQuantity = left s.fills o ∧ ∀ x ∈ s.oppositeOrders, 0 ≤ left s.fills x) hside
    ⟨hnew, matchStart_remaining hnew.nonneg, hopp⟩ ?_).2.1
  rintro s best rest - ⟨hc, hrem, hleft⟩ heq hpos ⟨hne, hrest⟩
  rw [heq] at hleft
  have hq0 : 0 ≤ tradeQuantity s best := le_min hpos.le (hleft best (.head _))
  have hqr : tradeQuantity s best ≤ left s.fills o := hrem ▸ min_le_left _ _
  have hqb : tradeQuantity s best ≤ left s.fills best := min_le_right _ _
  have htaker : (matchHead o best rest s).fills o.id =
      takerFill o (s.fills o.id) (tradeQuantity s best) := matchHead_fills_taker hne
  have htail : ∀ x ∈ rest, 0 ≤ left (matchHead o best rest s).fills x := by
    intro x hx
    rw [left, matchHead_fills_other (hrest x hx).1 (hrest x hx).2]
    exact hleft x (.tail _ hx)
  refine ⟨?_, ?_, ?_⟩
  · rw [htaker]
    refine hc.taker hq0 ?_
    rw [left] at hqr
    linarith
  · show s.remainingQuantity - tradeQuantity s best = _
    rw [left, htaker, takerFill_filled, hrem, left]
    ring
  · rw [matchHead_opposite]
    split
    · exact htail
    · intro x hx
      rcases List.mem_cons.mp hx with rfl | hx
      · rw [left, matchHead_fills_maker, makerFill_filled]
        rw [left] at hqb
        linarith
      · exact htail x hx

/-! ## Runs -/

/-- Every order has the right status, in memory and, unless it was cancelled or has expired, in the
table. -/
def Statuses (st : State) : Prop :=
  ∀ row ∈ st.db.orders, StatusAgrees row.order.quantity (st.fills row.id) ∧
    (row.fill.status ∉ closedStatuses → StatusAgrees row.order.quantity row.fill)

/-- The side of the book a new order is matched with. -/
def opposite (st : State) (o : Order) : List Order :=
  bookSide st.orderBooks o.assetKey o.side.opposite

/-- The new order does not end inside a resting order of which nothing is filled yet. -/
def EndsClean (st : State) : Op → Prop
  | .createOrder u dto now fault => createOrder.validate dto now = .ok () → fault ≠ some .save →
      EveryMet (createOrder.order st.nextId u dto) st.fills
        (fun r x => r < left st.fills x → 0 < (st.fills x.id).filledQuantity) dto.quantity
        (opposite st (createOrder.order st.nextId u dto))
  | _ => True

def Op.Positive : Op → Prop
  | .createOrder _ dto _ _ => 0 < dto.quantity
  | _ => True

instance : DecidablePred Op.Positive
  | .createOrder _ dto _ _ => inferInstanceAs (Decidable (0 < dto.quantity))
  | .cancelOrder _ _ | .cleanupExpiredOrders _ => inferInstanceAs (Decidable True)

theorem Kept.statuses {st : State} (h : Kept Consistent st) : Statuses st := by
  intro row hrow
  have hlook : st.db.order? row.id = some row := lookup_of_mem h.keys hrow
  refine ⟨(h.object _ _ hlook).status, fun hclosed => ?_⟩
  obtain ⟨s, hs, he⟩ := h.row _ _ hlook
  rw [← he.resolve_right hclosed] at hs
  exact hs.status

/-- What the match of a new order takes, from the objects as they were before the order was made. -/
theorem Kept.match_taken {P : Order → Fill → Prop} {st : State} {o : Order} (h : Kept P st)
    (ho : o.id = st.nextId) :
    ∃ ts, ts = taken o st.fills o.quantity (opposite st o) ∧
      ((createOrder.save st o).matchOrder o).trades = ts.map (fun d => tradeOf o d.1 d.2) ∧
      ((createOrder.save st o).matchOrder o).touchedOrders = ts.map Prod.fst ∧
      (∀ d ∈ ts, ((createOrder.save st o).matchOrder o).fills d.1.id =
        makerFill d.1 (st.fills d.1.id) d.2) ∧
      (((createOrder.save st o).matchOrder o).fills o.id).filledQuantity = total ts := by
  have hself : (createOrder.save st o).fills o.id = ⟨0, .open⟩ := createOrder.save_self st o
  have hsame : ∀ x ∈ opposite st o, (createOrder.save st o).fills x.id = st.fills x.id :=
    fun x hx => createOrder.save_other st (h.fresh ho x (h.placed.inBook hx))
  have hstart : (matchStart o (createOrder.save st o).fills (opposite st o)).remainingQuantity =
      o.quantity := by
    rw [matchStart_remaining (by rw [hself]), left, hself, sub_zero]
  obtain ⟨ts, hts, htrades, htouched, hmakers, htaker, -⟩ :=
    bookMatch_sweep (createOrder.save st o).fills (h.placed.toSide (h.fresh ho) _ _)
  have hts' : ts = taken o st.fills o.quantity (opposite st o) := by
    rw [hts, ← taken_congr hsame, ← hstart]
    rfl
  refine ⟨ts, hts', htrades, htouched, fun d hd => ?_, htaker.trans ?_⟩
  · rw [← hsame d.1 (taken_part (hts' ▸ hd)).1]
    exact hmakers d hd
  · rw [hself, zero_add]

section Step

variable {st : State} {u : Uuid} {dto : CreateOrderDto} {now : Time} {fault : Option CreateFault}

theorem endsClean_iff {o : Order} {fills : Uuid → Fill} {r : ℚ} {opp : List Order} :
    EveryMet o fills (fun r x => r < left fills x → 0 < (fills x.id).filledQuantity) r opp ↔
      ∀ d ∈ taken o fills r opp, d.2 < left fills d.1 → 0 < (fills d.1.id).filledQuantity := by
  refine everyMet_iff (Q := fun x q => q < left fills x → 0 < (fills x.id).filledQuantity)
    fun r x _ => ?_
  rw [min_lt_iff, or_iff_left (lt_irrefl _)]

theorem consistent_match (h : Kept Consistent st) {o : Order} (ho : o.id = st.nextId)
    (hq : 0 < o.quantity) (hclean : ∀ d ∈ taken o st.fills o.quantity (opposite st o),
      d.2 < left st.fills d.1 → 0 < (st.fills d.1.id).filledQuantity) :
    MatchKeeps Consistent st o := by
  obtain ⟨ts, hts, -, htouched, hmakers, -⟩ := h.match_taken ho
  have hleft : ∀ x ∈ opposite st o, 0 ≤ left st.fills x :=
    fun x hx => sub_nonneg.mpr (h.inBook_object (h.placed.inBook hx)).le
  refine ⟨consistent_new hq, List.forall_mem_cons.mpr ⟨?_, fun x hx => ?_⟩⟩
  · have hfills := (matchOrder_eq (createOrder.save st o).orderBooks (createOrder.save st o).fills o).1
    rw [State.matchOrder, hfills]
    refine matchLoop_consistent (h.placed.toSide (h.fresh ho) _ _) ?_ fun x hx => ?_
    · rw [createOrder.save_self]
      exact consistent_new hq
    · rw [left, createOrder.save_other st (h.fresh ho x (h.placed.inBook hx))]
      exact hleft x hx
  · rw [htouched] at hx
    obtain ⟨d, hd, rfl⟩ := List.mem_map.mp hx
    have hdt : d ∈ taken o st.fills o.quantity (opposite st o) := hts ▸ hd
    obtain ⟨hopp, r', hr', he⟩ := taken_part hdt
    have hle : d.2 ≤ left st.fills d.1 := taken_le_left hdt
    rw [hmakers d hd]
    refine (h.inBook_object (h.placed.inBook hopp)).maker ?_ ?_ fun hlt => hclean d hdt ?_
    · rw [he]
      exact le_min hr'.le (hleft d.1 hopp)
    · rw [left] at hle
      linarith
    · rw [left]
      linarith

theorem kept_step [ArraySort] (st : State) (op : Op) (h : Kept Consistent st) (hpos : op.Positive)
    (hclean : EndsClean st op) : Kept Consistent (step st op) := by
  cases op with
  | createOrder u dto now fault =>
    exact h.createOrder fun hv hf =>
      consistent_match h rfl hpos (endsClean_iff.mp (hclean hv hf))
  | cancelOrder k u => exact h.cancelOrder k u
  | cleanupExpiredOrders now => exact h.cleanupExpiredOrders now

theorem clean_of_statuses [ArraySort] (st : State) (op : Op) (h : Kept Consistent st)
    (hs : Statuses (step st op)) : EndsClean st op := by
  cases op with
  | cancelOrder | cleanupExpiredOrders => trivial
  | createOrder u dto now fault =>
    intro hv hf
    refine endsClean_iff.mpr fun d hd hlt => ?_
    by_contra hnone
    have htriv : Kept (fun _ _ => True) (step st (.createOrder u dto now fault)) :=
      (h.mono fun _ _ _ => trivial).createOrder fun _ _ => ⟨trivial, fun _ _ => trivial⟩
    obtain ⟨hfills, -, hbooks⟩ := h.created_order (u := u) hv hf rfl
    obtain ⟨ts, hts, -, -, hmakers, -⟩ := h.match_taken (o := createOrder.order st.nextId u dto) rfl
    obtain ⟨hopp, r', hr', he⟩ := taken_part hd
    have hin : InBook st.orderBooks d.1 := h.placed.inBook hopp
    have hc : Consistent d.1 (st.fills d.1.id) := h.inBook_object hin
    have hzero : (st.fills d.1.id).filledQuantity = 0 := le_antisymm (not_lt.mp hnone) hc.nonneg
    have hopen : (st.fills d.1.id).status = .open := hc.status.opened.mpr hzero
    have hd2 : 0 < d.2 := by
      rcases min_choice r' (left st.fills d.1) with hm | hm
      · rw [he, hm]
        exact hr'
      · rw [he, hm] at hlt
        exact absurd hlt (lt_irrefl _)
    have hmaker := hmakers d (by rw [hts]; exact hd)
    have hkeep : ¬ d.1.quantity ≤ (st.fills d.1.id).filledQuantity + d.2 := by
      rw [left] at hlt
      linarith
    have hstatus : (((createOrder.save st (createOrder.order st.nextId u dto)).matchOrder
        (createOrder.order st.nextId u dto)).fills d.1.id).status = .open := by
      rw [hmaker, makerFill_eq, if_neg hkeep, hopen]
    -- it is still in the book, so it has a row
    have hin' : InBook (step st (.createOrder u dto now fault)).orderBooks d.1 := by
      refine hbooks d.1 ?_
      by_contra hgone
      have hfilled := (match_gone h.placed (h.fresh rfl) _ hin hgone).2
      exact absurd (hstatus.symm.trans hfilled) (by simp)
    obtain ⟨fill, hrow⟩ := htriv.stored d.1 hin'
    have hagree := (hs ⟨d.1, fill⟩ (mem_of_lookup hrow)).1
    have hzero' := hagree.opened.mp (by
      show ((createOrder st u dto now fault).1.fills d.1.id).status = _
      rw [hfills, hstatus])
    have hfilled' : ((createOrder st u dto now fault).1.fills d.1.id).filledQuantity = d.2 := by
      rw [hfills, hmaker, makerFill_filled, hzero, zero_add]
    exact hd2.ne' (hfilled'.symm.trans hzero')

end Step

/-- The statuses are right after every call exactly when every new order ends clean. -/
theorem always_statuses_iff [ArraySort] {ops : List Op} (hops : ∀ op ∈ ops, op.Positive) :
    Always step Statuses State.empty ops ↔ Along step EndsClean State.empty ops :=
  always_iff_along_of (H := fun _ op => op.Positive) (fun _ h => h.statuses)
    (fun st op h hp hG => kept_step st op h hp hG) (fun st op h _ hs => clean_of_statuses st op h hs)
    (kept_empty Consistent) (along_of_forall hops)

end Trading
end TradeCore
