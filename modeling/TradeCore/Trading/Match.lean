import TradeCore.Trading.Model
import Mathlib.Algebra.BigOperators.Group.List.Basic
import Mathlib.Algebra.Order.BigOperators.Group.List
import Mathlib.Algebra.Order.Field.Rat
import Mathlib.Tactic.Linarith
import Mathlib.Tactic.Ring

/-!
# TradeCore.Trading.Match

The matching loop.

* `matchLoop_exit`: the loop ends, because the order is used up, the opposite side is empty, or its
  head is not accepted.
* `matchLoop_walk`: what it does to the side and to the objects. A prefix of the side is filled and
  removed, the rest keeps its status, and nothing else is touched.
* `matchLoop_traded`: every `filledQuantity` grows by what the trades that name the order say.
* `matchLoop_bounds`: with positive quantities nothing is overfilled.
* `matchLoop_uncrossed`: what is left of a limit order reaches nothing that is left of a sorted side.
-/

namespace TradeCore
namespace Trading

open Lib Lib.Exact

variable {o : Order} {s s' : MatchState} {fills : Uuid → Fill} {opp : List Order}

/-! ## One iteration -/

section Generic

variable [Arithmetic]

theorem matchStep_some (h : matchStep o s = some s') :
    ∃ best rest, s.oppositeOrders = best :: rest ∧ 0 < s.remainingQuantity ∧ Accepts o best ∧
      s' = matchHead o best rest s := by
  unfold matchStep at h
  split at h
  · cases h
  · rename_i best rest hopp
    split at h
    · cases h
    · rename_i hrem
      split at h
      · cases h
      · rename_i hacc
        cases h
        exact ⟨best, rest, hopp, not_le.mp hrem, not_not.mp hacc, rfl⟩

theorem matchStep_none (h : matchStep o s = none) :
    s.remainingQuantity ≤ 0 ∨ s.oppositeOrders = [] ∨
      ∃ best rest, s.oppositeOrders = best :: rest ∧ ¬ Accepts o best := by
  unfold matchStep at h
  split at h
  · rename_i hopp
    exact .inr (.inl hopp)
  · rename_i best rest hopp
    split at h
    · rename_i hrem
      exact .inl hrem
    · split at h
      · rename_i hacc
        exact .inr (.inr ⟨best, rest, hopp, hacc⟩)
      · cases h

/-- The loop rule: an invariant of the body is one of the loop. -/
theorem matchLoop_inv {I : MatchState → Prop} (h0 : I (matchStart o fills opp))
    (hbody : ∀ s best rest, I s → s.oppositeOrders = best :: rest → 0 < s.remainingQuantity →
      Accepts o best → I (matchHead o best rest s)) : I (matchLoop o fills opp) := by
  refine loop_inv (fun s s' hI hs => ?_) h0 _
  obtain ⟨best, rest, hopp, hrem, hacc, rfl⟩ := matchStep_some hs
  exact hbody s best rest hI hopp hrem hacc

end Generic

theorem takerFill_eq (o : Order) (fill : Fill) (q : ℚ) : takerFill o fill q =
    ⟨fill.filledQuantity + q, if o.quantity ≤ fill.filledQuantity + q then .filled
      else if 0 < fill.filledQuantity + q then .partiallyFilled else fill.status⟩ := rfl

theorem makerFill_eq (o : Order) (fill : Fill) (q : ℚ) : makerFill o fill q =
    ⟨fill.filledQuantity + q,
      if o.quantity ≤ fill.filledQuantity + q then .filled else fill.status⟩ := rfl

theorem tradeQuantity_eq (s : MatchState) (x : Order) : tradeQuantity s x =
    min s.remainingQuantity (x.quantity - (s.fills x.id).filledQuantity) := rfl

/-- The head stays only when the new order is used up. -/
theorem matchHead_remaining {best : Order} {rest : List Order}
    (h : ¬ best.quantity ≤ (s.fills best.id).filledQuantity + tradeQuantity s best) :
    (matchHead o best rest s).remainingQuantity = 0 := by
  have hq : tradeQuantity s best = s.remainingQuantity := by
    rcases min_choice s.remainingQuantity (best.quantity - (s.fills best.id).filledQuantity) with
      hm | hm
    · exact hm
    · rw [tradeQuantity_eq, hm] at h
      exact absurd (by linarith) h
  show s.remainingQuantity - tradeQuantity s best = 0
  rw [hq, sub_self]

theorem matchHead_opposite (best : Order) (rest : List Order) :
    (matchHead o best rest s).oppositeOrders =
      if best.quantity ≤ (s.fills best.id).filledQuantity + tradeQuantity s best then rest
      else best :: rest := rfl

/-- How many iterations are left at most. -/
def variant (s : MatchState) : Nat :=
  if s.remainingQuantity ≤ 0 then 0 else s.oppositeOrders.length + 1

theorem variant_lt (h : matchStep o s = some s') : variant s' < variant s := by
  obtain ⟨best, rest, hopp, hrem, -, rfl⟩ := matchStep_some h
  have hs : variant s = rest.length + 2 := by
    rw [variant, if_neg (not_le.mpr hrem), hopp, List.length_cons]
  rw [hs]
  by_cases hpop : best.quantity ≤ (s.fills best.id).filledQuantity + tradeQuantity s best
  · have hlen : variant (matchHead o best rest s) ≤ rest.length + 1 := by
      unfold variant
      split
      · omega
      · rw [matchHead_opposite, if_pos hpop]
    omega
  · have hzero : variant (matchHead o best rest s) = 0 := by
      rw [variant, if_pos (matchHead_remaining hpop).le]
    omega

/-- **The loop ends.** -/
theorem matchLoop_exit (o : Order) (fills : Uuid → Fill) (opp : List Order) :
    matchStep o (matchLoop o fills opp) = none := by
  refine loop_exit (fun s s' h => variant_lt h) ?_
  unfold variant
  split
  · omega
  · show opp.length + 1 ≤ 100 * (opp.length + 1)
    omega

/-! ## What the loop does to the side and to the objects -/

def Trade.Names (t : Trade) (id : Uuid) : Prop := t.makerOrderId = id ∨ t.takerOrderId = id

instance (t : Trade) (id : Uuid) : Decidable (t.Names id) := inferInstanceAs (Decidable (_ ∨ _))

theorem tradeOf_names {x : Order} {q : ℚ} {id : Uuid} :
    (tradeOf o x q).Names id ↔ o.id = id ∨ x.id = id := by
  unfold Trade.Names tradeOf
  by_cases h : o.side = .buy <;> simp [h, or_comm]

section Head

variable [Arithmetic] {best : Order} {rest : List Order}

theorem matchHead_fills_taker (h : o.id ≠ best.id) :
    (matchHead o best rest s).fills o.id = takerFill o (s.fills o.id) (tradeQuantity s best) := by
  simp only [matchHead, Function.update_of_ne h, Function.update_self]

theorem matchHead_fills_maker :
    (matchHead o best rest s).fills best.id =
      makerFill best (s.fills best.id) (tradeQuantity s best) := by
  simp only [matchHead, Function.update_self]

theorem matchHead_fills_other {id : Uuid} (ho : o.id ≠ id) (hb : best.id ≠ id) :
    (matchHead o best rest s).fills id = s.fills id := by
  simp only [matchHead, Function.update_of_ne hb.symm, Function.update_of_ne ho.symm]

theorem mem_of_mem_matchHead {x : Order} (hx : x ∈ (matchHead o best rest s).oppositeOrders) :
    x ∈ best :: rest := by
  simp only [matchHead] at hx
  split at hx
  · exact .tail _ hx
  · exact hx

theorem mem_matchHead_touched {x : Order} :
    x ∈ (matchHead o best rest s).touched ↔ x ∈ s.touched ∨ x = best := by
  show x ∈ (if best ∈ s.touched then s.touched else s.touched ++ [best]) ↔ _
  split
  · rename_i hb
    exact ⟨.inl, fun h => h.elim id fun e => e ▸ hb⟩
  · simp

end Head

/-- A side of the book: no order twice, and not the one that is being matched. -/
structure Side (o : Order) (opp : List Order) : Prop where
  nodup : (opp.map Order.id).Nodup
  fresh : ∀ x ∈ opp, o.id ≠ x.id

theorem Side.tail {pre rest : List Order} {best : Order} (h : Side o (pre ++ best :: rest)) :
    o.id ≠ best.id ∧ ∀ x ∈ rest, o.id ≠ x.id ∧ best.id ≠ x.id := by
  refine ⟨h.fresh best (by simp), fun x hx => ⟨h.fresh x (by simp [hx]), fun e => ?_⟩⟩
  have hnd := h.nodup
  simp only [List.map_append, List.map_cons] at hnd
  have := (List.nodup_cons.mp (List.nodup_append.mp hnd).2.1).1
  exact this (e ▸ List.mem_map_of_mem hx)

structure Walk (o : Order) (fills : Uuid → Fill) (opp : List Order) (s : MatchState) : Prop where
  split : ∃ popped, opp = popped ++ s.oppositeOrders ∧
    ∀ x ∈ popped, x ∈ s.touched ∧ (s.fills x.id).status = .filled
  touched : ∀ x ∈ s.touched, x ∈ opp
  frame : ∀ id, (∀ t ∈ s.trades, ¬ t.Names id) → s.fills id = fills id
  kept : ∀ x ∈ s.oppositeOrders, (s.fills x.id).status = (fills x.id).status
  trades : ∀ t ∈ s.trades, ∃ x ∈ s.touched, ∃ q, t = tradeOf o x q

theorem walk_body (hside : Side o opp) {best : Order} {rest : List Order} (h : Walk o fills opp s)
    (hopp : s.oppositeOrders = best :: rest) : Walk o fills opp (matchHead o best rest s) := by
  obtain ⟨popped, hsplit, hpop⟩ := h.split
  rw [hopp] at hsplit
  have hs := hside
  rw [hsplit] at hs
  obtain ⟨hob, hrest⟩ := hs.tail
  have hkept := h.kept
  rw [hopp] at hkept
  have hrestkept : ∀ x ∈ rest,
      ((matchHead o best rest s).fills x.id).status = (fills x.id).status := by
    intro x hx
    rw [matchHead_fills_other (hrest x hx).1 (hrest x hx).2]
    exact hkept x (.tail _ hx)
  have htouched : ∀ x, x ∈ s.touched → x ∈ (matchHead o best rest s).touched :=
    fun x hx => mem_matchHead_touched.mpr (.inl hx)
  refine ⟨?_, ?_, ?_, ?_, ?_⟩
  · -- the orders filled so far, and the head if it is filled now
    have hold : ∀ x ∈ popped, x ∈ (matchHead o best rest s).touched ∧
        ((matchHead o best rest s).fills x.id).status = .filled := by
      intro x hx
      have hne : o.id ≠ x.id := hside.fresh x (by simp [hsplit, hx])
      refine ⟨htouched x (hpop x hx).1, ?_⟩
      have hbx : best.id ≠ x.id := by
        intro e
        have hnd := hside.nodup
        rw [hsplit, List.map_append] at hnd
        exact (List.nodup_append.mp hnd).2.2 x.id (List.mem_map_of_mem hx) best.id (by simp) e.symm
      rw [matchHead_fills_other hne hbx]
      exact (hpop x hx).2
    rw [matchHead_opposite]
    split
    · rename_i hfull
      refine ⟨popped ++ [best], by simp [hsplit], fun x hx => ?_⟩
      simp only [List.mem_append, List.mem_singleton] at hx
      rcases hx with hx | rfl
      · exact hold x hx
      · refine ⟨mem_matchHead_touched.mpr (.inr rfl), ?_⟩
        rw [matchHead_fills_maker, makerFill_eq, if_pos hfull]
    · exact ⟨popped, hsplit, hold⟩
  · intro x hx
    rcases mem_matchHead_touched.mp hx with hx | rfl
    · exact h.touched x hx
    · simp [hsplit]
  · intro id hnot
    have hlast := hnot (tradeOf o best (tradeQuantity s best)) (by simp [matchHead])
    rw [tradeOf_names, not_or] at hlast
    rw [matchHead_fills_other hlast.1 hlast.2]
    exact h.frame id fun t ht => hnot t (by simp [matchHead, ht])
  · rw [matchHead_opposite]
    split
    · exact hrestkept
    · rename_i hopen
      intro x hx
      rcases List.mem_cons.mp hx with rfl | hx
      · rw [matchHead_fills_maker, makerFill_eq, if_neg hopen]
        exact hkept x (.head _)
      · exact hrestkept x hx
  · intro t ht
    simp only [matchHead, List.mem_append, List.mem_singleton] at ht
    rcases ht with ht | rfl
    · obtain ⟨x, hx, q, rfl⟩ := h.trades t ht
      exact ⟨x, htouched x hx, q, rfl⟩
    · exact ⟨best, mem_matchHead_touched.mpr (.inr rfl), _, rfl⟩

theorem walk_start : Walk o fills opp (matchStart o fills opp) :=
  ⟨⟨[], rfl, by simp⟩, by simp [matchStart], fun _ _ => rfl, fun _ _ => rfl, by simp [matchStart]⟩

/-- The loop rule on a side of the book: the body may use where the loop stands. -/
theorem matchLoop_walk_inv (hside : Side o opp) {I : MatchState → Prop}
    (h0 : I (matchStart o fills opp))
    (hbody : ∀ s best rest, Walk o fills opp s → I s → s.oppositeOrders = best :: rest →
      0 < s.remainingQuantity → o.id ≠ best.id ∧ (∀ x ∈ rest, o.id ≠ x.id ∧ best.id ≠ x.id) →
      I (matchHead o best rest s)) :
    Walk o fills opp (matchLoop o fills opp) ∧ I (matchLoop o fills opp) := by
  refine matchLoop_inv (I := fun s => Walk o fills opp s ∧ I s) ⟨walk_start, h0⟩ ?_
  rintro s best rest ⟨hw, hI⟩ hopp hrem -
  refine ⟨walk_body hside hw hopp, hbody s best rest hw hI hopp hrem ?_⟩
  obtain ⟨popped, hsplit, -⟩ := hw.split
  rw [hsplit, hopp] at hside
  exact hside.tail

theorem matchLoop_walk (fills : Uuid → Fill) (hside : Side o opp) :
    Walk o fills opp (matchLoop o fills opp) :=
  (matchLoop_walk_inv (I := fun _ => True) hside trivial fun _ _ _ _ _ _ _ _ => trivial).1

/-! ## Quantities -/

/-- What the trades say about one order. -/
def traded (id : Uuid) (trades : List Trade) : ℚ :=
  (trades.map fun t => if t.Names id then t.quantity else 0).sum

@[simp] theorem traded_nil (id : Uuid) : traded id [] = 0 := rfl

theorem traded_append (id : Uuid) (ts us : List Trade) :
    traded id (ts ++ us) = traded id ts + traded id us := by
  simp [traded]

@[simp] theorem takerFill_filled (o : Order) (fill : Fill) (q : ℚ) :
    (takerFill o fill q).filledQuantity = fill.filledQuantity + q := rfl

@[simp] theorem makerFill_filled (o : Order) (fill : Fill) (q : ℚ) :
    (makerFill o fill q).filledQuantity = fill.filledQuantity + q := rfl

theorem traded_matchHead (best : Order) (rest : List Order) (id : Uuid) :
    traded id (matchHead o best rest s).trades = traded id s.trades +
      if o.id = id ∨ best.id = id then tradeQuantity s best else 0 := by
  show traded id (s.trades ++ [_]) = _
  rw [traded_append]
  simp only [traded, List.map_cons, List.map_nil, List.sum_cons, List.sum_nil, add_zero,
    tradeOf_names]
  rfl

/-- Every object grows by the trades that name it. -/
theorem matchLoop_traded (hside : Side o opp) (id : Uuid) :
    ((matchLoop o fills opp).fills id).filledQuantity =
      (fills id).filledQuantity + traded id (matchLoop o fills opp).trades := by
  refine (matchLoop_walk_inv (I := fun s => (s.fills id).filledQuantity =
    (fills id).filledQuantity + traded id s.trades) hside (by simp [matchStart]) ?_).2
  intro s best rest _ hid _ _ hne
  rw [traded_matchHead]
  by_cases ho : o.id = id
  · subst ho
    rw [matchHead_fills_taker hne.1, if_pos (.inl rfl), takerFill_filled, hid, add_assoc]
  · by_cases hb : best.id = id
    · subst hb
      rw [matchHead_fills_maker, if_pos (.inr rfl), makerFill_filled, hid, add_assoc]
    · rw [matchHead_fills_other ho hb, if_neg (by simp [ho, hb]), add_zero, hid]

/-- A new order: an object that is OPEN and has nothing filled. -/
def New (fill : Fill) : Prop := fill = ⟨0, .open⟩

/-- A match makes a status FILLED or PARTIALLY_FILLED, or leaves it. -/
theorem matchLoop_statuses {p : OrderStatus → Prop} (hfilled : p .filled)
    (hpart : p .partiallyFilled) (h : ∀ id, p (fills id).status) (id : Uuid) :
    p ((matchLoop o fills opp).fills id).status := by
  refine matchLoop_inv (I := fun s => ∀ id, p (s.fills id).status) h ?_ id
  intro s best rest hs _ _ _ id
  have htaker : ∀ q, p (takerFill o (s.fills o.id) q).status := by
    intro q
    unfold takerFill
    dsimp only
    split
    · exact hfilled
    · split
      · exact hpart
      · exact hs o.id
  by_cases hb : id = best.id
  · subst hb
    rw [matchHead_fills_maker, makerFill_eq]
    dsimp only
    split
    · exact hfilled
    · exact hs best.id
  · by_cases ho : id = o.id
    · subst ho
      rw [matchHead_fills_taker hb]
      exact htaker _
    · rw [matchHead_fills_other (Ne.symm ho) (Ne.symm hb)]
      exact hs id

/-- Where a new order of positive quantity stands in the loop. -/
structure Taker (o : Order) (s : MatchState) : Prop where
  remaining : s.remainingQuantity = o.quantity - (s.fills o.id).filledQuantity
  opened : 0 < s.remainingQuantity → (s.fills o.id).status ∈ openStatuses
  filled : s.remainingQuantity ≤ 0 → (s.fills o.id).status = .filled

theorem taker_start (hnew : New (fills o.id)) (hq : 0 < o.quantity) :
    Taker o (matchStart o fills opp) := by
  rw [New] at hnew
  have hrem : (matchStart o fills opp).remainingQuantity = o.quantity := by
    simp [matchStart, hnew]
  refine ⟨?_, ?_, ?_⟩
  · rw [hrem]
    simp [matchStart, hnew]
  · simp [matchStart, hnew, openStatuses]
  · rw [hrem]
    exact fun h => absurd hq (not_lt.mpr h)

theorem taker_body {best : Order} {rest : List Order} (h : Taker o s)
    (hrem : 0 < s.remainingQuantity) (hne : o.id ≠ best.id) :
    Taker o (matchHead o best rest s) := by
  have hr : (matchHead o best rest s).remainingQuantity =
      o.quantity - ((s.fills o.id).filledQuantity + tradeQuantity s best) := by
    show s.remainingQuantity - tradeQuantity s best = _
    rw [h.remaining]
    ring
  refine ⟨?_, ?_, ?_⟩
  · rw [matchHead_fills_taker hne, takerFill_filled, hr]
  · intro hpos
    rw [matchHead_fills_taker hne, takerFill_eq]
    dsimp only
    rw [if_neg (by linarith)]
    split
    · simp [openStatuses]
    · exact h.opened hrem
  · intro hle
    rw [matchHead_fills_taker hne, takerFill_eq]
    dsimp only
    rw [if_pos (by linarith)]

theorem matchLoop_taker (hside : Side o opp) (hnew : New (fills o.id)) (hq : 0 < o.quantity) :
    Taker o (matchLoop o fills opp) :=
  (matchLoop_walk_inv hside (taker_start hnew hq)
    fun _ _ _ _ h _ hrem hne => taker_body h hrem hne.1).2

/-- An order in the book: something is left of it, and not more than there was. -/
def Resting (fills : Uuid → Fill) (x : Order) : Prop :=
  0 ≤ (fills x.id).filledQuantity ∧ (fills x.id).filledQuantity < x.quantity

theorem resting_body {best : Order} {rest : List Order} (hr : ∀ x ∈ best :: rest, Resting s.fills x)
    (hrem : 0 < s.remainingQuantity) (hne : ∀ x ∈ rest, o.id ≠ x.id ∧ best.id ≠ x.id) :
    0 < tradeQuantity s best ∧
      ∀ x ∈ (matchHead o best rest s).oppositeOrders, Resting (matchHead o best rest s).fills x := by
  obtain ⟨hb0, hb1⟩ := hr best (.head _)
  have hq : 0 < tradeQuantity s best := lt_min hrem (sub_pos.mpr hb1)
  have htail : ∀ x ∈ rest, Resting (matchHead o best rest s).fills x := by
    intro x hx
    rw [Resting, matchHead_fills_other (hne x hx).1 (hne x hx).2]
    exact hr x (.tail _ hx)
  refine ⟨hq, ?_⟩
  rw [matchHead_opposite]
  split
  · exact htail
  · rename_i hopen
    intro x hx
    rcases List.mem_cons.mp hx with rfl | hx
    · rw [Resting, matchHead_fills_maker, makerFill_filled]
      exact ⟨by linarith, not_le.mp hopen⟩
    · exact htail x hx

/-- Nothing is overfilled. -/
theorem matchLoop_bounds (hside : Side o opp) (hnew : New (fills o.id))
    (hrest : ∀ x ∈ opp, Resting fills x) :
    (∀ x ∈ (matchLoop o fills opp).oppositeOrders, Resting (matchLoop o fills opp).fills x) ∧
      0 ≤ ((matchLoop o fills opp).fills o.id).filledQuantity := by
  refine (matchLoop_walk_inv (I := fun s => (∀ x ∈ s.oppositeOrders, Resting s.fills x) ∧
    0 ≤ (s.fills o.id).filledQuantity) hside ⟨hrest, ?_⟩ ?_).2
  · rw [New] at hnew
    simp [matchStart, hnew]
  · rintro s best rest _ ⟨hr, ho⟩ hopp hrem hne
    rw [hopp] at hr
    obtain ⟨hq, hr'⟩ := resting_body hr hrem hne.2
    refine ⟨hr', ?_⟩
    rw [matchHead_fills_taker hne.1, takerFill_filled]
    linarith

def depth (fills : Uuid → Fill) (side : List Order) : ℚ :=
  (side.map fun x => x.quantity - (fills x.id).filledQuantity).sum

theorem depth_cons (fills : Uuid → Fill) (x : Order) (l : List Order) :
    depth fills (x :: l) = x.quantity - (fills x.id).filledQuantity + depth fills l := by
  simp [depth]

theorem depth_nonneg {l : List Order} (h : ∀ x ∈ l, Resting fills x) : 0 ≤ depth fills l := by
  refine List.sum_nonneg fun q hq => ?_
  obtain ⟨x, hx, rfl⟩ := List.mem_map.mp hq
  exact sub_nonneg.mpr (h x hx).2.le

theorem depth_congr {fills' : Uuid → Fill} {l : List Order}
    (h : ∀ x ∈ l, fills' x.id = fills x.id) : depth fills' l = depth fills l := by
  unfold depth
  rw [List.map_congr_left fun x hx => by rw [h x hx]]

theorem depth_body {best : Order} {rest : List Order} (hr : ∀ x ∈ best :: rest, Resting s.fills x)
    (hrem : 0 < s.remainingQuantity) (hne : ∀ x ∈ rest, o.id ≠ x.id ∧ best.id ≠ x.id)
    (hd : s.remainingQuantity ≤ depth s.fills (best :: rest)) :
    (matchHead o best rest s).remainingQuantity ≤
      depth (matchHead o best rest s).fills (matchHead o best rest s).oppositeOrders := by
  obtain ⟨-, hr'⟩ := resting_body (o := o) hr hrem hne
  by_cases hfull : best.quantity ≤ (s.fills best.id).filledQuantity + tradeQuantity s best
  · have hrest : depth (matchHead o best rest s).fills rest = depth s.fills rest :=
      depth_congr fun x hx => matchHead_fills_other (hne x hx).1 (hne x hx).2
    have hle : tradeQuantity s best ≤ best.quantity - (s.fills best.id).filledQuantity :=
      min_le_right _ _
    rw [matchHead_opposite, if_pos hfull, hrest]
    rw [depth_cons] at hd
    show s.remainingQuantity - tradeQuantity s best ≤ _
    linarith
  · rw [matchHead_remaining hfull]
    exact depth_nonneg hr'

/-- A market order that finds enough on the opposite side is filled. -/
theorem matchLoop_filled (hside : Side o opp) (hnew : New (fills o.id)) (hq : 0 < o.quantity)
    (hmarket : o.type = .market) (hrest : ∀ x ∈ opp, Resting fills x)
    (hdepth : o.quantity ≤ depth fills opp) :
    ((matchLoop o fills opp).fills o.id).status = .filled := by
  have htaker := matchLoop_taker hside hnew hq
  have hloop := (matchLoop_walk_inv (I := fun s => (∀ x ∈ s.oppositeOrders, Resting s.fills x) ∧
    s.remainingQuantity ≤ depth s.fills s.oppositeOrders) hside ⟨hrest, ?_⟩ ?_).2
  · rcases matchStep_none (matchLoop_exit o fills opp) with hrem | hnil | ⟨best, rest, -, hacc⟩
    · exact htaker.filled hrem
    · have hd := hloop.2
      rw [hnil] at hd
      exact htaker.filled hd
    · exact absurd (by simp [Accepts, hmarket]) hacc
  · rw [New] at hnew
    simpa [matchStart, hnew] using hdepth
  · rintro s best rest _ ⟨hr, hd⟩ hopp hrem hne
    rw [hopp] at hr hd
    exact ⟨(resting_body hr hrem hne.2).2, depth_body hr hrem hne.2 hd⟩

/-! ## Prices -/

theorem reaches_opposite {side : OrderSide} {p q : ℚ} :
    side.opposite.Reaches q p ↔ side.Reaches p q := by
  cases side <;> exact Iff.rfl

theorem reaches_of_better {side : OrderSide} {p q q' : ℚ} (h : side.opposite.Reaches q q')
    (hp : side.Reaches p q') : side.Reaches p q := by
  cases side with
  | buy => exact le_trans (show q ≤ q' from h) hp
  | sell => exact le_trans (show p ≤ q' from hp) h

/-- An order would trade with another one of the opposite side. -/
def Crosses (a b : Order) : Prop :=
  ∃ p q, a.price = some p ∧ b.price = some q ∧ a.side.Reaches p q

theorem Crosses.symm {a b : Order} (hs : b.side = a.side.opposite) (h : Crosses a b) : Crosses b a := by
  obtain ⟨p, q, hp, hq, hr⟩ := h
  exact ⟨q, p, hq, hp, by rw [hs]; exact reaches_opposite.mpr hr⟩

theorem accepts_of_crosses {x : Order} (ho : o.type = .limit → Priced o.price)
    (hx : Priced x.price) (h : Crosses o x) : Accepts o x := by
  obtain ⟨p, q, hp, hq, hr⟩ := h
  unfold Accepts
  split
  · trivial
  · rename_i htype
    have ho' := ho htype
    rw [hp] at ho'
    rw [hq] at hx
    simp only [hp, hq]
    exact ⟨fun e => ho'.2 (by rw [e]), fun e => hx.2 (by rw [e]), hr⟩

theorem crosses_of_precedes {x y : Order} (hxy : Precedes o.side.opposite x y) (hx : Priced x.price)
    (h : Crosses o y) : Crosses o x := by
  obtain ⟨p, q', hp, hq', hr⟩ := h
  obtain ⟨q, hq⟩ := Option.ne_none_iff_exists'.mp hx.1
  refine ⟨p, q, hp, hq, reaches_of_better ?_ hr⟩
  simpa only [Precedes, hq, hq'] using hxy

/-- What is left of a new order crosses nothing that is left of a sorted side. -/
theorem matchLoop_uncrossed (hside : Side o opp) (hnew : New (fills o.id)) (hq : 0 < o.quantity)
    (hsorted : opp.Pairwise (Precedes o.side.opposite)) (hpriced : ∀ x ∈ opp, Priced x.price)
    (hlimit : o.type = .limit → Priced o.price)
    (hopen : ((matchLoop o fills opp).fills o.id).status ∈ openStatuses) :
    ∀ x ∈ (matchLoop o fills opp).oppositeOrders, ¬ Crosses o x := by
  have htaker := matchLoop_taker hside hnew hq
  obtain ⟨popped, hsplit, -⟩ := (matchLoop_walk fills hside).split
  rcases matchStep_none (matchLoop_exit o fills opp) with hrem | hnil | ⟨best, rest, hopp, hacc⟩
  · rw [htaker.filled hrem] at hopen
    simp [openStatuses] at hopen
  · rw [hnil]
    exact fun x hx => by cases hx
  · rw [hopp] at hsplit ⊢
    have hp : ∀ x ∈ best :: rest, Priced x.price :=
      fun x hx => hpriced x (by rw [hsplit]; exact List.mem_append_right _ hx)
    have hbest : ¬ Crosses o best :=
      fun hc => hacc (accepts_of_crosses hlimit (hp best (.head _)) hc)
    rw [hsplit] at hsorted
    have hhead := (List.pairwise_cons.mp (List.pairwise_append.mp hsorted).2.1).1
    intro x hx
    rcases List.mem_cons.mp hx with rfl | hx
    · exact hbest
    · exact fun hc => hbest (crosses_of_precedes (hhead x hx) (hp best (.head _)) hc)

end Trading
end TradeCore
