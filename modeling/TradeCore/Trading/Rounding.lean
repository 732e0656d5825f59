import TradeCore.Trading.Statuses

/-!
# TradeCore.Trading.Rounding

The engine with doubles against the engine without rounding.

A `createOrder` does not round when its quantity and price have no more decimals than the columns and the
arithmetic is exact on what its match meets: for every resting order the new one gets to, on what is left
of both and on what is filled of both (`MeetsExactly`). Such a step is the step without rounding
(`step_exact`, `advance_exact`), so that a run of such steps goes through the states of the run without
rounding (`along_step_exact`, `along_engine_exact`).
-/

namespace TradeCore
namespace Trading

open Lib

/-! ## Along the loop -/

section Exact

open Lib.Exact

variable {o best : Order} {s : MatchState} {fills fills' : Uuid → Fill} {opp rest : List Order} {r : ℚ}
  {G : (Uuid → Fill) → ℚ → Order → Prop}

/-- What `G` says of an order depends on nothing but its own object. -/
def Local (G : (Uuid → Fill) → ℚ → Order → Prop) : Prop :=
  ∀ fills fills' r x, fills' x.id = fills x.id → (G fills' r x ↔ G fills r x)

theorem everyMet_congr (hG : Local G) (h : ∀ x ∈ opp, fills' x.id = fills x.id) :
    EveryMet o fills' (G fills') r opp ↔ EveryMet o fills (G fills) r opp := by
  induction opp generalizing r with
  | nil => exact .rfl
  | cons x rest ih =>
    have hx := h x (.head _)
    have hleft : left fills' x = left fills x := by rw [left, left, hx]
    rw [EveryMet, EveryMet, hG fills fills' r x hx, hleft, ih fun y hy => h y (.tail _ hy)]

theorem everyMet_of_not_pos {G : ℚ → Order → Prop} (h : r ≤ 0) : EveryMet o fills G r opp := by
  cases opp with
  | nil => trivial
  | cons x rest => exact fun hr => absurd hr (not_lt.mpr h)

/-- Where the loop stands when every order it will get to meets `G`. -/
structure MetAt (G : (Uuid → Fill) → ℚ → Order → Prop) (o : Order) (s : MatchState) : Prop where
  side : Side o s.oppositeOrders
  taker : (s.fills o.id).filledQuantity = o.quantity - s.remainingQuantity
  met : EveryMet o s.fills (G s.fills) s.remainingQuantity s.oppositeOrders

theorem MetAt.body (hG : Local G) (h : MetAt G o s) (hopp : s.oppositeOrders = best :: rest)
    (hrem : 0 < s.remainingQuantity) (hacc : Accepts o best) : MetAt G o (matchHead o best rest s) := by
  obtain ⟨hside, htaker, hmet⟩ := h
  rw [hopp] at hside hmet
  obtain ⟨hne, hrest⟩ := Side.tail (show Side o ([] ++ best :: rest) from hside)
  have hother : ∀ x ∈ rest, (matchHead o best rest s).fills x.id = s.fills x.id :=
    fun x hx => matchHead_fills_other (hrest x hx).1 (hrest x hx).2
  refine ⟨?_, ?_, ?_⟩
  · rw [matchHead_opposite]
    split
    · exact ⟨(List.nodup_cons.mp hside.nodup).2, fun x hx => hside.fresh x (.tail _ hx)⟩
    · exact hside
  · rw [matchHead_fills_taker hne, takerFill_filled, htaker]
    show _ = o.quantity - (s.remainingQuantity - tradeQuantity s best)
    ring
  · by_cases hfull : best.quantity ≤ (s.fills best.id).filledQuantity + tradeQuantity s best
    · -- the head is filled, and what was left of it has been taken from the new order
      have hle : left s.fills best ≤ s.remainingQuantity := by
        have := min_le_left s.remainingQuantity (left s.fills best)
        rw [tradeQuantity_eq] at hfull
        rw [left] at this ⊢
        linarith
      have hleft : (matchHead o best rest s).remainingQuantity =
          s.remainingQuantity - left s.fills best := congrArg (s.remainingQuantity - ·) (min_eq_right hle)
      rw [matchHead_opposite, if_pos hfull, hleft, everyMet_congr hG hother]
      exact (hmet hrem hacc).2
    · exact everyMet_of_not_pos (matchHead_remaining hfull).le

theorem metAt_start (hside : Side o opp) (hnew : New (fills o.id))
    (h : EveryMet o fills (G fills) o.quantity opp) : MetAt G o (matchStart o fills opp) := by
  rw [New] at hnew
  have hquantity : (matchStart o fills opp).remainingQuantity = o.quantity := by
    simp [matchStart, hnew]
  refine ⟨hside, ?_, ?_⟩
  · rw [hquantity, sub_self]
    exact congrArg Fill.filledQuantity hnew
  · rw [hquantity]
    exact h

end Exact

/-! ## One match -/

section Match

variable [Arithmetic]

/-- What is computed when the new order, of which `r` is left, takes from `x` is exact. -/
def TakesExactly (o : Order) (fills : Uuid → Fill) (r : ℚ) (x : Order) : Prop :=
  Arithmetic.sub x.quantity (fills x.id).filledQuantity = left fills x ∧
  Arithmetic.sub r (min r (left fills x)) = r - min r (left fills x) ∧
  Arithmetic.add (o.quantity - r) (min r (left fills x)) = o.quantity - r + min r (left fills x) ∧
  Arithmetic.add (fills x.id).filledQuantity (min r (left fills x)) =
    (fills x.id).filledQuantity + min r (left fills x)

instance (o : Order) (fills : Uuid → Fill) (r : ℚ) (x : Order) : Decidable (TakesExactly o fills r x) :=
  inferInstanceAs (Decidable (_ ∧ _ ∧ _ ∧ _))

/-- A new order takes exactly from every order it gets to. -/
def MeetsExactly (o : Order) (fills : Uuid → Fill) (opp : List Order) : Prop :=
  EveryMet o fills (TakesExactly o fills) o.quantity opp

instance (o : Order) (fills : Uuid → Fill) (opp : List Order) : Decidable (MeetsExactly o fills opp) :=
  EveryMet.decidable o.quantity opp

variable {o best : Order} {s : MatchState} {fills : Uuid → Fill} {opp rest : List Order}

theorem takesExactly_local (o : Order) : Local (TakesExactly o) := by
  intro fills fills' r x h
  rw [TakesExactly, TakesExactly, left, left, h]

theorem takerFill_exact {fill : Fill} {q : ℚ}
    (h : Arithmetic.add fill.filledQuantity q = fill.filledQuantity + q) :
    takerFill o fill q = @takerFill Exact.arithmetic o fill q := by
  simp only [takerFill, h]
  rfl

theorem makerFill_exact {fill : Fill} {q : ℚ}
    (h : Arithmetic.add fill.filledQuantity q = fill.filledQuantity + q) :
    makerFill o fill q = @makerFill Exact.arithmetic o fill q := by
  simp only [makerFill, h]
  rfl

theorem matchHead_exact (h : TakesExactly o s.fills s.remainingQuantity best)
    (htaker : (s.fills o.id).filledQuantity = o.quantity - s.remainingQuantity) :
    matchHead o best rest s = @matchHead Exact.arithmetic o best rest s := by
  obtain ⟨hleft, hremaining, htakes, hmakes⟩ := h
  have hq : tradeQuantity s best = min s.remainingQuantity (left s.fills best) := by
    rw [tradeQuantity, hleft]
  have hq' : @tradeQuantity Exact.arithmetic s best = min s.remainingQuantity (left s.fills best) := rfl
  rw [← htaker] at htakes
  unfold matchHead
  simp only [hq, hq', takerFill_exact htakes, makerFill_exact hmakes, hremaining]
  rfl

theorem MetAt.matchStep_exact (h : MetAt (TakesExactly o) o s) :
    matchStep o s = @matchStep Exact.arithmetic o s := by
  have hmet := h.met
  unfold matchStep
  split
  · rfl
  · rename_i best rest hopp
    rw [hopp] at hmet
    split
    · rfl
    · rename_i hrem
      split
      · rfl
      · rename_i hacc
        exact congrArg some (matchHead_exact (hmet (not_le.mp hrem) (not_not.mp hacc)).1 h.taker)

theorem matchLoop_exact (hside : Side o opp) (hnew : New (fills o.id)) (h : MeetsExactly o fills opp) :
    matchLoop o fills opp = @matchLoop Exact.arithmetic o fills opp := by
  have hstart : matchStart o fills opp = @matchStart Exact.arithmetic o fills opp := by
    rw [New] at hnew
    simp [matchStart, hnew]
  rw [matchLoop, hstart]
  refine loop_congr (fun s hs => hs.matchStep_exact) (fun s s' hs hstep => ?_) (metAt_start hside hnew h) _
  obtain ⟨best, rest, hopp, hrem, hacc, rfl⟩ := @matchStep_some o s s' Exact.arithmetic hstep
  exact hs.body (takesExactly_local o) hopp hrem hacc

theorem matchOrder_exact {books : String → Option OrderBook}
    (hside : Side o (bookSide books o.assetKey o.side.opposite)) (hnew : New (fills o.id))
    (h : MeetsExactly o fills (bookSide books o.assetKey o.side.opposite)) :
    matchOrder books fills o = @matchOrder Exact.arithmetic books fills o := by
  unfold matchOrder
  cases hbook : books o.assetKey with
  | none => rfl
  | some book =>
    have hopp : bookSide books o.assetKey o.side.opposite = book.side o.side.opposite := by
      rw [bookSide, hbook]
    rw [hopp] at hside h
    simp only [matchLoop_exact hside hnew h]

end Match

/-! ## The columns -/

/-- The columns keep the quantity and the price. -/
def Order.Scaled (o : Order) : Prop :=
  roundTo 7 o.quantity = o.quantity ∧ o.price.map (roundTo 7) = o.price

instance (o : Order) : Decidable o.Scaled := inferInstanceAs (Decidable (_ ∧ _))

def Trade.Scaled (t : Trade) : Prop :=
  roundTo 7 t.quantity = t.quantity ∧ t.price.map (roundTo 7) = t.price

/-- The numbers in memory are such that the columns keep them. -/
structure ScaledState (st : State) : Prop where
  fills : ∀ id, roundTo 7 (st.fills id).filledQuantity = (st.fills id).filledQuantity
  books : ∀ key side, ∀ x ∈ bookSide st.orderBooks key side, x.Scaled

section Exact

open Lib.Exact

theorem matchLoop_scaled {o : Order} {fills : Uuid → Fill} {opp : List Order} (ho : o.Scaled)
    (hopp : ∀ x ∈ opp, x.Scaled)
    (hfills : ∀ id, roundTo 7 (fills id).filledQuantity = (fills id).filledQuantity) :
    (∀ id, roundTo 7 ((matchLoop o fills opp).fills id).filledQuantity =
      ((matchLoop o fills opp).fills id).filledQuantity) ∧
    ∀ t ∈ (matchLoop o fills opp).trades, t.Scaled := by
  refine (matchLoop_inv (I := fun s =>
    roundTo 7 s.remainingQuantity = s.remainingQuantity ∧ (∀ x ∈ s.oppositeOrders, x.Scaled) ∧
      (∀ id, roundTo 7 (s.fills id).filledQuantity = (s.fills id).filledQuantity) ∧
      ∀ t ∈ s.trades, t.Scaled) ⟨?_, hopp, hfills, List.forall_mem_nil _⟩ ?_).2.2
  · unfold matchStart
    split
    · exact roundTo_sub ho.1 (hfills o.id)
    · exact ho.1
  · rintro s best rest ⟨hrem, hside, hf, htrades⟩ heq - -
    rw [heq] at hside
    have hbest := hside best (.head _)
    have hq : roundTo 7 (tradeQuantity s best) = tradeQuantity s best :=
      roundTo_min hrem (roundTo_sub hbest.1 (hf best.id))
    refine ⟨roundTo_sub hrem hq, fun x hx => hside x (mem_of_mem_matchHead hx), fun id => ?_,
      fun t ht => ?_⟩
    · simp only [matchHead, Function.update_apply]
      split
      · exact roundTo_add (hf best.id) hq
      · split
        · exact roundTo_add (hf o.id) hq
        · exact hf id
    · rcases List.mem_append.mp ht with ht | ht
      · exact htrades t ht
      · exact List.mem_singleton.mp ht ▸ ⟨hq, hbest.2⟩

end Exact

open Lib.Doubles

section Columns

variable {o : Order} {st : State}

theorem column_of_scaled (ho : o.Scaled) {fill : Fill}
    (hf : roundTo 7 fill.filledQuantity = fill.filledQuantity) :
    (⟨o, fill⟩ : OrderRow).column = ⟨o, fill⟩ := by
  have hq : Arithmetic.column 7 o.quantity = o.quantity := ho.1
  have hp : o.price.map (Arithmetic.column 7) = o.price := ho.2
  have hfill : Arithmetic.column 7 fill.filledQuantity = fill.filledQuantity := hf
  rw [OrderRow.column, hq, hp, hfill]

theorem ScaledState.row (h : ScaledState st) (ho : o.Scaled) : (st.row o).column = st.row o :=
  column_of_scaled ho (h.fills o.id)

theorem Trade.Scaled.column {t : Trade} (h : t.Scaled) : t.column = t := by
  have hq : Arithmetic.column 7 t.quantity = t.quantity := h.1
  have hp : t.price.map (Arithmetic.column 7) = t.price := h.2
  rw [Trade.column, hq, hp]

namespace Db

theorem saveOrder_exact (db : Db) {row : OrderRow} (h : row.column = row) :
    db.saveOrder row = @saveOrder Exact.arithmetic db row := by
  rw [saveOrder, h, saveOrder_eq]

theorem saveOrders_exact {rows : List OrderRow} (h : ∀ row ∈ rows, row.column = row) (db : Db) :
    db.saveOrders rows = @saveOrders Exact.arithmetic db rows := by
  induction rows generalizing db with
  | nil => rfl
  | cons row rows ih =>
    have htail := ih (fun r hr => h r (.tail _ hr)) (@saveOrder Exact.arithmetic db row)
    rw [saveOrders, List.foldl_cons, db.saveOrder_exact (h row (.head _))]
    exact htail

theorem saveTrades_exact (db : Db) {trades : List Trade} (h : ∀ t ∈ trades, t.Scaled) :
    db.saveTrades trades = @saveTrades Exact.arithmetic db trades := by
  unfold saveTrades
  rw [List.map_congr_left fun t ht => (h t ht).column.trans t.column_eq.symm]

end Db

theorem createOrder.save_exact (ho : o.Scaled) :
    createOrder.save st o = @createOrder.save Exact.arithmetic st o := by
  rw [createOrder.save, st.db.saveOrder_exact (column_of_scaled ho roundTo_zero)]
  rfl

theorem createOrder.persist_exact {trades : List Trade} {touched : List Order} {fails : Bool}
    (htrades : ∀ t ∈ trades, t.Scaled) (hrows : ∀ x ∈ o :: touched, (st.row x).column = st.row x) :
    createOrder.persist st o trades touched fails =
      @createOrder.persist Exact.arithmetic st o trades touched fails := by
  have htouched : ∀ row ∈ touched.map st.row, row.column = row :=
    List.forall_mem_map.mpr fun x hx => hrows x (.tail _ hx)
  unfold createOrder.persist
  rw [st.db.saveTrades_exact htrades, Db.saveOrder_exact _ (hrows o (.head _)),
    Db.saveOrders_exact htouched]

end Columns

/-! ## What the steps keep -/

section Exact

open Lib.Exact

variable {st st' : State} {o : Order}

theorem scaled_empty : ScaledState State.empty where
  fills _ := roundTo_zero
  books _ _ x hx := by cases hx

theorem ScaledState.congr (h : ScaledState st)
    (hb : ∀ key side, ∀ x ∈ bookSide st'.orderBooks key side, x ∈ bookSide st.orderBooks key side)
    (hf : st'.fills = st.fills) : ScaledState st' where
  fills id := by
    rw [hf]
    exact h.fills id
  books key side x hx := h.books key side x (hb key side x hx)

theorem ScaledState.save (h : ScaledState st) (o : Order) : ScaledState (createOrder.save st o) where
  fills id := by
    by_cases hid : id = o.id
    · rw [hid, createOrder.save_self]
      exact roundTo_zero
    · rw [createOrder.save_other st hid]
      exact h.fills id
  books := h.books

theorem ScaledState.matched (h : ScaledState st) (ho : o.Scaled) (hp : Placed st.orderBooks)
    (hfresh : ∀ x, InBook st.orderBooks x → x.id ≠ o.id) :
    ScaledState (createOrder.matched st o) ∧ ∀ t ∈ (st.matchOrder o).trades, t.Scaled := by
  obtain ⟨hfills, htrades⟩ :=
    matchLoop_scaled ho (h.books o.assetKey o.side.opposite) h.fills
  refine ⟨⟨fun id => ?_, fun key side x hx => ?_⟩, fun t ht => ?_⟩
  · rw [matched_fills]
    exact hfills id
  · exact h.books key side x ((match_sublist hp hfresh st.fills key side).subset hx)
  · rw [State.matchOrder, (matchOrder_eq _ _ _).2.1] at ht
    exact htrades t ht

theorem ScaledState.rest [ArraySort] (h : ScaledState st) (ho : o.Scaled) :
    ScaledState (createOrder.rest st o) := by
  unfold createOrder.rest
  split
  · refine ⟨h.fills, fun key side x hx => ?_⟩
    rcases mem_addToOrderBook.mp hx with hx | ⟨rfl, -, -⟩
    · exact h.books key side x hx
    · exact ho
  · exact h

theorem ScaledState.close (h : ScaledState st) (row : OrderRow) (status : OrderStatus) :
    ScaledState (closeOrder.write (closeOrder.remove st row) row status) :=
  h.congr (fun _ _ _ hx => (remove_sublist _ _ _ _).subset hx) rfl

theorem ScaledState.createOrder [ArraySort] {u : Uuid} {dto : CreateOrderDto} {now : Time}
    {fault : Option CreateFault} (h : ScaledState st) (hk : Kept (fun _ _ => True) st)
    (ho : createOrder.validate dto now = .ok () → fault ≠ some .save →
      (createOrder.order st.nextId u dto).Scaled) : ScaledState (createOrder st u dto now fault).1 := by
  rcases createOrder_cases st u dto now fault with
    ⟨-, hs⟩ | ⟨o, saved, rfl, rfl, hv, hf, ⟨e, -, hs⟩ | ⟨persisted, hp, hs⟩⟩
  · rw [hs]
    exact h
  · rw [hs]
    exact ((h.save _).matched (ho hv hf) hk.placed (hk.fresh rfl)).1
  · obtain ⟨-, -, rfl⟩ := createOrder.persist_ok hp
    rw [hs]
    refine ScaledState.rest ?_ (ho hv hf)
    exact ((h.save _).matched (ho hv hf) hk.placed (hk.fresh rfl)).1.congr (fun _ _ _ hx => hx) rfl

theorem ScaledState.cleanupExpiredOrders (h : ScaledState st) (now : Time) :
    ScaledState (cleanupExpiredOrders st now) := by
  unfold Trading.cleanupExpiredOrders
  generalize cleanupExpiredOrders.read st.db now = rows
  induction rows generalizing st with
  | nil => exact h
  | cons row rows ih => exact ih (h.close row .expired)

theorem ScaledState.cancelOrder (h : ScaledState st) (k u : Uuid) :
    ScaledState (cancelOrder st k u).1 := by
  unfold Trading.cancelOrder
  split
  · exact h
  · exact h.close _ _

theorem kept_true_step [ArraySort] (h : Kept (fun _ _ => True) st) (op : Op) :
    Kept (fun _ _ => True) (step st op) := by
  cases op with
  | createOrder u dto now fault => exact h.createOrder fun _ _ => ⟨trivial, fun _ _ => trivial⟩
  | cancelOrder k u => exact h.cancelOrder k u
  | cleanupExpiredOrders now => exact h.cleanupExpiredOrders now

end Exact

/-! ## Whole calls -/

/-- The created order has no more decimals than the columns, and its match does not round. -/
def Unrounded (st : State) : Op → Prop
  | .createOrder u dto now fault => createOrder.validate dto now = .ok () → fault ≠ some .save →
      (createOrder.order st.nextId u dto).Scaled ∧ MeetsExactly (createOrder.order st.nextId u dto)
        st.fills (opposite st (createOrder.order st.nextId u dto))
  | _ => True

instance Unrounded.decidable (st : State) : ∀ op, Decidable (Unrounded st op)
  | .createOrder .. => inferInstanceAs (Decidable (_ → _ → _ ∧ _))
  | .cancelOrder .. => .isTrue trivial
  | .cleanupExpiredOrders .. => .isTrue trivial

section Calls

variable {st : State} {o : Order}

theorem createOrder.matched_exact (h : st.matchOrder o = @State.matchOrder Exact.arithmetic st o) :
    createOrder.matched st o = @createOrder.matched Exact.arithmetic st o := by
  rw [createOrder.matched, h]
  rfl

/-- The match of a new order that has just been saved. -/
theorem matchOrder_saved (hk : Kept (fun _ _ => True) st) (ho : o.id = st.nextId)
    (hmet : MeetsExactly o st.fills (opposite st o)) :
    (@createOrder.save Exact.arithmetic st o).matchOrder o =
      @State.matchOrder Exact.arithmetic (@createOrder.save Exact.arithmetic st o) o := by
  have hfresh := hk.fresh ho
  refine matchOrder_exact (hk.placed.toSide hfresh _ _) (createOrder.save_self st o) ?_
  refine (everyMet_congr (takesExactly_local o) fun x hx => ?_).mpr hmet
  exact createOrder.save_other st (hfresh x (hk.placed.inBook hx))

theorem createOrder_exact [ArraySort] {u : Uuid} {dto : CreateOrderDto} {now : Time}
    {fault : Option CreateFault} (hk : Kept (fun _ _ => True) st) (hs : ScaledState st)
    (hu : Unrounded st (.createOrder u dto now fault)) :
    createOrder st u dto now fault = @createOrder Exact.arithmetic _ st u dto now fault := by
  unfold createOrder
  split
  · rfl
  · rename_i hv
    split
    · rfl
    · rename_i hf
      obtain ⟨ho, hmet⟩ := hu hv hf
      have hfresh := hk.fresh (o := createOrder.order st.nextId u dto) rfl
      have hmatch := matchOrder_saved hk rfl hmet
      obtain ⟨hscaled, htrades⟩ := (hs.save _).matched ho hk.placed hfresh
      dsimp only
      rw [createOrder.save_exact ho, createOrder.matched_exact hmatch, hmatch,
        createOrder.persist_exact htrades fun x hx => hscaled.row ?_]
      rcases List.mem_cons.mp hx with rfl | hx
      · exact ho
      · exact hs.books _ _ x (match_touched_mem hk.placed hfresh _ hx)

theorem step_exact [ArraySort] {op : Op} (hk : Kept (fun _ _ => True) st) (hs : ScaledState st)
    (hu : Unrounded st op) : step st op = @step Exact.arithmetic _ st op := by
  cases op with
  | createOrder u dto now fault => exact congrArg Prod.fst (createOrder_exact hk hs hu)
  | cancelOrder | cleanupExpiredOrders => rfl

theorem produced_exact {op : Op} (hk : Kept (fun _ _ => True) st) (hu : Unrounded st op) :
    produced st op = @produced Exact.arithmetic st op := by
  cases op with
  | createOrder u dto now fault =>
    by_cases hgo : createOrder.validate dto now = .ok () ∧ fault ≠ some .save
    · obtain ⟨ho, hmet⟩ := hu hgo.1 hgo.2
      unfold produced
      simp only [if_pos hgo, createOrder.save_exact ho, matchOrder_saved hk rfl hmet]
    · unfold produced
      simp only [if_neg hgo]
  | cancelOrder | cleanupExpiredOrders => rfl

theorem committed_exact {op : Op} (hk : Kept (fun _ _ => True) st) (hu : Unrounded st op) :
    Committed st op ↔ @Committed Exact.arithmetic st op := by
  cases op with
  | createOrder u dto now fault =>
    refine forall_congr' fun hv => forall_congr' fun hf => ?_
    obtain ⟨ho, hmet⟩ := hu hv hf
    rw [createOrder.save_exact ho, matchOrder_saved hk rfl hmet]
  | cancelOrder | cleanupExpiredOrders => exact .rfl

/-- What holds before every call of a run without rounding. -/
theorem along_unrounded [ArraySort] {ops : List Op} (h : Along step Unrounded State.empty ops) :
    Along step (fun st op => Kept (fun _ _ => True) st ∧ ScaledState st ∧ Unrounded st op)
      State.empty ops := by
  refine along_of_inv (I := fun st => Kept (fun _ _ => True) st ∧ ScaledState st)
    (fun st op hI hu => ⟨hI.1, hI.2, hu⟩) (fun st op hI hu => ?_) ⟨kept_empty _, scaled_empty⟩ h
  rw [step_exact hI.1 hI.2 hu]
  refine ⟨kept_true_step hI.1 op, ?_⟩
  cases op with
  | createOrder u dto now fault => exact hI.2.createOrder hI.1 fun hv hf => (hu hv hf).1
  | cancelOrder k u => exact hI.2.cancelOrder k u
  | cleanupExpiredOrders now => exact hI.2.cleanupExpiredOrders now

/-- **A run without rounding goes through the states of the run in exact arithmetic.** -/
theorem along_step_exact [ArraySort] {ops : List Op} (h : Along step Unrounded State.empty ops) :
    Along step (fun st op => step st op = @step Exact.arithmetic _ st op) State.empty ops :=
  (along_unrounded h).mono fun _ _ h => step_exact h.1 h.2.1 h.2.2

end Calls

/-! ## Interleaved calls -/

/-- The same, of the step of a call that saves the order and of the one that matches it. -/
def CallUnrounded (env : Env) (c : Call) (st : State) (_ : List CallTask) : Prop :=
  match c with
  | .start (.createOrder u dto) => createOrder.validate dto env.now = .ok () →
      (createOrder.order st.nextId u dto).Scaled
  | .matching o => MeetsExactly o st.fills (opposite st o)
  | _ => True

instance CallUnrounded.decidable (env : Env) (c : Call) (st : State) (ts : List CallTask) :
    Decidable (CallUnrounded env c st ts) :=
  match c with
  | .start (.createOrder ..) => inferInstanceAs (Decidable (_ → _))
  | .start (.cancelOrder ..) => .isTrue trivial
  | .start .cleanupExpiredOrders => .isTrue trivial
  | .matching o => inferInstanceAs (Decidable (MeetsExactly o st.fills (opposite st o)))
  | .resting _ => .isTrue trivial
  | .persisting .. => .isTrue trivial
  | .removing .. => .isTrue trivial
  | .writing .. => .isTrue trivial

/-- The orders a call will write, and its trades, are such that the columns keep their numbers. -/
def Call.Scaled (c : Call) : Prop := (∀ x ∈ c.holds, x.Scaled) ∧ ∀ t ∈ c.pending, t.Scaled

structure ScaledCalls (st : State) (ts : List CallTask) : Prop where
  base : Base st ts
  state : ScaledState st
  calls : AllRunning Call.Scaled ts

theorem Base.fresh {st : State} {ts : List CallTask} {o : Order} (h : Base st ts)
    (ho : .running (.matching o) ∈ ts) : ∀ x, InBook st.orderBooks x → x.id ≠ o.id :=
  h.apart o (List.mem_filterMap.mpr ⟨_, ho, rfl⟩)

section Exact

open Lib.Exact

variable {env : Env} {st st' : State} {pre post : List CallTask} {c : Call} {t : CallTask}

theorem ScaledCalls.step [ArraySort] (h : ScaledCalls st (pre ++ .running c :: post))
    (hu : CallUnrounded env c st (pre ++ .running c :: post)) (hs : Step env st c st' t) :
    ScaledCalls st' (pre ++ t :: post) := by
  have hbase := base_step h.base hs
  have hc := h.calls.here
  cases hs with
  | stop | abort =>
    exact ⟨hbase, h.state, h.calls.replace fun c' e => by cases e⟩
  | save hv ho =>
    refine ⟨hbase, h.state.save _, h.calls.replace fun c' e => ?_⟩
    cases e
    refine ⟨fun x hx => ?_, List.forall_mem_nil _⟩
    rw [List.mem_singleton.mp hx, ho]
    exact hu hv
  | matched =>
    obtain ⟨hstate, htrades⟩ := h.state.matched (hc.1 _ (.head _)) h.base.placed (h.base.fresh (by simp))
    refine ⟨hbase, hstate, h.calls.replace fun c' e => ?_⟩
    cases e
    refine ⟨List.forall_mem_cons.mpr ⟨hc.1 _ (.head _), fun x hx => ?_⟩, htrades⟩
    exact h.state.books _ _ x (match_touched_mem h.base.placed (h.base.fresh (by simp)) _ hx)
  | persist hp =>
    obtain ⟨-, -, rfl⟩ := createOrder.persist_ok hp
    refine ⟨hbase, h.state.congr (fun _ _ _ hx => hx) rfl, h.calls.replace fun c' e => ?_⟩
    cases e
    refine ⟨fun x hx => ?_, List.forall_mem_nil _⟩
    rw [List.mem_singleton.mp hx]
    exact hc.1 _ (.head _)
  | rest =>
    exact ⟨hbase, h.state.rest (hc.1 _ (.head _)), h.calls.replace fun c' e => by cases e⟩
  | read =>
    refine ⟨hbase, h.state, h.calls.replace fun c' e => ?_⟩
    cases e
    exact ⟨List.forall_mem_nil _, List.forall_mem_nil _⟩
  | remove =>
    refine ⟨hbase, h.state.congr (fun _ _ _ hx => (remove_sublist _ _ _ _).subset hx) rfl,
      h.calls.replace fun c' e => ?_⟩
    cases e
    exact ⟨List.forall_mem_nil _, List.forall_mem_nil _⟩
  | write =>
    refine ⟨hbase, h.state.congr (fun _ _ _ hx => hx) rfl, h.calls.replace fun c' e => ?_⟩
    cases e
    exact ⟨List.forall_mem_nil _, List.forall_mem_nil _⟩

end Exact

abbrev UnroundedStep : Conf State Call (Except HttpError Unit) → Act Env CallOp → Prop :=
  Meets (fun _ => True) CallUnrounded

section Steps

variable [ArraySort] {c : Conf State Call (Except HttpError Unit)} {a : Act Env CallOp}

theorem advance_exact {env : Env} {k : Call} {st : State} {ts : List CallTask} (h : ScaledCalls st ts)
    (hk : .running k ∈ ts) (hu : CallUnrounded env k st ts) :
    advance env k st = @advance Exact.arithmetic _ env k st := by
  cases k with
  | start op =>
    cases op with
    | createOrder u dto =>
      simp only [advance]
      split
      · rfl
      · rename_i hv
        rw [createOrder.save_exact (hu hv)]
    | cancelOrder | cleanupExpiredOrders => rfl
  | matching o =>
    have hside := h.base.placed.toSide (h.base.fresh hk) o.assetKey o.side.opposite
    have hmatch : st.matchOrder o = @State.matchOrder Exact.arithmetic st o :=
      matchOrder_exact hside (h.base.newborn o hk) hu
    simp only [advance, createOrder.matched_exact hmatch, hmatch]
  | persisting o trades touched =>
    obtain ⟨hheld, htrades⟩ := h.calls _ hk
    have hpersist : createOrder.persist st o trades touched env.fails =
        @createOrder.persist Exact.arithmetic st o trades touched env.fails :=
      createOrder.persist_exact htrades fun x hx => h.state.row (hheld x hx)
    simp only [advance]
    rw [hpersist]
  | resting o => rfl
  | removing status rows => cases rows <;> rfl
  | writing status row rows => rfl

theorem engine_step_exact (h : ScaledCalls c.shared c.tasks) (hu : UnroundedStep c a) :
    engine.step c a = (@engine Exact.arithmetic _).step c a :=
  step_congr (P := engine) (Q := @engine Exact.arithmetic _) rfl
    (fun _ _ hk hu => advance_exact h hk hu) hu

theorem scaledCalls_step (h : ScaledCalls c.shared c.tasks) (hu : UnroundedStep c a) :
    ScaledCalls (engine.step c a).shared (engine.step c a).tasks := by
  rw [engine_step_exact h hu]
  refine step_inv (@engine Exact.arithmetic _) ?_ ?_ c a h hu
  · intro s ts op _ h
    refine ⟨h.base.spawn op, h.state, h.calls.spawn ?_⟩
    exact ⟨List.forall_mem_nil _, List.forall_mem_nil _⟩
  · exact fun s pre k post env hu h => h.step hu (@advance_step _ env k s)

/-- **An interleaving without rounding goes through the states of the one in exact arithmetic.** -/
theorem along_engine_exact {acts : List (Act Env CallOp)}
    (h : Along engine.step UnroundedStep (Conf.init State.empty) acts) :
    Along engine.step (fun c a => engine.step c a = (@engine Exact.arithmetic _).step c a)
      (Conf.init State.empty) acts :=
  along_of_inv (I := fun c => ScaledCalls c.shared c.tasks) (fun _ _ => engine_step_exact)
    (fun _ _ => scaledCalls_step) ⟨base_init, scaled_empty, AllRunning.nil⟩ h

end Steps

end Trading
end TradeCore
