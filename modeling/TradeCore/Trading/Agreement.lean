import TradeCore.Trading.Priority

/-!
# TradeCore.Trading.Agreement

The books in memory against the table of orders, over runs of whole calls.

`createOrder` saves the order as OPEN, matches it in memory, and writes what the match did in one
transaction; it puts the rest of the order in the book only after that. The books and the table
agree after every call of a run exactly when no transaction of the run fails
(`always_agrees_iff`): a transaction that fails leaves an OPEN row behind that is in no book.
-/

namespace TradeCore
namespace Trading

open Lib Lib.Exact

/-- The books hold, each once and with the same quantity filled, exactly the orders that are OPEN or
PARTIALLY_FILLED in the table. -/
structure Agrees (st : State) : Prop where
  stored : ∀ key side, ∀ x ∈ bookSide st.orderBooks key side, x.assetKey = key ∧ x.side = side ∧
    ∃ row ∈ st.db.orders, row.order = x ∧ row.fill.status ∈ openStatuses ∧
      (st.fills x.id).filledQuantity = row.fill.filledQuantity
  listed : ∀ row ∈ st.db.orders, row.fill.status ∈ openStatuses →
    (bookSide st.orderBooks row.order.assetKey row.order.side).count row.order = 1

/-- What the calls keep: an order in the books is stored as it is in memory, an open row is in the
books, and ids are given out in turn. -/
structure AgreeInv (st : State) : Prop where
  placed : Placed st.orderBooks
  keys : (st.db.orders.map OrderRow.id).Nodup
  created : ∀ id row, st.db.order? id = some row → id < st.nextId
  stored : ∀ x, InBook st.orderBooks x →
    st.db.order? x.id = some (st.row x) ∧ (st.fills x.id).status ∈ openStatuses
  listed : ∀ id row, st.db.order? id = some row → row.fill.status ∈ openStatuses →
    InBook st.orderBooks row.order

theorem agreeInv_empty : AgreeInv State.empty := by
  refine ⟨⟨?_, ?_, ?_⟩, List.nodup_nil, ?_, ?_, ?_⟩
  · intro key side x hx; cases hx
  · intro key side; exact List.nodup_nil
  · intro x y hx; cases hx
  · intro id row h; cases h
  · intro x hx; cases hx
  · intro id row h; cases h

theorem AgreeInv.agrees {st : State} (h : AgreeInv st) : Agrees st := by
  refine ⟨fun key side x hx => ?_, fun row hrow hopen => ?_⟩
  · obtain ⟨hk, hs⟩ := h.placed.placed key side x hx
    obtain ⟨hrow, hopen⟩ := h.stored x (h.placed.inBook hx)
    exact ⟨hk, hs, st.row x, mem_of_lookup hrow, rfl, hopen, rfl⟩
  · have hlook : st.db.order? row.id = some row := lookup_of_mem h.keys hrow
    have hin : InBook st.orderBooks row.order := h.listed _ _ hlook hopen
    exact List.count_eq_one_of_mem (List.Nodup.of_map _ (h.placed.nodup _ _)) hin

theorem AgreeInv.inBook_lt {st : State} (h : AgreeInv st) {x : Order}
    (hx : InBook st.orderBooks x) : x.id < st.nextId :=
  h.created _ _ (h.stored x hx).1

/-! ## Closing an order -/

/-- Take an open order out of the book and write its row with a status that is not open. -/
theorem AgreeInv.close {st : State} {row : OrderRow} {status : OrderStatus} (h : AgreeInv st)
    (hrow : st.db.order? row.id = some row) (hopen : row.fill.status ∈ openStatuses)
    (hclosed : status ∉ openStatuses) :
    AgreeInv (closeOrder.write (closeOrder.remove st row) row status) := by
  have hin : InBook st.orderBooks row.order := h.listed _ _ hrow hopen
  have hsame : ∀ x, InBook st.orderBooks x → x.id = row.order.id → x = row.order :=
    fun x hx e => h.placed.unique x row.order hx hin e
  have hsub := remove_sublist st.orderBooks row.order
  have hleft : ∀ x, InBook (removeFromOrderBook st.orderBooks row.order) x →
      InBook st.orderBooks x ∧ row.id ≠ x.id := by
    intro x hx
    have hx0 : InBook st.orderBooks x := (hsub _ _).subset hx
    exact ⟨hx0, fun e => ((inBook_remove (hsame x hx0)).mp hx).2 (hsame x hx0 e.symm)⟩
  have hsave : ∀ id, (closeOrder.write (closeOrder.remove st row) row status).db.order? id =
      if row.id = id then some { row with fill := { row.fill with status := status } }
      else st.db.order? id := closeOrder.write_order? (closeOrder.remove st row) row status
  refine ⟨h.placed.mono hsub, nodup_upsert h.keys, fun id r hr => ?_, fun x hx => ?_,
    fun id r hr hr' => ?_⟩
  · rw [hsave] at hr
    split at hr
    · rename_i e
      exact e ▸ h.created _ _ hrow
    · exact h.created id r hr
  · obtain ⟨hx0, hne⟩ := hleft x hx
    rw [hsave, if_neg hne]
    exact h.stored x hx0
  · rw [hsave] at hr
    split at hr
    · cases hr
      exact absurd hr' hclosed
    · rename_i hne
      have hr0 := h.listed id r hr hr'
      refine (inBook_remove (hsame r.order hr0)).mpr ⟨hr0, fun e => hne ?_⟩
      rw [← Db.order?_id hr]
      exact congrArg Order.id e.symm

theorem agreeInv_cancelOrder {st : State} (h : AgreeInv st) (k u : Uuid) :
    AgreeInv (cancelOrder st k u).1 :=
  cancelOrder_inv h k u fun _ hrow hopen => h.close hrow hopen (by simp [openStatuses])

theorem agreeInv_cleanupExpiredOrders {st : State} (h : AgreeInv st) (now : Time) :
    AgreeInv (cleanupExpiredOrders st now) :=
  cleanupExpiredOrders_inv h h.keys now fun _ _ h hrow hopen =>
    h.close hrow hopen (by simp [openStatuses])

/-! ## Creating an order -/

section Create

variable {st : State} {o : Order}

theorem AgreeInv.fresh (h : AgreeInv st) (ho : o.id = st.nextId) :
    ∀ x, InBook st.orderBooks x → x.id ≠ o.id :=
  fun _ hx => ho ▸ (h.inBook_lt hx).ne

/-- After the transaction an order in the books is stored as it is in memory, and an open row other
than the new one is in the books. -/
theorem AgreeInv.persisted {persisted : State} {fails : Bool} (h : AgreeInv st)
    (ho : o.id = st.nextId)
    (hp : createOrder.persist (createOrder.matched (createOrder.save st o) o) o
      ((createOrder.save st o).matchOrder o).trades
      ((createOrder.save st o).matchOrder o).touchedOrders fails = .ok persisted) :
    (∀ x, InBook persisted.orderBooks x → persisted.db.order? x.id = some (persisted.row x) ∧
      (persisted.fills x.id).status ∈ openStatuses) ∧
    persisted.db.order? o.id = some (persisted.row o) ∧
    ∀ id row, persisted.db.order? id = some row → id ≠ o.id →
      id < st.nextId ∧ (row.fill.status ∈ openStatuses → InBook persisted.orderBooks row.order) := by
  have hfresh : ∀ x, InBook (createOrder.save st o).orderBooks x → x.id ≠ o.id := h.fresh ho
  have hplaced : Placed (createOrder.save st o).orderBooks := h.placed
  have htouched : ∀ x ∈ ((createOrder.save st o).matchOrder o).touchedOrders,
      InBook st.orderBooks x :=
    fun x hx => hplaced.inBook (match_touched_mem hplaced hfresh _ hx)
  obtain ⟨hrow, hown, hother⟩ := createOrder.persist_order? hp
    (fun x hx y hy => h.placed.unique x y (htouched x hx) (htouched y hy))
    (fun x hx => hfresh x (htouched x hx))
  obtain ⟨-, -, hst⟩ := createOrder.persist_ok hp
  have hbooks : persisted.orderBooks = ((createOrder.save st o).matchOrder o).orderBooks := by
    rw [hst]; rfl
  have hfills : persisted.fills = ((createOrder.save st o).matchOrder o).fills := by rw [hst]; rfl
  have hprow : ∀ x, persisted.row x = (createOrder.matched (createOrder.save st o) o).row x := by
    intro x; rw [State.row, hfills]; rfl
  refine ⟨fun x hx => ?_, by rw [hown, hprow], fun id row hid hne => ?_⟩
  · rw [hbooks] at hx
    have hx0 : InBook st.orderBooks x := (match_sublist hplaced hfresh _ _ _).subset hx
    obtain ⟨hstored, hopen⟩ := h.stored x hx0
    refine ⟨?_, ?_⟩
    · by_cases ht : x ∈ ((createOrder.save st o).matchOrder o).touchedOrders
      · rw [hrow x ht, hprow]
      · rw [hother x.id (hfresh x hx0) fun y hy e => ht ?_]
        · rw [State.row, hfills, State.matchOrder, match_untouched hplaced hfresh _ hx0 ht,
            createOrder.save_other st (hfresh x hx0)]
          exact ((createOrder.save_order? st o x.id).trans (if_neg (hfresh x hx0).symm)).trans hstored
        · exact h.placed.unique y x (htouched y hy) hx0 e ▸ hy
    · rw [hfills, State.matchOrder, match_kept hplaced hfresh _ hx, createOrder.save_other st (hfresh x hx0)]
      exact hopen
  · by_cases ht : ∃ x ∈ ((createOrder.save st o).matchOrder o).touchedOrders, x.id = id
    · obtain ⟨x, hx, rfl⟩ := ht
      rw [hrow x hx] at hid
      cases hid
      refine ⟨h.inBook_lt (htouched x hx), fun hopen => ?_⟩
      by_contra hgone
      rw [hbooks] at hgone
      have hfilled := (match_gone hplaced hfresh _ (htouched x hx) hgone).2
      simp only [State.row, createOrder.matched, State.matchOrder] at hopen
      rw [hfilled] at hopen
      simp [openStatuses] at hopen
    · rw [not_exists] at ht
      rw [hother id hne fun x hx e => ht x ⟨hx, e⟩] at hid
      have hid0 : st.db.order? id = some row := ((createOrder.save_order? st o id).trans (if_neg hne.symm)).symm.trans hid
      refine ⟨h.created id row hid0, fun hopen => ?_⟩
      have hin := h.listed id row hid0 hopen
      by_contra hgone
      rw [hbooks] at hgone
      exact ht row.order ⟨(match_gone hplaced hfresh _ hin hgone).1, Db.order?_id hid0⟩

theorem AgreeInv.commit [ArraySort] {persisted : State} {fails : Bool} (h : AgreeInv st) (ho : o.id = st.nextId)
    (hp : createOrder.persist (createOrder.matched (createOrder.save st o) o) o
      ((createOrder.save st o).matchOrder o).trades
      ((createOrder.save st o).matchOrder o).touchedOrders fails = .ok persisted) :
    AgreeInv (createOrder.rest persisted o) := by
  obtain ⟨hstored, hown, hrows⟩ := h.persisted ho hp
  obtain ⟨-, -, hst⟩ := createOrder.persist_ok hp
  have hsub : ∀ key side, (bookSide persisted.orderBooks key side).Sublist
      (bookSide st.orderBooks key side) := by
    rw [hst]
    exact match_sublist (o := o) h.placed (h.fresh ho) (createOrder.save st o).fills
  have hplaced : Placed persisted.orderBooks := h.placed.mono hsub
  have hkeys : (persisted.db.orders.map OrderRow.id).Nodup := by
    rw [hst]
    exact Db.nodup_saveOrders _ (nodup_upsert (nodup_upsert h.keys))
  have hcreated : ∀ id row, persisted.db.order? id = some row → id < persisted.nextId := by
    intro id row hid
    have hnext : persisted.nextId = st.nextId + 1 := by rw [hst]; rfl
    rw [hnext]
    by_cases hio : id = o.id
    · rw [hio, ho]
      exact Nat.lt_succ_self _
    · exact (hrows id row hid hio).1.trans (Nat.lt_succ_self _)
  unfold createOrder.rest
  split
  · rename_i hopen
    refine ⟨hplaced.add fun x hx => h.fresh ho x ((hsub _ _).subset hx), hkeys, hcreated,
      fun x hx => ?_, fun id row hid hrow => ?_⟩
    · rcases inBook_add.mp hx with hx | rfl
      · exact hstored x hx
      · exact ⟨hown, hopen⟩
    · refine inBook_add.mpr ?_
      by_cases hio : id = o.id
      · subst hio
        have : row = persisted.row o := Option.some.inj (hid.symm.trans hown)
        exact .inr (by rw [this]; rfl)
      · exact .inl ((hrows id row hid hio).2 hrow)
  · rename_i hclosed
    refine ⟨hplaced, hkeys, hcreated, hstored, fun id row hid hrow => ?_⟩
    by_cases hio : id = o.id
    · subst hio
      have : row = persisted.row o := Option.some.inj (hid.symm.trans hown)
      rw [this] at hrow
      exact absurd hrow hclosed
    · exact (hrows id row hid hio).2 hrow

theorem AgreeInv.not_agrees (h : AgreeInv st) (ho : o.id = st.nextId) :
    ¬ Agrees (createOrder.matched (createOrder.save st o) o) := by
  intro hag
  have hrow : (createOrder.save st o).db.order? o.id = some ⟨o, ⟨0, .open⟩⟩ :=
    (createOrder.save_order? st o o.id).trans (if_pos rfl)
  have hcount := hag.listed ⟨o, ⟨0, .open⟩⟩ (mem_of_lookup hrow) (by simp [openStatuses])
  have hmem : o ∈ bookSide (createOrder.matched (createOrder.save st o) o).orderBooks o.assetKey
      o.side := List.count_pos_iff.mp (by rw [hcount]; exact Nat.one_pos)
  have hin : InBook st.orderBooks o :=
    (match_sublist (o := o) h.placed (h.fresh ho) (createOrder.save st o).fills _ _).subset hmem
  exact h.fresh ho o hin rfl

end Create

/-! ## Whole runs -/

/-- The transaction of a call that gets to it goes through. -/
def Committed [Arithmetic] (st : State) : Op → Prop
  | .createOrder u dto now fault => createOrder.validate dto now = .ok () → fault ≠ some .save →
      fault ≠ some .transaction ∧
      ∀ t ∈ ((createOrder.save st (createOrder.order st.nextId u dto)).matchOrder
        (createOrder.order st.nextId u dto)).trades, t.price ≠ none
  | _ => True

theorem agreeInv_step [ArraySort] (st : State) (op : Op) (h : AgreeInv st) (hc : Committed st op) :
    AgreeInv (step st op) := by
  cases op with
  | createOrder u dto now fault =>
    show AgreeInv (createOrder st u dto now fault).1
    rcases createOrder_cases st u dto now fault with
      ⟨-, hs⟩ | ⟨o, saved, rfl, rfl, hv, hsave, ⟨e, hp, hs⟩ | ⟨persisted, hp, hs⟩⟩
    · rw [hs]; exact h
    · obtain ⟨hf, hpriced⟩ := hc hv hsave
      rcases createOrder.persist_error hp with he | ⟨t, ht, hnone⟩
      · exact absurd (of_decide_eq_true he) hf
      · exact absurd hnone (hpriced t ht)
    · rw [hs]
      exact h.commit rfl hp
  | cancelOrder k u => exact agreeInv_cancelOrder h k u
  | cleanupExpiredOrders now => exact agreeInv_cleanupExpiredOrders h now

theorem not_agrees_step [ArraySort] (st : State) (op : Op) (h : AgreeInv st) (hc : ¬ Committed st op) :
    ¬ Agrees (step st op) := by
  cases op with
  | createOrder u dto now fault =>
    show ¬ Agrees (createOrder st u dto now fault).1
    rcases createOrder_cases st u dto now fault with
      ⟨hnot, -⟩ | ⟨o, saved, rfl, rfl, hv, hsave, ⟨e, hp, hs⟩ | ⟨persisted, hp, -⟩⟩
    · exact absurd (fun hv hsave => absurd (hnot hv) hsave) hc
    · rw [hs]
      exact h.not_agrees rfl
    · obtain ⟨hf, hpriced, -⟩ := createOrder.persist_ok hp
      exact absurd (fun _ _ => ⟨of_decide_eq_false hf, hpriced⟩) hc
  | cancelOrder | cleanupExpiredOrders => exact absurd trivial hc

/-- The books and the table agree after every call exactly when no transaction fails. -/
theorem always_agrees_iff [ArraySort] (ops : List Op) :
    Always step Agrees State.empty ops ↔ Along step Committed State.empty ops :=
  always_iff_along (fun _ h => h.agrees) agreeInv_step not_agrees_step agreeInv_empty

end Trading
end TradeCore
