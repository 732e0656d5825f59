import TradeCore.Trading.Agreement
import TradeCore.Trading.Fills

/-!
# TradeCore.Trading.Objects

One property of every order, through whole calls.

`Kept P` says that `P` holds of every order with the fill its object has now, and with the fill its
row has, a row that was cancelled or expired aside, of which only the quantity counts. Closing an
order keeps it (`Kept.close`); a `createOrder` keeps it when `P` holds of the new order and of the
orders that the match touches (`Kept.createOrder`).
-/

namespace TradeCore
namespace Trading

open Lib Lib.Exact

/-- `P` of a row, or of what it was before it was closed. -/
def RowKept (P : Order → Fill → Prop) (row : OrderRow) : Prop :=
  ∃ status, P row.order ⟨row.fill.filledQuantity, status⟩ ∧
    (row.fill.status = status ∨ row.fill.status ∈ closedStatuses)

structure Kept (P : Order → Fill → Prop) (st : State) : Prop where
  placed : Placed st.orderBooks
  keys : (st.db.orders.map OrderRow.id).Nodup
  created : ∀ id row, st.db.order? id = some row → id < st.nextId
  stored : ∀ x, InBook st.orderBooks x → ∃ fill, st.db.order? x.id = some ⟨x, fill⟩
  object : ∀ id row, st.db.order? id = some row → P row.order (st.fills id)
  row : ∀ id row, st.db.order? id = some row → RowKept P row

variable {P : Order → Fill → Prop} {st : State} {o : Order}

theorem kept_empty (P : Order → Fill → Prop) : Kept P State.empty where
  placed := agreeInv_empty.placed
  keys := List.nodup_nil
  created _ _ h := by cases h
  stored _ hx := by cases hx
  object _ _ h := by cases h
  row _ _ h := by cases h

theorem Kept.mono {Q : Order → Fill → Prop} (h : Kept P st) (hPQ : ∀ o fill, P o fill → Q o fill) :
    Kept Q st where
  placed := h.placed
  keys := h.keys
  created := h.created
  stored := h.stored
  object id row hid := hPQ _ _ (h.object id row hid)
  row id row hid := (h.row id row hid).imp fun _ hs => ⟨hPQ _ _ hs.1, hs.2⟩

theorem Kept.inBook_object (h : Kept P st) {x : Order} (hx : InBook st.orderBooks x) :
    P x (st.fills x.id) := by
  obtain ⟨fill, hrow⟩ := h.stored x hx
  exact h.object x.id ⟨x, fill⟩ hrow

theorem Kept.inBook_lt (h : Kept P st) {x : Order} (hx : InBook st.orderBooks x) :
    x.id < st.nextId := by
  obtain ⟨fill, hrow⟩ := h.stored x hx
  exact h.created x.id _ hrow

theorem Kept.fresh (h : Kept P st) (ho : o.id = st.nextId) :
    ∀ x, InBook st.orderBooks x → x.id ≠ o.id :=
  fun _ hx => ho ▸ (h.inBook_lt hx).ne

/-! ## Closing an order -/

theorem Kept.close (h : Kept P st) {row : OrderRow} {status : OrderStatus}
    (hrow : st.db.order? row.id = some row) (hclosed : status ∈ closedStatuses) :
    Kept P (closeOrder.write (closeOrder.remove st row) row status) := by
  have hsave := closeOrder.write_order? (closeOrder.remove st row) row status
  have hsub := remove_sublist st.orderBooks row.order
  refine ⟨h.placed.mono hsub, nodup_upsert h.keys, fun id r hr => ?_, fun x hx => ?_,
    fun id r hr => ?_, fun id r hr => ?_⟩
  · rw [hsave] at hr
    split at hr
    · rename_i e
      exact e ▸ h.created _ _ hrow
    · exact h.created id r hr
  · obtain ⟨fill, hx'⟩ := h.stored x ((hsub _ _).subset hx)
    rw [hsave]
    split
    · rename_i e
      have he : row = ⟨x, fill⟩ := Option.some.inj (hrow.symm.trans (e ▸ hx'))
      exact ⟨{ row.fill with status := status }, by rw [he]⟩
    · exact ⟨fill, hx'⟩
  · rw [hsave] at hr
    split at hr
    · rename_i e
      cases hr
      have hobject := h.object _ _ hrow
      exact e ▸ hobject
    · exact h.object id r hr
  · rw [hsave] at hr
    split at hr
    · cases hr
      obtain ⟨s, hs, -⟩ := h.row _ _ hrow
      exact ⟨s, hs, .inr hclosed⟩
    · exact h.row id r hr

theorem Kept.cancelOrder (h : Kept P st) (k u : Uuid) : Kept P (cancelOrder st k u).1 :=
  cancelOrder_inv h k u fun _ hrow _ => h.close hrow (by simp [closedStatuses])

theorem Kept.cleanupExpiredOrders (h : Kept P st) (now : Time) :
    Kept P (cleanupExpiredOrders st now) :=
  cleanupExpiredOrders_inv h h.keys now fun _ _ h hrow _ => h.close hrow (by simp [closedStatuses])

/-! ## Creating an order -/

/-- `P` of the new order as it is saved, and of everything the match changes as it is then. -/
def MatchKeeps (P : Order → Fill → Prop) (st : State) (o : Order) : Prop :=
  P o ⟨0, .open⟩ ∧ ∀ x ∈ o :: ((createOrder.save st o).matchOrder o).touchedOrders,
    P x (((createOrder.save st o).matchOrder o).fills x.id)

theorem Kept.touched_inBook (h : Kept P st) (ho : o.id = st.nextId) {x : Order}
    (hx : x ∈ ((createOrder.save st o).matchOrder o).touchedOrders) : InBook st.orderBooks x :=
  h.placed.inBook (match_touched_mem h.placed (h.fresh ho) _ hx)

theorem Kept.matched (h : Kept P st) (ho : o.id = st.nextId) (hm : MatchKeeps P st o) :
    Kept P (createOrder.matched (createOrder.save st o) o) := by
  have hsave := createOrder.save_order? st o
  have hsub := match_sublist (o := o) h.placed (h.fresh ho) (createOrder.save st o).fills
  refine ⟨h.placed.mono hsub, nodup_upsert h.keys, fun id r hr => ?_, fun x hx => ?_,
    fun id r hr => ?_, fun id r hr => ?_⟩
  · show id < st.nextId + 1
    replace hr := (hsave id).symm.trans hr
    split at hr
    · rename_i e
      rw [← e, ho]
      exact Nat.lt_succ_self _
    · exact (h.created id r hr).trans (Nat.lt_succ_self _)
  · have hx0 : InBook st.orderBooks x := (hsub _ _).subset hx
    obtain ⟨fill, hx'⟩ := h.stored x hx0
    exact ⟨fill, ((hsave x.id).trans (if_neg (h.fresh ho x hx0).symm)).trans hx'⟩
  · replace hr := (hsave id).symm.trans hr
    split at hr
    · rename_i e
      cases hr
      exact e ▸ hm.2 o (.head _)
    · rename_i hne
      by_cases ht : ∃ x ∈ ((createOrder.save st o).matchOrder o).touchedOrders, x.id = id
      · obtain ⟨x, hx, rfl⟩ := ht
        obtain ⟨fill, hx'⟩ := h.stored x (h.touched_inBook ho hx)
        rw [hx'] at hr
        cases hr
        exact hm.2 x (.tail _ hx)
      · have hframe : ((createOrder.save st o).matchOrder o).fills id = st.fills id := by
          have hsaved : (createOrder.save st o).fills id = st.fills id :=
            createOrder.save_other st (Ne.symm hne)
          rw [← hsaved]
          exact match_frame_of_touched h.placed (h.fresh ho) _
            (Ne.symm hne) fun x hx e => ht ⟨x, hx, e⟩
        show P r.order (((createOrder.save st o).matchOrder o).fills id)
        rw [hframe]
        exact h.object id r hr
  · replace hr := (hsave id).symm.trans hr
    split at hr
    · cases hr
      exact ⟨.open, hm.1, .inl rfl⟩
    · exact h.row id r hr

theorem Kept.persisted (h : Kept P st) (ho : o.id = st.nextId) (hm : MatchKeeps P st o)
    {persisted : State} {fails : Bool}
    (hp : createOrder.persist (createOrder.matched (createOrder.save st o) o) o
      ((createOrder.save st o).matchOrder o).trades
      ((createOrder.save st o).matchOrder o).touchedOrders fails = .ok persisted) :
    Kept P persisted ∧ persisted.db.order? o.id = some (persisted.row o) := by
  have hmatched := h.matched ho hm
  have huniq : ∀ x ∈ o :: ((createOrder.save st o).matchOrder o).touchedOrders,
      ∀ y ∈ o :: ((createOrder.save st o).matchOrder o).touchedOrders, x.id = y.id → x = y := by
    intro x hx y hy e
    rcases List.mem_cons.mp hx with rfl | hx
    · rcases List.mem_cons.mp hy with rfl | hy
      · rfl
      · exact absurd e.symm (h.fresh ho y (h.touched_inBook ho hy))
    · rcases List.mem_cons.mp hy with rfl | hy
      · exact absurd e (h.fresh ho x (h.touched_inBook ho hx))
      · exact h.placed.unique x y (h.touched_inBook ho hx) (h.touched_inBook ho hy) e
  obtain ⟨-, -, hst⟩ := createOrder.persist_ok hp
  have hrow := createOrder.persist_row hp huniq
  -- a row is an old one, or that of an order the transaction writes
  have horder : ∀ id r, persisted.db.order? id = some r → ∃ r',
      (createOrder.matched (createOrder.save st o) o).db.order? id = some r' ∧
        r'.order = r.order ∧ (r = r' ∨ ∃ x ∈ o :: ((createOrder.save st o).matchOrder o).touchedOrders,
          r = (createOrder.matched (createOrder.save st o) o).row x) := by
    intro id r hr
    rcases hrow id with ⟨x, hx, rfl, hx'⟩ | ⟨-, hsame⟩
    · rw [hx'] at hr
      cases hr
      rcases List.mem_cons.mp hx with rfl | hxt
      · exact ⟨⟨x, ⟨0, .open⟩⟩, (createOrder.save_order? st x x.id).trans (if_pos rfl), rfl,
          .inr ⟨x, hx, rfl⟩⟩
      · have hxb := h.touched_inBook ho hxt
        obtain ⟨fill, hx''⟩ := h.stored x hxb
        exact ⟨⟨x, fill⟩, ((createOrder.save_order? st o x.id).trans
          (if_neg (h.fresh ho x hxb).symm)).trans hx'', rfl, .inr ⟨x, hx, rfl⟩⟩
    · exact ⟨r, hsame ▸ hr, rfl, .inl rfl⟩
  have hbooks : persisted.orderBooks = (createOrder.matched (createOrder.save st o) o).orderBooks := by
    rw [hst]
  have hfills : persisted.fills = (createOrder.matched (createOrder.save st o) o).fills := by rw [hst]
  have hnext : persisted.nextId = (createOrder.matched (createOrder.save st o) o).nextId := by rw [hst]
  refine ⟨⟨?_, ?_, fun id r hr => ?_, fun x hx => ?_, fun id r hr => ?_, fun id r hr => ?_⟩, ?_⟩
  · rw [hbooks]
    exact hmatched.placed
  · rw [hst]
    exact Db.nodup_saveOrders _ (nodup_upsert hmatched.keys)
  · obtain ⟨r', hr', -⟩ := horder id r hr
    rw [hnext]
    exact hmatched.created id r' hr'
  · rw [hbooks] at hx
    obtain ⟨fill, hx'⟩ := hmatched.stored x hx
    rcases hrow x.id with ⟨y, hy, e, hy'⟩ | ⟨-, hsame⟩
    · obtain ⟨r', hr', ho', -⟩ := horder x.id _ hy'
      rw [hx'] at hr'
      cases hr'
      have hxy : x = y := ho'
      exact ⟨_, by rw [hy', ← hxy]; rfl⟩
    · exact ⟨fill, hsame.trans hx'⟩
  · obtain ⟨r', hr', ho', -⟩ := horder id r hr
    rw [hfills, ← ho']
    exact hmatched.object id r' hr'
  · obtain ⟨r', hr', -, rfl | ⟨x, hx, rfl⟩⟩ := horder id r hr
    · exact hmatched.row id r hr'
    · exact ⟨_, hm.2 x hx, .inl rfl⟩
  · rcases hrow o.id with ⟨x, hx, e, hx'⟩ | ⟨hnot, -⟩
    · rw [hx', huniq x hx o (.head _) e, State.row, State.row, hfills]
    · exact absurd rfl (hnot o (.head _))

theorem Kept.rest [ArraySort] (h : Kept P st) (hown : st.db.order? o.id = some (st.row o))
    (hfresh : ∀ x, InBook st.orderBooks x → x.id ≠ o.id) : Kept P (createOrder.rest st o) := by
  unfold createOrder.rest
  split
  · refine ⟨h.placed.add hfresh, h.keys, h.created, fun x hx => ?_, h.object, h.row⟩
    rcases inBook_add.mp hx with hx | rfl
    · exact h.stored x hx
    · exact ⟨_, hown⟩
  · exact h

/-- **A `createOrder` whose match keeps `P` keeps it.** -/
theorem Kept.createOrder [ArraySort] {u : Uuid} {dto : CreateOrderDto} {now : Time} {fault : Option CreateFault}
    (h : Kept P st) (hm : createOrder.validate dto now = .ok () → fault ≠ some .save →
      MatchKeeps P st (createOrder.order st.nextId u dto)) :
    Kept P (createOrder st u dto now fault).1 := by
  rcases createOrder_cases st u dto now fault with
    ⟨-, hs⟩ | ⟨o, saved, ho, rfl, hv, hf, ⟨e, -, hs⟩ | ⟨persisted, hp, hs⟩⟩
  · rw [hs]
    exact h
  · rw [hs]
    exact h.matched (by rw [ho]; rfl) (by rw [ho]; exact hm hv hf)
  · have hid : o.id = st.nextId := by rw [ho]; rfl
    obtain ⟨hk, hown⟩ := h.persisted hid (by rw [ho]; exact hm hv hf) hp
    rw [hs]
    refine hk.rest hown fun x hx => h.fresh hid x ?_
    obtain ⟨-, -, hst⟩ := createOrder.persist_ok hp
    rw [hst] at hx
    exact (match_sublist (o := o) h.placed (h.fresh hid) (createOrder.save st o).fills _ _).subset hx

/-- What a `createOrder` that gets to the match leaves behind: the objects as the match leaves them,
the new order in the table, and in the books what the match left there. -/
theorem Kept.created_order [ArraySort] {u : Uuid} {dto : CreateOrderDto} {now : Time}
    {fault : Option CreateFault} (h : Kept P st) (hv : createOrder.validate dto now = .ok ())
    (hf : fault ≠ some .save) {o : Order} (ho : o = createOrder.order st.nextId u dto) :
    (Trading.createOrder st u dto now fault).1.fills = ((createOrder.save st o).matchOrder o).fills ∧
      (∃ fill, (Trading.createOrder st u dto now fault).1.db.order? o.id = some ⟨o, fill⟩) ∧
      ∀ x, InBook ((createOrder.save st o).matchOrder o).orderBooks x →
        InBook (Trading.createOrder st u dto now fault).1.orderBooks x := by
  have htriv : Kept (fun _ _ => True) st := h.mono fun _ _ _ => trivial
  have hmk : ∀ o, MatchKeeps (fun _ _ => True) st o := fun _ => ⟨trivial, fun _ _ => trivial⟩
  have hid : o.id = st.nextId := by rw [ho]; rfl
  rcases createOrder_cases st u dto now fault with
    ⟨hnot, -⟩ | ⟨o', saved, ho', rfl, -, -, ⟨e, -, hs⟩ | ⟨persisted, hp, hs⟩⟩
  · exact absurd (hnot hv) hf
  · obtain rfl : o' = o := ho'.trans ho.symm
    rw [hs]
    exact ⟨rfl, ⟨_, (createOrder.save_order? st o' o'.id).trans (if_pos rfl)⟩, fun x hx => hx⟩
  · obtain rfl : o' = o := ho'.trans ho.symm
    obtain ⟨-, hown⟩ := htriv.persisted hid (hmk o') hp
    obtain ⟨-, -, hst⟩ := createOrder.persist_ok hp
    have hfills : persisted.fills = ((createOrder.save st o').matchOrder o').fills := by rw [hst]; rfl
    have hbooks : persisted.orderBooks = ((createOrder.save st o').matchOrder o').orderBooks := by
      rw [hst]
      rfl
    rw [hs]
    unfold createOrder.rest
    split
    · exact ⟨hfills, ⟨_, hown⟩, fun x hx => inBook_add.mpr (.inl (hbooks ▸ hx))⟩
    · exact ⟨hfills, ⟨_, hown⟩, fun x hx => hbooks ▸ hx⟩

end Trading
end TradeCore
