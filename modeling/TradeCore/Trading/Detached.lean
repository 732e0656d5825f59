import TradeCore.Trading.Concurrent

/-!
# TradeCore.Trading.Detached

Objects that nobody can reach any more.

`Known` says that the order in a row, in the book, in a copy or in a call is the same for one id; it
holds in every interleaving (`known_step`). An object is `Detached` when it is in no book and no call
in flight will write it or put it in the book. A detached object stays detached and is never filled
again, in every interleaving (`detached_step`, `detached_fills`).
-/

namespace TradeCore
namespace Trading

open Lib Lib.Exact

/-- The orders a call will write or put in the book. -/
def Call.holds : Call → List Order
  | .matching o | .resting o => [o]
  | .persisting o _ us => o :: us
  | _ => []

/-- The copies of rows a call has read. -/
def Call.copies : Call → List OrderRow
  | .removing _ rows => rows
  | .writing _ row rows => row :: rows
  | _ => []

/-! ## One order for one id -/

/-- The row of the id of `x` is one of `x`. -/
def Stored (db : Db) (x : Order) : Prop := ∃ fill, db.order? x.id = some ⟨x, fill⟩

theorem Stored.unique {db : Db} {x y : Order} (hx : Stored db x) (hy : Stored db y)
    (e : x.id = y.id) : x = y := by
  obtain ⟨f, hf⟩ := hx
  obtain ⟨g, hg⟩ := hy
  rw [e, hg] at hf
  cases hf
  rfl

/-- A row that is written back carries the order it had, or has a new id. -/
theorem Stored.saveCopy {db : Db} {x : Order} {row : OrderRow} (hx : Stored db x)
    (hrow : Stored db row.order ∨ db.order? row.id = none) : Stored (db.saveCopy row) x := by
  by_cases e : row.id = x.id
  · rcases hrow with hrow | hrow
    · refine ⟨row.fill, ?_⟩
      rw [Db.order?_saveCopy, if_pos e, ← hrow.unique hx e]
    · obtain ⟨f, hf⟩ := hx
      rw [← e, hrow] at hf
      cases hf
  · obtain ⟨f, hf⟩ := hx
    exact ⟨f, by rw [Db.order?_saveCopy, if_neg e, hf]⟩

theorem stored_saved (db : Db) (row : OrderRow) : Stored (db.saveOrder row) row.order := by
  refine ⟨row.fill, ?_⟩
  rw [Db.order?_saveOrder]
  exact if_pos rfl

structure Known (st : State) (ts : List CallTask) : Prop where
  keys : (st.db.orders.map OrderRow.id).Nodup
  bounded : ∀ id row, st.db.order? id = some row → id < st.nextId
  books : ∀ x, InBook st.orderBooks x → Stored st.db x
  calls : ∀ x ∈ gather Call.holds ts, Stored st.db x
  copies : ∀ row ∈ gather Call.copies ts, Stored st.db row.order

section Known

variable {st st' : State} {ts pre post : List CallTask} {c : Call} {t : CallTask} {o : Order}

theorem Known.lt (h : Known st ts) {x : Order} (hx : Stored st.db x) : x.id < st.nextId := by
  obtain ⟨f, hf⟩ := hx
  exact h.bounded x.id _ hf

theorem Known.mem (h : Known st ts) {row : OrderRow} (hrow : row ∈ st.db.orders) :
    st.db.order? row.id = some row := lookup_of_mem h.keys hrow

theorem Known.fresh (h : Known st ts) : st.db.order? st.nextId = none := by
  cases hrow : st.db.order? st.nextId with
  | none => rfl
  | some row => exact absurd (h.bounded _ row hrow) (lt_irrefl _)

/-- The rule for one step: what the call that moves holds afterwards has to be looked at. -/
theorem Known.step (h : Known st (pre ++ .running c :: post))
    (hkeys : (st'.db.orders.map OrderRow.id).Nodup)
    (hbounded : ∀ id row, st'.db.order? id = some row → id < st'.nextId)
    (hgrow : ∀ x, Stored st.db x → Stored st'.db x)
    (hbook : ∀ x, InBook st'.orderBooks x → InBook st.orderBooks x ∨ x ∈ c.holds)
    (hholds : ∀ x ∈ t.gather Call.holds, Stored st'.db x)
    (hcopies : ∀ row ∈ t.gather Call.copies, Stored st'.db row.order) :
    Known st' (pre ++ t :: post) where
  keys := hkeys
  bounded := hbounded
  books x hx := hgrow x ((hbook x hx).elim (h.books x) fun hc => h.calls x (mem_gather_here hc))
  calls x hx := (mem_gather_replace hx).elim (hholds x) fun hx => hgrow x (h.calls x hx)
  copies row hrow := (mem_gather_replace hrow).elim (hcopies row) fun hr => hgrow _ (h.copies row hr)

/-- A step that leaves the tables alone. -/
theorem Known.same_db (h : Known st (pre ++ .running c :: post)) (hdb : st'.db = st.db)
    (hid : st'.nextId = st.nextId)
    (hbook : ∀ x, InBook st'.orderBooks x → InBook st.orderBooks x ∨ x ∈ c.holds)
    (hholds : ∀ x ∈ t.gather Call.holds,
      x ∈ c.holds ∨ InBook st.orderBooks x ∨ st.nextId ≤ x.id ∧ x.id < st'.nextId)
    (hcopies : ∀ row ∈ t.gather Call.copies, row ∈ c.copies ∨ row ∈ st.db.orders) :
    Known st' (pre ++ t :: post) := by
  refine h.step (hdb ▸ h.keys) (hdb ▸ hid ▸ h.bounded) (fun x hx => hdb ▸ hx) hbook ?_ ?_
  · intro x hx
    rw [hdb]
    rcases hholds x hx with hc | hb | ⟨hge, hlt⟩
    · exact h.calls x (mem_gather_here hc)
    · exact h.books x hb
    · exact absurd hge (not_le.mpr (hid ▸ hlt))
  · intro row hrow
    rw [hdb]
    rcases hcopies row hrow with hc | hmem
    · exact h.copies row (mem_gather_here hc)
    · exact ⟨row.fill, h.mem hmem⟩

theorem Known.unique (h : Known st (pre ++ .running c :: post)) :
    ∀ x ∈ c.holds, ∀ y ∈ c.holds, x.id = y.id → x = y :=
  fun x hx y hy => (h.calls x (mem_gather_here hx)).unique (h.calls y (mem_gather_here hy))

theorem createOrder.rest_frame [ArraySort] (st : State) (o : Order) :
    (createOrder.rest st o).db = st.db ∧ (createOrder.rest st o).fills = st.fills ∧
      (createOrder.rest st o).nextId = st.nextId := by
  unfold createOrder.rest
  split
  · exact ⟨rfl, rfl, rfl⟩
  · exact ⟨rfl, rfl, rfl⟩

theorem createOrder.rest_inBook [ArraySort] (x : Order) (hx : InBook (createOrder.rest st o).orderBooks x) :
    InBook st.orderBooks x ∨ x ∈ (Call.resting o).holds := by
  unfold createOrder.rest at hx
  split at hx
  · exact (inBook_add.mp hx).imp id List.mem_singleton.mpr
  · exact .inl hx

theorem Known.save (h : Known st (pre ++ .running c :: post)) (ho : o.id = st.nextId) :
    Known (createOrder.save st o) (pre ++ .running (.matching o) :: post) := by
  have hfresh : st.db.order? o.id = none := ho ▸ h.fresh
  have hgrow : ∀ x, Stored st.db x → Stored (createOrder.save st o).db x := by
    intro x hx
    rw [createOrder.save, Db.saveOrder_eq]
    exact hx.saveCopy (.inr hfresh)
  refine h.step (nodup_upsert h.keys) ?_ hgrow (fun x hx => .inl hx) ?_ (fun row hrow => by cases hrow)
  · intro id row hrow
    rw [createOrder.save_order?] at hrow
    split at hrow
    · rename_i e
      rw [← e, ho]
      exact Nat.lt_succ_self _
    · exact (h.bounded id row hrow).trans (Nat.lt_succ_self _)
  · intro x hx
    obtain rfl : x = o := List.mem_singleton.mp hx
    exact stored_saved st.db ⟨x, ⟨0, .open⟩⟩

theorem Known.persist {trades : List Trade} {us : List Order} {fails : Bool}
    (h : Known st (pre ++ .running (.persisting o trades us) :: post))
    (hp : createOrder.persist st o trades us fails = .ok st') :
    Known st' (pre ++ .running (.resting o) :: post) := by
  have hrow := createOrder.persist_row hp h.unique
  have hstored : ∀ x ∈ o :: us, Stored st.db x := fun x hx => h.calls x (mem_gather_here hx)
  have hgrow : ∀ x, Stored st.db x → Stored st'.db x := by
    intro x hx
    rcases hrow x.id with ⟨y, hy, e, hsome⟩ | ⟨-, hsame⟩
    · exact ⟨st.fills x.id, by rw [hsome, (hstored y hy).unique hx e]; rfl⟩
    · rwa [Stored, hsame]
  obtain ⟨-, -, hst⟩ := createOrder.persist_ok hp
  refine h.step ?_ ?_ hgrow ?_ ?_ (fun row hrow => by cases hrow)
  · have hsaved : ((st.db.saveTrades trades).orders.map OrderRow.id).Nodup := h.keys
    rw [hst]
    exact Db.nodup_saveOrders ((o :: us).map st.row) hsaved
  · intro id row hsome
    have hid : st'.nextId = st.nextId := by rw [hst]
    rw [hid]
    rcases hrow id with ⟨y, hy, rfl, -⟩ | ⟨-, hsame⟩
    · exact h.lt (hstored y hy)
    · exact h.bounded id row (hsame ▸ hsome)
  · intro x hx
    rw [hst] at hx
    exact .inl hx
  · intro x hx
    obtain rfl : x = o := List.mem_singleton.mp hx
    exact hgrow x (hstored x (.head _))

theorem Known.write {status : OrderStatus} {row : OrderRow} {rows : List OrderRow}
    (h : Known st (pre ++ .running (.writing status row rows) :: post)) :
    Known (closeOrder.write st row status) (pre ++ .running (.removing status rows) :: post) := by
  have hrow : Stored st.db row.order := h.copies row (mem_gather_here (.head _))
  refine h.step (nodup_upsert h.keys) ?_ (fun x hx => hx.saveCopy (.inl hrow))
    (fun x hx => .inl hx) (fun x hx => by cases hx) fun r hr => ?_
  · intro id r hr
    rw [closeOrder.write_order?] at hr
    split at hr
    · rename_i e
      exact e ▸ h.lt hrow
    · exact h.bounded id r hr
  · exact (h.copies r (mem_gather_here (.tail _ hr))).saveCopy (.inl hrow)

/-- What a step puts in a book or gives to a call was in a book or held by that call, or is new. -/
theorem Step.origin [ArraySort] {env : Env} (hb : Base st (pre ++ .running c :: post))
    (hs : Step env st c st' t) :
    (∀ x, InBook st'.orderBooks x → InBook st.orderBooks x ∨ x ∈ c.holds) ∧
      ∀ x ∈ t.gather Call.holds,
        x ∈ c.holds ∨ InBook st.orderBooks x ∨ st.nextId ≤ x.id ∧ x.id < st'.nextId := by
  cases hs with
  | stop | abort => exact ⟨fun x hx => .inl hx, fun x hx => by cases hx⟩
  | save hv ho =>
    refine ⟨fun x hx => .inl hx, fun x hx => .inr (.inr ?_)⟩
    rw [List.mem_singleton.mp hx, ho]
    exact ⟨le_refl _, Nat.lt_succ_self _⟩
  | matched =>
    obtain ⟨-, hfresh, -⟩ := hb.held rfl
    refine ⟨fun x hx => .inl ((match_sublist hb.placed hfresh st.fills _ _).subset hx), ?_⟩
    intro x hx
    rcases List.mem_cons.mp hx with rfl | hx
    · exact .inl (.head _)
    · exact .inr (.inl (hb.placed.inBook (match_touched_mem hb.placed hfresh st.fills hx)))
  | persist hp =>
    obtain ⟨-, -, rfl⟩ := createOrder.persist_ok hp
    refine ⟨fun x hx => .inl hx, fun x hx => .inl ?_⟩
    rw [List.mem_singleton.mp hx]
    exact .head _
  | rest => exact ⟨createOrder.rest_inBook, fun x hx => by cases hx⟩
  | read => exact ⟨fun x hx => .inl hx, fun x hx => by cases hx⟩
  | remove => exact ⟨fun x hx => .inl ((remove_sublist _ _ _ _).subset hx), fun x hx => by cases hx⟩
  | write => exact ⟨fun x hx => .inl hx, fun x hx => by cases hx⟩

/-- **An id stands for one order, in every interleaving.** -/
theorem known_step [ArraySort] {env : Env} (hb : Base st (pre ++ .running c :: post))
    (h : Known st (pre ++ .running c :: post)) (hs : Step env st c st' t) :
    Known st' (pre ++ t :: post) := by
  obtain ⟨hbook, hholds⟩ := hs.origin hb
  cases hs with
  | save hv ho => exact h.save (by rw [ho]; rfl)
  | persist hp => exact h.persist hp
  | write => exact h.write
  | stop | abort => exact h.same_db rfl rfl hbook hholds fun row hr => by cases hr
  | matched => exact h.same_db rfl rfl hbook hholds fun row hr => by cases hr
  | rest =>
    obtain ⟨hdb, -, hid⟩ := createOrder.rest_frame st _
    exact h.same_db hdb hid hbook hholds fun row hr => by cases hr
  | read _ hrows => exact h.same_db rfl rfl hbook hholds fun row hr => .inr (hrows row hr)
  | remove => exact h.same_db rfl rfl hbook hholds fun row hr => .inl hr

theorem Known.spawn (h : Known st ts) (op : CallOp) : Known st (ts ++ [Task.running (Call.start op)]) :=
  ⟨h.keys, h.bounded, h.books, by rw [gather_spawn rfl]; exact h.calls,
    by rw [gather_spawn rfl]; exact h.copies⟩

theorem known_init : Known State.empty [] :=
  ⟨List.nodup_nil, fun _ _ h => (by cases h), fun _ h => (by cases h), fun _ h => (by cases h),
    fun _ h => (by cases h)⟩

end Known

/-! ## Objects out of reach -/

def Detached (st : State) (ts : List CallTask) (id : Uuid) : Prop :=
  (∀ x, InBook st.orderBooks x → x.id ≠ id) ∧ ∀ x ∈ gather Call.holds ts, x.id ≠ id

section Detached

variable {env : Env} {st st' : State} {ts pre post : List CallTask} {c : Call} {t : CallTask} {id : Uuid}

/-- **A detached object stays detached.** -/
theorem detached_step [ArraySort] (hb : Base st (pre ++ .running c :: post)) (hid : id < st.nextId)
    (h : Detached st (pre ++ .running c :: post) id) (hs : Step env st c st' t) :
    Detached st' (pre ++ t :: post) id := by
  obtain ⟨hbook, hholds⟩ := hs.origin hb
  have hheld : ∀ x ∈ c.holds, x.id ≠ id := fun x hx => h.2 x (mem_gather_here hx)
  refine ⟨fun x hx => (hbook x hx).elim (h.1 x) (hheld x), fun x hx => ?_⟩
  rcases mem_gather_replace (k := c) hx with hx | hx
  · rcases hholds x hx with hx | hx | hx
    · exact hheld x hx
    · exact h.1 x hx
    · exact (hid.trans_le hx.1).ne'
  · exact h.2 x hx

/-- **A detached object is not filled any more.** -/
theorem detached_fills [ArraySort] (hb : Base st (pre ++ .running c :: post)) (hid : id < st.nextId)
    (h : Detached st (pre ++ .running c :: post) id) (hs : Step env st c st' t) :
    st'.fills id = st.fills id := by
  cases hs with
  | save hv ho =>
    rename_i u dto o
    have hne : id ≠ o.id := by rw [ho]; exact hid.ne
    exact createOrder.save_other st hne
  | matched =>
    rename_i o
    exact hb.match_frame (h.2 o (mem_gather_here (.head _))).symm h.1
  | persist hp =>
    obtain ⟨-, -, rfl⟩ := createOrder.persist_ok hp
    rfl
  | rest => rw [(createOrder.rest_frame st _).2.1]
  | stop | abort | read | remove | write => rfl

/-- An order whose removal finds no call holding it is detached by it. -/
theorem detached_remove {status : OrderStatus} {row : OrderRow} {rows : List OrderRow}
    (hk : Known st (pre ++ .running (.removing status (row :: rows)) :: post))
    (hfree : ∀ x ∈ gather Call.holds (pre ++ .running (.removing status (row :: rows)) :: post),
      x.id ≠ row.id) :
    Detached (closeOrder.remove st row) (pre ++ .running (.writing status row rows) :: post) row.id := by
  have hrow : Stored st.db row.order := hk.copies row (mem_gather_here (.head _))
  refine ⟨fun x hx e => ?_, fun x hx => ?_⟩
  · have hx' : InBook st.orderBooks x := (remove_sublist _ _ _ _).subset hx
    have hsame : x.id = row.order.id → x = row.order := (hk.books x hx').unique hrow
    exact ((inBook_remove hsame).mp hx).2 (hsame e)
  · rcases mem_gather_replace (k := .removing status (row :: rows)) hx with hx | hx
    · cases hx
    · exact hfree x hx

end Detached

end Trading
end TradeCore
