import TradeCore.Lib.Interleave
import TradeCore.Trading.Book

/-!
# TradeCore.Trading.Concurrent

The calls of the trading engine interleaved at their awaits.

`createOrder` saves the order, matches it, runs its transaction and puts the rest of the order in
the book, each in a step of its own. `cancelOrder` and `cleanupExpiredOrders` read copies of rows
and then, for one copy after the other, take the order out of the book and write the copy back.
Every step is one of the functions the whole calls are made of, and a call that nothing interrupts
is the whole call, so that the runs of whole calls are among the interleavings (`engine_serial`).

An order object is in one place only: on one side of one book, or held by one call in flight
(`Base`). This holds in every interleaving (`base_step`).
-/

namespace TradeCore
namespace Trading

open Lib Lib.Exact

inductive CallOp where
  | createOrder (userId : Uuid) (dto : CreateOrderDto)
  | cancelOrder (orderId userId : Uuid)
  | cleanupExpiredOrders

/-- What a step learns from outside: the clock, and whether the database refuses. -/
structure Env where
  now : Time
  fails : Bool

inductive Call where
  | start (op : CallOp)
  | matching (order : Order)
  | persisting (order : Order) (trades : List Trade) (touched : List Order)
  | resting (order : Order)
  | removing (status : OrderStatus) (rows : List OrderRow)
  | writing (status : OrderStatus) (row : OrderRow) (rows : List OrderRow)

abbrev CallTask := Task Call (Except HttpError Unit)

def refused : HttpError := .internal "save failed"

def advance [Arithmetic] [ArraySort] (env : Env) (c : Call) (st : State) : State × CallTask :=
  match c with
  | .start (.createOrder userId dto) =>
    match createOrder.validate dto env.now with
    | .error e => (st, .done (.error e))
    | .ok () =>
      if env.fails then (st, .done (.error refused))
      else
        let order := createOrder.order st.nextId userId dto
        (createOrder.save st order, .running (.matching order))
  | .matching order =>
    (createOrder.matched st order, .running
      (.persisting order (st.matchOrder order).trades (st.matchOrder order).touchedOrders))
  | .persisting order trades touched =>
    match createOrder.persist st order trades touched env.fails with
    | .error e => (st, .done (.error e))
    | .ok st' => (st', .running (.resting order))
  | .resting order => (createOrder.rest st order, .done (.ok ()))
  | .start (.cancelOrder orderId userId) =>
    match cancelOrder.read st.db orderId userId with
    | .error e => (st, .done (.error e))
    | .ok row => (st, .running (.removing .cancelled [row]))
  | .start .cleanupExpiredOrders =>
    (st, .running (.removing .expired (cleanupExpiredOrders.read st.db env.now)))
  | .removing _ [] => (st, .done (.ok ()))
  | .removing status (row :: rows) => (closeOrder.remove st row, .running (.writing status row rows))
  | .writing status row rows =>
    if env.fails then (st, .done (.error refused))
    else (closeOrder.write st row status, .running (.removing status rows))

def engine [Arithmetic] [ArraySort] : Proc State Env CallOp Call (Except HttpError Unit) :=
  ⟨.start, advance⟩

/-- A step of call `i` at time 0 in which the database does not refuse. -/
def sched (i : Nat) : Act Env CallOp := .sched i ⟨0, false⟩

/-! ## Calls by themselves -/

section Alone

variable [Arithmetic] [ArraySort]

theorem createOrder_alone (st : State) (u : Uuid) (dto : CreateOrderDto) (now : Time)
    (fault : Option CreateFault) :
    engine.alone
        [⟨now, fault = some .save⟩, ⟨now, false⟩, ⟨now, fault = some .transaction⟩, ⟨now, false⟩] st
        (.running (.start (.createOrder u dto))) =
      ((createOrder st u dto now fault).1,
        .done ((createOrder st u dto now fault).2.map fun _ => ())) := by
  simp only [createOrder, engine, Proc.alone, advance]
  cases hv : createOrder.validate dto now with
  | error e => simp [Except.map]
  | ok =>
    by_cases hf : fault = some .save
    · simp [hf, Except.map, refused]
    · simp only [hf, decide_false, Bool.false_eq_true, if_false]
      split
      · rename_i e he
        simp [Proc.alone, advance, he, Except.map]
      · rename_i persisted hp
        simp [Proc.alone, advance, hp, Except.map]

theorem cancelOrder_alone (st : State) (k u : Uuid) (now : Time) :
    engine.alone (List.replicate 4 ⟨now, false⟩) st (.running (.start (.cancelOrder k u))) =
      ((cancelOrder st k u).1, .done ((cancelOrder st k u).2.map fun _ => ())) := by
  simp only [List.replicate, cancelOrder, engine, Proc.alone, advance]
  cases hread : cancelOrder.read st.db k u with
  | error e => simp [Except.map]
  | ok row => simp [Proc.alone, advance, Except.map]

theorem removing_alone (status : OrderStatus) (rows : List OrderRow) (st : State) (now : Time) :
    engine.alone (List.replicate (2 * rows.length + 1) ⟨now, false⟩) st
        (.running (.removing status rows)) =
      (rows.foldl (fun st row => closeOrder.write (closeOrder.remove st row) row status) st,
        .done (.ok ())) := by
  induction rows generalizing st with
  | nil => rfl
  | cons row rows ih =>
    rw [List.length_cons, Nat.mul_succ]
    exact ih (closeOrder.write (closeOrder.remove st row) row status)

theorem cleanupExpiredOrders_alone (st : State) (now : Time) :
    engine.alone
        (List.replicate (2 * (cleanupExpiredOrders.read st.db now).length + 2) ⟨now, false⟩)
        st (.running (.start .cleanupExpiredOrders)) =
      (cleanupExpiredOrders st now, .done (.ok ())) :=
  removing_alone .expired (cleanupExpiredOrders.read st.db now) st now

/-- **The runs of whole calls are among the interleavings.** -/
theorem engine_serial (ops : List Op) :
    ∃ acts, (run engine.step (Conf.init State.empty) acts).Quiet ∧
      (run engine.step (Conf.init State.empty) acts).shared = run step State.empty ops := by
  refine serial_run engine (f := step) (fun st op => ?_) ops (Conf.init State.empty)
    fun t ht => by cases ht
  cases op with
  | createOrder u dto now fault => exact ⟨_, _, _, createOrder_alone st u dto now fault⟩
  | cancelOrder k u => exact ⟨_, _, _, cancelOrder_alone st k u 0⟩
  | cleanupExpiredOrders now => exact ⟨_, _, _, cleanupExpiredOrders_alone st now⟩

end Alone

/-- Everything one step of a call can do. -/
inductive Step [ArraySort] (env : Env) (st : State) : Call → State → CallTask → Prop where
  | stop {c r} (hc : ∀ o ts us, c ≠ .matching o ∧ c ≠ .persisting o ts us ∧ c ≠ .resting o) :
      Step env st c st (.done r)
  | save {u dto o} (hv : createOrder.validate dto env.now = .ok ())
      (ho : o = createOrder.order st.nextId u dto) :
      Step env st (.start (.createOrder u dto)) (createOrder.save st o) (.running (.matching o))
  | matched {o} : Step env st (.matching o) (createOrder.matched st o) (.running
      (.persisting o (st.matchOrder o).trades (st.matchOrder o).touchedOrders))
  | persist {o ts us st'} (hp : createOrder.persist st o ts us env.fails = .ok st') :
      Step env st (.persisting o ts us) st' (.running (.resting o))
  | abort {o ts us e} (hp : createOrder.persist st o ts us env.fails = .error e) :
      Step env st (.persisting o ts us) st (.done (.error e))
  | rest {o} : Step env st (.resting o) (createOrder.rest st o) (.done (.ok ()))
  | read {op status rows} (hs : status ∈ [.cancelled, .expired])
      (hrows : ∀ row ∈ rows, row ∈ st.db.orders) :
      Step env st (.start op) st (.running (.removing status rows))
  | remove {status row rows} : Step env st (.removing status (row :: rows))
      (closeOrder.remove st row) (.running (.writing status row rows))
  | write {status row rows} : Step env st (.writing status row rows)
      (closeOrder.write st row status) (.running (.removing status rows))

theorem advance_step [ArraySort] (env : Env) (c : Call) (st : State) :
    Step env st c (advance env c st).1 (advance env c st).2 := by
  unfold advance
  split
  · split
    · exact .stop (by simp)
    · rename_i hv
      split
      · exact .stop (by simp)
      · exact .save hv rfl
  · exact .matched
  · split
    · rename_i e hp
      exact .abort hp
    · rename_i st' hp
      exact .persist hp
  · exact .rest
  · split
    · exact .stop (by simp)
    · rename_i row hrow
      refine .read (by simp) fun row' hrow' => ?_
      rw [List.mem_singleton] at hrow'
      exact hrow' ▸ mem_of_lookup (cancelOrder.read_ok hrow).1
  · exact .read (by simp) fun row hrow => (List.mem_filter.mp hrow).1
  · exact .stop (by simp)
  · exact .remove
  · split
    · exact .stop (by simp)
    · exact .write

/-! ## Where the objects are -/

/-- The order a call holds while it is not in the book yet. -/
def Call.order? : Call → Option Order
  | .matching o | .persisting o _ _ | .resting o => some o
  | _ => none

def heldBy : CallTask → Option Order
  | .running c => c.order?
  | .done _ => none

def flying (ts : List CallTask) : List Order := ts.filterMap heldBy

theorem flying_split (pre post : List CallTask) (t : CallTask) :
    flying (pre ++ t :: post) = flying pre ++ (heldBy t).toList ++ flying post := by
  unfold flying
  rw [List.filterMap_append, List.filterMap_cons, List.append_assoc]
  cases heldBy t <;> rfl

structure Base (st : State) (ts : List CallTask) : Prop where
  placed : Placed st.orderBooks
  created : ∀ x, InBook st.orderBooks x → x.id < st.nextId
  distinct : ((flying ts).map Order.id).Nodup
  bounded : ∀ y ∈ flying ts, y.id < st.nextId
  apart : ∀ y ∈ flying ts, ∀ x, InBook st.orderBooks x → x.id ≠ y.id
  newborn : ∀ o, .running (.matching o) ∈ ts → New (st.fills o.id)

section Base

variable {st st' : State} {ts ts' pre post : List CallTask} {c : Call} {t : CallTask} {o : Order}

/-- Objects leave the books or their calls, and none appears. -/
theorem Base.shrink (h : Base st ts)
    (hb : ∀ key side, (bookSide st'.orderBooks key side).Sublist (bookSide st.orderBooks key side))
    (hid : st'.nextId = st.nextId) (hf : (flying ts').Sublist (flying ts))
    (hnew : ∀ o, .running (.matching o) ∈ ts' → New (st'.fills o.id)) : Base st' ts' where
  placed := h.placed.mono hb
  created x hx := hid ▸ h.created x ((hb _ _).subset hx)
  distinct := h.distinct.sublist (hf.map _)
  bounded y hy := hid ▸ h.bounded y (hf.subset hy)
  apart y hy x hx := h.apart y (hf.subset hy) x ((hb _ _).subset hx)
  newborn := hnew

/-- The call that moves still holds its order, or lets it go. -/
theorem flying_replace (ht : heldBy t = c.order? ∨ heldBy t = none) :
    (flying (pre ++ t :: post)).Sublist (flying (pre ++ .running c :: post)) := by
  rw [flying_split, flying_split]
  refine (List.Sublist.append_left ?_ _).append_right _
  rcases ht with ht | ht
  · rw [ht]; exact .refl _
  · rw [ht]; exact List.nil_sublist _

theorem matching_replace {p : Order → Prop}
    (h : ∀ o, .running (.matching o) ∈ pre ++ .running c :: post → p o)
    (ht : ∀ o, t = .running (.matching o) → p o) :
    ∀ o, .running (.matching o) ∈ pre ++ t :: post → p o := by
  intro o ho
  simp only [List.mem_append, List.mem_cons] at ho
  rcases ho with ho | ho | ho
  · exact h o (by simp [ho])
  · exact ht o ho.symm
  · exact h o (by simp [ho])

/-- A step that leaves the books and the objects alone. -/
theorem Base.quiet_step (h : Base st (pre ++ .running c :: post)) (hb : st'.orderBooks = st.orderBooks)
    (hfills : st'.fills = st.fills) (hid : st'.nextId = st.nextId)
    (ht : heldBy t = c.order? ∨ heldBy t = none) (hm : ∀ o, t ≠ .running (.matching o)) :
    Base st' (pre ++ t :: post) :=
  h.shrink (fun _ _ => by rw [hb]) hid (flying_replace ht)
    (matching_replace (fun o ho => hfills ▸ h.newborn o ho) fun o ho => absurd ho (hm o))

/-- An object that is neither matched nor in the books is not touched by a match. -/
theorem Base.match_frame (h : Base st (pre ++ .running (.matching o) :: post)) {id : Uuid}
    (ho : id ≠ o.id) (hid : ∀ x, InBook st.orderBooks x → x.id ≠ id) :
    (st.matchOrder o).fills id = st.fills id := by
  have hfresh : ∀ x, InBook st.orderBooks x → x.id ≠ o.id :=
    h.apart o (by simp [flying_split, heldBy, Call.order?])
  exact match_frame_of_touched h.placed hfresh st.fills ho fun x hx =>
    hid x (h.placed.inBook (match_touched_mem h.placed hfresh st.fills hx))

/-- The order a call holds, among the others in flight. -/
theorem Base.held (h : Base st (pre ++ .running c :: post)) (hc : c.order? = some o) :
    o.id < st.nextId ∧ (∀ x, InBook st.orderBooks x → x.id ≠ o.id) ∧
      ∀ y, y ∈ flying pre ∨ y ∈ flying post → y.id ≠ o.id := by
  have hsplit : flying (pre ++ .running c :: post) = flying pre ++ o :: flying post := by
    rw [flying_split, heldBy, hc]
    simp
  have hmem : o ∈ flying (pre ++ .running c :: post) := by simp [hsplit]
  refine ⟨h.bounded o hmem, h.apart o hmem, fun y hy e => ?_⟩
  have hnd := h.distinct
  rw [hsplit, List.map_append, List.map_cons, List.nodup_middle, List.nodup_cons] at hnd
  refine hnd.1 ?_
  rw [← e, ← List.map_append]
  exact List.mem_map_of_mem (List.mem_append.mpr hy)

theorem Base.save (h : Base st (pre ++ .running c :: post)) (hc : c.order? = none)
    (ho : o.id = st.nextId) :
    Base (createOrder.save st o) (pre ++ .running (.matching o) :: post) := by
  have hold : flying (pre ++ .running c :: post) = flying pre ++ flying post := by
    rw [flying_split, heldBy, hc]
    simp
  have hnew : flying (pre ++ .running (.matching o) :: post) = flying pre ++ o :: flying post := by
    rw [flying_split, heldBy, Call.order?]
    simp
  have hbounded := h.bounded
  have hdistinct := h.distinct
  have hapart := h.apart
  rw [hold] at hbounded hdistinct hapart
  have hlt : ∀ y ∈ flying (pre ++ .running (.matching o) :: post),
      y = o ∨ y ∈ flying pre ++ flying post := by
    intro y hy
    rw [hnew] at hy
    simpa [or_left_comm] using hy
  refine ⟨h.placed, fun x hx => (h.created x hx).trans (Nat.lt_succ_self _), ?_, ?_, ?_, ?_⟩
  · rw [hnew, List.map_append, List.map_cons, List.nodup_middle, List.nodup_cons, ← List.map_append]
    refine ⟨fun hm => ?_, hdistinct⟩
    obtain ⟨y, hy, e⟩ := List.mem_map.mp hm
    exact (hbounded y hy).ne (e.trans ho)
  · intro y hy
    rcases hlt y hy with rfl | hy
    · rw [ho]; exact Nat.lt_succ_self _
    · exact (hbounded y hy).trans (Nat.lt_succ_self _)
  · intro y hy x hx
    rcases hlt y hy with rfl | hy
    · rw [ho]; exact (h.created x hx).ne
    · exact hapart y hy x hx
  · refine matching_replace (c := c) (fun o' ho' => ?_) (fun o' ho' => ?_)
    · have hmem : o' ∈ flying (pre ++ .running c :: post) :=
        List.mem_filterMap.mpr ⟨_, ho', rfl⟩
      have hne : o'.id ≠ o.id := ho ▸ (h.bounded o' hmem).ne
      rw [createOrder.save_other st hne]
      exact h.newborn o' ho'
    · cases ho'
      exact createOrder.save_self st o

theorem Base.matched (h : Base st (pre ++ .running (.matching o) :: post)) (ts : List Trade)
    (us : List Order) :
    Base (createOrder.matched st o) (pre ++ .running (.persisting o ts us) :: post) := by
  obtain ⟨-, hfresh, hothers⟩ := h.held rfl
  refine h.shrink (match_sublist h.placed hfresh st.fills) rfl (flying_replace (.inl rfl)) ?_
  intro o' ho'
  have hsame : ∀ l, .running (.matching o') ∈ l → o' ∈ flying l :=
    fun l hl => List.mem_filterMap.mpr ⟨_, hl, rfl⟩
  simp only [List.mem_append, List.mem_cons, Task.running.injEq, reduceCtorEq, false_or] at ho'
  have hne : o'.id ≠ o.id := hothers o' (ho'.imp (hsame pre) (hsame post))
  have hmem : .running (.matching o') ∈ pre ++ .running (.matching o) :: post := by
    rcases ho' with ho' | ho' <;> simp [ho']
  show New ((st.matchOrder o).fills o'.id)
  rw [h.match_frame hne (h.apart o' (hsame _ hmem))]
  exact h.newborn o' hmem

theorem Base.rest [ArraySort] (h : Base st (pre ++ .running (.resting o) :: post)) {r : Except HttpError Unit} :
    Base (createOrder.rest st o) (pre ++ .done r :: post) := by
  obtain ⟨hlt, hfresh, hothers⟩ := h.held rfl
  have hdone : Base st (pre ++ .done r :: post) :=
    h.quiet_step rfl rfl rfl (.inr rfl) fun _ e => by cases e
  unfold createOrder.rest
  split
  · refine ⟨h.placed.add hfresh, ?_, hdone.distinct, hdone.bounded, ?_, hdone.newborn⟩
    · intro x hx
      rcases inBook_add.mp hx with hx | rfl
      · exact h.created x hx
      · exact hlt
    · intro y hy x hx
      rcases inBook_add.mp hx with hx | rfl
      · exact hdone.apart y hy x hx
      · rw [flying_split] at hy
        exact (hothers y (by simpa [heldBy] using hy)).symm
  · exact hdone

theorem Base.remove (h : Base st (pre ++ .running c :: post)) (row : OrderRow)
    (ht : heldBy t = none) (hm : ∀ o, t ≠ .running (.matching o)) :
    Base (closeOrder.remove st row) (pre ++ t :: post) :=
  h.shrink (remove_sublist _ _) rfl (flying_replace (.inr ht))
    (matching_replace h.newborn fun o ho => absurd ho (hm o))

/-- **An object is in one place, in every interleaving.** -/
theorem base_step [ArraySort] {env : Env} (h : Base st (pre ++ .running c :: post))
    (hs : Step env st c st' t) : Base st' (pre ++ t :: post) := by
  cases hs with
  | stop => exact h.quiet_step rfl rfl rfl (.inr rfl) fun _ e => by cases e
  | save _ ho => exact h.save rfl (by rw [ho]; rfl)
  | matched => exact h.matched _ _
  | persist hp =>
    obtain ⟨-, -, rfl⟩ := createOrder.persist_ok hp
    exact h.quiet_step rfl rfl rfl (.inl rfl) fun _ e => by cases e
  | abort => exact h.quiet_step rfl rfl rfl (.inr rfl) fun _ e => by cases e
  | rest => exact h.rest
  | read => exact h.quiet_step rfl rfl rfl (.inr rfl) fun _ e => by cases e
  | remove => exact h.remove _ rfl fun _ e => by cases e
  | write => exact h.quiet_step rfl rfl rfl (.inr rfl) fun _ e => by cases e

theorem Base.spawn (h : Base st ts) (op : CallOp) : Base st (ts ++ [Task.running (Call.start op)]) := by
  have hf : flying (ts ++ [Task.running (Call.start op)]) = flying ts := by
    rw [flying_split]
    simp [heldBy, Call.order?, flying]
  refine h.shrink (fun _ _ => .refl _) rfl (by rw [hf]) fun o ho => h.newborn o ?_
  simpa using ho

theorem base_init : Base State.empty [] :=
  ⟨⟨fun _ _ _ hx => (by cases hx), fun _ _ => List.nodup_nil, fun _ _ hx => (by cases hx)⟩,
    fun _ hx => (by cases hx), List.nodup_nil, fun _ hy => (by cases hy), fun _ hy => (by cases hy),
    fun _ ho => (by cases ho)⟩

end Base

end Trading
end TradeCore
