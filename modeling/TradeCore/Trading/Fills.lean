import TradeCore.Trading.Detached
import TradeCore.Trading.Priority

/-!
# TradeCore.Trading.Fills

Filled quantities and persisted trades under interleaved calls.

The objects carry what has been traded, in the tables or in a transaction still to come (`Ledger`);
a row agrees with its object as soon as no transaction in flight names the order. A cancellation
or an expiry writes back the copy it has read. When the copy is stale the row loses fills, and when
the order is on its way to the book it comes back after it has been closed. In the interleavings in
which neither happens and no transaction with trades fails, the rows agree with the trades whenever no
call is in flight, and a closed order is never filled again (`always_fillsAgree`).
-/

namespace TradeCore
namespace Trading

open Lib Lib.Exact

def closedStatuses : List OrderStatus := [.cancelled, .expired]

/-- The trades a call has made in memory and not written yet. -/
def Call.pending : Call → List Trade
  | .persisting _ ts _ => ts
  | _ => []

/-- The copy a call has closed in memory and not written yet. -/
def Call.closing : Call → List OrderRow
  | .writing _ row _ => [row]
  | _ => []

/-- The trades of a call are about the orders it will write. -/
def Call.Named (c : Call) : Prop := ∀ t ∈ c.pending, ∀ id, t.Names id → ∃ x ∈ c.holds, x.id = id

theorem Call.named_of_idle {c : Call} (h : c.pending = []) : c.Named := by
  intro t ht
  rw [h] at ht
  cases ht

def Call.Closes : Call → Prop
  | .removing status _ | .writing status _ _ => status ∈ closedStatuses
  | _ => True

/-- When a copy is removed from the book it is as the row is stored, and no call in flight holds the
order; a transaction with trades goes through. -/
def Current (env : Env) (c : Call) (st : State) (ts : List CallTask) : Prop :=
  match c with
  | .removing _ (row :: _) =>
    (st.db.order? row.id).map (·.fill.filledQuantity) = some row.fill.filledQuantity ∧
      ∀ x ∈ gather Call.holds ts, x.id ≠ row.id
  | .persisting _ trades _ => trades = [] ∨ env.fails = false ∧ ∀ t ∈ trades, t.price ≠ none
  | _ => True

instance Current.decidable (env : Env) (c : Call) (st : State) (ts : List CallTask) :
    Decidable (Current env c st ts) := by
  unfold Current
  split <;> infer_instance

abbrev CurrentStep : Conf State Call (Except HttpError Unit) → Act Env CallOp → Prop :=
  Meets (fun _ => True) Current

/-- Every row has as much filled as the persisted trades that name it say. -/
def FillsAgree (st : State) : Prop :=
  ∀ row ∈ st.db.orders, row.fill.filledQuantity = traded row.id st.db.trades

instance (st : State) : Decidable (FillsAgree st) :=
  inferInstanceAs (Decidable (∀ row ∈ st.db.orders, _))

/-- What is closed in the table of `st` is closed in that of `st'`, and has not been filled
meanwhile: its object and its row have the same quantity, and no trade has come to name it. -/
def Frozen (st st' : State) : Prop :=
  ∀ id row, st.db.order? id = some row → row.fill.status ∈ closedStatuses →
    st'.fills id = st.fills id ∧ st'.db.trades.filter (·.Names id) = st.db.trades.filter (·.Names id) ∧
      ∃ row', st'.db.order? id = some row' ∧ row'.fill.status ∈ closedStatuses ∧
        row'.fill.filledQuantity = row.fill.filledQuantity

theorem Frozen.refl (st : State) : Frozen st st :=
  fun _ row hrow hc => ⟨rfl, rfl, row, hrow, hc, rfl⟩

theorem Frozen.trans {a b c : State} (hab : Frozen a b) (hbc : Frozen b c) : Frozen a c := by
  intro id row hrow hc
  obtain ⟨hf, ht, row', hrow', hc', hq⟩ := hab id row hrow hc
  obtain ⟨hf', ht', row'', hrow'', hc'', hq'⟩ := hbc id row' hrow' hc'
  exact ⟨hf'.trans hf, ht'.trans ht, row'', hrow'', hc'', hq'.trans hq⟩

/-! ## The ledger -/

structure Ledger (st : State) (ts : List CallTask) : Prop where
  filled : ∀ id, (st.fills id).filledQuantity =
    traded id st.db.trades + traded id (gather Call.pending ts)
  unborn : ∀ id, st.nextId ≤ id → (st.fills id).filledQuantity = 0
  alive : ∀ id, (st.fills id).status ∉ closedStatuses
  named : AllRunning Call.Named ts
  rows : ∀ id row, st.db.order? id = some row → (∀ t ∈ gather Call.pending ts, ¬ t.Names id) →
    row.fill.filledQuantity = (st.fills id).filledQuantity

section Step

variable {env : Env} {st st' : State} {ts pre post : List CallTask} {c : Call} {t : CallTask}
  {o : Order} {id : Uuid}

theorem Ledger.unnamed (h : Ledger st ts) (hid : ∀ x ∈ gather Call.holds ts, x.id ≠ id) :
    ∀ t ∈ gather Call.pending ts, ¬ t.Names id := by
  intro t ht hn
  obtain ⟨c, hc, htc⟩ := exists_of_mem_gather ht
  obtain ⟨x, hx, e⟩ := h.named c hc t htc id hn
  exact hid x (List.mem_flatMap.mpr ⟨_, hc, hx⟩) e

theorem traded_gather (id : Uuid) (f : Call → List Trade) :
    traded id (gather f (pre ++ t :: post)) =
      traded id (gather f pre) + traded id (t.gather f) + traded id (gather f post) := by
  rw [gather_split, traded_append, traded_append]

/-- A step that leaves the objects, the tables and the trades to come alone. -/
theorem Ledger.same (h : Ledger st (pre ++ .running c :: post)) (hf : st'.fills = st.fills)
    (hdb : st'.db = st.db) (hid : st'.nextId = st.nextId) (hp : t.gather Call.pending = c.pending)
    (hn : ∀ c', t = .running c' → c'.Named) : Ledger st' (pre ++ t :: post) := by
  have hgather : gather Call.pending (pre ++ t :: post) =
      gather Call.pending (pre ++ .running c :: post) := gather_congr hp
  refine ⟨?_, ?_, ?_, h.named.replace hn, ?_⟩
  · rw [hf, hdb, hgather]
    exact h.filled
  · rw [hf, hid]
    exact h.unborn
  · rw [hf]
    exact h.alive
  · rw [hf, hdb, hgather]
    exact h.rows

theorem Ledger.save (h : Ledger st (pre ++ .running c :: post)) (hc : c.pending = [])
    (ho : o.id = st.nextId) :
    Ledger (createOrder.save st o) (pre ++ .running (.matching o) :: post) := by
  have hgather : gather Call.pending (pre ++ .running (.matching o) :: post) =
      gather Call.pending (pre ++ .running c :: post) := gather_congr hc.symm
  have hself := createOrder.save_self st o
  have hother : ∀ id, id ≠ o.id → (createOrder.save st o).fills id = st.fills id :=
    fun id hid => createOrder.save_other st hid
  refine ⟨fun id => ?_, fun id hid => ?_, fun id => ?_, h.named.replace ?_, fun id row hrow hnot => ?_⟩
  · rw [hgather]
    refine Eq.trans ?_ (h.filled id)
    by_cases e : id = o.id
    · rw [e, hself, h.unborn o.id ho.ge]
    · rw [hother id e]
  · have hlt : o.id < id := by rw [ho]; exact hid
    rw [hother id hlt.ne']
    exact h.unborn id (ho ▸ hlt.le)
  · by_cases e : id = o.id
    · rw [e, hself]
      decide
    · rw [hother id e]
      exact h.alive id
  · intro c' e
    cases e
    exact Call.named_of_idle rfl
  · rw [createOrder.save_order?] at hrow
    split at hrow
    · rename_i e
      cases hrow
      rw [← e, hself]
    · rename_i e
      rw [hother id (Ne.symm e)]
      exact h.rows id row hrow (hgather ▸ hnot)

theorem Ledger.matched (hb : Base st (pre ++ .running (.matching o) :: post))
    (h : Ledger st (pre ++ .running (.matching o) :: post)) :
    Ledger (createOrder.matched st o) (pre ++ .running
      (.persisting o (st.matchOrder o).trades (st.matchOrder o).touchedOrders) :: post) := by
  obtain ⟨hlt, hfresh, -⟩ := hb.held rfl
  refine ⟨fun id => ?_, fun id hid => ?_, fun id => ?_, h.named.replace ?_, fun id row hrow hnot => ?_⟩
  · have hold := h.filled id
    have hnew : ((createOrder.matched st o).fills id).filledQuantity =
      (st.fills id).filledQuantity + traded id (st.matchOrder o).trades :=
      match_traded hb.placed hfresh st.fills id
    rw [traded_gather] at hold ⊢
    rw [hnew, hold]
    simp only [Task.gather, Call.pending, traded_nil, createOrder.matched]
    ring
  · have hsame : (createOrder.matched st o).fills id = st.fills id :=
      hb.match_frame (hlt.trans_le hid).ne' fun x hx => ((hb.created x hx).trans_le hid).ne
    rw [hsame]
    exact h.unborn id hid
  · show ((matchOrder st.orderBooks st.fills o).fills id).status ∉ closedStatuses
    rw [(matchOrder_eq _ _ _).1]
    exact matchLoop_statuses (p := fun s => s ∉ closedStatuses) (by decide) (by decide) h.alive id
  · rintro c' e t ht id hid
    cases e
    exact match_names hb.placed hfresh st.fills ht hid
  · have hnew : ∀ t ∈ (st.matchOrder o).trades, ¬ t.Names id :=
      fun t ht => hnot t (mem_gather_here ht)
    have hsame : (createOrder.matched st o).fills id = st.fills id :=
      match_unnamed hb.placed hfresh st.fills hnew
    rw [hsame]
    exact h.rows id row hrow fun t ht => hnot t (gather_subset_replace (List.nil_subset _) ht)

theorem Ledger.persist {trades : List Trade} {us : List Order}
    (hk : Known st (pre ++ .running (.persisting o trades us) :: post))
    (h : Ledger st (pre ++ .running (.persisting o trades us) :: post))
    (hp : createOrder.persist st o trades us env.fails = .ok st') :
    Ledger st' (pre ++ .running (.resting o) :: post) := by
  have hrow := createOrder.persist_row hp hk.unique
  obtain ⟨-, -, hst⟩ := createOrder.persist_ok hp
  have hfills : st'.fills = st.fills := by rw [hst]
  have htrades : st'.db.trades = st.db.trades ++ trades := by
    rw [hst]
    exact (Db.saveOrders_trades (st.db.saveTrades trades) ((o :: us).map st.row)).trans
      (Db.saveTrades_trades st.db trades)
  refine ⟨fun id => ?_, fun id hid => ?_, hfills ▸ h.alive, h.named.replace ?_, fun id row hid hnot => ?_⟩
  · have hold := h.filled id
    rw [traded_gather] at hold ⊢
    rw [hfills, htrades, hold, traded_append]
    simp only [Task.gather, Call.pending, traded_nil]
    ring
  · rw [hfills]
    exact h.unborn id (by rw [hst] at hid; exact hid)
  · intro c' e
    cases e
    exact Call.named_of_idle rfl
  · rw [hfills]
    rcases hrow id with ⟨x, -, rfl, hsome⟩ | ⟨hfree, hsame⟩
    · rw [hsome] at hid
      cases hid
      rfl
    · refine h.rows id row (hsame ▸ hid) fun t ht hn => ?_
      rcases mem_gather_split.mp ht with ht | ht
      · obtain ⟨x, hx, e⟩ := h.named.here t ht id hn
        exact hfree x hx e
      · exact hnot t (mem_gather_split.mpr (.inr ht)) hn

/-- A closed copy that agrees with its object is written. -/
theorem Ledger.write {status : OrderStatus} {row : OrderRow} {rows : List OrderRow}
    (h : Ledger st (pre ++ .running (.writing status row rows) :: post))
    (hrow : row.fill.filledQuantity = (st.fills row.id).filledQuantity) :
    Ledger (closeOrder.write st row status) (pre ++ .running (.removing status rows) :: post) := by
  have hgather : gather Call.pending (pre ++ .running (.removing status rows) :: post) =
      gather Call.pending (pre ++ .running (.writing status row rows) :: post) := gather_congr rfl
  refine ⟨hgather ▸ h.filled, h.unborn, h.alive, h.named.replace ?_, fun id r hr hnot => ?_⟩
  · intro c' e
    cases e
    exact Call.named_of_idle rfl
  · rw [closeOrder.write_order?] at hr
    split at hr
    · rename_i e
      cases hr
      rw [← e]
      exact hrow
    · exact h.rows id r hr (hgather ▸ hnot)

/-! ## Closed orders -/

/-- How a step changes a row: it stays, a call writes an order it holds, or a copy is written back. -/
theorem Step.row [ArraySort] (hk : Known st (pre ++ .running c :: post)) (hl : Ledger st (pre ++ .running c :: post))
    (hs : Step env st c st' t) (id : Uuid) :
    st'.db.order? id = st.db.order? id ∨
    (∃ row, st'.db.order? id = some row ∧ row.fill.status ∉ closedStatuses ∧
      (st.nextId ≤ id ∨ ∃ x ∈ c.holds, x.id = id)) ∨
    ∃ status row rows, c = .writing status row rows ∧ row.id = id ∧
      st'.db.order? id = some { row with fill := { row.fill with status := status } } := by
  cases hs with
  | save hv ho =>
    rename_i u dto o
    rw [createOrder.save_order?]
    split
    · rename_i e
      refine .inr (.inl ⟨_, rfl, by simp [closedStatuses], .inl ?_⟩)
      rw [← e, ho]
      exact le_refl _
    · exact .inl rfl
  | persist hp =>
    rcases createOrder.persist_row hp hk.unique id with ⟨x, hx, e, hsome⟩ | ⟨-, hsame⟩
    · exact .inr (.inl ⟨_, hsome, hl.alive x.id, .inr ⟨x, hx, e⟩⟩)
    · exact .inl hsame
  | rest => exact .inl (by rw [(createOrder.rest_frame st _).1])
  | write =>
    rename_i status row rows
    rw [closeOrder.write_order?]
    split
    · rename_i e
      exact .inr (.inr ⟨status, row, rows, rfl, e, rfl⟩)
    · exact .inl rfl
  | stop | matched | abort | read | remove => exact .inl rfl

theorem Step.trades [ArraySort] (hs : Step env st c st' t) :
    ∃ new, st'.db.trades = st.db.trades ++ new ∧ ∀ t ∈ new, t ∈ c.pending := by
  cases hs with
  | persist hp =>
    rename_i o ts us
    obtain ⟨-, -, rfl⟩ := createOrder.persist_ok hp
    exact ⟨ts, (Db.saveOrders_trades (st.db.saveTrades ts) ((o :: us).map st.row)).trans
      (Db.saveTrades_trades st.db ts), fun t ht => ht⟩
  | rest => exact ⟨[], by rw [(createOrder.rest_frame st _).1, List.append_nil], fun _ h => by cases h⟩
  | stop | save | matched | abort | read | remove | write =>
    exact ⟨[], (List.append_nil _).symm, fun _ h => by cases h⟩

structure FillInv (st : State) (ts : List CallTask) : Prop where
  base : Base st ts
  known : Known st ts
  ledger : Ledger st ts
  closes : AllRunning Call.Closes ts
  closed : ∀ id row, st.db.order? id = some row → row.fill.status ∈ closedStatuses → Detached st ts id
  closing : ∀ row ∈ gather Call.closing ts,
    Detached st ts row.id ∧ row.fill.filledQuantity = (st.fills row.id).filledQuantity

theorem ledger_step [ArraySort] (h : FillInv st (pre ++ .running c :: post))
    (hc : Current env c st (pre ++ .running c :: post)) (hs : Step env st c st' t) :
    Ledger st' (pre ++ t :: post) := by
  have hl := h.ledger
  cases hs with
  | stop hc =>
    have hp : c.pending = [] := by
      cases c with
      | persisting o ts us => exact absurd rfl (hc o ts us).2.1
      | start | matching | resting | removing | writing => rfl
    exact hl.same rfl rfl rfl hp.symm fun c' e => by cases e
  | save hv ho => exact hl.save rfl (by rw [ho]; rfl)
  | matched => exact hl.matched h.base
  | persist hp => exact hl.persist h.known hp
  | abort hp =>
    rename_i o ts us e
    -- only a transaction without trades may fail
    have hnil : ts = [] := by
      rcases hc with hnil | ⟨hf, hpriced⟩
      · exact hnil
      · rcases createOrder.persist_error hp with hfail | ⟨t, ht, hnone⟩
        · rw [hf] at hfail
          cases hfail
        · exact absurd hnone (hpriced t ht)
    exact hl.same rfl rfl rfl hnil.symm fun c' e => by cases e
  | rest =>
    obtain ⟨hdb, hf, hid⟩ := createOrder.rest_frame st _
    exact hl.same hf hdb hid rfl fun c' e => by cases e
  | read =>
    refine hl.same rfl rfl rfl rfl fun c' e => ?_
    cases e
    exact Call.named_of_idle rfl
  | remove =>
    refine hl.same rfl rfl rfl rfl fun c' e => ?_
    cases e
    exact Call.named_of_idle rfl
  | write => exact hl.write (h.closing _ (mem_gather_here (.head _))).2

theorem FillInv.copy_current {status : OrderStatus} {row : OrderRow} {rows : List OrderRow}
    (h : FillInv st (pre ++ .running (.removing status (row :: rows)) :: post))
    (hc : Current env (.removing status (row :: rows)) st
      (pre ++ .running (.removing status (row :: rows)) :: post)) :
    row.fill.filledQuantity = (st.fills row.id).filledQuantity := by
  obtain ⟨hcopy, hfree⟩ := hc
  obtain ⟨stored, hstored, e⟩ := Option.map_eq_some_iff.mp hcopy
  rw [← e]
  exact h.ledger.rows row.id stored hstored (h.ledger.unnamed hfree)

theorem fillInv_step [ArraySort] (h : FillInv st (pre ++ .running c :: post))
    (hc : Current env c st (pre ++ .running c :: post)) (hs : Step env st c st' t) :
    FillInv st' (pre ++ t :: post) := by
  have hstays : ∀ id, id < st.nextId → Detached st (pre ++ .running c :: post) id →
      Detached st' (pre ++ t :: post) id := fun id hid hd => detached_step h.base hid hd hs
  refine ⟨base_step h.base hs, known_step h.base h.known hs, ledger_step h hc hs, ?_, ?_, ?_⟩
  · refine h.closes.replace fun c' e => ?_
    cases hs with
    | stop | abort | rest => cases e
    | save | matched | persist => cases e; trivial
    | read hstatus => cases e; exact hstatus
    | remove | write => cases e; exact h.closes.here
  · intro id row hrow hclosed
    rcases Step.row h.known h.ledger hs id with hsame | ⟨row', hrow', hopen, -⟩ | ⟨_, copy, _, rfl, rfl, -⟩
    · rw [hsame] at hrow
      exact hstays id (h.known.bounded id row hrow) (h.closed id row hrow hclosed)
    · rw [hrow'] at hrow
      cases hrow
      exact absurd hclosed hopen
    · exact hstays _ (h.known.lt (h.known.copies copy (mem_gather_here (.head _))))
        (h.closing copy (mem_gather_here (.head _))).1
  · intro row hrow
    rcases mem_gather_replace (k := c) hrow with hnew | hold
    · -- the copy this step has taken out of the book
      cases hs with
      | remove =>
        obtain rfl := List.mem_singleton.mp hnew
        exact ⟨detached_remove h.known hc.2, h.copy_current hc⟩
      | stop | save | matched | persist | abort | rest | read | write => cases hnew
    · obtain ⟨hd, hq⟩ := h.closing row hold
      have hlt : row.id < st.nextId := by
        obtain ⟨k, hk, hrowk⟩ := exists_of_mem_gather hold
        refine h.known.lt (h.known.copies row (List.mem_flatMap.mpr ⟨_, hk, ?_⟩))
        cases k with
        | writing => exact List.mem_singleton.mp hrowk ▸ .head _
        | start | matching | persisting | resting | removing => cases hrowk
      exact ⟨hstays _ hlt hd, by rw [detached_fills h.base hlt hd hs]; exact hq⟩

/-- **No step fills what is closed in the table.** -/
theorem frozen_step [ArraySort] (h : FillInv st (pre ++ .running c :: post)) (hs : Step env st c st' t) :
    Frozen st st' := by
  intro id row hrow hclosed
  have hd := h.closed id row hrow hclosed
  have hlt := h.known.bounded id row hrow
  have hnot := h.ledger.unnamed hd.2
  refine ⟨detached_fills h.base hlt hd hs, ?_, ?_⟩
  · obtain ⟨new, hnew, hmem⟩ := hs.trades
    have hnone : new.filter (·.Names id) = [] := by
      refine List.filter_eq_nil_iff.mpr fun t ht => ?_
      simpa using hnot t (mem_gather_here (hmem t ht))
    rw [hnew, List.filter_append, hnone, List.append_nil]
  · rcases Step.row h.known h.ledger hs id with hsame | ⟨_, -, -, hheld⟩ | ⟨status, copy, rows, rfl, rfl, hw⟩
    · exact ⟨row, hsame.trans hrow, hclosed, rfl⟩
    · rcases hheld with hle | ⟨x, hx, e⟩
      · exact absurd hle (not_le.mpr hlt)
      · exact absurd e (hd.2 x (mem_gather_here hx))
    · refine ⟨_, hw, h.closes.here, ?_⟩
      rw [h.ledger.rows copy.id row hrow hnot]
      exact (h.closing copy (mem_gather_here (.head _))).2

theorem FillInv.spawn (h : FillInv st ts) (op : CallOp) :
    FillInv st (ts ++ [Task.running (Call.start op)]) := by
  have hd : ∀ id, Detached st ts id → Detached st (ts ++ [Task.running (Call.start op)]) id :=
    fun id hid => ⟨hid.1, by rw [gather_spawn rfl]; exact hid.2⟩
  have hl := h.ledger
  have hpending : gather Call.pending (ts ++ [Task.running (Call.start op)]) = gather Call.pending ts :=
    gather_spawn rfl
  refine ⟨h.base.spawn op, h.known.spawn op, ⟨hpending ▸ hl.filled, hl.unborn, hl.alive,
    hl.named.spawn (Call.named_of_idle rfl), hpending ▸ hl.rows⟩, h.closes.spawn trivial,
    fun id row hrow hc => hd id (h.closed id row hrow hc), fun row hrow => ?_⟩
  rw [gather_spawn rfl] at hrow
  exact ⟨hd _ (h.closing row hrow).1, (h.closing row hrow).2⟩

theorem ledger_init : Ledger State.empty [] where
  filled := by simp [State.empty, gather]
  unborn _ _ := rfl
  alive := by simp [State.empty, closedStatuses]
  named := AllRunning.nil
  rows _ _ h := by cases h

theorem fillInv_init : FillInv State.empty [] where
  base := base_init
  known := known_init
  ledger := ledger_init
  closes := AllRunning.nil
  closed _ _ h := by cases h
  closing _ h := by cases h

end Step

/-! ## Whole interleavings -/

/-- The invariant, and what was closed in an earlier state `s₀`. -/
theorem fillInv_run [ArraySort] (s₀ : State) (c : Conf State Call (Except HttpError Unit)) (a : Act Env CallOp)
    (h : FillInv c.shared c.tasks ∧ Frozen s₀ c.shared) (hG : CurrentStep c a) :
    FillInv (engine.step c a).shared (engine.step c a).tasks ∧ Frozen s₀ (engine.step c a).shared := by
  refine step_inv engine (I := fun s ts => FillInv s ts ∧ Frozen s₀ s) ?_ ?_ c a h hG
  · exact fun s ts op _ h => ⟨h.1.spawn op, h.2⟩
  · intro s pre k post env hc h
    have hs := advance_step env k s
    exact ⟨fillInv_step h.1 hc hs, h.2.trans (frozen_step h.1 hs)⟩

theorem FillInv.fillsAgree {c : Conf State Call (Except HttpError Unit)}
    (h : FillInv c.shared c.tasks) (hq : c.Quiet) : FillsAgree c.shared := by
  intro row hrow
  have hnone : gather Call.pending c.tasks = [] := gather_quiet hq
  have hfilled := h.ledger.filled row.id
  rw [hnone, traded_nil, add_zero] at hfilled
  rw [← hfilled]
  refine h.ledger.rows row.id row (h.known.mem hrow) fun t ht => ?_
  rw [hnone] at ht
  cases ht

/-- The rows agree with the trades whenever no call is in flight, and a closed order is not filled
again, in the interleavings that write back no stale copy. -/
theorem always_fillsAgree [ArraySort] (acts : List (Act Env CallOp))
    (hG : Along engine.step CurrentStep (Conf.init State.empty) acts) :
    Always engine.step (fun c => c.Quiet → FillsAgree c.shared) (Conf.init State.empty) acts ∧
      ∀ as bs, as ++ bs <+: acts → Frozen (run engine.step (Conf.init State.empty) as).shared
        (run engine.step (Conf.init State.empty) (as ++ bs)).shared := by
  refine ⟨?_, fun as bs hprefix => ?_⟩
  · exact always_of_inv (I := fun c => FillInv c.shared c.tasks ∧ Frozen State.empty c.shared)
      (P := fun c => c.Quiet → FillsAgree c.shared) (fun _ h hq => h.1.fillsAgree hq)
      (fillInv_run State.empty) ⟨fillInv_init, .refl _⟩ hG
  · obtain ⟨cs, rfl⟩ := hprefix
    obtain ⟨hboth, -⟩ := along_append.mp hG
    obtain ⟨has, hbs⟩ := along_append.mp hboth
    have hmid := run_inv (fillInv_run State.empty) ⟨fillInv_init, .refl _⟩ has
    rw [run_append]
    exact (run_inv (fillInv_run _) ⟨hmid.1, .refl _⟩ hbs).2

end Trading
end TradeCore
