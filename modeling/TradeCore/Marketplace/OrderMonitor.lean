import Mathlib.Algebra.Order.Field.Rat
import TradeCore.Common
import TradeCore.Lib.Interleave
import TradeCore.Lib.Table

/-!
# TradeCore.Marketplace.OrderMonitor

The orders of the marketplace: `cancelOrder`, `triggerOrder`, and the two scans that trigger what the
market price allows, `monitorAndTriggerOrders` and the processor's `checkPendingOrders`.

Each call reads a row and saves the whole of it in a later step. A scan reads the PENDING orders once
and then triggers the eligible ones in turn; `triggerOrder` throws when the order is not PENDING any
more, and nothing catches it.

The runs in which an order is never both cancelled and triggered and no cancelled order keeps a scan
from the rest of its eligible ones are exactly those whose steps are `Current` (`orderly_iff_current`).
-/

namespace TradeCore
namespace Marketplace

open Lib

inductive OrderType where
  | market
  | limit
  | stopLoss
  | trailingStop
  deriving DecidableEq, Repr

inductive OrderStatus where
  | pending
  | triggered
  | filled
  | cancelled
  | rejected
  deriving DecidableEq, Repr

inductive OrderSide where
  | buy
  | sell
  deriving DecidableEq, Repr

/-- A row of `orders`; prices are exact. -/
structure Order where
  id : Uuid
  userId : Uuid
  listingId : Uuid
  orderType : OrderType
  side : OrderSide
  price : Option ℚ
  stopPrice : Option ℚ
  status : OrderStatus
  triggeredAt : Option Time
  deriving DecidableEq

/-- The table, and every save made by a cancellation or a trigger. -/
structure State where
  orders : List Order
  saves : List (Uuid × OrderStatus)
  deriving DecidableEq

namespace State

def order? (s : State) (id : Uuid) : Option Order := lookup Order.id id s.orders

def status (s : State) (id : Uuid) : Option OrderStatus := (s.order? id).map Order.status

/-- `ordersRepository.save`: every column is written. -/
def save (s : State) (order : Order) : State :=
  ⟨upsert Order.id order s.orders, s.saves ++ [(order.id, order.status)]⟩

theorem status_save (s : State) (order : Order) (id : Uuid) :
    (s.save order).status id = if order.id = id then some order.status else s.status id := by
  show (lookup Order.id id (upsert Order.id order s.orders)).map _ = _
  rw [lookup_upsert]
  split
  · rfl
  · rfl

def pendingOrders (s : State) : List Order := s.orders.filter (·.status = .pending)

end State

/-! ## One order -/

def evaluateOrderTrigger (order : Order) (currentPrice : ℚ) : Bool :=
  let price :=
    if order.orderType = .stopLoss ∨ order.orderType = .trailingStop then order.stopPrice.getD 0
    else order.price.getD 0
  if order.orderType = .market then false
  else if price ≤ 0 then false
  else
    match order.orderType, order.side with
    | .limit, .buy => currentPrice ≤ price
    | .limit, .sell => price ≤ currentPrice
    | .stopLoss, .buy | .trailingStop, .buy => price ≤ currentPrice
    | .stopLoss, .sell | .trailingStop, .sell => currentPrice ≤ price
    | .market, _ => false

def findOneOrder (s : State) (id : Uuid) : Except HttpError Order :=
  match s.order? id with
  | none => .error (.notFound "Order not found")
  | some order => .ok order

/-- The read of a cancellation; what it will save. -/
def cancelOrder.read (s : State) (id userId : Uuid) : Except HttpError Order := do
  let order ← findOneOrder s id
  if order.userId ≠ userId then .error (.forbidden "Not your order")
  else if order.status ≠ .pending then
    .error (.badRequest "Only pending orders can be cancelled")
  else .ok { order with status := .cancelled }

def OrderStatus.text : OrderStatus → String
  | .pending => "pending"
  | .triggered => "triggered"
  | .filled => "filled"
  | .cancelled => "cancelled"
  | .rejected => "rejected"

def triggerOrder.notPending (status : OrderStatus) : HttpError :=
  .badRequest ("Only pending orders can be triggered; current status is " ++ status.text)

def triggerOrder.read (s : State) (id : Uuid) (now : Time) : Except HttpError Order := do
  let order ← findOneOrder s id
  if order.status ≠ .pending then .error (triggerOrder.notPending order.status)
  else .ok { order with status := .triggered, triggeredAt := some now }

/-! ## What a scan finds -/

structure Listing where
  price : ℚ

/-- What the price oracle answers. -/
structure AggregatedPrice where
  poolCount : Nat
  weightedPrice : ℚ

def getCurrentPrice (listing : Listing) (aggregated : Option AggregatedPrice) : ℚ :=
  match aggregated with
  | some a => if 0 < a.poolCount ∧ 0 < a.weightedPrice then a.weightedPrice else listing.price
  | none => listing.price

/-- What a run of the processor learns about a listing: its row, and the oracle's answer unless that
throws. Every listing is looked up once in a run. -/
structure Quote where
  listing : Option Listing
  aggregated : Option AggregatedPrice

/-- The price the orders of the listing are evaluated at; without a valid one they are skipped. -/
def Quote.currentPrice (quote : Quote) : Option ℚ :=
  match quote.listing with
  | none => none
  | some listing =>
    let currentPrice := getCurrentPrice listing quote.aggregated
    if currentPrice ≤ 0 then none else some currentPrice

/-- `group.push(order)`, in the group of its listing or in a new one. -/
def addToGroup (order : Order) : List (Uuid × List Order) → List (Uuid × List Order)
  | [] => [(order.listingId, [order])]
  | (listingId, orders) :: groups =>
    if listingId = order.listingId then (listingId, orders ++ [order]) :: groups
    else (listingId, orders) :: addToGroup order groups

def ordersByListing (orders : List Order) : List (Uuid × List Order) :=
  orders.foldl (fun groups order =>
    if order.orderType = .market then groups else addToGroup order groups) []

def monitorAndTriggerOrders.targets (s : State) (currentPrice : ℚ) : List Uuid :=
  (s.pendingOrders.filter (evaluateOrderTrigger · currentPrice)).map Order.id

def checkPendingOrders.targets (s : State) (quotes : Uuid → Quote) : List Uuid :=
  (ordersByListing s.pendingOrders).flatMap fun group =>
    match (quotes group.1).currentPrice with
    | none => []
    | some currentPrice => (group.2.filter (evaluateOrderTrigger · currentPrice)).map Order.id

theorem mem_addToGroup {order : Order} {groups : List (Uuid × List Order)} {p : Uuid → Order → Prop} :
    (∃ g ∈ addToGroup order groups, ∃ o ∈ g.2, p g.1 o) ↔
      p order.listingId order ∨ ∃ g ∈ groups, ∃ o ∈ g.2, p g.1 o := by
  induction groups with
  | nil => simp [addToGroup]
  | cons g groups ih =>
    obtain ⟨listingId, orders⟩ := g
    rw [addToGroup]
    split
    · rename_i he
      subst he
      simp only [List.exists_mem_cons_iff, List.mem_append, List.mem_singleton, or_and_right, exists_or,
        exists_eq_left]
      rw [or_comm (a := ∃ x, x ∈ orders ∧ p order.listingId x), or_assoc]
    · simp only [List.exists_mem_cons_iff, ih]
      rw [or_left_comm]

theorem mem_ordersByListing {orders : List Order} {p : Uuid → Order → Prop} :
    (∃ g ∈ ordersByListing orders, ∃ o ∈ g.2, p g.1 o) ↔
      ∃ o ∈ orders, o.orderType ≠ .market ∧ p o.listingId o := by
  have hfold : ∀ groups, (∃ g ∈ orders.foldl (fun groups order =>
        if order.orderType = .market then groups else addToGroup order groups) groups,
          ∃ o ∈ g.2, p g.1 o) ↔
      (∃ o ∈ orders, o.orderType ≠ .market ∧ p o.listingId o) ∨ ∃ g ∈ groups, ∃ o ∈ g.2, p g.1 o := by
    induction orders with
    | nil => simp
    | cons order orders ih =>
      intro groups
      rw [List.foldl_cons, ih, List.exists_mem_cons_iff]
      split
      · rename_i hm
        simp [hm]
      · rename_i hm
        rw [mem_addToGroup, and_iff_right hm, or_assoc, or_left_comm]
  rw [ordersByListing, hfold]
  simp

theorem evaluateOrderTrigger_market {order : Order} {currentPrice : ℚ}
    (h : evaluateOrderTrigger order currentPrice = true) : order.orderType ≠ .market := by
  intro hm
  simp [evaluateOrderTrigger, hm] at h

/-- A scan of the processor is after exactly the eligible orders. -/
theorem mem_checkPendingOrders_targets {s : State} {quotes : Uuid → Quote} {id : Uuid} :
    id ∈ checkPendingOrders.targets s quotes ↔ ∃ order ∈ s.pendingOrders, order.id = id ∧
      ∃ p, (quotes order.listingId).currentPrice = some p ∧ evaluateOrderTrigger order p = true := by
  have hgroups : id ∈ checkPendingOrders.targets s quotes ↔
      ∃ g ∈ ordersByListing s.pendingOrders, ∃ o ∈ g.2, o.id = id ∧
        ∃ p, (quotes g.1).currentPrice = some p ∧ evaluateOrderTrigger o p = true := by
    rw [checkPendingOrders.targets, List.mem_flatMap]
    refine exists_congr fun g => and_congr_right fun _ => ?_
    cases hq : (quotes g.1).currentPrice with
    | none => simp
    | some p =>
      simp only [List.mem_map, List.mem_filter, Option.some.injEq, exists_eq_left', and_assoc]
      refine exists_congr fun o => and_congr_right fun _ => and_comm
  rw [hgroups, mem_ordersByListing (p := fun listingId o => o.id = id ∧
    ∃ p, (quotes listingId).currentPrice = some p ∧ evaluateOrderTrigger o p = true)]
  refine exists_congr fun o => and_congr_right fun _ => ⟨fun h => h.2, fun h => ⟨?_, h⟩⟩
  obtain ⟨-, p, -, heval⟩ := h
  exact evaluateOrderTrigger_market heval

/-! ## The calls -/

inductive CallOp where
  | cancelOrder (id userId : Uuid)
  | triggerOrder (id : Uuid)
  | monitorAndTriggerOrders (currentPrice : ℚ)
  | checkPendingOrders (quotes : Uuid → Quote)

/-- Where a call stands; a scan keeps the orders it is after and those still to come. -/
inductive Call where
  | start (op : CallOp)
  | cancelling (order : Order)
  | triggering (order : Order)
  | scanning (targets : List Uuid) (id : Uuid) (todo : List Uuid)
  | scanTriggering (targets : List Uuid) (order : Order) (todo : List Uuid)

inductive Result where
  | saved (order : Order)
  | failed (e : HttpError)
  | scanned (targets : List Uuid)
  | scanFailed (targets : List Uuid) (e : HttpError)

abbrev CallTask := Task Call Result

def scan (targets : List Uuid) : List Uuid → CallTask
  | [] => .done (.scanned targets)
  | id :: todo => .running (.scanning targets id todo)

def adv (now : Time) (c : Call) (s : State) : State × CallTask :=
  match c with
  | .start (.cancelOrder id userId) =>
    match cancelOrder.read s id userId with
    | .error e => (s, .done (.failed e))
    | .ok order => (s, .running (.cancelling order))
  | .start (.triggerOrder id) =>
    match triggerOrder.read s id now with
    | .error e => (s, .done (.failed e))
    | .ok order => (s, .running (.triggering order))
  | .start (.monitorAndTriggerOrders currentPrice) =>
    (s, scan (monitorAndTriggerOrders.targets s currentPrice)
      (monitorAndTriggerOrders.targets s currentPrice))
  | .start (.checkPendingOrders quotes) =>
    (s, scan (checkPendingOrders.targets s quotes) (checkPendingOrders.targets s quotes))
  | .cancelling order | .triggering order => (s.save order, .done (.saved order))
  | .scanning targets id todo =>
    match triggerOrder.read s id now with
    | .error e => (s, .done (.scanFailed targets e))
    | .ok order => (s, .running (.scanTriggering targets order todo))
  | .scanTriggering targets order todo => (s.save order, scan targets todo)

def calls : Proc State Time CallOp Call Result := ⟨.start, adv⟩

/-! ## What is asked of a run -/

/-- The scan leaves none of the orders it was after PENDING when it has ended normally or at an order
that was cancelled. -/
def Result.Complete (s : State) : Result → Prop
  | .scanned targets => ∀ id ∈ targets, s.status id ≠ some .pending
  | .scanFailed targets e =>
    e = triggerOrder.notPending .cancelled → ∀ id ∈ targets, s.status id ≠ some .pending
  | _ => True

/-- No order has been both cancelled and triggered. -/
def Exclusively (s : State) : Prop :=
  ∀ id, ¬ ((id, .cancelled) ∈ s.saves ∧ (id, .triggered) ∈ s.saves)

/-- What is CANCELLED in `s` is not TRIGGERED in `s'`, nor the reverse. -/
def Final (s s' : State) : Prop :=
  ∀ id, (s.status id = some .cancelled → s'.status id ≠ some .triggered) ∧
    (s.status id = some .triggered → s'.status id ≠ some .cancelled)

structure Orderly (c : Conf State Call Result) (acts : List (Act Time CallOp)) : Prop where
  exclusively : Always calls.step (fun c => Exclusively c.shared) c acts
  final : ∀ as bs cs, acts = as ++ bs ++ cs →
    Final (run calls.step c as).shared (run calls.step c (as ++ bs)).shared
  complete : Always calls.step (fun c => ∀ r, .done r ∈ c.tasks → r.Complete c.shared) c acts

/-- A row is not saved over the opposite status, and a scan that comes to a CANCELLED order has none
ahead that is PENDING. -/
def Current (_ : Time) (c : Call) (s : State) (_ : List CallTask) : Prop :=
  match c with
  | .cancelling order => s.status order.id ≠ some .triggered
  | .triggering order | .scanTriggering _ order _ => s.status order.id ≠ some .cancelled
  | .scanning _ id todo =>
    s.status id = some .cancelled → ∀ next ∈ todo, s.status next ≠ some .pending
  | .start _ => True

abbrev CurrentStep : Conf State Call Result → Act Time CallOp → Prop :=
  Meets (fun _ => True) Current

/-! ## The invariant -/

/-- What a call is about to save has the status the call is named for. -/
def Call.SavesOwn : Call → Prop
  | .cancelling order => order.status = .cancelled
  | .triggering order | .scanTriggering _ order _ => order.status = .triggered
  | _ => True

/-- What is ahead of a scan is among the orders it is after, and so is ahead what is still PENDING of
them. -/
def Call.Ahead (s : State) : Call → Prop
  | .scanning targets id todo => (∀ t ∈ todo, t ∈ targets) ∧
    ∀ t ∈ targets, s.status t = some .pending → t ∈ id :: todo
  | .scanTriggering targets order todo => (∀ t ∈ todo, t ∈ targets) ∧
    ∀ t ∈ targets, s.status t = some .pending → t ∈ order.id :: todo
  | _ => True

/-- What a call that goes on, or has ended, is known to meet. -/
def TaskOk (s : State) : CallTask → Prop
  | .running c => c.SavesOwn ∧ c.Ahead s
  | .done r => r.Complete s

/-- The two statuses that are saved. -/
def OrderStatus.Ends (status : OrderStatus) : Prop := status = .cancelled ∨ status = .triggered

structure Inv (s : State) (ts : List CallTask) : Prop where
  saves : ∀ e ∈ s.saves, s.status e.1 = some e.2 ∧ e.2.Ends
  tasks : ∀ t ∈ ts, TaskOk s t

theorem inv_init (orders : List Order) : Inv ⟨orders, []⟩ [] :=
  ⟨List.forall_mem_nil _, List.forall_mem_nil _⟩

section Step

variable {s s' : State} {ts pre post : List CallTask} {c : Call} {t : CallTask} {order : Order}
  {now : Time}

theorem TaskOk.mono (hmono : ∀ id, s'.status id = some .pending → s.status id = some .pending)
    (h : TaskOk s t) : TaskOk s' t := by
  cases t with
  | running c =>
    refine ⟨h.1, ?_⟩
    cases c with
    | scanning targets id todo => exact ⟨h.2.1, fun t ht hp => h.2.2 t ht (hmono t hp)⟩
    | scanTriggering targets order todo => exact ⟨h.2.1, fun t ht hp => h.2.2 t ht (hmono t hp)⟩
    | start op => trivial
    | cancelling order => trivial
    | triggering order => trivial
  | done r =>
    cases r with
    | scanned targets => exact fun id hid hp => h id hid (hmono id hp)
    | scanFailed targets e => exact fun he id hid hp => h he id hid (hmono id hp)
    | saved order => trivial
    | failed e => trivial

/-- One call takes a step and puts nothing back to PENDING. -/
theorem Inv.replace (h : Inv s (pre ++ .running c :: post))
    (hmono : ∀ id, s'.status id = some .pending → s.status id = some .pending)
    (hsaves : ∀ e ∈ s'.saves, s'.status e.1 = some e.2 ∧ e.2.Ends) (ht : TaskOk s' t) :
    Inv s' (pre ++ t :: post) :=
  ⟨hsaves, forall_replace h.tasks (fun _ hu => hu.mono hmono) ht⟩

theorem Inv.here (h : Inv s (pre ++ .running c :: post)) : c.SavesOwn ∧ c.Ahead s :=
  h.tasks (.running c) (List.mem_append_right _ (.head _))

/-- A step that saves nothing. -/
theorem Inv.keep (h : Inv s (pre ++ .running c :: post)) (ht : TaskOk s t) :
    Inv s (pre ++ t :: post) :=
  h.replace (fun _ hp => hp) h.saves ht

theorem pending_of_save (ho : order.status ≠ .pending) (id : Uuid)
    (hp : (s.save order).status id = some .pending) : s.status id = some .pending := by
  rw [State.status_save] at hp
  split at hp
  · exact absurd (Option.some.inj hp) ho
  · exact hp

/-- The row is not stored with the other of the two statuses. -/
def Agreeing (s : State) (order : Order) : Prop :=
  ∀ status : OrderStatus, status.Ends → s.status order.id = some status → status = order.status

theorem OrderStatus.Ends.ne_pending {status : OrderStatus} (h : status.Ends) : status ≠ .pending := by
  rintro rfl
  rcases h with h | h <;> cases h

/-- A save over a row that is not stored with the other status. -/
theorem Inv.save (h : Inv s (pre ++ .running c :: post)) (ho : order.status.Ends)
    (hagree : Agreeing s order) (ht : TaskOk (s.save order) t) :
    Inv (s.save order) (pre ++ t :: post) := by
  refine h.replace (pending_of_save ho.ne_pending) (fun e he => ?_) ht
  rw [State.status_save]
  rcases List.mem_append.mp he with he | he
  · obtain ⟨hstatus, hends⟩ := h.saves e he
    refine ⟨?_, hends⟩
    split
    · rename_i hid
      rw [hagree e.2 hends (by rw [hid]; exact hstatus)]
    · exact hstatus
  · rw [List.mem_singleton.mp he, if_pos rfl]
    exact ⟨rfl, ho⟩

theorem agreeing_cancelled (ho : order.status = .cancelled)
    (h : s.status order.id ≠ some .triggered) : Agreeing s order := by
  rintro status (rfl | rfl) hs
  · exact ho.symm
  · exact absurd hs h

theorem agreeing_triggered (ho : order.status = .triggered)
    (h : s.status order.id ≠ some .cancelled) : Agreeing s order := by
  rintro status (rfl | rfl) hs
  · exact absurd hs h
  · exact ho.symm

theorem scan_ok {targets todo : List Uuid} (hsub : ∀ t ∈ todo, t ∈ targets)
    (h : ∀ t ∈ targets, s.status t = some .pending → t ∈ todo) : TaskOk s (scan targets todo) := by
  cases todo with
  | nil => exact fun t ht hp => List.not_mem_nil (h t ht hp)
  | cons id todo => exact ⟨trivial, fun t ht => hsub t (.tail _ ht), h⟩

theorem findOneOrder_ok {id : Uuid} (h : findOneOrder s id = .ok order) :
    order.id = id ∧ s.status id = some order.status := by
  unfold findOneOrder at h
  split at h
  · cases h
  · rename_i found hf
    cases h
    exact ⟨lookup_key hf, by rw [State.status, hf]; rfl⟩

theorem cancelOrder_read_ok {id userId : Uuid} (h : cancelOrder.read s id userId = .ok order) :
    order.status = .cancelled ∧ order.id = id := by
  obtain ⟨found, hf, h⟩ := bind_eq_ok.mp h
  split at h
  · cases h
  · split at h
    · cases h
    · cases h
      exact ⟨rfl, (findOneOrder_ok hf).1⟩

theorem triggerOrder_read_ok {id : Uuid} (h : triggerOrder.read s id now = .ok order) :
    order.status = .triggered ∧ order.id = id := by
  obtain ⟨found, hf, h⟩ := bind_eq_ok.mp h
  split at h
  · cases h
  · cases h
    exact ⟨rfl, (findOneOrder_ok hf).1⟩

theorem triggerOrder_read_cancelled {id : Uuid} :
    triggerOrder.read s id now = .error (triggerOrder.notPending .cancelled) ↔
      s.status id = some .cancelled := by
  unfold triggerOrder.read findOneOrder State.status
  cases s.order? id with
  | none => simp [bind, Except.bind, triggerOrder.notPending]
  | some order =>
    cases hs : order.status <;>
      simp [bind, Except.bind, hs, triggerOrder.notPending, OrderStatus.text]

/-- What is stored with one of the two statuses stays so. -/
def Kept (s s' : State) : Prop :=
  ∀ id (status : OrderStatus), status.Ends → s.status id = some status → s'.status id = some status

theorem kept_save (hagree : Agreeing s order) : Kept s (s.save order) := by
  intro id status hends hs
  rw [State.status_save]
  split
  · rename_i hid
    rw [hagree status hends (by rw [hid]; exact hs)]
  · exact hs

theorem inv_adv (h : Inv s (pre ++ .running c :: post)) (hG : Current now c s ts) :
    Inv (adv now c s).1 (pre ++ (adv now c s).2 :: post) ∧ Kept s (adv now c s).1 := by
  have hhere := h.here
  have hkept : Kept s s := fun _ _ _ hs => hs
  cases c with
  | start op =>
    cases op with
    | cancelOrder id userId =>
      simp only [adv]
      split
      · exact ⟨h.keep trivial, hkept⟩
      · rename_i order hread
        exact ⟨h.keep ⟨(cancelOrder_read_ok hread).1, trivial⟩, hkept⟩
    | triggerOrder id =>
      simp only [adv]
      split
      · exact ⟨h.keep trivial, hkept⟩
      · rename_i order hread
        exact ⟨h.keep ⟨(triggerOrder_read_ok hread).1, trivial⟩, hkept⟩
    | monitorAndTriggerOrders currentPrice =>
      exact ⟨h.keep (scan_ok (fun _ ht => ht) fun _ ht _ => ht), hkept⟩
    | checkPendingOrders quotes => exact ⟨h.keep (scan_ok (fun _ ht => ht) fun _ ht _ => ht), hkept⟩
  | cancelling order =>
    have hagree := agreeing_cancelled hhere.1 hG
    exact ⟨h.save (.inl hhere.1) hagree trivial, kept_save hagree⟩
  | triggering order =>
    have hagree := agreeing_triggered hhere.1 hG
    exact ⟨h.save (.inr hhere.1) hagree trivial, kept_save hagree⟩
  | scanning targets id todo =>
    simp only [adv]
    split
    · -- the scan ends here, and if that is at a cancelled order, nothing ahead may be PENDING
      rename_i e hread
      refine ⟨h.keep fun he t ht hp => ?_, hkept⟩
      have hcancelled := triggerOrder_read_cancelled.mp (he ▸ hread)
      rcases List.mem_cons.mp (hhere.2.2 t ht hp) with rfl | hmem
      · rw [hcancelled] at hp
        cases hp
      · exact hG hcancelled t hmem hp
    · rename_i order hread
      obtain ⟨hstatus, hid⟩ := triggerOrder_read_ok hread
      refine ⟨h.keep ⟨hstatus, hhere.2.1, fun t ht hp => ?_⟩, hkept⟩
      rw [hid]
      exact hhere.2.2 t ht hp
  | scanTriggering targets order todo =>
    have hagree := agreeing_triggered hhere.1 hG
    have hends : order.status.Ends := .inr hhere.1
    refine ⟨h.save hends hagree (scan_ok hhere.2.1 fun t ht hp => ?_), kept_save hagree⟩
    rcases List.mem_cons.mp (hhere.2.2 t ht (pending_of_save hends.ne_pending t hp)) with rfl | hmem
    · rw [State.status_save, if_pos rfl] at hp
      exact absurd (Option.some.inj hp) hends.ne_pending
    · exact hmem

end Step

/-! ## Runs -/

abbrev CallConf := Conf State Call Result

theorem current_step (c : CallConf) (a : Act Time CallOp) (h : Inv c.shared c.tasks)
    (hG : CurrentStep c a) :
    Inv (calls.step c a).shared (calls.step c a).tasks ∧ Kept c.shared (calls.step c a).shared := by
  obtain ⟨x, rfl, hs⟩ | ⟨i, now, k, pre, post, rfl, hi, ht, hs⟩ | hs := step_cases calls c a
  · rw [hs]
    refine ⟨⟨h.saves, fun t hmem => ?_⟩, fun _ _ _ hk => hk⟩
    rcases List.mem_append.mp hmem with hmem | hmem
    · exact h.tasks t hmem
    · rw [List.mem_singleton.mp hmem]
      exact ⟨trivial, trivial⟩
  · rw [ht] at h
    rw [hs]
    exact inv_adv h (hG k hi)
  · rw [hs]
    exact ⟨h, fun _ _ _ hk => hk⟩

theorem Inv.exclusively {s : State} {ts : List CallTask} (h : Inv s ts) : Exclusively s := by
  rintro id ⟨hc, ht⟩
  have hboth := (h.saves _ hc).1.symm.trans (h.saves _ ht).1
  cases hboth

theorem Inv.complete {s : State} {ts : List CallTask} (h : Inv s ts) :
    ∀ r, .done r ∈ ts → r.Complete s := fun r hr => h.tasks (.done r) hr

theorem Kept.final {s s' : State} (h : Kept s s') : Final s s' := by
  refine fun id => ⟨fun hc ht => ?_, fun ht hc => ?_⟩
  · have hkeep := h id .cancelled (.inl rfl) hc
    rw [ht] at hkeep
    cases hkeep
  · have hkeep := h id .triggered (.inr rfl) ht
    rw [hc] at hkeep
    cases hkeep

/-- A step that is not `Current` overwrites the opposite status, or ends a scan at a cancelled order with
PENDING ones ahead. -/
theorem current_of_orderly (c : CallConf) (a : Act Time CallOp) (h : Inv c.shared c.tasks)
    (hfinal : Final c.shared (calls.step c a).shared)
    (hcomplete : ∀ r, .done r ∈ (calls.step c a).tasks → r.Complete (calls.step c a).shared) :
    CurrentStep c a := by
  cases a with
  | spawn x => trivial
  | sched i now =>
    intro k hk
    rw [step_sched calls hk] at hfinal hcomplete
    obtain ⟨hsaves, hahead⟩ : TaskOk c.shared (.running k) := h.tasks _ (List.mem_of_getElem? hk)
    cases k with
    | start op => trivial
    | cancelling order =>
      intro hs
      refine (hfinal order.id).2 hs ?_
      show (c.shared.save order).status order.id = _
      rw [State.status_save, if_pos rfl, hsaves]
    | triggering order =>
      intro hs
      refine (hfinal order.id).1 hs ?_
      show (c.shared.save order).status order.id = _
      rw [State.status_save, if_pos rfl, hsaves]
    | scanTriggering targets order todo =>
      intro hs
      refine (hfinal order.id).1 hs ?_
      show (c.shared.save order).status order.id = _
      rw [State.status_save, if_pos rfl, hsaves]
    | scanning targets id todo =>
      intro hcancelled
      have hread : triggerOrder.read c.shared id now =
          .error (triggerOrder.notPending .cancelled) := triggerOrder_read_cancelled.mpr hcancelled
      have hdone : calls.adv now (.scanning targets id todo) c.shared =
          (c.shared, .done (.scanFailed targets (triggerOrder.notPending .cancelled))) := by
        show adv now (.scanning targets id todo) c.shared = _
        simp only [adv, hread]
      rw [hdone] at hcomplete
      obtain ⟨hlt, -⟩ := List.getElem?_eq_some_iff.mp hk
      have hleft := hcomplete _ (List.mem_set hlt _) rfl
      exact fun t ht => hleft t (hahead.1 t ht)

/-- **The runs that keep cancelling and triggering apart and complete their scans are those whose steps
are all `Current`.** -/
theorem orderly_iff_current (orders : List Order) (acts : List (Act Time CallOp)) :
    Orderly (Conf.init ⟨orders, []⟩) acts ↔
      Along calls.step CurrentStep (Conf.init ⟨orders, []⟩) acts := by
  have htrue : Along calls.step (fun _ _ => True) (Conf.init ⟨orders, []⟩) acts := along_true
  have hiff : Along calls.step (fun c a => Final c.shared (calls.step c a).shared)
        (Conf.init ⟨orders, []⟩) acts ∧
      Always calls.step (fun c => Exclusively c.shared ∧ ∀ r, .done r ∈ c.tasks → r.Complete c.shared)
        (Conf.init ⟨orders, []⟩) acts ↔
      Along calls.step CurrentStep (Conf.init ⟨orders, []⟩) acts :=
    along_always_iff (I := fun c => Inv c.shared c.tasks) (fun c h => ⟨h.exclusively, h.complete⟩)
      (fun c a h _ hG => ⟨(current_step c a h hG).2.final, (current_step c a h hG).1⟩)
      (fun c a h _ hT hP => current_of_orderly c a h hT hP.2) (inv_init orders) htrue
  constructor
  · intro h
    refine hiff.mp ⟨along_iff_split.mpr fun as a cs he => ?_, ?_⟩
    · have hfinal := h.final as [a] cs (by rw [he]; simp)
      rwa [run_append] at hfinal
    · exact h.exclusively.and h.complete
  · intro h
    obtain ⟨-, halways⟩ := hiff.mpr h
    refine ⟨halways.mono fun _ hp => hp.1, fun as bs cs he => ?_, halways.mono fun _ hp => hp.2⟩
    rw [he, List.append_assoc, along_append, along_append] at h
    rw [run_append]
    have hinv := run_inv (fun c a hI hG => (current_step c a hI hG).1) (inv_init orders) h.1
    refine Kept.final fun id status hends hs => ?_
    refine (run_inv (I := fun c : CallConf => Inv c.shared c.tasks ∧
      c.shared.status id = some status) (fun c a hI hG => ?_) ⟨hinv, hs⟩ h.2.1).2
    obtain ⟨hI', hkept⟩ := current_step c a hI.1 hG
    exact ⟨hI', hkept id status hends hI.2⟩

/-- A pending ask of user 1 at 100. -/
def ask (id : Uuid) : Order := ⟨id, 1, 1, .limit, .sell, some 100, none, .pending, none⟩

/-- A cancellation and a trigger of one order, both of which read it before either saves it. -/
def raceRun : List (Act Time CallOp) :=
  [.spawn (.cancelOrder 1 1), .spawn (.triggerOrder 1), .sched 0 0, .sched 1 0, .sched 0 0, .sched 1 0]

/-- A scan finds two orders, and the first is cancelled before the scan comes to it. -/
def abortRun : List (Act Time CallOp) :=
  [.spawn (.monitorAndTriggerOrders 150), .spawn (.cancelOrder 1 1), .sched 0 0, .sched 1 0, .sched 1 0,
    .sched 0 0]

/-- The order of the first run is cancelled and then triggered; the second order of the scan is left
PENDING. -/
theorem cancelled_then_triggered :
    ¬ Orderly (Conf.init ⟨[ask 1], []⟩) raceRun ∧
    ¬ Orderly (Conf.init ⟨[ask 1, ask 2], []⟩) abortRun := by
  refine ⟨fun h => ?_, fun h => ?_⟩
  · have hsaves : (run calls.step (Conf.init ⟨[ask 1], []⟩) raceRun).shared.saves =
        [(1, .cancelled), (1, .triggered)] := rfl
    refine h.exclusively.last 1 ?_
    rw [hsaves]
    decide
  · have hdone : (run calls.step (Conf.init ⟨[ask 1, ask 2], []⟩) abortRun).tasks[0]? =
        some (.done (.scanFailed [1, 2]
          (.badRequest "Only pending orders can be triggered; current status is cancelled"))) := by
      rfl
    exact h.complete.last _ (List.mem_of_getElem? hdone) rfl 2 (by decide) rfl

end Marketplace
end TradeCore
