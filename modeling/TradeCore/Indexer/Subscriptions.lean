import Mathlib.Data.Rat.Defs
import TradeCore.Lib.DecimalText
import TradeCore.Lib.Run
import TradeCore.Lib.SecondaryIndex

/-!
# TradeCore.Indexer.Subscriptions

The subscriptions of the WebSocket clients. `subscriptions` is a map from subscription ids to
subscriptions and `clientIndex` one from clients to the ids of theirs, both in insertion order.

* `subscriptions_run`: whatever is called in whatever order, the second map is exactly the first one read
  by client, an event goes out once for each subscription that matches it, and a client whose
  subscriptions were removed gets nothing until it subscribes again.
-/

namespace TradeCore
namespace Indexer

open Lib

/-- `Omit<EventSubscription, 'id'>`. -/
structure SubscriptionRequest where
  clientId : String
  eventTypes : List String
  contractIds : Option (List String)
  accounts : Option (List String)
  fromLedger : Option Rat
  deriving DecidableEq

structure EventSubscription extends SubscriptionRequest where
  id : String
  deriving DecidableEq

structure NormalizedEventPayload where
  ledgerSequence : Nat
  eventType : String
  sourceAccount : String
  destinationAccount : Option String
  contractId : Option String
  deriving DecidableEq

structure SubscriptionManager where
  subscriptions : List EventSubscription
  clientIndex : List (String × List String)
  nextId : Nat
  deriving DecidableEq

/-- What `emit` hands to the listeners of a channel. -/
structure Emission where
  channel : String
  subscriptionId : String
  event : NormalizedEventPayload
  deriving DecidableEq

def clientChannel (clientId : String) : String := "event:" ++ clientId

def subscriptionId (n : Nat) : String := "sub_" ++ toString n

/-- A string that is there and not empty. -/
def truthy? : Option String → Option String
  | none => none
  | some s => if s = "" then none else some s

def matchesSubscription (event : NormalizedEventPayload) (sub : EventSubscription) : Bool :=
  if sub.eventTypes ≠ [] ∧ event.eventType ∉ sub.eventTypes then false
  else if (sub.contractIds.any fun ids =>
      ids ≠ [] ∧ ¬ (truthy? event.contractId).any fun c => c ∈ ids) then false
  else if (sub.accounts.any fun accounts =>
      accounts ≠ [] ∧ ¬ (event.sourceAccount ∈ accounts ∨
        (truthy? event.destinationAccount).any fun d => d ∈ accounts)) then false
  else if (sub.fromLedger.any fun from_ => (event.ledgerSequence : Rat) < from_) then false
  else true

namespace SubscriptionManager

def new : SubscriptionManager := ⟨[], [], 1⟩

/-- `clientIndex.get`. -/
def clientSubs (m : SubscriptionManager) (clientId : String) : Option (List String) :=
  (lookup Prod.fst clientId m.clientIndex).map Prod.snd

/-- `Set.add`. -/
def add (id : String) (ids : List String) : List String := if id ∈ ids then ids else ids ++ [id]

def subscribe (m : SubscriptionManager) (subscription : SubscriptionRequest) :
    String × SubscriptionManager :=
  let id := subscriptionId m.nextId
  let full : EventSubscription := { subscription with id := id }
  let ids := (m.clientSubs subscription.clientId).getD []
  (id,
    { subscriptions := upsert EventSubscription.id full m.subscriptions
      clientIndex := upsert Prod.fst (subscription.clientId, add id ids) m.clientIndex
      nextId := m.nextId + 1 })

def unsubscribe (m : SubscriptionManager) (id : String) : Bool × SubscriptionManager :=
  match lookup EventSubscription.id id m.subscriptions with
  | none => (false, m)
  | some sub =>
    (true,
      { m with
        subscriptions := deleteKey EventSubscription.id id m.subscriptions
        clientIndex :=
          match m.clientSubs sub.clientId with
          | none => m.clientIndex
          | some clientSubs =>
            if clientSubs.filter (· ≠ id) = [] then deleteKey Prod.fst sub.clientId m.clientIndex
            else upsert Prod.fst (sub.clientId, clientSubs.filter (· ≠ id)) m.clientIndex })

def removeClientSubscriptions (m : SubscriptionManager) (clientId : String) :
    Nat × SubscriptionManager :=
  match m.clientSubs clientId with
  | none | some [] => (0, m)
  | some clientSubs =>
    (clientSubs.length,
      { m with
        subscriptions := clientSubs.foldl
          (fun subs id => deleteKey EventSubscription.id id subs) m.subscriptions
        clientIndex := deleteKey Prod.fst clientId m.clientIndex })

/-- The loop of `distributeEvent`: the ids it collects and what it emits. -/
def distribute (event : NormalizedEventPayload) : List EventSubscription → List String × List Emission
  | [] => ([], [])
  | sub :: subs =>
    let (ids, emitted) := distribute event subs
    if matchesSubscription event sub then
      (sub.id :: ids, ⟨clientChannel sub.clientId, sub.id, event⟩ :: emitted)
    else (ids, emitted)

def distributeEvent (m : SubscriptionManager) (event : NormalizedEventPayload) :
    List String × List Emission :=
  distribute event m.subscriptions

end SubscriptionManager

inductive SubscriptionCall where
  | subscribe (subscription : SubscriptionRequest)
  | unsubscribe (id : String)
  | removeClientSubscriptions (clientId : String)
  deriving DecidableEq

def SubscriptionManager.step (m : SubscriptionManager) : SubscriptionCall → SubscriptionManager
  | .subscribe subscription => (m.subscribe subscription).2
  | .unsubscribe id => (m.unsubscribe id).2
  | .removeClientSubscriptions clientId => (m.removeClientSubscriptions clientId).2

/-! ## What a filter asks -/

structure Matches (event : NormalizedEventPayload) (sub : EventSubscription) : Prop where
  eventType : sub.eventTypes = [] ∨ event.eventType ∈ sub.eventTypes
  contract : ∀ ids ∈ sub.contractIds, ids = [] ∨ ∃ c ∈ event.contractId, c ≠ "" ∧ c ∈ ids
  account : ∀ accounts ∈ sub.accounts, accounts = [] ∨ event.sourceAccount ∈ accounts ∨
    ∃ d ∈ event.destinationAccount, d ≠ "" ∧ d ∈ accounts
  ledger : ∀ from_ ∈ sub.fromLedger, from_ ≤ event.ledgerSequence

theorem truthy?_any {s : Option String} {p : String → Bool} :
    (truthy? s).any p = true ↔ ∃ c ∈ s, c ≠ "" ∧ p c = true := by
  cases s with
  | none => simp [truthy?]
  | some c => by_cases hc : c = "" <;> simp [truthy?, hc]

theorem matchesSubscription_iff {event : NormalizedEventPayload} {sub : EventSubscription} :
    matchesSubscription event sub = true ↔ Matches event sub := by
  have hfalse : ∀ {c : Prop} [Decidable c] {b : Bool},
      (if c then false else b) = true ↔ ¬ c ∧ b = true := by
    intro c _ b
    by_cases hc : c <;> simp [hc]
  have hany : ∀ {α : Type} {o : Option α} {p : α → Bool}, ¬ o.any p = true ↔ ∀ a ∈ o, p a = false := by
    intro α o p
    cases o <;> simp
  rw [matchesSubscription, hfalse, hfalse, hfalse, hfalse, hany, hany, hany]
  simp only [not_and_or, not_not, decide_eq_false_iff_not, truthy?_any, decide_eq_true_eq, and_true,
    not_lt, ne_eq]
  exact ⟨fun ⟨h1, h2, h3, h4⟩ => ⟨h1, h2, h3, h4⟩, fun ⟨h1, h2, h3, h4⟩ => ⟨h1, h2, h3, h4⟩⟩

theorem clientChannel_inj {c c' : String} (h : clientChannel c = clientChannel c') : c = c' := by
  have hlist := congrArg String.toList h
  rw [clientChannel, clientChannel, String.toList_append, String.toList_append] at hlist
  exact String.toList_inj.mp (List.append_cancel_left hlist)

theorem subscriptionId_inj {m n : Nat} (h : subscriptionId m = subscriptionId n) : m = n := by
  have hlist := congrArg String.toList h
  rw [subscriptionId, subscriptionId, String.toList_append, String.toList_append] at hlist
  have hdigits := List.append_cancel_left hlist
  rw [Nat.toString_eq_repr, Nat.toString_eq_repr, Nat.toList_repr, Nat.toList_repr] at hdigits
  exact toDigits_inj hdigits

/-! ## The invariant -/

namespace SubscriptionManager

/-- The index is the subscriptions read by client, and the next id is a new one. -/
structure Inv (m : SubscriptionManager) : Prop where
  index : GroupedBy EventSubscription.id (fun sub => sub.clientId) m.clientIndex m.subscriptions
  ids : ∀ sub ∈ m.subscriptions, ∃ n < m.nextId, sub.id = subscriptionId n

theorem new_inv : new.Inv := ⟨.nil, by simp [new]⟩

namespace Inv

variable {m : SubscriptionManager}

theorem fresh (h : m.Inv) : subscriptionId m.nextId ∉ m.subscriptions.map EventSubscription.id := by
  rintro hin
  obtain ⟨sub, hsub, hid⟩ := List.mem_map.mp hin
  obtain ⟨n, hn, he⟩ := h.ids sub hsub
  have := subscriptionId_inj (hid.symm.trans he)
  omega

theorem subscribe (h : m.Inv) (subscription : SubscriptionRequest) :
    (m.subscribe subscription).2.Inv := by
  have hfresh := h.fresh
  have hnew : subscriptionId m.nextId ∉
      keysOf EventSubscription.id (fun sub => sub.clientId) subscription.clientId m.subscriptions := by
    intro hin
    obtain ⟨sub, hsub, -, hid⟩ := mem_keysOf.mp hin
    exact hfresh (List.mem_map.mpr ⟨sub, hsub, hid⟩)
  constructor
  · rw [SubscriptionManager.subscribe, clientSubs, h.index.keys, add, if_neg hnew]
    have hrows : upsert EventSubscription.id { subscription with id := subscriptionId m.nextId }
        m.subscriptions = m.subscriptions ++ [{ subscription with id := subscriptionId m.nextId }] :=
      upsert_of_not_mem hfresh
    simp only [hrows]
    exact h.index.append (r := { subscription with id := subscriptionId m.nextId }) hfresh
  · intro sub hsub
    rcases mem_upsert hsub with rfl | hsub
    · exact ⟨m.nextId, Nat.lt_succ_self _, rfl⟩
    · obtain ⟨n, hn, hid⟩ := h.ids sub hsub
      exact ⟨n, Nat.lt_succ_of_lt hn, hid⟩

theorem clientSubs_eq (h : m.Inv) {sub : EventSubscription} (hsub : sub ∈ m.subscriptions) :
    m.clientSubs sub.clientId =
      some (keysOf EventSubscription.id (fun sub => sub.clientId) sub.clientId m.subscriptions) := by
  have hne : keysOf EventSubscription.id (fun sub => sub.clientId) sub.clientId m.subscriptions ≠ [] :=
    List.ne_nil_of_mem (mem_keysOf.mpr ⟨sub, hsub, rfl, rfl⟩)
  rw [clientSubs, h.index.entry, entryOf_of_ne_nil hne]
  rfl

theorem unsubscribe (h : m.Inv) (id : String) : (m.unsubscribe id).2.Inv := by
  cases hl : lookup EventSubscription.id id m.subscriptions with
  | none =>
    have heq : m.unsubscribe id = (false, m) := by simp only [SubscriptionManager.unsubscribe, hl]
    rw [heq]
    exact h
  | some sub =>
    have hsub := mem_of_lookup hl
    obtain rfl : sub.id = id := lookup_key hl
    simp only [SubscriptionManager.unsubscribe, hl, h.clientSubs_eq hsub]
    exact ⟨h.index.remove hsub, fun s hs => h.ids s (mem_deleteKey.mp hs).1⟩

/-- A client without subscriptions has nothing removed, any other one its subscriptions and its entry. -/
theorem removeClientSubscriptions_eq (h : m.Inv) (clientId : String) :
    (∀ sub ∈ m.subscriptions, sub.clientId ≠ clientId) ∧
        m.removeClientSubscriptions clientId = (0, m) ∨
      m.removeClientSubscriptions clientId =
        ((keysOf EventSubscription.id (fun sub => sub.clientId) clientId m.subscriptions).length,
          { m with
            subscriptions := m.subscriptions.filter fun sub => sub.clientId ≠ clientId
            clientIndex := deleteKey Prod.fst clientId m.clientIndex }) := by
  rw [← GroupedBy.foldl_deleteKey h.index.rows, SubscriptionManager.removeClientSubscriptions,
    clientSubs, h.index.entry]
  cases hks : keysOf EventSubscription.id (fun sub => sub.clientId) clientId m.subscriptions with
  | nil =>
    refine .inl ⟨fun sub hsub hc => ?_, rfl⟩
    have hin : sub.id ∈ keysOf EventSubscription.id (fun sub => sub.clientId) clientId
        m.subscriptions := mem_keysOf.mpr ⟨sub, hsub, hc, rfl⟩
    rw [hks] at hin
    cases hin
  | cons k ks => exact .inr rfl

theorem removeClientSubscriptions (h : m.Inv) (clientId : String) :
    (m.removeClientSubscriptions clientId).2.Inv := by
  rcases h.removeClientSubscriptions_eq clientId with ⟨-, he⟩ | he <;> rw [he]
  · exact h
  · exact ⟨h.index.removeGroup clientId, fun sub hsub => h.ids sub (List.mem_of_mem_filter hsub)⟩

theorem step (h : m.Inv) (call : SubscriptionCall) : (m.step call).Inv := by
  cases call with
  | subscribe subscription => exact h.subscribe subscription
  | unsubscribe id => exact h.unsubscribe id
  | removeClientSubscriptions clientId => exact h.removeClientSubscriptions clientId

end Inv

theorem inv_run (calls : List SubscriptionCall) : (run step new calls).Inv :=
  run_inv (fun _ call h _ => h.step call) new_inv along_true

/-- The index as a caller reads it. -/
structure Indexed (m : SubscriptionManager) : Prop where
  once : (m.clientIndex.map Prod.fst).Nodup
  ids : ∀ clientId ids, (clientId, ids) ∈ m.clientIndex → ids ≠ [] ∧ ids.Nodup ∧
    ∀ id, id ∈ ids ↔ ∃ sub ∈ m.subscriptions, sub.clientId = clientId ∧ sub.id = id
  clients : ∀ sub ∈ m.subscriptions, ∃ ids, (sub.clientId, ids) ∈ m.clientIndex

theorem Inv.indexed {m : SubscriptionManager} (h : m.Inv) : m.Indexed where
  once := h.index.groups
  ids clientId ids hin := by
    obtain ⟨hne, hkeys⟩ := h.index.of_mem hin
    simp only at hne hkeys
    subst hkeys
    exact ⟨hne, nodup_keysOf h.index.rows, fun id => mem_keysOf⟩
  clients sub hsub := by
    have hentry := h.index.entry sub.clientId
    rw [entryOf_of_ne_nil (List.ne_nil_of_mem (mem_keysOf.mpr ⟨sub, hsub, rfl, rfl⟩))] at hentry
    exact ⟨_, mem_of_lookup hentry⟩

/-! ## Deliveries -/

/-- Exactly the subscriptions that match the event, each of them once. -/
structure Distributes (m : SubscriptionManager) (event : NormalizedEventPayload) : Prop where
  emittedOnce : (m.distributeEvent event).2.Nodup
  emitted : ∀ e, e ∈ (m.distributeEvent event).2 ↔
    ∃ sub ∈ m.subscriptions, Matches event sub ∧ e = ⟨clientChannel sub.clientId, sub.id, event⟩
  matchedOnce : (m.distributeEvent event).1.Nodup
  matched : ∀ id, id ∈ (m.distributeEvent event).1 ↔
    ∃ sub ∈ m.subscriptions, Matches event sub ∧ id = sub.id

theorem distribute_eq (event : NormalizedEventPayload) (subs : List EventSubscription) :
    distribute event subs =
      ((subs.filter (matchesSubscription event)).map EventSubscription.id,
        (subs.filter (matchesSubscription event)).map fun sub =>
          ⟨clientChannel sub.clientId, sub.id, event⟩) := by
  induction subs with
  | nil => rfl
  | cons sub subs ih =>
    simp only [distribute, ih, List.filter_cons]
    split <;> rfl

theorem Inv.distributes {m : SubscriptionManager} (h : m.Inv) (event : NormalizedEventPayload) :
    m.Distributes event := by
  have hids : ((m.subscriptions.filter (matchesSubscription event)).map EventSubscription.id).Nodup :=
    h.index.rows.sublist ((List.filter_sublist).map _)
  constructor <;> rw [distributeEvent, distribute_eq]
  · refine List.Nodup.of_map Emission.subscriptionId ?_
    rw [List.map_map]
    exact hids
  · intro e
    simp only [List.mem_map, List.mem_filter, matchesSubscription_iff, and_assoc,
      eq_comm (a := e)]
  · exact hids
  · intro id
    simp only [List.mem_map, List.mem_filter, matchesSubscription_iff, and_assoc,
      eq_comm (a := id)]

/-- A client without subscriptions gets nothing. -/
theorem Inv.silent {m : SubscriptionManager} (h : m.Inv) {clientId : String}
    (hc : ∀ sub ∈ m.subscriptions, sub.clientId ≠ clientId) (event : NormalizedEventPayload) :
    ∀ e ∈ (m.distributeEvent event).2, e.channel ≠ clientChannel clientId := by
  intro e he hchannel
  obtain ⟨sub, hsub, -, rfl⟩ := ((h.distributes event).emitted e).mp he
  exact hc sub hsub (clientChannel_inj hchannel)

theorem absent_step {m : SubscriptionManager} {clientId : String} (h : m.Inv)
    (hc : ∀ sub ∈ m.subscriptions, sub.clientId ≠ clientId) {call : SubscriptionCall}
    (hcall : ∀ subscription, call = .subscribe subscription → subscription.clientId ≠ clientId) :
    ∀ sub ∈ (m.step call).subscriptions, sub.clientId ≠ clientId := by
  intro sub hsub
  cases call with
  | subscribe subscription =>
    rcases mem_upsert hsub with rfl | hsub
    · exact hcall subscription rfl
    · exact hc sub hsub
  | unsubscribe id =>
    simp only [step, unsubscribe] at hsub
    split at hsub
    · exact hc sub hsub
    · exact hc sub (mem_deleteKey.mp hsub).1
  | removeClientSubscriptions other =>
    rcases h.removeClientSubscriptions_eq other with ⟨-, he⟩ | he <;> simp only [step, he] at hsub
    · exact hc sub hsub
    · exact hc sub (List.mem_of_mem_filter hsub)

theorem silent_run {m : SubscriptionManager} (h : m.Inv) (clientId : String)
    {calls : List SubscriptionCall}
    (hcalls : ∀ subscription, .subscribe subscription ∈ calls → subscription.clientId ≠ clientId)
    (event : NormalizedEventPayload) :
    ∀ e ∈ ((run step (m.removeClientSubscriptions clientId).2 calls).distributeEvent event).2,
      e.channel ≠ clientChannel clientId := by
  have hstart : ∀ sub ∈ (m.removeClientSubscriptions clientId).2.subscriptions,
      sub.clientId ≠ clientId := by
    rcases h.removeClientSubscriptions_eq clientId with ⟨hnone, he⟩ | he <;> rw [he]
    · exact hnone
    · intro sub hsub
      simpa using List.of_mem_filter hsub
  have hstep : ∀ (m : SubscriptionManager) call,
      (m.Inv ∧ ∀ sub ∈ m.subscriptions, sub.clientId ≠ clientId) →
      (∀ subscription, call = .subscribe subscription → subscription.clientId ≠ clientId) →
      (m.step call).Inv ∧ ∀ sub ∈ (m.step call).subscriptions, sub.clientId ≠ clientId :=
    fun m call hm hcall => ⟨hm.1.step call, absent_step hm.1 hm.2 hcall⟩
  have hall : ∀ call ∈ calls, ∀ subscription, call = SubscriptionCall.subscribe subscription →
      subscription.clientId ≠ clientId := fun call hin subscription he => hcalls subscription (he ▸ hin)
  have hend := run_inv hstep ⟨h.removeClientSubscriptions clientId, hstart⟩ (along_of_forall hall)
  exact hend.1.silent hend.2 event

end SubscriptionManager

open SubscriptionManager in
theorem subscriptions_run (calls : List SubscriptionCall) :
    (run step new calls).Indexed ∧
      (∀ event, (run step new calls).Distributes event) ∧
      ∀ clientId later, (∀ subscription, .subscribe subscription ∈ later →
          subscription.clientId ≠ clientId) →
        ∀ event, ∀ e ∈ ((run step ((run step new calls).removeClientSubscriptions clientId).2
          later).distributeEvent event).2, e.channel ≠ clientChannel clientId :=
  have h := inv_run calls
  ⟨h.indexed, h.distributes, fun clientId _ hlater event => silent_run h clientId hlater event⟩

open SubscriptionManager in
/-- Two clients, one of them removed while the other subscribes again. -/
theorem subscriptions_run_two : (run step new
      [.subscribe ⟨"a", ["payment"], none, none, none⟩, .subscribe ⟨"b", [], none, none, some 7⟩,
        .unsubscribe "sub_9"]).Indexed ∧
    ∀ e ∈ ((run step ((run step new
      [.subscribe ⟨"a", ["payment"], none, none, none⟩, .subscribe ⟨"b", [], none, none, some 7⟩,
        .unsubscribe "sub_9"]).removeClientSubscriptions "a").2
          [.subscribe ⟨"b", [], none, none, none⟩]).distributeEvent ⟨7, "payment", "G", none, none⟩).2,
      e.channel ≠ clientChannel "a" :=
  have h := subscriptions_run [.subscribe ⟨"a", ["payment"], none, none, none⟩,
    .subscribe ⟨"b", [], none, none, some 7⟩, .unsubscribe "sub_9"]
  ⟨h.1, h.2.2 "a" [.subscribe ⟨"b", [], none, none, none⟩] (by simp) ⟨7, "payment", "G", none, none⟩⟩

end Indexer
end TradeCore
