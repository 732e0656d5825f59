import TradeCore.Common
import TradeCore.Indexer.Subscriptions

/-!
# TradeCore.Indexer.EventGateway

The WebSocket gateway over the `SubscriptionManager`: connections, the three messages a client may send
and the events that the indexer distributes, in any order.

* `Feeds` is what a client may think the gateway is: one list of open subscriptions. `gateway_refines`
  says that nothing any client is sent tells the two apart, although events pass through two maps and
  the listeners of an emitter.
* `event_acknowledged` is what a client can rely on about the events it gets.
* `unsubscribe_by_any` is what it cannot rely on: a subscription is its own to end.
-/

namespace TradeCore
namespace Indexer
namespace EventWebSocketGateway

open Lib SubscriptionManager

structure SubscribeData where
  eventTypes : Option (List String)
  contractIds : Option (List String)
  accounts : Option (List String)
  fromLedger : Option Rat
  deriving DecidableEq

structure SubscriptionInfo where
  id : String
  clientId : String
  eventTypes : List String
  contractIds : Option (List String)
  accounts : Option (List String)
  createdAt : Time
  deriving DecidableEq

/-- What a client is sent; the count of a status is the length of its list. -/
inductive Message where
  | connected (clientId message : String) (timestamp : Time)
  | subscribed (subscriptionId : String) (filters : SubscribeData) (message : String)
  | unsubscribed (subscriptionId : String) (success : Bool)
  | status (subscriptions : List SubscriptionInfo)
  | event (subscriptionId : String) (data : NormalizedEventPayload)
  deriving DecidableEq

/-- The handler of a connection, registered with the emitter. -/
structure Listener where
  channel : String
  socket : String
  deriving DecidableEq

/-- The sockets of the namespace, the manager with its listeners and everything sent so far. -/
structure EventGateway where
  sockets : List String
  manager : SubscriptionManager
  listeners : List Listener
  sent : List (String × Message)
  deriving DecidableEq

def EventGateway.new : EventGateway := ⟨[], .new, [], []⟩

def listenerOf (clientId : String) : Listener := ⟨clientChannel clientId, clientId⟩

def connectedMessage (clientId : String) (now : Time) : Message :=
  .connected clientId "Connected to blockchain event stream" now

def subscribedMessage (subscriptionId : String) (data : SubscribeData) : Message :=
  .subscribed subscriptionId data "Successfully subscribed to event stream"

def SubscribeData.request (clientId : String) (data : SubscribeData) : SubscriptionRequest where
  clientId := clientId
  eventTypes := data.eventTypes.getD []
  contractIds := data.contractIds
  accounts := data.accounts
  fromLedger := data.fromLedger

def infoOf (now : Time) (sub : EventSubscription) : SubscriptionInfo where
  id := sub.id
  clientId := sub.clientId
  eventTypes := sub.eventTypes
  contractIds := sub.contractIds
  accounts := sub.accounts
  createdAt := now

def listSubscriptions (m : SubscriptionManager) (now : Time) (clientId : String) :
    List SubscriptionInfo :=
  (m.subscriptions.filter fun sub => clientId = "" ∨ sub.clientId = clientId).map (infoOf now)

/-- `emit`: every listener of the channel is called, in the order in which they were registered. -/
def emit (listeners : List Listener) (e : Emission) : List (String × Message) :=
  (listeners.filter fun l => l.channel = e.channel).map fun l => (l.socket, .event e.subscriptionId e.event)

inductive SocketAct where
  | connect (clientId : String) (now : Time)
  | disconnect (clientId : String)
  | subscribe (clientId : String) (data : SubscribeData)
  | unsubscribe (clientId subscriptionId : String)
  | status (clientId : String) (now : Time)
  | distribute (event : NormalizedEventPayload)

def handleConnection (clientId : String) (now : Time) (g : EventGateway) : EventGateway :=
  { g with
    sockets := g.sockets ++ [clientId]
    listeners := g.listeners ++ [listenerOf clientId]
    sent := g.sent ++ [(clientId, connectedMessage clientId now)] }

def handleDisconnect (clientId : String) (g : EventGateway) : EventGateway :=
  { g with
    sockets := g.sockets.erase clientId
    listeners := g.listeners.erase (listenerOf clientId)
    manager := (g.manager.removeClientSubscriptions clientId).2 }

def handleSubscribe (clientId : String) (data : SubscribeData) (g : EventGateway) : EventGateway :=
  let (id, manager) := g.manager.subscribe (data.request clientId)
  { g with
    manager := manager
    sent := g.sent ++ [(clientId, subscribedMessage id data)] }

def handleUnsubscribe (clientId subscriptionId : String) (g : EventGateway) : EventGateway :=
  let (removed, manager) := g.manager.unsubscribe subscriptionId
  { g with
    manager := manager
    sent := g.sent ++ [(clientId, .unsubscribed subscriptionId removed)] }

def handleStatus (clientId : String) (now : Time) (g : EventGateway) : EventGateway :=
  { g with sent := g.sent ++ [(clientId, .status (listSubscriptions g.manager now clientId))] }

def distribute (event : NormalizedEventPayload) (g : EventGateway) : EventGateway :=
  { g with sent := g.sent ++ (g.manager.distributeEvent event).2.flatMap (emit g.listeners) }

def step (g : EventGateway) : SocketAct → EventGateway
  | .connect clientId now => handleConnection clientId now g
  | .disconnect clientId => handleDisconnect clientId g
  | .subscribe clientId data => handleSubscribe clientId data g
  | .unsubscribe clientId subscriptionId => handleUnsubscribe clientId subscriptionId g
  | .status clientId now => handleStatus clientId now g
  | .distribute event => distribute event g

/-- What the socket server sees to: a new socket has an id that no open one has, and messages come from
open sockets. -/
def Sockets (g : EventGateway) : SocketAct → Prop
  | .connect clientId _ => clientId ≠ "" ∧ clientId ∉ g.sockets
  | .disconnect clientId | .subscribe clientId _ | .unsubscribe clientId _ | .status clientId _ =>
    clientId ∈ g.sockets
  | .distribute _ => True

instance Sockets.decidable (g : EventGateway) : DecidablePred (Sockets g)
  | .connect clientId _ => inferInstanceAs (Decidable (clientId ≠ "" ∧ clientId ∉ g.sockets))
  | .disconnect clientId => inferInstanceAs (Decidable (clientId ∈ g.sockets))
  | .subscribe clientId _ => inferInstanceAs (Decidable (clientId ∈ g.sockets))
  | .unsubscribe clientId _ => inferInstanceAs (Decidable (clientId ∈ g.sockets))
  | .status clientId _ => inferInstanceAs (Decidable (clientId ∈ g.sockets))
  | .distribute _ => .isTrue trivial

/-! ## The feeds -/

/-- The open subscriptions and everything sent so far. -/
structure Feeds where
  subs : List EventSubscription
  nextId : Nat
  sent : List (String × Message)

def Feeds.new : Feeds := ⟨[], 1, []⟩

def Feeds.opened (f : Feeds) (clientId : String) (data : SubscribeData) : EventSubscription :=
  { data.request clientId with id := subscriptionId f.nextId }

def Feeds.step (f : Feeds) : SocketAct → Feeds
  | .connect clientId now => { f with sent := f.sent ++ [(clientId, connectedMessage clientId now)] }
  | .disconnect clientId => { f with subs := f.subs.filter fun sub => sub.clientId ≠ clientId }
  | .subscribe clientId data =>
    { subs := f.subs ++ [f.opened clientId data]
      nextId := f.nextId + 1
      sent := f.sent ++ [(clientId, subscribedMessage (subscriptionId f.nextId) data)] }
  | .unsubscribe clientId id =>
    { f with
      subs := f.subs.filter fun sub => sub.id ≠ id
      sent := f.sent ++ [(clientId, .unsubscribed id (decide (id ∈ f.subs.map EventSubscription.id)))] }
  | .status clientId now =>
    { f with sent := f.sent ++
        [(clientId, .status ((f.subs.filter fun sub => sub.clientId = clientId).map (infoOf now)))] }
  | .distribute event =>
    { f with sent := f.sent ++ (f.subs.filter (matchesSubscription event)).map fun sub =>
        (sub.clientId, .event sub.id event) }

/-! ## The gateway and the feeds -/

/-- The subscriptions are the open ones and every socket has one listener. -/
structure Refines (g : EventGateway) (f : Feeds) : Prop where
  inv : g.manager.Inv
  subs : g.manager.subscriptions = f.subs
  nextId : g.manager.nextId = f.nextId
  sent : g.sent = f.sent
  listeners : g.listeners = g.sockets.map listenerOf
  once : g.sockets.Nodup
  named : "" ∉ g.sockets
  owners : ∀ sub ∈ f.subs, sub.clientId ∈ g.sockets

theorem listenerOf_inj {c c' : String} (h : listenerOf c = listenerOf c') : c = c' :=
  congrArg Listener.socket h

theorem emit_listeners {sockets : List String} (honce : sockets.Nodup) {clientId : String}
    (hc : clientId ∈ sockets) (id : String) (event : NormalizedEventPayload) :
    emit (sockets.map listenerOf) ⟨clientChannel clientId, id, event⟩ = [(clientId, .event id event)] := by
  have hfilter : (sockets.filter fun c => clientChannel c = clientChannel clientId) = [clientId] := by
    have hiff : ∀ c, (clientChannel c = clientChannel clientId) ↔ c = clientId :=
      fun c => ⟨clientChannel_inj, fun h => h ▸ rfl⟩
    simp only [hiff]
    rw [List.filter_eq, List.count_eq_one_of_mem honce hc]
    rfl
  rw [emit, List.filter_map]
  change ((sockets.filter fun c => clientChannel c = clientChannel clientId).map listenerOf).map _ = _
  rw [hfilter]
  rfl

theorem distributeEvent_sent {sockets : List String} (honce : sockets.Nodup)
    {subs : List EventSubscription} (hsubs : ∀ sub ∈ subs, sub.clientId ∈ sockets)
    (event : NormalizedEventPayload) :
    (SubscriptionManager.distribute event subs).2.flatMap (emit (sockets.map listenerOf)) =
      (subs.filter (matchesSubscription event)).map fun sub => (sub.clientId, .event sub.id event) := by
  rw [distribute_eq, List.flatMap_map]
  have hone : ∀ sub ∈ subs.filter (matchesSubscription event),
      emit (sockets.map listenerOf) ⟨clientChannel sub.clientId, sub.id, event⟩ =
        [(sub.clientId, .event sub.id event)] :=
    fun sub hsub => emit_listeners honce (hsubs sub (List.mem_of_mem_filter hsub)) sub.id event
  rw [List.flatMap_congr hone]
  exact List.map_eq_flatMap.symm

section Step

variable {g : EventGateway} {f : Feeds}

theorem Refines.connect (h : Refines g f) {clientId : String} (now : Time) (hname : clientId ≠ "")
    (hnew : clientId ∉ g.sockets) :
    Refines (handleConnection clientId now g) (f.step (.connect clientId now)) where
  inv := h.inv
  subs := h.subs
  nextId := h.nextId
  sent := by simp only [handleConnection, Feeds.step, h.sent]
  listeners := by simp only [handleConnection, h.listeners, List.map_append, List.map_cons, List.map_nil]
  once := by
    refine List.nodup_append.mpr ⟨h.once, List.nodup_singleton _, fun c hc c' hc' heq => ?_⟩
    rw [List.mem_singleton.mp hc'] at heq
    exact hnew (heq ▸ hc)
  named hmem := by
    rcases List.mem_append.mp hmem with hmem | hmem
    · exact h.named hmem
    · exact hname (List.mem_singleton.mp hmem).symm
  owners sub hsub := List.mem_append_left _ (h.owners sub hsub)

theorem Refines.disconnect (h : Refines g f) (clientId : String) :
    Refines (handleDisconnect clientId g) (f.step (.disconnect clientId)) where
  inv := h.inv.removeClientSubscriptions clientId
  subs := by
    simp only [handleDisconnect, Feeds.step, ← h.subs]
    rcases h.inv.removeClientSubscriptions_eq clientId with ⟨hnone, he⟩ | he
    · rw [he]
      exact (List.filter_eq_self.mpr fun sub hsub => by simpa using hnone sub hsub).symm
    · rw [he]
  nextId := by
    simp only [handleDisconnect, Feeds.step, ← h.nextId]
    rcases h.inv.removeClientSubscriptions_eq clientId with ⟨-, he⟩ | he <;> rw [he]
  sent := h.sent
  listeners := by
    simp only [handleDisconnect, h.listeners]
    exact (List.map_erase (fun _ _ => listenerOf_inj) ..).symm
  once := h.once.erase clientId
  named hmem := h.named (List.mem_of_mem_erase hmem)
  owners sub hsub := by
    obtain ⟨hsub, hne⟩ := List.mem_filter.mp hsub
    exact (List.mem_erase_of_ne (by simpa using hne)).mpr (h.owners sub hsub)

theorem Refines.subscribe (h : Refines g f) {clientId : String} (hc : clientId ∈ g.sockets)
    (data : SubscribeData) :
    Refines (handleSubscribe clientId data g) (f.step (.subscribe clientId data)) where
  inv := h.inv.subscribe _
  subs := by
    simp only [handleSubscribe, SubscriptionManager.subscribe, Feeds.step, Feeds.opened, ← h.nextId]
    rw [← h.subs]
    exact upsert_of_not_mem h.inv.fresh
  nextId := congrArg (· + 1) h.nextId
  sent := by simp only [handleSubscribe, SubscriptionManager.subscribe, Feeds.step, h.nextId, h.sent]
  listeners := h.listeners
  once := h.once
  named := h.named
  owners sub hsub := by
    rcases List.mem_append.mp hsub with hsub | hsub
    · exact h.owners sub hsub
    · rw [List.mem_singleton.mp hsub]
      exact hc

theorem unsubscribe_eq (m : SubscriptionManager) (id : String) :
    (m.unsubscribe id).1 = decide (id ∈ m.subscriptions.map EventSubscription.id) ∧
      (m.unsubscribe id).2.subscriptions = m.subscriptions.filter (fun sub => sub.id ≠ id) ∧
      (m.unsubscribe id).2.nextId = m.nextId := by
  simp only [SubscriptionManager.unsubscribe]
  split
  · rename_i hnone
    have hne : ∀ sub ∈ m.subscriptions, sub.id ≠ id := by simpa [lookup] using hnone
    refine ⟨?_, (List.filter_eq_self.mpr fun sub hsub => by simpa using hne sub hsub).symm, rfl⟩
    simpa using hne
  · rename_i sub hsub
    have hin : id ∈ m.subscriptions.map EventSubscription.id :=
      lookup_key hsub ▸ List.mem_map_of_mem (mem_of_lookup hsub)
    exact ⟨by simp [hin], rfl, rfl⟩

theorem Refines.unsubscribe (h : Refines g f) (clientId id : String) :
    Refines (handleUnsubscribe clientId id g) (f.step (.unsubscribe clientId id)) where
  inv := h.inv.unsubscribe id
  subs := by
    simp only [handleUnsubscribe, Feeds.step, ← h.subs]
    exact (unsubscribe_eq g.manager id).2.1
  nextId := (unsubscribe_eq g.manager id).2.2.trans h.nextId
  sent := by
    simp only [handleUnsubscribe, Feeds.step, h.sent, ← h.subs, (unsubscribe_eq g.manager id).1]
  listeners := h.listeners
  once := h.once
  named := h.named
  owners sub hsub := h.owners sub (List.mem_of_mem_filter hsub)

theorem Refines.step (h : Refines g f) {a : SocketAct} (ha : Sockets g a) :
    Refines (step g a) (f.step a) := by
  cases a with
  | connect clientId now => exact h.connect now ha.1 ha.2
  | disconnect clientId => exact h.disconnect clientId
  | subscribe clientId data => exact h.subscribe ha data
  | unsubscribe clientId id => exact h.unsubscribe clientId id
  | status clientId now =>
    have hname : clientId ≠ "" := fun he => h.named (he ▸ ha)
    refine ⟨h.inv, h.subs, h.nextId, ?_, h.listeners, h.once, h.named, h.owners⟩
    simp only [EventWebSocketGateway.step, handleStatus, listSubscriptions, Feeds.step, h.sent, h.subs, hname,
      false_or]
  | distribute event =>
    refine ⟨h.inv, h.subs, h.nextId, ?_, h.listeners, h.once, h.named, h.owners⟩
    simp only [EventWebSocketGateway.step, distribute, distributeEvent, Feeds.step, h.sent, h.subs, h.listeners]
    rw [distributeEvent_sent h.once h.owners event]

end Step

theorem refines_new : Refines .new .new where
  inv := new_inv
  subs := rfl
  nextId := rfl
  sent := rfl
  listeners := rfl
  once := List.nodup_nil
  named h := by cases h
  owners _ h := by cases h

theorem Refines.run {g : EventGateway} {f : Feeds} (h : Refines g f) {acts : List SocketAct}
    (hacts : Along EventWebSocketGateway.step Sockets g acts) :
    Refines (Lib.run EventWebSocketGateway.step g acts) (Lib.run Feeds.step f acts) := by
  induction acts generalizing g f with
  | nil => exact h
  | cons a acts ih => exact ih (h.step hacts.1) hacts.2

/-- Whatever clients connect, ask and leave in whatever order, every message that goes out, and to whom
and in which order, is that of the feeds. -/
theorem gateway_refines {acts : List SocketAct} (h : Along step Sockets .new acts) :
    (run step .new acts).sent = (run Feeds.step .new acts).sent :=
  (refines_new.run h).sent

/-! ## What an event is worth -/

/-- Client `c` was told of subscription `id`, the event matches what it asked for, and nobody was told
since that the subscription has ended. -/
def Acknowledged (sent : List (String × Message)) (c id : String) (event : NormalizedEventPayload) :
    Prop :=
  ∃ pre post data, sent = pre ++ (c, subscribedMessage id data) :: post ∧
    Matches event { data.request c with id := id } ∧ ∀ c', (c', .unsubscribed id true) ∉ post

/-- A subscription that its client was told of and nobody was told the end of. -/
def Open (sent : List (String × Message)) (sub : EventSubscription) : Prop :=
  ∃ pre post data, sent = pre ++ (sub.clientId, subscribedMessage sub.id data) :: post ∧
    sub = { data.request sub.clientId with id := sub.id } ∧ ∀ c, (c, .unsubscribed sub.id true) ∉ post

section Sent

variable {sent ms : List (String × Message)} {sub : EventSubscription}

theorem Open.append (h : Open sent sub) (hms : ∀ c, (c, .unsubscribed sub.id true) ∉ ms) :
    Open (sent ++ ms) sub := by
  obtain ⟨pre, post, data, rfl, hsub, hpost⟩ := h
  refine ⟨pre, post ++ ms, data, by simp, hsub, fun c hc => ?_⟩
  rcases List.mem_append.mp hc with hc | hc
  · exact hpost c hc
  · exact hms c hc

theorem Open.acknowledged (h : Open sent sub) {event : NormalizedEventPayload} (hm : Matches event sub) :
    Acknowledged sent sub.clientId sub.id event := by
  obtain ⟨pre, post, data, hsent, hsub, hpost⟩ := h
  exact ⟨pre, post, data, hsent, hsub ▸ hm, hpost⟩

/-- Every event that was sent was acknowledged before. -/
def Backed (sent : List (String × Message)) : Prop :=
  ∀ pre post c id event, sent = pre ++ (c, .event id event) :: post → Acknowledged pre c id event

theorem Backed.append (h : Backed sent)
    (hms : ∀ pre post c id event, ms = pre ++ (c, .event id event) :: post →
      Acknowledged (sent ++ pre) c id event) : Backed (sent ++ ms) := by
  intro pre post c id event heq
  rcases List.append_eq_append_iff.mp heq with ⟨pre', rfl, hms'⟩ | ⟨rest, hsent, hrest⟩
  · exact hms pre' post c id event hms'
  · cases rest with
    | nil =>
      rw [List.append_nil] at hsent
      have := hms [] post c id event hrest.symm
      rwa [List.append_nil, hsent] at this
    | cons x rest =>
      obtain ⟨rfl, -⟩ := List.cons.inj hrest
      exact h pre rest c id event hsent

/-- A message that is no event needs nothing. -/
theorem Backed.append_one (h : Backed sent) {c : String} {m : Message}
    (hm : ∀ id event, m ≠ .event id event) : Backed (sent ++ [(c, m)]) := by
  refine h.append fun pre post c' id event heq => ?_
  have hmem : (c', .event id event) ∈ [(c, m)] := heq ▸ List.mem_append_right _ List.mem_cons_self
  have := List.mem_singleton.mp hmem
  exact absurd (congrArg Prod.snd this).symm (hm id event)

end Sent

/-- What every step keeps of the feeds. -/
structure Kept (f : Feeds) : Prop where
  subs : ∀ sub ∈ f.subs, Open f.sent sub
  backed : Backed f.sent

theorem Kept.step {f : Feeds} (h : Kept f) (a : SocketAct) : Kept (f.step a) := by
  cases a with
  | connect clientId now =>
    refine ⟨fun sub hsub => (h.subs sub hsub).append fun c hc => ?_, h.backed.append_one ?_⟩
    · simp [connectedMessage] at hc
    · exact fun id event he => by cases he
  | disconnect clientId => exact ⟨fun sub hsub => h.subs sub (List.mem_of_mem_filter hsub), h.backed⟩
  | subscribe clientId data =>
    refine ⟨fun sub hsub => ?_, h.backed.append_one fun id event he => by cases he⟩
    rcases List.mem_append.mp hsub with hsub | hsub
    · exact (h.subs sub hsub).append fun c hc => by simp [subscribedMessage] at hc
    · rw [List.mem_singleton.mp hsub]
      exact ⟨f.sent, [], data, rfl, rfl, fun c hc => by cases hc⟩
  | unsubscribe clientId id =>
    refine ⟨fun sub hsub => ?_, h.backed.append_one fun id event he => by cases he⟩
    obtain ⟨hsub, hne⟩ := List.mem_filter.mp hsub
    refine (h.subs sub hsub).append fun c hc => ?_
    have := List.mem_singleton.mp hc
    simp only [Prod.mk.injEq, Message.unsubscribed.injEq] at this
    exact absurd this.2.1 (by simpa using hne)
  | status clientId now =>
    refine ⟨fun sub hsub => (h.subs sub hsub).append fun c hc => ?_, h.backed.append_one ?_⟩
    · simp at hc
    · exact fun id event he => by cases he
  | distribute event =>
    have hevents : ∀ c m, (c, m) ∈ (f.subs.filter (matchesSubscription event)).map (fun sub =>
        (sub.clientId, Message.event sub.id event)) → ∃ sub ∈ f.subs, Matches event sub ∧
          c = sub.clientId ∧ m = .event sub.id event := by
      intro c m hmem
      obtain ⟨sub, hsub, heq⟩ := List.mem_map.mp hmem
      obtain ⟨hsub, hmatch⟩ := List.mem_filter.mp hsub
      cases heq
      exact ⟨sub, hsub, matchesSubscription_iff.mp hmatch, rfl, rfl⟩
    have hquiet : ∀ id c, (c, Message.unsubscribed id true) ∉
        (f.subs.filter (matchesSubscription event)).map fun sub =>
          (sub.clientId, Message.event sub.id event) := by
      intro id c hmem
      obtain ⟨sub, -, -, -, he⟩ := hevents _ _ hmem
      cases he
    refine ⟨fun sub hsub => (h.subs sub hsub).append (hquiet sub.id), h.backed.append ?_⟩
    intro pre post c id event' heq
    obtain ⟨sub, hsub, hmatch, rfl, he⟩ := hevents c (.event id event')
      (heq ▸ List.mem_append_right _ List.mem_cons_self)
    cases he
    -- the messages of this distribution that come before end no subscription
    refine ((h.subs sub hsub).append fun c hc => ?_).acknowledged hmatch
    exact hquiet sub.id c (heq ▸ List.mem_append_left _ hc)

theorem kept_new : Kept .new where
  subs _ h := by cases h
  backed pre _ _ _ _ h := by cases pre <;> cases h

theorem kept_run (acts : List SocketAct) : Kept (run Feeds.step .new acts) :=
  run_inv (fun _ a h _ => h.step a) kept_new along_true

/-- An event that a client gets belongs to a subscription of its own that it was told of, matches what
it asked for there, and comes before anybody is told that the subscription has ended. -/
theorem event_acknowledged {acts : List SocketAct} (h : Along step Sockets .new acts) :
    Backed (run step .new acts).sent := by
  rw [(refines_new.run h).sent]
  exact (kept_run acts).backed

/-! ## Whose subscription it is to end -/

/-- Nobody is sent an event of the subscription, or told that it has ended. -/
structure Silent (id : String) (ms : List (String × Message)) : Prop where
  events : ∀ c event, (c, .event id event) ∉ ms
  ends : ∀ c, (c, .unsubscribed id true) ∉ ms

theorem Silent.nil (id : String) : Silent id [] := ⟨by simp, by simp⟩

theorem Silent.append {id : String} {ms ms' : List (String × Message)} (h : Silent id ms)
    (h' : Silent id ms') : Silent id (ms ++ ms') where
  events c event hc := (List.mem_append.mp hc).elim (h.events c event) (h'.events c event)
  ends c hc := (List.mem_append.mp hc).elim (h.ends c) (h'.ends c)

/-- The subscription has been and is no more. -/
structure Ended (id : String) (f : Feeds) : Prop where
  gone : ∀ sub ∈ f.subs, sub.id ≠ id
  past : ∃ n < f.nextId, id = subscriptionId n

theorem Ended.step {id : String} {f : Feeds} (h : Ended id f) (a : SocketAct) :
    Ended id (f.step a) ∧ ∃ ms, (f.step a).sent = f.sent ++ ms ∧ Silent id ms := by
  obtain ⟨n, hn, hid⟩ := h.past
  cases a with
  | connect clientId now =>
    exact ⟨⟨h.gone, h.past⟩, _, rfl, by simp [connectedMessage], by simp [connectedMessage]⟩
  | disconnect clientId =>
    refine ⟨⟨fun sub hsub => h.gone sub (List.mem_of_mem_filter hsub), h.past⟩, [], ?_, .nil id⟩
    exact (List.append_nil _).symm
  | subscribe clientId data =>
    refine ⟨⟨fun sub hsub => ?_, n, Nat.lt_succ_of_lt hn, hid⟩, _, rfl, by simp [subscribedMessage],
      by simp [subscribedMessage]⟩
    rcases List.mem_append.mp hsub with hsub | hsub
    · exact h.gone sub hsub
    · rw [List.mem_singleton.mp hsub, hid]
      intro he
      have := subscriptionId_inj he
      omega
  | unsubscribe clientId id' =>
    refine ⟨⟨fun sub hsub => h.gone sub (List.mem_of_mem_filter hsub), h.past⟩, _, rfl, by simp,
      fun c hc => ?_⟩
    -- whoever is told that a subscription has ended named an open one
    simp only [List.mem_singleton, Prod.mk.injEq, Message.unsubscribed.injEq] at hc
    obtain ⟨-, rfl, hopen⟩ := hc
    obtain ⟨sub, hsub, he⟩ := List.mem_map.mp (of_decide_eq_true hopen.symm)
    exact h.gone sub hsub he
  | status clientId now => exact ⟨⟨h.gone, h.past⟩, _, rfl, by simp, by simp⟩
  | distribute event =>
    refine ⟨⟨h.gone, h.past⟩, _, rfl, fun c event' hc => ?_, by simp⟩
    obtain ⟨sub, hsub, heq⟩ := List.mem_map.mp hc
    simp only [Prod.mk.injEq, Message.event.injEq] at heq
    exact h.gone sub (List.mem_of_mem_filter hsub) heq.2.1

theorem Ended.run {id : String} {f : Feeds} (h : Ended id f) (acts : List SocketAct) :
    ∃ ms, (Lib.run Feeds.step f acts).sent = f.sent ++ ms ∧ Silent id ms := by
  induction acts generalizing f with
  | nil => exact ⟨[], (List.append_nil _).symm, .nil id⟩
  | cons a acts ih =>
    obtain ⟨hended, ms, hms, hsilent⟩ := h.step a
    obtain ⟨ms', hms', hsilent'⟩ := ih hended
    refine ⟨ms ++ ms', ?_, hsilent.append hsilent'⟩
    rw [Lib.run, hms', hms, List.append_assoc]

/-- A client ends the subscription of another one by its id, which is a count: the step tells it so and
sends nothing else, and from then on nobody gets an event of it or hears that it has ended. -/
theorem unsubscribe_by_any {acts later : List SocketAct} (h : Along step Sockets .new acts)
    {sub : EventSubscription} (hsub : sub ∈ (run step .new acts).manager.subscriptions)
    {clientId : String}
    (hlater : Along step Sockets (run step .new acts) (.unsubscribe clientId sub.id :: later)) :
    (step (run step .new acts) (.unsubscribe clientId sub.id)).sent =
        (run step .new acts).sent ++ [(clientId, .unsubscribed sub.id true)] ∧
      ∃ ms, (run step .new (acts ++ .unsubscribe clientId sub.id :: later)).sent =
          (run step .new acts).sent ++ (clientId, .unsubscribed sub.id true) :: ms ∧
        Silent sub.id ms := by
  have hrefines := refines_new.run h
  have hall := hrefines.run hlater
  have hopen : sub ∈ (run Feeds.step .new acts).subs := hrefines.subs ▸ hsub
  have hin : sub.id ∈ (run Feeds.step .new acts).subs.map EventSubscription.id :=
    List.mem_map_of_mem hopen
  have hended : Ended sub.id ((run Feeds.step .new acts).step (.unsubscribe clientId sub.id)) := by
    refine ⟨fun s hs => by simpa using List.of_mem_filter hs, ?_⟩
    obtain ⟨n, hn, hid⟩ := hrefines.inv.ids sub hsub
    exact ⟨n, hrefines.nextId ▸ hn, hid⟩
  constructor
  · rw [(hrefines.step hlater.1).sent, hrefines.sent]
    simp [Feeds.step, hin]
  · obtain ⟨ms, hms, hsilent⟩ := hended.run later
    refine ⟨ms, ?_, hsilent⟩
    rw [run_append, hall.sent, hrefines.sent, run, hms]
    simp [Feeds.step, hin]

/-! ## Two clients -/

def payments : SubscribeData := ⟨some ["payment"], none, none, none⟩

def payment : NormalizedEventPayload := ⟨7, "payment", "G", none, none⟩

def twoClients : List SocketAct :=
  [.connect "a" 0, .connect "b" 1, .subscribe "a" payments, .subscribe "b" payments, .distribute payment,
    .disconnect "b", .distribute payment]

theorem gateway_refines_two :
    (run step .new twoClients).sent = (run Feeds.step .new twoClients).sent ∧
      (run step .new twoClients).sent.drop 4 =
        [("a", .event "sub_1" payment), ("b", .event "sub_2" payment), ("a", .event "sub_1" payment)] :=
  ⟨gateway_refines (by decide +kernel), by decide +kernel⟩

theorem event_acknowledged_two :
    Acknowledged ((run step .new twoClients).sent.take 6) "a" "sub_1" payment :=
  have h : Along step Sockets .new twoClients := by decide +kernel
  event_acknowledged h _ [] "a" "sub_1" payment (by decide +kernel)

/-- `b` guesses the id that `a` was told. -/
theorem unsubscribe_by_any_two :
    (step (run step .new (twoClients.take 3)) (.unsubscribe "b" "sub_1")).sent =
        (run step .new (twoClients.take 3)).sent ++ [("b", .unsubscribed "sub_1" true)] ∧
      ∃ ms, (run step .new (twoClients.take 3 ++
          .unsubscribe "b" "sub_1" :: [.distribute payment, .subscribe "a" payments])).sent =
        (run step .new (twoClients.take 3)).sent ++ ("b", .unsubscribed "sub_1" true) :: ms ∧
          Silent "sub_1" ms :=
  have h : Along step Sockets .new (twoClients.take 3) := by decide +kernel
  have hsub : { payments.request "a" with id := "sub_1" } ∈
      (run step .new (twoClients.take 3)).manager.subscriptions := by decide +kernel
  unsubscribe_by_any h hsub (by decide +kernel)

end EventWebSocketGateway
end Indexer
end TradeCore
