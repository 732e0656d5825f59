import Mathlib.Data.List.Sort
import TradeCore.Soroban.EventPolling

/-!
# TradeCore.Soroban.EventIndex

What the poll loop leaves in Redis, and what `getEvents` reads there. `indexEvent` stores an event
under its id, puts the id into the sorted set of the contract and renews the lifetime of the set,
with three commands. A replay that finds the event stored leaves out the other two.

* `listed_run`: in a run that keeps the events together (`EventPolling`) and in which each stored
  event also gets into the set and the set outlives it, every event below the next start ledger is
  in the set once, with its ledger as score, until its retention ends; and `getEvents` returns it.
* `stored_not_listed`: an event whose ZADD fails is stored, and the replay skips it.
-/

namespace TradeCore
namespace Soroban

open Lib

namespace EventStore

/-- The members of the sorted set as a command finds them. -/
def members (s : EventStore) : List (String × Int) := (s.index.at .empty s.now).entries

/-- The order of ZREVRANGEBYSCORE. -/
def newestFirst (a b : String × Int) : Bool := b.2 < a.2 ∨ b.2 = a.2 ∧ b.1 ≤ a.1

/-- The members from the score `min` on. -/
def from? (s : EventStore) (min : Option Nat) : List (String × Int) :=
  s.members.filter fun m => min.all fun ledger => decide ((ledger : Int) ≤ m.2)

def zrevrangebyscore (s : EventStore) (min : Option Nat) (limit : Nat) : List String :=
  (((s.from? min).mergeSort newestFirst).take limit).map Prod.fst

def mget (s : EventStore) (ids : List String) : List (Option StoredEvent) :=
  ids.map fun id => (s.key? id).filter fun k => s.now < k.expiresAt

def getEvents (s : EventStore) (fromLedger limit : Option Nat) : List ContractEvent :=
  let ids := s.zrevrangebyscore fromLedger (limit.getD 100)
  (s.mget ids).filterMap fun k => k.map (·.event)

/-- The set, as a command finds it, lives as long as the key of the event. -/
def Outlives (s : EventStore) (id : String) : Prop :=
  ∀ k ∈ s.key? id, ∀ t ∈ (s.index.live .empty s.now).expiresAt, k.expiresAt ≤ t

instance (s : EventStore) (id : String) : Decidable (s.Outlives id) :=
  inferInstanceAs (Decidable (∀ k ∈ s.key? id, ∀ t ∈ (s.index.live .empty s.now).expiresAt,
    k.expiresAt ≤ t))

/-- The event of a key is in the set, with its ledger, for as long as the key lives. -/
def Lists (s : EventStore) (k : StoredEvent) : Prop :=
  (k.event.id, (k.event.ledger : Int)) ∈ s.index.value.entries ∧
    ∀ t, s.index.expiresAt = some t → k.expiresAt ≤ t

/-- What is asked of a command of `indexEvent`: a SET that stores the event is acknowledged, and
ZADD and EXPIRE take effect, unless the set outlives the event as it is. -/
def Completes (s : EventStore) (outcome : Outcome) : Phase → Prop
  | .setting _ _ (e :: _) => outcome = .unacknowledged → s.Stored e.id
  | .adding _ _ e _ => outcome = .acknowledged ∨ outcome = .unacknowledged ∧ s.Outlives e.id
  | .expiring _ _ e _ =>
    (e.id, (e.ledger : Int)) ∈ s.members ∧ (outcome = .failed → s.Outlives e.id)
  | _ => True

instance (s : EventStore) (outcome : Outcome) : ∀ phase, Decidable (s.Completes outcome phase)
  | .idle | .latest | .fetching _ | .setting _ _ [] => inferInstanceAs (Decidable True)
  | .setting _ _ (e :: _) =>
    inferInstanceAs (Decidable (outcome = .unacknowledged → s.Stored e.id))
  | .adding _ _ e _ => inferInstanceAs (Decidable
      (outcome = .acknowledged ∨ outcome = .unacknowledged ∧ s.Outlives e.id))
  | .expiring _ _ e _ => inferInstanceAs (Decidable
      ((e.id, (e.ledger : Int)) ∈ s.members ∧ (outcome = .failed → s.Outlives e.id)))

/-! ## The commands -/

section Commands

variable {s : EventStore} {cfg : IndexerConfig} {e : ContractEvent} {k : StoredEvent} {id : String}

theorem id_of_key? (h : s.key? id = some k) : k.event.id = id := by
  simpa using List.find?_some h

theorem key?_set (id : String) :
    (s.set cfg e).key? id = if e.id = id then some ⟨e, s.now + cfg.retentionMs⟩ else s.key? id :=
  lookup_upsert _ id s.events

theorem live_of_lists (h : s.Lists k) (hlive : s.now < k.expiresAt) :
    s.index.live .empty s.now = s.index := by
  unfold Expiring.live
  split
  · rfl
  · rename_i t ht
    have := h.2 t ht
    rw [if_neg (by omega)]

theorem mem_members_of_lists (h : s.Lists k) (hlive : s.now < k.expiresAt) :
    (k.event.id, (k.event.ledger : Int)) ∈ s.members := by
  rw [members, ← Expiring.live_value, live_of_lists h hlive]
  exact h.1

/-- ZADD of another event. -/
theorem Lists.zadd (h : s.Lists k) (hlive : s.now < k.expiresAt) (hne : k.event.id ≠ e.id) :
    (s.zadd e).Lists k := by
  simp only [Lists, EventStore.zadd, live_of_lists h hlive]
  exact ⟨mem_upsert_of_ne h.1 hne, h.2⟩

theorem lists_zadd (hout : s.Outlives id) (hk : s.key? id = some k) (he : k.event = e) :
    (s.zadd e).Lists k := by
  subst he
  exact ⟨mem_upsert_self _ _, fun t ht => hout k hk t ht⟩

theorem lists_expire (hmem : (k.event.id, (k.event.ledger : Int)) ∈ s.members)
    (hfresh : k.expiresAt ≤ s.now + cfg.retentionMs) : (s.expire cfg).Lists k := by
  rw [members, ← Expiring.live_value] at hmem
  rw [EventStore.expire, if_neg (List.ne_nil_of_mem hmem)]
  refine ⟨hmem, fun t ht => ?_⟩
  cases ht
  exact hfresh

theorem lists_of_outlives (hmem : (k.event.id, (k.event.ledger : Int)) ∈ s.members)
    (hout : s.Outlives id) (hk : s.key? id = some k) : s.Lists k := by
  have hlive : s.index.live .empty s.now = s.index := by
    unfold Expiring.live
    split
    · rfl
    · rename_i t ht
      by_cases hle : t ≤ s.now
      · rw [members, Expiring.at, ht] at hmem
        simp [hle, ScoredSet.empty] at hmem
      · rw [if_neg hle]
  rw [members, ← Expiring.live_value, hlive] at hmem
  rw [Outlives, hlive] at hout
  exact ⟨hmem, fun t ht => hout k hk t ht⟩

@[simp] theorem events_zadd : (s.zadd e).events = s.events := rfl

@[simp] theorem now_zadd : (s.zadd e).now = s.now := rfl

@[simp] theorem events_expire : (s.expire cfg).events = s.events := by
  rw [EventStore.expire]
  split <;> rfl

@[simp] theorem now_expire : (s.expire cfg).now = s.now := by
  rw [EventStore.expire]
  split <;> rfl

theorem mem_zadd {m : String × Int} (hm : m ∈ (s.zadd e).index.value.entries) :
    m = (e.id, (e.ledger : Int)) ∨ m ∈ s.index.value.entries := by
  refine (mem_upsert hm).imp id fun hm => ?_
  rw [Expiring.live_value] at hm
  exact Expiring.mem_of_mem_at hm

theorem mem_expire {m : String × Int} (hm : m ∈ (s.expire cfg).index.value.entries) :
    m ∈ s.index.value.entries := by
  rw [EventStore.expire] at hm
  split at hm
  · exact hm
  · rw [Expiring.live_value] at hm
    exact Expiring.mem_of_mem_at hm

end Commands

end EventStore

namespace EventIndexer

def Event.outcome? : Event → Option Outcome
  | .command outcome => some outcome
  | _ => none

/-- What is asked of a step: no gap, and no event that is stored and not listed. -/
def Kept (s : EventStream) (cfg : IndexerConfig) (x : EventIndexer) (e : Event) : Prop :=
  Gapless s cfg x e ∧ ∀ outcome ∈ e.outcome?, x.store.Completes outcome x.phase

instance (s : EventStream) (cfg : IndexerConfig) (x : EventIndexer) (e : Event) :
    Decidable (Kept s cfg x e) :=
  inferInstanceAs (Decidable ((e = .turn → ∀ t ∈ x.stopping,
    t.1.startLedger ≤ x.nextStartLedger.getD t.1.startLedger ∧
      (s.between t.1.currentStart t.1.advanceTo).length ≤ cfg.pageLimit) ∧
    ∀ outcome ∈ e.outcome?, x.store.Completes outcome x.phase))

/-- An event is in the sorted set once, with its ledger as score, and `getEvents` returns it when the
limit allows. -/
def Listed (x : EventIndexer) (e : ContractEvent) : Prop :=
  (e.id, (e.ledger : Int)) ∈ x.store.members ∧
  (x.store.members.countP fun m => m.1 = e.id) = 1 ∧
  ∀ fromLedger limit : Option Nat, (∀ f ∈ fromLedger, f ≤ e.ledger) →
    (x.store.from? fromLedger).length ≤ limit.getD 100 → e ∈ x.store.getEvents fromLedger limit

/-! ## The invariant of the store -/

/-- `pending` is the event between its SET and its EXPIRE, if there is one. -/
structure StoreOk (s : EventStream) (cfg : IndexerConfig) (store : EventStore)
    (indexed pending : List ContractEvent) : Prop where
  keyed : ∀ k ∈ store.events, k.event.id ∈ s.ids k.event.ledger
  fresh : ∀ k ∈ store.events, k.expiresAt ≤ store.now + cfg.retentionMs
  scored : ∀ m ∈ store.index.value.entries, ∃ n : Nat, m.2 = n ∧ m.1 ∈ s.ids n
  listed : ∀ id k, store.key? id = some k → store.now < k.expiresAt → k.event ∉ pending → store.Lists k
  stored : ∀ e, e ∈ indexed ∨ e ∈ pending → e.id ∈ s.ids e.ledger ∧ (store.key? e.id).isSome

section Store

variable {s : EventStream} {cfg : IndexerConfig} {store : EventStore} {e : ContractEvent}
  {indexed : List ContractEvent} {id : String} {k : StoredEvent}

theorem StoreOk.init (s : EventStream) (cfg : IndexerConfig) :
    StoreOk s cfg ⟨0, [], .holds .empty⟩ [] [] :=
  ⟨nofun, nofun, nofun, nofun, fun _ h => h.elim nofun nofun⟩

theorem StoreOk.event_eq {pending : List ContractEvent} (h : StoreOk s cfg store indexed pending)
    (he : e.id ∈ s.ids e.ledger) (hk : store.key? e.id = some k) : k.event = e := by
  have hid : k.event.id = e.id := EventStore.id_of_key? hk
  have hin := h.keyed k (mem_of_lookup hk)
  rw [hid] at hin
  have hledger := s.unique hin he
  obtain ⟨⟨_, _⟩, _⟩ := k
  cases hid
  cases hledger
  rfl

theorem StoreOk.id_ne {pending : List ContractEvent} (h : StoreOk s cfg store indexed pending)
    (he : e.id ∈ s.ids e.ledger) (hk : store.key? id = some k) (hne : k.event ≠ e) :
    k.event.id ≠ e.id := by
  intro hid
  have hid' := EventStore.id_of_key? hk
  refine hne (h.event_eq he ?_)
  rw [← hid, hid']
  exact hk

theorem StoreOk.pass {pending : List ContractEvent} (h : StoreOk s cfg store indexed pending) (ms : Nat) :
    StoreOk s cfg { store with now := store.now + ms } indexed pending := by
  refine ⟨h.keyed, fun k hk => ?_, h.scored, fun id k hk hlive hne => ?_, h.stored⟩
  · have := h.fresh k hk
    show k.expiresAt ≤ store.now + ms + cfg.retentionMs
    omega
  · have hbefore : store.now < k.expiresAt := by
      change store.now + ms < k.expiresAt at hlive
      omega
    exact h.listed id k hk hbefore hne

theorem StoreOk.set (h : StoreOk s cfg store indexed []) (he : e.id ∈ s.ids e.ledger) :
    StoreOk s cfg (store.set cfg e) indexed [e] := by
  refine ⟨fun k hk => ?_, fun k hk => ?_, h.scored, fun id k hk hlive hne => ?_, fun e' he' => ?_⟩
  · rcases mem_upsert hk with rfl | hk
    · exact he
    · exact h.keyed k hk
  · rcases mem_upsert hk with rfl | hk
    · exact Int.le_refl _
    · exact h.fresh k hk
  · rw [EventStore.key?_set] at hk
    split at hk
    · cases hk
      exact absurd (List.mem_singleton_self e) hne
    · exact h.listed id k hk hlive nofun
  · rw [EventStore.key?_set]
    rcases he' with he' | he'
    · refine ⟨(h.stored e' (.inl he')).1, ?_⟩
      split
      · rfl
      · exact (h.stored e' (.inl he')).2
    · rw [List.mem_singleton.mp he', if_pos rfl]
      exact ⟨he, rfl⟩

/-- ZADD of the pending event. -/
theorem StoreOk.zadd (h : StoreOk s cfg store indexed [e]) :
    StoreOk s cfg (store.zadd e) indexed [e] := by
  have he := (h.stored e (.inr (List.mem_singleton_self e))).1
  refine ⟨h.keyed, h.fresh, fun m hm => ?_, fun id k hk hlive hne => ?_, h.stored⟩
  · rcases EventStore.mem_zadd hm with rfl | hm
    · exact ⟨e.ledger, rfl, he⟩
    · exact h.scored m hm
  · have hne' : k.event ≠ e := fun heq => hne (List.mem_singleton.mpr heq)
    exact (h.listed id k hk hlive hne).zadd hlive (h.id_ne he hk hne')

/-- EXPIRE behind it, which the set has lived to see. -/
theorem StoreOk.expire (h : StoreOk s cfg store indexed [e])
    (hmem : (e.id, (e.ledger : Int)) ∈ store.members) :
    StoreOk s cfg (store.expire cfg) indexed [] := by
  refine ⟨?_, ?_, fun m hm => h.scored m (EventStore.mem_expire hm), ?_, fun e' he' => ?_⟩
  · rw [EventStore.events_expire]
    exact h.keyed
  · rw [EventStore.events_expire, EventStore.now_expire]
    exact h.fresh
  · intro id k hk hlive _
    rw [EventStore.now_expire] at hlive
    rw [EventStore.key?, EventStore.events_expire] at hk
    have hfresh := h.fresh k (mem_of_lookup hk)
    by_cases heq : k.event = e
    · subst heq
      exact EventStore.lists_expire hmem hfresh
    · have hlists := h.listed id k hk hlive fun hin => heq (List.mem_singleton.mp hin)
      exact EventStore.lists_expire (EventStore.mem_members_of_lists hlists hlive) hfresh
  · rw [EventStore.key?, EventStore.events_expire]
    exact h.stored e' (he'.imp id nofun)

/-- The pending event is through, when it is in a set that outlives it. -/
theorem StoreOk.settle (h : StoreOk s cfg store indexed [e])
    (hlists : ∀ k, store.key? e.id = some k → k.event = e → store.Lists k) :
    StoreOk s cfg store indexed [] := by
  refine ⟨h.keyed, h.fresh, h.scored, fun id k hk hlive _ => ?_,
    fun e' he' => h.stored e' (he'.imp id nofun)⟩
  by_cases heq : k.event = e
  · have hid := EventStore.id_of_key? hk
    refine hlists k ?_ heq
    rw [← heq, hid]
    exact hk
  · exact h.listed id k hk hlive fun hin => heq (List.mem_singleton.mp hin)

theorem StoreOk.returned (h : StoreOk s cfg store indexed []) (he : e.id ∈ s.ids e.ledger)
    (hkey : (store.key? e.id).isSome) : StoreOk s cfg store (indexed ++ [e]) [] := by
  refine ⟨h.keyed, h.fresh, h.scored, h.listed, fun e' he' => ?_⟩
  rcases he' with he' | he'
  · rcases List.mem_append.mp he' with he' | he'
    · exact h.stored e' (.inl he')
    · rw [List.mem_singleton.mp he']
      exact ⟨he, hkey⟩
  · cases he'

end Store

section Step

variable {s : EventStream} {cfg : IndexerConfig} {x : EventIndexer} {e : ContractEvent}

/-- What a poll still has to index lies behind its own start, and is of the stream. -/
theorem OnPage.head {p : Poll} {full : Bool} {latest : Nat} {indexed left : List ContractEvent}
    (h : OnPage s cfg latest indexed p full (e :: left)) :
    p.startLedger ≤ e.ledger ∧ e.id ∈ s.ids e.ledger := by
  obtain ⟨hr, -, done, hp⟩ := h
  have hin : e ∈ getEvents s cfg p.latestLedger p.currentStart := by
    rw [← hp.page]
    simp
  obtain ⟨hle, -, hid⟩ := mem_between.mp (List.mem_of_mem_take hin)
  exact ⟨Nat.le_trans hr.le hle, hid⟩

theorem storeOk_command {outcome : Outcome} (h : Inv s cfg x)
    (hs : StoreOk s cfg x.store x.indexed (pending x.phase))
    (hc : x.store.Completes outcome x.phase) :
    StoreOk s cfg (x.command cfg outcome).store (x.command cfg outcome).indexed
      (pending (x.command cfg outcome).phase) := by
  have hphase := h.phase
  unfold EventIndexer.command
  split
  · rename_i p full e events heq
    rw [heq] at hphase hs hc
    have he := (OnPage.head hphase).2
    cases outcome with
    | failed => exact hs
    | unacknowledged =>
      dsimp only
      rw [if_pos (hc rfl)]
      exact hs
    | acknowledged =>
      dsimp only
      split
      · rename_i hstored
        obtain ⟨k, hk, -⟩ := hstored
        exact hs.returned he (by rw [hk]; rfl)
      · exact hs.set he
  · rename_i p full e events heq
    rw [heq] at hs hc
    cases outcome with
    | failed =>
      rcases hc with hc | ⟨hc, -⟩
      · cases hc
      · cases hc
    | unacknowledged =>
      rcases hc with hc | ⟨-, hout⟩
      · cases hc
      · exact hs.zadd.settle fun k hk he => EventStore.lists_zadd hout hk he
    | acknowledged => exact hs.zadd
  · rename_i p full e events heq
    rw [heq] at hs hc
    obtain ⟨hmem, hfailed⟩ := hc
    cases outcome with
    | failed =>
      refine hs.settle fun k hk he => EventStore.lists_of_outlives ?_ (hfailed rfl) hk
      rw [he]
      exact hmem
    | unacknowledged => exact hs.expire hmem
    | acknowledged =>
      obtain ⟨he, hkey⟩ := hs.stored e (.inr (List.mem_singleton_self e))
      refine (hs.expire hmem).returned he ?_
      rw [EventStore.key?, EventStore.events_expire]
      exact hkey
  · exact hs

theorem storeOk_step (h : Inv s cfg x) (hs : StoreOk s cfg x.store x.indexed (pending x.phase))
    (e : Event) (hc : ∀ outcome ∈ e.outcome?, x.store.Completes outcome x.phase) :
    StoreOk s cfg (step s cfg x e).store (step s cfg x e).indexed (pending (step s cfg x e).phase) := by
  cases e with
  | command outcome => exact storeOk_command h hs (hc outcome rfl)
  | pass ms => exact hs.pass ms
  | watch => exact hs
  | startAt ledger => exact hs
  | close => exact hs
  | tick =>
    simp only [step]
    split
    · rename_i heq hnext
      rw [heq] at hs
      exact hs
    · rename_i heq hnext
      rw [heq] at hs
      exact hs
    · exact hs
  | latestLedger ok =>
    simp only [step]
    split
    · rename_i heq
      rw [heq] at hs
      cases ok <;> exact hs
    · exact hs
  | page ok =>
    simp only [step]
    split
    · rename_i p heq
      rw [heq] at hs
      cases ok <;> exact hs
    · exact hs
  | turn =>
    simp only [step]
    split
    · rename_i p full heq
      rw [heq] at hs
      split <;> exact hs
    · exact hs

/-- The ledger the poll that runs began at, once it is known. -/
def start? : Phase → Option Nat
  | .idle | .latest => none
  | .fetching p | .setting p _ _ | .adding p _ _ _ | .expiring p _ _ _ => some p.startLedger

/-- While a poll runs, the next start ledger is not past the one it began at, unless nothing has been
requested below. -/
def Behind (x : EventIndexer) : Prop :=
  ∀ l n, x.smallest = some l → x.nextStartLedger = some n →
    x.phase = .idle ∨ n ≤ l ∨ ∃ a ∈ start? x.phase, n ≤ a

/-- A step of a poll that leaves its start and the cursor alone. -/
theorem Behind.move (h : Behind x) {phase : Phase} {store : EventStore} {latest : Nat}
    {passed indexed : List ContractEvent}
    (hphase : phase = .idle ∨ x.phase ≠ .idle ∧ start? phase = start? x.phase) :
    Behind { x with phase, store, latest, passed, indexed } := by
  intro l n hl hn
  rcases hphase with hidle | ⟨hrun, hstart⟩
  · exact .inl hidle
  · rcases h l n hl hn with hidle | hle | ha
    · exact absurd hidle hrun
    · exact .inr (.inl hle)
    · refine .inr (.inr ?_)
      dsimp only
      rw [hstart]
      exact ha

theorem process_startLedger (p : Poll) (e : ContractEvent) :
    (p.process e).startLedger = p.startLedger := by
  obtain ⟨l, h, -⟩ := process_eq p e
  rw [h]

theorem Behind.command (h : Behind x) (outcome : Outcome) : Behind (x.command cfg outcome) := by
  unfold EventIndexer.command
  split
  · rename_i p full e events heq
    cases outcome with
    | failed => exact h.move (.inl rfl)
    | unacknowledged => exact h.move (.inl rfl)
    | acknowledged =>
      dsimp only
      split
      · exact h.move (.inr ⟨by simp [heq], by simp [heq, start?, process_startLedger]⟩)
      · exact h.move (.inr ⟨by simp [heq], by simp [heq, start?]⟩)
  · rename_i p full e events heq
    cases outcome with
    | failed => exact h.move (.inl rfl)
    | unacknowledged => exact h.move (.inl rfl)
    | acknowledged => exact h.move (.inr ⟨by simp [heq], by simp [heq, start?]⟩)
  · rename_i p full e events heq
    cases outcome with
    | failed => exact h.move (.inl rfl)
    | unacknowledged => exact h.move (.inl rfl)
    | acknowledged =>
      exact h.move (.inr ⟨by simp [heq], by simp [heq, start?, process_startLedger]⟩)
  · exact h

theorem Behind.startAt (h : Behind x) (hknown : x.smallest.isSome → x.nextStartLedger.isSome)
    (start : Nat) : Behind (x.startAt start) := by
  intro l n hl hn
  rcases startAt_cases hknown hl hn with hnl | ⟨m, current, hsmall, hnext, rfl, rfl⟩
  · exact .inr (.inl hnl)
  · rcases h m current hsmall hnext with hidle | hle | ⟨a, ha, hle⟩
    · exact .inl hidle
    · exact .inr (.inl (by omega))
    · exact .inr (.inr ⟨a, ha, Nat.le_trans (Nat.min_le_right _ _) hle⟩)

theorem Behind.step (h : Behind x) (hinv : Inv s cfg x) (e : Event) : Behind (step s cfg x e) := by
  cases e with
  | watch => exact h
  | startAt ledger => exact h.startAt hinv.known ledger
  | tick =>
    simp only [EventIndexer.step]
    split
    · rename_i start hw heq hnext
      intro l n hl hn
      cases hnext.symm.trans hn
      exact .inr (.inr ⟨start, rfl, Nat.le_refl _⟩)
    · rename_i hw heq hnext
      intro l n hl hn
      cases hnext.symm.trans hn
    · exact h
  | latestLedger ok =>
    simp only [EventIndexer.step]
    split
    · rename_i heq
      cases ok with
      | true =>
        intro l n hl hn
        rcases h l n hl hn with hidle | hle | ⟨a, ha, -⟩
        · rw [heq] at hidle
          cases hidle
        · exact .inr (.inl hle)
        · rw [heq] at ha
          cases ha
      | false => exact h.move (.inl rfl)
    · exact h
  | page ok =>
    simp only [EventIndexer.step]
    split
    · rename_i p heq
      cases ok with
      | true => exact h.move (.inr ⟨by simp [heq], by rw [heq]; rfl⟩)
      | false => exact h.move (.inl rfl)
    · exact h
  | command outcome => exact h.command outcome
  | turn =>
    simp only [EventIndexer.step]
    split
    · rename_i p full heq
      split
      · rename_i p' hturn
        obtain ⟨l, -, -, rfl⟩ := turn_again hturn
        exact h.move (.inr ⟨by simp [heq], by rw [heq]; rfl⟩)
      · exact fun _ _ _ _ => .inl rfl
    · exact h
  | close => exact h
  | pass ms => exact h

end Step

/-! ## What getEvents returns -/

theorem listed_of_lists {x : EventIndexer} {e : ContractEvent} {k : StoredEvent}
    (hk : x.store.key? e.id = some k) (he : k.event = e) (hlive : x.store.now < k.expiresAt)
    (hlists : x.store.Lists k) : Listed x e := by
  have hmem := EventStore.mem_members_of_lists hlists hlive
  rw [he] at hmem
  have hnodup := (x.store.index.at .empty x.store.now).nodup
  refine ⟨hmem, ?_, fun fromLedger limit hfrom hlimit => ?_⟩
  · have hcount := List.count_eq_one_of_mem hnodup (List.mem_map.mpr ⟨_, hmem, rfl⟩)
    rw [List.count, List.countP_map] at hcount
    exact hcount
  · have hin : (e.id, (e.ledger : Int)) ∈ x.store.from? fromLedger := by
      refine List.mem_filter.mpr ⟨hmem, ?_⟩
      cases fromLedger with
      | none => rfl
      | some f => simpa using hfrom f rfl
    have hid : e.id ∈ x.store.zrevrangebyscore fromLedger (limit.getD 100) := by
      rw [EventStore.zrevrangebyscore, List.take_of_length_le (by rwa [List.length_mergeSort])]
      exact List.mem_map.mpr ⟨_, List.mem_mergeSort.mpr hin, rfl⟩
    refine List.mem_filterMap.mpr ⟨some k, List.mem_map.mpr ⟨e.id, hid, ?_⟩, ?_⟩
    · rw [hk]
      simp [hlive]
    · rw [Option.map_some, he]

/-- Every event from the smallest ledger requested up to the next start ledger is stored, and listed
until its key expires. -/
def AllListed (s : EventStream) (x : EventIndexer) : Prop :=
  ∀ l n, x.smallest = some l → x.nextStartLedger = some n → ∀ e ∈ s.between l n,
    ∃ k, x.store.key? e.id = some k ∧ k.event = e ∧ (x.store.now < k.expiresAt → Listed x e)

theorem Behind.not_pending {s : EventStream} {cfg : IndexerConfig} {x : EventIndexer} (hb : Behind x)
    (h : Inv s cfg x) {l n : Nat} (hl : x.smallest = some l) (hn : x.nextStartLedger = some n)
    {e : ContractEvent} (he : e ∈ s.between l n) : e ∉ pending x.phase := by
  intro hpending
  obtain ⟨hle, hlt, -⟩ := mem_between.mp he
  obtain ⟨a, ha, hae⟩ : ∃ a, start? x.phase = some a ∧ a ≤ e.ledger := by
    have hphase := h.phase
    cases hx : x.phase with
    | idle | latest | fetching p | setting p full events =>
      rw [hx] at hpending
      cases hpending
    | adding p full e' events | expiring p full e' events =>
      rw [hx] at hpending hphase
      rw [List.mem_singleton.mp hpending]
      exact ⟨p.startLedger, rfl, (OnPage.head hphase).1⟩
  rcases hb l n hl hn with hidle | hnl | ⟨a', ha', hna⟩
  · rw [hidle] at ha
    cases ha
  · omega
  · cases ha.symm.trans ha'
    omega

theorem allListed_of_inv {s : EventStream} {cfg : IndexerConfig} {x : EventIndexer} (h : Inv s cfg x)
    (hs : StoreOk s cfg x.store x.indexed (pending x.phase)) (hb : Behind x) : AllListed s x := by
  intro l n hl hn e he
  obtain ⟨hid, hkey⟩ := hs.stored e (.inl (h.covered l n hl hn e he))
  obtain ⟨k, hk⟩ := Option.isSome_iff_exists.mp hkey
  have hevent := hs.event_eq hid hk
  refine ⟨k, hk, hevent, fun hlive => listed_of_lists hk hevent hlive ?_⟩
  refine hs.listed e.id k hk hlive ?_
  rw [hevent]
  exact hb.not_pending h hl hn he

/-- In a run without gaps, where each event that is stored also gets into a set that outlives it: every
event below the next start ledger is in the set once, with its ledger as score, until its retention
ends, and `getEvents` returns it. -/
theorem listed_run (s : EventStream) (cfg : IndexerConfig) (latest : Nat) (events : List Event)
    (hkept : Along (step s cfg) (Kept s cfg) (init latest) events) :
    Always (step s cfg) (AllListed s) (init latest) events :=
  always_of_inv
    (I := fun x => Inv s cfg x ∧ StoreOk s cfg x.store x.indexed (pending x.phase) ∧ Behind x)
    (fun _ h => allListed_of_inv h.1 h.2.1 h.2.2)
    (fun _ e h hk => ⟨h.1.step e hk.1, storeOk_step h.1 h.2.1 e hk.2, h.2.2.step h.1 e⟩)
    ⟨.init s cfg latest, .init s cfg, nofun⟩ hkept

/-- A poll whose SET fails is replayed, and finds the event. -/
theorem listed_run_replayed :
    Always (step twoEvents ⟨100, 86400, by decide⟩) (AllListed twoEvents) (init 12)
      ([.watch, .startAt 10, .tick, .page true, .command .failed, .pass 500, .tick] ++ pollOne) :=
  listed_run twoEvents ⟨100, 86400, by decide⟩ 12 _ (by decide)

/-- The SET of the event succeeds and its ZADD fails: the next poll finds the key, and moves the
cursor past an event that the set does not have. -/
theorem stored_not_listed :
    let x := run (step twoEvents ⟨100, 86400, by decide⟩) (init 12)
      [.watch, .startAt 10, .tick, .page true, .command .acknowledged, .command .failed, .pass 500,
        .tick, .page true, .command .acknowledged, .turn]
    x.nextStartLedger = some 11 ∧ x.store.Stored "b" ∧ x.store.members = [] ∧
      ¬ AllListed twoEvents x := by
  intro x
  have hmembers : x.store.members = [] := by decide
  have hstored : x.store.Stored "b" := by decide
  refine ⟨by decide, hstored, hmembers, fun h => ?_⟩
  obtain ⟨k, hk, -, hlisted⟩ := h 10 11 (by decide) (by decide) ⟨"b", 10⟩ (mem_between.mpr (by decide))
  obtain ⟨k', hk', hlive⟩ := hstored
  cases hk.symm.trans hk'
  have hin := (hlisted hlive).1
  rw [hmembers] at hin
  cases hin

end EventIndexer

end Soroban
end TradeCore
