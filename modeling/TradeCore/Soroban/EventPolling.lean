import TradeCore.Common
import TradeCore.Lib.Run
import TradeCore.Lib.ScoredSet

/-!
# TradeCore.Soroban.EventPolling

The poll loop of the contract event indexer, for one contract. A poll reads the events from the
contract's next start ledger on, page by page, hands each of them to `indexEvent` and writes back
the ledger behind the last one. In between it awaits the RPC server and Redis, and `watch` may
lower the next start ledger.

The RPC server gives no cursor. `EventStream` lists the events of each ledger, and `latest` is the
latest closed one. A Redis command takes effect and is acknowledged, takes effect and fails for its
caller, or fails without effect.

* `covered_run`: in a run whose polls write back no ledger past one that was requested meanwhile,
  and stop at the page cap only behind a whole ledger, every event between the smallest ledger
  requested and the next start ledger has been handed to `indexEvent`.
* `rewound_during_poll`: a poll that loses what `watch` asked for while it ran.
-/

namespace TradeCore
namespace Soroban

open Lib

structure ContractEvent where
  id : String
  ledger : Nat
  deriving DecidableEq, Repr

/-- The events the contract emits, ledger by ledger; the RPC server gives each an id of its own. -/
structure EventStream where
  ids : Nat → List String
  unique : ∀ {m n : Nat} {id : String}, id ∈ ids m → id ∈ ids n → m = n

/-- The events of the ledgers from `a` up to `b`, `b` left out. -/
def EventStream.between (s : EventStream) (a b : Nat) : List ContractEvent :=
  (List.range' a (b - a)).flatMap fun n => (s.ids n).map fun id => ⟨id, n⟩

structure IndexerConfig where
  pageLimit : Nat
  retentionSecs : Nat
  pos : 0 < retentionSecs

def IndexerConfig.retentionMs (cfg : IndexerConfig) : Int := 1000 * cfg.retentionSecs

def maxPagesPerPoll : Nat := 100

/-! ## Redis -/

/-- The key `soroban:event:<id>`. -/
structure StoredEvent where
  event : ContractEvent
  expiresAt : Int
  deriving DecidableEq, Repr

/-- The keys of the indexer, and the clock of the server. -/
structure EventStore where
  now : Int
  events : List StoredEvent
  index : Expiring (ScoredSet String)

namespace EventStore

def key? (s : EventStore) (id : String) : Option StoredEvent :=
  lookup (·.event.id) id s.events

/-- The key is there and has not expired. -/
def Stored (s : EventStore) (id : String) : Prop := ∃ k, s.key? id = some k ∧ s.now < k.expiresAt

instance (s : EventStore) (id : String) : Decidable (s.Stored id) :=
  decidable_of_iff ((s.key? id).any fun k => decide (s.now < k.expiresAt)) (by
    simp only [Option.any_eq_true, decide_eq_true_eq, Stored])

/-- `SET … EX … NX`, where the key is not there. -/
def set (cfg : IndexerConfig) (e : ContractEvent) (s : EventStore) : EventStore :=
  { s with events := upsert (·.event.id) ⟨e, s.now + cfg.retentionMs⟩ s.events }

def zadd (e : ContractEvent) (s : EventStore) : EventStore :=
  let index := s.index.live .empty s.now
  { s with index := ⟨index.value.add e.id e.ledger, index.expiresAt⟩ }

/-- `EXPIRE` does nothing to a key that is not there. -/
def expire (cfg : IndexerConfig) (s : EventStore) : EventStore :=
  let index := s.index.live .empty s.now
  if index.value.entries = [] then s
  else { s with index := ⟨index.value, some (s.now + cfg.retentionMs)⟩ }

end EventStore

inductive Outcome where
  | acknowledged
  | unacknowledged
  | failed
  deriving DecidableEq, Repr

/-! ## The poll -/

/-- The variables of `pollContract`. -/
structure Poll where
  startLedger : Nat
  currentStart : Nat
  pages : Nat
  lastProcessedLedger : Option Nat
  latestLedger : Nat
  deriving DecidableEq, Repr

namespace Poll

def startingAt (startLedger : Nat) : Poll := ⟨startLedger, startLedger, 0, none, startLedger⟩

def process (p : Poll) (e : ContractEvent) : Poll :=
  match p.lastProcessedLedger with
  | none => { p with lastProcessedLedger := some e.ledger }
  | some last => if last < e.ledger then { p with lastProcessedLedger := some e.ledger } else p

def advanceTo (p : Poll) : Nat :=
  match p.lastProcessedLedger with
  | some last => last + 1
  | none => p.latestLedger + 1

inductive Turn where
  | again (p : Poll)
  | stop
  deriving DecidableEq, Repr

/-- What comes behind a page. -/
def turn (p : Poll) (full : Bool) : Turn :=
  match full, p.lastProcessedLedger with
  | true, some last =>
    if last ≤ p.currentStart then .stop
    else if maxPagesPerPoll ≤ p.pages + 1 then .stop
    else .again { p with currentStart := last, pages := p.pages + 1 }
  | _, _ => .stop

end Poll

/-- Where the poll is: waiting for the latest ledger, for a page, or for a command of `indexEvent`.
`full` says that the page is, `events` are those of it that are left. -/
inductive Phase where
  | idle
  | latest
  | fetching (p : Poll)
  | setting (p : Poll) (full : Bool) (events : List ContractEvent)
  | adding (p : Poll) (full : Bool) (event : ContractEvent) (events : List ContractEvent)
  | expiring (p : Poll) (full : Bool) (event : ContractEvent) (events : List ContractEvent)
  deriving DecidableEq, Repr

/-- The indexer with what it talks to. `smallest` is the smallest ledger `watch` was asked for,
`passed` are the events handed to `indexEvent`, and `indexed` those it has returned for. -/
structure EventIndexer where
  watched : Bool
  nextStartLedger : Option Nat
  phase : Phase
  store : EventStore
  latest : Nat
  smallest : Option Nat
  passed : List ContractEvent
  indexed : List ContractEvent

namespace EventIndexer

def init (latest : Nat) : EventIndexer :=
  ⟨false, none, .idle, ⟨0, [], .holds .empty⟩, latest, none, [], []⟩

/-- `watch` adds the contract to the set, and sets the start ledger when it knows it. -/
inductive Event where
  | watch
  | startAt (ledger : Nat)
  | tick
  | latestLedger (ok : Bool)
  | page (ok : Bool)
  | command (outcome : Outcome)
  | turn
  | close
  | pass (ms : Nat)
  deriving DecidableEq, Repr

def startAt (start : Nat) (x : EventIndexer) : EventIndexer :=
  { x with
    nextStartLedger :=
      match x.nextStartLedger with
      | none => some start
      | some current => if start < current then some start else some current
    smallest := some (min start (x.smallest.getD start)) }

/-- The RPC server: the first events from `currentStart` on of the ledgers that are closed. -/
def getEvents (s : EventStream) (cfg : IndexerConfig) (latest currentStart : Nat) :
    List ContractEvent :=
  (s.between currentStart (latest + 1)).take cfg.pageLimit

/-- One Redis command of `indexEvent`; an error ends the poll. -/
def command (cfg : IndexerConfig) (outcome : Outcome) (x : EventIndexer) : EventIndexer :=
  match x.phase with
  | .setting p full (e :: events) =>
    let x := { x with passed := x.passed ++ [e] }
    match outcome with
    | .failed => { x with phase := .idle }
    | .unacknowledged =>
      { x with
        phase := .idle
        store := if x.store.Stored e.id then x.store else x.store.set cfg e }
    | .acknowledged =>
      if x.store.Stored e.id then
        { x with phase := .setting (p.process e) full events, indexed := x.indexed ++ [e] }
      else { x with phase := .adding p full e events, store := x.store.set cfg e }
  | .adding p full e events =>
    match outcome with
    | .failed => { x with phase := .idle }
    | .unacknowledged => { x with phase := .idle, store := x.store.zadd e }
    | .acknowledged => { x with phase := .expiring p full e events, store := x.store.zadd e }
  | .expiring p full e events =>
    match outcome with
    | .failed => { x with phase := .idle }
    | .unacknowledged => { x with phase := .idle, store := x.store.expire cfg }
    | .acknowledged =>
      { x with
        phase := .setting (p.process e) full events
        store := x.store.expire cfg
        indexed := x.indexed ++ [e] }
  | _ => x

def step (s : EventStream) (cfg : IndexerConfig) (x : EventIndexer) : Event → EventIndexer
  | .watch => { x with watched := true }
  | .startAt ledger => x.startAt ledger
  | .tick =>
    match x.watched, x.phase, x.nextStartLedger with
    | true, .idle, some start => { x with phase := .fetching (.startingAt start) }
    | true, .idle, none => { x with phase := .latest }
    | _, _, _ => x
  | .latestLedger ok =>
    match x.phase with
    | .latest => { x with phase := if ok then .fetching (.startingAt x.latest) else .idle }
    | _ => x
  | .page ok =>
    match x.phase with
    | .fetching p =>
      if ok then
        let events := getEvents s cfg x.latest p.currentStart
        { x with
          phase := .setting { p with latestLedger := x.latest } (cfg.pageLimit ≤ events.length) events }
      else { x with phase := .idle }
    | _ => x
  | .command outcome => x.command cfg outcome
  | .turn =>
    match x.phase with
    | .setting p full [] =>
      match p.turn full with
      | .again p => { x with phase := .fetching p }
      | .stop => { x with phase := .idle, nextStartLedger := some p.advanceTo }
    | _ => x
  | .close => { x with latest := x.latest + 1 }
  | .pass ms => { x with store := { x.store with now := x.store.now + ms } }

/-! ## What is asked of a run -/

/-- The poll whose next turn writes back its cursor, and whether its last page is full. -/
def stopping (x : EventIndexer) : Option (Poll × Bool) :=
  match x.phase with
  | .setting p full [] => if p.turn full = .stop then some (p, full) else none
  | _ => none

/-- No ledger below the one the poll began at has been requested while it ran. -/
def Current (x : EventIndexer) (p : Poll) : Prop :=
  p.startLedger ≤ x.nextStartLedger.getD p.startLedger

/-- The last page holds all events of the ledgers the cursor moves past. -/
def ReadsAll (s : EventStream) (cfg : IndexerConfig) (p : Poll) : Prop :=
  (s.between p.currentStart p.advanceTo).length ≤ cfg.pageLimit

def Gapless (s : EventStream) (cfg : IndexerConfig) (x : EventIndexer) (e : Event) : Prop :=
  e = .turn → ∀ t ∈ x.stopping, x.Current t.1 ∧ ReadsAll s cfg t.1

/-- The same, where the last page is asked about only at the page cap. -/
def CapGapless (s : EventStream) (cfg : IndexerConfig) (x : EventIndexer) (e : Event) : Prop :=
  e = .turn → ∀ t ∈ x.stopping,
    x.Current t.1 ∧ (t.2 = true ∧ maxPagesPerPoll ≤ t.1.pages + 1 → ReadsAll s cfg t.1)

instance (s : EventStream) (cfg : IndexerConfig) (x : EventIndexer) (e : Event) :
    Decidable (CapGapless s cfg x e) :=
  inferInstanceAs (Decidable (e = .turn → ∀ t ∈ x.stopping,
    t.1.startLedger ≤ x.nextStartLedger.getD t.1.startLedger ∧
      (t.2 = true ∧ maxPagesPerPoll ≤ t.1.pages + 1 →
        (s.between t.1.currentStart t.1.advanceTo).length ≤ cfg.pageLimit)))

/-- Every event from the smallest ledger requested up to the next start ledger is among `events`. -/
def Covered (s : EventStream) (x : EventIndexer) (events : List ContractEvent) : Prop :=
  ∀ l n, x.smallest = some l → x.nextStartLedger = some n → ∀ e ∈ s.between l n, e ∈ events

/-! ## Ledgers and pages -/

section Stream

variable {s : EventStream} {cfg : IndexerConfig} {a b c : Nat}

theorem mem_between {e : ContractEvent} :
    e ∈ s.between a b ↔ a ≤ e.ledger ∧ e.ledger < b ∧ e.id ∈ s.ids e.ledger := by
  simp only [EventStream.between, List.mem_flatMap, List.mem_range'_1, List.mem_map]
  constructor
  · rintro ⟨n, ⟨hle, hlt⟩, id, hid, rfl⟩
    exact ⟨hle, by dsimp only; omega, hid⟩
  · rintro ⟨hle, hlt, hid⟩
    exact ⟨e.ledger, ⟨hle, by omega⟩, e.id, hid, rfl⟩

theorem between_append (hab : a ≤ b) (hbc : b ≤ c) :
    s.between a b ++ s.between b c = s.between a c := by
  have hrange : List.range' a (b - a) ++ List.range' b (c - b) = List.range' a (c - a) := by
    have h := List.range'_append_1 (s := a) (m := b - a) (n := c - b)
    rw [show a + (b - a) = b by omega, show b - a + (c - b) = c - a by omega] at h
    exact h
  simp only [EventStream.between]
  rw [← hrange, List.flatMap_append]

theorem length_between_succ (a : Nat) : (s.between a (a + 1)).length = (s.ids a).length := by
  simp [EventStream.between]

theorem subset_getEvents {latest : Nat} (hb : b ≤ latest + 1)
    (hlen : (s.between a b).length ≤ cfg.pageLimit) :
    s.between a b ⊆ getEvents s cfg latest a := by
  intro e he
  obtain ⟨hle, hlt, -⟩ := mem_between.mp he
  rw [getEvents, ← between_append (by omega : a ≤ b) hb, List.take_append]
  refine List.mem_append_left _ ?_
  rwa [List.take_of_length_le hlen]

theorem subset_getEvents_of_mem {latest : Nat} {f : ContractEvent} (hf : f ∈ getEvents s cfg latest a)
    (hfb : b ≤ f.ledger) : s.between a b ⊆ getEvents s cfg latest a := by
  obtain ⟨hle, hlt, -⟩ := mem_between.mp (List.mem_of_mem_take hf)
  by_cases hlen : (s.between a b).length ≤ cfg.pageLimit
  · exact subset_getEvents (by omega) hlen
  · intro e he
    obtain ⟨hae, heb, -⟩ := mem_between.mp he
    rw [getEvents, ← between_append (by omega : a ≤ b) (by omega : b ≤ latest + 1),
      List.take_append_of_le_length (by omega)] at hf
    have := (mem_between.mp (List.mem_of_mem_take hf)).2.1
    omega

end Stream

/-! ## The invariant of a poll -/

/-- What a poll has read before its current page. -/
structure Reads (s : EventStream) (indexed : List ContractEvent) (p : Poll) : Prop where
  le : p.startLedger ≤ p.currentStart
  indexed : ∀ e ∈ s.between p.startLedger p.currentStart, e ∈ indexed

/-- How far it is in its page: `done` has been indexed, `left` has not. -/
structure PageRead (s : EventStream) (cfg : IndexerConfig) (indexed : List ContractEvent) (p : Poll)
    (full : Bool) (done left : List ContractEvent) : Prop where
  page : done ++ left = getEvents s cfg p.latestLedger p.currentStart
  full_eq : full = decide (cfg.pageLimit ≤ (getEvents s cfg p.latestLedger p.currentStart).length)
  indexed : ∀ e ∈ done, e ∈ indexed
  le_last : ∀ e ∈ done, ∃ l, p.lastProcessedLedger = some l ∧ e.ledger ≤ l
  last_le : ∀ l, p.lastProcessedLedger = some l → l ≤ p.latestLedger
  last_mem : ∀ l, p.lastProcessedLedger = some l → l ≤ p.currentStart ∨ ∃ e ∈ done, e.ledger = l

/-- A page that is being indexed. -/
def OnPage (s : EventStream) (cfg : IndexerConfig) (latest : Nat) (indexed : List ContractEvent)
    (p : Poll) (full : Bool) (left : List ContractEvent) : Prop :=
  Reads s indexed p ∧ p.latestLedger ≤ latest ∧ ∃ done, PageRead s cfg indexed p full done left

def PhaseOk (s : EventStream) (cfg : IndexerConfig) (latest : Nat) (indexed : List ContractEvent) :
    Phase → Prop
  | .idle | .latest => True
  | .fetching p => Reads s indexed p ∧
      ∀ l, p.lastProcessedLedger = some l → l ≤ p.currentStart ∧ l ≤ latest
  | .setting p full events => OnPage s cfg latest indexed p full events
  | .adding p full e events | .expiring p full e events =>
    OnPage s cfg latest indexed p full (e :: events)

/-- The event `indexEvent` is busy with. -/
def pending : Phase → List ContractEvent
  | .adding _ _ e _ | .expiring _ _ e _ => [e]
  | _ => []

structure Inv (s : EventStream) (cfg : IndexerConfig) (x : EventIndexer) : Prop where
  known : x.smallest.isSome → x.nextStartLedger.isSome
  covered : Covered s x x.indexed
  phase : PhaseOk s cfg x.latest x.indexed x.phase
  passed : ∀ e ∈ x.indexed, e ∈ x.passed
  pending : ∀ e ∈ EventIndexer.pending x.phase, e ∈ x.passed

section Poll

variable {s : EventStream} {cfg : IndexerConfig} {latest latest' : Nat}
  {indexed indexed' : List ContractEvent} {p : Poll} {full : Bool} {e : ContractEvent}
  {done left : List ContractEvent}

theorem Reads.mono (h : Reads s indexed p) (hsub : indexed ⊆ indexed') : Reads s indexed' p :=
  ⟨h.le, fun e he => hsub (h.indexed e he)⟩

theorem OnPage.mono (h : OnPage s cfg latest indexed p full left) (hle : latest ≤ latest')
    (hsub : indexed ⊆ indexed') : OnPage s cfg latest' indexed' p full left := by
  obtain ⟨hr, hl, done, hp⟩ := h
  exact ⟨hr.mono hsub, Nat.le_trans hl hle, done, hp.page, hp.full_eq,
    fun e he => hsub (hp.indexed e he), hp.le_last, hp.last_le, hp.last_mem⟩

theorem PhaseOk.mono {phase : Phase} (h : PhaseOk s cfg latest indexed phase)
    (hle : latest ≤ latest') : PhaseOk s cfg latest' indexed phase := by
  cases phase with
  | idle => trivial
  | latest => trivial
  | fetching p => exact ⟨h.1, fun l hl => ⟨(h.2 l hl).1, Nat.le_trans (h.2 l hl).2 hle⟩⟩
  | setting p full events => exact OnPage.mono h hle (List.Subset.refl _)
  | adding p full e events => exact OnPage.mono h hle (List.Subset.refl _)
  | expiring p full e events => exact OnPage.mono h hle (List.Subset.refl _)

theorem process_eq (p : Poll) (e : ContractEvent) :
    ∃ l, p.process e = { p with lastProcessedLedger := some l } ∧ e.ledger ≤ l ∧
      (∀ l', p.lastProcessedLedger = some l' → l' ≤ l) ∧
      (l = e.ledger ∨ p.lastProcessedLedger = some l) := by
  unfold Poll.process
  cases h : p.lastProcessedLedger with
  | none => exact ⟨e.ledger, rfl, Nat.le_refl _, nofun, .inl rfl⟩
  | some last =>
    dsimp only
    split
    · rename_i hlt
      exact ⟨e.ledger, rfl, Nat.le_refl _, fun l' hl => by cases hl; exact Nat.le_of_lt hlt, .inl rfl⟩
    · rename_i hle
      refine ⟨last, ?_, Nat.le_of_not_lt hle, fun l' hl => by cases hl; exact Nat.le_refl _, .inr rfl⟩
      rw [← h]

theorem Reads.init (s : EventStream) (indexed : List ContractEvent) (n : Nat) :
    Reads s indexed (.startingAt n) := by
  refine ⟨Nat.le_refl _, fun e he => ?_⟩
  have := mem_between.mp he
  simp only [Poll.startingAt] at this
  omega

/-- One more event of the page has been indexed. -/
theorem OnPage.process (h : OnPage s cfg latest indexed p full (e :: left)) :
    OnPage s cfg latest (indexed ++ [e]) (p.process e) full left := by
  obtain ⟨hr, hl, done, hp⟩ := h
  obtain ⟨l, hproc, hel, hmax, hlast⟩ := process_eq p e
  have hsub : indexed ⊆ indexed ++ [e] := List.subset_append_left _ _
  have hpage : e ∈ getEvents s cfg p.latestLedger p.currentStart := by
    rw [← hp.page]
    simp
  have hlat : e.ledger ≤ p.latestLedger :=
    Nat.le_of_lt_succ (mem_between.mp (List.mem_of_mem_take hpage)).2.1
  rw [hproc]
  refine ⟨⟨hr.le, fun e' he' => hsub (hr.indexed e' he')⟩, hl, done ++ [e], ?_, hp.full_eq, ?_, ?_,
    ?_, ?_⟩
  · rw [List.append_assoc]
    exact hp.page
  · intro e' he'
    rcases List.mem_append.mp he' with he' | he'
    · exact hsub (hp.indexed e' he')
    · exact List.mem_append_right _ he'
  · intro e' he'
    refine ⟨l, rfl, ?_⟩
    rcases List.mem_append.mp he' with he' | he'
    · obtain ⟨l', hl', hle⟩ := hp.le_last e' he'
      exact Nat.le_trans hle (hmax l' hl')
    · rw [List.mem_singleton.mp he']
      exact hel
  · rintro _ ⟨⟩
    rcases hlast with rfl | hlast
    · exact hlat
    · exact hp.last_le l hlast
  · rintro _ ⟨⟩
    rcases hlast with rfl | hlast
    · exact .inr ⟨e, by simp, rfl⟩
    · refine (hp.last_mem l hlast).imp id ?_
      rintro ⟨e', he', hl'⟩
      exact ⟨e', List.mem_append_left _ he', hl'⟩

/-- Behind a page the poll goes on from the last ledger it has seen, which is a later one. -/
theorem turn_again {p' : Poll} (h : p.turn full = .again p') :
    ∃ l, p.lastProcessedLedger = some l ∧ p.currentStart < l ∧
      p' = { p with currentStart := l, pages := p.pages + 1 } := by
  unfold Poll.turn at h
  split at h
  · rename_i l hl
    split at h
    · cases h
    · rename_i hlt
      split at h
      · cases h
      · exact ⟨l, hl, Nat.lt_of_not_le hlt, (Poll.Turn.again.inj h).symm⟩
  · cases h

/-- What has been indexed when a page that has all events below `b` is through. -/
theorem PageRead.through {b : Nat} (hr : Reads s indexed p)
    (hp : PageRead s cfg indexed p full done [])
    (hsub : s.between p.currentStart b ⊆ getEvents s cfg p.latestLedger p.currentStart) :
    ∀ e ∈ s.between p.startLedger b, e ∈ indexed := by
  intro e he
  obtain ⟨hle, hlt, hid⟩ := mem_between.mp he
  have hpage := hp.page
  rw [List.append_nil] at hpage
  by_cases hbefore : e.ledger < p.currentStart
  · exact hr.indexed e (mem_between.mpr ⟨hle, hbefore, hid⟩)
  · refine hp.indexed e ?_
    rw [hpage]
    exact hsub (mem_between.mpr ⟨Nat.le_of_not_lt hbefore, hlt, hid⟩)

theorem PageRead.again {p' : Poll} (hr : Reads s indexed p)
    (hp : PageRead s cfg indexed p full done []) (h : p.turn full = .again p') :
    Reads s indexed p' := by
  obtain ⟨l, hlast, hlt, rfl⟩ := turn_again h
  refine ⟨Nat.le_trans hr.le (Nat.le_of_lt hlt), ?_⟩
  rcases hp.last_mem l hlast with hle | ⟨f, hf, rfl⟩
  · exact absurd hlt (Nat.not_lt.mpr hle)
  · have hpage := hp.page
    rw [List.append_nil] at hpage
    rw [hpage] at hf
    exact fun e he => hp.through hr (subset_getEvents_of_mem hf (Nat.le_refl _)) e he

theorem PageRead.advanceTo_le (hp : PageRead s cfg indexed p full done []) :
    p.advanceTo ≤ p.latestLedger + 1 := by
  unfold Poll.advanceTo
  split
  · rename_i l hl
    exact Nat.succ_le_succ (hp.last_le l hl)
  · exact Nat.le_refl _

/-- What has been indexed when a poll writes back its cursor. -/
theorem PageRead.stop (hr : Reads s indexed p) (hp : PageRead s cfg indexed p full done [])
    (hall : ReadsAll s cfg p) : ∀ e ∈ s.between p.startLedger p.advanceTo, e ∈ indexed :=
  hp.through hr (subset_getEvents hp.advanceTo_le hall)

theorem PageRead.readsAll_of_not_full (hp : PageRead s cfg indexed p full done [])
    (hfull : full = false) : ReadsAll s cfg p := by
  have hlen := hp.full_eq
  rw [hfull, eq_comm, decide_eq_false_iff_not, getEvents, List.length_take] at hlen
  by_cases hle : p.currentStart ≤ p.advanceTo
  · have happ := between_append (s := s) hle hp.advanceTo_le
    rw [← happ, List.length_append] at hlen
    rw [ReadsAll]
    omega
  · rw [ReadsAll, EventStream.between, Nat.sub_eq_zero_of_le (by omega)]
    exact Nat.zero_le _

theorem PageRead.lt_of_full (hsmall : ∀ n, (s.ids n).length < cfg.pageLimit)
    (hp : PageRead s cfg indexed p full done []) (hfull : full = true) :
    ∃ l, p.lastProcessedLedger = some l ∧ p.currentStart < l := by
  have hlen := hp.full_eq
  have hpage := hp.page
  rw [List.append_nil] at hpage
  rw [hfull, eq_comm, decide_eq_true_eq] at hlen
  obtain ⟨f, hf, hlt⟩ : ∃ f ∈ done, p.currentStart < f.ledger := by
    have hfirst := hsmall p.currentStart
    rw [← length_between_succ] at hfirst
    have hle : p.currentStart + 1 ≤ p.latestLedger + 1 := by
      by_contra hgt
      have hnil : s.between p.currentStart (p.latestLedger + 1) = [] := by
        rw [EventStream.between, Nat.sub_eq_zero_of_le (by omega)]
        rfl
      rw [getEvents, hnil, List.take_nil, List.length_nil] at hlen
      omega
    have happ := between_append (s := s) (Nat.le_add_right p.currentStart 1) hle
    rw [getEvents, ← happ, List.take_append, List.length_append,
      List.take_of_length_le (Nat.le_of_lt hfirst)] at hlen
    obtain ⟨f, hf⟩ := List.exists_mem_of_length_pos
      (l := (s.between (p.currentStart + 1) (p.latestLedger + 1)).take
        (cfg.pageLimit - (s.between p.currentStart (p.currentStart + 1)).length)) (by omega)
    refine ⟨f, ?_, (mem_between.mp (List.mem_of_mem_take hf)).1⟩
    rw [hpage, getEvents, ← happ, List.take_append]
    exact List.mem_append_right _ hf
  obtain ⟨l, hl, hle⟩ := hp.le_last f hf
  exact ⟨l, hl, Nat.lt_of_lt_of_le hlt hle⟩

end Poll

section Step

variable {s : EventStream} {cfg : IndexerConfig} {x : EventIndexer}

theorem Inv.init (s : EventStream) (cfg : IndexerConfig) (latest : Nat) : Inv s cfg (init latest) :=
  ⟨nofun, nofun, trivial, nofun, nofun⟩

theorem Covered.mono {events events' : List ContractEvent} (h : Covered s x events)
    (hsub : events ⊆ events') : Covered s x events' :=
  fun l n hl hn e he => hsub (h l n hl hn e he)

/-- A step of a poll that indexes nothing. -/
theorem Inv.move (h : Inv s cfg x) {phase : Phase} {store : EventStore} {passed : List ContractEvent}
    (hphase : PhaseOk s cfg x.latest x.indexed phase) (hpassed : x.passed ⊆ passed)
    (hpending : ∀ e ∈ EventIndexer.pending phase, e ∈ passed) :
    Inv s cfg { x with phase, store, passed } :=
  ⟨h.known, h.covered, hphase, fun e he => hpassed (h.passed e he), hpending⟩

theorem Inv.stopped (h : Inv s cfg x) {store : EventStore} {passed : List ContractEvent}
    (hpassed : x.passed ⊆ passed) : Inv s cfg { x with phase := .idle, store, passed } :=
  h.move trivial hpassed nofun

/-- `indexEvent` returns, and the poll goes on with its page. -/
theorem Inv.returned (h : Inv s cfg x) {p : Poll} {full : Bool} {e : ContractEvent}
    {events passed : List ContractEvent} {store : EventStore}
    (hpage : OnPage s cfg x.latest x.indexed p full (e :: events)) (hpassed : x.passed ⊆ passed)
    (hin : e ∈ passed) :
    Inv s cfg { x with
      phase := .setting (p.process e) full events, store, passed, indexed := x.indexed ++ [e] } := by
  refine ⟨h.known, Covered.mono h.covered (List.subset_append_left _ _), hpage.process, ?_, nofun⟩
  intro e' he'
  rcases List.mem_append.mp he' with he' | he'
  · exact hpassed (h.passed e' he')
  · rw [List.mem_singleton.mp he']
    exact hin

theorem Inv.command (h : Inv s cfg x) (outcome : Outcome) : Inv s cfg (x.command cfg outcome) := by
  have hphase := h.phase
  have hpending := h.pending
  unfold EventIndexer.command
  split
  · rename_i p full e events heq
    rw [heq] at hphase
    have hsub : x.passed ⊆ x.passed ++ [e] := List.subset_append_left _ _
    have hin : e ∈ x.passed ++ [e] := by simp
    cases outcome with
    | failed => exact h.stopped hsub
    | unacknowledged => exact h.stopped hsub
    | acknowledged =>
      dsimp only
      split
      · exact h.returned hphase hsub hin
      · refine h.move hphase hsub fun e' he' => ?_
        rw [List.mem_singleton.mp he']
        exact hin
  · rename_i p full e events heq
    rw [heq] at hphase hpending
    cases outcome with
    | failed => exact h.stopped (List.Subset.refl _)
    | unacknowledged => exact h.stopped (List.Subset.refl _)
    | acknowledged => exact h.move hphase (List.Subset.refl _) hpending
  · rename_i p full e events heq
    rw [heq] at hphase hpending
    cases outcome with
    | failed => exact h.stopped (List.Subset.refl _)
    | unacknowledged => exact h.stopped (List.Subset.refl _)
    | acknowledged =>
      exact h.returned hphase (List.Subset.refl _) (hpending e (List.mem_singleton_self e))
  · exact h

/-- What `watch` does to the cursor and to what has been requested: nothing lies between the two, or both
go down to `start`. -/
theorem startAt_cases (hknown : x.smallest.isSome → x.nextStartLedger.isSome) {start l n : Nat}
    (hl : (x.startAt start).smallest = some l) (hn : (x.startAt start).nextStartLedger = some n) :
    n ≤ l ∨ ∃ m current, x.smallest = some m ∧ x.nextStartLedger = some current ∧
      l = min start m ∧ n = min start current := by
  simp only [EventIndexer.startAt, Option.some.injEq] at hl hn
  cases hnext : x.nextStartLedger with
  | none =>
    rw [hnext] at hn hknown
    cases hsmall : x.smallest with
    | none =>
      rw [hsmall, Option.getD_none, Nat.min_self] at hl
      exact .inl (Nat.le_of_eq ((Option.some.inj hn).symm.trans hl))
    | some m => simp [hsmall] at hknown
  | some current =>
    have hmin : n = min start current := by
      rw [hnext] at hn
      dsimp only at hn
      split at hn
      · cases hn
        omega
      · cases hn
        omega
    cases hsmall : x.smallest with
    | none =>
      rw [hsmall, Option.getD_none, Nat.min_self] at hl
      exact .inl (by omega)
    | some m =>
      rw [hsmall, Option.getD_some] at hl
      exact .inr ⟨m, current, rfl, rfl, hl.symm, hmin⟩

theorem Covered.startAt {events : List ContractEvent} (h : Covered s x events)
    (hknown : x.smallest.isSome → x.nextStartLedger.isSome) (start : Nat) :
    Covered s (x.startAt start) events := by
  intro l n hl hn e he
  obtain ⟨hle, hlt, hid⟩ := mem_between.mp he
  rcases startAt_cases hknown hl hn with hnl | ⟨m, current, hsmall, hnext, hlm, hnc⟩
  · omega
  · exact h m current hsmall hnext e (mem_between.mpr ⟨by omega, by omega, hid⟩)

theorem Inv.turn (h : Inv s cfg x) (hgap : Gapless s cfg x .turn) :
    Inv s cfg (step s cfg x .turn) := by
  have hphase := h.phase
  simp only [step]
  split
  · rename_i p full heq
    rw [heq] at hphase
    obtain ⟨hr, hlatest, done, hp⟩ := hphase
    split
    · rename_i p' hturn
      obtain ⟨l, hlast, -, rfl⟩ := turn_again hturn
      refine h.move ⟨hp.again hr hturn, fun l' hl' => ?_⟩ (List.Subset.refl _) nofun
      cases hlast.symm.trans hl'
      exact ⟨Nat.le_refl _, Nat.le_trans (hp.last_le l hlast) hlatest⟩
    · rename_i hturn
      have hstop : (p, full) ∈ x.stopping := by
        simp [stopping, heq, hturn]
      obtain ⟨hcurrent, hall⟩ := hgap rfl (p, full) hstop
      refine ⟨fun _ => rfl, ?_, trivial, h.passed, nofun⟩
      rintro l _ hl ⟨⟩ e he
      obtain ⟨hle, hlt, hid⟩ := mem_between.mp he
      obtain ⟨n, hn⟩ := Option.isSome_iff_exists.mp (h.known (by rw [hl]; rfl))
      rw [Current, hn] at hcurrent
      by_cases hbefore : e.ledger < n
      · exact h.covered l n hl hn e (mem_between.mpr ⟨hle, hbefore, hid⟩)
      · refine hp.stop hr hall e (mem_between.mpr ⟨?_, hlt, hid⟩)
        exact Nat.le_trans hcurrent (Nat.le_of_not_lt hbefore)
  · exact h

theorem Inv.step (h : Inv s cfg x) (e : Event) (hgap : Gapless s cfg x e) :
    Inv s cfg (step s cfg x e) := by
  have hphase := h.phase
  cases e with
  | watch => exact ⟨h.known, h.covered, h.phase, h.passed, h.pending⟩
  | startAt ledger =>
    refine ⟨fun _ => ?_, Covered.startAt h.covered h.known ledger, h.phase, h.passed, h.pending⟩
    simp only [EventIndexer.step, EventIndexer.startAt]
    split
    · rfl
    · split <;> rfl
  | tick =>
    simp only [EventIndexer.step]
    split
    · exact h.move ⟨.init s x.indexed _, nofun⟩ (List.Subset.refl _) nofun
    · exact h.move trivial (List.Subset.refl _) nofun
    · exact h
  | latestLedger ok =>
    simp only [EventIndexer.step]
    split
    · cases ok with
      | true => exact h.move ⟨.init s x.indexed _, nofun⟩ (List.Subset.refl _) nofun
      | false => exact h.stopped (List.Subset.refl _)
    · exact h
  | page ok =>
    simp only [EventIndexer.step]
    split
    · rename_i p heq
      rw [heq] at hphase
      obtain ⟨hr, hlast⟩ := hphase
      cases ok with
      | true =>
        refine h.move ⟨⟨hr.le, hr.indexed⟩, Nat.le_refl _, [], rfl, rfl, nofun, nofun, ?_, ?_⟩
          (List.Subset.refl _) nofun
        · exact fun l hl => (hlast l hl).2
        · exact fun l hl => .inl (hlast l hl).1
      | false => exact h.stopped (List.Subset.refl _)
    · exact h
  | command outcome => exact h.command outcome
  | turn => exact h.turn hgap
  | close =>
    exact ⟨h.known, h.covered, PhaseOk.mono h.phase (Nat.le_succ _), h.passed, h.pending⟩
  | pass ms => exact ⟨h.known, h.covered, h.phase, h.passed, h.pending⟩

theorem gapless_of_cap (hsmall : ∀ n, (s.ids n).length < cfg.pageLimit) (h : Inv s cfg x) {e : Event}
    (hcap : CapGapless s cfg x e) : Gapless s cfg x e := by
  rintro rfl ⟨p, full⟩ hstop
  obtain ⟨hcurrent, hread⟩ := hcap rfl (p, full) hstop
  refine ⟨hcurrent, ?_⟩
  have hphase := h.phase
  unfold stopping at hstop
  split at hstop
  · rename_i p' full' heq
    rw [heq] at hphase
    obtain ⟨hr, -, done, hp⟩ := hphase
    split at hstop
    · rename_i hturn
      cases hstop
      cases full with
      | false => exact hp.readsAll_of_not_full rfl
      | true =>
        obtain ⟨l, hlast, hlt⟩ := hp.lt_of_full hsmall rfl
        refine hread ⟨rfl, ?_⟩
        by_contra hpages
        simp only [Poll.turn, hlast, if_neg (Nat.not_le.mpr hlt), if_neg hpages] at hturn
        cases hturn
    · cases hstop
  · cases hstop

end Step

/-- In a run whose polls write back no ledger past one that was requested meanwhile, and stop at the
page cap only where the last page holds all events of the ledgers the cursor moves past: every event
from the smallest ledger requested up to the next start ledger has been handed to `indexEvent`. -/
theorem covered_run (s : EventStream) (cfg : IndexerConfig)
    (hsmall : ∀ n, (s.ids n).length < cfg.pageLimit) (latest : Nat) (events : List Event)
    (hcap : Along (step s cfg) (CapGapless s cfg) (init latest) events) :
    Always (step s cfg) (fun x => Covered s x x.passed) (init latest) events :=
  always_of_inv (I := Inv s cfg) (fun _ h => Covered.mono h.covered h.passed)
    (fun _ e h hcap => h.step e (gapless_of_cap hsmall h hcap)) (.init s cfg latest) hcap

def twoEvents : EventStream where
  ids n := if n = 5 then ["a"] else if n = 10 then ["b"] else []
  unique := by
    intro m n id hm hn
    grind

theorem twoEvents_small (n : Nat) : (twoEvents.ids n).length < 100 := by
  simp only [twoEvents]
  split
  · decide
  · split <;> decide

/-- The steps of a poll that finds one new event. -/
def pollOne : List Event :=
  [.page true, .command .acknowledged, .command .acknowledged, .command .acknowledged, .turn]

/-- A watch from ledger 10 on is followed by one from ledger 5 on, between two polls. -/
theorem covered_run_rewound :
    Always (step twoEvents ⟨100, 86400, by decide⟩) (fun x => Covered twoEvents x x.passed) (init 12)
      ([.watch, .startAt 10, .tick] ++ pollOne ++ [.startAt 5, .tick, .page false, .close]) :=
  covered_run twoEvents ⟨100, 86400, by decide⟩ twoEvents_small 12 _ (by decide)

/-- The second watch comes while the poll runs: the cursor that the poll writes back hides what it asked
for, and the event of ledger 5 is never handed on. -/
theorem rewound_during_poll :
    let x := run (step twoEvents ⟨100, 86400, by decide⟩) (init 12)
      ([.watch, .startAt 10, .tick, .startAt 5] ++ pollOne)
    x.phase = .idle ∧ x.nextStartLedger = some 11 ∧ ¬ Covered twoEvents x x.passed := by
  refine ⟨by decide, by decide, fun h => ?_⟩
  have hlost := h 5 11 (by decide) (by decide) ⟨"a", 5⟩ (mem_between.mpr (by decide))
  revert hlost
  decide

end EventIndexer

end Soroban
end TradeCore
