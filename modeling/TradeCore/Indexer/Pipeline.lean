import TradeCore.Indexer.EventBuffer
import TradeCore.Indexer.Normalizer

/-!
# TradeCore.Indexer.Pipeline

The indexer as a whole: the ledger indexer, the backfill of the reorg handler, the normalizer's
counter, the buffer and the batched persistence, in one process that may stop, start again or crash.

The calls are the tasks of `indexerProc`, cut at every `await`; what an awaited call answers is the
`Env` of the step that waits for it. A call into the persistence runs to its own first `await` in the
caller's step and is a task of `State.persistence` from then on, so that a run of the indexer holds
a run of `persistProc`. `start` adds a listener to the stream every time, hence one notification may
be several calls of `handleLedgerClose`.

A crash takes the memory of the process and leaves the rows: the events, the counter and
`last_indexed_ledger`. `State` also keeps three histories; no step reads them.
-/

namespace TradeCore
namespace Indexer

open Lib

namespace Persistence

/-- A call made by code that runs on: it gets as far as its first `await`. -/
def call {α : Type} (batchMaxSize : Int) (ok : Bool) (op : Op α) (c : Conf (State α) (Call α) Nat) :
    Conf (State α) (Call α) Nat :=
  (persistProc batchMaxSize).step ((persistProc batchMaxSize).step c (.spawn op))
    (.sched c.tasks.length ok)

end Persistence

namespace Pipeline

structure Config where
  buffer : BufferConfig
  batchMaxSize : Int

structure State where
  running : Bool
  /-- The Horizon stream is connected to `handleLedgerClose`. -/
  streaming : Bool
  sequenceCounter : Int
  buffer : EventBuffer Int IndexedEvent
  persistence : Conf (Persistence.State UnsequencedEvent) (Persistence.Call UnsequencedEvent) Nat
  /-- The row `last_indexed_ledger` of the indexer's state. -/
  lastIndexedLedger : Option Int
  /-- Every number handed out, by this process and by those before it. -/
  assigned : List IndexedEvent
  /-- The counter was restored in this process, or nothing had been handed out before it. -/
  restored : Bool
  /-- The ledgers whose transactions a call of this process has been through. -/
  swept : List Int

/-- A process just started over what the database holds. -/
def State.boot (rows : List IndexedEvent) (counter : Int) (lastIndexedLedger : Option Int)
    (assigned : List IndexedEvent) : State where
  running := false
  streaming := false
  sequenceCounter := 0
  buffer := .empty
  persistence := Conf.init (Persistence.State.init rows counter)
  lastIndexedLedger := lastIndexedLedger
  assigned := assigned
  restored := assigned.isEmpty
  swept := []

/-- The first process, over an empty database. -/
def State.fresh : State := .boot [] 0 none []

def State.restart (s : State) : State :=
  .boot s.persistence.shared.rows s.persistence.shared.sequenceCounter s.lastIndexedLedger s.assigned

inductive Op where
  | start
  | stop
  | handleLedgerClose (ledger : Int)
  | handleSorobanEvents (events : List ParsedContractEvent)
  | backfillGap (fromLedger toLedger : Int)
  deriving DecidableEq, Repr

/-- The answer of the awaited call. `page` and `operations` are what Horizon returns to the two
fetches, `none` when a fetch fails; `ok` is the outcome of the others. -/
structure Env where
  ok : Bool
  page : Option (List RawTransaction)
  operations : Option (List RawOperation)
  now : Time
  deriving DecidableEq, Repr

inductive Call where
  | begin (op : Op)
  | readCounter
  | initializeSequenceCounter («from» : Int)
  | startingTimer (flushTimer : Nat)
  | connecting
  | fetching (ledger : Int)
  | operations (ledger : Int) (tx : RawTransaction) (rest : List RawTransaction)
  | distributing (ledger : Int) (rest : List RawTransaction)
  | flushing (ledger : Int) (flush : Nat)
  | saving (ledger : Int)
  | fetchingRange (ledger toLedger : Int) (fetched : List RawTransaction)
  | readPersisted (toLedger : Int) (transactions : List RawTransaction)
  | raise (toLedger : Int) (transactions : List RawTransaction) (persistedCounter : Int)
  | backfilling (toLedger : Int) (tx : RawTransaction) (rest : List RawTransaction)
      (events : List IndexedEvent)
  | backfillFlushing (toLedger : Int) (flush : Nat)
  | gettingLedger (toLedger : Int)
  deriving DecidableEq, Repr

abbrev Next := State × Task Call Unit

def State.call (cfg : Config) (ok : Bool) (op : Persistence.Op UnsequencedEvent) (s : State) : State :=
  { s with persistence := Persistence.call cfg.batchMaxSize ok op s.persistence }

/-- The call made at `i` has returned. -/
def State.returned (i : Nat) (s : State) : Bool :=
  match s.persistence.tasks[i]? with
  | some t => t.isDone
  | none => false

/-- `assignSequence` for each of the events. -/
def State.assign (events : List UnsequencedEvent) (s : State) : List IndexedEvent × State :=
  let (counter, indexed) := assignSequences s.sequenceCounter events
  (indexed, { s with sequenceCounter := counter, assigned := s.assigned ++ indexed })

def State.enqueueAll (cfg : Config) : List IndexedEvent → State → State
  | [], s => s
  | event :: events, s => State.enqueueAll cfg events (s.call cfg true (.enqueue event))

def buffered (now : Time) (event : IndexedEvent) : BufferedEvent Int IndexedEvent × Time :=
  (⟨toNumber event.sequenceNumber, event, now⟩, now)

/-- `pushBatch`, then `drain` and the first loop of `persistAndDistribute` if an event was accepted.
The second loop, over the subscribers, changes nothing here. -/
def State.handOver (cfg : Config) (now : Time) (indexed : List IndexedEvent) (s : State) :
    Bool × State :=
  let (accepted, buffer) := EventBuffer.pushBatch cfg.buffer (indexed.map (buffered now)) s.buffer
  if 0 < accepted then
    let (toPersist, buffer) := buffer.drain buffer.buffer.length
    (true, State.enqueueAll cfg (toPersist.map (·.payload)) { s with buffer := buffer })
  else (false, { s with buffer := buffer })

/-- The head of the loop of `handleLedgerClose`, and the flush after it. -/
def nextTransaction (cfg : Config) (ledger : Int) : List RawTransaction → State → Next
  | [], s =>
    ({ s.call cfg true .flush with swept := ledger :: s.swept },
      .running (.flushing ledger s.persistence.tasks.length))
  | tx :: rest, s =>
    if tx.successful then (s, .running (.operations ledger tx rest))
    else nextTransaction cfg ledger rest s

/-- The head of the loop of `backfillGap`, and what follows it. -/
def nextBackfill (cfg : Config) (toLedger : Int) (events : List IndexedEvent) :
    List RawTransaction → State → Next
  | [], s =>
    if events = [] then (s, .running (.gettingLedger toLedger))
    else
      let s := s.enqueueAll cfg events
      (s.call cfg true .flush, .running (.backfillFlushing toLedger s.persistence.tasks.length))
  | tx :: rest, s =>
    if tx.successful then (s, .running (.backfilling toLedger tx rest events))
    else nextBackfill cfg toLedger events rest s

def advance (cfg : Config) (e : Env) (k : Call) (s : State) : Next :=
  match k with
  | .begin .start =>
    if s.running then (s, .done ()) else ({ s with running := true }, .running .readCounter)
  | .readCounter =>
    (s,
      if e.ok then .running (.initializeSequenceCounter s.persistence.shared.sequenceCounter)
      else .done ())
  | .initializeSequenceCounter «from» =>
    (State.call cfg e.ok .startFlushTimer { s with sequenceCounter := «from», restored := true },
      .running (.startingTimer s.persistence.tasks.length))
  | .startingTimer i => (s, .running (if s.returned i then .connecting else .startingTimer i))
  | .connecting => (if e.ok then { s with streaming := true } else s, .done ())
  | .begin .stop => (State.call cfg true .flush { s with running := false, streaming := false }, .done ())
  | .begin (.handleLedgerClose ledger) =>
    (s, if s.streaming then .running (.fetching ledger) else .done ())
  | .fetching ledger =>
    -- a fetch that fails counts as an empty ledger
    nextTransaction cfg ledger (e.page.getD []) s
  | .operations ledger tx rest =>
    match e.operations with
    | none => nextTransaction cfg ledger rest s
    | some operations =>
      let (indexed, s) := s.assign (normalizeStellarOperations tx operations)
      let (accepted, s) := s.handOver cfg e.now indexed
      if accepted then (s, .running (.distributing ledger rest)) else nextTransaction cfg ledger rest s
  | .distributing ledger rest => if e.ok then nextTransaction cfg ledger rest s else (s, .done ())
  | .flushing ledger i =>
    (s,
      if !s.returned i then .running (.flushing ledger i)
      else if s.persistence.shared.pendingBatch = [] then .running (.saving ledger)
      else .done ())
  | .saving ledger => (if e.ok then { s with lastIndexedLedger := some ledger } else s, .done ())
  | .begin (.handleSorobanEvents events) =>
    let (indexed, s) := s.assign (events.map normalizeSorobanEvent)
    ((s.handOver cfg e.now indexed).2, .done ())
  | .begin (.backfillGap fromLedger toLedger) =>
    (s, if toLedger < fromLedger then .done () else .running (.fetchingRange fromLedger toLedger []))
  | .fetchingRange ledger toLedger fetched =>
    let fetched := fetched ++ e.page.getD []
    (s, .running (if ledger < toLedger then .fetchingRange (ledger + 1) toLedger fetched
      else .readPersisted toLedger fetched))
  | .readPersisted toLedger transactions =>
    (s, if e.ok then .running (.raise toLedger transactions s.persistence.shared.sequenceCounter)
      else .done ())
  | .raise toLedger transactions persistedCounter =>
    nextBackfill cfg toLedger [] transactions
      { s with
        sequenceCounter :=
          if s.sequenceCounter < persistedCounter then persistedCounter else s.sequenceCounter
        restored := true }
  | .backfilling toLedger tx rest events =>
    match e.operations with
    | none => nextBackfill cfg toLedger events rest s
    | some operations =>
      let (indexed, s) := s.assign (normalizeStellarOperations tx operations)
      nextBackfill cfg toLedger (events ++ indexed) rest s
  | .backfillFlushing toLedger i =>
    (s, .running (if s.returned i then .gettingLedger toLedger else .backfillFlushing toLedger i))
  | .gettingLedger toLedger => (s, if e.ok then .running (.saving toLedger) else .done ())

def indexerProc (cfg : Config) : Proc State Env Op Call Unit := ⟨.begin, advance cfg⟩

/-- `persist` is a step of the persistence, `flush` what its timer does and `evictExpired` what the
timer of the buffer does. -/
inductive Action where
  | call (a : Act Env Op)
  | persist (i : Nat) (ok : Bool)
  | flush
  | evictExpired (now : Time)
  | crash

def State.persist (cfg : Config) (i : Nat) (ok : Bool) (s : State) : State :=
  { s with persistence := (Persistence.persistProc cfg.batchMaxSize).step s.persistence (.sched i ok) }

def step (cfg : Config) (c : Conf State Call Unit) : Action → Conf State Call Unit
  | .call a => (indexerProc cfg).step c a
  | .persist i ok => ⟨c.shared.persist cfg i ok, c.tasks⟩
  | .flush => ⟨c.shared.call cfg true .flush, c.tasks⟩
  | .evictExpired now =>
    ⟨{ c.shared with buffer := c.shared.buffer.evictExpired cfg.buffer now }, c.tasks⟩
  | .crash => ⟨c.shared.restart, []⟩

/-- The condition on a run: `S` of every call made, `G` of the state before every step of a call. -/
def Meeting (S : Op → Prop) (G : Env → Call → State → List (Task Call Unit) → Prop)
    (c : Conf State Call Unit) : Action → Prop
  | .call a => Meets S G c a
  | _ => True

instance Meeting.decidable {S : Op → Prop} {G : Env → Call → State → List (Task Call Unit) → Prop}
    [DecidablePred S] [∀ e k s ts, Decidable (G e k s ts)] (c : Conf State Call Unit) :
    ∀ a : Action, Decidable (Meeting S G c a)
  | .call a => inferInstanceAs (Decidable (Meets S G c a))
  | .persist _ _ | .flush | .evictExpired _ | .crash => .isTrue trivial

/-- The invariant rule. -/
theorem pipeline_inv (cfg : Config) {S : Op → Prop}
    {G : Env → Call → State → List (Task Call Unit) → Prop} {I : State → List (Task Call Unit) → Prop}
    (hspawn : ∀ s ts op, S op → I s ts → I s (ts ++ [Task.running (Call.begin op)]))
    (hadv : ∀ s pre k post e, G e k s (pre ++ .running k :: post) →
      I s (pre ++ .running k :: post) → I (advance cfg e k s).1 (pre ++ (advance cfg e k s).2 :: post))
    (hpersist : ∀ s ts i ok, I s ts → I (s.persist cfg i ok) ts)
    (hflush : ∀ s ts, I s ts → I (s.call cfg true .flush) ts)
    (hevict : ∀ s ts now, I s ts →
      I { s with buffer := s.buffer.evictExpired cfg.buffer now } ts)
    (hcrash : ∀ s ts, I s ts → I s.restart [])
    (c : Conf State Call Unit) (a : Action) (h : I c.shared c.tasks) (hG : Meeting S G c a) :
    I (step cfg c a).shared (step cfg c a).tasks := by
  cases a with
  | call a => exact step_inv (indexerProc cfg) hspawn hadv c a h hG
  | persist i ok => exact hpersist _ _ i ok h
  | flush => exact hflush _ _ h
  | evictExpired now => exact hevict _ _ now h
  | crash => exact hcrash _ _ h

/-! ## What the parts of a step leave alone -/

theorem assign_payload (s : State) (events : List UnsequencedEvent) :
    (s.assign events).1.map (·.payload) = events :=
  (assignSequences_spec s.sequenceCounter events).2.1

section

variable (cfg : Config)

theorem enqueueAll_frame (events : List IndexedEvent) (s : State) :
    ∃ p, s.enqueueAll cfg events = { s with persistence := p } := by
  induction events generalizing s with
  | nil => exact ⟨s.persistence, rfl⟩
  | cons event events ih =>
    obtain ⟨p, hp⟩ := ih (s.call cfg true (.enqueue event))
    exact ⟨p, hp⟩

theorem handOver_frame (now : Time) (indexed : List IndexedEvent) (s : State) :
    ∃ b p, (s.handOver cfg now indexed).2 = { s with buffer := b, persistence := p } := by
  simp only [State.handOver]
  split
  · obtain ⟨p, hp⟩ := enqueueAll_frame cfg _ _
    exact ⟨_, p, hp⟩
  · exact ⟨_, s.persistence, rfl⟩

/-- The loop head stops at the next successful transaction, or flushes. -/
theorem nextTransaction_cases (ledger : Int) (txs : List RawTransaction) (s : State) :
    (∃ skipped tx rest, txs = skipped ++ tx :: rest ∧ (∀ t ∈ skipped, t.successful = false) ∧
      nextTransaction cfg ledger txs s = (s, .running (.operations ledger tx rest))) ∨
    (∀ t ∈ txs, t.successful = false) ∧
      nextTransaction cfg ledger txs s = ({ s.call cfg true .flush with swept := ledger :: s.swept },
        .running (.flushing ledger s.persistence.tasks.length)) := by
  induction txs with
  | nil => exact .inr ⟨by simp, rfl⟩
  | cons tx txs ih =>
    simp only [nextTransaction]
    split
    · exact .inl ⟨[], tx, txs, rfl, by simp, rfl⟩
    · rename_i htx
      have htx : tx.successful = false := by simpa using htx
      rcases ih with ⟨skipped, tx', rest, rfl, hskip, heq⟩ | ⟨hall, heq⟩
      · exact .inl ⟨tx :: skipped, tx', rest, rfl, by simpa [htx] using hskip, heq⟩
      · exact .inr ⟨by simpa [htx] using hall, heq⟩

/-- The loop head stops at the next successful transaction, or ends the loop: without an event it goes on
to the cursor, else it enqueues them and flushes. -/
theorem nextBackfill_cases (toLedger : Int) (events : List IndexedEvent) (txs : List RawTransaction)
    (s : State) :
    (∃ skipped tx rest, txs = skipped ++ tx :: rest ∧ (∀ t ∈ skipped, t.successful = false) ∧
      tx.successful = true ∧
      nextBackfill cfg toLedger events txs s = (s, .running (.backfilling toLedger tx rest events))) ∨
    (∀ t ∈ txs, t.successful = false) ∧ events = [] ∧
      nextBackfill cfg toLedger events txs s = (s, .running (.gettingLedger toLedger)) ∨
    (∀ t ∈ txs, t.successful = false) ∧
      nextBackfill cfg toLedger events txs s = ((s.enqueueAll cfg events).call cfg true .flush,
        .running (.backfillFlushing toLedger (s.enqueueAll cfg events).persistence.tasks.length)) := by
  induction txs with
  | nil =>
    simp only [nextBackfill]
    split
    · rename_i hnone
      exact .inr (.inl ⟨by simp, hnone, rfl⟩)
    · exact .inr (.inr ⟨by simp, rfl⟩)
  | cons tx txs ih =>
    simp only [nextBackfill]
    split
    · rename_i htx
      exact .inl ⟨[], tx, txs, rfl, by simp, htx, rfl⟩
    · rename_i htx
      have htx : tx.successful = false := by simpa using htx
      rcases ih with ⟨skipped, tx', rest, rfl, hskip, htx', heq⟩ | ⟨hall, hnone, heq⟩ | ⟨hall, heq⟩
      · exact .inl ⟨tx :: skipped, tx', rest, rfl, by simpa [htx] using hskip, htx', heq⟩
      · exact .inr (.inl ⟨by simpa [htx] using hall, hnone, heq⟩)
      · exact .inr (.inr ⟨by simpa [htx] using hall, heq⟩)

end

end Pipeline

end Indexer
end TradeCore
