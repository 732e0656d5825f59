import TradeCore.Indexer.Cursor
import TradeCore.Indexer.EventIndexer

/-!
# TradeCore.Indexer.Reorg

`ReorgHandlerService`: one call of `detectAndHandle` with the recovery it may start, and what the two
tables hold when it ends.

The call is cut at every `await`; its backfill runs the steps of `backfillGap` in `Pipeline`. Beside it
the persistence goes on, and so do its timer and the one of the buffer. Nothing else writes to the
tables meanwhile, as at start-up, where the check comes before the indexers.

The handler takes the last indexed ledger for the fork, invalidates both tables from there on and
indexes the replacement into `indexed_events` only. `recovered_iff` says for which branches that is
right.
-/

namespace TradeCore
namespace Indexer

open Lib

namespace Persistence

section

variable {α : Type}

/-- Rows are added, none of them under a number that was taken. -/
def Appends (rows rows' : List (IndexedEventInput α)) : Prop :=
  ∃ new, rows' = rows ++ new ∧ ∀ e ∈ new, e.sequenceNumber ∉ rows.map (·.sequenceNumber)

theorem Appends.refl (rows : List (IndexedEventInput α)) : Appends rows rows :=
  ⟨[], by simp, by simp⟩

theorem Appends.trans {rows rows' rows'' : List (IndexedEventInput α)} (h : Appends rows rows')
    (h' : Appends rows' rows'') : Appends rows rows'' := by
  obtain ⟨new, rfl, hfresh⟩ := h
  obtain ⟨new', rfl, hfresh'⟩ := h'
  refine ⟨new ++ new', List.append_assoc .., fun e he => ?_⟩
  rcases List.mem_append.mp he with he | he
  · exact hfresh e he
  · have := hfresh' e he
    rw [List.map_append, List.mem_append, not_or] at this
    exact this.1

theorem insertOrIgnore_eq (rows batch : List (IndexedEventInput α)) :
    insertOrIgnore rows batch = Lib.insertOrIgnore (·.sequenceNumber) rows batch := by
  induction batch generalizing rows with
  | nil => rfl
  | cons e batch ih => simp only [insertOrIgnore, Lib.insertOrIgnore, ih]

theorem appends_commit (batch : List (IndexedEventInput α)) (s : State α) :
    Appends s.rows (commit batch s).1.rows := by
  refine ⟨(Lib.insertOrIgnore (·.sequenceNumber) s.rows batch).2, ?_, fun e he => (mem_inserted he).2⟩
  rw [← insertOrIgnore_fst, ← insertOrIgnore_eq]
  rfl

theorem appends_advance (n : Int) (ok : Bool) (c : Call α) (s : State α) :
    Appends s.rows (advance n ok c s).1.rows := by
  have hsame : ∀ s' : State α, s'.rows = s.rows → Appends s.rows s'.rows := by
    intro s' hs'
    rw [hs']
    exact .refl _
  cases c with
  | start op =>
    cases op with
    | enqueue event =>
      simp only [advance, enqueue]
      split
      · exact hsame _ (takes_flush n 0 (push event s)).rows
      · exact hsame _ rfl
    | flush => exact hsame _ (takes_flush n 0 s).rows
    | startFlushTimer =>
      simp only [advance]
      split
      · exact hsame _ rfl
      · exact hsame _ rfl
  | seeding persisted =>
    simp only [advance]
    split
    · split
      · exact hsame _ rfl
      · exact hsame _ rfl
    · exact hsame _ rfl
  | awaiting d =>
    simp only [advance]
    split
    · exact hsame _ (takes_flush n _ s).rows
    · exact hsame _ rfl
  | inserting a p d batch =>
    simp only [advance]
    split
    · split
      · exact appends_commit batch s
      · rw [persistedBatch, (takes_drainPending n a _ d _).rows]
        exact appends_commit batch s
    · exact hsame _ rfl
  | counting a p d batch counter inserted =>
    simp only [advance]
    split
    · exact hsame _ (takes_drainPending n a _ d _).rows
    · exact hsame _ rfl
  | returning a d p => exact hsame _ rfl

theorem appends_step (n : Int) (c : Conf (State α) (Call α) Nat) (a : Act Bool (Op α)) :
    Appends c.shared.rows ((persistProc n).step c a).shared.rows := by
  obtain ⟨x, rfl, hs⟩ | ⟨i, ok, call, pre, post, rfl, hi, ht, hs⟩ | hs := step_cases (persistProc n) c a
  · rw [hs]
    exact .refl _
  · rw [hs]
    exact appends_advance n ok call c.shared
  · rw [hs]
    exact .refl _

/-- What the service holds satisfies `A`, and its table extends `rows`. -/
structure Extends (A : IndexedEventInput α → Prop) (rows : List (IndexedEventInput α))
    (c : Conf (State α) (Call α) Nat) : Prop where
  supply : Supply A c.shared c.tasks
  appends : Appends rows c.shared.rows

theorem extends_step {A : IndexedEventInput α → Prop} {rows : List (IndexedEventInput α)}
    {c : Conf (State α) (Call α) Nat} (n : Int) (a : Act Bool (Op α)) (h : Extends A rows c)
    (ha : Meets (Brings A) (fun _ _ _ _ => True) c a) : Extends A rows ((persistProc n).step c a) :=
  ⟨supply_step n c a h.supply ha, h.appends.trans (appends_step n c a)⟩

theorem extends_call {A : IndexedEventInput α → Prop} {rows : List (IndexedEventInput α)}
    {c : Conf (State α) (Call α) Nat} {op : Op α} (n : Int) (ok : Bool) (h : Extends A rows c)
    (hop : Brings A op) : Extends A rows (call n ok op c) :=
  extends_step n _ (extends_step n (.spawn op) h hop) fun _ _ => trivial

/-- A row that is not one of the old ones has come from what the service holds. -/
theorem Extends.new {A : IndexedEventInput α → Prop} {rows : List (IndexedEventInput α)}
    {c : Conf (State α) (Call α) Nat} (h : Extends A rows c) :
    ∃ new, c.shared.rows = rows ++ new ∧ ∀ e ∈ new, e ∉ rows ∧ A e := by
  obtain ⟨new, heq, hfresh⟩ := h.appends
  refine ⟨new, heq, fun e he => ⟨fun hin => hfresh e he (List.mem_map_of_mem hin), ?_⟩⟩
  refine h.supply.rows e ?_
  rw [heq]
  exact List.mem_append_right _ he

end

end Persistence

namespace Reorg

open EventIndexer (BlockchainEvent transformOperations)

/-- A branch of the chain: what Horizon returns for it, and what the contracts have emitted on it. -/
structure Branch extends Pipeline.Chain where
  contractEvents : Int → List ParsedContractEvent
  emitted : ∀ ledger, ∀ e ∈ contractEvents ledger, e.ledger = ledger

namespace Branch

def indexedEvents (b : Branch) (ledger : Int) : List UnsequencedEvent :=
  b.events ledger ++ (b.contractEvents ledger).map normalizeSorobanEvent

def legacyEventsOf (b : Branch) (tx : RawTransaction) : List BlockchainEvent :=
  if tx.successful then transformOperations tx (b.operations tx.hash) else []

def legacyEvents (b : Branch) (ledger : Int) : List BlockchainEvent :=
  (b.transactions ledger).flatMap b.legacyEventsOf

theorem events_nil_of_legacyEvents_nil {b : Branch} {ledger : Int} (h : b.legacyEvents ledger = []) :
    b.events ledger = [] := by
  rw [legacyEvents, List.flatMap_eq_nil_iff] at h
  rw [Pipeline.Chain.events, List.flatMap_eq_nil_iff]
  intro tx htx
  have hnil := h tx htx
  rw [legacyEventsOf] at hnil
  rw [Pipeline.Chain.eventsOf]
  split at hnil
  · rename_i hok
    rw [if_pos hok]
    exact EventIndexer.normalize_nil_of_transform_nil hnil
  · rename_i hok
    rw [if_neg hok]

end Branch

structure Config extends Pipeline.Config where
  maxBackfillLedgers : Int

/-- The process with the columns that only a reorg check reads. `invalidated` are the rows of
`indexed_events` with that flag set. -/
structure State where
  base : Pipeline.State
  lastIndexedLedgerHash : Option String
  invalidated : List IndexedEvent
  legacy : List BlockchainEvent
  lastCheckAt : Option Time
  lastReorgDetectedAt : Option Time
  reorgCount : Nat

namespace State

def rows (s : State) : List IndexedEvent := s.base.persistence.shared.rows

/-- The non-invalidated events of a ledger in `indexed_events`. -/
def validIndexed (s : State) (ledger : Int) : List UnsequencedEvent :=
  (s.rows.filter fun r => r.payload.ledgerSequence = ledger ∧ r ∉ s.invalidated).map (·.payload)

/-- Those in `blockchain_events`. -/
def validLegacy (s : State) (ledger : Int) : List BlockchainEvent :=
  s.legacy.filter fun r => r.ledger = ledger ∧ r.invalidated = false

/-- One transaction over both tables. -/
def invalidateEventsFromLedger (fromLedger : Int) (s : State) : State :=
  { s with
    invalidated := s.invalidated ++
      s.rows.filter fun r => fromLedger ≤ r.payload.ledgerSequence ∧ r ∉ s.invalidated
    legacy := s.legacy.map fun r =>
      if fromLedger ≤ r.ledger ∧ r.invalidated = false then { r with invalidated := true } else r }

def setLastIndexedLedger (ledger : Int) (hash : Option String) (s : State) : State :=
  { s with
    base := { s.base with lastIndexedLedger := some ledger }
    lastIndexedLedgerHash := hash }

end State

structure LedgerSnapshot where
  sequence : Int
  hash : String
  deriving DecidableEq, Repr

/-- The answer of the awaited call: `latest` and `ledger` are those of `getLatestLedgerSequence` and
`getLedger`, and `message` is the text of the error where `ok` is false. -/
structure Env extends Pipeline.Env where
  latest : Int
  ledger : Option LedgerSnapshot
  message : String
  deriving DecidableEq, Repr

/-- Where the check stands. A backfill carries the hash it will save with the cursor. -/
inductive Call where
  | begin
  | fetchingLatest
  | readingLast (currentLedger : Int)
  | readingHash (currentLedger lastIndexedLedger : Int)
  | gettingLedger (currentLedger lastIndexedLedger : Int) (storedHash : String)
  | invalidating (forkLedger currentLedger : Int)
  | rewinding (forkLedger currentLedger : Int)
  | backfill (recovering : Bool) (hash : Option String) (k : Pipeline.Call)
  deriving DecidableEq, Repr

abbrev Outcome := Task Call (Except HttpError Bool)

abbrev Next := State × Outcome

def unavailable (message : String) : Outcome := .done (.error (.serviceUnavailable message))

/-- The awaits of a backfill that end it when they fail. -/
def backfillFails (e : Env) : Pipeline.Call → Bool
  | .readPersisted _ _ | .gettingLedger _ | .saving _ => !e.ok
  | _ => false

/-- The recovery swallows the error of its backfill. -/
def backfillEnds (recovering failed : Bool) : Outcome :=
  if recovering then .done (.ok true)
  else if failed then unavailable "Backfill failed"
  else .done (.ok false)

/-- A step of the backfill. The cursor is saved together with the hash that was fetched before. -/
def backfillStep (cfg : Config) (e : Env) (recovering : Bool) (hash : Option String)
    (k : Pipeline.Call) (s : State) : Next :=
  let (base, t) := Pipeline.advance cfg.toConfig e.toEnv k s.base
  let s := { s with
    base := base
    lastIndexedLedgerHash :=
      match k with
      | .saving _ => if e.ok then hash else s.lastIndexedLedgerHash
      | _ => s.lastIndexedLedgerHash }
  let hash :=
    match k with
    | .gettingLedger _ => e.ledger.map (·.hash)
    | _ => hash
  match t with
  | .running k => (s, .running (.backfill recovering hash k))
  | .done () => (s, backfillEnds recovering (backfillFails e k))

def recoverFromReorg (e : Env) (forkLedger currentLedger : Int) (s : State) : Next :=
  ({ s with reorgCount := s.reorgCount + 1, lastReorgDetectedAt := some e.now },
    .running (.invalidating forkLedger currentLedger))

/-- The end of `detectAndHandle` where there is no reorg. -/
def checkGap (cfg : Config) (currentLedger lastIndexedLedger : Int) : Outcome :=
  if cfg.maxBackfillLedgers < currentLedger - lastIndexedLedger then
    .running (.backfill false none (.begin (.backfillGap (lastIndexedLedger + 1)
      (min currentLedger (lastIndexedLedger + cfg.maxBackfillLedgers)))))
  else .done (.ok false)

def advance (cfg : Config) (e : Env) (k : Call) (s : State) : Next :=
  match k with
  | .begin => ({ s with lastCheckAt := some e.now }, .running .fetchingLatest)
  | .fetchingLatest =>
    (s, if e.ok then .running (.readingLast e.latest)
      else unavailable ("Failed to fetch latest ledger: " ++ e.message))
  | .readingLast currentLedger =>
    (s, if e.ok then
        match s.base.lastIndexedLedger with
        | none => .done (.ok false)
        | some lastIndexedLedger => .running (.readingHash currentLedger lastIndexedLedger)
      else .done (.error databaseError))
  | .readingHash currentLedger lastIndexedLedger =>
    (s, if e.ok then
        match s.lastIndexedLedgerHash with
        | none => checkGap cfg currentLedger lastIndexedLedger
        | some storedHash =>
          -- the empty text is no hash
          if storedHash = "" then checkGap cfg currentLedger lastIndexedLedger
          else .running (.gettingLedger currentLedger lastIndexedLedger storedHash)
      else .done (.error databaseError))
  | .gettingLedger currentLedger lastIndexedLedger storedHash =>
    if e.ok then
      match e.ledger with
      | none => recoverFromReorg e lastIndexedLedger currentLedger s
      | some onChainLedger =>
        if onChainLedger.hash ≠ storedHash then recoverFromReorg e lastIndexedLedger currentLedger s
        else (s, checkGap cfg currentLedger lastIndexedLedger)
    else (s, unavailable ("Failed to fetch ledger " ++ toString lastIndexedLedger ++ ": " ++ e.message))
  | .invalidating forkLedger currentLedger =>
    if e.ok then
      (s.invalidateEventsFromLedger forkLedger, .running (.rewinding forkLedger currentLedger))
    else (s, unavailable "Failed to invalidate events")
  | .rewinding forkLedger currentLedger =>
    if e.ok then
      (s.setLastIndexedLedger (max (forkLedger - 1) 0) none,
        .running (.backfill true none (.begin (.backfillGap forkLedger
          (min currentLedger (forkLedger + cfg.maxBackfillLedgers - 1))))))
    else (s, unavailable "Unable to persist indexing state")
  | .backfill recovering hash k => backfillStep cfg e recovering hash k s

/-- `check` is a step of the call, the others are those of `Pipeline.Action` that go on beside it. -/
inductive Action where
  | check (e : Env)
  | persist (i : Nat) (ok : Bool)
  | flush
  | evictExpired (now : Time)

def step (cfg : Config) (c : Next) : Action → Next
  | .check e =>
    match c.2 with
    | .running k => advance cfg e k c.1
    | .done _ => c
  | .persist i ok => ({ c.1 with base := c.1.base.persist cfg.toConfig i ok }, c.2)
  | .flush => ({ c.1 with base := c.1.base.call cfg.toConfig true .flush }, c.2)
  | .evictExpired now =>
    ({ c.1 with base :=
        { c.1.base with buffer := c.1.base.buffer.evictExpired cfg.toConfig.buffer now } }, c.2)

def detectAndHandle (s : State) : Next := (s, .running .begin)

/-! ## What the property is about -/

/-- The non-invalidated events of the ledger are those of the branch, each as often as it is there. -/
def Holds (b : Branch) (s : State) (ledger : Int) : Prop :=
  (s.validIndexed ledger).Perm (b.indexedEvents ledger) ∧
    (s.validLegacy ledger).Perm (b.legacyEvents ledger)

instance (b : Branch) (s : State) (ledger : Int) : Decidable (Holds b s ledger) :=
  inferInstanceAs (Decidable (_ ∧ _))

/-- Horizon answers a backfill with transactions of the ledger and operations of the transaction it was
asked for, as the branch has them. It may leave some out, and may fail. -/
def Answers (b : Branch) (c : Next) : Action → Prop
  | .check e =>
    match c.2 with
    | .running (.backfill _ _ (.fetchingRange ledger _ _)) =>
      ∀ tx ∈ e.page.getD [], tx ∈ b.transactions ledger
    | .running (.backfill _ _ (.backfilling _ tx _ _)) =>
      ∀ op ∈ e.operations.getD [], op ∈ b.operations tx.hash
    | _ => True
  | _ => True

instance (b : Branch) (c : Next) (a : Action) : Decidable (Answers b c a) := by
  unfold Answers
  split
  · split <;> infer_instance
  · infer_instance

/-- The service has nothing to write any more that the reorg is about. -/
def Settled (fork last : Int) (rows : List IndexedEvent) (e : IndexedEvent) : Prop :=
  e ∈ rows ∨ e.payload.ledgerSequence < fork ∨ last < e.payload.ledgerSequence

/-- A reorg of the ledgers `fork` to `last`: the cursor is at `last`, and of the ledgers from `fork` on
the tables hold the events of the abandoned branch. -/
structure Reorganised (fork last : Int) (abandoned : Branch) (s : State) : Prop where
  depth : fork ≤ last
  cursor : s.base.lastIndexedLedger = some last
  stored : ∀ ledger, fork ≤ ledger → ledger ≤ last → Holds abandoned s ledger
  settled : Persistence.Supply (Settled fork last s.rows) s.base.persistence.shared
    s.base.persistence.tasks

/-- The canonical branch has nothing in the last ledger, and below it what the abandoned one has. -/
structure Recoverable (fork last : Int) (abandoned canonical : Branch) : Prop where
  legacy : canonical.legacyEvents last = []
  contract : canonical.contractEvents last = []
  below : ∀ ledger, fork ≤ ledger → ledger < last →
    (abandoned.indexedEvents ledger).Perm (canonical.indexedEvents ledger) ∧
      (abandoned.legacyEvents ledger).Perm (canonical.legacyEvents ledger)

/-! ## What the backfill brings -/

/-- A transaction of the branch, of ledger `first` or a later one. -/
def Sourced (b : Branch) (first : Int) (tx : RawTransaction) : Prop :=
  first ≤ tx.ledger ∧ tx ∈ b.transactions tx.ledger

def Replacing (b : Branch) (first : Int) (e : UnsequencedEvent) : Prop :=
  first ≤ e.ledgerSequence ∧ e ∈ b.events e.ledgerSequence

/-- How far a backfill from ledger `first` on has come. -/
def Carries (b : Branch) (first : Int) : Pipeline.Call → Prop
  | .begin (.backfillGap fromLedger _) => first ≤ fromLedger
  | .fetchingRange ledger _ fetched => first ≤ ledger ∧ ∀ tx ∈ fetched, Sourced b first tx
  | .readPersisted _ txs | .raise _ txs _ => ∀ tx ∈ txs, Sourced b first tx
  | .backfilling _ tx rest events =>
    tx.successful = true ∧ (∀ t ∈ tx :: rest, Sourced b first t) ∧
      ∀ e ∈ events, Replacing b first e.payload
  | .backfillFlushing _ _ | .gettingLedger _ | .saving _ => True
  | _ => False

theorem replacing_of_operations {b : Branch} {first : Int} {tx : RawTransaction}
    {operations : List RawOperation} (htx : Sourced b first tx) (hok : tx.successful = true)
    (hops : ∀ op ∈ operations, op ∈ b.operations tx.hash) {e : UnsequencedEvent}
    (he : e ∈ normalizeStellarOperations tx operations) : Replacing b first e := by
  rw [Replacing, mem_normalizeStellarOperations he]
  refine ⟨htx.1, List.mem_flatMap.mpr ⟨tx, htx.2, ?_⟩⟩
  rw [Pipeline.Chain.eventsOf, if_pos hok]
  obtain ⟨op, hop, heq⟩ := List.mem_filterMap.mp he
  exact List.mem_filterMap.mpr ⟨op, hops op hop, heq⟩

section

open Pipeline (nextBackfill)
open Persistence (Extends)

variable {b : Branch} {first : Int} {cfg : Pipeline.Config} {A : IndexedEvent → Prop}
  {rows : List IndexedEvent} {s : Pipeline.State}

theorem extends_enqueueAll (cfg : Pipeline.Config) {events : List IndexedEvent} (h : Extends A rows s.persistence)
    (hevents : ∀ e ∈ events, A e) : Extends A rows (s.enqueueAll cfg events).persistence := by
  induction events generalizing s with
  | nil => exact h
  | cons event events ih =>
    refine ih (Persistence.extends_call _ _ h (hevents event List.mem_cons_self)) ?_
    exact fun e he => hevents e (List.mem_cons_of_mem _ he)

/-- What a step of the backfill comes to. -/
structure Brought (b : Branch) (first : Int) (A : IndexedEvent → Prop) (rows : List IndexedEvent)
    (next : Pipeline.Next) : Prop where
  persistence : Extends A rows next.1.persistence
  call : ∀ k, next.2 = .running k → Carries b first k

theorem brought_nextBackfill (hA : ∀ e : IndexedEvent, Replacing b first e.payload → A e)
    (h : Extends A rows s.persistence) {toLedger : Int} {events : List IndexedEvent}
    {txs : List RawTransaction} (hevents : ∀ e ∈ events, Replacing b first e.payload)
    (htxs : ∀ tx ∈ txs, Sourced b first tx) :
    Brought b first A rows (nextBackfill cfg toLedger events txs s) := by
  rcases Pipeline.nextBackfill_cases cfg toLedger events txs s with
    ⟨skipped, tx, rest, rfl, -, hok, heq⟩ | ⟨-, -, heq⟩ | ⟨-, heq⟩
  · rw [heq]
    refine ⟨h, ?_⟩
    rintro k ⟨⟩
    exact ⟨hok, fun t ht => htxs t (List.mem_append_right _ ht), hevents⟩
  · rw [heq]
    refine ⟨h, ?_⟩
    rintro k ⟨⟩
    trivial
  · rw [heq]
    have hall := extends_enqueueAll cfg h fun e he => hA e (hevents e he)
    refine ⟨Persistence.extends_call _ true hall trivial, ?_⟩
    rintro k ⟨⟩
    trivial

theorem brought_backfilling (hA : ∀ e : IndexedEvent, Replacing b first e.payload → A e)
    (h : Extends A rows s.persistence) {e : Pipeline.Env} {toLedger : Int} {tx : RawTransaction}
    {rest : List RawTransaction} {events : List IndexedEvent}
    (hk : Carries b first (.backfilling toLedger tx rest events))
    (hops : ∀ op ∈ e.operations.getD [], op ∈ b.operations tx.hash) :
    Brought b first A rows (Pipeline.advance cfg e (.backfilling toLedger tx rest events) s) := by
  obtain ⟨hok, htxs, hevents⟩ := hk
  have hrest : ∀ t ∈ rest, Sourced b first t := fun t ht => htxs t (List.mem_cons_of_mem _ ht)
  simp only [Pipeline.advance]
  split
  · exact brought_nextBackfill hA h hevents hrest
  · rename_i operations hfetched
    rw [hfetched, Option.getD_some] at hops
    have hassigned : Extends A rows
        (s.assign (normalizeStellarOperations tx operations)).2.persistence := h
    refine brought_nextBackfill hA hassigned (fun x hx => ?_) hrest
    rcases List.mem_append.mp hx with hx | hx
    · exact hevents x hx
    · refine replacing_of_operations (htxs tx List.mem_cons_self) hok hops ?_
      rw [← Pipeline.assign_payload s (normalizeStellarOperations tx operations)]
      exact List.mem_map_of_mem hx

theorem brought_advance (hA : ∀ e : IndexedEvent, Replacing b first e.payload → A e)
    (h : Extends A rows s.persistence) {e : Pipeline.Env} {k : Pipeline.Call} (hk : Carries b first k)
    (hpage : ∀ ledger to' fetched, k = .fetchingRange ledger to' fetched →
      ∀ tx ∈ e.page.getD [], tx ∈ b.transactions ledger)
    (hops : ∀ to' tx rest events, k = .backfilling to' tx rest events →
      ∀ op ∈ e.operations.getD [], op ∈ b.operations tx.hash) :
    Brought b first A rows (Pipeline.advance cfg e k s) := by
  cases k with
  | begin op =>
    cases op with
    | backfillGap fromLedger toLedger =>
      simp only [Pipeline.advance]
      refine ⟨h, ?_⟩
      split
      · rintro k ⟨⟩
      · rintro k ⟨⟩
        exact ⟨hk, fun tx htx => by cases htx⟩
    | _ => cases hk
  | fetchingRange ledger toLedger fetched =>
    obtain ⟨hfirst, hfetched⟩ := hk
    have hall : ∀ tx ∈ fetched ++ e.page.getD [], Sourced b first tx := by
      intro tx htx
      rcases List.mem_append.mp htx with htx | htx
      · exact hfetched tx htx
      · have hin := hpage ledger toLedger fetched rfl tx htx
        rw [Sourced, b.own ledger tx hin]
        exact ⟨hfirst, hin⟩
    simp only [Pipeline.advance]
    refine ⟨h, fun k hk => ?_⟩
    split at hk
    · cases hk
      exact ⟨by omega, hall⟩
    · cases hk
      exact hall
  | readPersisted toLedger txs =>
    simp only [Pipeline.advance]
    refine ⟨h, fun k' hk' => ?_⟩
    split at hk'
    · cases hk'
      exact hk
    · cases hk'
  | raise toLedger txs counter =>
    have hraised : Extends A rows { s with
        sequenceCounter := if s.sequenceCounter < counter then counter else s.sequenceCounter
        restored := true }.persistence := h
    exact brought_nextBackfill hA hraised (fun e he => by cases he) hk
  | backfilling toLedger tx rest events =>
    exact brought_backfilling hA h hk (hops toLedger tx rest events rfl)
  | backfillFlushing toLedger i =>
    simp only [Pipeline.advance]
    refine ⟨h, ?_⟩
    split
    · rintro k ⟨⟩
      trivial
    · rintro k ⟨⟩
      trivial
  | gettingLedger toLedger =>
    simp only [Pipeline.advance]
    refine ⟨h, fun k' hk' => ?_⟩
    split at hk'
    · cases hk'
      trivial
    · cases hk'
  | saving toLedger =>
    simp only [Pipeline.advance]
    split
    · exact ⟨h, by simp⟩
    · exact ⟨h, by simp⟩
  | _ => cases hk

end

/-! ## The invariant -/

/-- What may be in the tables in the end. -/
def Expected (fork last : Int) (canonical : Branch) (s₀ : State) (e : IndexedEvent) : Prop :=
  Settled fork last s₀.rows e ∨ Replacing canonical last e.payload

/-- The check has not touched the tables yet. -/
structure Before (fork last : Int) (canonical : Branch) (s₀ s : State) : Prop where
  extended : Persistence.Extends (Expected fork last canonical s₀) s₀.rows s.base.persistence
  cursor : s.base.lastIndexedLedger = some last
  invalidated : s.invalidated = s₀.invalidated
  legacy : s.legacy = s₀.legacy

/-- The rows from `last` on were invalidated. -/
structure After (fork last : Int) (canonical : Branch) (s₀ s : State) : Prop where
  extended : Persistence.Extends (Expected fork last canonical s₀) s₀.rows s.base.persistence
  below : ∀ r : IndexedEvent, r.payload.ledgerSequence < last →
    (r ∈ s.invalidated ↔ r ∈ s₀.invalidated)
  above : ∀ r ∈ s₀.rows, last ≤ r.payload.ledgerSequence → r ∈ s.invalidated
  legacy : s.legacy = (s₀.invalidateEventsFromLedger last).legacy

/-- How far the check has come. Nothing is asked of one that has found no reorg. -/
def Progress (fork last : Int) (canonical : Branch) (s₀ s : State) : Outcome → Prop
  | .running (.readingHash _ last') | .running (.gettingLedger _ last' _)
  | .running (.invalidating last' _) => last' = last ∧ Before fork last canonical s₀ s
  | .running (.rewinding last' _) => last' = last ∧ After fork last canonical s₀ s
  | .running (.backfill true _ k) => Carries canonical last k ∧ After fork last canonical s₀ s
  | .running (.backfill false _ _) => True
  | .running _ => Before fork last canonical s₀ s
  | .done (.ok true) => After fork last canonical s₀ s
  | .done _ => True

section

variable {fork last : Int} {canonical : Branch} {s₀ s s' : State}

theorem Before.frame (h : Before fork last canonical s₀ s)
    (hext : Persistence.Extends (Expected fork last canonical s₀) s₀.rows s'.base.persistence)
    (hcursor : s'.base.lastIndexedLedger = s.base.lastIndexedLedger)
    (hinv : s'.invalidated = s.invalidated) (hlegacy : s'.legacy = s.legacy) :
    Before fork last canonical s₀ s' :=
  ⟨hext, hcursor.trans h.cursor, hinv.trans h.invalidated, hlegacy.trans h.legacy⟩

theorem After.frame (h : After fork last canonical s₀ s)
    (hext : Persistence.Extends (Expected fork last canonical s₀) s₀.rows s'.base.persistence)
    (hinv : s'.invalidated = s.invalidated) (hlegacy : s'.legacy = s.legacy) :
    After fork last canonical s₀ s' := by
  refine ⟨hext, ?_, ?_, hlegacy.trans h.legacy⟩
  · rw [hinv]
    exact h.below
  · rw [hinv]
    exact h.above

/-- A step beside the check. -/
theorem Progress.frame {t : Outcome} (h : Progress fork last canonical s₀ s t)
    (hext : Persistence.Extends (Expected fork last canonical s₀) s₀.rows s.base.persistence →
      Persistence.Extends (Expected fork last canonical s₀) s₀.rows s'.base.persistence)
    (hcursor : s'.base.lastIndexedLedger = s.base.lastIndexedLedger)
    (hinv : s'.invalidated = s.invalidated) (hlegacy : s'.legacy = s.legacy) :
    Progress fork last canonical s₀ s' t := by
  have hbefore : Before fork last canonical s₀ s → Before fork last canonical s₀ s' :=
    fun hb => hb.frame (hext hb.extended) hcursor hinv hlegacy
  have hafter : After fork last canonical s₀ s → After fork last canonical s₀ s' :=
    fun ha => ha.frame (hext ha.extended) hinv hlegacy
  cases t with
  | running k =>
    cases k with
    | begin => exact hbefore h
    | fetchingLatest => exact hbefore h
    | readingLast currentLedger => exact hbefore h
    | readingHash currentLedger last' => exact ⟨h.1, hbefore h.2⟩
    | gettingLedger currentLedger last' storedHash => exact ⟨h.1, hbefore h.2⟩
    | invalidating last' currentLedger => exact ⟨h.1, hbefore h.2⟩
    | rewinding last' currentLedger => exact ⟨h.1, hafter h.2⟩
    | backfill recovering hash k =>
      cases recovering with
      | true => exact ⟨h.1, hafter h.2⟩
      | false => trivial
  | done r =>
    cases r with
    | error err => trivial
    | ok reorg =>
      cases reorg with
      | true => exact hafter h
      | false => trivial

theorem Before.invalidate (h : Before fork last canonical s₀ s) :
    After fork last canonical s₀ (s.invalidateEventsFromLedger last) := by
  refine ⟨h.extended, fun r hr => ?_, fun r hr hle => ?_, ?_⟩
  · simp only [State.invalidateEventsFromLedger, h.invalidated, List.mem_append, List.mem_filter,
      decide_eq_true_eq]
    constructor
    · rintro (hin | ⟨-, hle, -⟩)
      · exact hin
      · omega
    · exact .inl
  · obtain ⟨new, heq, -⟩ := h.extended.new
    have hin : r ∈ s.rows := by
      rw [State.rows, heq]
      exact List.mem_append_left _ hr
    simp only [State.invalidateEventsFromLedger, List.mem_append, List.mem_filter, decide_eq_true_eq]
    by_cases hinv : r ∈ s.invalidated
    · exact .inl hinv
    · exact .inr ⟨hin, hle, hinv⟩
  · simp only [State.invalidateEventsFromLedger, h.legacy]

/-- What the check comes to where it finds no reorg. -/
theorem progress_checkGap (cfg : Config) (currentLedger last' : Int) :
    Progress fork last canonical s₀ s (checkGap cfg currentLedger last') := by
  unfold checkGap
  split
  · trivial
  · trivial

theorem progress_backfillEnds (failed : Bool) :
    Progress fork last canonical s₀ s (backfillEnds false failed) := by
  cases failed with
  | true => trivial
  | false => trivial

theorem progress_recover (h : Before fork last canonical s₀ s) (e : Env) (currentLedger : Int) :
    Progress fork last canonical s₀ (recoverFromReorg e last currentLedger s).1
      (recoverFromReorg e last currentLedger s).2 :=
  ⟨rfl, h.frame h.extended rfl rfl rfl⟩

theorem progress_backfillStep {cfg : Config} {e : Env} {hash : Option String} {k : Pipeline.Call}
    (hk : Carries canonical last k) (h : After fork last canonical s₀ s)
    (hG : Answers canonical (s, .running (.backfill true hash k)) (.check e)) :
    Progress fork last canonical s₀ (backfillStep cfg e true hash k s).1
      (backfillStep cfg e true hash k s).2 := by
  have hbrought : Brought canonical last (Expected fork last canonical s₀) s₀.rows
      (Pipeline.advance cfg.toConfig e.toEnv k s.base) := by
    refine brought_advance (fun x hx => .inr hx) h.extended hk ?_ ?_
    · rintro ledger to' fetched rfl
      exact hG
    · rintro to' tx rest events rfl
      exact hG
  simp only [backfillStep]
  generalize Pipeline.advance cfg.toConfig e.toEnv k s.base = next at hbrought ⊢
  obtain ⟨base, t⟩ := next
  cases t with
  | running k' => exact ⟨hbrought.call k' rfl, h.frame hbrought.persistence rfl rfl⟩
  | done r => exact h.frame hbrought.persistence rfl rfl

theorem progress_advance {cfg : Config} {e : Env} {k : Call}
    (h : Progress fork last canonical s₀ s (.running k))
    (hG : Answers canonical (s, .running k) (.check e)) :
    Progress fork last canonical s₀ (advance cfg e k s).1 (advance cfg e k s).2 := by
  cases k with
  | begin => exact Before.frame h h.extended rfl rfl rfl
  | fetchingLatest =>
    simp only [advance]
    split
    · exact h
    · trivial
  | readingLast currentLedger =>
    simp only [advance, Before.cursor h]
    split
    · exact ⟨rfl, h⟩
    · trivial
  | readingHash currentLedger last' =>
    simp only [advance]
    split
    · split
      · exact progress_checkGap cfg currentLedger last'
      · split
        · exact progress_checkGap cfg currentLedger last'
        · exact h
    · trivial
  | gettingLedger currentLedger last' storedHash =>
    obtain ⟨rfl, hbefore⟩ := h
    simp only [advance]
    split
    · split
      · exact progress_recover hbefore e currentLedger
      · split
        · exact progress_recover hbefore e currentLedger
        · exact progress_checkGap cfg currentLedger last'
    · trivial
  | invalidating last' currentLedger =>
    obtain ⟨rfl, hbefore⟩ := h
    simp only [advance]
    split
    · exact ⟨rfl, hbefore.invalidate⟩
    · trivial
  | rewinding last' currentLedger =>
    obtain ⟨rfl, hafter⟩ := h
    simp only [advance]
    split
    · exact ⟨Int.le_refl _, hafter.frame hafter.extended rfl rfl⟩
    · trivial
  | backfill recovering hash k =>
    cases recovering with
    | true => exact progress_backfillStep h.1 h.2 hG
    | false =>
      simp only [advance, backfillStep]
      split
      · trivial
      · exact progress_backfillEnds _

theorem progress_step (cfg : Config) (c : Next) (a : Action)
    (h : Progress fork last canonical s₀ c.1 c.2) (hG : Answers canonical c a) :
    Progress fork last canonical s₀ (step cfg c a).1 (step cfg c a).2 := by
  obtain ⟨s, t⟩ := c
  cases a with
  | check e =>
    cases t with
    | running k => exact progress_advance h hG
    | done r => exact h
  | persist i ok =>
    exact h.frame (fun hext => Persistence.extends_step _ (.sched i ok) hext fun _ _ => trivial)
      rfl rfl rfl
  | flush => exact h.frame (fun hext => Persistence.extends_call _ true hext trivial) rfl rfl rfl
  | evictExpired now => exact h.frame id rfl rfl rfl

theorem progress_begin {abandoned : Branch} (h : Reorganised fork last abandoned s₀) :
    Progress fork last canonical s₀ (detectAndHandle s₀).1 (detectAndHandle s₀).2 :=
  ⟨⟨⟨fun e he => .inl (h.settled.pending e he), fun e he => .inl (h.settled.held e he),
    fun e he => .inl (h.settled.rows e he), fun e he => .inl (h.settled.entering e he)⟩, .refl _⟩,
    h.cursor, rfl, rfl⟩

/-! ## What is there in the end -/

theorem After.validIndexed_below (h : After fork last canonical s₀ s) {ledger : Int}
    (hfork : fork ≤ ledger) (hlast : ledger < last) : s.validIndexed ledger = s₀.validIndexed ledger := by
  obtain ⟨new, heq, hnew⟩ := h.extended.new
  have hnone : new.filter (fun r => r.payload.ledgerSequence = ledger ∧ r ∉ s.invalidated) = [] := by
    rw [List.filter_eq_nil_iff]
    intro r hr hvalid
    obtain ⟨hledger, -⟩ := of_decide_eq_true hvalid
    obtain ⟨hnot, (hin | hout | hout) | ⟨hle, -⟩⟩ := hnew r hr
    · exact hnot hin
    · omega
    · omega
    · omega
  have hold : s₀.rows.filter (fun r => r.payload.ledgerSequence = ledger ∧ r ∉ s.invalidated) =
      s₀.rows.filter (fun r => r.payload.ledgerSequence = ledger ∧ r ∉ s₀.invalidated) := by
    refine List.filter_congr fun r _ => decide_eq_decide.mpr (and_congr_right fun hledger => ?_)
    exact not_congr (h.below r (hledger ▸ hlast))
  rw [State.validIndexed, State.rows, heq, List.filter_append, hnone, List.append_nil, hold]
  rfl

theorem After.mem_validIndexed_last (h : After fork last canonical s₀ s) (hdepth : fork ≤ last)
    {e : UnsequencedEvent} (he : e ∈ s.validIndexed last) : e ∈ canonical.events last := by
  obtain ⟨r, hr, rfl⟩ := List.mem_map.mp he
  obtain ⟨hin, hvalid⟩ := List.mem_filter.mp hr
  obtain ⟨hledger, hnot⟩ := of_decide_eq_true hvalid
  rcases h.extended.supply.rows r hin with (hold | hout | hout) | ⟨-, hevent⟩
  · exact absurd (h.above r hold (Int.le_of_eq hledger.symm)) hnot
  · omega
  · omega
  · exact hledger ▸ hevent

theorem After.validIndexed_last (h : After fork last canonical s₀ s) (hdepth : fork ≤ last)
    (hlegacy : canonical.legacyEvents last = []) : s.validIndexed last = [] := by
  rw [List.eq_nil_iff_forall_not_mem]
  intro e he
  have hin := h.mem_validIndexed_last hdepth he
  rw [Branch.events_nil_of_legacyEvents_nil hlegacy] at hin
  cases hin

theorem After.validLegacy_below (h : After fork last canonical s₀ s) {ledger : Int}
    (hlast : ledger < last) : s.validLegacy ledger = s₀.validLegacy ledger := by
  rw [State.validLegacy, h.legacy]
  simp only [State.validLegacy, State.invalidateEventsFromLedger]
  induction s₀.legacy with
  | nil => rfl
  | cons r rows ih =>
    rw [List.map_cons, List.filter_cons, List.filter_cons, ih]
    by_cases hr : last ≤ r.ledger ∧ r.invalidated = false
    · have hne : r.ledger ≠ ledger := by omega
      simp [hr, hne]
    · rw [if_neg hr]

theorem After.validLegacy_last (h : After fork last canonical s₀ s) : s.validLegacy last = [] := by
  rw [State.validLegacy, h.legacy, List.filter_eq_nil_iff]
  intro r hr hvalid
  obtain ⟨hledger, hflag⟩ := of_decide_eq_true hvalid
  obtain ⟨x, -, rfl⟩ := List.mem_map.mp hr
  by_cases hx : last ≤ x.ledger ∧ x.invalidated = false
  · rw [if_pos hx] at hflag
    cases hflag
  · rw [if_neg hx] at hledger hflag
    exact hx ⟨Int.le_of_eq hledger.symm, hflag⟩

theorem After.holds_iff {abandoned : Branch} (h : After fork last canonical s₀ s)
    (hr : Reorganised fork last abandoned s₀) :
    (∀ ledger, fork ≤ ledger → ledger ≤ last → Holds canonical s ledger) ↔
      Recoverable fork last abandoned canonical := by
  constructor
  · intro hall
    obtain ⟨hindexed, hlegacy⟩ := hall last hr.depth (Int.le_refl _)
    rw [h.validLegacy_last, List.nil_perm] at hlegacy
    rw [h.validIndexed_last hr.depth hlegacy, List.nil_perm, Branch.indexedEvents,
      Branch.events_nil_of_legacyEvents_nil hlegacy, List.nil_append, List.map_eq_nil_iff] at hindexed
    refine ⟨hlegacy, hindexed, fun ledger hfork hlast => ?_⟩
    obtain ⟨hold, holdLegacy⟩ := hr.stored ledger hfork (Int.le_of_lt hlast)
    obtain ⟨hnow, hnowLegacy⟩ := hall ledger hfork (Int.le_of_lt hlast)
    rw [h.validIndexed_below hfork hlast] at hnow
    rw [h.validLegacy_below hlast] at hnowLegacy
    exact ⟨hold.symm.trans hnow, holdLegacy.symm.trans hnowLegacy⟩
  · intro hrec ledger hfork hle
    rcases Int.lt_or_eq_of_le hle with hlast | rfl
    · obtain ⟨hold, holdLegacy⟩ := hr.stored ledger hfork hle
      obtain ⟨hsame, hsameLegacy⟩ := hrec.below ledger hfork hlast
      rw [Holds, h.validIndexed_below hfork hlast, h.validLegacy_below hlast]
      exact ⟨hold.trans hsame, holdLegacy.trans hsameLegacy⟩
    · rw [Holds, h.validLegacy_last, h.validIndexed_last hr.depth hrec.legacy, hrec.legacy,
        Branch.indexedEvents, Branch.events_nil_of_legacyEvents_nil hrec.legacy, hrec.contract]
      exact ⟨.refl _, .refl _⟩

theorem after_of_recovered (cfg : Config) {abandoned : Branch} {acts : List Action}
    (h : Reorganised fork last abandoned s₀)
    (hanswers : Along (step cfg) (Answers canonical) (detectAndHandle s₀) acts)
    (hdone : (run (step cfg) (detectAndHandle s₀) acts).2 = .done (.ok true)) :
    After fork last canonical s₀ (run (step cfg) (detectAndHandle s₀) acts).1 := by
  have hprogress : Progress fork last canonical s₀ (run (step cfg) (detectAndHandle s₀) acts).1
      (run (step cfg) (detectAndHandle s₀) acts).2 :=
    run_inv (I := fun c : Next => Progress fork last canonical s₀ c.1 c.2) (progress_step cfg)
      (progress_begin h) hanswers
  rw [hdone] at hprogress
  exact hprogress

theorem withdrawn_invalidate (hunique : (s₀.legacy.map (·.uniqueId)).Nodup) {r : BlockchainEvent}
    (hr : r ∈ s₀.legacy) (hle : last ≤ r.ledger) :
    EventIndexer.Withdrawn r.uniqueId (s₀.invalidateEventsFromLedger last).legacy := by
  refine ⟨?_, fun x hx heq => ?_⟩
  · refine List.mem_map.mpr ⟨_, List.mem_map_of_mem hr, ?_⟩
    split
    · rfl
    · rfl
  · obtain ⟨y, hy, rfl⟩ := List.mem_map.mp hx
    have hname : y.uniqueId = r.uniqueId := by
      split at heq
      · exact heq
      · exact heq
    obtain rfl : y = r := List.inj_on_of_nodup_map hunique hy hr hname
    split
    · rfl
    · rename_i hnot
      simpa [hle] using hnot

end

/-- **Which reorgs are recovered from**: when a check that has found a reorg of the ledgers `fork` to
`last` ends, the non-invalidated events of these ledgers are those of the canonical branch in both tables
if and only if that branch has no event in ledger `last` and below it the same as the abandoned one. -/
theorem recovered_iff (cfg : Config) (fork last : Int) (abandoned canonical : Branch) (s : State)
    (acts : List Action) (h : Reorganised fork last abandoned s)
    (hanswers : Along (step cfg) (Answers canonical) (detectAndHandle s) acts)
    (hdone : (run (step cfg) (detectAndHandle s) acts).2 = .done (.ok true)) :
    (∀ ledger, fork ≤ ledger → ledger ≤ last →
      Holds canonical (run (step cfg) (detectAndHandle s) acts).1 ledger) ↔
      Recoverable fork last abandoned canonical :=
  (after_of_recovered cfg h hanswers hdone).holds_iff h

/-- **The polling indexer does not make up for it**: an event of the abandoned branch in ledger `last` or
later is invalidated in `blockchain_events` for good, also if the canonical branch has it and it is indexed
again. -/
theorem withdrawn_of_recovered (cfg : Config) (fork last : Int) (abandoned canonical : Branch) (s : State)
    (acts : List Action) (h : Reorganised fork last abandoned s)
    (hanswers : Along (step cfg) (Answers canonical) (detectAndHandle s) acts)
    (hdone : (run (step cfg) (detectAndHandle s) acts).2 = .done (.ok true))
    (hunique : (s.legacy.map (·.uniqueId)).Nodup) {r : BlockchainEvent} (hr : r ∈ s.legacy)
    (hle : last ≤ r.ledger) (batches : List (List BlockchainEvent)) :
    EventIndexer.Withdrawn r.uniqueId
      (run (fun t events => (EventIndexer.deduplicateAndPersist events t).1)
        (run (step cfg) (detectAndHandle s) acts).1.legacy batches) := by
  refine EventIndexer.invalidated_of_conflict ?_ batches
  rw [(after_of_recovered cfg h hanswers hdone).legacy]
  exact withdrawn_invalidate hunique hr hle

/-! ## A payment in ledger 2 -/

/-- Payments of the given names in ledger `2`. -/
def paying (hashes : List String) : Branch where
  transactions ledger := if ledger = 2 then hashes.map fun hash => Pipeline.transfer hash 2 else []
  operations _ := [Pipeline.payment]
  own := by
    intro ledger tx h
    split at h
    · rename_i hl
      obtain ⟨hash, -, rfl⟩ := List.mem_map.mp h
      exact hl.symm
    · cases h
  contractEvents _ := []
  emitted := by simp

def withLimit : Config := ⟨Pipeline.defaults, 1000⟩

def paymentEvent : UnsequencedEvent where
  ledgerSequence := 2
  eventType := .payment
  transactionHash := "b"
  timestamp := "2026-01-01T00:00:00Z"
  sourceAccount := "GA"
  destinationAccount := none
  assetCode := some "native"
  assetIssuer := none
  amount := some "5"
  contractId := none
  methodName := none
  topics := none
  value := none
  raw := .operation Pipeline.payment "b" 2

def indexedPayment : State where
  base := .boot [⟨1, paymentEvent⟩] 1 (some 2) [⟨1, paymentEvent⟩]
  lastIndexedLedgerHash := some "old"
  invalidated := []
  legacy := (paying ["b"]).legacyEvents 2
  lastCheckAt := none
  lastReorgDetectedAt := none
  reorgCount := 0

theorem indexedPayment_reorganised : Reorganised 2 2 (paying ["b"]) indexedPayment := by
  refine ⟨by decide, rfl, fun ledger hfork hlast => ?_, ?_⟩
  · obtain rfl : ledger = 2 := by omega
    decide +kernel
  · refine ⟨?_, ?_, fun e he => .inl he, ?_⟩
    · exact fun e he => by cases he
    · exact fun e he => by cases he
    · exact fun e he => by cases he

/-- The check goes on, and what it waits for goes well; Horizon is at ledger `2` with a new hash. -/
def checks (page : Option (List RawTransaction)) (operations : Option (List RawOperation)) : Action :=
  .check ⟨⟨true, page, operations, 1⟩, 2, some ⟨2, "new"⟩, ""⟩

/-- The check as far as the fetch of ledger `2`. -/
def detected : List Action := List.replicate 8 (checks none none)

/-- The payment is in the new ledger too, with another one. -/
def replacedPayment : List Action :=
  detected ++ [checks (some [Pipeline.transfer "b" 2, Pipeline.transfer "c" 2]) none, checks none none,
    checks none none, checks none (some [Pipeline.payment]), checks none (some [Pipeline.payment]),
    .persist 2 true, .persist 2 true, .persist 2 true, checks none none, checks none none,
    checks none none]

/-- The new ledger is empty. -/
def droppedPayment : List Action :=
  detected ++ checks (some []) none :: List.replicate 4 (checks none none)

theorem dropped_payment_recovered :
    (run (step withLimit) (detectAndHandle indexedPayment) droppedPayment).2 = .done (.ok true) ∧
      ∀ ledger, 2 ≤ ledger → ledger ≤ 2 → Holds (paying [])
        (run (step withLimit) (detectAndHandle indexedPayment) droppedPayment).1 ledger := by
  have hdone : (run (step withLimit) (detectAndHandle indexedPayment) droppedPayment).2 =
      .done (.ok true) := by
    decide +kernel
  refine ⟨hdone, (recovered_iff withLimit 2 2 (paying ["b"]) (paying []) indexedPayment droppedPayment
    indexedPayment_reorganised (by decide +kernel) hdone).mpr ⟨rfl, rfl, fun ledger hfork hlast => ?_⟩⟩
  omega

/-- Every answer is complete and nothing fails. In the end `indexed_events` has the two payments of the new
ledger, and of `blockchain_events` no row is left. -/
theorem replaced_payment_lost :
    Reorganised 2 2 (paying ["b"]) indexedPayment ∧
      Along (step withLimit) (Answers (paying ["b", "c"])) (detectAndHandle indexedPayment)
        replacedPayment ∧
      (run (step withLimit) (detectAndHandle indexedPayment) replacedPayment).2 = .done (.ok true) ∧
      ¬ ∀ ledger, 2 ≤ ledger → ledger ≤ 2 → Holds (paying ["b", "c"])
        (run (step withLimit) (detectAndHandle indexedPayment) replacedPayment).1 ledger := by
  refine ⟨indexedPayment_reorganised, by decide +kernel, by decide +kernel, fun hall => ?_⟩
  have hlegacy := (hall 2 (by decide) (by decide)).2.length_eq
  revert hlegacy
  decide +kernel

end Reorg

end Indexer
end TradeCore
