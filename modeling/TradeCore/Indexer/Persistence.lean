import TradeCore.Common
import TradeCore.Lib.Interleave
import Mathlib.Data.List.Infix

/-!
# TradeCore.Indexer.Persistence

`BatchedPersistenceService`: events are queued in `pendingBatch` and written in batches by
whichever `flush` finds no other one in flight.

The calls of the service are the tasks of a `Proc`; a task stands at the `await` it waits at, and
runs from there to the next one in one step. `flushPromise` is the number of a drain, and `drains`
says of every drain started so far what it has resolved with. The environment of a step says
whether the database call the task waits for has succeeded; the calls that can fail are the bulk
insert and the write of the counter.

`State` also keeps two histories, the events enqueued and the events of the transactions
committed, each in order. `fifo_of_run` is the main result.
-/

namespace TradeCore
namespace Indexer

open Lib

/-- `IndexedEventInput`: of its fields the service reads the sequence number. -/
structure IndexedEventInput (α : Type) where
  sequenceNumber : Int
  payload : α
  deriving DecidableEq, Repr

namespace Persistence

structure State (α : Type) where
  pendingBatch : List (IndexedEventInput α)
  flushTimer : Bool
  flushPromise : Option Nat
  drains : List (Option Nat)
  highestCommittedSequence : Int
  highestEnqueuedSequence : Int
  totalPersisted : Nat
  totalRejectedByUniqueConstraint : Nat
  /-- The table of events; `sequenceNumber` is unique. -/
  rows : List (IndexedEventInput α)
  /-- The row `sequence_counter` of the indexer's state. -/
  sequenceCounter : Int
  enqueued : List (IndexedEventInput α)
  committed : List (IndexedEventInput α)

/-- A service just constructed, over what the database holds. -/
def State.init {α : Type} (rows : List (IndexedEventInput α)) (counter : Int) : State α where
  pendingBatch := []
  flushTimer := false
  flushPromise := none
  drains := []
  highestCommittedSequence := 0
  highestEnqueuedSequence := 0
  totalPersisted := 0
  totalRejectedByUniqueConstraint := 0
  rows := rows
  sequenceCounter := counter
  enqueued := []
  committed := []

inductive Op (α : Type) where
  | enqueue (event : IndexedEventInput α)
  /-- Called from outside, by the timer or at shutdown. -/
  | flush
  | startFlushTimer

/-- Where a call stands. `alreadyFlushed` is what the call has waited for, `persisted` what its own
drain has written so far. -/
inductive Call (α : Type) where
  | start (op : Op α)
  | seeding (persisted : Option Int)
  | awaiting (drain : Nat)
  | inserting (alreadyFlushed persisted drain : Nat) (batch : List (IndexedEventInput α))
  | counting (alreadyFlushed persisted drain : Nat) (batch : List (IndexedEventInput α))
      (counter : Int) (inserted : Nat)
  | returning (alreadyFlushed drain persisted : Nat)

section

variable {α : Type}

/-- `ON CONFLICT DO NOTHING`: the rows with the batch inserted, and those that survived. -/
def insertOrIgnore : List (IndexedEventInput α) → List (IndexedEventInput α) →
    List (IndexedEventInput α) × List (IndexedEventInput α)
  | rows, [] => (rows, [])
  | rows, event :: batch =>
    if event.sequenceNumber ∈ rows.map (·.sequenceNumber) then insertOrIgnore rows batch
    else
      let (rows, returned) := insertOrIgnore (rows ++ [event]) batch
      (rows, event :: returned)

def batchMax (batch : List (IndexedEventInput α)) : Int :=
  batch.foldl (fun m event => if m < event.sequenceNumber then event.sequenceNumber else m) 0

/-- The end of `drainPending`: its promise resolves. -/
def resolve (alreadyFlushed drain persisted : Nat) (s : State α) : State α × Task (Call α) Nat :=
  ({ s with drains := s.drains.set drain (some persisted) },
    .running (.returning alreadyFlushed drain persisted))

/-- The head of the loop of `drainPending`. A negative `batchMaxSize` splices nothing. -/
def drainPending (batchMaxSize : Int) (alreadyFlushed persisted drain : Nat) (s : State α) :
    State α × Task (Call α) Nat :=
  if s.pendingBatch = [] then resolve alreadyFlushed drain persisted s
  else
    ({ s with pendingBatch := s.pendingBatch.drop batchMaxSize.toNat },
      .running (.inserting alreadyFlushed persisted drain (s.pendingBatch.take batchMaxSize.toNat)))

/-- `flush` from the head of its loop on. -/
def flush (batchMaxSize : Int) (alreadyFlushed : Nat) (s : State α) : State α × Task (Call α) Nat :=
  match s.flushPromise with
  | some drain => (s, .running (.awaiting drain))
  | none =>
    if s.pendingBatch = [] then (s, .done alreadyFlushed)
    else
      let drain := s.drains.length
      drainPending batchMaxSize alreadyFlushed 0 drain
        { s with flushPromise := some drain, drains := s.drains ++ [none] }

/-- The state after the event has been pushed. -/
def push (event : IndexedEventInput α) (s : State α) : State α :=
  { s with
    pendingBatch := s.pendingBatch ++ [event]
    highestEnqueuedSequence :=
      if s.highestEnqueuedSequence < event.sequenceNumber then event.sequenceNumber
      else s.highestEnqueuedSequence
    enqueued := s.enqueued ++ [event] }

/-- The flush that `enqueue` starts is not awaited: the task of the call goes on as that flush. -/
def enqueue (batchMaxSize : Int) (event : IndexedEventInput α) (s : State α) :
    State α × Task (Call α) Nat :=
  let s := push event s
  if batchMaxSize ≤ s.pendingBatch.length then flush batchMaxSize 0 s else (s, .done 0)

/-- The transaction of `persistBatch` has committed: the rows, and how many of the batch count as
inserted. -/
def commit (batch : List (IndexedEventInput α)) (s : State α) : State α × Nat :=
  let (rows, returned) := insertOrIgnore s.rows batch
  let inserted :=
    if 0 < returned.length ∧ returned.length ≤ batch.length then returned.length else batch.length
  ({ s with
      rows := rows
      totalRejectedByUniqueConstraint :=
        s.totalRejectedByUniqueConstraint + (batch.length - inserted)
      committed := s.committed ++ batch }, inserted)

/-- The `catch` of `persistBatch`, after which the drain stops. -/
def requeue (alreadyFlushed persisted drain : Nat) (batch : List (IndexedEventInput α))
    (s : State α) : State α × Task (Call α) Nat :=
  resolve alreadyFlushed drain persisted { s with pendingBatch := batch ++ s.pendingBatch }

/-- The end of a `persistBatch` that went well. -/
def persistedBatch (batchMaxSize : Int) (alreadyFlushed persisted drain inserted : Nat)
    (s : State α) : State α × Task (Call α) Nat :=
  drainPending batchMaxSize alreadyFlushed (persisted + inserted) drain
    { s with totalPersisted := s.totalPersisted + inserted }

def advance (batchMaxSize : Int) (ok : Bool) (c : Call α) (s : State α) :
    State α × Task (Call α) Nat :=
  match c with
  | .start (.enqueue event) => enqueue batchMaxSize event s
  | .start .flush => flush batchMaxSize 0 s
  | .start .startFlushTimer =>
    if s.flushTimer then (s, .done 0)
    else (s, .running (.seeding (if ok then some s.sequenceCounter else none)))
  | .seeding persisted =>
    let s := { s with flushTimer := true }
    match persisted with
    | some persisted =>
      if s.highestCommittedSequence < persisted then
        ({ s with highestCommittedSequence := persisted }, .done 0)
      else (s, .done 0)
    | none => (s, .done 0)
  | .awaiting drain =>
    match s.drains[drain]? with
    | some (some persisted) => flush batchMaxSize persisted s
    | _ => (s, .running (.awaiting drain))
  | .inserting alreadyFlushed persisted drain batch =>
    if ok then
      let (s, inserted) := commit batch s
      if s.highestCommittedSequence < batchMax batch then
        ({ s with highestCommittedSequence := batchMax batch },
          .running (.counting alreadyFlushed persisted drain batch (batchMax batch) inserted))
      else persistedBatch batchMaxSize alreadyFlushed persisted drain inserted s
    else requeue alreadyFlushed persisted drain batch s
  | .counting alreadyFlushed persisted drain batch counter inserted =>
    if ok then
      persistedBatch batchMaxSize alreadyFlushed persisted drain inserted
        { s with sequenceCounter := counter }
    else requeue alreadyFlushed persisted drain batch s
  | .returning alreadyFlushed drain persisted =>
    ({ s with flushPromise := if s.flushPromise = some drain then none else s.flushPromise },
      .done (alreadyFlushed + persisted))

def persistProc (batchMaxSize : Int) : Proc (State α) Bool (Op α) (Call α) Nat :=
  ⟨.start, advance batchMaxSize⟩

/-! ## The table and its largest sequence number -/

theorem batchMax_foldl (m : Int) (batch : List (IndexedEventInput α)) :
    let r := batch.foldl (fun m event => if m < event.sequenceNumber then event.sequenceNumber else m) m
    m ≤ r ∧ (∀ e ∈ batch, e.sequenceNumber ≤ r) ∧ (r = m ∨ ∃ e ∈ batch, e.sequenceNumber = r) := by
  induction batch generalizing m with
  | nil => simp
  | cons e batch ih =>
    simp only [List.foldl_cons]
    obtain ⟨hm, hall, hex⟩ := ih (if m < e.sequenceNumber then e.sequenceNumber else m)
    generalize List.foldl _ _ batch = r at hm hall hex ⊢
    refine ⟨?_, ?_, ?_⟩
    · split at hm <;> omega
    · intro x hx
      rcases List.mem_cons.mp hx with rfl | hx
      · split at hm <;> omega
      · exact hall x hx
    · rcases hex with hr | ⟨x, hx, hr⟩
      · split at hr
        · exact .inr ⟨e, by simp, hr.symm⟩
        · exact .inl hr
      · exact .inr ⟨x, by simp [hx], hr⟩

theorem batchMax_nonneg (batch : List (IndexedEventInput α)) : 0 ≤ batchMax batch :=
  (batchMax_foldl 0 batch).1

theorem le_batchMax {batch : List (IndexedEventInput α)} {e : IndexedEventInput α} (h : e ∈ batch) :
    e.sequenceNumber ≤ batchMax batch :=
  (batchMax_foldl 0 batch).2.1 e h

theorem exists_batchMax {batch : List (IndexedEventInput α)} (h : 0 < batchMax batch) :
    ∃ e ∈ batch, e.sequenceNumber = batchMax batch := by
  rcases (batchMax_foldl 0 batch).2.2 with h0 | hex
  · have : batchMax batch = 0 := h0
    omega
  · exact hex

theorem batchMax_mono {batch batch' : List (IndexedEventInput α)} (h : batch ⊆ batch') :
    batchMax batch ≤ batchMax batch' := by
  by_cases hpos : 0 < batchMax batch
  · obtain ⟨e, he, heq⟩ := exists_batchMax hpos
    rw [← heq]
    exact le_batchMax (h he)
  · have := batchMax_nonneg batch'
    omega

theorem subset_insertOrIgnore (rows batch : List (IndexedEventInput α)) :
    rows ⊆ (insertOrIgnore rows batch).1 := by
  induction batch generalizing rows with
  | nil => exact List.Subset.refl _
  | cons e batch ih =>
    simp only [insertOrIgnore]
    split
    · exact ih rows
    · exact fun r hr => ih (rows ++ [e]) (by simp [hr])

/-- After the insert every event of the batch has its sequence number in the table. -/
theorem stored_insertOrIgnore {rows batch : List (IndexedEventInput α)} {e : IndexedEventInput α}
    (h : e ∈ batch) : e.sequenceNumber ∈ (insertOrIgnore rows batch).1.map (·.sequenceNumber) := by
  induction batch generalizing rows with
  | nil => cases h
  | cons x batch ih =>
    simp only [insertOrIgnore]
    rcases List.mem_cons.mp h with rfl | h
    · split
      · rename_i hin
        exact List.map_subset _ (subset_insertOrIgnore rows batch) hin
      · exact List.map_subset _ (subset_insertOrIgnore _ batch) (by simp)
    · split
      · exact ih h
      · exact ih h

/-! ## One drain, in order -/

/-- The drain a call runs; a resolved drain is held until its call has cleared `flushPromise`. -/
def Call.drain : Call α → List Nat
  | .inserting _ _ d _ | .counting _ _ d _ _ _ | .returning _ d _ => [d]
  | _ => []

/-- The events a call has taken from the queue and not committed. -/
def Call.batch : Call α → List (IndexedEventInput α)
  | .inserting _ _ _ batch => batch
  | _ => []

/-- The value a call is about to write to the counter. -/
def Call.counter : Call α → List Int
  | .counting _ _ _ _ counter _ => [counter]
  | _ => []

structure Fifo (s : State α) (ts : List (Task (Call α) Nat)) : Prop where
  one : gather Call.drain ts = s.flushPromise.toList
  order : s.committed ++ gather Call.batch ts ++ s.pendingBatch = s.enqueued
  high : 0 ≤ s.highestCommittedSequence
  counting : ∀ v ∈ gather Call.counter ts, ∃ e ∈ s.committed, e.sequenceNumber = v
  stored : ∀ e ∈ s.committed, e.sequenceNumber ∈ s.rows.map (·.sequenceNumber)

/-- The write of the counter goes through. -/
def CounterWritten (ok : Bool) (c : Call α) (_ : State α) (_ : List (Task (Call α) Nat)) : Prop :=
  match c with
  | .counting .. => ok = true
  | _ => True

instance (ok : Bool) (c : Call α) (s : State α) (ts : List (Task (Call α) Nat)) :
    Decidable (CounterWritten ok c s ts) := by
  unfold CounterWritten
  split <;> infer_instance

theorem Call.batch_of_idle {c : Call α} (h : c.drain = []) : c.batch = [] := by
  cases c <;> first | rfl | cases h

theorem Call.counter_of_idle {c : Call α} (h : c.drain = []) : c.counter = [] := by
  cases c <;> first | rfl | cases h

/-- Calls that run no drain hold nothing: the invariant is about the one that does. -/
theorem fifo_frame {s : State α} {pre post : List (Task (Call α) Nat)} {t : Task (Call α) Nat}
    (hpre : gather Call.drain pre = []) (hpost : gather Call.drain post = []) :
    Fifo s (pre ++ t :: post) ↔ Fifo s [t] := by
  have hd : gather Call.drain (pre ++ t :: post) = gather Call.drain [t] := by
    rw [gather_split, hpre, hpost]
    simp [gather]
  have hb : gather Call.batch (pre ++ t :: post) = gather Call.batch [t] := by
    rw [gather_split, gather_nil_of (fun _ => Call.batch_of_idle) hpre,
      gather_nil_of (fun _ => Call.batch_of_idle) hpost]
    simp [gather]
  have hc : gather Call.counter (pre ++ t :: post) = gather Call.counter [t] := by
    rw [gather_split, gather_nil_of (fun _ => Call.counter_of_idle) hpre,
      gather_nil_of (fun _ => Call.counter_of_idle) hpost]
    simp [gather]
  constructor
  · intro h
    exact ⟨hd ▸ h.one, hb ▸ h.order, h.high, hc ▸ h.counting, h.stored⟩
  · intro h
    exact ⟨hd ▸ h.one, hb ▸ h.order, h.high, hc ▸ h.counting, h.stored⟩

/-- The drain has nothing in hand: everything enqueued is committed or still in the queue. -/
structure Settled (d : Nat) (s : State α) : Prop where
  promise : s.flushPromise = some d
  order : s.committed ++ s.pendingBatch = s.enqueued
  high : 0 ≤ s.highestCommittedSequence
  stored : ∀ e ∈ s.committed, e.sequenceNumber ∈ s.rows.map (·.sequenceNumber)

theorem fifo_resolve {d : Nat} {s : State α} (h : Settled d s) (a p : Nat) :
    Fifo (resolve a d p s).1 [(resolve a d p s).2] := by
  refine ⟨?_, ?_, h.high, ?_, h.stored⟩
  · simp [resolve, gather, Task.gather, Call.drain, h.promise]
  · simpa [resolve, gather, Task.gather, Call.batch] using h.order
  · simp [resolve, gather, Task.gather, Call.counter]

theorem fifo_drainPending {d : Nat} {s : State α} (h : Settled d s) (n : Int) (a p : Nat) :
    Fifo (drainPending n a p d s).1 [(drainPending n a p d s).2] := by
  unfold drainPending
  split
  · exact fifo_resolve h a p
  · refine ⟨?_, ?_, h.high, ?_, h.stored⟩
    · simp [gather, Task.gather, Call.drain, h.promise]
    · simpa [gather, Task.gather, Call.batch] using h.order
    · simp [gather, Task.gather, Call.counter]

theorem fifo_flush {s : State α} (h : Fifo s []) (n : Int) (a : Nat) :
    Fifo (flush n a s).1 [(flush n a s).2] := by
  have hnone : s.flushPromise = none := by simpa [gather] using h.one.symm
  have horder : s.committed ++ s.pendingBatch = s.enqueued := by simpa [gather] using h.order
  simp only [flush, hnone]
  split
  · exact ⟨by simpa [gather, Task.gather] using h.one, by simpa [gather, Task.gather] using horder,
      h.high, by simp [gather, Task.gather], h.stored⟩
  · have hstart : Settled s.drains.length
        { s with flushPromise := some s.drains.length, drains := s.drains ++ [none] } :=
      ⟨rfl, horder, h.high, h.stored⟩
    exact fifo_drainPending hstart n a 0

theorem fifo_persistedBatch {d : Nat} {s : State α} (h : Settled d s) (n : Int) (a p i : Nat) :
    Fifo (persistedBatch n a p d i s).1 [(persistedBatch n a p d i s).2] := by
  have hcounted : Settled d { s with totalPersisted := s.totalPersisted + i } :=
    ⟨h.promise, h.order, h.high, h.stored⟩
  exact fifo_drainPending hcounted n a (p + i)

theorem settled_commit {a p d : Nat} {batch : List (IndexedEventInput α)} {s : State α}
    (h : Fifo s [.running (.inserting a p d batch)]) : Settled d (commit batch s).1 := by
  have hone : s.flushPromise = some d := by
    have := h.one
    simp only [gather, List.flatMap_cons, List.flatMap_nil, Task.gather, Call.drain] at this
    cases hp : s.flushPromise with
    | none => simp [hp] at this
    | some d' => simpa [hp] using this.symm
  refine ⟨hone, by simpa [commit, gather, Task.gather, Call.batch] using h.order, h.high, ?_⟩
  intro e he
  rcases List.mem_append.mp he with he | he
  · exact List.map_subset _ (subset_insertOrIgnore _ _) (h.stored e he)
  · exact stored_insertOrIgnore he

theorem fifo_requeue {a p d : Nat} {batch : List (IndexedEventInput α)} {s : State α}
    (h : Fifo s [.running (.inserting a p d batch)]) :
    Fifo (requeue a p d batch s).1 [(requeue a p d batch s).2] := by
  have hback : Settled d { s with pendingBatch := batch ++ s.pendingBatch } :=
    ⟨(settled_commit h).promise, by simpa [gather, Task.gather, Call.batch] using h.order, h.high,
      h.stored⟩
  exact fifo_resolve hback a p

/-- A call that runs no drain moves on and still runs none. -/
theorem fifo_idle {s : State α} {pre post : List (Task (Call α) Nat)} {c : Call α}
    {t : Task (Call α) Nat} (hc : c.drain = []) (ht : t.gather Call.drain = [])
    (h : Fifo s (pre ++ .running c :: post)) : Fifo s (pre ++ t :: post) := by
  have hb : t.gather Call.batch = [] := by
    cases t with
    | running k => exact Call.batch_of_idle ht
    | done r => rfl
  have hv : t.gather Call.counter = [] := by
    cases t with
    | running k => exact Call.counter_of_idle ht
    | done r => rfl
  refine ⟨?_, ?_, h.high, ?_, h.stored⟩
  · rw [gather_congr (k := c) (by rw [ht, hc])]
    exact h.one
  · rw [gather_congr (k := c) (by rw [hb, Call.batch_of_idle hc])]
    exact h.order
  · rw [gather_congr (k := c) (by rw [hv, Call.counter_of_idle hc])]
    exact h.counting

/-- A `flush` waits for the drain in flight; when there is none, no other call holds anything. -/
theorem fifo_flush_idle {s : State α} {pre post : List (Task (Call α) Nat)} {c : Call α}
    (hc : c.drain = []) (h : Fifo s (pre ++ .running c :: post)) (n : Int) (a : Nat) :
    Fifo (flush n a s).1 (pre ++ (flush n a s).2 :: post) := by
  cases hp : s.flushPromise with
  | some d =>
    have hflush : flush n a s = (s, .running (.awaiting d)) := by simp [flush, hp]
    rw [hflush]
    exact fifo_idle hc rfl h
  | none =>
    have hone := h.one
    rw [gather_split, hp, Option.toList_none, List.append_eq_nil_iff, List.append_eq_nil_iff] at hone
    obtain ⟨⟨hpre, -⟩, hpost⟩ := hone
    have halone : Fifo s ([] ++ .running c :: []) := (fifo_frame hpre hpost).mp h
    refine (fifo_frame hpre hpost).mpr (fifo_flush ?_ n a)
    have hempty : Fifo s ([] ++ .done 0 :: []) := fifo_idle hc rfl halone
    exact ⟨by simpa [gather, Task.gather] using hempty.one,
      by simpa [gather, Task.gather] using hempty.order, h.high, by simp [gather], h.stored⟩

theorem fifo_push {s : State α} {ts : List (Task (Call α) Nat)} (h : Fifo s ts)
    (e : IndexedEventInput α) : Fifo (push e s) ts := by
  refine ⟨h.one, ?_, h.high, h.counting, h.stored⟩
  simp only [push, ← h.order, List.append_assoc]

/-- The call that runs the drain is the only one that does. -/
theorem alone_of_drain {s : State α} {pre post : List (Task (Call α) Nat)} {c : Call α} {d : Nat}
    (hc : c.drain = [d]) (h : Fifo s (pre ++ .running c :: post)) :
    gather Call.drain pre = [] ∧ gather Call.drain post = [] ∧ s.flushPromise = some d := by
  have hone := h.one
  rw [gather_split] at hone
  simp only [Task.gather, hc] at hone
  cases hp : s.flushPromise with
  | none => simp [hp] at hone
  | some d' =>
    rw [hp, Option.toList_some] at hone
    have hlen := congrArg List.length hone
    simp only [List.length_append, List.length_cons, List.length_nil] at hlen
    have hpre : gather Call.drain pre = [] := List.eq_nil_of_length_eq_zero (by omega)
    have hpost : gather Call.drain post = [] := List.eq_nil_of_length_eq_zero (by omega)
    rw [hpre, hpost] at hone
    simp only [List.nil_append, List.append_nil, List.cons.injEq, and_true] at hone
    exact ⟨hpre, hpost, by rw [hone]⟩

theorem fifo_advance {n : Int} {ok : Bool} {c : Call α} {s : State α}
    {pre post : List (Task (Call α) Nat)} (hok : CounterWritten ok c s (pre ++ .running c :: post))
    (h : Fifo s (pre ++ .running c :: post)) :
    Fifo (advance n ok c s).1 (pre ++ (advance n ok c s).2 :: post) := by
  cases c with
  | start op =>
    cases op with
    | enqueue event =>
      have hpush := fifo_push h event
      simp only [advance, enqueue]
      split
      · exact fifo_flush_idle (c := .start (.enqueue event)) rfl hpush n 0
      · exact fifo_idle (c := .start (.enqueue event)) rfl rfl hpush
    | flush => exact fifo_flush_idle (c := .start .flush) rfl h n 0
    | startFlushTimer =>
      simp only [advance]
      split
      · exact fifo_idle (c := .start .startFlushTimer) rfl rfl h
      · exact fifo_idle (c := .start .startFlushTimer) rfl rfl h
  | seeding persisted =>
    obtain ⟨hone, horder, hhigh, hcounting, hstored⟩ :=
      fifo_idle (c := .seeding persisted) (t := .done 0) rfl rfl h
    simp only [advance]
    split
    · split
      · exact ⟨hone, horder, by dsimp only at *; omega, hcounting, hstored⟩
      · exact ⟨hone, horder, hhigh, hcounting, hstored⟩
    · exact ⟨hone, horder, hhigh, hcounting, hstored⟩
  | awaiting d =>
    simp only [advance]
    split
    · exact fifo_flush_idle (c := .awaiting d) rfl h n _
    · exact h
  | inserting a p d batch =>
    obtain ⟨hpre, hpost, hp⟩ := alone_of_drain (d := d) rfl h
    have halone := (fifo_frame hpre hpost).mp h
    refine (fifo_frame hpre hpost).mpr ?_
    have hset := settled_commit halone
    simp only [advance]
    split
    · split
      · -- the counter is written in a step of its own, after the commit
        rename_i hhigh
        have hpos : 0 < batchMax batch := Int.lt_of_le_of_lt halone.high hhigh
        obtain ⟨e, he, hmax⟩ := exists_batchMax hpos
        refine ⟨?_, ?_, Int.le_of_lt hpos, ?_, hset.stored⟩
        · simp [gather, Task.gather, Call.drain, hset.promise]
        · simpa [gather, Task.gather, Call.batch] using hset.order
        · intro v hv
          simp only [gather, List.flatMap_cons, List.flatMap_nil, Task.gather, Call.counter,
            List.append_nil, List.mem_singleton] at hv
          exact ⟨e, List.mem_append_right _ he, by rw [hv, hmax]⟩
      · exact fifo_persistedBatch hset n a p _
    · exact fifo_requeue halone
  | counting a p d batch counter inserted =>
    obtain ⟨hpre, hpost, hp⟩ := alone_of_drain (d := d) rfl h
    have halone := (fifo_frame hpre hpost).mp h
    refine (fifo_frame hpre hpost).mpr ?_
    have hok : ok = true := hok
    have hset : Settled d { s with sequenceCounter := counter } :=
      ⟨hp, by simpa [gather, Task.gather, Call.batch] using halone.order, h.high, h.stored⟩
    simp only [advance, hok, if_true]
    exact fifo_persistedBatch hset n a p inserted
  | returning a d p =>
    obtain ⟨hpre, hpost, hp⟩ := alone_of_drain (d := d) rfl h
    have halone := (fifo_frame hpre hpost).mp h
    refine (fifo_frame hpre hpost).mpr ?_
    simp only [advance, hp, if_true]
    exact ⟨by simp [gather, Task.gather], by simpa [gather, Task.gather, Call.batch] using halone.order,
      h.high, by simp [gather, Task.gather], h.stored⟩

/-! ## The counter -/

@[simp] theorem sequenceCounter_drainPending (n : Int) (a p d : Nat) (s : State α) :
    (drainPending n a p d s).1.sequenceCounter = s.sequenceCounter := by
  unfold drainPending
  split <;> rfl

@[simp] theorem sequenceCounter_flush (n : Int) (a : Nat) (s : State α) :
    (flush n a s).1.sequenceCounter = s.sequenceCounter := by
  unfold flush
  split
  · rfl
  · split
    · rfl
    · simp

theorem advance_counter (n : Int) (ok : Bool) (c : Call α) (s : State α) :
    (advance n ok c s).1.sequenceCounter = s.sequenceCounter ∨
      ok = true ∧ (advance n ok c s).1.sequenceCounter ∈ c.counter ∧
        (advance n ok c s).1.committed = s.committed := by
  cases c with
  | start op =>
    cases op with
    | enqueue event =>
      simp only [advance, enqueue]
      split <;> simp [push]
    | flush => simp [advance]
    | startFlushTimer =>
      simp only [advance]
      split <;> simp
  | seeding persisted =>
    simp only [advance]
    split
    · split <;> simp
    · simp
  | awaiting d =>
    simp only [advance]
    split <;> simp
  | inserting a p d batch =>
    simp only [advance]
    split
    · split
      · exact .inl rfl
      · simp [persistedBatch, commit]
    · exact .inl rfl
  | counting a p d batch counter inserted =>
    simp only [advance]
    split
    · rename_i hok
      refine .inr ⟨hok, by simp [persistedBatch, Call.counter], ?_⟩
      simp only [persistedBatch, drainPending]
      split <;> rfl
    · exact .inl rfl
  | returning a d p => exact .inl rfl

theorem committed_drainPending (n : Int) (a p d : Nat) (s : State α) :
    (drainPending n a p d s).1.committed = s.committed := by
  unfold drainPending
  split <;> rfl

theorem committed_flush (n : Int) (a : Nat) (s : State α) :
    (flush n a s).1.committed = s.committed := by
  unfold flush
  split
  · rfl
  · split
    · rfl
    · rw [committed_drainPending]

theorem committed_advance (n : Int) (ok : Bool) (c : Call α) (s : State α) :
    s.committed <+: (advance n ok c s).1.committed := by
  cases c with
  | start op =>
    cases op with
    | enqueue event =>
      simp only [advance, enqueue]
      split
      · rw [committed_flush]
        exact List.prefix_rfl
      · exact List.prefix_rfl
    | flush =>
      simp only [advance, committed_flush]
      exact List.prefix_rfl
    | startFlushTimer =>
      simp only [advance]
      split <;> exact List.prefix_rfl
  | seeding persisted =>
    simp only [advance]
    split
    · split <;> exact List.prefix_rfl
    · exact List.prefix_rfl
  | awaiting d =>
    simp only [advance]
    split
    · rw [committed_flush]
    · exact List.prefix_rfl
  | inserting a p d batch =>
    simp only [advance]
    split
    · split
      · exact List.prefix_append _ _
      · rw [persistedBatch, committed_drainPending]
        exact List.prefix_append _ _
    · exact List.prefix_rfl
  | counting a p d batch counter inserted =>
    simp only [advance]
    split
    · rw [persistedBatch, committed_drainPending]
    · exact List.prefix_rfl
  | returning a d p => exact List.prefix_rfl

theorem committed_step (n : Int) (c : Conf (State α) (Call α) Nat) (a : Act Bool (Op α)) :
    c.shared.committed <+: ((persistProc n).step c a).shared.committed := by
  obtain ⟨x, rfl, hs⟩ | ⟨i, ok, call, pre, post, rfl, hi, ht, hs⟩ | hs := step_cases (persistProc n) c a
  · rw [hs]
  · rw [hs]
    exact committed_advance n ok call c.shared
  · rw [hs]

/-- Everything enqueued up to the event with sequence number `v` is committed. Should several
events carry `v`, it is the first of them. -/
def CommittedUpTo (v : Int) (s : State α) : Prop :=
  (∃ e ∈ s.committed, e.sequenceNumber = v) ∧
    ∀ before e after, s.enqueued = before ++ e :: after → e.sequenceNumber = v →
      (∀ x ∈ before, x.sequenceNumber ≠ v) → before ++ [e] <+: s.committed

theorem committedUpTo_of_mem {v : Int} {s : State α} {ts : List (Task (Call α) Nat)} (h : Fifo s ts)
    (hv : ∃ e ∈ s.committed, e.sequenceNumber = v) : CommittedUpTo v s := by
  refine ⟨hv, ?_⟩
  intro before e after henq hseq hbefore
  have hpre : s.committed <+: s.enqueued := ⟨_, by rw [← List.append_assoc]; exact h.order⟩
  have hpre' : before ++ [e] <+: s.enqueued := ⟨after, by rw [henq]; simp⟩
  rcases List.prefix_or_prefix_of_prefix hpre' hpre with hle | hge
  · exact hle
  · rcases List.prefix_concat_iff.mp hge with heq | hlt
    · rw [heq]
    · -- the committed events would all lie before `e`, where nobody has the number `v`
      obtain ⟨x, hx, hxv⟩ := hv
      exact absurd hxv (hbefore x (hlt.subset hx))

/-- The counter stands still, or it moves to a number up to which everything is committed. -/
def CounterBehind (s s' : State α) : Prop :=
  s'.sequenceCounter = s.sequenceCounter ∨ CommittedUpTo s'.sequenceCounter s'

abbrev CounterWrites : Conf (State α) (Call α) Nat → Act Bool (Op α) → Prop :=
  Meets (fun _ => True) CounterWritten

theorem fifo_step (n : Int) (c : Conf (State α) (Call α) Nat) (a : Act Bool (Op α))
    (h : Fifo c.shared c.tasks) (hok : CounterWrites c a) :
    Fifo ((persistProc n).step c a).shared ((persistProc n).step c a).tasks := by
  refine step_inv (persistProc n) (I := Fifo) ?_ ?_ c a h hok
  · intro s ts op _ hs
    refine ⟨?_, ?_, hs.high, ?_, hs.stored⟩
    · rw [gather_spawn rfl]
      exact hs.one
    · rw [gather_spawn rfl]
      exact hs.order
    · rw [gather_spawn rfl]
      exact hs.counting
  · intro s pre call post ok hG hs
    exact fifo_advance hG hs

theorem counter_step (n : Int) (c : Conf (State α) (Call α) Nat) (a : Act Bool (Op α))
    (h : Fifo c.shared c.tasks) (hok : CounterWrites c a) :
    CounterBehind c.shared ((persistProc n).step c a).shared := by
  have hnext := fifo_step n c a h hok
  obtain ⟨x, rfl, hs⟩ | ⟨i, ok, call, pre, post, rfl, hi, ht, hs⟩ | hs := step_cases (persistProc n) c a
  · exact .inl (by rw [hs])
  · rw [hs] at hnext ⊢
    rcases advance_counter n ok call c.shared with hsame | ⟨-, hmem, hcomm⟩
    · exact .inl hsame
    · refine .inr (committedUpTo_of_mem hnext ?_)
      have hgather : (advance n ok call c.shared).1.sequenceCounter ∈ gather Call.counter c.tasks := by
        rw [ht]
        exact mem_gather_here hmem
      obtain ⟨e, he, hseq⟩ := h.counting _ hgather
      refine ⟨e, ?_, hseq⟩
      show e ∈ (advance n ok call c.shared).1.committed
      rw [hcomm]
      exact he
  · exact .inl (by rw [hs])

theorem fifo_init (rows : List (IndexedEventInput α)) (counter : Int) :
    Fifo (State.init rows counter) [] :=
  ⟨rfl, rfl, Int.le_refl 0, by simp [gather], by simp [State.init]⟩

theorem counter_bounded {past : List (IndexedEventInput α)} {s s' : State α}
    (hmove : CounterBehind s s') (hcomm : s.committed <+: s'.committed)
    (h : s.sequenceCounter ≤ batchMax (past ++ s.committed)) :
    s'.sequenceCounter ≤ batchMax (past ++ s'.committed) := by
  rcases hmove with hsame | ⟨⟨e, he, hseq⟩, -⟩
  · rw [hsame]
    have hsub : past ++ s.committed ⊆ past ++ s'.committed := by
      intro x hx
      rcases List.mem_append.mp hx with hx | hx
      · exact List.mem_append_left _ hx
      · exact List.mem_append_right _ (hcomm.subset hx)
    exact Int.le_trans h (batchMax_mono hsub)
  · rw [← hseq]
    exact le_batchMax (List.mem_append_right _ he)

/-- **No event is lost, duplicated or overtaken**, in every interleaving in which the writes of the
counter succeed. `past` are the events committed by earlier processes; the counter they left is
behind them. -/
theorem fifo_of_run (n : Int) (rows : List (IndexedEventInput α)) {past : List (IndexedEventInput α)}
    {counter : Int} (hcounter : counter ≤ batchMax past) (acts : List (Act Bool (Op α)))
    (hok : Along (persistProc n).step CounterWrites (Conf.init (State.init rows counter)) acts) :
    let c := run (persistProc n).step (Conf.init (State.init rows counter)) acts
    (gather Call.drain c.tasks).length ≤ 1 ∧
      c.shared.committed ++ gather Call.batch c.tasks ++ c.shared.pendingBatch = c.shared.enqueued ∧
      (∀ e ∈ c.shared.committed, e.sequenceNumber ∈ c.shared.rows.map (·.sequenceNumber)) ∧
      c.shared.sequenceCounter ≤ batchMax (past ++ c.shared.committed) ∧
      Along (persistProc n).step
        (fun c a => CounterBehind c.shared ((persistProc n).step c a).shared)
        (Conf.init (State.init rows counter)) acts := by
  intro c
  have hstep : ∀ (c : Conf (State α) (Call α) Nat) (a : Act Bool (Op α)),
      Fifo c.shared c.tasks ∧ c.shared.sequenceCounter ≤ batchMax (past ++ c.shared.committed) →
      CounterWrites c a →
      Fifo ((persistProc n).step c a).shared ((persistProc n).step c a).tasks ∧
        ((persistProc n).step c a).shared.sequenceCounter ≤
          batchMax (past ++ ((persistProc n).step c a).shared.committed) := by
    intro c a h hok
    exact ⟨fifo_step n c a h.1 hok,
      counter_bounded (counter_step n c a h.1 hok) (committed_step n c a) h.2⟩
  have h0 : Fifo (State.init rows counter) [] ∧
      counter ≤ batchMax (past ++ (State.init rows counter).committed) :=
    ⟨fifo_init rows counter, by simpa [State.init] using hcounter⟩
  obtain ⟨h, hbound⟩ := run_inv (I := fun c : Conf (State α) (Call α) Nat =>
    Fifo c.shared c.tasks ∧ c.shared.sequenceCounter ≤ batchMax (past ++ c.shared.committed))
    hstep (s := Conf.init (State.init rows counter)) h0 hok
  refine ⟨?_, h.order, h.stored, hbound, ?_⟩
  · rw [h.one]
    cases c.shared.flushPromise <;> simp
  · exact along_of_inv (I := fun c => Fifo c.shared c.tasks) (fun c a => counter_step n c a)
      (fun c a => fifo_step n c a) (fifo_init rows counter) hok

/-! ## Nothing is dropped -/

theorem mem_insertOrIgnore {rows batch : List (IndexedEventInput α)} {e : IndexedEventInput α}
    (h : e ∈ (insertOrIgnore rows batch).1) : e ∈ rows ∨ e ∈ batch := by
  induction batch generalizing rows with
  | nil => exact .inl h
  | cons x batch ih =>
    simp only [insertOrIgnore] at h
    split at h
    · exact (ih h).imp id (List.mem_cons_of_mem x)
    · rcases ih h with hr | hb
      · rcases List.mem_append.mp hr with hr | hx
        · exact .inl hr
        · exact .inr (by simp_all)
      · exact .inr (List.mem_cons_of_mem x hb)

/-- The events a call may still put back, those already committed included. -/
def Call.held : Call α → List (IndexedEventInput α)
  | .inserting _ _ _ batch | .counting _ _ _ batch _ _ => batch
  | _ => []

/-- The event a call is about to push. -/
def Call.entering : Call α → List (IndexedEventInput α)
  | .start (.enqueue event) => [event]
  | _ => []

/-- What one step of the call `c` does with the events: no new one comes in but the one the call
brings, and what leaves the queue or the call's hands has its number in the table. -/
structure Hands (s : State α) (c : Call α) (s' : State α) (t : Task (Call α) Nat) : Prop where
  enqueued : s'.enqueued = s.enqueued ++ c.entering
  rows : s.rows ⊆ s'.rows
  known : ∀ e, e ∈ s'.pendingBatch ∨ e ∈ t.gather Call.held ∨ e ∈ s'.rows →
    e ∈ s.pendingBatch ∨ e ∈ c.held ∨ e ∈ s.rows ∨ e ∈ c.entering
  kept : ∀ e, e ∈ s.pendingBatch ∨ e ∈ c.batch ∨ e ∈ c.entering →
    e ∈ s'.pendingBatch ∨ e ∈ t.gather Call.batch ∨ e.sequenceNumber ∈ s'.rows.map (·.sequenceNumber)
  entering : t.gather Call.entering = []

/-- A batch is taken from the queue and nothing else happens. -/
structure Takes (s : State α) (out : State α × Task (Call α) Nat) : Prop where
  enqueued : out.1.enqueued = s.enqueued
  rows : out.1.rows = s.rows
  queue : out.2.gather Call.batch ++ out.1.pendingBatch = s.pendingBatch
  held : out.2.gather Call.held = out.2.gather Call.batch
  entering : out.2.gather Call.entering = []

theorem takes_drainPending (n : Int) (a p d : Nat) (s : State α) :
    Takes s (drainPending n a p d s) := by
  unfold drainPending
  split
  · exact ⟨rfl, rfl, rfl, rfl, rfl⟩
  · exact ⟨rfl, rfl, List.take_append_drop _ _, rfl, rfl⟩

theorem takes_flush (n : Int) (a : Nat) (s : State α) : Takes s (flush n a s) := by
  unfold flush
  split
  · exact ⟨rfl, rfl, rfl, rfl, rfl⟩
  · split
    · exact ⟨rfl, rfl, rfl, rfl, rfl⟩
    · obtain ⟨henq, hrows, hqueue, hheld, hent⟩ := takes_drainPending n a 0 s.drains.length
        { s with flushPromise := some s.drains.length, drains := s.drains ++ [none] }
      exact ⟨henq, hrows, hqueue, hheld, hent⟩

theorem Hands.takes {s s' : State α} {c : Call α} {r : Nat} {out : State α × Task (Call α) Nat}
    (h : Hands s c s' (.done r)) (ht : Takes s' out) : Hands s c out.1 out.2 := by
  refine ⟨by rw [ht.enqueued, h.enqueued], by rw [ht.rows]; exact h.rows, ?_, ?_, ht.entering⟩
  · intro e he
    refine h.known e ?_
    rw [ht.held, ht.rows] at he
    rw [← ht.queue, List.mem_append]
    tauto
  · intro e he
    have := h.kept e he
    rw [← ht.queue, List.mem_append] at this
    simp only [Task.gather, List.not_mem_nil, false_or] at this
    rw [ht.rows]
    tauto

/-- A call that neither brings an event nor holds one leaves the events where they are. -/
theorem hands_same {s s' : State α} {c : Call α} {t : Task (Call α) Nat} (he : s'.enqueued = s.enqueued)
    (hr : s'.rows = s.rows) (hp : s'.pendingBatch = s.pendingBatch) (hc : c.entering = [])
    (hb : c.batch = []) (ht : t.gather Call.held = []) (hte : t.gather Call.entering = []) :
    Hands s c s' t := by
  refine ⟨by rw [he, hc, List.append_nil], by rw [hr]; exact List.Subset.refl _, ?_, ?_, hte⟩
  · intro e h
    rw [hp, hr, ht] at h
    simp only [List.not_mem_nil, false_or] at h
    tauto
  · intro e h
    rw [hb, hc] at h
    simp only [List.not_mem_nil, or_false] at h
    exact .inl (hp ▸ h)

theorem hands_push (event : IndexedEventInput α) (s : State α) :
    Hands s (.start (.enqueue event)) (push event s) (.done 0) := by
  refine ⟨rfl, List.Subset.refl _, ?_, ?_, rfl⟩
  · intro e h
    simpa [push, Task.gather, Call.entering, Call.held, or_assoc, or_comm, or_left_comm] using h
  · intro e h
    refine .inl ?_
    simpa [push, Call.entering, Call.batch] using h

theorem hands_commit (a p d : Nat) (batch : List (IndexedEventInput α)) (s : State α) :
    Hands s (.inserting a p d batch) (commit batch s).1 (.done 0) := by
  refine ⟨by simp [commit, Call.entering], subset_insertOrIgnore s.rows batch, ?_, ?_, rfl⟩
  · intro e h
    rcases h with h | h | h
    · exact .inl h
    · cases h
    · rcases mem_insertOrIgnore h with h | h
      · exact .inr (.inr (.inl h))
      · exact .inr (.inl h)
  · intro e h
    rcases h with h | h | h
    · exact .inl h
    · exact .inr (.inr (stored_insertOrIgnore h))
    · cases h

theorem hands_requeue {c : Call α} (a p d : Nat) {batch : List (IndexedEventInput α)}
    (hheld : c.held = batch) (hbatch : c.batch ⊆ batch) (hent : c.entering = []) (s : State α) :
    Hands s c (requeue a p d batch s).1 (requeue a p d batch s).2 := by
  refine ⟨by simp [requeue, resolve, hent], List.Subset.refl _, ?_, ?_, rfl⟩
  · intro e h
    simp only [requeue, resolve, Task.gather, Call.held, List.mem_append, List.not_mem_nil,
      false_or] at h
    rw [hheld]
    tauto
  · intro e h
    rw [hent] at h
    simp only [List.not_mem_nil, or_false] at h
    refine .inl (List.mem_append.mpr ?_)
    exact h.symm.imp (fun h => hbatch h) id

theorem hands_advance (n : Int) (ok : Bool) (c : Call α) (s : State α) :
    Hands s c (advance n ok c s).1 (advance n ok c s).2 := by
  cases c with
  | start op =>
    cases op with
    | enqueue event =>
      simp only [advance, enqueue]
      split
      · exact (hands_push event s).takes (takes_flush n 0 _)
      · exact hands_push event s
    | flush =>
      have hsame : Hands s (.start .flush) s (.done 0) := hands_same rfl rfl rfl rfl rfl rfl rfl
      exact hsame.takes (takes_flush n 0 s)
    | startFlushTimer =>
      simp only [advance]
      split <;> exact hands_same rfl rfl rfl rfl rfl rfl rfl
  | seeding persisted =>
    simp only [advance]
    split
    · split <;> exact hands_same rfl rfl rfl rfl rfl rfl rfl
    · exact hands_same rfl rfl rfl rfl rfl rfl rfl
  | awaiting d =>
    have hsame : Hands s (.awaiting d) s (.done 0) := hands_same rfl rfl rfl rfl rfl rfl rfl
    simp only [advance]
    split
    · exact hsame.takes (takes_flush n _ s)
    · exact hands_same rfl rfl rfl rfl rfl rfl rfl
  | inserting a p d batch =>
    have hcommit := hands_commit a p d batch s
    simp only [advance]
    split
    · split
      · -- the batch is in the table, and stays with the call until the counter is written
        refine ⟨hcommit.enqueued, hcommit.rows, ?_, ?_, rfl⟩
        · intro e h
          rcases h with h | h | h
          · exact .inl h
          · exact .inr (.inl h)
          · exact hcommit.known e (.inr (.inr h))
        · exact fun e h => hcommit.kept e h
      · refine hcommit.takes ?_
        obtain ⟨henq, hrows, hqueue, hheld, hent⟩ := takes_drainPending n a (p + (commit batch s).2) d
          { (commit batch s).1 with
            totalPersisted := (commit batch s).1.totalPersisted + (commit batch s).2 }
        exact ⟨henq, hrows, hqueue, hheld, hent⟩
    · exact hands_requeue a p d rfl (List.Subset.refl _) rfl s
  | counting a p d batch counter inserted =>
    simp only [advance]
    split
    · have hsame : Hands s (.counting a p d batch counter inserted)
          { s with
            sequenceCounter := counter
            totalPersisted := s.totalPersisted + inserted } (.done 0) :=
        hands_same rfl rfl rfl rfl rfl rfl rfl
      exact hsame.takes (takes_drainPending n a (p + inserted) d _)
    · exact hands_requeue a p d rfl (List.nil_subset _) rfl s
  | returning a d p => exact hands_same rfl rfl rfl rfl rfl rfl rfl

/-- What the service has written or may still write satisfies `A`. -/
structure Supply (A : IndexedEventInput α → Prop) (s : State α) (ts : List (Task (Call α) Nat)) :
    Prop where
  pending : ∀ e ∈ s.pendingBatch, A e
  held : ∀ e ∈ gather Call.held ts, A e
  rows : ∀ e ∈ s.rows, A e
  entering : ∀ e ∈ gather Call.entering ts, A e

/-- All the service holds satisfies `A`, and what has been enqueued is in the queue, in the hands of
a drain, or has its number in the table. Nothing is asked of the writes of the counter. -/
structure Custody (A : IndexedEventInput α → Prop) (s : State α) (ts : List (Task (Call α) Nat)) :
    Prop where
  enqueued : ∀ e ∈ s.enqueued, A e
  pending : ∀ e ∈ s.pendingBatch, A e
  held : ∀ e ∈ gather Call.held ts, A e
  rows : ∀ e ∈ s.rows, A e
  entering : ∀ e ∈ gather Call.entering ts, A e
  kept : ∀ e ∈ s.enqueued, e ∈ s.pendingBatch ∨ e ∈ gather Call.batch ts ∨
    e.sequenceNumber ∈ s.rows.map (·.sequenceNumber)

theorem Custody.mono {A B : IndexedEventInput α → Prop} (hAB : ∀ e, A e → B e) {s : State α}
    {ts : List (Task (Call α) Nat)} (h : Custody A s ts) : Custody B s ts :=
  ⟨fun e he => hAB e (h.enqueued e he), fun e he => hAB e (h.pending e he),
    fun e he => hAB e (h.held e he), fun e he => hAB e (h.rows e he),
    fun e he => hAB e (h.entering e he), h.kept⟩

theorem Custody.supply {A : IndexedEventInput α → Prop} {s : State α} {ts : List (Task (Call α) Nat)}
    (h : Custody A s ts) : Supply A s ts :=
  ⟨h.pending, h.held, h.rows, h.entering⟩

theorem Custody.of_supply {A : IndexedEventInput α → Prop} {s : State α}
    {ts : List (Task (Call α) Nat)} (h : Supply A s ts) (henqueued : ∀ e ∈ s.enqueued, A e)
    (hkept : ∀ e ∈ s.enqueued, e ∈ s.pendingBatch ∨ e ∈ gather Call.batch ts ∨
      e.sequenceNumber ∈ s.rows.map (·.sequenceNumber)) : Custody A s ts :=
  ⟨henqueued, h.pending, h.held, h.rows, h.entering, hkept⟩

theorem supply_advance {A : IndexedEventInput α → Prop} (n : Int) (ok : Bool) {c : Call α}
    {s : State α} {pre post : List (Task (Call α) Nat)} (h : Supply A s (pre ++ .running c :: post)) :
    Supply A (advance n ok c s).1 (pre ++ (advance n ok c s).2 :: post) := by
  have hh := hands_advance n ok c s
  have hknown : ∀ e, e ∈ s.pendingBatch ∨ e ∈ c.held ∨ e ∈ s.rows ∨ e ∈ c.entering → A e := by
    intro e he
    rcases he with he | he | he | he
    · exact h.pending e he
    · exact h.held e (mem_gather_here he)
    · exact h.rows e he
    · exact h.entering e (mem_gather_here he)
  refine ⟨fun e he => hknown e (hh.known e (.inl he)), ?_,
    fun e he => hknown e (hh.known e (.inr (.inr he))), ?_⟩
  · intro e he
    rcases mem_gather_replace (k := c) he with he | he
    · exact hknown e (hh.known e (.inr (.inl he)))
    · exact h.held e he
  · intro e he
    rcases mem_gather_replace (k := c) he with he | he
    · rw [hh.entering] at he
      cases he
    · exact h.entering e he

theorem custody_advance {A : IndexedEventInput α → Prop} (n : Int) (ok : Bool) {c : Call α}
    {s : State α} {pre post : List (Task (Call α) Nat)}
    (h : Custody A s (pre ++ .running c :: post)) :
    Custody A (advance n ok c s).1 (pre ++ (advance n ok c s).2 :: post) := by
  have hh := hands_advance n ok c s
  refine .of_supply (supply_advance n ok h.supply) ?_ ?_
  · intro e he
    rw [hh.enqueued, List.mem_append] at he
    rcases he with he | he
    · exact h.enqueued e he
    · exact h.entering e (mem_gather_here he)
  · -- an event is kept by the call that moves, or it lies with another one
    intro e he
    rw [mem_gather_split]
    rw [hh.enqueued, List.mem_append] at he
    rcases he with he | he
    · rcases h.kept e he with hk | hk | hk
      · exact (hh.kept e (.inl hk)).imp id (Or.imp .inl id)
      · rcases mem_gather_split.mp hk with hk | hk
        · exact (hh.kept e (.inr (.inl hk))).imp id (Or.imp .inl id)
        · exact .inr (.inl (.inr hk))
      · exact .inr (.inr (List.map_subset _ hh.rows hk))
    · exact (hh.kept e (.inr (.inr he))).imp id (Or.imp .inl id)

/-- Only events that satisfy `A` are enqueued. -/
def Brings (A : IndexedEventInput α → Prop) : Op α → Prop
  | .enqueue event => A event
  | _ => True

theorem supply_spawn {A : IndexedEventInput α → Prop} {op : Op α} {s : State α}
    {ts : List (Task (Call α) Nat)} (hop : Brings A op) (h : Supply A s ts) :
    Supply A s (ts ++ [Task.running (Call.start op)]) := by
  have hentering : ∀ e ∈ Call.entering (.start op), A e := by
    cases op with
    | enqueue event =>
      intro e he
      rw [List.mem_singleton.mp he]
      exact hop
    | _ => simp [Call.entering]
  refine ⟨h.pending, ?_, h.rows, ?_⟩
  · rw [gather_spawn rfl]
    exact h.held
  · intro e he
    rcases mem_gather_split.mp he with he | he | he
    · exact hentering e he
    · exact h.entering e he
    · cases he

theorem supply_step {A : IndexedEventInput α → Prop} (n : Int) (c : Conf (State α) (Call α) Nat)
    (a : Act Bool (Op α)) (h : Supply A c.shared c.tasks)
    (ha : Meets (Brings A) (fun _ _ _ _ => True) c a) :
    Supply A ((persistProc n).step c a).shared ((persistProc n).step c a).tasks :=
  step_inv (persistProc n) (I := Supply A) (fun _ _ _ hop hs => supply_spawn hop hs)
    (fun _ _ _ _ ok _ hs => supply_advance n ok hs) c a h ha

theorem custody_step {A : IndexedEventInput α → Prop} (n : Int) (c : Conf (State α) (Call α) Nat)
    (a : Act Bool (Op α)) (h : Custody A c.shared c.tasks)
    (ha : Meets (Brings A) (fun _ _ _ _ => True) c a) :
    Custody A ((persistProc n).step c a).shared ((persistProc n).step c a).tasks := by
  refine step_inv (persistProc n) (I := Custody A) ?_ ?_ c a h ha
  · intro s ts op hop hs
    refine .of_supply (supply_spawn hop hs.supply) hs.enqueued ?_
    rw [gather_spawn rfl]
    exact hs.kept
  · intro s pre call post ok _ hs
    exact custody_advance n ok hs

/-- The table and the history of the queue only grow. -/
theorem grows_step (n : Int) (c : Conf (State α) (Call α) Nat) (a : Act Bool (Op α)) :
    c.shared.rows ⊆ ((persistProc n).step c a).shared.rows ∧
      c.shared.enqueued <+: ((persistProc n).step c a).shared.enqueued := by
  obtain ⟨x, rfl, hs⟩ | ⟨i, ok, call, pre, post, rfl, hi, ht, hs⟩ | hs := step_cases (persistProc n) c a
  · rw [hs]
    exact ⟨List.Subset.refl _, List.prefix_rfl⟩
  · have hh := hands_advance n ok call c.shared
    rw [hs]
    exact ⟨hh.rows, ⟨_, hh.enqueued.symm⟩⟩
  · rw [hs]
    exact ⟨List.Subset.refl _, List.prefix_rfl⟩

end

/-- Three events in batches of two: the first insert fails, a second flush retries it, and the
counter has moved to `2` while the third event is still in flight. -/
def retryRun : List (Act Bool (Op Unit)) :=
  [.spawn (.enqueue ⟨1, ()⟩), .sched 0 true, .spawn (.enqueue ⟨2, ()⟩), .sched 1 true,
    .spawn (.enqueue ⟨3, ()⟩), .sched 2 true, .sched 1 false, .sched 1 true,
    .spawn .flush, .sched 3 true, .sched 3 true, .sched 3 true]

theorem fifo_of_run_retry :
    let c := run (persistProc 2).step (Conf.init (State.init [] 0)) retryRun
    c.shared.sequenceCounter = 2 ∧ gather Call.batch c.tasks = [⟨3, ()⟩] ∧
      (gather Call.drain c.tasks).length ≤ 1 ∧
      c.shared.sequenceCounter ≤ batchMax ([] ++ c.shared.committed) := by
  have h0 : (0 : Int) ≤ batchMax ([] : List (IndexedEventInput Unit)) := by decide
  have h := fifo_of_run 2 [] h0 retryRun (by decide)
  exact ⟨by decide, by decide, h.1, h.2.2.2.1⟩

end Persistence

end Indexer
end TradeCore
