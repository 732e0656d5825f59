import TradeCore.Indexer.Pipeline

/-!
# TradeCore.Indexer.Sequence

The sequence numbers the indexer hands out, over stops, starts, backfills and crashes.

The counter lives in memory; the database learns of a number only after the batch that holds it has
been committed. `start` sets the counter to what the database knows, wherever it stood, so a number
above that value is handed out again. The numbers are distinct as long as the value `start` sets, and
the one `backfillGap` raises to in a process whose counter was not restored, is not below a number
handed out before, and no Soroban event is numbered before the counter was restored.
-/

namespace TradeCore
namespace Indexer
namespace Pipeline

open Lib

/-- No two different events have the same number. -/
def NoCollision (s : State) : Prop :=
  ∀ a ∈ s.assigned, ∀ b ∈ s.assigned, a.sequenceNumber = b.sequenceNumber → a.payload = b.payload

instance (s : State) : Decidable (NoCollision s) :=
  inferInstanceAs (Decidable (∀ a ∈ s.assigned, ∀ b ∈ s.assigned, _))

/-- No number above `n` has been handed out. -/
def Covers (n : Int) (s : State) : Prop := ∀ a ∈ s.assigned, a.sequenceNumber ≤ n

instance (n : Int) (s : State) : Decidable (Covers n s) :=
  inferInstanceAs (Decidable (∀ a ∈ s.assigned, _))

def Restores (_ : Env) (k : Call) (s : State) (_ : List (Task Call Unit)) : Prop :=
  match k with
  | .initializeSequenceCounter «from» => Covers «from» s
  | .raise _ _ persistedCounter => s.restored = true ∨ Covers persistedCounter s
  | .begin (.handleSorobanEvents _) => s.restored = true
  | _ => True

instance (e : Env) (k : Call) (s : State) (ts : List (Task Call Unit)) :
    Decidable (Restores e k s ts) := by
  unfold Restores
  split <;> infer_instance

/-- The calls that number events, or let them come, without another look at the counter. -/
def Call.numbers : Call → Bool
  | .startingTimer _ | .connecting | .fetching _ | .operations _ _ _ | .distributing _ _
  | .backfilling _ _ _ _ => true
  | _ => false

structure Numbered (s : State) (ts : List (Task Call Unit)) : Prop where
  covers : s.restored = true → Covers s.sequenceCounter s
  nodup : (s.assigned.map (·.sequenceNumber)).Nodup
  streaming : s.streaming = true → s.restored = true
  calls : AllRunning (fun k => k.numbers = true → s.restored = true) ts

section

variable {s s' : State} {ts pre post : List (Task Call Unit)} {k : Call} {t : Task Call Unit}

theorem Numbered.noCollision (h : Numbered s ts) : NoCollision s := by
  intro a ha b hb hab
  rw [List.inj_on_of_nodup_map h.nodup ha hb hab]

/-- A step that leaves the counter alone. -/
theorem Numbered.frame (h : Numbered s (pre ++ .running k :: post))
    (hcounter : s'.sequenceCounter = s.sequenceCounter) (hassigned : s'.assigned = s.assigned)
    (hrestored : s'.restored = s.restored) (hstreaming : s'.streaming = true → s.restored = true)
    (ht : ∀ k', t = .running k' → k'.numbers = true → s.restored = true) :
    Numbered s' (pre ++ t :: post) := by
  refine ⟨?_, by rw [hassigned]; exact h.nodup, by rw [hrestored]; exact hstreaming, ?_⟩
  · intro hr a ha
    rw [hrestored] at hr
    rw [hassigned] at ha
    rw [hcounter]
    exact h.covers hr a ha
  · rw [hrestored]
    exact h.calls.replace ht

theorem Numbered.spawn (h : Numbered s ts) (op : Op) : Numbered s (ts ++ [Task.running (Call.begin op)]) :=
  ⟨h.covers, h.nodup, h.streaming, h.calls.spawn (by simp [Call.numbers])⟩

/-- What the persistence and the timers do beside the calls. -/
theorem Numbered.beside (h : Numbered s ts)
    (p : Conf (Persistence.State UnsequencedEvent) (Persistence.Call UnsequencedEvent) Nat)
    (b : EventBuffer Int IndexedEvent) : Numbered { s with persistence := p, buffer := b } ts :=
  ⟨h.covers, h.nodup, h.streaming, h.calls⟩

/-- An event with its number in the table is there itself, since nobody else has that number. -/
theorem mem_of_number {assigned rows : List IndexedEvent} {r : IndexedEvent}
    (hnodup : (assigned.map (·.sequenceNumber)).Nodup) (hrows : ∀ x ∈ rows, x ∈ assigned)
    (hr : r ∈ assigned) (h : r.sequenceNumber ∈ rows.map (·.sequenceNumber)) : r ∈ rows := by
  obtain ⟨x, hx, hseq⟩ := List.mem_map.mp h
  rw [← List.inj_on_of_nodup_map hnodup (hrows x hx) hr hseq]
  exact hx

theorem Numbered.setCounter (h : Numbered s ts) {n : Int} (hn : Covers n s) :
    Numbered { s with sequenceCounter := n, restored := true } ts :=
  ⟨fun _ => hn, h.nodup, fun _ => rfl, fun _ _ _ => rfl⟩

/-- The numbers handed out lie above the counter, and it above all the others. -/
theorem Numbered.assign (h : Numbered s ts) (hr : s.restored = true) (events : List UnsequencedEvent) :
    Numbered (s.assign events).2 ts := by
  obtain ⟨hlast, -, hasc, hrange⟩ := assignSequences_spec s.sequenceCounter events
  have hold := h.covers hr
  refine ⟨?_, ?_, h.streaming, h.calls⟩
  · intro _ a ha
    show a.sequenceNumber ≤ (assignSequences s.sequenceCounter events).1
    rcases List.mem_append.mp ha with ha | ha
    · have := hold a ha
      omega
    · rw [hlast]
      exact (hrange a ha).2
  · show ((s.assigned ++ (assignSequences s.sequenceCounter events).2).map _).Nodup
    rw [List.map_append, List.nodup_append]
    refine ⟨h.nodup, ?_, ?_⟩
    · exact (List.pairwise_map.mpr hasc).imp fun hlt => Int.ne_of_lt hlt
    · intro n hn m hm
      obtain ⟨a, ha, rfl⟩ := List.mem_map.mp hn
      obtain ⟨b, hb, rfl⟩ := List.mem_map.mp hm
      have := hold a ha
      have := (hrange b hb).1
      omega

theorem numbered_nextTransaction (cfg : Config) (ledger : Int) (txs : List RawTransaction)
    (h : Numbered s (pre ++ .running k :: post)) (hr : s.restored = true) :
    Numbered (nextTransaction cfg ledger txs s).1
      (pre ++ (nextTransaction cfg ledger txs s).2 :: post) := by
  rcases nextTransaction_cases cfg ledger txs s with ⟨_, tx, rest, -, -, heq⟩ | ⟨-, heq⟩
  · rw [heq]
    exact h.frame rfl rfl rfl (fun _ => hr) (fun _ _ _ => hr)
  · rw [heq]
    exact h.frame rfl rfl rfl (fun _ => hr) (fun _ _ _ => hr)

theorem numbered_nextBackfill (cfg : Config) (toLedger : Int) (events : List IndexedEvent)
    (txs : List RawTransaction) (h : Numbered s (pre ++ .running k :: post)) (hr : s.restored = true) :
    Numbered (nextBackfill cfg toLedger events txs s).1
      (pre ++ (nextBackfill cfg toLedger events txs s).2 :: post) := by
  rcases nextBackfill_cases cfg toLedger events txs s with
    ⟨_, tx, rest, -, -, -, heq⟩ | ⟨-, -, heq⟩ | ⟨-, heq⟩
  · rw [heq]
    exact h.frame rfl rfl rfl (fun _ => hr) (fun _ _ _ => hr)
  · rw [heq]
    exact h.frame rfl rfl rfl (fun _ => hr) (fun _ _ _ => hr)
  · obtain ⟨p, hp⟩ := enqueueAll_frame cfg events s
    rw [heq, hp]
    exact h.frame rfl rfl rfl (fun _ => hr) (fun _ _ _ => hr)

/-- A call that ends, or goes on as one that numbers nothing. -/
theorem Numbered.idle (h : Numbered s (pre ++ .running k :: post))
    (ht : ∀ k', t = .running k' → k'.numbers = false) : Numbered s (pre ++ t :: post) := by
  refine h.frame rfl rfl rfl h.streaming ?_
  intro k' hk' hn
  rw [ht k' hk'] at hn
  cases hn

theorem Numbered.handOver (h : Numbered s ts) (cfg : Config) (now : Time) (indexed : List IndexedEvent) :
    Numbered (s.handOver cfg now indexed).2 ts ∧
      (s.handOver cfg now indexed).2.restored = s.restored := by
  obtain ⟨b, p, hframe⟩ := handOver_frame cfg now indexed s
  rw [hframe]
  exact ⟨h.beside p b, rfl⟩

theorem numbered_begin {cfg : Config} {e : Env} {op : Op}
    (hG : Restores e (.begin op) s (pre ++ .running (.begin op) :: post))
    (h : Numbered s (pre ++ .running (.begin op) :: post)) :
    Numbered (advance cfg e (.begin op) s).1 (pre ++ (advance cfg e (.begin op) s).2 :: post) := by
  cases op with
  | start =>
    simp only [advance]
    split
    · exact h.idle (by simp)
    · exact h.frame rfl rfl rfl h.streaming (by simp [Call.numbers])
  | stop =>
    simp only [advance]
    exact h.frame rfl rfl rfl (by simp [State.call]) (by simp)
  | handleLedgerClose ledger =>
    simp only [advance]
    split
    · rename_i hs
      exact h.frame rfl rfl rfl h.streaming (fun _ _ _ => h.streaming hs)
    · exact h.idle (by simp)
  | handleSorobanEvents events =>
    have hr : s.restored = true := hG
    simp only [advance]
    exact ((h.assign hr _).handOver cfg e.now _).1.idle (by simp)
  | backfillGap fromLedger toLedger =>
    simp only [advance]
    split
    · exact h.idle (by simp)
    · exact h.idle (by simp [Call.numbers])

theorem numbered_advance {cfg : Config} {e : Env}
    (hG : Restores e k s (pre ++ .running k :: post)) (h : Numbered s (pre ++ .running k :: post)) :
    Numbered (advance cfg e k s).1 (pre ++ (advance cfg e k s).2 :: post) := by
  have hcall := h.calls.here
  cases k with
  | begin op => exact numbered_begin hG h
  | readCounter =>
    simp only [advance]
    split
    · exact h.idle (by simp [Call.numbers])
    · exact h.idle (by simp)
  | initializeSequenceCounter «from» =>
    have hset := h.setCounter (n := «from») hG
    exact hset.frame rfl rfl rfl (fun _ => rfl) (fun _ _ _ => rfl)
  | startingTimer i =>
    exact h.frame rfl rfl rfl h.streaming (fun _ _ _ => hcall rfl)
  | connecting =>
    simp only [advance]
    split
    · exact h.frame rfl rfl rfl (fun _ => hcall rfl) (by simp)
    · exact h.idle (by simp)
  | fetching ledger => exact numbered_nextTransaction cfg ledger _ h (hcall rfl)
  | operations ledger tx rest =>
    have hr : s.restored = true := hcall rfl
    simp only [advance]
    split
    · exact numbered_nextTransaction cfg ledger rest h hr
    · rename_i operations _
      obtain ⟨hO, hrestored⟩ := (h.assign hr (normalizeStellarOperations tx operations)).handOver cfg e.now
        (s.assign (normalizeStellarOperations tx operations)).1
      split
      · exact hO.frame rfl rfl rfl hO.streaming fun _ _ _ => hrestored.trans hr
      · exact numbered_nextTransaction cfg ledger rest hO (hrestored.trans hr)
  | distributing ledger rest =>
    simp only [advance]
    split
    · exact numbered_nextTransaction cfg ledger rest h (hcall rfl)
    · exact h.idle (by simp)
  | flushing ledger i =>
    simp only [advance]
    split
    · exact h.idle (by simp [Call.numbers])
    · split
      · exact h.idle (by simp [Call.numbers])
      · exact h.idle (by simp)
  | saving ledger =>
    simp only [advance]
    split
    · exact h.frame rfl rfl rfl h.streaming (by simp)
    · exact h.idle (by simp)
  | fetchingRange ledger toLedger fetched =>
    simp only [advance]
    split
    · exact h.idle (by simp [Call.numbers])
    · exact h.idle (by simp [Call.numbers])
  | readPersisted toLedger txs =>
    simp only [advance]
    split
    · exact h.idle (by simp [Call.numbers])
    · exact h.idle (by simp)
  | raise toLedger txs persistedCounter =>
    refine numbered_nextBackfill cfg toLedger [] txs (h.setCounter ?_) rfl
    intro a ha
    -- a counter already restored is only ever raised
    rcases hG with hr | hc
    · have := h.covers hr a ha
      split <;> omega
    · have := hc a ha
      split <;> omega
  | backfilling toLedger tx rest events =>
    have hr : s.restored = true := hcall rfl
    simp only [advance]
    split
    · exact numbered_nextBackfill cfg toLedger events rest h hr
    · exact numbered_nextBackfill cfg toLedger _ rest (h.assign hr _) hr
  | backfillFlushing toLedger i =>
    simp only [advance]
    split
    · exact h.idle (by simp [Call.numbers])
    · exact h.idle (by simp [Call.numbers])
  | gettingLedger toLedger =>
    simp only [advance]
    split
    · exact h.idle (by simp [Call.numbers])
    · exact h.idle (by simp)

end

theorem numbered_restart {s : State} {ts : List (Task Call Unit)} (h : Numbered s ts) :
    Numbered s.restart [] := by
  refine ⟨?_, h.nodup, by simp [State.restart, State.boot], .nil⟩
  intro hr a ha
  have hempty : s.assigned = [] := List.isEmpty_iff.mp hr
  have ha : a ∈ s.assigned := ha
  rw [hempty] at ha
  cases ha

theorem numbered_step (cfg : Config) (c : Conf State Call Unit) (a : Action)
    (h : Numbered c.shared c.tasks) (hG : Meeting (fun _ => True) Restores c a) :
    Numbered (step cfg c a).shared (step cfg c a).tasks := by
  refine pipeline_inv cfg ?_ ?_ ?_ ?_ ?_ ?_ c a h hG
  · exact fun s ts op _ hs => hs.spawn op
  · intro s pre k post e hG hs
    exact numbered_advance hG hs
  · exact fun s ts i ok hs => hs.beside _ _
  · exact fun s ts hs => hs.beside _ _
  · exact fun s ts now hs => hs.beside _ _
  · exact fun s ts hs => numbered_restart hs

theorem numbered_fresh : Numbered State.fresh [] := by
  refine ⟨?_, List.nodup_nil, by simp [State.fresh, State.boot], .nil⟩
  intro _ a ha
  cases ha

/-- **No number twice**: in every state of a run whose counter is never set below a number already
handed out, different events have different numbers. -/
theorem distinct_numbers_of_restored (cfg : Config) (acts : List Action)
    (hG : Along (step cfg) (Meeting (fun _ => True) Restores) (Conf.init State.fresh) acts) :
    Always (step cfg) (fun c => NoCollision c.shared) (Conf.init State.fresh) acts :=
  always_of_inv (I := fun c : Conf State Call Unit => Numbered c.shared c.tasks)
    (fun _ h => h.noCollision) (numbered_step cfg) numbered_fresh hG

/-! ## A stop that could not flush -/

def defaults : Config := ⟨⟨10000, 60000⟩, 1000⟩

/-- The call `i` runs on, and what it waits for goes well. -/
def goesOn (i : Nat) : Action := .call (.sched i ⟨true, none, none, 1⟩)

def receives (i : Nat) (page : List RawTransaction) : Action := .call (.sched i ⟨true, some page, none, 1⟩)

def reads (i : Nat) (operations : List RawOperation) : Action :=
  .call (.sched i ⟨true, none, some operations, 1⟩)

def payment : RawOperation := ⟨some 1, "payment", none, none, none, none, some "5", none, none⟩

def transfer (hash : String) (ledger : Int) : RawTransaction :=
  ⟨hash, ledger, "2026-01-01T00:00:00Z", "GA", true⟩

/-- A whole `start`: it is the call `i`, and the `j`th call into the persistence. -/
def starting (i j : Nat) : List Action :=
  [.call (.spawn .start), goesOn i, goesOn i, goesOn i, .persist j true, goesOn i, goesOn i]

/-- `handleLedgerClose` as far as its flush, for a ledger with one payment. -/
def closing (i : Nat) (hash : String) (ledger : Int) : List Action :=
  [.call (.spawn (.handleLedgerClose ledger)), goesOn i, receives i [transfer hash ledger],
    reads i [payment], goesOn i]

/-- The event of ledger `1` is committed and the counter written before the indexer stops. -/
def flushedStop : List Action :=
  starting 0 0 ++ closing 1 "a" 1 ++
    [.persist 2 true, .persist 2 true, .persist 2 true, .call (.spawn .stop), goesOn 2] ++
    starting 3 4 ++ closing 4 "b" 2

theorem flushed_stop_distinct :
    (run (step defaults) (Conf.init State.fresh) flushedStop).shared.assigned.map
        (fun e => (e.sequenceNumber, e.payload.transactionHash)) = [(1, "a"), (2, "b")] ∧
      Always (step defaults) (fun c => NoCollision c.shared) (Conf.init State.fresh) flushedStop := by
  refine ⟨by decide +kernel, distinct_numbers_of_restored defaults _ ?_⟩
  decide +kernel

/-- The inserts of the flush and of `stop` fail, the event of ledger `1` stays in the queue with the
number `1`, and the next `start` sets the counter back to `0`. -/
def failedStop : List Action :=
  starting 0 0 ++ closing 1 "a" 1 ++
    [.persist 2 false, .persist 2 true, .call (.spawn .stop), goesOn 2, .persist 3 false,
      .persist 3 true] ++
    starting 3 4 ++ closing 4 "b" 2

theorem failed_stop_collides :
    ¬ Always (step defaults) (fun c => NoCollision c.shared) (Conf.init State.fresh) failedStop := by
  intro h
  have hlast := h.last
  revert hlast
  decide +kernel

end Pipeline
end Indexer
end TradeCore
