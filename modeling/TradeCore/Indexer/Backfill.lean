import TradeCore.Indexer.Flush

/-!
# TradeCore.Indexer.Backfill

`backfillGap` against what is in the table when it moves the cursor.

The call is followed through a run in which anything else goes on beside it. It does not learn of a fetch
that failed, and the flush it waits for returns the same whether its drain has written the queue or has
put a batch back. `Backfills` is what its answers and the writes of that flush must bring; under it the
cursor moves only when every relevant event of the gap is stored (`backfill_stored_of_fetched`).
-/

namespace TradeCore
namespace Indexer

open Lib

namespace Pipeline

/-! ## What every step keeps -/

/-- The events a backfill has numbered and not yet enqueued. -/
def Call.carried : Call → List IndexedEvent
  | .backfilling _ _ _ events => events
  | _ => []

/-- Between two steps the buffer is empty and the persistence holds numbered events. -/
structure Kept (cfg : Config) (s : State) : Prop where
  ordered : s.buffer.Ordered cfg.buffer
  empty : s.buffer.buffer = []
  orderly : Persistence.Orderly (· ∈ s.assigned) s.persistence

/-- What `s` has is still there in `s'`, and who waits for a flush in `s` waits for it in `s'`. -/
structure Evolves (s s' : State) : Prop where
  later : Later s s'
  assigned : s.assigned ⊆ s'.assigned
  awaited : ∀ j (D : Persistence.State UnsequencedEvent → Prop),
    (∀ p p' : Persistence.State UnsequencedEvent, p.rows ⊆ p'.rows → D p → D p') →
    Persistence.Awaited j D s.persistence → Persistence.Awaited j D s'.persistence

theorem Evolves.refl (s : State) : Evolves s s :=
  ⟨.refl s, List.Subset.refl _, fun _ _ _ h => h⟩

theorem Evolves.trans {s s' s'' : State} (h : Evolves s s') (h' : Evolves s' s'') : Evolves s s'' :=
  ⟨h.later.trans h'.later, List.Subset.trans h.assigned h'.assigned,
    fun j D hmono ha => h'.awaited j D hmono (h.awaited j D hmono ha)⟩

section

variable {cfg : Config} {s s' : State}

/-- A step that changes neither the numbers nor what the persistence and the buffer hold. -/
theorem Kept.frame (h : Kept cfg s) (hp : s'.persistence = s.persistence) (hb : s'.buffer = s.buffer)
    (ha : s'.assigned = s.assigned) : Kept cfg s' ∧ Evolves s s' := by
  refine ⟨⟨by rw [hb]; exact h.ordered, by rw [hb]; exact h.empty, by rw [hp, ha]; exact h.orderly⟩,
    ⟨?_, ?_⟩, ?_, ?_⟩
  · rw [hp]
    exact List.Subset.refl _
  · rw [hp]
    exact List.Subset.refl _
  · rw [ha]
    exact List.Subset.refl _
  · rw [hp]
    exact fun _ _ _ h => h

theorem Kept.call (h : Kept cfg s) (ok : Bool) (op : Persistence.Op UnsequencedEvent)
    (hop : Persistence.Brings (· ∈ s.assigned) op) :
    Kept cfg (s.call cfg ok op) ∧ Evolves s (s.call cfg ok op) := by
  obtain ⟨hrows, henq⟩ := Persistence.grows_call cfg.batchMaxSize ok op s.persistence
  exact ⟨⟨h.ordered, h.empty, Persistence.orderly_call _ ok h.orderly hop⟩,
    ⟨hrows, henq.subset⟩, List.Subset.refl _,
    fun j D hmono ha => ha.call cfg.batchMaxSize ok op fun p' => hmono _ p'⟩

/-- A call of the persistence beside which nothing else of the kind changes. -/
theorem Kept.call_frame (h : Kept cfg s) (ok : Bool) (op : Persistence.Op UnsequencedEvent)
    (hop : Persistence.Brings (· ∈ s.assigned) op)
    (hp : s'.persistence = (s.call cfg ok op).persistence) (hb : s'.buffer = s.buffer)
    (ha : s'.assigned = s.assigned) : Kept cfg s' ∧ Evolves s s' := by
  obtain ⟨hk, he⟩ := h.call ok op hop
  obtain ⟨hk', he'⟩ := hk.frame hp hb ha
  exact ⟨hk', he.trans he'⟩

theorem Kept.enqueueAll (events : List IndexedEvent) (h : Kept cfg s)
    (hevents : ∀ e ∈ events, e ∈ s.assigned) :
    Kept cfg (s.enqueueAll cfg events) ∧ Evolves s (s.enqueueAll cfg events) ∧
      ∀ e ∈ events, e ∈ (s.enqueueAll cfg events).persistence.shared.enqueued := by
  induction events generalizing s with
  | nil => exact ⟨h, .refl s, by simp⟩
  | cons event events ih =>
    obtain ⟨hk, he⟩ := h.call true (.enqueue event) (hevents event (by simp))
    obtain ⟨hk', he', hall⟩ := ih hk fun e he => hevents e (by simp [he])
    refine ⟨hk', he.trans he', ?_⟩
    intro e hin
    rcases List.mem_cons.mp hin with rfl | hin
    · exact he'.later.enqueued (Persistence.mem_call_enqueue _ _ e)
    · exact hall e hin

theorem Kept.assign (h : Kept cfg s) (events : List UnsequencedEvent) :
    Kept cfg (s.assign events).2 ∧ Evolves s (s.assign events).2 := by
  have hsub : s.assigned ⊆ (s.assign events).2.assigned := List.subset_append_left _ _
  exact ⟨⟨h.ordered, h.empty, h.orderly.mono fun _ he => hsub he⟩,
    ⟨List.Subset.refl _, List.Subset.refl _⟩, hsub, fun _ _ _ ha => ha⟩

theorem Kept.index (h : Kept cfg s) (now : Time) (events : List UnsequencedEvent) :
    Kept cfg ((s.assign events).2.handOver cfg now (s.assign events).1).2 ∧
      Evolves s ((s.assign events).2.handOver cfg now (s.assign events).1).2 := by
  obtain ⟨hk, he⟩ := h.assign events
  obtain ⟨drained, b, heq, hord, hempty, hin, -⟩ :=
    handOver_drains (s.assign events).1 hk.ordered hk.empty now
  have hbuffer : Kept cfg { (s.assign events).2 with buffer := b } := ⟨hord, hempty, hk.orderly⟩
  obtain ⟨hk', he', -⟩ := hbuffer.enqueueAll drained fun e hd => List.mem_append_right _ (hin e hd)
  rw [heq]
  exact ⟨hk', he.trans ⟨⟨he'.later.rows, he'.later.enqueued⟩, he'.assigned, he'.awaited⟩⟩

theorem kept_nextTransaction (h : Kept cfg s) (ledger : Int) (txs : List RawTransaction) :
    Kept cfg (nextTransaction cfg ledger txs s).1 ∧ Evolves s (nextTransaction cfg ledger txs s).1 := by
  rcases nextTransaction_cases cfg ledger txs s with ⟨_, tx, rest, -, -, heq⟩ | ⟨-, heq⟩
  · rw [heq]
    exact ⟨h, .refl s⟩
  · rw [heq]
    exact h.call_frame true .flush trivial rfl rfl rfl

/-- What a step of a call comes to, for those beside it. -/
structure Keeps (cfg : Config) (s : State) (next : Next) : Prop where
  kept : Kept cfg next.1
  evolves : Evolves s next.1
  carried : ∀ k, next.2 = .running k → ∀ e ∈ k.carried, e ∈ next.1.assigned

theorem keeps_nextBackfill (h : Kept cfg s) (toLedger : Int) {events : List IndexedEvent}
    (hevents : ∀ e ∈ events, e ∈ s.assigned) (txs : List RawTransaction) :
    Keeps cfg s (nextBackfill cfg toLedger events txs s) := by
  rcases nextBackfill_cases cfg toLedger events txs s with
    ⟨_, tx, rest, -, -, -, heq⟩ | ⟨-, -, heq⟩ | ⟨-, heq⟩
  · rw [heq]
    refine ⟨h, .refl s, ?_⟩
    rintro k ⟨⟩
    exact hevents
  · rw [heq]
    refine ⟨h, .refl s, ?_⟩
    rintro k ⟨⟩
    exact fun e he => by cases he
  · rw [heq]
    obtain ⟨hk, he, -⟩ := h.enqueueAll events hevents
    obtain ⟨hk', he'⟩ := hk.call true .flush trivial
    refine ⟨hk', he.trans he', ?_⟩
    rintro k ⟨⟩
    exact fun e he => by cases he

theorem Keeps.of_kept {next : Next} (h : Kept cfg next.1 ∧ Evolves s next.1)
    (ht : ∀ k, next.2 = .running k → k.carried = []) : Keeps cfg s next :=
  ⟨h.1, h.2, fun k hk e he => by rw [ht k hk] at he; cases he⟩

theorem keeps_nextTransaction (h : Kept cfg s) (ledger : Int) (txs : List RawTransaction) :
    Keeps cfg s (nextTransaction cfg ledger txs s) := by
  refine .of_kept (kept_nextTransaction h ledger txs) fun k hk => ?_
  rcases nextTransaction_cases cfg ledger txs s with ⟨_, tx, rest, -, -, heq⟩ | ⟨-, heq⟩
  · rw [heq] at hk
    cases hk
    rfl
  · rw [heq] at hk
    cases hk
    rfl

theorem Keeps.trans {next : Next} (h : Evolves s s') (h' : Keeps cfg s' next) : Keeps cfg s next :=
  ⟨h'.kept, h.trans h'.evolves, h'.carried⟩

theorem Keeps.same (h : Kept cfg s) {t : Task Call Unit} (ht : ∀ k, t = .running k → k.carried = []) :
    Keeps cfg s (s, t) :=
  .of_kept ⟨h, .refl s⟩ ht

theorem keeps_begin (e : Env) (op : Op) (h : Kept cfg s) : Keeps cfg s (advance cfg e (.begin op) s) := by
  cases op with
  | start =>
    simp only [advance]
    split
    · exact .same h (by simp)
    · exact .of_kept (h.frame rfl rfl rfl) (by simp [Call.carried])
  | stop => exact .of_kept (h.call_frame true .flush trivial rfl rfl rfl) (by simp [advance])
  | handleLedgerClose ledger =>
    simp only [advance]
    split
    · exact .same h (by simp [Call.carried])
    · exact .same h (by simp)
  | handleSorobanEvents events =>
    exact .of_kept (h.index e.now (events.map normalizeSorobanEvent)) (by simp [advance])
  | backfillGap fromLedger toLedger =>
    simp only [advance]
    split
    · exact .same h (by simp)
    · exact .same h (by simp [Call.carried])

theorem keeps_advance (e : Env) {k : Call} (h : Kept cfg s) (hcarried : ∀ e ∈ k.carried, e ∈ s.assigned) :
    Keeps cfg s (advance cfg e k s) := by
  cases k with
  | begin op => exact keeps_begin e op h
  | readCounter =>
    simp only [advance]
    split
    · exact .same h (by simp [Call.carried])
    · exact .same h (by simp)
  | initializeSequenceCounter «from» =>
    exact .of_kept (h.call_frame e.ok .startFlushTimer trivial rfl rfl rfl)
      (by simp [advance, Call.carried])
  | startingTimer i =>
    simp only [advance]
    split
    · exact .same h (by simp [Call.carried])
    · exact .same h (by simp [Call.carried])
  | connecting =>
    simp only [advance]
    split
    · exact .of_kept (h.frame rfl rfl rfl) (by simp)
    · exact .same h (by simp)
  | fetching ledger => exact keeps_nextTransaction h ledger _
  | operations ledger tx rest =>
    simp only [advance]
    split
    · exact keeps_nextTransaction h ledger rest
    · rename_i operations _
      obtain ⟨hk, he⟩ := h.index e.now (normalizeStellarOperations tx operations)
      split
      · exact .of_kept ⟨hk, he⟩ (by simp [Call.carried])
      · exact (keeps_nextTransaction hk ledger rest).trans he
  | distributing ledger rest =>
    simp only [advance]
    split
    · exact keeps_nextTransaction h ledger rest
    · exact .same h (by simp)
  | flushing ledger i =>
    simp only [advance]
    split
    · exact .same h (by simp [Call.carried])
    · split
      · exact .same h (by simp [Call.carried])
      · exact .same h (by simp)
  | saving ledger =>
    simp only [advance]
    split
    · exact .of_kept (h.frame rfl rfl rfl) (by simp)
    · exact .same h (by simp)
  | fetchingRange ledger toLedger fetched =>
    simp only [advance]
    split
    · exact .same h (by simp [Call.carried])
    · exact .same h (by simp [Call.carried])
  | readPersisted toLedger txs =>
    simp only [advance]
    split
    · exact .same h (by simp [Call.carried])
    · exact .same h (by simp)
  | raise toLedger txs persistedCounter =>
    obtain ⟨hk, he⟩ : Kept cfg _ ∧ Evolves s { s with
        sequenceCounter :=
          if s.sequenceCounter < persistedCounter then persistedCounter else s.sequenceCounter
        restored := true } := h.frame rfl rfl rfl
    exact (keeps_nextBackfill hk toLedger (fun e he => by cases he) txs).trans he
  | backfilling toLedger tx rest events =>
    simp only [advance]
    split
    · exact keeps_nextBackfill h toLedger hcarried rest
    · rename_i operations _
      obtain ⟨hk, he⟩ := h.assign (normalizeStellarOperations tx operations)
      refine (keeps_nextBackfill hk toLedger (fun x hx => ?_) rest).trans he
      rcases List.mem_append.mp hx with hx | hx
      · exact he.assigned (hcarried x hx)
      · exact List.mem_append_right _ hx
  | backfillFlushing toLedger i =>
    simp only [advance]
    split
    · exact .same h (by simp [Call.carried])
    · exact .same h (by simp [Call.carried])
  | gettingLedger toLedger =>
    simp only [advance]
    split
    · exact .same h (by simp [Call.carried])
    · exact .same h (by simp)

end

/-- What holds of the whole process, whatever fails, as long as no number is handed out twice. -/
structure Steady (cfg : Config) (s : State) (ts : List (Task Call Unit)) : Prop where
  numbered : Numbered s ts
  kept : Kept cfg s
  carried : AllRunning (fun k => ∀ e ∈ k.carried, e ∈ s.assigned) ts

theorem kept_persist {cfg : Config} {s : State} (h : Kept cfg s) (i : Nat) (ok : Bool) :
    Kept cfg (s.persist cfg i ok) :=
  ⟨h.ordered, h.empty,
    Persistence.orderly_step cfg.batchMaxSize (.sched i ok) h.orderly fun _ _ => trivial⟩

theorem steady_step (cfg : Config) (c : Conf State Call Unit) (a : Action)
    (h : Steady cfg c.shared c.tasks) (hG : Meeting (fun _ => True) Restores c a) :
    Steady cfg (step cfg c a).shared (step cfg c a).tasks := by
  refine pipeline_inv cfg (I := Steady cfg) ?_ ?_ ?_ ?_ ?_ ?_ c a h hG
  · intro s ts op _ hs
    exact ⟨hs.numbered.spawn op, hs.kept, hs.carried.spawn (by simp [Call.carried])⟩
  · intro s pre k post e hG hs
    have hk := keeps_advance e hs.kept hs.carried.here
    refine ⟨numbered_advance hG hs.numbered, hk.kept, ?_⟩
    have hold : AllRunning (fun k' => ∀ x ∈ k'.carried, x ∈ (advance cfg e k s).1.assigned)
        (pre ++ .running k :: post) :=
      fun k' hk' x hx => hk.evolves.assigned (hs.carried k' hk' x hx)
    exact hold.replace hk.carried
  · intro s ts i ok hs
    exact ⟨hs.numbered.beside _ _,
      kept_persist hs.kept i ok, hs.carried⟩
  · intro s ts hs
    exact ⟨hs.numbered.beside _ _,
      (hs.kept.call true .flush trivial).1, hs.carried⟩
  · intro s ts now hs
    have hempty : (s.buffer.evictExpired cfg.buffer now).buffer = [] := by
      simp [EventBuffer.evictExpired, hs.kept.empty]
    exact ⟨hs.numbered.beside _ _,
      ⟨EventBuffer.evictExpired_ordered hs.kept.ordered now, hempty, hs.kept.orderly⟩, hs.carried⟩
  · intro s ts hs
    exact ⟨numbered_restart hs.numbered, ⟨ordered_run cfg.buffer [], rfl,
      Persistence.orderly_init _ hs.kept.orderly.custody.rows⟩, .nil⟩

theorem steady_fresh (cfg : Config) : Steady cfg State.fresh [] :=
  ⟨numbered_fresh, ⟨ordered_run cfg.buffer [], rfl, Persistence.orderly_init 0 fun e he => by cases he⟩,
    .nil⟩

/-! ## One backfill -/

/-- Every relevant event of the gap is in the table. -/
def GapStored (chain : Chain) (fromLedger toLedger : Int) (s : State) : Prop :=
  ∀ l, fromLedger ≤ l → l ≤ toLedger → ∀ e ∈ chain.events l, Stored s e

/-- `GapStored`, of the persistence. -/
def GapRows (chain : Chain) (fromLedger toLedger : Int) (p : Persistence.State UnsequencedEvent) : Prop :=
  ∀ l, fromLedger ≤ l → l ≤ toLedger → ∀ e ∈ chain.events l, ∃ r ∈ p.rows, r.payload = e

/-- The relevant events of the gap that `P` does not speak for belong to transactions of `txs`. -/
def GapIn (chain : Chain) (fromLedger toLedger : Int) (txs : List RawTransaction)
    (P : UnsequencedEvent → Prop) : Prop :=
  ∀ l, fromLedger ≤ l → l ≤ toLedger → ∀ tx ∈ chain.transactions l,
    tx ∈ txs ∨ ∀ e ∈ chain.eventsOf tx, P e

/-- How far the call has come. -/
def GapProgress (chain : Chain) (fromLedger toLedger : Int) (s : State) : Call → Prop
  | .begin op => op = .backfillGap fromLedger toLedger
  | .fetchingRange ledger to' fetched => to' = toLedger ∧ ledger ≤ toLedger ∧
      GapIn chain fromLedger (ledger - 1) fetched (Stored s)
  | .readPersisted to' txs | .raise to' txs _ => to' = toLedger ∧
      GapIn chain fromLedger toLedger txs (Stored s)
  | .backfilling to' tx rest events => to' = toLedger ∧
      GapIn chain fromLedger toLedger (tx :: rest)
        fun e => (∃ r ∈ events, r.payload = e) ∨ Stored s e
  | .backfillFlushing to' j => to' = toLedger ∧
      (∀ l, fromLedger ≤ l → l ≤ toLedger → ∀ e ∈ chain.events l, Enqueued s e ∨ Stored s e) ∧
      Persistence.Awaited j (GapRows chain fromLedger toLedger) s.persistence
  | .gettingLedger to' | .saving to' => to' = toLedger ∧ GapStored chain fromLedger toLedger s
  | _ => False

/-- The answers to the call hold every relevant event that is not stored yet. -/
def Fetches (chain : Chain) (e : Env) (s : State) : Call → Prop
  | .fetchingRange ledger _ _ => ∀ tx ∈ chain.transactions ledger,
      tx ∈ e.page.getD [] ∨ ∀ event ∈ chain.eventsOf tx, Stored s event
  | .backfilling _ tx _ _ => ∀ event ∈ chain.eventsOf tx,
      event ∈ normalizeStellarOperations tx (e.operations.getD []) ∨ Stored s event
  | _ => True

instance (s : State) (e : UnsequencedEvent) : Decidable (Stored s e) :=
  inferInstanceAs (Decidable (∃ r ∈ s.persistence.shared.rows, r.payload = e))

instance (chain : Chain) (e : Env) (s : State) (k : Call) : Decidable (Fetches chain e s k) := by
  unfold Fetches
  split <;> infer_instance

/-- The call `i` waits for the flush `j`. -/
def Awaits (i j : Nat) (ts : List (Task Call Unit)) : Bool :=
  match ts[i]? with
  | some (.running (.backfillFlushing _ j')) => j' = j
  | _ => false

/-- What the write that `j` waits for leaves outside the table. -/
def State.left (s : State) (j : Nat) (ok : Bool) : List IndexedEvent :=
  match s.persistence.tasks[j]? with
  | some (.running k) => Persistence.left ok k s.persistence.shared
  | _ => []

/-- The condition on a run in which `i` is a backfill: no number is handed out twice, the answers to `i`
are complete, a write that fails in the flush `i` waits for leaves no event of the gap outside the table,
and the process does not crash. -/
def Backfills (chain : Chain) (fromLedger toLedger : Int) (i : Nat) (c : Conf State Call Unit) :
    Action → Prop
  | .call (.spawn _) => True
  | .call (.sched j e) => Meets (fun _ : Op => True)
      (fun e k s ts => Restores e k s ts ∧ (j = i → Fetches chain e s k)) c (.sched j e)
  | .persist j ok => Awaits i j c.tasks = true → ∀ r ∈ c.shared.left j ok,
      fromLedger ≤ r.payload.ledgerSequence → r.payload.ledgerSequence ≤ toLedger →
      Stored c.shared r.payload
  | .crash => False
  | _ => True

instance (chain : Chain) (fromLedger toLedger : Int) (i : Nat) (c : Conf State Call Unit) :
    DecidablePred (Backfills chain fromLedger toLedger i c)
  | .call (.spawn _) => .isTrue trivial
  | .call (.sched j e) => inferInstanceAs (Decidable (Meets (fun _ : Op => True)
      (fun e k s ts => Restores e k s ts ∧ (j = i → Fetches chain e s k)) c (.sched j e)))
  | .persist j ok => inferInstanceAs (Decidable (Awaits i j c.tasks = true → ∀ r ∈ c.shared.left j ok,
      fromLedger ≤ r.payload.ledgerSequence → r.payload.ledgerSequence ≤ toLedger →
      Stored c.shared r.payload))
  | .crash => .isFalse id
  | .flush | .evictExpired _ => .isTrue trivial

section

variable {cfg : Config} {chain : Chain} {fromLedger toLedger : Int} {s s' : State}

theorem GapRows.mono {p p' : Persistence.State UnsequencedEvent} (hrows : p.rows ⊆ p'.rows)
    (h : GapRows chain fromLedger toLedger p) : GapRows chain fromLedger toLedger p' := by
  intro l hf ht e hin
  obtain ⟨r, hr, hre⟩ := h l hf ht e hin
  exact ⟨r, hrows hr, hre⟩

theorem GapIn.mono {txs : List RawTransaction} {P Q : UnsequencedEvent → Prop}
    (h : GapIn chain fromLedger toLedger txs P) (hPQ : ∀ e, P e → Q e) :
    GapIn chain fromLedger toLedger txs Q :=
  fun l hf ht tx htx => (h l hf ht tx htx).imp id fun hall e he => hPQ e (hall e he)

/-- When no transaction is left, `P` speaks for every event of the gap. -/
theorem GapIn.all {txs : List RawTransaction} {P : UnsequencedEvent → Prop}
    (h : GapIn chain fromLedger toLedger txs P) (hnone : ∀ t ∈ txs, t.successful = false) :
    ∀ l, fromLedger ≤ l → l ≤ toLedger → ∀ e ∈ chain.events l, P e := by
  intro l hf ht e he
  obtain ⟨tx, htx, hein⟩ := List.mem_flatMap.mp he
  rcases h l hf ht tx htx with hin | hall
  · rw [Chain.eventsOf, hnone tx hin] at hein
    cases hein
  · exact hall e hein

theorem GapProgress.later {k : Call} (hl : Later s s')
    (hawaited : ∀ to' j, k = .backfillFlushing to' j →
      Persistence.Awaited j (GapRows chain fromLedger toLedger) s'.persistence)
    (h : GapProgress chain fromLedger toLedger s k) : GapProgress chain fromLedger toLedger s' k := by
  have hstored : ∀ e, Stored s e → Stored s' e := fun e => Stored.later hl
  cases k with
  | fetchingRange ledger to' fetched => exact ⟨h.1, h.2.1, h.2.2.mono hstored⟩
  | readPersisted to' txs => exact ⟨h.1, h.2.mono hstored⟩
  | raise to' txs counter => exact ⟨h.1, h.2.mono hstored⟩
  | backfilling to' tx rest events => exact ⟨h.1, h.2.mono fun e => Or.imp id (hstored e)⟩
  | backfillFlushing to' j =>
    refine ⟨h.1, fun l hf ht e hin => ?_, hawaited to' j rfl⟩
    exact (h.2.1 l hf ht e hin).imp (Enqueued.later hl) (hstored e)
  | gettingLedger to' => exact ⟨h.1, fun l hf ht e hin => hstored e (h.2 l hf ht e hin)⟩
  | saving to' => exact ⟨h.1, fun l hf ht e hin => hstored e (h.2 l hf ht e hin)⟩
  | begin op => exact h
  | readCounter => exact h
  | initializeSequenceCounter «from» => exact h
  | startingTimer i => exact h
  | connecting => exact h
  | fetching ledger => exact h
  | operations ledger tx rest => exact h
  | distributing ledger rest => exact h
  | flushing ledger i => exact h

/-- What another call does leaves the backfill where it is. -/
theorem GapProgress.evolves {k : Call} (he : Evolves s s')
    (h : GapProgress chain fromLedger toLedger s k) : GapProgress chain fromLedger toLedger s' k := by
  refine h.later he.later fun to' j hk => ?_
  subst hk
  exact he.awaited j _ (fun _ _ => GapRows.mono) h.2.2

theorem gap_flush {events : List IndexedEvent} (h : Kept cfg s)
    (hnodup : (s.assigned.map (·.sequenceNumber)).Nodup) (hevents : ∀ e ∈ events, e ∈ s.assigned)
    (hgap : ∀ l, fromLedger ≤ l → l ≤ toLedger → ∀ e ∈ chain.events l,
      (∃ r ∈ events, r.payload = e) ∨ Stored s e) :
    GapProgress chain fromLedger toLedger ((s.enqueueAll cfg events).call cfg true .flush)
      (.backfillFlushing toLedger (s.enqueueAll cfg events).persistence.tasks.length) := by
  obtain ⟨hk, he, hall⟩ := h.enqueueAll events hevents
  have hassigned : (s.enqueueAll cfg events).assigned = s.assigned := by
    obtain ⟨p, hp⟩ := enqueueAll_frame cfg events s
    rw [hp]
  have hqueued : ∀ l, fromLedger ≤ l → l ≤ toLedger → ∀ e ∈ chain.events l,
      Enqueued (s.enqueueAll cfg events) e ∨ Stored (s.enqueueAll cfg events) e := by
    intro l hf ht e hin
    rcases hgap l hf ht e hin with ⟨r, hr, hre⟩ | hstored
    · exact .inl ⟨r, hall r hr, hre⟩
    · exact .inr (hstored.later he.later)
  have hl := (hk.call true .flush trivial).2.later
  refine ⟨rfl, fun l hf ht e hin => ?_, Persistence.awaited_flush cfg.batchMaxSize true hk.orderly ?_ ?_⟩
  · exact (hqueued l hf ht e hin).imp (Enqueued.later hl) (Stored.later hl)
  · intro p hrows hA hin l hf ht e hein
    rcases hqueued l hf ht e hein with ⟨r, hr, hre⟩ | ⟨r, hr, hre⟩
    · exact ⟨r, mem_of_number (hassigned ▸ hnodup) hA (hk.orderly.custody.enqueued r hr) (hin r hr), hre⟩
    · exact ⟨r, hrows hr, hre⟩
  · exact fun p => GapRows.mono

theorem gap_nextBackfill {events : List IndexedEvent} {txs : List RawTransaction} (h : Kept cfg s)
    (hnodup : (s.assigned.map (·.sequenceNumber)).Nodup) (hevents : ∀ e ∈ events, e ∈ s.assigned)
    (hgap : GapIn chain fromLedger toLedger txs fun e => (∃ r ∈ events, r.payload = e) ∨ Stored s e) :
    ∀ k, (nextBackfill cfg toLedger events txs s).2 = .running k →
      GapProgress chain fromLedger toLedger (nextBackfill cfg toLedger events txs s).1 k := by
  rcases nextBackfill_cases cfg toLedger events txs s with
    ⟨skipped, tx, rest, rfl, hskip, -, heq⟩ | ⟨hnone, rfl, heq⟩ | ⟨hnone, heq⟩
  · rw [heq]
    rintro k ⟨⟩
    refine ⟨rfl, fun l hf ht t htx => ?_⟩
    rcases hgap l hf ht t htx with hin | hall
    · rcases List.mem_append.mp hin with hin | hin
      · -- a failed transaction has no events
        refine .inr fun e he => ?_
        rw [Chain.eventsOf, hskip t hin] at he
        cases he
      · exact .inl hin
    · exact .inr hall
  · rw [heq]
    rintro k ⟨⟩
    refine ⟨rfl, fun l hf ht e he => ?_⟩
    rcases hgap.all hnone l hf ht e he with ⟨r, hr, -⟩ | hstored
    · cases hr
    · exact hstored
  · rw [heq]
    rintro k ⟨⟩
    exact gap_flush h hnodup hevents (hgap.all hnone)

theorem gap_backfilling {e : Env} {to' : Int} {tx : RawTransaction} {rest : List RawTransaction}
    {events : List IndexedEvent} {ts : List (Task Call Unit)} (hs : Steady cfg s ts)
    (hk : .running (.backfilling to' tx rest events) ∈ ts)
    (hG : Fetches chain e s (.backfilling to' tx rest events))
    (h : GapProgress chain fromLedger toLedger s (.backfilling to' tx rest events)) :
    ∀ k', (advance cfg e (.backfilling to' tx rest events) s).2 = .running k' →
      GapProgress chain fromLedger toLedger (advance cfg e (.backfilling to' tx rest events) s).1 k' := by
  obtain ⟨rfl, hgap⟩ := h
  have hcarried : ∀ x ∈ events, x ∈ s.assigned := hs.carried _ hk
  simp only [advance]
  split
  · rename_i hfailed
    refine gap_nextBackfill hs.kept hs.numbered.nodup hcarried fun l hf ht t htx => ?_
    rcases hgap l hf ht t htx with hin | hall
    · rcases List.mem_cons.mp hin with rfl | hin
      · refine .inr fun event hevent => .inr ?_
        rcases hG event hevent with hnone | hstored
        · rw [hfailed] at hnone
          cases hnone
        · exact hstored
      · exact .inl hin
    · exact .inr hall
  · rename_i operations hfetched
    have hrestored : s.restored = true := hs.numbered.calls _ hk rfl
    obtain ⟨hkept, hevolves⟩ := hs.kept.assign (normalizeStellarOperations tx operations)
    refine gap_nextBackfill hkept (hs.numbered.assign hrestored _).nodup (fun x hx => ?_)
      fun l hf ht t htx => ?_
    · rcases List.mem_append.mp hx with hx | hx
      · exact hevolves.assigned (hcarried x hx)
      · exact List.mem_append_right _ hx
    · rcases hgap l hf ht t htx with hin | hall
      · rcases List.mem_cons.mp hin with rfl | hin
        · refine .inr fun event hevent => ?_
          rcases hG event hevent with hnew | hstored
          · rw [hfetched, Option.getD_some,
              ← assign_payload s (normalizeStellarOperations t operations)] at hnew
            obtain ⟨r, hr, hre⟩ := List.mem_map.mp hnew
            exact .inl ⟨r, List.mem_append_right _ hr, hre⟩
          · exact .inr hstored
        · exact .inl hin
      · refine .inr fun event hevent => (hall event hevent).imp ?_ id
        rintro ⟨r, hr, hre⟩
        exact ⟨r, List.mem_append_left _ hr, hre⟩

theorem gap_advance {e : Env} {k : Call} {ts : List (Task Call Unit)} (hs : Steady cfg s ts)
    (hk : .running k ∈ ts) (hG : Fetches chain e s k) (h : GapProgress chain fromLedger toLedger s k) :
    ∀ k', (advance cfg e k s).2 = .running k' →
      GapProgress chain fromLedger toLedger (advance cfg e k s).1 k' := by
  cases k with
  | begin op =>
    have hop : op = .backfillGap fromLedger toLedger := h
    subst hop
    simp only [advance]
    split
    · rintro k ⟨⟩
    · rename_i hle
      rintro k ⟨⟩
      exact ⟨rfl, Int.not_lt.mp hle, fun l hf ht => by omega⟩
  | fetchingRange ledger to' fetched =>
    obtain ⟨rfl, hle, hgap⟩ := h
    have hnext : GapIn chain fromLedger ledger (fetched ++ e.page.getD []) (Stored s) := by
      intro l hf ht tx htx
      by_cases hl : l = ledger
      · subst hl
        exact (hG tx htx).imp (List.mem_append_right _) id
      · exact (hgap l hf (by omega) tx htx).imp (List.mem_append_left _) id
    simp only [advance]
    rintro k hk'
    split at hk'
    · rename_i hlt
      cases hk'
      refine ⟨rfl, by omega, ?_⟩
      rw [Int.add_sub_cancel]
      exact hnext
    · rename_i hlt
      cases hk'
      have hlast : ledger = to' := by omega
      subst hlast
      exact ⟨rfl, hnext⟩
  | readPersisted to' txs =>
    simp only [advance]
    rintro k hk'
    split at hk'
    · cases hk'
      exact h
    · cases hk'
  | raise to' txs counter =>
    obtain ⟨rfl, hgap⟩ := h
    have hframe : Kept cfg { s with
        sequenceCounter := if s.sequenceCounter < counter then counter else s.sequenceCounter
        restored := true } := ⟨hs.kept.ordered, hs.kept.empty, hs.kept.orderly⟩
    exact gap_nextBackfill hframe hs.numbered.nodup (fun e he => by cases he)
      (hgap.mono fun e he => .inr he)
  | backfilling to' tx rest events => exact gap_backfilling hs hk hG h
  | backfillFlushing to' j =>
    simp only [advance]
    rintro k hk'
    cases hreturned : s.returned j with
    | true =>
      rw [hreturned] at hk'
      cases hk'
      obtain ⟨hto, -, t, ht, -, hover⟩ := h
      simp only [State.returned, ht] at hreturned
      cases t with
      | done r => exact ⟨hto, hover trivial⟩
      | running k => cases hreturned
    | false =>
      rw [hreturned] at hk'
      cases hk'
      exact h
  | gettingLedger to' =>
    simp only [advance]
    rintro k hk'
    split at hk'
    · cases hk'
      exact h
    · cases hk'
  | saving to' =>
    rintro k ⟨⟩
  | readCounter => cases h
  | initializeSequenceCounter «from» => cases h
  | startingTimer i => cases h
  | connecting => cases h
  | fetching ledger => cases h
  | operations ledger tx rest => cases h
  | distributing ledger rest => cases h
  | flushing ledger i => cases h

theorem gap_persist {i j : Nat} {ok : Bool} {k : Call} {ts : List (Task Call Unit)}
    (hs : Steady cfg s ts) (hi : ts[i]? = some (.running k))
    (hG : Awaits i j ts = true → ∀ r ∈ s.left j ok, fromLedger ≤ r.payload.ledgerSequence →
      r.payload.ledgerSequence ≤ toLedger → Stored s r.payload)
    (h : GapProgress chain fromLedger toLedger s k) :
    GapProgress chain fromLedger toLedger (s.persist cfg j ok) k := by
  obtain ⟨hrows, henq⟩ := Persistence.grows_step cfg.batchMaxSize s.persistence (.sched j ok)
  have hl : Later s (s.persist cfg j ok) := ⟨hrows, henq.subset⟩
  refine h.later hl fun to' j' hk => ?_
  subst hk
  obtain ⟨-, hqueued, hawaited⟩ := h
  by_cases hj : j = j'
  · subst hj
    refine hawaited.own cfg.batchMaxSize hs.kept.orderly (fun _ => GapRows.mono) ?_
    intro k hk p hrows hA hall l hf ht e hein
    rcases hqueued l hf ht e hein with ⟨r, hr, hre⟩ | ⟨r, hr, hre⟩
    · rcases hall r hr with hleft | hnumber
      · have hledger : r.payload.ledgerSequence = l := by rw [hre, Chain.ledger_of_mem hein]
        have hin : r ∈ s.left j ok := by
          simp only [State.left, hk]
          exact hleft
        obtain ⟨x, hx, hxe⟩ := hG (by simp [Awaits, hi]) r hin (hledger ▸ hf) (hledger ▸ ht)
        exact ⟨x, hrows hx, hxe.trans hre⟩
      · exact ⟨r, mem_of_number hs.numbered.nodup hA (hs.kept.orderly.custody.enqueued r hr) hnumber, hre⟩
    · exact ⟨r, hrows hr, hre⟩
  · exact hawaited.other cfg.batchMaxSize hj ok fun _ => GapRows.mono

end

/-! ## Runs -/

/-- The call `i` is where `GapProgress` says, if it has not ended. -/
def Following (chain : Chain) (fromLedger toLedger : Int) (i : Nat) (c : Conf State Call Unit) : Prop :=
  ∃ t, c.tasks[i]? = some t ∧
    ∀ k, t = .running k → GapProgress chain fromLedger toLedger c.shared k

theorem following_step (cfg : Config) (chain : Chain) (fromLedger toLedger : Int) (i : Nat)
    (c : Conf State Call Unit) (a : Action)
    (h : Steady cfg c.shared c.tasks ∧ Following chain fromLedger toLedger i c)
    (hG : Backfills chain fromLedger toLedger i c a) :
    Steady cfg (step cfg c a).shared (step cfg c a).tasks ∧
      Following chain fromLedger toLedger i (step cfg c a) := by
  obtain ⟨hs, t, ht, hprogress⟩ := h
  have hrestores : Meeting (fun _ => True) Restores c a := by
    cases a with
    | call a =>
      cases a with
      | spawn op => trivial
      | sched j e => exact fun k hk => (hG k hk).1
    | persist j ok => trivial
    | flush => trivial
    | evictExpired now => trivial
    | crash => trivial
  refine ⟨steady_step cfg c a hs hrestores, ?_⟩
  have hi : i < c.tasks.length := (List.getElem?_eq_some_iff.mp ht).1
  cases a with
  | call a =>
    cases a with
    | spawn op => exact ⟨t, by simp [step, Proc.step, List.getElem?_append_left hi, ht], hprogress⟩
    | sched j e =>
      cases hj : c.tasks[j]? with
      | none => exact ⟨t, by simp [step, Proc.step, hj, ht], by simpa [step, Proc.step, hj] using hprogress⟩
      | some u =>
        cases u with
        | done r =>
          exact ⟨t, by simp [step, Proc.step, hj, ht], by simpa [step, Proc.step, hj] using hprogress⟩
        | running k =>
          have hmem : .running k ∈ c.tasks := List.mem_of_getElem? hj
          rw [step, step_sched (indexerProc cfg) hj]
          by_cases hij : j = i
          · subst hij
            cases ht.symm.trans hj
            exact ⟨_, List.getElem?_set_self hi,
              gap_advance hs hmem ((hG k hj).2 rfl) (hprogress k rfl)⟩
          · refine ⟨t, by rw [List.getElem?_set_ne hij]; exact ht, fun k' hk' => ?_⟩
            exact (hprogress k' hk').evolves (keeps_advance e hs.kept (hs.carried k hmem)).evolves
  | persist j ok =>
    refine ⟨t, ht, fun k hk => ?_⟩
    subst hk
    exact gap_persist hs ht hG (hprogress k rfl)
  | flush =>
    exact ⟨t, ht, fun k hk => (hprogress k hk).evolves (hs.kept.call true .flush trivial).2⟩
  | evictExpired now =>
    exact ⟨t, ht, fun k hk => (hprogress k hk).later ⟨List.Subset.refl _, List.Subset.refl _⟩
      fun to' j hk' => by
        have := hprogress k hk
        subst hk'
        exact this.2.2⟩
  | crash => exact absurd hG id

theorem nextBackfill_cursor (cfg : Config) (toLedger : Int) (events : List IndexedEvent)
    (txs : List RawTransaction) (s : State) :
    (nextBackfill cfg toLedger events txs s).1.lastIndexedLedger = s.lastIndexedLedger := by
  rcases nextBackfill_cases cfg toLedger events txs s with
    ⟨_, tx, rest, -, -, -, heq⟩ | ⟨-, -, heq⟩ | ⟨-, heq⟩
  · rw [heq]
  · rw [heq]
  · rw [heq]
    obtain ⟨p, hp⟩ := enqueueAll_frame cfg events s
    simp [State.call, hp]

theorem saving_of_moved {cfg : Config} {chain : Chain} {fromLedger toLedger : Int} {s : State} {e : Env}
    {k : Call} (h : GapProgress chain fromLedger toLedger s k)
    (hmoved : (advance cfg e k s).1.lastIndexedLedger ≠ s.lastIndexedLedger) :
    GapStored chain fromLedger toLedger (advance cfg e k s).1 := by
  cases k with
  | saving to' =>
    simp only [advance]
    split
    · exact h.2
    · exact h.2
  | begin op =>
    have hop : op = .backfillGap fromLedger toLedger := h
    subst hop
    exact absurd rfl hmoved
  | fetchingRange ledger to' fetched => exact absurd rfl hmoved
  | readPersisted to' txs => exact absurd rfl hmoved
  | raise to' txs counter => exact absurd (nextBackfill_cursor cfg to' [] txs _) hmoved
  | backfilling to' tx rest events =>
    simp only [advance] at hmoved
    split at hmoved
    · exact absurd (nextBackfill_cursor cfg to' events rest s) hmoved
    · exact absurd (nextBackfill_cursor cfg to' _ rest _) hmoved
  | backfillFlushing to' j => exact absurd rfl hmoved
  | gettingLedger to' => exact absurd rfl hmoved
  | readCounter => cases h
  | initializeSequenceCounter «from» => cases h
  | startingTimer i => cases h
  | connecting => cases h
  | fetching ledger => cases h
  | operations ledger tx rest => cases h
  | distributing ledger rest => cases h
  | flushing ledger i => cases h

/-- The process in which `backfillGap` was called after `before`. -/
def calling (cfg : Config) (fromLedger toLedger : Int) (before : List Action) : Conf State Call Unit :=
  step cfg (run (step cfg) (Conf.init State.fresh) before)
    (.call (.spawn (.backfillGap fromLedger toLedger)))

/-- The backfill that was called after `before`. -/
def backfillCall (cfg : Config) (before : List Action) : Nat :=
  (run (step cfg) (Conf.init State.fresh) before).tasks.length

/-- If the step that the backfill takes after `after` moves the cursor, the gap is stored. -/
def StoredWhenMoved (cfg : Config) (chain : Chain) (fromLedger toLedger : Int)
    (before after : List Action) (e : Env) : Prop :=
  let c := run (step cfg) (calling cfg fromLedger toLedger before) after
  let c' := step cfg c (.call (.sched (backfillCall cfg before) e))
  c'.shared.lastIndexedLedger ≠ c.shared.lastIndexedLedger →
    GapStored chain fromLedger toLedger c'.shared

/-- In every run in which the answers to a backfill hold the events of its gap and the flush it waits for
leaves none of them outside the table, the backfill moves the cursor only when all of them are stored. -/
theorem backfill_stored_of_fetched (cfg : Config) (chain : Chain) (fromLedger toLedger : Int)
    (before after : List Action) (e : Env)
    (hbefore : Along (step cfg) (Meeting (fun _ => True) Restores) (Conf.init State.fresh) before)
    (hafter : Along (step cfg) (Backfills chain fromLedger toLedger (backfillCall cfg before))
      (calling cfg fromLedger toLedger before) after) :
    StoredWhenMoved cfg chain fromLedger toLedger before after e := by
  have hcalled : Steady cfg (run (step cfg) (Conf.init State.fresh) before).shared
      (run (step cfg) (Conf.init State.fresh) before).tasks :=
    run_inv (s := Conf.init State.fresh) (I := fun c => Steady cfg c.shared c.tasks) (steady_step cfg)
      (steady_fresh cfg) hbefore
  have hstart : Steady cfg (calling cfg fromLedger toLedger before).shared
        (calling cfg fromLedger toLedger before).tasks ∧
      Following chain fromLedger toLedger (backfillCall cfg before)
        (calling cfg fromLedger toLedger before) := by
    refine ⟨steady_step cfg _ (.call (.spawn _)) hcalled trivial,
      .running (.begin (.backfillGap fromLedger toLedger)), ?_, fun k hk => ?_⟩
    · simp [calling, step, Proc.step, indexerProc, backfillCall]
    · cases hk
      rfl
  obtain ⟨-, t, ht, hprogress⟩ := run_inv (s := calling cfg fromLedger toLedger before)
    (following_step cfg chain fromLedger toLedger (backfillCall cfg before)) hstart hafter
  rw [StoredWhenMoved]
  generalize run (step cfg) (calling cfg fromLedger toLedger before) after = c at ht hprogress ⊢
  intro hmoved
  cases t with
  | done r =>
    have hsame : step cfg c (.call (.sched (backfillCall cfg before) e)) = c := by
      simp [step, Proc.step, ht]
    rw [hsame] at hmoved
    exact absurd rfl hmoved
  | running k =>
    have hstep : step cfg c (.call (.sched (backfillCall cfg before) e)) =
        ⟨(advance cfg e k c.shared).1, c.tasks.set (backfillCall cfg before)
          (advance cfg e k c.shared).2⟩ := step_sched (indexerProc cfg) ht e
    rw [hstep] at hmoved ⊢
    exact saving_of_moved (hprogress k rfl) hmoved

/-! ## A backfill of one ledger -/

/-- The backfill of ledger `1` as far as its flush; it is the only call. -/
def backfilled : List Action :=
  [goesOn 0, receives 0 [transfer "a" 1], goesOn 0, goesOn 0, reads 0 [payment]]

/-- The insert goes through. -/
def insertedGap : List Action :=
  backfilled ++ [.persist 1 true, .persist 1 true, .persist 1 true, goesOn 0, goesOn 0]

/-- The insert fails and the event goes back to the queue. -/
def requeuedGap : List Action := backfilled ++ [.persist 1 false, .persist 1 true, goesOn 0, goesOn 0]

theorem requeued_gap_passed :
    ¬ StoredWhenMoved defaults twoLedgers 1 1 [] requeuedGap ⟨true, none, none, 1⟩ := by
  intro h
  have hstored := h (by decide +kernel) 1 (by decide) (by decide)
  obtain ⟨event, hevent⟩ : ∃ event, event ∈ twoLedgers.events 1 :=
    List.exists_mem_of_ne_nil _ (by decide +kernel)
  obtain ⟨r, hr, -⟩ := hstored event hevent
  have hempty : (step defaults (run (step defaults) (calling defaults 1 1 []) requeuedGap)
      (.call (.sched 0 ⟨true, none, none, 1⟩))).shared.persistence.shared.rows = [] := by
    decide +kernel
  rw [show backfillCall defaults [] = 0 from rfl, hempty] at hr
  cases hr

theorem inserted_gap_stored :
    (step defaults (run (step defaults) (calling defaults 1 1 []) insertedGap)
        (goesOn 0)).shared.lastIndexedLedger = some 1 ∧
      StoredWhenMoved defaults twoLedgers 1 1 [] insertedGap ⟨true, none, none, 1⟩ := by
  refine ⟨by decide +kernel, backfill_stored_of_fetched defaults twoLedgers 1 1 [] insertedGap _ trivial ?_⟩
  decide +kernel

end Pipeline

end Indexer
end TradeCore
