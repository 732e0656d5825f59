import TradeCore.Indexer.Sequence
import Mathlib.Data.Int.Range

/-!
# TradeCore.Indexer.Cursor

`last_indexed_ledger` against what is in the table.

`handleLedgerClose` saves its ledger when it finds the queue empty. It does not know of a fetch that
failed, which counts as an empty answer, of the calls that are still busy with earlier ledgers, or of
a batch that a drain has taken from the queue and not yet inserted; and an event whose number is
taken is dropped by the insert. `Complete` excludes these, and under it the cursor is never ahead of
the table.
-/

namespace TradeCore
namespace Indexer

open Lib

namespace Persistence

section

variable {α : Type} {A : IndexedEventInput α → Prop} {op : Op α} {c : Conf (State α) (Call α) Nat}

theorem custody_call (n : Int) (ok : Bool) (h : Custody A c.shared c.tasks) (hop : Brings A op) :
    Custody A (call n ok op c).shared (call n ok op c).tasks :=
  custody_step n _ _ (custody_step n c (.spawn op) h hop) fun _ _ => trivial

theorem grows_call (n : Int) (ok : Bool) (op : Op α) (c : Conf (State α) (Call α) Nat) :
    c.shared.rows ⊆ (call n ok op c).shared.rows ∧
      c.shared.enqueued <+: (call n ok op c).shared.enqueued := by
  obtain ⟨hrows, henq⟩ := grows_step n c (.spawn op)
  obtain ⟨hrows', henq'⟩ :=
    grows_step n ((persistProc n).step c (.spawn op)) (.sched c.tasks.length ok)
  exact ⟨List.Subset.trans hrows hrows', henq.trans henq'⟩

theorem mem_call_enqueue (n : Int) (ok : Bool) (event : IndexedEventInput α) :
    event ∈ (call n ok (.enqueue event) c).shared.enqueued := by
  have hi : ((persistProc n).step c (.spawn (.enqueue event))).tasks[c.tasks.length]?
      = some (.running (.start (.enqueue event))) := by
    simp [Proc.step, persistProc]
  rw [call, step_sched _ hi]
  show event ∈ (advance n ok (.start (.enqueue event)) c.shared).1.enqueued
  rw [(hands_advance n ok (.start (.enqueue event)) c.shared).enqueued]
  simp [Call.entering]

end

end Persistence

namespace Pipeline

/-- What Horizon would return if every answer were complete. -/
structure Chain where
  transactions : Int → List RawTransaction
  operations : String → List RawOperation
  own : ∀ ledger, ∀ tx ∈ transactions ledger, tx.ledger = ledger

namespace Chain

/-- The relevant events of a transaction. -/
def eventsOf (chain : Chain) (tx : RawTransaction) : List UnsequencedEvent :=
  if tx.successful then normalizeStellarOperations tx (chain.operations tx.hash) else []

def events (chain : Chain) (ledger : Int) : List UnsequencedEvent :=
  (chain.transactions ledger).flatMap chain.eventsOf

theorem ledger_of_mem {chain : Chain} {ledger : Int} {e : UnsequencedEvent}
    (h : e ∈ chain.events ledger) : e.ledgerSequence = ledger := by
  obtain ⟨tx, htx, he⟩ := List.mem_flatMap.mp h
  rw [eventsOf] at he
  split at he
  · rw [mem_normalizeStellarOperations he, chain.own ledger tx htx]
  · cases he

end Chain

def Stored (s : State) (e : UnsequencedEvent) : Prop :=
  ∃ r ∈ s.persistence.shared.rows, r.payload = e

def Enqueued (s : State) (e : UnsequencedEvent) : Prop :=
  ∃ r ∈ s.persistence.shared.enqueued, r.payload = e

/-- Every relevant event of the ledgers `start` to `ledger` is in the table. -/
def IndexedUpTo (chain : Chain) (start ledger : Int) (s : State) : Prop :=
  ∀ l, start ≤ l → l ≤ ledger → ∀ e ∈ chain.events l, Stored s e

def CursorBehind (chain : Chain) (start : Int) (s : State) : Prop :=
  ∀ ledger, s.lastIndexedLedger = some ledger → IndexedUpTo chain start ledger s

/-- The ledger is behind the cursor, or a call of this process has been through it. -/
def Visited (s : State) (ledger : Int) : Prop :=
  ledger ∈ s.swept ∨ ∃ last ∈ s.lastIndexedLedger, ledger ≤ last

instance (s : State) : DecidablePred (Visited s) := fun ledger => by
  unfold Visited
  infer_instance

/-- The state in which `handleLedgerClose` for `ledger` finds the queue empty. -/
def Settled (start ledger : Int) (s : State) : Prop :=
  (∀ l, start ≤ l → l ≤ ledger → Visited s l) ∧
    ∀ e ∈ gather Persistence.Call.batch s.persistence.tasks, ledger < e.payload.ledgerSequence

instance (start ledger : Int) (s : State) : Decidable (Settled start ledger s) := by
  unfold Settled
  infer_instance

/-- No relevant event is missing from an answer, the events of a transaction fit into the buffer
under numbers that are exact, and the cursor moves only from a settled state. -/
def Complete (cfg : Config) (chain : Chain) (start : Int) (e : Env) (k : Call) (s : State)
    (_ : List (Task Call Unit)) : Prop :=
  match k with
  | .fetching ledger =>
    ∀ tx ∈ chain.transactions ledger, chain.eventsOf tx ≠ [] → tx ∈ e.page.getD []
  | .operations _ tx _ =>
    let events := normalizeStellarOperations tx (e.operations.getD [])
    (∀ event ∈ chain.eventsOf tx, event ∈ events) ∧
      (events.length : Int) ≤ max 1 cfg.buffer.maxBufferSize ∧
      s.sequenceCounter.natAbs + events.length < 2 ^ 53
  | .flushing ledger i =>
    s.returned i = true → s.persistence.shared.pendingBatch = [] → Settled start ledger s
  | _ => True

instance (cfg : Config) (chain : Chain) (start : Int) (e : Env) (k : Call) (s : State)
    (ts : List (Task Call Unit)) : Decidable (Complete cfg chain start e k s ts) := by
  unfold Complete
  split <;> infer_instance

/-- The calls the result is about: everything but the backfill, which moves the cursor by rules of
its own. -/
def Live : Op → Prop
  | .backfillGap _ _ => False
  | _ => True

instance : DecidablePred Live := fun op => by
  unfold Live
  split <;> infer_instance

/-! ## The invariant -/

/-- How far a call has come. -/
def Progress (chain : Chain) (start : Int) (s : State) : Call → Prop
  | .operations ledger tx rest =>
    ∀ t ∈ chain.transactions ledger, t ∈ tx :: rest ∨ ∀ e ∈ chain.eventsOf t, Enqueued s e
  | .distributing ledger rest =>
    ∀ t ∈ chain.transactions ledger, t ∈ rest ∨ ∀ e ∈ chain.eventsOf t, Enqueued s e
  | .saving ledger => IndexedUpTo chain start ledger s
  | .begin op => Live op
  | .fetchingRange _ _ _ | .readPersisted _ _ | .raise _ _ _ | .backfilling _ _ _ _
  | .backfillFlushing _ _ | .gettingLedger _ => False
  | _ => True

/-- Between two steps the buffer is empty, the persistence holds numbered events only, and the ledgers
that were visited are in the queue, in flight or in the table. -/
structure Sound (cfg : Config) (chain : Chain) (start : Int) (s : State) : Prop where
  ordered : s.buffer.Ordered cfg.buffer
  empty : s.buffer.buffer = []
  custody : Persistence.Custody (· ∈ s.assigned) s.persistence.shared s.persistence.tasks
  swept : ∀ ledger ∈ s.swept, ∀ e ∈ chain.events ledger, Enqueued s e
  cursor : CursorBehind chain start s

/-- What was enqueued or stored still is. -/
structure Later (s s' : State) : Prop where
  rows : s.persistence.shared.rows ⊆ s'.persistence.shared.rows
  enqueued : s.persistence.shared.enqueued ⊆ s'.persistence.shared.enqueued

theorem Later.refl (s : State) : Later s s := ⟨List.Subset.refl _, List.Subset.refl _⟩

theorem Later.trans {s s' s'' : State} (h : Later s s') (h' : Later s' s'') : Later s s'' :=
  ⟨List.Subset.trans h.rows h'.rows, List.Subset.trans h.enqueued h'.enqueued⟩

section

variable {cfg : Config} {chain : Chain} {start : Int} {s s' : State}

theorem Enqueued.later {e : UnsequencedEvent} (hl : Later s s') (h : Enqueued s e) : Enqueued s' e := by
  obtain ⟨r, hr, he⟩ := h
  exact ⟨r, hl.enqueued hr, he⟩

theorem Stored.later {e : UnsequencedEvent} (hl : Later s s') (h : Stored s e) : Stored s' e := by
  obtain ⟨r, hr, he⟩ := h
  exact ⟨r, hl.rows hr, he⟩

theorem IndexedUpTo.later {ledger : Int} (hl : Later s s') (h : IndexedUpTo chain start ledger s) :
    IndexedUpTo chain start ledger s' :=
  fun l hs hle e he => (h l hs hle e he).later hl

theorem Progress.later {k : Call} (hl : Later s s') (h : Progress chain start s k) :
    Progress chain start s' k := by
  cases k with
  | operations ledger tx rest =>
    exact fun t ht => (h t ht).imp id fun hall e he => (hall e he).later hl
  | distributing ledger rest =>
    exact fun t ht => (h t ht).imp id fun hall e he => (hall e he).later hl
  | saving ledger => exact IndexedUpTo.later hl h
  | _ => exact h

/-- What a step that starts in `s` owes. -/
structure Advances (cfg : Config) (chain : Chain) (start : Int) (s : State) (next : Next) : Prop where
  sound : Sound cfg chain start next.1
  later : Later s next.1
  progress : ∀ k, next.2 = .running k → Progress chain start next.1 k

theorem Advances.trans {next : Next} (hl : Later s s') (h : Advances cfg chain start s' next) :
    Advances cfg chain start s next :=
  ⟨h.sound, hl.trans h.later, h.progress⟩

/-- A step that ends the call, or only looks. -/
theorem Sound.stays (h : Sound cfg chain start s) {t : Task Call Unit}
    (ht : ∀ k, t = .running k → Progress chain start s k) : Advances cfg chain start s (s, t) :=
  ⟨h, .refl s, ht⟩

theorem Sound.ofPersistence (h : Sound cfg chain start s)
    {p : Conf (Persistence.State UnsequencedEvent) (Persistence.Call UnsequencedEvent) Nat}
    (hc : Persistence.Custody (· ∈ s.assigned) p.shared p.tasks)
    (hl : Later s { s with persistence := p }) : Sound cfg chain start { s with persistence := p } :=
  ⟨h.ordered, h.empty, hc, fun ledger hs e he => (h.swept ledger hs e he).later hl,
    fun ledger hs => (h.cursor ledger hs).later hl⟩

theorem Sound.call (h : Sound cfg chain start s) (ok : Bool) (op : Persistence.Op UnsequencedEvent)
    (hop : Persistence.Brings (· ∈ s.assigned) op) :
    Sound cfg chain start (s.call cfg ok op) ∧ Later s (s.call cfg ok op) := by
  obtain ⟨hrows, henq⟩ := Persistence.grows_call cfg.batchMaxSize ok op s.persistence
  have hl : Later s (s.call cfg ok op) := ⟨hrows, henq.subset⟩
  exact ⟨h.ofPersistence (Persistence.custody_call _ ok h.custody hop) hl, hl⟩

theorem Sound.assign (h : Sound cfg chain start s) (events : List UnsequencedEvent) :
    Sound cfg chain start (s.assign events).2 :=
  ⟨h.ordered, h.empty, h.custody.mono fun _ he => List.mem_append_left _ he, h.swept, h.cursor⟩

theorem Sound.enqueueAll {events : List IndexedEvent} (h : Sound cfg chain start s)
    (hevents : ∀ e ∈ events, e ∈ s.assigned) :
    Sound cfg chain start (s.enqueueAll cfg events) ∧ Later s (s.enqueueAll cfg events) ∧
      ∀ e ∈ events, e ∈ (s.enqueueAll cfg events).persistence.shared.enqueued := by
  induction events generalizing s with
  | nil => exact ⟨h, .refl s, by simp⟩
  | cons event events ih =>
    obtain ⟨hs, hl⟩ := h.call true (.enqueue event) (hevents event (by simp))
    obtain ⟨hs', hl', hall⟩ := ih hs fun e he => hevents e (by simp [he])
    refine ⟨hs', hl.trans hl', ?_⟩
    intro e he
    rcases List.mem_cons.mp he with rfl | he
    · exact hl'.enqueued (Persistence.mem_call_enqueue _ _ e)
    · exact hall e he

/-- The buffer gives back what is pushed into it, all of it if there is room. -/
theorem handOver_drains (indexed : List IndexedEvent) (hord : s.buffer.Ordered cfg.buffer)
    (hempty : s.buffer.buffer = []) (now : Time) :
    ∃ events b, (s.handOver cfg now indexed).2 = State.enqueueAll cfg events { s with buffer := b } ∧
      b.Ordered cfg.buffer ∧ b.buffer = [] ∧ (∀ e ∈ events, e ∈ indexed) ∧
      ((indexed.map fun e => toNumber e.sequenceNumber).Nodup →
        (indexed.length : Int) ≤ max 1 cfg.buffer.maxBufferSize → ∀ e ∈ indexed, e ∈ events) := by
  cases indexed with
  | nil => exact ⟨[], s.buffer, rfl, hord, hempty, fun e he => he, fun _ _ e he => he⟩
  | cons event events =>
    generalize hevents : event :: events = all
    have haccepted : 0 < (EventBuffer.pushBatch cfg.buffer (all.map (buffered now)) s.buffer).1 := by
      rw [← hevents]
      exact EventBuffer.pushBatch_accepted cfg.buffer _ hempty
    have hpushed := EventBuffer.pushBatch_ordered hord (all.map (buffered now))
    generalize hb : EventBuffer.pushBatch cfg.buffer (all.map (buffered now)) s.buffer = out at haccepted hpushed
    obtain ⟨hdrain, hdrained⟩ := EventBuffer.drain_all hpushed
    refine ⟨(out.2.drain out.2.buffer.length).1.map (·.payload), (out.2.drain out.2.buffer.length).2, ?_,
      (EventBuffer.drain_spec hpushed _).2, hdrain, ?_, ?_⟩
    · simp only [State.handOver, hb, if_pos haccepted]
    · intro e he
      obtain ⟨b, hb', rfl⟩ := List.mem_map.mp he
      obtain ⟨r, hr, rfl⟩ := (hdrained b).mp hb'
      rw [← hb] at hr
      rcases EventBuffer.mem_pushBatch hr with hr | ⟨p, hp, hpay⟩
      · rw [hempty] at hr
        cases hr
      · obtain ⟨a, ha, rfl⟩ := List.mem_map.mp hp
        rw [hpay]
        exact ha
    · intro hnodup hroom e he
      refine List.mem_map.mpr ?_
      obtain ⟨-, hin⟩ := EventBuffer.pushBatch_room (all.map (buffered now)) hord
        (by simpa [EventBuffer.keys, hempty, Function.comp_def, buffered] using hnodup)
        (by simpa [hempty] using hroom)
      obtain ⟨r, hr, hpay⟩ := hin _ (List.mem_map_of_mem he)
      rw [hb] at hr
      exact ⟨r.2, (hdrained r.2).mpr ⟨r, hr, rfl⟩, hpay⟩

theorem Sound.handOver (indexed : List IndexedEvent) (h : Sound cfg chain start s)
    (hindexed : ∀ e ∈ indexed, e ∈ s.assigned) (now : Time) :
    Sound cfg chain start (s.handOver cfg now indexed).2 ∧ Later s (s.handOver cfg now indexed).2 ∧
      ((indexed.map fun e => toNumber e.sequenceNumber).Nodup →
        (indexed.length : Int) ≤ max 1 cfg.buffer.maxBufferSize →
        ∀ e ∈ indexed, e ∈ (s.handOver cfg now indexed).2.persistence.shared.enqueued) := by
  obtain ⟨events, b, heq, hord, hempty, hin, hroom⟩ := handOver_drains indexed h.ordered h.empty now
  have hs : Sound cfg chain start { s with buffer := b } :=
    ⟨hord, hempty, h.custody, h.swept, h.cursor⟩
  obtain ⟨hs', hl, hall⟩ := hs.enqueueAll fun e he => hindexed e (hin e he)
  rw [heq]
  exact ⟨hs', ⟨hl.rows, hl.enqueued⟩, fun hnodup hfits e he => hall e (hroom hnodup hfits e he)⟩

theorem nodup_toNumber {counter : Int} {events : List UnsequencedEvent}
    (h : counter.natAbs + events.length < 2 ^ 53) :
    ((assignSequences counter events).2.map fun e => toNumber e.sequenceNumber).Nodup := by
  obtain ⟨-, -, hasc, hrange⟩ := assignSequences_spec counter events
  have hexact : ∀ e ∈ (assignSequences counter events).2,
      toNumber e.sequenceNumber = e.sequenceNumber := by
    intro e he
    have := hrange e he
    exact toNumber_of_safe (by omega)
  rw [List.map_congr_left hexact]
  exact (List.pairwise_map.mpr hasc).imp fun hlt => Int.ne_of_lt hlt

/-- Numbered, buffered and enqueued in one step. -/
theorem Sound.index (h : Sound cfg chain start s) (now : Time) (events : List UnsequencedEvent) :
    let out := ((s.assign events).2.handOver cfg now (s.assign events).1).2
    Sound cfg chain start out ∧ Later s out ∧
      ((events.length : Int) ≤ max 1 cfg.buffer.maxBufferSize →
        s.sequenceCounter.natAbs + events.length < 2 ^ 53 → ∀ e ∈ events, Enqueued out e) := by
  intro out
  have hmap := assign_payload s events
  obtain ⟨hs, hl, hall⟩ := (h.assign events).handOver (s.assign events).1
    (fun _ he => List.mem_append_right _ he) now
  refine ⟨hs, ⟨hl.rows, hl.enqueued⟩, ?_⟩
  intro hroom hsafe e he
  have hlen : (s.assign events).1.length = events.length := by
    rw [← congrArg List.length hmap, List.length_map]
  rw [← hmap] at he
  obtain ⟨a, ha, hae⟩ := List.mem_map.mp he
  exact ⟨a, hall (nodup_toNumber hsafe) (by rw [hlen]; exact hroom) a ha, hae⟩

theorem advances_nextTransaction {ledger : Int} {txs : List RawTransaction}
    (h : Sound cfg chain start s)
    (htxs : ∀ t ∈ chain.transactions ledger, t ∈ txs ∨ ∀ e ∈ chain.eventsOf t, Enqueued s e) :
    Advances cfg chain start s (nextTransaction cfg ledger txs s) := by
  have hfailed : ∀ t : RawTransaction, t.successful = false → ∀ e ∈ chain.eventsOf t, Enqueued s e := by
    intro t ht e he
    rw [Chain.eventsOf, ht] at he
    cases he
  rcases nextTransaction_cases cfg ledger txs s with ⟨skipped, tx, rest, rfl, hskip, heq⟩ | ⟨hall, heq⟩
  · rw [heq]
    refine h.stays ?_
    rintro k ⟨⟩
    intro t ht
    rcases htxs t ht with hin | henq
    · rcases List.mem_append.mp hin with hin | hin
      · exact .inr (hfailed t (hskip t hin))
      · exact .inl hin
    · exact .inr henq
  · -- the loop is over: every event of the ledger has been enqueued
    rw [heq]
    obtain ⟨hs, hl⟩ := h.call true .flush trivial
    have hl : Later s { s.call cfg true .flush with swept := ledger :: s.swept } := ⟨hl.rows, hl.enqueued⟩
    refine ⟨⟨hs.ordered, hs.empty, hs.custody, ?_, hs.cursor⟩, hl, ?_⟩
    · intro l hmem e he
      rcases List.mem_cons.mp hmem with rfl | hmem
      · obtain ⟨t, ht, het⟩ := List.mem_flatMap.mp he
        have henq : Enqueued s e := by
          rcases htxs t ht with hin | henq
          · exact hfailed t (hall t hin) e het
          · exact henq e het
        exact henq.later hl
      · exact hs.swept l hmem e he
    · rintro k ⟨⟩
      trivial

theorem advances_operations {e : Env} {ledger : Int} {tx : RawTransaction} {rest : List RawTransaction}
    {ts : List (Task Call Unit)} (h : Sound cfg chain start s)
    (hp : Progress chain start s (.operations ledger tx rest))
    (hG : Complete cfg chain start e (.operations ledger tx rest) s ts) :
    Advances cfg chain start s (advance cfg e (.operations ledger tx rest) s) := by
  obtain ⟨hcomplete, hroom, hsafe⟩ := hG
  simp only [advance]
  split
  · -- a failed fetch is harmless for a transaction without relevant events
    rename_i hnone
    rw [hnone] at hcomplete
    refine advances_nextTransaction h fun t ht => ?_
    rcases hp t ht with hin | henq
    · rcases List.mem_cons.mp hin with rfl | hin
      · exact .inr fun event hevent => by cases hcomplete event hevent
      · exact .inl hin
    · exact .inr henq
  · rename_i operations hsome
    rw [hsome, Option.getD_some] at hcomplete hroom hsafe
    obtain ⟨hs, hl, hall⟩ := h.index e.now (normalizeStellarOperations tx operations)
    generalize (s.assign (normalizeStellarOperations tx operations)).2.handOver cfg e.now
      (s.assign (normalizeStellarOperations tx operations)).1 = out at hs hl hall ⊢
    have hrest : ∀ t ∈ chain.transactions ledger,
        t ∈ rest ∨ ∀ event ∈ chain.eventsOf t, Enqueued out.2 event := by
      intro t ht
      rcases hp t ht with hin | henq
      · rcases List.mem_cons.mp hin with rfl | hin
        · exact .inr fun event hevent => hall hroom hsafe event (hcomplete event hevent)
        · exact .inl hin
      · exact .inr fun event hevent => (henq event hevent).later hl
    split
    · refine ⟨hs, hl, ?_⟩
      rintro k ⟨⟩
      exact hrest
    · exact (advances_nextTransaction hs hrest).trans hl

theorem indexed_of_settled {ts : List (Task Call Unit)} {ledger : Int} (hn : Numbered s ts)
    (h : Sound cfg chain start s) (hpending : s.persistence.shared.pendingBatch = [])
    (hset : Settled start ledger s) : IndexedUpTo chain start ledger s := by
  intro l hs hle e he
  rcases hset.1 l hs hle with hswept | ⟨last, hlast, hle'⟩
  · obtain ⟨a, ha, hae⟩ := h.swept l hswept e he
    rcases h.custody.kept a ha with hp | hb | hr
    · rw [hpending] at hp
      cases hp
    · have hlt := hset.2 a hb
      rw [hae, Chain.ledger_of_mem he] at hlt
      omega
    · exact ⟨a, mem_of_number hn.nodup h.custody.rows (h.custody.enqueued a ha) hr, hae⟩
  · exact h.cursor last hlast l hs hle' e he

theorem advances_advance {e : Env} {k : Call} {ts : List (Task Call Unit)} (hn : Numbered s ts)
    (h : Sound cfg chain start s) (hp : Progress chain start s k)
    (hG : Complete cfg chain start e k s ts) : Advances cfg chain start s (advance cfg e k s) := by
  cases k with
  | begin op =>
    cases op with
    | start =>
      simp only [advance]
      split
      · exact h.stays (by simp)
      · refine ⟨⟨h.ordered, h.empty, h.custody, h.swept, h.cursor⟩, ⟨?_, ?_⟩, ?_⟩
        · exact List.Subset.refl _
        · exact List.Subset.refl _
        · rintro k ⟨⟩
          trivial
    | stop =>
      have hs : Sound cfg chain start { s with running := false, streaming := false } :=
        ⟨h.ordered, h.empty, h.custody, h.swept, h.cursor⟩
      obtain ⟨hs', hl⟩ := hs.call true .flush trivial
      exact ⟨hs', ⟨hl.rows, hl.enqueued⟩, by simp [advance]⟩
    | handleLedgerClose ledger =>
      simp only [advance]
      split
      · exact h.stays (by simp [Progress])
      · exact h.stays (by simp)
    | handleSorobanEvents events =>
      obtain ⟨hs, hl, -⟩ := h.index e.now (events.map normalizeSorobanEvent)
      exact ⟨hs, hl, by simp [advance]⟩
    | backfillGap fromLedger toLedger => exact absurd hp id
  | readCounter =>
    simp only [advance]
    split
    · exact h.stays (by simp [Progress])
    · exact h.stays (by simp)
  | initializeSequenceCounter «from» =>
    have hs : Sound cfg chain start { s with sequenceCounter := «from», restored := true } :=
      ⟨h.ordered, h.empty, h.custody, h.swept, h.cursor⟩
    obtain ⟨hs', hl⟩ := hs.call e.ok .startFlushTimer trivial
    refine ⟨hs', ⟨hl.rows, hl.enqueued⟩, ?_⟩
    rintro k ⟨⟩
    trivial
  | startingTimer i =>
    simp only [advance]
    split
    · exact h.stays (by simp [Progress])
    · exact h.stays (by simp [Progress])
  | connecting =>
    simp only [advance]
    split
    · exact ⟨⟨h.ordered, h.empty, h.custody, h.swept, h.cursor⟩,
        ⟨List.Subset.refl _, List.Subset.refl _⟩, by simp⟩
    · exact h.stays (by simp)
  | fetching ledger =>
    refine advances_nextTransaction h fun t ht => ?_
    by_cases hempty : chain.eventsOf t = []
    · exact .inr (by simp [hempty])
    · exact .inl (hG t ht hempty)
  | operations ledger tx rest => exact advances_operations h hp hG
  | distributing ledger rest =>
    simp only [advance]
    split
    · exact advances_nextTransaction h hp
    · exact h.stays (by simp)
  | flushing ledger i =>
    simp only [advance]
    split
    · exact h.stays (by simp [Progress])
    · rename_i hreturned
      split
      · rename_i hpending
        refine h.stays ?_
        rintro k ⟨⟩
        exact indexed_of_settled hn h hpending (hG (by simpa using hreturned) hpending)
      · exact h.stays (by simp)
  | saving ledger =>
    simp only [advance]
    split
    · refine ⟨⟨h.ordered, h.empty, h.custody, h.swept, ?_⟩,
        ⟨List.Subset.refl _, List.Subset.refl _⟩, by simp⟩
      intro l hl
      have hl : some ledger = some l := hl
      rw [← Option.some.inj hl]
      exact hp
    · exact h.stays (by simp)
  | _ => exact absurd hp id

end

/-- The condition on the steps of the calls: the numbers stay distinct and nothing is missed. -/
def Thorough (cfg : Config) (chain : Chain) (start : Int) (e : Env) (k : Call) (s : State)
    (ts : List (Task Call Unit)) : Prop :=
  Restores e k s ts ∧ Complete cfg chain start e k s ts

instance (cfg : Config) (chain : Chain) (start : Int) (e : Env) (k : Call) (s : State)
    (ts : List (Task Call Unit)) : Decidable (Thorough cfg chain start e k s ts) :=
  inferInstanceAs (Decidable (_ ∧ _))

structure Indexing (cfg : Config) (chain : Chain) (start : Int) (s : State)
    (ts : List (Task Call Unit)) : Prop where
  numbered : Numbered s ts
  sound : Sound cfg chain start s
  progress : AllRunning (Progress chain start s) ts

section

variable {cfg : Config} {chain : Chain} {start : Int} {s s' : State} {ts : List (Task Call Unit)}

theorem Indexing.later (h : Indexing cfg chain start s ts) (hn : Numbered s' ts)
    (hs : Sound cfg chain start s') (hl : Later s s') : Indexing cfg chain start s' ts :=
  ⟨hn, hs, fun k hk => (h.progress k hk).later hl⟩

theorem sound_boot {rows assigned : List IndexedEvent} (counter : Int) {last : Option Int}
    (hrows : ∀ e ∈ rows, e ∈ assigned) (hcursor : CursorBehind chain start (.boot rows counter last assigned)) :
    Sound cfg chain start (.boot rows counter last assigned) := by
  refine ⟨ordered_run cfg.buffer [], rfl, ⟨?_, ?_, ?_, hrows, ?_, ?_⟩, ?_, hcursor⟩
  · exact fun e he => by cases he
  · exact fun e he => by cases he
  · exact fun e he => by cases he
  · exact fun e he => by cases he
  · exact fun e he => by cases he
  · exact fun ledger hledger => by cases hledger

theorem indexing_step (cfg : Config) (chain : Chain) (start : Int) (c : Conf State Call Unit)
    (a : Action) (h : Indexing cfg chain start c.shared c.tasks)
    (hG : Meeting Live (Thorough cfg chain start) c a) :
    Indexing cfg chain start (step cfg c a).shared (step cfg c a).tasks := by
  refine pipeline_inv cfg (I := Indexing cfg chain start) ?_ ?_ ?_ ?_ ?_ ?_ c a h hG
  · intro s ts op hop hs
    exact ⟨hs.numbered.spawn op, hs.sound, hs.progress.spawn hop⟩
  · intro s pre k post e hG hs
    have hA := advances_advance hs.numbered hs.sound hs.progress.here hG.2
    refine ⟨numbered_advance hG.1 hs.numbered, hA.sound, ?_⟩
    have hlater : AllRunning (Progress chain start (advance cfg e k s).1) (pre ++ .running k :: post) :=
      fun k' hk' => (hs.progress k' hk').later hA.later
    exact hlater.replace hA.progress
  · intro s ts i ok hs
    obtain ⟨hrows, henq⟩ := Persistence.grows_step cfg.batchMaxSize s.persistence (.sched i ok)
    have hl : Later s (s.persist cfg i ok) := ⟨hrows, henq.subset⟩
    have hc := Persistence.custody_step cfg.batchMaxSize s.persistence (.sched i ok) hs.sound.custody
      fun _ _ => trivial
    exact hs.later (hs.numbered.beside _ _)
      (hs.sound.ofPersistence hc hl) hl
  · intro s ts hs
    obtain ⟨hsound, hl⟩ := hs.sound.call true .flush trivial
    exact hs.later (hs.numbered.beside _ _)
      hsound hl
  · intro s ts now hs
    have hempty : (s.buffer.evictExpired cfg.buffer now).buffer = [] := by
      simp [EventBuffer.evictExpired, hs.sound.empty]
    exact hs.later (hs.numbered.beside _ _)
      ⟨EventBuffer.evictExpired_ordered hs.sound.ordered now, hempty, hs.sound.custody,
        hs.sound.swept, hs.sound.cursor⟩ ⟨List.Subset.refl _, List.Subset.refl _⟩
  · intro s ts hs
    exact ⟨numbered_restart hs.numbered, sound_boot _ hs.sound.custody.rows hs.sound.cursor, .nil⟩

theorem indexing_fresh (cfg : Config) (chain : Chain) (start : Int) :
    Indexing cfg chain start State.fresh [] := by
  refine ⟨numbered_fresh, sound_boot 0 (by simp) ?_, .nil⟩
  intro ledger hledger
  cases hledger

end

/-- **The cursor is behind the table**: in every state of a run in which no answer misses a relevant
event, the numbers stay distinct and the cursor moves from settled states only, the relevant events of
the ledgers up to `last_indexed_ledger` are stored. -/
theorem cursor_behind_of_complete (cfg : Config) (chain : Chain) (start : Int) (acts : List Action)
    (hG : Along (step cfg) (Meeting Live (Thorough cfg chain start)) (Conf.init State.fresh) acts) :
    Always (step cfg) (fun c => CursorBehind chain start c.shared) (Conf.init State.fresh) acts :=
  always_of_inv (I := fun c : Conf State Call Unit => Indexing cfg chain start c.shared c.tasks)
    (fun _ h => h.sound.cursor) (indexing_step cfg chain start) (indexing_fresh cfg chain start) hG

/-! ## Two ledgers with a payment each -/

def twoLedgers : Chain where
  transactions ledger :=
    if ledger = 1 then [transfer "a" 1] else if ledger = 2 then [transfer "b" 2] else []
  operations _ := [payment]
  own := by
    intro ledger tx h
    split at h
    · rename_i hl
      rw [List.mem_singleton.mp h, hl]
      rfl
    · split at h
      · rename_i hl
        rw [List.mem_singleton.mp h, hl]
        rfl
      · cases h

/-- Both ledgers are handled at once. The first insert fails, the call for ledger `1` leaves the
cursor alone, and the one for ledger `2` retries the insert and saves the cursor. -/
def bothClosed : List Action :=
  starting 0 0 ++
    [.call (.spawn (.handleLedgerClose 1)), .call (.spawn (.handleLedgerClose 2)), goesOn 2, goesOn 1,
      receives 2 [transfer "b" 2], receives 1 [transfer "a" 1], reads 1 [payment], reads 2 [payment],
      goesOn 1, goesOn 2, .persist 3 false, .persist 3 true, goesOn 1, .persist 4 true,
      .persist 4 true, .persist 4 true, .persist 4 true, goesOn 2, goesOn 2]

theorem interleaved_ledgers_behind :
    (run (step defaults) (Conf.init State.fresh) bothClosed).shared.lastIndexedLedger = some 2 ∧
      Always (step defaults) (fun c => CursorBehind twoLedgers 1 c.shared) (Conf.init State.fresh)
        bothClosed := by
  refine ⟨by decide +kernel, cursor_behind_of_complete defaults twoLedgers 1 _ ?_⟩
  decide +kernel

/-- The fetch of the transactions of ledger `1` fails: the cursor moves to `1` and the table is
empty. -/
def lostLedger : List Action :=
  starting 0 0 ++ [.call (.spawn (.handleLedgerClose 1)), goesOn 1, goesOn 1, goesOn 1, goesOn 1]

theorem failed_fetch_passed :
    ¬ Always (step defaults) (fun c => CursorBehind twoLedgers 1 c.shared) (Conf.init State.fresh)
      lostLedger := by
  intro h
  have hcursor := h.last 1 (by decide +kernel) 1 (by decide) (by decide)
  obtain ⟨event, hevent⟩ : ∃ event, event ∈ twoLedgers.events 1 :=
    List.exists_mem_of_ne_nil _ (by decide +kernel)
  obtain ⟨r, hr, -⟩ := hcursor event hevent
  have hempty : (run (step defaults) (Conf.init State.fresh)
      lostLedger).shared.persistence.shared.rows = [] := by
    decide +kernel
  rw [hempty] at hr
  cases hr

end Pipeline

end Indexer
end TradeCore
