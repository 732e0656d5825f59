import TradeCore.Indexer.EventIndexer
import Mathlib.Data.List.Perm.Subperm
import Mathlib.Data.List.TakeWhile

/-!
# TradeCore.Indexer.Polling

`indexNewEvents`, one call after the other: the page after the cursor, the loop over its transactions,
and the cursor and the last ledger that are stored after it.

The loop passes over a transaction whose operations cannot be fetched, and a shutdown ends it; both
times the call goes on and stores the paging token of the last transaction of the page. The insert in
turn leaves out an event whose `uniqueId` is taken, be it by an invalidated row or, where Horizon sends
no `application_index`, by another operation of the transaction. The table keeps up with the cursor
exactly when every event of the page has its row all the same (`cursor_covered_iff`). A failed insert is
different: it ends the call, and the cursor stays.
-/

namespace TradeCore
namespace Indexer

open Lib

namespace EventIndexer

structure PagedTransaction extends RawTransaction where
  pagingToken : String
  deriving DecidableEq, Repr

/-- Horizon's answer to one request for operations; a failure may carry a response with a status. -/
inductive OperationsAnswer where
  | records
  | failure (status : Option Nat)
  deriving DecidableEq, Repr

def maxRateLimitRetries : Nat := 3

/-- The operations, or `none` where the call throws. `records` is what Horizon has. -/
def fetchAttempts (records : List RawOperation) (answer : Nat → OperationsAnswer) :
    List Nat → Option (List RawOperation)
  | [] => none
  | attempt :: rest =>
    match answer attempt with
    | .records => some records
    | .failure status =>
      if status ≠ some 429 ∨ attempt = maxRateLimitRetries then none
      else fetchAttempts records answer rest

def getOperationsForTransaction (records : List RawOperation) (answer : Nat → OperationsAnswer) :
    Option (List RawOperation) :=
  fetchAttempts records answer (List.range (maxRateLimitRetries + 1))

/-- What the loop meets at a transaction: `shuttingDown` as it is read there, the answers to the
attempts of its fetch, and whether its insert throws. -/
structure Visit where
  shuttingDown : Bool
  answer : Nat → OperationsAnswer
  insertFails : Bool

/-- What one call of `indexNewEvents` meets. `page` is `none` where the cursor or the page cannot be
read, `ledger` where the ledger cannot; a ledger that Horizon does not know has no hash. -/
structure Cycle where
  indexing : Bool
  shuttingDown : Bool
  page : Option (List (PagedTransaction × Visit))
  cursorSaved : Bool
  ledger : Option (Option String)
  ledgerSaved : Bool

/-- `passed` is not in the source: the transactions of the pages whose last token was stored. -/
structure PollState where
  lastCursor : Option String
  lastIndexedLedger : Option (Int × Option String)
  table : List BlockchainEvent
  published : List BlockchainEvent
  passed : List PagedTransaction
  deriving DecidableEq, Repr

section Poll

variable (operations : String → List RawOperation)

/-- The new state, and whether the call returned. -/
def processTransaction (tx : PagedTransaction) (visit : Visit) (s : PollState) : PollState × Bool :=
  if ¬ tx.successful then (s, true)
  else
    match getOperationsForTransaction (operations tx.hash) visit.answer with
    | none => (s, true)
    | some ops =>
      let tradeEvents := transformOperations tx.toRawTransaction ops
      if tradeEvents.length = 0 then (s, true)
      else if visit.insertFails then (s, false)
      else
        let (table, insertedEvents) := deduplicateAndPersist tradeEvents s.table
        ({ s with table := table, published := s.published ++ insertedEvents }, true)

/-- The loop over the page. -/
def processPage : List (PagedTransaction × Visit) → PollState → PollState × Bool
  | [], s => (s, true)
  | (tx, visit) :: page, s =>
    if visit.shuttingDown then (s, true)
    else
      match processTransaction operations tx visit s with
      | (s, false) => (s, false)
      | (s, true) => processPage page s

/-- One call. A call that finds another one busy returns at once, so that the calls that do something
follow one another. -/
def indexNewEvents (s : PollState) (cycle : Cycle) : PollState :=
  if cycle.indexing ∨ cycle.shuttingDown then s
  else
    match cycle.page with
    | none => s
    | some transactions =>
      match transactions.getLast? with
      | none => s
      | some (lastTx, _) =>
        match processPage operations transactions s with
        | (s, false) => s
        | (s, true) =>
          if cycle.cursorSaved then
            let s := { s with
              lastCursor := some lastTx.pagingToken
              passed := s.passed ++ transactions.map (·.1) }
            match cycle.ledger with
            | none => s
            | some hash =>
              if cycle.ledgerSaved then { s with lastIndexedLedger := some (lastTx.ledger, hash) } else s
          else s

/-- The trade events of a transaction. -/
def eventsOf (tx : PagedTransaction) : List BlockchainEvent :=
  if tx.successful then transformOperations tx.toRawTransaction (operations tx.hash) else []

/-- The trade events the loop has of a transaction it reaches. -/
def eventsFetched (entry : PagedTransaction × Visit) : List BlockchainEvent :=
  match getOperationsForTransaction (operations entry.1.hash) entry.2.answer with
  | none => []
  | some _ => eventsOf operations entry.1

/-- The transactions before the shutdown. -/
def reached (page : List (PagedTransaction × Visit)) : List (PagedTransaction × Visit) :=
  page.takeWhile fun entry => !entry.2.shuttingDown

def uniqueIds (events : List BlockchainEvent) : List String := events.map (·.uniqueId)

/-- The trade events the loop has of the page. -/
def eventsReached (page : List (PagedTransaction × Visit)) : List BlockchainEvent :=
  (reached page).flatMap (eventsFetched operations)

/-- Every event of the transaction has a valid row of its own. -/
def Covered (table : List BlockchainEvent) (tx : PagedTransaction) : Prop :=
  (eventsOf operations tx).Subperm table

/-- The cursor is not past a transaction that is not covered. -/
def CursorCovered (s : PollState) : Prop := ∀ tx ∈ s.passed, Covered operations s.table tx

/-- The call fetches the page and stores its cursor. -/
structure Advances (cycle : Cycle) (page : List (PagedTransaction × Visit)) : Prop where
  idle : cycle.indexing = false
  up : cycle.shuttingDown = false
  fetched : cycle.page = some page
  inserts : ∀ entry ∈ reached page, eventsFetched operations entry = [] ∨ entry.2.insertFails = false
  saved : cycle.cursorSaved = true

/-- The event becomes a row: none has its `uniqueId`, and the loop has no earlier one of that name. -/
def Lands (s : PollState) (page : List (PagedTransaction × Visit)) (event : BlockchainEvent) : Prop :=
  event.uniqueId ∉ uniqueIds s.table ∧
    ((eventsReached operations page).find? fun e => e.uniqueId = event.uniqueId) = some event

instance (s : PollState) (page : List (PagedTransaction × Visit)) (event : BlockchainEvent) :
    Decidable (Lands operations s page event) :=
  inferInstanceAs (Decidable (_ ∧ _))

/-- A call that stores its cursor passes only events that have a row or get one. Two events of one
transaction that are the same in everything would need two rows, and get one at most. -/
def KeepsUp (s : PollState) (cycle : Cycle) : Prop :=
  ∀ page, Advances operations cycle page → ∀ entry ∈ page,
    (eventsOf operations entry.1).Nodup ∧
      ∀ event ∈ eventsOf operations entry.1, event ∈ s.table ∨ Lands operations s page event

end Poll

section Fetch

variable {records : List RawOperation} {answer : Nat → OperationsAnswer}

theorem fetchAttempts_eq {attempts : List Nat} {ops : List RawOperation}
    (h : fetchAttempts records answer attempts = some ops) : ops = records := by
  induction attempts with
  | nil => cases h
  | cons attempt rest ih =>
    rw [fetchAttempts] at h
    split at h
    · exact (Option.some.inj h).symm
    · split at h
      · cases h
      · exact ih h

theorem fetchAttempts_isSome_iff {n k : Nat} (h : n + k = maxRateLimitRetries + 1) :
    (fetchAttempts records answer (List.range' n k)).isSome ↔
      ∃ i < k, answer (n + i) = .records ∧ ∀ j < i, answer (n + j) = .failure (some 429) := by
  induction k generalizing n with
  | zero => simp [fetchAttempts]
  | succ k ih =>
    rw [List.range'_succ, fetchAttempts, Nat.exists_lt_succ_left]
    simp only [Nat.forall_lt_succ_left, Nat.add_zero, Nat.not_lt_zero]
    cases hanswer : answer n with
    | records => simp
    | failure status =>
      simp only [reduceCtorEq, false_and, false_or, OperationsAnswer.failure.injEq]
      by_cases hstop : status ≠ some 429 ∨ n = maxRateLimitRetries
      · rw [if_pos hstop]
        refine iff_of_false Bool.false_ne_true ?_
        rintro ⟨i, hi, -, hlimited, -⟩
        exact hstop.elim (fun hne => hne hlimited) (by omega)
      · rw [if_neg hstop, ih (by omega)]
        rw [not_or, not_not] at hstop
        simp only [hstop.1, true_and, Nat.add_assoc, Nat.add_comm 1]

/-- A fetch comes through if one of the four attempts does and those before it met the rate limit. -/
theorem getOperations_isSome_iff :
    (getOperationsForTransaction records answer).isSome ↔
      ∃ n ≤ maxRateLimitRetries, answer n = .records ∧ ∀ m < n, answer m = .failure (some 429) := by
  rw [getOperationsForTransaction, List.range_eq_range', fetchAttempts_isSome_iff (Nat.zero_add _)]
  simp only [Nat.zero_add, Nat.lt_succ_iff]

theorem getOperations_eq {ops : List RawOperation}
    (h : getOperationsForTransaction records answer = some ops) : ops = records :=
  fetchAttempts_eq h

end Fetch

section Page

variable {operations : String → List RawOperation}

/-- What a transaction comes to, in terms of the events the loop has of it. -/
theorem processTransaction_eq (tx : PagedTransaction) (visit : Visit) (s : PollState) :
    processTransaction operations tx visit s =
      if eventsFetched operations (tx, visit) = [] then (s, true)
      else if visit.insertFails then (s, false)
      else
        ({ s with
            table := (deduplicateAndPersist (eventsFetched operations (tx, visit)) s.table).1
            published :=
              s.published ++ (deduplicateAndPersist (eventsFetched operations (tx, visit)) s.table).2 },
          true) := by
  unfold processTransaction eventsFetched eventsOf
  cases hfetch : getOperationsForTransaction (operations tx.hash) visit.answer with
  | none => simp
  | some ops =>
    obtain rfl : ops = operations tx.hash := getOperations_eq hfetch
    by_cases hs : tx.successful
    · simp only [hs, not_true_eq_false, if_false, if_true, List.length_eq_zero_iff]
    · simp [hs]

theorem processTransaction_returns (tx : PagedTransaction) (visit : Visit) (s : PollState) :
    (processTransaction operations tx visit s).2 = true ↔
      eventsFetched operations (tx, visit) = [] ∨ visit.insertFails = false := by
  rw [processTransaction_eq]
  split
  · simp [*]
  · split <;> simp [*]

theorem processTransaction_table {tx : PagedTransaction} {visit : Visit} {s : PollState}
    (h : (processTransaction operations tx visit s).2 = true) :
    (processTransaction operations tx visit s).1.table =
      (insertOrIgnore (·.uniqueId) s.table (eventsFetched operations (tx, visit))).1 := by
  rw [processTransaction_eq] at h ⊢
  split
  · rename_i hnone
    rw [hnone]
    rfl
  · rename_i hne
    rw [if_neg hne] at h
    split
    · rename_i hfails
      rw [if_pos hfails] at h
      cases h
    · rfl

theorem processTransaction_passed (tx : PagedTransaction) (visit : Visit) (s : PollState) :
    (processTransaction operations tx visit s).1.passed = s.passed := by
  rw [processTransaction_eq]
  split
  · rfl
  · split <;> rfl

/-- Rows are added and none is taken away, and the index on `uniqueId` holds on. -/
structure Extends (table table' : List BlockchainEvent) : Prop where
  rows : table.Sublist table'
  unique : (uniqueIds table).Nodup → (uniqueIds table').Nodup

theorem Extends.refl (table : List BlockchainEvent) : Extends table table :=
  ⟨List.Sublist.refl table, id⟩

theorem Extends.trans {t t' t'' : List BlockchainEvent} (h : Extends t t') (h' : Extends t' t'') :
    Extends t t'' :=
  ⟨h.rows.trans h'.rows, fun hu => h'.unique (h.unique hu)⟩

theorem persist_extends (events table : List BlockchainEvent) :
    Extends table (deduplicateAndPersist events table).1 where
  rows := by
    show table.Sublist (insertOrIgnore (·.uniqueId) table events).1
    rw [insertOrIgnore_fst]
    exact List.sublist_append_left ..
  unique := nodup_insertOrIgnore

theorem processTransaction_extends (tx : PagedTransaction) (visit : Visit) (s : PollState) :
    Extends s.table (processTransaction operations tx visit s).1.table := by
  rw [processTransaction_eq]
  split
  · exact .refl _
  · split
    · exact .refl _
    · exact persist_extends _ _

theorem processPage_extends (page : List (PagedTransaction × Visit)) (s : PollState) :
    Extends s.table (processPage operations page s).1.table := by
  induction page generalizing s with
  | nil => exact .refl _
  | cons entry page ih =>
    obtain ⟨tx, visit⟩ := entry
    rw [processPage]
    split
    · exact .refl _
    · have hextends := @processTransaction_extends operations tx visit s
      split
      · rename_i heq
        rwa [heq] at hextends
      · rename_i heq
        rw [heq] at hextends
        exact hextends.trans (ih _)

theorem processPage_passed (page : List (PagedTransaction × Visit)) (s : PollState) :
    (processPage operations page s).1.passed = s.passed := by
  induction page generalizing s with
  | nil => rfl
  | cons entry page ih =>
    obtain ⟨tx, visit⟩ := entry
    rw [processPage]
    split
    · rfl
    · have hpassed := @processTransaction_passed operations tx visit s
      split
      · rename_i heq
        rwa [heq] at hpassed
      · rename_i heq
        rw [heq] at hpassed
        exact (ih _).trans hpassed

/-- The loop ends without a throw when no insert of a transaction it reaches throws. -/
theorem processPage_returns (page : List (PagedTransaction × Visit)) (s : PollState) :
    (processPage operations page s).2 = true ↔
      ∀ entry ∈ reached page, eventsFetched operations entry = [] ∨ entry.2.insertFails = false := by
  induction page generalizing s with
  | nil => simp [processPage, reached]
  | cons entry page ih =>
    obtain ⟨tx, visit⟩ := entry
    rw [processPage, reached, List.takeWhile_cons]
    by_cases hdown : visit.shuttingDown
    · simp [hdown]
    · simp only [hdown, Bool.not_false, if_true, List.forall_mem_cons, Bool.false_eq_true, if_false]
      rw [← processTransaction_returns tx visit s]
      split
      · simp [*]
      · rw [ih, reached]
        simp [*]

theorem processPage_table {page : List (PagedTransaction × Visit)} {s : PollState}
    (h : (processPage operations page s).2 = true) :
    (processPage operations page s).1.table =
      (insertOrIgnore (·.uniqueId) s.table (eventsReached operations page)).1 := by
  induction page generalizing s with
  | nil => rfl
  | cons entry page ih =>
    obtain ⟨tx, visit⟩ := entry
    rw [processPage] at h ⊢
    rw [eventsReached, reached, List.takeWhile_cons]
    by_cases hdown : visit.shuttingDown
    · simp [hdown, insertOrIgnore]
    · simp only [hdown, Bool.not_false, if_true, Bool.false_eq_true, if_false, List.flatMap_cons,
        insertOrIgnore_append] at h ⊢
      have htable := @processTransaction_table operations tx visit s
      split at h
      · cases h
      · rename_i s' heq
        rw [heq] at htable
        rw [ih h, htable rfl]
        rfl

end Page

section Cycle

variable {operations : String → List RawOperation} {s : PollState} {cycle : Cycle}
  {page : List (PagedTransaction × Visit)}

theorem indexNewEvents_of_advances (h : Advances operations cycle page) (hne : page ≠ []) :
    (indexNewEvents operations s cycle).passed = s.passed ++ page.map (·.1) ∧
      (indexNewEvents operations s cycle).table = (processPage operations page s).1.table := by
  have hreturns := (processPage_returns page s).mpr h.inserts
  have hpassed := @processPage_passed operations page s
  rw [indexNewEvents, if_neg (by simp [h.idle, h.up])]
  simp only [h.fetched, List.getLast?_eq_getLast_of_ne_nil hne, h.saved, if_true]
  split
  · rename_i heq
    rw [heq] at hreturns
    cases hreturns
  · rename_i heq
    rw [heq] at hpassed ⊢
    rw [← hpassed]
    split
    · exact ⟨rfl, rfl⟩
    · split <;> exact ⟨rfl, rfl⟩

theorem indexNewEvents_of_not_advances (h : ∀ page, Advances operations cycle page → page = []) :
    (indexNewEvents operations s cycle).passed = s.passed ∧
      Extends s.table (indexNewEvents operations s cycle).table := by
  rw [indexNewEvents]
  split
  · exact ⟨rfl, .refl _⟩
  · rename_i hidle
    rw [not_or, Bool.not_eq_true, Bool.not_eq_true] at hidle
    split
    · exact ⟨rfl, .refl _⟩
    · rename_i page hfetched
      split
      · exact ⟨rfl, .refl _⟩
      · rename_i hlast
        have hpassed := @processPage_passed operations page s
        have hextends := @processPage_extends operations page s
        have hreturns := @processPage_returns operations page s
        split
        · rename_i heq
          rw [heq] at hpassed hextends
          exact ⟨hpassed, hextends⟩
        · rename_i heq
          rw [heq] at hpassed hextends hreturns
          have hsaved : ¬ cycle.cursorSaved := fun hsaved => by
            obtain rfl := h page ⟨hidle.1, hidle.2, hfetched, hreturns.mp rfl, hsaved⟩
            cases hlast
          rw [if_neg hsaved]
          exact ⟨hpassed, hextends⟩

theorem indexNewEvents_unique (hs : (uniqueIds s.table).Nodup) :
    (uniqueIds (indexNewEvents operations s cycle).table).Nodup := by
  by_cases hadv : ∀ page, Advances operations cycle page → page = []
  · exact (indexNewEvents_of_not_advances hadv).2.unique hs
  · push Not at hadv
    obtain ⟨page, hpage, hne⟩ := hadv
    rw [(indexNewEvents_of_advances hpage hne).2]
    exact (processPage_extends page s).unique hs

/-- Where the table has no other row of its `uniqueId`, an event has a row of its own if it has one. -/
theorem covered_iff {table : List BlockchainEvent} (hunique : (uniqueIds table).Nodup)
    {tx : PagedTransaction} :
    Covered operations table tx ↔
      (eventsOf operations tx).Nodup ∧ ∀ event ∈ eventsOf operations tx, event ∈ table := by
  constructor
  · rintro ⟨rows, hperm, hsub⟩
    refine ⟨hperm.nodup_iff.mp (hsub.nodup (List.Nodup.of_map _ hunique)), fun event hevent => ?_⟩
    exact hsub.subset (hperm.mem_iff.mpr hevent)
  · rintro ⟨hnodup, hsubset⟩
    exact List.subperm_of_subset hnodup hsubset

theorem indexNewEvents_covered_iff (hunique : (uniqueIds s.table).Nodup)
    (hs : CursorCovered operations s) :
    CursorCovered operations (indexNewEvents operations s cycle) ↔ KeepsUp operations s cycle := by
  have hunique' : (uniqueIds (indexNewEvents operations s cycle).table).Nodup := indexNewEvents_unique hunique
  by_cases hadv : ∀ page, Advances operations cycle page → page = []
  · obtain ⟨hpassed, hextends⟩ := indexNewEvents_of_not_advances (s := s) hadv
    refine iff_of_true (fun tx htx => ?_) (fun page hpage entry hentry => ?_)
    · exact List.Subperm.trans (hs tx (hpassed ▸ htx)) hextends.rows.subperm
    · rw [hadv page hpage] at hentry
      cases hentry
  · push Not at hadv
    obtain ⟨page, hpage, hne⟩ := hadv
    obtain ⟨hpassed, htable⟩ := indexNewEvents_of_advances (s := s) hpage hne
    have hrows : ∀ event, event ∈ (indexNewEvents operations s cycle).table ↔
        event ∈ s.table ∨ Lands operations s page event := by
      intro event
      rw [htable, processPage_table ((processPage_returns page s).mpr hpage.inserts)]
      exact mem_insertOrIgnore_iff
    constructor
    · intro hcovered page' hpage' entry hentry
      obtain rfl : page = page' := Option.some.inj (hpage.fetched.symm.trans hpage'.fetched)
      have htx : entry.1 ∈ (indexNewEvents operations s cycle).passed := by
        rw [hpassed]
        exact List.mem_append_right _ (List.mem_map_of_mem hentry)
      obtain ⟨hnodup, hall⟩ := (covered_iff hunique').mp (hcovered entry.1 htx)
      exact ⟨hnodup, fun event hevent => (hrows event).mp (hall event hevent)⟩
    · intro hkeeps tx htx
      rw [hpassed, List.mem_append] at htx
      rcases htx with htx | htx
      · have hold := (covered_iff hunique).mp (hs tx htx)
        exact (covered_iff hunique').mpr
          ⟨hold.1, fun event hevent => (hrows event).mpr (.inl (hold.2 event hevent))⟩
      · obtain ⟨entry, hentry, rfl⟩ := List.mem_map.mp htx
        obtain ⟨hnodup, hall⟩ := hkeeps page hpage entry hentry
        exact (covered_iff hunique').mpr
          ⟨hnodup, fun event hevent => (hrows event).mpr (hall event hevent)⟩

end Cycle

/-- The service as it is started: with what it stored before, and nothing passed since. -/
def PollState.start (lastCursor : Option String) (lastIndexedLedger : Option (Int × Option String))
    (table : List BlockchainEvent) : PollState where
  lastCursor := lastCursor
  lastIndexedLedger := lastIndexedLedger
  table := table
  published := []
  passed := []

/-- **The cursor stays behind the table** in the runs whose calls all keep up, and in no others. The
table has a unique index on `uniqueId`. -/
theorem cursor_covered_iff (operations : String → List RawOperation) (lastCursor : Option String)
    (lastIndexedLedger : Option (Int × Option String)) {table : List BlockchainEvent}
    (hunique : (uniqueIds table).Nodup) (cycles : List Cycle) :
    Always (indexNewEvents operations) (CursorCovered operations)
        (.start lastCursor lastIndexedLedger table) cycles ↔
      Along (indexNewEvents operations) (KeepsUp operations)
        (.start lastCursor lastIndexedLedger table) cycles :=
  always_iff_along (I := fun s => (uniqueIds s.table).Nodup ∧ CursorCovered operations s)
    (fun _ h => h.2)
    (fun _ _ hs hkeeps =>
      ⟨indexNewEvents_unique hs.1, (indexNewEvents_covered_iff hs.1 hs.2).mpr hkeeps⟩)
    (fun _ _ hs hnot => fun h => hnot ((indexNewEvents_covered_iff hs.1 hs.2).mp h))
    ⟨hunique, fun _ htx => nomatch htx⟩

def paymentOf (hash pagingToken : String) : PagedTransaction where
  hash := hash
  ledger := 2
  createdAt := "2024-01-01T00:00:00Z"
  sourceAccount := "GA"
  successful := true
  pagingToken := pagingToken

def onePayment (_ : String) : List RawOperation :=
  [⟨some 1, "payment", none, none, some "GA", some "GB", some "5", none, none⟩]

def cycleOf (page : List (PagedTransaction × Visit)) : Cycle :=
  ⟨false, false, some page, true, some (some "L2"), true⟩

/-- The fetch for the only transaction of the page is answered with 503. -/
def fetchDown : Cycle :=
  cycleOf [(paymentOf "aa" "8589938688", ⟨false, fun _ => .failure (some 503), false⟩)]

/-- The service is stopped before the second of two transactions. -/
def stoppedHalfway : Cycle :=
  cycleOf [(paymentOf "aa" "8589938688", ⟨false, fun _ => .records, false⟩),
    (paymentOf "bb" "8589942784", ⟨true, fun _ => .records, false⟩)]

theorem passed_over :
    indexNewEvents onePayment (.start none none []) fetchDown =
      ⟨some "8589938688", some (2, some "L2"), [], [], [paymentOf "aa" "8589938688"]⟩ ∧
    ¬ Always (indexNewEvents onePayment) (CursorCovered onePayment) (.start none none []) [fetchDown] ∧
    (indexNewEvents onePayment (.start none none []) stoppedHalfway).lastCursor = some "8589942784" ∧
    uniqueIds (indexNewEvents onePayment (.start none none []) stoppedHalfway).table = ["aa:1"] ∧
    ¬ Always (indexNewEvents onePayment) (CursorCovered onePayment) (.start none none [])
      [stoppedHalfway] := by
  refine ⟨by decide +kernel, fun h => ?_, by decide +kernel, by decide +kernel, fun h => ?_⟩
  · have hcovered : Covered onePayment _ _ := h.last (paymentOf "aa" "8589938688") (by decide +kernel)
    exact absurd (hcovered.subset (List.mem_singleton.mpr rfl)) (by decide +kernel)
  · have hcovered : Covered onePayment _ _ := h.last (paymentOf "bb" "8589942784") (by decide +kernel)
    exact absurd (hcovered.subset (List.mem_singleton.mpr rfl)) (by decide +kernel)

/-- Without an `application_index` the second payment of a transaction has the name of the first. -/
def twoPayments (_ : String) : List RawOperation :=
  [⟨none, "payment", none, none, some "GA", some "GB", some "5", none, none⟩,
    ⟨none, "payment", none, none, some "GA", some "GC", some "7", none, none⟩]

def fetched : Cycle :=
  cycleOf [(paymentOf "aa" "8589938688", ⟨false, fun _ => .records, false⟩)]

example :
    (indexNewEvents twoPayments (.start none none []) fetched).table.map
      (fun event => (event.uniqueId, event.amount)) = [("aa:undefined", "5")] := by
  decide +kernel

theorem covered_of_fetched :
    CursorCovered onePayment (run (indexNewEvents onePayment) (.start none none []) [fetched]) := by
  have hempty : (uniqueIds []).Nodup := List.nodup_nil
  refine Always.last ((cursor_covered_iff onePayment none none hempty [fetched]).mpr ?_)
  refine ⟨fun page hpage entry hentry => ?_, trivial⟩
  obtain rfl := Option.some.inj hpage.fetched
  obtain rfl := List.mem_singleton.mp hentry
  exact ⟨by decide +kernel, by decide +kernel⟩

end EventIndexer

end Indexer
end TradeCore
