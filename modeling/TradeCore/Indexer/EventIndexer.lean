import TradeCore.Indexer.Normalizer
import TradeCore.Lib.Run
import TradeCore.Lib.Table

/-!
# TradeCore.Indexer.EventIndexer

The polling `EventIndexerService` and its table `blockchain_events`: what it makes of the operations of
a transaction, and the insert that skips every `uniqueId` the table has.

A row that was invalidated keeps its `uniqueId`. An event of that name is skipped for good, however
often it comes back (`invalidated_of_conflict`).
-/

namespace TradeCore
namespace Indexer

open Lib

namespace EventIndexer

/-- The columns of `blockchain_events`; a timestamp and an amount are the texts Horizon sent. -/
structure BlockchainEvent where
  uniqueId : String
  eventType : BlockchainEventType
  transactionHash : String
  ledger : Int
  timestamp : String
  sourceAccount : String
  destinationAccount : Option String
  assetCode : String
  assetIssuer : Option String
  amount : String
  raw : RawOperation × RawTransaction
  invalidated : Bool
  deriving DecidableEq, Repr

/-- `TRADE_RELEVANT_OPERATIONS`, with the event type the operation is taken for. -/
def tradeRelevantOperation (type : String) : Option BlockchainEventType :=
  if type = "payment" then some .payment
  else if type = "path_payment_strict_receive" then some .pathPaymentStrictReceive
  else if type = "path_payment_strict_send" then some .pathPaymentStrictSend
  else if type = "manage_offer" then some .manageOffer
  else if type = "manage_offer_withdraw" then some .manageOfferWithdraw
  else if type = "create_account" then some .createAccount
  else if type = "account_merge" then some .accountMerge
  else none

/-- Horizon need not send an `application_index`; the template then has the word `undefined`. -/
def uniqueIdOf (tx : RawTransaction) (op : RawOperation) : String :=
  tx.hash ++ ":" ++ (op.applicationIndex.map toString).getD "undefined"

def transformOperation (tx : RawTransaction) (op : RawOperation) : Option BlockchainEvent :=
  (tradeRelevantOperation op.type).map fun eventType =>
    let event : BlockchainEvent :=
      { uniqueId := uniqueIdOf tx op
        eventType := eventType
        transactionHash := tx.hash
        ledger := tx.ledger
        timestamp := tx.createdAt
        sourceAccount := op.«from».getD tx.sourceAccount
        destinationAccount := none
        assetCode := "native"
        assetIssuer := none
        amount := "0"
        raw := (op, tx)
        invalidated := false }
    match eventType with
    | .payment | .pathPaymentStrictReceive | .pathPaymentStrictSend =>
      { event with
        assetCode := op.assetCode.getD "native"
        assetIssuer := op.assetIssuer
        amount := op.amount.getD "0"
        destinationAccount := op.«to» }
    | .manageOffer | .manageOfferWithdraw =>
      { event with
        assetCode := op.assetCode.getD "native"
        assetIssuer := op.assetIssuer
        amount := op.amount.getD "0" }
    | .createAccount =>
      { event with destinationAccount := op.«to», amount := op.startingBalance.getD "0" }
    | .accountMerge => { event with destinationAccount := op.into }
    | _ => event

def transformOperations (tx : RawTransaction) (operations : List RawOperation) :
    List BlockchainEvent :=
  operations.filterMap (transformOperation tx)

/-- The table after the transaction, and the events that are published after it. An event is taken for
inserted if the insert returned its `uniqueId`. -/
def deduplicateAndPersist (events table : List BlockchainEvent) :
    List BlockchainEvent × List BlockchainEvent :=
  let (table, inserted) := insertOrIgnore (·.uniqueId) table events
  (table, events.filter fun event => event.uniqueId ∈ inserted.map (·.uniqueId))

theorem transformOperation_of_normalized {tx : RawTransaction} {op : RawOperation}
    (h : (normalizeStellarOperation tx op).isSome) : (transformOperation tx op).isSome := by
  rw [normalizeStellarOperation, Option.isSome_map] at h
  rw [transformOperation, Option.isSome_map]
  unfold mapOperationType at h
  unfold tradeRelevantOperation
  split_ifs at h ⊢ <;> simp_all

theorem normalize_nil_of_transform_nil {tx : RawTransaction} {operations : List RawOperation}
    (h : transformOperations tx operations = []) : normalizeStellarOperations tx operations = [] := by
  rw [transformOperations, List.filterMap_eq_nil_iff] at h
  rw [normalizeStellarOperations, List.filterMap_eq_nil_iff]
  intro op hop
  by_contra hne
  have hsome := transformOperation_of_normalized (Option.ne_none_iff_isSome.mp hne)
  rw [h op hop] at hsome
  cases hsome

/-- Every row of the name is invalidated, and there is one. -/
structure Withdrawn (uniqueId : String) (table : List BlockchainEvent) : Prop where
  there : uniqueId ∈ table.map (·.uniqueId)
  invalidated : ∀ r ∈ table, r.uniqueId = uniqueId → r.invalidated = true

theorem withdrawn_persist {uniqueId : String} {table : List BlockchainEvent}
    (h : Withdrawn uniqueId table) (events : List BlockchainEvent) :
    Withdrawn uniqueId (deduplicateAndPersist events table).1 := by
  have hrows : (deduplicateAndPersist events table).1 =
      table ++ (insertOrIgnore (·.uniqueId) table events).2 := insertOrIgnore_fst table events
  rw [hrows]
  refine ⟨?_, fun r hr heq => ?_⟩
  · rw [List.map_append]
    exact List.mem_append_left _ h.there
  · rcases List.mem_append.mp hr with hr | hr
    · exact h.invalidated r hr heq
    · exact absurd (heq ▸ h.there) (mem_inserted hr).2

/-- **What a reorg withdraws stays withdrawn**: no sequence of inserts brings a valid row back under a
`uniqueId` whose rows are invalidated. -/
theorem invalidated_of_conflict {uniqueId : String} {table : List BlockchainEvent}
    (h : Withdrawn uniqueId table) (batches : List (List BlockchainEvent)) :
    Withdrawn uniqueId (run (fun t events => (deduplicateAndPersist events t).1) table batches) :=
  run_inv (I := Withdrawn uniqueId) (G := fun _ _ => True)
    (fun _ events ht _ => withdrawn_persist ht events) h along_true

end EventIndexer

end Indexer
end TradeCore
