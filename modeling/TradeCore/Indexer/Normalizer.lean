import TradeCore.Indexer.Persistence
import Mathlib.Algebra.Group.Nat.Even

/-!
# TradeCore.Indexer.Normalizer

`EventNormalizer`: Horizon operations and Soroban contract events in one shape, and the counter the
sequence numbers come from.

Horizon's records are kept as far as the normalizer reads them, a decoded topic or value as its
text. An event carries the record it was made from. The counter is a `BigInt`; `toNumber` is the
`Number` the buffer is keyed by.
-/

namespace TradeCore
namespace Indexer

inductive BlockchainEventType where
  | payment
  | pathPaymentStrictReceive
  | pathPaymentStrictSend
  | manageOffer
  | manageOfferWithdraw
  | createAccount
  | accountMerge
  | transaction
  | sorobanContractInvocation
  | sorobanContractEvent
  | sorobanSystemEvent
  | sorobanDiagnosticEvent
  deriving DecidableEq, Repr

structure RawTransaction where
  hash : String
  ledger : Int
  createdAt : String
  sourceAccount : String
  successful : Bool
  deriving DecidableEq, Repr

structure RawOperation where
  applicationIndex : Option Int
  type : String
  assetCode : Option String
  assetIssuer : Option String
  «from» : Option String
  «to» : Option String
  amount : Option String
  startingBalance : Option String
  into : Option String
  deriving DecidableEq, Repr

inductive ContractEventType where
  | contract
  | system
  | diagnostic
  deriving DecidableEq, Repr

structure ParsedContractEvent where
  id : String
  contractId : String
  type : ContractEventType
  ledger : Int
  ledgerClosedAt : String
  topics : List String
  value : String
  txHash : String
  pagingToken : String
  indexedAt : Int
  deriving DecidableEq, Repr

/-- The column `raw`. -/
inductive RawEvent where
  | operation (op : RawOperation) (hash : String) (ledger : Int)
  | contractEvent (id pagingToken : String) (indexedAt : Int)
  deriving DecidableEq, Repr

structure UnsequencedEvent where
  ledgerSequence : Int
  eventType : BlockchainEventType
  transactionHash : String
  timestamp : String
  sourceAccount : String
  destinationAccount : Option String
  assetCode : Option String
  assetIssuer : Option String
  amount : Option String
  contractId : Option String
  methodName : Option String
  topics : Option (List String)
  value : Option String
  raw : RawEvent
  deriving DecidableEq, Repr

def mapOperationType (horizonType : String) : Option BlockchainEventType :=
  if horizonType = "payment" then some .payment
  else if horizonType = "path_payment_strict_receive" then some .pathPaymentStrictReceive
  else if horizonType = "path_payment_strict_send" then some .pathPaymentStrictSend
  else if horizonType = "manage_offer" then some .manageOffer
  else if horizonType = "create_account" then some .createAccount
  else if horizonType = "account_merge" then some .accountMerge
  else none

def mapSorobanEventType : ContractEventType → BlockchainEventType
  | .contract => .sorobanContractEvent
  | .system => .sorobanSystemEvent
  | .diagnostic => .sorobanDiagnosticEvent

def resolveDestination (op : RawOperation) : Option String := op.«to» <|> op.into

def normalizeStellarOperation (tx : RawTransaction) (op : RawOperation) : Option UnsequencedEvent :=
  (mapOperationType op.type).map fun eventType =>
    { ledgerSequence := tx.ledger
      eventType := eventType
      transactionHash := tx.hash
      timestamp := tx.createdAt
      sourceAccount := op.«from».getD tx.sourceAccount
      destinationAccount := resolveDestination op
      assetCode := some (op.assetCode.getD "native")
      assetIssuer := op.assetIssuer
      amount := op.amount <|> op.startingBalance
      contractId := none
      methodName := none
      topics := none
      value := none
      raw := .operation op tx.hash tx.ledger }

def normalizeStellarOperations (tx : RawTransaction) (operations : List RawOperation) :
    List UnsequencedEvent :=
  operations.filterMap (normalizeStellarOperation tx)

def normalizeSorobanEvent (e : ParsedContractEvent) : UnsequencedEvent where
  ledgerSequence := e.ledger
  eventType := mapSorobanEventType e.type
  transactionHash := e.txHash
  timestamp := e.ledgerClosedAt
  sourceAccount := e.contractId
  destinationAccount := none
  assetCode := none
  assetIssuer := none
  amount := none
  contractId := some e.contractId
  methodName := e.topics.head?
  topics := some e.topics
  value := some e.value
  raw := .contractEvent e.id e.pagingToken e.indexedAt

abbrev IndexedEvent := IndexedEventInput UnsequencedEvent

/-- `assignSequence` over a list: the counter after it, and the events with their numbers. -/
def assignSequences : Int → List UnsequencedEvent → Int × List IndexedEvent
  | counter, [] => (counter, [])
  | counter, event :: events =>
    let (last, rest) := assignSequences (counter + 1) events
    (last, ⟨counter + 1, event⟩ :: rest)

/-- `Number` of a `BigInt`'s text: the nearest number with 53 significant bits, a tie to the even
one. The model has no infinity, which takes over at `2 ^ 1024`. -/
def toNumber (n : Int) : Int :=
  let bits := n.natAbs.log2 + 1
  if bits ≤ 53 then n
  else
    let unit := 2 ^ (bits - 53)
    let q := n.natAbs / unit
    let r := n.natAbs % unit
    let m := if 2 * r < unit ∨ 2 * r = unit ∧ q % 2 = 0 then q else q + 1
    n.sign * (m * unit : Nat)

theorem toNumber_of_safe {n : Int} (h : n.natAbs < 2 ^ 53) : toNumber n = n := by
  refine if_pos ?_
  by_cases h0 : n.natAbs = 0
  · simp [h0]
  · exact (Nat.log2_lt h0).mpr h

example : toNumber (2 ^ 53 + 1) = 2 ^ 53 := by decide

theorem mem_normalizeStellarOperations {tx : RawTransaction} {operations : List RawOperation}
    {e : UnsequencedEvent} (h : e ∈ normalizeStellarOperations tx operations) :
    e.ledgerSequence = tx.ledger := by
  obtain ⟨op, -, hop⟩ := List.mem_filterMap.mp h
  obtain ⟨eventType, -, rfl⟩ := Option.map_eq_some_iff.mp hop
  rfl

/-- The numbers handed out are the ones after the counter, one to each event. -/
theorem assignSequences_spec (counter : Int) (events : List UnsequencedEvent) :
    (assignSequences counter events).1 = counter + events.length ∧
      (assignSequences counter events).2.map (·.payload) = events ∧
      (assignSequences counter events).2.Pairwise (fun a b => a.sequenceNumber < b.sequenceNumber) ∧
      ∀ a ∈ (assignSequences counter events).2,
        counter < a.sequenceNumber ∧ a.sequenceNumber ≤ counter + events.length := by
  induction events generalizing counter with
  | nil => simp [assignSequences]
  | cons event events ih =>
    obtain ⟨hlast, hmap, hasc, hrange⟩ := ih (counter + 1)
    simp only [assignSequences, List.length_cons]
    refine ⟨by rw [hlast]; omega, by rw [List.map_cons, hmap], ?_, ?_⟩
    · refine List.pairwise_cons.mpr ⟨?_, hasc⟩
      intro b hb
      exact (hrange b hb).1
    · intro a ha
      rcases List.mem_cons.mp ha with rfl | ha
      · dsimp only
        omega
      · have := hrange a ha
        omega

end Indexer
end TradeCore
