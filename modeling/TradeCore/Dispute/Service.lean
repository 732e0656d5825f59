import Mathlib.Algebra.Order.Field.Rat
import TradeCore.Common
import TradeCore.Lib.Table

/-!
# TradeCore.Dispute.Service

Disputes between the parties of a trade: the rows, and the operations of the service as they run when
nothing else does.

`createDispute` and `appealDispute` look for an arbitrator, `resolveDispute` releases the one assigned
and enforces the decision. An arbitrator's load is a counter of its own, moved by `assignArbitrator`
and `releaseArbitrator`. The remediation a resolution records is a row of `transactions`; the table has
no column for the dispute, which the model keeps beside the row (the code logs it).

Amounts are rationals. SLA dates, texts, messages, the timeline, similar disputes and notifications
are left out: nothing here reads them.
-/

namespace TradeCore
namespace Disputes

open Lib

inductive DisputeStatus where
  | filed
  | underReview
  | investigation
  | arbitration
  | resolved
  | appealed
  | closed
  | rejected
  deriving DecidableEq, Repr

def DisputeStatus.text : DisputeStatus → String
  | .filed => "filed"
  | .underReview => "under_review"
  | .investigation => "investigation"
  | .arbitration => "arbitration"
  | .resolved => "resolved"
  | .appealed => "appealed"
  | .closed => "closed"
  | .rejected => "rejected"

inductive DisputeClassification where
  | nonDelivery
  | wrongAmount
  | fraud
  | systemError
  deriving DecidableEq, Repr

inductive ArbitratorExpertise where
  | nonDelivery
  | wrongAmount
  | fraud
  | systemError
  | general
  deriving DecidableEq, Repr

inductive DisputeResolutionType where
  | refund
  | settlement
  | reversal
  | dismissed
  deriving DecidableEq, Repr

inductive UserRole where
  | user
  | admin
  | analyst
  | arbitrator
  deriving DecidableEq, Repr

structure User where
  id : Uuid
  role : UserRole
  deriving DecidableEq, Repr

structure Trade where
  id : Uuid
  makerUserId : Uuid
  takerUserId : Uuid
  assetCode : String
  assetIssuer : Option String
  quantity : ℚ
  deriving DecidableEq, Repr

structure Arbitrator where
  userId : Uuid
  expertise : List ArbitratorExpertise
  isAvailable : Bool
  activeDisputeCount : Nat
  maxActiveDisputes : Nat
  totalResolved : Nat
  deriving DecidableEq, Repr

structure Dispute where
  id : Uuid
  tradeId : Uuid
  complainantId : Uuid
  respondentId : Uuid
  classification : DisputeClassification
  status : DisputeStatus
  arbitratorId : Option Uuid
  resolutionType : Option DisputeResolutionType
  resolutionAmount : Option ℚ
  appealed : Bool
  enforcementExecuted : Bool
  createdAt : Time
  deriving DecidableEq, Repr

/-- A row that enforcement adds to `transactions`, with the dispute it was made for. -/
structure Remediation where
  disputeId : Uuid
  userId : Uuid
  assetCode : String
  assetIssuer : Option String
  amount : ℚ
  deriving DecidableEq, Repr

structure Db where
  users : List User
  trades : List Trade
  arbitrators : List Arbitrator
  disputes : List Dispute
  transactions : List Remediation
  nextId : Uuid
  deriving DecidableEq, Repr

def Db.trade? (db : Db) (id : Uuid) : Option Trade := lookup Trade.id id db.trades

def Db.dispute? (db : Db) (id : Uuid) : Option Dispute := lookup Dispute.id id db.disputes

def Db.arbitrator? (db : Db) (userId : Uuid) : Option Arbitrator :=
  lookup Arbitrator.userId userId db.arbitrators

def Db.saveDispute (db : Db) (dispute : Dispute) : Db :=
  { db with disputes := upsert Dispute.id dispute db.disputes }

def Db.saveArbitrator (db : Db) (arbitrator : Arbitrator) : Db :=
  { db with arbitrators := upsert Arbitrator.userId arbitrator db.arbitrators }

/-! ## Arbitrators -/

structure CreateArbitratorDto where
  userId : Uuid
  expertise : List ArbitratorExpertise
  maxActiveDisputes : Option Nat
  deriving DecidableEq, Repr

def createArbitrator (db : Db) (dto : CreateArbitratorDto) : Db × Except HttpError Unit :=
  match lookup User.id dto.userId db.users with
  | none => (db, .error (.notFound s!"User {dto.userId} not found"))
  | some user =>
    match db.arbitrator? dto.userId with
    | some _ => (db, .error (.badRequest "User is already registered as an arbitrator"))
    | none =>
      let db := db.saveArbitrator
        { userId := dto.userId
          expertise := dto.expertise
          isAvailable := true
          activeDisputeCount := 0
          maxActiveDisputes := dto.maxActiveDisputes.getD 10
          totalResolved := 0 }
      if user.role ≠ .admin then
        ({ db with users := upsert User.id { user with role := .arbitrator } db.users }, .ok ())
      else (db, .ok ())

def classificationToExpertise : DisputeClassification → ArbitratorExpertise
  | .nonDelivery => .nonDelivery
  | .wrongAmount => .wrongAmount
  | .fraud => .fraud
  | .systemError => .systemError

/-- The rows the query of `assignArbitrator` returns. The query builder joins the conditions without
brackets, so the `OR` of the last one is the outermost. -/
def candidate (classification : DisputeClassification) (a : Arbitrator) : Bool :=
  (a.isAvailable && decide (a.activeDisputeCount < a.maxActiveDisputes) &&
      a.expertise.contains (classificationToExpertise classification)) ||
    a.expertise.contains .general

/-- The first row in the order of the load. Rows with the same load come in any order; `order` is the
one the database chose. -/
def selectArbitrator (db : Db) (classification : DisputeClassification) (order : Nat) :
    Option Arbitrator :=
  let arbitrators := db.arbitrators.filter (candidate classification)
  let first := arbitrators.filter fun a =>
    arbitrators.all fun b => decide (a.activeDisputeCount ≤ b.activeDisputeCount)
  first[order % first.length]?

def assignArbitrator (db : Db) (classification : DisputeClassification) (order : Nat) :
    Db × Option Arbitrator :=
  match selectArbitrator db classification order with
  | none => (db, none)
  | some a =>
    let selected := { a with activeDisputeCount := a.activeDisputeCount + 1 }
    (db.saveArbitrator selected, some selected)

def releaseArbitrator (db : Db) (arbitratorUserId : Uuid) : Db :=
  match db.arbitrator? arbitratorUserId with
  | none => db
  | some a =>
    if 0 < a.activeDisputeCount then
      db.saveArbitrator { a with
        activeDisputeCount := a.activeDisputeCount - 1
        totalResolved := a.totalResolved + 1 }
    else db

/-- The arbitrator of a dispute, if it has one, is released. -/
def releaseAssigned (db : Db) : Option Uuid → Db
  | none => db
  | some arbitratorId => releaseArbitrator db arbitratorId

/-- A dispute that was just saved gets an arbitrator and `status`, when one is found. -/
def assignDispute (db : Db) (order : Nat) (saved : Dispute) (status : DisputeStatus) : Db :=
  match assignArbitrator db saved.classification order with
  | (db, none) => db
  | (db, some arbitrator) =>
    db.saveDispute { saved with arbitratorId := some arbitrator.userId, status := status }

/-! ## Filing -/

def maxDisputesPerUserPerMonth : Nat := 5

structure CreateDisputeDto where
  tradeId : Uuid
  classification : DisputeClassification
  deriving DecidableEq, Repr

/-- The checks of `createDispute`, with the trade they found. -/
def createDispute.accept (db : Db) (oneMonthAgo : Time) (userId : Uuid) (dto : CreateDisputeDto) :
    Except HttpError Trade :=
  let recentCount := db.disputes.countP fun d =>
    decide (d.complainantId = userId) && decide (oneMonthAgo < d.createdAt)
  if maxDisputesPerUserPerMonth ≤ recentCount then
    .error (.badRequest (s!"Maximum of {maxDisputesPerUserPerMonth} disputes per month exceeded. " ++
      "Contact support if you believe this is an error."))
  else
    match db.trade? dto.tradeId with
    | none => .error (.notFound s!"Trade {dto.tradeId} not found")
    | some trade =>
      if trade.makerUserId ≠ userId ∧ trade.takerUserId ≠ userId then
        .error (.forbidden "Only trade participants can file a dispute")
      else if (db.disputes.find? fun d => decide (d.tradeId = dto.tradeId) &&
          decide (d.complainantId = userId)).any fun d => d.status ≠ .rejected then
        .error (.badRequest "An active dispute already exists for this trade")
      else .ok trade

def createDispute.filed (now : Time) (id userId : Uuid) (dto : CreateDisputeDto) (trade : Trade) :
    Dispute where
  id := id
  tradeId := dto.tradeId
  complainantId := userId
  respondentId := if trade.makerUserId = userId then trade.takerUserId else trade.makerUserId
  classification := dto.classification
  status := .filed
  arbitratorId := none
  resolutionType := none
  resolutionAmount := none
  appealed := false
  enforcementExecuted := false
  createdAt := now

def createDispute (db : Db) (now oneMonthAgo : Time) (order : Nat) (userId : Uuid)
    (dto : CreateDisputeDto) : Db × Except HttpError Unit :=
  match createDispute.accept db oneMonthAgo userId dto with
  | .error e => (db, .error e)
  | .ok trade =>
    let saved := createDispute.filed now db.nextId userId dto trade
    let db := { db.saveDispute saved with nextId := db.nextId + 1 }
    (assignDispute db order saved .underReview, .ok ())

def notFoundDispute (disputeId : Uuid) : HttpError := .notFound s!"Dispute {disputeId} not found"

def assertPartyAccess (dispute : Dispute) (userId : Uuid) (userRole : UserRole) :
    Except HttpError Unit :=
  let isParty := dispute.complainantId = userId ∨ dispute.respondentId = userId
  let isStaff := userRole = .admin ∨ userRole = .arbitrator ∨ userRole = .analyst
  if ¬ isParty ∧ ¬ isStaff then .error (.forbidden "You do not have access to this dispute")
  else .ok ()

/-- `validFile` is whether the uploaded file passes the evidence service. -/
def submitEvidence (db : Db) (disputeId userId : Uuid) (userRole : UserRole)
    (validFile : Except HttpError Unit) : Db × Except HttpError Unit :=
  match db.dispute? disputeId with
  | none => (db, .error (notFoundDispute disputeId))
  | some dispute =>
    match assertPartyAccess dispute userId userRole with
    | .error e => (db, .error e)
    | .ok () =>
      if dispute.status ∈ [.resolved, .closed, .rejected] then
        (db, .error (.badRequest "Cannot submit evidence on a closed dispute"))
      else
        match validFile with
        | .error e => (db, .error e)
        | .ok () =>
          if dispute.status = .filed then
            (db.saveDispute { dispute with status := .investigation }, .ok ())
          else (db, .ok ())

/-! ## Deciding -/

structure ResolveDisputeDto where
  resolutionType : DisputeResolutionType
  resolutionAmount : Option ℚ
  deriving DecidableEq, Repr

def resolvableStatuses : List DisputeStatus := [.underReview, .investigation, .arbitration, .appealed]

def resolveDispute.accept (dispute : Dispute) (actorId : Uuid) (actorRole : UserRole) :
    Except HttpError Unit :=
  if actorRole = .arbitrator ∧ dispute.arbitratorId ≠ some actorId then
    .error (.forbidden "Arbitrators can only resolve disputes assigned to them")
  else if dispute.status ∉ resolvableStatuses then
    .error (.badRequest s!"Cannot resolve dispute in status: {dispute.status.text}")
  else .ok ()

theorem status_of_accept {d : Dispute} {actorId : Uuid} {actorRole : UserRole}
    (h : resolveDispute.accept d actorId actorRole = .ok ()) : d.status ∈ resolvableStatuses := by
  rw [resolveDispute.accept] at h
  split at h
  · cases h
  · split at h
    · cases h
    · rename_i hin
      exact not_not.mp hin

def resolveDispute.resolved (dispute : Dispute) (dto : ResolveDisputeDto) : Dispute :=
  { dispute with
    status := .resolved
    resolutionType := some dto.resolutionType
    resolutionAmount := dto.resolutionAmount }

/-- Who a resolution pays; a dismissal pays nobody. -/
def payee (dispute : Dispute) : DisputeResolutionType → Option Uuid
  | .refund => some dispute.complainantId
  | .reversal => some dispute.respondentId
  | .settlement => some dispute.complainantId
  | .dismissed => none

/-- The rows `createRemediationTransaction` adds for a dispute. -/
def remediation (dispute : Dispute) (trade : Trade) : List Remediation :=
  match dispute.resolutionType.bind (payee dispute) with
  | none => []
  | some userId =>
    [⟨dispute.id, userId, trade.assetCode, trade.assetIssuer,
      dispute.resolutionAmount.getD trade.quantity⟩]

def executeEnforcement (db : Db) (dispute : Dispute) : Db :=
  if dispute.enforcementExecuted then db
  else if dispute.resolutionType = some .dismissed then
    db.saveDispute { dispute with enforcementExecuted := true }
  else
    match db.trade? dispute.tradeId with
    | none => db
    | some trade =>
      let db := { db with transactions := db.transactions ++ remediation dispute trade }
      db.saveDispute { dispute with enforcementExecuted := true }

def resolveDispute (db : Db) (disputeId actorId : Uuid) (actorRole : UserRole)
    (dto : ResolveDisputeDto) : Db × Except HttpError Unit :=
  match db.dispute? disputeId with
  | none => (db, .error (notFoundDispute disputeId))
  | some dispute =>
    match resolveDispute.accept dispute actorId actorRole with
    | .error e => (db, .error e)
    | .ok () =>
      let saved := resolveDispute.resolved dispute dto
      let db := releaseAssigned (db.saveDispute saved) saved.arbitratorId
      (executeEnforcement db saved, .ok ())

def appealDispute.accept (dispute : Dispute) (userId : Uuid) : Except HttpError Unit :=
  if dispute.complainantId ≠ userId ∧ dispute.respondentId ≠ userId then
    .error (.forbidden "Only dispute parties can file an appeal")
  else if dispute.status ≠ .resolved then
    .error (.badRequest "Appeals can only be filed on resolved disputes")
  else if dispute.appealed then .error (.badRequest "Only one appeal is allowed per dispute")
  else .ok ()

def appealDispute.reopened (dispute : Dispute) : Dispute :=
  { dispute with appealed := true, status := .appealed, enforcementExecuted := false }

def appealDispute (db : Db) (order : Nat) (disputeId userId : Uuid) : Db × Except HttpError Unit :=
  match db.dispute? disputeId with
  | none => (db, .error (notFoundDispute disputeId))
  | some dispute =>
    match appealDispute.accept dispute userId with
    | .error e => (db, .error e)
    | .ok () =>
      let saved := appealDispute.reopened dispute
      (assignDispute (db.saveDispute saved) order saved .arbitration, .ok ())

end Disputes
end TradeCore
