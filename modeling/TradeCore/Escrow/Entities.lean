import TradeCore.Common
import TradeCore.Escrow.Stroops
import TradeCore.Lib.Table

/-!
# TradeCore.Escrow.Entities

The rows of the escrow module, the events it emits and the tables it works on.

Columns that no modelled function reads are left out (addresses, the asset issuer, fees, notes and
metadata). The identity of a signatory row is its unique index `(escrowAccountId, userId)`.

`Db.saveEscrow` is `repository.save`: it writes back every column of the entity it is given, under
the check constraint `CHK_escrow_released_lte_amount`.
-/

namespace TradeCore
namespace Escrow

open Lib

inductive EscrowStatus where
  | pending
  | awaitingFunding
  | funded
  | approved
  | partiallyReleased
  | settled
  | refunded
  | disputed
  | expired
  | cancelled
  deriving DecidableEq, Repr

def EscrowStatus.text : EscrowStatus → String
  | .pending => "pending"
  | .awaitingFunding => "awaiting_funding"
  | .funded => "funded"
  | .approved => "approved"
  | .partiallyReleased => "partially_released"
  | .settled => "settled"
  | .refunded => "refunded"
  | .disputed => "disputed"
  | .expired => "expired"
  | .cancelled => "cancelled"

inductive EscrowType where
  | standard
  | timeLocked
  | milestoneBased
  | trustAccount
  deriving DecidableEq, Repr

def EscrowType.text : EscrowType → String
  | .standard => "standard"
  | .timeLocked => "time_locked"
  | .milestoneBased => "milestone_based"
  | .trustAccount => "trust_account"

inductive SignatoryRole where
  | creator
  | counterparty
  | trustee
  | institutionalRep
  | admin
  deriving DecidableEq, Repr

def SignatoryRole.text : SignatoryRole → String
  | .creator => "creator"
  | .counterparty => "counterparty"
  | .trustee => "trustee"
  | .institutionalRep => "institutional_rep"
  | .admin => "admin"

inductive UserRole where
  | user
  | admin
  | analyst
  | arbitrator
  deriving DecidableEq, Repr

structure EscrowAccount where
  id : Uuid
  creatorId : Uuid
  type : EscrowType
  status : EscrowStatus
  requiredSignatures : Nat
  totalSignatories : Nat
  assetCode : String
  amount : Numeric
  releasedAmount : Numeric
  settlementDeadline : Option Time
  timeLockExpiry : Option Time
  disputeId : Option Uuid
  fundingTxHash : Option String
  settlementTxHash : Option String
  fundedAt : Option Time
  settledAt : Option Time
  refundedAt : Option Time
  deriving DecidableEq

structure EscrowSignatory where
  escrowAccountId : Uuid
  userId : Uuid
  role : SignatoryRole
  hasApproved : Bool
  approvedAt : Option Time
  revokedAt : Option Time
  approvalIpAddress : Option String
  deriving DecidableEq

def EscrowSignatory.key (s : EscrowSignatory) : Uuid × Uuid := (s.escrowAccountId, s.userId)

structure EscrowMilestone where
  id : Uuid
  escrowAccountId : Uuid
  title : String
  orderIndex : Nat
  amount : Numeric
  isCompleted : Bool
  completedAt : Option Time
  completedBy : Option Uuid
  deriving DecidableEq

inductive EscrowTimelineEventType where
  | escrowCreated
  | signatoryApproved
  | signatoryRevoked
  | escrowFunded
  | milestoneCompleted
  | partialRelease
  | escrowSettled
  | escrowRefunded
  | escrowCancelled
  | disputeFlagged
  | disputeResolved
  | timeoutTriggered
  | signatureThresholdReached
  deriving DecidableEq, Repr

structure EscrowTimeline where
  escrowAccountId : Uuid
  eventType : EscrowTimelineEventType
  actorId : Uuid
  description : String
  deriving DecidableEq

/-- What the event emitter sends. -/
inductive EscrowEvent where
  | created (escrowId creatorId : Uuid) (type : EscrowType)
  | funded (escrowId : Uuid) (amount : Numeric) (assetCode : String)
  | signatureThresholdReached (escrowId : Uuid) (currentSignatures requiredSignatures : Nat)
  | settled (escrowId : Uuid) (totalReleased : List Char)
  | partialRelease (escrowId : Uuid) (releaseAmount totalReleased : List Char)
  | refunded (escrowId : Uuid) (amount : Numeric) (refundTo : Uuid)
  | expired (escrowId : Uuid) (deadline : Option Time)
  | milestoneCompleted (escrowId milestoneId : Uuid) (amount : Numeric) (completedBy : Uuid)
  | disputed (escrowId flaggedBy : Uuid) (reason : String)
  | cancelled (escrowId cancelledBy : Uuid)
  deriving DecidableEq

structure Db where
  escrows : List EscrowAccount
  signatories : List EscrowSignatory
  milestones : List EscrowMilestone
  timeline : List EscrowTimeline

/-- The tables and what has been emitted so far. -/
structure Store where
  db : Db
  emitted : List EscrowEvent

def Store.empty : Store := ⟨⟨[], [], [], []⟩, []⟩

namespace Db

def escrow? (db : Db) (id : Uuid) : Option EscrowAccount := lookup EscrowAccount.id id db.escrows

/-- `signatoryRepo.find({ where: { escrowAccountId } })`. -/
def signatoriesOf (db : Db) (escrowId : Uuid) : List EscrowSignatory :=
  db.signatories.filter (·.escrowAccountId = escrowId)

/-- `milestoneRepo.findOne({ where: { id, escrowAccountId } })`. -/
def milestone? (db : Db) (escrowId milestoneId : Uuid) : Option EscrowMilestone :=
  db.milestones.find? fun m => m.id = milestoneId ∧ m.escrowAccountId = escrowId

def saveEscrow (db : Db) (escrow : EscrowAccount) : Except HttpError Db :=
  if escrow.releasedAmount.stroops ≤ escrow.amount.stroops then
    .ok { db with escrows := upsert EscrowAccount.id escrow db.escrows }
  else .error (.internal "CHK_escrow_released_lte_amount")

def saveSignatory (db : Db) (signatory : EscrowSignatory) : Db :=
  { db with signatories := upsert EscrowSignatory.key signatory db.signatories }

def saveMilestone (db : Db) (milestone : EscrowMilestone) : Db :=
  { db with milestones := upsert EscrowMilestone.id milestone db.milestones }

/-- `timelineService.addEvent`. -/
def addEvents (db : Db) (events : List EscrowTimeline) : Db :=
  { db with timeline := db.timeline ++ events }

@[simp] theorem escrow?_addEvents (db : Db) (events : List EscrowTimeline) (id : Uuid) :
    (db.addEvents events).escrow? id = db.escrow? id := rfl

@[simp] theorem escrow?_saveSignatory (db : Db) (s : EscrowSignatory) (id : Uuid) :
    (db.saveSignatory s).escrow? id = db.escrow? id := rfl

@[simp] theorem escrow?_saveMilestone (db : Db) (m : EscrowMilestone) (id : Uuid) :
    (db.saveMilestone m).escrow? id = db.escrow? id := rfl

theorem escrow?_id {db : Db} {id : Uuid} {row : EscrowAccount} (h : db.escrow? id = some row) :
    row.id = id := lookup_key h

theorem escrow?_saveEscrow {db db' : Db} {escrow : EscrowAccount} (h : db.saveEscrow escrow = .ok db')
    (id : Uuid) : db'.escrow? id = if escrow.id = id then some escrow else db.escrow? id := by
  unfold saveEscrow at h
  split at h
  · cases h; exact lookup_upsert escrow id db.escrows
  · cases h

theorem saveEscrow_signatories {db db' : Db} {escrow : EscrowAccount}
    (h : db.saveEscrow escrow = .ok db') : db'.signatories = db.signatories := by
  unfold saveEscrow at h
  split at h
  · cases h; rfl
  · cases h

theorem saveEscrow_check {db db' : Db} {escrow : EscrowAccount} (h : db.saveEscrow escrow = .ok db') :
    escrow.releasedAmount.stroops ≤ escrow.amount.stroops := by
  unfold saveEscrow at h
  split at h
  · assumption
  · cases h

end Db

end Escrow
end TradeCore
