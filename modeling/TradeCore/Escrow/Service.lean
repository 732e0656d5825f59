import TradeCore.Escrow.Entities

/-!
# TradeCore.Escrow.Service

The operations of `EscrowService`. Each one reads the row of the escrow, decides from what it read,
and writes later. The decision is a function of the rows read (`refundEscrow.entity`,
`releaseFunds.plan`, ...) that either refuses the request or gives what is to be written, so that
the same function serves a run of whole requests and a run that interleaves reads and writes.

* Operations that end in `repository.save(escrow)` decide the whole entity to write back and share
  `Store.saveWith`.
* `releaseFunds` writes with a guarded `UPDATE` (`releaseFunds.commit`).
* `approveEscrow` writes the signatory row and possibly the escrow row (`approveEscrow.commit`).

`now` is the clock; `fault` is a transaction that aborts.
-/

namespace TradeCore
namespace Escrow

open Lib

/-! ## Helpers -/

def getEscrowOrThrow (db : Db) (id : Uuid) : Except HttpError EscrowAccount :=
  match db.escrow? id with
  | some escrow => .ok escrow
  | none => .error (.notFound s!"Escrow account {id} not found")

structure ApprovalProgress where
  current : Nat
  required : Nat
  percentage : Nat
  isThresholdMet : Bool
  deriving DecidableEq

def approvedCount (signatories : List EscrowSignatory) : Nat :=
  signatories.countP (·.hasApproved)

def calculateApprovalProgress (signatories : List EscrowSignatory) (requiredSignatures : Nat) :
    ApprovalProgress where
  current := approvedCount signatories
  required := requiredSignatures
  -- `Math.round` of the exact quotient
  percentage := (200 * approvedCount signatories + requiredSignatures) / (2 * requiredSignatures)
  isThresholdMet := requiredSignatures ≤ approvedCount signatories

def assertSignatory (signatories : List EscrowSignatory) (userId : Uuid) :
    Except HttpError EscrowSignatory :=
  match signatories.find? (·.userId = userId) with
  | some signatory => .ok signatory
  | none => .error (.forbidden "You are not a signatory on this escrow")

/-- A transaction that aborts: at one of its inserts, or at the commit, when the events of the
request have already been emitted. -/
inductive TxFault where
  | insert
  | commit
  deriving DecidableEq, Repr

/-- What an interleaved step learns from outside: the clock, and whether its transaction aborts. -/
structure Env where
  now : Time
  fault : Option TxFault

/-- Save the entity, if there is one, then record its timeline entries and emit its events. -/
def Store.saveWith (st : Store) (entity : Except HttpError EscrowAccount)
    (timeline : EscrowAccount → List EscrowTimeline) (events : EscrowAccount → List EscrowEvent) :
    Store × Except HttpError EscrowAccount :=
  match entity with
  | .error e => (st, .error e)
  | .ok escrow =>
    match st.db.saveEscrow escrow with
    | .error e => (st, .error e)
    | .ok db => (⟨db.addEvents (timeline escrow), st.emitted ++ events escrow⟩, .ok escrow)

/-- Read the escrow and decide the entity to write back. -/
def decideOn (db : Db) (escrowId : Uuid) (entity : EscrowAccount → Except HttpError EscrowAccount) :
    Except HttpError EscrowAccount :=
  match getEscrowOrThrow db escrowId with
  | .error e => .error e
  | .ok escrow => entity escrow

/-! ## Create -/

structure SignatoryInput where
  userId : Uuid
  role : SignatoryRole

structure MilestoneInput where
  title : String
  orderIndex : Nat
  amount : JsNumber

/-- An optional date of a request: missing, present but empty, or a date. -/
inductive DateInput where
  | undefined
  | empty
  | date (t : Time)
  deriving DecidableEq

def DateInput.toDate : DateInput → Option Time
  | .date t => some t
  | _ => none

structure CreateEscrowDto where
  type : EscrowType
  requiredSignatures : Nat
  assetCode : String
  amount : JsNumber
  settlementDeadline : DateInput
  timeLockExpiry : DateInput
  signatories : List SignatoryInput
  milestones : Option (List MilestoneInput)

/-- The keys the database generates for the new rows. -/
structure NewIds where
  escrowId : Uuid
  milestoneId : Nat → Uuid

def DEFAULT_SETTLEMENT_WINDOW_MS : Time := 7 * 24 * 60 * 60 * 1000

def MAX_ACTIVE_ESCROWS_PER_USER : Nat := 50

def milestoneTotal (milestones : List MilestoneInput) : ℚ := (milestones.map (·.amount.value)).sum

/-- The validation of `createEscrow` before it reads the database. -/
def createEscrow.validate (dto : CreateEscrowDto) : Except HttpError Unit :=
  if dto.signatories.length < dto.requiredSignatures then
    .error (.badRequest s!"requiredSignatures ({dto.requiredSignatures}) cannot exceed the number of signatories ({dto.signatories.length})")
  else if dto.type = .timeLocked ∧ dto.timeLockExpiry.toDate = none then
    .error (.badRequest "timeLockExpiry is required for TIME_LOCKED escrow type")
  else if dto.type = .milestoneBased then
    match dto.milestones with
    | none | some [] =>
      .error (.badRequest "At least one milestone is required for MILESTONE_BASED escrow type")
    | some milestones =>
      if 1 / 10 ^ 7 < |milestoneTotal milestones - dto.amount.value| then
        .error (.badRequest s!"Milestone amounts ({milestoneTotal milestones}) must sum to the escrow amount ({String.ofList dto.amount.text})")
      else .ok ()
  else .ok ()

def createEscrow.row (userId : Uuid) (dto : CreateEscrowDto) (amount : Numeric) (ids : NewIds)
    (now : Time) : EscrowAccount where
  id := ids.escrowId
  creatorId := userId
  type := dto.type
  status := .pending
  requiredSignatures := dto.requiredSignatures
  totalSignatories := dto.signatories.length
  assetCode := dto.assetCode
  amount := amount
  releasedAmount := Numeric.zero
  settlementDeadline :=
    match dto.settlementDeadline with
    | .date t => some t
    | .undefined => some (now + DEFAULT_SETTLEMENT_WINDOW_MS)
    | .empty => none
  timeLockExpiry := dto.timeLockExpiry.toDate
  disputeId := none
  fundingTxHash := none
  settlementTxHash := none
  fundedAt := none
  settledAt := none
  refundedAt := none

def createEscrow.signatoryRow (escrowId : Uuid) (s : SignatoryInput) : EscrowSignatory where
  escrowAccountId := escrowId
  userId := s.userId
  role := s.role
  hasApproved := false
  approvedAt := none
  revokedAt := none
  approvalIpAddress := none

def createEscrow.milestoneRow? (escrowId : Uuid) (m : MilestoneInput) (id : Uuid) :
    Option EscrowMilestone :=
  (SqlNumeric.ofText? 30 7 m.amount.text).map fun amount =>
    { id := id, escrowAccountId := escrowId, title := m.title, orderIndex := m.orderIndex,
      amount := amount, isCompleted := false, completedAt := none, completedBy := none }

/-- The inserts of the transaction; an error rolls all of them back. -/
def createEscrow.insert (db : Db) (userId : Uuid) (dto : CreateEscrowDto) (ids : NewIds)
    (now : Time) : Except HttpError (Db × EscrowAccount) :=
  match SqlNumeric.ofText? 30 7 dto.amount.text,
      ((dto.milestones.getD []).mapIdx fun i m =>
        createEscrow.milestoneRow? ids.escrowId m (ids.milestoneId i)).allSome with
  | some amount, some milestones =>
    let escrow := createEscrow.row userId dto amount ids now
    let signatories := dto.signatories.map (createEscrow.signatoryRow ids.escrowId)
    if db.escrow? ids.escrowId ≠ none ∨ ¬ (signatories.map EscrowSignatory.key).Nodup ∨
        ¬ ((milestones ++ db.milestones).map EscrowMilestone.id).Nodup then
      .error (.internal "duplicate key value violates unique constraint")
    else
      match db.saveEscrow escrow with
      | .error e => .error e
      | .ok db' =>
        .ok ({ db' with
          signatories := db'.signatories ++ signatories
          milestones := db'.milestones ++ milestones }, escrow)
  | _, _ => .error (.internal "invalid input syntax for type numeric")

def createEscrow (st : Store) (userId : Uuid) (dto : CreateEscrowDto) (ids : NewIds) (now : Time) :
    Store × Except HttpError EscrowAccount :=
  match createEscrow.validate dto with
  | .error e => (st, .error e)
  | .ok () =>
    if MAX_ACTIVE_ESCROWS_PER_USER ≤
        st.db.escrows.countP (fun e => e.creatorId = userId ∧ e.status = .pending) then
      (st, .error (.badRequest s!"Maximum of {MAX_ACTIVE_ESCROWS_PER_USER} active escrows exceeded"))
    else
      match createEscrow.insert st.db userId dto ids now with
      | .error e => (st, .error e)
      | .ok (db, escrow) =>
        (⟨db.addEvents [⟨escrow.id, .escrowCreated, userId,
            s!"Escrow created: {String.ofList dto.amount.text} {dto.assetCode} ({dto.type.text})"⟩],
          st.emitted ++ [.created escrow.id userId dto.type]⟩, .ok escrow)

/-! ## Approve and revoke -/

structure ApproveEscrowDto where
  note : Option String
  deriving DecidableEq

/-- An empty note is as good as none. -/
def ApproveEscrowDto.noteText (dto : ApproveEscrowDto) : String :=
  match dto.note with
  | none => ""
  | some n => if n = "" then "" else ": " ++ n

/-- The first read of `approveEscrow`: the escrow row and its status. -/
def approveEscrow.admit (db : Db) (escrowId : Uuid) : Except HttpError EscrowAccount :=
  match getEscrowOrThrow db escrowId with
  | .error e => .error e
  | .ok escrow =>
    if escrow.status ≠ .funded ∧ escrow.status ≠ .approved then
      .error (.badRequest s!"Cannot approve escrow in status: {escrow.status.text}. Must be in FUNDED status.")
    else .ok escrow

/-- The second read: the signatory rows, among them the caller's. -/
def approveEscrow.own (signatories : List EscrowSignatory) (userId : Uuid) :
    Except HttpError EscrowSignatory :=
  match assertSignatory signatories userId with
  | .error e => .error e
  | .ok signatory =>
    if signatory.hasApproved then .error (.conflict "You have already approved this escrow")
    else .ok signatory

def approveEscrow.mark (signatory : EscrowSignatory) (ipAddress : Option String) (now : Time) :
    EscrowSignatory :=
  { signatory with hasApproved := true, approvedAt := some now, approvalIpAddress := ipAddress }

/-- The signatory list the threshold is computed from: the rows that were read, the caller's own
object marked in place. -/
def approveEscrow.marked (signatories : List EscrowSignatory) (userId : Uuid)
    (ipAddress : Option String) (now : Time) : List EscrowSignatory :=
  match signatories with
  | [] => []
  | s :: rest =>
    if s.userId = userId then approveEscrow.mark s ipAddress now :: rest
    else s :: approveEscrow.marked rest userId ipAddress now

/-- The transaction of `approveEscrow`, on the rows read before it. -/
def approveEscrow.commit (st : Store) (escrow : EscrowAccount) (signatories : List EscrowSignatory)
    (signatory : EscrowSignatory) (userId : Uuid) (dto : ApproveEscrowDto)
    (ipAddress : Option String) (now : Time) (fault : Option TxFault) :
    Store × Except HttpError Unit :=
  let own := approveEscrow.mark signatory ipAddress now
  let db := (st.db.saveSignatory own).addEvents
    [⟨escrow.id, .signatoryApproved, userId, s!"Signature recorded from {own.role.text}{dto.noteText}"⟩]
  let progress := calculateApprovalProgress
    (approveEscrow.marked signatories userId ipAddress now) escrow.requiredSignatures
  if fault = some .insert then (st, .error (.internal "transaction aborted"))
  else if progress.isThresholdMet ∧ escrow.status ≠ .approved then
    match db.saveEscrow { escrow with status := .approved } with
    | .error e => (st, .error e)
    | .ok db' =>
      let emitted := st.emitted ++
        [.signatureThresholdReached escrow.id progress.current progress.required]
      if fault = some .commit then (⟨st.db, emitted⟩, .error (.internal "transaction aborted"))
      else
        (⟨db'.addEvents [⟨escrow.id, .signatureThresholdReached, userId,
            s!"Signature threshold reached: {progress.current}/{progress.required}"⟩], emitted⟩,
          .ok ())
  else if fault = some .commit then (st, .error (.internal "transaction aborted"))
  else (⟨db, st.emitted⟩, .ok ())

def approveEscrow (st : Store) (escrowId userId : Uuid) (dto : ApproveEscrowDto)
    (ipAddress : Option String) (now : Time) : Store × Except HttpError Unit :=
  match approveEscrow.admit st.db escrowId with
  | .error e => (st, .error e)
  | .ok escrow =>
    let signatories := st.db.signatoriesOf escrowId
    match approveEscrow.own signatories userId with
    | .error e => (st, .error e)
    | .ok signatory => approveEscrow.commit st escrow signatories signatory userId dto ipAddress now none

def revokeApproval.admit (db : Db) (escrowId : Uuid) : Except HttpError EscrowAccount :=
  match getEscrowOrThrow db escrowId with
  | .error e => .error e
  | .ok escrow =>
    if escrow.status ≠ .funded then
      .error (.badRequest s!"Cannot revoke approval on escrow in status: {escrow.status.text}")
    else .ok escrow

def revokeApproval.own (signatories : List EscrowSignatory) (userId : Uuid) :
    Except HttpError EscrowSignatory :=
  match assertSignatory signatories userId with
  | .error e => .error e
  | .ok signatory =>
    if ¬ signatory.hasApproved then .error (.badRequest "You have not approved this escrow")
    else .ok signatory

def revokeApproval.mark (signatory : EscrowSignatory) (now : Time) : EscrowSignatory :=
  { signatory with hasApproved := false, revokedAt := some now, approvedAt := none }

def revokeApproval.commit (st : Store) (escrow : EscrowAccount) (signatory : EscrowSignatory)
    (userId : Uuid) (now : Time) : Store × Except HttpError Unit :=
  let own := revokeApproval.mark signatory now
  (⟨(st.db.saveSignatory own).addEvents
      [⟨escrow.id, .signatoryRevoked, userId, s!"Signature revoked by {own.role.text}"⟩],
    st.emitted⟩, .ok ())

def revokeApproval (st : Store) (escrowId userId : Uuid) (now : Time) :
    Store × Except HttpError Unit :=
  match revokeApproval.admit st.db escrowId with
  | .error e => (st, .error e)
  | .ok escrow =>
    match revokeApproval.own (st.db.signatoriesOf escrowId) userId with
    | .error e => (st, .error e)
    | .ok signatory => revokeApproval.commit st escrow signatory userId now

/-! ## Fund -/

def fundEscrow.entity (userId : Uuid) (txHash : String) (now : Time) (escrow : EscrowAccount) :
    Except HttpError EscrowAccount :=
  if escrow.status ≠ .pending then
    .error (.badRequest s!"Cannot fund escrow in status: {escrow.status.text}")
  else if escrow.creatorId ≠ userId then
    .error (.forbidden "Only the creator can fund the escrow")
  else .ok { escrow with status := .funded, fundedAt := some now, fundingTxHash := some txHash }

def fundEscrow (st : Store) (escrowId userId : Uuid) (txHash : String) (now : Time) :
    Store × Except HttpError EscrowAccount :=
  st.saveWith (decideOn st.db escrowId (fundEscrow.entity userId txHash now))
    (fun e => [⟨escrowId, .escrowFunded, userId,
      s!"Escrow funded: {String.ofList e.amount.text} {e.assetCode}"⟩])
    (fun e => [.funded e.id e.amount e.assetCode])

/-! ## Release -/

structure ReleaseFundsDto where
  amount : Option JsNumber
  milestoneId : Option Uuid

/-- What a release that passed its checks is about to write. -/
structure ReleasePlan where
  escrow : EscrowAccount
  releaseStroops : Int
  remainingStroops : Int
  expectedReleased : List Char
  newReleased : List Char
  isFullySettled : Bool
  settledAt : Option Time
  settlementTxHash : Option String

def ReleasePlan.status (plan : ReleasePlan) : EscrowStatus :=
  if plan.isFullySettled then .settled else .partiallyReleased

def syntaxError : HttpError := .internal "SyntaxError: Cannot convert to a BigInt"

def releaseFunds.checkStatus (escrow : EscrowAccount) (signatories : List EscrowSignatory)
    (userRole : UserRole) : Except HttpError Unit :=
  let isForceRelease := userRole = .admin
  let progress := calculateApprovalProgress signatories escrow.requiredSignatures
  if ¬ isForceRelease ∧ escrow.status ≠ .approved ∧ escrow.status ≠ .partiallyReleased then
    .error (.badRequest s!"Cannot release funds from escrow in status: {escrow.status.text}")
  else if ¬ isForceRelease ∧ ¬ progress.isThresholdMet then
    .error (.badRequest s!"Signature threshold not yet met ({progress.current}/{progress.required})")
  else .ok ()

def releaseFunds.checkMilestone (milestone? : Uuid → Option EscrowMilestone)
    (milestoneId : Option Uuid) : Except HttpError Unit :=
  match milestoneId with
  | none => .ok ()
  | some id =>
    match milestone? id with
    | none => .error (.notFound s!"Milestone {id} not found")
    | some milestone =>
      if milestone.isCompleted then .ok ()
      else .error (.badRequest "Milestone must be completed before releasing funds")

/-- The amounts of a release in stroops: total, released so far, and to release now. -/
def releaseFunds.stroops (escrow : EscrowAccount) (dto : ReleaseFundsDto) :
    Option (Int × Int × Int) :=
  match toStroops (.text escrow.amount.text), toStroops (.text escrow.releasedAmount.text) with
  | some totalStroops, some releasedStroops =>
    match dto.amount with
    | none => some (totalStroops, releasedStroops, totalStroops - releasedStroops)
    | some x => (toStroops (.number x)).map fun r => (totalStroops, releasedStroops, r)
  | _, _ => none

def releaseFunds.amounts (escrow : EscrowAccount) (dto : ReleaseFundsDto) (now : Time) :
    Except HttpError ReleasePlan :=
  match releaseFunds.stroops escrow dto with
  | none => .error syntaxError
  | some (totalStroops, releasedStroops, releaseStroops) =>
    let remainingStroops := totalStroops - releasedStroops
    if releaseStroops ≤ 0 ∨ remainingStroops < releaseStroops then
      .error (.badRequest s!"Invalid release amount: {String.ofList (fromStroops releaseStroops)}. Remaining: {String.ofList (fromStroops remainingStroops)}")
    else
      let newReleasedStroops := releasedStroops + releaseStroops
      let isFullySettled := decide (newReleasedStroops = totalStroops)
      .ok { escrow := escrow
            releaseStroops := releaseStroops
            remainingStroops := remainingStroops
            expectedReleased := fromStroops releasedStroops
            newReleased := fromStroops newReleasedStroops
            isFullySettled := isFullySettled
            settledAt := if isFullySettled then some now else escrow.settledAt
            settlementTxHash :=
              if isFullySettled then some s!"settlement_{now}" else escrow.settlementTxHash }

/-- Everything `releaseFunds` does between its reads and its transaction. -/
def releaseFunds.plan (db : Db) (escrowId : Uuid) (userRole : UserRole) (dto : ReleaseFundsDto)
    (now : Time) : Except HttpError ReleasePlan :=
  match getEscrowOrThrow db escrowId with
  | .error e => .error e
  | .ok escrow =>
    match releaseFunds.checkStatus escrow (db.signatoriesOf escrowId) userRole with
    | .error e => .error e
    | .ok () =>
      match releaseFunds.checkMilestone (db.milestone? escrowId) dto.milestoneId with
      | .error e => .error e
      | .ok () => releaseFunds.amounts escrow dto now

/-- The guarded `UPDATE ... WHERE id = :id AND releasedAmount = :expectedReleased`. -/
def releaseFunds.update (db : Db) (escrowId : Uuid) (plan : ReleasePlan) : Except HttpError Db :=
  match SqlNumeric.ofText? 30 7 plan.expectedReleased, SqlNumeric.ofText? 30 7 plan.newReleased with
  | some expected, some released =>
    match db.escrow? escrowId with
    | none => .error (.conflict "Escrow was modified concurrently; the release was not applied. Please retry.")
    | some row =>
      if row.releasedAmount = expected then
        db.saveEscrow { row with
          releasedAmount := released
          status := plan.status
          settledAt := plan.settledAt.or row.settledAt
          settlementTxHash := plan.settlementTxHash.or row.settlementTxHash }
      else .error (.conflict "Escrow was modified concurrently; the release was not applied. Please retry.")
  | _, _ => .error (.internal "invalid input syntax for type numeric")

def releaseFunds.timeline (plan : ReleasePlan) (escrowId userId : Uuid) : EscrowTimeline :=
  if plan.isFullySettled then
    ⟨escrowId, .escrowSettled, userId,
      s!"Escrow fully settled: {String.ofList plan.escrow.amount.text} {plan.escrow.assetCode}"⟩
  else
    ⟨escrowId, .partialRelease, userId,
      s!"Partial release: {String.ofList (fromStroops plan.releaseStroops)} {plan.escrow.assetCode}"⟩

def releaseFunds.event (plan : ReleasePlan) (escrowId : Uuid) : EscrowEvent :=
  if plan.isFullySettled then .settled escrowId plan.newReleased
  else .partialRelease escrowId (fromStroops plan.releaseStroops) plan.newReleased

def releaseFunds.commit (st : Store) (escrowId userId : Uuid) (plan : ReleasePlan)
    (fault : Option TxFault) : Store × Except HttpError Int :=
  match releaseFunds.update st.db escrowId plan with
  | .error e => (st, .error e)
  | .ok db =>
    let emitted := st.emitted ++ [releaseFunds.event plan escrowId]
    match fault with
    | some .insert => (st, .error (.internal "transaction aborted"))
    | some .commit => (⟨st.db, emitted⟩, .error (.internal "transaction aborted"))
    | none => (⟨db.addEvents [releaseFunds.timeline plan escrowId userId], emitted⟩,
        .ok plan.releaseStroops)

/-- Returns the stroops released. -/
def releaseFunds (st : Store) (escrowId userId : Uuid) (userRole : UserRole) (dto : ReleaseFundsDto)
    (now : Time) : Store × Except HttpError Int :=
  match releaseFunds.plan st.db escrowId userRole dto now with
  | .error e => (st, .error e)
  | .ok plan => releaseFunds.commit st escrowId userId plan none

/-! ## Refund, timeout and time-lock settlement -/

def refundEscrow.entity (userId : Uuid) (userRole : UserRole) (now : Time) (escrow : EscrowAccount) :
    Except HttpError EscrowAccount :=
  if escrow.status ∉ [.pending, .awaitingFunding, .funded, .expired] then
    .error (.badRequest s!"Cannot refund escrow in status: {escrow.status.text}")
  else if escrow.creatorId ≠ userId ∧ userRole ≠ .admin then
    .error (.forbidden "Only the creator or an admin can refund")
  -- `parseFloat` of a stored amount is positive exactly when it holds a positive number of stroops
  else if 0 < escrow.releasedAmount.stroops then
    .error (.badRequest "Cannot refund escrow with partially released funds. Use releaseFunds for remaining.")
  else .ok { escrow with status := .refunded, refundedAt := some now }

def refundEscrow.save (st : Store) (escrowId userId : Uuid) (entity : Except HttpError EscrowAccount) :
    Store × Except HttpError EscrowAccount :=
  st.saveWith entity
    (fun e => [⟨escrowId, .escrowRefunded, userId,
      s!"Escrow refunded: {String.ofList e.amount.text} {e.assetCode}"⟩])
    (fun e => [.refunded e.id e.amount e.creatorId])

def refundEscrow (st : Store) (escrowId userId : Uuid) (userRole : UserRole) (now : Time) :
    Store × Except HttpError EscrowAccount :=
  refundEscrow.save st escrowId userId
    (decideOn st.db escrowId (refundEscrow.entity userId userRole now))

/-- The first half of `handleTimeout`: the entity saved as EXPIRED. -/
def handleTimeout.expire (now : Time) (escrow : EscrowAccount) : Except HttpError EscrowAccount :=
  match escrow.settlementDeadline with
  | none => .error (.badRequest "Escrow has no settlement deadline")
  | some deadline =>
    if now < deadline then .error (.badRequest "Escrow deadline has not passed yet")
    else if escrow.status ∉ [.pending, .awaitingFunding, .funded] then
      .error (.badRequest s!"Cannot timeout escrow in status: {escrow.status.text}")
    else .ok { escrow with status := .expired }

/-- The second half: the same object saved again as REFUNDED. -/
def handleTimeout.refund (now : Time) (escrow : EscrowAccount) : EscrowAccount :=
  { escrow with status := .refunded, refundedAt := some now }

def handleTimeout.saveExpired (st : Store) (escrowId : Uuid) (entity : Except HttpError EscrowAccount) :
    Store × Except HttpError EscrowAccount :=
  st.saveWith entity
    (fun e => [⟨escrowId, .timeoutTriggered, e.creatorId,
      "Settlement deadline expired without sufficient signatures"⟩])
    (fun e => [.expired e.id e.settlementDeadline])

def handleTimeout.saveRefunded (st : Store) (escrowId : Uuid) (entity : EscrowAccount) :
    Store × Except HttpError EscrowAccount :=
  st.saveWith (.ok entity)
    (fun e => [⟨escrowId, .escrowRefunded, e.creatorId, "Automatic refund triggered by timeout"⟩])
    (fun e => [.refunded e.id e.amount e.creatorId])

/-- `timelineFails`: the timeline entry after the first save cannot be written, and the request
ends there. -/
def handleTimeout (st : Store) (escrowId : Uuid) (now : Time) (timelineFails : Bool) :
    Store × Except HttpError EscrowAccount :=
  match handleTimeout.saveExpired st escrowId (decideOn st.db escrowId (handleTimeout.expire now)) with
  | (st', .error e) => (st', .error e)
  | (st', .ok escrow) =>
    if timelineFails then
      (⟨{ st'.db with timeline := st.db.timeline }, st.emitted⟩,
        .error (.internal "timeline insert failed"))
    else handleTimeout.saveRefunded st' escrowId (handleTimeout.refund now escrow)

def handleTimeLockSettlement.entity (now : Time) (escrow : EscrowAccount) :
    Except HttpError EscrowAccount :=
  if escrow.type ≠ .timeLocked then .error (.badRequest "This is not a time-locked escrow")
  else
    match escrow.timeLockExpiry with
    | none => .error (.badRequest "Escrow has no time-lock expiry")
    | some expiry =>
      if now < expiry then .error (.badRequest "Time-lock has not expired yet")
      else if escrow.status ∉ [.funded, .partiallyReleased] then
        .error (.badRequest s!"Cannot settle time-locked escrow in status: {escrow.status.text}")
      else .ok { escrow with
        releasedAmount := escrow.amount
        status := .settled
        settledAt := some now
        settlementTxHash := some s!"timelock_settlement_{now}" }

def handleTimeLockSettlement.save (st : Store) (escrowId : Uuid)
    (entity : Except HttpError EscrowAccount) : Store × Except HttpError EscrowAccount :=
  st.saveWith entity
    (fun e => [⟨escrowId, .escrowSettled, e.creatorId,
      s!"Time-lock expired. Auto-settled: {String.ofList e.amount.text} {e.assetCode}"⟩])
    (fun e => [.settled e.id e.amount.text])

def handleTimeLockSettlement (st : Store) (escrowId : Uuid) (now : Time) :
    Store × Except HttpError EscrowAccount :=
  handleTimeLockSettlement.save st escrowId
    (decideOn st.db escrowId (handleTimeLockSettlement.entity now))

/-! ## Milestones -/

structure UpdateMilestoneDto where
  isCompleted : Bool

def updateMilestone.admit (db : Db) (escrowId milestoneId userId : Uuid) (userRole : UserRole) :
    Except HttpError (EscrowAccount × EscrowMilestone) :=
  match getEscrowOrThrow db escrowId with
  | .error e => .error e
  | .ok escrow =>
    if escrow.type ≠ .milestoneBased then
      .error (.badRequest "This escrow does not support milestones")
    else if escrow.status ∉ [.funded, .approved, .partiallyReleased] then
      .error (.badRequest s!"Cannot update milestones on escrow in status: {escrow.status.text}")
    else if ¬ (db.signatoriesOf escrowId).any (·.userId = userId) ∧ userRole ≠ .admin then
      .error (.forbidden "Only signatories or admins can update milestones")
    else
      match db.milestone? escrowId milestoneId with
      | none => .error (.notFound s!"Milestone {milestoneId} not found")
      | some milestone => .ok (escrow, milestone)

def updateMilestone (st : Store) (escrowId milestoneId userId : Uuid) (userRole : UserRole)
    (dto : UpdateMilestoneDto) (now : Time) : Store × Except HttpError EscrowMilestone :=
  match updateMilestone.admit st.db escrowId milestoneId userId userRole with
  | .error e => (st, .error e)
  | .ok (escrow, milestone) =>
    if dto.isCompleted ∧ ¬ milestone.isCompleted then
      let milestone' :=
        { milestone with isCompleted := true, completedAt := some now, completedBy := some userId }
      (⟨(st.db.addEvents [⟨escrowId, .milestoneCompleted, userId,
            s!"Milestone completed: {milestone.title} ({String.ofList milestone.amount.text} {escrow.assetCode})"⟩]).saveMilestone milestone',
          st.emitted ++ [.milestoneCompleted escrow.id milestone.id milestone.amount userId]⟩,
        .ok milestone')
    else if ¬ dto.isCompleted ∧ milestone.isCompleted then
      if userRole ≠ .admin then (st, .error (.forbidden "Only admins can uncomplete milestones"))
      else
        let milestone' :=
          { milestone with isCompleted := false, completedAt := none, completedBy := none }
        (⟨st.db.saveMilestone milestone', st.emitted⟩, .ok milestone')
    else (⟨st.db.saveMilestone milestone, st.emitted⟩, .ok milestone)

/-! ## Dispute and cancel -/

structure FlagDisputeDto where
  reason : String

def flagDispute.entity (signatories : List EscrowSignatory) (userId : Uuid) (escrow : EscrowAccount) :
    Except HttpError EscrowAccount :=
  if escrow.status ∉ [.funded, .approved, .partiallyReleased] then
    .error (.badRequest s!"Cannot raise dispute on escrow in status: {escrow.status.text}")
  else if escrow.creatorId ≠ userId ∧ ¬ signatories.any (·.userId = userId) then
    .error (.forbidden "Only escrow parties can raise a dispute")
  else if escrow.disputeId ≠ none then
    .error (.conflict "A dispute is already active on this escrow")
  else .ok { escrow with status := .disputed }

def flagDispute (st : Store) (escrowId userId : Uuid) (dto : FlagDisputeDto) :
    Store × Except HttpError EscrowAccount :=
  st.saveWith (decideOn st.db escrowId (flagDispute.entity (st.db.signatoriesOf escrowId) userId))
    (fun _ => [⟨escrowId, .disputeFlagged, userId, s!"Dispute raised: {dto.reason}"⟩])
    (fun e => [.disputed e.id userId dto.reason])

def resolveDispute.entity (releaseToCreator : Bool) (now : Time) (escrow : EscrowAccount) :
    Except HttpError EscrowAccount :=
  if escrow.status ≠ .disputed then
    .error (.badRequest s!"Cannot resolve dispute on escrow in status: {escrow.status.text}")
  else .ok { escrow with
    status := if releaseToCreator then .refunded else .settled
    refundedAt := if releaseToCreator then some now else none
    settledAt := if releaseToCreator then none else some now
    disputeId := none }

def resolveDispute.save (st : Store) (escrowId userId : Uuid) (releaseToCreator : Bool)
    (entity : Except HttpError EscrowAccount) : Store × Except HttpError EscrowAccount :=
  st.saveWith entity
    (fun _ => [⟨escrowId, .disputeResolved, userId,
      if releaseToCreator then "Dispute resolved: funds refunded to creator"
      else "Dispute resolved: funds settled"⟩])
    (fun _ => [])

def resolveDispute (st : Store) (escrowId userId : Uuid) (releaseToCreator : Bool) (now : Time) :
    Store × Except HttpError EscrowAccount :=
  resolveDispute.save st escrowId userId releaseToCreator
    (decideOn st.db escrowId (resolveDispute.entity releaseToCreator now))

def cancelEscrow.entity (userId : Uuid) (userRole : UserRole) (escrow : EscrowAccount) :
    Except HttpError EscrowAccount :=
  if escrow.status ≠ .pending then
    .error (.badRequest s!"Cannot cancel escrow in status: {escrow.status.text}")
  else if escrow.creatorId ≠ userId ∧ userRole ≠ .admin then
    .error (.forbidden "Only the creator or an admin can perform this action")
  else .ok { escrow with status := .cancelled }

def cancelEscrow (st : Store) (escrowId userId : Uuid) (userRole : UserRole) :
    Store × Except HttpError EscrowAccount :=
  st.saveWith (decideOn st.db escrowId (cancelEscrow.entity userId userRole))
    (fun _ => [⟨escrowId, .escrowCancelled, userId, "Escrow cancelled"⟩])
    (fun e => [.cancelled e.id userId])

end Escrow
end TradeCore
