import TradeCore.Dispute.Service

/-!
# TradeCore.Dispute.Enforcement

`resolveDispute` and `executeEnforcement` with statements that fail. A statement that fails ends the call
and has written nothing; what was saved before stays. `resolveDispute_attempt` says that without failures
these are the operations of `TradeCore.Dispute.Service`.

The row is RESOLVED before anything is enforced, and no RESOLVED dispute is resolved again:
`resolve_settled_iff` says which failures and which disputes leave a resolution that nobody is paid for.
-/

namespace TradeCore
namespace Disputes

open Lib

/-- The statements of a resolution, in their order. -/
inductive Statement where
  | findDispute
  | saveResolved
  | decisionMade
  | statusChanged
  | releaseArbitrator
  | findTrade
  | record
  | saveEnforced
  | enforcementExecuted
  deriving DecidableEq, Repr

section Attempt

variable (fails : Statement → Bool)

def executeEnforcement.mark (db : Db) (dispute : Dispute) : Db × Except HttpError Unit :=
  if fails .saveEnforced then (db, .error databaseError)
  else (db.saveDispute { dispute with enforcementExecuted := true }, .ok ())

def executeEnforcement.attempt (db : Db) (dispute : Dispute) : Db × Except HttpError Unit :=
  if dispute.enforcementExecuted then (db, .ok ())
  else if dispute.resolutionType = some .dismissed then executeEnforcement.mark fails db dispute
  else if fails .findTrade then (db, .error databaseError)
  else
    match db.trade? dispute.tradeId with
    | none => (db, .ok ())
    | some trade =>
      if remediation dispute trade ≠ [] ∧ fails .record then (db, .error databaseError)
      else
        executeEnforcement.mark fails
          { db with transactions := db.transactions ++ remediation dispute trade } dispute

def resolveDispute.attempt (db : Db) (disputeId actorId : Uuid) (actorRole : UserRole)
    (dto : ResolveDisputeDto) : Db × Except HttpError Unit :=
  if fails .findDispute then (db, .error databaseError)
  else
    match db.dispute? disputeId with
    | none => (db, .error (notFoundDispute disputeId))
    | some dispute =>
      match resolveDispute.accept dispute actorId actorRole with
      | .error e => (db, .error e)
      | .ok () =>
        if fails .saveResolved then (db, .error databaseError)
        else
          let saved := resolveDispute.resolved dispute dto
          let db := db.saveDispute saved
          if fails .decisionMade then (db, .error databaseError)
          else if fails .statusChanged then (db, .error databaseError)
          else if saved.arbitratorId ≠ none ∧ fails .releaseArbitrator then (db, .error databaseError)
          else
            match executeEnforcement.attempt fails (releaseAssigned db saved.arbitratorId) saved with
            | (db, .error e) => (db, .error e)
            | (db, .ok ()) =>
              if fails .enforcementExecuted then (db, .error databaseError) else (db, .ok ())

end Attempt

theorem executeEnforcement_attempt (db : Db) (dispute : Dispute) :
    executeEnforcement.attempt (fun _ => false) db dispute = (executeEnforcement db dispute, .ok ()) := by
  simp only [executeEnforcement.attempt, executeEnforcement.mark, executeEnforcement, Bool.false_eq_true,
    and_false, if_false]
  split
  · rfl
  · split
    · rfl
    · cases db.trade? dispute.tradeId <;> rfl

theorem resolveDispute_attempt (db : Db) (disputeId actorId : Uuid) (actorRole : UserRole)
    (dto : ResolveDisputeDto) :
    resolveDispute.attempt (fun _ => false) db disputeId actorId actorRole dto =
      resolveDispute db disputeId actorId actorRole dto := by
  cases hdispute : db.dispute? disputeId with
  | none => simp only [resolveDispute.attempt, resolveDispute, hdispute, Bool.false_eq_true, if_false]
  | some dispute =>
    cases haccept : resolveDispute.accept dispute actorId actorRole with
    | error e =>
      simp only [resolveDispute.attempt, resolveDispute, hdispute, haccept, Bool.false_eq_true, if_false]
    | ok =>
      simp only [resolveDispute.attempt, resolveDispute, hdispute, haccept, executeEnforcement_attempt,
        Bool.false_eq_true, and_false, if_false]

/-! ## What a resolution leaves -/

/-- The resolution of the row has been paid between the two states. -/
def Paid (db db' : Db) (row : Dispute) : Prop :=
  ∃ trade, db.trade? row.tradeId = some trade ∧ db'.transactions = db.transactions ++ remediation row trade

/-- The dispute is RESOLVED and its resolution dismisses it or was enforced, or it can be resolved again. -/
def Settled (enforced : Dispute → Prop) (db' : Db) (disputeId : Uuid) : Prop :=
  ∃ row, db'.dispute? disputeId = some row ∧
    (row.status = .resolved ∧ (row.resolutionType = some .dismissed ∨ enforced row) ∨
      row.status ∈ resolvableStatuses)

/-- Nothing keeps the call from the enforcement. -/
def ReachesEnforcement (fails : Statement → Bool) (dispute : Dispute) : Prop :=
  fails .decisionMade = false ∧ fails .statusChanged = false ∧
    (dispute.arbitratorId = none ∨ fails .releaseArbitrator = false)

/-- Nothing keeps the enforcement from the payment. -/
def ReachesPayment (fails : Statement → Bool) (db : Db) (dispute : Dispute) : Prop :=
  dispute.enforcementExecuted = false ∧ fails .findTrade = false ∧ db.trade? dispute.tradeId ≠ none ∧
    fails .record = false

section Resolution

variable {fails : Statement → Bool} {db : Db} {disputeId actorId : Uuid} {actorRole : UserRole}
  {dto : ResolveDisputeDto} {dispute : Dispute}

theorem dispute?_saveDispute (db : Db) (row : Dispute) (id : Uuid) :
    (db.saveDispute row).dispute? id = if row.id = id then some row else db.dispute? id :=
  lookup_upsert row id db.disputes

theorem releaseAssigned_dispute? (db : Db) (arbitratorId : Option Uuid) (id : Uuid) :
    (releaseAssigned db arbitratorId).dispute? id = db.dispute? id := by
  cases arbitratorId with
  | none => rfl
  | some a =>
    simp only [releaseAssigned, releaseArbitrator]
    split
    · rfl
    · split <;> rfl

theorem releaseAssigned_rest (db : Db) (arbitratorId : Option Uuid) :
    (releaseAssigned db arbitratorId).transactions = db.transactions ∧
      (releaseAssigned db arbitratorId).trades = db.trades := by
  cases arbitratorId with
  | none => exact ⟨rfl, rfl⟩
  | some a =>
    simp only [releaseAssigned, releaseArbitrator]
    split
    · exact ⟨rfl, rfl⟩
    · split <;> exact ⟨rfl, rfl⟩

/-- What an enforcement of `row` leaves of it: whether it was paid, and whether it was marked. -/
structure Outcome (db db' : Db) (row : Dispute) (paid marked : Prop) : Prop where
  dispute : ∃ executed : Bool, db'.dispute? row.id = some { row with enforcementExecuted := executed } ∧
    (executed = true ↔ row.enforcementExecuted = true ∨ marked)
  pays : paid → Paid db db' row
  keeps : ¬ paid → db'.transactions = db.transactions

theorem outcome_of_kept {db db' : Db} {row : Dispute} (hrow : db'.dispute? row.id = some row)
    (htx : db'.transactions = db.transactions) {paid marked : Prop} (hpaid : ¬ paid) (hmarked : ¬ marked) :
    Outcome db db' row paid marked :=
  ⟨⟨row.enforcementExecuted, hrow, by simp [hmarked]⟩, fun h => absurd h hpaid, fun _ => htx⟩

theorem outcome_of_mark {db₀ db : Db} {row : Dispute} (hrow : db.dispute? row.id = some row)
    {paid marked : Prop} (hpaid : paid → Paid db₀ db row)
    (hunpaid : ¬ paid → db.transactions = db₀.transactions) (hmarked : marked ↔ fails .saveEnforced = false) :
    Outcome db₀ (executeEnforcement.mark fails db row).1 row paid marked := by
  unfold executeEnforcement.mark
  split
  next hfail => exact ⟨⟨row.enforcementExecuted, hrow, by simp [hmarked, hfail]⟩, hpaid, hunpaid⟩
  next hok =>
    refine ⟨⟨true, ?_, by simp [hmarked, hok]⟩, hpaid, hunpaid⟩
    rw [dispute?_saveDispute, if_pos rfl]

theorem Outcome.rebase {db₀ db db' : Db} {row : Dispute} {paid marked : Prop}
    (h : Outcome db db' row paid marked) (htx : db.transactions = db₀.transactions)
    (htrade : db.trade? row.tradeId = db₀.trade? row.tradeId) : Outcome db₀ db' row paid marked := by
  refine ⟨h.dispute, fun hpaid => ?_, fun hpaid => (h.keeps hpaid).trans htx⟩
  obtain ⟨trade, hfound, hrecorded⟩ := h.pays hpaid
  exact ⟨trade, htrade ▸ hfound, htx ▸ hrecorded⟩

theorem remediation_ne_nil {row : Dispute} {type : DisputeResolutionType}
    (htype : row.resolutionType = some type) (hne : type ≠ .dismissed) (trade : Trade) :
    remediation row trade ≠ [] := by
  unfold remediation
  rw [htype, Option.bind_some]
  cases type with
  | refund | settlement | reversal => exact List.cons_ne_nil _ _
  | dismissed => exact absurd rfl hne

theorem executeEnforcement_outcome (fails : Statement → Bool) {row : Dispute} (hrow : db.dispute? row.id = some row)
    {type : DisputeResolutionType} (htype : row.resolutionType = some type) :
    Outcome db (executeEnforcement.attempt fails db row).1 row
      (type ≠ .dismissed ∧ ReachesPayment fails db row)
      (fails .saveEnforced = false ∧ row.enforcementExecuted = false ∧
        (type = .dismissed ∨ ReachesPayment fails db row)) := by
  unfold executeEnforcement.attempt ReachesPayment
  simp only [htype, Option.some.injEq]
  split
  next hexecuted => exact outcome_of_kept hrow rfl (by simp [hexecuted]) (by simp [hexecuted])
  next hexecuted =>
    rw [Bool.not_eq_true] at hexecuted
    split
    next hdismissed =>
      exact outcome_of_mark hrow (fun h => absurd hdismissed h.1) (fun _ => rfl)
        (by simp [hexecuted, hdismissed])
    next hne =>
      split
      next hfail => exact outcome_of_kept hrow rfl (by simp [hfail]) (by simp [hfail, hne])
      next hfind =>
        split
        next hnone => exact outcome_of_kept hrow rfl (by simp [hnone]) (by simp [hnone, hne])
        next trade htrade =>
          have hrem := remediation_ne_nil htype hne trade
          split
          next hfail => exact outcome_of_kept hrow rfl (by simp [hfail.2]) (by simp [hfail.2, hne])
          next hrecord =>
            have hok : fails .record = false := by simpa [hrem] using hrecord
            have hrow' : ({ db with transactions := db.transactions ++ remediation row trade } : Db).dispute?
                row.id = some row := hrow
            refine outcome_of_mark hrow' (fun _ => ⟨trade, htrade, rfl⟩) (fun h => absurd ?_ h) ?_
            · simp [hne, hexecuted, hfind, htrade, hok]
            · simp [hne, hexecuted, hfind, htrade, hok]

theorem outcome_of_enforced
    (hrow : (db.saveDispute (resolveDispute.resolved dispute dto)).dispute?
      (resolveDispute.resolved dispute dto).id = some (resolveDispute.resolved dispute dto)) :
    Outcome db
      (match executeEnforcement.attempt fails
          (releaseAssigned (db.saveDispute (resolveDispute.resolved dispute dto))
            (resolveDispute.resolved dispute dto).arbitratorId) (resolveDispute.resolved dispute dto) with
        | (db, .error e) => (db, .error e)
        | (db, .ok ()) =>
          if fails .enforcementExecuted then (db, .error databaseError) else (db, .ok ()) :
          Db × Except HttpError Unit).1
      (resolveDispute.resolved dispute dto)
      (dto.resolutionType ≠ .dismissed ∧ ReachesPayment fails db dispute)
      (fails .saveEnforced = false ∧ dispute.enforcementExecuted = false ∧
        (dto.resolutionType = .dismissed ∨ ReachesPayment fails db dispute)) := by
  generalize hreleased : releaseAssigned (db.saveDispute (resolveDispute.resolved dispute dto))
    (resolveDispute.resolved dispute dto).arbitratorId = released
  have hfound : released.dispute? (resolveDispute.resolved dispute dto).id =
      some (resolveDispute.resolved dispute dto) := by
    rw [← hreleased, releaseAssigned_dispute?]
    exact hrow
  obtain ⟨htx, htrades⟩ := hreleased ▸ releaseAssigned_rest
    (db.saveDispute (resolveDispute.resolved dispute dto)) (resolveDispute.resolved dispute dto).arbitratorId
  have htrade : released.trade? dispute.tradeId = db.trade? dispute.tradeId := by
    simp only [Db.trade?, htrades]
    rfl
  have hreaches : ReachesPayment fails released (resolveDispute.resolved dispute dto) ↔
      ReachesPayment fails db dispute := by
    simp only [ReachesPayment, resolveDispute.resolved, htrade]
  have hout := executeEnforcement_outcome fails hfound (rfl : _ = some dto.resolutionType)
  rw [hreaches] at hout
  have hfst : ∀ x : Db × Except HttpError Unit, (match x with
      | (db, .error e) => (db, .error e)
      | (db, .ok ()) => if fails .enforcementExecuted then (db, .error databaseError) else (db, .ok ()) :
        Db × Except HttpError Unit).1 = x.1 := by
    rintro ⟨db, e | u⟩
    · rfl
    · dsimp only
      split <;> rfl
  rw [hfst]
  exact hout.rebase htx htrade

theorem resolveDispute_outcome (hdispute : db.dispute? disputeId = some dispute)
    (haccept : resolveDispute.accept dispute actorId actorRole = .ok ())
    (hfind : fails .findDispute = false) (hsave : fails .saveResolved = false) :
    Outcome db (resolveDispute.attempt fails db disputeId actorId actorRole dto).1
      (resolveDispute.resolved dispute dto)
      (dto.resolutionType ≠ .dismissed ∧ ReachesEnforcement fails dispute ∧ ReachesPayment fails db dispute)
      (ReachesEnforcement fails dispute ∧ fails .saveEnforced = false ∧ dispute.enforcementExecuted = false ∧
        (dto.resolutionType = .dismissed ∨ ReachesPayment fails db dispute)) := by
  have hrow : (db.saveDispute (resolveDispute.resolved dispute dto)).dispute?
      (resolveDispute.resolved dispute dto).id = some (resolveDispute.resolved dispute dto) := by
    rw [dispute?_saveDispute, if_pos rfl]
  have htx : (db.saveDispute (resolveDispute.resolved dispute dto)).transactions = db.transactions := rfl
  simp only [resolveDispute.attempt, hfind, hsave, hdispute, haccept, Bool.false_eq_true, if_false]
  unfold ReachesEnforcement
  split
  next hfail => exact outcome_of_kept hrow htx (by simp [hfail]) (by simp [hfail])
  next hdecision =>
    split
    next hfail => exact outcome_of_kept hrow htx (by simp [hfail]) (by simp [hfail])
    next hstatus =>
      split
      next hfail =>
        have harbitrator : dispute.arbitratorId ≠ none := hfail.1
        exact outcome_of_kept hrow htx (by simp [harbitrator, hfail.2]) (by simp [harbitrator, hfail.2])
      next hrelease =>
        have hreaches : dispute.arbitratorId = none ∨ fails .releaseArbitrator = false := by
          by_cases h : dispute.arbitratorId = none
          · exact .inl h
          · exact .inr (Bool.not_eq_true _ ▸ fun hfail => hrelease ⟨h, hfail⟩)
        rw [Bool.not_eq_true] at hdecision hstatus
        simp only [hdecision, hstatus, hreaches, true_and]
        exact outcome_of_enforced hrow

theorem Outcome.paid_iff {db' : Db} {row : Dispute} {paid marked : Prop}
    (h : Outcome db db' row paid marked) {type : DisputeResolutionType}
    (htype : row.resolutionType = some type) (hne : type ≠ .dismissed) : Paid db db' row ↔ paid := by
  constructor
  · rintro ⟨trade, -, htx⟩
    by_contra hpaid
    have hnil : db.transactions ++ [] = db.transactions ++ remediation row trade := by
      rw [List.append_nil, ← htx, h.keeps hpaid]
    exact remediation_ne_nil htype hne trade (List.append_cancel_left hnil).symm
  · exact h.pays

theorem settled_iff_of_row {db' : Db} {enforced : Dispute → Prop} {executed : Bool}
    (hrow : db'.dispute? disputeId =
      some { resolveDispute.resolved dispute dto with enforcementExecuted := executed }) :
    Settled enforced db' disputeId ↔
      dto.resolutionType = .dismissed ∨
        enforced { resolveDispute.resolved dispute dto with enforcementExecuted := executed } := by
  constructor
  · rintro ⟨row, hget, hrest⟩
    rw [hrow, Option.some.injEq] at hget
    subst hget
    rcases hrest with ⟨-, hdismissed | henforced⟩ | hmem
    · exact .inl (Option.some.inj hdismissed)
    · exact .inr henforced
    · exact absurd hmem (show DisputeStatus.resolved ∉ resolvableStatuses by decide)
  · intro h
    exact ⟨_, hrow, .inl ⟨rfl, h.imp (congrArg some) id⟩⟩

theorem attempt_unsaved (hfail : fails .findDispute = true ∨ fails .saveResolved = true)
    (hdispute : db.dispute? disputeId = some dispute)
    (haccept : resolveDispute.accept dispute actorId actorRole = .ok ()) :
    (resolveDispute.attempt fails db disputeId actorId actorRole dto).1 = db := by
  unfold resolveDispute.attempt
  split
  · rfl
  next hfind => simp only [hdispute, haccept, hfail.resolve_left hfind, if_true]

/-- A call that is refused changes nothing. -/
theorem attempt_refused (hdispute : db.dispute? disputeId = some dispute) {e : HttpError}
    (hrefuse : resolveDispute.accept dispute actorId actorRole = .error e) :
    (resolveDispute.attempt fails db disputeId actorId actorRole dto).1 = db := by
  unfold resolveDispute.attempt
  split
  · rfl
  · simp only [hdispute, hrefuse]

theorem resolve_settled_iff (hdispute : db.dispute? disputeId = some dispute)
    (haccept : resolveDispute.accept dispute actorId actorRole = .ok ()) :
    let db' := (resolveDispute.attempt fails db disputeId actorId actorRole dto).1
    (Settled (Paid db db') db' disputeId ↔
      fails .findDispute = true ∨ fails .saveResolved = true ∨ dto.resolutionType = .dismissed ∨
        ReachesEnforcement fails dispute ∧ ReachesPayment fails db dispute) ∧
    (Settled (fun row => Paid db db' row ∧ row.enforcementExecuted = true) db' disputeId ↔
      fails .findDispute = true ∨ fails .saveResolved = true ∨ dto.resolutionType = .dismissed ∨
        ReachesEnforcement fails dispute ∧ ReachesPayment fails db dispute ∧ fails .saveEnforced = false) := by
  intro db'
  by_cases hfail : fails .findDispute = true ∨ fails .saveResolved = true
  · have hsame : db' = db := attempt_unsaved hfail hdispute haccept
    have hsettled : ∀ enforced, Settled enforced db' disputeId :=
      fun _ => ⟨dispute, hsame ▸ hdispute, .inr (status_of_accept haccept)⟩
    exact ⟨iff_of_true (hsettled _) (by tauto), iff_of_true (hsettled _) (by tauto)⟩
  · simp only [not_or, Bool.not_eq_true] at hfail
    obtain ⟨hfind, hsave⟩ := hfail
    have hout : Outcome db db' _ _ _ := resolveDispute_outcome hdispute haccept hfind hsave
    obtain ⟨executed, hfound, hexecuted⟩ := hout.dispute
    have hid : dispute.id = disputeId := lookup_key hdispute
    have hrow : db'.dispute? disputeId =
        some { resolveDispute.resolved dispute dto with enforcementExecuted := executed } := by
      rw [← hid]
      exact hfound
    rw [settled_iff_of_row hrow, settled_iff_of_row hrow, hfind, hsave]
    simp only [Bool.false_eq_true, false_or]
    by_cases hdismissed : dto.resolutionType = .dismissed
    · exact ⟨iff_of_true (.inl hdismissed) (.inl hdismissed), iff_of_true (.inl hdismissed) (.inl hdismissed)⟩
    · have hpaid : Paid db db' { resolveDispute.resolved dispute dto with enforcementExecuted := executed } ↔
          _ := hout.paid_iff rfl hdismissed
      have hnot : (resolveDispute.resolved dispute dto).enforcementExecuted = dispute.enforcementExecuted := rfl
      simp only [hdismissed, false_or, hpaid, hexecuted, hnot, ne_eq, not_false_eq_true, true_and]
      constructor
      · rintro ⟨⟨hreach, hpay⟩, hexec | ⟨-, hmark, -⟩⟩
        · exact absurd (hpay.1.symm.trans hexec) Bool.false_ne_true
        · exact ⟨hreach, hpay, hmark⟩
      · rintro ⟨hreach, hpay, hmark⟩
        exact ⟨⟨hreach, hpay⟩, .inr ⟨hreach, hmark, hpay.1, hpay⟩⟩

end Resolution

/-! ## A resolution enforced, and three that are not -/

def underReview : Dispute where
  id := 1
  tradeId := 5
  complainantId := 101
  respondentId := 102
  classification := .fraud
  status := .underReview
  arbitratorId := none
  resolutionType := none
  resolutionAmount := none
  appealed := false
  enforcementExecuted := false
  createdAt := 0

def disputeDb (trades : List Trade) : Db where
  users := []
  trades := trades
  arbitrators := []
  disputes := [underReview]
  transactions := []
  nextId := 2

def disputedTrade : Trade := ⟨5, 101, 102, "XLM", none, 100⟩

def onlyFails (statement : Statement) : Statement → Bool := fun s => s = statement

theorem last_event_fails :
    Settled (Paid (disputeDb [disputedTrade])
        (resolveDispute.attempt (onlyFails .enforcementExecuted) (disputeDb [disputedTrade]) 1 9 .admin
          ⟨.refund, none⟩).1)
      (resolveDispute.attempt (onlyFails .enforcementExecuted) (disputeDb [disputedTrade]) 1 9 .admin
        ⟨.refund, none⟩).1 1 := by
  have hdispute : (disputeDb [disputedTrade]).dispute? 1 = some underReview := rfl
  exact (resolve_settled_iff hdispute rfl).1.mpr (.inr (.inr (.inr
    ⟨⟨rfl, rfl, .inl rfl⟩, rfl, rfl, by decide +kernel, rfl⟩)))

/-- The payment cannot be recorded; an event before the enforcement cannot be; the trade is gone and the
call returns. Each time the dispute is RESOLVED and nobody is paid. -/
theorem resolved_and_unpaid :
    (resolveDispute.attempt (onlyFails .record) (disputeDb [disputedTrade]) 1 9 .admin ⟨.refund, none⟩ =
      ({ disputeDb [disputedTrade] with
          disputes := [{ underReview with status := .resolved, resolutionType := some .refund }] },
        .error databaseError) ∧
      ¬ Settled (Paid (disputeDb [disputedTrade])
          (resolveDispute.attempt (onlyFails .record) (disputeDb [disputedTrade]) 1 9 .admin
            ⟨.refund, none⟩).1)
        (resolveDispute.attempt (onlyFails .record) (disputeDb [disputedTrade]) 1 9 .admin
          ⟨.refund, none⟩).1 1) ∧
    resolveDispute.attempt (onlyFails .decisionMade) (disputeDb [disputedTrade]) 1 9 .admin ⟨.refund, none⟩ =
      ({ disputeDb [disputedTrade] with
          disputes := [{ underReview with status := .resolved, resolutionType := some .refund }] },
        .error databaseError) ∧
    resolveDispute.attempt (fun _ => false) (disputeDb []) 1 9 .admin ⟨.refund, none⟩ =
      ({ disputeDb [] with
          disputes := [{ underReview with status := .resolved, resolutionType := some .refund }] },
        .ok ()) := by
  have hrecord : resolveDispute.attempt (onlyFails .record) (disputeDb [disputedTrade]) 1 9 .admin
      ⟨.refund, none⟩ = ({ disputeDb [disputedTrade] with
          disputes := [{ underReview with status := .resolved, resolutionType := some .refund }] },
        .error databaseError) := by decide +kernel
  refine ⟨⟨hrecord, ?_⟩, by decide +kernel, by decide +kernel⟩
  rw [hrecord]
  rintro ⟨row, hrow, hsettled⟩
  obtain rfl : _ = row := Option.some.inj hrow
  rcases hsettled with ⟨-, hdismissed | ⟨trade, htrade, htx⟩⟩ | hmem
  · cases hdismissed
  · cases htrade
    cases htx
  · exact absurd hmem (show DisputeStatus.resolved ∉ resolvableStatuses by decide)

end Disputes
end TradeCore
