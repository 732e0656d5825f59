import TradeCore.Escrow.Lifecycle
import TradeCore.Lib.Interleave

/-!
# TradeCore.Escrow.Payout

The operations that move funds, interleaved. A call first reads (the escrow row, the signatories
and the milestone, then decides), and writes in a later step: `releaseFunds` with its guarded
update, every other operation by saving the whole entity it read, `handleTimeout` twice.

A finished call is `paid k x` when it paid `x` stroops out of escrow `k`: a release pays what it
released, any other operation the remainder of the row it read.
-/

namespace TradeCore
namespace Escrow

open Lib

inductive FundOp where
  | releaseFunds (escrowId userId : Uuid) (userRole : UserRole) (dto : ReleaseFundsDto)
  | refundEscrow (escrowId userId : Uuid) (userRole : UserRole)
  | handleTimeout (escrowId : Uuid)
  | handleTimeLockSettlement (escrowId : Uuid)
  | resolveDispute (escrowId userId : Uuid) (releaseToCreator : Bool)

/-- The operations whose write is one save that closes the escrow. -/
inductive Closing where
  | refundEscrow (userId : Uuid)
  | handleTimeLockSettlement
  | resolveDispute (userId : Uuid) (releaseToCreator : Bool)

/-- Where a call stands; `seen` is the row it read, `entity` what it will save. -/
inductive Call where
  | start (op : FundOp)
  | release (escrowId userId : Uuid) (plan : ReleasePlan)
  | close (escrowId : Uuid) (op : Closing) (seen entity : EscrowAccount)
  | expire (escrowId : Uuid) (seen entity : EscrowAccount)
  | refundExpired (escrowId : Uuid) (seen entity : EscrowAccount)

inductive Outcome where
  | paid (escrowId : Uuid) (stroops : Int)
  | failed (e : HttpError)

/-- Read the row and decide the entity to save. -/
def readEntity (st : Store) (escrowId : Uuid) (f : EscrowAccount → Except HttpError EscrowAccount)
    (next : EscrowAccount → EscrowAccount → Call) : Task Call Outcome :=
  match getEscrowOrThrow st.db escrowId with
  | .error e => .done (.failed e)
  | .ok seen =>
    match f seen with
    | .error e => .done (.failed e)
    | .ok entity => .running (next seen entity)

def readStep (env : Env) (st : Store) : FundOp → Task Call Outcome
  | .releaseFunds k u role dto =>
    match releaseFunds.plan st.db k role dto env.now with
    | .error e => .done (.failed e)
    | .ok plan => .running (.release k u plan)
  | .refundEscrow k u role =>
    readEntity st k (refundEscrow.entity u role env.now) (.close k (.refundEscrow u))
  | .handleTimeout k => readEntity st k (handleTimeout.expire env.now) (.expire k)
  | .handleTimeLockSettlement k =>
    readEntity st k (handleTimeLockSettlement.entity env.now) (.close k .handleTimeLockSettlement)
  | .resolveDispute k u b =>
    readEntity st k (resolveDispute.entity b env.now) (.close k (.resolveDispute u b))

def saveClosing (st : Store) (k : Uuid) (entity : EscrowAccount) :
    Closing → Store × Except HttpError EscrowAccount
  | .refundEscrow u => refundEscrow.save st k u (.ok entity)
  | .handleTimeLockSettlement => handleTimeLockSettlement.save st k (.ok entity)
  | .resolveDispute u b => resolveDispute.save st k u b (.ok entity)

/-- What the creator or the counterparty gets when the escrow is closed on the row `seen`. -/
def EscrowAccount.remainder (seen : EscrowAccount) : Int :=
  seen.amount.stroops - seen.releasedAmount.stroops

/-- A save that ends the call. -/
def finish (k : Uuid) (seen : EscrowAccount) :
    Store × Except HttpError EscrowAccount → Store × Task Call Outcome
  | (st, .ok _) => (st, .done (.paid k seen.remainder))
  | (st, .error e) => (st, .done (.failed e))

def advance (env : Env) (c : Call) (st : Store) : Store × Task Call Outcome :=
  match c with
  | .start op => (st, readStep env st op)
  | .release k u plan =>
    match releaseFunds.commit st k u plan env.fault with
    | (st', .ok x) => (st', .done (.paid k x))
    | (st', .error e) => (st', .done (.failed e))
  | .close k op seen entity => finish k seen (saveClosing st k entity op)
  | .expire k seen entity =>
    match handleTimeout.saveExpired st k (.ok entity) with
    | (st', .ok e) => (st', .running (.refundExpired k seen (handleTimeout.refund env.now e)))
    | (st', .error e) => (st', .done (.failed e))
  | .refundExpired k seen entity => finish k seen (handleTimeout.saveRefunded st k entity)

def fundProc : Proc Store Env FundOp Call Outcome := ⟨.start, advance⟩

/-! ## Calls by themselves -/

def FundOp.whole (now : Time) : FundOp → Op
  | .releaseFunds k u role dto => .releaseFunds k u role dto now
  | .refundEscrow k u role => .refundEscrow k u role now
  | .handleTimeout k => .handleTimeout k now false
  | .handleTimeLockSettlement k => .handleTimeLockSettlement k now
  | .resolveDispute k u b => .resolveDispute k u b now

/-- Reading and saving at once. -/
theorem close_alone {k : Uuid} {f : EscrowAccount → Except HttpError EscrowAccount} {op : Closing}
    (st : Store) (save : Except HttpError EscrowAccount → Store × Except HttpError EscrowAccount)
    (hsave : ∀ entity, save (.ok entity) = saveClosing st k entity op)
    (hfail : ∀ e, save (.error e) = (st, .error e)) (es : List Env) (env : Env) :
    ∃ r, fundProc.alone (env :: es) st (readEntity st k f (.close k op)) =
      ((save (decideOn st.db k f)).1, .done r) := by
  unfold readEntity decideOn
  cases hrow : getEscrowOrThrow st.db k with
  | error e => simp [hfail]
  | ok seen =>
    cases hf : f seen with
    | error e => simp [hf, hfail]
    | ok entity =>
      simp only [hf, hsave, fundProc, Proc.alone, advance]
      cases hs : saveClosing st k entity op with
      | mk st' res => cases res <;> simp [finish]

theorem timeout_alone (st : Store) (k : Uuid) (now : Time) :
    ∃ r, fundProc.alone [⟨now, none⟩, ⟨now, none⟩] st
        (readEntity st k (handleTimeout.expire now) (.expire k)) =
      ((handleTimeout st k now false).1, .done r) := by
  unfold readEntity handleTimeout decideOn
  cases hrow : getEscrowOrThrow st.db k with
  | error e => simp [handleTimeout.saveExpired, Store.saveWith]
  | ok seen =>
    cases hf : handleTimeout.expire now seen with
    | error e => simp [hf, handleTimeout.saveExpired, Store.saveWith]
    | ok entity =>
      simp only [hf, fundProc, Proc.alone, advance]
      cases hs : handleTimeout.saveExpired st k (.ok entity) with
      | mk st' res =>
        cases res with
        | error e => simp
        | ok escrow =>
          simp only [Proc.alone, advance, Bool.false_eq_true, if_false]
          cases hr : handleTimeout.saveRefunded st' k (handleTimeout.refund now escrow) with
          | mk st'' res' => cases res' <;> simp [finish]

theorem fund_alone (st : Store) (op : FundOp) (now : Time) :
    ∃ r, fundProc.alone [⟨now, none⟩, ⟨now, none⟩, ⟨now, none⟩] st (.running (.start op)) =
      (step st (op.whole now), .done r) := by
  cases op with
  | releaseFunds k u role dto =>
    simp only [fundProc, Proc.alone, advance, readStep, FundOp.whole, step, releaseFunds]
    cases hplan : releaseFunds.plan st.db k role dto now with
    | error e => simp
    | ok plan =>
      simp only [Proc.alone, advance]
      cases hc : releaseFunds.commit st k u plan none with
      | mk st' res => cases res <;> simp
  | refundEscrow k u role =>
    exact close_alone st (refundEscrow.save st k u) (fun _ => rfl) (fun _ => rfl) _ _
  | handleTimeout k => exact timeout_alone st k now
  | handleTimeLockSettlement k =>
    exact close_alone st (handleTimeLockSettlement.save st k) (fun _ => rfl) (fun _ => rfl) _ _
  | resolveDispute k u b =>
    exact close_alone st (resolveDispute.save st k u b) (fun _ => rfl) (fun _ => rfl) _ _

/-- **The runs of whole calls are among the interleavings.** -/
theorem fund_serial (st : Store) (ops : List (FundOp × Time)) :
    ∃ acts, (run fundProc.step (Conf.init st) acts).Quiet ∧
      (run fundProc.step (Conf.init st) acts).shared =
        run (fun st op => step st (op.1.whole op.2)) st ops := by
  refine serial_run fundProc (fun st op => ?_) ops (Conf.init st) fun t ht => by cases ht
  obtain ⟨r, hr⟩ := fund_alone st op.1 op.2
  exact ⟨op.1, _, r, hr⟩

/-! ## Payments -/

def paidBy (k : Uuid) : Task Call Outcome → Int
  | .done (.paid k' x) => if k' = k then x else 0
  | _ => 0

/-- The stroops paid out of escrow `k` by the calls so far. -/
def paid (k : Uuid) (ts : List (Task Call Outcome)) : Int := (ts.map (paidBy k)).sum

@[simp] theorem paid_nil (k : Uuid) : paid k [] = 0 := rfl

theorem paid_append (k : Uuid) (ts us : List (Task Call Outcome)) :
    paid k (ts ++ us) = paid k ts + paid k us := by
  simp [paid]

theorem paid_split (k : Uuid) (pre post : List (Task Call Outcome)) (t : Task Call Outcome) :
    paid k (pre ++ t :: post) = paid k pre + paidBy k t + paid k post := by
  simp [paid, Int.add_assoc]

/-- Replacing a running call adds what it pays. -/
theorem paid_replace (k : Uuid) (pre post : List (Task Call Outcome)) (c : Call)
    (t : Task Call Outcome) :
    paid k (pre ++ t :: post) = paid k (pre ++ .running c :: post) + paidBy k t := by
  simp only [paid_split, paidBy]
  omega

@[simp] theorem paidBy_running (k : Uuid) (c : Call) : paidBy k (.running c) = 0 := rfl

@[simp] theorem paidBy_paid (k : Uuid) (x : Int) : paidBy k (.done (.paid k x)) = x := by
  simp [paidBy]

theorem paidBy_eq_zero {k : Uuid} {t : Task Call Outcome} (h : ∀ x, t ≠ .done (.paid k x)) :
    paidBy k t = 0 := by
  unfold paidBy
  split
  · rename_i k' x
    split
    · rename_i hk
      exact absurd (hk ▸ rfl) (h x)
    · rfl
  · rfl

/-! ## What one step can do to one escrow -/

def closedStatuses : List EscrowStatus := [.settled, .refunded]

/-- What a call on its way holds: it writes under its own key, and a call on escrow `k` has read,
and writes back, the amount of that escrow. -/
def Call.Holds (k : Uuid) (amount : Numeric) : Call → Prop
  | .start _ => True
  | .release k' _ plan => k' = k → PlanOk plan.escrow plan ∧ plan.escrow.amount = amount
  | .close k' _ seen entity => entity.id = k' ∧ (k' = k → seen.amount = amount ∧
      entity.amount = amount ∧ entity.status ∈ closedStatuses)
  | .expire k' seen entity => entity.id = k' ∧ (k' = k → seen.amount = amount ∧
      entity.amount = amount ∧ entity.releasedAmount = seen.releasedAmount ∧
      entity.status = .expired)
  | .refundExpired k' seen entity => entity.id = k' ∧ (k' = k → seen.amount = amount ∧
      entity.amount = amount ∧ entity.status ∈ closedStatuses)

section Step

variable {k : Uuid} {amount : Numeric} {env : Env} {st : Store} {row : EscrowAccount}

theorem readEntity_holds {k' : Uuid} {f : EscrowAccount → Except HttpError EscrowAccount}
    {next : EscrowAccount → EscrowAccount → Call}
    (hnext : ∀ seen entity, st.db.escrow? k' = some seen → f seen = .ok entity →
      (next seen entity).Holds k amount) :
    (∀ x, readEntity st k' f next ≠ .done (.paid k x)) ∧
      ∀ c, readEntity st k' f next = .running c → c.Holds k amount := by
  unfold readEntity
  split
  · exact ⟨fun _ h => (by cases h), fun _ h => (by cases h)⟩
  · rename_i seen hseen
    split
    · exact ⟨fun _ h => (by cases h), fun _ h => (by cases h)⟩
    · rename_i entity hent
      refine ⟨fun _ h => (by cases h), fun c h => ?_⟩
      cases h
      exact hnext seen entity (getEscrowOrThrow_ok.mp hseen) hent

theorem readStep_holds (env : Env) (hrow : st.db.escrow? k = some row) (op : FundOp) :
    (∀ x, readStep env st op ≠ .done (.paid k x)) ∧
      ∀ c, readStep env st op = .running c → c.Holds k row.amount := by
  have hseen : ∀ {k' : Uuid} {seen : EscrowAccount}, st.db.escrow? k' = some seen → k' = k →
      seen.amount = row.amount := by
    rintro k' seen h rfl
    rw [h] at hrow
    cases hrow
    rfl
  cases op with
  | releaseFunds k' u role dto =>
    simp only [readStep]
    split
    · exact ⟨fun _ h => (by cases h), fun _ h => (by cases h)⟩
    · rename_i plan hplan
      refine ⟨fun _ h => (by cases h), fun c h => ?_⟩
      cases h
      intro hk
      obtain ⟨seen, hs, hp, -⟩ := releaseFunds.plan_ok hplan
      have he := hp.escrow
      subst he
      exact ⟨hp, hseen hs hk⟩
  | refundEscrow k' u role =>
    refine readEntity_holds fun seen entity hs he => ?_
    obtain ⟨rfl, -, -⟩ := refundEscrow.entity_ok he
    exact ⟨(Db.escrow?_id hs :), fun hk => ⟨hseen hs hk, (hseen hs hk :), by simp [closedStatuses]⟩⟩
  | handleTimeout k' =>
    refine readEntity_holds fun seen entity hs he => ?_
    obtain ⟨rfl, -⟩ := handleTimeout.expire_ok he
    exact ⟨(Db.escrow?_id hs :), fun hk => ⟨hseen hs hk, (hseen hs hk :), rfl, rfl⟩⟩
  | handleTimeLockSettlement k' =>
    refine readEntity_holds fun seen entity hs he => ?_
    obtain ⟨-, hid, ha, -, hst⟩ := handleTimeLockSettlement.entity_ok he
    exact ⟨hid.trans (Db.escrow?_id hs),
      fun hk => ⟨hseen hs hk, ha.trans (hseen hs hk), by simp [closedStatuses, hst]⟩⟩
  | resolveDispute k' u b =>
    refine readEntity_holds fun seen entity hs he => ?_
    obtain ⟨-, hid, ha, -, hst⟩ := resolveDispute.entity_ok he
    refine ⟨hid.trans (Db.escrow?_id hs), fun hk => ⟨hseen hs hk, ha.trans (hseen hs hk), ?_⟩⟩
    cases b <;> simp [closedStatuses, hst]

/-- Everything one atomic step can do to the row `k`. -/
inductive StepEffect (env : Env) (k : Uuid) (amount : Numeric) (row : EscrowAccount) :
    Call → Store → Task Call Outcome → Prop where
  | idle {c st' t} (hrow : st'.db.escrow? k = some row) (hpaid : ∀ x, t ≠ .done (.paid k x))
      (hnext : ∀ c', t = .running c' → c'.Holds k amount) : StepEffect env k amount row c st' t
  | release {u plan st' row'} (hseen : row.releasedAmount = plan.escrow.releasedAmount)
      (hpos : 0 < plan.releaseStroops) (hle : plan.releaseStroops ≤ row.remainder)
      (hrow : st'.db.escrow? k = some row') (ha : row'.amount = amount)
      (hv : row'.view = row.view.release plan.releaseStroops) :
      StepEffect env k amount row (.release k u plan) st' (.done (.paid k plan.releaseStroops))
  | close {c st' seen entity} (hc : (∃ op, c = .close k op seen entity) ∨ c = .refundExpired k seen entity)
      (hseen : seen.amount = amount) (hrow : st'.db.escrow? k = some entity)
      (ha : entity.amount = amount) (hst : entity.status ∈ closedStatuses) :
      StepEffect env k amount row c st' (.done (.paid k seen.remainder))
  | expire {st' seen entity} (hrow : st'.db.escrow? k = some entity) (ha : entity.amount = amount)
      (hrel : entity.releasedAmount = seen.releasedAmount) (hst : entity.status = .expired)
      (hnext : (Call.refundExpired k seen (handleTimeout.refund env.now entity)).Holds k amount) :
      StepEffect env k amount row (.expire k seen entity) st'
        (.running (.refundExpired k seen (handleTimeout.refund env.now entity)))

/-- The call that is left behind holds what it needs, whatever the step did. -/
theorem StepEffect.next {c : Call} {st' : Store} {t : Task Call Outcome}
    (h : StepEffect env k amount row c st' t) : ∀ c', t = .running c' → c'.Holds k amount := by
  cases h with
  | idle _ _ hnext => exact hnext
  | release => intro c' h; cases h
  | close => intro c' h; cases h
  | expire _ _ _ _ hnext => intro c' h; cases h; exact hnext

theorem StepEffect.of_failed {c : Call} {e : HttpError} {st' : Store}
    (hrow : st'.db.escrow? k = some row) :
    StepEffect env k amount row c st' (.done (.failed e)) :=
  .idle hrow (fun _ h => by cases h) fun _ h => by cases h

/-- A step of a call on another escrow. -/
theorem StepEffect.of_other {c : Call} {k' : Uuid} {x : Int} {st' : Store} (hk : k' ≠ k)
    (hrow : st'.db.escrow? k = some row) :
    StepEffect env k amount row c st' (.done (.paid k' x)) :=
  .idle hrow (fun _ h => by injection h with h; injection h with h; exact hk h) fun _ h => by cases h

theorem finish_effect {c : Call} {k' : Uuid} {seen entity : EscrowAccount}
    (hc : k' = k → (∃ op, c = .close k op seen entity) ∨ c = .refundExpired k seen entity)
    (hid : entity.id = k') (hk : k' = k → seen.amount = amount ∧ entity.amount = amount ∧
      entity.status ∈ closedStatuses) (hrow : st.db.escrow? k = some row)
    (tl : EscrowAccount → List EscrowTimeline) (ev : EscrowAccount → List EscrowEvent) :
    StepEffect env k amount row c (finish k' seen (st.saveWith (.ok entity) tl ev)).1
      (finish k' seen (st.saveWith (.ok entity) tl ev)).2 := by
  rcases saveWith_cases st (.ok entity) tl ev with ⟨e, h⟩ | ⟨e, st', he, h, -, hw⟩
  · rw [h]; exact .of_failed hrow
  · cases he
    have hrow' := hw k
    rw [h]
    by_cases hkk : k' = k
    · subst hkk
      obtain ⟨hs, ha, hst⟩ := hk rfl
      rw [if_pos hid] at hrow'
      exact .close (hc rfl) hs hrow' ha hst
    · rw [hid, if_neg hkk] at hrow'
      exact .of_other hkk (hrow'.trans hrow)

theorem saveClosing_eq (st : Store) (k' : Uuid) (entity : EscrowAccount) (op : Closing) :
    ∃ tl ev, saveClosing st k' entity op = st.saveWith (.ok entity) tl ev := by
  cases op with
  | refundEscrow u => simp only [saveClosing, refundEscrow.save]; exact ⟨_, _, rfl⟩
  | handleTimeLockSettlement =>
    simp only [saveClosing, handleTimeLockSettlement.save]; exact ⟨_, _, rfl⟩
  | resolveDispute u b => simp only [saveClosing, resolveDispute.save]; exact ⟨_, _, rfl⟩

theorem saveExpired_eq (st : Store) (k' : Uuid) (entity : EscrowAccount) :
    ∃ tl ev, handleTimeout.saveExpired st k' (.ok entity) = st.saveWith (.ok entity) tl ev := by
  unfold handleTimeout.saveExpired
  exact ⟨_, _, rfl⟩

theorem release_effect {k' u : Uuid} {plan : ReleasePlan}
    (hh : (Call.release k' u plan).Holds k amount) (hrow : st.db.escrow? k = some row)
    (ha : row.amount = amount) :
    StepEffect env k amount row (.release k' u plan) (advance env (.release k' u plan) st).1
      (advance env (.release k' u plan) st).2 := by
  unfold advance
  rcases releaseFunds.commit_cases st k' u plan env.fault with ⟨e, st', h, hdb⟩ | ⟨db, st', hu, h, hdb⟩
  · simp only [h]
    exact .of_failed (by rw [hdb]; exact hrow)
  · simp only [h]
    by_cases hkk : k' = k
    · subst hkk
      obtain ⟨hp, hamount⟩ := hh rfl
      obtain ⟨row1, row', hrow1, hseen, hid, ha', hs', hr', hw⟩ := releaseFunds.update_ok hp hu
      rw [hrow] at hrow1
      cases hrow1
      have hk : row.id = k' := Db.escrow?_id hrow
      have hle : plan.releaseStroops ≤ row.remainder := by
        rw [EscrowAccount.remainder, hseen, ha, ← hamount]
        exact hp.le
      have hset : plan.isFullySettled =
          decide (row.releasedAmount.stroops + plan.releaseStroops = row.amount.stroops) := by
        rw [hseen, ha, ← hamount]
        exact hp.settled
      have hrow' : st'.db.escrow? k' = some row' := by
        rw [hdb, hw, if_pos (hid.trans hk)]
      exact .release hseen hp.pos hle hrow' (ha'.trans ha) (view_release hset ha' hs' hr')
    · refine .of_other hkk ?_
      rw [hdb]
      exact (releaseFunds.update_other hkk hu).trans hrow

/-- **One atomic step, seen from escrow `k`.** -/
theorem advance_effect (env : Env) {c : Call} (hh : c.Holds k amount) (hrow : st.db.escrow? k = some row)
    (ha : row.amount = amount) :
    StepEffect env k amount row c (advance env c st).1 (advance env c st).2 := by
  cases c with
  | start op =>
    obtain ⟨hp, hnext⟩ := readStep_holds env hrow op
    rw [ha] at hnext
    exact .idle hrow hp hnext
  | release k' u plan => exact release_effect hh hrow ha
  | close k' op seen entity =>
    obtain ⟨hid, hk⟩ := hh
    obtain ⟨tl, ev, hsave⟩ := saveClosing_eq st k' entity op
    simp only [advance, hsave]
    exact finish_effect (fun e => .inl ⟨op, by rw [e]⟩) hid hk hrow tl ev
  | refundExpired k' seen entity =>
    obtain ⟨hid, hk⟩ := hh
    exact finish_effect (fun e => .inr (by rw [e])) hid hk hrow _ _
  | expire k' seen entity =>
    obtain ⟨hid, hk⟩ := hh
    obtain ⟨tl, ev, hsave⟩ := saveExpired_eq st k' entity
    simp only [advance, hsave]
    rcases saveWith_cases st (.ok entity) tl ev with ⟨e, h⟩ | ⟨e, st', he, h, -, hw⟩
    · simp only [h]; exact .of_failed hrow
    · cases he
      have hrow' := hw k
      simp only [h]
      by_cases hkk : k' = k
      · subst hkk
        obtain ⟨hs, hea, hrel, hst⟩ := hk rfl
        rw [if_pos hid] at hrow'
        exact .expire hrow' hea hrel hst ⟨hid, fun _ => ⟨hs, hea, by simp [handleTimeout.refund, closedStatuses]⟩⟩
      · rw [hid, if_neg hkk] at hrow'
        refine .idle (hrow'.trans hrow) (fun _ h' => by cases h') fun c' h' => ?_
        cases h'
        exact ⟨hid, fun e => absurd e hkk⟩

end Step

end Escrow
end TradeCore
