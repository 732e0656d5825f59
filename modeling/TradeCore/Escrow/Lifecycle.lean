import TradeCore.Escrow.Service

/-!
# TradeCore.Escrow.Lifecycle

Runs of whole escrow requests, and the life of one escrow in them.

`Op` is a request with its arguments, `step` what it does to the tables. Of one row the life cycle
keeps the `View`: its status, the stroops released and the stroops held. `Trans op v v'` is the
abstract life cycle, every way a request moves a view. `step_refines` says that the service does
nothing else: a request leaves a row's view alone, moves it along `Trans`, or creates the row.
-/

namespace TradeCore
namespace Escrow

open Lib

inductive Op where
  | createEscrow (userId : Uuid) (dto : CreateEscrowDto) (ids : NewIds) (now : Time)
  | fundEscrow (escrowId userId : Uuid) (txHash : String) (now : Time)
  | approveEscrow (escrowId userId : Uuid) (dto : ApproveEscrowDto) (ipAddress : Option String)
      (now : Time)
  | revokeApproval (escrowId userId : Uuid) (now : Time)
  | releaseFunds (escrowId userId : Uuid) (userRole : UserRole) (dto : ReleaseFundsDto) (now : Time)
  | refundEscrow (escrowId userId : Uuid) (userRole : UserRole) (now : Time)
  | cancelEscrow (escrowId userId : Uuid) (userRole : UserRole)
  | flagDispute (escrowId userId : Uuid) (dto : FlagDisputeDto)
  | resolveDispute (escrowId userId : Uuid) (releaseToCreator : Bool) (now : Time)
  | handleTimeout (escrowId : Uuid) (now : Time) (timelineFails : Bool)
  | handleTimeLockSettlement (escrowId : Uuid) (now : Time)
  | updateMilestone (escrowId milestoneId userId : Uuid) (userRole : UserRole)
      (dto : UpdateMilestoneDto) (now : Time)

def step (st : Store) : Op → Store
  | .createEscrow userId dto ids now => (createEscrow st userId dto ids now).1
  | .fundEscrow escrowId userId txHash now => (fundEscrow st escrowId userId txHash now).1
  | .approveEscrow escrowId userId dto ip now => (approveEscrow st escrowId userId dto ip now).1
  | .revokeApproval escrowId userId now => (revokeApproval st escrowId userId now).1
  | .releaseFunds escrowId userId role dto now => (releaseFunds st escrowId userId role dto now).1
  | .refundEscrow escrowId userId role now => (refundEscrow st escrowId userId role now).1
  | .cancelEscrow escrowId userId role => (cancelEscrow st escrowId userId role).1
  | .flagDispute escrowId userId dto => (flagDispute st escrowId userId dto).1
  | .resolveDispute escrowId userId b now => (resolveDispute st escrowId userId b now).1
  | .handleTimeout escrowId now fails => (handleTimeout st escrowId now fails).1
  | .handleTimeLockSettlement escrowId now => (handleTimeLockSettlement st escrowId now).1
  | .updateMilestone escrowId milestoneId userId role dto now =>
    (updateMilestone st escrowId milestoneId userId role dto now).1

/-! ## The abstract life cycle -/

structure View where
  status : EscrowStatus
  released : Int
  amount : Int
  deriving DecidableEq

def EscrowAccount.view (e : EscrowAccount) : View :=
  ⟨e.status, e.releasedAmount.stroops, e.amount.stroops⟩

/-- A view after `x` more stroops have been released. -/
def View.release (v : View) (x : Int) : View :=
  ⟨if v.released + x = v.amount then .settled else .partiallyReleased, v.released + x, v.amount⟩

inductive Trans (id : Uuid) : Op → View → View → Prop where
  | fund {u tx now v} (h : v.status = .pending) :
      Trans id (.fundEscrow id u tx now) v { v with status := .funded }
  | approve {u dto ip now v} (h : v.status = .funded) :
      Trans id (.approveEscrow id u dto ip now) v { v with status := .approved }
  | release {u role dto now v x}
      (h : role = .admin ∨ v.status = .approved ∨ v.status = .partiallyReleased)
      (hpos : 0 < x) (hle : x ≤ v.amount - v.released) :
      Trans id (.releaseFunds id u role dto now) v (v.release x)
  | refund {u role now v} (h : v.status ∈ [.pending, .awaitingFunding, .funded, .expired])
      (hr : v.released ≤ 0) : Trans id (.refundEscrow id u role now) v { v with status := .refunded }
  | cancel {u role v} (h : v.status = .pending) :
      Trans id (.cancelEscrow id u role) v { v with status := .cancelled }
  | flag {u dto v} (h : v.status ∈ [.funded, .approved, .partiallyReleased]) :
      Trans id (.flagDispute id u dto) v { v with status := .disputed }
  | resolve {u b now v} (h : v.status = .disputed) :
      Trans id (.resolveDispute id u b now) v { v with status := if b then .refunded else .settled }
  | expire {now v} (h : v.status ∈ [.pending, .awaitingFunding, .funded]) :
      Trans id (.handleTimeout id now true) v { v with status := .expired }
  | timeout {now v} (h : v.status ∈ [.pending, .awaitingFunding, .funded]) :
      Trans id (.handleTimeout id now false) v { v with status := .refunded }
  | timeLock {now v} (h : v.status ∈ [.funded, .partiallyReleased]) :
      Trans id (.handleTimeLockSettlement id now) v ⟨.settled, v.amount, v.amount⟩

/-- What a request does to the row `id`: nothing to its view, a move of the life cycle, or the
creation of the row. -/
inductive Effect (id : Uuid) (op : Op) : Option EscrowAccount → Option EscrowAccount → Prop where
  | same {o} : Effect id op o o
  | move {row row'} (h : Trans id op row.view row'.view) : Effect id op (some row) (some row')
  | create {u dto ids now} {amount : Numeric} (hop : op = .createEscrow u dto ids now)
      (hamount : SqlNumeric.ofText? 30 7 dto.amount.text = some amount)
      (hcheck : 0 ≤ amount.stroops) :
      Effect id op none (some (createEscrow.row u dto amount ids now))

/-! ## The service refines it -/

/-- A guard that refuses was passed by a request that succeeds. -/
theorem ite_error_eq_ok {ε α : Type} {p : Prop} [Decidable p] {e : ε} {x : Except ε α} {a : α} :
    (if p then .error e else x) = .ok a ↔ ¬ p ∧ x = .ok a := by
  by_cases hp : p <;> simp [hp]

theorem getEscrowOrThrow_ok {db : Db} {id : Uuid} {row : EscrowAccount} :
    getEscrowOrThrow db id = .ok row ↔ db.escrow? id = some row := by
  unfold getEscrowOrThrow
  cases db.escrow? id <;> simp

theorem decideOn_ok {db : Db} {id : Uuid} {f : EscrowAccount → Except HttpError EscrowAccount}
    {e : EscrowAccount} (h : decideOn db id f = .ok e) :
    ∃ row, db.escrow? id = some row ∧ f row = .ok e := by
  unfold decideOn at h
  cases hg : getEscrowOrThrow db id with
  | error err => rw [hg] at h; cases h
  | ok row => rw [hg] at h; exact ⟨row, getEscrowOrThrow_ok.mp hg, h⟩

theorem saveWith_ok (st : Store) {e : EscrowAccount}
    (hc : e.releasedAmount.stroops ≤ e.amount.stroops) (tl : EscrowAccount → List EscrowTimeline)
    (ev : EscrowAccount → List EscrowEvent) :
    ∃ st', st.saveWith (.ok e) tl ev = (st', .ok e) ∧ st'.db.signatories = st.db.signatories ∧
      ∀ id, st'.db.escrow? id = if e.id = id then some e else st.db.escrow? id := by
  obtain ⟨db, hs⟩ : ∃ db, st.db.saveEscrow e = .ok db := ⟨_, if_pos hc⟩
  refine ⟨⟨db.addEvents (tl e), st.emitted ++ ev e⟩, by simp only [Store.saveWith, hs], ?_, ?_⟩
  · exact (Db.saveEscrow_signatories hs :)
  · exact (Db.escrow?_saveEscrow hs :)

/-- The two outcomes of an operation that saves an entity. -/
theorem saveWith_cases (st : Store) (entity : Except HttpError EscrowAccount)
    (tl : EscrowAccount → List EscrowTimeline) (ev : EscrowAccount → List EscrowEvent) :
    (∃ e, st.saveWith entity tl ev = (st, .error e)) ∨
    (∃ e st', entity = .ok e ∧ st.saveWith entity tl ev = (st', .ok e) ∧
      e.releasedAmount.stroops ≤ e.amount.stroops ∧
      ∀ id, st'.db.escrow? id = if e.id = id then some e else st.db.escrow? id) := by
  cases entity with
  | error e => exact .inl ⟨e, rfl⟩
  | ok e =>
    by_cases hc : e.releasedAmount.stroops ≤ e.amount.stroops
    · obtain ⟨st', h, -, hw⟩ := saveWith_ok st hc tl ev
      exact .inr ⟨e, st', rfl, h, hc, hw⟩
    · have hs : st.db.saveEscrow e = .error _ := if_neg hc
      exact .inl ⟨_, by simp only [Store.saveWith, hs]; rfl⟩

/-- A row written back under the key it was read with: only that row changes. -/
theorem effect_of_written {st st' : Store} {op : Op} {k id : Uuid} {row e : EscrowAccount}
    (hrow : st.db.escrow? k = some row) (hid : e.id = row.id) (ht : Trans k op row.view e.view)
    (hw : st'.db.escrow? id = if e.id = id then some e else st.db.escrow? id) :
    Effect id op (st.db.escrow? id) (st'.db.escrow? id) := by
  have hk : row.id = k := Db.escrow?_id hrow
  rw [hw]
  by_cases h : e.id = id
  · have : k = id := by rw [← hk, ← hid, h]
    subst this
    rw [if_pos h, hrow]
    exact .move ht
  · rw [if_neg h]
    exact .same

/-- The family of operations that read a row, decide an entity and save it. -/
theorem effect_saveWith {st : Store} {op : Op} {k : Uuid}
    {f : EscrowAccount → Except HttpError EscrowAccount} {tl : EscrowAccount → List EscrowTimeline}
    {ev : EscrowAccount → List EscrowEvent}
    (hf : ∀ row e, f row = .ok e → e.id = row.id ∧ Trans k op row.view e.view) (id : Uuid) :
    Effect id op (st.db.escrow? id) ((st.saveWith (decideOn st.db k f) tl ev).1.db.escrow? id) := by
  rcases saveWith_cases st (decideOn st.db k f) tl ev with ⟨e, h⟩ | ⟨e, st', he, h, -, hw⟩
  · rw [h]; exact .same
  · obtain ⟨row, hrow, hfe⟩ := decideOn_ok he
    obtain ⟨hid, ht⟩ := hf row e hfe
    rw [h]
    exact effect_of_written hrow hid ht (hw id)

section Entities

variable {u k : Uuid} {role : UserRole} {now : Time} {row e : EscrowAccount}

theorem fundEscrow.entity_ok {tx : String} (h : fundEscrow.entity u tx now row = .ok e) :
    e.id = row.id ∧ Trans k (.fundEscrow k u tx now) row.view e.view := by
  simp only [fundEscrow.entity, ite_error_eq_ok, not_not] at h
  obtain ⟨hs, -, h⟩ := h
  cases h
  exact ⟨rfl, .fund hs⟩

theorem refundEscrow.entity_ok (h : refundEscrow.entity u role now row = .ok e) :
    e = { row with status := .refunded, refundedAt := some now } ∧
      row.status ∈ [.pending, .awaitingFunding, .funded, .expired] ∧
      row.releasedAmount.stroops ≤ 0 := by
  simp only [refundEscrow.entity, ite_error_eq_ok, not_not, not_lt] at h
  obtain ⟨hs, -, hr, h⟩ := h
  cases h
  exact ⟨rfl, hs, hr⟩

theorem cancelEscrow.entity_ok (h : cancelEscrow.entity u role row = .ok e) :
    e.id = row.id ∧ Trans k (.cancelEscrow k u role) row.view e.view := by
  simp only [cancelEscrow.entity, ite_error_eq_ok, not_not] at h
  obtain ⟨hs, -, h⟩ := h
  cases h
  exact ⟨rfl, .cancel hs⟩

theorem flagDispute.entity_ok {ss : List EscrowSignatory} {dto : FlagDisputeDto}
    (h : flagDispute.entity ss u row = .ok e) :
    e.id = row.id ∧ Trans k (.flagDispute k u dto) row.view e.view := by
  simp only [flagDispute.entity, ite_error_eq_ok, not_not] at h
  obtain ⟨hs, -, -, h⟩ := h
  cases h
  exact ⟨rfl, .flag hs⟩

theorem resolveDispute.entity_ok {b : Bool} (h : resolveDispute.entity b now row = .ok e) :
    row.status = .disputed ∧ e.id = row.id ∧ e.amount = row.amount ∧
      e.releasedAmount = row.releasedAmount ∧ e.status = if b then .refunded else .settled := by
  simp only [resolveDispute.entity, ite_error_eq_ok, not_not] at h
  obtain ⟨hs, h⟩ := h
  cases h
  exact ⟨hs, rfl, rfl, rfl, rfl⟩

theorem handleTimeout.expire_ok (h : handleTimeout.expire now row = .ok e) :
    e = { row with status := .expired } ∧ row.status ∈ [.pending, .awaitingFunding, .funded] := by
  unfold handleTimeout.expire at h
  split at h
  · cases h
  · simp only [ite_error_eq_ok, not_not] at h
    obtain ⟨-, hs, h⟩ := h
    cases h
    exact ⟨rfl, hs⟩

theorem handleTimeLockSettlement.entity_ok (h : handleTimeLockSettlement.entity now row = .ok e) :
    row.status ∈ [.funded, .partiallyReleased] ∧ e.id = row.id ∧ e.amount = row.amount ∧
      e.releasedAmount = row.amount ∧ e.status = .settled := by
  simp only [handleTimeLockSettlement.entity, ite_error_eq_ok] at h
  obtain ⟨-, h⟩ := h
  split at h
  · cases h
  · simp only [ite_error_eq_ok, not_not] at h
    obtain ⟨-, hs, h⟩ := h
    cases h
    exact ⟨hs, rfl, rfl, rfl, rfl⟩

end Entities

/-! ### Release -/

/-- A plan of `releaseFunds` carries the stroops it read, and they add up. -/
structure PlanOk (row : EscrowAccount) (plan : ReleasePlan) : Prop where
  escrow : plan.escrow = row
  pos : 0 < plan.releaseStroops
  le : plan.releaseStroops ≤ row.amount.stroops - row.releasedAmount.stroops
  expected : plan.expectedReleased = fromStroops row.releasedAmount.stroops
  released : plan.newReleased = fromStroops (row.releasedAmount.stroops + plan.releaseStroops)
  settled : plan.isFullySettled =
    decide (row.releasedAmount.stroops + plan.releaseStroops = row.amount.stroops)

theorem releaseFunds.stroops_some {row : EscrowAccount} {dto : ReleaseFundsDto} {t d r : Int}
    (h : releaseFunds.stroops row dto = some (t, d, r)) :
    t = row.amount.stroops ∧ d = row.releasedAmount.stroops := by
  simp only [releaseFunds.stroops, toStroops_text] at h
  split at h
  · cases h; exact ⟨rfl, rfl⟩
  · simp only [Option.map_eq_some_iff, Prod.mk.injEq] at h
    obtain ⟨_, -, ht, hd, -⟩ := h
    exact ⟨ht.symm, hd.symm⟩

theorem releaseFunds.amounts_ok {row : EscrowAccount} {dto : ReleaseFundsDto} {now : Time}
    {plan : ReleasePlan} (h : releaseFunds.amounts row dto now = .ok plan) : PlanOk row plan := by
  unfold releaseFunds.amounts at h
  split at h
  · cases h
  · rename_i t d r hst
    obtain ⟨rfl, rfl⟩ := releaseFunds.stroops_some hst
    simp only [ite_error_eq_ok, not_or, not_le, not_lt] at h
    obtain ⟨⟨hpos, hle⟩, h⟩ := h
    cases h
    exact ⟨rfl, hpos, hle, rfl, rfl, rfl⟩

theorem releaseFunds.checkStatus_ok {row : EscrowAccount} {ss : List EscrowSignatory}
    {role : UserRole} (h : releaseFunds.checkStatus row ss role = .ok ()) :
    role = .admin ∨ row.status = .approved ∨ row.status = .partiallyReleased := by
  simp only [releaseFunds.checkStatus, ite_error_eq_ok] at h
  have := h.1
  tauto

theorem releaseFunds.plan_ok {db : Db} {k : Uuid} {role : UserRole} {dto : ReleaseFundsDto}
    {now : Time} {plan : ReleasePlan} (h : releaseFunds.plan db k role dto now = .ok plan) :
    ∃ row, db.escrow? k = some row ∧ PlanOk row plan ∧
      (role = .admin ∨ row.status = .approved ∨ row.status = .partiallyReleased) := by
  unfold releaseFunds.plan at h
  split at h
  · cases h
  · rename_i row hrow
    split at h
    · cases h
    · rename_i hst
      split at h
      · cases h
      · exact ⟨row, getEscrowOrThrow_ok.mp hrow, releaseFunds.amounts_ok h,
          releaseFunds.checkStatus_ok hst⟩

theorem ofUnits?_some {n : Int} {x : Numeric} (h : SqlNumeric.ofUnits? 30 7 n = some x) :
    x.stroops = n := by
  unfold SqlNumeric.ofUnits? at h
  split at h
  · cases h; rfl
  · cases h

/-- The guarded update goes through only on a row that still holds the amount that was read. -/
theorem releaseFunds.update_ok {db db' : Db} {k : Uuid} {plan : ReleasePlan} {seen : EscrowAccount}
    (hp : PlanOk seen plan) (h : releaseFunds.update db k plan = .ok db') :
    ∃ row row', db.escrow? k = some row ∧ row.releasedAmount = seen.releasedAmount ∧
      row'.id = row.id ∧ row'.amount = row.amount ∧ row'.status = plan.status ∧
      row'.releasedAmount.stroops = row.releasedAmount.stroops + plan.releaseStroops ∧
      ∀ id, db'.escrow? id = if row'.id = id then some row' else db.escrow? id := by
  unfold releaseFunds.update at h
  rw [hp.expected, hp.released, ofText?_fromStroops_stroops, ofText?_fromStroops] at h
  cases hn : SqlNumeric.ofUnits? 30 7 (seen.releasedAmount.stroops + plan.releaseStroops) with
  | none => rw [hn] at h; cases h
  | some released =>
    simp only [hn] at h
    split at h
    · cases h
    · rename_i row hrow
      split at h
      · rename_i heq
        refine ⟨row, _, hrow, heq, ?_, ?_, ?_, ?_, Db.escrow?_saveEscrow h⟩
        · rfl
        · rfl
        · rfl
        · rw [heq]; exact ofUnits?_some hn
      · cases h

theorem releaseFunds.update_other {db db' : Db} {k id : Uuid} {plan : ReleasePlan} (hk : k ≠ id)
    (h : releaseFunds.update db k plan = .ok db') : db'.escrow? id = db.escrow? id := by
  unfold releaseFunds.update at h
  split at h
  · split at h
    · cases h
    · rename_i row hrow
      split at h
      · have hw := Db.escrow?_saveEscrow h id
        rw [if_neg (by simpa [Db.escrow?_id hrow] using hk)] at hw
        exact hw
      · cases h
  · cases h

/-- A failed transaction of `releaseFunds` leaves the tables as they were; a successful one is its
guarded update. -/
theorem releaseFunds.commit_cases (st : Store) (k u : Uuid) (plan : ReleasePlan)
    (fault : Option TxFault) :
    (∃ e st', releaseFunds.commit st k u plan fault = (st', .error e) ∧ st'.db = st.db) ∨
    (∃ db st', releaseFunds.update st.db k plan = .ok db ∧
      releaseFunds.commit st k u plan fault = (st', .ok plan.releaseStroops) ∧
      ∀ id, st'.db.escrow? id = db.escrow? id) := by
  unfold releaseFunds.commit
  cases hu : releaseFunds.update st.db k plan with
  | error e => exact .inl ⟨e, st, rfl, rfl⟩
  | ok db =>
    match fault with
    | some .insert => exact .inl ⟨_, st, rfl, rfl⟩
    | some .commit => exact .inl ⟨_, _, rfl, rfl⟩
    | none => exact .inr ⟨db, _, rfl, rfl, fun _ => rfl⟩

theorem view_release {row row' : EscrowAccount} {plan : ReleasePlan}
    (hset : plan.isFullySettled =
      decide (row.releasedAmount.stroops + plan.releaseStroops = row.amount.stroops))
    (ha : row'.amount = row.amount) (hs : row'.status = plan.status)
    (hr : row'.releasedAmount.stroops = row.releasedAmount.stroops + plan.releaseStroops) :
    row'.view = row.view.release plan.releaseStroops := by
  by_cases h : row.releasedAmount.stroops + plan.releaseStroops = row.amount.stroops <;>
    simp [EscrowAccount.view, View.release, hs, ha, hr, ReleasePlan.status, hset, h]

theorem effect_releaseFunds (st : Store) (k u : Uuid) (role : UserRole) (dto : ReleaseFundsDto)
    (now : Time) (id : Uuid) :
    Effect id (.releaseFunds k u role dto now) (st.db.escrow? id)
      ((releaseFunds st k u role dto now).1.db.escrow? id) := by
  unfold releaseFunds
  cases hplan : releaseFunds.plan st.db k role dto now with
  | error e => exact .same
  | ok plan =>
    obtain ⟨row, hrow, hp, hrole⟩ := releaseFunds.plan_ok hplan
    rcases releaseFunds.commit_cases st k u plan none with ⟨e, st', h, hdb⟩ | ⟨db, st', hu, h, hdb⟩
    · simp only [h, hdb]; exact .same
    · obtain ⟨row1, row', hrow1, -, hid, ha, hs, hr, hw⟩ := releaseFunds.update_ok hp hu
      rw [hrow] at hrow1
      cases hrow1
      simp only [h]
      refine effect_of_written hrow hid ?_ ((hdb id).trans (hw id))
      rw [view_release hp.settled ha hs hr]
      exact .release hrole hp.pos hp.le

/-! ### The other requests -/

theorem effect_handleTimeout (st : Store) (k : Uuid) (now : Time) (fails : Bool) (id : Uuid) :
    Effect id (.handleTimeout k now fails) (st.db.escrow? id)
      ((handleTimeout st k now fails).1.db.escrow? id) := by
  unfold handleTimeout handleTimeout.saveExpired
  rcases saveWith_cases st (decideOn st.db k (handleTimeout.expire now)) _ _ with
    ⟨e, h⟩ | ⟨e, st1, he, h, hcheck, hw⟩
  · rw [h]; exact .same
  · obtain ⟨row, hrow, hexp⟩ := decideOn_ok he
    obtain ⟨rfl, hs⟩ := handleTimeout.expire_ok hexp
    rw [h]
    cases fails with
    | true =>
      change Effect id _ _ (st1.db.escrow? id)
      exact effect_of_written (e := { row with status := .expired }) hrow rfl (.expire hs) (hw id)
    | false =>
      -- the second save is not refused: it writes the amounts of the first
      obtain ⟨st2, h2, -, hw2⟩ := saveWith_ok st1
        (e := handleTimeout.refund now { row with status := .expired }) hcheck
        (fun e => [⟨k, .escrowRefunded, e.creatorId, "Automatic refund triggered by timeout"⟩])
        (fun e => [.refunded e.id e.amount e.creatorId])
      change Effect id _ _ ((handleTimeout.saveRefunded st1 k
        (handleTimeout.refund now { row with status := .expired })).1.db.escrow? id)
      rw [handleTimeout.saveRefunded, h2]
      refine effect_of_written (e := handleTimeout.refund now { row with status := .expired }) hrow
        rfl (.timeout hs) ((hw2 id).trans ?_)
      rw [hw id]
      by_cases hi : row.id = id <;> simp [handleTimeout.refund, hi]

theorem approveEscrow.admit_ok {db : Db} {k : Uuid} {row : EscrowAccount}
    (h : approveEscrow.admit db k = .ok row) :
    db.escrow? k = some row ∧ (row.status = .funded ∨ row.status = .approved) := by
  unfold approveEscrow.admit at h
  split at h
  · cases h
  · rename_i r hr
    simp only [ite_error_eq_ok] at h
    obtain ⟨hs, h⟩ := h
    cases h
    exact ⟨getEscrowOrThrow_ok.mp hr, by tauto⟩

theorem isThresholdMet_iff {ss : List EscrowSignatory} {m : Nat} :
    (calculateApprovalProgress ss m).isThresholdMet = true ↔ m ≤ approvedCount ss :=
  decide_eq_true_iff

/-- What the transaction of `approveEscrow` leaves behind: nothing when it fails, apart from an event
emitted before a commit that aborts, and otherwise the caller's signatory row, and the escrow row
when the rows it works on reach the threshold. -/
theorem approveEscrow.commit_cases (st : Store) (row : EscrowAccount) (ss : List EscrowSignatory)
    (s : EscrowSignatory) (u : Uuid) (dto : ApproveEscrowDto) (ip : Option String) (now : Time)
    (fault : Option TxFault) :
    (∃ e st', approveEscrow.commit st row ss s u dto ip now fault = (st', .error e) ∧
      st'.db = st.db ∧ (st'.emitted = st.emitted ∨ fault = some .commit ∧
        (row.requiredSignatures ≤ approvedCount (approveEscrow.marked ss u ip now) ∧
          row.status ≠ .approved) ∧
        st'.emitted = st.emitted ++ [.signatureThresholdReached row.id
          (approvedCount (approveEscrow.marked ss u ip now)) row.requiredSignatures])) ∨
    (∃ st', fault = none ∧ approveEscrow.commit st row ss s u dto ip now fault = (st', .ok ()) ∧
      st'.db.signatories = upsert EscrowSignatory.key (approveEscrow.mark s ip now) st.db.signatories ∧
      ((row.requiredSignatures ≤ approvedCount (approveEscrow.marked ss u ip now) ∧
          row.status ≠ .approved ∧
          (∀ id, st'.db.escrow? id = if row.id = id then some { row with status := .approved }
            else st.db.escrow? id) ∧
          st'.emitted = st.emitted ++ [.signatureThresholdReached row.id
            (approvedCount (approveEscrow.marked ss u ip now)) row.requiredSignatures]) ∨
        (¬ (row.requiredSignatures ≤ approvedCount (approveEscrow.marked ss u ip now) ∧
            row.status ≠ .approved) ∧
          (∀ id, st'.db.escrow? id = st.db.escrow? id) ∧ st'.emitted = st.emitted))) := by
  unfold approveEscrow.commit
  dsimp only
  split
  · exact .inl ⟨_, _, rfl, rfl, .inl rfl⟩
  · rename_i hins
    have hnone : fault ≠ some .commit → fault = none := by
      rcases fault with - | - | - <;> simp at hins ⊢
    split
    · rename_i hmet
      rw [isThresholdMet_iff] at hmet
      split
      · exact .inl ⟨_, _, rfl, rfl, .inl rfl⟩
      · rename_i db' hs
        split
        · rename_i hf
          exact .inl ⟨_, _, rfl, rfl, .inr ⟨hf, hmet, rfl⟩⟩
        · rename_i hf
          exact .inr ⟨_, hnone hf, rfl, Db.saveEscrow_signatories hs, .inl ⟨hmet.1, hmet.2,
            Db.escrow?_saveEscrow hs, rfl⟩⟩
    · rename_i hmet
      rw [isThresholdMet_iff] at hmet
      split
      · exact .inl ⟨_, _, rfl, rfl, .inl rfl⟩
      · rename_i hf
        exact .inr ⟨_, hnone hf, rfl, rfl, .inr ⟨hmet, fun _ => rfl, rfl⟩⟩

theorem effect_approveEscrow (st : Store) (k u : Uuid) (dto : ApproveEscrowDto) (ip : Option String)
    (now : Time) (id : Uuid) :
    Effect id (.approveEscrow k u dto ip now) (st.db.escrow? id)
      ((approveEscrow st k u dto ip now).1.db.escrow? id) := by
  unfold approveEscrow
  split
  · exact .same
  · rename_i row hadmit
    obtain ⟨hrow, hst⟩ := approveEscrow.admit_ok hadmit
    dsimp only
    split
    · exact .same
    · rename_i s _
      rcases approveEscrow.commit_cases st row (st.db.signatoriesOf k) s u dto ip now none with
        ⟨e, st', h, hdb, -⟩ | ⟨st', -, h, -, ⟨-, hne, hw, -⟩ | ⟨-, hw, -⟩⟩
      · rw [h, hdb]; exact .same
      · rw [h]
        exact effect_of_written (e := { row with status := .approved }) hrow rfl
          (.approve (hst.resolve_right hne)) (hw id)
      · simp only [h, hw id]
        exact .same

theorem effect_revokeApproval (st : Store) (k u : Uuid) (now : Time) (id : Uuid) :
    (revokeApproval st k u now).1.db.escrow? id = st.db.escrow? id := by
  unfold revokeApproval
  split
  · rfl
  · split <;> rfl

theorem effect_updateMilestone (st : Store) (k m u : Uuid) (role : UserRole)
    (dto : UpdateMilestoneDto) (now : Time) (id : Uuid) :
    (updateMilestone st k m u role dto now).1.db.escrow? id = st.db.escrow? id := by
  unfold updateMilestone
  split
  · rfl
  · split
    · rfl
    · split
      · split <;> rfl
      · rfl

theorem effect_createEscrow (st : Store) (u : Uuid) (dto : CreateEscrowDto) (ids : NewIds)
    (now : Time) (id : Uuid) :
    Effect id (.createEscrow u dto ids now) (st.db.escrow? id)
      ((createEscrow st u dto ids now).1.db.escrow? id) := by
  unfold createEscrow
  split
  · exact .same
  · split
    · exact .same
    · split
      · exact .same
      · rename_i db row hins
        unfold createEscrow.insert at hins
        split at hins
        · rename_i amount milestones hamount _
          simp only [ite_error_eq_ok, not_or, not_not] at hins
          obtain ⟨⟨hfresh, -⟩, hins⟩ := hins
          split at hins
          · cases hins
          · rename_i db' hs
            cases hins
            have hw := Db.escrow?_saveEscrow hs id
            by_cases hid : ids.escrowId = id
            · subst hid
              rw [hfresh]
              have : (createEscrow.row u dto amount ids now).id = ids.escrowId := rfl
              rw [if_pos this] at hw
              have hc := Db.saveEscrow_check hs
              exact hw ▸ .create rfl hamount hc
            · have : (createEscrow.row u dto amount ids now).id ≠ id := hid
              rw [if_neg this] at hw
              exact hw ▸ .same
        · cases hins

/-- **The service refines the life cycle.** -/
theorem step_refines (st : Store) (op : Op) (id : Uuid) :
    Effect id op (st.db.escrow? id) ((step st op).db.escrow? id) := by
  cases op with
  | createEscrow u dto ids now => exact effect_createEscrow st u dto ids now id
  | fundEscrow k u tx now => exact effect_saveWith (fun _ _ h => fundEscrow.entity_ok h) id
  | approveEscrow k u dto ip now => exact effect_approveEscrow st k u dto ip now id
  | revokeApproval k u now => exact (effect_revokeApproval st k u now id) ▸ .same
  | releaseFunds k u role dto now => exact effect_releaseFunds st k u role dto now id
  | refundEscrow k u role now =>
    refine effect_saveWith (fun row e h => ?_) id
    obtain ⟨rfl, hs, hr⟩ := refundEscrow.entity_ok h
    exact ⟨rfl, .refund hs hr⟩
  | cancelEscrow k u role => exact effect_saveWith (fun _ _ h => cancelEscrow.entity_ok h) id
  | flagDispute k u dto => exact effect_saveWith (fun _ _ h => flagDispute.entity_ok h) id
  | resolveDispute k u b now =>
    refine effect_saveWith (fun row e h => ?_) id
    obtain ⟨hs, hid, ha, hr, hst⟩ := resolveDispute.entity_ok h
    refine ⟨hid, ?_⟩
    simp only [EscrowAccount.view, ha, hr, hst]
    exact .resolve hs
  | handleTimeout k now fails => exact effect_handleTimeout st k now fails id
  | handleTimeLockSettlement k now =>
    refine effect_saveWith (fun row e h => ?_) id
    obtain ⟨hs, hid, ha, hr, hst⟩ := handleTimeLockSettlement.entity_ok h
    refine ⟨hid, ?_⟩
    simp only [EscrowAccount.view, ha, hr, hst]
    exact .timeLock hs
  | updateMilestone k m u role dto now => exact (effect_updateMilestone st k m u role dto now id) ▸ .same

end Escrow
end TradeCore
