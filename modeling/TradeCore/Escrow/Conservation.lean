import TradeCore.Escrow.Discipline
import TradeCore.Escrow.Payout

/-!
# TradeCore.Escrow.Conservation

How much concurrent calls can pay out of one escrow.

* `releases_conserve`: any number of concurrent releases. The guard of the `UPDATE` makes the
  stored `releasedAmount` the exact sum of what was paid.
* `paid_le_of_current`: all the operations together. The other operations save a stale entity and
  the force path ignores the status, so the total stays below the amount in the runs whose writes
  land on an open row that still holds the amount they read (`Current`); a refund that races a
  release pays the escrow twice (`raced_refund_overpays`).
-/

namespace TradeCore
namespace Escrow

open Lib

/-! ## Releases only -/

def FundOp.isRelease : FundOp → Prop
  | .releaseFunds .. => True
  | _ => False

def Call.isRelease : Call → Prop
  | .start op => op.isRelease
  | .release .. => True
  | _ => False

/-- What the calls so far have made of the row `row0`. -/
structure Released (k : Uuid) (row0 : EscrowAccount) (st : Store) (ts : List (Task Call Outcome))
    (row : EscrowAccount) : Prop where
  stored : st.db.escrow? k = some row
  amount : row.amount = row0.amount
  released : row.releasedAmount.stroops = row0.releasedAmount.stroops + paid k ts
  le : row.releasedAmount.stroops ≤ row.amount.stroops
  status : (∃ x, .done (.paid k x) ∈ ts) → row.status =
    if row.releasedAmount.stroops = row.amount.stroops then .settled else .partiallyReleased

/-- Between its read and its update a release changes nothing; it changes the tables only when it
ends with a payment. -/
theorem advance_release (env : Env) {c : Call} (hc : c.isRelease) (st : Store) :
    ((advance env c st).1.db = st.db ∨ ∃ k x, (advance env c st).2 = .done (.paid k x)) ∧
      ∀ c', (advance env c st).2 = .running c' → c'.isRelease := by
  cases c with
  | start op =>
    cases op with
    | releaseFunds k u role dto =>
      refine ⟨.inl rfl, fun c' h => ?_⟩
      simp only [advance, readStep] at h
      split at h
      · cases h
      · cases h; trivial
    | refundEscrow | handleTimeout | handleTimeLockSettlement | resolveDispute => exact hc.elim
  | release k u plan =>
    unfold advance
    rcases releaseFunds.commit_cases st k u plan env.fault with
      ⟨e, st', h, hdb⟩ | ⟨db, st', hu, h, hdb⟩
    · simp only [h]
      exact ⟨.inl hdb, fun c' h' => by cases h'⟩
    · simp only [h]
      exact ⟨.inr ⟨_, _, rfl⟩, fun c' h' => by cases h'⟩
  | close | expire | refundExpired => exact hc.elim

def ReleaseInv (k : Uuid) (row0 : EscrowAccount) (st : Store) (ts : List (Task Call Outcome)) : Prop :=
  AllRunning Call.isRelease ts ∧ AllRunning (Call.Holds k row0.amount) ts ∧
    ∃ row, Released k row0 st ts row

section Releases

variable {k : Uuid} {row0 row row' : EscrowAccount} {env : Env} {st st' : Store} {c : Call}
  {t : Task Call Outcome} {pre post : List (Task Call Outcome)}

theorem released_step (hc : c.isRelease) (h : Released k row0 st (pre ++ .running c :: post) row)
    (he : StepEffect env k row0.amount row c st' t) :
    ∃ row', Released k row0 st' (pre ++ t :: post) row' := by
  cases he with
  | idle hrow hpaid _ =>
    refine ⟨row, hrow, h.amount, ?_, h.le, fun ⟨x, hx⟩ => ?_⟩
    · rw [paid_replace k pre post c t, paidBy_eq_zero hpaid, h.released]
      omega
    · simp only [List.mem_append, List.mem_cons] at hx
      rcases hx with hx | rfl | hx
      · exact h.status ⟨x, by simp [hx]⟩
      · exact absurd rfl (hpaid x)
      · exact h.status ⟨x, by simp [hx]⟩
  | release hseen hpos hle hrow ha hv =>
    rename_i u plan row'
    have hr : row'.releasedAmount.stroops = row.releasedAmount.stroops + plan.releaseStroops :=
      congrArg View.released hv
    have hs : row'.status = _ := congrArg View.status hv
    have hamount := h.amount
    have hreleased := h.released
    refine ⟨row', hrow, ha, ?_, ?_, fun _ => ?_⟩
    · rw [paid_replace k pre post (.release k u plan), paidBy_paid, hr]
      omega
    · rw [hr, ha, ← hamount]
      rw [EscrowAccount.remainder] at hle
      omega
    · rw [hs, hr, ha, ← hamount]
      rfl
  | close hc' _ _ _ _ =>
    obtain ⟨op, rfl⟩ | rfl := hc' <;> exact hc.elim
  | expire => exact hc.elim

theorem releaseInv_step (s : Store) (pre : List (Task Call Outcome)) (c : Call)
    (post : List (Task Call Outcome)) (env : Env)
    (h : ReleaseInv k row0 s (pre ++ .running c :: post)) :
    ReleaseInv k row0 (advance env c s).1 (pre ++ (advance env c s).2 :: post) := by
  obtain ⟨hrel, hold, row, hr⟩ := h
  obtain ⟨-, hnext⟩ := advance_release env hrel.here s
  have he := advance_effect env hold.here hr.stored hr.amount
  exact ⟨hrel.replace hnext, hold.replace he.next, released_step hrel.here hr he⟩

theorem releaseInv_run (hrow : st.db.escrow? k = some row0)
    (hle : row0.releasedAmount.stroops ≤ row0.amount.stroops) {acts : List (Act Env FundOp)}
    (hrel : ∀ op, .spawn op ∈ acts → op.isRelease) :
    Always fundProc.step (fun c => ReleaseInv k row0 c.shared c.tasks) (Conf.init st) acts := by
  refine always_of_inv (I := fun c => ReleaseInv k row0 c.shared c.tasks) (fun _ h => h) ?_ ?_
    (along_of_spawns fundProc hrel _)
  · refine fun c a h hG => step_inv fundProc ?_ ?_ c a h hG
    · rintro s ts op hop ⟨hr, hh, row, hrow⟩
      refine ⟨hr.spawn hop, hh.spawn trivial, row, hrow.stored, hrow.amount, ?_, hrow.le, ?_⟩
      · rw [paid_append, hrow.released]
        simp [paid, paidBy]
      · rintro ⟨x, hx⟩
        exact hrow.status ⟨x, by simpa using hx⟩
    · exact fun s pre c post env _ h => releaseInv_step s pre c post env h
  · refine ⟨AllRunning.nil, AllRunning.nil, row0, hrow, rfl, ?_, hle, ?_⟩
    · simp [Conf.init]
    · rintro ⟨x, hx⟩
      cases hx

/-- **Concurrent releases conserve.** In every state of every interleaving the stored amount is the
initial one plus what was paid, it stays within the escrow, and a paid escrow is SETTLED or
PARTIALLY_RELEASED as its amount says; a call that ends in an error has changed no table in any of
its steps. -/
theorem releases_conserve (hrow : st.db.escrow? k = some row0)
    (hle : row0.releasedAmount.stroops ≤ row0.amount.stroops) (acts : List (Act Env FundOp))
    (hrel : ∀ op, .spawn op ∈ acts → op.isRelease) :
    Always fundProc.step (fun c => ∃ row, Released k row0 c.shared c.tasks row) (Conf.init st) acts ∧
    ∀ before i env after e, acts = before ++ .sched i env :: after →
      (run fundProc.step (Conf.init st) acts).tasks[i]? = some (.done (.failed e)) →
      (run fundProc.step (Conf.init st) (before ++ [.sched i env])).shared.db =
        (run fundProc.step (Conf.init st) before).shared.db := by
  have hinv := releaseInv_run hrow hle hrel
  refine ⟨hinv.mono fun _ h => h.2.2, ?_⟩
  rintro before i env after e rfl hfail
  have hb : ReleaseInv k row0 _ _ := hinv.at before
  refine unchanged_of_result fundProc (f := Store.db) (fun c hc => ?_) hfail
  obtain ⟨h | ⟨k', x, hpaid⟩, -⟩ :=
    advance_release env (hb.1 c hc) (run fundProc.step (Conf.init st) before).shared
  · exact .inl h
  · exact .inr ⟨_, hpaid, fun h => by cases h⟩

end Releases

/-- Two releases of 6, both read before either writes. -/
def racingReleases : List (Act Env FundOp) :=
  [.spawn (.releaseFunds 7 9 .admin ⟨some (jsInt 6), none⟩),
    .spawn (.releaseFunds 7 9 .admin ⟨some (jsInt 6), none⟩),
    .sched 0 ⟨0, none⟩, .sched 1 ⟨0, none⟩, .sched 1 ⟨0, none⟩, .sched 0 ⟨0, none⟩]

theorem fundedStore_row :
    ∃ row, fundedStore.db.escrow? 7 = some row ∧ row.view = ⟨.funded, 0, 100000000⟩ :=
  Option.map_eq_some_iff.mp (by decide +kernel)

/-- The second write is refused: 6 of the 10 are paid. -/
theorem racing_releases_pay_once : ∃ row0, fundedStore.db.escrow? 7 = some row0 ∧
    Always fundProc.step (fun c => ∃ row, Released 7 row0 c.shared c.tasks row)
      (Conf.init fundedStore) racingReleases ∧
    paid 7 (run fundProc.step (Conf.init fundedStore) racingReleases).tasks = 60000000 := by
  obtain ⟨row0, hrow, hv⟩ := fundedStore_row
  have hr : row0.releasedAmount.stroops = 0 := congrArg View.released hv
  have ha : row0.amount.stroops = 100000000 := congrArg View.amount hv
  refine ⟨row0, hrow, (releases_conserve hrow (by omega) racingReleases ?_).1, by decide +kernel⟩
  intro op hop
  simp only [racingReleases, List.mem_cons, List.not_mem_nil, or_false, reduceCtorEq,
    Act.spawn.injEq] at hop
  rcases hop with rfl | rfl <;> trivial

/-! ## All operations -/

/-- A write that lands on escrow `k` finds it open and with the amount its call has read. A release
whose guard no longer matches writes nothing and is not asked. -/
def Current (k : Uuid) (st : Store) : Call → Prop
  | .start _ => True
  | .release k' _ plan => k' = k → ∀ row ∈ st.db.escrow? k,
      row.releasedAmount = plan.escrow.releasedAmount → row.status ∉ closedStatuses
  | .close k' _ seen _ | .expire k' seen _ | .refundExpired k' seen _ => k' = k →
      ∀ row ∈ st.db.escrow? k,
        row.status ∉ closedStatuses ∧ row.releasedAmount = seen.releasedAmount

instance Current.decidable (k : Uuid) (st : Store) : ∀ c : Call, Decidable (Current k st c)
  | .start _ => inferInstanceAs (Decidable True)
  | .release _ _ _ => inferInstanceAs (Decidable (_ → _))
  | .close _ _ _ _ => inferInstanceAs (Decidable (_ → _))
  | .expire _ _ _ => inferInstanceAs (Decidable (_ → _))
  | .refundExpired _ _ _ => inferInstanceAs (Decidable (_ → _))

/-- While the escrow is open its row tells what has been paid. -/
structure Paid (k : Uuid) (row0 : EscrowAccount) (st : Store) (ts : List (Task Call Outcome))
    (row : EscrowAccount) : Prop where
  stored : st.db.escrow? k = some row
  amount : row.amount = row0.amount
  opened : row.status ∉ closedStatuses →
    row0.releasedAmount.stroops + paid k ts = row.releasedAmount.stroops
  le : row0.releasedAmount.stroops + paid k ts ≤ row0.amount.stroops

def PaidInv (k : Uuid) (row0 : EscrowAccount) (st : Store) (ts : List (Task Call Outcome)) : Prop :=
  AllRunning (Call.Holds k row0.amount) ts ∧ ∃ row, Paid k row0 st ts row

section All

variable {k : Uuid} {row0 row : EscrowAccount} {env : Env} {st st' : Store} {c : Call}
  {t : Task Call Outcome} {pre post : List (Task Call Outcome)}

theorem paid_step (hc : Current k st c) (h : Paid k row0 st (pre ++ .running c :: post) row)
    (he : StepEffect env k row0.amount row c st' t) :
    ∃ row', Paid k row0 st' (pre ++ t :: post) row' := by
  have hamount := h.amount
  have hle := h.le
  cases he with
  | idle hrow hpaid _ =>
    have hp : paid k (pre ++ t :: post) = paid k (pre ++ .running c :: post) := by
      rw [paid_replace k pre post c t, paidBy_eq_zero hpaid]
      omega
    exact ⟨row, hrow, hamount, hp ▸ h.opened, hp ▸ hle⟩
  | release hseen hpos hrem hrow ha hv =>
    rename_i u plan row'
    have hr : row'.releasedAmount.stroops = row.releasedAmount.stroops + plan.releaseStroops :=
      congrArg View.released hv
    have hopen := h.opened (hc rfl row h.stored hseen)
    have hp := paid_replace k pre post (.release k u plan) (.done (.paid k plan.releaseStroops))
    rw [paidBy_paid] at hp
    rw [EscrowAccount.remainder, hamount] at hrem
    exact ⟨row', hrow, ha, fun _ => by rw [hp, hr]; omega, by rw [hp]; omega⟩
  | close hcall hseen hrow ha hst =>
    rename_i seen entity
    have hcur : row.status ∉ closedStatuses ∧ row.releasedAmount = seen.releasedAmount := by
      obtain ⟨op, rfl⟩ | rfl := hcall
      · exact hc rfl row h.stored
      · exact hc rfl row h.stored
    have hopen := h.opened hcur.1
    have hp := paid_replace k pre post c (.done (.paid k seen.remainder))
    have hrem : seen.remainder = row0.amount.stroops - row.releasedAmount.stroops := by
      rw [EscrowAccount.remainder, hseen, hcur.2]
    rw [paidBy_paid] at hp
    exact ⟨entity, hrow, ha, fun hne => absurd hst hne, by omega⟩
  | expire hrow ha hrel hst hnext =>
    rename_i seen entity
    obtain ⟨hne, hcur⟩ := hc rfl row h.stored
    have hp := paid_replace k pre post (.expire k seen entity)
      (.running (.refundExpired k seen (handleTimeout.refund env.now entity)))
    rw [paidBy_running, Int.add_zero] at hp
    exact ⟨entity, hrow, ha, fun _ => by rw [hp, hrel, ← hcur]; exact h.opened hne, hp ▸ hle⟩

/-- **In every interleaving whose writes land on an open and unchanged row, what was released
before and what the calls pay stays within the amount of the escrow.** -/
theorem paid_le_of_current (hrow : st.db.escrow? k = some row0)
    (hle : row0.releasedAmount.stroops ≤ row0.amount.stroops) (acts : List (Act Env FundOp))
    (hcur : Along fundProc.step (Meets (fun _ => True) fun _ c s _ => Current k s c)
      (Conf.init st) acts) :
    Always fundProc.step
      (fun c => row0.releasedAmount.stroops + paid k c.tasks ≤ row0.amount.stroops)
      (Conf.init st) acts := by
  refine always_of_inv (I := fun c => PaidInv k row0 c.shared c.tasks)
    (fun c h => by obtain ⟨-, row, h⟩ := h; exact h.le) ?_ ?_ hcur
  · refine fun c a h hG => step_inv fundProc ?_ ?_ c a h hG
    · rintro s ts op - ⟨hh, row, h⟩
      have hp : paid k (ts ++ [.running (fundProc.start op)]) = paid k ts := by
        rw [paid_append]
        simp [paid, paidBy]
      exact ⟨hh.spawn trivial, row, h.stored, h.amount, hp ▸ h.opened, hp ▸ h.le⟩
    · rintro s pre c post env hc ⟨hh, row, h⟩
      have he := advance_effect env hh.here h.stored h.amount
      exact ⟨hh.replace he.next, paid_step hc h he⟩
  · exact ⟨AllRunning.nil, row0, hrow, rfl, fun _ => by simp [Conf.init], by simpa [Conf.init]⟩

end All

/-- The creator's refund has read the row when an admin releases all of it. -/
def racedRefund : List (Act Env FundOp) :=
  [.spawn (.refundEscrow 7 1 .user), .spawn (.releaseFunds 7 9 .admin ⟨none, none⟩),
    .sched 0 ⟨0, none⟩, .sched 1 ⟨0, none⟩, .sched 1 ⟨0, none⟩, .sched 0 ⟨0, none⟩]

/-- Both go through, and 20 is paid out of 10. -/
theorem raced_refund_overpays : ∃ row0, fundedStore.db.escrow? 7 = some row0 ∧
    row0.releasedAmount.stroops = 0 ∧ row0.amount.stroops = 100000000 ∧
    ¬ Always fundProc.step
      (fun c => row0.releasedAmount.stroops + paid 7 c.tasks ≤ row0.amount.stroops)
      (Conf.init fundedStore) racedRefund := by
  obtain ⟨row0, hrow, hv⟩ := fundedStore_row
  have hr : row0.releasedAmount.stroops = 0 := congrArg View.released hv
  have ha : row0.amount.stroops = 100000000 := congrArg View.amount hv
  refine ⟨row0, hrow, hr, ha, fun h => ?_⟩
  have hlast := h.last
  have hpaid : paid 7 (run fundProc.step (Conf.init fundedStore) racedRefund).tasks = 200000000 := by
    decide +kernel
  omega

/-- A release of 4, and after it a second one of the rest. -/
def serialReleases : List (Act Env FundOp) :=
  [.spawn (.releaseFunds 7 9 .admin ⟨some (jsInt 4), none⟩), .sched 0 ⟨0, none⟩, .sched 0 ⟨0, none⟩,
    .spawn (.releaseFunds 7 9 .admin ⟨none, none⟩), .sched 1 ⟨0, none⟩, .sched 1 ⟨0, none⟩]

theorem paid_le_serial_releases : ∃ row0, fundedStore.db.escrow? 7 = some row0 ∧
    Always fundProc.step
      (fun c => row0.releasedAmount.stroops + paid 7 c.tasks ≤ row0.amount.stroops)
      (Conf.init fundedStore) serialReleases ∧
    paid 7 (run fundProc.step (Conf.init fundedStore) serialReleases).tasks = 100000000 := by
  obtain ⟨row0, hrow, hv⟩ := fundedStore_row
  have hr : row0.releasedAmount.stroops = 0 := congrArg View.released hv
  have ha : row0.amount.stroops = 100000000 := congrArg View.amount hv
  exact ⟨row0, hrow, paid_le_of_current hrow (by omega) serialReleases (by decide +kernel),
    by decide +kernel⟩

end Escrow
end TradeCore
