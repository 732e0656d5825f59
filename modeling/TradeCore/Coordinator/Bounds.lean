import TradeCore.Coordinator.Atomicity

/-!
# TradeCore.Coordinator.Bounds

The outputs of the legs of a committed batch, against the bounds the legs were created with.

`commitPhase` runs `checkPostCommit` after it has saved the batch as committed, and only writes the
verdict to the audit log; an output above the maximum is a warning in that verdict. What a contract
returns is what ends up in the tables (`bounded_iff_outputs`).
-/

namespace TradeCore
namespace Coordinator

open Lib

/-- The actual output of a leg lies within its bounds. -/
def BatchLeg.InBounds (leg : BatchLeg) : Prop :=
  ∀ x, leg.actualOutput = some x →
    ∃ q, x = some q ∧ leg.minAmountOut ≤ q ∧ ∀ max, leg.maxAmountOut = some max → q ≤ max

/-- What is asked of a batch that is committed. -/
def Bounded (s : Exec) : Prop :=
  (∀ l ∈ s.legs, l.row.status = .executed → l.row.InBounds) ∧
    (checkPostCommit (s.legs.map (·.row))).passed = true

/-- An `amount_out` that is missing, or a number that is stored within the bounds of the leg. -/
def OutputWithin (leg : BatchLeg) (amountOut : Option Num) : Prop :=
  ∀ x, amountOut = some x →
    ∃ q, x = some q ∧ 0 ≤ column q ∧ leg.minAmountOut ≤ column q ∧
      ∀ max, leg.maxAmountOut = some max → column q ≤ max

theorem checkPostCommit_passed {legs : List BatchLeg} :
    (checkPostCommit legs).passed = true ↔
      ∀ l ∈ legs, (l.status = .skipped ∨ l.status = .executed ∨ l.status = .rolledBack) ∧
        (l.status = .executed → ∀ q, l.actualOutput = some (some q) → 0 ≤ q ∧ l.minAmountOut ≤ q) := by
  simp only [checkPostCommit, buildResult, noLeg, List.all_cons, List.all_nil, if_true, reduceCtorEq,
    if_false, Bool.and_true, Bool.and_eq_true, Bool.not_eq_true', List.any_eq_false]
  rw [← forall₂_and, ← forall₂_and]
  refine forall₂_congr fun l _ => ?_
  refine and_congr (by cases l.status <;> decide) ?_
  by_cases hex : l.status = .executed
  · cases hout : l.actualOutput with
    | none => simp [hex]
    | some x =>
      cases x with
      | none => simp [hex, Num.lt]
      | some q => simp [hex, Num.lt]
  · simp [hex]

section Committed

variable {w : World} {batch : TransactionBatch} {legs : List BatchLeg}

theorem rollbackPhase_committed {s : Exec} (h : (rollbackPhase w s).1.row.status = .committed) :
    s.row.status = .committed ∧ (rollbackPhase w s).1.legs = s.legs := by
  cases hsave : w.batchFails .saveRollingBack with
  | true =>
    rw [rollbackPhase_failed hsave] at h ⊢
    exact ⟨h, rfl⟩
  | false =>
    by_cases hdone : RollsBack w s.executedDesc
    · rw [(rollbackPhase_done hdone).1] at h
      cases h
    · rw [rollbackPhase_stuck hdone hsave] at h
      cases h

/-- A batch is left committed only with all its legs executed or skipped. -/
theorem executeBatch_committed (hc : Created batch legs)
    (h : (executeBatch w batch legs).1.row.status = .committed) :
    ReachesCommit w batch legs ∧ Commits w legs ∧
      (executeBatch w batch legs).1.legs = executedLegs w (legs.map .fresh) := by
  by_cases hr : ReachesCommit w batch legs
  · obtain ⟨s, t, hlegs, hrow, hfailed, hsort, hbody⟩ := body_of_reachesCommit hc hr
    by_cases hcom : Commits w legs
    · refine ⟨hr, hcom, ?_⟩
      rw [if_pos (hfailed.mpr hcom)] at hbody
      obtain ⟨s1, hs1, ⟨-, -, hfin⟩ | ⟨-, -, ⟨-, hfin⟩ | ⟨-, hfin⟩⟩⟩ := finish_cases w t s
      · rw [executeBatch_of_none (hbody.trans hfin)] at h ⊢
        rw [(rollbackPhase_committed h).2, hs1, hlegs]
      · rw [executeBatch_of_none (hbody.trans hfin)] at h ⊢
        rw [(rollbackPhase_committed h).2, hs1, hlegs]
      · unfold executeBatch
        rw [hbody.trans hfin]
        exact hs1.trans hlegs
    · rw [if_neg fun h => hcom (hfailed.mp h)] at hbody
      obtain ⟨s1, -, ⟨-, hrow1, hundo⟩ | ⟨-, -, hrow1, ⟨-, hundo⟩ | ⟨-, hundo⟩⟩⟩ :=
        undo_cases (w := w) commitsDesc_nodup hsort (executed_of_commitsDesc hlegs)
      · rw [executeBatch_of_none (hbody.trans hundo)] at h
        have hrow' := (rollbackPhase_committed h).1
        rw [hrow1, hrow] at hrow'
        cases hrow'
      · rw [executeBatch_of_none (hbody.trans hundo)] at h
        have hrow' := (rollbackPhase_committed h).1
        rw [hrow1] at hrow'
        cases hrow'
      · unfold executeBatch at h
        rw [hbody.trans hundo] at h
        rw [show s1.row.status = .committed from h] at hrow1
        cases hrow1
  · obtain ⟨hnone, hcommitted, -⟩ := body_of_not_reachesCommit hc hr
    generalize hbody : executeBatch.body w (.start batch legs) = b at hnone hcommitted
    obtain ⟨s, res⟩ := b
    cases hnone
    rw [executeBatch_of_none hbody] at h
    exact absurd (rollbackPhase_committed h).1 hcommitted

theorem committed_row {i : Nat} {leg : BatchLeg} (hout : leg.actualOutput = none)
    (hc : (skips w i leg || commits w i) = true) :
    let row := (commitLeg w i ((LegState.fresh leg).readied w i)).row
    (skips w i leg = true ∧ row.status = .skipped) ∨
      (skips w i leg = false ∧ row.status = .executed ∧ row.minAmountOut = leg.minAmountOut ∧
        row.maxAmountOut = leg.maxAmountOut ∧
        row.actualOutput = ((w.invoked i).bind Invocation.amountOut).map (Option.map column)) := by
  have hview := congrArg Prod.fst (commitLeg_view w i leg)
  cases hs : skips w i leg with
  | true =>
    rw [hs] at hview
    exact .inl ⟨rfl, hview⟩
  | false =>
    rw [hs, Bool.false_or] at hc
    have hskip : skips w i (LegState.fresh leg).leg = false := hs
    refine .inr ⟨rfl, ?_⟩
    simp only [commitLeg, Bool.false_eq_true, if_false, executeLeg_of_commits hc,
      LegState.executed, LegState.readied, hskip]
    refine ⟨rfl, rfl, rfl, ?_⟩
    show Option.map (Option.map column) (Option.orElse _ fun _ => leg.actualOutput) = _
    rw [hout]
    cases (w.invoked i).bind Invocation.amountOut <;> rfl

theorem committed_row_iff {i : Nat} {leg : BatchLeg} (hout : leg.actualOutput = none)
    (hc : (skips w i leg || commits w i) = true) :
    let row := (commitLeg w i ((LegState.fresh leg).readied w i)).row
    ((row.status = .executed → row.InBounds) ∧
      (row.status = .skipped ∨ row.status = .executed ∨ row.status = .rolledBack) ∧
      (row.status = .executed → ∀ q, row.actualOutput = some (some q) →
        0 ≤ q ∧ row.minAmountOut ≤ q)) ↔
      (skips w i leg = false → OutputWithin leg ((w.invoked i).bind Invocation.amountOut)) := by
  have hrow := committed_row hout hc
  generalize (commitLeg w i ((LegState.fresh leg).readied w i)).row = row at hrow ⊢
  generalize (w.invoked i).bind Invocation.amountOut = out at hrow ⊢
  dsimp only at hrow ⊢
  rcases hrow with ⟨hs, hstatus⟩ | ⟨hs, hstatus, hmin, hmax, hactual⟩
  · simp [hs, hstatus]
  · simp only [hs, hstatus, true_implies, or_true, true_or, true_and, BatchLeg.InBounds, OutputWithin, hmin,
      hmax, hactual]
    constructor
    · rintro ⟨hin, hcheck⟩ x rfl
      obtain ⟨q', hq', hlo, hhi⟩ := hin _ rfl
      cases x with
      | none => cases hq'
      | some q =>
        cases hq'
        exact ⟨q, rfl, (hcheck _ rfl).1, hlo, hhi⟩
    · intro hwithin
      cases out with
      | none => exact ⟨nofun, nofun⟩
      | some x =>
        obtain ⟨q, rfl, hpos, hlo, hhi⟩ := hwithin x rfl
        refine ⟨?_, ?_⟩
        · intro y hy
          cases hy
          exact ⟨column q, rfl, hlo, hhi⟩
        · intro y hy
          cases hy
          exact ⟨hpos, hlo⟩

/-- In every batch that is left committed: the outputs lie within the bounds and the check on the
final tables passes exactly when every contract returned an output within the bounds of its leg. -/
theorem bounded_iff_outputs (h : NotExecuted batch legs)
    (hcom : (executeBatch w batch legs).1.row.status = .committed) :
    Bounded (executeBatch w batch legs).1 ↔
      ∀ i leg, legs[i]? = some leg → skips w i leg = false →
        OutputWithin leg ((w.invoked i).bind Invocation.amountOut) := by
  have hc := h.created
  obtain ⟨-, hall, hlegs⟩ := executeBatch_committed hc hcom
  have hrows : ∀ q : BatchLeg → Prop,
      (∀ l ∈ (executeBatch w batch legs).1.legs.map (·.row), q l) ↔
        ∀ i leg, legs[i]? = some leg → q (commitLeg w i ((LegState.fresh leg).readied w i)).row := by
    intro q
    rw [hlegs]
    exact forall_mapIdx_fresh
  have hbounded : Bounded (executeBatch w batch legs).1 ↔
      ∀ l ∈ (executeBatch w batch legs).1.legs.map (·.row), (l.status = .executed → l.InBounds) ∧
        (l.status = .skipped ∨ l.status = .executed ∨ l.status = .rolledBack) ∧
        (l.status = .executed → ∀ q, l.actualOutput = some (some q) → 0 ≤ q ∧ l.minAmountOut ≤ q) := by
    unfold Bounded
    rw [checkPostCommit_passed]
    simp only [List.mem_map, forall_exists_index, and_imp, forall_apply_eq_imp_iff₂]
    exact forall₂_and.symm
  rw [hbounded, hrows]
  exact forall₃_congr fun i leg hleg =>
    committed_row_iff (hc.output leg (List.mem_of_getElem? hleg)).2 (hall i leg hleg)

end Committed

/-- The contract of a leg that asks for at least 1 and at most 20. -/
def payingWorld (amountOut : ℚ) : World :=
  { calm with invoke := fun _ _ => .ok ⟨"hash", some (some amountOut)⟩ }

def oneLeg : CreateBatchDto := ⟨[plainLeg "USD" "EUR" []]⟩

/-- The contract pays half of the minimum, and the batch is committed. -/
theorem short_output_committed :
    ∃ c, createBatch plainId oneLeg = .ok c ∧
      (executeBatch (payingWorld (1 / 2)) c.batch c.legs).1.row.status = .committed ∧
      ¬ Bounded (executeBatch (payingWorld (1 / 2)) c.batch c.legs).1 := by
  obtain ⟨c, hc, hrow, hcheck⟩ : ∃ c, createBatch plainId oneLeg = .ok c ∧
      (executeBatch (payingWorld (1 / 2)) c.batch c.legs).1.row.status = .committed ∧
      (checkPostCommit ((executeBatch (payingWorld (1 / 2)) c.batch c.legs).1.legs.map (·.row))).passed =
        false :=
    ⟨_, rfl, by decide +kernel, by decide +kernel⟩
  exact ⟨c, hc, hrow, fun h => by rw [h.2] at hcheck; cases hcheck⟩

theorem full_output_bounded :
    ∃ c, createBatch plainId oneLeg = .ok c ∧
      (executeBatch (payingWorld 15) c.batch c.legs).1.row.status = .committed ∧
      Bounded (executeBatch (payingWorld 15) c.batch c.legs).1 := by
  obtain ⟨c, hc, hlegs, hrow⟩ : ∃ c, createBatch plainId oneLeg = .ok c ∧
      c.legs = [createBatch.legRow plainId (plainLeg "USD" "EUR" []) 0] ∧
      (executeBatch (payingWorld 15) c.batch c.legs).1.row.status = .committed :=
    ⟨_, rfl, rfl, by decide +kernel⟩
  refine ⟨c, hc, hrow, (bounded_iff_outputs ⟨plainId, oneLeg, c, hc, rfl, .inl rfl⟩ hrow).mpr ?_⟩
  intro i leg hleg _ x hx
  rw [hlegs] at hleg
  obtain ⟨rfl, rfl⟩ : i = 0 ∧ createBatch.legRow plainId (plainLeg "USD" "EUR" []) 0 = leg := by
    match i with
    | 0 => exact ⟨rfl, by simpa using hleg⟩
    | i + 1 => simp at hleg
  cases hx
  refine ⟨15, rfl, ?_, ?_, ?_⟩
  · decide +kernel
  · decide +kernel
  · intro max hmax
    cases hmax
    decide +kernel

end Coordinator
end TradeCore
