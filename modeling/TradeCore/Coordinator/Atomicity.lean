import TradeCore.Coordinator.Phases

/-!
# TradeCore.Coordinator.Atomicity

What `executeBatch` leaves in the tables, for every pattern of failures.

`rollbackPhase` rolls back the legs that are stored as executed and no others, so that legs prepared
before another one failed stay prepared. `executeLeg` marks a leg as failed when a write after the
invocation fails. `Recovers` lists the patterns of failures after which the tables still say what
happened; `atomic_iff_recovers` shows that there are no others.
-/

namespace TradeCore
namespace Coordinator

open Lib

/-- The rows of a batch that has not been executed: as `createBatch` stores them, without legs when
it failed in between. -/
def NotExecuted (batch : TransactionBatch) (legs : List BatchLeg) : Prop :=
  ∃ id dto c, createBatch id dto = .ok c ∧ batch = c.batch ∧ (legs = c.legs ∨ legs = [])

/-- The batch is committed with every leg executed that is not skipped, or rolled back with no leg
left between two states; and no leg counts as failed whose contract has been invoked. -/
def Atomic (s : Exec) : Prop :=
  ((s.row.status = .committed ∧ ∀ l ∈ s.legs, l.row.status ≠ .skipped → l.row.status = .executed) ∨
    (s.row.status = .rolledBack ∧
      (∀ l ∈ s.legs, l.row.status ∉ [.executed, .executing, .prepared, .preparing]) ∧
      (checkPostRollback s.row (s.legs.map (·.row))).passed = true)) ∧
  ∀ l ∈ s.legs, l.invoked = true → l.row.status ≠ .failed

/-! ## When the tables recover -/

/-- The calls before the first leg is prepared succeed. -/
def StartsLegs (w : World) (batch : TransactionBatch) (legs : List BatchLeg) : Prop :=
  legs ≠ [] ∧ w.batchFails .auditPrepareStarted = false ∧
    (checkPreExecution batch legs).passed = true ∧ w.batchFails .savePreparing = false

/-- The calls before the first leg is executed succeed. -/
def ReachesCommit (w : World) (batch : TransactionBatch) (legs : List BatchLeg) : Prop :=
  StartsLegs w batch legs ∧ Prepares w legs ∧ w.batchFails .saveCommitting = false ∧
    w.batchFails .auditCommitStarted = false

/-- A leg that throws and whose row says so: failed when its contract has not been invoked, executed
when it has. -/
def failsCleanly (w : World) (i : Nat) : Bool :=
  !w.legFails i .saveExecuting &&
    if (w.invoked i).isSome then !w.legFails i .saveExecuted && w.legFails i .saveExecuteFailed
    else !w.legFails i .saveExecuteFailed

/-- The legs stored as executed when the rollback of the commit phase has ended or thrown. -/
def leftExecuted (w : World) (legs : List BatchLeg) (i : Nat) : Bool :=
  if commits w i then
    decide (i ∉ reached w .inCommit (commitsDesc w legs)) || w.legFails i (.saveRollingBack .inCommit)
  else (w.invoked i).isSome

/-- The rollback phase comes to its end, with the legs `p` stored as executed. -/
def RollsBackLegs (w : World) (legs : List BatchLeg) (p : Nat → Bool) : Prop :=
  w.batchFails .saveRollingBack = false ∧ w.batchFails .auditRollbackStarted = false ∧
    (EachLeg legs fun i leg => skips w i leg || !p i || undoes w .inPhase i) ∧
    w.batchFails .saveRollbackDone = false

/-- The patterns of failures that the rollbacks can deal with. -/
def Recovers (w : World) (batch : TransactionBatch) (legs : List BatchLeg) : Prop :=
  (¬ ReachesCommit w batch legs →
    RollsBackLegs w legs (fun _ => false) ∧
      (StartsLegs w batch legs → EachLeg legs fun i leg => !leavesOpen w i leg)) ∧
  (ReachesCommit w batch legs →
    (Commits w legs →
      (w.batchFails .saveCommitted = false ∧
        (w.batchFails .auditPostCommit = false ∧ w.batchFails .auditCommitted = false ∨
          w.batchFails .saveRollingBack = true)) ∨
      RollsBackLegs w legs fun _ => true) ∧
    (¬ Commits w legs →
      (EachLeg legs fun i leg => skips w i leg || commits w i || failsCleanly w i) ∧
      ((w.batchFails .saveRolledBack = false ∧ (commitsDesc w legs).all (undoes w .inCommit) = true ∧
          (EachLeg legs fun i leg => skips w i leg || commits w i || (w.invoked i).isNone) ∧
          (w.batchFails .auditRolledBack = false ∨ w.batchFails .saveRollingBack = true)) ∨
        ((w.batchFails .saveRolledBack = true ∨ (commitsDesc w legs).all (undoes w .inCommit) = false ∨
            w.batchFails .auditRolledBack = true) ∧
          RollsBackLegs w legs (leftExecuted w legs)))))

/-! ## The final tables -/

/-- A leg that is not between two states and not failed after an invocation. -/
def Settled (v : LegStatus × Bool) : Prop :=
  v.1 ∉ [.executed, .executing, .prepared, .preparing] ∧ (v.2 = true → v.1 ≠ .failed)

theorem settled_iff_of_not_invoked {v : LegStatus × Bool} (h : v.2 = false) (hexecuted : v.1 ≠ .executed)
    (hexecuting : v.1 ≠ .executing) : Settled v ↔ (v.1 = .preparing ∨ v.1 = .prepared) → False := by
  simp [Settled, h, hexecuted, hexecuting, and_comm]

section Final

variable {w : World} {s : Exec}

theorem atomic_iff_settled (h : s.row.status ≠ .committed) :
    Atomic s ↔ s.row.status = .rolledBack ∧ ∀ v ∈ s.legs.map (·.view), Settled v := by
  have hcheck : s.row.status = .rolledBack →
      (∀ l ∈ s.legs, l.row.status ∉ [.executed, .executing, .prepared, .preparing]) →
      (checkPostRollback s.row (s.legs.map (·.row))).passed = true := by
    intro hrow hlegs
    simp only [checkPostRollback, buildResult, noLeg, hrow, List.all_cons, List.all_nil]
    simp only [if_true, true_or, decide_true, Bool.and_true, Bool.not_eq_true', List.any_eq_false,
      List.mem_map, forall_exists_index, and_imp, forall_apply_eq_imp_iff₂]
    intro l hl
    have := hlegs l hl
    simp only [List.mem_cons, not_or] at this
    simp [this]
  unfold Atomic Settled
  simp only [h, false_and, false_or, List.mem_map, LegState.view]
  constructor
  · rintro ⟨⟨hrow, hlegs, -⟩, hinv⟩
    refine ⟨hrow, ?_⟩
    rintro v ⟨l, hl, rfl⟩
    exact ⟨hlegs l hl, hinv l hl⟩
  · rintro ⟨hrow, hall⟩
    have hlegs : ∀ l ∈ s.legs, l.row.status ∉ [.executed, .executing, .prepared, .preparing] :=
      fun l hl => (hall _ ⟨l, hl, rfl⟩).1
    exact ⟨⟨hrow, hlegs, hcheck hrow hlegs⟩, fun l hl => (hall _ ⟨l, hl, rfl⟩).2⟩

/-- What the rollback phase makes of the tables. -/
theorem atomic_rollbackPhase :
    Atomic (rollbackPhase w s).1 ↔
      if w.batchFails .saveRollingBack then Atomic s
      else RollsBack w s.executedDesc ∧ ∀ v ∈ s.legs.map (·.view), Settled (undone v) := by
  cases hsave : w.batchFails .saveRollingBack with
  | true =>
    rw [rollbackPhase_failed hsave]
    rfl
  | false =>
    by_cases hdone : RollsBack w s.executedDesc
    · obtain ⟨hrow, hlegs⟩ := rollbackPhase_done hdone
      rw [atomic_iff_settled (by rw [hrow]; decide), hrow, hlegs]
      simp [hdone]
    · have hrow := rollbackPhase_stuck hdone hsave
      rw [atomic_iff_settled (by rw [hrow]; decide), hrow]
      simp [hdone]

theorem mem_executedDesc_iff {i : Nat} {l : LegState} (h : s.legs[i]? = some l) :
    i ∈ s.executedDesc ↔ l.view.1 = .executed := by
  rw [mem_executedDesc, h]
  exact ⟨fun ⟨l', hl', hex⟩ => Option.some.inj hl' ▸ hex, fun hex => ⟨l, rfl, hex⟩⟩

/-- The rollback phase on tables in which the legs `p` are stored as executed. -/
theorem rollsBack_iff {legs : List BatchLeg} {p : Nat → Bool} (hlen : s.legs.length = legs.length)
    (h : ∀ i leg, legs[i]? = some leg →
      (i ∈ s.executedDesc ↔ skips w i leg = false ∧ p i = true)) :
    RollsBack w s.executedDesc ↔ RollsBackLegs w legs p := by
  unfold RollsBack RollsBackLegs
  rw [List.all_eq_true]
  refine and_congr_right fun _ => and_congr_right fun _ => and_congr_left fun _ => ?_
  constructor
  · intro hall i leg hleg
    by_cases hi : i ∈ s.executedDesc
    · simp [hall i hi]
    · rw [h i leg hleg, not_and] at hi
      cases hs : skips w i leg with
      | true => simp [hs]
      | false => simp [hi hs]
  · intro hall i hi
    obtain ⟨l, hl, -⟩ := mem_executedDesc.mp hi
    obtain ⟨hlt, -⟩ := List.getElem?_eq_some_iff.mp hl
    obtain ⟨leg, hleg⟩ : ∃ leg, legs[i]? = some leg :=
      ⟨_, List.getElem?_eq_getElem (hlen ▸ hlt)⟩
    obtain ⟨hskip, hp⟩ := (h i leg hleg).mp hi
    simpa [hskip, hp] using hall i leg hleg

end Final

/-! ## Up to the commit phase -/

section Created

variable {w : World} {batch : TransactionBatch} {legs : List BatchLeg}

/-- What is known of the rows of a batch that has not been executed. -/
structure Created (batch : TransactionBatch) (legs : List BatchLeg) : Prop where
  status : batch.status = .created
  untouched : Untouched (legs.map .fresh)
  output : ∀ leg ∈ legs, leg.expectedOutput = none ∧ leg.actualOutput = none

theorem NotExecuted.created (h : NotExecuted batch legs) : Created batch legs := by
  obtain ⟨id, dto, c, hc, rfl, hlegs⟩ := h
  obtain ⟨-, hrows, hbatch, -⟩ := createBatch_ok hc
  have hstatus : c.batch.status = .created := by rw [hbatch]
  rcases hlegs with rfl | rfl
  · refine ⟨hstatus, ⟨?_, ?_⟩, ?_⟩
    · rw [List.map_map]
      exact (List.map_id c.legs).symm ▸ (stored_of_createBatch hc).1
    · intro l hl
      obtain ⟨leg, hleg, rfl⟩ := List.mem_map.mp hl
      rw [hrows] at hleg
      obtain ⟨p, -, rfl⟩ := List.mem_map.mp hleg
      exact ⟨rfl, rfl⟩
    · intro leg hleg
      rw [hrows] at hleg
      obtain ⟨p, -, rfl⟩ := List.mem_map.mp hleg
      exact ⟨rfl, rfl⟩
  · exact ⟨hstatus, ⟨by simp [Stored], by simp⟩, by simp⟩

theorem map_fresh (legs : List BatchLeg) : (legs.map LegState.fresh).map (·.leg) = legs := by
  rw [List.map_map]
  exact List.map_id legs

theorem checkPreExecution_start (batch : TransactionBatch) (legs : List BatchLeg) :
    checkPreExecution (Exec.start batch legs).batch ((Exec.start batch legs).legs.map (·.leg)) =
      checkPreExecution batch legs := by
  rw [show (Exec.start batch legs).legs = legs.map .fresh from rfl, map_fresh]
  rfl

/-- An execution that throws before a leg is executed. -/
theorem body_of_not_reachesCommit (hc : Created batch legs) (h : ¬ ReachesCommit w batch legs) :
    (executeBatch.body w (.start batch legs)).2 = none ∧
      (executeBatch.body w (.start batch legs)).1.row.status ≠ .committed ∧
      (executeBatch.body w (.start batch legs)).1.row.status ≠ .rolledBack ∧
      (StartsLegs w batch legs →
        (executeBatch.body w (.start batch legs)).1.legs = preparedLegs w (legs.map .fresh)) ∧
      (¬ StartsLegs w batch legs →
        (executeBatch.body w (.start batch legs)).1.legs = legs.map .fresh) := by
  have hstart : (Exec.start batch legs).row.status = .created := hc.status
  have hpre := checkPreExecution_start batch legs
  unfold executeBatch.body
  rw [hpre]
  by_cases hne : (Exec.start batch legs).legs = []
  · have hnil : legs = [] := List.map_eq_nil_iff.mp hne
    rw [if_pos hne]
    refine ⟨rfl, by rw [hstart]; decide, by rw [hstart]; decide, fun h => ?_, fun _ => rfl⟩
    exact absurd hnil h.1
  · have hne' : legs ≠ [] := fun hnil => hne (by simp [Exec.start, hnil])
    rw [if_neg hne]
    cases haudit : w.batchFails .auditPrepareStarted with
    | true => simp [hc.status, StartsLegs, haudit, Exec.start]
    | false =>
      cases hcheck : (checkPreExecution batch legs).passed with
      | false => simp [hc.status, StartsLegs, hcheck, Exec.start]
      | true =>
        obtain ⟨hlegs, hok, hrow⟩ := preparePhase_spec (w := w) hc.untouched hne
        have hstarts : StartsLegs w batch legs ↔ w.batchFails .savePreparing = false := by
          simp [StartsLegs, hne', haudit, hcheck]
        rw [show (Exec.start batch legs).legs.map (·.leg) = legs from map_fresh legs] at hok
        rw [hstart] at hrow
        have hnot : (preparePhase w (.start batch legs)).1.row.status ≠ .committed ∧
            (preparePhase w (.start batch legs)).1.row.status ≠ .rolledBack := by
          simp only [List.mem_cons, List.not_mem_nil, or_false] at hrow
          rcases hrow with h | h | h <;> rw [h] <;> decide
        simp only [Bool.not_true, Bool.false_eq_true, if_false]
        generalize preparePhase w (.start batch legs) = p at hlegs hok hrow hnot ⊢
        obtain ⟨s, ok⟩ := p
        have hlegs' : (StartsLegs w batch legs → s.legs = preparedLegs w (legs.map .fresh)) ∧
            (¬ StartsLegs w batch legs → s.legs = legs.map .fresh) := by
          rw [hstarts]
          refine ⟨fun h => ?_, fun h => ?_⟩
          · simpa [h, Exec.start] using hlegs
          · simpa [h, Exec.start] using hlegs
        cases ok with
        | false => exact ⟨rfl, hnot.1, hnot.2, hlegs'⟩
        | true =>
          have hprep : Prepares w legs := hok.mp rfl
          have hstart' : StartsLegs w batch legs := hstarts.mpr hprep.1
          simp only [commitPhase]
          split
          · exact ⟨rfl, hnot.1, hnot.2, hlegs'⟩
          · rename_i hsave
            split
            · exact ⟨rfl, by simp, by simp, hlegs'⟩
            · rename_i hstarted
              exact absurd ⟨hstart', hprep, by simpa using hsave, by simpa using hstarted⟩ h

/-- An execution that reaches the commit phase. -/
theorem body_of_reachesCommit (hc : Created batch legs) (h : ReachesCommit w batch legs) :
    ∃ s t, s.legs = executedLegs w (legs.map .fresh) ∧ s.row.status = .committing ∧
      (t.failedLegs = [] ↔ Commits w legs) ∧
      t.committedLegs.mergeSort (fun a b => decide (b ≤ a)) = commitsDesc w legs ∧
      executeBatch.body w (.start batch legs) =
        if t.failedLegs = [] then commitPhase.finish w t s else commitPhase.undo w t s := by
  obtain ⟨⟨hne, haudit, hcheck, hsave⟩, hprep, hcommitting, hstarted⟩ := h
  have hne' : (Exec.start batch legs).legs ≠ [] := fun hnil => hne (List.map_eq_nil_iff.mp hnil)
  have hpre := checkPreExecution_start batch legs
  obtain ⟨hlegs, hok, -⟩ := preparePhase_spec (w := w) hc.untouched hne'
  rw [show (Exec.start batch legs).legs.map (·.leg) = legs from map_fresh legs] at hok
  rw [hsave] at hlegs
  have hbody : executeBatch.body w (.start batch legs) =
      commitPhase w (preparePhase w (.start batch legs)).1 := by
    unfold executeBatch.body
    rw [hpre, if_neg hne', haudit, hcheck]
    simp only [Bool.not_true, Bool.false_eq_true, if_false]
    have htrue := hok.mpr hprep
    generalize preparePhase w (.start batch legs) = p at htrue ⊢
    obtain ⟨s, ok⟩ := p
    cases htrue
    rfl
  have hr : EachLeg ((legs.map LegState.fresh).map (·.leg)) (readies w) := by
    rw [map_fresh]
    exact hprep.2.1
  obtain ⟨s, t, h1, h2, h3, h4, h5⟩ := commitPhase_eq hlegs hc.untouched hne' hr hcommitting hstarted
  rw [show (Exec.start batch legs).legs.map (·.leg) = legs from map_fresh legs] at h3 h4
  exact ⟨s, t, h1, h2, h3, h4, hbody.trans h5⟩

theorem executeBatch_of_none {s : Exec} (h : executeBatch.body w (.start batch legs) = (s, none)) :
    (executeBatch w batch legs).1 = (rollbackPhase w s).1 := by
  unfold executeBatch
  rw [h]
  dsimp only
  generalize rollbackPhase w s = r
  obtain ⟨s', ok⟩ := r
  cases ok <;> rfl

/-! ## Without a commit phase -/

theorem mem_mapIdx_fresh {β : Type} {f : Nat → LegState → LegState} {g : LegState → β} {v : β} :
    v ∈ ((legs.map LegState.fresh).mapIdx f).map g ↔
      ∃ i leg, legs[i]? = some leg ∧ v = g (f i (.fresh leg)) := by
  rw [List.mem_map]
  constructor
  · rintro ⟨l, hl, rfl⟩
    obtain ⟨i, hi, rfl⟩ := List.mem_mapIdx.mp hl
    rw [List.length_map] at hi
    exact ⟨i, legs[i], List.getElem?_eq_getElem hi, by rw [List.getElem_map]⟩
  · rintro ⟨i, leg, hleg, rfl⟩
    obtain ⟨hi, rfl⟩ := List.getElem?_eq_some_iff.mp hleg
    refine ⟨_, List.mem_mapIdx.mpr ⟨i, by rw [List.length_map]; exact hi, rfl⟩, ?_⟩
    rw [List.getElem_map]

theorem forall_mapIdx_fresh {β : Type} {f : Nat → LegState → LegState} {g : LegState → β}
    {q : β → Prop} :
    (∀ v ∈ ((legs.map LegState.fresh).mapIdx f).map g, q v) ↔
      ∀ i leg, legs[i]? = some leg → q (g (f i (.fresh leg))) := by
  refine ⟨fun h i leg hleg => h _ (mem_mapIdx_fresh.mpr ⟨i, leg, hleg, rfl⟩), fun h v hv => ?_⟩
  obtain ⟨i, leg, hleg, rfl⟩ := mem_mapIdx_fresh.mp hv
  exact h i leg hleg

theorem fresh_of_created (hc : Created batch legs) {i : Nat} {leg : BatchLeg}
    (hleg : legs[i]? = some leg) : leg.status = .pending :=
  (hc.untouched.fresh (.fresh leg) (List.mem_map.mpr ⟨leg, List.mem_of_getElem? hleg, rfl⟩)).1

theorem atomic_of_not_reachesCommit (hc : Created batch legs) (h : ¬ ReachesCommit w batch legs) :
    Atomic (executeBatch w batch legs).1 ↔
      RollsBackLegs w legs (fun _ => false) ∧
        (StartsLegs w batch legs → EachLeg legs fun i leg => !leavesOpen w i leg) := by
  obtain ⟨hnone, hcommitted, hrolled, hstarts, hnot⟩ := body_of_not_reachesCommit hc h
  generalize hbody : executeBatch.body w (.start batch legs) = b at hnone hcommitted hrolled hstarts hnot
  obtain ⟨s, res⟩ := b
  cases hnone
  rw [executeBatch_of_none hbody, atomic_rollbackPhase, atomic_iff_settled hcommitted]
  have hlen : s.legs.length = legs.length := by
    by_cases hs : StartsLegs w batch legs
    · simp [show s.legs = _ from hstarts hs, preparedLegs]
    · simp [show s.legs = _ from hnot hs]
  -- no leg is executed, so that the rollback phase leaves every leg as it is
  have hviews : ∀ v ∈ s.legs.map (·.view), undone v = v ∧ v.1 ≠ .executed ∧
      (Settled v ↔ (v.1 = .preparing ∨ v.1 = .prepared) → False) := by
    intro v hv
    have hfacts : v.2 = false ∧ v.1 ≠ .executed ∧ v.1 ≠ .executing := by
      by_cases hs : StartsLegs w batch legs
      · rw [show s.legs = _ from hstarts hs] at hv
        obtain ⟨i, leg, hleg, rfl⟩ := mem_mapIdx_fresh.mp hv
        obtain ⟨h1, -, -, h2, h3⟩ := prepareLeg_spec w i (.fresh leg) (fresh_of_created hc hleg)
        exact ⟨h1, h2, h3⟩
      · rw [show s.legs = _ from hnot hs] at hv
        obtain ⟨l, hl, rfl⟩ := List.mem_map.mp hv
        obtain ⟨hrow, hinv⟩ := hc.untouched.fresh l hl
        simp [LegState.view, hrow, hinv]
    obtain ⟨h1, h2, h3⟩ := hfacts
    exact ⟨by simp [undone, h2], h2, settled_iff_of_not_invoked h1 h2 h3⟩
  have hrb : RollsBack w s.executedDesc ↔ RollsBackLegs w legs (fun _ => false) := by
    refine rollsBack_iff hlen fun i leg _ => ?_
    simp only [Bool.false_eq_true, and_false, iff_false]
    intro hi
    obtain ⟨l, hl, hex⟩ := mem_executedDesc.mp hi
    exact (hviews _ (List.mem_map.mpr ⟨l, List.mem_of_getElem? hl, rfl⟩)).2.1 hex
  have hopen : (∀ v ∈ s.legs.map (·.view), Settled v) ↔
      (StartsLegs w batch legs → EachLeg legs fun i leg => !leavesOpen w i leg) := by
    by_cases hs : StartsLegs w batch legs
    · have hl : s.legs = preparedLegs w (legs.map .fresh) := hstarts hs
      simp only [hs, true_implies]
      constructor
      · intro hall i leg hleg
        have hv : (prepareLeg w i [] (.fresh leg)).view ∈ s.legs.map (·.view) := by
          rw [hl]
          exact mem_mapIdx_fresh.mpr ⟨i, leg, hleg, rfl⟩
        have hopen := (prepareLeg_spec w i (.fresh leg) (fresh_of_created hc hleg)).2.2.1
        have hset := (hviews _ hv).2.2.mp (hall _ hv)
        simpa [LegState.fresh] using fun h => hset (hopen.mpr h)
      · intro hall v hv
        refine (hviews v hv).2.2.mpr ?_
        rw [hl] at hv
        obtain ⟨i, leg, hleg, rfl⟩ := mem_mapIdx_fresh.mp hv
        have hopen := (prepareLeg_spec w i (.fresh leg) (fresh_of_created hc hleg)).2.2.1
        have hno : (!leavesOpen w i leg) = true := hall i leg hleg
        intro h
        rw [show leavesOpen w i leg = true from hopen.mp h] at hno
        cases hno
    · have hl : s.legs = legs.map .fresh := hnot hs
      simp only [hs, false_implies, iff_true]
      intro v hv
      refine (hviews v hv).2.2.mpr ?_
      rw [hl] at hv
      obtain ⟨l, hl, rfl⟩ := List.mem_map.mp hv
      have hrow := (hc.untouched.fresh l hl).1
      simp [LegState.view, hrow]
  rw [← hrb, ← hopen]
  have hundone : (∀ v ∈ s.legs.map (·.view), Settled (undone v)) ↔
      ∀ v ∈ s.legs.map (·.view), Settled v :=
    forall₂_congr fun v hv => by rw [(hviews v hv).1]
  rw [hundone]
  cases hsave : w.batchFails .saveRollingBack with
  | true => simp [hrolled, RollsBack, hsave]
  | false => simp

/-! ## With a commit phase -/

/-- A leg as the commit phase leaves it. -/
theorem commitLeg_view (w : World) (i : Nat) (leg : BatchLeg) :
    (commitLeg w i ((LegState.fresh leg).readied w i)).view =
      if skips w i leg then (.skipped, false)
      else if commits w i then (.executed, true)
      else
        (if w.legFails i .saveExecuting then .prepared
          else if !w.legFails i .saveExecuteFailed then .failed
          else if (w.invoked i).isSome && !w.legFails i .saveExecuted then .executed
          else .executing,
          !w.legFails i .saveExecuting && (w.invoked i).isSome) := by
  have hstatus := readied_status w i (.fresh leg)
  cases hs : skips w i leg with
  | true =>
    simp only [commitLeg, LegState.readied, LegState.fresh, hs, if_true]
    rfl
  | false =>
    have hskip : skips w i (LegState.fresh leg).leg = false := hs
    have hrow : ((LegState.fresh leg).readied w i).row.status = .prepared := by
      simp only [LegState.readied, hskip, Bool.false_eq_true, if_false]
      rfl
    have hinv : ((LegState.fresh leg).readied w i).invoked = false := by
      simp only [LegState.readied, hskip, Bool.false_eq_true, if_false]
      rfl
    rw [hskip] at hstatus
    simp only [commitLeg, hstatus, Bool.false_eq_true, if_false, if_true]
    cases hcom : commits w i with
    | true =>
      rw [executeLeg_of_commits hcom]
      rfl
    | false =>
      obtain ⟨-, -, -, h1, h2⟩ := executeLeg_of_not_commits (l := (LegState.fresh leg).readied w i) hcom
      rw [hrow] at h2
      rw [hinv] at h1
      simp only [LegState.view, h2, Bool.false_eq_true, if_false, Prod.mk.injEq, true_and]
      rw [Bool.eq_iff_iff, h1]
      simp

theorem commitLeg_view_of_commits {i : Nat} {leg : BatchLeg} (h : (skips w i leg || commits w i) = true) :
    (commitLeg w i ((LegState.fresh leg).readied w i)).view =
      if skips w i leg then (.skipped, false) else (.executed, true) := by
  rw [commitLeg_view]
  cases hs : skips w i leg with
  | true => rfl
  | false =>
    rw [hs, Bool.false_or] at h
    rw [h]
    rfl

theorem commitLeg_executed {i : Nat} {leg : BatchLeg} (hs : skips w i leg = false)
    (hc : commits w i = true) :
    (commitLeg w i ((LegState.fresh leg).readied w i)).leg.status = .executed := by
  have hstatus := readied_status w i (.fresh leg)
  rw [show skips w i (LegState.fresh leg).leg = false from hs] at hstatus
  simp only [commitLeg, hstatus, Bool.false_eq_true, if_false, if_true]
  rw [executeLeg_of_commits hc]
  rfl

theorem atomic_finish {s : Exec} {t : Tally} (hlegs : s.legs = executedLegs w (legs.map .fresh))
    (hrow : s.row.status = .committing) (hc : Commits w legs)
    (hbody : executeBatch.body w (.start batch legs) = commitPhase.finish w t s) :
    Atomic (executeBatch w batch legs).1 ↔
      (w.batchFails .saveCommitted = false ∧
        (w.batchFails .auditPostCommit = false ∧ w.batchFails .auditCommitted = false ∨
          w.batchFails .saveRollingBack = true)) ∨
      RollsBackLegs w legs fun _ => true := by
  -- the views of the legs, in whatever state of the batch
  have hviews : ∀ {s' : Exec}, s'.legs = s.legs → ∀ v ∈ s'.legs.map (·.view),
      v = (.skipped, false) ∨ v = (.executed, true) := by
    intro s' hs' v hv
    rw [hs', hlegs] at hv
    obtain ⟨i, leg, hleg, rfl⟩ := mem_mapIdx_fresh.mp hv
    rw [commitLeg_view_of_commits (hc i leg hleg)]
    split
    · exact .inl rfl
    · exact .inr rfl
  have hatomic : ∀ {s' : Exec}, s'.legs = s.legs → s'.row.status = .committed → Atomic s' := by
    intro s' hs' hrow'
    refine ⟨.inl ⟨hrow', fun l hl hne => ?_⟩, fun l hl _ => ?_⟩
    · rcases hviews hs' _ (List.mem_map.mpr ⟨l, hl, rfl⟩) with h | h
      · exact absurd (congrArg Prod.fst h) hne
      · exact congrArg Prod.fst h
    · rcases hviews hs' _ (List.mem_map.mpr ⟨l, hl, rfl⟩) with h | h
      · rw [show l.row.status = .skipped from congrArg Prod.fst h]
        decide
      · rw [show l.row.status = .executed from congrArg Prod.fst h]
        decide
  have hback : ∀ {s' : Exec}, s'.legs = s.legs → w.batchFails .saveRollingBack = false →
      (Atomic (rollbackPhase w s').1 ↔ RollsBackLegs w legs fun _ => true) := by
    intro s' hs' hsave
    have hsettled : ∀ v ∈ s'.legs.map (·.view), Settled (undone v) := by
      intro v hv
      rcases hviews hs' v hv with rfl | rfl <;> simp [undone, Settled]
    have hlen : s'.legs.length = legs.length := by simp [hs', hlegs, executedLegs]
    rw [atomic_rollbackPhase, hsave]
    simp only [Bool.false_eq_true, if_false]
    rw [and_iff_left hsettled]
    refine rollsBack_iff hlen fun i leg hleg => ?_
    have hi : s'.legs[i]? = some (commitLeg w i ((LegState.fresh leg).readied w i)) := by
      simp [hs', hlegs, executedLegs, List.getElem?_mapIdx, hleg]
    rw [mem_executedDesc_iff hi, commitLeg_view_of_commits (hc i leg hleg)]
    cases skips w i leg with
    | true => simp
    | false => simp
  have hstuck : ∀ {s' : Exec}, s'.row.status = .committing → ¬ Atomic s' := by
    intro s' hrow' hat
    rw [atomic_iff_settled (by rw [hrow']; decide), hrow'] at hat
    cases hat.1
  obtain ⟨s1, hs1, ⟨hsaved, hrow1, hfin⟩ | ⟨hsaved, hrow1, ⟨haudits, hfin⟩ | ⟨haudits, hfin⟩⟩⟩ :=
    finish_cases w t s
  · rw [executeBatch_of_none (hbody.trans hfin)]
    cases hsave : w.batchFails .saveRollingBack with
    | true =>
      rw [atomic_rollbackPhase, hsave, if_pos rfl]
      simp [hstuck (hrow1 ▸ hrow), RollsBackLegs, hsave, hsaved]
    | false => simp [hback hs1 hsave, hsaved]
  · rw [executeBatch_of_none (hbody.trans hfin)]
    cases hsave : w.batchFails .saveRollingBack with
    | true =>
      rw [atomic_rollbackPhase, hsave, if_pos rfl]
      simp [hatomic hs1 hrow1, hsaved]
    | false =>
      have hno : ¬ (w.batchFails .auditPostCommit = false ∧ w.batchFails .auditCommitted = false) := by
        rcases haudits with h | h <;> simp [h]
      simp [hback hs1 hsave, hno]
  · have hfinal : (executeBatch w batch legs).1 = s1 := by
      unfold executeBatch
      rw [hbody.trans hfin]
    rw [hfinal]
    refine iff_of_true (hatomic hs1 hrow1) (.inl ⟨hsaved, .inl ?_⟩)
    simpa using haudits

theorem mem_commitsDesc {i : Nat} {leg : BatchLeg} (hleg : legs[i]? = some leg) :
    i ∈ commitsDesc w legs ↔ skips w i leg = false ∧ commits w i = true := by
  obtain ⟨hi, -⟩ := List.getElem?_eq_some_iff.mp hleg
  unfold commitsDesc
  rw [List.mem_filter, List.mem_reverse, List.mem_range, hleg]
  simp [hi]

theorem commitsDesc_nodup : (commitsDesc w legs).Nodup :=
  (List.nodup_reverse.mpr List.nodup_range).filter _

theorem mem_of_mem_reached {r : Rollback} {indices : List Nat} {i : Nat} (h : i ∈ reached w r indices) :
    i ∈ indices := by
  unfold reached at h
  rcases List.mem_append.mp h with h | h
  · exact List.takeWhile_subset _ h
  · exact List.dropWhile_subset _ (List.take_subset _ _ h)

theorem reached_nodup {r : Rollback} {indices : List Nat} (h : indices.Nodup) :
    (reached w r indices).Nodup := by
  refine List.Nodup.sublist ?_ h
  unfold reached
  nth_rewrite 3 [← List.takeWhile_append_dropWhile (p := undoes w r) (l := indices)]
  exact (List.Sublist.refl _).append (List.take_sublist _ _)

/-- A leg after the rollback of the commit phase. -/
def undoneLeg (w : World) (legs : List BatchLeg) (i : Nat) (l : LegState) : LegState :=
  if i ∈ reached w .inCommit (commitsDesc w legs) then (rollbackLeg w .inCommit i l).1 else l

/-- A committed leg is stored as executed when the rollback did not get to it, or could not write. -/
theorem undoneLeg_of_commits (legs : List BatchLeg) {i : Nat} {leg : BatchLeg} (hs : skips w i leg = false)
    (hc : commits w i = true) :
    let v := (undoneLeg w legs i (commitLeg w i ((LegState.fresh leg).readied w i))).view
    (v.1 = .executed ∧ leftExecuted w legs i = true ∨
      (v.1 = .rollingBack ∨ v.1 = .rolledBack) ∧ leftExecuted w legs i = false) ∧
      (i ∈ reached w .inCommit (commitsDesc w legs) → undoes w .inCommit i = true →
        v.1 = .rolledBack) := by
  have hview := commitLeg_view w i leg
  rw [hs, hc] at hview
  simp only [Bool.false_eq_true, if_false, if_true] at hview
  generalize commitLeg w i ((LegState.fresh leg).readied w i) = x at hview ⊢
  obtain ⟨hok, -, hrolled, hmem⟩ := rollbackLeg_spec w .inCommit i x
  have hx : x.row.status = .executed := congrArg Prod.fst hview
  rw [hx] at hmem
  simp only [undoneLeg, leftExecuted, hc, if_true, LegState.view]
  by_cases hr : i ∈ reached w .inCommit (commitsDesc w legs)
  · simp only [hr, not_true, decide_false, Bool.false_or, if_true, true_implies]
    refine ⟨?_, fun hu => hrolled (hok.trans hu)⟩
    cases hf : w.legFails i (.saveRollingBack .inCommit) with
    | true => exact .inl ⟨by simpa [hf] using hmem, rfl⟩
    | false => exact .inr ⟨by simpa [hf] using hmem, rfl⟩
  · simp [hr, hx]

/-- A leg that throws is left as it is. -/
theorem undoneLeg_of_not_commits {i : Nat} {leg : BatchLeg} (hleg : legs[i]? = some leg)
    (h : ¬ (skips w i leg = false ∧ commits w i = true)) (l : LegState) :
    undoneLeg w legs i l = l := by
  unfold undoneLeg
  rw [if_neg fun hr => h ((mem_commitsDesc hleg).mp (mem_of_mem_reached hr))]

theorem settled_undoneLeg {i : Nat} {leg : BatchLeg} (hleg : legs[i]? = some leg)
    (hall : (commitsDesc w legs).all (undoes w .inCommit) = true) :
    Settled (undoneLeg w legs i (commitLeg w i ((LegState.fresh leg).readied w i))).view ↔
      (skips w i leg || commits w i || failsCleanly w i && (w.invoked i).isNone) = true := by
  cases hs : skips w i leg with
  | true =>
    rw [undoneLeg_of_not_commits hleg (by simp [hs]), commitLeg_view, hs]
    simp [Settled]
  | false =>
    cases hc : commits w i with
    | true =>
      have hmem := (mem_commitsDesc hleg).mpr ⟨hs, hc⟩
      have hv := (undoneLeg_of_commits legs hs hc).2 (by rw [reached_of_all hall]; exact hmem)
        (List.all_eq_true.mp hall i hmem)
      simp [Settled, hv]
    | false =>
      rw [undoneLeg_of_not_commits hleg (by simp [hc]), commitLeg_view, hs, hc]
      unfold failsCleanly Settled
      cases w.legFails i .saveExecuting <;> cases w.invoked i <;> cases w.legFails i .saveExecuted <;>
        cases w.legFails i .saveExecuteFailed <;> simp

theorem settled_undone_undoneLeg {i : Nat} {leg : BatchLeg} (hleg : legs[i]? = some leg) :
    Settled (undone (undoneLeg w legs i (commitLeg w i ((LegState.fresh leg).readied w i))).view) ↔
      (skips w i leg || commits w i || failsCleanly w i) = true := by
  cases hs : skips w i leg with
  | true =>
    rw [undoneLeg_of_not_commits hleg (by simp [hs]), commitLeg_view, hs]
    simp [Settled, undone]
  | false =>
    cases hc : commits w i with
    | true =>
      have hv := (undoneLeg_of_commits legs hs hc).1
      generalize (undoneLeg w legs i _).view = v at hv ⊢
      rcases hv with ⟨h, -⟩ | ⟨h | h, -⟩ <;> simp [Settled, undone, h]
    | false =>
      rw [undoneLeg_of_not_commits hleg (by simp [hc]), commitLeg_view, hs, hc]
      unfold failsCleanly Settled undone
      cases w.legFails i .saveExecuting <;> cases w.invoked i <;> cases w.legFails i .saveExecuted <;>
        cases w.legFails i .saveExecuteFailed <;> simp

theorem executed_undoneLeg {i : Nat} {leg : BatchLeg} (hleg : legs[i]? = some leg)
    (hclean : (skips w i leg || commits w i || failsCleanly w i) = true) :
    (undoneLeg w legs i (commitLeg w i ((LegState.fresh leg).readied w i))).view.1 = .executed ↔
      skips w i leg = false ∧ leftExecuted w legs i = true := by
  cases hs : skips w i leg with
  | true =>
    rw [undoneLeg_of_not_commits hleg (by simp [hs]), commitLeg_view, hs]
    simp
  | false =>
    cases hc : commits w i with
    | true =>
      have hv := (undoneLeg_of_commits legs hs hc).1
      generalize (undoneLeg w legs i _).view = v at hv ⊢
      rcases hv with ⟨h, hl⟩ | ⟨h | h, hl⟩ <;> simp [h, hl]
    | false =>
      rw [undoneLeg_of_not_commits hleg (by simp [hc]), commitLeg_view, hs, hc]
      rw [hs, hc] at hclean
      unfold failsCleanly at hclean
      unfold leftExecuted
      rw [hc]
      revert hclean
      cases w.legFails i .saveExecuting <;> cases w.invoked i <;> cases w.legFails i .saveExecuted <;>
        cases w.legFails i .saveExecuteFailed <;> simp

/-- The legs that are to be rolled back are executed. -/
theorem executed_of_commitsDesc {s : Exec} (hlegs : s.legs = executedLegs w (legs.map .fresh)) :
    ∀ i ∈ commitsDesc w legs, ∃ l, s.legs[i]? = some l ∧ l.leg.status = .executed := by
  intro i hi
  have hlt : i < legs.length := by
    have := List.mem_of_mem_filter hi
    rwa [List.mem_reverse, List.mem_range] at this
  have hleg := List.getElem?_eq_getElem hlt
  obtain ⟨hs, hc⟩ := (mem_commitsDesc hleg).mp hi
  refine ⟨_, ?_, commitLeg_executed hs hc⟩
  simp [hlegs, executedLegs, List.getElem?_mapIdx, hleg]

section Undone

variable {s : Exec}

theorem forall_view_undone
    (h : s.legs = (legs.map LegState.fresh).mapIdx fun i l =>
      undoneLeg w legs i (commitLeg w i (l.readied w i))) (q : LegStatus × Bool → Prop) :
    (∀ v ∈ s.legs.map (·.view), q v) ↔ ∀ i leg, legs[i]? = some leg →
      q (undoneLeg w legs i (commitLeg w i ((LegState.fresh leg).readied w i))).view := by
  rw [h]
  exact forall_mapIdx_fresh

theorem settled_undone_views
    (h : s.legs = (legs.map LegState.fresh).mapIdx fun i l =>
      undoneLeg w legs i (commitLeg w i (l.readied w i))) :
    (∀ v ∈ s.legs.map (·.view), Settled (undone v)) ↔
      EachLeg legs fun i leg => skips w i leg || commits w i || failsCleanly w i := by
  rw [forall_view_undone h fun v => Settled (undone v)]
  exact forall₃_congr fun i leg hleg => settled_undone_undoneLeg hleg

theorem settled_views
    (h : s.legs = (legs.map LegState.fresh).mapIdx fun i l =>
      undoneLeg w legs i (commitLeg w i (l.readied w i)))
    (hall : (commitsDesc w legs).all (undoes w .inCommit) = true) :
    (∀ v ∈ s.legs.map (·.view), Settled v) ↔
      (EachLeg legs fun i leg => skips w i leg || commits w i || failsCleanly w i) ∧
        EachLeg legs fun i leg => skips w i leg || commits w i || (w.invoked i).isNone := by
  have hsplit : (EachLeg legs fun i leg => skips w i leg || commits w i || failsCleanly w i) ∧
      (EachLeg legs fun i leg => skips w i leg || commits w i || (w.invoked i).isNone) ↔
      ∀ i leg, legs[i]? = some leg →
        (skips w i leg || commits w i || failsCleanly w i && (w.invoked i).isNone) = true := by
    simp only [EachLeg, Bool.or_and_distrib_left, Bool.and_eq_true, imp_and, forall_and]
  rw [forall_view_undone h Settled, hsplit]
  exact forall₃_congr fun i leg hleg => settled_undoneLeg hleg hall

theorem atomic_rollbackPhase_undone
    (h : s.legs = (legs.map LegState.fresh).mapIdx fun i l =>
      undoneLeg w legs i (commitLeg w i (l.readied w i)))
    (hsave : w.batchFails .saveRollingBack = false) :
    Atomic (rollbackPhase w s).1 ↔
      (EachLeg legs fun i leg => skips w i leg || commits w i || failsCleanly w i) ∧
        RollsBackLegs w legs (leftExecuted w legs) := by
  rw [atomic_rollbackPhase, hsave]
  simp only [Bool.false_eq_true, if_false]
  rw [settled_undone_views h, and_comm]
  have hlen : s.legs.length = legs.length := by simp [h]
  refine and_congr_right fun hclean => rollsBack_iff hlen fun i leg hleg => ?_
  have hi : s.legs[i]? =
      some (undoneLeg w legs i (commitLeg w i ((LegState.fresh leg).readied w i))) := by
    simp [h, List.getElem?_mapIdx, hleg]
  rw [mem_executedDesc_iff hi]
  exact executed_undoneLeg hleg (hclean i leg hleg)

end Undone

theorem atomic_undo {s : Exec} {t : Tally} (hlegs : s.legs = executedLegs w (legs.map .fresh))
    (hrow : s.row.status = .committing)
    (hsort : t.committedLegs.mergeSort (fun a b => decide (b ≤ a)) = commitsDesc w legs)
    (hbody : executeBatch.body w (.start batch legs) = commitPhase.undo w t s) :
    Atomic (executeBatch w batch legs).1 ↔
      (EachLeg legs fun i leg => skips w i leg || commits w i || failsCleanly w i) ∧
      ((w.batchFails .saveRolledBack = false ∧ (commitsDesc w legs).all (undoes w .inCommit) = true ∧
          (EachLeg legs fun i leg => skips w i leg || commits w i || (w.invoked i).isNone) ∧
          (w.batchFails .auditRolledBack = false ∨ w.batchFails .saveRollingBack = true)) ∨
        ((w.batchFails .saveRolledBack = true ∨ (commitsDesc w legs).all (undoes w .inCommit) = false ∨
            w.batchFails .auditRolledBack = true) ∧
          RollsBackLegs w legs (leftExecuted w legs))) := by
  obtain ⟨s1, hs1, hcases⟩ := undo_cases (w := w) commitsDesc_nodup hsort (executed_of_commitsDesc hlegs)
  have hundone : s1.legs = (legs.map LegState.fresh).mapIdx fun i l =>
      undoneLeg w legs i (commitLeg w i (l.readied w i)) := by
    apply List.ext_getElem?
    intro k
    rw [hs1, s.turns_getElem? _ (reached_nodup commitsDesc_nodup), hlegs, executedLegs,
      List.getElem?_mapIdx, List.getElem?_mapIdx, Option.map_map]
    rfl
  rcases hcases with ⟨hwhy, hrow1, hundo⟩ | ⟨hall, hsaved, hrow1, ⟨haudit, hundo⟩ | ⟨haudit, hundo⟩⟩
  · rw [executeBatch_of_none (hbody.trans hundo)]
    have hne : s1.row.status ≠ .committed := by rw [hrow1, hrow]; decide
    have hno : ¬ (w.batchFails .saveRolledBack = false ∧
        (commitsDesc w legs).all (undoes w .inCommit) = true) := by
      rcases hwhy with h | h <;> simp [h]
    have hwhy' : w.batchFails .saveRolledBack = true ∨
        (commitsDesc w legs).all (undoes w .inCommit) = false ∨ w.batchFails .auditRolledBack = true :=
      hwhy.elim (fun h => .inr (.inl h)) .inl
    cases hsave : w.batchFails .saveRollingBack with
    | true =>
      rw [atomic_rollbackPhase, hsave, if_pos rfl, atomic_iff_settled hne, hrow1, hrow]
      refine iff_of_false (fun h => by cases h.1) ?_
      rintro ⟨-, ⟨h1, h2, -⟩ | ⟨-, h, -⟩⟩
      · exact hno ⟨h1, h2⟩
      · rw [hsave] at h
        cases h
    | false =>
      rw [atomic_rollbackPhase_undone hundone hsave]
      refine and_congr_right fun _ => ⟨fun h => .inr ⟨hwhy', h⟩, ?_⟩
      rintro (⟨h1, h2, -⟩ | ⟨-, h⟩)
      · exact absurd ⟨h1, h2⟩ hno
      · exact h
  · rw [executeBatch_of_none (hbody.trans hundo)]
    have hne : s1.row.status ≠ .committed := by rw [hrow1]; decide
    cases hsave : w.batchFails .saveRollingBack with
    | true =>
      rw [atomic_rollbackPhase, hsave, if_pos rfl, atomic_iff_settled hne, settled_views hundone hall]
      simp [RollsBackLegs, hsave, hrow1, hsaved, hall]
    | false =>
      rw [atomic_rollbackPhase_undone hundone hsave]
      simp [haudit]
  · have hfinal : (executeBatch w batch legs).1 = s1 := by
      unfold executeBatch
      rw [hbody.trans hundo]
    have hne : s1.row.status ≠ .committed := by rw [hrow1]; decide
    rw [hfinal, atomic_iff_settled hne, settled_views hundone hall]
    simp [hrow1, hsaved, hall, haudit]

/-- For every batch and every pattern of failures: the batch is left committed or rolled back as a
whole, and the legs tell what happened to their contracts, exactly when the pattern is one the
rollbacks deal with. -/
theorem atomic_iff_recovers (h : NotExecuted batch legs) (w : World) :
    Atomic (executeBatch w batch legs).1 ↔ Recovers w batch legs := by
  have hc := h.created
  unfold Recovers
  by_cases hr : ReachesCommit w batch legs
  · obtain ⟨s, t, hlegs, hrow, hfailed, hsort, hbody⟩ := body_of_reachesCommit hc hr
    by_cases hcom : Commits w legs
    · rw [if_pos (hfailed.mpr hcom)] at hbody
      rw [atomic_finish hlegs hrow hcom hbody]
      simp [hr, hcom]
    · rw [if_neg fun h => hcom (hfailed.mp h)] at hbody
      rw [atomic_undo hlegs hrow hsort hbody]
      simp [hr, hcom]
  · rw [atomic_of_not_reachesCommit hc hr]
    simp [hr]

end Created

/-! ## Two legs -/

def calm : World where
  legFails _ _ := false
  batchFails _ := false
  price _ := none
  simulate _ _ := .ok none
  invoke _ _ := .ok ⟨"hash", none⟩
  prepareTurns layer := layer
  commitTurns layer := layer
  prepareTurns_perm layer := .refl layer
  commitTurns_perm layer := .refl layer

/-- Two legs that have nothing to do with each other. -/
def twoLegs : CreateBatchDto := ⟨[plainLeg "USD" "EUR" [], plainLeg "GBP" "JPY" []]⟩

/-- The simulation of the second leg throws, and the first leg stays prepared. -/
theorem prepared_leg_left :
    ∃ c, createBatch plainId twoLegs = .ok c ∧
      ¬ Atomic (executeBatch { calm with simulate := fun i _ => if i = 1 then .error false else .ok none }
        c.batch c.legs).1 := by
  obtain ⟨c, hc, hrow, hlegs⟩ : ∃ c, createBatch plainId twoLegs = .ok c ∧
      (executeBatch { calm with simulate := fun i _ => if i = 1 then .error false else .ok none }
        c.batch c.legs).1.row.status = .rolledBack ∧
      (executeBatch { calm with simulate := fun i _ => if i = 1 then .error false else .ok none }
        c.batch c.legs).1.legs.map (·.view) = [(.prepared, false), (.failed, false)] :=
    ⟨_, rfl, by decide +kernel, by decide +kernel⟩
  refine ⟨c, hc, fun h => ?_⟩
  rw [atomic_iff_settled (by rw [hrow]; decide), hlegs] at h
  exact (h.2 _ (.head _)).1 (by decide)

/-- The invocation of the second leg throws, and the first leg is rolled back. -/
theorem failed_invocation_recovers :
    ∃ c, createBatch plainId twoLegs = .ok c ∧
      Atomic (executeBatch { calm with invoke := fun i _ => if i = 1 then .error false else .ok ⟨"hash", none⟩ }
        c.batch c.legs).1 ∧
      Recovers { calm with invoke := fun i _ => if i = 1 then .error false else .ok ⟨"hash", none⟩ }
        c.batch c.legs := by
  obtain ⟨c, hc, hrow, hlegs⟩ : ∃ c, createBatch plainId twoLegs = .ok c ∧
      (executeBatch { calm with invoke := fun i _ => if i = 1 then .error false else .ok ⟨"hash", none⟩ }
        c.batch c.legs).1.row.status = .rolledBack ∧
      (executeBatch { calm with invoke := fun i _ => if i = 1 then .error false else .ok ⟨"hash", none⟩ }
        c.batch c.legs).1.legs.map (·.view) = [(.rolledBack, true), (.failed, false)] :=
    ⟨_, rfl, by decide +kernel, by decide +kernel⟩
  have hatomic := (atomic_iff_settled (by rw [hrow]; decide)).mpr ⟨hrow, by
    rw [hlegs]
    simp [Settled]⟩
  exact ⟨c, hc, hatomic, (atomic_iff_recovers ⟨plainId, twoLegs, c, hc, rfl, .inl rfl⟩ _).mp hatomic⟩

end Coordinator
end TradeCore
