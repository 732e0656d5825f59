import TradeCore.Coordinator.Executor

/-!
# TradeCore.Coordinator.Phases

What the phases of `executeBatch` do with legs as `createBatch` stores them.

The graph of such legs has one layer, so that every leg has one turn in the preparation and one in
the commit phase, and what becomes of it depends on its own calls only: `readies` and `leavesOpen`
for the preparation, `commits` for the execution, `undoes` for a rollback. `preparePhase_spec`,
`commitPhase_eq` and `rollbackPhase_done` put the legs together.
-/

namespace TradeCore
namespace Coordinator

open Lib

/-! ## The turns of a layer -/

section Turns

variable {w : World} {s : Exec} {n : Nat}

@[simp] theorem Exec.set_legs (s : Exec) (status : BatchStatus) : (s.set status).legs = s.legs := rfl

@[simp] theorem Exec.set_row (s : Exec) (status : BatchStatus) : (s.set status).row = s.row := rfl

@[simp] theorem Exec.set_status (s : Exec) (status : BatchStatus) :
    (s.set status).batch.status = status := rfl

@[simp] theorem Exec.save_legs (s : Exec) : s.save.legs = s.legs := rfl

@[simp] theorem Exec.save_row (s : Exec) : s.save.row = s.batch := rfl

@[simp] theorem Exec.turn_batch (s : Exec) (i : Nat) (f : LegState → LegState) :
    (s.turn i f).batch = s.batch := rfl

@[simp] theorem Exec.turn_row (s : Exec) (i : Nat) (f : LegState → LegState) :
    (s.turn i f).row = s.row := rfl

/-- All turns of a layer, each leg doing its own work. -/
def Exec.turns (s : Exec) (f : Nat → LegState → LegState) (order : List Nat) : Exec :=
  order.foldl (fun s i => s.turn i (f i)) s

theorem Exec.turns_batch (s : Exec) (f : Nat → LegState → LegState) (order : List Nat) :
    (s.turns f order).batch = s.batch ∧ (s.turns f order).row = s.row := by
  unfold Exec.turns
  induction order generalizing s with
  | nil => exact ⟨rfl, rfl⟩
  | cons i order ih => exact ih (s.turn i (f i))

theorem Exec.turns_getElem? (s : Exec) (f : Nat → LegState → LegState) {order : List Nat}
    (hn : order.Nodup) (k : Nat) :
    (s.turns f order).legs[k]? = s.legs[k]?.map fun l => if k ∈ order then f k l else l := by
  unfold Exec.turns
  induction order generalizing s with
  | nil => simp
  | cons i order ih =>
    rw [List.nodup_cons] at hn
    rw [List.foldl_cons, ih _ hn.2]
    simp only [Exec.turn, List.getElem?_modify, List.mem_cons]
    cases s.legs[k]? with
    | none => rfl
    | some l =>
      by_cases hk : i = k
      · subst hk
        simp [hn.1]
      · have hk' : k ≠ i := fun h => hk h.symm
        simp [hk, hk']

theorem nodup_of_perm_range {order : List Nat} (h : order.Perm (List.range n)) : order.Nodup :=
  h.nodup_iff.mpr List.nodup_range

theorem Exec.turns_legs (s : Exec) (f : Nat → LegState → LegState) {order : List Nat}
    (h : order.Perm (List.range s.legs.length)) : (s.turns f order).legs = s.legs.mapIdx f := by
  apply List.ext_getElem?
  intro k
  rw [s.turns_getElem? f (nodup_of_perm_range h), List.getElem?_mapIdx]
  by_cases hk : k < s.legs.length
  · simp [h.mem_iff, hk]
  · rw [List.getElem?_eq_none (by omega)]
    rfl

/-- The legs of a layer that fail in the commit phase. -/
def Exec.failsAt (s : Exec) (w : World) (i : Nat) : Bool :=
  match s.legs[i]? with
  | some l => decide (l.leg.status = .prepared) && !(executeLeg w i l).2
  | none => false

def Exec.commitsAt (s : Exec) (w : World) (i : Nat) : Bool :=
  match s.legs[i]? with
  | some l => decide (l.leg.status = .prepared) && (executeLeg w i l).2
  | none => false

theorem turn_getElem?_ne {i k : Nat} (f : LegState → LegState) (h : i ≠ k) :
    (s.turn i f).legs[k]? = s.legs[k]? := by
  simp [Exec.turn, h]

theorem Tally.add_spec (t : Tally) {i : Nat} {l : LegState} (hi : s.legs[i]? = some l) :
    (t.add w i l).failedLegs = t.failedLegs ++ (if s.failsAt w i then [i] else []) ∧
      (t.add w i l).committedLegs = t.committedLegs ++ (if s.commitsAt w i then [i] else []) := by
  simp only [Tally.add, Exec.failsAt, Exec.commitsAt, hi]
  by_cases hp : l.leg.status = .prepared
  · rw [if_pos hp, decide_eq_true hp]
    cases (executeLeg w i l).2 with
    | true => simp
    | false => simp
  · rw [if_neg hp, decide_eq_false hp]
    split
    · simp
    · simp

theorem commitTurns_eq (w : World) {order : List Nat} (hn : order.Nodup) (s : Exec) (t : Tally) :
    (order.foldl (commitTurn w) (s, t)).1 = s.turns (commitLeg w) order ∧
      (order.foldl (commitTurn w) (s, t)).2.failedLegs = t.failedLegs ++ order.filter (s.failsAt w) ∧
      (order.foldl (commitTurn w) (s, t)).2.committedLegs =
        t.committedLegs ++ order.filter (s.commitsAt w) := by
  induction order generalizing s t with
  | nil => simp [Exec.turns]
  | cons i order ih =>
    rw [List.nodup_cons] at hn
    have hfilter : ∀ f : LegState → LegState, ∀ k ∈ order,
        (s.turn i f).failsAt w k = s.failsAt w k ∧ (s.turn i f).commitsAt w k = s.commitsAt w k := by
      intro f k hk
      have hne : i ≠ k := fun h => hn.1 (h ▸ hk)
      simp only [Exec.failsAt, Exec.commitsAt, turn_getElem?_ne f hne, and_self]
    cases hi : s.legs[i]? with
    | none =>
      have hturn : s.turn i (commitLeg w i) = s := by
        have hlen : s.legs.length ≤ i := List.getElem?_eq_none_iff.mp hi
        simp [Exec.turn, hi, List.modify_eq_self hlen]
      obtain ⟨h1, h2, h3⟩ := ih hn.2 s t
      simp only [List.foldl_cons, commitTurn, hi]
      refine ⟨?_, ?_, ?_⟩
      · rw [h1, Exec.turns, Exec.turns, List.foldl_cons, hturn]
      · rw [h2]
        simp [Exec.failsAt, hi]
      · rw [h3]
        simp [Exec.commitsAt, hi]
    | some l =>
      obtain ⟨h1, h2, h3⟩ := ih hn.2 (s.turn i (commitLeg w i)) (t.add w i l)
      simp only [List.foldl_cons, commitTurn, hi]
      obtain ⟨hfailed, hcommitted⟩ := t.add_spec (w := w) hi
      refine ⟨h1, ?_, ?_⟩
      · rw [h2, List.filter_congr fun k hk => (hfilter _ k hk).1, hfailed, List.append_assoc,
          List.filter_cons]
        split
        · rfl
        · rfl
      · rw [h3, List.filter_congr fun k hk => (hfilter _ k hk).2, hcommitted, List.append_assoc,
          List.filter_cons]
        split
        · rfl
        · rfl

end Turns

/-! ## What a leg does -/

section Leg

variable {w : World} {i : Nat} {l : LegState}

@[simp] theorem LegState.set_row (s : LegState) (status : LegStatus) : (s.set status).row = s.row := rfl

@[simp] theorem LegState.set_status (s : LegState) (status : LegStatus) :
    (s.set status).leg.status = status := rfl

@[simp] theorem LegState.set_invoked (s : LegState) (status : LegStatus) :
    (s.set status).invoked = s.invoked := rfl

@[simp] theorem LegState.set_saved (s : LegState) (status : LegStatus) :
    (s.set status).saved = s.saved := rfl

@[simp] theorem LegState.save_leg (s : LegState) : s.save.leg = s.leg := rfl

@[simp] theorem LegState.save_row_status (s : LegState) : s.save.row.status = s.leg.status := rfl

@[simp] theorem LegState.save_invoked (s : LegState) : s.save.invoked = s.invoked := rfl

@[simp] theorem LegState.save_saved (s : LegState) : s.save.saved = s.saved ++ [s.leg.status] := rfl

/-- What a leg asks for, which no phase changes. -/
structure BatchLeg.Same (a b : BatchLeg) : Prop where
  dependencies : a.dependencies = b.dependencies
  minAmountOut : a.minAmountOut = b.minAmountOut
  maxAmountOut : a.maxAmountOut = b.maxAmountOut

theorem BatchLeg.Same.refl (a : BatchLeg) : a.Same a := ⟨rfl, rfl, rfl⟩

theorem depsMet_nil (leg : BatchLeg) : depsMet leg [] = decide (leg.dependencies = []) := by
  cases hd : leg.dependencies with
  | nil =>
    rw [depsMet, hd]
    rfl
  | cons d ds =>
    simp only [depsMet, hd, List.all_cons, List.any_nil, reduceCtorEq, decide_false]
    split
    · split <;> rfl
    · rfl

/-- A leg comes through the preparation, prepared or skipped. -/
def readies (w : World) (i : Nat) (leg : BatchLeg) : Bool :=
  !w.legFails i .savePreparing && decide (leg.dependencies = []) &&
    if skips w i leg then !w.legFails i .saveSkipped && !w.legFails i .auditCondition
    else (w.simulated i).isSome && !w.legFails i .optimizeGas && !w.legFails i .savePrepared &&
      !w.legFails i .auditPrepared

/-- A leg that comes through. -/
def LegState.readied (w : World) (i : Nat) (l : LegState) : LegState :=
  if skips w i l.leg then ((l.set .preparing).save.set .skipped).save
  else
    { (l.set .preparing).save with leg := { l.leg with
      expectedOutput := ((w.simulated i).join).orElse fun _ => l.leg.expectedOutput
      status := .prepared } }.save

theorem prepareLeg_of_readies (h : readies w i l.leg = true) :
    prepareLeg w i [] l = l.readied w i := by
  simp only [readies, Bool.and_eq_true, Bool.not_eq_true'] at h
  obtain ⟨⟨hsave, hdeps⟩, hrest⟩ := h
  have hd : decide ((l.set .preparing).save.leg.dependencies = []) = true := hdeps
  have hs : skips w i (l.set .preparing).save.leg = skips w i l.leg := rfl
  unfold prepareLeg prepareLeg.body LegState.readied
  simp only [hsave, Bool.false_eq_true, if_false, depsMet_nil, hd, Bool.not_true, hs]
  split at hrest
  · rename_i hsk
    simp only [Bool.and_eq_true, Bool.not_eq_true'] at hrest
    simp only [hsk, if_true, hrest.1, hrest.2, Bool.false_eq_true, if_false, Bool.not_false]
  · rename_i hsk
    simp only [Bool.and_eq_true, Bool.not_eq_true', Option.isSome_iff_exists] at hrest
    obtain ⟨⟨⟨⟨out, hout⟩, hgas⟩, hprep⟩, haudit⟩ := hrest
    simp only [hsk, hout, hgas, hprep, haudit, Bool.false_eq_true, if_false, Bool.not_false]
    rfl

/-- The row of a leg stays behind as preparing or prepared. -/
def leavesOpen (w : World) (i : Nat) (leg : BatchLeg) : Bool :=
  !w.legFails i .savePreparing &&
    if leg.dependencies = [] then
      if skips w i leg then w.legFails i .saveSkipped && w.legFails i .savePrepareFailed
      else readies w i leg || w.legFails i .savePrepareFailed
    else w.legFails i .saveUnmet && w.legFails i .savePrepareFailed

theorem prepareLeg.body_same (w : World) (i : Nat) (completedLegs : List Nat) (s : LegState) :
    (prepareLeg.body w i completedLegs s).1.leg.Same s.leg := by
  unfold prepareLeg.body
  dsimp only
  split
  · split <;> exact ⟨rfl, rfl, rfl⟩
  · split
    · split <;> exact ⟨rfl, rfl, rfl⟩
    · split
      · exact .refl _
      · split
        · exact .refl _
        · split <;> exact ⟨rfl, rfl, rfl⟩

theorem prepareLeg_same (w : World) (i : Nat) (completedLegs : List Nat) (l : LegState) :
    (prepareLeg w i completedLegs l).leg.Same l.leg := by
  unfold prepareLeg
  dsimp only
  split
  · exact ⟨rfl, rfl, rfl⟩
  · have h := prepareLeg.body_same w i completedLegs (l.set .preparing).save
    split
    · rename_i s hs
      rw [hs] at h
      exact ⟨h.dependencies, h.minAmountOut, h.maxAmountOut⟩
    · rename_i s hs
      rw [hs] at h
      split <;> exact ⟨h.dependencies, h.minAmountOut, h.maxAmountOut⟩

/-- Everything the preparation can leave of a leg that had not been touched. -/
theorem prepareLeg_spec (w : World) (i : Nat) (l : LegState) (hrow : l.row.status = .pending) :
    (prepareLeg w i [] l).invoked = l.invoked ∧
      ((prepareLeg w i [] l).leg.status = .prepared ∨ (prepareLeg w i [] l).leg.status = .skipped ↔
        readies w i l.leg = true) ∧
      ((prepareLeg w i [] l).row.status = .preparing ∨ (prepareLeg w i [] l).row.status = .prepared ↔
        leavesOpen w i l.leg = true) ∧
      (prepareLeg w i [] l).row.status ≠ .executed ∧ (prepareLeg w i [] l).row.status ≠ .executing := by
  have hd : (l.set .preparing).save.leg.dependencies = l.leg.dependencies := rfl
  have hs : skips w i (l.set .preparing).save.leg = skips w i l.leg := rfl
  unfold leavesOpen readies prepareLeg prepareLeg.body
  simp only [depsMet_nil, hd, hs]
  cases hsave : w.legFails i .savePreparing with
  | true => simp [hrow]
  | false =>
    simp only [Bool.false_eq_true, if_false, Bool.not_false, Bool.true_and]
    by_cases hdeps : l.leg.dependencies = []
    · simp only [hdeps, decide_true, Bool.not_true, Bool.false_eq_true, if_true, if_false]
      cases hsk : skips w i l.leg with
      | true =>
        cases w.legFails i .saveSkipped <;> cases w.legFails i .auditCondition <;>
          cases w.legFails i .savePrepareFailed <;> simp
      | false =>
        cases w.simulated i with
        | none => cases w.legFails i .savePrepareFailed <;> simp
        | some out =>
          cases w.legFails i .optimizeGas <;> cases w.legFails i .savePrepared <;>
            cases w.legFails i .auditPrepared <;> cases w.legFails i .savePrepareFailed <;> simp
    · simp only [hdeps, decide_false, Bool.not_false, if_true, if_false]
      cases w.legFails i .saveUnmet <;> cases w.legFails i .savePrepareFailed <;> simp

/-- The contract has been invoked and both writes that follow succeed. -/
def commits (w : World) (i : Nat) : Bool :=
  !w.legFails i .saveExecuting && (w.invoked i).isSome && !w.legFails i .saveExecuted &&
    !w.legFails i .auditExecuted

def LegState.executed (w : World) (i : Nat) (l : LegState) : LegState :=
  { (l.set .executing).save with
    leg := { l.leg with
      status := .executed
      stellarTxHash := (w.invoked i).map Invocation.transactionHash
      actualOutput := ((w.invoked i).bind Invocation.amountOut).orElse fun _ => l.leg.actualOutput }
    invoked := true }.save

theorem executeLeg_of_commits (h : commits w i = true) :
    executeLeg w i l = (l.executed w i, true) := by
  simp only [commits, Bool.and_eq_true, Bool.not_eq_true', Option.isSome_iff_exists] at h
  obtain ⟨⟨⟨hexecuting, result, hresult⟩, hexecuted⟩, haudit⟩ := h
  simp only [executeLeg, executeLeg.body, LegState.executed, hexecuting, hresult, hexecuted, haudit,
    Bool.false_eq_true, if_false, Bool.not_false, Option.map_some, Option.bind_some]
  rfl

/-- How a leg that throws is left behind. -/
theorem executeLeg_of_not_commits (h : commits w i = false) :
    (executeLeg w i l).2 = false ∧ (executeLeg w i l).1.leg.Same l.leg ∧
      (executeLeg w i l).1.leg.status ≠ .executed ∧
      ((executeLeg w i l).1.invoked = true ↔
        l.invoked = true ∨ !w.legFails i .saveExecuting = true ∧ (w.invoked i).isSome = true) ∧
      (executeLeg w i l).1.row.status =
        if w.legFails i .saveExecuting then l.row.status
        else if !w.legFails i .saveExecuteFailed then .failed
        else if (w.invoked i).isSome && !w.legFails i .saveExecuted then .executed
        else .executing := by
  unfold commits at h
  unfold executeLeg executeLeg.body
  dsimp only
  cases hexecuting : w.legFails i .saveExecuting with
  | true => simp; exact ⟨rfl, rfl, rfl⟩
  | false =>
    cases hinv : w.invoked i with
    | none => cases w.legFails i .saveExecuteFailed <;> simp <;> exact ⟨rfl, rfl, rfl⟩
    | some result =>
      rw [hexecuting, hinv] at h
      revert h
      cases w.legFails i .saveExecuted <;> cases w.legFails i .auditExecuted <;>
        cases w.legFails i .saveExecuteFailed <;> simp <;> exact ⟨rfl, rfl, rfl⟩

theorem executeLeg_ok (w : World) (i : Nat) (l : LegState) : (executeLeg w i l).2 = commits w i := by
  cases h : commits w i with
  | true => rw [executeLeg_of_commits h]
  | false => exact (executeLeg_of_not_commits h).1

/-- The rollback of a leg does not throw. -/
def undoes (w : World) (r : Rollback) (i : Nat) : Bool :=
  !w.legFails i (.saveRollingBack r) &&
    (!w.legFails i (.saveRolledBack r) && !w.legFails i (.auditRolledBack r) ||
      !w.legFails i (.saveRollbackFailed r))

theorem rollbackLeg_spec (w : World) (r : Rollback) (i : Nat) (l : LegState) :
    (rollbackLeg w r i l).2 = undoes w r i ∧ (rollbackLeg w r i l).1.invoked = l.invoked ∧
      ((rollbackLeg w r i l).2 = true → (rollbackLeg w r i l).1.row.status = .rolledBack) ∧
      (rollbackLeg w r i l).1.row.status ∈
        if w.legFails i (.saveRollingBack r) then [l.row.status] else [.rollingBack, .rolledBack] := by
  unfold rollbackLeg undoes
  cases w.legFails i (.saveRollingBack r) <;> cases w.legFails i (.saveRolledBack r) <;>
    cases w.legFails i (.auditRolledBack r) <;> cases w.legFails i (.saveRollbackFailed r) <;> simp

end Leg

/-! ## Rolling legs back -/

section Rollback

variable {w : World} {r : Rollback}

/-- The legs a rollback gets to: up to the first one that throws. -/
def reached (w : World) (r : Rollback) (indices : List Nat) : List Nat :=
  indices.takeWhile (undoes w r) ++ (indices.dropWhile (undoes w r)).take 1

theorem reached_cons (i : Nat) (rest : List Nat) :
    reached w r (i :: rest) = i :: if undoes w r i then reached w r rest else [] := by
  unfold reached
  cases h : undoes w r i <;> simp [h]

theorem rollbackEach_eq {indices : List Nat} (hn : indices.Nodup) {s : Exec}
    (hex : ∀ i ∈ indices, ∃ l, s.legs[i]? = some l ∧ l.leg.status = .executed) :
    rollbackEach w r indices s =
      (s.turns (fun i l => (rollbackLeg w r i l).1) (reached w r indices), indices.all (undoes w r)) := by
  induction indices generalizing s with
  | nil => rfl
  | cons i rest ih =>
    rw [List.nodup_cons] at hn
    obtain ⟨l, hl, hstatus⟩ := hex i (by simp)
    rw [rollbackEach, hl, reached_cons]
    simp only [hstatus, if_true, (rollbackLeg_spec w r i l).1, List.all_cons]
    cases hu : undoes w r i with
    | false => simp [Exec.turns]
    | true =>
      rw [if_pos rfl, ih hn.2]
      · rfl
      · intro k hk
        have hne : i ≠ k := fun h => hn.1 (h ▸ hk)
        rw [turn_getElem?_ne _ hne]
        exact hex k (by simp [hk])

theorem reached_of_all {indices : List Nat} (h : indices.all (undoes w r) = true) :
    reached w r indices = indices := by
  have hall : ∀ i ∈ indices, undoes w r i = true := List.all_eq_true.mp h
  unfold reached
  rw [List.takeWhile_eq_self_iff.mpr hall, List.dropWhile_eq_nil_iff.mpr hall]
  simp

end Rollback

/-! ## The phases, on legs as they are stored -/

section Phases

variable {w : World} {s : Exec}

/-- The legs that no execution has touched. -/
structure Untouched (legs : List LegState) : Prop where
  stored : Stored (legs.map (·.leg))
  fresh : ∀ l ∈ legs, l.row.status = .pending ∧ l.invoked = false

/-- A leg is skipped, or what its simulation promises lies within its bounds. -/
def expects (w : World) (i : Nat) (leg : BatchLeg) : Bool :=
  skips w i leg || !leg.outOfBounds ((w.simulated i).join.orElse fun _ => leg.expectedOutput)

/-- `p` of every leg, with its index. -/
def EachLeg (legs : List BatchLeg) (p : Nat → BatchLeg → Bool) : Prop :=
  ∀ i leg, legs[i]? = some leg → p i leg = true

theorem eachLeg_map {legs : List LegState} {p : Nat → BatchLeg → Bool} :
    EachLeg (legs.map (·.leg)) p ↔ ∀ i l, legs[i]? = some l → p i l.leg = true := by
  simp only [EachLeg, List.getElem?_map, Option.map_eq_some_iff]
  exact ⟨fun h i l hl => h i l.leg ⟨l, hl, rfl⟩, fun h i leg hleg => by
    obtain ⟨l, hl, rfl⟩ := hleg
    exact h i l hl⟩

def preparedLegs (w : World) (legs : List LegState) : List LegState :=
  legs.mapIdx fun i l => prepareLeg w i [] l

theorem mem_preparedLegs {legs : List LegState} {p : LegState} (h : p ∈ preparedLegs w legs) :
    ∃ i l, legs[i]? = some l ∧ p = prepareLeg w i [] l := by
  obtain ⟨i, hi, rfl⟩ := List.mem_mapIdx.mp h
  exact ⟨i, legs[i], List.getElem?_eq_getElem hi, rfl⟩

theorem exists_mem_preparedLegs {legs : List LegState} {i : Nat} {l : LegState} (h : legs[i]? = some l) :
    prepareLeg w i [] l ∈ preparedLegs w legs := by
  obtain ⟨hi, rfl⟩ := List.getElem?_eq_some_iff.mp h
  exact List.mem_mapIdx.mpr ⟨i, hi, rfl⟩

theorem stored_preparedLegs {legs : List LegState} (h : Stored (legs.map (·.leg))) :
    Stored ((preparedLegs w legs).map (·.leg)) := by
  intro leg hleg
  obtain ⟨p, hp, rfl⟩ := List.mem_map.mp hleg
  obtain ⟨i, l, hl, rfl⟩ := mem_preparedLegs hp
  rw [(prepareLeg_same w i [] l).dependencies]
  exact h l.leg (List.mem_map.mpr ⟨l, List.mem_of_getElem? hl, rfl⟩)

theorem readied_status (w : World) (i : Nat) (l : LegState) :
    (l.readied w i).leg.status = if skips w i l.leg then .skipped else .prepared := by
  unfold LegState.readied
  split <;> rfl

theorem readied_outOfBounds (w : World) (i : Nat) (l : LegState) (h : skips w i l.leg = false) :
    (l.readied w i).leg.outOfBounds (l.readied w i).leg.expectedOutput =
      l.leg.outOfBounds ((w.simulated i).join.orElse fun _ => l.leg.expectedOutput) := by
  simp only [LegState.readied, h, Bool.false_eq_true, if_false]
  rfl

theorem prepareLayers_single (w : World) (s : Exec) :
    prepareLayers w [List.range s.legs.length] [] [] s =
      let s' := s.turns (fun i => prepareLeg w i []) (w.prepareTurns (List.range s.legs.length))
      (s', (List.range s.legs.length).filter fun i => !s'.ready i) := rfl

theorem prepareTurns_legs (w : World) (s : Exec) :
    (s.turns (fun i => prepareLeg w i []) (w.prepareTurns (List.range s.legs.length))).legs =
      preparedLegs w s.legs :=
  s.turns_legs _ (w.prepareTurns_perm _)

theorem ready_iff {s' : Exec} (h : s'.legs = preparedLegs w s.legs) (hu : Untouched s.legs) {i : Nat}
    {l : LegState} (hl : s.legs[i]? = some l) : s'.ready i = readies w i l.leg := by
  have hp : s'.legs[i]? = some (prepareLeg w i [] l) := by
    rw [h, preparedLegs, List.getElem?_mapIdx, hl]
    rfl
  have hspec := (prepareLeg_spec w i l (hu.fresh l (List.mem_of_getElem? hl)).1).2.1
  rw [Exec.ready, hp, Bool.eq_iff_iff, ← hspec]
  simp

theorem failedLegs_nil_iff {s' : Exec} (h : s'.legs = preparedLegs w s.legs) (hu : Untouched s.legs) :
    ((List.range s.legs.length).filter fun i => !s'.ready i) = [] ↔ EachLeg (s.legs.map (·.leg)) (readies w) := by
  rw [List.filter_eq_nil_iff, eachLeg_map]
  constructor
  · intro hall i l hl
    obtain ⟨hi, -⟩ := List.getElem?_eq_some_iff.mp hl
    rw [← ready_iff h hu hl]
    simpa using hall i (List.mem_range.mpr hi)
  · intro hall i hi
    have hl := List.getElem?_eq_getElem (List.mem_range.mp hi)
    rw [ready_iff h hu hl, hall i _ hl]
    simp

theorem postPrepare_iff (batch : TransactionBatch) (hr : EachLeg (s.legs.map (·.leg)) (readies w)) :
    (checkPostPrepare batch ((preparedLegs w s.legs).map (·.leg))).passed = true ↔
      EachLeg (s.legs.map (·.leg)) (expects w) := by
  have hready : ∀ {i l}, s.legs[i]? = some l → prepareLeg w i [] l = l.readied w i :=
    fun hl => prepareLeg_of_readies (eachLeg_map.mp hr _ _ hl)
  rw [eachLeg_map]
  simp only [checkPostPrepare, buildResult, noLeg, List.all_cons, List.all_nil, List.any_map]
  simp only [if_true, reduceCtorEq, if_false, Bool.and_true, Bool.and_eq_true, Bool.not_eq_true',
    List.any_eq_false]
  constructor
  · intro h i l hl
    have hb := h.2 _ (exists_mem_preparedLegs hl)
    unfold expects
    cases hs : skips w i l.leg with
    | true => rfl
    | false =>
      simp only [Function.comp_apply, hready hl, readied_status, hs, Bool.false_eq_true, if_false,
        decide_true, Bool.true_and, readied_outOfBounds w i l hs] at hb
      simpa using hb
  · intro h
    constructor
    · intro p hp
      obtain ⟨i, l, hl, rfl⟩ := mem_preparedLegs hp
      simp only [Function.comp_apply, hready hl, readied_status]
      split <;> simp
    · intro p hp
      obtain ⟨i, l, hl, rfl⟩ := mem_preparedLegs hp
      have he := h i l hl
      unfold expects at he
      simp only [Function.comp_apply, hready hl, readied_status]
      cases hs : skips w i l.leg with
      | true => simp
      | false =>
        rw [hs] at he
        simpa [readied_outOfBounds w i l hs] using he

/-- Every step of the preparation succeeds. -/
def Prepares (w : World) (legs : List BatchLeg) : Prop :=
  w.batchFails .savePreparing = false ∧ EachLeg legs (readies w) ∧
    w.batchFails .auditPostPrepare = false ∧ EachLeg legs (expects w) ∧
    w.batchFails .savePrepared = false ∧ w.batchFails .auditPrepared = false

theorem preparePhase_spec (hu : Untouched s.legs) (hne : s.legs ≠ []) :
    (preparePhase w s).1.legs =
        (if w.batchFails .savePreparing then s.legs else preparedLegs w s.legs) ∧
      ((preparePhase w s).2 = true ↔ Prepares w (s.legs.map (·.leg))) ∧
      (preparePhase w s).1.row.status ∈ [s.row.status, .preparing, .prepared] := by
  have hpos : 0 < (s.legs.map (·.leg)).length := by simpa [List.length_pos_iff] using hne
  unfold preparePhase Prepares
  cases hsave : w.batchFails .savePreparing with
  | true => simp [Exec.set]
  | false =>
    have hgraph : buildGraphFromLegs ((s.set .preparing).save.legs.map (·.leg)) =
        .ok ⟨createEmptyGraph s.legs.length, [List.range s.legs.length], List.range s.legs.length⟩ := by
      simpa using buildGraphFromLegs_stored hu.stored hpos
    have hlayers := prepareLayers_single w (s.set .preparing).save
    have hlegs := prepareTurns_legs w (s.set .preparing).save
    have hrow := (s.set .preparing).save.turns_batch (fun i => prepareLeg w i [])
      (w.prepareTurns (List.range s.legs.length))
    have hfailed := failedLegs_nil_iff (w := w) (s := s) hlegs hu
    simp only [Exec.save_legs, Exec.set_legs] at hlayers hlegs hfailed
    simp only [Bool.false_eq_true, if_false, hgraph, hlayers]
    generalize (s.set .preparing).save.turns _ _ = s' at hlegs hrow hfailed ⊢
    have hstatus : s'.row.status = .preparing := by rw [hrow.2]; rfl
    split
    · rename_i s'' hs
      obtain ⟨rfl, hnil⟩ := Prod.mk.inj hs
      have hready := hfailed.mp hnil
      have hpost := postPrepare_iff s'.batch hready
      rw [← hlegs] at hpost
      split
      · rename_i haudit
        simp [hlegs, haudit, hstatus]
      · rename_i haudit
        split
        · rename_i hcheck
          have hbad : ¬ EachLeg (s.legs.map (·.leg)) (expects w) := by
            rw [← hpost]
            simpa using hcheck
          simp [hlegs, hbad, hstatus]
        · rename_i hcheck
          have hgood : EachLeg (s.legs.map (·.leg)) (expects w) := hpost.mp (by simpa using hcheck)
          split
          · rename_i hprep
            simp [hlegs, hprep, hstatus]
          · rename_i hprep
            simp [hlegs, hprep, haudit, hready, hgood]
    · rename_i s'' i is hs
      obtain ⟨rfl, hcons⟩ := Prod.mk.inj hs
      have hbad : ¬ EachLeg (s.legs.map (·.leg)) (readies w) := by
        rw [← hfailed, hcons]
        simp
      simp [hlegs, hbad, hstatus]

/-- The legs after the commit phase, before any rollback. -/
def executedLegs (w : World) (legs : List LegState) : List LegState :=
  legs.mapIdx fun i l => commitLeg w i (l.readied w i)

/-- The legs that are committed, the last one first. -/
def commitsDesc (w : World) (legs : List BatchLeg) : List Nat :=
  (List.range legs.length).reverse.filter fun i =>
    match legs[i]? with
    | some leg => !skips w i leg && commits w i
    | none => false

/-- Every leg of the batch is skipped or executed. -/
def Commits (w : World) (legs : List BatchLeg) : Prop :=
  EachLeg legs fun i leg => skips w i leg || commits w i

theorem sort_desc {n : Nat} {order : List Nat} (h : order.Perm (List.range n)) (p : Nat → Bool) :
    (order.filter p).mergeSort (fun a b => decide (b ≤ a)) = (List.range n).reverse.filter p := by
  have hsorted : ((order.filter p).mergeSort fun a b => decide (b ≤ a)).Pairwise fun a b => b ≤ a := by
    have hpair : ((order.filter p).mergeSort fun a b => decide (b ≤ a)).Pairwise
        fun a b => decide (b ≤ a) = true :=
      List.pairwise_mergeSort (by intro a b c; simp; omega) (by intro a b; simp; omega) _
    simpa using hpair
  have hdesc : ((List.range n).reverse.filter p).Pairwise fun a b => b ≤ a := by
    refine List.Pairwise.filter p (List.pairwise_reverse.mpr ?_)
    exact List.pairwise_lt_range.imp fun h => Nat.le_of_lt h
  refine List.Perm.eq_of_pairwise (fun a b _ _ hab hba => Nat.le_antisymm hba hab) hsorted hdesc ?_
  exact (List.mergeSort_perm _ _).trans ((h.trans (List.reverse_perm _).symm).filter p)

theorem readied_getElem? {legs : List LegState} (hr : EachLeg (legs.map (·.leg)) (readies w)) (i : Nat) :
    (preparedLegs w legs)[i]? = legs[i]?.map (LegState.readied w i) := by
  rw [preparedLegs, List.getElem?_mapIdx]
  cases hl : legs[i]? with
  | none => rfl
  | some l => rw [Option.map_some, Option.map_some, prepareLeg_of_readies (eachLeg_map.mp hr i l hl)]

theorem failsAt_readied {legs : List LegState} (hlegs : s.legs = preparedLegs w legs)
    (hr : EachLeg (legs.map (·.leg)) (readies w)) {i : Nat} {l : LegState} (hl : legs[i]? = some l) :
    s.failsAt w i = (!skips w i l.leg && !commits w i) ∧
      s.commitsAt w i = (!skips w i l.leg && commits w i) := by
  have hi : s.legs[i]? = some (l.readied w i) := by
    rw [hlegs, readied_getElem? hr, hl]
    rfl
  simp only [Exec.failsAt, Exec.commitsAt, hi, executeLeg_ok, readied_status]
  cases skips w i l.leg <;> simp

/-- The commit phase up to the point where it commits or undoes. -/
theorem commitPhase_eq {legs : List LegState} (hlegs : s.legs = preparedLegs w legs)
    (hu : Untouched legs) (hne : legs ≠ []) (hr : EachLeg (legs.map (·.leg)) (readies w))
    (h1 : w.batchFails .saveCommitting = false) (h2 : w.batchFails .auditCommitStarted = false) :
    ∃ s' t, s'.legs = executedLegs w legs ∧ s'.row.status = .committing ∧
      (t.failedLegs = [] ↔ Commits w (legs.map (·.leg))) ∧
      t.committedLegs.mergeSort (fun a b => decide (b ≤ a)) = commitsDesc w (legs.map (·.leg)) ∧
      commitPhase w s =
        if t.failedLegs = [] then commitPhase.finish w t s' else commitPhase.undo w t s' := by
  have hlen : (s.set .committing).save.legs.length = legs.length := by simp [hlegs, preparedLegs]
  have hst : Stored ((s.set .committing).save.legs.map (·.leg)) := by
    rw [Exec.save_legs, Exec.set_legs, hlegs]
    exact stored_preparedLegs hu.stored
  have hgraph := buildGraphFromLegs_stored hst
    (by simp only [List.length_map, hlen]; exact List.length_pos_iff.mpr hne)
  rw [List.length_map, hlen] at hgraph
  have hperm := w.commitTurns_perm (List.range legs.length)
  obtain ⟨heq, hfailed, hcommitted⟩ := commitTurns_eq w (nodup_of_perm_range hperm)
    (s.set .committing).save ⟨[], [], []⟩
  have hperm' : (w.commitTurns (List.range legs.length)).Perm
      (List.range (s.set .committing).save.legs.length) := by
    rw [hlen]
    exact hperm
  have hturns := (s.set .committing).save.turns_legs (commitLeg w) hperm'
  have hrow := (s.set .committing).save.turns_batch (commitLeg w) (w.commitTurns (List.range legs.length))
  have hrun : commitLayers w [List.range legs.length] ((s.set .committing).save, ⟨[], [], []⟩) =
      (w.commitTurns (List.range legs.length)).foldl (commitTurn w)
        ((s.set .committing).save, ⟨[], [], []⟩) := by
    simp [commitLayers]
  rw [← heq] at hturns hrow
  have hphase : commitPhase w s =
      let st := (w.commitTurns (List.range legs.length)).foldl (commitTurn w)
        ((s.set .committing).save, ⟨[], [], []⟩)
      if st.2.failedLegs = [] then commitPhase.finish w st.2 st.1
      else commitPhase.undo w st.2 st.1 := by
    simp only [commitPhase, h1, h2, Bool.false_eq_true, if_false, hgraph, hrun]
  have hat := fun i l => failsAt_readied (s := (s.set .committing).save) hlegs hr (i := i) (l := l)
  generalize (w.commitTurns (List.range legs.length)).foldl (commitTurn w)
    ((s.set .committing).save, ⟨[], [], []⟩) = st at *
  refine ⟨st.1, st.2, ?_, by rw [hrow.2]; rfl, ?_, ?_, hphase⟩
  · apply List.ext_getElem?
    intro i
    rw [hturns, List.getElem?_mapIdx, Exec.save_legs, Exec.set_legs, hlegs, readied_getElem? hr,
      executedLegs, List.getElem?_mapIdx, Option.map_map]
    rfl
  · rw [hfailed, List.nil_append, List.filter_eq_nil_iff, Commits, eachLeg_map]
    constructor
    · intro h i l hl
      obtain ⟨hi, -⟩ := List.getElem?_eq_some_iff.mp hl
      have := h i (hperm.mem_iff.mpr (List.mem_range.mpr hi))
      rw [(hat i l hl).1] at this
      revert this
      cases skips w i l.leg <;> cases commits w i <;> simp
    · intro h i hi
      obtain ⟨l, hl⟩ : ∃ l, legs[i]? = some l :=
        ⟨_, List.getElem?_eq_getElem (List.mem_range.mp (hperm.mem_iff.mp hi))⟩
      have := h i l hl
      rw [(hat i l hl).1]
      revert this
      cases skips w i l.leg <;> cases commits w i <;> simp
  · rw [hcommitted, List.nil_append, sort_desc hperm, commitsDesc, List.length_map]
    refine List.filter_congr fun i hi => ?_
    rw [List.mem_reverse, List.mem_range] at hi
    have hl := List.getElem?_eq_getElem hi
    rw [(hat i _ hl).2, List.getElem?_map, hl]
    rfl

/-- Everything that can follow a commit phase without failures. -/
theorem finish_cases (w : World) (t : Tally) (s : Exec) :
    ∃ s', s'.legs = s.legs ∧
      (w.batchFails .saveCommitted = true ∧ s'.row = s.row ∧ commitPhase.finish w t s = (s', none) ∨
        w.batchFails .saveCommitted = false ∧ s'.row.status = .committed ∧
          ((w.batchFails .auditPostCommit = true ∨ w.batchFails .auditCommitted = true) ∧
              commitPhase.finish w t s = (s', none) ∨
            ¬ (w.batchFails .auditPostCommit = true ∨ w.batchFails .auditCommitted = true) ∧
              commitPhase.finish w t s = (s', some (t.result .committed)))) := by
  unfold commitPhase.finish
  dsimp only
  split
  · rename_i hsave
    refine ⟨_, ?_, .inl ⟨hsave, ?_, rfl⟩⟩
    · rfl
    · rfl
  · rename_i hsave
    have hsave : w.batchFails .saveCommitted = false := by simpa using hsave
    split
    · rename_i haudit
      refine ⟨_, ?_, .inr ⟨hsave, ?_, .inl ⟨haudit, rfl⟩⟩⟩
      · rfl
      · rfl
    · rename_i haudit
      refine ⟨_, ?_, .inr ⟨hsave, ?_, .inr ⟨haudit, rfl⟩⟩⟩
      · rfl
      · rfl

/-- Everything that can follow a commit phase with a failure, where the legs it committed are
executed. -/
theorem undo_cases {w : World} {t : Tally} {s : Exec} {indices : List Nat} (hn : indices.Nodup)
    (hsort : t.committedLegs.mergeSort (fun a b => decide (b ≤ a)) = indices)
    (hex : ∀ i ∈ indices, ∃ l, s.legs[i]? = some l ∧ l.leg.status = .executed) :
    ∃ s', s'.legs = (s.turns (fun i l => (rollbackLeg w .inCommit i l).1)
        (reached w .inCommit indices)).legs ∧
      ((indices.all (undoes w .inCommit) = false ∨ w.batchFails .saveRolledBack = true) ∧
          s'.row = s.row ∧ commitPhase.undo w t s = (s', none) ∨
        indices.all (undoes w .inCommit) = true ∧ w.batchFails .saveRolledBack = false ∧
          s'.row.status = .rolledBack ∧
          (w.batchFails .auditRolledBack = true ∧ commitPhase.undo w t s = (s', none) ∨
            w.batchFails .auditRolledBack = false ∧
              commitPhase.undo w t s = (s', some (t.result .rolledBack)))) := by
  have heach := rollbackEach_eq (w := w) (r := .inCommit) hn hex
  have hrow := s.turns_batch (fun i l => (rollbackLeg w .inCommit i l).1) (reached w .inCommit indices)
  unfold commitPhase.undo rollbackLegs
  rw [hsort, heach]
  generalize s.turns _ _ = s1 at hrow ⊢
  cases hall : indices.all (undoes w .inCommit) with
  | false => exact ⟨s1, rfl, .inl ⟨.inl rfl, hrow.2, rfl⟩⟩
  | true =>
    cases hsave : w.batchFails .saveRolledBack with
    | true => exact ⟨s1.set .rolledBack, rfl, .inl ⟨.inr rfl, hrow.2, by simp⟩⟩
    | false =>
      refine ⟨(s1.set .rolledBack).save, rfl, .inr ⟨rfl, rfl, rfl, ?_⟩⟩
      cases w.batchFails .auditRolledBack with
      | true => exact .inl ⟨rfl, by simp⟩
      | false => exact .inr ⟨rfl, by simp⟩

/-- What the tables say about a leg, and whether its contract has been invoked. -/
def LegState.view (l : LegState) : LegStatus × Bool := (l.row.status, l.invoked)

/-- The view of a leg after the rollback phase. -/
def undone (v : LegStatus × Bool) : LegStatus × Bool :=
  (if v.1 = .executed then .rolledBack else v.1, v.2)

theorem mem_executedDesc {i : Nat} :
    i ∈ s.executedDesc ↔ ∃ l, s.legs[i]? = some l ∧ l.row.status = .executed := by
  unfold Exec.executedDesc
  rw [List.mem_filter, List.mem_reverse, List.mem_range]
  constructor
  · rintro ⟨hi, h⟩
    rw [List.getElem?_eq_getElem hi] at h ⊢
    exact ⟨_, rfl, by simpa using h⟩
  · rintro ⟨l, hl, hstatus⟩
    obtain ⟨hi, -⟩ := List.getElem?_eq_some_iff.mp hl
    exact ⟨hi, by simp [hl, hstatus]⟩

theorem executedDesc_nodup : s.executedDesc.Nodup :=
  (List.nodup_reverse.mpr List.nodup_range).filter _

/-- Every call of the rollback phase before its last audit row succeeds. -/
def RollsBack (w : World) (indices : List Nat) : Prop :=
  w.batchFails .saveRollingBack = false ∧ w.batchFails .auditRollbackStarted = false ∧
    indices.all (undoes w .inPhase) = true ∧ w.batchFails .saveRollbackDone = false

theorem rollbackPhase_failed (h : w.batchFails .saveRollingBack = true) :
    (rollbackPhase w s).1 = s.set .rollingBack := by
  simp [rollbackPhase, h]

theorem rollbackEach_reload (w : World) (s : Exec) :
    rollbackEach w .inPhase s.executedDesc s.reload =
      (s.reload.turns (fun i l => (rollbackLeg w .inPhase i l).1) (reached w .inPhase s.executedDesc),
        s.executedDesc.all (undoes w .inPhase)) := by
  refine rollbackEach_eq executedDesc_nodup fun i hi => ?_
  obtain ⟨l, hl, hstatus⟩ := mem_executedDesc.mp hi
  exact ⟨{ l with leg := l.row }, by simp [Exec.reload, hl], hstatus⟩

theorem rollbackPhase_stuck (h : ¬ RollsBack w s.executedDesc)
    (hsave : w.batchFails .saveRollingBack = false) :
    (rollbackPhase w s).1.row.status = .rollingBack := by
  have heach := rollbackEach_reload w (s.set .rollingBack).save
  have hrow := (s.set .rollingBack).save.reload.turns_batch
    (fun i l => (rollbackLeg w .inPhase i l).1)
    (reached w .inPhase (s.set .rollingBack).save.executedDesc)
  have hdesc : (s.set .rollingBack).save.executedDesc = s.executedDesc := rfl
  rw [hdesc] at heach hrow
  unfold rollbackPhase
  simp only [hsave, Bool.false_eq_true, if_false, hdesc]
  split
  · rfl
  · rename_i haudit
    rw [heach]
    cases hall : s.executedDesc.all (undoes w .inPhase) with
    | false => exact congrArg TransactionBatch.status hrow.2
    | true =>
      cases hdone : w.batchFails .saveRollbackDone with
      | false => exact absurd ⟨hsave, by simpa using haudit, hall, hdone⟩ h
      | true => exact congrArg TransactionBatch.status hrow.2

theorem rollbackPhase_done (h : RollsBack w s.executedDesc) :
    (rollbackPhase w s).1.row.status = .rolledBack ∧
      (rollbackPhase w s).1.legs.map (·.view) = (s.legs.map (·.view)).map undone := by
  obtain ⟨hsave, haudit, hall, hdone⟩ := h
  have heach := rollbackEach_reload w (s.set .rollingBack).save
  have hdesc : (s.set .rollingBack).save.executedDesc = s.executedDesc := rfl
  rw [hdesc, reached_of_all hall, hall] at heach
  unfold rollbackPhase
  simp only [hsave, haudit, Bool.false_eq_true, if_false, hdesc, heach, hdone]
  refine ⟨rfl, ?_⟩
  apply List.ext_getElem?
  intro k
  rw [Exec.save_legs, Exec.set_legs, List.map_map, List.getElem?_map, List.getElem?_map,
    Exec.turns_getElem? _ _ executedDesc_nodup]
  simp only [Exec.reload, Exec.save_legs, Exec.set_legs, List.getElem?_map, Option.map_map]
  cases hk : s.legs[k]? with
  | none => rfl
  | some l =>
    simp only [Option.map_some, Function.comp_apply, Option.some.injEq]
    by_cases hex : l.row.status = .executed
    · have hmem : k ∈ s.executedDesc := mem_executedDesc.mpr ⟨l, hk, hex⟩
      have hundoes : undoes w .inPhase k = true := List.all_eq_true.mp hall k hmem
      obtain ⟨hok, hinv, hrolled, -⟩ := rollbackLeg_spec w .inPhase k { l with leg := l.row }
      rw [if_pos hmem]
      simp only [LegState.view, undone, hex, if_true, hinv, hrolled (hok.trans hundoes)]
    · have hmem : k ∉ s.executedDesc := by
        intro hmem
        obtain ⟨l', hl', hex'⟩ := mem_executedDesc.mp hmem
        rw [hk] at hl'
        exact hex (Option.some.inj hl' ▸ hex')
      rw [if_neg hmem]
      simp [LegState.view, undone, hex]

end Phases

end Coordinator
end TradeCore
