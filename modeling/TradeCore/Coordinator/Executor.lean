import TradeCore.Coordinator.Graph
import Mathlib.Data.List.Sort

/-!
# TradeCore.Coordinator.Executor

`AtomicBatchExecutorService`: one call of `executeBatch` on a batch, alone.

Everything outside the process is a `World`: which awaited write throws, what the contracts answer,
and in which order the legs of a layer get through. The legs of a layer run at the same time, but a
leg touches its own row only and reads nothing that another leg of its layer writes, so that a layer
is the turns of its legs in some order.

A leg has an object in memory and a row. A write that throws leaves the row as it was and the object
as it is. Where a `catch` block ends in an audit row, that audit can only replace one error by
another, and it is left out.
-/

namespace TradeCore
namespace Coordinator

open Lib

/-! ## What the outside decides -/

section Retry

variable {α : Type}

def executeWithRetry.loop (operation : Nat → Except Bool α) : Nat → Nat → Option α
  | 0, attempt => (operation attempt).toOption
  | left + 1, attempt =>
    match operation attempt with
    | .ok result => some result
    | .error retryable =>
      if retryable then executeWithRetry.loop operation left (attempt + 1) else none

/-- The result of the first attempt that succeeds. An attempt fails with an error that is worth
another attempt, or not. -/
def executeWithRetry (maxRetries : Nat) (operation : Nat → Except Bool α) : Option α :=
  executeWithRetry.loop operation maxRetries 0

end Retry

/-- The two places that roll legs back. -/
inductive Rollback where
  | inCommit
  | inPhase
  deriving DecidableEq, Repr

/-- The awaited calls of a leg, apart from the contracts. -/
inductive LegCall where
  | savePreparing
  | saveUnmet
  | saveSkipped
  | auditCondition
  | optimizeGas
  | savePrepared
  | auditPrepared
  | savePrepareFailed
  | saveExecuting
  | saveExecuted
  | auditExecuted
  | saveExecuteFailed
  | saveRollingBack (r : Rollback)
  | saveRolledBack (r : Rollback)
  | auditRolledBack (r : Rollback)
  | saveRollbackFailed (r : Rollback)
  deriving DecidableEq, Repr

/-- The awaited calls of the batch, in the order of the source. -/
inductive BatchCall where
  | auditPrepareStarted
  | savePreparing
  | auditPostPrepare
  | savePrepared
  | auditPrepared
  | saveCommitting
  | auditCommitStarted
  | saveRolledBack
  | auditRolledBack
  | saveCommitted
  | auditPostCommit
  | auditCommitted
  | saveRollingBack
  | auditRollbackStarted
  | saveRollbackDone
  | auditRollbackDone
  deriving DecidableEq, Repr

structure Invocation where
  transactionHash : String
  amountOut : Option Num

structure World where
  legFails : Nat → LegCall → Bool
  batchFails : BatchCall → Bool
  /-- What `get_price` answers for a leg; `none` when it throws. -/
  price : Nat → Option Num
  simulate : Nat → Nat → Except Bool (Option Num)
  invoke : Nat → Nat → Except Bool Invocation
  prepareTurns : List Nat → List Nat
  commitTurns : List Nat → List Nat
  prepareTurns_perm : ∀ layer, (prepareTurns layer).Perm layer
  commitTurns_perm : ∀ layer, (commitTurns layer).Perm layer

def World.simulated (w : World) (i : Nat) : Option (Option Num) := executeWithRetry 2 (w.simulate i)

def World.invoked (w : World) (i : Nat) : Option Invocation := executeWithRetry 2 (w.invoke i)

/-! ## One leg -/

structure LegState where
  leg : BatchLeg
  row : BatchLeg
  /-- The statuses written to the row so far. -/
  saved : List LegStatus
  /-- Whether the contract of the leg has been invoked with success. -/
  invoked : Bool

def LegState.fresh (leg : BatchLeg) : LegState := ⟨leg, leg, [], false⟩

def LegState.set (s : LegState) (status : LegStatus) : LegState :=
  { s with leg := { s.leg with status := status } }

/-- `legRepo.save(leg)`. -/
def LegState.save (s : LegState) : LegState :=
  { s with
    row := { s.leg with
      expectedOutput := s.leg.expectedOutput.map (Option.map column)
      actualOutput := s.leg.actualOutput.map (Option.map column) }
    saved := s.saved ++ [s.leg.status] }

def parseInt (t : List Char) : Option Int :=
  match t.dropWhile isWhite with
  | '-' :: ds => (natOfText 10 (ds.takeWhile Char.isDigit)).map fun n => -(n : Int)
  | '+' :: ds => (natOfText 10 (ds.takeWhile Char.isDigit)).map fun n => (n : Int)
  | ds => (natOfText 10 (ds.takeWhile Char.isDigit)).map fun n => (n : Int)

/-- Whether the legs a leg refers to, as `order_k`, are among the completed ones. -/
def depsMet (leg : BatchLeg) (completedLegs : List Nat) : Bool :=
  leg.dependencies.all fun depId =>
    if "order_".toList <+: depId.toList then
      match parseInt (depId.toList.drop 6) with
      | some depIndex => completedLegs.any fun i => decide ((i : Int) = depIndex)
      | none => false
    else false

/-- The condition of a leg that has one. -/
def BatchLeg.condition (leg : BatchLeg) : Option (ConditionType × Num) :=
  if leg.isConditional then
    match leg.conditionType, leg.conditionExpression with
    | some type, some expression => some (type, expression)
    | _, _ => none
  else none

/-- `evaluateLegCondition`: a price that cannot be had fails the condition. -/
def evaluateLegCondition (w : World) (i : Nat) (type : ConditionType) (expression : Num) : Bool :=
  match w.price i with
  | some currentPrice => evaluateCondition type expression currentPrice
  | none => false

/-- Whether a leg is left out because its condition does not hold. -/
def skips (w : World) (i : Nat) (leg : BatchLeg) : Bool :=
  match leg.condition with
  | some (type, expression) => !evaluateLegCondition w i type expression
  | none => false

/-- The `try` block of `prepareLeg`; `false` when it throws. -/
def prepareLeg.body (w : World) (i : Nat) (completedLegs : List Nat) (s : LegState) :
    LegState × Bool :=
  if !depsMet s.leg completedLegs then
    let s := s.set .failed
    if w.legFails i .saveUnmet then (s, false) else (s.save, true)
  else if skips w i s.leg then
    let s := s.set .skipped
    if w.legFails i .saveSkipped then (s, false) else (s.save, !w.legFails i .auditCondition)
  else
    match w.simulated i with
    | none => (s, false)
    | some amountOut =>
      if w.legFails i .optimizeGas then (s, false)
      else
        let s := { s with leg := { s.leg with
          expectedOutput := amountOut.orElse fun _ => s.leg.expectedOutput
          status := .prepared } }
        if w.legFails i .savePrepared then (s, false) else (s.save, !w.legFails i .auditPrepared)

def prepareLeg (w : World) (i : Nat) (completedLegs : List Nat) (s : LegState) : LegState :=
  let s := s.set .preparing
  if w.legFails i .savePreparing then s
  else
    match prepareLeg.body w i completedLegs s.save with
    | (s, true) => s
    | (s, false) =>
      let s := s.set .failed
      if w.legFails i .savePrepareFailed then s else s.save

/-- The `try` block of `executeLeg`. -/
def executeLeg.body (w : World) (i : Nat) (s : LegState) : LegState × Bool :=
  match w.invoked i with
  | none => (s, false)
  | some result =>
    let s := { s with
      leg := { s.leg with
        status := .executed
        stellarTxHash := some result.transactionHash
        actualOutput := result.amountOut.orElse fun _ => s.leg.actualOutput }
      invoked := true }
    if w.legFails i .saveExecuted then (s, false) else (s.save, !w.legFails i .auditExecuted)

/-- `executeLeg`; `false` when it throws. -/
def executeLeg (w : World) (i : Nat) (s : LegState) : LegState × Bool :=
  let s := s.set .executing
  if w.legFails i .saveExecuting then (s, false)
  else
    match executeLeg.body w i s.save with
    | (s, true) => (s, true)
    | (s, false) =>
      let s := s.set .failed
      (if w.legFails i .saveExecuteFailed then s else s.save, false)

def rollbackLeg (w : World) (r : Rollback) (i : Nat) (s : LegState) : LegState × Bool :=
  let s := s.set .rollingBack
  if w.legFails i (.saveRollingBack r) then (s, false)
  else
    let s := s.save.set .rolledBack
    if w.legFails i (.saveRolledBack r) then
      if w.legFails i (.saveRollbackFailed r) then (s, false) else (s.save, true)
    else if w.legFails i (.auditRolledBack r) then
      if w.legFails i (.saveRollbackFailed r) then (s.save, false) else (s.save.save, true)
    else (s.save, true)

/-! ## The batch -/

structure Exec where
  batch : TransactionBatch
  row : TransactionBatch
  legs : List LegState
  /-- The statuses written to the rows of the legs, in the order of the writes. -/
  trace : List (Nat × LegStatus)

def Exec.set (s : Exec) (status : BatchStatus) : Exec :=
  { s with batch := { s.batch with status := status } }

/-- `batchRepo.save(batch)`. -/
def Exec.save (s : Exec) : Exec := { s with row := s.batch }

def Exec.turn (s : Exec) (i : Nat) (f : LegState → LegState) : Exec :=
  { s with
    legs := s.legs.modify i f
    trace := s.trace ++
      ((s.legs[i]?.map fun l => (f l).saved.drop l.saved.length).getD []).map (Prod.mk i) }

/-- Whether leg `i` has come through the preparation. -/
def Exec.ready (s : Exec) (i : Nat) : Bool :=
  match s.legs[i]? with
  | some l => decide (l.leg.status = .prepared ∨ l.leg.status = .skipped)
  | none => false

def prepareLayers (w : World) : List (List Nat) → List Nat → List Nat → Exec → Exec × List Nat
  | [], _, failedLegs, s => (s, failedLegs)
  | layer :: rest, completedLegs, failedLegs, s =>
    let s := (w.prepareTurns layer).foldl (fun s i => s.turn i (prepareLeg w i completedLegs)) s
    prepareLayers w rest (completedLegs ++ layer.filter fun i => s.ready i)
      (failedLegs ++ layer.filter fun i => !s.ready i) s

/-- `preparePhase`; `false` when it throws. -/
def preparePhase (w : World) (s : Exec) : Exec × Bool :=
  let s := s.set .preparing
  if w.batchFails .savePreparing then (s, false)
  else
    let s := s.save
    match buildGraphFromLegs (s.legs.map (·.leg)) with
    | .error _ => (s, false)
    | .ok graph =>
      match prepareLayers w graph.executionLayers [] [] s with
      | (s, []) =>
        if w.batchFails .auditPostPrepare then (s, false)
        else if !(checkPostPrepare s.batch (s.legs.map (·.leg))).passed then (s, false)
        else
          let s := { s with batch := { s.batch with
            status := .prepared
            preparedLegs := (s.legs.filter fun l => l.leg.status = .prepared).length } }
          if w.batchFails .savePrepared then (s, false)
          else (s.save, !w.batchFails .auditPrepared)
      | (s, _ :: _) => (s, false)

/-- The legs by what became of them in the commit phase. -/
structure Tally where
  committedLegs : List Nat
  failedLegs : List Nat
  skippedLegs : List Nat
  deriving DecidableEq, Repr

def commitLeg (w : World) (i : Nat) (l : LegState) : LegState :=
  if l.leg.status = .prepared then (executeLeg w i l).1 else l

def Tally.add (w : World) (i : Nat) (l : LegState) (t : Tally) : Tally :=
  if l.leg.status = .prepared then
    if (executeLeg w i l).2 then { t with committedLegs := t.committedLegs ++ [i] }
    else { t with failedLegs := t.failedLegs ++ [i] }
  else if l.leg.status = .skipped then { t with skippedLegs := t.skippedLegs ++ [i] }
  else t

def commitTurn (w : World) (s : Exec × Tally) (i : Nat) : Exec × Tally :=
  match s.1.legs[i]? with
  | some l => (s.1.turn i (commitLeg w i), s.2.add w i l)
  | none => s

/-- The layers up to the first one with a failure. -/
def commitLayers (w : World) : List (List Nat) → Exec × Tally → Exec × Tally
  | [], s => s
  | layer :: rest, s =>
    let s := (w.commitTurns layer).foldl (commitTurn w) s
    if s.2.failedLegs = [] then commitLayers w rest s else s

/-- Rolls back those of the legs that are executed, one after the other; stops at one that throws. -/
def rollbackEach (w : World) (r : Rollback) : List Nat → Exec → Exec × Bool
  | [], s => (s, true)
  | i :: rest, s =>
    match s.legs[i]? with
    | some l =>
      if l.leg.status = .executed then
        let s := s.turn i fun l => (rollbackLeg w r i l).1
        if (rollbackLeg w r i l).2 then rollbackEach w r rest s else (s, false)
      else rollbackEach w r rest s
    | none => rollbackEach w r rest s

def rollbackLegs (w : World) (committedIndices : List Nat) (s : Exec) : Exec × Bool :=
  rollbackEach w .inCommit (committedIndices.mergeSort fun a b => decide (b ≤ a)) s

inductive ResultStatus where
  | committed
  | rolledBack
  | failed
  deriving DecidableEq, Repr

structure ExecutionResult where
  status : ResultStatus
  committedLegs : Nat
  failedLegs : Nat
  skippedLegs : Nat
  deriving DecidableEq, Repr

def Tally.result (t : Tally) (status : ResultStatus) : ExecutionResult :=
  ⟨status, t.committedLegs.length, t.failedLegs.length, t.skippedLegs.length⟩

/-- What follows a layer with a failure. -/
def commitPhase.undo (w : World) (t : Tally) (s : Exec) : Exec × Option ExecutionResult :=
  match rollbackLegs w t.committedLegs s with
  | (s, false) => (s, none)
  | (s, true) =>
    let s := s.set .rolledBack
    if w.batchFails .saveRolledBack then (s, none)
    else (s.save, if w.batchFails .auditRolledBack then none else some (t.result .rolledBack))

/-- What follows the last layer. The verdict of `checkPostCommit` goes to the audit log only. -/
def commitPhase.finish (w : World) (t : Tally) (s : Exec) : Exec × Option ExecutionResult :=
  let s := { s with batch := { s.batch with
    status := .committed
    committedLegs := t.committedLegs.length } }
  if w.batchFails .saveCommitted then (s, none)
  else
    (s.save,
      if w.batchFails .auditPostCommit ∨ w.batchFails .auditCommitted then none
      else some (t.result .committed))

/-- `commitPhase`; no result when it throws. -/
def commitPhase (w : World) (s : Exec) : Exec × Option ExecutionResult :=
  let s := s.set .committing
  if w.batchFails .saveCommitting then (s, none)
  else
    let s := s.save
    if w.batchFails .auditCommitStarted then (s, none)
    else
      match buildGraphFromLegs (s.legs.map (·.leg)) with
      | .error _ => (s, none)
      | .ok graph =>
        let s := commitLayers w graph.executionLayers (s, ⟨[], [], []⟩)
        if s.2.failedLegs = [] then commitPhase.finish w s.2 s.1 else commitPhase.undo w s.2 s.1

/-- The legs as they are read again from the table. -/
def Exec.reload (s : Exec) : Exec := { s with legs := s.legs.map fun l => { l with leg := l.row } }

/-- The stored legs that are executed, the last one first. -/
def Exec.executedDesc (s : Exec) : List Nat :=
  (List.range s.legs.length).reverse.filter fun i =>
    match s.legs[i]? with
    | some l => decide (l.row.status = .executed)
    | none => false

/-- `rollbackPhase`; `false` when it throws. -/
def rollbackPhase (w : World) (s : Exec) : Exec × Bool :=
  let s := s.set .rollingBack
  if w.batchFails .saveRollingBack then (s, false)
  else
    let s := s.save
    if w.batchFails .auditRollbackStarted then (s, false)
    else
      match rollbackEach w .inPhase s.executedDesc s.reload with
      | (s, false) => (s, false)
      | (s, true) =>
        let s := s.set .rolledBack
        if w.batchFails .saveRollbackDone then (s, false)
        else (s.save, !w.batchFails .auditRollbackDone)

/-- The `try` block of `executeBatch`; no result when it throws. -/
def executeBatch.body (w : World) (s : Exec) : Exec × Option ExecutionResult :=
  if s.legs = [] then (s, none)
  else if w.batchFails .auditPrepareStarted then (s, none)
  else if !(checkPreExecution s.batch (s.legs.map (·.leg))).passed then (s, none)
  else
    match preparePhase w s with
    | (s, false) => (s, none)
    | (s, true) => commitPhase w s

/-- The tables when `executeBatch` is called on a batch. -/
def Exec.start (batch : TransactionBatch) (legs : List BatchLeg) : Exec :=
  ⟨batch, batch, legs.map .fresh, []⟩

/-- `executeBatch`; no result when it throws. -/
def executeBatch (w : World) (batch : TransactionBatch) (legs : List BatchLeg) :
    Exec × Option ExecutionResult :=
  match executeBatch.body w (.start batch legs) with
  | (s, some result) => (s, some result)
  | (s, none) =>
    match rollbackPhase w s with
    | (s, true) => (s, some ⟨.failed, 0, 0, 0⟩)
    | (s, false) => (s, none)

end Coordinator
end TradeCore
