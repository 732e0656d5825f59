import TradeCore.Common
import TradeCore.Lib.DecimalText
import TradeCore.Lib.Rounding

/-!
# TradeCore.Coordinator.Entities

The rows of the transaction coordinator, the requests it takes and the state consistency checker.

The numeric columns are strings that the code only ever reads through `parseFloat`; the model holds
the number. An output comes from a contract and may be anything, so its number may be missing
(`NaN`); a comparison with `NaN` is false. Columns that no modelled function reads are left out (the
contract call, the assets of a stored leg, error texts, metadata and timestamps).
-/

namespace TradeCore
namespace Coordinator

open Lib

inductive BatchStatus where
  | created
  | preparing
  | prepared
  | committing
  | committed
  | rollingBack
  | rolledBack
  | failed
  | expired
  deriving DecidableEq, Repr

inductive LegStatus where
  | pending
  | preparing
  | prepared
  | executing
  | executed
  | rollingBack
  | rolledBack
  | failed
  | skipped
  deriving DecidableEq, Repr

inductive ConditionType where
  | priceGt
  | priceLt
  | priceGte
  | priceLte
  | amountGt
  | amountLt
  deriving DecidableEq, Repr

/-- What `parseFloat` returns; `none` is `NaN`. -/
abbrev Num := Option ℚ

def Num.lt (x y : Num) : Bool :=
  match x, y with
  | some x, some y => decide (x < y)
  | _, _ => false

/-- A column `numeric(30, 7)`. -/
def column (x : ℚ) : ℚ := roundTo 7 x

/-- The text of a generated key. -/
structure UuidText where
  text : String
  hex : ∀ c ∈ text.toList, c.isDigit ∨ c ∈ ['a', 'b', 'c', 'd', 'e', 'f', '-']

/-- An optional text of a request. `===` tells a missing field from `null`. -/
inductive TextInput where
  | undefined
  | null
  | text (s : String)
  deriving DecidableEq, Repr

structure ConditionalLegDto where
  conditionType : Option ConditionType
  /-- The number in the expression; `none` when there is no expression or an empty one. -/
  conditionExpression : Option Num

structure SwapLegDto where
  sourceAssetCode : String
  sourceAssetIssuer : TextInput
  destAssetCode : String
  destAssetIssuer : TextInput
  amount : ℚ
  minAmountOut : ℚ
  maxAmountOut : Option ℚ
  dependencies : Option (List JsNumber)
  isConditional : Bool
  conditional : Option ConditionalLegDto

structure CreateBatchDto where
  legs : List SwapLegDto

structure BatchLeg where
  id : UuidText
  orderIndex : Nat
  dependencies : List String
  amount : ℚ
  minAmountOut : ℚ
  maxAmountOut : Option ℚ
  isConditional : Bool
  conditionExpression : Option Num
  conditionType : Option ConditionType
  status : LegStatus
  expectedOutput : Option Num
  actualOutput : Option Num
  stellarTxHash : Option String

structure TransactionBatch where
  status : BatchStatus
  totalLegs : Nat
  preparedLegs : Nat
  committedLegs : Nat
  deriving DecidableEq, Repr

/-! ## The state consistency checker -/

inductive Severity where
  | critical
  | warning
  deriving DecidableEq, Repr

structure CheckDetail where
  name : String
  passed : Bool
  severity : Severity
  deriving DecidableEq, Repr

structure ConsistencyCheckResult where
  passed : Bool
  checks : List CheckDetail
  deriving DecidableEq, Repr

/-- A failed check counts when it is critical. -/
def buildResult (checks : List CheckDetail) : ConsistencyCheckResult where
  passed := checks.all fun c => if c.severity = .critical then c.passed else true
  checks := checks

/-- A check that no leg does `bad`. -/
def noLeg (name : String) (severity : Severity) (bad : BatchLeg → Bool) (legs : List BatchLeg) :
    CheckDetail :=
  ⟨name, !legs.any bad, severity⟩

def checkPreExecution (batch : TransactionBatch) (legs : List BatchLeg) : ConsistencyCheckResult :=
  buildResult
    [⟨"batch_status", decide (batch.status = .created ∨ batch.status = .preparing), .critical⟩,
      noLeg "legs_pending" .critical (fun l => decide (l.status ≠ .pending)) legs,
      noLeg "positive_amounts" .critical (fun l => decide (l.amount ≤ 0)) legs,
      noLeg "min_amount_out_bounds" .warning (fun l => decide (l.amount < l.minAmountOut)) legs,
      noLeg "price_bounds" .critical
        (fun l => match l.maxAmountOut with
          | some max => decide (max < l.minAmountOut)
          | none => false) legs,
      noLeg "conditional_legs_config" .critical
        (fun l => l.isConditional && (l.conditionExpression.isNone || l.conditionType.isNone)) legs,
      noLeg "no_duplicate_dependencies" .warning (fun l => decide (¬ l.dependencies.Nodup)) legs]

/-- An output of a leg that lies outside its bounds. -/
def BatchLeg.outOfBounds (leg : BatchLeg) (output : Option Num) : Bool :=
  match output with
  | none => false
  | some x => x.lt (some leg.minAmountOut) || match leg.maxAmountOut with
    | some max => Num.lt (some max) x
    | none => false

def checkPostPrepare (batch : TransactionBatch) (legs : List BatchLeg) : ConsistencyCheckResult :=
  buildResult
    [noLeg "all_prepared" .critical
        (fun l => !(decide (l.status = .prepared) || decide (l.status = .skipped))) legs,
      noLeg "expected_output_bounds" .critical
        (fun l => decide (l.status = .prepared) && l.outOfBounds l.expectedOutput) legs,
      ⟨"batch_prepared_count",
        decide (batch.preparedLegs = (legs.filter fun l => l.status = .prepared).length), .warning⟩]

def checkPostCommit (legs : List BatchLeg) : ConsistencyCheckResult :=
  buildResult
    [noLeg "legs_committed" .critical
        (fun l => !(decide (l.status = .skipped) || decide (l.status = .executed) ||
          decide (l.status = .rolledBack))) legs,
      noLeg "positive_actual_outputs" .critical
        (fun l => decide (l.status = .executed) &&
          match l.actualOutput with
          | some x => x.lt (some 0)
          | none => false) legs,
      noLeg "actual_output_meets_minimum" .critical
        (fun l => decide (l.status = .executed) &&
          match l.actualOutput with
          | some x => x.lt (some l.minAmountOut)
          | none => false) legs,
      noLeg "actual_output_price_bounds" .warning
        (fun l => decide (l.status = .executed) &&
          match l.actualOutput, l.maxAmountOut with
          | some x, some max => Num.lt (some max) x
          | _, _ => false) legs,
      noLeg "tx_hashes_present" .warning
        (fun l => decide (l.status = .executed) && l.stellarTxHash.isNone) legs]

def checkPostRollback (batch : TransactionBatch) (legs : List BatchLeg) : ConsistencyCheckResult :=
  buildResult
    [noLeg "no_intermediate_state" .critical
        (fun l => decide (l.status = .preparing ∨ l.status = .executing ∨ l.status = .prepared)) legs,
      ⟨"batch_rolled_back",
        decide (batch.status = .rolledBack ∨ batch.status = .rollingBack), .critical⟩]

/-- `evaluateCondition`: a number that cannot be read fails every condition. -/
def evaluateCondition (type : ConditionType) (expression currentValue : Num) : Bool :=
  match currentValue, expression with
  | some value, some threshold =>
    match type with
    | .priceGt | .amountGt => decide (threshold < value)
    | .priceLt | .amountLt => decide (value < threshold)
    | .priceGte => decide (threshold ≤ value)
    | .priceLte => decide (value ≤ threshold)
  | _, _ => false

end Coordinator
end TradeCore
