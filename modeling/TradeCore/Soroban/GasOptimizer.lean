import TradeCore.Lib.DecimalText
import TradeCore.Lib.Double
import TradeCore.Lib.Run

/-!
# TradeCore.Soroban.GasOptimizer

The `GasOptimizationEngine`: the usage it records, and the fee it makes of a simulated one.

`optimizeGas` takes the average of the recorded usage where that is below the simulated fee, and adds a
buffer of a tenth, or of a twentieth if the method is stable. `optimizeGas_eq` says what that comes to,
throws included, and `optimizeGas_sufficient_iff` for which histories it is enough. An average lower by
more than the buffer is not; a fee of zero and ten usages of zero divide by zero.
-/

namespace TradeCore
namespace Soroban

open Lib

namespace GasOptimizer

structure GasEstimate where
  minResourceFee : String
  cpuInstructions : Option String
  memoryBytes : Option String
  deriving DecidableEq, Repr

/-- `savingsPercentage` is a number; `none` would be an infinity. -/
structure GasOptimization where
  originalEstimate : GasEstimate
  optimizedEstimate : GasEstimate
  optimizationsApplied : List String
  estimatedSavings : String
  savingsPercentage : Option ℚ
  deriving DecidableEq

structure GasUsageHistory where
  contractId : String
  method : String
  gasUsed : String
  deriving DecidableEq, Repr

/-- What the arithmetic on `bigint` throws: a text that is no number, a division by zero, a number that is
not whole. -/
inductive Thrown where
  | syntaxError
  | divisionByZero
  | notAnInteger
  deriving DecidableEq, Repr

def bigInt (text : String) : Except Thrown Int :=
  match bigInt? text.toList with
  | some n => .ok n
  | none => .error .syntaxError

def bigDiv (a b : Int) : Except Thrown Int := if b = 0 then .error .divisionByZero else .ok (a.tdiv b)

def maxHistorySize : Nat := 1000

def safetyBuffer : ℚ := nearestDouble (1 / 10)

/-- The `0.05` of a stable method. -/
def stableBuffer : ℚ := nearestDouble (1 / 20)

def recordGasUsage (history : List GasUsageHistory) (usage : GasUsageHistory) : List GasUsageHistory :=
  let history := history ++ [usage]
  if history.length > maxHistorySize then history.tail else history

def relevant (history : List GasUsageHistory) (contractId method : String) : List GasUsageHistory :=
  history.filter fun h => h.contractId = contractId ∧ h.method = method

def predictGasUsage (history : List GasUsageHistory) (contractId method : String) :
    Except Thrown (Option GasEstimate) :=
  let relevant := relevant history contractId method
  if relevant.length = 0 then .ok none
  else do
    let sum ← relevant.foldlM (fun acc h => return acc + (← bigInt h.gasUsed)) 0
    let avg ← bigDiv sum relevant.length
    return some ⟨toString avg, none, none⟩

/-- `values.every(...)`: it stops at the first value that is off. -/
def everyWithin (avg : Int) : List Int → Except Thrown Bool
  | [] => .ok true
  | v :: values => do
    let diff := if v > avg then v - avg else avg - v
    let percent ← bigDiv (diff * 100) avg
    if percent < 20 then everyWithin avg values else .ok false

def isMethodStable (history : List GasUsageHistory) (contractId method : String) : Except Thrown Bool :=
  let relevant := relevant history contractId method
  if relevant.length < 10 then .ok false
  else do
    let values ← relevant.mapM fun h => bigInt h.gasUsed
    let avg ← bigDiv (values.foldl (· + ·) 0) values.length
    everyWithin avg values

def canBatchWithSimilarCalls (_contractId _method : String) : Bool := false

def getHistoricalAverage (history : List GasUsageHistory) (contractId method : String) :
    Except Thrown (Option String) := do
  let prediction ← predictGasUsage history contractId method
  return prediction.bind fun estimate =>
    if estimate.minResourceFee = "" then none else some estimate.minResourceFee

def applyBuffer (value : Int) (bufferPercent : ℚ) : Except Thrown Int :=
  match (toDouble? value).bind fun x => toDouble? (x * bufferPercent) with
  | none => .error .notAnInteger
  | some x => .ok (value + ⌊x⌋)

/-- The first strategy: the historical average, where it is below the fee. -/
def calibrate (fee : Int) : Option String → Except Thrown (Int × List String)
  | none => .ok (fee, [])
  | some historicalAvg => do
    let historical ← bigInt historicalAvg
    return if historical < fee then (historical, ["historical-data-calibration"]) else (fee, [])

def optimizeGas (history : List GasUsageHistory) (contractId method : String)
    (currentEstimate : GasEstimate) : Except Thrown GasOptimization := do
  let fee ← bigInt currentEstimate.minResourceFee
  let historicalAvg ← getHistoricalAverage history contractId method
  let (calibrated, applied) ← calibrate fee historicalAvg
  let stable ← isMethodStable history contractId method
  let optimized ← applyBuffer calibrated (if stable then stableBuffer else safetyBuffer)
  let applied := if stable then applied ++ ["reduced-safety-buffer-stable-method"] else applied
  let applied :=
    if canBatchWithSimilarCalls contractId method then applied ++ ["batching-opportunity-detected"]
    else applied
  let savings := fee - optimized
  let savingsPercentage ← bigDiv (savings * 100) fee
  return {
    originalEstimate := currentEstimate
    optimizedEstimate := { currentEstimate with minResourceFee := toString optimized }
    optimizationsApplied := applied
    estimatedSavings := toString savings
    savingsPercentage := toDouble? savingsPercentage }

/-! ## In whole numbers -/

/-- A text of decimal digits. -/
def Decimal (text : String) : Prop := text.toList ≠ [] ∧ text.toList.all Char.isDigit = true

instance (text : String) : Decidable (Decimal text) := inferInstanceAs (Decidable (_ ∧ _))

def decimalValue (text : String) : Nat := Nat.ofDigitChars 10 text.toList 0

def gasOf (history : List GasUsageHistory) (contractId method : String) : List Nat :=
  (relevant history contractId method).map fun h => decimalValue h.gasUsed

def average (gas : List Nat) : Nat := gas.sum / gas.length

/-- Ten usages, none of them off by a fifth of the average. -/
def Stable (gas : List Nat) : Prop :=
  10 ≤ gas.length ∧ ∀ g ∈ gas, ((g - average gas) + (average gas - g)) * 100 / average gas < 20

instance (gas : List Nat) : Decidable (Stable gas) := inferInstanceAs (Decidable (_ ∧ _))

def bufferPercent (gas : List Nat) : ℚ := if Stable gas then stableBuffer else safetyBuffer

/-- The buffer on `n`, in the arithmetic of doubles. -/
def buffer (bufferPercent : ℚ) (n : Nat) : Nat := ⌊nearestDouble (nearestDouble n * bufferPercent)⌋₊

/-- The fee before the buffer. -/
def calibrated (gas : List Nat) (fee : Nat) : Nat := if gas = [] then fee else min fee (average gas)

/-- The usage on record and the simulated fee allow the call to end, and with enough. -/
structure Adequate (gas : List Nat) (fee : Nat) : Prop where
  fee_pos : 0 < fee
  average_pos : 10 ≤ gas.length → 0 < average gas
  finite : calibrated gas fee < overflow
  enough : gas = [] ∨ fee ≤ average gas ∨ fee ≤ average gas + buffer (bufferPercent gas) (average gas)

theorem length_recordGasUsage {history : List GasUsageHistory} (h : history.length ≤ maxHistorySize)
    (usage : GasUsageHistory) : (recordGasUsage history usage).length ≤ maxHistorySize := by
  simp only [recordGasUsage]
  split
  · rw [List.length_tail, List.length_append]
    simpa using h
  · exact Nat.not_lt.mp ‹_›

/-- Whatever is recorded, at most a thousand usages are on record. -/
theorem length_history (usages : List GasUsageHistory) :
    (run recordGasUsage [] usages).length ≤ maxHistorySize :=
  run_inv (I := fun history : List GasUsageHistory => history.length ≤ maxHistorySize) (G := fun _ _ => True)
    (fun _ usage h _ => length_recordGasUsage h usage) (Nat.zero_le _) along_true

theorem ok_bind {α β : Type} (a : α) (f : α → Except Thrown β) : (Except.ok a >>= f) = f a := rfl

theorem bigInt_decimal {text : String} (h : Decimal text) : bigInt text = .ok (decimalValue text) := by
  rw [bigInt, bigInt?_digits h.1 (List.all_eq_true.mp h.2)]
  rfl

theorem toList_toString (n : Nat) : (toString (n : Int)).toList = Nat.toDigits 10 n := by
  rw [toList_intText, if_neg (by omega), List.nil_append, Int.natAbs_natCast]

theorem decimal_toString (n : Nat) : Decimal (toString (n : Int)) := by
  rw [Decimal, toList_toString]
  exact ⟨Nat.toDigits_ne_nil, List.all_eq_true.mpr (isDigit_toDigits n)⟩

theorem decimalValue_toString (n : Nat) : decimalValue (toString (n : Int)) = n := by
  rw [decimalValue, toList_toString, Nat.ofDigitChars_ten_toDigits]

theorem bigDiv_natCast_right (a : Int) (b : Nat) :
    bigDiv a b = if b = 0 then .error .divisionByZero else .ok (a.tdiv b) := by
  simp only [bigDiv, Int.natCast_eq_zero]

theorem bigDiv_natCast (a b : Nat) :
    bigDiv a b = if b = 0 then .error .divisionByZero else .ok ((a / b : Nat) : Int) :=
  bigDiv_natCast_right a b

/-! ## The usage on record -/

section History

variable {history : List GasUsageHistory}

theorem foldlM_bigInt {usages : List GasUsageHistory} (h : ∀ u ∈ usages, Decimal u.gasUsed) (acc : Nat) :
    usages.foldlM (fun (acc : Int) u => return acc + (← bigInt u.gasUsed)) (acc : Int) =
      (.ok ((acc + (usages.map fun u => decimalValue u.gasUsed).sum : Nat) : Int) : Except Thrown Int) := by
  induction usages generalizing acc with
  | nil => simp [pure, Except.pure]
  | cons u usages ih =>
    rw [List.foldlM_cons, bigInt_decimal (h u (.head _)), List.map_cons, List.sum_cons, ← Nat.add_assoc,
      ← ih (fun u hu => h u (.tail _ hu))]
    rfl

theorem mapM_bigInt {usages : List GasUsageHistory} (h : ∀ u ∈ usages, Decimal u.gasUsed) :
    usages.mapM (fun u => bigInt u.gasUsed) =
      .ok ((usages.map fun u => decimalValue u.gasUsed).map fun g : Nat => (g : Int)) := by
  induction usages with
  | nil => rfl
  | cons u usages ih =>
    rw [List.mapM_cons, bigInt_decimal (h u (.head _)), ih fun u hu => h u (.tail _ hu)]
    rfl

theorem foldl_natCast (gas : List Nat) (acc : Nat) :
    (gas.map fun g : Nat => (g : Int)).foldl (· + ·) (acc : Int) = ((acc + gas.sum : Nat) : Int) := by
  induction gas generalizing acc with
  | nil => simp
  | cons g gas ih =>
    rw [List.map_cons, List.foldl_cons, ← Int.natCast_add, ih, List.sum_cons, Nat.add_assoc]

theorem getHistoricalAverage_eq (h : ∀ u ∈ history, Decimal u.gasUsed) (contractId method : String) :
    getHistoricalAverage history contractId method =
      .ok (if gasOf history contractId method = [] then none
        else some (toString (average (gasOf history contractId method) : Int))) := by
  have hrelevant : ∀ u ∈ relevant history contractId method, Decimal u.gasUsed :=
    fun u hu => h u (List.mem_of_mem_filter hu)
  have hgas : gasOf history contractId method = [] ↔ (relevant history contractId method).length = 0 := by
    rw [gasOf, List.map_eq_nil_iff, List.length_eq_zero_iff]
  rw [getHistoricalAverage, predictGasUsage]
  by_cases hnone : (relevant history contractId method).length = 0
  · rw [if_pos (hgas.mpr hnone)]
    simp only [hnone, if_true]
    rfl
  · have hne : toString (average (gasOf history contractId method) : Int) ≠ "" := fun heq =>
      (decimal_toString _).1 (by rw [heq]; rfl)
    have hsum := foldlM_bigInt hrelevant 0
    rw [if_neg (hgas.not.mpr hnone)]
    simp only [if_neg hnone]
    rw [Int.natCast_zero] at hsum
    rw [hsum, Nat.zero_add, ok_bind, bigDiv_natCast, if_neg hnone, ok_bind]
    rw [gasOf, average, List.length_map] at hne ⊢
    exact congrArg Except.ok (if_neg hne)

theorem everyWithin_eq {avg : Nat} (havg : avg ≠ 0) (gas : List Nat) :
    everyWithin avg (gas.map fun g : Nat => (g : Int)) =
      .ok (decide (∀ g ∈ gas, ((g - avg) + (avg - g)) * 100 / avg < 20)) := by
  induction gas with
  | nil => rfl
  | cons g gas ih =>
    have hdiff : (if (g : Int) > avg then (g : Int) - avg else avg - g) * 100 =
        ((((g - avg) + (avg - g)) * 100 : Nat) : Int) := by
      split <;> omega
    rw [List.map_cons, everyWithin]
    simp only [hdiff]
    rw [bigDiv_natCast, if_neg havg, ok_bind, ih]
    simp only [List.forall_mem_cons]
    split
    · rename_i hlt
      have hlt' : ((g - avg) + (avg - g)) * 100 / avg < 20 := by exact_mod_cast hlt
      simp only [hlt', true_and]
    · rename_i hge
      have hge' : ¬ ((g - avg) + (avg - g)) * 100 / avg < 20 := by exact_mod_cast hge
      simp only [hge', false_and, decide_false]

theorem everyWithin_zero {gas : List Nat} (hne : gas ≠ []) :
    everyWithin 0 (gas.map fun g : Nat => (g : Int)) = .error .divisionByZero := by
  cases gas with
  | nil => exact absurd rfl hne
  | cons g gas => rfl

theorem isMethodStable_eq (h : ∀ u ∈ history, Decimal u.gasUsed) (contractId method : String) :
    isMethodStable history contractId method =
      if 10 ≤ (gasOf history contractId method).length ∧ average (gasOf history contractId method) = 0 then
        .error .divisionByZero
      else .ok (decide (Stable (gasOf history contractId method))) := by
  have hrelevant : ∀ u ∈ relevant history contractId method, Decimal u.gasUsed :=
    fun u hu => h u (List.mem_of_mem_filter hu)
  have hvalues := mapM_bigInt hrelevant
  rw [← gasOf] at hvalues
  have hlength : (relevant history contractId method).length = (gasOf history contractId method).length := by
    rw [gasOf, List.length_map]
  rw [isMethodStable]
  simp only [hlength, hvalues]
  generalize gasOf history contractId method = gas
  by_cases hfew : gas.length < 10
  · rw [if_pos hfew, if_neg (by omega)]
    simp only [Stable, Nat.not_le.mpr hfew, false_and, decide_false]
  · have hsum := foldl_natCast gas 0
    rw [Int.natCast_zero, Nat.zero_add] at hsum
    rw [if_neg hfew, ok_bind, hsum, List.length_map, bigDiv_natCast, if_neg (by omega), ok_bind, ← average]
    by_cases hzero : average gas = 0
    · rw [if_pos ⟨Nat.not_lt.mp hfew, hzero⟩, hzero]
      exact everyWithin_zero (List.ne_nil_of_length_pos (by omega))
    · rw [if_neg (fun hand => hzero hand.2), everyWithin_eq hzero]
      simp only [Stable, Nat.not_lt.mp hfew, true_and]

end History

/-! ## The buffer -/

theorem safetyBuffer_eq : safetyBuffer = (1 + 1 / 2 ^ 54) / 10 := by decide +kernel

theorem stableBuffer_eq : stableBuffer = (1 + 1 / 2 ^ 54) / 20 := by decide +kernel

theorem buffer_eq {n : Nat} (h : n < 2 ^ 52) :
    buffer safetyBuffer n = n / 10 ∧ buffer stableBuffer n = n / 20 := by
  have hexact : nearestDouble n = n := nearestDouble_natCast (h.trans (by norm_num))
  have hfloor : ∀ {d : Nat}, 0 < d → d ≤ 2 ^ 100 →
      ⌊nearestDouble (n * ((1 + 1 / 2 ^ 54) / d))⌋₊ = n / d := by
    intro d hd hd'
    rw [← Int.floor_toNat, floor_nearestDouble_div h hd hd', ← Int.natCast_div, Int.toNat_natCast]
  rw [buffer, buffer, hexact, safetyBuffer_eq, stableBuffer_eq]
  exact ⟨hfloor (d := 10) (by norm_num) (by norm_num), hfloor (d := 20) (by norm_num) (by norm_num)⟩

theorem applyBuffer_eq {p : ℚ} (hlow : 1 / 2 ^ 100 ≤ p) (hhigh : p ≤ 1 / 2) (n : Nat) :
    applyBuffer n p =
      if n < overflow then .ok ((n + buffer p n : Nat) : Int) else .error .notAnInteger := by
  unfold applyBuffer
  simp only [Int.cast_natCast, toDouble?_natCast]
  by_cases hn : n < overflow
  · obtain ⟨hmul, hnonneg⟩ := toDouble?_mul hn hlow hhigh
    have hfloor : ⌊nearestDouble (nearestDouble n * p)⌋ = (buffer p n : Int) := by
      rw [buffer, ← Int.floor_toNat, Int.toNat_of_nonneg (Int.floor_nonneg.mpr hnonneg)]
    simp only [if_pos hn, Option.bind_some, hmul, hfloor, Int.natCast_add]
  · simp only [if_neg hn, Option.bind_none]

theorem bufferPercent_bounds (gas : List Nat) :
    1 / 2 ^ 100 ≤ bufferPercent gas ∧ bufferPercent gas ≤ 1 / 2 := by
  rw [bufferPercent, safetyBuffer_eq, stableBuffer_eq]
  split <;> norm_num

/-! ## The optimized fee -/

def strategies (gas : List Nat) (fee : Nat) : List String :=
  (if gas ≠ [] ∧ average gas < fee then ["historical-data-calibration"] else []) ++
    if Stable gas then ["reduced-safety-buffer-stable-method"] else []

def optimizedFee (gas : List Nat) (fee : Nat) : Nat :=
  calibrated gas fee + buffer (bufferPercent gas) (calibrated gas fee)

section Optimize

variable {history : List GasUsageHistory} {contractId method : String} {estimate : GasEstimate}

theorem calibrate_eq (gas : List Nat) (fee : Nat) :
    calibrate fee (if gas = [] then none else some (toString (average gas : Int))) =
      .ok ((calibrated gas fee : Int),
        if gas ≠ [] ∧ average gas < fee then ["historical-data-calibration"] else []) := by
  by_cases hgas : gas = []
  · simp only [hgas, if_true, calibrate, calibrated, ne_eq, not_true_eq_false, false_and, if_false]
  · rw [if_neg hgas, calibrate, bigInt_decimal (decimal_toString _), ok_bind, decimalValue_toString,
      calibrated, if_neg hgas]
    by_cases hlt : average gas < fee
    · rw [if_pos (by exact_mod_cast hlt), if_pos ⟨hgas, hlt⟩, min_eq_right hlt.le]
      rfl
    · rw [if_neg (by exact_mod_cast hlt), if_neg (fun h => hlt h.2), min_eq_left (Nat.not_lt.mp hlt)]
      rfl

theorem strategies_eq (contractId method : String) (gas : List Nat) (fee : Nat) :
    (let applied := if gas ≠ [] ∧ average gas < fee then ["historical-data-calibration"] else []
      let applied := if Stable gas then applied ++ ["reduced-safety-buffer-stable-method"] else applied
      if canBatchWithSimilarCalls contractId method then applied ++ ["batching-opportunity-detected"]
      else applied) = strategies gas fee := by
  have hbatch : canBatchWithSimilarCalls contractId method = false := rfl
  simp only [hbatch, Bool.false_eq_true, if_false, strategies]
  by_cases hstable : Stable gas
  · rw [if_pos hstable, if_pos hstable]
  · rw [if_neg hstable, if_neg hstable, List.append_nil]

/-- A call in whole numbers, with what it throws. -/
theorem optimizeGas_eq (hestimate : Decimal estimate.minResourceFee)
    (hhistory : ∀ u ∈ history, Decimal u.gasUsed) :
    let gas := gasOf history contractId method
    let fee := decimalValue estimate.minResourceFee
    optimizeGas history contractId method estimate =
      if 10 ≤ gas.length ∧ average gas = 0 then .error .divisionByZero
      else if ¬ calibrated gas fee < overflow then .error .notAnInteger
      else if fee = 0 then .error .divisionByZero
      else .ok {
        originalEstimate := estimate
        optimizedEstimate := { estimate with minResourceFee := toString (optimizedFee gas fee : Int) }
        optimizationsApplied := strategies gas fee
        estimatedSavings := toString ((fee : Int) - optimizedFee gas fee)
        savingsPercentage := toDouble? ((((fee : Int) - optimizedFee gas fee) * 100).tdiv fee) } := by
  intro gas fee
  obtain ⟨hlow, hhigh⟩ := bufferPercent_bounds gas
  rw [optimizeGas, bigInt_decimal hestimate, ok_bind, getHistoricalAverage_eq hhistory, ok_bind,
    calibrate_eq, ok_bind, isMethodStable_eq hhistory]
  dsimp only
  by_cases hzero : 10 ≤ gas.length ∧ average gas = 0
  · rw [if_pos hzero, if_pos hzero]
    rfl
  rw [if_neg hzero, if_neg hzero, ok_bind]
  simp only [decide_eq_true_eq]
  rw [← bufferPercent, applyBuffer_eq hlow hhigh]
  by_cases hfinite : calibrated gas fee < overflow
  · rw [if_pos hfinite, if_neg (not_not.mpr hfinite), ok_bind, bigDiv_natCast_right]
    by_cases hfee : fee = 0
    · rw [if_pos hfee, if_pos hfee]
      rfl
    · rw [if_neg hfee, if_neg hfee, ok_bind, ← strategies_eq contractId method]
      rfl
  · rw [if_neg hfinite, if_pos hfinite]
    rfl

theorem enough_iff (gas : List Nat) (fee : Nat) :
    fee ≤ optimizedFee gas fee ↔
      gas = [] ∨ fee ≤ average gas ∨ fee ≤ average gas + buffer (bufferPercent gas) (average gas) := by
  rw [optimizedFee, calibrated]
  by_cases hgas : gas = []
  · rw [if_pos hgas]
    exact iff_of_true (Nat.le_add_right ..) (.inl hgas)
  · rw [if_neg hgas, or_iff_right hgas]
    by_cases hle : fee ≤ average gas
    · rw [min_eq_left hle]
      exact iff_of_true (Nat.le_add_right ..) (.inl hle)
    · rw [min_eq_right (Nat.le_of_not_le hle), or_iff_right hle]

/-- For averages that are not gigantic: the average and a tenth of it, or a twentieth, reach the fee. -/
theorem enough_iff_whole {gas : List Nat} (h : average gas < 2 ^ 52) (fee : Nat) :
    fee ≤ optimizedFee gas fee ↔
      gas = [] ∨ fee ≤ average gas + average gas / (if Stable gas then 20 else 10) := by
  have hbuffer : buffer (bufferPercent gas) (average gas) =
      average gas / (if Stable gas then 20 else 10) := by
    rw [bufferPercent]
    split
    · exact (buffer_eq h).2
    · exact (buffer_eq h).1
  rw [enough_iff, hbuffer]
  refine or_congr_right (or_iff_right_of_imp fun hle => ?_)
  exact hle.trans (Nat.le_add_right ..)

/-- **The optimized fee is enough**, and the call ends, for the adequate histories and no others. -/
theorem optimizeGas_sufficient_iff (hestimate : Decimal estimate.minResourceFee)
    (hhistory : ∀ u ∈ history, Decimal u.gasUsed) :
    (∃ optimization, optimizeGas history contractId method estimate = .ok optimization ∧
        decimalValue estimate.minResourceFee ≤
          decimalValue optimization.optimizedEstimate.minResourceFee) ↔
      Adequate (gasOf history contractId method) (decimalValue estimate.minResourceFee) := by
  rw [optimizeGas_eq hestimate hhistory]
  constructor
  · rintro ⟨optimization, hcall, hle⟩
    split_ifs at hcall with hzero hfinite hfee
    cases hcall
    rw [decimalValue_toString, enough_iff] at hle
    exact ⟨Nat.pos_of_ne_zero hfee, fun hten => Nat.pos_of_ne_zero fun h0 => hzero ⟨hten, h0⟩,
      hfinite, hle⟩
  · rintro ⟨hfee, haverage, hfinite, henough⟩
    rw [if_neg fun h => (haverage h.1).ne' h.2, if_neg (not_not.mpr hfinite), if_neg hfee.ne']
    refine ⟨_, rfl, ?_⟩
    rw [decimalValue_toString]
    exact (enough_iff ..).mpr henough

end Optimize

def usage (gasUsed : String) : GasUsageHistory := ⟨"CA", "transfer", gasUsed⟩

def simulated (minResourceFee : String) : GasEstimate := ⟨minResourceFee, none, none⟩

theorem cheap_history_enough :
    ∃ optimization, optimizeGas [usage "95"] "CA" "transfer" (simulated "100") = .ok optimization ∧
      decimalValue "100" ≤ decimalValue optimization.optimizedEstimate.minResourceFee :=
  (optimizeGas_sufficient_iff (by decide +kernel) (by decide +kernel)).mpr
    ⟨by decide +kernel, by decide +kernel, by decide +kernel, .inr (.inr (by decide +kernel))⟩

/-- A history of 50 leaves 55 of a simulated 100; a fee of zero, and ten usages of zero, divide by zero. -/
theorem half_the_fee :
    (¬ ∃ optimization, optimizeGas [usage "50"] "CA" "transfer" (simulated "100") = .ok optimization ∧
      decimalValue "100" ≤ decimalValue optimization.optimizedEstimate.minResourceFee) ∧
    optimizeGas [] "CA" "transfer" (simulated "0") = .error .divisionByZero ∧
    optimizeGas (List.replicate 10 (usage "0")) "CA" "transfer" (simulated "100") =
      .error .divisionByZero := by
  have hfee : (optimizeGas [usage "50"] "CA" "transfer" (simulated "100")).map
      (·.optimizedEstimate.minResourceFee) = .ok "55" := by decide +kernel
  refine ⟨?_, by decide +kernel, by decide +kernel⟩
  rintro ⟨optimization, hcall, hle⟩
  rw [hcall] at hfee
  have htext : optimization.optimizedEstimate.minResourceFee = "55" := Except.ok.inj hfee
  rw [htext] at hle
  exact absurd hle (by decide +kernel)

end GasOptimizer

end Soroban
end TradeCore
