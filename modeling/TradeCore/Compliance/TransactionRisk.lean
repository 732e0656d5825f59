import Mathlib.Data.List.Forall2
import Mathlib.Tactic.NormNum
import TradeCore.Compliance.Kyc
import TradeCore.Lib.DecimalText
import TradeCore.Lib.Rounding

/-!
# TradeCore.Compliance.TransactionRisk

`assessTransactionRisk`: seven rules over a transaction and the recent ones, the sum of the weights of those
that fire, rounded and capped at 100, and the flag it leaves. `rules_le` is the comparison of two requests
rule by rule; everything the assessment is made of only grows with the rules (`assessment_mono`).

Amounts and thresholds are exact. `none` is the threshold that `parseFloat` reads as `NaN`, which no
comparison holds of; `getTime` is the runtime's reading of a date, `none` an invalid one.
-/

namespace TradeCore
namespace Compliance

open Lib

structure ComplianceConfig where
  region : String
  amlTransactionThreshold : Option ℚ
  dailyVolumeThreshold : Option ℚ
  blockThresholdScore : ℤ
  maxDailyTransactions : ℤ
  deriving DecidableEq, Repr

structure RecentTransaction where
  amount : ℚ
  timestamp : String
  deriving DecidableEq, Repr

structure AssessTransactionRiskDto where
  amount : JsNumber
  transactionType : String
  assetCode : Option String
  recentTransactions : Option (List RecentTransaction)

structure AmlFlag where
  id : Uuid
  userId : Uuid
  riskLevel : AmlRiskLevel
  riskScore : ℤ
  triggerRule : String
  description : String
  transactionAmount : String
  transactionType : String
  assetCode : Option String
  allTriggeredRules : List String
  deriving DecidableEq, Repr

/-- The audit record and the event of a flag carry the same data. -/
structure FlagCreated where
  performedBy : Option Uuid
  performedByRole : String
  userId : Uuid
  flagId : Uuid
  riskLevel : AmlRiskLevel
  riskScore : ℤ
  triggeredRules : List String
  deriving DecidableEq, Repr

structure RiskDb extends KycDb where
  configs : List ComplianceConfig
  flags : List AmlFlag
  flagsCreated : List FlagCreated
  deriving DecidableEq, Repr

structure Assessment where
  riskLevel : AmlRiskLevel
  riskScore : ℤ
  shouldBlock : Bool
  triggeredRules : List String
  deriving DecidableEq, Repr

structure RiskResult extends Assessment where
  flag : Option AmlFlag
  deriving DecidableEq, Repr

def AmlRiskLevel.rank : AmlRiskLevel → ℕ
  | .low => 0
  | .medium => 1
  | .high => 2
  | .critical => 3

def AmlRiskLevel.text : AmlRiskLevel → String
  | .low => "low"
  | .medium => "medium"
  | .high => "high"
  | .critical => "critical"

def transactionAmountWeight : ℕ := 25

def highRiskRegions : List String := ["KP", "IR", "SY"]

def rapidMovementWindowMs : Time := 24 * 60 * 60 * 1000

def roundAmountsMinCount : ℕ := 5

def defaultConfig : ComplianceConfig where
  region := "global"
  amlTransactionThreshold := some 10000
  dailyVolumeThreshold := some 50000
  blockThresholdScore := 80
  maxDailyTransactions := 50

def getConfigForRegion (db : RiskDb) (region : String) : ComplianceConfig × RiskDb :=
  match lookup ComplianceConfig.region region.toLower db.configs with
  | some existingConfig => (existingConfig, db)
  | none =>
    match lookup ComplianceConfig.region "global" db.configs with
    | some globalConfig => (globalConfig, db)
    | none => (defaultConfig, { db with configs := db.configs ++ [defaultConfig] })

def scoreToRiskLevel (score : ℤ) : AmlRiskLevel :=
  if 75 ≤ score then .critical
  else if 50 ≤ score then .high
  else if 25 ≤ score then .medium
  else .low

/-! ## The rules -/

structure Rule where
  fires : Bool
  name : String
  weight : ℕ
  deriving DecidableEq, Repr

/-- `x >= threshold` and `x > threshold`, where a `NaN` threshold is on neither side. -/
def reaches (x : ℚ) (threshold : Option ℚ) : Bool := threshold.any fun threshold => threshold ≤ x

def exceeds (x : ℚ) (threshold : Option ℚ) : Bool := threshold.any fun threshold => threshold < x

def isStructured (config : ComplianceConfig) (t : RecentTransaction) : Bool :=
  config.amlTransactionThreshold.any fun threshold =>
    threshold * (9 / 10) ≤ t.amount ∧ t.amount < threshold

def isRound (t : RecentTransaction) : Bool := (t.amount / 1000).den = 1 ∧ 0 < t.amount

section Assess

variable (getTime : String → Option Time) (now : Time)

def inRecentWindow (t : RecentTransaction) : Bool :=
  (getTime t.timestamp).any fun txnTime => now - txnTime < rapidMovementWindowMs

def totalInWindow (recent : List RecentTransaction) : ℚ :=
  ((recent.filter (inRecentWindow getTime now)).map RecentTransaction.amount).sum

/-- In the order of the source, each with what it adds; the four rules over the recent transactions
are read when there are any. -/
def rules (config : ComplianceConfig) (verification : Option KycVerification)
    (dto : AssessTransactionRiskDto) : List Rule :=
  let recent := dto.recentTransactions.getD []
  let region := (verification.bind KycVerification.region).getD ""
  [⟨reaches dto.amount.value config.amlTransactionThreshold, "aml_transaction_threshold",
      transactionAmountWeight⟩,
    ⟨recent ≠ [] ∧ 3 ≤ (recent.filter (isStructured config)).length, "structuring_detected", 30⟩,
    ⟨recent ≠ [] ∧ exceeds (totalInWindow getTime now recent) config.dailyVolumeThreshold,
      "rapid_movement", 25⟩,
    ⟨recent ≠ [] ∧ config.maxDailyTransactions < recent.length, "unusual_volume", 20⟩,
    ⟨recent ≠ [] ∧ roundAmountsMinCount ≤ (recent.filter isRound).length, "round_amounts", 15⟩,
    ⟨region.toUpper ∈ highRiskRegions, "high_risk_jurisdiction", 20⟩]

def triggered (rules : List Rule) : List Rule := rules.filter Rule.fires

/-- The score before it is rounded; the last summand is the user's baseline. -/
def rawScore (rules : List Rule) (verification : Option KycVerification) : ℚ :=
  (((triggered rules).map Rule.weight).sum : ℕ) +
    mathRound ((verification.map KycVerification.riskScore).getD 0) * (3 / 10)

def assessment (config : ComplianceConfig) (verification : Option KycVerification)
    (rules : List Rule) : Assessment :=
  let riskScore := min (mathRound (rawScore rules verification)) 100
  let riskLevel := scoreToRiskLevel riskScore
  { riskLevel := riskLevel
    riskScore := riskScore
    shouldBlock := config.blockThresholdScore ≤ riskScore ∨ riskLevel = .critical
    triggeredRules := (triggered rules).map Rule.name }

/-- The flag is refused when its amount has too many digits for the column. -/
def assessTransactionRisk (db : RiskDb) (userId : Uuid) (dto : AssessTransactionRiskDto)
    (performedBy : Option Uuid) (performedByRole : Option String) (newId : Uuid) :
    Except HttpError (RiskResult × RiskDb) :=
  let verification := lookup KycVerification.userId userId db.verifications
  let (config, db) := getConfigForRegion db ((verification.bind KycVerification.region).getD "global")
  let a := assessment config verification (rules getTime now config verification dto)
  match a.triggeredRules with
  | [] => .ok ({ a with flag := none }, db)
  | triggerRule :: _ =>
    if (SqlNumeric.ofText? 30 7 dto.amount.text).isNone then .error databaseError
    else
      let flag : AmlFlag :=
        { id := newId
          userId := userId
          riskLevel := a.riskLevel
          riskScore := a.riskScore
          triggerRule := triggerRule
          description := "Transaction risk assessment flagged: " ++ ", ".intercalate a.triggeredRules
          transactionAmount := String.ofList dto.amount.text
          transactionType := dto.transactionType
          assetCode := dto.assetCode
          allTriggeredRules := a.triggeredRules }
      .ok ({ a with flag := some flag },
        { db with
          flags := db.flags ++ [flag]
          flagsCreated := db.flagsCreated ++ [{
            performedBy := performedBy
            performedByRole := performedByRole.getD "system"
            userId := userId
            flagId := newId
            riskLevel := a.riskLevel
            riskScore := a.riskScore
            triggeredRules := a.triggeredRules }] })

/-! ## Growing requests -/

/-- The same rule, which fires at least as often. -/
def Rule.Le (r r' : Rule) : Prop :=
  r.name = r'.name ∧ r.weight = r'.weight ∧ (r.fires = true → r'.fires = true)

variable {getTime now}

theorem reaches_mono {x y : ℚ} (h : x ≤ y) {threshold : Option ℚ} (hx : reaches x threshold = true) :
    reaches y threshold = true := by
  cases threshold with
  | none => cases hx
  | some t => exact decide_eq_true ((of_decide_eq_true hx).trans h)

theorem exceeds_mono {x y : ℚ} (h : x ≤ y) {threshold : Option ℚ} (hx : exceeds x threshold = true) :
    exceeds y threshold = true := by
  cases threshold with
  | none => cases hx
  | some t => exact decide_eq_true ((of_decide_eq_true hx).trans_le h)

theorem totalInWindow_insert (l₁ l₂ : List RecentTransaction) {t : RecentTransaction}
    (ht : 0 ≤ t.amount) :
    totalInWindow getTime now (l₁ ++ l₂) ≤ totalInWindow getTime now (l₁ ++ t :: l₂) := by
  simp only [totalInWindow, List.filter_append, List.filter_cons, List.map_append, List.sum_append]
  refine add_le_add le_rfl ?_
  split
  · rw [List.map_cons, List.sum_cons]
    exact le_add_of_nonneg_left ht
  · exact le_rfl

theorem rules_le {config : ComplianceConfig} {verification : Option KycVerification}
    {dto dto' : AssessTransactionRiskDto} (hamount : dto.amount.value ≤ dto'.amount.value)
    (hsub : (dto.recentTransactions.getD []).Sublist (dto'.recentTransactions.getD []))
    (htotal : totalInWindow getTime now (dto.recentTransactions.getD []) ≤
      totalInWindow getTime now (dto'.recentTransactions.getD [])) :
    List.Forall₂ Rule.Le (rules getTime now config verification dto)
      (rules getTime now config verification dto') := by
  have hne : dto.recentTransactions.getD [] ≠ [] → dto'.recentTransactions.getD [] ≠ [] := by
    intro h h'
    rw [h'] at hsub
    exact h (List.sublist_nil.mp hsub)
  have hcount : ∀ p : RecentTransaction → Bool,
      ((dto.recentTransactions.getD []).filter p).length ≤
        ((dto'.recentTransactions.getD []).filter p).length := fun p => (hsub.filter p).length_le
  have hlength : ((dto.recentTransactions.getD []).length : ℤ) ≤
      (dto'.recentTransactions.getD []).length := by exact_mod_cast hsub.length_le
  unfold rules
  simp only [List.forall₂_cons, List.Forall₂.nil, and_true, Rule.Le, true_and, decide_eq_true_eq]
  refine ⟨reaches_mono hamount, ?_, ?_, ?_, ?_, id⟩ <;> rintro ⟨hrecent, hfires⟩ <;>
    refine ⟨hne hrecent, ?_⟩
  · exact hfires.trans (hcount _)
  · exact exceeds_mono htotal hfires
  · exact hfires.trans_le hlength
  · exact hfires.trans (hcount _)

theorem triggered_le {rs rs' : List Rule} (h : List.Forall₂ Rule.Le rs rs') :
    ((triggered rs).map Rule.weight).sum ≤ ((triggered rs').map Rule.weight).sum ∧
      ∀ n ∈ (triggered rs).map Rule.name, n ∈ (triggered rs').map Rule.name := by
  induction h with
  | nil => exact ⟨le_rfl, fun n hn => hn⟩
  | @cons r r' rs rs' hle _ ih =>
    obtain ⟨hname, hweight, hfires⟩ := hle
    unfold triggered at ih ⊢
    by_cases hr : r.fires = true
    · rw [List.filter_cons_of_pos hr, List.filter_cons_of_pos (hfires hr)]
      simp only [List.map_cons, List.sum_cons, List.mem_cons, hname, hweight]
      exact ⟨Nat.add_le_add_left ih.1 _, fun n hn => hn.imp id (ih.2 n)⟩
    · rw [List.filter_cons_of_neg hr]
      by_cases hr' : r'.fires = true
      · rw [List.filter_cons_of_pos hr']
        simp only [List.map_cons, List.sum_cons, List.mem_cons]
        exact ⟨ih.1.trans (Nat.le_add_left _ _), fun n hn => .inr (ih.2 n hn)⟩
      · rw [List.filter_cons_of_neg hr']
        exact ih

theorem scoreToRiskLevel_mono {s s' : ℤ} (h : s ≤ s') :
    (scoreToRiskLevel s).rank ≤ (scoreToRiskLevel s').rank := by
  unfold scoreToRiskLevel
  split_ifs <;> first | omega | decide

theorem critical_of_le {s s' : ℤ} (h : s ≤ s') (hs : scoreToRiskLevel s = .critical) :
    scoreToRiskLevel s' = .critical := by
  have hle := scoreToRiskLevel_mono h
  rw [hs] at hle
  cases hs' : scoreToRiskLevel s' <;> rw [hs'] at hle <;> first | rfl | exact absurd hle (by decide)

/-- At least as much is reported of the transaction. -/
structure Assessment.Le (a a' : Assessment) : Prop where
  riskScore : a.riskScore ≤ a'.riskScore
  riskLevel : a.riskLevel.rank ≤ a'.riskLevel.rank
  triggeredRules : ∀ rule ∈ a.triggeredRules, rule ∈ a'.triggeredRules
  shouldBlock : a.shouldBlock = true → a'.shouldBlock = true

theorem assessment_mono (config : ComplianceConfig) (verification : Option KycVerification)
    {rs rs' : List Rule} (h : List.Forall₂ Rule.Le rs rs') :
    (assessment config verification rs).Le (assessment config verification rs') := by
  obtain ⟨hweights, hnames⟩ := triggered_le h
  have hraw : rawScore rs verification ≤ rawScore rs' verification :=
    add_le_add (by exact_mod_cast hweights) le_rfl
  have hscore : (assessment config verification rs).riskScore ≤ (assessment config verification rs').riskScore :=
    min_le_min_right 100 (mathRound_mono hraw)
  refine ⟨hscore, scoreToRiskLevel_mono hscore, hnames, fun hblock => ?_⟩
  rcases of_decide_eq_true hblock with hthreshold | hcritical
  · exact decide_eq_true (.inl (hthreshold.trans hscore))
  · exact decide_eq_true (.inr (critical_of_le hscore hcritical))

/-- The configuration of the user's region. -/
def configOf (db : RiskDb) (userId : Uuid) : ComplianceConfig :=
  (getConfigForRegion db
    (((lookup KycVerification.userId userId db.verifications).bind KycVerification.region).getD "global")).1

theorem assessTransactionRisk_ok {db db' : RiskDb} {userId : Uuid} {dto : AssessTransactionRiskDto}
    {performedBy : Option Uuid} {performedByRole : Option String} {newId : Uuid} {r : RiskResult}
    (h : assessTransactionRisk getTime now db userId dto performedBy performedByRole newId = .ok (r, db')) :
    r.toAssessment = assessment (configOf db userId) (lookup KycVerification.userId userId db.verifications)
      (rules getTime now (configOf db userId) (lookup KycVerification.userId userId db.verifications) dto) := by
  unfold assessTransactionRisk at h
  dsimp only at h
  split at h
  · cases h
    rfl
  · split at h
    · cases h
    · cases h
      rfl

theorem assessTransactionRisk_mono {db db₁ : RiskDb} {userId : Uuid} {dto : AssessTransactionRiskDto}
    {performedBy : Option Uuid} {performedByRole : Option String} {newId : Uuid} {r : RiskResult}
    (h : assessTransactionRisk getTime now db userId dto performedBy performedByRole newId = .ok (r, db₁)) :
    (∀ l₁ t l₂ r' db₂, dto.recentTransactions.getD [] = l₁ ++ l₂ → 0 ≤ t.amount →
      assessTransactionRisk getTime now db userId { dto with recentTransactions := some (l₁ ++ t :: l₂) }
        performedBy performedByRole newId = .ok (r', db₂) →
      r.toAssessment.Le r'.toAssessment) ∧
    (∀ amount r' db₂, dto.amount.value ≤ amount.value →
      assessTransactionRisk getTime now db userId { dto with amount := amount }
        performedBy performedByRole newId = .ok (r', db₂) →
      r.toAssessment.Le r'.toAssessment) := by
  refine ⟨fun l₁ t l₂ r' db₂ hrecent ht h' => ?_, fun amount r' db₂ hamount h' => ?_⟩
  · rw [assessTransactionRisk_ok h, assessTransactionRisk_ok h']
    refine assessment_mono _ _ (rules_le le_rfl ?_ ?_)
    · rw [hrecent, Option.getD_some]
      exact (List.sublist_cons_self t l₂).append_left l₁
    · rw [hrecent, Option.getD_some]
      exact totalInWindow_insert l₁ l₂ ht
  · rw [assessTransactionRisk_ok h, assessTransactionRisk_ok h']
    exact assessment_mono _ _ (rules_le hamount (.refl _) le_rfl)

end Assess

def emptyDb : RiskDb where
  verifications := []
  documents := []
  audits := []
  events := []
  configs := []
  flags := []
  flagsCreated := []

def request (recent : List RecentTransaction) : AssessTransactionRiskDto where
  amount := ⟨100, "100".toList⟩
  transactionType := "sell"
  assetCode := none
  recentTransactions := some recent

def structured : RecentTransaction := ⟨9500, "2024-01-01"⟩

def structuringFlag : AmlFlag where
  id := 1
  userId := 7
  riskLevel := .medium
  riskScore := 30
  triggerRule := "structuring_detected"
  description := "Transaction risk assessment flagged: structuring_detected"
  transactionAmount := "100"
  transactionType := "sell"
  assetCode := none
  allTriggeredRules := ["structuring_detected"]

/-- A third transaction just below the threshold. -/
theorem third_structured :
    (⟨.low, 0, false, []⟩ : Assessment).Le ⟨.medium, 30, false, ["structuring_detected"]⟩ := by
  have hbefore : assessTransactionRisk (fun _ => none) 0 emptyDb 7 (request [structured, structured]) none
      none 1 = .ok (⟨⟨.low, 0, false, []⟩, none⟩, { emptyDb with configs := [defaultConfig] }) := by
    decide +kernel
  have hafter : assessTransactionRisk (fun _ => none) 0 emptyDb 7
      { request [structured, structured] with
        recentTransactions := some ([structured] ++ structured :: [structured]) } none none 1 =
      .ok (⟨⟨.medium, 30, false, ["structuring_detected"]⟩, some structuringFlag⟩,
        { emptyDb with
          configs := [defaultConfig]
          flags := [structuringFlag]
          flagsCreated := [⟨none, "system", 7, 1, .medium, 30, ["structuring_detected"]⟩] }) := by
    decide +kernel
  exact (assessTransactionRisk_mono hbefore).1 [structured] structured [structured] _ _ rfl
    (by decide +kernel) hafter

end Compliance
end TradeCore
