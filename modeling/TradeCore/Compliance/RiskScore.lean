import TradeCore.Compliance.TransactionRisk
import TradeCore.Lib.Interleave

/-!
# TradeCore.Compliance.RiskScore

The score of a user, its assessment, and whether the user's transactions are blocked. The calls that
write a verification run interleaved, one statement a step: each reads the row, changes its copy and
saves the copy as a whole.

* `calculateRiskScore_critical`: the factors are divided by the number of the weights over 100, which
  takes the least sum there is over the cap. Every user is critical.
* `blocked_run`: an assessment that is saved while no other call holds the row blocks the user for
  good. None of the calls takes the block back.
* `stale_save_unblocks`: what does is a race.
-/

namespace TradeCore
namespace Compliance
namespace RiskScore

open Lib

structure Verification extends KycVerification where
  createdAt : Time
  transactionsBlocked : Bool
  blockReason : Option String
  complianceNotes : Option String
  deriving DecidableEq, Repr

structure DatedFlag where
  userId : Uuid
  riskLevel : AmlRiskLevel
  createdAt : Time
  deriving DecidableEq, Repr

structure Factors where
  kycLevel : ℚ
  documentVerification : ℚ
  previousFlags : ℚ
  accountAge : ℚ
  regionRisk : ℚ
  transactionAmount : ℚ
  transactionFrequency : ℚ
  deriving DecidableEq, Repr

structure RiskAssessment where
  score : Int
  level : AmlRiskLevel
  factors : Factors
  deriving DecidableEq, Repr

def mediumRiskRegions : List String := ["RU", "CN", "NG", "PK", "BD", "MM", "IR"]

/-- The entries of `RISK_WEIGHTS`. -/
def riskWeights : List (String × Nat) :=
  [("transactionAmount", 25), ("transactionFrequency", 20), ("accountAge", 15), ("regionRisk", 10),
    ("documentVerification", 20), ("previousFlags", 10)]

def kycLevelScore : KycLevel → ℚ
  | .unverified => 100
  | .standard => 40
  | .enhanced => 15
  | .institutional => 5

def dayMs : Int := 24 * 60 * 60 * 1000

def missingRequired (documents : List KycDocument) (userId : Uuid) : List KycDocumentType :=
  requiredTypes.filter fun t => t ∉ verifiedTypes documents userId

def flagScore (now : Time) (flags : List DatedFlag) : ℚ :=
  let recentFlags := flags.filter fun f => now - f.createdAt < 90 * dayMs
  let criticalFlags := recentFlags.filter fun f => f.riskLevel = .critical
  let highFlags := recentFlags.filter fun f => f.riskLevel = .high
  min (criticalFlags.length * 40 + highFlags.length * 20 + recentFlags.length * 5 : ℕ) 100

def ageScore (accountAgeDays : ℚ) : ℚ :=
  if accountAgeDays < 30 then 90
  else if accountAgeDays < 90 then 60
  else if accountAgeDays < 365 then 30
  else 10

/-- An empty region is none. -/
def regionScore (region : Option String) : ℚ :=
  match (region.map String.toUpper).filter (· ≠ "") with
  | none => 20
  | some region =>
    if region ∈ highRiskRegions then 100 else if region ∈ mediumRiskRegions then 60 else 20

def Factors.values (f : Factors) : List ℚ :=
  [f.kycLevel, f.documentVerification, f.previousFlags, f.accountAge, f.regionRisk, f.transactionAmount,
    f.transactionFrequency]

def factorsOf (now : Time) (userId : Uuid) (verification : Option Verification)
    (flags : List DatedFlag) (documents : List KycDocument) : Factors where
  kycLevel :=
    kycLevelScore ((verification.map fun v => v.level).getD .unverified) * (20 / 100)
  documentVerification :=
    ((missingRequired documents userId).length / requiredTypes.length : ℚ) * 100 * (20 / 100)
  previousFlags := flagScore now (flags.filter fun f => f.userId = userId) * (10 / 100)
  accountAge :=
    ageScore ((verification.map fun v => ((now - v.createdAt : Int) : ℚ) / dayMs).getD 0) * (15 / 100)
  regionRisk := regionScore (verification.bind fun v => v.region) * (10 / 100)
  transactionAmount := 0
  transactionFrequency := 0

def calculateRiskScore (now : Time) (userId : Uuid) (verification : Option Verification)
    (flags : List DatedFlag) (documents : List KycDocument) : RiskAssessment :=
  let factors := factorsOf now userId verification flags documents
  let score := min (mathRound (factors.values.sum / (riskWeights.length / 100) *
    (100 / factors.values.length))) 100
  ⟨score, scoreToRiskLevel score, factors⟩

/-! ## Every score is the highest -/

theorem kycLevelScore_ge (level : KycLevel) : 5 ≤ kycLevelScore level := by
  cases level <;> norm_num [kycLevelScore]

theorem flagScore_nonneg (now : Time) (flags : List DatedFlag) : 0 ≤ flagScore now flags := by
  unfold flagScore
  positivity

theorem ageScore_ge (days : ℚ) : 10 ≤ ageScore days := by
  unfold ageScore
  split_ifs <;> norm_num

theorem regionScore_ge (region : Option String) : 20 ≤ regionScore region := by
  unfold regionScore
  split
  · exact le_rfl
  · split_ifs <;> norm_num

theorem factors_sum_ge (now : Time) (userId : Uuid) (verification : Option Verification)
    (flags : List DatedFlag) (documents : List KycDocument) :
    9 / 2 ≤ (factorsOf now userId verification flags documents).values.sum := by
  have hlevel := kycLevelScore_ge ((verification.map fun v => v.level).getD .unverified)
  have hflags := flagScore_nonneg now (flags.filter fun f => f.userId = userId)
  have hage := ageScore_ge
    ((verification.map fun v => ((now - v.createdAt : Int) : ℚ) / dayMs).getD 0)
  have hregion := regionScore_ge (verification.bind fun v => v.region)
  have hdocuments : (0 : ℚ) ≤ (missingRequired documents userId).length / requiredTypes.length := by
    positivity
  simp only [Factors.values, factorsOf, List.sum_cons, List.sum_nil]
  linarith

/-- Whatever is known of a user, the score is 100 and the level critical. -/
theorem calculateRiskScore_critical (now : Time) (userId : Uuid) (verification : Option Verification)
    (flags : List DatedFlag) (documents : List KycDocument) :
    (calculateRiskScore now userId verification flags documents).score = 100 ∧
      (calculateRiskScore now userId verification flags documents).level = .critical := by
  have hsum := factors_sum_ge now userId verification flags documents
  have hscore : (calculateRiskScore now userId verification flags documents).score = 100 := by
    simp only [calculateRiskScore, riskWeights, Factors.values, List.length_cons, List.length_nil]
    refine min_eq_right ?_
    have hlarge : (100 : ℚ) ≤ (factorsOf now userId verification flags documents).values.sum /
        ((6 : ℕ) / 100) * (100 / (7 : ℕ)) := by
      norm_num
      linarith
    have hround : mathRound (100 : ℚ) = 100 := mathRound_eq_iff.mpr ⟨by norm_num, by norm_num⟩
    exact hround ▸ mathRound_mono hlarge
  refine ⟨hscore, ?_⟩
  have hlevel : (calculateRiskScore now userId verification flags documents).level =
    scoreToRiskLevel (calculateRiskScore now userId verification flags documents).score := rfl
  rw [hlevel, hscore]
  rfl

/-! ## The calls -/

structure UpdateKycLevelDto where
  notes : Option String
  transactionsBlocked : Option Bool
  blockReason : Option String
  deriving DecidableEq, Repr

/-- What a step learns from outside: the clock, whether its statement fails, and what the other tables
hold at the moment. -/
structure Env where
  now : Time
  fault : Bool
  flags : List DatedFlag
  documents : List KycDocument

/-- The calls that write verifications. Those that upload and review documents are here with the part
that does. -/
inductive Op where
  | initiateVerification (userId : Uuid) (region : String)
  | updateKycLevel (userId : Uuid) (level : KycLevel) (dto : UpdateKycLevelDto)
  | uploadDocument (userId : Uuid)
  | checkDocumentCompletion (userId : Uuid)
  | updateRiskAssessment (userId : Uuid)
  deriving DecidableEq

/-- Where a call stands: before the statement its constructor names. A `save` of a row that was found
is an UPDATE of all that differs, one of a new row an INSERT. -/
inductive Call where
  | start (op : Op)
  | findVerification (userId : Uuid) (documents : List KycDocument)
  | findOwn (v : Verification)
  | findFlags (v : Verification) (own : Option Verification)
  | findDocuments (v : Verification) (own : Option Verification) (flags : List DatedFlag)
  | save (v : Verification)
  | insert (v : Verification)
  | assess (v : Verification)
  deriving DecidableEq

inductive Answer where
  | saved (v : Verification)
  | nothing
  | failed (e : HttpError)
  deriving DecidableEq

abbrev Verifications := List Verification

abbrev RiskTask := Task Call Answer

def keyOf (v : Verification) : Uuid := v.userId

def notFound (userId : Uuid) : RiskTask :=
  .done (.failed (.notFound s!"No KYC verification found for user {userId}"))

def newVerification (userId : Uuid) (region : Option String) (now : Time) : Verification where
  userId := userId
  level := .unverified
  riskLevel := .low
  riskScore := 0
  region := region
  createdAt := now
  transactionsBlocked := false
  blockReason := none
  complianceNotes := none

/-- The copy that `updateKycLevel` saves; an empty note is none. -/
def withLevel (v : Verification) (level : KycLevel) (dto : UpdateKycLevelDto) : Verification :=
  { v with
    level := level
    transactionsBlocked := dto.transactionsBlocked.getD v.transactionsBlocked
    blockReason := dto.blockReason <|> v.blockReason
    complianceNotes := (dto.notes.filter (· ≠ "")) <|> v.complianceNotes }

def advance (env : Env) (call : Call) (db : Verifications) : Verifications × RiskTask :=
  if env.fault then (db, .done (.failed databaseError))
  else match call with
  | .start (.initiateVerification userId region) =>
    match lookup keyOf userId db with
    | none => (db, .running (.insert (newVerification userId (some region) env.now)))
    | some v =>
      if v.level = .institutional then
        (db, .done (.failed (.conflict "User is already at maximum KYC verification level")))
      else (db, .running (.save { v with region := some region }))
  | .start (.updateKycLevel userId level dto) =>
    match lookup keyOf userId db with
    | none => (db, notFound userId)
    | some v => (db, .running (.save (withLevel v level dto)))
  | .start (.uploadDocument userId) =>
    match lookup keyOf userId db with
    | none => (db, .running (.insert (newVerification userId none env.now)))
    | some _ => (db, .done .nothing)
  | .start (.checkDocumentCompletion userId) => (db, .running (.findVerification userId env.documents))
  | .findVerification userId documents =>
    match lookup keyOf userId db with
    | none => (db, .done .nothing)
    | some v =>
      let newLevel := completedLevel (verifiedTypes documents userId) v.level
      if newLevel ≠ v.level then (db, .running (.save { v with level := newLevel }))
      else (db, .done .nothing)
  | .start (.updateRiskAssessment userId) =>
    match lookup keyOf userId db with
    | none => (db, notFound userId)
    | some v => (db, .running (.findOwn v))
  | .findOwn v => (db, .running (.findFlags v (lookup keyOf v.userId db)))
  | .findFlags v own => (db, .running (.findDocuments v own env.flags))
  | .findDocuments v own flags =>
    let assessment := calculateRiskScore env.now v.userId own flags env.documents
    (db, .running (.assess { v with riskScore := assessment.score, riskLevel := assessment.level }))
  | .save v | .assess v => (upsert keyOf v db, .done (.saved v))
  | .insert v =>
    -- the unique index on `userId`
    if v.userId ∈ db.map keyOf then (db, .done (.failed databaseError))
    else (db ++ [v], .done (.saved v))

def riskProc : Proc Verifications Env Op Call Answer := ⟨.start, advance⟩

def configFor (configs : List ComplianceConfig) (region : String) : ComplianceConfig :=
  match lookup ComplianceConfig.region region.toLower configs with
  | some existingConfig => existingConfig
  | none => (lookup ComplianceConfig.region "global" configs).getD defaultConfig

def shouldBlockTransactions (db : Verifications) (configs : List ComplianceConfig) (userId : Uuid) :
    Bool :=
  match lookup keyOf userId db with
  | none => true -- Unknown users are blocked
  | some v =>
    if v.transactionsBlocked then true
    else if v.riskLevel = .critical then true
    else (configFor configs (v.region.getD "global")).blockThresholdScore ≤ v.riskScore

/-! ## What a step does to a critical user -/

/-- The user is stored as critical. -/
def Critical (userId : Uuid) (db : Verifications) : Prop :=
  ∃ v, lookup keyOf userId db = some v ∧ v.riskLevel = .critical

/-- The copy that a call is about to save keeps the user critical; an assessment makes it so. -/
def Keeps (userId : Uuid) : Call → Prop
  | .save v => v.userId = userId → v.riskLevel = .critical
  | .assess v => v.riskLevel = .critical
  | _ => True

section Step

variable {userId : Uuid} {env : Env} {call : Call} {db : Verifications}

theorem Critical.upsert (h : Critical userId db) {v : Verification}
    (hv : v.userId = userId → v.riskLevel = .critical) : Critical userId (upsert keyOf v db) := by
  obtain ⟨w, hw, hcritical⟩ := h
  by_cases hu : keyOf v = userId
  · exact ⟨v, by rw [lookup_upsert, if_pos hu], hv hu⟩
  · exact ⟨w, by rw [lookup_upsert, if_neg hu, hw], hcritical⟩

theorem Critical.insert (h : Critical userId db) (v : Verification) : Critical userId (db ++ [v]) := by
  obtain ⟨w, hw, hcritical⟩ := h
  refine ⟨w, ?_, hcritical⟩
  unfold lookup at hw ⊢
  rw [List.find?_append, hw]
  rfl

theorem advance_critical (h : Critical userId db) (hcall : Keeps userId call) :
    Critical userId (advance env call db).1 := by
  unfold advance
  split
  · exact h
  · cases call with
    | start op =>
      cases op <;> dsimp only <;> repeat' split
      all_goals exact h
    | findVerification u documents =>
      dsimp only
      repeat' split
      all_goals exact h
    | findOwn v => exact h
    | findFlags v own => exact h
    | findDocuments v own flags => exact h
    | save v => exact h.upsert hcall
    | assess v => exact h.upsert fun _ => hcall
    | insert v =>
      dsimp only
      split
      · exact h
      · exact h.insert v

/-- What a call goes on to: to save a copy of the row it found, or an assessment. -/
inductive Goes (db : Verifications) : Call → Prop where
  | save {u : Uuid} {v copy : Verification} (hv : lookup keyOf u db = some v)
      (huser : copy.userId = v.userId) (hlevel : copy.riskLevel = v.riskLevel) : Goes db (.save copy)
  | assess {v : Verification} (h : v.riskLevel = .critical) : Goes db (.assess v)
  | other {call : Call} (hsave : ∀ v, call ≠ .save v) (hassess : ∀ v, call ≠ .assess v) : Goes db call

theorem advance_goes (env : Env) (call : Call) (db : Verifications) :
    ∀ call', (advance env call db).2 = .running call' → Goes db call' := by
  intro call' hnext
  unfold advance at hnext
  split at hnext
  · cases hnext
  · cases call with
    | start op =>
      cases op with
      | initiateVerification u region =>
        dsimp only at hnext
        split at hnext
        · cases hnext
          exact .other (fun _ h => by cases h) fun _ h => by cases h
        · rename_i v hv
          split at hnext
          · cases hnext
          · cases hnext
            exact .save hv rfl rfl
      | updateKycLevel u level dto =>
        dsimp only at hnext
        split at hnext
        · cases hnext
        · rename_i v hv
          cases hnext
          exact .save hv rfl rfl
      | uploadDocument u =>
        dsimp only at hnext
        split at hnext
        · cases hnext
          exact .other (fun _ h => by cases h) fun _ h => by cases h
        · cases hnext
      | checkDocumentCompletion u =>
        cases hnext
        exact .other (fun _ h => by cases h) fun _ h => by cases h
      | updateRiskAssessment u =>
        dsimp only at hnext
        split at hnext
        · cases hnext
        · cases hnext
          exact .other (fun _ h => by cases h) fun _ h => by cases h
    | findVerification u documents =>
      dsimp only at hnext
      split at hnext
      · cases hnext
      · rename_i v hv
        split at hnext
        · cases hnext
          exact .save hv rfl rfl
        · cases hnext
    | findOwn v =>
      cases hnext
      exact .other (fun _ h => by cases h) fun _ h => by cases h
    | findFlags v own =>
      cases hnext
      exact .other (fun _ h => by cases h) fun _ h => by cases h
    | findDocuments v own flags =>
      cases hnext
      exact .assess (calculateRiskScore_critical env.now v.userId own flags env.documents).2
    | save v => cases hnext
    | assess v => cases hnext
    | insert v =>
      dsimp only at hnext
      split at hnext <;> cases hnext

/-- A copy is as critical as the row it was taken from. -/
theorem Goes.keeps {call' : Call} (h : Goes db call') (hcritical : Critical userId db) :
    Keeps userId call' := by
  cases h with
  | save hv huser hlevel =>
    rename_i u v copy
    intro hu
    obtain ⟨w, hw, hwcritical⟩ := hcritical
    have hkey : keyOf v = userId := huser.symm.trans hu
    rw [← lookup_key hv, hkey, hw] at hv
    cases hv
    exact hlevel.trans hwcritical
  | assess h => exact h
  | other hsave hassess =>
    cases call' with
    | save v => exact absurd rfl (hsave v)
    | assess v => exact absurd rfl (hassess v)
    | _ => trivial

end Step

/-! ## The block -/

theorem critical_run {userId : Uuid} {c : Conf Verifications Call Answer}
    (h : Critical userId c.shared) (hkeeps : AllRunning (Keeps userId) c.tasks)
    (acts : List (Act Env Op)) :
    Critical userId (run riskProc.step c acts).shared := by
  have hstep : ∀ (c : Conf Verifications Call Answer) (a : Act Env Op),
      Critical userId c.shared ∧ AllRunning (Keeps userId) c.tasks →
        Meets (fun _ => True) (fun _ _ _ _ => True) c a →
        Critical userId (riskProc.step c a).shared ∧
          AllRunning (Keeps userId) (riskProc.step c a).tasks :=
    fun c a => step_inv riskProc
      (I := fun db ts => Critical userId db ∧ AllRunning (Keeps userId) ts)
      (fun _ _ _ _ hc => ⟨hc.1, hc.2.spawn trivial⟩)
      (fun _ _ _ _ _ _ hc => ⟨advance_critical hc.1 hc.2.here,
        hc.2.replace fun call' hnext => (advance_goes _ _ _ call' hnext).keeps hc.1⟩) c a
  exact (run_inv (I := fun c : Conf Verifications Call Answer =>
    Critical userId c.shared ∧ AllRunning (Keeps userId) c.tasks) hstep ⟨h, hkeeps⟩
    (along_of_spawns riskProc (fun _ _ => trivial) c)).1

/-- What `updateRiskAssessment` is about to save is critical. -/
def Assessed : Call → Prop
  | .assess v => v.riskLevel = .critical
  | _ => True

theorem Goes.assessed {db : Verifications} {call' : Call} (h : Goes db call') : Assessed call' := by
  cases h with
  | save => trivial
  | assess h => exact h
  | other hsave hassess =>
    cases call' with
    | assess v => exact absurd rfl (hassess v)
    | _ => trivial

theorem assessed_run (db : Verifications) (acts : List (Act Env Op)) :
    AllRunning Assessed (run riskProc.step (Conf.init db) acts).tasks := by
  have hstep : ∀ (c : Conf Verifications Call Answer) (a : Act Env Op),
      AllRunning Assessed c.tasks → Meets (fun _ => True) (fun _ _ _ _ => True) c a →
        AllRunning Assessed (riskProc.step c a).tasks :=
    fun c a => step_inv riskProc (I := fun _ ts => AllRunning Assessed ts)
      (fun _ _ _ _ hc => hc.spawn trivial)
      (fun db _ call _ env _ hc => hc.replace fun call' hnext =>
        (advance_goes env call db call' hnext).assessed) c a
  exact run_inv (I := fun c : Conf Verifications Call Answer => AllRunning Assessed c.tasks) hstep .nil
    (along_of_spawns riskProc (fun _ _ => trivial) _)

/-- A user whose assessment is saved while no other call is about to save the row is blocked from then
on, whatever is called afterwards and whatever the configuration says. -/
theorem blocked_run (db : Verifications) (as bs : List (Act Env Op)) (i : Nat) (env : Env)
    (v : Verification)
    (htask : (run riskProc.step (Conf.init db) as).tasks[i]? = some (.running (.assess v)))
    (hfault : env.fault = false)
    (halone : AllRunning (fun call => ∀ w, call = .save w → w.userId ≠ v.userId)
      (run riskProc.step (Conf.init db) as).tasks)
    (configs : List ComplianceConfig) :
    shouldBlockTransactions (run riskProc.step (Conf.init db) (as ++ .sched i env :: bs)).shared configs
      v.userId = true := by
  have hassessed := assessed_run db as
  have hv : v.riskLevel = .critical := hassessed _ (List.mem_of_getElem? htask)
  obtain ⟨pre, post, hpre, hset⟩ := split_of_getElem? htask
  have hsaved : riskProc.step (run riskProc.step (Conf.init db) as) (.sched i env) =
      ⟨upsert keyOf v (run riskProc.step (Conf.init db) as).shared, pre ++ .done (.saved v) :: post⟩ := by
    have hadv : riskProc.adv env (.assess v) (run riskProc.step (Conf.init db) as).shared =
        (upsert keyOf v (run riskProc.step (Conf.init db) as).shared, .done (.saved v)) := by
      simp only [riskProc, advance, hfault, Bool.false_eq_true, if_false]
    rw [step_sched _ htask, hadv, hset]
  have hcritical : Critical v.userId (upsert keyOf v (run riskProc.step (Conf.init db) as).shared) :=
    ⟨v, (lookup_upsert v _ _).trans (if_pos rfl), hv⟩
  have hkeeps : AllRunning (Keeps v.userId) (pre ++ .done (.saved v) :: post) := by
    rw [hpre] at hassessed halone
    refine AllRunning.replace (k := .assess v) (fun call hcall => ?_) fun _ h => by cases h
    cases call with
    | save w => exact fun hu => absurd hu (halone _ hcall w rfl)
    | assess w => exact hassessed _ hcall
    | _ => trivial
  rw [run_append, run, hsaved]
  obtain ⟨w, hw, hwcritical⟩ :=
    critical_run (c := ⟨_, pre ++ .done (.saved v) :: post⟩) hcritical hkeeps bs
  simp [shouldBlockTransactions, hw, hwcritical]

/-! ## A race -/

def quiet (now : Time) : Env := ⟨now, false, [], []⟩

def institution : Verification :=
  { newVerification 1 (some "DE") 0 with level := .institutional, riskScore := 5 }

def assessed : Verification := { institution with riskScore := 100, riskLevel := .critical }

def lift : UpdateKycLevelDto := ⟨none, some false, some "cleared"⟩

/-- The assessment is about to be saved when the level of the user is changed. -/
def assessing : List (Act Env Op) :=
  [.spawn (.updateRiskAssessment 1), .sched 0 (quiet 0), .sched 0 (quiet 0), .sched 0 (quiet 0),
    .sched 0 (quiet 0)]

def lifting : List (Act Env Op) :=
  [.spawn (.updateKycLevel 1 .enhanced lift), .sched 1 (quiet 0), .sched 1 (quiet 0)]

theorem blocked_run_lifting :
    shouldBlockTransactions (run riskProc.step (Conf.init [institution])
      (assessing ++ .sched 0 (quiet 0) :: lifting)).shared [] 1 = true := by
  have htask : (run riskProc.step (Conf.init [institution]) assessing).tasks =
      [.running (.assess assessed)] := by decide +kernel
  refine blocked_run [institution] assessing lifting 0 (quiet 0) assessed (by rw [htask]; rfl) rfl ?_ []
  rw [htask]
  intro call hcall w hw
  cases hw
  cases List.mem_singleton.mp hcall

/-- The copy of a call that read the row before the assessment was saved takes the block back. -/
theorem stale_save_unblocks :
    shouldBlockTransactions (run riskProc.step (Conf.init [institution])
      (assessing ++ [.spawn (.updateKycLevel 1 .enhanced lift), .sched 1 (quiet 0), .sched 0 (quiet 0),
        .sched 1 (quiet 0)])).shared [] 1 = false := by
  decide +kernel

end RiskScore
end Compliance
end TradeCore
