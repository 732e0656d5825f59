import Mathlib.Algebra.Order.Field.Rat
import TradeCore.Common
import TradeCore.Lib.Table

/-!
# TradeCore.Authorization.PolicyEngine

The declarative policy engine: policies registered by id, the action counters behind rate limits, and
`evaluate`.

A condition is a restriction: a time window, an amount, a list of tokens, a rate. `Respects` says what
it means for a request to keep to one, and `matchesCondition_iff` that the matchers decide it.
`evaluate` lets a policy match when *all* of its conditions are respected and denies when a `deny`
policy matches. The tests of the service use a `deny` policy the other way round: it lists the
restrictions, and breaking one of them is what denies. `enforces_iff` says when the two readings agree.

Numbers are rationals; `NaN` and an invalid date are left out. One call of `evaluate` reads the clock
once.
-/

namespace TradeCore
namespace Authorization

open Lib

inductive Role where
  | trader
  | auditor
  | custodian
  | liquidityProvider
  | complianceOfficer
  | admin
  deriving DecidableEq, Repr

inductive PolicyEffect where
  | allow
  | deny
  deriving DecidableEq, Repr

/-- UTC hours, 0 is Sunday. -/
structure TimeWindowCondition where
  startHour : ℚ
  endHour : ℚ
  daysOfWeek : Option (List ℚ)
  deriving DecidableEq, Repr

structure TransactionLimitCondition where
  minAmount : Option ℚ
  maxAmount : Option ℚ
  maxDailyAmount : Option ℚ
  deriving DecidableEq, Repr

structure TokenRestrictionCondition where
  allowedTokens : Option (List String)
  deniedTokens : Option (List String)
  deriving DecidableEq, Repr

structure RateLimitCondition where
  maxActions : ℚ
  windowMs : ℚ
  deriving DecidableEq, Repr

inductive PolicyCondition where
  | timeWindow (c : TimeWindowCondition)
  | transactionLimit (c : TransactionLimitCondition)
  | tokenRestriction (c : TokenRestrictionCondition)
  | rateLimit (c : RateLimitCondition)
  deriving DecidableEq, Repr

structure Policy where
  id : String
  effect : PolicyEffect
  conditions : List PolicyCondition
  appliesToRoles : Option (List Role)
  deriving DecidableEq, Repr

structure AuthorizationRequest where
  subjectId : String
  roles : List Role
  amount : Option ℚ
  asset : Option String
  tokenPair : Option String
  timestamp : Option Time
  recentActionCount : Option ℚ
  dailyAmount : Option ℚ
  deriving DecidableEq, Repr

structure PolicyDecision where
  allowed : Bool
  reason : String
  matchedPolicyIds : List String
  evaluatedAt : Time
  deriving DecidableEq, Repr

structure ActionCounter where
  count : Nat
  windowStart : Time
  deriving DecidableEq, Repr

/-- The two maps of the service; a map has one entry for a key. -/
structure PolicyEngine where
  policies : List Policy
  actionCounters : String → Option ActionCounter
  distinct : (policies.map Policy.id).Nodup

def PolicyEngine.init : PolicyEngine where
  policies := []
  actionCounters := fun _ => none
  distinct := List.nodup_nil

def registerPolicy (engine : PolicyEngine) (policy : Policy) : PolicyEngine where
  policies := upsert Policy.id policy engine.policies
  actionCounters := engine.actionCounters
  distinct := nodup_upsert engine.distinct

def registerPolicies (engine : PolicyEngine) (policies : List Policy) : PolicyEngine :=
  policies.foldl registerPolicy engine

def removePolicy (engine : PolicyEngine) (policyId : String) : PolicyEngine × Bool :=
  ({ policies := engine.policies.filter fun p => p.id ≠ policyId
     actionCounters := engine.actionCounters
     distinct := (List.filter_sublist.map Policy.id).nodup engine.distinct },
    decide (policyId ∈ engine.policies.map Policy.id))

def getPolicy (engine : PolicyEngine) (policyId : String) : Option Policy :=
  lookup Policy.id policyId engine.policies

/-! ## Rate counters -/

def recordAction (engine : PolicyEngine) (now : Time) (subjectId : String) (windowMs : ℚ) :
    PolicyEngine :=
  let counter : ActionCounter :=
    match engine.actionCounters subjectId with
    | none => ⟨1, now⟩
    | some counter =>
      if windowMs ≤ ((now - counter.windowStart : Int) : ℚ) then ⟨1, now⟩
      else { counter with count := counter.count + 1 }
  { engine with actionCounters := Function.update engine.actionCounters subjectId (some counter) }

def recentActionCount (engine : PolicyEngine) (now : Time) (subjectId : String) (windowMs : ℚ) : Nat :=
  match engine.actionCounters subjectId with
  | none => 0
  | some counter =>
    if windowMs ≤ ((now - counter.windowStart : Int) : ℚ) then 0 else counter.count

/-! ## Matching -/

def getUTCDay (date : Time) : Int := (date / 86400000 + 4) % 7

def getUTCHours (date : Time) : Int := date / 3600000 % 24

def appliesTo (policy : Policy) (request : AuthorizationRequest) : Bool :=
  match policy.appliesToRoles with
  | none => true
  | some roles => roles.isEmpty || roles.any fun role => request.roles.contains role

def matchesTimeWindow (condition : TimeWindowCondition) (date : Time) : Bool :=
  let days := condition.daysOfWeek.getD []
  if !days.isEmpty && !days.contains (getUTCDay date : ℚ) then false
  else
    let hour : ℚ := getUTCHours date
    if condition.startHour = condition.endHour then true -- covers the full day
    else if condition.startHour < condition.endHour then
      decide (condition.startHour ≤ hour) && decide (hour < condition.endHour)
    else decide (condition.startHour ≤ hour) || decide (hour < condition.endHour)

/-- A bound that is not there is not checked. -/
def below (amount : ℚ) : Option ℚ → Bool
  | none => true
  | some bound => decide (amount ≤ bound)

def matchesTransactionLimit (condition : TransactionLimitCondition) (request : AuthorizationRequest) :
    Bool :=
  let amount := request.amount.getD 0
  if condition.minAmount.any fun bound => decide (amount < bound) then false
  else if !below amount condition.maxAmount then false
  else if !below (request.dailyAmount.getD 0) condition.maxDailyAmount then false
  else true

/-- `token.split(':')[0]`. -/
def assetCode (token : String) : String := String.ofList (token.toList.takeWhile (· ≠ ':'))

/-- The token a request names; an empty text is no token. -/
def requestToken (request : AuthorizationRequest) : Option String :=
  (request.tokenPair <|> request.asset).filter (· ≠ "")

def matchesTokenRestriction (condition : TokenRestrictionCondition) (request : AuthorizationRequest) :
    Bool :=
  let token := requestToken request
  let denied := condition.deniedTokens.getD []
  let allowed := condition.allowedTokens.getD []
  if token.any denied.contains then false
  else if allowed.isEmpty then true
  else
    match token with
    | none => false
    | some token => allowed.any fun entry => entry == token || entry == assetCode token

def matchesRateLimit (engine : PolicyEngine) (now : Time) (condition : RateLimitCondition)
    (request : AuthorizationRequest) : Bool :=
  let tracked : ℚ := recentActionCount engine now request.subjectId condition.windowMs
  let reported := request.recentActionCount.getD 0
  decide (max tracked reported < condition.maxActions)

def matchesCondition (engine : PolicyEngine) (now : Time) (condition : PolicyCondition)
    (request : AuthorizationRequest) (date : Time) : Bool :=
  match condition with
  | .timeWindow c => matchesTimeWindow c date
  | .transactionLimit c => matchesTransactionLimit c request
  | .tokenRestriction c => matchesTokenRestriction c request
  | .rateLimit c => matchesRateLimit engine now c request

def matchesConditions (engine : PolicyEngine) (now : Time) (conditions : List PolicyCondition)
    (request : AuthorizationRequest) (date : Time) : Bool :=
  conditions.all fun condition => matchesCondition engine now condition request date

/-! ## Evaluation -/

def requestTime (request : AuthorizationRequest) (now : Time) : Time := request.timestamp.getD now

def matchedPolicies (engine : PolicyEngine) (now : Time) (request : AuthorizationRequest) :
    List Policy :=
  engine.policies.filter fun policy =>
    appliesTo policy request &&
      matchesConditions engine now policy.conditions request (requestTime request now)

def policyIds (policies : List Policy) : String := ", ".intercalate (policies.map Policy.id)

def evaluate (engine : PolicyEngine) (now : Time) (request : AuthorizationRequest) : PolicyDecision :=
  let matched := matchedPolicies engine now request
  let denied := matched.filter fun policy => policy.effect = .deny
  let allowed := matched.filter fun policy => policy.effect = .allow
  if denied ≠ [] then
    { allowed := false
      reason := "Denied by policy: " ++ policyIds denied
      matchedPolicyIds := matched.map Policy.id
      evaluatedAt := requestTime request now }
  else if allowed ≠ [] then
    { allowed := true
      reason := "Allowed by policy: " ++ policyIds allowed
      matchedPolicyIds := matched.map Policy.id
      evaluatedAt := requestTime request now }
  else
    { allowed := true
      reason := "No policy restrictions applied"
      matchedPolicyIds := []
      evaluatedAt := requestTime request now }

/-! ## What a condition restricts -/

/-- The hour lies in the window that opens at `startHour` and closes at `endHour`, on the next day
when it closes before it opens; equal hours are the whole day. -/
def InHours (startHour endHour hour : ℚ) : Prop :=
  startHour = endHour ∨ (startHour < endHour ∧ startHour ≤ hour ∧ hour < endHour) ∨
    (endHour < startHour ∧ (startHour ≤ hour ∨ hour < endHour))

def RespectsTimeWindow (c : TimeWindowCondition) (date : Time) : Prop :=
  (∀ days, c.daysOfWeek = some days → days ≠ [] → (getUTCDay date : ℚ) ∈ days) ∧
    InHours c.startHour c.endHour (getUTCHours date)

def RespectsTransactionLimit (c : TransactionLimitCondition) (request : AuthorizationRequest) : Prop :=
  (∀ bound, c.minAmount = some bound → bound ≤ request.amount.getD 0) ∧
    (∀ bound, c.maxAmount = some bound → request.amount.getD 0 ≤ bound) ∧
    ∀ bound, c.maxDailyAmount = some bound → request.dailyAmount.getD 0 ≤ bound

def RespectsTokenRestriction (c : TokenRestrictionCondition) (request : AuthorizationRequest) : Prop :=
  (∀ tokens token, c.deniedTokens = some tokens → requestToken request = some token →
      token ∉ tokens) ∧
    ∀ tokens, c.allowedTokens = some tokens → tokens ≠ [] →
      ∃ token, requestToken request = some token ∧ (token ∈ tokens ∨ assetCode token ∈ tokens)

/-- Neither the actions the engine recorded nor those the caller reports have used up the limit. -/
def RespectsRateLimit (engine : PolicyEngine) (now : Time) (c : RateLimitCondition)
    (request : AuthorizationRequest) : Prop :=
  (recentActionCount engine now request.subjectId c.windowMs : ℚ) < c.maxActions ∧
    request.recentActionCount.getD 0 < c.maxActions

def Respects (engine : PolicyEngine) (now : Time) (request : AuthorizationRequest) :
    PolicyCondition → Prop
  | .timeWindow c => RespectsTimeWindow c (requestTime request now)
  | .transactionLimit c => RespectsTransactionLimit c request
  | .tokenRestriction c => RespectsTokenRestriction c request
  | .rateLimit c => RespectsRateLimit engine now c request

theorem matchesTimeWindow_iff (c : TimeWindowCondition) (date : Time) :
    matchesTimeWindow c date = true ↔ RespectsTimeWindow c date := by
  have hdays : (!(c.daysOfWeek.getD []).isEmpty &&
      !(c.daysOfWeek.getD []).contains (getUTCDay date : ℚ)) = false ↔
      ∀ days, c.daysOfWeek = some days → days ≠ [] → (getUTCDay date : ℚ) ∈ days := by
    cases c.daysOfWeek with
    | none => simp
    | some days =>
      cases days with
      | nil => simp
      | cons d days => simp [or_iff_not_imp_left]
  rw [RespectsTimeWindow, ← hdays, matchesTimeWindow, InHours]
  cases !(c.daysOfWeek.getD []).isEmpty && !(c.daysOfWeek.getD []).contains (getUTCDay date : ℚ) with
  | true => simp
  | false =>
    rcases lt_trichotomy c.startHour c.endHour with h | h | h
    · simp [h, h.ne, h.not_gt]
    · simp [h]
    · simp [h, h.ne', h.not_gt]

theorem below_iff (amount : ℚ) (limit : Option ℚ) :
    below amount limit = true ↔ ∀ bound, limit = some bound → amount ≤ bound := by
  cases limit <;> simp [below]

theorem matchesTransactionLimit_iff (c : TransactionLimitCondition) (request : AuthorizationRequest) :
    matchesTransactionLimit c request = true ↔ RespectsTransactionLimit c request := by
  have hmin : (c.minAmount.any fun bound => decide (request.amount.getD 0 < bound)) = false ↔
      ∀ bound, c.minAmount = some bound → bound ≤ request.amount.getD 0 := by
    cases c.minAmount <;> simp
  rw [RespectsTransactionLimit, ← hmin, ← below_iff, ← below_iff, matchesTransactionLimit]
  cases c.minAmount.any fun bound => decide (request.amount.getD 0 < bound) <;>
    cases below (request.amount.getD 0) c.maxAmount <;>
    cases below (request.dailyAmount.getD 0) c.maxDailyAmount <;> simp

theorem matchesTokenRestriction_iff (c : TokenRestrictionCondition) (request : AuthorizationRequest) :
    matchesTokenRestriction c request = true ↔ RespectsTokenRestriction c request := by
  have hdenied : ((requestToken request).any (c.deniedTokens.getD []).contains) = false ↔
      ∀ tokens token, c.deniedTokens = some tokens → requestToken request = some token →
        token ∉ tokens := by
    cases c.deniedTokens <;> cases requestToken request <;> simp
  rw [RespectsTokenRestriction, ← hdenied, matchesTokenRestriction]
  cases (requestToken request).any (c.deniedTokens.getD []).contains with
  | true => simp
  | false =>
    simp only [Bool.false_eq_true, if_false, true_and]
    cases c.allowedTokens with
    | none => simp
    | some tokens =>
      cases tokens with
      | nil => simp
      | cons entry rest =>
        cases requestToken request with
        | none => simp
        | some token =>
          have hany : ((entry :: rest).any fun e => e == token || e == assetCode token) = true ↔
              token ∈ entry :: rest ∨ assetCode token ∈ entry :: rest := by
            rw [List.any_eq_true]
            constructor
            · rintro ⟨e, he, hmatch⟩
              rcases Bool.or_eq_true_iff.mp hmatch with h | h
              · exact .inl (eq_of_beq h ▸ he)
              · exact .inr (eq_of_beq h ▸ he)
            · rintro (he | he)
              · exact ⟨token, he, by simp⟩
              · exact ⟨assetCode token, he, by simp⟩
          simpa using hany

theorem matchesRateLimit_iff (engine : PolicyEngine) (now : Time) (c : RateLimitCondition)
    (request : AuthorizationRequest) :
    matchesRateLimit engine now c request = true ↔ RespectsRateLimit engine now c request := by
  simp [matchesRateLimit, RespectsRateLimit]

/-- The matchers decide whether a request keeps to a condition. -/
theorem matchesCondition_iff (engine : PolicyEngine) (now : Time) (condition : PolicyCondition)
    (request : AuthorizationRequest) :
    matchesCondition engine now condition request (requestTime request now) = true ↔
      Respects engine now request condition := by
  cases condition with
  | timeWindow c => exact matchesTimeWindow_iff c _
  | transactionLimit c => exact matchesTransactionLimit_iff c request
  | tokenRestriction c => exact matchesTokenRestriction_iff c request
  | rateLimit c => exact matchesRateLimit_iff engine now c request

instance (engine : PolicyEngine) (now : Time) (request : AuthorizationRequest)
    (condition : PolicyCondition) : Decidable (Respects engine now request condition) :=
  decidable_of_iff _ (matchesCondition_iff engine now condition request)

theorem mem_matchedPolicies {engine : PolicyEngine} {now : Time} {request : AuthorizationRequest}
    {p : Policy} :
    p ∈ matchedPolicies engine now request ↔
      p ∈ engine.policies ∧ appliesTo p request = true ∧
        ∀ c ∈ p.conditions, Respects engine now request c := by
  simp [matchedPolicies, matchesConditions, matchesCondition_iff]

theorem evaluate_denied_iff {engine : PolicyEngine} {now : Time} {request : AuthorizationRequest} :
    (evaluate engine now request).allowed = false ↔
      ∃ p ∈ matchedPolicies engine now request, p.effect = .deny := by
  simp only [evaluate]
  split
  · rename_i h
    simpa [List.filter_eq_nil_iff] using h
  · rename_i h
    have h : ∀ p ∈ matchedPolicies engine now request, p.effect ≠ .deny := by
      simpa [List.filter_eq_nil_iff] using h
    split <;> simpa using h

theorem mem_matchedPolicyIds {engine : PolicyEngine} {now : Time} {request : AuthorizationRequest}
    {p : Policy} (h : p ∈ matchedPolicies engine now request) :
    p.id ∈ (evaluate engine now request).matchedPolicyIds := by
  have hid := List.mem_map_of_mem (f := Policy.id) h
  simp only [evaluate]
  split
  · exact hid
  · rename_i hdeny
    split
    · exact hid
    · rename_i hallow
      simp only [ne_eq, not_not, List.filter_eq_nil_iff, decide_eq_true_eq] at hdeny hallow
      cases heffect : p.effect with
      | allow => exact absurd heffect (hallow p h)
      | deny => exact absurd heffect (hdeny p h)

/-! ## Deny policies as restrictions -/

/-- The policy is one of those a denial reports. -/
def Blames (decision : PolicyDecision) (p : Policy) : Prop :=
  decision.allowed = false ∧ p.effect = .deny ∧ p.id ∈ decision.matchedPolicyIds

instance (decision : PolicyDecision) (p : Policy) : Decidable (Blames decision p) :=
  inferInstanceAs (Decidable (_ ∧ _ ∧ _))

/-- Every applicable `deny` policy is a list of restrictions: a request that breaks one of them is
denied, and no denial is blamed on a policy whose restrictions the request all keeps to. -/
structure Enforces (engine : PolicyEngine) (now : Time) (request : AuthorizationRequest) : Prop where
  denied : ∀ p ∈ engine.policies, p.effect = .deny → appliesTo p request = true →
    (∃ c ∈ p.conditions, ¬ Respects engine now request c) →
    (evaluate engine now request).allowed = false
  spared : ∀ p ∈ engine.policies, p.effect = .deny →
    (∀ c ∈ p.conditions, Respects engine now request c) →
    ¬ Blames (evaluate engine now request) p

/-- A `deny` policy that applies either is blamed for a request that keeps to it, or lets one pass
that breaks it: the engine enforces the restrictions exactly when no `deny` policy applies. -/
theorem enforces_iff (engine : PolicyEngine) (now : Time) (request : AuthorizationRequest) :
    Enforces engine now request ↔
      ∀ p ∈ engine.policies, p.effect = .deny → appliesTo p request = false := by
  constructor
  · intro h
    have hkept : ∀ p ∈ matchedPolicies engine now request, p.effect ≠ .deny := by
      intro p hp hdeny
      obtain ⟨hin, -, hall⟩ := mem_matchedPolicies.mp hp
      exact h.spared p hin hdeny hall
        ⟨evaluate_denied_iff.mpr ⟨p, hp, hdeny⟩, hdeny, mem_matchedPolicyIds hp⟩
    intro p hin hdeny
    by_contra happlies
    rw [Bool.not_eq_false] at happlies
    by_cases hall : ∀ c ∈ p.conditions, Respects engine now request c
    · exact hkept p (mem_matchedPolicies.mpr ⟨hin, happlies, hall⟩) hdeny
    · have hbroken : ∃ c ∈ p.conditions, ¬ Respects engine now request c := by simpa using hall
      obtain ⟨q, hq, hqdeny⟩ := evaluate_denied_iff.mp (h.denied p hin hdeny happlies hbroken)
      exact hkept q hq hqdeny
  · intro h
    have hallowed : (evaluate engine now request).allowed ≠ false := by
      intro hdenied
      obtain ⟨p, hp, hdeny⟩ := evaluate_denied_iff.mp hdenied
      obtain ⟨hin, happlies, -⟩ := mem_matchedPolicies.mp hp
      rw [h p hin hdeny] at happlies
      cases happlies
    refine ⟨fun p hin hdeny happlies => ?_, fun p _ _ _ hblames => hallowed hblames.1⟩
    rw [h p hin hdeny] at happlies
    cases happlies

def largeTrades : Policy where
  id := "large-trades"
  effect := .deny
  conditions := [.transactionLimit ⟨none, some 1000, none⟩]
  appliesToRoles := none

def tradeOf (amount : ℚ) : AuthorizationRequest where
  subjectId := "subject-1"
  roles := [.trader]
  amount := some amount
  asset := none
  tokenPair := none
  timestamp := none
  recentActionCount := none
  dailyAmount := none

/-- A trade over the limit passes, one below it is denied. -/
theorem large_trades_reversed :
    ¬ Enforces (registerPolicy .init largeTrades) 0 (tradeOf 5000) ∧
      ¬ Enforces (registerPolicy .init largeTrades) 0 (tradeOf 500) ∧
      (evaluate (registerPolicy .init largeTrades) 0 (tradeOf 5000)).allowed = true ∧
      evaluate (registerPolicy .init largeTrades) 0 (tradeOf 500) =
        ⟨false, "Denied by policy: large-trades", ["large-trades"], 0⟩ := by
  have hlarge : (evaluate (registerPolicy .init largeTrades) 0 (tradeOf 5000)).allowed = true := by
    decide +kernel
  have hsmall : evaluate (registerPolicy .init largeTrades) 0 (tradeOf 500) =
      ⟨false, "Denied by policy: large-trades", ["large-trades"], 0⟩ := by decide +kernel
  refine ⟨fun h => ?_, fun h => ?_, hlarge, hsmall⟩
  · have := h.denied largeTrades (by decide) rfl rfl (by decide +kernel)
    rw [hlarge] at this
    cases this
  · exact h.spared largeTrades (by decide) rfl (by decide +kernel) (by rw [hsmall]; decide)

end Authorization
end TradeCore
