import TradeCore.Authorization.Audit
import TradeCore.Authorization.Delegation
import TradeCore.Authorization.PolicyEngine
import TradeCore.Authorization.Threshold

/-!
# TradeCore.Authorization.Service

`AuthorizationService`: the roles, the delegations, the policies and the thresholds put together into
one decision, and the trail that every decision leaves.

The calls of all four services are interleaved, as callers make them:

* `authorize_run` says when a request is allowed, in terms of the calls that were made and not of the
  statuses that the services keep.
* `trail_run` says that the trail is the list of the decisions, chained and in their order.
* `authorize_delegated` is what no service asks: whether a delegator holds what is delegated.
-/

namespace TradeCore
namespace Authorization
namespace AuthorizationService

open Lib

def permissionText : Permission → String
  | .tradeCreate => "trade:create"
  | .tradeCancel => "trade:cancel"
  | .tradeSettle => "trade:settle"
  | .escrowCreate => "escrow:create"
  | .escrowApprove => "escrow:approve"
  | .escrowRelease => "escrow:release"
  | .walletRead => "wallet:read"
  | .walletSign => "wallet:sign"
  | .walletKeyRotate => "wallet:key-rotate"
  | .assetRead => "asset:read"
  | .liquidityManage => "liquidity:manage"
  | .complianceRead => "compliance:read"
  | .complianceWrite => "compliance:write"
  | .auditRead => "audit:read"
  | .userManage => "user:manage"
  | .policyManage => "policy:manage"
  | .apiKeyManage => "api-key:manage"

/-- `Object.values(Permission)`. -/
def allPermissions : List Permission :=
  [.tradeCreate, .tradeCancel, .tradeSettle, .escrowCreate, .escrowApprove, .escrowRelease, .walletRead,
    .walletSign, .walletKeyRotate, .assetRead, .liquidityManage, .complianceRead, .complianceWrite,
    .auditRead, .userManage, .policyManage, .apiKeyManage]

def rolePermissions : Role → List Permission
  | .trader => [.tradeCreate, .tradeCancel, .escrowCreate, .walletRead, .assetRead]
  | .auditor => [.auditRead, .complianceRead, .walletRead, .assetRead]
  | .liquidityProvider => [.liquidityManage, .tradeCreate, .tradeCancel, .walletRead, .assetRead]
  | .custodian =>
    [.walletRead, .walletSign, .walletKeyRotate, .escrowRelease, .tradeSettle, .assetRead]
  | .complianceOfficer =>
    [.complianceRead, .complianceWrite, .auditRead, .escrowCreate, .escrowApprove, .walletRead]
  | .admin => allPermissions

def permissionsFor (roles : List Role) : List Permission := (roles.flatMap rolePermissions).eraseDups

/-- The `metadata` of the entries. -/
inductive DecisionMetadata where
  | empty
  | lacking (roles : List Role)
  | decided (roles : List Role) (amount : Option ℚ) (asset : Option String)
      (matchedPolicyIds : List String)
  | outside (profile : ThresholdProfile)

structure AuthorizeResult where
  allowed : Bool
  reason : String
  matchedPolicyIds : List String
  evaluatedAt : Time
  viaDelegation : Bool
  effectivePermissions : List Permission
  deriving DecidableEq, Repr

/-- The services, with the clock of the delegations. -/
structure State where
  manager : Manager
  engine : PolicyEngine
  config : BaseThresholdConfig
  entries : List (AuthorizationAuditEntry DecisionMetadata)

def init (now : Time) : State := ⟨.init now, .init, ThresholdManagerService.init, []⟩

section Service

variable (sha256 : String → String) (json : MetadataJson DecisionMetadata)

def audit (id : Uuid) (permission : Permission) (request : AuthorizationRequest)
    (result : AuthorizeResult) (metadata : DecisionMetadata) (s : State) : State :=
  { s with
    entries := record sha256 json s.entries
      { id := id
        timestamp := s.manager.now
        input :=
          { actorId := request.subjectId
            action := permissionText permission
            subjectId := some request.subjectId
            decision := if result.allowed then .allow else .deny
            reason := result.reason
            metadata := some metadata } } }

def authorize (id : Uuid) (permission : Permission) (request : AuthorizationRequest) (s : State) :
    State × AuthorizeResult :=
  let delegated := (activePermissionsFor s.manager.now request.subjectId s.manager.delegations).2
  let s : State := { s with manager := step s.manager (.activePermissionsFor request.subjectId) }
  let rolePermissions := permissionsFor request.roles
  let fromRole := rolePermissions.contains permission
  let fromDelegation := delegated.contains permission
  if !fromRole && !fromDelegation then
    let decision : AuthorizeResult :=
      { allowed := false
        reason := "Subject lacks permission " ++ permissionText permission
        matchedPolicyIds := []
        evaluatedAt := requestTime request s.manager.now
        viaDelegation := false
        effectivePermissions := rolePermissions }
    (audit sha256 json id permission request decision (.lacking request.roles) s, decision)
  else
    let policyDecision := evaluate s.engine s.manager.now request
    let result : AuthorizeResult :=
      { allowed := policyDecision.allowed
        reason := policyDecision.reason
        matchedPolicyIds := policyDecision.matchedPolicyIds
        evaluatedAt := policyDecision.evaluatedAt
        viaDelegation := !fromRole && fromDelegation
        effectivePermissions := (rolePermissions ++ delegated).eraseDups }
    (audit sha256 json id permission request result
      (.decided request.roles request.amount request.asset result.matchedPolicyIds) s, result)

/-- `text` is how numbers are printed. -/
def authorizeWithThresholds (text : ℚ → String) (id : Uuid) (permission : Permission)
    (request : AuthorizationRequest) (conditions : MarketConditions) (s : State) :
    State × AuthorizeResult :=
  let profile := ThresholdManagerService.calculate s.config conditions
  let amount := request.amount.getD 0
  if !ThresholdManagerService.isWithinLimits amount profile then
    let decision : AuthorizeResult :=
      { allowed := false
        reason := "Amount " ++ text amount ++ " is outside the permitted range [" ++
          text profile.minAmount ++ ", " ++ text profile.maxAmount ++ "] (" ++ profile.rationale ++ ")"
        matchedPolicyIds := []
        evaluatedAt := requestTime request s.manager.now
        viaDelegation := false
        effectivePermissions := [] }
    (audit sha256 json id permission request decision (.outside profile) s, decision)
  else authorize sha256 json id permission request s

inductive AuthorizationOp where
  | delegation (op : DelegationOp)
  | registerPolicy (policy : Policy)
  | removePolicy (policyId : String)
  | recordAction (subjectId : String) (windowMs : ℚ)
  | configure (baseAmount : Option JsNumber) (minAmount maxAmount requiredSignatures : Option ℚ)
  | authorize (id : Uuid) (permission : Permission) (request : AuthorizationRequest)
  | authorizeWithThresholds (id : Uuid) (permission : Permission) (request : AuthorizationRequest)
      (conditions : MarketConditions)

def step (text : ℚ → String) (s : State) : AuthorizationOp → State
  | .delegation op => { s with manager := Authorization.step s.manager op }
  | .registerPolicy policy => { s with engine := Authorization.registerPolicy s.engine policy }
  | .removePolicy policyId => { s with engine := (Authorization.removePolicy s.engine policyId).1 }
  | .recordAction subjectId windowMs =>
    { s with engine := Authorization.recordAction s.engine s.manager.now subjectId windowMs }
  | .configure baseAmount minAmount maxAmount requiredSignatures =>
    { s with config :=
        ThresholdManagerService.configure s.config baseAmount minAmount maxAmount requiredSignatures }
  | .authorize id permission request => (authorize sha256 json id permission request s).1
  | .authorizeWithThresholds id permission request conditions =>
    (authorizeWithThresholds sha256 json text id permission request conditions s).1

/-! ## When a request is allowed -/

/-- The subject has the permission: one of its roles comes with it, or a delegation that nobody
entitled has revoked, that every member of its chain has approved and that has not expired. -/
def Holds (s : State) (permission : Permission) (request : AuthorizationRequest) : Prop :=
  (∃ role ∈ request.roles, permission ∈ rolePermissions role) ∨
    ∃ d ∈ s.manager.delegations, d.delegateeId = request.subjectId ∧ permission ∈ d.permissions ∧
      Grants s.manager.now s.manager.calls d

/-- No `deny` policy that applies finds all its conditions met. -/
def Undenied (s : State) (request : AuthorizationRequest) : Prop :=
  ∀ p ∈ s.engine.policies, p.effect = .deny → appliesTo p request = true →
    ∃ c ∈ p.conditions, ¬ Respects s.engine s.manager.now request c

variable {sha256 json} {text : ℚ → String}

theorem authorize_manager (id : Uuid) (permission : Permission) (request : AuthorizationRequest)
    (s : State) :
    (authorize sha256 json id permission request s).1.manager =
      Authorization.step s.manager (.activePermissionsFor request.subjectId) := by
  simp only [authorize]
  split <;> rfl

variable (sha256 json text) in
theorem step_manager (s : State) (op : AuthorizationOp) :
    (step sha256 json text s op).manager = s.manager ∨
      ∃ op', (step sha256 json text s op).manager = Authorization.step s.manager op' := by
  cases op with
  | delegation op => exact .inr ⟨op, rfl⟩
  | registerPolicy policy => exact .inl rfl
  | removePolicy policyId => exact .inl rfl
  | recordAction subjectId windowMs => exact .inl rfl
  | configure baseAmount minAmount maxAmount requiredSignatures => exact .inl rfl
  | authorize id permission request => exact .inr ⟨_, authorize_manager id permission request s⟩
  | authorizeWithThresholds id permission request conditions =>
    simp only [step, authorizeWithThresholds]
    split
    · exact .inl rfl
    · exact .inr ⟨_, authorize_manager id permission request s⟩

theorem manager_inv_step {s : State} (h : s.manager.Inv) (op : AuthorizationOp) :
    (step sha256 json text s op).manager.Inv := by
  rcases step_manager sha256 json text s op with heq | ⟨op', heq⟩
  · exact heq ▸ h
  · exact heq ▸ step_inv_delegation s.manager op' h

theorem manager_inv_run (now : Time) (ops : List AuthorizationOp) :
    (run (step sha256 json text) (init now) ops).manager.Inv :=
  run_inv (I := fun s : State => s.manager.Inv) (fun _ op h _ => manager_inv_step h op)
    (run_inv_delegation now []) along_true

theorem mem_permissionsFor {roles : List Role} {permission : Permission} :
    permission ∈ permissionsFor roles ↔ ∃ role ∈ roles, permission ∈ rolePermissions role := by
  simp [permissionsFor, List.mem_eraseDups]

theorem holds_iff {s : State} (h : s.manager.Inv) (permission : Permission)
    (request : AuthorizationRequest) :
    Holds s permission request ↔ permission ∈ permissionsFor request.roles ∨
      permission ∈ (activePermissionsFor s.manager.now request.subjectId s.manager.delegations).2 := by
  rw [Holds, ← mem_permissionsFor, activePermissionsFor, List.mem_eraseDups, mem_collect_snd]
  refine or_congr Iff.rfl (exists_congr fun d => and_congr_right fun hd => ?_)
  rw [(h.sound d hd).grants_iff]

theorem undenied_iff {s : State} {request : AuthorizationRequest} :
    Undenied s request ↔ (evaluate s.engine s.manager.now request).allowed = true := by
  rw [← Bool.not_eq_false, evaluate_denied_iff, Undenied]
  constructor
  · rintro h ⟨p, hp, hdeny⟩
    obtain ⟨hin, happlies, hall⟩ := mem_matchedPolicies.mp hp
    obtain ⟨c, hc, hbroken⟩ := h p hin hdeny happlies
    exact hbroken (hall c hc)
  · intro h p hin hdeny happlies
    by_contra hall
    simp only [not_exists, not_and, not_not] at hall
    exact h ⟨p, mem_matchedPolicies.mpr ⟨hin, happlies, hall⟩, hdeny⟩

variable (sha256 json) in
theorem authorize_iff {s : State} (h : s.manager.Inv) (id : Uuid) (permission : Permission)
    (request : AuthorizationRequest) :
    (authorize sha256 json id permission request s).2.allowed = true ↔
      Holds s permission request ∧ Undenied s request := by
  rw [holds_iff h, undenied_iff]
  simp only [authorize, List.contains_eq_mem]
  split
  · rename_i hnone
    have hnone : ¬ (permission ∈ permissionsFor request.roles ∨ permission ∈
        (activePermissionsFor s.manager.now request.subjectId s.manager.delegations).2) := by
      simpa using hnone
    simp [hnone]
  · rename_i hsome
    have hsome : permission ∈ permissionsFor request.roles ∨ permission ∈
        (activePermissionsFor s.manager.now request.subjectId s.manager.delegations).2 := by
      rw [or_iff_not_imp_left]
      simpa using hsome
    simp [hsome, Authorization.step]

/-- After every run, a request is allowed when the subject has the permission by the calls made so far
and no policy denies it; with thresholds, when also its amount lies between the two bounds. -/
theorem authorize_run (text : ℚ → String) (now : Time) (ops : List AuthorizationOp) (id : Uuid)
    (permission : Permission) (request : AuthorizationRequest) (conditions : MarketConditions) :
    let s := run (step sha256 json text) (init now) ops
    ((authorize sha256 json id permission request s).2.allowed = true ↔
      Holds s permission request ∧ Undenied s request) ∧
    ((authorizeWithThresholds sha256 json text id permission request conditions s).2.allowed = true ↔
      Holds s permission request ∧ Undenied s request ∧
        s.config.minAmount ≤ request.amount.getD 0 ∧
        request.amount.getD 0 ≤ (ThresholdManagerService.calculate s.config conditions).maxAmount) := by
  intro s
  have hinv : s.manager.Inv := manager_inv_run now ops
  refine ⟨authorize_iff sha256 json hinv id permission request, ?_⟩
  rw [← and_assoc, ← authorize_iff sha256 json hinv id permission request]
  have hlimits : ThresholdManagerService.isWithinLimits (request.amount.getD 0)
      (ThresholdManagerService.calculate s.config conditions) = true ↔
        s.config.minAmount ≤ request.amount.getD 0 ∧
          request.amount.getD 0 ≤ (ThresholdManagerService.calculate s.config conditions).maxAmount := by
    simp [ThresholdManagerService.isWithinLimits, ThresholdManagerService.calculate]
  rw [← hlimits]
  simp only [authorizeWithThresholds]
  split
  · rename_i hout
    simp only [Bool.not_eq_true'] at hout
    simp [hout]
  · rename_i hin
    simp only [Bool.not_eq_true', Bool.not_eq_false] at hin
    simp [hin]

/-! ## The trail -/

/-- What an entry of the trail says about a decision. -/
structure Outcome where
  subjectId : String
  permission : Permission
  allowed : Bool
  reason : String
  timestamp : Time

def outcomeOf (s : State) (permission : Permission) (request : AuthorizationRequest)
    (result : AuthorizeResult) : Outcome :=
  ⟨request.subjectId, permission, result.allowed, result.reason, s.manager.now⟩

/-- What a call answers, when it is a decision. -/
def outcome (sha256 : String → String) (json : MetadataJson DecisionMetadata) (text : ℚ → String)
    (s : State) : AuthorizationOp → Option Outcome
  | .authorize id permission request =>
    some (outcomeOf s permission request (authorize sha256 json id permission request s).2)
  | .authorizeWithThresholds id permission request conditions =>
    some (outcomeOf s permission request
      (authorizeWithThresholds sha256 json text id permission request conditions s).2)
  | _ => none

/-- The decisions of a run. -/
def outcomes (sha256 : String → String) (json : MetadataJson DecisionMetadata) (text : ℚ → String) :
    State → List AuthorizationOp → List Outcome
  | _, [] => []
  | s, op :: ops =>
    (outcome sha256 json text s op).toList ++
      outcomes sha256 json text (step sha256 json text s op) ops

/-- The entry says what was decided. -/
structure Tells (o : Outcome) (e : AuthorizationAuditEntry DecisionMetadata) : Prop where
  actorId : e.actorId = o.subjectId
  subjectId : e.subjectId = some o.subjectId
  action : e.action = permissionText o.permission
  decision : e.decision = if o.allowed then .allow else .deny
  reason : e.reason = o.reason
  timestamp : e.timestamp = o.timestamp

variable (sha256 json) in
theorem authorize_entries (id : Uuid) (permission : Permission) (request : AuthorizationRequest)
    (s : State) :
    ∃ metadata, (authorize sha256 json id permission request s).1.entries =
      (audit sha256 json id permission request (authorize sha256 json id permission request s).2
        metadata s).entries := by
  simp only [authorize]
  split
  · exact ⟨_, rfl⟩
  · exact ⟨_, rfl⟩

variable (sha256 json text) in
theorem step_entries (s : State) (op : AuthorizationOp) :
    (outcome sha256 json text s op = none ∧ (step sha256 json text s op).entries = s.entries) ∨
      ∃ id permission request result metadata,
        outcome sha256 json text s op = some (outcomeOf s permission request result) ∧
        (step sha256 json text s op).entries =
          (audit sha256 json id permission request result metadata s).entries := by
  cases op with
  | delegation op => exact .inl ⟨rfl, rfl⟩
  | registerPolicy policy => exact .inl ⟨rfl, rfl⟩
  | removePolicy policyId => exact .inl ⟨rfl, rfl⟩
  | recordAction subjectId windowMs => exact .inl ⟨rfl, rfl⟩
  | configure baseAmount minAmount maxAmount requiredSignatures => exact .inl ⟨rfl, rfl⟩
  | authorize id permission request =>
    obtain ⟨metadata, h⟩ := authorize_entries sha256 json id permission request s
    exact .inr ⟨id, permission, request, _, metadata, rfl, h⟩
  | authorizeWithThresholds id permission request conditions =>
    refine .inr ⟨id, permission, request,
      (authorizeWithThresholds sha256 json text id permission request conditions s).2, ?_⟩
    simp only [outcome, step, authorizeWithThresholds]
    split
    · exact ⟨_, trivial, rfl⟩
    · obtain ⟨metadata, h⟩ := authorize_entries sha256 json id permission request s
      exact ⟨metadata, trivial, h⟩

variable (sha256 json) in
/-- What every call keeps of the trail. -/
structure Trail (s : State) : Prop where
  chained : verifyChain sha256 json s.entries = true
  numbered : s.entries.map AuthorizationAuditEntry.sequence = List.range' 1 s.entries.length
  past : ∀ e ∈ s.entries, e.timestamp ≤ s.manager.now
  ordered : s.entries.Pairwise fun e e' => e.timestamp ≤ e'.timestamp

theorem verifyChain_record {entries : List (AuthorizationAuditEntry DecisionMetadata)}
    (h : verifyChain sha256 json entries = true) (call : RecordCall DecisionMetadata) :
    verifyChain sha256 json (record sha256 json entries call) = true := by
  obtain ⟨e, he, hprev, hhash⟩ : ∃ e, record sha256 json entries call = entries ++ [e] ∧
      e.previousHash = lastHash entries ∧ e.hash = sha256 (e.text json) := record_eq entries call
  rw [verifyChain, verifyFrom_iff] at h ⊢
  rw [he]
  exact linked_append.mpr ⟨h, hprev, hhash⟩

theorem Trail.keep {s s' : State} (h : Trail sha256 json s) (he : s'.entries = s.entries)
    (hnow : s.manager.now ≤ s'.manager.now) : Trail sha256 json s' where
  chained := he ▸ h.chained
  numbered := he ▸ h.numbered
  past e hmem := Int.le_trans (h.past e (he ▸ hmem)) hnow
  ordered := he ▸ h.ordered

theorem Trail.audit {s : State} (h : Trail sha256 json s) (id : Uuid) (permission : Permission)
    (request : AuthorizationRequest) (result : AuthorizeResult) (metadata : DecisionMetadata) :
    Trail sha256 json (audit sha256 json id permission request result metadata s) where
  chained := verifyChain_record h.chained _
  numbered := by
    simp only [AuthorizationService.audit, record, List.map_append, h.numbered, List.length_append,
      List.map_cons, List.map_nil, List.length_singleton]
    rw [List.range'_concat, Nat.add_comm 1]
    simp
  past e hmem := by
    rcases List.mem_append.mp hmem with hmem | hmem
    · exact h.past e hmem
    · rw [List.mem_singleton.mp hmem]
      exact Int.le_refl _
  ordered := by
    refine List.pairwise_append.mpr ⟨h.ordered, List.pairwise_singleton _ _, fun e he e' he' => ?_⟩
    rw [List.mem_singleton.mp he']
    exact h.past e he

variable (sha256 json text) in
theorem now_le_step {s : State} (hm : s.manager.Inv) (op : AuthorizationOp) :
    s.manager.now ≤ (step sha256 json text s op).manager.now := by
  rcases step_manager sha256 json text s op with heq | ⟨op', heq⟩
  · rw [heq]
  · rw [heq]
    exact (step_extends hm op').now

theorem Trail.step {s : State} (h : Trail sha256 json s) (hm : s.manager.Inv) (op : AuthorizationOp) :
    Trail sha256 json (step sha256 json text s op) := by
  have hnow := now_le_step sha256 json text hm op
  rcases step_entries sha256 json text s op with ⟨-, he⟩ | ⟨id, permission, request, result, metadata, -, he⟩
  · exact h.keep he hnow
  · exact (h.audit id permission request result metadata).keep he hnow

theorem trail_init (now : Time) : Trail sha256 json (init now) where
  chained := rfl
  numbered := rfl
  past _ h := by cases h
  ordered := .nil

variable (sha256 json text) in
theorem step_tells (s : State) (op : AuthorizationOp) :
    ∃ es, (step sha256 json text s op).entries = s.entries ++ es ∧
      List.Forall₂ Tells (outcome sha256 json text s op).toList es := by
  rcases step_entries sha256 json text s op with
    ⟨hnone, he⟩ | ⟨id, permission, request, result, metadata, hsome, he⟩
  · exact ⟨[], by simpa using he, by rw [hnone]; exact .nil⟩
  · refine ⟨_, he, ?_⟩
    rw [hsome]
    exact .cons ⟨rfl, rfl, rfl, rfl, rfl, rfl⟩ .nil

variable (sha256 json text) in
theorem run_tells (s : State) (ops : List AuthorizationOp) :
    ∃ es, (run (step sha256 json text) s ops).entries = s.entries ++ es ∧
      List.Forall₂ Tells (outcomes sha256 json text s ops) es := by
  induction ops generalizing s with
  | nil => exact ⟨[], (List.append_nil _).symm, .nil⟩
  | cons op ops ih =>
    obtain ⟨es, he, htells⟩ := step_tells sha256 json text s op
    obtain ⟨es', he', htells'⟩ := ih (step sha256 json text s op)
    refine ⟨es ++ es', ?_, List.rel_append htells htells'⟩
    rw [run, he', he, List.append_assoc]

/-- After every run of calls, the trail tells the decisions in the order in which they were made, each
once, and nothing else; it is numbered from 1, its times do not go back and its chain verifies. -/
theorem trail_run (text : ℚ → String) (now : Time) (ops : List AuthorizationOp) :
    let s := run (step sha256 json text) (init now) ops
    List.Forall₂ Tells (outcomes sha256 json text (init now) ops) s.entries ∧
      verifyChain sha256 json s.entries = true ∧
      s.entries.map AuthorizationAuditEntry.sequence = List.range' 1 s.entries.length ∧
      s.entries.Pairwise fun e e' => e.timestamp ≤ e'.timestamp := by
  intro s
  have htrail : Trail sha256 json s ∧ s.manager.Inv :=
    run_inv (I := fun s : State => Trail sha256 json s ∧ s.manager.Inv)
      (fun _ op h _ => ⟨h.1.step h.2 op, manager_inv_step h.2 op⟩)
      ⟨trail_init now, run_inv_delegation now []⟩ along_true
  obtain ⟨es, he, htells⟩ := run_tells sha256 json text (init now) ops
  have he : s.entries = es := he
  exact ⟨he ▸ htells, htrail.1.chained, htrail.1.numbered, htrail.1.ordered⟩

/-! ## What a delegator need not hold -/

theorem mem_activePermissionsFor_create (m : Manager) {permission : Permission}
    {delegatorId subjectId : String} {expiresAt : Time} (hother : delegatorId ≠ subjectId)
    (hfuture : m.now < expiresAt) :
    permission ∈ (activePermissionsFor m.now subjectId (Authorization.step m (.createDelegation
      ⟨delegatorId, subjectId, [permission], expiresAt, none⟩)).delegations).2 := by
  rw [activePermissionsFor, List.mem_eraseDups, mem_collect_snd]
  simp only [Authorization.step, createDelegation, hother, if_false, List.cons_ne_nil,
    Int.not_le.mpr hfuture]
  refine ⟨_, mem_upsert_self _ _, rfl, by simp, ?_, ?_⟩
  · simp [approvalChainOf]
  · simpa [isExpired] using hfuture

/-- Whoever has another one delegate a permission to it has the permission, without a chain at once:
nothing asks whether the delegator holds it. -/
theorem authorize_delegated (text : ℚ → String) (now : Time) (ops : List AuthorizationOp) (id : Uuid)
    (permission : Permission) (request : AuthorizationRequest) (delegatorId : String) (expiresAt : Time)
    (hother : delegatorId ≠ request.subjectId)
    (hfuture : (run (step sha256 json text) (init now) ops).manager.now < expiresAt) :
    let s := run (step sha256 json text) (init now) (ops ++ [.delegation
      (.createDelegation ⟨delegatorId, request.subjectId, [permission], expiresAt, none⟩)])
    (authorize sha256 json id permission request s).2.allowed = true ↔ Undenied s request := by
  intro s
  have hs : s.manager = Authorization.step (run (step sha256 json text) (init now) ops).manager
      (.createDelegation ⟨delegatorId, request.subjectId, [permission], expiresAt, none⟩) := by
    simp only [s, run_append, run, step]
  have hholds : Holds s permission request := by
    rw [holds_iff (manager_inv_run now _), hs]
    exact .inr (mem_activePermissionsFor_create _ hother hfuture)
  rw [(authorize_run text now _ id permission request ⟨none, none, none⟩).1]
  exact and_iff_right hholds

end Service

/-- A trader manages users on the word of an account that the platform does not know. -/
theorem authorize_delegated_trader :
    Permission.userManage ∉ permissionsFor [.trader] ∧
      (authorize (fun text => text) ⟨.empty, fun _ => ""⟩ 0 .userManage (tradeOf 1)
        (run (step (fun text => text) ⟨.empty, fun _ => ""⟩ fun _ => "") (init 0)
          [.delegation (.createDelegation ⟨"nobody", "subject-1", [.userManage], 1, none⟩)])).2.allowed =
        true := by
  refine ⟨by decide, ?_⟩
  refine (authorize_delegated (fun _ => "") 0 [] 0 .userManage (tradeOf 1) "nobody" 1 (by decide)
    (by decide)).mpr ?_
  intro p hp
  cases hp

end AuthorizationService
end Authorization
end TradeCore
