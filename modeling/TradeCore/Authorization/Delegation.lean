import TradeCore.Common
import TradeCore.Lib.Run
import TradeCore.Lib.Table

/-!
# TradeCore.Authorization.Delegation

Delegated authority: the map of delegations, the calls that create, approve and revoke them, and
`activePermissionsFor`, which collects the permissions of the active ones and marks what it finds
expired.

The status of a delegation is driven by the calls and by time that passes unseen. `Grants` says what a
delegation is for without it, in terms of the calls that were made: nobody entitled has revoked it,
its expiry lies ahead and every member of its chain has approved. `Sound` is what the status knows of
that, kept by every step, and `activePermissionsFor_run` the result over every run.
-/

namespace TradeCore
namespace Authorization

open Lib

inductive Permission where
  | tradeCreate
  | tradeCancel
  | tradeSettle
  | escrowCreate
  | escrowApprove
  | escrowRelease
  | walletRead
  | walletSign
  | walletKeyRotate
  | assetRead
  | liquidityManage
  | complianceRead
  | complianceWrite
  | auditRead
  | userManage
  | policyManage
  | apiKeyManage
  deriving DecidableEq, Repr

inductive DelegationStatus where
  | pending
  | active
  | revoked
  | expired
  deriving DecidableEq, Repr

structure Delegation where
  id : Uuid
  delegatorId : String
  delegateeId : String
  permissions : List Permission
  expiresAt : Time
  status : DelegationStatus
  approvalChain : List String
  approvals : List String
  createdAt : Time
  deriving DecidableEq, Repr

structure CreateDelegationInput where
  delegatorId : String
  delegateeId : String
  permissions : List Permission
  expiresAt : Time
  approvalChain : Option (List String)
  deriving DecidableEq, Repr

def isExpired (now : Time) (delegation : Delegation) : Bool := decide (delegation.expiresAt ≤ now)

/-- `[...new Set(chain)]` without the delegatee. -/
def approvalChainOf (input : CreateDelegationInput) : List String :=
  (input.approvalChain.getD []).eraseDups.filter fun approver => approver ≠ input.delegateeId

def createDelegation (now : Time) (id : Uuid) (input : CreateDelegationInput)
    (delegations : List Delegation) : List Delegation × Except HttpError Delegation :=
  if input.delegatorId = input.delegateeId then
    (delegations, .error (.badRequest "A delegation cannot target its delegator"))
  else if input.permissions = [] then
    (delegations, .error (.badRequest "A delegation must grant at least one permission"))
  else if input.expiresAt ≤ now then
    (delegations, .error (.badRequest "A delegation must expire in the future"))
  else
    let delegation : Delegation :=
      { id := id
        delegatorId := input.delegatorId
        delegateeId := input.delegateeId
        permissions := input.permissions.eraseDups
        expiresAt := input.expiresAt
        status := if approvalChainOf input = [] then .active else .pending
        approvalChain := approvalChainOf input
        approvals := []
        createdAt := now }
    (upsert Delegation.id delegation delegations, .ok delegation)

def notFound (delegationId : Uuid) : HttpError := .badRequest s!"Delegation {delegationId} not found"

/-- An approval that counts. -/
def addApproval (approverId : String) (delegation : Delegation) : Delegation :=
  let approvals :=
    if approverId ∈ delegation.approvals then delegation.approvals
    else delegation.approvals ++ [approverId]
  { delegation with
    approvals := approvals
    status :=
      if ∀ approver ∈ delegation.approvalChain, approver ∈ approvals then .active
      else delegation.status }

/-- The delegation as `approveDelegation` leaves it, and what the call ends with. -/
def approve (now : Time) (approverId : String) (delegation : Delegation) :
    Delegation × Except HttpError Unit :=
  if delegation.status = .revoked then
    (delegation, .error (.badRequest "Cannot approve a revoked delegation"))
  else if delegation.status = .expired ∨ isExpired now delegation = true then
    ({ delegation with status := .expired }, .error (.badRequest "Cannot approve an expired delegation"))
  else if approverId ∉ delegation.approvalChain then
    (delegation, .error (.badRequest
      s!"{approverId} is not part of the approval chain for {delegation.id}"))
  else (addApproval approverId delegation, .ok ())

def approveDelegation (now : Time) (delegationId : Uuid) (approverId : String)
    (delegations : List Delegation) : List Delegation × Except HttpError Unit :=
  match lookup Delegation.id delegationId delegations with
  | none => (delegations, .error (notFound delegationId))
  | some delegation =>
    let (delegation, result) := approve now approverId delegation
    (upsert Delegation.id delegation delegations, result)

def mayRevoke (requesterId : String) (delegation : Delegation) : Prop :=
  delegation.delegatorId = requesterId ∨ requesterId ∈ delegation.approvalChain

instance (requesterId : String) (delegation : Delegation) :
    Decidable (mayRevoke requesterId delegation) :=
  inferInstanceAs (Decidable (_ ∨ _))

def revoke (requesterId : String) (delegation : Delegation) : Delegation × Except HttpError Unit :=
  if mayRevoke requesterId delegation then ({ delegation with status := .revoked }, .ok ())
  else (delegation, .error (.badRequest "Only the delegator or an approver can revoke this delegation"))

def revokeDelegation (delegationId : Uuid) (requesterId : String) (delegations : List Delegation) :
    List Delegation × Except HttpError Unit :=
  match lookup Delegation.id delegationId delegations with
  | none => (delegations, .error (notFound delegationId))
  | some delegation =>
    let (delegation, result) := revoke requesterId delegation
    (upsert Delegation.id delegation delegations, result)

/-- The loop of `activePermissionsFor`: the delegations as it leaves them and the permissions it adds. -/
def collect (now : Time) (subjectId : String) : List Delegation → List Delegation × List Permission
  | [] => ([], [])
  | d :: ds =>
    let (ds, permissions) := collect now subjectId ds
    if d.delegateeId ≠ subjectId then (d :: ds, permissions)
    else if d.status ≠ .active then (d :: ds, permissions)
    else if isExpired now d then ({ d with status := .expired } :: ds, permissions)
    else (d :: ds, d.permissions ++ permissions)

def activePermissionsFor (now : Time) (subjectId : String) (delegations : List Delegation) :
    List Delegation × List Permission :=
  let (delegations, permissions) := collect now subjectId delegations
  (delegations, permissions.eraseDups)

/-! ## Runs -/

inductive DelegationOp where
  | createDelegation (input : CreateDelegationInput)
  | approveDelegation (delegationId : Uuid) (approverId : String)
  | revokeDelegation (delegationId : Uuid) (requesterId : String)
  | activePermissionsFor (subjectId : String)
  | tick (ms : Nat)
  deriving DecidableEq, Repr

/-- The manager, the clock and the calls it was sent. -/
structure Manager where
  now : Time
  nextId : Uuid
  delegations : List Delegation
  calls : List DelegationOp
  deriving DecidableEq, Repr

def Manager.init (now : Time) : Manager := ⟨now, 0, [], []⟩

/-- Calls that name a delegation are kept from its creation on. -/
def note (op : DelegationOp) (delegationId : Uuid) (m : Manager) : List DelegationOp :=
  if delegationId ∈ m.delegations.map Delegation.id then m.calls ++ [op] else m.calls

def step (m : Manager) (op : DelegationOp) : Manager :=
  match op with
  | .createDelegation input =>
    { m with
      nextId := m.nextId + 1
      delegations := (createDelegation m.now m.nextId input m.delegations).1 }
  | .approveDelegation k approverId =>
    { m with
      delegations := (approveDelegation m.now k approverId m.delegations).1
      calls := note op k m }
  | .revokeDelegation k requesterId =>
    { m with
      delegations := (revokeDelegation k requesterId m.delegations).1
      calls := note op k m }
  | .activePermissionsFor subjectId =>
    { m with delegations := (activePermissionsFor m.now subjectId m.delegations).1 }
  | .tick ms => { m with now := m.now + ms }

/-! ## What a delegation is for -/

/-- Somebody entitled to it has asked for the revocation. -/
def Revoked (calls : List DelegationOp) (d : Delegation) : Prop :=
  ∃ requesterId, .revokeDelegation d.id requesterId ∈ calls ∧ mayRevoke requesterId d

def Approved (calls : List DelegationOp) (d : Delegation) : Prop :=
  ∀ approverId ∈ d.approvalChain, .approveDelegation d.id approverId ∈ calls

structure Grants (now : Time) (calls : List DelegationOp) (d : Delegation) : Prop where
  notRevoked : ¬ Revoked calls d
  notExpired : now < d.expiresAt
  approved : Approved calls d

/-- What the status and the approvals of a delegation say about the calls that were made. -/
structure Sound (now : Time) (calls : List DelegationOp) (d : Delegation) : Prop where
  revoked : d.status = .revoked ↔ Revoked calls d
  expired : d.status = .expired → d.expiresAt ≤ now
  made : ∀ a ∈ d.approvals, .approveDelegation d.id a ∈ calls
  counted : d.status ≠ .revoked → now < d.expiresAt →
    ∀ a ∈ d.approvalChain, .approveDelegation d.id a ∈ calls → a ∈ d.approvals
  active : d.status = .active → ∀ a ∈ d.approvalChain, a ∈ d.approvals
  pending : d.status = .pending → ∃ a ∈ d.approvalChain, a ∉ d.approvals

theorem Sound.grants_iff {now : Time} {calls : List DelegationOp} {d : Delegation}
    (h : Sound now calls d) : Grants now calls d ↔ d.status = .active ∧ isExpired now d = false := by
  rw [isExpired, decide_eq_false_iff_not, Int.not_le]
  constructor
  · intro g
    refine ⟨?_, g.notExpired⟩
    cases hs : d.status with
    | active => rfl
    | revoked => exact absurd (h.revoked.mp hs) g.notRevoked
    | expired => exact absurd (h.expired hs) (Int.not_le.mpr g.notExpired)
    | pending =>
      obtain ⟨a, ha, hmissing⟩ := h.pending hs
      exact absurd (h.counted (by simp [hs]) g.notExpired a ha (g.approved a ha)) hmissing
  · rintro ⟨hs, hexp⟩
    refine ⟨fun hr => ?_, hexp, fun a ha => h.made a (h.active hs a ha)⟩
    rw [h.revoked.mpr hr] at hs
    cases hs

theorem Sound.later {now now' : Time} {calls : List DelegationOp} {d : Delegation}
    (h : Sound now calls d) (hle : now ≤ now') : Sound now' calls d where
  revoked := h.revoked
  expired := fun hs => Int.le_trans (h.expired hs) hle
  made := h.made
  counted := fun hs hlt => h.counted hs (Int.lt_of_le_of_lt hle hlt)
  active := h.active
  pending := h.pending

/-- Calls about other delegations do not matter. -/
theorem Sound.frame {now : Time} {calls calls' : List DelegationOp} {d : Delegation}
    (h : Sound now calls d)
    (ha : ∀ a, .approveDelegation d.id a ∈ calls' ↔ .approveDelegation d.id a ∈ calls)
    (hr : ∀ r, .revokeDelegation d.id r ∈ calls' ↔ .revokeDelegation d.id r ∈ calls) :
    Sound now calls' d where
  revoked := by simpa only [Revoked, hr] using h.revoked
  expired := h.expired
  made := by simpa only [ha] using h.made
  counted := by simpa only [ha] using h.counted
  active := h.active
  pending := h.pending

theorem revoked_approve {calls : List DelegationOp} {k : Uuid} {a : String} {d : Delegation} :
    Revoked (calls ++ [.approveDelegation k a]) d ↔ Revoked calls d := by
  simp [Revoked]

theorem addApproval_sound {now : Time} {calls : List DelegationOp} {d : Delegation} (a : String)
    (h : Sound now calls d) (hrevoked : d.status ≠ .revoked) (hexpired : d.status ≠ .expired) :
    Sound now (calls ++ [.approveDelegation d.id a]) (addApproval a d) := by
  have hmem : ∀ b, b ∈ (if a ∈ d.approvals then d.approvals else d.approvals ++ [a]) ↔
      b ∈ d.approvals ∨ b = a := by
    intro b
    by_cases ha : a ∈ d.approvals
    · rw [if_pos ha]
      exact ⟨.inl, fun hb => hb.elim id fun hb => hb ▸ ha⟩
    · simp [if_neg ha]
  rw [addApproval]
  generalize (if a ∈ d.approvals then d.approvals else d.approvals ++ [a]) = approvals at hmem
  -- with the chain complete the status is active, otherwise what it was
  have hstatus : ∀ st, (if ∀ b ∈ d.approvalChain, b ∈ approvals then .active else d.status) = st →
      (st = .active ∧ ∀ b ∈ d.approvalChain, b ∈ approvals) ∨
        (st = d.status ∧ ¬ ∀ b ∈ d.approvalChain, b ∈ approvals) := by
    intro st hst
    split at hst
    · rename_i hall
      exact .inl ⟨hst.symm, hall⟩
    · rename_i hall
      exact .inr ⟨hst.symm, hall⟩
  refine ⟨?_, ?_, ?_, ?_, ?_, ?_⟩
  · rw [revoked_approve]
    refine ⟨fun hs => ?_, fun hr => absurd (h.revoked.mpr hr) hrevoked⟩
    rcases hstatus _ hs with ⟨hs, -⟩ | ⟨hs, -⟩
    · cases hs
    · exact absurd hs.symm hrevoked
  · intro hs
    rcases hstatus _ hs with ⟨hs, -⟩ | ⟨hs, -⟩
    · cases hs
    · exact absurd hs.symm hexpired
  · intro b hb
    rcases (hmem b).mp hb with hb | rfl
    · exact List.mem_append_left _ (h.made b hb)
    · simp
  · intro _ hlt b hb hcall
    refine (hmem b).mpr ?_
    rcases List.mem_append.mp hcall with hcall | hcall
    · exact .inl (h.counted hrevoked hlt b hb hcall)
    · exact .inr (by simpa using hcall)
  · intro hs
    rcases hstatus _ hs with ⟨-, hall⟩ | ⟨hs, -⟩
    · exact hall
    · exact fun b hb => (hmem b).mpr (.inl (h.active hs.symm b hb))
  · intro hs
    rcases hstatus _ hs with ⟨hs, -⟩ | ⟨-, hall⟩
    · cases hs
    · simpa using hall

theorem expire_sound {now : Time} {calls : List DelegationOp} {d : Delegation}
    (h : Sound now calls d) (hrevoked : d.status ≠ .revoked) (hle : d.expiresAt ≤ now) :
    Sound now calls { d with status := .expired } := by
  refine ⟨?_, fun _ => hle, h.made, fun _ hlt => absurd hle (Int.not_le.mpr hlt), ?_, ?_⟩
  · refine ⟨fun hs => ?_, fun hr => absurd (h.revoked.mpr hr) hrevoked⟩
    cases hs
  · intro hs; cases hs
  · intro hs; cases hs

/-- A call that leaves the delegation and does not count. -/
theorem Sound.ignored {now : Time} {calls : List DelegationOp} {d : Delegation} {a : String}
    (h : Sound now calls d)
    (hout : d.status ≠ .revoked → now < d.expiresAt → a ∉ d.approvalChain) :
    Sound now (calls ++ [.approveDelegation d.id a]) d := by
  refine ⟨by rw [revoked_approve]; exact h.revoked, h.expired,
    fun b hb => List.mem_append_left _ (h.made b hb), ?_, h.active, h.pending⟩
  intro hne hlt b hb hcall
  rcases List.mem_append.mp hcall with hcall | hcall
  · exact h.counted hne hlt b hb hcall
  · have hab : b = a := by simpa using hcall
    exact absurd (hab ▸ hb) (hout hne hlt)

theorem approve_sound {now : Time} {calls : List DelegationOp} {d : Delegation} (a : String)
    (h : Sound now calls d) :
    Sound now (calls ++ [.approveDelegation d.id a]) (approve now a d).1 := by
  rw [approve]
  split
  · rename_i hs
    exact h.ignored fun hne => absurd hs hne
  · rename_i hs
    split
    · rename_i hexp
      have hle : d.expiresAt ≤ now := by
        rcases hexp with hexp | hexp
        · exact h.expired hexp
        · exact of_decide_eq_true hexp
      exact expire_sound (h.ignored fun _ hlt => absurd hle (Int.not_le.mpr hlt)) hs hle
    · rename_i hexp
      split
      · rename_i hchain
        exact h.ignored fun _ _ => hchain
      · exact addApproval_sound a h hs fun he => hexp (.inl he)

theorem revoke_sound {now : Time} {calls : List DelegationOp} {d : Delegation} (r : String)
    (h : Sound now calls d) :
    Sound now (calls ++ [.revokeDelegation d.id r]) (revoke r d).1 := by
  have happ : ∀ a, .approveDelegation d.id a ∈ calls ++ [.revokeDelegation d.id r] ↔
      .approveDelegation d.id a ∈ calls := by simp
  simp only [revoke]
  split
  · rename_i hmay
    refine ⟨?_, ?_, ?_, fun hne => absurd rfl hne, ?_, ?_⟩
    · exact ⟨fun _ => ⟨r, by simp, hmay⟩, fun _ => rfl⟩
    · intro h; cases h
    · intro a ha
      exact (happ a).mpr (h.made a ha)
    · intro h; cases h
    · intro h; cases h
  · rename_i hmay
    refine ⟨?_, h.expired, fun a ha => (happ a).mpr (h.made a ha), ?_, h.active, h.pending⟩
    · rw [h.revoked]
      constructor
      · rintro ⟨r', hr', hmay'⟩
        exact ⟨r', List.mem_append_left _ hr', hmay'⟩
      · rintro ⟨r', hr', hmay'⟩
        rcases List.mem_append.mp hr' with hr' | hr'
        · exact ⟨r', hr', hmay'⟩
        · have : r' = r := by simpa using hr'
          exact absurd (this ▸ hmay') hmay
    · intro hne hlt a ha hcall
      exact h.counted hne hlt a ha ((happ a).mp hcall)

/-! ## Every run -/

/-- The delegation a call names. -/
def DelegationOp.target : DelegationOp → Option Uuid
  | .approveDelegation k _ => some k
  | .revokeDelegation k _ => some k
  | _ => none

structure Manager.Inv (m : Manager) : Prop where
  distinct : (m.delegations.map Delegation.id).Nodup
  fresh : ∀ d ∈ m.delegations, d.id < m.nextId
  known : ∀ op ∈ m.calls, ∀ k, op.target = some k → k < m.nextId
  sound : ∀ d ∈ m.delegations, Sound m.now m.calls d

/-- What a delegation was created with. -/
def Delegation.terms (d : Delegation) : Delegation := { d with status := .pending, approvals := [] }

theorem Sound.frame_call {now : Time} {calls : List DelegationOp} {op : DelegationOp} {d : Delegation}
    (h : Sound now calls d) (hop : op.target ≠ some d.id) : Sound now (calls ++ [op]) d := by
  refine h.frame (fun a => ?_) fun r => ?_
  · have : .approveDelegation d.id a ≠ op := by
      rintro rfl
      exact hop rfl
    simp [this]
  · have : .revokeDelegation d.id r ≠ op := by
      rintro rfl
      exact hop rfl
    simp [this]

theorem approve_terms (now : Time) (a : String) (d : Delegation) :
    (approve now a d).1.terms = d.terms := by
  rw [approve]
  split
  · rfl
  · split
    · rfl
    · split <;> rfl

theorem revoke_terms (r : String) (d : Delegation) : (revoke r d).1.terms = d.terms := by
  rw [revoke]
  split <;> rfl

theorem id_of_terms {d d' : Delegation} (h : d'.terms = d.terms) : d'.id = d.id := by
  show d'.terms.id = d.terms.id
  rw [h]

theorem update_inv {m : Manager} (h : m.Inv) {op : DelegationOp} {k : Uuid} {d d' : Delegation}
    (hd : lookup Delegation.id k m.delegations = some d) (hterms : d'.terms = d.terms)
    (hop : op.target = some k) (hsound : Sound m.now (m.calls ++ [op]) d') :
    Manager.Inv { m with
      delegations := upsert Delegation.id d' m.delegations
      calls := m.calls ++ [op] } := by
  have hid : d'.id = k := (id_of_terms hterms).trans (lookup_key hd)
  have hin := mem_of_lookup hd
  refine ⟨nodup_upsert h.distinct, ?_, ?_, ?_⟩
  · intro x hx
    rcases mem_upsert hx with rfl | hx
    · rw [id_of_terms hterms]
      exact h.fresh d hin
    · exact h.fresh x hx
  · intro op' hop' k' hk'
    rcases List.mem_append.mp hop' with hop' | hop'
    · exact h.known op' hop' k' hk'
    · rw [List.mem_singleton.mp hop', hop] at hk'
      rw [← Option.some.inj hk', ← lookup_key hd]
      exact h.fresh d hin
  · intro x hx
    rcases mem_upsert_cases h.distinct hx with rfl | ⟨hx, hne⟩
    · exact hsound
    · refine (h.sound x hx).frame_call fun he => hne ?_
      rw [hid, ← Option.some.inj (hop.symm.trans he)]

theorem create_inv {m : Manager} (h : m.Inv) (input : CreateDelegationInput) :
    (step m (.createDelegation input)).Inv := by
  have hkeep : Manager.Inv { m with nextId := m.nextId + 1 } :=
    ⟨h.distinct, fun d hd => Nat.lt_succ_of_lt (h.fresh d hd),
      fun op hop k hk => Nat.lt_succ_of_lt (h.known op hop k hk), h.sound⟩
  rw [step, createDelegation]
  split
  · exact hkeep
  · split
    · exact hkeep
    · split
      · exact hkeep
      · refine ⟨nodup_upsert h.distinct, ?_, hkeep.known, ?_⟩
        · intro d hd
          rcases mem_upsert hd with rfl | hd
          · exact Nat.lt_succ_self _
          · exact hkeep.fresh d hd
        · intro d hd
          rcases mem_upsert hd with rfl | hd
          · -- no call has named the new id
            have hnone : ∀ op ∈ m.calls, op.target ≠ some m.nextId :=
              fun op hop hk => Nat.lt_irrefl _ (h.known op hop _ hk)
            have hnotRevoked : ∀ d, d.id = m.nextId → ¬ Revoked m.calls d := by
              rintro d hid ⟨r, hr, -⟩
              exact hnone _ hr (congrArg some hid)
            refine ⟨?_, ?_, ?_, ?_, ?_, ?_⟩
            · refine ⟨fun hs => ?_, fun hr => absurd hr (hnotRevoked _ rfl)⟩
              dsimp only at hs
              split at hs <;> cases hs
            · intro hs
              dsimp only at hs
              split at hs <;> cases hs
            · intro a ha
              cases ha
            · intro _ _ a _ hcall
              exact absurd rfl (hnone _ hcall)
            · intro hs
              dsimp only at hs ⊢
              split at hs
              · rename_i hchain
                simp [hchain]
              · cases hs
            · intro hs
              dsimp only at hs ⊢
              split at hs
              · cases hs
              · rename_i hchain
                obtain ⟨a, ha⟩ := List.exists_mem_of_ne_nil _ hchain
                exact ⟨a, ha, List.not_mem_nil⟩
          · exact h.sound d hd

theorem note_of_lookup {m : Manager} {k : Uuid} {d : Delegation} (op : DelegationOp)
    (h : lookup Delegation.id k m.delegations = some d) : note op k m = m.calls ++ [op] := by
  rw [note, if_pos]
  exact List.mem_map.mpr ⟨d, mem_of_lookup h, lookup_key h⟩

theorem note_of_lookup_none {m : Manager} {k : Uuid} (op : DelegationOp)
    (h : lookup Delegation.id k m.delegations = none) : note op k m = m.calls := by
  rw [note, if_neg]
  intro hin
  obtain ⟨d, hd, hk⟩ := List.mem_map.mp hin
  have := List.find?_eq_none.mp h d hd
  simp [hk] at this

theorem collect_fst (now : Time) (subjectId : String) (ds : List Delegation) :
    (collect now subjectId ds).1 = ds.map fun d =>
      if d.delegateeId = subjectId ∧ d.status = .active ∧ isExpired now d = true then
        { d with status := .expired }
      else d := by
  induction ds with
  | nil => rfl
  | cons d ds ih =>
    rw [collect, List.map_cons, ← ih]
    by_cases h1 : d.delegateeId = subjectId
    · by_cases h2 : d.status = .active
      · by_cases h3 : isExpired now d = true <;> simp [h1, h2, h3]
      · simp [h1, h2]
    · simp [h1]

theorem mem_collect_snd {now : Time} {subjectId : String} {ds : List Delegation} {p : Permission} :
    p ∈ (collect now subjectId ds).2 ↔
      ∃ d ∈ ds, d.delegateeId = subjectId ∧ p ∈ d.permissions ∧ d.status = .active ∧
        isExpired now d = false := by
  induction ds with
  | nil => simp [collect]
  | cons d ds ih =>
    rw [List.exists_mem_cons_iff, ← ih, collect]
    by_cases h1 : d.delegateeId = subjectId
    · by_cases h2 : d.status = .active
      · by_cases h3 : isExpired now d = true <;> simp [h1, h2, h3]
      · simp [h1, h2]
    · simp [h1]

theorem step_inv_delegation (m : Manager) (op : DelegationOp) (h : m.Inv) : (step m op).Inv := by
  cases op with
  | createDelegation input => exact create_inv h input
  | approveDelegation k a =>
    rw [step, approveDelegation]
    cases hd : lookup Delegation.id k m.delegations with
    | none =>
      rw [note_of_lookup_none _ hd]
      exact h
    | some d =>
      rw [note_of_lookup _ hd]
      refine update_inv h hd (approve_terms m.now a d) rfl ?_
      rw [← lookup_key hd]
      exact approve_sound a (h.sound d (mem_of_lookup hd))
  | revokeDelegation k r =>
    rw [step, revokeDelegation]
    cases hd : lookup Delegation.id k m.delegations with
    | none =>
      rw [note_of_lookup_none _ hd]
      exact h
    | some d =>
      rw [note_of_lookup _ hd]
      refine update_inv h hd (revoke_terms r d) rfl ?_
      rw [← lookup_key hd]
      exact revoke_sound r (h.sound d (mem_of_lookup hd))
  | activePermissionsFor subjectId =>
    rw [step, activePermissionsFor, collect_fst]
    refine ⟨?_, ?_, h.known, ?_⟩
    · rw [List.map_map]
      refine (List.map_congr_left fun d _ => ?_ : _ = m.delegations.map Delegation.id) ▸ h.distinct
      rw [Function.comp_apply]
      split <;> rfl
    · intro d' hd'
      obtain ⟨d, hd, rfl⟩ := List.mem_map.mp hd'
      split
      · exact h.fresh d hd
      · exact h.fresh d hd
    · intro d' hd'
      obtain ⟨d, hd, rfl⟩ := List.mem_map.mp hd'
      split
      · rename_i hcond
        exact expire_sound (h.sound d hd) (by simp [hcond.2.1]) (of_decide_eq_true hcond.2.2)
      · exact h.sound d hd
  | tick ms =>
    refine ⟨h.distinct, h.fresh, h.known, fun d hd => (h.sound d hd).later ?_⟩
    exact Int.le_add_of_nonneg_right (Int.natCast_nonneg ms)

theorem run_inv_delegation (now : Time) (ops : List DelegationOp) :
    (run step (Manager.init now) ops).Inv := by
  refine run_inv (G := fun _ _ => True) (fun m op h _ => step_inv_delegation m op h) ?_
    along_true
  exact ⟨List.nodup_nil, fun _ h => (by cases h), fun _ h => (by cases h), fun _ h => (by cases h)⟩

/-- The clock moves forward, calls are not forgotten and delegations keep their terms. -/
structure Manager.Extends (m m' : Manager) : Prop where
  now : m.now ≤ m'.now
  calls : ∀ op ∈ m.calls, op ∈ m'.calls
  terms : ∀ d ∈ m.delegations, ∃ d' ∈ m'.delegations, d'.terms = d.terms

theorem terms_upsert {ds : List Delegation} (h : (ds.map Delegation.id).Nodup) {k : Uuid}
    {d d' : Delegation} (hd : lookup Delegation.id k ds = some d) (hterms : d'.terms = d.terms) :
    ∀ x ∈ ds, ∃ x' ∈ upsert Delegation.id d' ds, x'.terms = x.terms := by
  intro x hx
  by_cases hid : x.id = d.id
  · have hxd : x = d := by
      have := lookup_of_mem h hx
      rw [hid, lookup_of_mem h (mem_of_lookup hd)] at this
      exact (Option.some.inj this).symm
    exact ⟨d', mem_upsert_self d' ds, hxd ▸ hterms⟩
  · exact ⟨x, mem_upsert_of_ne hx (by rwa [id_of_terms hterms]), rfl⟩

theorem mem_note {m : Manager} (op : DelegationOp) (k : Uuid) :
    ∀ op' ∈ m.calls, op' ∈ note op k m := by
  intro op' hop'
  rw [note]
  split
  · exact List.mem_append_left _ hop'
  · exact hop'

theorem step_extends {m : Manager} (h : m.Inv) (op : DelegationOp) : m.Extends (step m op) := by
  have hself : ∀ d ∈ m.delegations, ∃ d' ∈ m.delegations, d'.terms = d.terms :=
    fun d hd => ⟨d, hd, rfl⟩
  cases op with
  | createDelegation input =>
    refine ⟨Int.le_refl _, fun _ h => h, fun d hd => ?_⟩
    simp only [step, createDelegation]
    split
    · exact hself d hd
    · split
      · exact hself d hd
      · split
        · exact hself d hd
        · exact ⟨d, mem_upsert_of_ne hd (Nat.ne_of_lt (h.fresh d hd)), rfl⟩
  | approveDelegation k a =>
    refine ⟨Int.le_refl _, mem_note _ k, ?_⟩
    simp only [step, approveDelegation]
    cases hd : lookup Delegation.id k m.delegations with
    | none => exact hself
    | some d => exact terms_upsert h.distinct hd (approve_terms m.now a d)
  | revokeDelegation k r =>
    refine ⟨Int.le_refl _, mem_note _ k, ?_⟩
    simp only [step, revokeDelegation]
    cases hd : lookup Delegation.id k m.delegations with
    | none => exact hself
    | some d => exact terms_upsert h.distinct hd (revoke_terms r d)
  | activePermissionsFor subjectId =>
    refine ⟨Int.le_refl _, fun _ h => h, fun d hd => ?_⟩
    simp only [step, activePermissionsFor, collect_fst]
    refine ⟨_, List.mem_map_of_mem hd, ?_⟩
    split <;> rfl
  | tick ms => exact ⟨Int.le_add_of_nonneg_right (Int.natCast_nonneg ms), fun _ h => h, hself⟩

theorem run_extends {m : Manager} (h : m.Inv) (ops : List DelegationOp) :
    m.Extends (run step m ops) := by
  induction ops generalizing m with
  | nil => exact ⟨Int.le_refl _, fun _ h => h, fun d hd => ⟨d, hd, rfl⟩⟩
  | cons op ops ih =>
    have h1 := step_extends h op
    have h2 := ih (step_inv_delegation m op h)
    refine ⟨Int.le_trans h1.now h2.now, fun op' hop' => h2.calls op' (h1.calls op' hop'), ?_⟩
    intro d hd
    obtain ⟨d1, hd1, ht1⟩ := h1.terms d hd
    obtain ⟨d2, hd2, ht2⟩ := h2.terms d1 hd1
    exact ⟨d2, hd2, ht2.trans ht1⟩

theorem revoked_of_terms {calls calls' : List DelegationOp} {d d' : Delegation}
    (hterms : d'.terms = d.terms) (hcalls : ∀ op ∈ calls, op ∈ calls') (h : Revoked calls d) :
    Revoked calls' d' := by
  obtain ⟨r, hr, hmay⟩ := h
  have hmay' : mayRevoke r d'.terms := by
    rw [hterms]
    exact hmay
  exact ⟨r, hcalls _ (by rwa [id_of_terms hterms]), hmay'⟩

/-- A delegation has its terms in every later state. -/
theorem terms_later {m m' : Manager} (hm' : m'.Inv) (hext : m.Extends m') {d d' : Delegation}
    (hd : d ∈ m.delegations) (hd' : d' ∈ m'.delegations) (hid : d'.id = d.id) : d'.terms = d.terms := by
  obtain ⟨x, hx, hterms⟩ := hext.terms d hd
  have hxd : x = d' := by
    have := lookup_of_mem hm'.distinct hx
    rw [id_of_terms hterms, ← hid, lookup_of_mem hm'.distinct hd'] at this
    exact (Option.some.inj this).symm
  rw [← hxd, hterms]

theorem not_grants_later {m m' : Manager} (hm' : m'.Inv) (hext : m.Extends m') {d : Delegation}
    (hd : d ∈ m.delegations) (h : Revoked m.calls d ∨ d.expiresAt ≤ m.now) {d' : Delegation}
    (hd' : d' ∈ m'.delegations) (hid : d'.id = d.id) : ¬ Grants m'.now m'.calls d' := by
  have hterms := terms_later hm' hext hd hd' hid
  intro g
  rcases h with h | h
  · exact g.notRevoked (revoked_of_terms hterms hext.calls h)
  · have hexp : d'.expiresAt = d.expiresAt := by
      show d'.terms.expiresAt = d.terms.expiresAt
      rw [hterms]
    have hlt := g.notExpired
    rw [hexp] at hlt
    exact absurd (Int.le_trans h hext.now) (Int.not_le.mpr hlt)

/-- After every run, `activePermissionsFor` returns the permissions of exactly the delegations to the
subject that grant something now, and a delegation that is revoked or expired never grants again. -/
theorem activePermissionsFor_run (now : Time) (ops : List DelegationOp) :
    (∀ subjectId p,
      p ∈ (activePermissionsFor (run step (Manager.init now) ops).now subjectId
          (run step (Manager.init now) ops).delegations).2 ↔
        ∃ d ∈ (run step (Manager.init now) ops).delegations, d.delegateeId = subjectId ∧
          p ∈ d.permissions ∧
          Grants (run step (Manager.init now) ops).now (run step (Manager.init now) ops).calls d) ∧
    ∀ d ∈ (run step (Manager.init now) ops).delegations,
      Revoked (run step (Manager.init now) ops).calls d ∨
          d.expiresAt ≤ (run step (Manager.init now) ops).now →
        ∀ later, ∀ d' ∈ (run step (Manager.init now) (ops ++ later)).delegations, d'.id = d.id →
          ¬ Grants (run step (Manager.init now) (ops ++ later)).now
            (run step (Manager.init now) (ops ++ later)).calls d' := by
  have hinv := run_inv_delegation now ops
  constructor
  · intro subjectId p
    rw [activePermissionsFor, List.mem_eraseDups, mem_collect_snd]
    constructor
    · rintro ⟨d, hd, hsubject, hp, hactive⟩
      exact ⟨d, hd, hsubject, hp, (hinv.sound d hd).grants_iff.mpr hactive⟩
    · rintro ⟨d, hd, hsubject, hp, hgrants⟩
      exact ⟨d, hd, hsubject, hp, (hinv.sound d hd).grants_iff.mp hgrants⟩
  · intro d hd h later d' hd' hid
    have hlater := run_inv_delegation now (ops ++ later)
    rw [run_append] at hd' hlater ⊢
    exact not_grants_later hlater (run_extends hinv later) hd h hd' hid

/-- A delegation with one approver, from its creation to its revocation. -/
example :
    let created : DelegationOp :=
      .createDelegation ⟨"alice", "bob", [.walletSign], 1000, some ["carol", "bob"]⟩
    let approved : List DelegationOp := [created, .approveDelegation 0 "carol"]
    let permissions := fun ops =>
      let m := run step (Manager.init 0) ops
      (activePermissionsFor m.now "bob" m.delegations).2
    permissions [created] = [] ∧ permissions approved = [.walletSign] ∧
      permissions (approved ++ [.tick 1000]) = [] ∧
      permissions (approved ++ [.revokeDelegation 0 "alice", .approveDelegation 0 "carol"]) = [] := by
  decide

end Authorization
end TradeCore
