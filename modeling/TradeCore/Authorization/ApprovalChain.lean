import TradeCore.Authorization.Delegation

/-!
# TradeCore.Authorization.ApprovalChain

Who has approved an active delegation. The delegatee is taken out of the chain before the chain is stored,
and what is left decides the first status: a chain of the delegatee alone leaves nobody to ask.
-/

namespace TradeCore
namespace Authorization

open Lib

/-- A member of the chain who is not the delegatee has approved. -/
def ApprovedByOther (input : CreateDelegationInput) (d : Delegation) : Prop :=
  ∃ a ∈ input.approvalChain.getD [], a ≠ input.delegateeId ∧ a ∈ d.approvals

theorem mem_approvalChainOf {input : CreateDelegationInput} {a : String} :
    a ∈ approvalChainOf input ↔ a ∈ input.approvalChain.getD [] ∧ a ≠ input.delegateeId := by
  simp [approvalChainOf, List.mem_eraseDups]

theorem createDelegation_ok {now : Time} {id : Uuid} {input : CreateDelegationInput}
    {ds : List Delegation} {d : Delegation} (h : (createDelegation now id input ds).2 = .ok d) :
    d ∈ (createDelegation now id input ds).1 ∧ d.approvalChain = approvalChainOf input ∧
      d.approvals = [] ∧ (approvalChainOf input = [] → d.status = .active) := by
  unfold createDelegation at h ⊢
  split at h
  · cases h
  · rename_i htarget
    split at h
    · cases h
    · rename_i hpermissions
      split at h
      · cases h
      · rename_i hexpiry
        rw [if_neg htarget, if_neg hpermissions, if_neg hexpiry]
        cases h
        exact ⟨mem_upsert_self _ _, rfl, rfl, fun hchain => if_pos hchain⟩

/-- Whatever was called before, a delegation is active in no later state without the approval of a member of
its chain other than the delegatee, exactly when the chain has such a member. -/
theorem active_approved_iff (now : Time) (ops : List DelegationOp) (input : CreateDelegationInput)
    (d : Delegation)
    (hcreated : (createDelegation (run step (Manager.init now) ops).now
      (run step (Manager.init now) ops).nextId input
      (run step (Manager.init now) ops).delegations).2 = .ok d) :
    (∀ later, ∀ d' ∈ (run step (Manager.init now)
        (ops ++ .createDelegation input :: later)).delegations, d'.id = d.id →
      d'.status = .active → ApprovedByOther input d') ↔
    ∃ a ∈ input.approvalChain.getD [], a ≠ input.delegateeId := by
  obtain ⟨hin, hstored, hnone, hactive⟩ := createDelegation_ok hcreated
  have hrun (later : List DelegationOp) :
      run step (Manager.init now) (ops ++ .createDelegation input :: later) =
        run step (step (run step (Manager.init now) ops) (.createDelegation input)) later :=
    run_append _ _ _
  constructor
  · intro h
    by_contra hother
    have hempty : approvalChainOf input = [] := by
      refine List.eq_nil_iff_forall_not_mem.mpr fun a ha => hother ⟨a, mem_approvalChainOf.mp ha⟩
    obtain ⟨a, -, -, ha⟩ := h [] d (by rw [hrun]; exact hin) rfl (hactive hempty)
    rw [hnone] at ha
    cases ha
  · rintro ⟨a, ha, hne⟩ later d' hd' hid hstatus
    have hlater := run_inv_delegation now (ops ++ .createDelegation input :: later)
    have hcreate : (step (run step (Manager.init now) ops) (.createDelegation input)).Inv :=
      step_inv_delegation _ _ (run_inv_delegation now ops)
    have happrovals := (hlater.sound d' hd').active hstatus
    rw [hrun] at hd' hlater
    have hterms := terms_later hlater (run_extends hcreate later) hin hd' hid
    have hkept : d'.approvalChain = approvalChainOf input := by
      rw [← hstored]
      show d'.terms.approvalChain = d.terms.approvalChain
      rw [hterms]
    refine ⟨a, ha, hne, happrovals a ?_⟩
    rw [hkept]
    exact mem_approvalChainOf.mpr ⟨ha, hne⟩

/-- What the delegator asks for with a chain. -/
def walletSigning (chain : List String) : CreateDelegationInput :=
  ⟨"alice", "bob", [.walletSign], 1000, some chain⟩

def requested (chain : List String) : Delegation :=
  ⟨0, "alice", "bob", [.walletSign], 1000, if chain = [] then .active else .pending, chain, [], 0⟩

/-- A chain of the delegatee alone: the delegation is active at once. -/
theorem own_chain_active :
    (createDelegation 0 0 (walletSigning ["bob"]) []).2 = .ok (requested []) ∧
      (requested []).status = .active ∧ ¬ ApprovedByOther (walletSigning ["bob"]) (requested []) ∧
      (activePermissionsFor 0 "bob" (createDelegation 0 0 (walletSigning ["bob"]) []).1).2 =
        [.walletSign] := by
  refine ⟨by decide, rfl, ?_, by decide⟩
  rintro ⟨a, -, -, ha⟩
  cases ha

theorem carol_approves :
    ApprovedByOther (walletSigning ["carol", "bob"])
      (addApproval "carol" (requested ["carol"])) :=
  (active_approved_iff 0 [] (walletSigning ["carol", "bob"]) (requested ["carol"]) (by decide)).mpr
    ⟨"carol", by decide, by decide⟩ [.approveDelegation 0 "carol"] _ (by decide) rfl (by decide)

end Authorization
end TradeCore
