import TradeCore.Authorization.PolicyEngine

/-!
# TradeCore.Authorization.Registration

The order in which policies are registered. A policy takes the place of the one that was registered under
its id before, so of the policies of an id the last one counts (`lookup_registerPolicies`), and nothing
else of the order reaches the decision (`decision_of_last`).
-/

namespace TradeCore
namespace Authorization

open Lib

/-- The policy that is registered last under an id. -/
def lastUnder (id : String) (policies : List Policy) : Option Policy :=
  lookup Policy.id id policies.reverse

theorem lastUnder_cons (id : String) (p : Policy) (ps : List Policy) :
    lastUnder id (p :: ps) = (lastUnder id ps).or (if p.id = id then some p else none) := by
  rw [lastUnder, lookup, List.reverse_cons, List.find?_append]
  by_cases h : p.id = id <;> simp [lastUnder, lookup, h]

theorem lookup_registerPolicies (engine : PolicyEngine) (ps : List Policy) (id : String) :
    lookup Policy.id id (registerPolicies engine ps).policies =
      (lastUnder id ps).or (lookup Policy.id id engine.policies) := by
  induction ps generalizing engine with
  | nil => rfl
  | cons p ps ih =>
    have hstep : registerPolicies engine (p :: ps) = registerPolicies (registerPolicy engine p) ps := rfl
    rw [hstep, ih, lastUnder_cons, registerPolicy, lookup_upsert]
    by_cases h : p.id = id <;> simp [h]

theorem mem_registerPolicies {engine : PolicyEngine} {ps : List Policy} {p : Policy} :
    p ∈ (registerPolicies engine ps).policies ↔
      (lastUnder p.id ps).or (lookup Policy.id p.id engine.policies) = some p := by
  rw [← lookup_registerPolicies]
  exact ⟨fun h => lookup_of_mem (registerPolicies engine ps).distinct h, mem_of_lookup⟩

theorem registerPolicies_counters (engine : PolicyEngine) (ps : List Policy) :
    (registerPolicies engine ps).actionCounters = engine.actionCounters := by
  induction ps generalizing engine with
  | nil => rfl
  | cons p ps ih => exact ih (registerPolicy engine p)

theorem respects_congr {e e' : PolicyEngine} (h : e.actionCounters = e'.actionCounters) (now : Time)
    (request : AuthorizationRequest) (c : PolicyCondition) :
    Respects e now request c ↔ Respects e' now request c := by
  cases c with
  | rateLimit c => simp only [Respects, RespectsRateLimit, recentActionCount, h]
  | timeWindow c => exact Iff.rfl
  | transactionLimit c => exact Iff.rfl
  | tokenRestriction c => exact Iff.rfl

theorem allowed_congr {e e' : PolicyEngine} (hcounters : e.actionCounters = e'.actionCounters)
    (hpolicies : ∀ p, p ∈ e.policies ↔ p ∈ e'.policies) (now : Time) (request : AuthorizationRequest) :
    (evaluate e now request).allowed = (evaluate e' now request).allowed := by
  have hdenied : (evaluate e now request).allowed = false ↔ (evaluate e' now request).allowed = false := by
    simp only [evaluate_denied_iff, mem_matchedPolicies, hpolicies,
      respects_congr hcounters now request]
  exact Bool.eq_iff_iff.mpr (by simpa using not_congr hdenied)

theorem lastUnder_perm {ps qs : List Policy} (hperm : ps.Perm qs)
    (hids : ∀ p ∈ ps, ∀ q ∈ ps, p.id = q.id → p = q) (id : String) : lastUnder id ps = lastUnder id qs := by
  have hmem {p : Policy} {l : List Policy} (h : lastUnder id l = some p) : p ∈ l ∧ p.id = id :=
    ⟨List.mem_reverse.mp (mem_of_lookup h), lookup_key h⟩
  have hnone {l : List Policy} (h : lastUnder id l = none) : ∀ p ∈ l, p.id ≠ id := by
    intro p hp
    simpa using List.find?_eq_none.mp h p (List.mem_reverse.mpr hp)
  cases hp : lastUnder id ps with
  | none =>
    cases hq : lastUnder id qs with
    | none => rfl
    | some q => exact absurd (hmem hq).2 (hnone hp q (hperm.mem_iff.mpr (hmem hq).1))
  | some p =>
    cases hq : lastUnder id qs with
    | none => exact absurd (hmem hp).2 (hnone hq p (hperm.mem_iff.mp (hmem hp).1))
    | some q =>
      rw [hids p (hmem hp).1 q (hperm.mem_iff.mpr (hmem hq).1) ((hmem hp).2.trans (hmem hq).2.symm)]

/-- Two orders of registration lead to one decision if they end with the same policy under every id, as
all orders do when no two policies share one; and a matching `deny` policy denies. -/
theorem decision_of_last (engine : PolicyEngine) (now : Time) (request : AuthorizationRequest)
    (ps qs : List Policy) (hperm : ps.Perm qs)
    (hlast : (∀ p ∈ ps, ∀ q ∈ ps, p.id = q.id → p = q) ∨ ∀ id, lastUnder id ps = lastUnder id qs) :
    (evaluate (registerPolicies engine ps) now request).allowed =
        (evaluate (registerPolicies engine qs) now request).allowed ∧
      ∀ p ∈ (registerPolicies engine ps).policies, p.effect = .deny → appliesTo p request = true →
        matchesConditions (registerPolicies engine ps) now p.conditions request
          (requestTime request now) = true →
        (evaluate (registerPolicies engine ps) now request).allowed = false := by
  have hsame : ∀ id, lastUnder id ps = lastUnder id qs := hlast.elim (lastUnder_perm hperm) id
  constructor
  · refine allowed_congr ?_ (fun p => ?_) now request
    · rw [registerPolicies_counters, registerPolicies_counters]
    · rw [mem_registerPolicies, mem_registerPolicies, hsame]
  · intro p hp hdeny happlies hmatches
    refine evaluate_denied_iff.mpr ⟨p, List.mem_filter.mpr ⟨hp, ?_⟩, hdeny⟩
    rw [happlies, hmatches]
    rfl

/-- An `allow` policy without conditions. -/
def allowUnder (id : String) : Policy := ⟨id, .allow, [], none⟩

/-- Of two policies with one id the one registered last decides. -/
theorem shared_id_order :
    [allowUnder "large-trades", largeTrades].Perm [largeTrades, allowUnder "large-trades"] ∧
      (evaluate (registerPolicies .init [allowUnder "large-trades", largeTrades]) 0
        (tradeOf 500)).allowed = false ∧
      (evaluate (registerPolicies .init [largeTrades, allowUnder "large-trades"]) 0
        (tradeOf 500)).allowed = true :=
  ⟨.swap _ _ _, by decide +kernel, by decide +kernel⟩

theorem own_id_order :
    (evaluate (registerPolicies .init [allowUnder "trades", largeTrades]) 0 (tradeOf 500)).allowed =
        (evaluate (registerPolicies .init [largeTrades, allowUnder "trades"]) 0 (tradeOf 500)).allowed ∧
      (evaluate (registerPolicies .init [allowUnder "trades", largeTrades]) 0
        (tradeOf 500)).allowed = false := by
  obtain ⟨horder, hdeny⟩ := decision_of_last .init 0 (tradeOf 500) [allowUnder "trades", largeTrades]
    [largeTrades, allowUnder "trades"] (.swap _ _ _) (.inl (by decide))
  exact ⟨horder, hdeny largeTrades (by decide) rfl rfl (by decide +kernel)⟩

end Authorization
end TradeCore
