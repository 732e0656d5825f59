import Mathlib.Algebra.BigOperators.Group.Finset.Basic
import Mathlib.Algebra.Order.BigOperators.Group.Finset
import Mathlib.Algebra.Ring.Nat
import TradeCore.Common
import TradeCore.Lib.Table

/-!
# TradeCore.Authorization.StellarSigner

The signer configurations of Stellar accounts and `verify`, which adds up the weights of the signatures it
is given. It adds them one by one, so that a signer who signs twice counts twice;
`verify_duplicates_iff` says what of the list of signatures its answer does not depend on.
-/

namespace TradeCore
namespace Authorization

open Lib

inductive SignatureLevel where
  | low
  | medium
  | high
  deriving DecidableEq, Repr

structure Signer where
  key : String
  weight : Nat
  deriving DecidableEq, Repr

structure StellarSignerConfig where
  accountId : String
  thresholdLow : Nat
  thresholdMedium : Nat
  thresholdHigh : Nat
  signers : List Signer
  deriving DecidableEq, Repr

structure CollectedSignature where
  key : String
  deriving DecidableEq, Repr

structure SignatureVerification where
  valid : Bool
  weight : Nat
  required : Nat
  missing : Nat
  level : SignatureLevel
  deriving DecidableEq, Repr

/-- The map of the accounts. -/
abbrev StellarSignerService := String → Option StellarSignerConfig

namespace StellarSignerService

def init : StellarSignerService := fun _ => none

def registerAccount (accounts : StellarSignerService) (config : StellarSignerConfig) :
    StellarSignerService :=
  Function.update accounts config.accountId (some config)

def requiredWeight (accounts : StellarSignerService) (accountId : String) (level : SignatureLevel) :
    Except HttpError Nat :=
  match accounts accountId with
  | none =>
    .error (.badRequest ("No signer configuration registered for account " ++ accountId))
  | some account =>
    match level with
    | .low => .ok account.thresholdLow
    | .medium => .ok account.thresholdMedium
    | .high => .ok account.thresholdHigh

/-- `weights.get(key) ?? 0`: of two signers with one key the map keeps the later one. -/
def weightOf (account : StellarSignerConfig) (key : String) : Nat :=
  ((lookup Signer.key key account.signers.reverse).map Signer.weight).getD 0

def totalWeight (accounts : StellarSignerService) (accountId : String)
    (signatures : List CollectedSignature) : Nat :=
  match accounts accountId with
  | none => 0
  | some account => signatures.foldl (fun sum signature => sum + weightOf account signature.key) 0

def verify (accounts : StellarSignerService) (accountId : String) (signatures : List CollectedSignature)
    (level : SignatureLevel) : Except HttpError SignatureVerification :=
  match accounts.requiredWeight accountId level with
  | .error e => .error e
  | .ok required =>
    let weight := accounts.totalWeight accountId signatures
    .ok ⟨decide (required ≤ weight), weight, required, required - weight, level⟩

/-! ## Duplicates -/

def signatureWeight (accounts : StellarSignerService) (accountId : String)
    (signature : CollectedSignature) : Nat :=
  match accounts accountId with
  | none => 0
  | some account => weightOf account signature.key

variable {accounts : StellarSignerService} {accountId : String} {signatures : List CollectedSignature}
  {level : SignatureLevel}

theorem totalWeight_eq_sum (accounts : StellarSignerService) (accountId : String)
    (signatures : List CollectedSignature) :
    accounts.totalWeight accountId signatures =
      (signatures.map (accounts.signatureWeight accountId)).sum := by
  unfold totalWeight signatureWeight
  cases accounts accountId with
  | none => simp
  | some account =>
    dsimp only
    rw [List.sum_eq_foldl, List.foldl_map]

/-- The answers to two lists of signatures are the same exactly when their weights are. -/
theorem verify_eq_iff {signatures' : List CollectedSignature} :
    accounts.verify accountId signatures level = accounts.verify accountId signatures' level ↔
      accounts.totalWeight accountId signatures = accounts.totalWeight accountId signatures' := by
  constructor
  · intro h
    cases haccount : accounts accountId with
    | none => simp only [totalWeight, haccount]
    | some account =>
      have hrequired : ∃ required, accounts.requiredWeight accountId level = .ok required := by
        rw [requiredWeight, haccount]
        cases level <;> exact ⟨_, rfl⟩
      obtain ⟨required, hrequired⟩ := hrequired
      simp only [verify, hrequired] at h
      exact congrArg SignatureVerification.weight (Except.ok.inj h)
  · intro h
    simp only [verify, h]

theorem sum_dedup_iff {α : Type} [DecidableEq α] (l : List α) (w : α → Nat) :
    (l.dedup.map w).sum = (l.map w).sum ↔ ∀ a, w a ≠ 0 → l.count a ≤ 1 := by
  have honce : (l.dedup.map w).sum = ∑ a ∈ l.toFinset, w a := by
    rw [← List.sum_toFinset w l.nodup_dedup]
    congr 1
    ext a
    simp
  have hall : (l.map w).sum = ∑ a ∈ l.toFinset, l.count a * w a := Finset.sum_list_map_count l w
  have hpos : ∀ a ∈ l.toFinset, 0 < l.count a :=
    fun a ha => List.count_pos_iff.mpr (List.mem_toFinset.mp ha)
  rw [honce, hall, Finset.sum_eq_sum_iff_of_le fun a ha => Nat.le_mul_of_pos_left _ (hpos a ha)]
  constructor
  · intro h a hw
    by_cases ha : a ∈ l.toFinset
    · have heq : 1 * w a = l.count a * w a := by rw [one_mul, ← h a ha]
      exact (Nat.eq_of_mul_eq_mul_right (Nat.pos_of_ne_zero hw) heq).ge
    · rw [List.count_eq_zero_of_not_mem fun hin => ha (List.mem_toFinset.mpr hin)]
      exact Nat.zero_le 1
  · intro h a ha
    by_cases hw : w a = 0
    · rw [hw, Nat.mul_zero]
    · rw [Nat.le_antisymm (h a hw) (hpos a ha), Nat.one_mul]

/-- The answer never depends on the order of the signatures. It is the one to the signatures without
repetitions exactly when no signature of a weight is repeated, and signing once more changes nothing
exactly when no signature has a weight. -/
theorem verify_duplicates_iff (accounts : StellarSignerService) (accountId : String)
    (signatures : List CollectedSignature) (level : SignatureLevel) :
    (∀ signatures', signatures'.Perm signatures →
      accounts.verify accountId signatures' level = accounts.verify accountId signatures level) ∧
    (accounts.verify accountId signatures.dedup level = accounts.verify accountId signatures level ↔
      ∀ signature, accounts.signatureWeight accountId signature ≠ 0 → signatures.count signature ≤ 1) ∧
    ((∀ signature ∈ signatures, accounts.verify accountId (signature :: signatures) level =
        accounts.verify accountId signatures level) ↔
      ∀ signature ∈ signatures, accounts.signatureWeight accountId signature = 0) := by
  refine ⟨fun signatures' hperm => ?_, ?_, forall₂_congr fun signature _ => ?_⟩
  · rw [verify_eq_iff, totalWeight_eq_sum, totalWeight_eq_sum]
    exact (hperm.map _).sum_eq
  · rw [verify_eq_iff, totalWeight_eq_sum, totalWeight_eq_sum]
    exact sum_dedup_iff signatures _
  · rw [verify_eq_iff, totalWeight_eq_sum, totalWeight_eq_sum, List.map_cons, List.sum_cons]
    exact Nat.add_eq_right

def escrowAccount : StellarSignerConfig :=
  ⟨"GESCROW", 1, 2, 3, [⟨"GKEY1", 1⟩, ⟨"GKEY2", 2⟩, ⟨"GKEY3", 3⟩]⟩

/-- One signer of weight 1 reaches the threshold of 3. -/
theorem one_signer_thrice :
    (init.registerAccount escrowAccount).verify "GESCROW" [⟨"GKEY1"⟩, ⟨"GKEY1"⟩, ⟨"GKEY1"⟩] .high =
        .ok ⟨true, 3, 3, 0, .high⟩ ∧
      (init.registerAccount escrowAccount).verify "GESCROW" [⟨"GKEY1"⟩] .high =
        .ok ⟨false, 1, 3, 2, .high⟩ :=
  ⟨by decide, by decide⟩

end StellarSignerService

end Authorization
end TradeCore
