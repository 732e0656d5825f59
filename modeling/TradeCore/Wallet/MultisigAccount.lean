import TradeCore.Wallet.Primary
import Mathlib.Algebra.GroupWithZero.Nat

/-!
# TradeCore.Wallet.MultisigAccount

`buildEnableMultisigTx` and `buildRotateKeyTx`: the checks of a request against the account as the
network reports it, the `SetOptions` operations that are built, and what the network makes of them.

An operation that would give an account more than 20 signers fails, and with it the whole
transaction. A transaction that goes through leaves every threshold within reach exactly when the
thresholds it does not set are (`enable_satisfiable`, `rotate_satisfiable`): the services check only
the thresholds of the request, and a rotation checks none.
-/

namespace TradeCore
namespace Wallets

open Lib

/-- A signer other than the master key. -/
structure Signer where
  key : String
  weight : Nat
  deriving DecidableEq, Repr

structure Thresholds where
  low : Nat
  med : Nat
  high : Nat
  deriving DecidableEq, Repr

/-- An account of the network. A signer of weight 0 is none, and the master key is no signer. -/
structure Account where
  accountId : String
  masterWeight : Nat
  thresholds : Thresholds
  signers : List Signer
  nodup : (signers.map Signer.key).Nodup
  foreign : accountId ∉ signers.map Signer.key
  positive : ∀ s ∈ signers, 0 < s.weight

structure AccountSignersSummary where
  accountId : String
  masterWeight : Nat
  thresholds : Thresholds
  signers : List Signer
  deriving DecidableEq, Repr

/-- What Horizon answers about accounts: the one asked for. -/
structure Horizon where
  account : String → Option Account
  sequence : String → Option Nat
  accountId : ∀ k a, account k = some a → a.accountId = k

def maxSigners : Nat := 20

def defaultMultisigTxTimeoutSecs : Nat := 3600

structure SignerEntryDto where
  publicKey : String
  weight : Nat
  deriving DecidableEq, Repr

/-- A request as its validators let it through. -/
structure EnableMultisigDto where
  signers : List SignerEntryDto
  masterWeight : Option Nat
  lowThreshold : Option Nat
  medThreshold : Option Nat
  highThreshold : Option Nat
  signers_length : 1 ≤ signers.length ∧ signers.length ≤ maxSigners
  signers_weight : ∀ s ∈ signers, s.weight ≤ 255
  masterWeight_le : ∀ w ∈ masterWeight, w ≤ 255
  lowThreshold_le : ∀ t ∈ lowThreshold, t ≤ 255
  medThreshold_le : ∀ t ∈ medThreshold, t ≤ 255
  highThreshold_le : ∀ t ∈ highThreshold, t ≤ 255

structure RotateKeyDto where
  oldSignerPublicKey : String
  newSignerPublicKey : String
  weight : Option Nat
  weight_bounds : ∀ w ∈ weight, 1 ≤ w ∧ w ≤ 255

structure SetOptions where
  masterWeight : Option Nat
  lowThreshold : Option Nat
  medThreshold : Option Nat
  highThreshold : Option Nat
  signer : Option Signer
  deriving DecidableEq, Repr

/-- The transaction whose XDR is returned, and the summary that goes with it. -/
structure UnsignedTx where
  source : String
  sequence : Nat
  fee : String
  operations : List SetOptions
  timeoutSecs : Nat
  summary : String
  deriving DecidableEq, Repr

/-! ## The requests -/

def unreachable : HttpError :=
  .serviceUnavailable "Unable to reach the Stellar network or account not found"

/-- Horizon lists the master key among the signers. -/
def getAccountSigners (h : Horizon) (accountId : String) : Except HttpError AccountSignersSummary :=
  match h.account accountId with
  | none => .error unreachable
  | some a =>
    let signers := a.signers ++ [⟨a.accountId, a.masterWeight⟩]
    let master := signers.find? fun s => s.key = a.accountId
    .ok ⟨a.accountId, (master.map Signer.weight).getD 0, a.thresholds, signers⟩

/-- A signer is set to a weight; the weight 0 takes it out. -/
def setSigner (signers : List Signer) (s : Signer) : List Signer :=
  if 0 < s.weight then upsert Signer.key s signers else signers.filter fun x => x.key ≠ s.key

def computeResultingSigners (existing : List Signer) (accountId : String)
    (additions : List SignerEntryDto) : List Signer :=
  let map := existing.foldl (fun map s =>
    if s.key = accountId then map
    else if 0 < s.weight then upsert Signer.key s map else map) []
  additions.foldl (fun map a => setSigner map ⟨a.publicKey, a.weight⟩) map

def assertThresholdSatisfiable (label : String) (threshold : Option Nat) (totalWeight : Nat) :
    Except HttpError Unit :=
  match threshold with
  | none => .ok ()
  | some t =>
    if totalWeight < t then .error (.badRequest
      s!"{label} threshold ({t}) exceeds the total available signing weight ({totalWeight}); the account would be unusable")
    else .ok ()

def loadSourceAccount (h : Horizon) (publicKey : String) : Except HttpError Nat :=
  match h.sequence publicKey with
  | none => .error unreachable
  | some sequence => .ok sequence

def signerOp (s : Signer) : SetOptions := ⟨none, none, none, none, some s⟩

/-- The operation for the master weight and the thresholds, left out when the request names none. -/
def thresholdOp (dto : EnableMultisigDto) : List SetOptions :=
  let op : SetOptions :=
    ⟨dto.masterWeight, dto.lowThreshold, dto.medThreshold, dto.highThreshold, none⟩
  if op = ⟨none, none, none, none, none⟩ then [] else [op]

def enableSummary (current : AccountSignersSummary) (dto : EnableMultisigDto) : String :=
  let count := dto.signers.length
  let low := dto.lowThreshold.getD current.thresholds.low
  let med := dto.medThreshold.getD current.thresholds.med
  let high := dto.highThreshold.getD current.thresholds.high
  s!"Enable multisig: {count} signer(s), thresholds L/M/H = {low}/{med}/{high}"

def buildEnableMultisigTx (ws : WalletTable) (h : Horizon) (walletId userId : Uuid)
    (dto : EnableMultisigDto) : Except HttpError UnsignedTx := do
  let wallet ← ws.findOne walletId userId
  if dto.signers.any fun s => s.publicKey = wallet.publicKey then
    .error (.badRequest
      "The account key cannot be added as a signer of itself; use masterWeight instead")
  else
    let current ← getAccountSigners h wallet.publicKey
    let resulting := computeResultingSigners current.signers current.accountId dto.signers
    let size := resulting.length
    if maxSigners < size then
      .error (.badRequest
        s!"Resulting signer count ({size}) exceeds the Stellar limit of {maxSigners}")
    else
      let effectiveMaster := dto.masterWeight.getD current.masterWeight
      let totalWeight := effectiveMaster + (resulting.map Signer.weight).sum
      if totalWeight < 1 then
        .error (.badRequest
          "Resulting configuration has zero total signing weight and would lock the account")
      else
        assertThresholdSatisfiable "low" dto.lowThreshold totalWeight
        assertThresholdSatisfiable "medium" dto.medThreshold totalWeight
        assertThresholdSatisfiable "high" dto.highThreshold totalWeight
        let sequence ← loadSourceAccount h wallet.publicKey
        .ok {
          source := wallet.publicKey
          sequence := sequence + 1
          fee := "100"
          operations := thresholdOp dto ++ dto.signers.map fun s => signerOp ⟨s.publicKey, s.weight⟩
          timeoutSecs := defaultMultisigTxTimeoutSecs
          summary := enableSummary current dto }

def buildRotateKeyTx (ws : WalletTable) (h : Horizon) (walletId userId : Uuid) (dto : RotateKeyDto) :
    Except HttpError UnsignedTx := do
  let wallet ← ws.findOne walletId userId
  let current ← getAccountSigners h wallet.publicKey
  let old := dto.oldSignerPublicKey
  let new := dto.newSignerPublicKey
  if old = current.accountId then
    .error (.badRequest
      "The master key cannot be rotated through this endpoint; use enable-multisig with masterWeight")
  else match current.signers.find? fun s => s.key = old with
  | none => .error (.badRequest s!"{old} is not a signer on this account")
  | some outgoing =>
    if new = old then .error (.badRequest "The new signer must differ from the old signer")
    else if current.signers.any fun s => s.key = new then
      .error (.conflict s!"{new} is already a signer on this account")
    else
      let weight := dto.weight.getD outgoing.weight
      let sequence ← loadSourceAccount h wallet.publicKey
      .ok {
        source := wallet.publicKey
        sequence := sequence + 1
        fee := "100"
        operations := [signerOp ⟨new, weight⟩, signerOp ⟨old, 0⟩]
        timeoutSecs := defaultMultisigTxTimeoutSecs
        summary := s!"Rotate signer {old} → {new} (weight {weight})" }

/-! ## The network -/

theorem nodup_setSigner {l : List Signer} (s : Signer) (h : (l.map Signer.key).Nodup) :
    ((setSigner l s).map Signer.key).Nodup := by
  unfold setSigner
  split
  · exact nodup_upsert h
  · exact h.sublist (List.filter_sublist.map _)

theorem mem_setSigner {l : List Signer} {s x : Signer} (h : x ∈ setSigner l s) :
    x ∈ l ∨ x = s ∧ 0 < s.weight := by
  unfold setSigner at h
  split at h
  · rename_i hw
    exact (mem_upsert h).elim (fun h => .inr ⟨h, hw⟩) .inl
  · exact .inl (List.mem_filter.mp h).1

/-- A signer that is not the master key is set on the account. -/
def Account.set (a : Account) (s : Signer) (h : s.key ≠ a.accountId) : Account :=
  { a with
    signers := setSigner a.signers s
    nodup := nodup_setSigner s a.nodup
    foreign := by
      intro hm
      obtain ⟨x, hx, hk⟩ := List.mem_map.mp hm
      rcases mem_setSigner hx with hx | ⟨rfl, -⟩
      · exact a.foreign (List.mem_map.mpr ⟨x, hx, hk⟩)
      · exact h hk
    positive := by
      intro x hx
      rcases mem_setSigner hx with hx | ⟨rfl, hw⟩
      · exact a.positive x hx
      · exact hw }

/-- What the network does with one operation; `none` when it refuses it: the master key is no signer,
and a new signer needs room. -/
def applyOp (a : Account) (op : SetOptions) : Option Account :=
  let a' : Account := { a with
    masterWeight := op.masterWeight.getD a.masterWeight
    thresholds := ⟨op.lowThreshold.getD a.thresholds.low, op.medThreshold.getD a.thresholds.med,
      op.highThreshold.getD a.thresholds.high⟩ }
  match op.signer with
  | none => some a'
  | some s =>
    if h : s.key ≠ a.accountId then
      if 0 < s.weight ∧ s.key ∉ a.signers.map Signer.key ∧ maxSigners ≤ a.signers.length then none
      else some (a'.set s h)
    else none

def applyOps (a : Account) : List SetOptions → Option Account
  | [] => some a
  | op :: ops => (applyOp a op).bind fun a' => applyOps a' ops

/-- The account after a transaction: one that fails has no effect. -/
def Account.after (a : Account) (ops : List SetOptions) : Account := (applyOps a ops).getD a

/-- The weight of the master key and of all signers together. -/
def Account.total (a : Account) : Nat := a.masterWeight + (a.signers.map Signer.weight).sum

/-- Every threshold can be met and the signers are within the limit. -/
def Account.Satisfiable (a : Account) : Prop :=
  a.thresholds.low ≤ a.total ∧ a.thresholds.med ≤ a.total ∧ a.thresholds.high ≤ a.total ∧
    a.signers.length ≤ maxSigners

instance (a : Account) : Decidable a.Satisfiable := inferInstanceAs (Decidable (_ ∧ _))

/-! ## What a request that is accepted has passed -/

section Accepted

variable {ws : WalletTable} {h : Horizon} {walletId userId : Uuid}

theorem foldl_existing {accountId : String} (l acc : List Signer)
    (hpos : ∀ s ∈ l, 0 < s.weight) (hforeign : accountId ∉ l.map Signer.key)
    (hnodup : ((acc ++ l).map Signer.key).Nodup) :
    l.foldl (fun map s => if s.key = accountId then map
      else if 0 < s.weight then upsert Signer.key s map else map) acc = acc ++ l := by
  induction l generalizing acc with
  | nil => simp
  | cons s l ih =>
    rw [List.map_cons, List.mem_cons, not_or] at hforeign
    have hne : s.key ≠ accountId := fun e => hforeign.1 e.symm
    have hnew : s.key ∉ acc.map Signer.key := by
      rw [List.map_append, List.nodup_append] at hnodup
      exact fun hm => hnodup.2.2 s.key hm s.key (by simp) rfl
    rw [List.foldl_cons, if_neg hne, if_pos (hpos s List.mem_cons_self), upsert_of_not_mem hnew,
      ih (acc ++ [s]) (fun x hx => hpos x (List.mem_cons_of_mem _ hx)) hforeign.2 (by simpa using hnodup),
      List.append_assoc]
    rfl

/-- The signers of the account with the changes of the request. -/
def Account.changed (a : Account) (l : List SignerEntryDto) : List Signer :=
  l.foldl (fun map s => setSigner map ⟨s.publicKey, s.weight⟩) a.signers

theorem computeResultingSigners_eq (a : Account) (l : List SignerEntryDto) :
    computeResultingSigners (a.signers ++ [⟨a.accountId, a.masterWeight⟩]) a.accountId l =
      a.changed l := by
  unfold computeResultingSigners
  rw [List.foldl_append, foldl_existing a.signers [] a.positive a.foreign (by simpa using a.nodup)]
  simp [Account.changed]

theorem getAccountSigners_ok {k : String} {current : AccountSignersSummary}
    (hs : getAccountSigners h k = .ok current) :
    ∃ a, h.account k = some a ∧ current.accountId = k ∧ current.masterWeight = a.masterWeight ∧
      current.signers = a.signers ++ [⟨a.accountId, a.masterWeight⟩] := by
  unfold getAccountSigners at hs
  split at hs
  · cases hs
  · rename_i a ha
    cases hs
    refine ⟨a, ha, h.accountId k a ha, ?_, rfl⟩
    have hnone : a.signers.find? (fun s => s.key = a.accountId) = none := by
      rw [List.find?_eq_none]
      intro s hs hk
      exact a.foreign (List.mem_map.mpr ⟨s, hs, by simpa using hk⟩)
    simp [List.find?_append, hnone]

theorem assertThresholdSatisfiable_ok {label : String} {t : Option Nat} {total : Nat} {x : Unit}
    (h : assertThresholdSatisfiable label t total = .ok x) : ∀ t' ∈ t, t' ≤ total := by
  unfold assertThresholdSatisfiable at h
  split at h
  · intro t' ht'
    cases ht'
  · split at h
    · cases h
    · rename_i hle
      intro t' ht'
      cases ht'
      omega

/-- The weight an account has after the changes of a request. -/
def EnableMultisigDto.total (dto : EnableMultisigDto) (a : Account) : Nat :=
  dto.masterWeight.getD a.masterWeight + ((a.changed dto.signers).map Signer.weight).sum

/-- What is known of a transaction that was built to enable multisig. -/
structure Enabled (h : Horizon) (dto : EnableMultisigDto) (tx : UnsignedTx) (a : Account) : Prop where
  account : h.account tx.source = some a
  foreign : ∀ s ∈ dto.signers, s.publicKey ≠ a.accountId
  size : (a.changed dto.signers).length ≤ maxSigners
  low : ∀ t ∈ dto.lowThreshold, t ≤ dto.total a
  med : ∀ t ∈ dto.medThreshold, t ≤ dto.total a
  high : ∀ t ∈ dto.highThreshold, t ≤ dto.total a
  operations : tx.operations =
    thresholdOp dto ++ (dto.signers.map fun s => ⟨s.publicKey, s.weight⟩).map signerOp

theorem buildEnableMultisigTx_ok {dto : EnableMultisigDto} {tx : UnsignedTx}
    (hb : buildEnableMultisigTx ws h walletId userId dto = .ok tx) : ∃ a, Enabled h dto tx a := by
  obtain ⟨wallet, -, hb⟩ := bind_eq_ok.mp hb
  split at hb
  · cases hb
  · rename_i hself
    obtain ⟨current, hcurrent, hb⟩ := bind_eq_ok.mp hb
    obtain ⟨a, ha, hid, hmaster, hsigners⟩ := getAccountSigners_ok hcurrent
    have hresulting : computeResultingSigners current.signers current.accountId dto.signers =
        a.changed dto.signers := by
      rw [hsigners, hid, ← h.accountId _ a ha, computeResultingSigners_eq]
    simp only [hresulting, hmaster] at hb
    split at hb
    · cases hb
    · rename_i hsize
      split at hb
      · cases hb
      · obtain ⟨_, hlow, hb⟩ := bind_eq_ok.mp hb
        obtain ⟨_, hmed, hb⟩ := bind_eq_ok.mp hb
        obtain ⟨_, hhigh, hb⟩ := bind_eq_ok.mp hb
        obtain ⟨n, -, hb⟩ := bind_eq_ok.mp hb
        cases hb
        refine ⟨a, ⟨ha, ?_, Nat.not_lt.mp hsize, assertThresholdSatisfiable_ok hlow,
          assertThresholdSatisfiable_ok hmed, assertThresholdSatisfiable_ok hhigh, ?_⟩⟩
        · intro s hs hk
          rw [h.accountId _ a ha] at hk
          exact hself (List.any_eq_true.mpr ⟨s, hs, by simpa using hk⟩)
        · rw [List.map_map]
          rfl

/-- What is known of a transaction that was built to rotate a key. -/
structure Rotated (h : Horizon) (dto : RotateKeyDto) (tx : UnsignedTx) (a : Account)
    (outgoing : Signer) : Prop where
  account : h.account tx.source = some a
  signer : outgoing ∈ a.signers
  old : outgoing.key = dto.oldSignerPublicKey
  new : dto.newSignerPublicKey ∉ a.signers.map Signer.key
  foreign : dto.newSignerPublicKey ≠ a.accountId
  operations : tx.operations = [signerOp ⟨dto.newSignerPublicKey, dto.weight.getD outgoing.weight⟩,
    signerOp ⟨dto.oldSignerPublicKey, 0⟩]

theorem buildRotateKeyTx_ok {dto : RotateKeyDto} {tx : UnsignedTx}
    (hb : buildRotateKeyTx ws h walletId userId dto = .ok tx) :
    ∃ a outgoing, Rotated h dto tx a outgoing := by
  obtain ⟨wallet, -, hb⟩ := bind_eq_ok.mp hb
  obtain ⟨current, hcurrent, hb⟩ := bind_eq_ok.mp hb
  obtain ⟨a, ha, hid, hmaster, hsigners⟩ := getAccountSigners_ok hcurrent
  have hid' : a.accountId = wallet.publicKey := h.accountId _ a ha
  simp only [hsigners, hid] at hb
  split at hb
  · cases hb
  · rename_i hmasterkey
    split at hb
    · cases hb
    · rename_i outgoing hout
      split at hb
      · cases hb
      · split at hb
        · cases hb
        · rename_i hnew
          obtain ⟨n, -, hb⟩ := bind_eq_ok.mp hb
          cases hb
          have hkey : outgoing.key = dto.oldSignerPublicKey := by simpa using List.find?_some hout
          have hnone : ∀ s ∈ a.signers ++ [⟨a.accountId, a.masterWeight⟩],
              s.key ≠ dto.newSignerPublicKey := by
            intro s hs hk
            exact hnew (List.any_eq_true.mpr ⟨s, hs, by simpa using hk⟩)
          refine ⟨a, outgoing, ⟨ha, ?_, hkey, ?_, ?_, rfl⟩⟩
          · rcases List.mem_append.mp (List.mem_of_find?_eq_some hout) with hm | hm
            · exact hm
            · rw [List.mem_singleton.mp hm] at hkey
              exact absurd (hkey.symm.trans hid') hmasterkey
          · intro hm
            obtain ⟨s, hs, hk⟩ := List.mem_map.mp hm
            exact hnone s (List.mem_append_left _ hs) hk
          · intro hk
            exact hnone ⟨a.accountId, a.masterWeight⟩ (by simp) hk.symm

end Accepted

/-! ## What the network makes of it -/

section Applied

variable {a : Account}

theorem length_setSigner (l : List Signer) (s : Signer) :
    (setSigner l s).length ≤ l.length ∨
      0 < s.weight ∧ s.key ∉ l.map Signer.key ∧ (setSigner l s).length = l.length + 1 := by
  unfold setSigner
  split
  · rename_i hw
    by_cases hk : s.key ∈ l.map Signer.key
    · exact .inl (Nat.le_of_eq (length_upsert_of_mem hk))
    · refine .inr ⟨hw, hk, ?_⟩
      rw [upsert_of_not_mem hk, List.length_append, List.length_singleton]
  · exact .inl (List.length_filter_le _ _)

theorem applyOp_signer {s : Signer} (hlen : a.signers.length ≤ maxSigners) (hk : s.key ≠ a.accountId) :
    (maxSigners < (setSigner a.signers s).length ∧ applyOp a (signerOp s) = none) ∨
      ((setSigner a.signers s).length ≤ maxSigners ∧ applyOp a (signerOp s) = some (a.set s hk)) := by
  rcases length_setSigner a.signers s with hle | ⟨hw, hnew, hlen'⟩
  · refine .inr ⟨Nat.le_trans hle hlen, ?_⟩
    simp only [applyOp, signerOp, dif_pos hk, Option.getD_none]
    rw [if_neg]
    rintro ⟨hw, hnew, -⟩
    rw [setSigner, if_pos hw, upsert_of_not_mem hnew, List.length_append, List.length_singleton] at hle
    omega
  · by_cases hfull : maxSigners ≤ a.signers.length
    · refine .inl ⟨by omega, ?_⟩
      simp only [applyOp, signerOp, dif_pos hk]
      rw [if_pos ⟨hw, hnew, hfull⟩]
    · refine .inr ⟨by omega, ?_⟩
      simp only [applyOp, signerOp, dif_pos hk, Option.getD_none]
      rw [if_neg fun h => hfull h.2.2]

theorem applyOps_signers (l : List Signer) (hlen : a.signers.length ≤ maxSigners)
    (hk : ∀ s ∈ l, s.key ≠ a.accountId) :
    ((∃ n, maxSigners < ((l.take n).foldl setSigner a.signers).length) ∧
        applyOps a (l.map signerOp) = none) ∨
      ((¬ ∃ n, maxSigners < ((l.take n).foldl setSigner a.signers).length) ∧
        ∃ a', applyOps a (l.map signerOp) = some a' ∧ a'.signers = l.foldl setSigner a.signers ∧
          a'.masterWeight = a.masterWeight ∧ a'.thresholds = a.thresholds) := by
  induction l generalizing a with
  | nil =>
    refine .inr ⟨?_, a, rfl, rfl, rfl, rfl⟩
    rintro ⟨n, hn⟩
    rw [List.take_nil, List.foldl_nil] at hn
    omega
  | cons s l ih =>
    have hs := hk s List.mem_cons_self
    rcases applyOp_signer hlen hs with ⟨hover, hop⟩ | ⟨hfit, hop⟩
    · refine .inl ⟨⟨1, by simpa using hover⟩, ?_⟩
      rw [List.map_cons, applyOps, hop]
      rfl
    · have hshift : (∃ n, maxSigners < (((s :: l).take n).foldl setSigner a.signers).length) ↔
          ∃ n, maxSigners < ((l.take n).foldl setSigner (a.set s hs).signers).length := by
        constructor
        · rintro ⟨n, hn⟩
          cases n with
          | zero =>
            rw [List.take_zero, List.foldl_nil] at hn
            omega
          | succ n => exact ⟨n, hn⟩
        · rintro ⟨n, hn⟩
          exact ⟨n + 1, hn⟩
      rw [hshift, List.map_cons, applyOps, hop, Option.bind_some, List.foldl_cons]
      exact ih hfit fun x hx => hk x (List.mem_cons_of_mem _ hx)

theorem applyOps_threshold (dto : EnableMultisigDto) (ops : List SetOptions) :
    ∃ a', applyOps a (thresholdOp dto ++ ops) = applyOps a' ops ∧ a'.accountId = a.accountId ∧
      a'.signers = a.signers ∧ a'.masterWeight = dto.masterWeight.getD a.masterWeight ∧
      a'.thresholds = ⟨dto.lowThreshold.getD a.thresholds.low, dto.medThreshold.getD a.thresholds.med,
        dto.highThreshold.getD a.thresholds.high⟩ := by
  simp only [thresholdOp]
  split
  · rename_i hnone
    obtain ⟨hm, hl, hd, hh⟩ : dto.masterWeight = none ∧ dto.lowThreshold = none ∧
        dto.medThreshold = none ∧ dto.highThreshold = none := by simpa using hnone
    refine ⟨a, rfl, rfl, rfl, ?_, ?_⟩
    · rw [hm]
      rfl
    · rw [hl, hd, hh]
      rfl
  · exact ⟨_, rfl, rfl, rfl, rfl, rfl⟩

end Applied

/-- Set one after the other, the signers of the request pass the limit on the way; the network then
refuses the transaction. -/
def EnableMultisigDto.Overflows (dto : EnableMultisigDto) (a : Account) : Prop :=
  ∃ n, maxSigners < (a.changed (dto.signers.take n)).length

/-- The thresholds that the request leaves as they are can be met with the new weights. -/
def EnableMultisigDto.UnsetInReach (dto : EnableMultisigDto) (a : Account) : Prop :=
  (dto.lowThreshold = none → a.thresholds.low ≤ dto.total a) ∧
    (dto.medThreshold = none → a.thresholds.med ≤ dto.total a) ∧
    (dto.highThreshold = none → a.thresholds.high ≤ dto.total a)

theorem getD_le_iff {t : Option Nat} {d n : Nat} (h : ∀ t' ∈ t, t' ≤ n) :
    t.getD d ≤ n ↔ (t = none → d ≤ n) := by
  cases t with
  | none => simp
  | some t => simpa using h t rfl

theorem enable_satisfiable {h : Horizon} {dto : EnableMultisigDto} {tx : UnsignedTx} {a : Account}
    (hb : Enabled h dto tx a) (hs : a.Satisfiable) :
    (a.after tx.operations).Satisfiable ↔ dto.Overflows a ∨ dto.UnsetInReach a := by
  obtain ⟨a', hops, hid, hsigners, hmaster, hthresholds⟩ := applyOps_threshold (a := a) dto
    ((dto.signers.map fun s => ⟨s.publicKey, s.weight⟩).map signerOp)
  have hchanged : ∀ l : List SignerEntryDto,
      (l.map fun s => (⟨s.publicKey, s.weight⟩ : Signer)).foldl setSigner a'.signers = a.changed l := by
    intro l
    rw [List.foldl_map, hsigners]
    rfl
  have hover : dto.Overflows a ↔ ∃ n, maxSigners < (((dto.signers.map fun s =>
      (⟨s.publicKey, s.weight⟩ : Signer)).take n).foldl setSigner a'.signers).length := by
    simp only [EnableMultisigDto.Overflows, ← List.map_take, hchanged]
  have hforeign : ∀ s ∈ dto.signers.map fun s => (⟨s.publicKey, s.weight⟩ : Signer),
      s.key ≠ a'.accountId := by
    intro s hm
    obtain ⟨s', hs', rfl⟩ := List.mem_map.mp hm
    rw [hid]
    exact hb.foreign s' hs'
  rw [Account.after, hb.operations, hops]
  rcases applyOps_signers (a := a') _ (by rw [hsigners]; exact hs.2.2.2) hforeign with
    ⟨hrefused, hnone⟩ | ⟨hfits, b, hsome, hbsigners, hbmaster, hbthresholds⟩
  · rw [hnone]
    exact ⟨fun _ => .inl (hover.mpr hrefused), fun _ => hs⟩
  · have htotal : b.total = dto.total a := by
      rw [Account.total, hbmaster, hmaster, hbsigners, hchanged]
      rfl
    rw [hsome, Option.getD_some]
    simp only [Account.Satisfiable, htotal, hbthresholds, hthresholds, hbsigners, hchanged]
    rw [getD_le_iff hb.low, getD_le_iff hb.med, getD_le_iff hb.high]
    constructor
    · rintro ⟨hlow, hmed, hhigh, -⟩
      exact .inr ⟨hlow, hmed, hhigh⟩
    · rintro (hcond | ⟨hlow, hmed, hhigh⟩)
      · exact absurd (hover.mp hcond) hfits
      · exact ⟨hlow, hmed, hhigh, hb.size⟩

/-- With the new weight in place of the old one the thresholds can be met. -/
def RotateKeyDto.InReach (dto : RotateKeyDto) (a : Account) : Prop :=
  ∀ s ∈ a.signers, s.key = dto.oldSignerPublicKey →
    ∀ t ∈ [a.thresholds.low, a.thresholds.med, a.thresholds.high],
      t + s.weight ≤ a.total + dto.weight.getD s.weight

theorem remove_signer {l : List Signer} {s : Signer} (hl : (l.map Signer.key).Nodup) (hs : s ∈ l) :
    (l.filter fun x => x.key ≠ s.key).length + 1 = l.length ∧
      ((l.filter fun x => x.key ≠ s.key).map Signer.weight).sum + s.weight =
        (l.map Signer.weight).sum := by
  induction l with
  | nil => cases hs
  | cons x l ih =>
    rw [List.map_cons, List.nodup_cons] at hl
    rcases List.mem_cons.mp hs with rfl | hs
    · have hkeep : l.filter (fun x => x.key ≠ s.key) = l := by
        refine List.filter_eq_self.mpr fun y hy => ?_
        have : y.key ≠ s.key := fun e => hl.1 (List.mem_map.mpr ⟨y, hy, e⟩)
        simpa using this
      rw [List.filter_cons_of_neg (by simp), hkeep, List.map_cons, List.sum_cons, List.length_cons]
      exact ⟨rfl, Nat.add_comm _ _⟩
    · have hne : x.key ≠ s.key := fun e => hl.1 (List.mem_map.mpr ⟨s, hs, e.symm⟩)
      obtain ⟨hlength, hsum⟩ := ih hl.2 hs
      rw [List.filter_cons_of_pos (by simpa using hne), List.map_cons, List.map_cons, List.sum_cons,
        List.sum_cons, List.length_cons, List.length_cons]
      omega

theorem rotate_signers {h : Horizon} {dto : RotateKeyDto} {tx : UnsignedTx} {a : Account}
    {outgoing : Signer} (hb : Rotated h dto tx a outgoing) :
    (setSigner a.signers ⟨dto.newSignerPublicKey, dto.weight.getD outgoing.weight⟩).length =
        a.signers.length + 1 ∧
      setSigner (setSigner a.signers ⟨dto.newSignerPublicKey, dto.weight.getD outgoing.weight⟩)
          ⟨dto.oldSignerPublicKey, 0⟩ =
        (a.signers.filter fun x => x.key ≠ outgoing.key) ++
          [⟨dto.newSignerPublicKey, dto.weight.getD outgoing.weight⟩] := by
  have hpos : 0 < dto.weight.getD outgoing.weight := by
    cases hw : dto.weight with
    | none => exact a.positive outgoing hb.signer
    | some w => exact (dto.weight_bounds w hw).1
  have hne : dto.newSignerPublicKey ≠ dto.oldSignerPublicKey := by
    intro e
    exact hb.new (List.mem_map.mpr ⟨outgoing, hb.signer, hb.old.trans e.symm⟩)
  have hadded : setSigner a.signers ⟨dto.newSignerPublicKey, dto.weight.getD outgoing.weight⟩ =
      a.signers ++ [⟨dto.newSignerPublicKey, dto.weight.getD outgoing.weight⟩] := by
    rw [setSigner, if_pos hpos, upsert_of_not_mem hb.new]
  rw [hadded, setSigner, if_neg (Nat.lt_irrefl 0), List.filter_append, hb.old]
  simp [hne]

theorem rotate_satisfiable {h : Horizon} {dto : RotateKeyDto} {tx : UnsignedTx} {a : Account}
    {outgoing : Signer} (hb : Rotated h dto tx a outgoing) (hs : a.Satisfiable) :
    (a.after tx.operations).Satisfiable ↔ a.signers.length = maxSigners ∨ dto.InReach a := by
  obtain ⟨hadded, hrotated⟩ := rotate_signers hb
  obtain ⟨hlength, hsum⟩ := remove_signer a.nodup hb.signer
  have hreach : dto.InReach a ↔ ∀ t ∈ [a.thresholds.low, a.thresholds.med, a.thresholds.high],
      t + outgoing.weight ≤ a.total + dto.weight.getD outgoing.weight := by
    refine ⟨fun h => h outgoing hb.signer hb.old, fun h s hm hk => ?_⟩
    rw [List.inj_on_of_nodup_map a.nodup hm hb.signer (hk.trans hb.old.symm)]
    exact h
  have hforeign : ∀ s ∈ [(⟨dto.newSignerPublicKey, dto.weight.getD outgoing.weight⟩ : Signer),
      ⟨dto.oldSignerPublicKey, 0⟩], s.key ≠ a.accountId := by
    intro s hm
    simp only [List.mem_cons, List.not_mem_nil, or_false] at hm
    rcases hm with rfl | rfl
    · exact hb.foreign
    · exact fun e => a.foreign (List.mem_map.mpr ⟨outgoing, hb.signer, hb.old.trans e⟩)
  have hlen := hs.2.2.2
  rw [Account.after, hb.operations, hreach]
  rcases applyOps_signers (a := a) _ hlen hforeign with
    ⟨⟨n, hn⟩, hnone⟩ | ⟨hfits, b, hsome, hsigners, hmaster, hthresholds⟩
  · -- refused: the new signer finds no room before the old one is taken out
    have hfull : a.signers.length = maxSigners := by
      match n with
      | 0 => exact absurd hn (Nat.not_lt.mpr hlen)
      | 1 =>
        simp only [List.take_succ_cons, List.take_zero, List.foldl_cons, List.foldl_nil, hadded] at hn
        omega
      | n + 2 =>
        simp only [List.take_succ_cons, List.take_nil, List.foldl_cons, List.foldl_nil, hrotated,
          List.length_append, List.length_singleton] at hn
        omega
    rw [List.map_cons, List.map_cons, List.map_nil] at hnone
    rw [hnone]
    exact ⟨fun _ => .inl hfull, fun _ => hs⟩
  · have hroom : a.signers.length ≠ maxSigners := by
      intro hfull
      refine hfits ⟨1, ?_⟩
      simp only [List.take_succ_cons, List.take_zero, List.foldl_cons, List.foldl_nil, hadded]
      omega
    rw [List.foldl_cons, List.foldl_cons, List.foldl_nil, hrotated] at hsigners
    have htotal : b.total + outgoing.weight = a.total + dto.weight.getD outgoing.weight := by
      rw [Account.total, Account.total, hmaster, hsigners, List.map_append, List.sum_append]
      simp only [List.map_cons, List.map_nil, List.sum_cons, List.sum_nil]
      omega
    have hsize : b.signers.length ≤ maxSigners := by
      rw [hsigners, List.length_append, List.length_singleton]
      omega
    rw [List.map_cons, List.map_cons, List.map_nil] at hsome
    rw [hsome, Option.getD_some]
    simp only [Account.Satisfiable, hthresholds, List.mem_cons, List.not_mem_nil, or_false,
      forall_eq_or_imp, forall_eq]
    omega

/-- Which accepted requests keep every threshold of a satisfiable account within reach. -/
theorem multisig_satisfiable_iff (ws : WalletTable) (h : Horizon) (walletId userId : Uuid) :
    (∀ dto tx a, buildEnableMultisigTx ws h walletId userId dto = .ok tx →
      h.account tx.source = some a → a.Satisfiable →
      ((a.after tx.operations).Satisfiable ↔ dto.Overflows a ∨ dto.UnsetInReach a)) ∧
    (∀ dto tx a, buildRotateKeyTx ws h walletId userId dto = .ok tx →
      h.account tx.source = some a → a.Satisfiable →
      ((a.after tx.operations).Satisfiable ↔ a.signers.length = maxSigners ∨ dto.InReach a)) := by
  constructor
  · intro dto tx a hb ha hs
    obtain ⟨a', he⟩ := buildEnableMultisigTx_ok hb
    have hsame : a' = a := Option.some.inj (he.account.symm.trans ha)
    exact enable_satisfiable (hsame ▸ he) hs
  · intro dto tx a hb ha hs
    obtain ⟨a', outgoing, hr⟩ := buildRotateKeyTx_ok hb
    have hsame : a' = a := Option.some.inj (hr.account.symm.trans ha)
    exact rotate_satisfiable (hsame ▸ hr) hs

/-! ## Two requests that lock an account -/

def treasury : WalletTable := ⟨[⟨1, 5, "GTREASURY", "iv:tag:key", none, .active, true⟩], by simp⟩

/-- The account of the wallet as long as only its master key signs. -/
def masterOnly : Account :=
  ⟨"GTREASURY", 10, ⟨10, 10, 10⟩, [], by simp, by simp, by simp⟩

def oneSigner : Account :=
  ⟨"GTREASURY", 0, ⟨5, 5, 5⟩, [⟨"GALICE", 5⟩], by simp, by simp, by simp⟩

def horizon (a : Account) (h : a.accountId = "GTREASURY") : Horizon where
  account k := if k = "GTREASURY" then some a else none
  sequence _ := some 7
  accountId k b hb := by
    split at hb
    · rename_i hk
      cases hb
      exact h.trans hk.symm
    · cases hb

/-- The master key is disabled for one signer of weight 1; the thresholds stay at 10. -/
def disableMaster : EnableMultisigDto where
  signers := [⟨"GALICE", 1⟩]
  masterWeight := some 0
  lowThreshold := none
  medThreshold := none
  highThreshold := none
  signers_length := by decide
  signers_weight := by decide
  masterWeight_le := by simp
  lowThreshold_le := by simp
  medThreshold_le := by simp
  highThreshold_le := by simp

/-- A signer of weight 5 is replaced by one of weight 1. -/
def lighterKey : RotateKeyDto := ⟨"GALICE", "GBOB", some 1, by simp⟩

theorem accepted_requests_lock_out :
    (∃ tx, buildEnableMultisigTx treasury (horizon masterOnly rfl) 1 5 disableMaster = .ok tx ∧
      masterOnly.Satisfiable ∧ ¬ (masterOnly.after tx.operations).Satisfiable) ∧
    (∃ tx, buildRotateKeyTx treasury (horizon oneSigner rfl) 1 5 lighterKey = .ok tx ∧
      oneSigner.Satisfiable ∧ ¬ (oneSigner.after tx.operations).Satisfiable) :=
  ⟨⟨_, rfl, by decide, by decide⟩, ⟨_, rfl, by decide, by decide⟩⟩

/-- A second signer beside the master key. -/
def secondSigner : EnableMultisigDto where
  signers := [⟨"GALICE", 1⟩]
  masterWeight := none
  lowThreshold := none
  medThreshold := none
  highThreshold := none
  signers_length := by decide
  signers_weight := by decide
  masterWeight_le := by simp
  lowThreshold_le := by simp
  medThreshold_le := by simp
  highThreshold_le := by simp

def sameWeight : RotateKeyDto := ⟨"GALICE", "GBOB", none, by simp⟩

theorem kept_in_reach :
    (∃ tx, buildEnableMultisigTx treasury (horizon masterOnly rfl) 1 5 secondSigner = .ok tx ∧
      (masterOnly.after tx.operations).Satisfiable) ∧
    (∃ tx, buildRotateKeyTx treasury (horizon oneSigner rfl) 1 5 sameWeight = .ok tx ∧
      (oneSigner.after tx.operations).Satisfiable) := by
  constructor
  · refine ⟨_, rfl, ((multisig_satisfiable_iff treasury (horizon masterOnly rfl) 1 5).1
      secondSigner _ masterOnly rfl rfl (by decide)).mpr (.inr ?_)⟩
    have htotal : secondSigner.total masterOnly = 11 := by decide
    rw [EnableMultisigDto.UnsetInReach, htotal]
    exact ⟨fun _ => by decide, fun _ => by decide, fun _ => by decide⟩
  · refine ⟨_, rfl, ((multisig_satisfiable_iff treasury (horizon oneSigner rfl) 1 5).2
      sameWeight _ oneSigner rfl rfl (by decide)).mpr (.inr fun s _ _ t ht => ?_)⟩
    have hthreshold : t = 5 := by simpa [oneSigner] using ht
    have htotal : oneSigner.total = 5 := rfl
    simp only [sameWeight, Option.getD_none]
    omega

end Wallets
end TradeCore
