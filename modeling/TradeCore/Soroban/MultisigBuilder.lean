import Mathlib
import TradeCore.Lib.Run

/-!
# TradeCore.Soroban.MultisigBuilder

`MultisigTransactionBuilder`: a transaction that is prepared once and then collects signatures until
their weights reach the threshold. Signatures come in any order, again, from strangers and for other
transactions, and `submitTransaction` may be called at any time.

* `weight_run`: the weight is a function of the set of valid signatures that were brought, and not of
  the order. Of two signers with one key the second one never counts.
* `submitted_run`: what is sent is the transaction that was prepared, with valid signatures of
  different signers that reach the threshold, and every envelope that is handed on carries all of them.
-/

namespace TradeCore
namespace Soroban
namespace MultisigTransactionBuilder

open Lib

structure SignerRequirement where
  publicKey : String
  signed : Bool
  weight : Int
  deriving DecidableEq, Repr

structure MultisigConfig where
  threshold : Int
  signers : List SignerRequirement
  timeout : Int
  deriving DecidableEq, Repr

/-- A `SorobanApplicationError`, or what the SDK throws. -/
inductive BuilderError where
  | application (message : String)
  | sdk (message : String)
  deriving DecidableEq, Repr

/-- The transactions of the SDK: the check of a signature against the hash of a body, and the text of an
envelope. -/
structure Sdk (β : Type) where
  verify : (publicKey : String) → (body : β) → (signature : String) → Bool
  toXDR : (body : β) → (signatures : List (String × String)) → String

structure Transaction (β : Type) where
  body : β
  signatures : List (String × String)
  deriving DecidableEq

structure MultisigTransaction (β : Type) where
  transaction : Transaction β
  transactionXdr : String
  currentWeight : Int
  requiredThreshold : Int
  isReadyToSubmit : Bool
  signers : List SignerRequirement
  minResourceFee : String
  deriving DecidableEq

def maxOperationsPerTx : Nat := 100

section Builder

variable {β ι : Type} (sdk : Sdk β)

def Transaction.toXDR (t : Transaction β) : String := sdk.toXDR t.body t.signatures

/-- `Transaction.addSignature` of the SDK. -/
def Transaction.addSignature (t : Transaction β) (publicKey signature : String) :
    Except BuilderError (Transaction β) :=
  if sdk.verify publicKey t.body signature then
    .ok { t with signatures := t.signatures ++ [(publicKey, signature)] }
  else .error (.sdk "Invalid signature")

/-- `prepare` is everything up to `prepareTransaction`: the body with its final fees, and the fee of the
simulation. -/
def buildTransaction (invocations : List ι) (config : MultisigConfig)
    (prepare : List ι → MultisigConfig → Except BuilderError (β × String)) :
    Except BuilderError (MultisigTransaction β) :=
  if maxOperationsPerTx < invocations.length then
    .error (.application s!"Batched multi-signature transaction contains {invocations.length} invocation(s), but Stellar transactions are limited to {maxOperationsPerTx} operations. Split the batch into multiple transactions.")
  else do
    let (body, minResourceFee) ← prepare invocations config
    let transaction : Transaction β := ⟨body, []⟩
    return {
      transaction := transaction
      transactionXdr := transaction.toXDR sdk
      currentWeight := 0
      requiredThreshold := config.threshold
      isReadyToSubmit := config.threshold ≤ 0
      signers := config.signers.map fun s => { s with signed := false }
      minResourceFee := minResourceFee }

/-- `signer.signed = true` of the signer that `find` returned, which is the first with the key. -/
def markSigned (publicKey : String) : List SignerRequirement → List SignerRequirement
  | [] => []
  | s :: ss =>
    if s.publicKey = publicKey then { s with signed := true } :: ss else s :: markSigned publicKey ss

def signedWeight (signers : List SignerRequirement) : Int :=
  ((signers.filter SignerRequirement.signed).map SignerRequirement.weight).sum

def addSignature (publicKey signature : String) (m : MultisigTransaction β) :
    Except BuilderError (MultisigTransaction β) :=
  match m.signers.find? fun s => s.publicKey = publicKey with
  | none => .error (.application s!"Unknown signer: {publicKey}")
  | some signer =>
    if signer.signed then .error (.application s!"Signer {publicKey} has already signed")
    else do
      let transaction ← m.transaction.addSignature sdk publicKey signature
      let signers := markSigned publicKey m.signers
      return { m with
        transaction := transaction
        transactionXdr := transaction.toXDR sdk
        currentWeight := signedWeight signers
        isReadyToSubmit := m.requiredThreshold ≤ signedWeight signers
        signers := signers }

/-- What goes to `sendAndConfirm`. -/
def submitTransaction (m : MultisigTransaction β) : Except BuilderError (Transaction β) :=
  if !m.isReadyToSubmit then
    .error (.application "Transaction does not have enough signatures to submit")
  else .ok m.transaction

inductive BuilderOp where
  | addSignature (publicKey signature : String)
  | submitTransaction
  deriving DecidableEq, Repr

/-- The object that is passed around and what was sent of it. -/
structure Signing (β : Type) where
  tx : MultisigTransaction β
  sent : List (Transaction β)

def step (s : Signing β) : BuilderOp → Signing β
  | .addSignature publicKey signature =>
    match addSignature sdk publicKey signature s.tx with
    | .ok tx => { s with tx := tx }
    | .error _ => s
  | .submitTransaction =>
    match submitTransaction s.tx with
    | .ok t => { s with sent := s.sent ++ [t] }
    | .error _ => s

/-! ## The signers that count -/

/-- Of the signers with one key the first. -/
def firsts : List SignerRequirement → List SignerRequirement
  | [] => []
  | s :: ss => s :: (firsts ss).filter fun t => t.publicKey ≠ s.publicKey

/-- The weights of the signers in `done`. -/
def weightOf (signers : List SignerRequirement) (done : List String) : Int :=
  (((firsts signers).filter fun s => s.publicKey ∈ done).map SignerRequirement.weight).sum

/-- A valid signature with the key has been brought. -/
def brought (body : β) (ops : List BuilderOp) (publicKey : String) : Bool :=
  ops.any fun
    | .addSignature key signature => key = publicKey && sdk.verify key body signature
    | .submitTransaction => false

/-- The signers once those in `done` have signed. -/
def mark : List String → List SignerRequirement → List SignerRequirement
  | _, [] => []
  | done, s :: ss =>
    { s with signed := decide (s.publicKey ∈ done) } :: mark (done.filter (· ≠ s.publicKey)) ss

theorem mark_congr {done done' : List String} (h : ∀ k, k ∈ done ↔ k ∈ done')
    (ss : List SignerRequirement) : mark done ss = mark done' ss := by
  induction ss generalizing done done' with
  | nil => rfl
  | cons s ss ih =>
    have hfilter : ∀ k, k ∈ done.filter (· ≠ s.publicKey) ↔ k ∈ done'.filter (· ≠ s.publicKey) := by
      simp [h]
    simp only [mark, h, ih hfilter]

theorem mark_nil (ss : List SignerRequirement) :
    mark [] ss = ss.map fun s => { s with signed := false } := by
  induction ss with
  | nil => rfl
  | cons s ss ih => simp [mark, ih]

theorem find?_mark (k : String) (done : List String) (ss : List SignerRequirement) :
    ((mark done ss).find? fun s => s.publicKey = k).map SignerRequirement.signed =
      if k ∈ ss.map SignerRequirement.publicKey then some (decide (k ∈ done)) else none := by
  induction ss generalizing done with
  | nil => rfl
  | cons s ss ih =>
    by_cases hk : s.publicKey = k
    · simp [mark, hk]
    · have hk' : k ≠ s.publicKey := Ne.symm hk
      simp [mark, hk, hk', ih]

theorem markSigned_mark {k : String} {done : List String} {ss : List SignerRequirement}
    (hk : k ∈ ss.map SignerRequirement.publicKey) : markSigned k (mark done ss) = mark (k :: done) ss := by
  induction ss generalizing done with
  | nil => cases hk
  | cons s ss ih =>
    by_cases hs : s.publicKey = k
    · simp [mark, markSigned, hs]
    · have hs' : k ≠ s.publicKey := Ne.symm hs
      have hrest : k ∈ ss.map SignerRequirement.publicKey := by simpa [hs'] using hk
      simp [mark, markSigned, hs, hs', ih hrest]

theorem signedWeight_mark (done : List String) (ss : List SignerRequirement) :
    signedWeight (mark done ss) = weightOf ss done := by
  induction ss generalizing done with
  | nil => rfl
  | cons s ss ih =>
    have hrest : weightOf ss (done.filter (· ≠ s.publicKey)) =
        ((((firsts ss).filter fun t => t.publicKey ≠ s.publicKey).filter fun t =>
          t.publicKey ∈ done).map SignerRequirement.weight).sum := by
      rw [weightOf, List.filter_filter]
      congr 3
      funext t
      simp
    have htail : signedWeight (mark (done.filter (· ≠ s.publicKey)) ss) = _ := (ih _).trans hrest
    unfold signedWeight at htail ⊢
    by_cases hs : s.publicKey ∈ done
    · simpa [mark, weightOf, firsts, hs] using htail
    · simpa [mark, weightOf, firsts, hs] using htail

theorem mem_of_mem_firsts {s : SignerRequirement} {ss : List SignerRequirement} (h : s ∈ firsts ss) :
    s ∈ ss := by
  induction ss with
  | nil => exact h
  | cons t ss ih =>
    rcases List.mem_cons.mp h with rfl | h
    · exact List.mem_cons_self
    · exact List.mem_cons_of_mem _ (ih (List.mem_of_mem_filter h))

/-! ## What a run keeps -/

/-- The keys that have signed. -/
def Transaction.keys (t : Transaction β) : List String := t.signatures.map Prod.fst

/-- A transaction of the body, signed by different signers. -/
structure Signed (config : MultisigConfig) (body : β) (t : Transaction β) : Prop where
  same : t.body = body
  valid : ∀ x ∈ t.signatures, sdk.verify x.1 body x.2 = true
  distinct : t.keys.Nodup
  known : ∀ k ∈ t.keys, k ∈ config.signers.map SignerRequirement.publicKey

/-- The object says of the transaction what is so. -/
structure Inv (config : MultisigConfig) (body : β) (m : MultisigTransaction β) : Prop where
  signed : Signed sdk config body m.transaction
  xdr : m.transactionXdr = m.transaction.toXDR sdk
  threshold : m.requiredThreshold = config.threshold
  signers : m.signers = mark m.transaction.keys config.signers
  weight : m.currentWeight = weightOf config.signers m.transaction.keys
  ready : m.isReadyToSubmit = decide (config.threshold ≤ weightOf config.signers m.transaction.keys)

variable {sdk} {config : MultisigConfig} {body : β} {m m' : MultisigTransaction β}

theorem buildTransaction_inv {invocations : List ι} {fee : String}
    {prepare : List ι → MultisigConfig → Except BuilderError (β × String)}
    (hprepare : prepare invocations config = .ok (body, fee))
    (h : buildTransaction sdk invocations config prepare = .ok m) :
    Inv sdk config body m ∧ m.transaction.keys = [] := by
  simp only [buildTransaction] at h
  split at h
  · cases h
  · rw [hprepare] at h
    cases h
    have hweight : weightOf config.signers [] = 0 := by simp [weightOf]
    refine ⟨⟨⟨rfl, ?_, List.nodup_nil, ?_⟩, rfl, rfl, ?_, ?_, ?_⟩, rfl⟩
    · exact fun x hx => by cases hx
    · exact fun k hk => by cases hk
    · exact (mark_nil config.signers).symm
    · exact hweight.symm
    · simp only [Transaction.keys, List.map_nil, hweight]

theorem Signed.append {t : Transaction β} (h : Signed sdk config body t) {k signature : String}
    (hk : k ∈ config.signers.map SignerRequirement.publicKey) (hnew : k ∉ t.keys)
    (hvalid : sdk.verify k body signature = true) :
    Signed sdk config body { t with signatures := t.signatures ++ [(k, signature)] } where
  same := h.same
  valid x hx := by
    rcases List.mem_append.mp hx with hx | hx
    · exact h.valid x hx
    · rw [List.mem_singleton.mp hx]
      exact hvalid
  distinct := by
    simp only [Transaction.keys, List.map_append, List.map_cons, List.map_nil]
    refine List.nodup_append.mpr ⟨h.distinct, List.nodup_singleton k, fun a ha b hb heq => ?_⟩
    rw [List.mem_singleton.mp hb] at heq
    exact hnew (heq ▸ ha)
  known k' hk' := by
    simp only [Transaction.keys, List.map_append, List.map_cons, List.map_nil, List.mem_append,
      List.mem_singleton] at hk'
    rcases hk' with hk' | rfl
    · exact h.known k' hk'
    · exact hk

/-- What `addSignature` does: it takes a signature that is valid, of a signer, and the first of that
signer. -/
theorem addSignature_eq (h : Inv sdk config body m) (k signature : String) :
    (k ∈ config.signers.map SignerRequirement.publicKey ∧ k ∉ m.transaction.keys ∧
      sdk.verify k body signature = true ∧ ∃ m', addSignature sdk k signature m = .ok m' ∧
        Inv sdk config body m' ∧ m'.transaction.keys = m.transaction.keys ++ [k]) ∨
      (¬ (k ∈ config.signers.map SignerRequirement.publicKey ∧ k ∉ m.transaction.keys ∧
        sdk.verify k body signature = true) ∧ ∃ e, addSignature sdk k signature m = .error e) := by
  have hfind := find?_mark k m.transaction.keys config.signers
  rw [← h.signers] at hfind
  unfold addSignature
  split
  · rename_i hnone
    rw [hnone] at hfind
    split at hfind
    · cases hfind
    · rename_i hk
      exact .inr ⟨fun hall => hk hall.1, _, rfl⟩
  · rename_i signer hsigner
    rw [hsigner] at hfind
    split at hfind
    · rename_i hk
      have hsigned : signer.signed = decide (k ∈ m.transaction.keys) := Option.some.inj hfind
      split
      · rename_i hdone
        rw [hdone] at hsigned
        exact .inr ⟨fun hall => hall.2.1 (of_decide_eq_true hsigned.symm), _, rfl⟩
      · rename_i hopen
        rw [hsigned] at hopen
        have hnew : k ∉ m.transaction.keys := by simpa using hopen
        simp only [Transaction.addSignature, h.signed.same]
        split
        · rename_i hvalid
          have hmark : markSigned k m.signers = mark (m.transaction.keys ++ [k]) config.signers := by
            rw [h.signers, markSigned_mark hk]
            exact mark_congr (by simp [or_comm]) _
          have hkeys : (m.transaction.signatures ++ [(k, signature)]).map Prod.fst =
              m.transaction.keys ++ [k] := by simp [Transaction.keys]
          have hweight : signedWeight (markSigned k m.signers) =
              weightOf config.signers (m.transaction.keys ++ [k]) := by
            rw [hmark, signedWeight_mark]
          refine .inl ⟨hk, hnew, hvalid, _, rfl, ⟨?_, rfl, h.threshold, ?_, ?_, ?_⟩, hkeys⟩
          · exact h.signed.same ▸ h.signed.append hk hnew hvalid
          · simp only [Transaction.keys, hkeys, hmark]
          · simp only [Transaction.keys, hkeys, hweight]
          · simp only [Transaction.keys, hkeys, hweight, h.threshold]
        · rename_i hinvalid
          exact .inr ⟨fun hall => hinvalid hall.2.2, _, rfl⟩
    · cases hfind

variable (sdk) in
/-- After `ops`, the keys that have signed are those of the signers of whom a valid signature was
brought, and what was sent was ready. -/
structure Kept (config : MultisigConfig) (body : β) (ops : List BuilderOp) (s : Signing β) : Prop where
  inv : Inv sdk config body s.tx
  keys : ∀ k ∈ config.signers.map SignerRequirement.publicKey,
    k ∈ s.tx.transaction.keys ↔ brought sdk body ops k = true
  sent : ∀ t ∈ s.sent, Signed sdk config body t ∧ config.threshold ≤ weightOf config.signers t.keys

theorem brought_append (body : β) (ops : List BuilderOp) (op : BuilderOp) (k : String) :
    brought sdk body (ops ++ [op]) k = (brought sdk body ops k || brought sdk body [op] k) := by
  simp [brought]

theorem Kept.step {ops : List BuilderOp} {s : Signing β} (h : Kept sdk config body ops s)
    (op : BuilderOp) : Kept sdk config body (ops ++ [op]) (step sdk s op) := by
  cases op with
  | addSignature k signature =>
    simp only [MultisigTransactionBuilder.step]
    rcases addSignature_eq h.inv k signature with
      ⟨hk, hnew, hvalid, tx, he, hinv, hkeys⟩ | ⟨hnot, e, he⟩
    · rw [he]
      refine ⟨hinv, fun k' hk' => ?_, h.sent⟩
      rw [hkeys, brought_append, Bool.or_eq_true, ← h.keys k' hk', List.mem_append, List.mem_singleton]
      refine or_congr Iff.rfl ?_
      simp only [brought, List.any_cons, List.any_nil, Bool.or_false, Bool.and_eq_true,
        decide_eq_true_eq]
      exact ⟨fun heq => ⟨heq.symm, heq ▸ hvalid⟩, fun hb => hb.1.symm⟩
    · rw [he]
      refine ⟨h.inv, fun k' hk' => ?_, h.sent⟩
      rw [brought_append, Bool.or_eq_true, ← h.keys k' hk']
      refine ⟨.inl, fun hor => hor.elim id fun hb => ?_⟩
      -- the signature is valid and of a signer, so it was refused for coming again
      simp only [brought, List.any_cons, List.any_nil, Bool.or_false, Bool.and_eq_true,
        decide_eq_true_eq] at hb
      obtain ⟨rfl, hvalid⟩ := hb
      by_contra hnew
      exact hnot ⟨hk', hnew, hvalid⟩
  | submitTransaction =>
    have hkeys : ∀ k ∈ config.signers.map SignerRequirement.publicKey,
        k ∈ s.tx.transaction.keys ↔ brought sdk body (ops ++ [.submitTransaction]) k = true := by
      intro k hk
      rw [brought_append, h.keys k hk]
      simp [brought]
    simp only [MultisigTransactionBuilder.step, submitTransaction, h.inv.ready]
    split
    · rename_i t ht
      refine ⟨h.inv, hkeys, fun t' ht' => ?_⟩
      rcases List.mem_append.mp ht' with ht' | ht'
      · exact h.sent t' ht'
      · rw [List.mem_singleton.mp ht']
        split at ht
        · cases ht
        · rename_i hready
          cases ht
          exact ⟨h.inv.signed, by simpa using hready⟩
    · exact ⟨h.inv, hkeys, h.sent⟩

theorem kept_run {m : MultisigTransaction β} (h : Inv sdk config body m)
    (hkeys : m.transaction.keys = []) (ops : List BuilderOp) :
    Kept sdk config body ops (run (step sdk) ⟨m, []⟩ ops) := by
  induction ops using List.reverseRecOn with
  | nil =>
    refine ⟨h, fun k _ => ?_, fun t ht => by cases ht⟩
    rw [run, hkeys]
    simp [brought]
  | append_singleton ops op ih =>
    rw [run_append]
    exact ih.step op

/-- Whatever is brought in whatever order, the weight is that of the signers of whom a valid signature
was brought, the first with a key for all with the key, and the transaction is ready when that reaches
the threshold. -/
theorem weight_run {invocations : List ι} {fee : String}
    {prepare : List ι → MultisigConfig → Except BuilderError (β × String)}
    (hprepare : prepare invocations config = .ok (body, fee))
    (h : buildTransaction sdk invocations config prepare = .ok m) (ops : List BuilderOp) :
    let tx := (run (step sdk) ⟨m, []⟩ ops).tx
    let weight := (((firsts config.signers).filter fun s => brought sdk body ops s.publicKey).map
      SignerRequirement.weight).sum
    tx.currentWeight = weight ∧ (tx.isReadyToSubmit = true ↔ config.threshold ≤ weight) := by
  intro tx weight
  obtain ⟨hinv, hkeys⟩ := buildTransaction_inv hprepare h
  have hkept := kept_run hinv hkeys ops
  have hweight : weightOf config.signers tx.transaction.keys = weight := by
    rw [weightOf]
    simp only [weight]
    congr 2
    refine List.filter_congr fun s hs => ?_
    have hs' : s.publicKey ∈ config.signers.map SignerRequirement.publicKey :=
      List.mem_map_of_mem (mem_of_mem_firsts hs)
    rw [Bool.eq_iff_iff, decide_eq_true_eq]
    exact hkept.keys s.publicKey hs'
  refine ⟨hkept.inv.weight.trans hweight, ?_⟩
  rw [hkept.inv.ready, hweight, decide_eq_true_eq]

/-- Whatever is brought and submitted, what is sent is the prepared transaction with valid signatures of
different signers whose weights reach the threshold, and the envelope to hand on is that transaction
with all the signatures taken so far. -/
theorem submitted_run {invocations : List ι} {fee : String}
    {prepare : List ι → MultisigConfig → Except BuilderError (β × String)}
    (hprepare : prepare invocations config = .ok (body, fee))
    (h : buildTransaction sdk invocations config prepare = .ok m) (ops : List BuilderOp) :
    let s := run (step sdk) ⟨m, []⟩ ops
    (∀ t ∈ s.sent, Signed sdk config body t ∧ config.threshold ≤ weightOf config.signers t.keys) ∧
      Signed sdk config body s.tx.transaction ∧
      s.tx.transactionXdr = sdk.toXDR body s.tx.transaction.signatures := by
  intro s
  obtain ⟨hinv, hkeys⟩ := buildTransaction_inv hprepare h
  have hkept := kept_run hinv hkeys ops
  refine ⟨hkept.sent, hkept.inv.signed, ?_⟩
  rw [hkept.inv.xdr, Transaction.toXDR, hkept.inv.signed.same]

end Builder

/-! ## Three signers, two of them with one key -/

def plainSdk : Sdk String where
  verify publicKey body signature := signature = publicKey ++ ":" ++ body
  toXDR body signatures := body ++ "|" ++ ",".intercalate (signatures.map Prod.snd)

def threeSigners : MultisigConfig where
  threshold := 3
  signers := [⟨"a", true, 1⟩, ⟨"a", false, 5⟩, ⟨"b", false, 2⟩]
  timeout := 600

def prepareSwap (invocations : List String) (_ : MultisigConfig) : Except BuilderError (String × String) :=
  .ok ("+".intercalate invocations, "1500")

def swapTx : MultisigTransaction String where
  transaction := ⟨"swap", []⟩
  transactionXdr := "swap|"
  currentWeight := 0
  requiredThreshold := 3
  isReadyToSubmit := false
  signers := [⟨"a", false, 1⟩, ⟨"a", false, 5⟩, ⟨"b", false, 2⟩]
  minResourceFee := "1500"

def bothSign : List BuilderOp :=
  [.addSignature "b" "b:swap", .submitTransaction, .addSignature "c" "c:swap", .addSignature "a" "a:swop",
    .addSignature "a" "a:swap", .addSignature "a" "a:swap", .submitTransaction]

theorem weight_run_bothSign :
    (run (step plainSdk) ⟨swapTx, []⟩ bothSign).tx.currentWeight = 3 := by
  have hprepare : prepareSwap ["swap"] threeSigners = .ok ("swap", "1500") := rfl
  have hbuild : buildTransaction plainSdk ["swap"] threeSigners prepareSwap = .ok swapTx := by decide
  exact (weight_run hprepare hbuild bothSign).1.trans (by decide)

theorem submitted_run_bothSign :
    (run (step plainSdk) ⟨swapTx, []⟩ bothSign).sent = [⟨"swap", [("b", "b:swap"), ("a", "a:swap")]⟩] ∧
      ∀ t ∈ (run (step plainSdk) ⟨swapTx, []⟩ bothSign).sent,
        Signed plainSdk threeSigners "swap" t ∧ 3 ≤ weightOf threeSigners.signers t.keys := by
  have hprepare : prepareSwap ["swap"] threeSigners = .ok ("swap", "1500") := rfl
  have hbuild : buildTransaction plainSdk ["swap"] threeSigners prepareSwap = .ok swapTx := by decide
  exact ⟨by decide, (submitted_run hprepare hbuild bothSign).1⟩

end MultisigTransactionBuilder
end Soroban
end TradeCore
