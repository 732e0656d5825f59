import TradeCore.Wallet.MultisigAccount

/-!
# TradeCore.Wallet.MultisigPool

The signing pool of one multisig transaction: what `propose` stores, and `addSignature` calls
interleaved, one database statement a step.

Each call counts the pooled weight inside its own transaction, which sees committed signatures and its
own, not those of calls that have not committed yet. READY is stored only with enough weight, in every
interleaving; that a transaction with enough weight has left PENDING_SIGNATURES needs calls that do not
overlap between their insert and their commit (`pool_status`). A call made after the deadline leaves the
transaction EXPIRED, whatever its weight (`pool_counterexamples`).
-/

namespace TradeCore
namespace Wallets

open Lib

inductive MultisigTransactionStatus where
  | pendingSignatures
  | ready
  | submitted
  | failed
  | expired
  | cancelled
  deriving DecidableEq, Repr

def MultisigTransactionStatus.text : MultisigTransactionStatus → String
  | pendingSignatures => "pending_signatures"
  | ready => "ready"
  | submitted => "submitted"
  | failed => "failed"
  | expired => "expired"
  | cancelled => "cancelled"

inductive ThresholdCategory where
  | low
  | medium
  | high
  deriving DecidableEq, Repr

structure MultisigTransaction where
  id : Uuid
  walletId : Uuid
  sourceAccount : String
  unsignedXdr : String
  description : Option String
  requiredWeight : Nat
  thresholdCategory : ThresholdCategory
  status : MultisigTransactionStatus
  createdByUserId : Uuid
  networkPassphrase : String
  submittedTxHash : Option String
  failureReason : Option String
  expiresAt : Option Time
  deriving DecidableEq, Repr

structure MultisigSignature where
  signerPublicKey : String
  signatureXdr : String
  weight : Nat
  signedByUserId : Option Uuid
  deriving DecidableEq, Repr

structure AddSignatureDto where
  walletId : Option Uuid
  signerPublicKey : Option String
  signatureXdr : Option String
  deriving DecidableEq, Repr

/-! ## Propose -/

/-- What `propose` reads of a classic transaction envelope. -/
structure ParsedTx where
  source : String
  operations : List String
  maxTime : Option Nat
  deriving DecidableEq, Repr

def highThresholdOps : List String := ["setOptions", "accountMerge"]

def lowThresholdOps : List String := ["allowTrust", "bumpSequence", "setTrustLineFlags"]

/-- The highest category among the operations: 0 is low, 1 medium and 2 high. -/
def determineThresholdCategory (operations : List String) : ThresholdCategory :=
  let rank := operations.foldl (fun rank op =>
    max rank (if op ∈ highThresholdOps then 2 else if op ∈ lowThresholdOps then 0 else 1)) 0
  if rank = 2 then .high else if rank = 0 then .low else .medium

def requiredWeightForCategory (category : ThresholdCategory) (t : Thresholds) : Nat :=
  max (match category with
    | .high => t.high
    | .low => t.low
    | .medium => t.med) 1

def extractExpiry (tx : ParsedTx) : Option Time :=
  match tx.maxTime with
  | some seconds => if seconds ≠ 0 then some (seconds * 1000) else none
  | none => none

/-- The row that `propose` stores for a parsed envelope. -/
def propose (wallet : Wallet) (tx : ParsedTx) (config : AccountSignersSummary) (id userId : Uuid)
    (unsignedXdr passphrase : String) (description : Option String) :
    Except HttpError MultisigTransaction :=
  if tx.operations = [] then .error (.badRequest "Transaction has no operations")
  else if tx.source ≠ wallet.publicKey then
    .error (.badRequest "Transaction source account does not match the wallet")
  else
    let category := determineThresholdCategory tx.operations
    .ok {
      id
      walletId := wallet.id
      sourceAccount := wallet.publicKey
      unsignedXdr
      description
      requiredWeight := requiredWeightForCategory category config.thresholds
      thresholdCategory := category
      status := .pendingSignatures
      createdByUserId := userId
      networkPassphrase := passphrase
      submittedTxHash := none
      failureReason := none
      expiresAt := extractExpiry tx }

theorem requiredWeight_pos {wallet : Wallet} {tx : ParsedTx} {config : AccountSignersSummary}
    {id userId : Uuid} {xdr passphrase : String} {description : Option String}
    {row : MultisigTransaction}
    (h : propose wallet tx config id userId xdr passphrase description = .ok row) :
    1 ≤ row.requiredWeight ∧ row.status = .pendingSignatures := by
  unfold propose at h
  split at h
  · cases h
  · split at h
    · cases h
    · cases h
      exact ⟨Nat.le_max_right _ _, rfl⟩

/-! ## What a call answers -/

structure SignatureStatus where
  signerPublicKey : String
  weight : Nat
  signedByUserId : Option Uuid
  deriving DecidableEq, Repr

structure MultisigTxStatus where
  id : Uuid
  walletId : Uuid
  sourceAccount : String
  status : MultisigTransactionStatus
  thresholdCategory : ThresholdCategory
  description : Option String
  requiredWeight : Nat
  currentWeight : Nat
  isReadyToSubmit : Bool
  submittedTxHash : Option String
  failureReason : Option String
  expiresAt : Option Time
  createdByUserId : Uuid
  signatures : List SignatureStatus
  deriving DecidableEq, Repr

def weightOf (signatures : List MultisigSignature) : Nat := (signatures.map MultisigSignature.weight).sum

def buildStatus (tx : MultisigTransaction) (signatures : List MultisigSignature) : MultisigTxStatus where
  id := tx.id
  walletId := tx.walletId
  sourceAccount := tx.sourceAccount
  status := tx.status
  thresholdCategory := tx.thresholdCategory
  description := tx.description
  requiredWeight := tx.requiredWeight
  currentWeight := weightOf signatures
  isReadyToSubmit := tx.status = .ready
  submittedTxHash := tx.submittedTxHash
  failureReason := tx.failureReason
  expiresAt := tx.expiresAt
  createdByUserId := tx.createdByUserId
  signatures := signatures.map fun s => ⟨s.signerPublicKey, s.weight, s.signedByUserId⟩

/-! ## Adding signatures -/

inductive MultisigEvent where
  | signed (transactionId : Uuid) (signerPublicKey : String) (weight : Nat)
  | ready (transactionId : Uuid)
  | submitted (transactionId : Uuid) (hash : String)
  | failed (transactionId : Uuid) (reason : String)
  deriving DecidableEq, Repr

/-- The committed row and signatures, the signers with an uncommitted signature, the lock of the row
and the events. -/
structure Pool where
  tx : MultisigTransaction
  signatures : List MultisigSignature
  inserting : List String
  txLocked : Bool
  emitted : List MultisigEvent

/-- The check of a signature against an envelope, and the signing with a key the server keeps. -/
structure Signing where
  verify : (signerPublicKey signatureXdr unsignedXdr networkPassphrase : String) → Bool
  createDecoratedSignature : (walletId userId : Uuid) → (unsignedXdr : String) →
    Except HttpError (String × String)

/-- What a step learns from outside: the clock, whether its statement fails and what Horizon answers. A
save of the row fails, too, when the signatures it was read with are no longer all there are. -/
structure PoolEnv where
  now : Time
  fault : Bool
  signers : Except HttpError (List Signer)

structure AddSignature where
  txId : Uuid
  userId : Uuid
  dto : AddSignatureDto

/-- Where a call stands: before the statement its constructor names, with the row it has read. -/
inductive PoolCall where
  | start (op : AddSignature)
  | expire (tx : MultisigTransaction)
  | check (tx : MultisigTransaction) (op : AddSignature)
  | existing (tx : MultisigTransaction) (signature : MultisigSignature)
  | insert (tx : MultisigTransaction) (signature : MultisigSignature)
  | tally (tx : MultisigTransaction) (signature : MultisigSignature)
  | flip (tx : MultisigTransaction) (signature : MultisigSignature) (signatures : List MultisigSignature)
  | commit (tx : MultisigTransaction) (signature : MultisigSignature)
      (signatures : List MultisigSignature) (becameReady : Bool)
  | rollback (inserted : Option String) (e : HttpError)

abbrev PoolTask := Task PoolCall (Except HttpError MultisigTxStatus)

def resolveSignature (sdk : Signing) (tx : MultisigTransaction) (userId : Uuid) (dto : AddSignatureDto) :
    Except HttpError (String × String × Option Uuid) :=
  match dto.walletId, dto.signerPublicKey, dto.signatureXdr with
  | some walletId, none, none =>
    match sdk.createDecoratedSignature walletId userId tx.unsignedXdr with
    | .error e => .error e
    | .ok (signer, signature) => .ok (signer, signature, some userId)
  | some _, _, _ => .error (.badRequest
      "Provide either walletId (server-side) or signerPublicKey + signatureXdr (external), not both")
  | none, none, none => .error (.badRequest
      "Provide either walletId (server-side) or signerPublicKey + signatureXdr (external)")
  | none, some signer, some signature => .ok (signer, signature, none)
  | none, _, _ => .error (.badRequest
      "Both signerPublicKey and signatureXdr are required for an external signature")

/-- The checks between the read of the row and the transaction: the signature that is to be stored. -/
def eligible (sdk : Signing) (env : PoolEnv) (tx : MultisigTransaction) (op : AddSignature) :
    Except HttpError MultisigSignature := do
  let (signer, signatureXdr, signedByUserId) ← resolveSignature sdk tx op.userId op.dto
  let signers ← env.signers
  match signers.find? fun s => s.key = signer ∧ 0 < s.weight with
  | none => .error (.forbidden s!"{signer} is not an eligible signer on this account")
  | some entry =>
    if sdk.verify signer signatureXdr tx.unsignedXdr tx.networkPassphrase then
      .ok ⟨signer, signatureXdr, entry.weight, signedByUserId⟩
    else .error (.badRequest "Signature does not verify against the transaction")

def expiredError : HttpError := .badRequest
  "Transaction has expired (timebounds elapsed) and can no longer be signed or broadcast"

/-- `expiresAt <= Date.now()`. -/
def MultisigTransaction.elapsed (tx : MultisigTransaction) (now : Time) : Bool :=
  match tx.expiresAt with
  | some t => t ≤ now
  | none => false

def Pool.release (p : Pool) (inserted : Option String) : Pool :=
  { p with inserting := inserted.elim p.inserting p.inserting.erase }

def addSignature (sdk : Signing) (env : PoolEnv) (call : PoolCall) (p : Pool) : Pool × PoolTask :=
  match call with
  | .start op =>
    if env.fault then (p, .done (.error databaseError))
    else if op.txId ≠ p.tx.id then
      let txId := op.txId
      (p, .done (.error (.notFound s!"Multi-sig transaction {txId} not found")))
    else if p.tx.status ≠ .pendingSignatures then
      let status := p.tx.status.text
      (p, .done (.error (.badRequest s!"Cannot add signatures to a transaction in status {status}")))
    else if p.tx.elapsed env.now then (p, .running (.expire p.tx))
    else (p, .running (.check p.tx op))
  | .expire tx =>
    if env.fault then (p, .done (.error databaseError))
    else if p.txLocked then (p, .running (.expire tx))
    else ({ p with tx := { tx with status := .expired } }, .done (.error expiredError))
  | .check tx op =>
    match eligible sdk env tx op with
    | .error e => (p, .done (.error e))
    | .ok signature => (p, .running (.existing tx signature))
  | .existing tx signature =>
    let signer := signature.signerPublicKey
    if env.fault then (p, .running (.rollback none databaseError))
    else if signer ∈ p.signatures.map MultisigSignature.signerPublicKey then
      (p, .running (.rollback none (.conflict s!"{signer} has already signed this transaction")))
    else (p, .running (.insert tx signature))
  | .insert tx signature =>
    if env.fault then (p, .running (.rollback none databaseError))
    -- the unique index: an uncommitted row of the same signer is waited for, a committed one refused
    else if signature.signerPublicKey ∈ p.inserting then (p, .running (.insert tx signature))
    else if signature.signerPublicKey ∈ p.signatures.map MultisigSignature.signerPublicKey then
      (p, .running (.rollback none databaseError))
    else ({ p with inserting := signature.signerPublicKey :: p.inserting },
      .running (.tally tx signature))
  | .tally tx signature =>
    if env.fault then (p, .running (.rollback (some signature.signerPublicKey) databaseError))
    else
      let signatures := p.signatures ++ [signature]
      if tx.requiredWeight ≤ weightOf signatures then (p, .running (.flip tx signature signatures))
      else (p, .running (.commit tx signature signatures false))
  | .flip tx signature signatures =>
    if env.fault then (p, .running (.rollback (some signature.signerPublicKey) databaseError))
    else if p.txLocked then (p, .running (.flip tx signature signatures))
    else ({ p with txLocked := true }, .running (.commit tx signature signatures true))
  | .commit tx signature signatures becameReady =>
    let p' := p.release (some signature.signerPublicKey)
    let p' := if becameReady then { p' with txLocked := false } else p'
    if env.fault then (p', .done (.error databaseError))
    else ({ p' with
        tx := if becameReady then { tx with status := .ready } else p.tx
        signatures := p.signatures ++ [signature]
        emitted := p.emitted ++ .signed tx.id signature.signerPublicKey signature.weight ::
          if becameReady then [.ready tx.id] else [] },
      .done (.ok (buildStatus (if becameReady then { tx with status := .ready } else tx) signatures)))
  | .rollback inserted e => (p.release inserted, .done (.error e))

def poolProc (sdk : Signing) :
    Proc Pool PoolEnv AddSignature PoolCall (Except HttpError MultisigTxStatus) :=
  ⟨.start, addSignature sdk⟩

/-- The pool of a transaction that has just been proposed. -/
def Pool.init (tx : MultisigTransaction) : Pool := ⟨tx, [], [], false, []⟩

/-! ## What one step does -/

/-- The signer whose uncommitted signature a call has stored. -/
def PoolCall.holds : PoolCall → List String
  | .tally _ s | .flip _ s _ | .commit _ s _ _ => [s.signerPublicKey]
  | .rollback inserted _ => inserted.toList
  | _ => []

/-- The row a call has read. -/
def PoolCall.row : PoolCall → Option MultisigTransaction
  | .expire tx | .check tx _ | .existing tx _ | .insert tx _ | .tally tx _ | .flip tx _ _ | .commit tx _ _ _ =>
    some tx
  | _ => none

section Step

variable {sdk : Signing} {env : PoolEnv} {call : PoolCall} {p : Pool}

/-- A step expires the transaction, commits a signature, or leaves both as they are. -/
theorem addSignature_cases (sdk : Signing) (env : PoolEnv) (call : PoolCall) (p : Pool) :
    (∃ tx e, call = .expire tx ∧ (addSignature sdk env call p).1.tx = { tx with status := .expired } ∧
      (addSignature sdk env call p).1.signatures = p.signatures ∧
      (addSignature sdk env call p).2 = .done (.error e)) ∨
    (∃ tx s signatures b, call = .commit tx s signatures b ∧
      (addSignature sdk env call p).1.tx = (if b then { tx with status := .ready } else p.tx) ∧
      (addSignature sdk env call p).1.signatures = p.signatures ++ [s] ∧
      ∃ status, (addSignature sdk env call p).2 = .done (.ok status)) ∨
    ((addSignature sdk env call p).1.tx = p.tx ∧
      (addSignature sdk env call p).1.signatures = p.signatures) := by
  cases call with
  | expire tx =>
    simp only [addSignature]
    repeat' split
    · exact .inr (.inr ⟨rfl, rfl⟩)
    · exact .inr (.inr ⟨rfl, rfl⟩)
    · exact .inl ⟨tx, _, rfl, rfl, rfl, rfl⟩
  | commit tx s signatures b =>
    simp only [addSignature]
    split
    · cases b <;> exact .inr (.inr ⟨rfl, rfl⟩)
    · exact .inr (.inl ⟨tx, s, _, b, rfl, rfl, rfl, _, rfl⟩)
  | start op | check tx op | existing tx s | insert tx s | tally tx s | flip tx s signatures =>
    refine .inr (.inr ?_)
    simp only [addSignature]
    repeat' split
    all_goals exact ⟨rfl, rfl⟩
  | rollback inserted e => exact .inr (.inr ⟨rfl, rfl⟩)

/-- A step keeps what its call holds, takes a signer that nobody holds, or gives its own back. -/
theorem addSignature_holds (sdk : Signing) (env : PoolEnv) (call : PoolCall) (p : Pool) :
    ((addSignature sdk env call p).1.inserting = p.inserting ∧
      (addSignature sdk env call p).2.gather PoolCall.holds = call.holds) ∨
    (∃ tx s, call = .insert tx s ∧ s.signerPublicKey ∉ p.inserting ∧
      s.signerPublicKey ∉ p.signatures.map MultisigSignature.signerPublicKey ∧
      (addSignature sdk env call p).1.inserting = s.signerPublicKey :: p.inserting ∧
      (addSignature sdk env call p).2 = .running (.tally tx s)) ∨
    (∃ signer, call.holds = [signer] ∧
      (addSignature sdk env call p).1.inserting = p.inserting.erase signer ∧
      (addSignature sdk env call p).2.gather PoolCall.holds = []) := by
  cases call with
  | start op | expire tx | check tx op | existing tx s | tally tx s | flip tx s signatures =>
    refine .inl ?_
    simp only [addSignature]
    repeat' split
    all_goals exact ⟨rfl, rfl⟩
  | insert tx s =>
    simp only [addSignature]
    split
    · exact .inl ⟨rfl, rfl⟩
    · split
      · exact .inl ⟨rfl, rfl⟩
      · rename_i hfree
        split
        · exact .inl ⟨rfl, rfl⟩
        · rename_i hnew
          exact .inr (.inl ⟨tx, s, rfl, hfree, hnew, rfl, rfl⟩)
  | commit tx s signatures b =>
    refine .inr (.inr ⟨s.signerPublicKey, rfl, ?_⟩)
    simp only [addSignature]
    split <;> cases b <;> exact ⟨rfl, rfl⟩
  | rollback inserted e =>
    cases inserted with
    | none => exact .inl ⟨rfl, rfl⟩
    | some signer => exact .inr (.inr ⟨signer, rfl, rfl, rfl⟩)

/-- The moves of a call that goes on, with what the step has found. -/
inductive PoolNext (env : PoolEnv) (p : Pool) : PoolCall → PoolCall → Prop where
  | expire (op : AddSignature) (hpending : p.tx.status = .pendingSignatures)
      (helapsed : p.tx.elapsed env.now = true) : PoolNext env p (.start op) (.expire p.tx)
  | read (op : AddSignature) (hpending : p.tx.status = .pendingSignatures) :
      PoolNext env p (.start op) (.check p.tx op)
  | resolved (tx : MultisigTransaction) (op : AddSignature) (s : MultisigSignature) :
      PoolNext env p (.check tx op) (.existing tx s)
  | absent (tx : MultisigTransaction) (s : MultisigSignature) :
      PoolNext env p (.existing tx s) (.insert tx s)
  | inserted (tx : MultisigTransaction) (s : MultisigSignature) :
      PoolNext env p (.insert tx s) (.tally tx s)
  | enough {tx : MultisigTransaction} {s : MultisigSignature}
      (h : tx.requiredWeight ≤ weightOf (p.signatures ++ [s])) :
      PoolNext env p (.tally tx s) (.flip tx s (p.signatures ++ [s]))
  | below {tx : MultisigTransaction} {s : MultisigSignature}
      (h : weightOf (p.signatures ++ [s]) < tx.requiredWeight) :
      PoolNext env p (.tally tx s) (.commit tx s (p.signatures ++ [s]) false)
  | flipped (tx : MultisigTransaction) (s : MultisigSignature) (signatures : List MultisigSignature) :
      PoolNext env p (.flip tx s signatures) (.commit tx s signatures true)
  | wait (call : PoolCall) : PoolNext env p call call
  | fail (call : PoolCall) (inserted : Option String) (e : HttpError) :
      PoolNext env p call (.rollback inserted e)

theorem poolNext_of_running {call' : PoolCall} (h : (addSignature sdk env call p).2 = .running call') :
    PoolNext env p call call' := by
  cases call with
  | start op =>
    simp only [addSignature] at h
    split at h
    · cases h
    · split at h
      · cases h
      · split at h
        · cases h
        · rename_i hstatus
          have hpending : p.tx.status = .pendingSignatures := Decidable.not_not.mp hstatus
          split at h
          · rename_i helapsed
            cases h
            exact .expire op hpending helapsed
          · cases h
            exact .read op hpending
  | expire tx =>
    simp only [addSignature] at h
    repeat' split at h
    all_goals cases h
    exact .wait _
  | check tx op =>
    simp only [addSignature] at h
    split at h <;> cases h
    exact .resolved ..
  | existing tx s =>
    simp only [addSignature] at h
    repeat' split at h
    all_goals cases h
    · exact .fail ..
    · exact .fail ..
    · exact .absent ..
  | insert tx s =>
    simp only [addSignature] at h
    repeat' split at h
    all_goals cases h
    · exact .fail ..
    · exact .wait _
    · exact .fail ..
    · exact .inserted ..
  | tally tx s =>
    simp only [addSignature] at h
    split at h
    · cases h
      exact .fail ..
    · split at h
      · rename_i henough
        cases h
        exact .enough henough
      · rename_i hbelow
        cases h
        exact .below (Nat.not_le.mp hbelow)
  | flip tx s signatures =>
    simp only [addSignature] at h
    repeat' split at h
    all_goals cases h
    · exact .fail ..
    · exact .wait _
    · exact .flipped ..
  | commit tx s signatures b =>
    simp only [addSignature] at h
    split at h <;> cases h
  | rollback inserted e => cases h

end Step

/-! ## What holds in every interleaving -/

theorem weightOf_snoc (l : List MultisigSignature) (s : MultisigSignature) :
    weightOf (l ++ [s]) = weightOf l + s.weight := by
  simp [weightOf]

/-- A call that is about to store READY has seen enough weight, and there is no less of it now. -/
def PoolCall.Enough (tx : MultisigTransaction) (signatures : List MultisigSignature) : PoolCall → Prop
  | .flip _ s _ | .commit _ s _ true => tx.requiredWeight ≤ weightOf signatures + s.weight
  | _ => True

structure PoolSound (tx : MultisigTransaction) (p : Pool) (ts : List PoolTask) : Prop where
  row : p.tx = { tx with status := p.tx.status }
  rows : AllRunning (fun k => ∀ r ∈ k.row, r = tx) ts
  holds : p.inserting.Perm (gather PoolCall.holds ts)
  exclusive : p.inserting.Nodup
  absent : ∀ s ∈ p.inserting, s ∉ p.signatures.map MultisigSignature.signerPublicKey
  signers : (p.signatures.map MultisigSignature.signerPublicKey).Nodup
  status : p.tx.status = .pendingSignatures ∨ p.tx.status = .ready ∨ p.tx.status = .expired
  ready : p.tx.status = .ready → tx.requiredWeight ≤ weightOf p.signatures
  enough : AllRunning (PoolCall.Enough tx p.signatures) ts

section Sound

variable {sdk : Signing} {env : PoolEnv} {call : PoolCall} {p : Pool} {tx : MultisigTransaction}
  {ts pre post : List PoolTask}

theorem PoolCall.Enough.mono {l l' : List MultisigSignature} (h : call.Enough tx l)
    (hle : weightOf l ≤ weightOf l') : call.Enough tx l' := by
  cases call with
  | flip tx' s signatures =>
    have h : tx.requiredWeight ≤ weightOf l + s.weight := h
    show tx.requiredWeight ≤ weightOf l' + s.weight
    omega
  | commit tx' s signatures b =>
    cases b with
    | false => trivial
    | true =>
      have h : tx.requiredWeight ≤ weightOf l + s.weight := h
      show tx.requiredWeight ≤ weightOf l' + s.weight
      omega
  | start op => trivial
  | expire tx' => trivial
  | check tx' op => trivial
  | existing tx' s => trivial
  | insert tx' s => trivial
  | tally tx' s => trivial
  | rollback inserted e => trivial

/-- A row that is read while the transaction is PENDING is the proposed one. -/
theorem PoolNext.rows {call' : PoolCall} (h : PoolNext env p call call')
    (hpending : tx.status = .pendingSignatures) (hrow : p.tx = { tx with status := p.tx.status })
    (hk : ∀ r ∈ call.row, r = tx) : ∀ r ∈ call'.row, r = tx := by
  have hread : p.tx.status = .pendingSignatures → p.tx = tx := by
    intro hp
    rw [hrow, hp, ← hpending]
  cases h with
  | expire op hp _ =>
    rintro r hr
    cases hr
    exact hread hp
  | read op hp =>
    rintro r hr
    cases hr
    exact hread hp
  | fail => exact fun r hr => by cases hr
  | resolved => exact hk
  | absent => exact hk
  | inserted => exact hk
  | enough => exact hk
  | below => exact hk
  | flipped => exact hk
  | wait => exact hk

theorem PoolNext.enough_of {call' : PoolCall} (h : PoolNext env p call call')
    (hrow : ∀ r ∈ call.row, r = tx) (hk : call.Enough tx p.signatures) :
    call'.Enough tx p.signatures := by
  cases h with
  | enough h =>
    rw [weightOf_snoc, hrow _ rfl] at h
    exact h
  | flipped => exact hk
  | wait => exact hk
  | expire => trivial
  | read => trivial
  | resolved => trivial
  | absent => trivial
  | inserted => trivial
  | below => trivial
  | fail => trivial

theorem holds_advance (sdk : Signing) (env : PoolEnv)
    (h : Exclusive PoolCall.holds p.inserting (pre ++ .running call :: post)) :
    Exclusive PoolCall.holds (addSignature sdk env call p).1.inserting
      (pre ++ (addSignature sdk env call p).2 :: post) := by
  obtain ⟨hins, hheld⟩ | ⟨tx, s, rfl, hfree, -, hins, ht⟩ | ⟨signer, hone, hins, hheld⟩ :=
    addSignature_holds sdk env call p
  · rw [hins]
    exact h.keep hheld
  · rw [hins, ht]
    exact h.acquire rfl hfree rfl
  · rw [hins]
    exact h.release hone hheld

theorem absent_advance (sdk : Signing) (env : PoolEnv) (h : PoolSound tx p (pre ++ .running call :: post)) :
    (∀ s ∈ (addSignature sdk env call p).1.inserting,
        s ∉ (addSignature sdk env call p).1.signatures.map MultisigSignature.signerPublicKey) ∧
      ((addSignature sdk env call p).1.signatures.map MultisigSignature.signerPublicKey).Nodup := by
  have hmem : ∀ signer, call.holds = [signer] → signer ∈ p.inserting := by
    intro signer hone
    refine h.holds.mem_iff.mpr (mem_gather_here ?_)
    rw [hone]
    exact List.mem_singleton.mpr rfl
  obtain ⟨hins, hheld⟩ | ⟨tx', s, rfl, hfree, hnew, hins, ht⟩ | ⟨signer, hone, hins, hheld⟩ :=
    addSignature_holds sdk env call p
  · obtain ⟨tx', e, rfl, -, hsigs, -⟩ | ⟨tx', s, _, b, rfl, -, -, _, hdone⟩ | ⟨-, hsigs⟩ :=
      addSignature_cases sdk env call p
    · rw [hins, hsigs]
      exact ⟨h.absent, h.signers⟩
    · rw [hdone] at hheld
      cases hheld
    · rw [hins, hsigs]
      exact ⟨h.absent, h.signers⟩
  · obtain ⟨tx'', e, hcall, -⟩ | ⟨tx'', s', _, b, hcall, -⟩ | ⟨-, hsigs⟩ :=
      addSignature_cases sdk env (.insert tx' s) p
    · cases hcall
    · cases hcall
    · rw [hins, hsigs]
      refine ⟨fun x hx => ?_, h.signers⟩
      rcases List.mem_cons.mp hx with rfl | hx
      · exact hnew
      · exact h.absent x hx
  · obtain ⟨tx', e, rfl, -⟩ | ⟨tx', s, _, b, rfl, -, hsigs, -⟩ | ⟨-, hsigs⟩ :=
      addSignature_cases sdk env call p
    · cases hone
    · have hs : s.signerPublicKey ∈ p.inserting := hmem _ rfl
      have hone : s.signerPublicKey = signer := List.singleton_inj.mp hone
      rw [hins, hsigs, List.map_append]
      refine ⟨fun x hx => ?_, ?_⟩
      · rw [List.mem_append, List.map_singleton, List.mem_singleton, not_or]
        refine ⟨h.absent x (List.mem_of_mem_erase hx), fun hxs => ?_⟩
        rw [hxs, hone] at hx
        exact (h.exclusive.mem_erase_iff.mp hx).1 rfl
      · rw [List.nodup_append]
        refine ⟨h.signers, by simp, fun a ha b hb hab => ?_⟩
        rw [List.map_singleton, List.mem_singleton] at hb
        rw [hab, hb] at ha
        exact h.absent _ hs ha
    · rw [hins, hsigs]
      exact ⟨fun x hx => h.absent x (List.mem_of_mem_erase hx), h.signers⟩

theorem PoolSound.advance (hpending : tx.status = .pendingSignatures)
    (h : PoolSound tx p (pre ++ .running call :: post)) :
    PoolSound tx (addSignature sdk env call p).1 (pre ++ (addSignature sdk env call p).2 :: post) := by
  obtain ⟨hholds, hexclusive⟩ := holds_advance sdk env ⟨h.holds, h.exclusive⟩
  obtain ⟨habsent, hsigners⟩ := absent_advance sdk env h
  have hrows : AllRunning (fun k => ∀ r ∈ k.row, r = tx)
      (pre ++ (addSignature sdk env call p).2 :: post) :=
    h.rows.replace fun k' hk' => (poolNext_of_running hk').rows hpending h.row h.rows.here
  have hgrow : weightOf p.signatures ≤ weightOf (addSignature sdk env call p).1.signatures := by
    obtain ⟨_, _, -, -, hsigs, -⟩ | ⟨_, s, _, _, -, -, hsigs, -⟩ | ⟨-, hsigs⟩ :=
      addSignature_cases sdk env call p
    · exact Nat.le_of_eq (by rw [hsigs])
    · rw [hsigs, weightOf_snoc]
      omega
    · exact Nat.le_of_eq (by rw [hsigs])
  have henough : AllRunning (PoolCall.Enough tx (addSignature sdk env call p).1.signatures)
      (pre ++ (addSignature sdk env call p).2 :: post) := by
    have hold : AllRunning (PoolCall.Enough tx p.signatures)
        (pre ++ (addSignature sdk env call p).2 :: post) :=
      h.enough.replace fun k' hk' => (poolNext_of_running hk').enough_of h.rows.here h.enough.here
    exact fun k hk => (hold k hk).mono hgrow
  obtain ⟨r, e, rfl, htx, -, -⟩ | ⟨r, s, _, b, rfl, htx, hsigs, -⟩ | ⟨htx, hsigs⟩ :=
    addSignature_cases sdk env call p
  · have hr : r = tx := h.rows.here r rfl
    subst hr
    refine ⟨by rw [htx], hrows, hholds, hexclusive, habsent, hsigners, .inr (.inr (by rw [htx])),
      fun hready => ?_, henough⟩
    rw [htx] at hready
    cases hready
  · have hr : r = tx := h.rows.here r rfl
    subst hr
    cases b with
    | true =>
      rw [if_pos rfl] at htx
      refine ⟨by rw [htx], hrows, hholds, hexclusive, habsent, hsigners, .inr (.inl (by rw [htx])),
        fun _ => ?_, henough⟩
      rw [hsigs, weightOf_snoc]
      exact h.enough.here
    | false =>
      rw [if_neg (by simp)] at htx
      refine ⟨by rw [htx]; exact h.row, hrows, hholds, hexclusive, habsent, hsigners,
        by rw [htx]; exact h.status, fun hready => ?_, henough⟩
      rw [htx] at hready
      exact Nat.le_trans (h.ready hready) hgrow
  · refine ⟨by rw [htx]; exact h.row, hrows, hholds, hexclusive, habsent, hsigners,
      by rw [htx]; exact h.status, fun hready => ?_, henough⟩
    rw [htx] at hready
    exact Nat.le_trans (h.ready hready) hgrow

theorem PoolSound.spawn (h : PoolSound tx p ts) (op : AddSignature) :
    PoolSound tx p (ts ++ [Task.running (PoolCall.start op)]) :=
  { h with
    rows := h.rows.spawn fun r hr => by cases hr
    holds := by rw [gather_spawn rfl]; exact h.holds
    enough := h.enough.spawn trivial }

theorem PoolSound.init (hpending : tx.status = .pendingSignatures) : PoolSound tx (Pool.init tx) [] where
  row := rfl
  rows := .nil
  holds := .nil
  exclusive := .nil
  absent _ h := by cases h
  signers := .nil
  status := .inl hpending
  ready h := by
    rw [Pool.init, hpending] at h
    cases h
  enough := .nil

end Sound

/-! ## Calls that do not overlap -/

def PoolCall.isInsert : PoolCall → Bool
  | .insert _ _ => true
  | _ => false

/-- A call inserts its signature only while no other call stands between its insert and its commit. -/
def InsertsAlone (_ : PoolEnv) (k : PoolCall) (_ : Pool) (ts : List PoolTask) : Prop :=
  k.isInsert = true → gather PoolCall.holds ts = []

instance (env : PoolEnv) (k : PoolCall) (p : Pool) (ts : List PoolTask) :
    Decidable (InsertsAlone env k p ts) :=
  inferInstanceAs (Decidable (k.isInsert = true → gather PoolCall.holds ts = []))

/-- A call that is about to commit without storing READY leaves the weight below. -/
def PoolCall.Below (tx : MultisigTransaction) (signatures : List MultisigSignature) : PoolCall → Prop
  | .commit _ s _ false => weightOf signatures + s.weight < tx.requiredWeight
  | _ => True

theorem PoolCall.below_of_free {call : PoolCall} {tx : MultisigTransaction}
    {signatures : List MultisigSignature} (h : call.holds = []) : call.Below tx signatures := by
  cases call with
  | commit tx' s signatures b => cases h
  | start op => trivial
  | expire tx' => trivial
  | check tx' op => trivial
  | existing tx' s => trivial
  | insert tx' s => trivial
  | tally tx' s => trivial
  | flip tx' s signatures => trivial
  | rollback inserted e => trivial

structure Tallied (tx : MultisigTransaction) (p : Pool) (ts : List PoolTask) : Prop where
  one : (gather PoolCall.holds ts).length ≤ 1
  below : AllRunning (PoolCall.Below tx p.signatures) ts
  pending : p.tx.status = .pendingSignatures → weightOf p.signatures < tx.requiredWeight

section Tallied

variable {sdk : Signing} {env : PoolEnv} {call : PoolCall} {p : Pool} {tx : MultisigTransaction}
  {ts pre post : List PoolTask}

theorem PoolNext.below_of {call' : PoolCall} (h : PoolNext env p call call')
    (hrow : ∀ r ∈ call.row, r = tx) (hk : call.Below tx p.signatures) :
    call'.Below tx p.signatures := by
  cases h with
  | below h =>
    rw [weightOf_snoc, hrow _ rfl] at h
    exact h
  | wait => exact hk
  | expire => trivial
  | read => trivial
  | resolved => trivial
  | absent => trivial
  | inserted => trivial
  | enough => trivial
  | flipped => trivial
  | fail => trivial

theorem one_advance (sdk : Signing) (env : PoolEnv)
    (halone : InsertsAlone env call p (pre ++ .running call :: post))
    (h : (gather PoolCall.holds (pre ++ .running call :: post)).length ≤ 1) :
    (gather PoolCall.holds (pre ++ (addSignature sdk env call p).2 :: post)).length ≤ 1 := by
  obtain ⟨-, hheld⟩ | ⟨tx, s, rfl, -, -, -, ht⟩ | ⟨signer, -, -, hheld⟩ :=
    addSignature_holds sdk env call p
  · rw [gather_congr hheld]
    exact h
  · have hnone := halone rfl
    rw [gather_split, List.append_eq_nil_iff, List.append_eq_nil_iff] at hnone
    obtain ⟨⟨hpre, -⟩, hpost⟩ := hnone
    rw [ht, gather_split, hpre, hpost]
    exact Nat.le_refl 1
  · rw [gather_split, List.length_append, List.length_append] at h
    rw [gather_split, List.length_append, List.length_append, hheld, List.length_nil]
    omega

theorem Tallied.advance (hs : PoolSound tx p (pre ++ .running call :: post))
    (halone : InsertsAlone env call p (pre ++ .running call :: post))
    (h : Tallied tx p (pre ++ .running call :: post)) :
    Tallied tx (addSignature sdk env call p).1 (pre ++ (addSignature sdk env call p).2 :: post) := by
  have hone := one_advance sdk env halone h.one
  obtain ⟨r, e, rfl, htx, hsigs, hdone⟩ | ⟨r, s, _, b, rfl, htx, hsigs, _, hdone⟩ | ⟨htx, hsigs⟩ :=
    addSignature_cases sdk env call p
  · refine ⟨hone, ?_, fun hpending => ?_⟩
    · rw [hsigs, hdone]
      exact h.below.replace fun k' hk' => by cases hk'
    · rw [htx] at hpending
      cases hpending
  · refine ⟨hone, ?_, fun hpending => ?_⟩
    · -- no other call holds a signature, so none is about to commit one
      rw [hdone]
      intro k hk
      obtain ⟨hpre, hpost⟩ := others_of_gather_le_one h.one (List.mem_singleton.mpr rfl)
      have hother : .running k ∈ pre ∨ .running k ∈ post := by simpa using hk
      exact PoolCall.below_of_free (hother.elim (free_of_gather_nil hpre k) (free_of_gather_nil hpost k))
    · cases b with
      | true =>
        rw [htx, if_pos rfl] at hpending
        cases hpending
      | false =>
        rw [hsigs, weightOf_snoc]
        exact h.below.here
  · refine ⟨hone, ?_, ?_⟩
    · rw [hsigs]
      exact h.below.replace fun k' hk' =>
        (poolNext_of_running hk').below_of hs.rows.here h.below.here
    · rw [htx, hsigs]
      exact h.pending

theorem Tallied.spawn (h : Tallied tx p ts) (op : AddSignature) :
    Tallied tx p (ts ++ [Task.running (PoolCall.start op)]) :=
  { h with
    one := by rw [gather_spawn rfl]; exact h.one
    below := h.below.spawn trivial }

end Tallied

/-! ## Calls made before the deadline -/

def BeforeDeadline (tx : MultisigTransaction) (env : PoolEnv) (_ : PoolCall) (_ : Pool)
    (_ : List PoolTask) : Prop :=
  tx.elapsed env.now = false

structure InTime (p : Pool) (ts : List PoolTask) : Prop where
  status : p.tx.status ≠ .expired
  calls : AllRunning (fun k => ∀ r, k ≠ .expire r) ts

section InTime

variable {sdk : Signing} {env : PoolEnv} {call : PoolCall} {p : Pool} {tx : MultisigTransaction}
  {ts pre post : List PoolTask}

theorem InTime.advance (hs : PoolSound tx p (pre ++ .running call :: post))
    (hbefore : BeforeDeadline tx env call p (pre ++ .running call :: post))
    (h : InTime p (pre ++ .running call :: post)) :
    InTime (addSignature sdk env call p).1 (pre ++ (addSignature sdk env call p).2 :: post) := by
  have hcalls : AllRunning (fun k => ∀ r, k ≠ .expire r)
      (pre ++ (addSignature sdk env call p).2 :: post) := by
    refine h.calls.replace fun k' hk' r hr => ?_
    subst hr
    cases poolNext_of_running hk' with
    | expire op _ helapsed =>
      have hexpiry : p.tx.elapsed env.now = tx.elapsed env.now := by rw [hs.row]; rfl
      rw [hexpiry, hbefore] at helapsed
      cases helapsed
    | wait => exact h.calls.here r rfl
  obtain ⟨r, e, rfl, -⟩ | ⟨r, s, _, b, rfl, htx, -⟩ | ⟨htx, -⟩ := addSignature_cases sdk env call p
  · exact absurd rfl (h.calls.here r)
  · refine ⟨?_, hcalls⟩
    cases b with
    | true =>
      rw [htx, if_pos rfl]
      exact fun h => by cases h
    | false =>
      rw [htx, if_neg (by simp)]
      exact h.status
  · refine ⟨?_, hcalls⟩
    rw [htx]
    exact h.status

end InTime

/-! ## Runs -/

section Runs

variable {tx : MultisigTransaction}

/-- The transaction after `acts`, with the calls made so far. -/
def poolRun (sdk : Signing) (tx : MultisigTransaction) (acts : List (Act PoolEnv AddSignature)) :
    Conf Pool PoolCall (Except HttpError MultisigTxStatus) :=
  run (poolProc sdk).step (Conf.init (Pool.init tx)) acts

theorem pool_sound (sdk : Signing) (hpending : tx.status = .pendingSignatures)
    (acts : List (Act PoolEnv AddSignature)) :
    PoolSound tx (poolRun sdk tx acts).shared (poolRun sdk tx acts).tasks := by
  refine run_inv (s := Conf.init (Pool.init tx)) (I := fun c => PoolSound tx c.shared c.tasks)
    (step_inv (poolProc sdk) (I := PoolSound tx) (fun s ts op _ h => h.spawn op)
      fun s pre k post e _ h => h.advance hpending)
    (PoolSound.init hpending) (along_of_spawns (poolProc sdk) (S := fun _ => True) ?_ _)
  exact fun _ _ => trivial

theorem pool_tallied (sdk : Signing) (hpending : tx.status = .pendingSignatures)
    (hrequired : 1 ≤ tx.requiredWeight) {acts : List (Act PoolEnv AddSignature)}
    (halone : Along (poolProc sdk).step (Meets (fun _ => True) InsertsAlone)
      (Conf.init (Pool.init tx)) acts) :
    Tallied tx (poolRun sdk tx acts).shared (poolRun sdk tx acts).tasks := by
  have hstart : Tallied tx (Pool.init tx) [] := ⟨Nat.zero_le 1, .nil, fun _ => hrequired⟩
  have := run_inv (s := Conf.init (Pool.init tx))
    (I := fun c => PoolSound tx c.shared c.tasks ∧ Tallied tx c.shared c.tasks)
    (step_inv (poolProc sdk) (I := fun s ts => PoolSound tx s ts ∧ Tallied tx s ts)
      (fun s ts op _ h => ⟨h.1.spawn op, h.2.spawn op⟩)
      fun s pre k post e hG h => ⟨h.1.advance hpending, h.2.advance h.1 hG⟩)
    ⟨PoolSound.init hpending, hstart⟩ halone
  exact this.2

theorem pool_inTime (sdk : Signing) (hpending : tx.status = .pendingSignatures)
    {acts : List (Act PoolEnv AddSignature)}
    (hbefore : ∀ i e, .sched i e ∈ acts → tx.elapsed e.now = false) :
    InTime (poolRun sdk tx acts).shared (poolRun sdk tx acts).tasks := by
  have hstart : InTime (Pool.init tx) [] :=
    ⟨by rw [Pool.init, hpending]; exact MultisigTransactionStatus.noConfusion, .nil⟩
  have := run_inv (s := Conf.init (Pool.init tx))
    (I := fun c => PoolSound tx c.shared c.tasks ∧ InTime c.shared c.tasks)
    (step_inv (poolProc sdk) (I := fun s ts => PoolSound tx s ts ∧ InTime s ts)
      (fun s ts op _ h => ⟨h.1.spawn op, h.2.status, h.2.calls.spawn fun r hr => by cases hr⟩)
      fun s pre k post e hG h => ⟨h.1.advance hpending, h.2.advance h.1 hG⟩)
    ⟨PoolSound.init hpending, hstart⟩
    (along_of_acts (poolProc sdk) (S := fun _ => True) (G := BeforeDeadline tx)
      (fun _ _ => trivial) (fun i e he _ _ _ => hbefore i e he) _)
  exact this.2

end Runs

/-- In every state of every run of `addSignature` calls on a proposed transaction the signers are
distinct, READY goes with enough weight and EXPIRED with a call that ran after the deadline. In the runs
whose inserts do not overlap, PENDING_SIGNATURES goes with too little weight. -/
theorem pool_status (sdk : Signing) (wallet : Wallet) (parsed : ParsedTx)
    (config : AccountSignersSummary) (id userId : Uuid) (xdr passphrase : String)
    (description : Option String) (tx : MultisigTransaction)
    (h : propose wallet parsed config id userId xdr passphrase description = .ok tx)
    (acts : List (Act PoolEnv AddSignature)) :
    ((poolRun sdk tx acts).shared.signatures.map MultisigSignature.signerPublicKey).Nodup ∧
    (weightOf (poolRun sdk tx acts).shared.signatures < tx.requiredWeight →
      (poolRun sdk tx acts).shared.tx.status = .pendingSignatures ∨
        (poolRun sdk tx acts).shared.tx.status = .expired) ∧
    ((poolRun sdk tx acts).shared.tx.status = .ready →
      tx.requiredWeight ≤ weightOf (poolRun sdk tx acts).shared.signatures) ∧
    ((poolRun sdk tx acts).shared.tx.status = .expired →
      ∃ i e, .sched i e ∈ acts ∧ tx.elapsed e.now = true) ∧
    (Along (poolProc sdk).step (Meets (fun _ => True) InsertsAlone) (Conf.init (Pool.init tx)) acts →
      (poolRun sdk tx acts).shared.tx.status = .pendingSignatures →
      weightOf (poolRun sdk tx acts).shared.signatures < tx.requiredWeight) := by
  obtain ⟨hrequired, hpending⟩ := requiredWeight_pos h
  have hs := pool_sound sdk hpending acts
  refine ⟨hs.signers, fun hlt => ?_, hs.ready, fun hexpired => ?_, fun halone =>
    (pool_tallied sdk hpending hrequired halone).pending⟩
  · rcases hs.status with hp | hr | he
    · exact .inl hp
    · exact absurd (hs.ready hr) (Nat.not_le.mpr hlt)
    · exact .inr he
  · by_contra hnone
    refine (pool_inTime sdk hpending fun i e he => ?_).status hexpired
    cases helapsed : tx.elapsed e.now with
    | true => exact absurd ⟨i, e, he, helapsed⟩ hnone
    | false => rfl

/-! ## Two runs of a transaction that needs two signatures -/

namespace Shared

def wallet : Wallet := ⟨1, 5, "GVAULT", "iv:tag:key", none, .active, true⟩

def account : AccountSignersSummary := ⟨"GVAULT", 0, ⟨1, 2, 2⟩, [⟨"GALICE", 1⟩, ⟨"GBOB", 1⟩]⟩

/-- One payment that stays valid for nine seconds. -/
def payment : ParsedTx := ⟨"GVAULT", ["payment"], some 9⟩

def proposed : MultisigTransaction :=
  ⟨7, 1, "GVAULT", "AAAA", none, 2, .medium, .pendingSignatures, 5, "Test", none, none, some 9000⟩

theorem propose_payment :
    propose wallet payment account 7 5 "AAAA" "Test" none = .ok proposed := by
  decide

def sdk : Signing where
  verify signer signature _ _ := (signer, signature) ∈ [("GALICE", "SIGA"), ("GBOB", "SIGB")]
  createDecoratedSignature _ _ _ := .error (.notFound "Wallet not found")

def now (t : Time) : PoolEnv := ⟨t, false, .ok account.signers⟩

def byAlice : AddSignature := ⟨7, 5, ⟨none, some "GALICE", some "SIGA"⟩⟩

def byBob : AddSignature := ⟨7, 6, ⟨none, some "GBOB", some "SIGB"⟩⟩

/-- Both calls insert before either of them commits. -/
def overlapping : List (Act PoolEnv AddSignature) :=
  [.spawn byAlice, .spawn byBob, .sched 0 (now 1), .sched 0 (now 1), .sched 0 (now 1), .sched 0 (now 1),
    .sched 1 (now 1), .sched 1 (now 1), .sched 1 (now 1), .sched 1 (now 1), .sched 0 (now 1),
    .sched 1 (now 1), .sched 0 (now 1), .sched 1 (now 1)]

/-- One call, made after the deadline. -/
def tooLate : List (Act PoolEnv AddSignature) :=
  [.spawn byAlice, .sched 0 (now 9000), .sched 0 (now 9000)]

def oneByOne : List (Act PoolEnv AddSignature) :=
  .spawn byAlice :: List.replicate 6 (.sched 0 (now 1)) ++
    .spawn byBob :: List.replicate 7 (.sched 1 (now 1))

end Shared

open Shared in
theorem pool_counterexamples :
    ((poolRun sdk proposed tooLate).Quiet ∧
      weightOf (poolRun sdk proposed tooLate).shared.signatures < proposed.requiredWeight ∧
      (poolRun sdk proposed tooLate).shared.tx.status ≠ .pendingSignatures) ∧
    ((poolRun sdk proposed overlapping).Quiet ∧
      (poolRun sdk proposed overlapping).shared.tx.status = .pendingSignatures ∧
      proposed.requiredWeight ≤ weightOf (poolRun sdk proposed overlapping).shared.signatures) := by
  decide +kernel

open Shared in
/-- Two signatures, one after the other. -/
theorem pool_oneByOne :
    (poolRun sdk proposed oneByOne).shared.tx.status = .ready ∧
      proposed.requiredWeight ≤ weightOf (poolRun sdk proposed oneByOne).shared.signatures := by
  have hready : (poolRun sdk proposed oneByOne).shared.tx.status = .ready := by decide +kernel
  exact ⟨hready, (pool_status sdk wallet payment account 7 5 "AAAA" "Test" none proposed
    propose_payment oneByOne).2.2.1 hready⟩

end Wallets
end TradeCore
