import TradeCore.Lib.DecimalText
import TradeCore.Wallet.MultisigPool

/-!
# TradeCore.Wallet.Signing

The custodial signer: which requests get a signature from a key the server keeps.

`signTransaction` reads the wallet once and decides before the key is decrypted: the wallet, then the
envelope, then the operations. `Custody` keeps what a request leaves behind, the keys it decrypted, the
signatures and the audit records. `signs_only_if_permitted` says what must hold of a request that leaves
anything, and that any other request fails. The pool's server-side signature
(`createDecoratedSignature`) makes the same checks without the operation policy.

The Stellar SDK, the cipher and the signature of JSON web tokens are parameters.
-/

namespace TradeCore
namespace Wallets

open Lib

/-! ## Step-up tokens -/

def stepUpScope : String := "wallet:high-risk"

def stepUpPurpose : String := "wallet-step-up"

/-- The claims of a token that are read; a `sub` that is no user id is `none`. -/
structure TokenPayload where
  sub : Option Uuid
  purpose : Option String
  scope : Option String
  deriving DecidableEq, Repr

structure JwtService where
  sign : TokenPayload → (issuedAt : Time) → (ttlSeconds : Nat) → (jwtid : Uuid) → String
  verify : (now : Time) → String → Option TokenPayload

/-- A token verifies with the claims it was signed with until the second it expires in. -/
def JwtService.Honest (jwt : JwtService) : Prop :=
  ∀ payload issuedAt ttlSeconds jwtid, jwt.sign payload issuedAt ttlSeconds jwtid ≠ "" ∧
    ∀ now, jwt.verify now (jwt.sign payload issuedAt ttlSeconds jwtid) =
      if now / 1000 < issuedAt / 1000 + ttlSeconds then some payload else none

structure IssuedStepUpToken where
  stepUpToken : String
  expiresAt : Time

def issue (jwt : JwtService) (now : Time) (jwtid userId : Uuid) (ttlSeconds : Nat) :
    IssuedStepUpToken where
  stepUpToken := jwt.sign ⟨some userId, some stepUpPurpose, some stepUpScope⟩ now ttlSeconds jwtid
  expiresAt := now + ttlSeconds * 1000

def verify (jwt : JwtService) (now : Time) (token : Option String) (userId : Uuid) :
    Except HttpError Unit :=
  match token with
  | none => .error (.unauthorized "Step-up authentication required for this operation")
  | some token =>
    if token = "" then .error (.unauthorized "Step-up authentication required for this operation")
    else
      match jwt.verify now token with
      | none => .error (.unauthorized "Invalid or expired step-up token")
      | some payload =>
        if payload.purpose ≠ some stepUpPurpose ∨ payload.scope ≠ some stepUpScope ∨
            payload.sub ≠ some userId then
          .error (.unauthorized "Invalid step-up token")
        else .ok ()

/-- `token` is a live step-up token of `userId`. -/
structure StepUpValid (jwt : JwtService) (now : Time) (token : String) (userId : Uuid) : Prop where
  present : token ≠ ""
  verified : jwt.verify now token = some ⟨some userId, some stepUpPurpose, some stepUpScope⟩

theorem verify_ok_iff {jwt : JwtService} {now : Time} {token : Option String} {userId : Uuid} :
    verify jwt now token userId = .ok () ↔ ∃ t, token = some t ∧ StepUpValid jwt now t userId := by
  constructor
  · intro h
    unfold verify at h
    split at h
    · cases h
    · rename_i t
      split at h
      · cases h
      · rename_i hpresent
        split at h
        · cases h
        · rename_i payload hverified
          split at h
          · cases h
          · rename_i hclaims
            simp only [not_or, not_not] at hclaims
            obtain ⟨hpurpose, hscope, hsub⟩ := hclaims
            obtain ⟨sub, purpose, scope⟩ := payload
            cases hpurpose
            cases hscope
            cases hsub
            exact ⟨t, rfl, hpresent, hverified⟩
  · rintro ⟨t, rfl, hpresent, hverified⟩
    simp [verify, hpresent, hverified]

/-- An issued token is good for the user it was issued to, and for nobody else, until it expires. -/
theorem verify_issue {jwt : JwtService} (hjwt : jwt.Honest) (issuedAt now : Time) (jwtid userId u : Uuid)
    (ttlSeconds : Nat) :
    verify jwt now (some (issue jwt issuedAt jwtid userId ttlSeconds).stepUpToken) u = .ok () ↔
      u = userId ∧ now / 1000 < issuedAt / 1000 + ttlSeconds := by
  obtain ⟨hpresent, hverify⟩ :=
    hjwt ⟨some userId, some stepUpPurpose, some stepUpScope⟩ issuedAt ttlSeconds jwtid
  rw [verify_ok_iff]
  constructor
  · rintro ⟨t, ht, -, hverified⟩
    rw [← Option.some.inj ht, issue, hverify] at hverified
    split at hverified
    · rename_i hlive
      cases hverified
      exact ⟨rfl, hlive⟩
    · cases hverified
  · rintro ⟨rfl, hlive⟩
    exact ⟨_, rfl, hpresent, by rw [issue, hverify, if_pos hlive]⟩

/-! ## Envelopes -/

inductive OperationAsset where
  | text (s : String)
  | issued (code issuer : Option String)
  deriving DecidableEq, Repr

/-- What is read of an operation of a parsed envelope. -/
structure SigningOperation where
  type : Option String
  amount : Option String
  destination : Option String
  asset : Option OperationAsset
  deriving DecidableEq, Repr

def SigningOperation.typeName (op : SigningOperation) : String := op.type.getD "unknown"

structure SigningTransaction where
  source : String
  hash : String
  operations : List SigningOperation
  deriving DecidableEq, Repr

inductive Envelope where
  | classic (tx : SigningTransaction)
  | feeBump

/-- What the Stellar SDK and the cipher do. `none` is an exception. -/
structure StellarSdk where
  fromXDR : (unsignedXdr passphrase : String) → Option Envelope
  sign : (tx : SigningTransaction) → (secretKey : String) → Option String
  signDecorated : (hash secretKey : String) → Option (String × String)
  decipher : (iv authTag encrypted : String) → Option String

/-- The value of `wallet.signing.allowedOperations`. -/
inductive AllowedOperations where
  | list (values : List String)
  | text (s : String)
  | unset

structure SigningConfig where
  networkPassphrase : Option String
  allowedOperations : AllowedOperations

/-- What a call learns from outside; `fault` is a read of the wallet that fails. -/
structure SigningEnv where
  sdk : StellarSdk
  jwt : JwtService
  config : SigningConfig
  now : Time
  fault : Bool

structure SigningOptions where
  role : Option String
  stepUpToken : Option String

structure SigningRecord where
  action : String
  userId : Uuid
  userRole : Option String
  resourceId : Uuid
  transactionHash : String
  operationTypes : List String
  operations : List SigningOperation
  deriving DecidableEq, Repr

structure CustodialSignature where
  walletId : Uuid
  transactionHash : String
  deriving DecidableEq, Repr

/-- The wallets, the ciphertexts of the keys that were decrypted, the signatures that were made with
them and the audit records. -/
structure Custody where
  wallets : WalletTable
  decrypted : List String
  signed : List CustodialSignature
  audit : List SigningRecord

/-! ## The checks -/

def highRiskOperations : List String := ["setOptions", "accountMerge"]

def defaultAllowedOperations : List String := ["payment"]

def maxUnsignedXdrLength : Nat := 4096

/-- `s.length`: a character outside the basic plane counts twice. -/
def utf16Length (s : String) : Nat := (s.toList.map fun c => if c.toNat < 0x10000 then 1 else 2).sum

/-- `s.split(separator)` for a separator of one character. -/
def split (separator : Char) (s : String) : List String :=
  (s.toList.splitOn separator).map String.ofList

def WalletStatus.text : WalletStatus → String
  | .active => "active"
  | .inactive => "inactive"
  | .locked => "locked"

/-- The wallet that both signing paths start from. -/
def findSigningWallet (env : SigningEnv) (ws : WalletTable) (id userId : Uuid) :
    Except HttpError Wallet :=
  if env.fault then .error databaseError
  else
    match ws.byId id with
    | none => .error (.notFound s!"Wallet {id} not found")
    | some wallet =>
      if wallet.userId ≠ userId then .error (.forbidden "You do not own this wallet")
      else if wallet.status ≠ .active then
        let status := wallet.status.text
        .error (.badRequest s!"Wallet is {status} and cannot sign transactions")
      else .ok wallet

def getNetworkPassphrase (config : SigningConfig) : Except HttpError String :=
  match config.networkPassphrase with
  | none => .error (.internal "STELLAR_NETWORK_PASSPHRASE is not configured")
  | some passphrase =>
    if trim passphrase.toList = [] then
      .error (.internal "STELLAR_NETWORK_PASSPHRASE is not configured")
    else .ok passphrase

def parseSigningTransaction (env : SigningEnv) (unsignedXdr : String) (wallet : Wallet) :
    Except HttpError SigningTransaction :=
  if maxUnsignedXdrLength < utf16Length unsignedXdr then
    .error (.badRequest s!"unsignedXdr must not exceed {maxUnsignedXdrLength} characters")
  else
    match getNetworkPassphrase env.config with
    | .error e => .error e
    | .ok passphrase =>
      match env.sdk.fromXDR unsignedXdr passphrase with
      | none => .error (.badRequest "Invalid unsigned XDR transaction envelope")
      | some .feeBump =>
        .error (.badRequest "Fee-bump transactions are not supported by the custodial signer")
      | some (.classic tx) =>
        if tx.source ≠ wallet.publicKey then
          .error (.forbidden "Transaction source account does not match the wallet")
        else .ok tx

def getAllowedOperations (config : SigningConfig) : List String :=
  let values := match config.allowedOperations with
    | .list values => values
    | .text s => split ',' s
    | .unset => defaultAllowedOperations
  ((values.map fun operation => String.ofList (trim operation.toList)).filter fun operation =>
    operation ≠ "").eraseDups

def assertSigningPolicy (env : SigningEnv) (tx : SigningTransaction) (userId : Uuid)
    (options : SigningOptions) : Except HttpError Unit :=
  let allowed := getAllowedOperations env.config
  let operationTypes := (tx.operations.map SigningOperation.typeName).eraseDups
  let disallowed := operationTypes.filter fun type => type ∉ allowed
  if disallowed ≠ [] then
    let refused := ", ".intercalate disallowed
    let permitted := if allowed = [] then "(none)" else ", ".intercalate allowed
    .error (.badRequest (s!"Operation type(s) {refused} are not allowed by the wallet signing policy. " ++
      s!"Allowed operations: {permitted}"))
  else
    let highRisk := operationTypes.filter fun type => type ∈ highRiskOperations
    if highRisk = [] then .ok ()
    else if options.role ≠ some "admin" then
      let risky := ", ".intercalate highRisk
      .error (.forbidden s!"Operation type(s) {risky} require the admin role")
    else verify env.jwt env.now options.stepUpToken userId

def describeOperations (operations : List SigningOperation) : List SigningOperation :=
  operations.map fun op =>
    { type := some op.typeName
      amount := op.amount.filter fun s => s ≠ ""
      destination := op.destination.filter fun s => s ≠ ""
      asset := op.asset.filter fun a => a ≠ .text "" }

def decrypt (sdk : StellarSdk) (ciphertext : String) : Except HttpError String :=
  match split ':' ciphertext with
  | iv :: authTag :: encrypted :: _ =>
    if iv = "" ∨ authTag = "" ∨ encrypted = "" then
      .error (.badRequest "Invalid encrypted key format")
    else
      match sdk.decipher iv authTag encrypted with
      | none => .error (.internal "Internal server error")
      | some secretKey => .ok secretKey
  | _ => .error (.badRequest "Invalid encrypted key format")

/-! ## Signing -/

/-- The key of `wallet` is decrypted and used, and the use is recorded. -/
def useKey (env : SigningEnv) (c : Custody) (wallet : Wallet) (tx : SigningTransaction)
    (record : SigningRecord) {α : Type} (sign : String → Option α) : Custody × Except HttpError α :=
  let c := { c with decrypted := c.decrypted ++ [wallet.encryptedSecretKey] }
  match decrypt env.sdk wallet.encryptedSecretKey with
  | .error e => (c, .error e)
  | .ok secretKey =>
    match sign secretKey with
    | none => (c, .error (.internal "Internal server error"))
    | some signature =>
      ({ c with
          signed := c.signed ++ [⟨wallet.id, tx.hash⟩]
          audit := c.audit ++ [record] }, .ok signature)

def signTransaction (env : SigningEnv) (c : Custody) (id userId : Uuid) (unsignedXdr : String)
    (options : SigningOptions) : Custody × Except HttpError String :=
  match findSigningWallet env c.wallets id userId with
  | .error e => (c, .error e)
  | .ok wallet =>
    match parseSigningTransaction env unsignedXdr wallet with
    | .error e => (c, .error e)
    | .ok tx =>
      match assertSigningPolicy env tx userId options with
      | .error e => (c, .error e)
      | .ok () =>
        let operations := describeOperations tx.operations
        useKey env c wallet tx
          ⟨"wallet.sign_transaction", userId, options.role, id, tx.hash,
            operations.map SigningOperation.typeName, operations⟩
          fun secretKey => env.sdk.sign tx secretKey

/-- The signer's public key and the decorated signature. -/
def createDecoratedSignature (env : SigningEnv) (c : Custody) (walletId userId : Uuid)
    (unsignedXdr : String) : Custody × Except HttpError (String × String) :=
  match findSigningWallet env c.wallets walletId userId with
  | .error e => (c, .error e)
  | .ok wallet =>
    match parseSigningTransaction env unsignedXdr wallet with
    | .error e => (c, .error e)
    | .ok tx =>
      let operations := describeOperations tx.operations
      useKey env c wallet tx
        ⟨"wallet.create_decorated_signature", userId, none, walletId, tx.hash,
          operations.map SigningOperation.typeName, operations⟩
        fun secretKey => env.sdk.signDecorated tx.hash secretKey

/-! ## Who gets a signature -/

/-- The wallet and the envelope of a request, and what ties them to the caller. -/
structure Bound (env : SigningEnv) (ws : WalletTable) (id userId : Uuid) (unsignedXdr : String)
    (wallet : Wallet) (tx : SigningTransaction) : Prop where
  found : ws.byId id = some wallet
  owned : wallet.userId = userId
  active : wallet.status = .active
  parsed : ∃ passphrase, getNetworkPassphrase env.config = .ok passphrase ∧
    env.sdk.fromXDR unsignedXdr passphrase = some (.classic tx)
  source : tx.source = wallet.publicKey

/-- The operations of an envelope that `options` entitle the caller to. -/
structure Entitled (env : SigningEnv) (userId : Uuid) (options : SigningOptions)
    (operations : List SigningOperation) : Prop where
  allowed : ∀ op ∈ operations, op.typeName ∈ getAllowedOperations env.config
  stepUp : (∃ op ∈ operations, op.typeName = "setOptions" ∨ op.typeName = "accountMerge") →
    options.role = some "admin" ∧
      ∃ token, options.stepUpToken = some token ∧ StepUpValid env.jwt env.now token userId

section Checks

variable {env : SigningEnv} {ws : WalletTable} {id userId : Uuid} {unsignedXdr : String}
  {wallet : Wallet} {tx : SigningTransaction} {options : SigningOptions}

theorem findSigningWallet_ok_iff : findSigningWallet env ws id userId = .ok wallet ↔
    env.fault = false ∧ ws.byId id = some wallet ∧ wallet.userId = userId ∧
      wallet.status = .active := by
  constructor
  · intro h
    unfold findSigningWallet at h
    split at h
    · cases h
    · rename_i hfault
      split at h
      · cases h
      · rename_i w hfound
        split at h
        · cases h
        · rename_i howned
          split at h
          · cases h
          · rename_i hactive
            cases h
            exact ⟨Bool.eq_false_of_not_eq_true hfault, hfound, not_not.mp howned, not_not.mp hactive⟩
  · rintro ⟨hfault, hfound, howned, hactive⟩
    simp [findSigningWallet, hfault, hfound, howned, hactive]

theorem parseSigningTransaction_ok_iff : parseSigningTransaction env unsignedXdr wallet = .ok tx ↔
    utf16Length unsignedXdr ≤ maxUnsignedXdrLength ∧
      (∃ passphrase, getNetworkPassphrase env.config = .ok passphrase ∧
        env.sdk.fromXDR unsignedXdr passphrase = some (.classic tx)) ∧
      tx.source = wallet.publicKey := by
  constructor
  · intro h
    unfold parseSigningTransaction at h
    split at h
    · cases h
    · rename_i hlength
      split at h
      · cases h
      · rename_i passphrase hpassphrase
        split at h
        · cases h
        · cases h
        · rename_i parsed hparsed
          split at h
          · cases h
          · rename_i hsource
            cases h
            exact ⟨Nat.not_lt.mp hlength, ⟨passphrase, hpassphrase, hparsed⟩, not_not.mp hsource⟩
  · rintro ⟨hlength, ⟨passphrase, hpassphrase, hparsed⟩, hsource⟩
    simp [parseSigningTransaction, Nat.not_lt.mpr hlength, hpassphrase, hparsed, hsource]

/-- The operation types without duplicates are those of the operations. -/
theorem filter_types_eq_nil_iff {operations : List SigningOperation} {p : String → Bool} :
    (operations.map SigningOperation.typeName).eraseDups.filter p = [] ↔
      ∀ op ∈ operations, p op.typeName = false := by
  simp [List.filter_eq_nil_iff, List.mem_eraseDups]

theorem assertSigningPolicy_ok_iff : assertSigningPolicy env tx userId options = .ok () ↔
    Entitled env userId options tx.operations := by
  unfold assertSigningPolicy
  simp only [ne_eq, ite_not]
  by_cases hallowed : ∀ op ∈ tx.operations, op.typeName ∈ getAllowedOperations env.config
  · rw [if_pos (filter_types_eq_nil_iff.mpr fun op hop => by simpa using hallowed op hop)]
    by_cases hrisk : ∃ op ∈ tx.operations, op.typeName = "setOptions" ∨ op.typeName = "accountMerge"
    · have hsome : ¬ (tx.operations.map SigningOperation.typeName).eraseDups.filter
          (fun type => decide (type ∈ highRiskOperations)) = [] := by
        rw [filter_types_eq_nil_iff]
        obtain ⟨op, hop, htype⟩ := hrisk
        intro hnone
        have := hnone op hop
        simp only [highRiskOperations, List.mem_cons, List.not_mem_nil, or_false,
          decide_eq_false_iff_not] at this
        exact this htype
      rw [if_neg hsome]
      by_cases hadmin : options.role = some "admin"
      · rw [if_pos hadmin, verify_ok_iff]
        exact ⟨fun h => ⟨hallowed, fun _ => ⟨hadmin, h⟩⟩, fun h => (h.stepUp hrisk).2⟩
      · rw [if_neg hadmin]
        refine ⟨fun h => ?_, fun h => absurd (h.stepUp hrisk).1 hadmin⟩
        cases h
    · have hnone : (tx.operations.map SigningOperation.typeName).eraseDups.filter
          (fun type => decide (type ∈ highRiskOperations)) = [] := by
        rw [filter_types_eq_nil_iff]
        intro op hop
        simp only [highRiskOperations, List.mem_cons, List.not_mem_nil, or_false,
          decide_eq_false_iff_not]
        exact fun htype => hrisk ⟨op, hop, htype⟩
      rw [if_pos hnone]
      exact ⟨fun _ => ⟨hallowed, fun h => absurd h hrisk⟩, fun _ => rfl⟩
  · rw [if_neg]
    · refine ⟨fun h => ?_, fun h => absurd h.allowed hallowed⟩
      cases h
    · rw [filter_types_eq_nil_iff]
      intro hnone
      refine hallowed fun op hop => ?_
      simpa using hnone op hop

end Checks

theorem useKey_cases (env : SigningEnv) (c : Custody) (wallet : Wallet) (tx : SigningTransaction)
    (record : SigningRecord) {α : Type} (sign : String → Option α) :
    (useKey env c wallet tx record sign).1.decrypted = c.decrypted ++ [wallet.encryptedSecretKey] ∧
      ((∃ e, (useKey env c wallet tx record sign).2 = .error e ∧
          (useKey env c wallet tx record sign).1.signed = c.signed) ∨
        ∃ signature, (useKey env c wallet tx record sign).2 = .ok signature ∧
          (useKey env c wallet tx record sign).1.signed = c.signed ++ [⟨wallet.id, tx.hash⟩]) := by
  unfold useKey
  simp only
  split
  · exact ⟨rfl, .inl ⟨_, rfl, rfl⟩⟩
  · split
    · exact ⟨rfl, .inl ⟨_, rfl, rfl⟩⟩
    · exact ⟨rfl, .inr ⟨_, rfl, rfl⟩⟩

section Requests

variable (env : SigningEnv) (c : Custody) (id userId : Uuid) (unsignedXdr : String)
  (options : SigningOptions)

/-- A request is refused and leaves nothing behind, or it is permitted and its key is used. -/
theorem signTransaction_cases :
    ((signTransaction env c id userId unsignedXdr options).1 = c ∧
      ∃ e, (signTransaction env c id userId unsignedXdr options).2 = .error e) ∨
    ∃ wallet tx record, Bound env c.wallets id userId unsignedXdr wallet tx ∧
      Entitled env userId options tx.operations ∧
      signTransaction env c id userId unsignedXdr options =
        useKey env c wallet tx record fun secretKey => env.sdk.sign tx secretKey := by
  unfold signTransaction
  split
  · exact .inl ⟨rfl, _, rfl⟩
  · rename_i wallet hwallet
    split
    · exact .inl ⟨rfl, _, rfl⟩
    · rename_i tx htx
      split
      · exact .inl ⟨rfl, _, rfl⟩
      · rename_i hpolicy
        obtain ⟨-, hfound, howned, hactive⟩ := findSigningWallet_ok_iff.mp hwallet
        obtain ⟨-, hparsed, hsource⟩ := parseSigningTransaction_ok_iff.mp htx
        exact .inr ⟨wallet, tx, _, ⟨hfound, howned, hactive, hparsed, hsource⟩,
          assertSigningPolicy_ok_iff.mp hpolicy, rfl⟩

/-- The key of a permitted request is used, unless the wallet cannot be read or the envelope is too
long. -/
theorem signTransaction_permitted {wallet : Wallet} {tx : SigningTransaction}
    (hbound : Bound env c.wallets id userId unsignedXdr wallet tx)
    (hentitled : Entitled env userId options tx.operations) (hfault : env.fault = false)
    (hlength : utf16Length unsignedXdr ≤ maxUnsignedXdrLength) :
    (signTransaction env c id userId unsignedXdr options).1.decrypted =
      c.decrypted ++ [wallet.encryptedSecretKey] := by
  have hwallet : findSigningWallet env c.wallets id userId = .ok wallet :=
    findSigningWallet_ok_iff.mpr ⟨hfault, hbound.found, hbound.owned, hbound.active⟩
  have htx : parseSigningTransaction env unsignedXdr wallet = .ok tx :=
    parseSigningTransaction_ok_iff.mpr ⟨hlength, hbound.parsed, hbound.source⟩
  simp only [signTransaction, hwallet, htx, assertSigningPolicy_ok_iff.mpr hentitled]
  exact (useKey_cases ..).1

/-- A key is decrypted and a signature is made only for the owner of an active wallet, over an envelope
of that wallet whose operations the caller is entitled to; every other request fails and leaves neither. -/
theorem signs_only_if_permitted :
    ((signTransaction env c id userId unsignedXdr options).1.decrypted ≠ c.decrypted ∨
        (signTransaction env c id userId unsignedXdr options).1.signed ≠ c.signed ∨
        (∃ signedXdr, (signTransaction env c id userId unsignedXdr options).2 = .ok signedXdr) →
      ∃ wallet tx, Bound env c.wallets id userId unsignedXdr wallet tx ∧
        Entitled env userId options tx.operations ∧
        (signTransaction env c id userId unsignedXdr options).1.decrypted =
          c.decrypted ++ [wallet.encryptedSecretKey] ∧
        ((signTransaction env c id userId unsignedXdr options).1.signed = c.signed ∨
          (signTransaction env c id userId unsignedXdr options).1.signed =
            c.signed ++ [⟨wallet.id, tx.hash⟩])) ∧
    ((¬ ∃ wallet tx, Bound env c.wallets id userId unsignedXdr wallet tx ∧
        Entitled env userId options tx.operations) →
      (signTransaction env c id userId unsignedXdr options).1 = c ∧
        ∃ e, (signTransaction env c id userId unsignedXdr options).2 = .error e) := by
  obtain ⟨hsame, e, he⟩ | ⟨wallet, tx, record, hbound, hentitled, huse⟩ :=
    signTransaction_cases env c id userId unsignedXdr options
  · refine ⟨fun h => ?_, fun _ => ⟨hsame, e, he⟩⟩
    rw [hsame, he] at h
    rcases h with h | h | ⟨signedXdr, h⟩
    · exact absurd rfl h
    · exact absurd rfl h
    · cases h
  · refine ⟨fun _ => ⟨wallet, tx, hbound, hentitled, ?_⟩,
      fun hnone => absurd ⟨wallet, tx, hbound, hentitled⟩ hnone⟩
    rw [huse]
    obtain ⟨hdecrypted, ⟨-, -, hsigned⟩ | ⟨-, -, hsigned⟩⟩ := useKey_cases env c wallet tx record
      fun secretKey => env.sdk.sign tx secretKey
    · exact ⟨hdecrypted, .inl hsigned⟩
    · exact ⟨hdecrypted, .inr hsigned⟩

end Requests

namespace Shared

def custody : Custody := ⟨⟨[wallet], List.nodup_singleton _⟩, [], [], []⟩

/-- The envelope "AAAA" changes the options of the account of `wallet`; the step-up token of its owner
lives for five minutes. -/
def changesOptions : SigningEnv where
  sdk :=
    { fromXDR := fun unsignedXdr passphrase => if unsignedXdr = "AAAA" ∧ passphrase = "Test" then
        some (.classic ⟨"GVAULT", "HASH", [⟨some "setOptions", none, none, none⟩]⟩) else none
      sign := fun _ secretKey => if secretKey = "SVAULT" then some "AAAASIGNED" else none
      signDecorated := fun _ secretKey => if secretKey = "SVAULT" then some ("GVAULT", "SIG") else none
      decipher := fun _ _ encrypted => if encrypted = "key" then some "SVAULT" else none }
  jwt :=
    { sign := fun _ _ _ _ => "STEPUP"
      verify := fun now token => if token = "STEPUP" ∧ now < 300000 then
        some ⟨some 5, some stepUpPurpose, some stepUpScope⟩ else none }
  config := ⟨some "Test", .text "payment, setOptions"⟩
  now := 1000
  fault := false

end Shared

open Shared in
example : (signTransaction changesOptions custody 1 5 "AAAA" ⟨some "admin", some "STEPUP"⟩).1.signed =
      [⟨1, "HASH"⟩] ∧
    (signTransaction changesOptions custody 1 5 "AAAA" ⟨some "user", some "STEPUP"⟩).2 =
      .error (.forbidden "Operation type(s) setOptions require the admin role") := by
  decide +kernel

section Pool

variable (env : SigningEnv) (c : Custody) (id userId : Uuid) (unsignedXdr : String)

theorem createDecoratedSignature_cases :
    ((createDecoratedSignature env c id userId unsignedXdr).1 = c ∧
      ∃ e, (createDecoratedSignature env c id userId unsignedXdr).2 = .error e) ∨
    ∃ wallet tx record, Bound env c.wallets id userId unsignedXdr wallet tx ∧
      createDecoratedSignature env c id userId unsignedXdr =
        useKey env c wallet tx record fun secretKey => env.sdk.signDecorated tx.hash secretKey := by
  unfold createDecoratedSignature
  split
  · exact .inl ⟨rfl, _, rfl⟩
  · rename_i wallet hwallet
    split
    · exact .inl ⟨rfl, _, rfl⟩
    · rename_i tx htx
      obtain ⟨-, hfound, howned, hactive⟩ := findSigningWallet_ok_iff.mp hwallet
      obtain ⟨-, hparsed, hsource⟩ := parseSigningTransaction_ok_iff.mp htx
      exact .inr ⟨wallet, tx, _, ⟨hfound, howned, hactive, hparsed, hsource⟩, rfl⟩

/-- The signing pool with the keys of `c`. -/
def custodialSigning (check : (signer signature unsignedXdr passphrase : String) → Bool) : Signing where
  verify := check
  createDecoratedSignature walletId userId unsignedXdr :=
    (createDecoratedSignature env c walletId userId unsignedXdr).2

/-- A signature that the pool makes itself is by the caller's own active wallet, the source of the
envelope. -/
theorem resolveSignature_server {check : String → String → String → String → Bool}
    {tx : MultisigTransaction} {signature : String × String × Option Uuid}
    (h : resolveSignature (custodialSigning env c check) tx userId ⟨some id, none, none⟩ =
      .ok signature) :
    ∃ wallet parsed, Bound env c.wallets id userId tx.unsignedXdr wallet parsed := by
  simp only [resolveSignature, custodialSigning] at h
  obtain ⟨-, e, he⟩ | ⟨wallet, parsed, -, hbound, -⟩ :=
    createDecoratedSignature_cases env c id userId tx.unsignedXdr
  · rw [he] at h
    cases h
  · exact ⟨wallet, parsed, hbound⟩

end Pool

end Wallets
end TradeCore
