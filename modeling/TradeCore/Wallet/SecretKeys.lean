import TradeCore.Lib.Fields
import TradeCore.Wallet.Signing

/-!
# TradeCore.Wallet.SecretKeys

The secret keys at rest: `create` draws a key pair and stores the secret encrypted, as hexadecimal texts
of the vector, the tag and the ciphertext, and the custodial signer reads it back.

* `decrypt_encrypt`: what `decrypt` gives for what `encrypt` has written. Only an empty secret is refused.
* `signed_by_source`: in every interleaving of the wallet calls the two columns of a row stay together,
  so what is signed is signed with the secret key of the source account of the envelope.
-/

namespace TradeCore
namespace Wallets

open Lib

/-- The service gives the cipher what `Buffer.from(…, 'hex')` makes of the three texts. -/
def StellarSdk.DeciphersWith (sdk : StellarSdk) (c : Cipher) : Prop :=
  ∀ iv authTag encrypted, sdk.decipher iv authTag encrypted =
    c.decipher (bytesOf iv.toList) (bytesOf authTag.toList) (bytesOf encrypted.toList)

/-! ## The text of a secret -/

theorem colon_not_mem_hexOf (bytes : List (Fin 256)) : ':' ∉ hexOf bytes := not_mem_hexOf (by decide) bytes

theorem split_encrypt (c : Cipher) (iv : Iv) (plaintext : String) :
    split ':' (encrypt c iv plaintext) = [String.ofList (hexOf iv),
      String.ofList (hexOf (c.encipher iv plaintext).2), String.ofList (hexOf (c.encipher iv plaintext).1)] := by
  rw [split, encrypt, String.toList_ofList, List.splitOn_append_cons_self_of_not_mem (colon_not_mem_hexOf _),
    splitOn_pieces (colon_not_mem_hexOf _) (colon_not_mem_hexOf _)]
  rfl

/-- The three parts come back as they were written. -/
theorem decrypt_encrypt {sdk : StellarSdk} {c : Cipher} (h : sdk.DeciphersWith c) (iv : Iv)
    (plaintext : String) :
    decrypt sdk (encrypt c iv plaintext) =
      if (c.encipher iv plaintext).2 = [] ∨ (c.encipher iv plaintext).1 = [] then
        .error (.badRequest "Invalid encrypted key format")
      else
        match c.decipher (iv.val.map Fin.val) ((c.encipher iv plaintext).2.map Fin.val)
            ((c.encipher iv plaintext).1.map Fin.val) with
        | none => .error (.internal "Internal server error")
        | some secretKey => .ok secretKey := by
  have hempty : ∀ bytes : List (Fin 256), String.ofList (hexOf bytes) = "" ↔ bytes = [] := by
    intro bytes
    rw [← hexOf_eq_nil, ← String.toList_inj, String.toList_ofList]
    rfl
  have hiv : iv.val ≠ [] := by
    intro h
    exact absurd (iv.property.symm.trans (congrArg List.length h)) (by decide)
  rw [decrypt, split_encrypt]
  by_cases hpart : (c.encipher iv plaintext).2 = [] ∨ (c.encipher iv plaintext).1 = []
  · simp only [hempty, if_pos (Or.inr hpart), if_pos hpart]
  · rw [if_neg hpart]
    cases hdecipher : c.decipher (iv.val.map Fin.val) ((c.encipher iv plaintext).2.map Fin.val)
      ((c.encipher iv plaintext).1.map Fin.val) with
    | none =>
      simp only [hempty, if_neg (not_or.mpr ⟨hiv, hpart⟩), h _ _ _, String.toList_ofList, bytesOf_hexOf, hdecipher]
    | some secretKey =>
      simp only [hempty, if_neg (not_or.mpr ⟨hiv, hpart⟩), h _ _ _, String.toList_ofList, bytesOf_hexOf, hdecipher]

/-! ## The rows -/

section Columns

variable {cipher : Cipher} {S : String → String → Prop}

/-- The public key of every row and its ciphertext are related by `S`. -/
def WalletTable.Sealed (S : String → String → Prop) (ws : WalletTable) : Prop :=
  ∀ w ∈ ws.rows, S w.publicKey w.encryptedSecretKey

def Aim.Sealed (S : String → String → Prop) : Aim → Prop
  | .insert _ publicKey encryptedSecretKey _ _ => S publicKey encryptedSecretKey
  | .save _ _ => True

def Change.Sealed (S : String → String → Prop) : Change → Prop
  | .insert row => S row.publicKey row.encryptedSecretKey
  | .set _ _ => True

/-- A row that the call is to insert. -/
def WalletCall.Sealed (S : String → String → Prop) : WalletCall → Prop
  | .clear aim | .locking aim _ _ | .save aim _ => aim.Sealed S
  | .commit _ _ _ change => change.Sealed S
  | _ => True

theorem sealed_store {ws ws' : WalletTable} {cleared : List Uuid} {change : Change} (h : ws.Sealed S)
    (hchange : change.Sealed S) (hs : ws.store cleared change = some ws') : ws'.Sealed S := by
  have hclear : ∀ w ∈ (ws.clear cleared).rows, S w.publicKey w.encryptedSecretKey := by
    intro w hw
    obtain ⟨row, hrow, rfl⟩ := List.mem_map.mp hw
    unfold WalletTable.clearRow
    split <;> exact h row hrow
  intro w hw
  cases change with
  | insert row =>
    simp only [WalletTable.store] at hs
    repeat' split at hs
    all_goals cases hs
    rcases List.mem_append.mp hw with hw | hw
    · exact hclear w hw
    · rw [List.mem_singleton.mp hw]
      exact hchange
  | set id diff =>
    cases hs
    obtain ⟨row, hrow, rfl⟩ := List.mem_map.mp hw
    unfold WalletTable.setRow
    split <;> exact hclear row hrow

theorem sealed_next {env : WalletEnv} {call call' : WalletCall} {db : WalletDb}
    (hdraw : S env.publicKey (encrypt cipher env.iv env.secretKey)) (h : call.Sealed S)
    (hnext : (advance cipher env call db).2 = .running call') : call'.Sealed S := by
  cases call with
  | start op =>
    cases op <;> simp only [advance] at hnext <;> repeat' split at hnext
    all_goals cases hnext
    all_goals trivial
  | clear aim =>
    simp only [advance] at hnext
    split at hnext <;> cases hnext
    · trivial
    · exact h
  | locking aim targets cleared =>
    cases targets with
    | nil =>
      cases hnext
      exact h
    | cons id targets =>
      simp only [advance] at hnext
      repeat' split at hnext
      all_goals cases hnext
      all_goals trivial
  | save aim cleared =>
    cases aim <;> simp only [advance] at hnext <;> repeat' split at hnext
    all_goals cases hnext
    all_goals trivial
  | write w returned diff cleared =>
    simp only [advance] at hnext
    repeat' split at hnext
    all_goals cases hnext
    all_goals trivial
  | commit aim cleared held change =>
    simp only [advance] at hnext
    split at hnext <;> cases hnext
  | rollback held e => cases hnext

theorem sealed_run {db : WalletDb} (hdb : db.wallets.Sealed S) {acts : List (Act WalletEnv WalletOp)}
    (h : Along (walletProc cipher).step
      (Meets (fun _ => True) fun env _ _ _ => S env.publicKey (encrypt cipher env.iv env.secretKey))
      (Conf.init db) acts) :
    (run (walletProc cipher).step (Conf.init db) acts).shared.wallets.Sealed S := by
  have hboth : (run (walletProc cipher).step (Conf.init db) acts).shared.wallets.Sealed S ∧
      AllRunning (WalletCall.Sealed S) (run (walletProc cipher).step (Conf.init db) acts).tasks := by
    refine run_inv (I := fun c => c.shared.wallets.Sealed S ∧ AllRunning (WalletCall.Sealed S) c.tasks)
      (fun c a hI hG => step_inv (walletProc cipher) (I := fun s ts => s.wallets.Sealed S ∧
        AllRunning (WalletCall.Sealed S) ts) (fun s ts op _ h => ⟨h.1, h.2.spawn trivial⟩)
        (fun s pre call post env hdraw h => ?_) c a hI hG) ⟨hdb, .nil⟩ h
    refine ⟨?_, h.2.replace fun call' hnext => sealed_next hdraw h.2.here hnext⟩
    obtain hsame | ⟨aim, cleared, held, change, r, rfl, hs, -⟩ := advance_wallets cipher env call s
    · change (advance cipher env call s).1.wallets.Sealed S
      rw [hsame]
      exact h.1
    · exact sealed_store h.1 h.2.here hs
  exact hboth.1

end Columns

/-! ## What is signed -/

/-- The ciphertext is what `create` stores for the secret key of the public key. -/
def Encrypted (c : Cipher) (KeyPair : (publicKey secretKey : String) → Prop) (publicKey ciphertext : String) :
    Prop :=
  ∃ secretKey iv, KeyPair publicKey secretKey ∧ ciphertext = encrypt c iv secretKey

/-- The cipher gives a secret key back, and a secret key is not empty. -/
def Cipher.Recovers (c : Cipher) (KeyPair : (publicKey secretKey : String) → Prop) : Prop :=
  ∀ publicKey secretKey (iv : Iv), KeyPair publicKey secretKey →
    (c.encipher iv secretKey).1 ≠ [] ∧ (c.encipher iv secretKey).2 ≠ [] ∧
      c.decipher (iv.val.map Fin.val) ((c.encipher iv secretKey).2.map Fin.val)
        ((c.encipher iv secretKey).1.map Fin.val) = some secretKey

theorem decrypt_of_encrypted {c : Cipher} {KeyPair : String → String → Prop} {sdk : StellarSdk}
    {publicKey ciphertext : String} (hsdk : sdk.DeciphersWith c) (hc : c.Recovers KeyPair)
    (h : Encrypted c KeyPair publicKey ciphertext) :
    ∃ secretKey, KeyPair publicKey secretKey ∧ decrypt sdk ciphertext = .ok secretKey := by
  obtain ⟨secretKey, iv, hpair, rfl⟩ := h
  obtain ⟨hencrypted, htag, hdecipher⟩ := hc publicKey secretKey iv hpair
  refine ⟨secretKey, hpair, ?_⟩
  rw [decrypt_encrypt hsdk, if_neg (not_or.mpr ⟨htag, hencrypted⟩), hdecipher]

/-- Whatever wallets are created, changed and removed in whatever order, an envelope is signed with the
secret key of its source account. -/
theorem signed_by_source {c : Cipher} {KeyPair : String → String → Prop} {env : SigningEnv}
    (hsdk : env.sdk.DeciphersWith c) (hc : c.Recovers KeyPair) {acts : List (Act WalletEnv WalletOp)}
    (h : Along (walletProc c).step (Meets (fun _ => True) fun env _ _ _ => KeyPair env.publicKey env.secretKey)
      (Conf.init ⟨noWallets, []⟩) acts)
    (custody : Custody)
    (hcustody : custody.wallets = (run (walletProc c).step (Conf.init ⟨noWallets, []⟩) acts).shared.wallets)
    (id userId : Uuid) (unsignedXdr : String) (options : SigningOptions) {signedXdr : String}
    (hsigned : (signTransaction env custody id userId unsignedXdr options).2 = .ok signedXdr) :
    ∃ passphrase tx secretKey, getNetworkPassphrase env.config = .ok passphrase ∧
      env.sdk.fromXDR unsignedXdr passphrase = some (.classic tx) ∧ KeyPair tx.source secretKey ∧
        env.sdk.sign tx secretKey = some signedXdr := by
  have hsealedDraws : Along (walletProc c).step (Meets (fun _ => True) fun env _ _ _ =>
      Encrypted c KeyPair env.publicKey (encrypt c env.iv env.secretKey)) (Conf.init ⟨noWallets, []⟩) acts :=
    h.mono fun _ a hdraw => match a with
      | .spawn _ => trivial
      | .sched _ _ => fun call hcall => ⟨_, _, hdraw call hcall, rfl⟩
  obtain ⟨-, e, he⟩ | ⟨wallet, tx, record, hbound, -, huse⟩ :=
    signTransaction_cases env custody id userId unsignedXdr options
  · rw [he] at hsigned
    cases hsigned
  · have hsealed : custody.wallets.Sealed (Encrypted c KeyPair) :=
      hcustody ▸ sealed_run (fun w hw => by cases hw) hsealedDraws
    obtain ⟨secretKey, hpair, hdecrypt⟩ :=
      decrypt_of_encrypted hsdk hc (hsealed wallet (mem_of_lookup hbound.found))
    obtain ⟨passphrase, hpassphrase, hparsed⟩ := hbound.parsed
    refine ⟨passphrase, tx, secretKey, hpassphrase, hparsed, hbound.source ▸ hpair, ?_⟩
    rw [huse] at hsigned
    simp only [useKey, hdecrypt] at hsigned
    split at hsigned
    · cases hsigned
    · rename_i signature hsignature
      cases hsigned
      exact hsignature

namespace Shared

/-- One key pair, and a cipher that knows its secret. -/
def vaultKeyPair (publicKey secretKey : String) : Prop := publicKey = "GVAULT" ∧ secretKey = "SVAULT"

def vaultCipher : Cipher where
  encipher _ _ := ([⟨1, by decide⟩], [⟨2, by decide⟩])
  decipher _ authTag encrypted := if encrypted = [1] ∧ authTag = [2] then some "SVAULT" else none

def signsPayments : SigningEnv where
  sdk :=
    { changesOptions.sdk with
      fromXDR := fun _ _ => some (.classic ⟨"GVAULT", "HASH", [⟨some "payment", none, none, none⟩]⟩)
      decipher := fun _ authTag encrypted =>
        if bytesOf encrypted.toList = [1] ∧ bytesOf authTag.toList = [2] then some "SVAULT" else none }
  jwt := changesOptions.jwt
  config := ⟨some "Test", .unset⟩
  now := 0
  fault := false

def drawVault : WalletEnv := ⟨false, 1, "GVAULT", "SVAULT", zeroIv⟩

def createAndRename : List (Act WalletEnv WalletOp) :=
  .spawn (.create 5 ⟨none, none⟩) :: List.replicate 5 (.sched 0 drawVault) ++
    .spawn (.update 1 5 ⟨some "main", none, none⟩) :: List.replicate 4 (.sched 1 drawVault)

theorem signed_by_source_renamed :
    ∃ passphrase tx secretKey, getNetworkPassphrase signsPayments.config = .ok passphrase ∧
      signsPayments.sdk.fromXDR "AAAA" passphrase = some (.classic tx) ∧ vaultKeyPair tx.source secretKey ∧
        signsPayments.sdk.sign tx secretKey = some "AAAASIGNED" := by
  have henv : ∀ i env, .sched i env ∈ createAndRename → env = drawVault := by
    intro i env hin
    simp only [createAndRename, List.cons_append, List.mem_cons, List.mem_append, List.mem_replicate,
      reduceCtorEq, Act.sched.injEq, false_or] at hin
    rcases hin with ⟨-, -, rfl⟩ | ⟨-, -, rfl⟩ <;> rfl
  have hrun : Along (walletProc vaultCipher).step
      (Meets (fun _ => True) fun env _ _ _ => vaultKeyPair env.publicKey env.secretKey)
      (Conf.init ⟨noWallets, []⟩) createAndRename :=
    along_of_acts _ (fun _ _ => trivial) (fun i env hin _ _ _ => henv i env hin ▸ ⟨rfl, rfl⟩) _
  have hrecovers : vaultCipher.Recovers vaultKeyPair := by
    rintro _ _ iv ⟨rfl, rfl⟩
    exact ⟨by simp [vaultCipher], by simp [vaultCipher], by simp [vaultCipher]⟩
  exact signed_by_source (fun _ _ _ => rfl) hrecovers hrun ⟨_, [], [], []⟩ rfl 1 5 "AAAA" ⟨none, none⟩
    (by decide +kernel)

end Shared

end Wallets
end TradeCore
