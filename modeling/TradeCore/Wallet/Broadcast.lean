import TradeCore.Wallet.MultisigPool

/-!
# TradeCore.Wallet.Broadcast

`broadcast` calls on one pooled transaction, interleaved: the read of the row, the submission, the save
of its outcome and the save of the error handler are steps of their own, and each save writes the row the
call has read.

Nothing keeps two calls from reading READY before either submits, and the handler that stores FAILED also
catches a save that fails after the network has accepted the transaction (`broadcast_twice_or_failed`).
`broadcast_once` is what the calls keep as long as a READY row is read by one call at a time and the saves
after a submission succeed.
-/

namespace TradeCore
namespace Wallets

open Lib

/-- An envelope that was sent to the network, with the hash or the detail that came back. -/
structure Submission where
  signedXdr : String
  result : Except String String

def Submission.Succeeded (s : Submission) : Prop := ∃ hash, s.result = .ok hash

instance (s : Submission) : Decidable s.Succeeded :=
  match h : s.result with
  | .ok hash => .isTrue ⟨hash, h⟩
  | .error _ => .isFalse fun ⟨_, h'⟩ => by rw [h] at h'; cases h'

/-- An entry of the transaction history; its type is OTHER and its status SUCCESS. -/
structure HistoryEntry where
  stellarTxHash : String
  userId : Uuid
  fromAccount : String
  assetCode : String
  amount : String
  deriving DecidableEq, Repr

structure Broadcasting where
  tx : MultisigTransaction
  signatures : List MultisigSignature
  wallets : WalletTable
  submissions : List Submission
  history : List HistoryEntry
  emitted : List MultisigEvent

/-- What a step learns from outside: the clock, the message of a statement that fails and what the
network answers. -/
structure BroadcastEnv where
  now : Time
  fault : Option String
  submit : Except String String

structure Broadcast where
  txId : Uuid
  userId : Uuid

/-- Where a call stands: before the statement its constructor names, with the row it holds. -/
inductive BroadcastCall where
  | start (op : Broadcast)
  | wallet (tx : MultisigTransaction) (signatures : List MultisigSignature) (op : Broadcast)
  | expire (tx : MultisigTransaction)
  | submit (tx : MultisigTransaction) (signatures : List MultisigSignature) (signedXdr : String)
  | saveSubmitted (tx : MultisigTransaction) (signatures : List MultisigSignature) (hash : String)
  | recordToHistory (tx : MultisigTransaction) (signatures : List MultisigSignature) (hash : String)
  | saveFailed (tx : MultisigTransaction) (reason : String) (e : HttpError)

abbrev BroadcastTask := Task BroadcastCall (Except HttpError MultisigTxStatus)

/-- The signatures put onto the base envelope; `none` when a part of it cannot be parsed. -/
abbrev Assemble := (unsignedXdr networkPassphrase : String) → (signatures : List String) → Option String

def broadcast (assemble : Assemble) (env : BroadcastEnv) (call : BroadcastCall) (b : Broadcasting) :
    Broadcasting × BroadcastTask :=
  match call with
  | .start op =>
    if env.fault.isSome then (b, .done (.error databaseError))
    else if op.txId ≠ b.tx.id then
      let txId := op.txId
      (b, .done (.error (.notFound s!"Multi-sig transaction {txId} not found")))
    else (b, .running (.wallet b.tx b.signatures op))
  | .wallet tx signatures op =>
    if env.fault.isSome then (b, .done (.error databaseError))
    else
      match b.wallets.findOne tx.walletId op.userId with
      | .error e => (b, .done (.error e))
      | .ok _ =>
        if tx.status = .submitted then
          (b, .done (.error (.conflict "Transaction has already been submitted")))
        else if tx.status ≠ .ready then
          let status := tx.status.text
          (b, .done (.error (.badRequest
            s!"Transaction is not ready to broadcast (status: {status})")))
        else if tx.elapsed env.now then (b, .running (.expire tx))
        else
          match assemble tx.unsignedXdr tx.networkPassphrase
              (signatures.map MultisigSignature.signatureXdr) with
          | none => (b, .done (.error (.internal "Internal server error")))
          | some signedXdr => (b, .running (.submit tx signatures signedXdr))
  | .expire tx =>
    if env.fault.isSome then (b, .done (.error databaseError))
    else ({ b with tx := { tx with status := .expired } }, .done (.error expiredError))
  | .submit tx signatures signedXdr =>
    let b' := { b with submissions := b.submissions ++ [⟨signedXdr, env.submit⟩] }
    match env.submit with
    | .ok hash =>
      (b', .running (.saveSubmitted
        { tx with status := .submitted, submittedTxHash := some hash, failureReason := none }
        signatures hash))
    | .error detail =>
      let reason := s!"Stellar submission failed: {detail}"
      (b', .running (.saveFailed tx reason (.serviceUnavailable reason)))
  | .saveSubmitted tx signatures hash =>
    match env.fault with
    -- the handler of the submission catches this error, too
    | some message => (b, .running (.saveFailed tx message databaseError))
    | none => ({ b with tx }, .running (.recordToHistory tx signatures hash))
  | .recordToHistory tx signatures hash =>
    -- an entry that cannot be written is logged and forgotten
    let history := if env.fault.isSome then b.history
      else b.history ++ [⟨hash, tx.createdByUserId, tx.sourceAccount, "XLM", "0"⟩]
    ({ b with history, emitted := b.emitted ++ [.submitted tx.id hash] },
      .done (.ok (buildStatus tx signatures)))
  | .saveFailed tx reason e =>
    if env.fault.isSome then (b, .done (.error databaseError))
    else
      ({ b with
          tx := { tx with status := .failed, failureReason := some reason }
          emitted := b.emitted ++ [.failed tx.id reason] }, .done (.error e))

def broadcastProc (assemble : Assemble) :
    Proc Broadcasting BroadcastEnv Broadcast BroadcastCall (Except HttpError MultisigTxStatus) :=
  ⟨.start, broadcast assemble⟩

/-- A transaction that no call has submitted yet. -/
def Broadcasting.init (tx : MultisigTransaction) (signatures : List MultisigSignature)
    (wallets : WalletTable) : Broadcasting :=
  ⟨tx, signatures, wallets, [], [], []⟩

/-! ## One call at a time -/

/-- A call that has read READY and has not stored what came of it. -/
def BroadcastCall.holds : BroadcastCall → List Unit
  | .wallet tx _ _ => if tx.status = .ready then [()] else []
  | .expire _ | .submit _ _ _ | .saveSubmitted _ _ _ | .saveFailed _ _ _ => [()]
  | _ => []

def BroadcastCall.isStart : BroadcastCall → Bool
  | .start _ => true
  | _ => false

/-- The save that stores what came of a submission. -/
def BroadcastCall.savesOutcome : BroadcastCall → Bool
  | .saveSubmitted _ _ _ | .saveFailed _ _ _ => true
  | _ => false

/-- READY is read only while no other call holds it, and the saves after a submission succeed. -/
def OneAtATime (env : BroadcastEnv) (k : BroadcastCall) (b : Broadcasting) (ts : List BroadcastTask) :
    Prop :=
  (k.isStart = true → b.tx.status = .ready → gather BroadcastCall.holds ts = []) ∧
    (k.savesOutcome = true → env.fault = none)

instance (env : BroadcastEnv) (k : BroadcastCall) (b : Broadcasting) (ts : List BroadcastTask) :
    Decidable (OneAtATime env k b ts) :=
  inferInstanceAs (Decidable ((_ → _ → _) ∧ (_ → _)))

/-- What holds of a transaction that no call holds. -/
structure Settled (b : Broadcasting) : Prop where
  once : b.submissions.length ≤ 1
  ready : b.tx.status = .ready → b.submissions = []
  stored : ∀ s ∈ b.submissions, s.Succeeded → b.tx.status = .submitted

/-- What a call that holds the transaction finds in it. -/
def BroadcastCall.Fits (b : Broadcasting) : BroadcastCall → Prop
  | .wallet tx _ _ => tx.status = .ready → b.tx.status = .ready ∧ b.submissions = []
  | .expire _ | .submit _ _ _ => b.tx.status = .ready ∧ b.submissions = []
  | .saveSubmitted tx _ _ => tx.status = .submitted ∧ b.tx.status = .ready ∧ b.submissions.length = 1
  | .saveFailed _ _ _ =>
    b.tx.status = .ready ∧ b.submissions.length = 1 ∧ ∀ s ∈ b.submissions, ¬ s.Succeeded
  | _ => True

structure Clean (b : Broadcasting) (ts : List BroadcastTask) : Prop where
  one : (gather BroadcastCall.holds ts).length ≤ 1
  fits : AllRunning (BroadcastCall.Fits b) ts
  settled : gather BroadcastCall.holds ts = [] → Settled b

section Clean

variable {assemble : Assemble} {env : BroadcastEnv} {call : BroadcastCall} {b b' : Broadcasting}
  {ts pre post : List BroadcastTask} {t : BroadcastTask} {op : Broadcast}

theorem BroadcastCall.fits_of_free (h : call.holds = []) : call.Fits b := by
  cases call with
  | start op => trivial
  | wallet tx signatures op =>
    intro hready
    rw [BroadcastCall.holds, if_pos hready] at h
    cases h
  | expire tx => cases h
  | submit tx signatures signedXdr => cases h
  | saveSubmitted tx signatures hash => cases h
  | recordToHistory tx signatures hash => trivial
  | saveFailed tx reason e => cases h

theorem BroadcastCall.fits_congr (htx : b'.tx = b.tx) (hsub : b'.submissions = b.submissions)
    (h : call.Fits b) : call.Fits b' := by
  cases call with
  | start op => trivial
  | recordToHistory tx signatures hash => trivial
  | wallet tx signatures op => simpa only [BroadcastCall.Fits, htx, hsub] using h
  | expire tx => simpa only [BroadcastCall.Fits, htx, hsub] using h
  | submit tx signatures signedXdr => simpa only [BroadcastCall.Fits, htx, hsub] using h
  | saveSubmitted tx signatures hash => simpa only [BroadcastCall.Fits, htx, hsub] using h
  | saveFailed tx reason e => simpa only [BroadcastCall.Fits, htx, hsub] using h

theorem holds_length (t : BroadcastTask) : (t.gather BroadcastCall.holds).length ≤ 1 := by
  cases t with
  | done r => exact Nat.zero_le 1
  | running k =>
    cases k with
    | start op => exact Nat.zero_le 1
    | recordToHistory tx signatures hash => exact Nat.zero_le 1
    | wallet tx signatures op =>
      simp only [Task.gather, BroadcastCall.holds]
      split
      · exact Nat.le_refl 1
      · exact Nat.zero_le 1
    | expire tx => exact Nat.le_refl 1
    | submit tx signatures signedXdr => exact Nat.le_refl 1
    | saveSubmitted tx signatures hash => exact Nat.le_refl 1
    | saveFailed tx reason e => exact Nat.le_refl 1

/-- A step of a call while no other call holds the transaction. -/
theorem Clean.of_alone (hpre : gather BroadcastCall.holds pre = [])
    (hpost : gather BroadcastCall.holds post = [])
    (hfits : ∀ k, t = .running k → k.Fits b')
    (hsettled : t.gather BroadcastCall.holds = [] → Settled b') : Clean b' (pre ++ t :: post) := by
  have hgather : gather BroadcastCall.holds (pre ++ t :: post) = t.gather BroadcastCall.holds := by
    rw [gather_split, hpre, hpost, List.nil_append, List.append_nil]
  refine ⟨hgather ▸ holds_length t, fun k hk => ?_, fun h => hsettled (hgather ▸ h)⟩
  rcases List.mem_append.mp hk with hk | hk
  · exact BroadcastCall.fits_of_free (free_of_gather_nil hpre k hk)
  · rcases List.mem_cons.mp hk with hk | hk
    · exact hfits k hk.symm
    · exact BroadcastCall.fits_of_free (free_of_gather_nil hpost k hk)

/-- A step of a call that does not hold the transaction and leaves it as it is. -/
theorem Clean.of_free (h : Clean b (pre ++ .running call :: post)) (hcall : call.holds = [])
    (htx : b'.tx = b.tx) (hsub : b'.submissions = b.submissions)
    (ht : t.gather BroadcastCall.holds = []) : Clean b' (pre ++ t :: post) := by
  have hgather : gather BroadcastCall.holds (pre ++ t :: post) =
      gather BroadcastCall.holds (pre ++ .running call :: post) := gather_congr (ht.trans hcall.symm)
  refine ⟨hgather ▸ h.one, ?_, fun hnone => ?_⟩
  · have hfits : AllRunning (BroadcastCall.Fits b) (pre ++ t :: post) :=
      h.fits.replace fun k hk => BroadcastCall.fits_of_free (by rw [hk] at ht; exact ht)
    exact fun k hk => BroadcastCall.fits_congr htx hsub (hfits k hk)
  · obtain ⟨honce, hready, hstored⟩ := h.settled (hgather ▸ hnone)
    exact ⟨hsub ▸ honce, by rw [htx, hsub]; exact hready, by rw [htx, hsub]; exact hstored⟩

theorem settled_of_fresh (h : b.submissions = []) : Settled b where
  once := by rw [h]; exact Nat.zero_le 1
  ready _ := h
  stored s hs := by rw [h] at hs; cases hs

theorem Clean.start (h : Clean b (pre ++ .running (.start op) :: post))
    (hG : OneAtATime env (.start op) b (pre ++ .running (.start op) :: post)) :
    Clean (broadcast assemble env (.start op) b).1
      (pre ++ (broadcast assemble env (.start op) b).2 :: post) := by
  simp only [broadcast]
  split
  · exact h.of_free rfl rfl rfl rfl
  · split
    · exact h.of_free rfl rfl rfl rfl
    · by_cases hready : b.tx.status = .ready
      · have hnone := hG.1 rfl hready
        have hfresh := (h.settled hnone).ready hready
        rw [gather_split, List.append_eq_nil_iff, List.append_eq_nil_iff] at hnone
        refine .of_alone hnone.1.1 hnone.2 (fun k hk => ?_) fun _ => settled_of_fresh hfresh
        cases hk
        exact fun _ => ⟨hready, hfresh⟩
      · refine h.of_free rfl rfl rfl ?_
        rw [Task.gather, BroadcastCall.holds, if_neg hready]

theorem Clean.wallet {tx : MultisigTransaction} {signatures : List MultisigSignature}
    (h : Clean b (pre ++ .running (.wallet tx signatures op) :: post)) :
    Clean (broadcast assemble env (.wallet tx signatures op) b).1
      (pre ++ (broadcast assemble env (.wallet tx signatures op) b).2 :: post) := by
  by_cases hready : tx.status = .ready
  · obtain ⟨hstatus, hfresh⟩ := h.fits.here hready
    have hmem : () ∈ (BroadcastCall.wallet tx signatures op).holds := by
      rw [BroadcastCall.holds, if_pos hready]
      exact .head _
    obtain ⟨hpre, hpost⟩ := others_of_gather_le_one h.one hmem
    -- whatever the checks find, the transaction is still READY and not submitted
    have hnext : ∀ t : BroadcastTask, (∀ k, t = .running k → k.Fits b) → Clean b (pre ++ t :: post) :=
      fun t ht => .of_alone hpre hpost ht fun _ => settled_of_fresh hfresh
    simp only [broadcast]
    split
    · exact hnext _ fun k hk => by cases hk
    · split
      · exact hnext _ fun k hk => by cases hk
      · rw [if_neg (by rw [hready]; exact MultisigTransactionStatus.noConfusion),
          if_neg (not_not.mpr hready)]
        split
        · refine hnext _ fun k hk => ?_
          cases hk
          exact ⟨hstatus, hfresh⟩
        · split
          · exact hnext _ fun k hk => by cases hk
          · refine hnext _ fun k hk => ?_
            cases hk
            exact ⟨hstatus, hfresh⟩
  · have hfree : (BroadcastCall.wallet tx signatures op).holds = [] := if_neg hready
    simp only [broadcast]
    split
    · exact h.of_free hfree rfl rfl rfl
    · split
      · exact h.of_free hfree rfl rfl rfl
      · split
        · exact h.of_free hfree rfl rfl rfl
        · exact h.of_free hfree rfl rfl rfl

theorem Clean.submit {tx : MultisigTransaction} {signatures : List MultisigSignature}
    {signedXdr : String} (h : Clean b (pre ++ .running (.submit tx signatures signedXdr) :: post)) :
    Clean (broadcast assemble env (.submit tx signatures signedXdr) b).1
      (pre ++ (broadcast assemble env (.submit tx signatures signedXdr) b).2 :: post) := by
  obtain ⟨hstatus, hfresh⟩ := h.fits.here
  obtain ⟨hpre, hpost⟩ := others_of_gather_le_one h.one (.head _)
  simp only [broadcast]
  split
  · rename_i hash hsubmit
    refine .of_alone hpre hpost (fun k hk => ?_) fun hnone => by cases hnone
    cases hk
    refine ⟨rfl, hstatus, ?_⟩
    rw [hfresh]
    rfl
  · rename_i detail hsubmit
    refine .of_alone hpre hpost (fun k hk => ?_) fun hnone => by cases hnone
    cases hk
    rw [hfresh, List.nil_append, hsubmit]
    refine ⟨hstatus, rfl, fun s hs => ?_⟩
    rw [List.mem_singleton.mp hs]
    rintro ⟨hash, hok⟩
    cases hok

theorem Clean.saves (h : Clean b (pre ++ .running call :: post)) (hsaves : call.savesOutcome = true)
    (hfault : env.fault = none) :
    Clean (broadcast assemble env call b).1 (pre ++ (broadcast assemble env call b).2 :: post) := by
  cases call with
  | saveSubmitted tx signatures hash =>
    obtain ⟨hsubmitted, -, hone⟩ := h.fits.here
    obtain ⟨hpre, hpost⟩ := others_of_gather_le_one h.one (.head _)
    simp only [broadcast, hfault]
    refine .of_alone hpre hpost (fun k hk => ?_) fun _ => ⟨Nat.le_of_eq hone, fun hready => ?_,
      fun _ _ _ => hsubmitted⟩
    · cases hk
      trivial
    · rw [hsubmitted] at hready
      cases hready
  | saveFailed tx reason e =>
    obtain ⟨-, hone, hrejected⟩ := h.fits.here
    obtain ⟨hpre, hpost⟩ := others_of_gather_le_one h.one (.head _)
    simp only [broadcast, hfault]
    refine .of_alone hpre hpost (fun k hk => by cases hk) fun _ => ⟨Nat.le_of_eq hone, fun hready => ?_,
      fun s hs hok => absurd hok (hrejected s hs)⟩
    cases hready
  | start op => cases hsaves
  | wallet tx signatures op => cases hsaves
  | expire tx => cases hsaves
  | submit tx signatures signedXdr => cases hsaves
  | recordToHistory tx signatures hash => cases hsaves

theorem Clean.advance (h : Clean b (pre ++ .running call :: post))
    (hG : OneAtATime env call b (pre ++ .running call :: post)) :
    Clean (broadcast assemble env call b).1 (pre ++ (broadcast assemble env call b).2 :: post) := by
  cases call with
  | start op => exact h.start hG
  | wallet tx signatures op => exact h.wallet
  | expire tx =>
    obtain ⟨-, hfresh⟩ := h.fits.here
    obtain ⟨hpre, hpost⟩ := others_of_gather_le_one h.one (.head _)
    simp only [broadcast]
    split
    · exact .of_alone hpre hpost (fun k hk => by cases hk) fun _ => settled_of_fresh hfresh
    · exact .of_alone hpre hpost (fun k hk => by cases hk) fun _ => settled_of_fresh hfresh
  | submit tx signatures signedXdr => exact h.submit
  | saveSubmitted tx signatures hash => exact h.saves rfl (hG.2 rfl)
  | recordToHistory tx signatures hash => exact h.of_free rfl rfl rfl rfl
  | saveFailed tx reason e => exact h.saves rfl (hG.2 rfl)

theorem Clean.spawn (h : Clean b ts) (op : Broadcast) :
    Clean b (ts ++ [Task.running (BroadcastCall.start op)]) := by
  refine ⟨?_, h.fits.spawn trivial, ?_⟩
  · rw [gather_spawn rfl]
    exact h.one
  · rw [gather_spawn rfl]
    exact h.settled

end Clean

/-! ## Runs -/

/-- At most one submission, and one that succeeded is never stored as FAILED and, once no call is in
flight, is stored as SUBMITTED. -/
def SubmittedOnce (c : Conf Broadcasting BroadcastCall (Except HttpError MultisigTxStatus)) : Prop :=
  c.shared.submissions.length ≤ 1 ∧
    ∀ s ∈ c.shared.submissions, s.Succeeded →
      c.shared.tx.status ≠ .failed ∧ (c.Quiet → c.shared.tx.status = .submitted)

/-- The states in which a submission can be found while a call holds the transaction. -/
theorem BroadcastCall.Fits.submissions {k : BroadcastCall} {b : Broadcasting} (h : k.Fits b)
    (hk : k.holds ≠ []) : b.submissions.length ≤ 1 ∧ b.tx.status = .ready := by
  have hfresh : b.tx.status = .ready ∧ b.submissions = [] →
      b.submissions.length ≤ 1 ∧ b.tx.status = .ready := by
    rintro ⟨hready, hnone⟩
    rw [hnone]
    exact ⟨Nat.zero_le 1, hready⟩
  cases k with
  | start op => exact absurd rfl hk
  | recordToHistory tx signatures hash => exact absurd rfl hk
  | wallet tx signatures op =>
    by_cases hready : tx.status = .ready
    · exact hfresh (h hready)
    · exact absurd (if_neg hready) hk
  | expire tx => exact hfresh h
  | submit tx signatures signedXdr => exact hfresh h
  | saveSubmitted tx signatures hash => exact ⟨Nat.le_of_eq h.2.2, h.2.1⟩
  | saveFailed tx reason e => exact ⟨Nat.le_of_eq h.2.1, h.1⟩

theorem Clean.submittedOnce {c : Conf Broadcasting BroadcastCall (Except HttpError MultisigTxStatus)}
    (h : Clean c.shared c.tasks) : SubmittedOnce c := by
  by_cases hnone : gather BroadcastCall.holds c.tasks = []
  · obtain ⟨honce, -, hstored⟩ := h.settled hnone
    refine ⟨honce, fun s hs hok => ⟨?_, fun _ => hstored s hs hok⟩⟩
    rw [hstored s hs hok]
    exact MultisigTransactionStatus.noConfusion
  · obtain ⟨u, hu⟩ := List.exists_mem_of_ne_nil _ hnone
    obtain ⟨k, hk, hheld⟩ := exists_of_mem_gather hu
    obtain ⟨honce, hready⟩ := (h.fits k hk).submissions (List.ne_nil_of_mem hheld)
    refine ⟨honce, fun s hs hok => ⟨?_, fun hquiet => ?_⟩⟩
    · rw [hready]
      exact MultisigTransactionStatus.noConfusion
    · exact absurd (gather_quiet hquiet) hnone

/-- In every run that reads READY by one call at a time and whose saves after a submission succeed,
the transaction is submitted at most once and a submission that succeeded ends up as SUBMITTED. -/
theorem broadcast_once (assemble : Assemble) (tx : MultisigTransaction)
    (signatures : List MultisigSignature) (wallets : WalletTable)
    (acts : List (Act BroadcastEnv Broadcast))
    (h : Along (broadcastProc assemble).step (Meets (fun _ => True) OneAtATime)
      (Conf.init (Broadcasting.init tx signatures wallets)) acts) :
    Always (broadcastProc assemble).step SubmittedOnce
      (Conf.init (Broadcasting.init tx signatures wallets)) acts := by
  have hstart : Clean (Broadcasting.init tx signatures wallets) [] :=
    ⟨Nat.zero_le 1, .nil, fun _ => settled_of_fresh rfl⟩
  exact always_of_inv (s := Conf.init (Broadcasting.init tx signatures wallets))
    (I := fun c => Clean c.shared c.tasks) (fun c hc => hc.submittedOnce)
    (step_inv (broadcastProc assemble) (I := Clean) (fun b ts op _ hb => hb.spawn op)
      fun b pre k post env hG hb => hb.advance hG) hstart h

namespace Shared

def wallets : WalletTable := ⟨[wallet], by simp⟩

def pooled : List MultisigSignature :=
  [⟨"GALICE", "SIGA", 1, none⟩, ⟨"GBOB", "SIGB", 1, none⟩]

/-- The envelope of `proposed` with the two signatures on it. -/
def assemble : Assemble := fun unsignedXdr passphrase signatures =>
  if unsignedXdr = "AAAA" ∧ passphrase = "Test" ∧ signatures = ["SIGA", "SIGB"] then some "AAAASIGASIGB"
  else none

def ready : Broadcasting := .init { proposed with status := .ready } pooled wallets

def byOwner : Broadcast := ⟨7, 5⟩

/-- Before the deadline; the network accepts the transaction. -/
def accepted : BroadcastEnv := ⟨1, none, .ok "HASH"⟩

def lostConnection : BroadcastEnv := ⟨1, some "Connection terminated", .ok "HASH"⟩

/-- Both calls read READY before either submits. -/
def twoCallers : List (Act BroadcastEnv Broadcast) :=
  [.spawn byOwner, .spawn byOwner, .sched 0 accepted, .sched 1 accepted, .sched 0 accepted,
    .sched 1 accepted, .sched 0 accepted, .sched 1 accepted]

/-- The save after an accepted submission fails; the next one, of the handler, does not. -/
def failedSave : List (Act BroadcastEnv Broadcast) :=
  [.spawn byOwner, .sched 0 accepted, .sched 0 accepted, .sched 0 accepted, .sched 0 lostConnection,
    .sched 0 accepted]

def oneCaller : List (Act BroadcastEnv Broadcast) :=
  .spawn byOwner :: List.replicate 5 (.sched 0 accepted)

end Shared

open Shared in
/-- Both ways out of `OneAtATime` break the property: two submissions, and FAILED after a success. -/
theorem broadcast_twice_or_failed :
    (run (broadcastProc assemble).step (Conf.init ready) twoCallers).shared.submissions.length = 2 ∧
    (∃ s ∈ (run (broadcastProc assemble).step (Conf.init ready) failedSave).shared.submissions,
      s.Succeeded) ∧
    (run (broadcastProc assemble).step (Conf.init ready) failedSave).Quiet ∧
    (run (broadcastProc assemble).step (Conf.init ready) failedSave).shared.tx.status = .failed := by
  decide +kernel

open Shared in
theorem broadcast_once_oneCaller :
    Along (broadcastProc assemble).step (Meets (fun _ => True) OneAtATime) (Conf.init ready) oneCaller ∧
      SubmittedOnce (run (broadcastProc assemble).step (Conf.init ready) oneCaller) ∧
      (run (broadcastProc assemble).step (Conf.init ready) oneCaller).shared.tx.status = .submitted := by
  have h : Along (broadcastProc assemble).step (Meets (fun _ => True) OneAtATime) (Conf.init ready)
      oneCaller := by decide +kernel
  exact ⟨h, (broadcast_once assemble { proposed with status := .ready } pooled wallets oneCaller h).last,
    by decide +kernel⟩

end Wallets
end TradeCore
