import TradeCore.Coordinator.Atomicity

/-!
# TradeCore.Coordinator.Submission

What `executeLeg` submits. The operation it retries is `ContractInvocationService.invoke`: it builds,
simulates and signs a transaction, and `sendAndConfirm` sends it and polls for it. Whether an error
is worth another attempt is read off its name and its message (`isRetryableError`).

An `Attempt` holds what the outside answers to one `invoke`; the node may hold a transaction whose
sending threw, and a transaction it holds may land whatever the polls have said. `submits_once_iff`
says when no transaction is sent after one that lands.
-/

namespace TradeCore
namespace Coordinator

open Lib

/-! ## Errors -/

/-- What is read of a thrown `Error`. -/
structure JsError where
  name : String
  message : String
  deriving DecidableEq, Repr

/-- The two letters outside ASCII that have an ASCII letter in lower case come first. -/
def lowerCase (c : Char) : List Char :=
  if c.toNat = 0x212A then ['k']
  else if c.toNat = 0x130 then ['i', Char.ofNat 0x307]
  else [c.toLower]

def toLowerCase (s : String) : List Char := s.toList.flatMap lowerCase

def includes (s : List Char) (p : String) : Bool := s.tails.any fun t => p.toList.isPrefixOf t

def retryablePatterns : List String :=
  ["timeout", "timed out", "econnrefused", "econnreset", "enotfound", "network", "socket",
    "fetch failed", "getaddrinfo", "service unavailable", "bad gateway", "gateway timeout",
    "request failed with status code 429", "rate limit", "too many requests",
    "resource temporarily unavailable", "eagain", "econnaborted"]

def retryableNames : List String := ["networkerror", "timeouterror", "fetcherror", "systemerror"]

def isRetryableError (error : JsError) : Bool :=
  let message := toLowerCase error.message
  let name := toLowerCase error.name
  retryablePatterns.any (includes message) || includes message "status code 5" ||
    retryableNames.any (includes name)

def sorobanNetworkError (message : String) : JsError := ⟨"SorobanNetworkError", message⟩

def sorobanContractError (message : String) : JsError := ⟨"SorobanContractError", message⟩

def sorobanApplicationError (message : String) : JsError := ⟨"SorobanApplicationError", message⟩

def networkSignals : List String :=
  ["timeout", "timed out", "econnrefused", "econnreset", "enotfound", "network", "socket",
    "fetch failed", "getaddrinfo", "request failed with status code 5", "service unavailable",
    "bad gateway", "gateway timeout"]

def contractSignals : List String :=
  ["hostfunctionerror", "trapped", "trap", "invokehostfunction", "contract", "unreachable", "auth",
    "unauthorized"]

/-- `classifySdkError` of an error that is no `SorobanError` yet. -/
def classifySdkError (error : JsError) : JsError :=
  let lower := toLowerCase error.message
  if networkSignals.any (includes lower) then
    sorobanNetworkError s!"Soroban RPC unreachable: {error.message}"
  else if contractSignals.any (includes lower) then
    sorobanContractError s!"Contract execution failed: {error.message}"
  else sorobanApplicationError error.message

theorem isRetryableError_network (message : String) :
    isRetryableError (sorobanNetworkError message) = true := by
  have hname : retryableNames.any (includes (toLowerCase "SorobanNetworkError")) = true := by
    decide +kernel
  simp only [isRetryableError, sorobanNetworkError, hname, Bool.or_true]

theorem isRetryableError_classify {error : JsError}
    (h : networkSignals.any (includes (toLowerCase error.message)) = true) :
    isRetryableError (classifySdkError error) = true := by
  rw [classifySdkError, if_pos h]
  exact isRetryableError_network _

/-! ## One invocation -/

/-- What stops `invoke` before the transaction is sent. -/
inductive Refusal where
  | noSigner
  | arguments (error : JsError)
  | build (error : JsError)
  | simulate (error : JsError)
  | simulationError (error : String)
  | prepare (error : JsError)
  | sign (error : JsError)
  deriving DecidableEq, Repr

def Refusal.thrown : Refusal → JsError
  | .noSigner => sorobanApplicationError
      "This operation requires a server signer, but SOROBAN_SOURCE_SECRET is not configured."
  | .arguments error => error
  | .build error => classifySdkError error
  | .simulate error => classifySdkError error
  | .simulationError error => sorobanApplicationError s!"Simulation failed: {error}"
  | .prepare error => classifySdkError error
  | .sign error => error

inductive SendStatus where
  | pending
  | duplicate
  | tryAgainLater
  | error
  deriving DecidableEq, Repr

/-- The answer of `sendTransaction`. When it throws, the node may have the transaction all the same. -/
inductive Send where
  | threw (error : JsError) (received : Bool)
  | response (status : SendStatus) (hash : String)
  deriving DecidableEq, Repr

/-- The answer of one `getTransaction`. `returned` is what `decodeResult` makes of the return value,
when there is one. -/
inductive Poll where
  | notFound
  | success (returned : Option (Except JsError (Option Num)))
  | failed
  | threw (error : JsError)

structure Attempt where
  refusal : Option Refusal
  send : Send
  /-- The polls for which there is time before the deadline. -/
  polls : List Poll
  /-- Whether the transaction is applied, now or later, if the node has it. -/
  lands : Bool

def failedOnChain (hash : String) : JsError :=
  sorobanContractError s!"Transaction {hash} failed on-chain"

/-- The loop of `sendAndConfirm`. -/
def pollUntil (pollTimeoutMs : Nat) (hash : String) :
    List Poll → Except JsError (Option (Except JsError (Option Num)))
  | [] => .error (sorobanNetworkError
      s!"Transaction {hash} did not confirm within {pollTimeoutMs}ms")
  | .notFound :: polls => pollUntil pollTimeoutMs hash polls
  | .success returned :: _ => .ok returned
  | .failed :: _ => .error (failedOnChain hash)
  | .threw error :: _ => .error (classifySdkError error)

def rejectedOnSubmission : JsError := sorobanContractError "Transaction rejected on submission"

def sendAndConfirm (pollTimeoutMs : Nat) (a : Attempt) :
    Except JsError (String × Option (Except JsError (Option Num))) :=
  match a.send with
  | .threw error _ => .error (classifySdkError error)
  | .response .error _ => .error rejectedOnSubmission
  | .response _ hash => do
    let returned ← pollUntil pollTimeoutMs hash a.polls
    return (hash, returned)

def invoke (pollTimeoutMs : Nat) (a : Attempt) : Except JsError Invocation :=
  match a.refusal with
  | some refusal => .error refusal.thrown
  | none => do
    let (transactionHash, returned) ← sendAndConfirm pollTimeoutMs a
    match returned with
    | none => return ⟨transactionHash, none⟩
    | some (.error error) => .error error
    | some (.ok amountOut) => return ⟨transactionHash, amountOut⟩

/-- The attempt gets as far as sending its transaction. -/
def Attempt.Sends (a : Attempt) : Prop := a.refusal = none

def Send.accepted : Send → Bool
  | .threw _ received => received
  | .response .pending _ => true
  | .response .duplicate _ => true
  | .response .tryAgainLater _ => false
  | .response .error _ => false

/-- The attempt sends a transaction that the node accepts and that is applied. -/
def Attempt.Landed (a : Attempt) : Prop := a.Sends ∧ a.send.accepted = true ∧ a.lands = true

instance (a : Attempt) : Decidable a.Sends := inferInstanceAs (Decidable (a.refusal = none))

instance (a : Attempt) : Decidable a.Landed :=
  inferInstanceAs (Decidable (a.Sends ∧ a.send.accepted = true ∧ a.lands = true))

/-! ## The attempts of a leg -/

section Retry

variable {α : Type}

/-- The numbers of the attempts that `executeWithRetry` makes. -/
def attemptsMade (operation : Nat → Except Bool α) : Nat → Nat → List Nat
  | 0, attempt => [attempt]
  | left + 1, attempt =>
    match operation attempt with
    | .error true => attempt :: attemptsMade operation left (attempt + 1)
    | _ => [attempt]

variable {operation : Nat → Except Bool α}

theorem attemptsMade_retry {n : Nat} (h : operation n = .error true) (left : Nat) :
    attemptsMade operation (left + 1) n = n :: attemptsMade operation left (n + 1) := by
  simp only [attemptsMade, h]

theorem attemptsMade_stop {n : Nat} (h : operation n ≠ .error true) (left : Nat) :
    attemptsMade operation left n = [n] := by
  cases left with
  | zero => rfl
  | succ left =>
    rw [attemptsMade]
    split
    · rename_i hop
      exact absurd hop h
    · rfl

theorem mem_attemptsMade {left n m : Nat} :
    m ∈ attemptsMade operation left n ↔
      n ≤ m ∧ m ≤ n + left ∧ ∀ k, n ≤ k → k < m → operation k = .error true := by
  induction left generalizing n with
  | zero =>
    rw [attemptsMade, List.mem_singleton]
    constructor
    · rintro rfl
      exact ⟨Nat.le_refl m, Nat.le_refl m, fun k hk hlt => absurd hk (by omega)⟩
    · rintro ⟨hle, hge, -⟩
      omega
  | succ left ih =>
    by_cases hop : operation n = .error true
    · rw [attemptsMade_retry hop, List.mem_cons, ih]
      constructor
      · rintro (rfl | ⟨hle, hge, hall⟩)
        · exact ⟨Nat.le_refl m, by omega, fun k hk hlt => absurd hk (by omega)⟩
        · refine ⟨by omega, by omega, fun k hk hlt => ?_⟩
          rcases Nat.eq_or_lt_of_le hk with rfl | hk
          · exact hop
          · exact hall k hk hlt
      · rintro ⟨hle, hge, hall⟩
        rcases Nat.eq_or_lt_of_le hle with rfl | hlt
        · exact .inl rfl
        · exact .inr ⟨hlt, by omega, fun k hk => hall k (by omega)⟩
    · rw [attemptsMade_stop hop, List.mem_singleton]
      constructor
      · rintro rfl
        exact ⟨Nat.le_refl m, by omega, fun k hk hlt => absurd hk (by omega)⟩
      · rintro ⟨hle, -, hall⟩
        by_contra hne
        exact hop (hall n (Nat.le_refl n) (by omega))

theorem loop_eq_last (left n : Nat) : ∃ m, (attemptsMade operation left n).getLast? = some m ∧
    executeWithRetry.loop operation left n = (operation m).toOption := by
  induction left generalizing n with
  | zero => exact ⟨n, rfl, rfl⟩
  | succ left ih =>
    by_cases hop : operation n = .error true
    · obtain ⟨m, hm, hloop⟩ := ih (n + 1)
      refine ⟨m, ?_, by simp [executeWithRetry.loop, hop, hloop]⟩
      rw [attemptsMade_retry hop, List.getLast?_cons, hm]
      rfl
    · refine ⟨n, by rw [attemptsMade_stop hop]; rfl, ?_⟩
      rw [executeWithRetry.loop]
      split
      · rename_i result hok
        rw [hok]
        rfl
      · rename_i retryable herror
        cases retryable with
        | false => rw [herror]; rfl
        | true => exact absurd herror hop

end Retry

/-- `executeWithRetry` around `invoke`, with the errors as `isRetryableError` sees them. -/
def operation (pollTimeoutMs : Nat) (attempts : Nat → Attempt) (n : Nat) : Except Bool Invocation :=
  (invoke pollTimeoutMs (attempts n)).mapError isRetryableError

/-- The attempts of `executeLeg` that send a transaction: none when the leg cannot be saved as
executing. -/
def legSubmissions (w : World) (pollTimeoutMs : Nat) (attempts : Nat → Attempt) (i : Nat) :
    List Nat :=
  if w.legFails i .saveExecuting then []
  else (attemptsMade (operation pollTimeoutMs attempts) 2 0).filter fun n => (attempts n).Sends

/-- No transaction of the leg is sent after one that lands. -/
def SubmitsOnce (w : World) (pollTimeoutMs : Nat) (attempts : Nat → Attempt) (i : Nat) : Prop :=
  ∀ n ∈ legSubmissions w pollTimeoutMs attempts i, ∀ m ∈ legSubmissions w pollTimeoutMs attempts i,
    n < m → ¬ (attempts n).Landed

/-- The first poll that finds the transaction, or throws. -/
def verdict : List Poll → Option Poll
  | [] => none
  | .notFound :: polls => verdict polls
  | poll :: _ => some poll

/-- The attempt fails with an error that is worth another: it is stopped before it sends, sending
throws, the deadline passes without a verdict, a poll throws, or the result cannot be decoded. -/
def Attempt.Retried (a : Attempt) : Prop :=
  match a.refusal, a.send with
  | some refusal, _ => isRetryableError refusal.thrown = true
  | none, .threw error _ => isRetryableError (classifySdkError error) = true
  | none, .response .error _ => False
  | none, .response _ hash =>
    match verdict a.polls with
    | none => True
    | some (.threw error) => isRetryableError (classifySdkError error) = true
    | some .failed => isRetryableError (failedOnChain hash) = true
    | some (.success (some (.error error))) => isRetryableError error = true
    | some _ => False

theorem pollUntil_eq (pollTimeoutMs : Nat) (hash : String) (polls : List Poll) :
    pollUntil pollTimeoutMs hash polls =
      match verdict polls with
      | some (.success returned) => .ok returned
      | some (.threw error) => .error (classifySdkError error)
      | some .failed => .error (failedOnChain hash)
      | _ => .error (sorobanNetworkError
          s!"Transaction {hash} did not confirm within {pollTimeoutMs}ms") := by
  induction polls with
  | nil => rfl
  | cons poll polls ih =>
    cases poll with
    | notFound => exact ih
    | success returned => rfl
    | failed => rfl
    | threw error => rfl

theorem verdict_ne_notFound (polls : List Poll) : verdict polls ≠ some .notFound := by
  induction polls with
  | nil => exact nofun
  | cons poll polls ih =>
    cases poll with
    | notFound => exact ih
    | success returned => exact nofun
    | failed => exact nofun
    | threw error => exact nofun

theorem mapError_eq_error {α ε ε' : Type} {x : Except ε α} {f : ε → ε'} {e' : ε'} :
    x.mapError f = .error e' ↔ ∃ e, x = .error e ∧ f e = e' := by
  cases x with
  | ok a => exact iff_of_false nofun nofun
  | error e => simp [Except.mapError]

theorem isRetryableError_rejected : isRetryableError rejectedOnSubmission = false := by
  decide +kernel

/-- Which attempts are followed by another one. -/
theorem retried_iff (pollTimeoutMs : Nat) (attempts : Nat → Attempt) (n : Nat) :
    operation pollTimeoutMs attempts n = .error true ↔ (attempts n).Retried := by
  rw [operation, mapError_eq_error]
  generalize attempts n = a
  unfold Attempt.Retried invoke sendAndConfirm
  cases a.refusal with
  | some refusal => simp
  | none =>
    cases a.send with
    | threw error received => simp [bind, Except.bind]
    | response status hash =>
      have hverdict := verdict_ne_notFound a.polls
      cases status with
      | error => simp [bind, Except.bind, isRetryableError_rejected]
      | pending | duplicate | tryAgainLater =>
        -- the three are polled for alike
        simp only [pollUntil_eq]
        generalize verdict a.polls = v at hverdict ⊢
        cases v with
        | none => simp [bind, Except.bind, isRetryableError_network]
        | some poll =>
          cases poll with
          | notFound => exact absurd rfl hverdict
          | failed => simp [bind, Except.bind]
          | threw error => simp [bind, Except.bind]
          | success returned =>
            cases returned with
            | none => simp [bind, Except.bind, pure, Except.pure]
            | some result =>
              cases result with
              | error error => simp [bind, Except.bind, pure, Except.pure]
              | ok amountOut => simp [bind, Except.bind, pure, Except.pure]

theorem mem_legSubmissions {w : World} {pollTimeoutMs : Nat} {attempts : Nat → Attempt} {i n : Nat} :
    n ∈ legSubmissions w pollTimeoutMs attempts i ↔
      w.legFails i .saveExecuting = false ∧ n ≤ 2 ∧ (∀ k < n, (attempts k).Retried) ∧
        (attempts n).Sends := by
  unfold legSubmissions
  split
  · rename_i hfails
    simp [hfails]
  · rename_i hsaved
    rw [List.mem_filter, mem_attemptsMade]
    simp only [Nat.zero_le, true_and, Nat.zero_add, retried_iff, decide_eq_true_eq, hsaved,
      forall_const, and_assoc]

/-- No transaction of a leg is sent after one that lands exactly when the leg cannot be saved as
executing or no attempt sends behind a landed transaction whose attempts have all been retried. -/
theorem submits_once_iff (w : World) (pollTimeoutMs : Nat) (attempts : Nat → Attempt) (i : Nat) :
    SubmitsOnce w pollTimeoutMs attempts i ↔
      w.legFails i .saveExecuting = true ∨
      ∀ n m, n < m → m ≤ 2 → (∀ k < m, (attempts k).Retried) → (attempts n).Landed →
        ¬ (attempts m).Sends := by
  unfold SubmitsOnce
  simp only [mem_legSubmissions]
  cases hsaved : w.legFails i .saveExecuting with
  | true => simp
  | false =>
    constructor
    · intro h
      refine .inr fun n m hnm hm hretried hlanded hsends => ?_
      exact h n ⟨rfl, by omega, fun k hk => hretried k (by omega), hlanded.1⟩ m
        ⟨rfl, hm, hretried, hsends⟩ hnm hlanded
    · rintro (hfails | h) n - m ⟨-, hm, hretried, hsends⟩ hnm hlanded
      · cases hfails
      · exact h n m hnm hm hretried hlanded hsends

/-- A leg whose landed transactions are all confirmed and decoded is submitted once. -/
theorem submits_once_of_confirmed (w : World) (pollTimeoutMs : Nat) {attempts : Nat → Attempt}
    (h : ∀ n, (attempts n).Landed → ¬ (attempts n).Retried) (i : Nat) :
    SubmitsOnce w pollTimeoutMs attempts i :=
  (submits_once_iff w pollTimeoutMs attempts i).mpr
    (.inr fun n _ hnm _ hretried hlanded _ => h n hlanded (hretried n hnm))

/-- What `executeLeg` is given is the result of the last attempt. -/
theorem invoked_eq_last {w : World} {pollTimeoutMs : Nat} {attempts : Nat → Attempt} {i : Nat}
    (h : w.invoke i = operation pollTimeoutMs attempts) :
    ∃ m, (attemptsMade (operation pollTimeoutMs attempts) 2 0).getLast? = some m ∧
      w.invoked i = (invoke pollTimeoutMs (attempts m)).toOption := by
  obtain ⟨m, hlast, hloop⟩ := @loop_eq_last _ (operation pollTimeoutMs attempts) 2 0
  refine ⟨m, hlast, ?_⟩
  rw [World.invoked, h, executeWithRetry, hloop, operation]
  cases invoke pollTimeoutMs (attempts m) with
  | ok result => rfl
  | error e => rfl

/-! ## A leg submitted twice -/

def confirmedAttempt : Attempt := ⟨none, .response .pending "b2", [.success none], true⟩

/-- The first transaction is accepted and lands after the deadline of its polls. -/
def lateAttempts : Nat → Attempt
  | 0 => ⟨none, .response .pending "a1", [.notFound, .notFound], true⟩
  | _ => confirmedAttempt

/-- The first transaction is accepted and lands, and the poll for it loses its connection. -/
def cutOffAttempts : Nat → Attempt
  | 0 => ⟨none, .response .pending "a1", [.threw ⟨"Error", "socket hang up"⟩], true⟩
  | _ => confirmedAttempt

theorem sent_twice {attempts : Nat → Attempt} (hretried : (attempts 0).Retried)
    (hlast : ¬ (attempts 1).Retried) (hsends : (attempts 0).Sends) (hsends' : (attempts 1).Sends) :
    legSubmissions calm 30000 attempts 0 = [0, 1] := by
  have hfirst : operation 30000 attempts 0 = .error true := (retried_iff 30000 attempts 0).mpr hretried
  have hsecond : operation 30000 attempts 1 ≠ .error true :=
    fun h => hlast ((retried_iff 30000 attempts 1).mp h)
  rw [legSubmissions, if_neg (by simp [calm]), attemptsMade_retry hfirst, attemptsMade_stop hsecond]
  simp [hsends, hsends']

/-- Either way a second transaction is sent, lands too, and is the one the leg reports. -/
theorem landed_leg_sent_again :
    legSubmissions calm 30000 lateAttempts 0 = [0, 1] ∧
    legSubmissions calm 30000 cutOffAttempts 0 = [0, 1] ∧
    (lateAttempts 0).Landed ∧ (cutOffAttempts 0).Landed ∧ confirmedAttempt.Landed ∧
    ((World.invoked { calm with invoke := fun _ => operation 30000 lateAttempts } 0).map
      (·.transactionHash)) = some "b2" ∧
    ¬ SubmitsOnce calm 30000 lateAttempts 0 ∧ ¬ SubmitsOnce calm 30000 cutOffAttempts 0 := by
  have hlate : legSubmissions calm 30000 lateAttempts 0 = [0, 1] := sent_twice trivial id rfl rfl
  have hsocket : (cutOffAttempts 0).Retried := isRetryableError_classify (by decide +kernel)
  have hcut : legSubmissions calm 30000 cutOffAttempts 0 = [0, 1] := sent_twice hsocket id rfl rfl
  refine ⟨hlate, hcut, by decide, by decide, by decide, ?_, ?_, ?_⟩
  · have hfirst : operation 30000 lateAttempts 0 = .error true :=
      (retried_iff 30000 lateAttempts 0).mpr trivial
    show (executeWithRetry.loop (operation 30000 lateAttempts) 2 0).map _ = _
    rw [executeWithRetry.loop, hfirst]
    rfl
  · intro h
    exact h 0 (by simp [hlate]) 1 (by simp [hlate]) Nat.zero_lt_one (by decide)
  · intro h
    exact h 0 (by simp [hcut]) 1 (by simp [hcut]) Nat.zero_lt_one (by decide)

end Coordinator
end TradeCore
