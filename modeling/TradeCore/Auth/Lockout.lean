import Mathlib.Logic.Function.Basic
import TradeCore.Common
import TradeCore.Lib.Interleave
import TradeCore.Lib.ScoredSet

/-!
# TradeCore.Auth.Lockout

`login` under the lockout of `AuthRateLimiterService`. Any number of logins run at a time, one command
of the server or one query of the database a step. A failure is counted in `auth:fail:`, for five
minutes from the last one; the fifth sets `auth:lock:` for fifteen. A login looks at the lock once,
before it compares the password.

`failures_bounded`: with at most `k` logins of an address in flight, at most `4 + k` of them fail in
five minutes without a success between. One after the other that is five; `bound_reached` has six of
two at a time.
-/

namespace TradeCore
namespace Auth
namespace Lockout

open Lib

def maxFailures : Nat := 5

/-- Milliseconds. -/
def failureWindow : Int := 300 * 1000

def lockout : Int := 900 * 1000

structure User where
  id : Uuid
  email : String
  passwordHash : String
  isActive : Bool

structure LoginDto where
  email : String
  password : String

/-- The server with its clock, and the users. -/
structure State where
  now : Int
  users : List User
  fail : String → Expiring Nat
  lock : String → Expiring Bool

namespace State

def tick (s : State) (elapsed : Nat) : State := { s with now := s.now + elapsed }

def isLocked (s : State) (email : String) : Bool := (s.lock email).at false s.now

/-- `INCR` and `EXPIRE` in one transaction. -/
def countFailure (s : State) (email : String) : State :=
  { s with
    fail := Function.update s.fail email
      ⟨(s.fail email).at 0 s.now + 1, some (s.now + failureWindow)⟩ }

def setLock (s : State) (email : String) : State :=
  { s with lock := Function.update s.lock email ⟨true, some (s.now + lockout)⟩ }

/-- `DEL` of both keys. -/
def clearFailures (s : State) (email : String) : State :=
  { s with
    fail := Function.update s.fail email (.holds 0)
    lock := Function.update s.lock email (.holds false) }

def failures (s : State) (email : String) : Nat := (s.fail email).at 0 s.now

/-- Whole seconds, rounded to the nearest; a key that is not there has none. -/
def lockoutTtl (s : State) (email : String) : Int :=
  match ((s.lock email).live false s.now).expiresAt with
  | none => 0
  | some e => (e - s.now + 500) / 1000

end State

/-- Where a login stands: before the command its constructor names. -/
inductive Call where
  | isLockedOut (dto : LoginDto)
  | getLockoutTtl (dto : LoginDto)
  | findByEmail (dto : LoginDto)
  | compare (dto : LoginDto) (user : User)
  | recordFailure (dto : LoginDto)
  | setLock (dto : LoginDto) (failedAt : Int)
  | clearFailures (dto : LoginDto) (user : User)

/-- How a login ended. One that failed comes with the moment it was counted. -/
inductive Answer where
  | loggedIn (userId : Uuid)
  | failed (email : String) (failedAt : Option Int) (e : HttpError)
  deriving DecidableEq

structure Env where
  elapsed : Nat
  fault : Bool

abbrev LoginTask := Task Call Answer

def invalidCredentials (dto : LoginDto) (failedAt : Option Int) : LoginTask :=
  .done (.failed dto.email failedAt (.unauthorized "Invalid credentials"))

/-- A command of the limiter that fails is logged and the login goes on. -/
def adv (compare : String → String → Bool) (fault : Bool) (call : Call) (s : State) : State × LoginTask :=
  match call with
  | .isLockedOut dto =>
    if ¬ fault ∧ s.isLocked dto.email then (s, .running (.getLockoutTtl dto))
    else (s, .running (.findByEmail dto))
  | .getLockoutTtl dto =>
    let ttl := if fault then 0 else s.lockoutTtl dto.email
    (s, .done (.failed dto.email none (.unauthorized
      ("Too many failed attempts. Try again in " ++ toString ttl ++ " seconds."))))
  | .findByEmail dto =>
    if fault then (s, .done (.failed dto.email none databaseError))
    else match s.users.find? fun u => u.email = dto.email with
      | none => (s, .running (.recordFailure dto))
      | some user =>
        if user.isActive then (s, .running (.compare dto user)) else (s, .running (.recordFailure dto))
  | .compare dto user =>
    if compare dto.password user.passwordHash then (s, .running (.clearFailures dto user))
    else (s, .running (.recordFailure dto))
  | .recordFailure dto =>
    if fault then (s, invalidCredentials dto none)
    else if maxFailures ≤ s.failures dto.email + 1 then
      (s.countFailure dto.email, .running (.setLock dto s.now))
    else (s.countFailure dto.email, invalidCredentials dto (some s.now))
  | .setLock dto failedAt =>
    (if fault then s else s.setLock dto.email, invalidCredentials dto (some failedAt))
  | .clearFailures dto user =>
    (if fault then s else s.clearFailures dto.email, .done (.loggedIn user.id))

/-- A step happens when the time it takes is over. -/
def logins (compare : String → String → Bool) : Proc State Env LoginDto Call Answer :=
  ⟨.isLockedOut, fun env call s => adv compare env.fault call (s.tick env.elapsed)⟩

/-! ## Failures and what may still fail -/

def Call.email : Call → String
  | .isLockedOut dto | .getLockoutTtl dto | .findByEmail dto | .compare dto _ | .recordFailure dto
  | .setLock dto _ | .clearFailures dto _ => dto.email

def Call.succeeds : Call → Bool
  | .clearFailures _ _ => true
  | _ => false

def inWindow (start time : Int) : Bool := start ≤ time ∧ time < start + failureWindow

/-- A login of the address that was counted in the five minutes from `start` on. -/
def isFailure (email : String) (start : Int) : LoginTask → Bool
  | .running (.setLock dto failedAt) => dto.email = email ∧ inWindow start failedAt
  | .done (.failed email' (some failedAt) _) => email' = email ∧ inWindow start failedAt
  | _ => false

def failuresSince (email : String) (start : Int) (ts : List LoginTask) : Nat :=
  ts.countP (isFailure email start)

def isInFlight (email : String) : LoginTask → Bool
  | .running call => call.email = email
  | .done _ => false

def inFlight (email : String) (ts : List LoginTask) : Nat := ts.countP (isInFlight email)

/-- A login of the address that is past the lock and not yet counted. -/
def isPending (email : String) : LoginTask → Bool
  | .running (.findByEmail dto) | .running (.compare dto _) | .running (.recordFailure dto) =>
    dto.email = email
  | _ => false

/-- A login of the address that was counted as the fifth or a later one and is about to set the lock. -/
def isLocking (email : String) : LoginTask → Bool
  | .running (.setLock dto _) => dto.email = email
  | _ => false

theorem countP_here {p : LoginTask → Bool} (pre post : List LoginTask) (t : LoginTask) :
    (pre ++ t :: post).countP p = pre.countP p + post.countP p + (p t).toNat := by
  rw [List.countP_append, List.countP_cons]
  cases p t
  · rfl
  · simp only [if_true, Bool.toNat_true]
    omega

theorem pending_add_locking_le (email : String) (ts : List LoginTask) :
    ts.countP (isPending email) + ts.countP (isLocking email) ≤ inFlight email ts := by
  induction ts with
  | nil => simp [inFlight]
  | cons t ts ih =>
    have hone : (isPending email t).toNat + (isLocking email t).toNat ≤ (isInFlight email t).toNat := by
      cases t with
      | done r => exact Nat.le_refl 0
      | running call =>
        cases call <;> simp [isPending, isLocking, isInFlight, Call.email]
        all_goals exact Nat.le_refl _
    have hp := countP_here (p := isPending email) [] ts t
    have hl := countP_here (p := isLocking email) [] ts t
    have hi := countP_here (p := isInFlight email) [] ts t
    simp only [inFlight, List.nil_append, List.countP_nil] at ih hp hl hi ⊢
    omega

/-- What is asked of a step within the five minutes: at most `k` logins of the address are in flight,
and if it is one of them, the server answers and the login does not succeed. -/
def Steady (email : String) (start : Int) (k : Nat) (env : Env) (call : Call) (s : State)
    (ts : List LoginTask) : Prop :=
  inWindow start (s.now + env.elapsed) = true → inFlight email ts ≤ k ∧
    (call.email = email → env.fault = false ∧ call.succeeds = false)

instance (email : String) (start : Int) (k : Nat) (env : Env) (call : Call) (s : State)
    (ts : List LoginTask) : Decidable (Steady email start k env call s ts) :=
  inferInstanceAs (Decidable (_ → _ ∧ (_ → _ ∧ _)))

/-- What holds of an address while the five minutes last. -/
structure Counting (email : String) (start : Int) (k : Nat) (s : State) (ts : List LoginTask) : Prop where
  counted : 0 < failuresSince email start ts → ∃ e, (s.fail email).expiresAt = some e ∧
    start + failureWindow ≤ e ∧ failuresSince email start ts ≤ (s.fail email).value
  locked : failuresSince email start ts ≤ 4 + ts.countP (isLocking email) ∨
    (∃ e, (s.lock email).expiresAt = some e ∧ start + lockout ≤ e ∧ (s.lock email).value = true) ∧
      failuresSince email start ts + ts.countP (isPending email) ≤ 4 + k

structure Bounded (email : String) (start : Int) (k : Nat) (s : State) (ts : List LoginTask) : Prop where
  bound : failuresSince email start ts ≤ 4 + k
  past : s.now < start → failuresSince email start ts = 0
  counting : s.now < start + failureWindow → Counting email start k s ts

/-! ## One step -/

section Step

variable {compare : String → String → Bool} {fault : Bool} {call : Call} {s s' : State} {email : String}
  {start : Int} {k : Nat} {pre post : List LoginTask} {t : LoginTask}

theorem adv_now : (adv compare fault call s).1.now = s.now := by
  cases call <;> simp only [adv] <;> repeat' split
  all_goals rfl

variable (compare fault s start) in
theorem adv_other (h : call.email ≠ email) :
    (adv compare fault call s).1.fail email = s.fail email ∧
      (adv compare fault call s).1.lock email = s.lock email ∧
      isFailure email start (adv compare fault call s).2 = false ∧
      isPending email (adv compare fault call s).2 = false ∧
      isLocking email (adv compare fault call s).2 = false := by
  have hne : email ≠ call.email := Ne.symm h
  cases call <;> simp only [adv] <;> repeat' split
  all_goals
    simp only [Call.email] at h hne
    simp [isFailure, isPending, isLocking, invalidCredentials, State.countFailure, State.setLock,
      State.clearFailures, Function.update_of_ne hne, h]

theorem isFailure_call (h : call.email ≠ email) : isFailure email start (.running call) = false := by
  cases call <;> simp_all [isFailure, Call.email]

theorem isLocking_call (h : call.email ≠ email) : isLocking email (.running call) = false := by
  cases call <;> simp_all [isLocking, Call.email]

theorem isFailure_adv : isFailure email start (adv compare fault call s).2 =
      isFailure email start (.running call) ∨ inWindow start s.now = true := by
  cases call <;> simp only [adv] <;> repeat' split
  all_goals simp [isFailure, invalidCredentials]
  all_goals exact Classical.or_iff_not_imp_right.mpr fun h => by simp [h]

variable (pre post) in
theorem failuresSince_replace (h : isFailure email start t = isFailure email start (.running call)) :
    failuresSince email start (pre ++ t :: post) =
      failuresSince email start (pre ++ .running call :: post) := by
  rw [failuresSince, failuresSince, countP_here, countP_here, h]

/-- A step that changes neither key, counts no failure and lets no login past the lock. -/
theorem Counting.replace (h : Counting email start k s (pre ++ .running call :: post))
    (hfail : s'.fail email = s.fail email) (hlock : s'.lock email = s.lock email)
    (hf : isFailure email start t = isFailure email start (.running call))
    (hl : isLocking email t = isLocking email (.running call))
    (hp : (isPending email t).toNat ≤ (isPending email (.running call)).toNat) :
    Counting email start k s' (pre ++ t :: post) := by
  have hcount := failuresSince_replace pre post hf
  have hlocking : (pre ++ t :: post).countP (isLocking email) =
      (pre ++ .running call :: post).countP (isLocking email) := by
    rw [countP_here, countP_here, hl]
  have hpending : (pre ++ t :: post).countP (isPending email) ≤
      (pre ++ .running call :: post).countP (isPending email) := by
    rw [countP_here, countP_here]
    omega
  refine ⟨fun hpos => ?_, ?_⟩
  · rw [hfail, hcount]
    exact h.counted (hcount ▸ hpos)
  · rw [hlock, hcount, hlocking]
    refine h.locked.imp id fun ⟨hset, hle⟩ => ⟨hset, ?_⟩
    omega

theorem inWindow_iff {time : Int} :
    inWindow start time = true ↔ start ≤ time ∧ time < start + failureWindow := by
  simp [inWindow]

/-- The fifth failure, and every later one, goes on to set the lock. -/
theorem Counting.recordFailure {dto : LoginDto} (hwin : inWindow start s.now = true)
    (h : Counting dto.email start k s (pre ++ .running (.recordFailure dto) :: post)) :
    Counting dto.email start k (adv compare false (.recordFailure dto) s).1
      (pre ++ (adv compare false (.recordFailure dto) s).2 :: post) := by
  obtain ⟨hlow, hhigh⟩ := inWindow_iff.mp hwin
  have hfailed : ∀ t : LoginTask, isFailure dto.email start t = true →
      failuresSince dto.email start (pre ++ t :: post) =
        failuresSince dto.email start (pre ++ .running (.recordFailure dto) :: post) + 1 := by
    intro t ht
    rw [failuresSince, failuresSince, countP_here, countP_here, ht]
    rfl
  have hvalue : failuresSince dto.email start (pre ++ .running (.recordFailure dto) :: post) ≤
      s.failures dto.email := by
    rcases Nat.eq_zero_or_pos (failuresSince dto.email start (pre ++ .running (.recordFailure dto) :: post))
      with hzero | hpos
    · omega
    · obtain ⟨e, he, hlate, hle⟩ := h.counted hpos
      have hlive : ¬ e ≤ s.now := by omega
      simpa [State.failures, Expiring.at, he, hlive] using hle
  have hkey : (s.countFailure dto.email).fail dto.email =
      ⟨s.failures dto.email + 1, some (s.now + failureWindow)⟩ := Function.update_self ..
  have hcounted : ∀ t : LoginTask, isFailure dto.email start t = true →
      ∃ e, ((s.countFailure dto.email).fail dto.email).expiresAt = some e ∧ start + failureWindow ≤ e ∧
        failuresSince dto.email start (pre ++ t :: post) ≤ ((s.countFailure dto.email).fail dto.email).value := by
    intro t ht
    rw [hkey, hfailed t ht]
    exact ⟨_, rfl, by omega, Nat.succ_le_succ hvalue⟩
  simp only [adv, Bool.false_eq_true, if_false]
  split
  · have ht : isFailure dto.email start (.running (.setLock dto s.now)) = true := by simp [isFailure, hwin]
    refine ⟨fun _ => hcounted _ ht, ?_⟩
    rw [hfailed _ ht, countP_here, countP_here (p := isPending dto.email)]
    have hold := h.locked
    rw [countP_here, countP_here (p := isPending dto.email)] at hold
    simp only [isLocking, isPending, decide_true, Bool.toNat_true, Bool.toNat_false, Nat.add_zero] at hold ⊢
    refine hold.imp (fun hle => by omega) (And.imp_right fun hle => by omega)
  · rename_i hfew
    have ht : isFailure dto.email start (invalidCredentials dto (some s.now)) = true := by
      simp [isFailure, invalidCredentials, hwin]
    refine ⟨fun _ => hcounted _ ht, .inl ?_⟩
    rw [hfailed _ ht]
    unfold maxFailures at hfew
    omega

/-- Once the lock is set, what may still fail is in flight. -/
theorem Counting.setLock {dto : LoginDto} {failedAt : Int} (hwin : inWindow start s.now = true)
    (hcap : inFlight dto.email (pre ++ .running (.setLock dto failedAt) :: post) ≤ k)
    (h : Counting dto.email start k s (pre ++ .running (.setLock dto failedAt) :: post)) :
    Counting dto.email start k (adv compare false (.setLock dto failedAt) s).1
      (pre ++ (adv compare false (.setLock dto failedAt) s).2 :: post) := by
  obtain ⟨hlow, hhigh⟩ := inWindow_iff.mp hwin
  have hf : isFailure dto.email start (invalidCredentials dto (some failedAt)) =
      isFailure dto.email start (.running (.setLock dto failedAt)) := by
    simp [isFailure, invalidCredentials]
  have hcount := failuresSince_replace pre post hf
  simp only [adv, Bool.false_eq_true, if_false]
  refine ⟨fun hpos => ?_, .inr ⟨⟨s.now + lockout, ?_, by omega, ?_⟩, ?_⟩⟩
  · rw [hcount] at hpos ⊢
    exact h.counted hpos
  · simp [State.setLock]
  · simp [State.setLock]
  · have hflight := pending_add_locking_le dto.email (pre ++ .running (.setLock dto failedAt) :: post)
    have hold := h.locked
    rw [hcount, countP_here]
    rw [countP_here (p := isPending dto.email)] at hflight hold
    simp only [isPending, invalidCredentials, Bool.toNat_false, Nat.add_zero] at hflight hold ⊢
    rcases hold with hle | ⟨-, hle⟩ <;> omega

/-- A login that comes after the lock was set does not get past it. -/
theorem Counting.isLockedOut {dto : LoginDto} (hwin : inWindow start s.now = true)
    (h : Counting dto.email start k s (pre ++ .running (.isLockedOut dto) :: post)) :
    Counting dto.email start k (adv compare false (.isLockedOut dto) s).1
      (pre ++ (adv compare false (.isLockedOut dto) s).2 :: post) := by
  obtain ⟨hlow, hhigh⟩ := inWindow_iff.mp hwin
  simp only [adv, Bool.false_eq_true, not_false_eq_true, true_and]
  split
  · exact h.replace rfl rfl rfl rfl (Nat.le_refl _)
  · rename_i hfree
    have hcount := failuresSince_replace pre post
      (show isFailure dto.email start (.running (.findByEmail dto)) =
        isFailure dto.email start (.running (.isLockedOut dto)) from rfl)
    refine ⟨fun hpos => ?_, ?_⟩
    · rw [hcount] at hpos ⊢
      exact h.counted hpos
    · rcases h.locked with hle | ⟨⟨e, he, hlate, hvalue⟩, -⟩
      · refine .inl ?_
        rw [hcount, countP_here]
        rw [countP_here] at hle
        exact hle
      · have hlive : ¬ e ≤ s.now := by
          unfold lockout failureWindow at *
          omega
        simp [State.isLocked, Expiring.at, he, hlive, hvalue] at hfree

theorem Counting.advance (hwin : inWindow start s.now = true)
    (hcap : inFlight call.email (pre ++ .running call :: post) ≤ k)
    (hclear : call.succeeds = false)
    (h : Counting call.email start k s (pre ++ .running call :: post)) :
    Counting call.email start k (adv compare false call s).1
      (pre ++ (adv compare false call s).2 :: post) := by
  obtain ⟨hlow, hhigh⟩ := inWindow_iff.mp hwin
  cases call with
  | isLockedOut dto => exact h.isLockedOut hwin
  | getLockoutTtl dto => exact h.replace rfl rfl rfl rfl (Nat.le_refl _)
  | findByEmail dto =>
    simp only [adv, Bool.false_eq_true, if_false]
    split
    · exact h.replace rfl rfl rfl rfl (Nat.le_refl _)
    · split
      · exact h.replace rfl rfl rfl rfl (Nat.le_refl _)
      · exact h.replace rfl rfl rfl rfl (Nat.le_refl _)
  | compare dto user =>
    simp only [adv]
    split
    · exact h.replace rfl rfl rfl rfl (Nat.zero_le _)
    · exact h.replace rfl rfl rfl rfl (Nat.le_refl _)
  | recordFailure dto => exact h.recordFailure hwin
  | setLock dto failedAt => exact h.setLock hwin hcap
  | clearFailures dto user => exact absurd hclear (by simp [Call.succeeds])

variable (compare fault call s email) in
theorem isInFlight_adv : (isInFlight email (adv compare fault call s).2).toNat ≤
    (isInFlight email (.running call)).toNat := by
  by_cases h : call.email = email
  · simp only [isInFlight, h, decide_true, Bool.toNat_true]
    exact Bool.toNat_le _
  · cases call <;> simp only [adv] <;> repeat' split
    all_goals
      simp only [Call.email] at h
      simp [isInFlight, invalidCredentials, Call.email, h]

theorem Bounded.advance {env : Env} (hsteady : Steady email start k env call s (pre ++ .running call :: post))
    (h : Bounded email start k s (pre ++ .running call :: post)) :
    Bounded email start k (adv compare env.fault call (s.tick env.elapsed)).1
      (pre ++ (adv compare env.fault call (s.tick env.elapsed)).2 :: post) := by
  have htick : (s.tick env.elapsed).now = s.now + env.elapsed := rfl
  have hkept : inWindow start (s.now + env.elapsed) ≠ true →
      failuresSince email start (pre ++ (adv compare env.fault call (s.tick env.elapsed)).2 :: post) =
        failuresSince email start (pre ++ .running call :: post) := fun hout =>
    failuresSince_replace pre post (isFailure_adv.resolve_right hout)
  have hcounting : inWindow start (s.now + env.elapsed) = true →
      Counting email start k (adv compare env.fault call (s.tick env.elapsed)).1
        (pre ++ (adv compare env.fault call (s.tick env.elapsed)).2 :: post) := by
    intro hwin
    obtain ⟨hcap, hown⟩ := hsteady hwin
    obtain ⟨hlow, hhigh⟩ := inWindow_iff.mp hwin
    have hold := h.counting (by omega)
    have hold : Counting email start k (s.tick env.elapsed) (pre ++ .running call :: post) :=
      ⟨hold.counted, hold.locked⟩
    by_cases hemail : call.email = email
    · obtain ⟨hfault, hclear⟩ := hown hemail
      subst hemail
      rw [hfault]
      exact hold.advance hwin hcap hclear
    · obtain ⟨hfail, hlock, hf, hp, hl⟩ := adv_other compare env.fault
        (s.tick env.elapsed) start hemail
      refine hold.replace hfail hlock ?_ ?_ ?_
      · rw [hf, isFailure_call hemail]
      · rw [hl, isLocking_call hemail]
      · rw [hp]
        exact Nat.zero_le _
  refine ⟨?_, fun hpast => ?_, fun hnow => ?_⟩
  · by_cases hwin : inWindow start (s.now + env.elapsed) = true
    · rcases (hcounting hwin).locked with hle | ⟨-, hle⟩
      · have hcap := (hsteady hwin).1
        have hflight := pending_add_locking_le email
          (pre ++ (adv compare env.fault call (s.tick env.elapsed)).2 :: post)
        have hless := isInFlight_adv compare env.fault call (s.tick env.elapsed) email
        rw [inFlight, countP_here (p := isInFlight email)] at hflight hcap
        omega
      · omega
    · rw [hkept hwin]
      exact h.bound
  · rw [adv_now, htick] at hpast
    rw [hkept fun hwin => by have := inWindow_iff.mp hwin; omega]
    exact h.past (by omega)
  · rw [adv_now, htick] at hnow
    by_cases hwin : inWindow start (s.now + env.elapsed) = true
    · exact hcounting hwin
    · have hzero : failuresSince email start
          (pre ++ (adv compare env.fault call (s.tick env.elapsed)).2 :: post) = 0 := by
        rw [hkept hwin]
        refine h.past ?_
        have : ¬ (start ≤ s.now + env.elapsed ∧ s.now + env.elapsed < start + failureWindow) :=
          fun hin => hwin (inWindow_iff.mpr hin)
        omega
      refine ⟨fun hpos => ?_, .inl ?_⟩ <;> rw [hzero] at *
      · cases hpos
      · exact Nat.zero_le _

theorem Bounded.spawn {ts : List LoginTask} (dto : LoginDto) (h : Bounded email start k s ts) :
    Bounded email start k s (ts ++ [.running (.isLockedOut dto)]) := by
  have hf : failuresSince email start (ts ++ [.running (.isLockedOut dto)]) =
      failuresSince email start ts := by simp [failuresSince, isFailure]
  have hl : (ts ++ [Task.running (Call.isLockedOut dto)]).countP (isLocking email) =
      ts.countP (isLocking email) := by simp [isLocking]
  have hp : (ts ++ [Task.running (Call.isLockedOut dto)]).countP (isPending email) =
      ts.countP (isPending email) := by simp [isPending]
  refine ⟨?_, fun hpast => ?_, fun hnow => ⟨fun hpos => ?_, ?_⟩⟩
  · rw [hf]
    exact h.bound
  · rw [hf]
    exact h.past hpast
  · rw [hf] at hpos ⊢
    exact (h.counting hnow).counted hpos
  · rw [hf, hl, hp]
    exact (h.counting hnow).locked

end Step

/-- The failures of an address within five minutes. -/
theorem failures_bounded (compare : String → String → Bool) (email : String) (start : Int) (k : Nat)
    (s : State) {acts : List (Act Env LoginDto)}
    (h : Along (logins compare).step (Meets (fun _ => True) (Steady email start k)) (Conf.init s) acts) :
    failuresSince email start (run (logins compare).step (Conf.init s) acts).tasks ≤ 4 + k := by
  have hbounded : Bounded email start k (run (logins compare).step (Conf.init s) acts).shared
      (run (logins compare).step (Conf.init s) acts).tasks := by
    refine run_inv (I := fun c => Bounded email start k c.shared c.tasks) (fun c a hI hG =>
      step_inv (logins compare) (fun s ts dto _ h => ?_) (fun s pre call post env hsteady h =>
        h.advance hsteady) c a hI hG) ?_ h
    · exact h.spawn dto
    · exact ⟨Nat.zero_le _, fun _ => rfl, fun _ => ⟨fun hpos => (by cases hpos), .inl (Nat.zero_le _)⟩⟩
  exact hbounded.bound

/-- Logins `i` to `i + n - 1` take a step each, one after the other. -/
def each (i n : Nat) : List (Act Env LoginDto) := (List.range n).map fun j => .sched (i + j) ⟨0, false⟩

/-- Four logins without an account, one at a time, and two at the same time. -/
def sixLogins : List (Act Env LoginDto) :=
  ((List.range 4).map fun i => Act.spawn ⟨"ann", "secret"⟩ :: (each i 1 ++ each i 1 ++ each i 1)).flatten ++
    [.spawn ⟨"ann", "secret"⟩, .spawn ⟨"ann", "secret"⟩] ++ each 4 2 ++ each 4 2 ++ each 4 2 ++ each 4 2

def noUsers : State := ⟨0, [], fun _ => .holds 0, fun _ => .holds false⟩

theorem bound_reached : failuresSince "ann" 0
      (run (logins fun _ _ => false).step (Conf.init noUsers) sixLogins).tasks = 6 ∧
    failuresSince "ann" 0 (run (logins fun _ _ => false).step (Conf.init noUsers) sixLogins).tasks ≤
      4 + 2 :=
  ⟨by decide, failures_bounded _ "ann" 0 2 noUsers (by decide)⟩

end Lockout
end Auth
end TradeCore
