import TradeCore.RateLimit.Config
import TradeCore.RateLimit.Retry

/-!
# TradeCore.RateLimit.Service

`check`, `getUsage` and `clearKey` over the keys of the server. The sliding window keeps a sorted set
under the key of the request; the fixed window counts under that key and the start of the window.

`getUsage` and `clearKey` know the first kind of key only. `usage_clear_iff` says when they speak of what
`check` counts.
-/

namespace TradeCore
namespace RateLimit

open Lib

inductive SlidingWindowStrategy where
  | slidingWindow
  | fixedWindow
  deriving DecidableEq, Repr

structure RateLimitService where
  strategy : SlidingWindowStrategy
  cache : ConfigCache

/-- What the server holds under a key. -/
inductive Slot where
  | set (k : Key)
  | counter (k : Expiring Nat)

def Slot.absent : Slot := .set (.holds .empty)

abbrev Redis := String → Slot

def Redis.empty : Redis := fun _ => .absent

/-- The key as a command on sorted sets finds it at `now`; `none` is its WRONGTYPE error. -/
def Slot.set? (now : Time) : Slot → Option Key
  | .set k => some k
  | .counter k => if k.at 0 now = 0 then some (.holds .empty) else none

/-- The key as INCR finds it at `now`; `none` is its WRONGTYPE error. -/
def Slot.counter? (now : Time) : Slot → Option (Expiring Nat)
  | .counter k => some k
  | .set k => if (k.read now).entries = [] then some (.holds 0) else none

/-- EXPIRE. -/
def Slot.expire (now lifetime : Time) : Slot → Slot
  | .set k => .set (.expire .empty now lifetime (k.read now))
  | .counter k => .counter (.expire 0 now lifetime (k.at 0 now))

def wrongType : HttpError :=
  .internal "WRONGTYPE Operation against a key holding the wrong kind of value"

/-- The lifetime both checks give to the key they count under. -/
def lifetime (windowMs : Int) : Int := 1000 * (ceilSeconds windowMs + 1)

def RATE_LIMIT_KEY_PREFIX : String := "rl:"

def redisKey (key : String) (tier : RateLimitTier) (endpoint : Option String) : String :=
  RATE_LIMIT_KEY_PREFIX ++ key ++ ":" ++ tier.text ++ ":" ++ endpoint.getD "global"

/-- `Math.floor(now / windowMs) * windowMs`. -/
def windowStart (now : Time) (windowMs : Int) : Time := now / windowMs * windowMs

def windowKey (redisKey : String) (windowStart : Time) : String :=
  redisKey ++ ":" ++ toString windowStart

/-- On a key of another type the commands of the pipeline fail, EXPIRE excepted, and ZRANGE throws. -/
def Redis.slidingWindowCheck (redis : Redis) (redisKey : String) (r : Request) (windowMs : Int)
    (maxRequests : Nat) : Redis × Except HttpError RateLimitResult :=
  match (redis redisKey).set? r.now with
  | some key =>
    let (key', result) := RateLimit.slidingWindowCheck key r windowMs maxRequests
    (Function.update redis redisKey (.set key'), .ok result)
  | none =>
    (Function.update redis redisKey ((redis redisKey).expire r.now (lifetime windowMs)),
      .error wrongType)

/-- INCR and EXPIRE: the key after them, and the count that is read; an error reads as 1. -/
def fixedWindowCheck.exec (slot : Slot) (now : Time) (windowMs : Int) : Slot × Nat :=
  match slot.counter? now with
  | some k =>
    (.counter (.expire 0 now (lifetime windowMs) (k.at 0 now + 1)), k.at 0 now + 1)
  | none => (slot.expire now (lifetime windowMs), 1)

def Redis.fixedWindowCheck (redis : Redis) (redisKey : String) (now : Time) (windowMs : Int)
    (maxRequests : Nat) : Redis × RateLimitResult :=
  let windowStart := windowStart now windowMs
  let windowKey := windowKey redisKey windowStart
  let (slot, currentCount) := fixedWindowCheck.exec (redis windowKey) now windowMs
  let allowed := decide (currentCount ≤ maxRequests)
  let resetSeconds := ceilSeconds (windowStart + windowMs - now)
  (Function.update redis windowKey slot, {
    allowed
    limit := maxRequests
    remaining := maxRequests - currentCount
    resetSeconds := max 0 resetSeconds
    retryAfterSeconds := if allowed then 0 else resetSeconds })

/-- `unlimited` is allowed, with `limit` and `remaining` `Infinity`. -/
inductive CheckResult where
  | unlimited
  | limited (result : RateLimitResult)
  deriving DecidableEq, Repr

def CheckResult.allowed : CheckResult → Bool
  | .unlimited => true
  | .limited result => result.allowed

/-- A call of `check`, with the clock and the draw it meets. -/
structure Call where
  key : String
  tier : RateLimitTier
  endpoint : Option String
  request : Request
  deriving DecidableEq, Repr

def Call.redisKey (c : Call) : String := RateLimit.redisKey c.key c.tier c.endpoint

def Limits.windowMs (limits : Limits) : Int := (limits.windowSizeSeconds : Nat) * 1000

def check (service : RateLimitService) (redis : Redis) (c : Call) :
    Redis × Except HttpError CheckResult :=
  match getEffectiveLimits service.cache c.tier c.endpoint with
  | .error e => (redis, .error e)
  | .ok limits =>
    match limits.maxRequests with
    | .unlimited => (redis, .ok .unlimited)
    | .finite maxRequests =>
      match service.strategy with
      | .slidingWindow =>
        let (redis, result) :=
          redis.slidingWindowCheck c.redisKey c.request limits.windowMs maxRequests
        (redis, result.map .limited)
      | .fixedWindow =>
        let (redis, result) :=
          redis.fixedWindowCheck c.redisKey c.request.now limits.windowMs maxRequests
        (redis, .ok (.limited result))

structure Usage where
  used : Nat
  limit : Quota
  remaining : Quota
  resetSeconds : Nat
  deriving DecidableEq, Repr

def getUsage (service : RateLimitService) (redis : Redis) (now : Time) (key : String)
    (tier : RateLimitTier) (endpoint : Option String) : Redis × Except HttpError Usage :=
  match getEffectiveLimits service.cache tier endpoint with
  | .error e => (redis, .error e)
  | .ok limits =>
    match limits.maxRequests with
    | .unlimited => (redis, .ok ⟨0, .unlimited, .unlimited, 0⟩)
    | .finite maxRequests =>
      let redisKey := redisKey key tier endpoint
      let usage := fun count : Nat =>
        (⟨count, .finite maxRequests, .finite (maxRequests - count), limits.windowSizeSeconds⟩ : Usage)
      match (redis redisKey).set? now with
      | some k =>
        let trimmed := (k.read now).removeUpTo (now - limits.windowMs)
        (Function.update redis redisKey (.set ⟨trimmed, (k.live .empty now).expiresAt⟩),
          .ok (usage trimmed.card))
      | none => (redis, .ok (usage 0))

def clearKey (redis : Redis) (key : String) (tier : RateLimitTier) (endpoint : Option String) : Redis :=
  Function.update redis (redisKey key tier endpoint) .absent

/-! ## What a check counts -/

/-- The requests the window of `now` has counted. -/
def Slot.count (now : Time) (slot : Slot) : Nat :=
  match slot.counter? now with
  | some k => k.at 0 now
  | none => 0

/-- The number of requests that the check compares with the limit, its own among them. -/
def Redis.currentCount (redis : Redis) (service : RateLimitService) (c : Call) (windowMs : Int) : Nat :=
  match service.strategy with
  | .slidingWindow =>
    match (redis c.redisKey).set? c.request.now with
    | some k => (slidingWindowCheck.exec k c.request windowMs).2
    | none => 0
  | .fixedWindow =>
    let windowKey := windowKey c.redisKey (windowStart c.request.now windowMs)
    (fixedWindowCheck.exec (redis windowKey) c.request.now windowMs).2

section Check

variable {service : RateLimitService} {redis : Redis} {c : Call} {limits : Limits} {m : Nat}

theorem check_sliding {k : Key} (hs : service.strategy = .slidingWindow)
    (hlimits : getEffectiveLimits service.cache c.tier c.endpoint = .ok limits)
    (hm : limits.maxRequests = .finite m) (hk : redis c.redisKey = .set k) :
    check service redis c =
      (Function.update redis c.redisKey (.set (slidingWindowCheck k c.request limits.windowMs m).1),
        .ok (.limited (slidingWindowCheck k c.request limits.windowMs m).2)) := by
  simp only [check, hlimits, hm, hs, Redis.slidingWindowCheck, hk, Slot.set?]
  rfl

theorem check_fixed (hs : service.strategy = .fixedWindow)
    (hlimits : getEffectiveLimits service.cache c.tier c.endpoint = .ok limits)
    (hm : limits.maxRequests = .finite m) :
    check service redis c =
      ((redis.fixedWindowCheck c.redisKey c.request.now limits.windowMs m).1,
        .ok (.limited (redis.fixedWindowCheck c.redisKey c.request.now limits.windowMs m).2)) := by
  simp only [check, hlimits, hm, hs]

theorem fixedWindowCheck_count (slot : Slot) (now : Time) (w : Int) :
    (fixedWindowCheck.exec slot now w).2 = slot.count now + 1 := by
  unfold fixedWindowCheck.exec Slot.count
  cases slot.counter? now <;> rfl

theorem count_set (k : Key) (t : Time) : (Slot.set k).count t = 0 := by
  unfold Slot.count Slot.counter?
  by_cases h : (k.read t).entries = [] <;> simp [h, Expiring.holds, Expiring.at]

theorem count_exec_le (slot : Slot) (now t : Time) (w : Int) :
    (fixedWindowCheck.exec slot now w).1.count t ≤ slot.count now + 1 := by
  unfold fixedWindowCheck.exec
  cases hslot : slot.counter? now with
  | some k =>
    have hcount : slot.count now = k.at 0 now := by rw [Slot.count, hslot]
    show (Expiring.expire 0 now (lifetime w) (k.at 0 now + 1)).at 0 t ≤ _
    rw [hcount, Expiring.at_expire]
    split
    · exact Nat.le_refl _
    · exact Nat.zero_le _
  | none =>
    cases slot with
    | counter k => cases hslot
    | set k =>
      show (Slot.set _).count t ≤ _
      rw [count_set]
      exact Nat.zero_le _

/-- In a key that holds no set it adds one, for as long as the key then lives. -/
theorem count_exec_of_lt {slot : Slot} {now t : Time} {w : Int}
    (hslot : slot = .absent ∨ ∃ k, slot = .counter k) (ht : now ≤ t) (hw : t < now + lifetime w) :
    (fixedWindowCheck.exec slot now w).1.count t = slot.count now + 1 := by
  have hkey : ∃ k, slot.counter? now = some k := by
    rcases hslot with rfl | ⟨k, rfl⟩
    · exact ⟨_, rfl⟩
    · exact ⟨k, rfl⟩
  obtain ⟨k, hk⟩ := hkey
  have hcount : slot.count now = k.at 0 now := by rw [Slot.count, hk]
  rw [hcount, fixedWindowCheck.exec, hk]
  exact Expiring.at_expire_of_lt ht hw

end Check

/-! ## Histories -/

def step (service : RateLimitService) (redis : Redis) (c : Call) : Redis := (check service redis c).1

theorem step_fixed_self {service : RateLimitService} (redis : Redis) (c : Call) {limits : Limits} {m : Nat}
    (hs : service.strategy = .fixedWindow)
    (hlimits : getEffectiveLimits service.cache c.tier c.endpoint = .ok limits)
    (hm : limits.maxRequests = .finite m) :
    step service redis c (windowKey c.redisKey (windowStart c.request.now limits.windowMs)) =
      (fixedWindowCheck.exec (redis (windowKey c.redisKey (windowStart c.request.now limits.windowMs)))
        c.request.now limits.windowMs).1 := by
  rw [step, check_fixed hs hlimits hm]
  exact Function.update_self _ _ _

/-- What the calls are answered, one after the other. -/
def answers (service : RateLimitService) : Redis → List Call → List (Except HttpError CheckResult)
  | _, [] => []
  | redis, c :: cs => (check service redis c).2 :: answers service (step service redis c) cs

/-- The kind of key a strategy keeps. -/
def Slot.Typed : SlidingWindowStrategy → Slot → Prop
  | .slidingWindow, slot => ∃ k, slot = .set k
  | .fixedWindow, slot => slot = .absent ∨ ∃ k, slot = .counter k

def Redis.Typed (redis : Redis) (strategy : SlidingWindowStrategy) : Prop :=
  ∀ key, (redis key).Typed strategy

theorem Redis.Typed.update {redis : Redis} {strategy : SlidingWindowStrategy} (h : redis.Typed strategy)
    {slot : Slot} (hslot : slot.Typed strategy) (key : String) :
    Redis.Typed (Function.update redis key slot) strategy := by
  intro key'
  by_cases hkey : key' = key
  · rw [hkey, Function.update_self]
    exact hslot
  · rw [Function.update_of_ne hkey]
    exact h key'

theorem step_typed {service : RateLimitService} {redis : Redis} (h : redis.Typed service.strategy)
    (c : Call) : (step service redis c).Typed service.strategy := by
  rw [step]
  cases hlimits : getEffectiveLimits service.cache c.tier c.endpoint with
  | error e => simpa only [check, hlimits] using h
  | ok limits =>
    cases hm : limits.maxRequests with
    | unlimited => simpa only [check, hlimits, hm] using h
    | finite m =>
      cases hs : service.strategy with
      | slidingWindow =>
        rw [hs] at h
        obtain ⟨k, hk⟩ := h c.redisKey
        rw [check_sliding hs hlimits hm hk]
        exact h.update ⟨_, rfl⟩ _
      | fixedWindow =>
        rw [hs] at h
        rw [check_fixed hs hlimits hm]
        refine h.update ?_ _
        rcases h (windowKey c.redisKey (windowStart c.request.now limits.windowMs)) with hk | ⟨k, hk⟩
        · rw [hk]
          exact .inr ⟨_, rfl⟩
        · rw [hk]
          exact .inr ⟨_, rfl⟩

theorem run_typed (service : RateLimitService) (calls : List Call) :
    (run (step service) Redis.empty calls).Typed service.strategy := by
  refine run_inv (G := fun _ _ => True) (I := fun redis : Redis => redis.Typed service.strategy)
    (fun redis c h _ => step_typed h c) ?_ along_true
  cases service.strategy with
  | slidingWindow => exact fun _ => ⟨_, rfl⟩
  | fixedWindow => exact fun _ => .inl rfl

/-! ## Usage and clearing -/

/-- The draw of the call gives it a member of its own. -/
def Redis.Fresh (redis : Redis) (c : Call) : Prop :=
  ∀ k, (redis c.redisKey).set? c.request.now = some k →
    ∀ e ∈ (k.read c.request.now).entries, e.1 ≠ c.request.member

/-- What `getUsage` reports at `now` is what a check made then counts besides itself. -/
def ReportsUsage (service : RateLimitService) (redis : Redis) (now : Time) (key : String)
    (tier : RateLimitTier) (endpoint : Option String) (windowMs : Int) : Prop :=
  ∀ redis' usage, getUsage service redis now key tier endpoint = (redis', .ok usage) →
    ∀ draw, redis'.Fresh ⟨key, tier, endpoint, ⟨now, draw⟩⟩ →
      redis'.currentCount service ⟨key, tier, endpoint, ⟨now, draw⟩⟩ windowMs = usage.used + 1

/-- After `clearKey` at `now` the next `m` checks of the key are allowed, under the fixed window those that
fall in one window. -/
def ClearsKey (service : RateLimitService) (redis : Redis) (now : Time) (key : String)
    (tier : RateLimitTier) (endpoint : Option String) (windowMs : Int) (m : Nat) : Prop :=
  ∀ requests : List Request, requests.length ≤ m → (∀ r ∈ requests, now ≤ r.now) →
    (service.strategy = .fixedWindow → ∀ r ∈ requests, ∀ r' ∈ requests,
      windowStart r.now windowMs = windowStart r'.now windowMs) →
    ∀ a ∈ answers service (clearKey redis key tier endpoint)
        (requests.map fun r => ⟨key, tier, endpoint, r⟩),
      ∃ result, a = .ok result ∧ result.allowed = true

section Usage

variable {service : RateLimitService} {redis : Redis} {key : String} {tier : RateLimitTier}
  {endpoint : Option String} {limits : Limits} {m : Nat}

theorem windowKey_ne (redisKey : String) (t : Time) : windowKey redisKey t ≠ redisKey := by
  intro h
  have := congrArg (fun s : String => s.toList.length) h
  simp [windowKey] at this

theorem windowMs_pos (limits : Limits) : 0 < limits.windowMs := by
  have := limits.windowSizeSeconds.pos
  unfold Limits.windowMs
  omega

theorem lifetime_pos (limits : Limits) : 0 < lifetime limits.windowMs := by
  have := lt_ceilSeconds limits.windowMs
  have := windowMs_pos limits
  unfold lifetime
  omega

theorem sliding_allowed (hs : service.strategy = .slidingWindow)
    (hlimits : getEffectiveLimits service.cache tier endpoint = .ok limits)
    (hm : limits.maxRequests = .finite m) (requests : List Request) {n : Nat} {k : Key}
    (hn : n + requests.length ≤ m) (hk : redis (redisKey key tier endpoint) = .set k)
    (hcard : ∀ t, (k.read t).card ≤ n) :
    ∀ a ∈ answers service redis (requests.map fun r => ⟨key, tier, endpoint, r⟩),
      ∃ result, a = .ok result ∧ result.allowed = true := by
  induction requests generalizing redis n k with
  | nil => exact fun a ha => absurd ha List.not_mem_nil
  | cons r requests ih =>
    have hcheck := check_sliding (c := ⟨key, tier, endpoint, r⟩) hs hlimits hm hk
    have hadded : (recordedWith k r limits.windowMs).card ≤ n + 1 := by
      refine Nat.le_trans (ScoredSet.card_add_le _ _ _) (Nat.add_le_add_right ?_ 1)
      exact Nat.le_trans (List.length_filter_le _ _) (hcard r.now)
    have hread : ∀ t, ((slidingWindowCheck k r limits.windowMs m).1.read t).card ≤ n + 1 := by
      intro t
      rw [show (slidingWindowCheck k r limits.windowMs m).1.read t = _ from read_exec_eq k r _ t]
      split
      · exact hadded
      · exact Nat.zero_le _
    rw [List.length_cons] at hn
    intro a ha
    rw [List.map_cons, answers, List.mem_cons, step, hcheck] at ha
    rcases ha with rfl | ha
    · exact ⟨_, rfl, allowed_iff_count.mpr (Nat.le_trans (hread r.now) (by omega))⟩
    · exact ih (n := n + 1) (by omega) (Function.update_self _ _ _) hread a ha

theorem fixed_allowed (hs : service.strategy = .fixedWindow)
    (hlimits : getEffectiveLimits service.cache tier endpoint = .ok limits)
    (hm : limits.maxRequests = .finite m) {now start : Time} (requests : List Request) {n : Nat}
    (hn : n + requests.length ≤ m) (htime : ∀ r ∈ requests, now ≤ r.now)
    (hwindow : ∀ r ∈ requests, windowStart r.now limits.windowMs = start)
    (hcount : ∀ t, now ≤ t → windowStart t limits.windowMs = start →
      (redis (windowKey (redisKey key tier endpoint) start)).count t ≤ n) :
    ∀ a ∈ answers service redis (requests.map fun r => ⟨key, tier, endpoint, r⟩),
      ∃ result, a = .ok result ∧ result.allowed = true := by
  induction requests generalizing redis n with
  | nil => exact fun a ha => absurd ha List.not_mem_nil
  | cons r requests ih =>
    obtain ⟨hr, htime⟩ := List.forall_mem_cons.mp htime
    obtain ⟨hwr, hwindow⟩ := List.forall_mem_cons.mp hwindow
    have hcheck : check service redis ⟨key, tier, endpoint, r⟩ = _ := check_fixed hs hlimits hm
    have hself := hcount r.now hr hwr
    rw [List.length_cons] at hn
    intro a ha
    rw [List.map_cons, answers, List.mem_cons, step, hcheck] at ha
    rcases ha with rfl | ha
    · refine ⟨_, rfl, decide_eq_true ?_⟩
      show (fixedWindowCheck.exec (redis (windowKey (redisKey key tier endpoint)
        (windowStart r.now limits.windowMs))) r.now limits.windowMs).2 ≤ m
      rw [fixedWindowCheck_count, hwr]
      omega
    · refine ih (n := n + 1) (by omega) htime hwindow (fun t ht hwt => ?_) a ha
      show (Function.update redis (windowKey (redisKey key tier endpoint)
        (windowStart r.now limits.windowMs)) _ _).count t ≤ n + 1
      rw [hwr, Function.update_self]
      exact Nat.le_trans (count_exec_le _ _ _ _) (Nat.add_le_add_right hself 1)

/-- Checks at one moment of a fixed window that are all allowed do not exceed the limit with what the
window has counted. -/
theorem count_of_allowed (hs : service.strategy = .fixedWindow) (htyped : redis.Typed .fixedWindow)
    (hlimits : getEffectiveLimits service.cache tier endpoint = .ok limits)
    (hm : limits.maxRequests = .finite m) {now : Time} (r : Request) (hr : r.now = now) (n : Nat)
    (hall : ∀ a ∈ answers service redis
        ((List.replicate (n + 1) r).map fun r => ⟨key, tier, endpoint, r⟩),
      ∃ result, a = .ok result ∧ result.allowed = true) :
    (redis (windowKey (redisKey key tier endpoint) (windowStart now limits.windowMs))).count now +
      (n + 1) ≤ m := by
  induction n generalizing redis with
  | zero =>
    obtain ⟨result, hresult, hallowed⟩ := hall _ (.head _)
    rw [check_fixed (c := ⟨key, tier, endpoint, r⟩) hs hlimits hm] at hresult
    cases hresult
    have hle : (fixedWindowCheck.exec (redis (windowKey (redisKey key tier endpoint)
        (windowStart r.now limits.windowMs))) r.now limits.windowMs).2 ≤ m :=
      of_decide_eq_true hallowed
    rwa [fixedWindowCheck_count, hr] at hle
  | succ n ih =>
    have htyped' : (step service redis ⟨key, tier, endpoint, r⟩).Typed .fixedWindow := by
      rw [← hs] at htyped ⊢
      exact step_typed htyped _
    have hrest := ih htyped' fun a ha => hall a (.tail _ ha)
    have hslot := step_fixed_self redis ⟨key, tier, endpoint, r⟩ hs hlimits hm
    simp only [hr, Call.redisKey] at hslot
    have hlasts : now < now + lifetime limits.windowMs :=
      Int.lt_add_of_pos_right now (lifetime_pos limits)
    have hself := count_exec_of_lt (htyped (windowKey (redisKey key tier endpoint)
      (windowStart now limits.windowMs))) (Int.le_refl now) hlasts
    rw [hslot, hself] at hrest
    omega

theorem clearKey_windowKey (t : Time) :
    clearKey redis key tier endpoint (windowKey (redisKey key tier endpoint) t) =
      redis (windowKey (redisKey key tier endpoint) t) :=
  Function.update_of_ne (windowKey_ne _ _) _ _

theorem clearsKey_iff (htyped : redis.Typed service.strategy)
    (hlimits : getEffectiveLimits service.cache tier endpoint = .ok limits)
    (hm : limits.maxRequests = .finite m) (now : Time) :
    ClearsKey service redis now key tier endpoint limits.windowMs m ↔
      service.strategy = .slidingWindow ∨ m = 0 ∨
        ∀ t, now ≤ t → (redis (windowKey (redisKey key tier endpoint)
          (windowStart t limits.windowMs))).count t = 0 := by
  cases hs : service.strategy with
  | slidingWindow =>
    refine iff_of_true (fun requests hlen _ _ => ?_) (.inl rfl)
    refine sliding_allowed (n := 0) (k := .holds .empty) hs hlimits hm requests (by omega)
      (Function.update_self _ _ _) fun t => Nat.le_refl 0
  | fixedWindow =>
    constructor
    · intro h
      refine .inr (m.eq_zero_or_pos.imp_right fun hpos t ht => ?_)
      obtain ⟨n, rfl⟩ : ∃ n, m = n + 1 := ⟨m - 1, by omega⟩
      have hcleared : (clearKey redis key tier endpoint).Typed .fixedWindow := by
        rw [hs] at htyped
        exact htyped.update (.inl rfl) _
      have hmem : ∀ r ∈ List.replicate (n + 1) (⟨t, ""⟩ : Request), r = ⟨t, ""⟩ :=
        fun r hr => List.eq_of_mem_replicate hr
      have hnow : (⟨t, ""⟩ : Request).now = t := rfl
      have hle := count_of_allowed hs hcleared hlimits hm _ hnow n
        (h _ (by simp) (fun r hr => by rw [hmem r hr]; exact ht)
          fun _ r hr r' hr' => by rw [hmem r hr, hmem r' hr'])
      rw [clearKey_windowKey] at hle
      omega
    · rintro (h | h | h) requests hlen htime hone
      · cases h
      · rw [h, Nat.le_zero, List.length_eq_zero_iff] at hlen
        rw [hlen]
        exact fun a ha => absurd ha List.not_mem_nil
      · cases requests with
        | nil => exact fun a ha => absurd ha List.not_mem_nil
        | cons r requests =>
          refine fixed_allowed (n := 0) hs hlimits hm _ (by omega) htime
            (fun q hq => hone hs q hq r (.head _)) fun t ht hwt => ?_
          rw [clearKey_windowKey, ← hwt, h t ht]

theorem read_removed {k : Key} (now : Time) (s : ScoredSet String) :
    Key.read now ⟨s, (k.live .empty now).expiresAt⟩ = s := by
  unfold Key.read Expiring.at
  cases h : (k.live .empty now).expiresAt with
  | none => rfl
  | some e => exact if_neg (by have := (Expiring.lt_of_live h).2; omega)

theorem reportsUsage_sliding (hs : service.strategy = .slidingWindow)
    (htyped : redis.Typed .slidingWindow)
    (hlimits : getEffectiveLimits service.cache tier endpoint = .ok limits)
    (hm : limits.maxRequests = .finite m) (now : Time) :
    ReportsUsage service redis now key tier endpoint limits.windowMs := by
  intro redis' usage h draw hfresh
  obtain ⟨k, hk⟩ := htyped (redisKey key tier endpoint)
  simp only [getUsage, hlimits, hm, hk, Slot.set?] at h
  cases h
  have hnew := hfresh ⟨(k.read now).removeUpTo (now - limits.windowMs), (k.live .empty now).expiresAt⟩
    (by simp only [Call.redisKey, Function.update_self, Slot.set?])
  simp only [read_removed] at hnew
  simp only [Redis.currentCount, hs, Call.redisKey, Slot.set?, Function.update_self]
  rw [count_of_lasts (lifetime_pos limits), recordedWith, read_removed, ScoredSet.removeUpTo_self]
  exact ScoredSet.card_add_of_fresh _ hnew

theorem getUsage_fixed (htyped : redis.Typed .fixedWindow)
    (hlimits : getEffectiveLimits service.cache tier endpoint = .ok limits)
    (hm : limits.maxRequests = .finite m) (now : Time) :
    ∃ slot, getUsage service redis now key tier endpoint =
        (Function.update redis (redisKey key tier endpoint) slot,
          .ok ⟨0, .finite m, .finite m, limits.windowSizeSeconds⟩) ∧
      ∀ k, slot.set? now = some k → (k.read now).entries = [] := by
  simp only [getUsage, hlimits, hm]
  rcases htyped (redisKey key tier endpoint) with hk | ⟨k, hk⟩
  · rw [hk]
    refine ⟨_, rfl, fun k h => ?_⟩
    cases h
    rfl
  · rw [hk]
    cases h : (Slot.counter k).set? now with
    | none =>
      refine ⟨.counter k, ?_, fun k' h' => ?_⟩
      · rw [← hk, Function.update_eq_self]
        rfl
      · rw [h] at h'
        cases h'
    | some k' =>
      have hempty : k' = .holds .empty := by
        simp only [Slot.set?] at h
        split at h
        · exact (Option.some.inj h).symm
        · cases h
      rw [hempty]
      refine ⟨_, rfl, fun k h => ?_⟩
      cases h
      rfl

theorem reportsUsage_fixed (hs : service.strategy = .fixedWindow) (htyped : redis.Typed .fixedWindow)
    (hlimits : getEffectiveLimits service.cache tier endpoint = .ok limits)
    (hm : limits.maxRequests = .finite m) (now : Time) :
    ReportsUsage service redis now key tier endpoint limits.windowMs ↔
      (redis (windowKey (redisKey key tier endpoint)
        (windowStart now limits.windowMs))).count now = 0 := by
  obtain ⟨slot, husage, hslot⟩ := @getUsage_fixed _ _ key _ _ _ _ htyped hlimits hm now
  have hcurrent : ∀ draw, Redis.currentCount (Function.update redis (redisKey key tier endpoint) slot)
      service ⟨key, tier, endpoint, ⟨now, draw⟩⟩ limits.windowMs =
      (redis (windowKey (redisKey key tier endpoint) (windowStart now limits.windowMs))).count now + 1 := by
    intro draw
    simp only [Redis.currentCount, hs, Call.redisKey]
    rw [Function.update_of_ne (windowKey_ne _ _), fixedWindowCheck_count]
  constructor
  · intro h
    have := h _ _ husage "" fun k hk e he => by
      simp only [Call.redisKey, Function.update_self] at hk
      rw [hslot k hk] at he
      cases he
    rw [hcurrent] at this
    exact Nat.succ.inj this
  · intro h redis' usage heq draw _
    rw [husage] at heq
    cases heq
    rw [hcurrent, h]

end Usage

/-- After any history `getUsage` and `clearKey` speak of what the checks count under the sliding window.
Under the fixed window they do only while the window has counted nothing. -/
theorem usage_clear_iff (service : RateLimitService) (calls : List Call) (now : Time) (key : String)
    (tier : RateLimitTier) (endpoint : Option String) (limits : Limits)
    (hlimits : getEffectiveLimits service.cache tier endpoint = .ok limits) :
    let redis := run (step service) Redis.empty calls
    (limits.maxRequests = .unlimited →
      getUsage service redis now key tier endpoint = (redis, .ok ⟨0, .unlimited, .unlimited, 0⟩) ∧
      ∀ (redis' : Redis) (r : Request),
        check service redis' ⟨key, tier, endpoint, r⟩ = (redis', .ok .unlimited)) ∧
    ∀ m, limits.maxRequests = .finite m →
      (ReportsUsage service redis now key tier endpoint limits.windowMs ↔
        service.strategy = .slidingWindow ∨
          (redis (windowKey (redisKey key tier endpoint)
            (windowStart now limits.windowMs))).count now = 0) ∧
      (ClearsKey service redis now key tier endpoint limits.windowMs m ↔
        service.strategy = .slidingWindow ∨ m = 0 ∨
          ∀ t, now ≤ t → (redis (windowKey (redisKey key tier endpoint)
            (windowStart t limits.windowMs))).count t = 0) := by
  intro redis
  have htyped : redis.Typed service.strategy := run_typed service calls
  refine ⟨fun hm => ⟨?_, fun redis' r => ?_⟩, fun m hm => ⟨?_, clearsKey_iff htyped hlimits hm now⟩⟩
  · simp only [getUsage, hlimits, hm]
  · simp only [check, hlimits, hm]
  · cases hs : service.strategy with
    | slidingWindow =>
      rw [hs] at htyped
      exact iff_of_true (reportsUsage_sliding hs htyped hlimits hm now) (.inl rfl)
    | fixedWindow =>
      rw [hs] at htyped
      rw [reportsUsage_fixed hs htyped hlimits hm]
      exact (or_iff_right (by decide)).symm

def oncePerMinute (strategy : SlidingWindowStrategy) : RateLimitService :=
  ⟨strategy, loadConfigFromDb .empty (some [⟨.free, 1, DEFAULT_WINDOW_SIZE_SECS, none, true⟩])⟩

def calledOnce : List Call := [⟨"ip:::1", .free, none, ⟨0, "k3x"⟩⟩]

theorem sliding_usage_clear :
    getEffectiveLimits (oncePerMinute .slidingWindow).cache .free none = .ok ⟨.finite 1, 60⟩ ∧
      ReportsUsage (oncePerMinute .slidingWindow)
        (run (step (oncePerMinute .slidingWindow)) Redis.empty calledOnce) 1 "ip:::1" .free none 60000 ∧
      ClearsKey (oncePerMinute .slidingWindow)
        (run (step (oncePerMinute .slidingWindow)) Redis.empty calledOnce) 1 "ip:::1" .free none 60000 1 := by
  have hlimits : getEffectiveLimits (oncePerMinute .slidingWindow).cache .free none =
      .ok ⟨.finite 1, 60⟩ := rfl
  obtain ⟨husage, hclear⟩ := (usage_clear_iff (oncePerMinute .slidingWindow) calledOnce 1 "ip:::1" .free
    none ⟨.finite 1, 60⟩ hlimits).2 1 rfl
  exact ⟨hlimits, husage.mpr (.inl rfl), hclear.mpr (.inl rfl)⟩

/-- The usage of a fixed window that has counted a request reads 0, and a cleared key is still over its
limit. -/
theorem fixed_usage_zero :
    (getUsage (oncePerMinute .fixedWindow)
        (run (step (oncePerMinute .fixedWindow)) Redis.empty calledOnce) 1 "ip:::1" .free none).2 =
        .ok ⟨0, .finite 1, .finite 1, 60⟩ ∧
      Redis.currentCount (run (step (oncePerMinute .fixedWindow)) Redis.empty calledOnce)
        (oncePerMinute .fixedWindow) ⟨"ip:::1", .free, none, ⟨1, "p0q"⟩⟩ 60000 = 2 ∧
      answers (oncePerMinute .fixedWindow)
        (clearKey (run (step (oncePerMinute .fixedWindow)) Redis.empty calledOnce) "ip:::1" .free none)
        [⟨"ip:::1", .free, none, ⟨1, "p0q"⟩⟩] = [.ok (.limited ⟨false, 1, 0, 60, 60⟩)] :=
  ⟨by decide +kernel, by decide +kernel, by decide +kernel⟩

end RateLimit
end TradeCore
