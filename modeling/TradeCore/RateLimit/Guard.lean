import TradeCore.Lib.HexText
import TradeCore.RateLimit.Counting

/-!
# TradeCore.RateLimit.Guard

`canActivate`: the key of a request, its check, and the override of its route.

The check is made with the limit of the tier and reports at most that many requests as used. The override
subtracts what is reported from its own limit and asks for something to be left. `override_exact_iff` says
for which histories the guard then lets through what the override allows.
-/

namespace TradeCore
namespace RateLimit

open Lib

/-- The text of an id or of an address. -/
abbrev Identifier := {s : String // '/' ∉ s.toList}

abbrev RoutePath := {s : String // s.toList.head? = some '/'}

structure AuthUser where
  id : Option Identifier
  apiKeyId : Option Identifier
  tier : Option RateLimitTier

/-- `apiKey` is the header `x-api-key` where it is a string. -/
structure HttpRequest where
  user : Option AuthUser
  apiKey : Option String
  ip : Option Identifier
  remoteAddress : Option Identifier
  path : RoutePath

structure RateLimitOverride where
  maxRequests : Option Int

/-- A request on its way to a route, the metadata of the route, and the clock and the draw of its check. -/
structure ExecutionContext where
  bypass : Bool
  override : Option RateLimitOverride
  request : HttpRequest
  asked : Request

/-- `sha256` is the digest of the crypto library. -/
structure RateLimitGuard where
  sha256 : String → List (Fin 256)
  rateLimitService : RateLimitService

def DEFAULT_UNAUTHENTICATED_TIER : RateLimitTier := .free

namespace RateLimitGuard

variable (guard : RateLimitGuard)

def hashApiKey (rawKey : String) : String :=
  String.ofList ((hexOf (guard.sha256 rawKey)).take 32)

def truthy (text : Option Identifier) : Option Identifier := text.filter fun s => s.1 ≠ ""

def extractKey (request : HttpRequest) : String :=
  match truthy (request.user.bind AuthUser.id) with
  | some id => "user:" ++ id.1
  | none =>
    match truthy (request.user.bind AuthUser.apiKeyId) with
    | some id => "apikey:" ++ id.1
    | none =>
      match request.apiKey.filter (· ≠ "") with
      | some apiKey => "apikey:" ++ guard.hashApiKey apiKey
      | none =>
        "ip:" ++ ((truthy request.ip <|> truthy request.remoteAddress).map Subtype.val).getD "unknown"

def determineTier (request : HttpRequest) : RateLimitTier :=
  (request.user.bind AuthUser.tier).getD DEFAULT_UNAUTHENTICATED_TIER

/-- The call of `check` that a request makes. -/
def call (c : ExecutionContext) : Call :=
  ⟨guard.extractKey c.request, determineTier c.request, some c.request.path.1, c.asked⟩

structure EffectiveResult where
  allowed : Bool
  limit : Int
  remaining : Int
  resetSeconds : Int
  retryAfterSeconds : Int
  deriving DecidableEq

def effectiveResult (override : Option RateLimitOverride) (result : RateLimitResult) : EffectiveResult :=
  match override.bind RateLimitOverride.maxRequests with
  | none =>
    ⟨result.allowed, result.limit, result.remaining, result.resetSeconds, result.retryAfterSeconds⟩
  | some maxRequests =>
    let decoratorRemaining : Int := max 0 (maxRequests - ((result.limit : Int) - result.remaining))
    { allowed := 0 < decoratorRemaining
      limit := maxRequests
      remaining := decoratorRemaining
      resetSeconds := result.resetSeconds
      retryAfterSeconds := if 0 < decoratorRemaining then 0 else result.retryAfterSeconds }

/-- `true`, the exception of a request over its limit, or another one. -/
inductive Verdict where
  | passed
  | tooManyRequests (statusCode : Nat) (message : String) (retryAfter : Int)
  | failed (e : HttpError)
  deriving DecidableEq

structure Response where
  headers : List (String × String)
  verdict : Verdict
  deriving DecidableEq

def enforce (result : EffectiveResult) : Response :=
  let headers := [
    ("X-RateLimit-Limit", toString result.limit),
    ("X-RateLimit-Remaining", toString result.remaining),
    ("X-RateLimit-Reset", toString result.resetSeconds),
    ("X-RateLimit-Policy", toString result.limit ++ ";w=" ++ toString result.resetSeconds)]
  if result.allowed then ⟨headers, .passed⟩
  else
    ⟨headers ++ [("Retry-After", toString result.retryAfterSeconds)],
      .tooManyRequests 429 "Rate limit exceeded. Please try again later." result.retryAfterSeconds⟩

def canActivate (redis : Redis) (c : ExecutionContext) : Redis × Response :=
  if c.bypass then (redis, ⟨[], .passed⟩)
  else
    let (redis, result) := check guard.rateLimitService redis (guard.call c)
    match result with
    | .error e => (redis, ⟨[], .failed e⟩)
    | .ok .unlimited => (redis, ⟨[], .passed⟩)
    | .ok (.limited result) => (redis, enforce (effectiveResult c.override result))

def step (redis : Redis) (c : ExecutionContext) : Redis := (guard.canActivate redis c).1

/-- A request the guard counts for the user, key or address, the tier and the path of `c`. -/
def SameKey (c d : ExecutionContext) : Bool :=
  !d.bypass && decide (guard.extractKey d.request = guard.extractKey c.request ∧
    determineTier d.request = determineTier c.request ∧ d.request.path = c.request.path)

/-! ## The keys of the server -/

section Keys

variable {guard}

theorem slash_not_mem_hashApiKey (rawKey : String) : '/' ∉ (guard.hashApiKey rawKey).toList := by
  have hdigit : ∀ n < 16, Nat.digitChar n ≠ '/' := by decide
  intro hmem
  rw [hashApiKey, String.toList_ofList] at hmem
  obtain ⟨b, -, hb⟩ := List.mem_flatMap.mp (List.mem_of_mem_take hmem)
  simp only [List.mem_cons, List.not_mem_nil, or_false] at hb
  rcases hb with hb | hb
  · exact hdigit _ (by omega) hb.symm
  · exact hdigit _ (by omega) hb.symm

theorem slash_not_mem_extractKey (request : HttpRequest) : '/' ∉ (guard.extractKey request).toList := by
  have happend {lead s : String} (hlead : '/' ∉ lead.toList) (hs : '/' ∉ s.toList) :
      '/' ∉ (lead ++ s).toList := by
    rw [String.toList_append, List.mem_append]
    exact fun h => h.elim hlead hs
  unfold extractKey
  split
  · rename_i id _
    exact happend (by decide) id.property
  · split
    · rename_i id _
      exact happend (by decide) id.property
    · split
      · exact happend (by decide) (slash_not_mem_hashApiKey _)
      · refine happend (by decide) ?_
        cases truthy request.ip <|> truthy request.remoteAddress with
        | none => exact (by decide : '/' ∉ "unknown".toList)
        | some address => exact address.property

theorem tierText_inj {tier tier' : RateLimitTier} (h : tier.text = tier'.text) : tier = tier' := by
  cases tier <;> cases tier' <;> first | rfl | exact absurd h (by decide)

/-- The first slash of a key of the server is where its path starts, and the last two colons before it
stand around the tier. -/
theorem redisKey_inj {key key' : String} {tier tier' : RateLimitTier} {path path' : RoutePath}
    (hkey : '/' ∉ key.toList) (hkey' : '/' ∉ key'.toList)
    (h : redisKey key tier (some path.1) = redisKey key' tier' (some path'.1)) :
    key = key' ∧ tier = tier' ∧ path = path' := by
  obtain ⟨rest, hrest⟩ := List.head?_eq_some_iff.mp path.2
  obtain ⟨rest', hrest'⟩ := List.head?_eq_some_iff.mp path'.2
  have htext : ∀ tier : RateLimitTier, '/' ∉ tier.text.toList ∧ ':' ∉ tier.text.toList := by
    intro tier
    cases tier <;> decide
  have hlead {key : String} {tier : RateLimitTier} (hkey : '/' ∉ key.toList) :
      '/' ∉ key.toList ++ ':' :: (tier.text.toList ++ [':']) := by
    simp [hkey, (htext tier).1]
  have hlist := congrArg String.toList h
  simp only [redisKey, RATE_LIMIT_KEY_PREFIX, String.toList_append, Option.getD_some, hrest, hrest',
    List.append_assoc] at hlist
  have hsplit : (key.toList ++ ':' :: (tier.text.toList ++ [':'])) ++ '/' :: rest =
      (key'.toList ++ ':' :: (tier'.text.toList ++ [':'])) ++ '/' :: rest' := by
    simpa using hlist
  obtain ⟨hbucket, htail⟩ := delimited_inj (hlead hkey) (hlead hkey') hsplit
  have hrev := congrArg List.reverse hbucket
  simp only [List.reverse_append, List.reverse_cons, List.reverse_nil, List.nil_append,
    List.append_assoc, List.cons_append, List.cons.injEq, true_and] at hrev
  obtain ⟨htier, hkeys⟩ := delimited_inj (by simpa using (htext tier).2) (by simpa using (htext tier').2)
    hrev
  refine ⟨String.toList_injective (List.reverse_injective hkeys),
    tierText_inj (String.toList_injective (List.reverse_injective htier)), Subtype.ext ?_⟩
  refine String.toList_injective ?_
  rw [hrest, hrest', htail]

theorem sameKey_iff {c d : ExecutionContext} :
    guard.SameKey c d = true ↔
      d.bypass = false ∧ (guard.call d).redisKey = (guard.call c).redisKey := by
  rw [SameKey, Bool.and_eq_true, Bool.not_eq_true', decide_eq_true_iff]
  refine and_congr_right fun _ => ⟨?_, fun h => ?_⟩
  · rintro ⟨hkey, htier, hpath⟩
    rw [Call.redisKey, Call.redisKey, call, call, hkey, htier, hpath]
  · exact redisKey_inj (slash_not_mem_extractKey _) (slash_not_mem_extractKey _) h

end Keys

/-! ## The override -/

section Override

variable {guard} {redis : Redis} {c : ExecutionContext}

/-- The calls of `check` that requests make. -/
def calls (guard : RateLimitGuard) (history : List ExecutionContext) : List Call :=
  (history.filter fun c => !c.bypass).map guard.call

theorem step_bypassed (h : c.bypass = true) : guard.step redis c = redis := by
  rw [step, canActivate, if_pos h]

theorem step_counted (h : c.bypass = false) :
    guard.step redis c = RateLimit.step guard.rateLimitService redis (guard.call c) := by
  rw [step, canActivate, if_neg (by simp [h]), RateLimit.step]
  dsimp only
  split <;> rfl

theorem run_calls (history : List ExecutionContext) :
    run guard.step redis history =
      run (RateLimit.step guard.rateLimitService) redis (guard.calls history) := by
  induction history generalizing redis with
  | nil => rfl
  | cons c history ih =>
    cases hc : c.bypass with
    | true =>
      rw [calls, List.filter_cons_of_neg (by simp [hc]), run, step_bypassed hc]
      exact ih
    | false =>
      rw [calls, List.filter_cons_of_pos (by simp [hc]), List.map_cons, run, run, step_counted hc]
      exact ih

theorem requestsUnder_calls (c : ExecutionContext) (history : List ExecutionContext) :
    requestsUnder (guard.call c).redisKey (guard.calls history) =
      (history.filter (guard.SameKey c)).map ExecutionContext.asked := by
  induction history with
  | nil => rfl
  | cons d history ih =>
    have hself : requestsUnder (guard.call c).redisKey (guard.calls [d]) =
        ([d].filter (guard.SameKey c)).map ExecutionContext.asked := by
      by_cases hsame : guard.SameKey c d = true
      · obtain ⟨hd, hkey⟩ := sameKey_iff.mp hsame
        rw [List.filter_cons_of_pos hsame, calls, List.filter_cons_of_pos (by simp [hd]), ← hkey]
        exact requestsUnder_self _
      · rw [List.filter_cons_of_neg hsame]
        cases hd : d.bypass with
        | true => rw [calls, List.filter_cons_of_neg (by simp [hd])]; rfl
        | false =>
          rw [calls, List.filter_cons_of_pos (by simp [hd])]
          exact requestsUnder_other fun hkey => hsame (sameKey_iff.mpr ⟨hd, hkey⟩)
    have happend : guard.calls (d :: history) = guard.calls [d] ++ guard.calls history := by
      rw [calls, calls, calls, ← List.map_append, ← List.filter_append]
      rfl
    rw [happend, requestsUnder_append, hself, ih, ← List.map_append, ← List.filter_append]
    rfl

theorem enforce_passed {result : EffectiveResult} :
    (enforce result).verdict = .passed ↔ result.allowed = true := by
  unfold enforce
  cases result.allowed <;> simp

theorem effective_allowed {override : Option RateLimitOverride} {m : Int}
    (hm : override.bind RateLimitOverride.maxRequests = some m) (result : RateLimitResult) :
    (effectiveResult override result).allowed = true ↔
      (result.limit : Int) - result.remaining < m := by
  rw [effectiveResult, hm]
  simp only [decide_eq_true_eq]
  omega

theorem currentCount_run {limits : Limits} {L : Nat} (hquota : limits.maxRequests = .finite L)
    (history : List ExecutionContext) (hbypass : c.bypass = false)
    (hlimits : getEffectiveLimits guard.rateLimitService.cache (determineTier c.request)
      (some c.request.path.1) = .ok limits)
    (htimes : (history ++ [c]).Pairwise fun d e => d.asked.now ≤ e.asked.now)
    (hmembers : (((history ++ [c]).filter (guard.SameKey c)).map fun d => d.asked.member).Nodup) :
    (run guard.step Redis.empty history).currentCount guard.rateLimitService (guard.call c)
        limits.windowMs =
      (history ++ [c]).countP fun d => guard.SameKey c d &&
        InWindow guard.rateLimitService.strategy limits.windowMs c.asked.now d.asked.now := by
  have hcalls : guard.calls history ++ [guard.call c] = guard.calls (history ++ [c]) := by
    simp [calls, hbypass]
  have hsame : ∀ d ∈ guard.calls history, d.redisKey = (guard.call c).redisKey →
      getEffectiveLimits guard.rateLimitService.cache d.tier d.endpoint = .ok limits := by
    intro d hd hkey
    obtain ⟨e, he, rfl⟩ := List.mem_map.mp hd
    have hcounted : e.bypass = false := by simpa using (List.mem_filter.mp he).2
    have hsame := sameKey_iff.mpr ⟨hcounted, hkey⟩
    rw [SameKey, Bool.and_eq_true, decide_eq_true_iff] at hsame
    obtain ⟨-, -, htier, hpath⟩ := hsame
    rw [call, htier, hpath]
    exact hlimits
  have hordered : (guard.calls history ++ [guard.call c]).Pairwise
      fun d e => d.request.now ≤ e.request.now := by
    rw [hcalls, calls]
    exact List.pairwise_map.mpr (htimes.sublist List.filter_sublist)
  have hnodup : ((requestsUnder (guard.call c).redisKey (guard.calls history ++ [guard.call c])).map
      Request.member).Nodup := by
    rw [hcalls, requestsUnder_calls, List.map_map]
    exact hmembers
  rw [run_calls, currentCount_eq hquota _ _ hsame hordered hnodup, hcalls, requestsUnder_calls,
    List.countP_map, List.countP_filter]
  exact congrArg (fun p => List.countP p (history ++ [c])) (funext fun d => Bool.and_comm _ _)

theorem canActivate_passed {m : Int} {result : RateLimitResult} (hbypass : c.bypass = false)
    (hm : c.override.bind RateLimitOverride.maxRequests = some m)
    (hresult : (check guard.rateLimitService redis (guard.call c)).2 = .ok (.limited result)) :
    (guard.canActivate redis c).2.verdict = .passed ↔ (result.limit : Int) - result.remaining < m := by
  rw [← effective_allowed hm, ← enforce_passed, canActivate, if_neg (by simp [hbypass])]
  dsimp only
  rw [hresult]

/-- After any history: under an unlimited tier the guard agrees with an override of `m` if no more than `m`
requests of the key are counted, and so it does under a tier limit below `m`; under any other limit it does
unless exactly `m` are. -/
theorem override_exact_iff (guard : RateLimitGuard) (history : List ExecutionContext)
    (c : ExecutionContext) (m : Int) (limits : Limits) (hbypass : c.bypass = false)
    (hm : c.override.bind RateLimitOverride.maxRequests = some m)
    (hlimits : getEffectiveLimits guard.rateLimitService.cache (determineTier c.request)
      (some c.request.path.1) = .ok limits)
    (htimes : (history ++ [c]).Pairwise fun d e => d.asked.now ≤ e.asked.now)
    (hmembers : (((history ++ [c]).filter (guard.SameKey c)).map fun d => d.asked.member).Nodup) :
    let n : Int := (history ++ [c]).countP fun d => guard.SameKey c d &&
      InWindow guard.rateLimitService.strategy limits.windowMs c.asked.now d.asked.now
    (((guard.canActivate (run guard.step Redis.empty history) c).2.verdict = .passed ↔ n ≤ m) ↔
      match limits.maxRequests with
      | .unlimited => n ≤ m
      | .finite L => ((L : Int) < m → n ≤ m) ∧ (m ≤ L → n ≠ m)) := by
  intro n
  cases hquota : limits.maxRequests with
  | unlimited =>
    have hcheck (redis : Redis) :
        check guard.rateLimitService redis (guard.call c) = (redis, .ok .unlimited) := by
      simp only [check, call, hlimits, hquota]
    simp only [canActivate, hbypass, hcheck, Bool.false_eq_true, if_false, true_iff]
  | finite L =>
    have hcount := currentCount_run hquota history hbypass hlimits htimes hmembers
    have htyped : (run guard.step Redis.empty history).Typed guard.rateLimitService.strategy := by
      rw [run_calls]
      exact run_typed _ _
    obtain ⟨result, hresult, hlimit, hremaining⟩ :=
      check_limited (c := guard.call c) htyped hlimits hquota
    rw [canActivate_passed hbypass hm hresult, hlimit, hremaining, hcount]
    dsimp only
    omega

end Override

/-- A guard with the given rows, under the sliding window. -/
def ofRows (rows : List RateLimitConfig) : RateLimitGuard :=
  ⟨fun _ => [], ⟨.slidingWindow, loadConfigFromDb .empty (some rows)⟩⟩

/-- A request of one address to a route with an override. -/
def trading (maxRequests : Int) (asked : Request) : ExecutionContext where
  bypass := false
  override := some ⟨some maxRequests⟩
  request := ⟨none, none, some ⟨"203.0.113.7", by decide⟩, none, ⟨"/api/trading", by decide⟩⟩
  asked := asked

/-- Two requests are one too many for an override of two under the tier's hundred; three are not under a
tier limit of one. -/
theorem second_of_two_rejected :
    ((ofRows []).canActivate (run (ofRows []).step Redis.empty [trading 2 ⟨0, "k3x"⟩])
        (trading 2 ⟨1, "p0q"⟩)).2.verdict =
        .tooManyRequests 429 "Rate limit exceeded. Please try again later." 0 ∧
      [trading 2 ⟨0, "k3x"⟩, trading 2 ⟨1, "p0q"⟩].countP (fun d =>
        (ofRows []).SameKey (trading 2 ⟨1, "p0q"⟩) d && InWindow .slidingWindow 60000 1 d.asked.now) = 2 ∧
      ((ofRows [⟨.free, 1, 60, none, true⟩]).canActivate
        (run (ofRows [⟨.free, 1, 60, none, true⟩]).step Redis.empty
          [trading 2 ⟨0, "k3x"⟩, trading 2 ⟨1, "p0q"⟩]) (trading 2 ⟨2, "zz1"⟩)).2.verdict = .passed :=
  ⟨by decide +kernel, by decide +kernel, by decide +kernel⟩

/-- The second of two requests under an override of three. -/
theorem second_of_three_passed :
    ((ofRows []).canActivate (run (ofRows []).step Redis.empty [trading 3 ⟨0, "k3x"⟩])
      (trading 3 ⟨1, "p0q"⟩)).2.verdict = .passed := by
  have hlimits : getEffectiveLimits (ofRows []).rateLimitService.cache .free (some "/api/trading") =
      .ok ⟨.finite 100, 60⟩ := by decide +kernel
  refine ((override_exact_iff (ofRows []) [trading 3 ⟨0, "k3x"⟩] (trading 3 ⟨1, "p0q"⟩) 3 _ rfl rfl hlimits
    (by decide) (by decide +kernel)).mpr ⟨fun h => ?_, fun _ => ?_⟩).mpr ?_
  · exact absurd h (by decide)
  · decide +kernel
  · decide +kernel

end RateLimitGuard

end RateLimit
end TradeCore
