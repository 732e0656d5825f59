import Mathlib.Data.PNat.Defs
import Mathlib.Logic.Function.Basic
import TradeCore.Common
import TradeCore.RateLimit.PathPattern

/-!
# TradeCore.RateLimit.Config

The quotas of the tiers: the rows of the configuration, the cache they are loaded into and
`getEffectiveLimits`, which reads it.

A row is stored for a tier and may name an endpoint pattern. The cache keeps the patterns of all tiers in
one list and matches them before it looks at the tier. `limits_independent_iff` says what a tier's limits
depend on.
-/

namespace TradeCore
namespace RateLimit

inductive RateLimitTier where
  | free
  | premium
  | enterprise
  deriving DecidableEq, Repr

def RateLimitTier.text : RateLimitTier → String
  | .free => "free"
  | .premium => "premium"
  | .enterprise => "enterprise"

/-- A number of requests; `unlimited` is `Number.POSITIVE_INFINITY`. -/
inductive Quota where
  | finite (n : Nat)
  | unlimited
  deriving DecidableEq, Repr

structure Limits where
  maxRequests : Quota
  windowSizeSeconds : ℕ+
  deriving DecidableEq

def DEFAULT_TIER_QUOTAS : RateLimitTier → Quota
  | .free => .finite 100
  | .premium => .finite 1000
  | .enterprise => .unlimited

def DEFAULT_WINDOW_SIZE_SECS : ℕ+ := 60

def UNLIMITED_SENTINEL : Int := -1

/-- A row; the request body admits window sizes from 1 on. -/
structure RateLimitConfig where
  tier : RateLimitTier
  maxRequests : Int
  windowSizeSeconds : ℕ+
  endpointPattern : Option String
  enabled : Bool
  deriving DecidableEq

structure EndpointOverride where
  endpointPattern : String
  maxRequests : Quota
  windowSizeSeconds : ℕ+
  deriving DecidableEq

/-- The two caches; `tierQuotas` is a map. -/
structure ConfigCache where
  tierQuotas : RateLimitTier → Option Limits
  endpointOverrides : List EndpointOverride

def ConfigCache.empty : ConfigCache := ⟨fun _ => none, []⟩

def normaliseStoredMaxRequests (value : Int) : Quota :=
  if value ≤ UNLIMITED_SENTINEL then .unlimited else .finite value.toNat

/-- The quota of a row; a disabled tier gets none. -/
def RateLimitConfig.quota (cfg : RateLimitConfig) : Quota :=
  if cfg.enabled then normaliseStoredMaxRequests cfg.maxRequests else .finite 0

/-- The override of a row; an empty pattern is none. -/
def RateLimitConfig.override? (cfg : RateLimitConfig) : Option EndpointOverride :=
  (cfg.endpointPattern.filter (· ≠ "")).map fun pattern =>
    ⟨pattern, cfg.quota, cfg.windowSizeSeconds⟩

def ConfigCache.load (cache : ConfigCache) (cfg : RateLimitConfig) : ConfigCache where
  tierQuotas := Function.update cache.tierQuotas cfg.tier (some ⟨cfg.quota, cfg.windowSizeSeconds⟩)
  endpointOverrides := cache.endpointOverrides ++ cfg.override?.toList

/-- `none` is a query that fails: the cache stays as it is. -/
def loadConfigFromDb (cache : ConfigCache) : Option (List RateLimitConfig) → ConfigCache
  | none => cache
  | some configs => configs.foldl ConfigCache.load .empty

/-- The `SyntaxError` of a pattern that is no regular expression. -/
def invalidPattern : HttpError := .internal "Invalid regular expression: Nothing to repeat"

/-- `endpointOverrides.find`; the first pattern that throws ends it. -/
def findOverride (endpoint : String) : List EndpointOverride → Except HttpError (Option EndpointOverride)
  | [] => .ok none
  | o :: os =>
    match pathMatchesPattern (codeUnits endpoint) (codeUnits o.endpointPattern) with
    | none => .error invalidPattern
    | some true => .ok (some o)
    | some false => findOverride endpoint os

def tierLimits (cache : ConfigCache) (tier : RateLimitTier) : Limits :=
  (cache.tierQuotas tier).getD ⟨DEFAULT_TIER_QUOTAS tier, DEFAULT_WINDOW_SIZE_SECS⟩

def getEffectiveLimits (cache : ConfigCache) (tier : RateLimitTier) (endpoint : Option String) :
    Except HttpError Limits :=
  match endpoint.filter (· ≠ "") with
  | none => .ok (tierLimits cache tier)
  | some endpoint =>
    match findOverride endpoint cache.endpointOverrides with
    | .error e => .error e
    | .ok (some override) => .ok ⟨override.maxRequests, override.windowSizeSeconds⟩
    | .ok none => .ok (tierLimits cache tier)

/-! ## What the limits of a tier depend on -/

/-- The limits of a tier under the stored rows. -/
def limitsUnder (rows : List RateLimitConfig) (tier : RateLimitTier) (endpoint : Option String) :
    Except HttpError Limits :=
  getEffectiveLimits (loadConfigFromDb .empty (some rows)) tier endpoint

def ownRows (tier : RateLimitTier) (rows : List RateLimitConfig) : List RateLimitConfig :=
  rows.filter fun cfg => decide (cfg.tier = tier)

/-- The unique index of the table. -/
def UniqueTiers (rows : List RateLimitConfig) : Prop := (rows.map RateLimitConfig.tier).Nodup

/-- No pattern of another tier's row matches the path, or throws. -/
def Unmatched (tier : RateLimitTier) (endpoint : String) (rows : List RateLimitConfig) : Prop :=
  ∀ cfg ∈ rows, cfg.tier ≠ tier → ∀ o, cfg.override? = some o →
    pathMatchesPattern (codeUnits endpoint) (codeUnits o.endpointPattern) = some false

theorem endpointOverrides_load (rows : List RateLimitConfig) (cache : ConfigCache) :
    (rows.foldl ConfigCache.load cache).endpointOverrides =
      cache.endpointOverrides ++ rows.filterMap RateLimitConfig.override? := by
  induction rows generalizing cache with
  | nil => simp
  | cons cfg rows ih =>
    rw [List.foldl_cons, ih, ConfigCache.load, List.append_assoc, List.filterMap_cons]
    cases cfg.override? <;> rfl

theorem tierQuotas_load (tier : RateLimitTier) (rows : List RateLimitConfig) {c c' : ConfigCache}
    (h : c.tierQuotas tier = c'.tierQuotas tier) :
    (rows.foldl ConfigCache.load c).tierQuotas tier =
      ((ownRows tier rows).foldl ConfigCache.load c').tierQuotas tier := by
  induction rows generalizing c c' with
  | nil => exact h
  | cons cfg rows ih =>
    by_cases htier : cfg.tier = tier
    · rw [ownRows, List.filter_cons_of_pos (by simp [htier])]
      refine ih ?_
      simp [ConfigCache.load, htier]
    · rw [ownRows, List.filter_cons_of_neg (by simp [htier])]
      refine ih ?_
      rw [← h]
      exact Function.update_of_ne (Ne.symm htier) _ _

theorem tierLimits_own {tier : RateLimitTier} {rows rows' : List RateLimitConfig}
    (h : ownRows tier rows' = ownRows tier rows) :
    tierLimits (loadConfigFromDb .empty (some rows')) tier =
      tierLimits (loadConfigFromDb .empty (some rows)) tier := by
  simp only [tierLimits, loadConfigFromDb]
  rw [tierQuotas_load tier rows' rfl, tierQuotas_load tier rows rfl, h]

theorem findOverride_own {tier : RateLimitTier} {endpoint : String} {rows : List RateLimitConfig}
    (h : Unmatched tier endpoint rows) :
    findOverride endpoint (rows.filterMap RateLimitConfig.override?) =
      findOverride endpoint ((ownRows tier rows).filterMap RateLimitConfig.override?) := by
  induction rows with
  | nil => rfl
  | cons cfg rows ih =>
    have hrest := ih fun c hc => h c (.tail _ hc)
    by_cases htier : cfg.tier = tier
    · rw [ownRows, List.filter_cons_of_pos (by simp [htier]), List.filterMap_cons, List.filterMap_cons]
      cases cfg.override? with
      | none => exact hrest
      | some o =>
        simp only [findOverride]
        rw [hrest]
        rfl
    · rw [ownRows, List.filter_cons_of_neg (by simp [htier]), List.filterMap_cons]
      cases ho : cfg.override? with
      | none => exact hrest
      | some o =>
        simp only [findOverride, h cfg (.head _) htier o ho]
        exact hrest

theorem endpointOverrides_loaded (rows : List RateLimitConfig) :
    (loadConfigFromDb .empty (some rows)).endpointOverrides =
      rows.filterMap RateLimitConfig.override? :=
  endpointOverrides_load rows .empty

theorem limitsUnder_global {tier : RateLimitTier} {endpoint : Option String}
    (hend : endpoint.filter (· ≠ "") = none) {rows rows' : List RateLimitConfig}
    (hown : ownRows tier rows' = ownRows tier rows) :
    limitsUnder rows' tier endpoint = limitsUnder rows tier endpoint := by
  rw [limitsUnder, limitsUnder, getEffectiveLimits, getEffectiveLimits, hend, tierLimits_own hown]

theorem limitsUnder_unmatched {tier : RateLimitTier} {endpoint : Option String}
    {rows rows' : List RateLimitConfig} (hown : ownRows tier rows' = ownRows tier rows)
    (h : ∀ path, endpoint = some path → Unmatched tier path rows)
    (h' : ∀ path, endpoint = some path → Unmatched tier path rows') :
    limitsUnder rows' tier endpoint = limitsUnder rows tier endpoint := by
  cases hend : endpoint.filter (· ≠ "") with
  | none => exact limitsUnder_global hend hown
  | some path =>
    have hpath := (Option.filter_eq_some_iff.mp hend).1
    have hfind : findOverride path (rows'.filterMap RateLimitConfig.override?) =
        findOverride path (rows.filterMap RateLimitConfig.override?) := by
      rw [findOverride_own (h path hpath), findOverride_own (h' path hpath), hown]
    rw [limitsUnder, limitsUnder, getEffectiveLimits, getEffectiveLimits, hend, tierLimits_own hown,
      endpointOverrides_loaded, endpointOverrides_loaded]
    dsimp only
    rw [hfind]

/-- A row of another tier for the path alone. -/
def foreignRow (tier : RateLimitTier) (path : String) (maxRequests : Int) : RateLimitConfig where
  tier := if tier = .free then .premium else .free
  maxRequests := maxRequests
  windowSizeSeconds := DEFAULT_WINDOW_SIZE_SECS
  endpointPattern := some (literalPattern path)
  enabled := true

theorem foreignRow_tier (tier : RateLimitTier) (path : String) (n : Int) :
    (foreignRow tier path n).tier ≠ tier := by
  cases tier <;> simp [foreignRow]

theorem literalPattern_ne_empty {path : String} (h : path ≠ "") : literalPattern path ≠ "" := by
  intro hnil
  have := matches_literalPattern h
  rw [hnil] at this
  cases this

theorem limitsUnder_foreignRow (tier : RateLimitTier) {endpoint : Option String} {path : String}
    (hend : endpoint.filter (· ≠ "") = some path) (n : Nat) (rows : List RateLimitConfig) :
    limitsUnder (foreignRow tier path n :: rows) tier endpoint =
      .ok ⟨.finite n, DEFAULT_WINDOW_SIZE_SECS⟩ := by
  have hne : path ≠ "" := by simpa using (Option.filter_eq_some_iff.mp hend).2
  have hquota : (foreignRow tier path n).quota = .finite n := by
    have hfinite : ¬ ((n : Int) ≤ UNLIMITED_SENTINEL) := by
      unfold UNLIMITED_SENTINEL
      omega
    rw [RateLimitConfig.quota, foreignRow, if_pos rfl, normaliseStoredMaxRequests, if_neg hfinite]
    rfl
  have hoverride : (foreignRow tier path n).override? =
      some ⟨literalPattern path, .finite n, DEFAULT_WINDOW_SIZE_SECS⟩ := by
    rw [RateLimitConfig.override?, hquota]
    simp [foreignRow, literalPattern_ne_empty hne]
  rw [limitsUnder, getEffectiveLimits, hend, endpointOverrides_loaded, List.filterMap_cons, hoverride]
  simp only [findOverride, matches_literalPattern hne]

/-- The limits of a tier are those of its own rows, whatever the other rows are changed to, exactly when
no endpoint is named; with one they still are as long as no other tier's pattern matches it before or
after the change. -/
theorem limits_independent_iff (rows : List RateLimitConfig) (tier : RateLimitTier)
    (endpoint : Option String) :
    ((∀ rows', (UniqueTiers rows → UniqueTiers rows') → ownRows tier rows' = ownRows tier rows →
        limitsUnder rows' tier endpoint = limitsUnder rows tier endpoint) ↔
      endpoint = none ∨ endpoint = some "") ∧
    ((∀ path, endpoint = some path → Unmatched tier path rows) →
      ∀ rows', ownRows tier rows' = ownRows tier rows →
        (∀ path, endpoint = some path → Unmatched tier path rows') →
        limitsUnder rows' tier endpoint = limitsUnder rows tier endpoint) := by
  have hglobal : endpoint.filter (· ≠ "") = none ↔ endpoint = none ∨ endpoint = some "" := by
    cases endpoint <;> simp
  refine ⟨?_, fun h rows' hown h' => limitsUnder_unmatched hown h h'⟩
  rw [← hglobal]
  constructor
  · intro hall
    cases hend : endpoint.filter (· ≠ "") with
    | none => rfl
    | some path =>
      -- of two quotas one is not the tier's
      have hsame : ∀ n : Nat, limitsUnder rows tier endpoint = .ok ⟨.finite n, DEFAULT_WINDOW_SIZE_SECS⟩ := by
        intro n
        rw [← limitsUnder_foreignRow tier hend n (ownRows tier rows)]
        refine (hall _ (fun hunique => ?_) ?_).symm
        · refine List.nodup_cons.mpr ⟨fun hmem => ?_, (List.filter_sublist.map _).nodup hunique⟩
          obtain ⟨cfg, hcfg, htier⟩ := List.mem_map.mp hmem
          have hown : cfg.tier = tier := by simpa using (List.mem_filter.mp hcfg).2
          exact foreignRow_tier tier path n (htier.symm.trans hown)
        · rw [ownRows, List.filter_cons_of_neg (by simp [foreignRow_tier]), ← ownRows, ownRows, ownRows,
            List.filter_filter]
          simp
      have := (hsame 1).symm.trans (hsame 2)
      cases this
  · intro hend rows' _ hown
    exact limitsUnder_global hend hown

/-- A row of the premium tier for the trading paths. -/
def premiumTrading : RateLimitConfig := ⟨.premium, 1000, 60, some "/api/trading/*", true⟩

/-- The premium row sets the limits of the free tier. -/
theorem premium_limits_free :
    ownRows .free [premiumTrading] = ownRows .free [] ∧
      limitsUnder [] .free (some "/api/trading/order") = .ok ⟨.finite 100, 60⟩ ∧
      limitsUnder [premiumTrading] .free (some "/api/trading/order") = .ok ⟨.finite 1000, 60⟩ :=
  ⟨by decide, by decide +kernel, by decide +kernel⟩

end RateLimit
end TradeCore
