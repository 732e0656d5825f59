import Mathlib.Tactic.NormNum
import Mathlib.Tactic.Linarith
import TradeCore.Lib.DecimalText
import TradeCore.Lib.Rounding

/-!
# TradeCore.Authorization.Threshold

`ThresholdManagerService`: the ceiling of a single action and its number of signatures, from the base
configuration and the market. The ceiling is the configured one times `factor`, rounded, and never below
the floor. Volatility takes the factor down and liquidity takes it down as well
(`maxAmount_of_liquidity`), so that the deep market the service is to relax has the lower ceiling;
`calculate_monotone_iff` says for which configurations that does not show.
-/

namespace TradeCore
namespace Authorization

open Lib

structure BaseThresholdConfig where
  baseAmount : JsNumber
  minAmount : ℚ
  maxAmount : ℚ
  requiredSignatures : ℚ

/-- A number of the market: a finite one, or one that `Number.isFinite` refuses. -/
inductive Reading where
  | finite (x : ℚ)
  | nonFinite
  deriving DecidableEq, Repr

structure MarketConditions where
  volatility : Option Reading
  liquidity : Option Reading
  volume : Option Reading
  deriving DecidableEq, Repr

structure ThresholdProfile where
  baseAmount : JsNumber
  minAmount : ℚ
  maxAmount : ℚ
  requiredSignatures : ℚ
  rationale : String

namespace ThresholdManagerService

def init : BaseThresholdConfig where
  baseAmount := ⟨1000, "1000".toList⟩
  minAmount := 1 / 100
  maxAmount := 100000
  requiredSignatures := 2

def configure (config : BaseThresholdConfig) (baseAmount : Option JsNumber)
    (minAmount maxAmount requiredSignatures : Option ℚ) : BaseThresholdConfig where
  baseAmount := baseAmount.getD config.baseAmount
  minAmount := minAmount.getD config.minAmount
  maxAmount := maxAmount.getD config.maxAmount
  requiredSignatures := requiredSignatures.getD config.requiredSignatures

def clamp : Reading → ℚ
  | .finite x => min 1 (max 0 x)
  | .nonFinite => 0

/-! The readings with the defaults of `calculate`. -/

def volatility (conditions : MarketConditions) : Reading := conditions.volatility.getD (.finite 0)

def liquidity (conditions : MarketConditions) : Reading := conditions.liquidity.getD (.finite 1)

def volume (conditions : MarketConditions) : Reading := conditions.volume.getD (.finite 0)

def volatilityFactor (volatility : ℚ) : ℚ := 1 - 75 / 100 * volatility

def liquidityFactor (liquidity : ℚ) : ℚ := 1 + 25 / 100 * (1 - liquidity)

/-- `x.toFixed(2)` of a clamped reading. -/
def toFixed2 (x : ℚ) : String := String.ofList (fixedText 2 ⌊x * 100 + 1 / 2⌋.toNat)

def calculate (config : BaseThresholdConfig) (conditions : MarketConditions) : ThresholdProfile :=
  let volatility := clamp (volatility conditions)
  let liquidity := clamp (liquidity conditions)
  let volume := clamp (volume conditions)
  { baseAmount := config.baseAmount
    minAmount := config.minAmount
    maxAmount := max config.minAmount
      (mathRound (config.maxAmount * volatilityFactor volatility * liquidityFactor liquidity))
    requiredSignatures := config.requiredSignatures + (if 6 / 10 < volume then 1 else 0) +
      (if 75 / 100 < volatility then 1 else 0)
    rationale := " ".intercalate
      ["base=" ++ String.ofList config.baseAmount.text, "volatility=" ++ toFixed2 volatility,
        "liquidity=" ++ toFixed2 liquidity, "volume=" ++ toFixed2 volume] }

def isWithinLimits (amount : ℚ) (profile : ThresholdProfile) : Bool :=
  profile.minAmount ≤ amount ∧ amount ≤ profile.maxAmount

def requiresMultiSignature (amount : ℚ) (profile : ThresholdProfile) : Bool :=
  profile.baseAmount.value ≤ amount ∧ 1 < profile.requiredSignatures

/-! ## The two factors -/

theorem clamp_nonneg (r : Reading) : 0 ≤ clamp r := by
  cases r with
  | finite x => exact le_min zero_le_one (le_max_left 0 x)
  | nonFinite => exact le_rfl

theorem clamp_le_one (r : Reading) : clamp r ≤ 1 := by
  cases r with
  | finite x => exact min_le_left 1 _
  | nonFinite => exact zero_le_one

theorem clamp_of_mem {x : ℚ} (hlow : 0 ≤ x) (hhigh : x ≤ 1) : clamp (.finite x) = x := by
  rw [clamp, max_eq_right hlow, min_eq_right hhigh]

/-- A finite reading that is at most another one. -/
def Grows (a b : Reading) : Prop := ∃ x y, a = .finite x ∧ b = .finite y ∧ x ≤ y

theorem clamp_mono {a b : Reading} (h : Grows a b) : clamp a ≤ clamp b := by
  obtain ⟨x, y, rfl, rfl, hle⟩ := h
  exact min_le_min_left 1 (max_le_max_left 0 hle)

/-- What the ceiling of the configuration is multiplied with. -/
def factor (volatility liquidity : Reading) : ℚ :=
  volatilityFactor (clamp volatility) * liquidityFactor (clamp liquidity)

theorem volatilityFactor_pos (r : Reading) : 0 < volatilityFactor (clamp r) := by
  have hle := clamp_le_one r
  unfold volatilityFactor
  linarith

theorem liquidityFactor_pos (r : Reading) : 0 < liquidityFactor (clamp r) := by
  have hle := clamp_le_one r
  unfold liquidityFactor
  linarith

theorem factor_of_volatility {a b : Reading} (h : Grows a b) (l : Reading) : factor b l ≤ factor a l := by
  have hle := clamp_mono h
  refine mul_le_mul_of_nonneg_right ?_ (liquidityFactor_pos l).le
  unfold volatilityFactor
  linarith

theorem factor_of_liquidity {a b : Reading} (h : Grows a b) (v : Reading) : factor v b ≤ factor v a := by
  have hle := clamp_mono h
  refine mul_le_mul_of_nonneg_left ?_ (volatilityFactor_pos v).le
  unfold liquidityFactor
  linarith

theorem factor_mem (v l : Reading) : 1 / 4 ≤ factor v l ∧ factor v l ≤ 5 / 4 := by
  have hv := clamp_nonneg v
  have hv' := clamp_le_one v
  have hl := clamp_nonneg l
  have hl' := clamp_le_one l
  unfold factor volatilityFactor liquidityFactor
  constructor <;> nlinarith

theorem factor_eq {v l : ℚ} (hv : 0 ≤ v ∧ v ≤ 1) (hl : 0 ≤ l ∧ l ≤ 1) :
    factor (.finite v) (.finite l) = (1 - 75 / 100 * v) * (1 + 25 / 100 * (1 - l)) := by
  rw [factor, clamp_of_mem hv.1 hv.2, clamp_of_mem hl.1 hl.2, volatilityFactor, liquidityFactor]

/-! ## The ceiling -/

def ceiling (config : BaseThresholdConfig) (f : ℚ) : ℚ :=
  max config.minAmount (mathRound (config.maxAmount * f))

theorem calculate_maxAmount (config : BaseThresholdConfig) (c : MarketConditions) :
    (calculate config c).maxAmount = ceiling config (factor (volatility c) (liquidity c)) := by
  simp only [calculate, ceiling, factor, mul_assoc]

theorem round_quarter_iff {m : ℚ} :
    mathRound (m * (1 / 4)) = mathRound (m * (5 / 4)) ↔ -2 / 5 ≤ m ∧ m < 2 / 5 := by
  constructor
  · intro h
    obtain ⟨hlow, hhigh⟩ := mathRound_eq_iff.mp h
    obtain ⟨hlow', hhigh'⟩ := mathRound_eq_iff.mp (rfl : mathRound (m * (5 / 4)) = _)
    -- the two arguments are `m` apart, so that they round to 0 both or to nothing both
    have hzero : mathRound (m * (5 / 4)) = 0 := by
      have habove : mathRound (m * (5 / 4)) < 1 := by
        by_contra hone
        have hcast : (1 : ℚ) ≤ mathRound (m * (5 / 4)) := by exact_mod_cast not_lt.mp hone
        linarith
      have hbelow : -1 < mathRound (m * (5 / 4)) := by
        by_contra hone
        have hcast : (mathRound (m * (5 / 4)) : ℚ) ≤ -1 := by exact_mod_cast not_lt.mp hone
        linarith
      omega
    rw [hzero, Int.cast_zero] at hlow' hhigh'
    constructor <;> linarith
  · rintro ⟨hlow, hhigh⟩
    have hlow' : mathRound (m * (1 / 4)) = 0 :=
      mathRound_eq_iff.mpr ⟨by norm_num; linarith, by norm_num; linarith⟩
    have hhigh' : mathRound (m * (5 / 4)) = 0 :=
      mathRound_eq_iff.mpr ⟨by norm_num; linarith, by norm_num; linarith⟩
    rw [hlow', hhigh']

/-- The configurations whose ceiling does not depend on the market: it rounds to 0, or the floor is above
whatever the market makes of it. -/
def IsFlat (config : BaseThresholdConfig) : Prop :=
  (-2 / 5 ≤ config.maxAmount ∧ config.maxAmount < 2 / 5) ∨
    mathRound (config.maxAmount * (1 / 4)) ≤ config.minAmount ∧
      mathRound (config.maxAmount * (5 / 4)) ≤ config.minAmount

theorem ceiling_mono {config : BaseThresholdConfig} (h : 0 ≤ config.maxAmount) {f g : ℚ} (hle : f ≤ g) :
    ceiling config f ≤ ceiling config g :=
  max_le_max_left _ (by exact_mod_cast mathRound_mono (mul_le_mul_of_nonneg_left hle h))

theorem ceiling_anti {config : BaseThresholdConfig} (h : config.maxAmount ≤ 0) {f g : ℚ} (hle : f ≤ g) :
    ceiling config g ≤ ceiling config f :=
  max_le_max_left _ (by exact_mod_cast mathRound_mono (mul_le_mul_of_nonpos_left hle h))

theorem isFlat_of_ceiling {config : BaseThresholdConfig}
    (h : ceiling config (1 / 4) = ceiling config (5 / 4)) : IsFlat config := by
  unfold ceiling at h
  by_cases hfloor : mathRound (config.maxAmount * (1 / 4)) ≤ config.minAmount ∧
      mathRound (config.maxAmount * (5 / 4)) ≤ config.minAmount
  · exact .inr hfloor
  · refine .inl (round_quarter_iff.mp ?_)
    have hcast : (mathRound (config.maxAmount * (1 / 4)) : ℚ) = mathRound (config.maxAmount * (5 / 4)) := by
      by_cases hlow : mathRound (config.maxAmount * (1 / 4)) ≤ config.minAmount
      · have hhigh : config.minAmount < mathRound (config.maxAmount * (5 / 4)) :=
          lt_of_not_ge fun hhigh => hfloor ⟨hlow, hhigh⟩
        rw [max_eq_left hlow, max_eq_right hhigh.le] at h
        exact absurd h hhigh.ne
      · rw [max_eq_right (le_of_not_ge hlow)] at h
        rcases max_choice config.minAmount (mathRound (config.maxAmount * (5 / 4)) : ℚ) with hmax | hmax
        · exact absurd (h.trans hmax).le hlow
        · exact h.trans hmax
    exact_mod_cast hcast

theorem ceiling_of_isFlat {config : BaseThresholdConfig} (h : IsFlat config) {f g : ℚ}
    (hf : 1 / 4 ≤ f ∧ f ≤ 5 / 4) (hg : 1 / 4 ≤ g ∧ g ≤ 5 / 4) : ceiling config f = ceiling config g := by
  have hends : ceiling config (1 / 4) = ceiling config (5 / 4) := by
    rcases h with h | ⟨hlow, hhigh⟩
    · rw [ceiling, ceiling, round_quarter_iff.mpr h]
    · rw [ceiling, ceiling, max_eq_left hlow, max_eq_left hhigh]
  have hend : ∀ {e : ℚ}, 1 / 4 ≤ e ∧ e ≤ 5 / 4 → ceiling config e = ceiling config (5 / 4) := by
    intro e he
    rcases le_total 0 config.maxAmount with hsign | hsign
    · exact le_antisymm (ceiling_mono hsign he.2) (hends ▸ ceiling_mono hsign he.1)
    · exact le_antisymm (hends ▸ ceiling_anti hsign he.1) (ceiling_anti hsign he.2)
  rw [hend hf, hend hg]

/-! ## Growing markets -/

/-- Two markets that differ in their volatility, the second one's being higher. -/
structure VolatilityGrows (c c' : MarketConditions) : Prop where
  grows : Grows (volatility c) (volatility c')
  liquidity : c'.liquidity = c.liquidity
  volume : c'.volume = c.volume

/-- Two markets that differ in their liquidity, the second one's being higher. -/
structure LiquidityGrows (c c' : MarketConditions) : Prop where
  grows : Grows (liquidity c) (liquidity c')
  volatility : c'.volatility = c.volatility
  volume : c'.volume = c.volume

theorem signatures_of_volatility (config : BaseThresholdConfig) {c c' : MarketConditions}
    (h : VolatilityGrows c c') :
    (calculate config c).requiredSignatures ≤ (calculate config c').requiredSignatures := by
  have hvolume : volume c' = volume c := by rw [volume, volume, h.volume]
  have hextra : (if 75 / 100 < clamp (volatility c) then (1 : ℚ) else 0) ≤
      if 75 / 100 < clamp (volatility c') then 1 else 0 := by
    split
    next hhigh => rw [if_pos (hhigh.trans_le (clamp_mono h.grows))]
    next => split <;> simp
  simp only [calculate, hvolume]
  exact add_le_add le_rfl hextra

theorem signatures_of_liquidity (config : BaseThresholdConfig) {c c' : MarketConditions}
    (h : LiquidityGrows c c') :
    (calculate config c').requiredSignatures = (calculate config c).requiredSignatures := by
  have hvolume : volume c' = volume c := by rw [volume, volume, h.volume]
  have hvolatility : volatility c' = volatility c := by rw [volatility, volatility, h.volatility]
  simp only [calculate, hvolume, hvolatility]

theorem maxAmount_of_volatility {config : BaseThresholdConfig} (hsign : 0 ≤ config.maxAmount)
    {c c' : MarketConditions} (h : VolatilityGrows c c') :
    (calculate config c').maxAmount ≤ (calculate config c).maxAmount := by
  rw [calculate_maxAmount, calculate_maxAmount, liquidity, liquidity, h.liquidity]
  exact ceiling_mono hsign (factor_of_volatility h.grows _)

/-- The ceiling falls as the liquidity grows. -/
theorem maxAmount_of_liquidity {config : BaseThresholdConfig} (hsign : 0 ≤ config.maxAmount)
    {c c' : MarketConditions} (h : LiquidityGrows c c') :
    (calculate config c').maxAmount ≤ (calculate config c).maxAmount := by
  rw [calculate_maxAmount, calculate_maxAmount, volatility, volatility, h.volatility]
  exact ceiling_mono hsign (factor_of_liquidity h.grows _)

/-- What is within the limits of a volatile market is within those of a calmer one. -/
theorem isWithinLimits_of_volatility {config : BaseThresholdConfig} (hsign : 0 ≤ config.maxAmount)
    {c c' : MarketConditions} (h : VolatilityGrows c c') {amount : ℚ}
    (hwithin : isWithinLimits amount (calculate config c') = true) :
    isWithinLimits amount (calculate config c) = true := by
  simp only [isWithinLimits, decide_eq_true_eq] at hwithin ⊢
  exact ⟨hwithin.1, hwithin.2.trans (maxAmount_of_volatility hsign h)⟩

structure ThresholdMonotone (config : BaseThresholdConfig) : Prop where
  volatility : ∀ c c', VolatilityGrows c c' →
    (calculate config c').maxAmount ≤ (calculate config c).maxAmount ∧
      (calculate config c).requiredSignatures ≤ (calculate config c').requiredSignatures
  liquidity : ∀ c c', LiquidityGrows c c' →
    (calculate config c).maxAmount ≤ (calculate config c').maxAmount ∧
      (calculate config c').requiredSignatures ≤ (calculate config c).requiredSignatures

def market (volatility liquidity : ℚ) : MarketConditions where
  volatility := some (.finite volatility)
  liquidity := some (.finite liquidity)
  volume := none

theorem ThresholdMonotone.ceiling_volatility {config : BaseThresholdConfig} (h : ThresholdMonotone config)
    {l : ℚ} (hl : 0 ≤ l ∧ l ≤ 1) :
    ceiling config (1 / 4 * (1 + 25 / 100 * (1 - l))) ≤ ceiling config (1 + 25 / 100 * (1 - l)) := by
  have hle := (h.volatility (market 0 l) (market 1 l) ⟨⟨0, 1, rfl, rfl, zero_le_one⟩, rfl, rfl⟩).1
  rw [calculate_maxAmount, calculate_maxAmount] at hle
  change ceiling config (factor (.finite 1) (.finite l)) ≤ ceiling config (factor (.finite 0) (.finite l)) at hle
  rw [factor_eq ⟨zero_le_one, le_rfl⟩ hl, factor_eq ⟨le_rfl, zero_le_one⟩ hl] at hle
  norm_num at hle ⊢
  exact hle

theorem ThresholdMonotone.ceiling_liquidity {config : BaseThresholdConfig} (h : ThresholdMonotone config)
    {u : ℚ} (hu : 1 / 4 ≤ u ∧ u ≤ 1) : ceiling config (u * (5 / 4)) ≤ ceiling config u := by
  have hle := (h.liquidity (market ((1 - u) * (4 / 3)) 0) (market ((1 - u) * (4 / 3)) 1)
    ⟨⟨0, 1, rfl, rfl, zero_le_one⟩, rfl, rfl⟩).1
  rw [calculate_maxAmount, calculate_maxAmount] at hle
  change ceiling config (factor (.finite _) (.finite 0)) ≤ ceiling config (factor (.finite _) (.finite 1)) at hle
  have hv : 0 ≤ (1 - u) * (4 / 3) ∧ (1 - u) * (4 / 3) ≤ 1 := ⟨by linarith, by linarith⟩
  rw [factor_eq hv ⟨le_rfl, zero_le_one⟩, factor_eq hv ⟨zero_le_one, le_rfl⟩] at hle
  have hfactor : (1 - 75 / 100 * ((1 - u) * (4 / 3))) = u := by ring
  rw [hfactor] at hle
  norm_num at hle ⊢
  exact hle

theorem ThresholdMonotone.ceiling_ends {config : BaseThresholdConfig} (h : ThresholdMonotone config) :
    ceiling config (1 / 4) = ceiling config (5 / 4) := by
  rcases le_total 0 config.maxAmount with hsign | hsign
  · have step : ∀ u : ℚ, 1 / 4 ≤ u → u ≤ 1 → ceiling config (u * (5 / 4)) ≤ ceiling config u :=
      fun u hlow hhigh => h.ceiling_liquidity ⟨hlow, hhigh⟩
    have down : ∀ {u w : ℚ}, 1 / 4 ≤ w → w ≤ 1 → u ≤ w * (5 / 4) → ceiling config u ≤ ceiling config w :=
      fun hlow hhigh hle => (ceiling_mono hsign hle).trans (step _ hlow hhigh)
    refine le_antisymm (ceiling_mono hsign (by norm_num)) ?_
    calc ceiling config (5 / 4)
        ≤ ceiling config 1 := down (by norm_num) (by norm_num) (by norm_num)
      _ ≤ ceiling config (4 / 5) := down (by norm_num) (by norm_num) (by norm_num)
      _ ≤ ceiling config (16 / 25) := down (by norm_num) (by norm_num) (by norm_num)
      _ ≤ ceiling config (13 / 25) := down (by norm_num) (by norm_num) (by norm_num)
      _ ≤ ceiling config (21 / 50) := down (by norm_num) (by norm_num) (by norm_num)
      _ ≤ ceiling config (17 / 50) := down (by norm_num) (by norm_num) (by norm_num)
      _ ≤ ceiling config (7 / 25) := down (by norm_num) (by norm_num) (by norm_num)
      _ ≤ ceiling config (1 / 4) := down (by norm_num) (by norm_num) (by norm_num)
  · have hdeep := h.ceiling_volatility (l := 1) ⟨zero_le_one, le_rfl⟩
    have hthin := h.ceiling_volatility (l := 0) ⟨le_rfl, zero_le_one⟩
    norm_num at hdeep hthin
    refine le_antisymm ?_ (ceiling_anti hsign (by norm_num))
    calc ceiling config (1 / 4)
        ≤ ceiling config 1 := hdeep
      _ ≤ ceiling config (5 / 16) := ceiling_anti hsign (by norm_num)
      _ ≤ ceiling config (5 / 4) := hthin

theorem calculate_monotone_iff (config : BaseThresholdConfig) :
    ThresholdMonotone config ↔ IsFlat config := by
  constructor
  · exact fun h => isFlat_of_ceiling h.ceiling_ends
  · intro h
    have hflat : ∀ c c', (calculate config c).maxAmount = (calculate config c').maxAmount := by
      intro c c'
      rw [calculate_maxAmount, calculate_maxAmount]
      exact ceiling_of_isFlat h (factor_mem _ _) (factor_mem _ _)
    exact
      { volatility := fun c c' hgrows => ⟨(hflat c' c).le, signatures_of_volatility config hgrows⟩
        liquidity := fun c c' hgrows => ⟨(hflat c c').le, (signatures_of_liquidity config hgrows).le⟩ }

/-- The deeper of two calm markets has the lower ceiling. -/
theorem deep_market_tightens :
    LiquidityGrows (market 0 0) (market 0 1) ∧ (calculate init (market 0 0)).maxAmount = 125000 ∧
      (calculate init (market 0 1)).maxAmount = 100000 ∧ ¬ ThresholdMonotone init := by
  have hthin : (calculate init (market 0 0)).maxAmount = 125000 := by decide +kernel
  have hdeep : (calculate init (market 0 1)).maxAmount = 100000 := by decide +kernel
  have hgrows : LiquidityGrows (market 0 0) (market 0 1) := ⟨⟨0, 1, rfl, rfl, zero_le_one⟩, rfl, rfl⟩
  refine ⟨hgrows, hthin, hdeep, fun h => ?_⟩
  have hle := (h.liquidity _ _ hgrows).1
  rw [hthin, hdeep] at hle
  norm_num at hle

end ThresholdManagerService
end Authorization
end TradeCore
