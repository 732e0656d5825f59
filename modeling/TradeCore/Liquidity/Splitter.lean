import TradeCore.Liquidity.Freshness
import TradeCore.Lib.ConstantProduct
import TradeCore.Lib.GreedyAllocation

/-!
# TradeCore.Liquidity.Splitter

`MultiRouteSplitterService`: an order is cut into a hundred steps, and each step goes to the pool that
gives most for it. With fees of at most 1 every pool gives less for each further step, and the split is
the best one in steps of that size (`greedyAllocate_optimal`). `findOptimalSplit` takes the first
`numSplits` of the matching pools before it looks at any of them: the split never loses against one of
these (`improvementOverSingle_nonneg`), but a pool behind them may give more (`split_covers_iff`).
-/

namespace TradeCore
namespace Liquidity

open Lib

structure SplitAllocation where
  poolId : Uuid
  poolName : String
  fraction : ℚ
  amountIn : ℚ
  expectedOutput : ℚ
  priceImpact : ℚ
  deriving DecidableEq, Repr

structure SplitRouteResult where
  tokenIn : String
  tokenOut : String
  totalAmountIn : ℚ
  totalExpectedOutput : ℚ
  blendedPrice : ℚ
  improvementOverSingle : ℚ
  splitCount : ℕ
  allocations : List SplitAllocation
  deriving DecidableEq, Repr

/-! ## Outputs -/

def constantProductOutput (reserveIn reserveOut feeRate amountIn : ℚ) : ℚ :=
  let amountInWithFee := amountIn * (1 - feeRate)
  let denominator := reserveIn + amountInWithFee
  if 0 < denominator then amountInWithFee * reserveOut / denominator else 0

/-- What the pool gives for an amount, the reserves being half the TVL. -/
def LiquidityPool.output (pool : LiquidityPool) (amountIn : ℚ) : ℚ :=
  constantProductOutput (pool.tvl / 2) (pool.tvl / 2) pool.feeRate amountIn

def simulateMarginalSwap (pool : LiquidityPool) (currentInput marginalAmount : ℚ) : ℚ :=
  if pool.tvl ≤ 0 then 0
  else max 0 (pool.output (currentInput + marginalAmount) - pool.output currentInput)

def computeSingleImpact (pool : LiquidityPool) (amountIn : ℚ) : ℚ :=
  if pool.tvl ≤ 0 then 100
  else
    let marketPrice : ℚ := 1
    let execPrice := pool.output amountIn / (if amountIn = 0 then 1 else amountIn)
    if 0 < marketPrice then (marketPrice - execPrice) / marketPrice * 100 else 100

def bestSinglePoolOutput (pools : List LiquidityPool) (amountIn : ℚ) : ℚ :=
  pools.foldl
    (fun best pool =>
      let output := simulateMarginalSwap pool 0 amountIn
      if best < output then output else best) 0

/-! ## The allocation -/

structure GreedyState where
  allocated : List (Uuid × ℚ)
  allocations : List SplitAllocation
  remaining : ℚ
  deriving DecidableEq, Repr

def GreedyState.init (pools : List LiquidityPool) (totalAmount : ℚ) : GreedyState where
  allocated := pools.foldl (fun t pool => upsert Prod.fst (pool.id, 0) t) []
  allocations := pools.foldl (fun t pool => upsert (·.poolId) ⟨pool.id, pool.name, 0, 0, 0, 0⟩ t) []
  remaining := totalAmount

def allocatedTo (allocated : List (Uuid × ℚ)) (id : Uuid) : ℚ :=
  ((lookup Prod.fst id allocated).map Prod.snd).getD 0

/-- The first pool with the highest marginal output, or the first pool when none gives anything. -/
def bestMarginal (first : LiquidityPool) (pools : List LiquidityPool) (allocated : List (Uuid × ℚ))
    (stepAmount : ℚ) : Uuid × ℚ :=
  pools.foldl
    (fun best pool =>
      let marginalOutput := simulateMarginalSwap pool (allocatedTo allocated pool.id) stepAmount
      if best.2 < marginalOutput then (pool.id, marginalOutput) else best) (first.id, 0)

def allocateStep (pools : List LiquidityPool) (stepSize : ℚ) (s : GreedyState) :
    Except HttpError GreedyState :=
  match pools with
  | [] => .error (.internal "TypeError: Cannot read properties of undefined")
  | first :: _ =>
    let stepAmount := min stepSize s.remaining
    let best := bestMarginal first pools s.allocated stepAmount
    .ok { allocated := upsert Prod.fst (best.1, allocatedTo s.allocated best.1 + stepAmount) s.allocated
          allocations := s.allocations.map fun alloc =>
            if alloc.poolId = best.1 then
              { alloc with
                amountIn := alloc.amountIn + stepAmount
                expectedOutput := alloc.expectedOutput + best.2 }
            else alloc
          remaining := s.remaining - stepAmount }

def allocateLoop (pools : List LiquidityPool) (stepSize : ℚ) : ℕ → GreedyState →
    Except HttpError GreedyState
  | 0, s => .ok s
  | n + 1, s =>
    if 0 < s.remaining then
      match allocateStep pools stepSize s with
      | .error e => .error e
      | .ok s => allocateLoop pools stepSize n s
    else .ok s

/-- The allocations that got something, with their fractions and impacts. -/
def finalAllocations (pools : List LiquidityPool) (totalAmount : ℚ) (allocations : List SplitAllocation) :
    List SplitAllocation :=
  pools.filterMap fun pool =>
    (lookup (·.poolId) pool.id allocations).bind fun alloc =>
      if alloc.amountIn ≤ 0 then none
      else
        some { alloc with
               fraction := alloc.amountIn / totalAmount
               priceImpact := computeSingleImpact pool alloc.amountIn }

def greedyAllocate (pools : List LiquidityPool) (totalAmount : ℚ) :
    Except HttpError (List SplitAllocation) :=
  let stepSize := totalAmount / 100
  match allocateLoop pools stepSize ⌈totalAmount / stepSize⌉.toNat (.init pools totalAmount) with
  | .error e => .error e
  | .ok s =>
    .ok ((finalAllocations pools totalAmount s.allocations).insertionSort
      fun a b => b.amountIn ≤ a.amountIn)

/-! ## The split -/

/-- The active pools of the pair, in either direction; an issuer that is not given matches any. -/
def Registry.matching (t : Registry) (tokenIn : String) (tokenInIssuer : Option String)
    (tokenOut : String) (tokenOutIssuer : Option String) : List LiquidityPool :=
  t.pools.filter fun p =>
    (p.assetCodeA == tokenIn && issuerMatches tokenInIssuer p.assetIssuerA &&
      p.assetCodeB == tokenOut && issuerMatches tokenOutIssuer p.assetIssuerB &&
      p.status == .active) ||
    (p.assetCodeA == tokenOut && issuerMatches tokenOutIssuer p.assetIssuerA &&
      p.assetCodeB == tokenIn && issuerMatches tokenInIssuer p.assetIssuerB && p.status == .active)

def totalOutput (allocations : List SplitAllocation) : ℚ := (allocations.map (·.expectedOutput)).sum

def findOptimalSplit (t : Registry) (tokenIn : String) (tokenInIssuer : Option String)
    (tokenOut : String) (tokenOutIssuer : Option String) (amountIn : ℚ) (numSplits : ℕ) :
    Except HttpError SplitRouteResult :=
  let pools := t.matching tokenIn tokenInIssuer tokenOut tokenOutIssuer
  if pools.length = 0 then .ok ⟨tokenIn, tokenOut, amountIn, 0, 0, 0, 0, []⟩
  else
    let activePools := pools.take numSplits
    match greedyAllocate activePools amountIn with
    | .error e => .error e
    | .ok allocations =>
      let totalOutput := totalOutput allocations
      let singlePoolOutput := bestSinglePoolOutput activePools amountIn
      .ok { tokenIn := tokenIn
            tokenOut := tokenOut
            totalAmountIn := amountIn
            totalExpectedOutput := totalOutput
            blendedPrice := if 0 < amountIn then totalOutput / amountIn else 0
            improvementOverSingle :=
              if 0 < singlePoolOutput then (totalOutput - singlePoolOutput) / singlePoolOutput * 100
              else 0
            splitCount := allocations.length
            allocations := allocations }

/-! ## What the steps add up to -/

/-- What the code adds up for `n` steps into one pool. -/
def stepsWorth (stepSize : ℚ) (pool : LiquidityPool) (n : ℕ) : ℚ :=
  ∑ j ∈ Finset.range n, simulateMarginalSwap pool (j * stepSize) stepSize

@[simp] theorem stepsWorth_zero (stepSize : ℚ) (pool : LiquidityPool) : stepsWorth stepSize pool 0 = 0 :=
  rfl

theorem stepsWorth_succ (stepSize : ℚ) (pool : LiquidityPool) (n : ℕ) :
    stepsWorth stepSize pool (n + 1) =
      stepsWorth stepSize pool n + simulateMarginalSwap pool (n * stepSize) stepSize :=
  Finset.sum_range_succ _ n

theorem simulateMarginalSwap_nonneg (pool : LiquidityPool) (x y : ℚ) :
    0 ≤ simulateMarginalSwap pool x y := by
  unfold simulateMarginalSwap
  split
  · exact le_refl 0
  · exact le_max_left 0 _

/-- The step after `k` goes to `best`: nobody gives more for it, and `best` gives something unless it
is the first pool. -/
structure Next (pools : List LiquidityPool) (stepSize : ℚ) (k : LiquidityPool → ℕ) (best : LiquidityPool) :
    Prop where
  mem : best ∈ pools
  most : ∀ p ∈ pools, simulateMarginalSwap p (k p * stepSize) stepSize ≤
    simulateMarginalSwap best (k best * stepSize) stepSize
  gives : pools.head? = some best ∨ 0 < simulateMarginalSwap best (k best * stepSize) stepSize

theorem bestMarginal_spec {first : LiquidityPool} {rest : List LiquidityPool} {k : LiquidityPool → ℕ}
    {stepSize : ℚ} {allocated : List (Uuid × ℚ)}
    (h : ∀ p ∈ first :: rest, allocatedTo allocated p.id = k p * stepSize) :
    ∃ best, Next (first :: rest) stepSize k best ∧
      bestMarginal first (first :: rest) allocated stepSize =
        (best.id, simulateMarginalSwap best (k best * stepSize) stepSize) := by
  set offers := (first :: rest).map fun p =>
    (p.id, simulateMarginalSwap p (k p * stepSize) stepSize) with hoffers
  have hbest : bestMarginal first (first :: rest) allocated stepSize =
      firstBest Prod.snd (first.id, 0) offers := by
    have hmarginals : offers = (first :: rest).map fun p =>
        (p.id, simulateMarginalSwap p (allocatedTo allocated p.id) stepSize) :=
      List.map_congr_left fun p hp => by rw [h p hp]
    rw [hmarginals, firstBest, List.foldl_map]
    rfl
  obtain ⟨hmem, hall, hgrows⟩ := firstBest_spec Prod.snd (first.id, (0 : ℚ)) offers
  have hmost : ∀ p ∈ first :: rest, simulateMarginalSwap p (k p * stepSize) stepSize ≤
      (firstBest Prod.snd (first.id, 0) offers).2 := fun p hp =>
    hall _ (List.mem_cons_of_mem _ (List.mem_map.mpr ⟨p, hp, rfl⟩))
  rw [hbest]
  by_cases hstart : firstBest Prod.snd (first.id, 0) offers = (first.id, 0)
  · -- nobody gives anything, the first pool included
    rw [hstart] at hmost ⊢
    have hzero : simulateMarginalSwap first (k first * stepSize) stepSize = 0 :=
      le_antisymm (hmost first (by simp)) (simulateMarginalSwap_nonneg ..)
    exact ⟨first, ⟨by simp, fun p hp => by rw [hzero]; exact hmost p hp, .inl rfl⟩, by rw [hzero]⟩
  · obtain ⟨best, hin, heq⟩ := List.mem_map.mp ((List.mem_cons.mp hmem).resolve_left hstart)
    rw [← heq] at hmost hgrows ⊢
    refine ⟨best, ⟨hin, hmost, .inr ?_⟩, rfl⟩
    exact hgrows.resolve_left fun h => hstart (heq.symm.trans h)

/-! ## The steps -/

/-- The state when pool `p` has got `k p` steps. -/
structure Holds (pools : List LiquidityPool) (totalAmount : ℚ) (k : LiquidityPool → ℕ) (s : GreedyState) :
    Prop where
  remaining : s.remaining = totalAmount - (∑ p ∈ pools.toFinset, k p : ℕ) * (totalAmount / 100)
  allocated : ∀ p ∈ pools, allocatedTo s.allocated p.id = k p * (totalAmount / 100)
  allocations : ∀ p ∈ pools, lookup (·.poolId) p.id s.allocations =
    some ⟨p.id, p.name, 0, k p * (totalAmount / 100), stepsWorth (totalAmount / 100) p (k p), 0⟩

theorem lookup_foldl_upsert {α κ : Type} [DecidableEq κ] (key : α → κ) (f : LiquidityPool → α)
    {pools : List LiquidityPool} (h : (pools.map fun p => key (f p)).Nodup) :
    ∀ p ∈ pools, lookup key (key (f p)) (pools.foldl (fun t pool => upsert key (f pool) t) []) =
      some (f p) := by
  induction pools using List.reverseRecOn with
  | nil => simp
  | append_singleton pools pool ih =>
    intro p hp
    rw [List.foldl_append, List.foldl_cons, List.foldl_nil, lookup_upsert]
    rw [List.map_append, List.nodup_append] at h
    rcases List.mem_append.mp hp with hp | hp
    · have hne : key (f pool) ≠ key (f p) := fun heq =>
        h.2.2 _ (List.mem_map_of_mem hp) (key (f pool)) (by simp) heq.symm
      rw [if_neg hne]
      exact ih h.1 p hp
    · rw [List.mem_singleton.mp hp, if_pos rfl]

theorem lookup_map {α κ : Type} [DecidableEq κ] {key : α → κ} {f : α → α} (hf : ∀ r, key (f r) = key r)
    (k : κ) (t : List α) : lookup key k (t.map f) = (lookup key k t).map f := by
  unfold lookup
  rw [List.find?_map]
  simp only [Function.comp_def, hf]

theorem holds_init {pools : List LiquidityPool} (hids : (pools.map (·.id)).Nodup) (totalAmount : ℚ) :
    Holds pools totalAmount (fun _ => 0) (.init pools totalAmount) where
  remaining := by simp [GreedyState.init]
  allocated := by
    intro p hp
    have := lookup_foldl_upsert Prod.fst (fun pool => (pool.id, (0 : ℚ))) hids p hp
    simp only at this
    simp [allocatedTo, GreedyState.init, this]
  allocations := by
    intro p hp
    have := lookup_foldl_upsert SplitAllocation.poolId
      (fun pool => ⟨pool.id, pool.name, 0, 0, 0, 0⟩) hids p hp
    simpa [GreedyState.init] using this

theorem allocateStep_holds {pools : List LiquidityPool} {totalAmount : ℚ} (hids : (pools.map (·.id)).Nodup)
    (hne : pools ≠ []) {k : LiquidityPool → ℕ} {s : GreedyState} (h : Holds pools totalAmount k s)
    (hroom : totalAmount / 100 ≤ s.remaining) :
    ∃ best s', Next pools (totalAmount / 100) k best ∧
      allocateStep pools (totalAmount / 100) s = .ok s' ∧ Holds pools totalAmount (give best k) s' := by
  cases pools with
  | nil => exact absurd rfl hne
  | cons first rest =>
    obtain ⟨best, hnext, hbest⟩ := bestMarginal_spec h.allocated
    have hother : ∀ p ∈ first :: rest, p ≠ best → best.id ≠ p.id := fun p hp hpb hid =>
      hpb (List.inj_on_of_nodup_map hids hp hnext.mem hid.symm)
    have hgot : allocatedTo s.allocated best.id = k best * (totalAmount / 100) :=
      h.allocated best hnext.mem
    have hstep : allocateStep (first :: rest) (totalAmount / 100) s = .ok
        { allocated := upsert Prod.fst (best.id, k best * (totalAmount / 100) + totalAmount / 100) s.allocated
          allocations := s.allocations.map fun alloc =>
            if alloc.poolId = best.id then
              { alloc with
                amountIn := alloc.amountIn + totalAmount / 100
                expectedOutput := alloc.expectedOutput +
                  simulateMarginalSwap best (k best * (totalAmount / 100)) (totalAmount / 100) }
            else alloc
          remaining := s.remaining - totalAmount / 100 } := by
      rw [allocateStep, min_eq_left hroom]
      simp only [hbest, hgot]
    refine ⟨best, _, hnext, hstep, ⟨?_, fun p hp => ?_, fun p hp => ?_⟩⟩
    · rw [sum_give (List.mem_toFinset.mpr hnext.mem)]
      simp only [h.remaining]
      push_cast
      ring
    · unfold allocatedTo
      rw [lookup_upsert]
      by_cases hpb : p = best
      · subst hpb
        simp only [if_true, Option.map_some, Option.getD_some, give_self]
        push_cast
        ring
      · rw [if_neg (hother p hp hpb), give_of_ne hpb]
        exact h.allocated p hp
    · rw [lookup_map (fun r => by split <;> rfl), h.allocations p hp, Option.map_some]
      by_cases hpb : p = best
      · subst hpb
        rw [if_pos rfl, give_self, stepsWorth_succ]
        simp only [Option.some.injEq, SplitAllocation.mk.injEq, true_and, and_true]
        push_cast
        ring
      · rw [if_neg (Ne.symm (hother p hp hpb)), give_of_ne hpb]

def share (totalAmount : ℚ) (k : LiquidityPool → ℕ) (p : LiquidityPool) : SplitAllocation where
  poolId := p.id
  poolName := p.name
  fraction := k p * (totalAmount / 100) / totalAmount
  amountIn := k p * (totalAmount / 100)
  expectedOutput := stepsWorth (totalAmount / 100) p (k p)
  priceImpact := computeSingleImpact p (k p * (totalAmount / 100))

/-- The allocations of a split, the largest first. -/
def shares (pools : List LiquidityPool) (totalAmount : ℚ) (k : LiquidityPool → ℕ) : List SplitAllocation :=
  ((pools.filter fun p => k p ≠ 0).map (share totalAmount k)).insertionSort fun a b => b.amountIn ≤ a.amountIn

theorem finalAllocations_eq {pools : List LiquidityPool} {totalAmount : ℚ} (htotal : 0 < totalAmount)
    {k : LiquidityPool → ℕ} {s : GreedyState} (h : Holds pools totalAmount k s) :
    finalAllocations pools totalAmount s.allocations =
      (pools.filter fun p => k p ≠ 0).map (share totalAmount k) := by
  have hstep : 0 < totalAmount / 100 := by positivity
  unfold finalAllocations
  rw [← List.filterMap_eq_map, List.filterMap_filter]
  refine List.filterMap_congr fun p hp => ?_
  rw [h.allocations p hp, Option.bind_some]
  by_cases hk : k p = 0
  · simp [hk]
  · have hpos : ¬(k p : ℚ) * (totalAmount / 100) ≤ 0 := by
      have : 0 < k p := Nat.pos_of_ne_zero hk
      rw [not_le]
      positivity
    simp only [if_neg hpos, ne_eq, hk, not_false_eq_true, decide_true, if_true, Function.comp_apply, share]

theorem sum_shares {pools : List LiquidityPool} (hids : (pools.map (·.id)).Nodup) (totalAmount : ℚ)
    (k : LiquidityPool → ℕ) (f : SplitAllocation → ℚ) (g : LiquidityPool → ℚ)
    (hzero : ∀ p, k p = 0 → g p = 0) (hshare : ∀ p, f (share totalAmount k p) = g p) :
    ((shares pools totalAmount k).map f).sum = ∑ p ∈ pools.toFinset, g p := by
  have hdistinct : (pools.filter fun p => k p ≠ 0).Nodup := hids.of_map.filter _
  calc ((shares pools totalAmount k).map f).sum
      = ((pools.filter fun p => k p ≠ 0).map g).sum := by
        rw [shares, ((List.perm_insertionSort _ _).map f).sum_eq, List.map_map]
        exact congrArg List.sum (List.map_congr_left fun p _ => hshare p)
    _ = ∑ p ∈ pools.toFinset with k p ≠ 0, g p := by
        rw [← List.sum_toFinset g hdistinct, List.toFinset_filter]
        simp
    _ = ∑ p ∈ pools.toFinset, g p :=
        Finset.sum_filter_of_ne fun p _ hg hk => hg (hzero p hk)

section Run

variable {pools : List LiquidityPool} {totalAmount : ℚ} (hids : (pools.map (·.id)).Nodup) (hne : pools ≠ [])
  (htotal : 0 < totalAmount)
include hids hne htotal

theorem allocateLoop_run {P : (LiquidityPool → ℕ) → Prop}
    (hP : ∀ k best, P k → Next pools (totalAmount / 100) k best → P (give best k)) (n : ℕ)
    {k : LiquidityPool → ℕ} {s : GreedyState} (hk : P k) (h : Holds pools totalAmount k s)
    (hn : ∑ p ∈ pools.toFinset, k p + n = 100) :
    ∃ k' s', allocateLoop pools (totalAmount / 100) n s = .ok s' ∧ Holds pools totalAmount k' s' ∧
      ∑ p ∈ pools.toFinset, k' p = 100 ∧ P k' := by
  induction n generalizing k s with
  | zero => exact ⟨k, s, rfl, h, hn, hk⟩
  | succ n ih =>
    have hstep : 0 < totalAmount / 100 := by positivity
    have hroom : totalAmount / 100 ≤ s.remaining := by
      have hsum : (∑ p ∈ pools.toFinset, k p : ℕ) = 100 - ((n : ℚ) + 1) := by
        rw [eq_sub_iff_add_eq]
        exact_mod_cast hn
      have hrest : 0 ≤ n * (totalAmount / 100) := by positivity
      rw [h.remaining, hsum]
      linarith
    obtain ⟨best, s', hnext, hs', hholds⟩ := allocateStep_holds hids hne h hroom
    rw [allocateLoop, if_pos (hstep.trans_le hroom), hs']
    refine ih (hP k best hk hnext) hholds ?_
    rw [sum_give (List.mem_toFinset.mpr hnext.mem)]
    omega

theorem greedyAllocate_run {P : (LiquidityPool → ℕ) → Prop} (hP0 : P fun _ => 0)
    (hP : ∀ k best, P k → Next pools (totalAmount / 100) k best → P (give best k)) :
    ∃ k, ∑ p ∈ pools.toFinset, k p = 100 ∧ P k ∧
      greedyAllocate pools totalAmount = .ok (shares pools totalAmount k) := by
  have hsteps : ⌈totalAmount / (totalAmount / 100)⌉.toNat = 100 := by
    rw [div_div_cancel₀ htotal.ne']
    rfl
  obtain ⟨k, s, hs, hholds, hsum, hPk⟩ :=
    allocateLoop_run hids hne htotal hP 100 hP0 (holds_init hids totalAmount) (by simp)
  refine ⟨k, hsum, hPk, ?_⟩
  simp only [greedyAllocate, hsteps, hs, finalAllocations_eq htotal hholds, shares]

end Run

/-! ## The curve of a pool -/

/-- What the pool gives for `n` steps at once. -/
def atOnce (stepSize : ℚ) (pool : LiquidityPool) (n : ℕ) : ℚ := simulateMarginalSwap pool 0 (n * stepSize)

/-- A fee above the whole amount: a large amount drives the reserve below zero and comes out positive. -/
def LiquidityPool.Wild (pool : LiquidityPool) : Prop := 0 < pool.tvl ∧ 1 < pool.feeRate

/-- Something comes out for every positive amount. -/
def LiquidityPool.Live (pool : LiquidityPool) : Prop := 0 < pool.tvl ∧ pool.feeRate < 1

theorem LiquidityPool.Wild.not_live {pool : LiquidityPool} (h : pool.Wild) : ¬pool.Live :=
  fun hlive => h.2.not_gt hlive.2

section Curve

variable {pool : LiquidityPool} {stepSize : ℚ}

@[simp] theorem output_zero (pool : LiquidityPool) : pool.output 0 = 0 := by
  simp [LiquidityPool.output, constantProductOutput]

theorem output_eq_curve (htvl : 0 < pool.tvl) (hfee : pool.feeRate ≤ 1) {x : ℚ} (hx : 0 ≤ x) :
    pool.output x = curve (pool.tvl / 2) (x * (1 - pool.feeRate)) := by
  have hin : 0 ≤ x * (1 - pool.feeRate) := mul_nonneg hx (sub_nonneg.mpr hfee)
  have hpos : 0 < pool.tvl / 2 + x * (1 - pool.feeRate) := by positivity
  simp only [LiquidityPool.output, constantProductOutput, if_pos hpos, curve]

theorem simulateMarginalSwap_eq (htvl : 0 < pool.tvl) (hfee : pool.feeRate ≤ 1) {x y : ℚ} (hx : 0 ≤ x)
    (hy : 0 ≤ y) : simulateMarginalSwap pool x y = pool.output (x + y) - pool.output x := by
  have hrest : 0 ≤ 1 - pool.feeRate := sub_nonneg.mpr hfee
  rw [simulateMarginalSwap, if_neg htvl.not_ge, max_eq_right]
  rw [output_eq_curve htvl hfee (add_nonneg hx hy), output_eq_curve htvl hfee hx, add_mul]
  exact curve_gain_nonneg (half_pos htvl) (mul_nonneg hx hrest) (mul_nonneg hy hrest)

theorem simulateMarginalSwap_of_dry (htvl : pool.tvl ≤ 0) (x y : ℚ) : simulateMarginalSwap pool x y = 0 :=
  if_pos htvl

variable (hstep : 0 < stepSize)
include hstep

theorem atOnce_eq_output (htvl : 0 < pool.tvl) (hfee : pool.feeRate ≤ 1) (n : ℕ) :
    atOnce stepSize pool n = pool.output (n * stepSize) := by
  rw [atOnce, simulateMarginalSwap_eq htvl hfee (le_refl 0) (by positivity), zero_add, output_zero,
    sub_zero]

theorem atOnce_of_not_live (h : ¬pool.Live) (n : ℕ) : atOnce stepSize pool n = 0 := by
  rcases le_or_gt pool.tvl 0 with htvl | htvl
  · exact simulateMarginalSwap_of_dry htvl ..
  have hfee : 1 ≤ pool.feeRate := not_lt.mp fun hlt => h ⟨htvl, hlt⟩
  have hin : n * stepSize * (1 - pool.feeRate) ≤ 0 :=
    mul_nonpos_of_nonneg_of_nonpos (by positivity) (sub_nonpos.mpr hfee)
  rw [atOnce, simulateMarginalSwap, if_neg htvl.not_ge, zero_add, output_zero, sub_zero, max_eq_left]
  simp only [LiquidityPool.output, constantProductOutput]
  split
  next hpos => exact div_nonpos_of_nonpos_of_nonneg (mul_nonpos_of_nonpos_of_nonneg hin (by positivity)) hpos.le
  next => exact le_refl 0

theorem first_step_of_not_live (h : ¬pool.Live) {k : LiquidityPool → ℕ} (hk : k pool = 0) :
    simulateMarginalSwap pool (k pool * stepSize) stepSize = 0 := by
  have hone := atOnce_of_not_live hstep h 1
  rw [atOnce, Nat.cast_one, one_mul] at hone
  rw [hk, Nat.cast_zero, zero_mul, hone]

theorem gain_atOnce (h : ¬pool.Wild) (n : ℕ) :
    gain (atOnce stepSize) pool n = simulateMarginalSwap pool (n * stepSize) stepSize := by
  unfold gain
  rcases le_or_gt pool.tvl 0 with htvl | htvl
  · simp only [atOnce, simulateMarginalSwap_of_dry htvl, sub_zero]
  have hfee : pool.feeRate ≤ 1 := not_lt.mp fun hlt => h ⟨htvl, hlt⟩
  rw [atOnce_eq_output hstep htvl hfee, atOnce_eq_output hstep htvl hfee,
    simulateMarginalSwap_eq htvl hfee (by positivity) hstep.le]
  push_cast
  rw [add_mul, one_mul]

theorem stepsWorth_eq (h : ¬pool.Wild) (n : ℕ) : stepsWorth stepSize pool n = atOnce stepSize pool n := by
  induction n with
  | zero =>
    rw [stepsWorth_zero, atOnce, simulateMarginalSwap]
    simp
  | succ n ih => rw [stepsWorth_succ, ih, ← gain_atOnce hstep h, gain, add_sub_cancel]

theorem gain_of_not_live (h : ¬pool.Live) (n : ℕ) : gain (atOnce stepSize) pool n = 0 := by
  rw [gain, atOnce_of_not_live hstep h, atOnce_of_not_live hstep h, sub_self]

theorem gain_of_live (h : pool.Live) (n : ℕ) : 0 < gain (atOnce stepSize) pool n := by
  have hrest : 0 < 1 - pool.feeRate := sub_pos.mpr h.2
  rw [gain, atOnce_eq_output hstep h.1 h.2.le, atOnce_eq_output hstep h.1 h.2.le,
    output_eq_curve h.1 h.2.le (by positivity), output_eq_curve h.1 h.2.le (by positivity)]
  push_cast
  rw [add_mul, one_mul, add_mul]
  exact curve_gain_pos (half_pos h.1) (by positivity) (by positivity)

theorem diminishing_atOnce (takers : Finset LiquidityPool) : Diminishing (atOnce stepSize) takers := by
  intro p _ n
  by_cases h : p.Live
  · have hrest : 0 ≤ 1 - p.feeRate := sub_nonneg.mpr h.2.le
    unfold gain
    simp only [atOnce_eq_output hstep h.1 h.2.le]
    rw [output_eq_curve h.1 h.2.le (by positivity), output_eq_curve h.1 h.2.le (by positivity),
      output_eq_curve h.1 h.2.le (by positivity)]
    have hnext : ∀ m : ℕ, ((m + 1 : ℕ) : ℚ) * stepSize * (1 - p.feeRate) =
        m * stepSize * (1 - p.feeRate) + stepSize * (1 - p.feeRate) := by
      intro m
      push_cast
      ring
    rw [hnext (n + 1), hnext n]
    exact curve_gain_anti (half_pos h.1) (by positivity) (le_add_of_nonneg_right (by positivity))
      (by positivity)
  · rw [gain_of_not_live hstep h, gain_of_not_live hstep h]

end Curve

/-! ## The best split -/

/-- Balanced, with nothing in the pools that give nothing at first. -/
structure BalancedSplit (pools : List LiquidityPool) (stepSize : ℚ) (k : LiquidityPool → ℕ) : Prop where
  balanced : Balanced (atOnce stepSize) pools.toFinset k
  wild : ∀ p ∈ pools, p.Wild → k p = 0

/-- The next step never goes to a wild pool that is empty when some other pool is live. -/
theorem BalancedSplit.give {pools : List LiquidityPool} {stepSize : ℚ} (hstep : 0 < stepSize)
    (hpools : (∀ p ∈ pools, ¬p.Wild) ∨ ∃ p ∈ pools, p.Live) {k : LiquidityPool → ℕ}
    (h : BalancedSplit pools stepSize k) {best : LiquidityPool} (hnext : Next pools stepSize k best) :
    BalancedSplit pools stepSize (give best k) := by
  have hworth : ∀ p ∈ pools,
      gain (atOnce stepSize) p (k p) ≤ simulateMarginalSwap p (k p * stepSize) stepSize := by
    intro p hp
    by_cases hwild : p.Wild
    · rw [gain_of_not_live hstep hwild.not_live]
      exact simulateMarginalSwap_nonneg ..
    · rw [gain_atOnce hstep hwild]
  have hbest : ¬best.Wild := by
    intro hwild
    rcases hpools with hnone | ⟨live, hlive, hgives⟩
    · exact hnone best hnext.mem hwild
    have hdead := first_step_of_not_live hstep hwild.not_live (h.wild best hnext.mem hwild)
    have hlt := gain_of_live hstep hgives (k live)
    exact absurd ((hworth live hlive).trans (hnext.most live hlive)) (by rw [hdead]; exact hlt.not_ge)
  constructor
  · refine h.balanced.give (diminishing_atOnce hstep _) (List.mem_toFinset.mpr hnext.mem) fun p hp => ?_
    rw [List.mem_toFinset] at hp
    rw [gain_atOnce hstep hbest]
    exact (hworth p hp).trans (hnext.most p hp)
  · intro p hp hwild
    have hne : p ≠ best := fun heq => hbest (heq ▸ hwild)
    rw [give_of_ne hne, h.wild p hp hwild]

section Best

variable {pools : List LiquidityPool} {totalAmount : ℚ} (hids : (pools.map (·.id)).Nodup) (hne : pools ≠ [])
  (htotal : 0 < totalAmount)
include hids hne htotal

theorem greedyAllocate_balanced (hpools : (∀ p ∈ pools, ¬p.Wild) ∨ ∃ p ∈ pools, p.Live) :
    ∃ k, ∑ p ∈ pools.toFinset, k p = 100 ∧ BalancedSplit pools (totalAmount / 100) k ∧
      greedyAllocate pools totalAmount = .ok (shares pools totalAmount k) :=
  greedyAllocate_run hids hne htotal ⟨balanced_zero, fun _ _ _ => rfl⟩ fun _ _ h hnext =>
    h.give (by positivity) hpools hnext

omit hne htotal in
theorem totalOutput_eq (k : LiquidityPool → ℕ) :
    totalOutput (shares pools totalAmount k) =
      ∑ p ∈ pools.toFinset, stepsWorth (totalAmount / 100) p (k p) :=
  sum_shares hids totalAmount k _ _ (fun p hk => by rw [hk, stepsWorth_zero]) fun _ => rfl

omit hne in
theorem BalancedSplit.totalOutput {k : LiquidityPool → ℕ} (h : BalancedSplit pools (totalAmount / 100) k) :
    totalOutput (shares pools totalAmount k) = ∑ p ∈ pools.toFinset, atOnce (totalAmount / 100) p (k p) := by
  rw [totalOutput_eq hids]
  refine Finset.sum_congr rfl fun p hp => ?_
  have hstep : 0 < totalAmount / 100 := by positivity
  by_cases hwild : p.Wild
  · rw [h.wild p (List.mem_toFinset.mp hp) hwild, stepsWorth_zero,
      atOnce_of_not_live hstep hwild.not_live]
  · exact stepsWorth_eq hstep hwild _

end Best

/-- The outputs of all ways of sharing the amount out among the pools in hundredths. -/
def splitOutputs (pools : List LiquidityPool) (totalAmount : ℚ) : Set ℚ :=
  { x | ∃ k : LiquidityPool → ℕ, ∑ p ∈ pools.toFinset, k p = 100 ∧
    x = ∑ p ∈ pools.toFinset, p.output (k p * (totalAmount / 100)) }

theorem greedyAllocate_optimal {pools : List LiquidityPool} (hids : (pools.map (·.id)).Nodup)
    (hne : pools ≠ []) (htvl : ∀ p ∈ pools, 0 < p.tvl) (hfee : ∀ p ∈ pools, p.feeRate ≤ 1)
    {totalAmount : ℚ} (htotal : 0 < totalAmount) :
    ∃ allocations, greedyAllocate pools totalAmount = .ok allocations ∧
      (allocations.map (·.amountIn)).sum = totalAmount ∧
      (∀ a ∈ allocations, ∃ p ∈ pools, a.poolId = p.id ∧ a.expectedOutput = p.output a.amountIn) ∧
      IsGreatest (splitOutputs pools totalAmount) (totalOutput allocations) ∧
      ∀ p ∈ pools, p.output totalAmount ≤ totalOutput allocations := by
  have hstep : 0 < totalAmount / 100 := by positivity
  have htame : ∀ p ∈ pools, ¬p.Wild := fun p hp hwild => hwild.2.not_ge (hfee p hp)
  have houtput : ∀ p ∈ pools.toFinset, ∀ n,
      atOnce (totalAmount / 100) p n = p.output (n * (totalAmount / 100)) := fun p hp =>
    atOnce_eq_output hstep (htvl p (List.mem_toFinset.mp hp)) (hfee p (List.mem_toFinset.mp hp))
  obtain ⟨k, hsum, hk, hallocations⟩ := greedyAllocate_balanced hids hne htotal (.inl htame)
  have hmost : ∀ k' : LiquidityPool → ℕ, ∑ p ∈ pools.toFinset, k' p = 100 →
      ∑ p ∈ pools.toFinset, p.output (k' p * (totalAmount / 100)) ≤
        totalOutput (shares pools totalAmount k) := by
    intro k' hk'
    rw [hk.totalOutput hids htotal, ← Finset.sum_congr rfl fun p hp => houtput p hp (k' p)]
    exact hk.balanced.optimal (diminishing_atOnce hstep _) (hk'.trans hsum.symm)
  refine ⟨_, hallocations, ?_, fun a ha => ?_, ⟨⟨k, hsum, ?_⟩, ?_⟩, fun p hp => ?_⟩
  · rw [sum_shares hids totalAmount k (·.amountIn) (fun p => k p * (totalAmount / 100))
      (fun p hp => by rw [hp, Nat.cast_zero, zero_mul]) fun _ => rfl]
    rw [← Finset.sum_mul, ← Nat.cast_sum, hsum]
    push_cast
    ring
  · rw [shares, List.mem_insertionSort, List.mem_map] at ha
    obtain ⟨p, hp, rfl⟩ := ha
    have hmem : p ∈ pools := List.mem_of_mem_filter hp
    refine ⟨p, hmem, rfl, ?_⟩
    simp only [share, stepsWorth_eq hstep (htame p hmem)]
    exact houtput p (List.mem_toFinset.mpr hmem) (k p)
  · rw [hk.totalOutput hids htotal]
    exact Finset.sum_congr rfl fun p hp => houtput p hp (k p)
  · rintro x ⟨k', hk', rfl⟩
    exact hmost k' hk'
  · -- everything to `p`
    have hp' : p ∈ pools.toFinset := List.mem_toFinset.mpr hp
    have hall := hmost (fun q => if q = p then 100 else 0) (by simp [Finset.sum_ite_eq', hp])
    have hone : ∑ q ∈ pools.toFinset,
        q.output (((if q = p then 100 else 0 : ℕ) : ℚ) * (totalAmount / 100)) = p.output totalAmount := by
      rw [Finset.sum_eq_single p (fun q _ hq => by simp [hq]) fun hp'' => absurd hp' hp'']
      rw [if_pos rfl, Nat.cast_ofNat, mul_div_cancel₀ _ (by norm_num)]
    exact hone ▸ hall

/-- The registry row of a pool from XLM to USDC. -/
def splitPool (id : Uuid) (tvl : ℚ) : LiquidityPool where
  id := id
  name := "XLM/USDC"
  type := .stellarDex
  status := .active
  assetCodeA := "XLM"
  assetIssuerA := none
  assetCodeB := "USDC"
  assetIssuerB := none
  tvl := tvl
  feeRate := 3 / 1000
  volume24h := 0
  feeRevenue24h := 0

theorem two_pools_optimal :
    ∃ allocations, greedyAllocate [splitPool 0 1000, splitPool 1 4000] 100 = .ok allocations ∧
      IsGreatest (splitOutputs [splitPool 0 1000, splitPool 1 4000] 100) (totalOutput allocations) := by
  obtain ⟨allocations, hok, -, -, hbest, -⟩ :=
    greedyAllocate_optimal (show ([splitPool 0 1000, splitPool 1 4000].map (·.id)).Nodup by decide)
      (by simp) (by simp [splitPool]) (by norm_num [splitPool]) (show (0 : ℚ) < 100 by norm_num)
  exact ⟨allocations, hok, hbest⟩

/-! ## The pools that are not looked at -/

/-- The kept pools give as much as `p` alone: shared out in some way, or, when none of them is live,
through the first of them, which then gets every step. -/
def Covered (kept : List LiquidityPool) (amountIn : ℚ) (p : LiquidityPool) : Prop :=
  (∃ k : LiquidityPool → ℕ, ∑ q ∈ kept.toFinset, k q = 100 ∧
    simulateMarginalSwap p 0 amountIn ≤
      ∑ q ∈ kept.toFinset, simulateMarginalSwap q 0 (k q * (amountIn / 100))) ∨
  (∀ q ∈ kept, ¬q.Live) ∧ ∃ first ∈ kept.head?,
    simulateMarginalSwap p 0 amountIn ≤ stepsWorth (amountIn / 100) first 100

section Covers

variable {kept : List LiquidityPool} {amountIn : ℚ}

theorem stepsWorth_nonneg (stepSize : ℚ) (pool : LiquidityPool) (n : ℕ) : 0 ≤ stepsWorth stepSize pool n :=
  Finset.sum_nonneg fun _ _ => simulateMarginalSwap_nonneg ..

theorem covered_of_mem {p : LiquidityPool} (hp : p ∈ kept) : Covered kept amountIn p := by
  have hp' : p ∈ kept.toFinset := List.mem_toFinset.mpr hp
  refine .inl ⟨fun q => if q = p then 100 else 0, by simp [Finset.sum_ite_eq', hp], ?_⟩
  have hall : simulateMarginalSwap p 0 (((if p = p then 100 else 0 : ℕ) : ℚ) * (amountIn / 100)) =
      simulateMarginalSwap p 0 amountIn := by
    rw [if_pos rfl, Nat.cast_ofNat, mul_div_cancel₀ _ (by norm_num)]
  rw [← hall]
  exact Finset.single_le_sum
    (f := fun q => simulateMarginalSwap q 0 (((if q = p then 100 else 0 : ℕ) : ℚ) * (amountIn / 100)))
    (fun q _ => simulateMarginalSwap_nonneg ..) hp'

variable (hids : (kept.map (·.id)).Nodup) (hamount : 0 < amountIn)
include hids hamount

theorem greedyAllocate_of_not_live {first : LiquidityPool} (hfirst : kept.head? = some first)
    (hdead : ∀ q ∈ kept, ¬q.Live) :
    ∃ allocations, greedyAllocate kept amountIn = .ok allocations ∧
      totalOutput allocations = stepsWorth (amountIn / 100) first 100 := by
  have hstep : 0 < amountIn / 100 := by positivity
  have hmem : first ∈ kept := List.mem_of_head? hfirst
  obtain ⟨k, hsum, hk, hallocations⟩ :=
    greedyAllocate_run hids (List.ne_nil_of_mem hmem) hamount
      (P := fun k => ∀ q ∈ kept, q ≠ first → k q = 0) (fun _ _ _ => rfl) fun k best h hnext => by
        have hbest : best = first := by
          by_contra hne
          have hzero := first_step_of_not_live hstep (hdead best hnext.mem) (h best hnext.mem hne)
          rcases hnext.gives with hhead | hpos
          · exact hne (Option.some.inj (hhead.symm.trans hfirst))
          · exact hpos.ne' hzero
        subst hbest
        intro q hq hne
        rw [give_of_ne hne, h q hq hne]
  have hk0 : ∀ q ∈ kept.toFinset, q ≠ first → k q = 0 := fun q hq => hk q (List.mem_toFinset.mp hq)
  rw [Finset.sum_eq_single first hk0 fun h => absurd (List.mem_toFinset.mpr hmem) h] at hsum
  refine ⟨_, hallocations, ?_⟩
  rw [totalOutput_eq hids, Finset.sum_eq_single first (fun q hq hne => by rw [hk0 q hq hne, stepsWorth_zero])
    fun h => absurd (List.mem_toFinset.mpr hmem) h, hsum]

theorem greedyAllocate_covers (hne : kept ≠ []) :
    ∃ allocations, greedyAllocate kept amountIn = .ok allocations ∧
      ∀ p : LiquidityPool, simulateMarginalSwap p 0 amountIn ≤ totalOutput allocations ↔
        Covered kept amountIn p := by
  have hstep : 0 < amountIn / 100 := by positivity
  by_cases hlive : ∃ q ∈ kept, q.Live
  · obtain ⟨k, hsum, hk, hallocations⟩ := greedyAllocate_balanced hids hne hamount (.inr hlive)
    refine ⟨_, hallocations, fun p => ?_⟩
    rw [hk.totalOutput hids hamount]
    constructor
    · exact fun hle => .inl ⟨k, hsum, hle⟩
    · rintro (⟨k', hk', hle⟩ | ⟨hdead, -⟩)
      · exact hle.trans (hk.balanced.optimal (diminishing_atOnce hstep _) (hk'.trans hsum.symm))
      · obtain ⟨q, hq, hgives⟩ := hlive
        exact absurd hgives (hdead q hq)
  · have hdead : ∀ q ∈ kept, ¬q.Live := fun q hq hgives => hlive ⟨q, hq, hgives⟩
    obtain ⟨first, hfirst⟩ : ∃ first, kept.head? = some first :=
      Option.isSome_iff_exists.mp (List.isSome_head?.mpr hne)
    obtain ⟨allocations, hallocations, htotal⟩ := greedyAllocate_of_not_live hids hamount hfirst hdead
    refine ⟨allocations, hallocations, fun p => ?_⟩
    rw [htotal]
    constructor
    · exact fun hle => .inr ⟨hdead, first, hfirst, hle⟩
    · rintro (⟨k', -, hle⟩ | ⟨-, first', hfirst', hle⟩)
      · refine hle.trans ((Finset.sum_eq_zero fun q hq => ?_).trans_le (stepsWorth_nonneg ..))
        exact atOnce_of_not_live hstep (hdead q (List.mem_toFinset.mp hq)) (k' q)
      · rw [hfirst] at hfirst'
        exact Option.some.inj hfirst' ▸ hle

end Covers

theorem bestSinglePoolOutput_le {pools : List LiquidityPool} {amountIn bound : ℚ} (hbound : 0 ≤ bound)
    (h : ∀ p ∈ pools, simulateMarginalSwap p 0 amountIn ≤ bound) :
    bestSinglePoolOutput pools amountIn ≤ bound := by
  have hbest : bestSinglePoolOutput pools amountIn =
      firstBest id 0 (pools.map fun p => simulateMarginalSwap p 0 amountIn) := by
    rw [firstBest, List.foldl_map]
    rfl
  obtain ⟨hmem, -⟩ := firstBest_spec id 0 (pools.map fun p => simulateMarginalSwap p 0 amountIn)
  rw [← hbest] at hmem
  rcases List.mem_cons.mp hmem with heq | hmem
  · rw [heq]
    exact hbound
  · obtain ⟨p, hp, heq⟩ := List.mem_map.mp hmem
    rw [← heq]
    exact h p hp

theorem kept_distinct (t : Registry) (tokenIn : String) (tokenInIssuer : Option String)
    (tokenOut : String) (tokenOutIssuer : Option String) (numSplits : ℕ) :
    (((t.matching tokenIn tokenInIssuer tokenOut tokenOutIssuer).take numSplits).map (·.id)).Nodup :=
  t.distinct.sublist (((List.take_sublist ..).trans (List.filter_sublist ..)).map _)

/-- Against the pools it looks at, the split never loses. -/
theorem improvementOverSingle_nonneg (t : Registry) (tokenIn : String) (tokenInIssuer : Option String)
    (tokenOut : String) (tokenOutIssuer : Option String) {amountIn : ℚ} (hamount : 0 < amountIn)
    {numSplits : ℕ} {result : SplitRouteResult}
    (h : findOptimalSplit t tokenIn tokenInIssuer tokenOut tokenOutIssuer amountIn numSplits = .ok result) :
    0 ≤ result.improvementOverSingle := by
  have hdistinct := kept_distinct t tokenIn tokenInIssuer tokenOut tokenOutIssuer numSplits
  simp only [findOptimalSplit] at h
  set kept := (t.matching tokenIn tokenInIssuer tokenOut tokenOutIssuer).take numSplits
  split at h
  · cases h
    exact le_refl 0
  split at h
  · cases h
  next allocations hallocations =>
    cases h
    dsimp only
    split
    next hsingle =>
      have hne : kept ≠ [] := by
        intro hnil
        rw [hnil] at hsingle
        exact lt_irrefl 0 hsingle
      obtain ⟨allocations', hallocations', hcovers⟩ := greedyAllocate_covers hdistinct hamount hne
      obtain rfl := Except.ok.inj (hallocations.symm.trans hallocations')
      have hall : ∀ p ∈ kept, simulateMarginalSwap p 0 amountIn ≤ totalOutput allocations :=
        fun p hp => (hcovers p).mpr (covered_of_mem hp)
      obtain ⟨p, hp⟩ := List.exists_mem_of_ne_nil kept hne
      have hle := bestSinglePoolOutput_le ((simulateMarginalSwap_nonneg p 0 amountIn).trans (hall p hp)) hall
      have hgain : 0 ≤ totalOutput allocations - bestSinglePoolOutput kept amountIn := sub_nonneg.mpr hle
      positivity
    next => exact le_refl 0

theorem split_covers_iff (t : Registry) (tokenIn : String) (tokenInIssuer : Option String)
    (tokenOut : String) (tokenOutIssuer : Option String) {amountIn : ℚ} (hamount : 0 < amountIn)
    {numSplits : ℕ} (hsplits : 1 ≤ numSplits) :
    (∃ result, findOptimalSplit t tokenIn tokenInIssuer tokenOut tokenOutIssuer amountIn numSplits =
        .ok result ∧
      ∀ p ∈ t.matching tokenIn tokenInIssuer tokenOut tokenOutIssuer,
        simulateMarginalSwap p 0 amountIn ≤ result.totalExpectedOutput) ↔
    ∀ p ∈ (t.matching tokenIn tokenInIssuer tokenOut tokenOutIssuer).drop numSplits,
      Covered ((t.matching tokenIn tokenInIssuer tokenOut tokenOutIssuer).take numSplits) amountIn p := by
  set pools := t.matching tokenIn tokenInIssuer tokenOut tokenOutIssuer with hpools
  have hdistinct : ((pools.take numSplits).map (·.id)).Nodup := kept_distinct ..
  by_cases hempty : pools.length = 0
  · have hnil : pools = [] := List.length_eq_zero_iff.mp hempty
    have hok : findOptimalSplit t tokenIn tokenInIssuer tokenOut tokenOutIssuer amountIn numSplits =
        .ok ⟨tokenIn, tokenOut, amountIn, 0, 0, 0, 0, []⟩ := by
      rw [findOptimalSplit, ← hpools]
      exact if_pos hempty
    simp [hok, hnil]
  · have hne : pools.take numSplits ≠ [] := by
      rw [Ne, List.take_eq_nil_iff]
      exact fun h => h.elim (by omega) fun hnil => hempty (by rw [hnil]; rfl)
    obtain ⟨allocations, hallocations, hcovers⟩ := greedyAllocate_covers hdistinct hamount hne
    have hok : ∃ result, findOptimalSplit t tokenIn tokenInIssuer tokenOut tokenOutIssuer amountIn
        numSplits = .ok result ∧ result.totalExpectedOutput = totalOutput allocations := by
      rw [findOptimalSplit, ← hpools]
      simp only [if_neg hempty, hallocations, Except.ok.injEq, exists_eq_left']
    obtain ⟨result, hok, htotal⟩ := hok
    simp only [hok, Except.ok.injEq, exists_eq_left', htotal, hcovers]
    constructor
    · exact fun h p hp => h p (List.mem_of_mem_drop hp)
    · intro h p hp
      rw [← List.take_append_drop numSplits pools] at hp
      rcases List.mem_append.mp hp with hkept | hdropped
      · exact covered_of_mem hkept
      · exact h p hdropped

def shallowFirst : Registry where
  pools := [splitPool 0 10, splitPool 1 4000]
  nextId := 2
  distinct := by decide
  fresh := by decide

theorem both_pools_cover :
    ∃ result, findOptimalSplit shallowFirst "XLM" none "USDC" none 100 2 = .ok result ∧
      ∀ p ∈ shallowFirst.matching "XLM" none "USDC" none,
        simulateMarginalSwap p 0 100 ≤ result.totalExpectedOutput :=
  (split_covers_iff shallowFirst "XLM" none "USDC" none (show (0 : ℚ) < 100 by norm_num)
    (show 1 ≤ 2 by decide)).mpr fun _ hp => absurd (List.ne_nil_of_mem hp) (by decide +kernel)

theorem deep_pool_unseen :
    ∃ result ∈ (findOptimalSplit shallowFirst "XLM" none "USDC" none 100 1).toOption,
      ∃ p ∈ shallowFirst.matching "XLM" none "USDC" none,
        result.totalExpectedOutput < simulateMarginalSwap p 0 100 := by
  decide +kernel

end Liquidity
end TradeCore
