import TradeCore.Liquidity.Simulator

/-!
# TradeCore.Liquidity.SimulatedSteps

The steps that `simulateRoute` reports, against the assets of the route. The first pool is taken from its
asset A to its asset B whatever the route says; from the second one on `determineOutputAsset` and
`determineInputAsset` are given the same asset and return the same one, so that a step is reported to
consume what it produces (`simulateRoute_chain_iff`).
-/

namespace TradeCore
namespace Liquidity

open Lib

/-- The pools connect the assets one after the other, each pool listing its two in either order. -/
def Connects : List String → List LiquidityPool → Prop
  | [_], [] => True
  | tokenIn :: tokenOut :: assets, pool :: pools =>
    (pool.assetCodeA = tokenIn ∧ pool.assetCodeB = tokenOut ∨
      pool.assetCodeA = tokenOut ∧ pool.assetCodeB = tokenIn) ∧ Connects (tokenOut :: assets) pools
  | _, _ => False

/-- Every step goes from one asset to the next one and takes what the step before it gave. -/
def ChainAlong : ℚ → List String → List SimulationStep → Prop
  | _, _, [] => True
  | amount, tokenIn :: tokenOut :: assets, step :: steps =>
    step.tokenIn = tokenIn ∧ step.tokenOut = tokenOut ∧ step.amountIn = amount ∧
      ChainAlong step.amountOut (tokenOut :: assets) steps
  | _, _, _ => False

instance decidableConnects : (assets : List String) → (pools : List LiquidityPool) →
    Decidable (Connects assets pools)
  | [], [] => isFalse fun h => h
  | [], _ :: _ => isFalse fun h => h
  | [_], [] => isTrue trivial
  | [_], _ :: _ => isFalse fun h => h
  | _ :: _ :: _, [] => isFalse fun h => h
  | _ :: tokenOut :: assets, _ :: pools =>
    have := decidableConnects (tokenOut :: assets) pools
    inferInstanceAs (Decidable (_ ∧ _))

instance decidableChainAlong : (amount : ℚ) → (assets : List String) → (steps : List SimulationStep) →
    Decidable (ChainAlong amount assets steps)
  | _, [], [] => isTrue trivial
  | _, [_], [] => isTrue trivial
  | _, _ :: _ :: _, [] => isTrue trivial
  | _, [], _ :: _ => isFalse fun h => h
  | _, [_], _ :: _ => isFalse fun h => h
  | _, _ :: tokenOut :: assets, step :: steps =>
    have := decidableChainAlong step.amountOut (tokenOut :: assets) steps
    inferInstanceAs (Decidable (_ ∧ _ ∧ _ ∧ _))

/-- The pools that get a step: up to the first one without liquidity. -/
def reported : List LiquidityPool → List LiquidityPool
  | [] => []
  | pool :: pools => if pool.tvl ≤ 0 then [pool] else pool :: reported pools

/-! ## The steps of the loop -/

theorem simulateHops_append (pools : List LiquidityPool) (s : SimState) :
    ∃ later, (simulateHops pools s).steps = s.steps ++ later := by
  induction pools generalizing s with
  | nil => exact ⟨[], (List.append_nil _).symm⟩
  | cons pool pools ih =>
    rw [simulateHops]
    split
    · exact ⟨_, rfl⟩
    · obtain ⟨later, hlater⟩ := ih _
      exact ⟨_ :: later, hlater.trans (List.append_assoc ..)⟩

theorem simulateHops_cons (pool : LiquidityPool) (pools : List LiquidityPool) (s : SimState) :
    ∃ step s' later, step.tokenIn = previousAsset pool s.steps ∧ step.tokenOut = nextAsset pool s.steps ∧
      step.amountIn = s.currentAmount ∧ s'.steps = s.steps ++ [step] ∧
      s'.currentAmount = step.amountOut ∧ (simulateHops (pool :: pools) s).steps = s.steps ++ step :: later ∧
      if pool.tvl ≤ 0 then later = [] else (simulateHops pools s').steps = s'.steps ++ later := by
  rw [simulateHops]
  by_cases htvl : pool.tvl ≤ 0
  · simp only [if_pos htvl]
    exact ⟨_, ⟨0, s.totalFees, s.cumulativeImpact, _⟩, [], rfl, rfl, rfl, rfl, rfl, rfl, rfl⟩
  · simp only [if_neg htvl]
    obtain ⟨later, hlater⟩ := simulateHops_append pools _
    exact ⟨_, _, later, rfl, rfl, rfl, rfl, rfl, hlater.trans (List.append_assoc ..), hlater⟩

theorem assets_right_iff {pool : LiquidityPool} {tokenIn tokenOut : String}
    (h : pool.assetCodeA = tokenIn ∧ pool.assetCodeB = tokenOut ∨
      pool.assetCodeA = tokenOut ∧ pool.assetCodeB = tokenIn) :
    (determineOutputAsset pool tokenIn = tokenIn ∧ determineInputAsset pool tokenIn = tokenOut) ↔
      pool.assetCodeA = pool.assetCodeB := by
  unfold determineOutputAsset determineInputAsset
  rcases h with ⟨hA, hB⟩ | ⟨hA, hB⟩
  · rw [hA, hB, if_pos rfl]
    exact ⟨fun h => h.1.symm, fun h => ⟨h.symm, rfl⟩⟩
  · rw [hA, hB]
    by_cases heq : tokenOut = tokenIn
    · simp [heq]
    · rw [if_neg heq]
      exact ⟨fun h => h.1, fun h => ⟨h, rfl⟩⟩

theorem later_chain_iff {pools : List LiquidityPool} {s : SimState} {last : SimulationStep}
    (hlast : s.steps.getLast? = some last) {assets : List String}
    (h : Connects (last.tokenOut :: assets) pools) {later : List SimulationStep}
    (hlater : (simulateHops pools s).steps = s.steps ++ later) :
    ChainAlong s.currentAmount (last.tokenOut :: assets) later ↔
      ∀ p ∈ reported pools, p.assetCodeA = p.assetCodeB := by
  induction pools generalizing s last assets later with
  | nil =>
    rw [List.self_eq_append_right.mp hlater]
    exact iff_of_true trivial (by simp [reported])
  | cons pool pools ih =>
    cases assets with
    | nil => exact h.elim
    | cons tokenOut assets =>
      obtain ⟨hpool, hrest⟩ := h
      obtain ⟨step, s', later', hin, hout, hamount, hsteps, hcurrent, hall, hnext⟩ :=
        simulateHops_cons pool pools s
      simp only [previousAsset, nextAsset, hlast] at hin hout
      have hsplit : later = step :: later' := List.append_cancel_left (hlater.symm.trans hall)
      rw [hsplit, ChainAlong]
      by_cases hsame : pool.assetCodeA = pool.assetCodeB
      · obtain ⟨hright, hright'⟩ := (assets_right_iff hpool).mpr hsame
        have htoken : step.tokenOut = tokenOut := hout.trans hright'
        simp only [hin.trans hright, htoken, hamount, true_and]
        by_cases htvl : pool.tvl ≤ 0
        · rw [if_pos htvl] at hnext
          rw [hnext, reported, if_pos htvl]
          exact iff_of_true trivial (by simp [hsame])
        · rw [if_neg htvl] at hnext
          have hlast' : s'.steps.getLast? = some step := by rw [hsteps, List.getLast?_concat]
          rw [← htoken] at hrest ⊢
          rw [← hcurrent, ih hlast' hrest hnext, reported, if_neg htvl, List.forall_mem_cons]
          exact ⟨fun h => ⟨hsame, h⟩, fun h => h.2⟩
      · have hmem : pool ∈ reported (pool :: pools) := by
          unfold reported
          split <;> simp
        refine iff_of_false (fun h => hsame ?_) fun h => hsame (h pool hmem)
        exact (assets_right_iff hpool).mp ⟨hin.symm.trans h.1, hout.symm.trans h.2.1⟩

/-! ## Routes that visit no asset twice -/

theorem Connects.codes_ne {assets : List String} {pools : List LiquidityPool} (h : Connects assets pools)
    (hdistinct : assets.Nodup) : ∀ p ∈ pools, p.assetCodeA ≠ p.assetCodeB := by
  induction pools generalizing assets with
  | nil => simp
  | cons pool pools ih =>
    match assets, h with
    | tokenIn :: tokenOut :: assets, ⟨hpool, hrest⟩ =>
      obtain ⟨hin, hdistinct⟩ := List.nodup_cons.mp hdistinct
      have hne : tokenIn ≠ tokenOut := fun heq => hin (by simp [heq])
      refine List.forall_mem_cons.mpr ⟨?_, ih hrest hdistinct⟩
      rcases hpool with ⟨hA, hB⟩ | ⟨hA, hB⟩
      · rw [hA, hB]
        exact hne
      · rw [hA, hB]
        exact hne.symm

theorem mem_of_mem_reported {pools : List LiquidityPool} {p : LiquidityPool} (h : p ∈ reported pools) :
    p ∈ pools := by
  induction pools with
  | nil => exact h
  | cons pool pools ih =>
    unfold reported at h
    split at h
    · simpa using Or.inl (List.mem_singleton.mp h)
    · exact (List.mem_cons.mp h).elim (fun heq => by simp [heq]) fun hmem => by simp [ih hmem]

theorem tail_same_iff {assets : List String} {pools : List LiquidityPool} (h : Connects assets pools)
    (hdistinct : assets.Nodup) :
    (∀ p ∈ (reported pools).tail, p.assetCodeA = p.assetCodeB) ↔ (reported pools).tail = [] := by
  refine ⟨fun hsame => ?_, fun hnil => by simp [hnil]⟩
  refine List.eq_nil_iff_forall_not_mem.mpr fun p hp => ?_
  exact h.codes_ne hdistinct p (mem_of_mem_reported (List.mem_of_mem_tail hp)) (hsame p hp)

/-! ## The chain -/

theorem first_chain_iff {pool : LiquidityPool} {pools : List LiquidityPool} {assets : List String}
    (h : Connects assets (pool :: pools)) (amountIn : ℚ) :
    ChainAlong amountIn assets (simulateHops (pool :: pools) ⟨amountIn, 0, 1, []⟩).steps ↔
      assets.head? = some pool.assetCodeA ∧
        ∀ p ∈ (reported (pool :: pools)).tail, p.assetCodeA = p.assetCodeB := by
  match assets, h with
  | tokenIn :: tokenOut :: assets, ⟨hpool, hrest⟩ =>
    obtain ⟨step, s', later, hin, hout, hamount, hsteps, hcurrent, hall, hnext⟩ :=
      simulateHops_cons pool pools ⟨amountIn, 0, 1, []⟩
    change step.tokenIn = pool.assetCodeA at hin
    change step.tokenOut = pool.assetCodeB at hout
    rw [hall, List.nil_append, ChainAlong, hin, hout, hamount]
    simp only [List.head?_cons, Option.some.injEq, true_and]
    have hboth : pool.assetCodeA = tokenIn ∧ pool.assetCodeB = tokenOut ↔ tokenIn = pool.assetCodeA := by
      constructor
      · exact fun h => h.1.symm
      · rintro rfl
        rcases hpool with h | ⟨hA, hB⟩
        · exact h
        · exact ⟨rfl, hB.trans hA⟩
    rw [← and_assoc, hboth]
    refine and_congr_right fun hfirst => ?_
    have htoken : step.tokenOut = tokenOut := hout.trans (hboth.mpr hfirst).2
    by_cases htvl : pool.tvl ≤ 0
    · rw [if_pos htvl] at hnext
      rw [hnext, reported, if_pos htvl]
      exact iff_of_true trivial (by simp)
    · rw [if_neg htvl] at hnext
      have hlast : s'.steps.getLast? = some step := by rw [hsteps, List.getLast?_concat]
      rw [← htoken] at hrest ⊢
      rw [← hcurrent, later_chain_iff hlast hrest hnext, reported, if_neg htvl, List.tail_cons]

theorem simulateRoute_steps {t : Registry} {now : Time} {poolPath : List Uuid}
    {pools : List LiquidityPool} (hpools : loadPools t poolPath = .ok pools) {amountIn : ℚ}
    {minAmountOut : Option ℚ} {r : SimulationResult}
    (h : simulateRoute t now poolPath amountIn minAmountOut = .ok r) :
    pools ≠ [] ∧ r.steps = (simulateHops pools ⟨amountIn, 0, 1, []⟩).steps := by
  unfold simulateRoute at h
  split at h
  · cases h
  · rename_i hpath
    rw [hpools] at h
    cases h
    refine ⟨fun hnil => hpath ?_, rfl⟩
    rw [← (loadPools_ok hpools).1, hnil]
    rfl

theorem simulateRoute_chain_iff {t : Registry} {now : Time} {poolPath : List Uuid}
    {pools : List LiquidityPool} (hpools : loadPools t poolPath = .ok pools) {assets : List String}
    (hassets : Connects assets pools) {amountIn : ℚ} {minAmountOut : Option ℚ} {r : SimulationResult}
    (h : simulateRoute t now poolPath amountIn minAmountOut = .ok r) :
    (ChainAlong amountIn assets r.steps ↔
      assets.head? = pools.head?.map (·.assetCodeA) ∧
        ∀ p ∈ (reported pools).tail, p.assetCodeA = p.assetCodeB) ∧
    (assets.Nodup → (ChainAlong amountIn assets r.steps ↔
      assets.head? = pools.head?.map (·.assetCodeA) ∧ (reported pools).tail = [])) := by
  obtain ⟨hne, hsteps⟩ := simulateRoute_steps hpools h
  have hchain : ChainAlong amountIn assets r.steps ↔
      assets.head? = pools.head?.map (·.assetCodeA) ∧
        ∀ p ∈ (reported pools).tail, p.assetCodeA = p.assetCodeB := by
    rw [hsteps]
    cases pools with
    | nil => exact absurd rfl hne
    | cons pool pools => exact first_chain_iff hassets amountIn
  exact ⟨hchain, fun hdistinct => hchain.trans (and_congr_right fun _ => tail_same_iff hassets hdistinct)⟩

theorem liquidSimulation_chain : ChainAlong 100 ["XLM", "USDC"] liquidSimulation.steps := by
  have hpools : loadPools searchedOnce.registry [0] = .ok searchedOnce.registry.pools := by
    decide +kernel
  have hr : simulateRoute searchedOnce.registry 5 [0] 100 none = .ok liquidSimulation := by
    decide +kernel
  exact (simulateRoute_chain_iff hpools (by decide +kernel) hr).1.mpr (by decide +kernel)

/-- Two pools that take XLM to USDC over yXLM, each listing its input first. -/
def twoHops : Registry where
  pools :=
    [⟨0, "XLM/yXLM", .stellarDex, .active, "XLM", none, "yXLM", none, 1000, 3 / 1000, 0, 0⟩,
      ⟨1, "yXLM/USDC", .stellarDex, .active, "yXLM", none, "USDC", none, 1000, 3 / 1000, 0, 0⟩]
  nextId := 2
  distinct := by decide
  fresh := by decide

theorem second_step_stands_still :
    Connects ["XLM", "yXLM", "USDC"] twoHops.pools ∧
      ∃ r ∈ (simulateRoute twoHops 5 [0, 1] 100 none).toOption,
        r.steps.map (fun step => (step.tokenIn, step.tokenOut)) = [("XLM", "yXLM"), ("USDC", "USDC")] ∧
        ¬ChainAlong 100 ["XLM", "yXLM", "USDC"] r.steps := by
  decide +kernel

end Liquidity
end TradeCore
