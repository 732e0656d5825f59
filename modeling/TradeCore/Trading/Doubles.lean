import TradeCore.Trading.Admission
import TradeCore.Trading.Crossing
import TradeCore.Trading.Rounding

/-!
# TradeCore.Trading.Doubles

The engine as it computes, with doubles and with columns of seven decimals: what the runs keep in which no
number is rounded, and where they break it.

* `limits_uncrossed_of_visible`, `fills_agree_of_current`: interleaved calls.
* `agrees_iff_committed`, `market_books_uncrossed`, `statuses_iff_clean`, `positive_iff_sound`: runs of
  whole calls.

Each is the result of the module it comes from, carried over by `along_engine_exact` and
`along_step_exact`, and each is followed by a run that breaks what it says where no rounding is to blame.
-/

namespace TradeCore
namespace Trading

open Lib Lib.Doubles

section Interleaved

variable [ArraySort] {acts : List (Act Env CallOp)}
  (hexact : Along engine.step UnroundedStep (Conf.init State.empty) acts)
include hexact

theorem along_engine_iff {G : Conf State Call (Except HttpError Unit) → Act Env CallOp → Prop} :
    Along engine.step G (Conf.init State.empty) acts ↔
      Along (@engine Exact.arithmetic _).step G (Conf.init State.empty) acts :=
  along_congr ((along_engine_exact hexact).mono fun _ _ he => ⟨he, .rfl⟩)

theorem run_engine_exact {as : List (Act Env CallOp)} (h : as <+: acts) :
    run engine.step (Conf.init State.empty) as =
      run (@engine Exact.arithmetic _).step (Conf.init State.empty) as := by
  obtain ⟨bs, rfl⟩ := h
  exact run_congr (along_append.mp (along_engine_exact hexact)).1

end Interleaved

section Sequential

variable [ArraySort] {ops : List Op} (hexact : Along step Unrounded State.empty ops)
include hexact

theorem along_step_iff {G H : State → Op → Prop}
    (hG : ∀ st op, Kept (fun _ _ => True) st → Unrounded st op → (G st op ↔ H st op)) :
    Along step G State.empty ops ↔ Along (@step Exact.arithmetic _) H State.empty ops :=
  along_congr ((along_unrounded hexact).mono fun st op h =>
    ⟨step_exact h.1 h.2.1 h.2.2, hG st op h.1 h.2.2⟩)

end Sequential

/-! ## Interleaved calls -/

open Lib.Insertion

/-- Interleaved calls in which nothing is rounded. -/
abbrev UnroundedActs : Type :=
  { acts : List (Act Env CallOp) // Along engine.step UnroundedStep (Conf.init State.empty) acts }

/-- Whole calls in which nothing is rounded. -/
abbrev UnroundedOps : Type := { ops : List Op // Along step Unrounded State.empty ops }

/-- **Limit orders do not cross once all calls have completed**, in the interleavings without rounding
that let every limit order see what it crosses. -/
theorem limits_uncrossed_of_visible [ArraySort] {acts : List (Act Env CallOp)}
    (hexact : Along engine.step UnroundedStep (Conf.init State.empty) acts)
    (hG : Along engine.step VisibleStep (Conf.init State.empty) acts) :
    Always engine.step (fun c => c.Quiet → LimitsUncrossed c.shared) (Conf.init State.empty) acts :=
  (always_congr (along_engine_exact hexact)).mpr
    (always_limitsUncrossed acts ((along_engine_iff hexact).mp hG))

/-- A bid of 100 and an ask of 90, one call after the other. -/
def serialRun : UnroundedActs :=
  ⟨[.spawn (.createOrder 1 (orderDto .buy .limit 10 (some 100))),
    sched 0, sched 0, sched 0, sched 0,
    .spawn (.createOrder 2 (orderDto .sell .limit 4 (some 90))),
    sched 1, sched 1, sched 1, sched 1], by decide +kernel⟩

theorem serialRun_uncrossed :
    Always engine.step (fun c => c.Quiet → LimitsUncrossed c.shared) (Conf.init State.empty) serialRun.val ∧
      (run engine.step (Conf.init State.empty) serialRun.val).Quiet ∧
      (run engine.step (Conf.init State.empty) serialRun.val).shared.db.trades.length = 1 :=
  ⟨limits_uncrossed_of_visible serialRun.property (by decide +kernel), by decide +kernel,
    by decide +kernel⟩

/-- The same two orders, each matched before the other is in the book. -/
def blindRun : List (Act Env CallOp) :=
  [.spawn (.createOrder 1 (orderDto .buy .limit 10 (some 100))),
    .spawn (.createOrder 2 (orderDto .sell .limit 4 (some 90))),
    sched 0, sched 1, sched 0, sched 1,
    sched 0, sched 1, sched 0, sched 1]

/-- Both calls succeed, and the bid of 100 and the ask of 90 rest in one book. -/
theorem blind_orders_cross : (run engine.step (Conf.init State.empty) blindRun).Quiet ∧
    ¬ LimitsUncrossed (run engine.step (Conf.init State.empty) blindRun).shared := by
  refine ⟨by decide +kernel, fun h => ?_⟩
  have hbid : createOrder.order 0 1 (orderDto .buy .limit 10 (some 100)) ∈ bookSide
      (run engine.step (Conf.init State.empty) blindRun).shared.orderBooks "XLM" .buy := by
    decide +kernel
  have hask : createOrder.order 1 2 (orderDto .sell .limit 4 (some 90)) ∈ bookSide
      (run engine.step (Conf.init State.empty) blindRun).shared.orderBooks "XLM" .sell := by
    decide +kernel
  have hlt : (100 : ℚ) < 90 := h "XLM" _ hbid _ hask rfl rfl 100 90 rfl rfl
  exact absurd hlt (by decide +kernel)

/-- **The rows agree with the trades whenever no call is in flight, and a closed order is not filled
again**, in the interleavings without rounding that write back no stale copy. -/
theorem fills_agree_of_current [ArraySort] {acts : List (Act Env CallOp)}
    (hexact : Along engine.step UnroundedStep (Conf.init State.empty) acts)
    (hG : Along engine.step CurrentStep (Conf.init State.empty) acts) :
    Always engine.step (fun c => c.Quiet → FillsAgree c.shared) (Conf.init State.empty) acts ∧
      ∀ as bs, as ++ bs <+: acts → Frozen (run engine.step (Conf.init State.empty) as).shared
        (run engine.step (Conf.init State.empty) (as ++ bs)).shared := by
  obtain ⟨hagree, hfrozen⟩ := always_fillsAgree acts ((along_engine_iff hexact).mp hG)
  refine ⟨(always_congr (along_engine_exact hexact)).mpr hagree, fun as bs hprefix => ?_⟩
  rw [run_engine_exact hexact hprefix, run_engine_exact hexact ((List.prefix_append as bs).trans hprefix)]
  exact hfrozen as bs hprefix

/-- An ask, a bid that takes half of it, and the cancellation of the rest. -/
def currentRun : UnroundedActs :=
  ⟨[.spawn (.createOrder 1 (orderDto .sell .limit 10 (some 100))), sched 0, sched 0, sched 0, sched 0,
    .spawn (.createOrder 2 (orderDto .buy .limit 5 (some 100))), sched 1, sched 1, sched 1, sched 1,
    .spawn (.cancelOrder 0 1), sched 2, sched 2, sched 2, sched 2], by decide +kernel⟩

theorem currentRun_fills_agree :
    (Always engine.step (fun c => c.Quiet → FillsAgree c.shared) (Conf.init State.empty) currentRun.val ∧
      ∀ as bs, as ++ bs <+: currentRun.val → Frozen (run engine.step (Conf.init State.empty) as).shared
        (run engine.step (Conf.init State.empty) (as ++ bs)).shared) ∧
      (run engine.step (Conf.init State.empty) currentRun.val).Quiet ∧
      ((run engine.step (Conf.init State.empty) currentRun.val).shared.db.order? 0).map OrderRow.fill =
        some ⟨5, .cancelled⟩ :=
  ⟨fills_agree_of_current currentRun.property (by decide +kernel), by decide +kernel, by decide +kernel⟩

/-- A cancellation reads the ask, a bid takes all of it, and the cancellation writes its copy. -/
def staleRun : List (Act Env CallOp) :=
  [.spawn (.createOrder 1 (orderDto .sell .limit 10 (some 100))), sched 0, sched 0, sched 0, sched 0,
    .spawn (.cancelOrder 0 1), sched 1,
    .spawn (.createOrder 2 (orderDto .buy .limit 10 (some 100))), sched 2, sched 2, sched 2, sched 2,
    sched 1, sched 1, sched 1]

/-- An ask is cancelled between its first save and its match. -/
def cancelledRun : List (Act Env CallOp) :=
  [.spawn (.createOrder 1 (orderDto .sell .limit 10 (some 100))), sched 0,
    .spawn (.cancelOrder 0 1), sched 1, sched 1, sched 1, sched 1]

/-- The ask comes to rest, and a bid takes it. -/
def resurrectedRun : List (Act Env CallOp) :=
  [sched 0, sched 0, sched 0,
    .spawn (.createOrder 2 (orderDto .buy .limit 10 (some 100))), sched 2, sched 2, sched 2, sched 2]

/-- The row of a fully traded ask says CANCELLED and nothing filled, and a CANCELLED ask is filled. -/
theorem stale_copies_misreport :
    ((run engine.step (Conf.init State.empty) staleRun).Quiet ∧
      ¬ FillsAgree (run engine.step (Conf.init State.empty) staleRun).shared) ∧
    ¬ Frozen (run engine.step (Conf.init State.empty) cancelledRun).shared
      (run engine.step (Conf.init State.empty) (cancelledRun ++ resurrectedRun)).shared := by
  refine ⟨⟨by decide +kernel, by decide +kernel⟩, fun h => ?_⟩
  have hcancelled : (run engine.step (Conf.init State.empty) cancelledRun).shared.db.order? 0 =
      some ⟨createOrder.order 0 1 (orderDto .sell .limit 10 (some 100)), ⟨0, .cancelled⟩⟩ := by
    decide +kernel
  have hfilled : (run engine.step (Conf.init State.empty)
      (cancelledRun ++ resurrectedRun)).shared.db.order? 0 =
      some ⟨createOrder.order 0 1 (orderDto .sell .limit 10 (some 100)), ⟨10, .filled⟩⟩ := by
    decide +kernel
  obtain ⟨-, -, row, hrow, hclosed, -⟩ := h 0 _ hcancelled (by simp [closedStatuses])
  rw [hfilled] at hrow
  cases hrow
  exact absurd hclosed (by simp [closedStatuses])

/-! ## Runs of whole calls -/

/-- **The books and the table agree after every call exactly when no transaction fails**, in the runs
without rounding. -/
theorem agrees_iff_committed [ArraySort] {ops : List Op}
    (hexact : Along step Unrounded State.empty ops) :
    Always step Agrees State.empty ops ↔ Along step Committed State.empty ops := by
  rw [always_congr (along_step_exact hexact), always_agrees_iff]
  exact (along_step_iff hexact fun st op hk hu => committed_exact hk hu).symm

/-- An ask of which a bid takes a part, an order that is not saved, and the cancellation of the ask. -/
def committedRun : UnroundedOps :=
  ⟨[.createOrder 1 (orderDto .sell .limit 10 (some 100)) 0 none,
    .createOrder 2 (orderDto .buy .limit 4 (some 100)) 0 none,
    .createOrder 2 (orderDto .buy .limit 1 (some 90)) 0 (some .save),
    .cancelOrder 0 1], by decide +kernel⟩

theorem committedRun_agrees : Always step Agrees State.empty committedRun.val ∧
    ((run step State.empty committedRun.val).db.order? 0).map OrderRow.fill = some ⟨4, .cancelled⟩ :=
  ⟨(agrees_iff_committed committedRun.property).mpr ⟨fun _ _ => by decide +kernel,
    fun _ _ => by decide +kernel, fun _ h => absurd rfl h, trivial, trivial⟩, by decide +kernel⟩

/-- A resting ask, and a market order that takes it in a transaction that fails. -/
def failedRun : List Op :=
  [.createOrder 1 (orderDto .sell .limit 10 (some 100)) 0 none,
    .createOrder 2 (orderDto .buy .market 10 none) 0 (some .transaction)]

/-- The ask is out of the book and filled in memory, and OPEN with nothing filled in the table. -/
theorem failed_transaction_disagrees : ¬ Always step Agrees State.empty failedRun := by
  intro h
  have hrow : (⟨createOrder.order 0 1 (orderDto .sell .limit 10 (some 100)), ⟨0, .open⟩⟩ : OrderRow) ∈
      (run step State.empty failedRun).db.orders := by decide +kernel
  have hbook : bookSide (run step State.empty failedRun).orderBooks "XLM" .sell = [] := by
    decide +kernel
  have hcount := h.last.listed _ hrow (by simp [openStatuses])
  change (bookSide (run step State.empty failedRun).orderBooks "XLM" .sell).count _ = 1 at hcount
  rw [hbook] at hcount
  cases hcount

/-- **Runs without rounding that leave no order without a price over keep the books uncrossed and price
every trade.** -/
theorem market_books_uncrossed [ArraySort] {ops : List Op}
    (hexact : Along step Unrounded State.empty ops) (hdeep : Along step Deep State.empty ops) :
    Along step TradesPriced State.empty ops ∧ Always step Uncrossed State.empty ops := by
  have hpriced := along_step_iff hexact (G := TradesPriced) (H := @TradesPriced Exact.arithmetic)
    fun st op hk hu => by
      unfold TradesPriced
      rw [produced_exact hk hu]
  rw [hpriced, always_congr (along_step_exact hexact)]
  exact books_uncrossed_of_deep (fun _ _ => rfl) ops
    ((along_step_iff hexact fun _ _ _ _ => .rfl).mp hdeep)

/-- A market order that finds what it asks for. -/
def deepRun : UnroundedOps :=
  ⟨[.createOrder 1 (orderDto .sell .limit 5 (some 90)) 0 none,
    .createOrder 2 (orderDto .buy .market 3 none) 0 none], by decide +kernel⟩

theorem deepRun_uncrossed :
    Along step TradesPriced State.empty deepRun.val ∧ Always step Uncrossed State.empty deepRun.val :=
  market_books_uncrossed deepRun.property
    ⟨⟨by decide +kernel, fun _ _ h => by cases h⟩,
      ⟨by decide +kernel, fun _ _ _ _ => by decide +kernel⟩, trivial⟩

/-- An ask of .2, one of 1, and a bid of .9 that takes the first and a part of the second. -/
def roundedRun : List Op :=
  [.createOrder 1 (orderDto .sell .limit (1 / 5) (some 100)) 0 none,
    .createOrder 2 (orderDto .sell .limit 1 (some 100)) 0 none,
    .createOrder 3 (orderDto .buy .limit (9 / 10) (some 100)) 0 none]

/-- What is filled of the bid is rounded to a little less than .9, so the bid comes to rest against the
ask that is left. -/
example : ((run step State.empty roundedRun).fills 2).filledQuantity = 8999999999999999 / 10 ^ 16 := by
  decide +kernel

/-- A market order is left over, a bid of 100 comes to stand behind it, and an ask of 90 stops at
the market order. -/
def shieldRun : List Op :=
  [.createOrder 1 (orderDto .buy .market 5 none) 0 none,
    .createOrder 2 (orderDto .buy .limit 5 (some 100)) 0 none,
    .createOrder 3 (orderDto .sell .limit 5 (some 90)) 0 none]

def unpricedRun : List Op :=
  [.createOrder 1 (orderDto .buy .market 5 none) 0 none,
    .createOrder 2 (orderDto .sell .market 5 none) 0 none]

/-- The bid of 100 and the ask of 90 rest in one book, and the trade of two market orders has no
price. -/
theorem resting_market_shields : ¬ Always step Uncrossed State.empty shieldRun ∧
    ¬ Along step TradesPriced State.empty unpricedRun := by
  refine ⟨fun h => ?_, fun h => ?_⟩
  · have hbid : createOrder.order 1 2 (orderDto .buy .limit 5 (some 100)) ∈
        bookSide (run step State.empty shieldRun).orderBooks "XLM" .buy := by decide +kernel
    have hask : createOrder.order 2 3 (orderDto .sell .limit 5 (some 90)) ∈
        bookSide (run step State.empty shieldRun).orderBooks "XLM" .sell := by decide +kernel
    have hlt : (100 : ℚ) < 90 := h.last "XLM" _ hbid _ hask 100 90 rfl rfl
    exact absurd hlt (by decide +kernel)
  · have htrade : tradeOf (createOrder.order 1 2 (orderDto .sell .market 5 none))
        (createOrder.order 0 1 (orderDto .buy .market 5 none)) 5 ∈
        ((createOrder.save (run step State.empty (unpricedRun.take 1))
          (createOrder.order 1 2 (orderDto .sell .market 5 none))).matchOrder
          (createOrder.order 1 2 (orderDto .sell .market 5 none))).trades := by decide +kernel
    obtain ⟨x, p, -, -, -, hp⟩ := h.2.1 _ htrade
    cases hp

/-- **The statuses are right after every call exactly when every new order ends clean**, in the runs
without rounding. -/
theorem statuses_iff_clean [ArraySort] {ops : List Op}
    (hexact : Along step Unrounded State.empty ops) (hops : ∀ op ∈ ops, op.Positive) :
    Always step Statuses State.empty ops ↔ Along step EndsClean State.empty ops := by
  rw [always_congr (along_step_exact hexact), always_statuses_iff hops]
  exact (along_step_iff hexact fun _ _ _ _ => .rfl).symm

/-- An ask that is filled by two bids, the second time by more than is left of it; the rest of that
bid is then filled in part by another ask. -/
def cleanRun : UnroundedOps :=
  ⟨[.createOrder 1 (orderDto .sell .limit 10 (some 100)) 0 none,
    .createOrder 2 (orderDto .buy .limit 14 (some 100)) 0 none,
    .createOrder 3 (orderDto .sell .market 3 none) 0 none], by decide +kernel⟩

theorem cleanRun_statuses : Always step Statuses State.empty cleanRun.val :=
  (statuses_iff_clean cleanRun.property (by decide +kernel)).mpr ⟨fun _ _ => by decide +kernel,
    fun _ _ => by decide +kernel, fun _ _ => by decide +kernel, trivial⟩

def partialRun : List Op :=
  [.createOrder 1 (orderDto .sell .limit 10 (some 100)) 0 none,
    .createOrder 2 (orderDto .buy .market 4 none) 0 none]

/-- The ask has 4 filled and is stored as OPEN. -/
theorem partial_maker_stays_open :
    (∀ op ∈ partialRun, op.Positive) ∧ ¬ Always step Statuses State.empty partialRun := by
  refine ⟨by decide +kernel, fun h => ?_⟩
  have hrow : (⟨createOrder.order 0 1 (orderDto .sell .limit 10 (some 100)), ⟨4, .open⟩⟩ : OrderRow) ∈
      (run step State.empty partialRun).db.orders := by decide +kernel
  have hagree := (h.last _ hrow).2 (by simp [closedStatuses])
  exact absurd (hagree.opened.mp rfl) (by decide +kernel)

/-- **The trades of a run without rounding are positive and its fills within their quantities exactly
when every call is sound.** -/
theorem positive_iff_sound [ArraySort] {ops : List Op}
    (hexact : Along step Unrounded State.empty ops) :
    Along step TradesPositive State.empty ops ∧ Always step FillsWithin State.empty ops ↔
      Along step Sound State.empty ops := by
  have hpositive := along_step_iff hexact (G := TradesPositive) (H := @TradesPositive Exact.arithmetic)
    fun st op hk hu => by
      unfold TradesPositive
      rw [produced_exact hk hu]
  rw [hpositive, always_congr (along_step_exact hexact), along_positive_iff]
  exact (along_step_iff hexact fun _ _ _ _ => .rfl).symm

/-- Two asks of fractions, and a bid that takes one and a part of the other. -/
def soundRun : UnroundedOps :=
  ⟨[.createOrder 1 (orderDto .sell .limit (1 / 5) (some (201 / 2))) 0 none,
    .createOrder 2 (orderDto .sell .limit (3 / 10) (some (201 / 2))) 0 none,
    .createOrder 3 (orderDto .buy .limit (2 / 5) (some (201 / 2))) 0 none], by decide +kernel⟩

theorem soundRun_positive :
    Along step TradesPositive State.empty soundRun.val ∧ Always step FillsWithin State.empty soundRun.val :=
  (positive_iff_sound soundRun.property).mpr (by decide +kernel)

/-- An ask of -5 at 100, and a bid of 10 that meets it. -/
def negativeRun : List Op :=
  [.createOrder 1 (orderDto .sell .limit (-5) (some 100)) 0 none,
    .createOrder 2 (orderDto .buy .limit 10 (some 100)) 0 none]

/-- An ask of 5 at -100, and a bid that takes it. -/
def negativePriceRun : List Op :=
  [.createOrder 1 (orderDto .sell .limit 5 (some (-100))) 0 none,
    .createOrder 2 (orderDto .buy .limit 5 (some 100)) 0 none]

/-- The first bid trades -5 with the ask, the second one buys at -100. -/
theorem negative_orders_trade :
    ¬ (Along step TradesPositive State.empty negativeRun ∧
      Always step FillsWithin State.empty negativeRun) ∧
    ¬ (Along step TradesPositive State.empty negativePriceRun ∧
      Always step FillsWithin State.empty negativePriceRun) := by
  refine ⟨fun h => ?_, fun h => ?_⟩
  · have hmade : produced (run step State.empty (negativeRun.take 1))
        (.createOrder 2 (orderDto .buy .limit 10 (some 100)) 0 none) =
        [tradeOf (createOrder.order 1 2 (orderDto .buy .limit 10 (some 100)))
          (createOrder.order 0 1 (orderDto .sell .limit (-5) (some 100))) (-5)] := by decide +kernel
    have htrades := h.1.2.1
    change ∀ t ∈ produced (run step State.empty (negativeRun.take 1)) _, t.IsPositive at htrades
    rw [hmade] at htrades
    have hpos : (0 : ℚ) < -5 := (htrades _ (.head _)).1
    exact absurd hpos (by decide +kernel)
  · have hmade : produced (run step State.empty (negativePriceRun.take 1))
        (.createOrder 2 (orderDto .buy .limit 5 (some 100)) 0 none) =
        [tradeOf (createOrder.order 1 2 (orderDto .buy .limit 5 (some 100)))
          (createOrder.order 0 1 (orderDto .sell .limit 5 (some (-100)))) 5] := by decide +kernel
    have htrades := h.1.2.1
    change ∀ t ∈ produced (run step State.empty (negativePriceRun.take 1)) _, t.IsPositive at htrades
    rw [hmade] at htrades
    obtain ⟨-, p, hp, hpos⟩ := htrades _ (.head _)
    have he : (-100 : ℚ) = p := Option.some.inj hp
    rw [← he] at hpos
    exact absurd hpos (by decide +kernel)

end Trading
end TradeCore
