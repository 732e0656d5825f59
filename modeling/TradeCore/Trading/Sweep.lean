import TradeCore.Trading.Priority

/-!
# TradeCore.Trading.Sweep

What one match does, without the loop.

`taken` goes down the opposite side once and lists what the new order takes from whom, and
`remainder` is what it leaves of the side; both are recursions on the list. `matchLoop_sweep` says
that the loop, which changes the new order, the head and the list together, computes the two.

`matchOrder_conserves` is what follows for one match: the loop ends, no quantity is lost or made,
nothing is overfilled, and the makers are a prefix of the side of which all but the last are filled
and removed.
-/

namespace TradeCore
namespace Trading

open Lib Lib.Exact

/-- What can still be taken from an order. -/
def left (fills : Uuid → Fill) (x : Order) : ℚ := x.quantity - (fills x.id).filledQuantity

/-- What a new order of which `r` is left takes from the orders of a side, in turn. -/
def taken (o : Order) (fills : Uuid → Fill) : ℚ → List Order → List (Order × ℚ)
  | _, [] => []
  | r, x :: rest =>
    if r ≤ 0 ∨ ¬ Accepts o x then []
    else (x, min r (left fills x)) :: taken o fills (r - min r (left fills x)) rest

/-- What it leaves of the side. -/
def remainder (o : Order) (fills : Uuid → Fill) : ℚ → List Order → List Order
  | _, [] => []
  | r, x :: rest =>
    if r ≤ 0 ∨ ¬ Accepts o x then x :: rest
    else if left fills x ≤ r then remainder o fills (r - min r (left fills x)) rest
    else x :: rest

variable {o : Order} {fills : Uuid → Fill} {opp : List Order} {r : ℚ}

theorem taken_of_not_pos (h : r ≤ 0) : taken o fills r opp = [] := by
  cases opp with
  | nil => rfl
  | cons x rest => exact if_pos (.inl h)

theorem remainder_of_not_pos (h : r ≤ 0) : remainder o fills r opp = opp := by
  cases opp with
  | nil => rfl
  | cons x rest => exact if_pos (.inl h)

theorem taken_cons {x : Order} {rest : List Order} (hr : 0 < r) (hacc : Accepts o x) :
    taken o fills r (x :: rest) =
      (x, min r (left fills x)) :: taken o fills (r - min r (left fills x)) rest :=
  if_neg (by simp [not_le.mpr hr, hacc])

theorem remainder_cons {x : Order} {rest : List Order} (hr : 0 < r) (hacc : Accepts o x) :
    remainder o fills r (x :: rest) =
      if left fills x ≤ r then remainder o fills (r - min r (left fills x)) rest else x :: rest :=
  if_neg (by simp [not_le.mpr hr, hacc])

/-- Every order that the new one gets to meets `G`, together with what is left of the new one when it
gets there. -/
def EveryMet (o : Order) (fills : Uuid → Fill) (G : ℚ → Order → Prop) : ℚ → List Order → Prop
  | _, [] => True
  | r, x :: rest => 0 < r → Accepts o x → G r x ∧ EveryMet o fills G (r - left fills x) rest

instance EveryMet.decidable {G : ℚ → Order → Prop} [∀ r x, Decidable (G r x)] :
    ∀ (r : ℚ) (opp : List Order), Decidable (EveryMet o fills G r opp)
  | _, [] => inferInstanceAs (Decidable True)
  | r, x :: rest =>
    have := EveryMet.decidable (G := G) (r - left fills x) rest
    inferInstanceAs (Decidable (0 < r → Accepts o x → G r x ∧ EveryMet o fills G _ rest))

/-- What every order met is asked to meet, and what is said of every part taken, is the same. -/
theorem everyMet_iff {G : ℚ → Order → Prop} {Q : Order → ℚ → Prop}
    (hG : ∀ r x, 0 < r → (G r x ↔ Q x (min r (left fills x)))) :
    EveryMet o fills G r opp ↔ ∀ d ∈ taken o fills r opp, Q d.1 d.2 := by
  induction opp generalizing r with
  | nil => simp [EveryMet, taken]
  | cons x rest ih =>
    by_cases hr : 0 < r
    · by_cases hacc : Accepts o x
      · have htail : EveryMet o fills G (r - left fills x) rest ↔
            ∀ d ∈ taken o fills (r - min r (left fills x)) rest, Q d.1 d.2 := by
          rw [ih]
          rcases le_total (left fills x) r with hle | hle
          · rw [min_eq_right hle]
          · rw [min_eq_left hle, taken_of_not_pos (sub_nonpos.mpr hle),
              taken_of_not_pos (sub_self r).le]
        rw [taken_cons hr hacc, List.forall_mem_cons, ← htail, ← hG r x hr]
        exact ⟨fun h => h hr hacc, fun h _ _ => h⟩
      · rw [taken, if_pos (.inr hacc)]
        exact iff_of_true (fun _ h => absurd h hacc) (List.forall_mem_nil _)
    · rw [taken_of_not_pos (not_lt.mp hr)]
      exact iff_of_true (fun h => absurd h hr) (List.forall_mem_nil _)

/-! ## What is taken -/

/-- Where a part is taken from, and how much it is. -/
theorem taken_part {d : Order × ℚ} (hd : d ∈ taken o fills r opp) :
    d.1 ∈ opp ∧ ∃ r', 0 < r' ∧ d.2 = min r' (left fills d.1) := by
  induction opp generalizing r with
  | nil => cases hd
  | cons x rest ih =>
    rw [taken] at hd
    split at hd
    · cases hd
    · rename_i hr
      rw [not_or, not_le] at hr
      rcases List.mem_cons.mp hd with rfl | hd
      · exact ⟨.head _, r, hr.1, rfl⟩
      · exact ⟨.tail _ (ih hd).1, (ih hd).2⟩

theorem taken_le_left {d : Order × ℚ} (hd : d ∈ taken o fills r opp) : d.2 ≤ left fills d.1 := by
  obtain ⟨-, r', -, he⟩ := taken_part hd
  exact he.trans_le (min_le_right _ _)

theorem taken_pos (hopp : ∀ x ∈ opp, 0 < left fills x) {d : Order × ℚ}
    (hd : d ∈ taken o fills r opp) : 0 < d.2 := by
  obtain ⟨hx, r', hr', he⟩ := taken_part hd
  exact he ▸ lt_min hr' (hopp _ hx)

theorem taken_congr {fills' : Uuid → Fill} (h : ∀ x ∈ opp, fills' x.id = fills x.id) :
    taken o fills' r opp = taken o fills r opp := by
  induction opp generalizing r with
  | nil => rfl
  | cons x rest ih =>
    have hx : left fills' x = left fills x := by rw [left, left, h x (.head _)]
    rw [taken, taken, hx, ih fun y hy => h y (.tail _ hy)]

def total (ds : List (Order × ℚ)) : ℚ := (ds.map Prod.snd).sum

@[simp] theorem total_nil : total [] = 0 := rfl

@[simp] theorem total_cons (d : Order × ℚ) (ds : List (Order × ℚ)) :
    total (d :: ds) = d.2 + total ds := by
  simp [total]

theorem total_append (ds es : List (Order × ℚ)) : total (ds ++ es) = total ds + total es := by
  simp [total]

theorem total_taken_le (hr : 0 ≤ r) : total (taken o fills r opp) ≤ r := by
  induction opp generalizing r with
  | nil => exact hr
  | cons x rest ih =>
    rw [taken]
    split
    · exact hr
    · have := ih (r := r - min r (left fills x)) (sub_nonneg.mpr (min_le_left _ _))
      rw [total_cons]
      linarith

/-- **The makers are a prefix of the side.** Either all of them are emptied and what stands behind
them is left, or the last one keeps something, stays at the head, and the new order is used up. -/
theorem taken_split (o : Order) (fills : Uuid → Fill) (r : ℚ) (opp : List Order) :
    (opp = (taken o fills r opp).map Prod.fst ++ remainder o fills r opp ∧
      ∀ d ∈ taken o fills r opp, d.2 = left fills d.1) ∨
    ∃ ds d rest, taken o fills r opp = ds ++ [d] ∧ remainder o fills r opp = d.1 :: rest ∧
      opp = ds.map Prod.fst ++ d.1 :: rest ∧ (∀ d ∈ ds, d.2 = left fills d.1) ∧
      d.2 < left fills d.1 ∧ total (taken o fills r opp) = r := by
  induction opp generalizing r with
  | nil => exact .inl ⟨rfl, fun d hd => by cases hd⟩
  | cons x rest ih =>
    by_cases hr : 0 < r
    · by_cases hacc : Accepts o x
      · rw [taken_cons hr hacc, remainder_cons hr hacc]
        by_cases hle : left fills x ≤ r
        · rw [if_pos hle, min_eq_right hle]
          rcases ih (r - left fills x) with ⟨hopp, hfull⟩ | ⟨ds, d, rest', ht, hrem, hopp, hfull, hd, hsum⟩
          · refine .inl ⟨by rw [List.map_cons, List.cons_append, ← hopp], ?_⟩
            exact List.forall_mem_cons.mpr ⟨rfl, hfull⟩
          · refine .inr ⟨(x, left fills x) :: ds, d, rest', by rw [ht, List.cons_append], hrem,
              by rw [List.map_cons, List.cons_append, ← hopp], ?_, hd, ?_⟩
            · exact List.forall_mem_cons.mpr ⟨rfl, hfull⟩
            · rw [total_cons, hsum]
              ring
        · have hlt := not_le.mp hle
          rw [if_neg hle, min_eq_left hlt.le, taken_of_not_pos (sub_self r).le]
          exact .inr ⟨[], (x, r), rest, rfl, rfl, rfl, fun d hd => (by cases hd), hlt, by simp⟩
      · rw [taken, if_pos (.inr hacc), remainder, if_pos (.inr hacc)]
        exact .inl ⟨rfl, fun d hd => by cases hd⟩
    · rw [taken_of_not_pos (not_lt.mp hr), remainder_of_not_pos (not_lt.mp hr)]
      exact .inl ⟨rfl, fun d hd => by cases hd⟩

/-! ## The loop computes it -/

/-- Where the loop stands when `done` has been taken: the trades, the makers and the objects are
those of `done`, and what is still ahead is the rest of the sweep. -/
structure Swept (o : Order) (fills : Uuid → Fill) (opp : List Order) (done : List (Order × ℚ))
    (s : MatchState) : Prop where
  trades : s.trades = done.map fun d => tradeOf o d.1 d.2
  touched : s.touched = done.map Prod.fst
  remaining : s.remainingQuantity = (matchStart o fills opp).remainingQuantity - total done
  makers : ∀ d ∈ done, s.fills d.1.id = makerFill d.1 (fills d.1.id) d.2
  ahead : taken o fills (matchStart o fills opp).remainingQuantity opp =
    done ++ taken o fills s.remainingQuantity s.oppositeOrders
  behind : remainder o fills (matchStart o fills opp).remainingQuantity opp =
    remainder o fills s.remainingQuantity s.oppositeOrders
  rest : 0 < s.remainingQuantity → opp = done.map Prod.fst ++ s.oppositeOrders ∧
    ∀ x ∈ s.oppositeOrders, s.fills x.id = fills x.id

theorem swept_start : Swept o fills opp [] (matchStart o fills opp) where
  trades := rfl
  touched := rfl
  remaining := (sub_zero _).symm
  makers := List.forall_mem_nil _
  ahead := rfl
  behind := rfl
  rest _ := ⟨rfl, fun _ _ => rfl⟩

theorem swept_body {done : List (Order × ℚ)} {s : MatchState} {best : Order} {rest : List Order}
    (hside : Side o opp) (h : Swept o fills opp done s) (hopp : s.oppositeOrders = best :: rest)
    (hrem : 0 < s.remainingQuantity) (hacc : Accepts o best) :
    Swept o fills opp (done ++ [(best, tradeQuantity s best)]) (matchHead o best rest s) := by
  obtain ⟨hsplit, hfresh⟩ := h.rest hrem
  rw [hopp] at hsplit hfresh
  have hs := hside
  rw [hsplit] at hs
  obtain ⟨hob, hrest⟩ := hs.tail
  have hbest : s.fills best.id = fills best.id := hfresh best (.head _)
  have hq : tradeQuantity s best = min s.remainingQuantity (left fills best) := by
    rw [tradeQuantity_eq, hbest]
    rfl
  have hdone : ∀ d ∈ done, best.id ≠ d.1.id := by
    intro d hd e
    have hnd := hs.nodup
    rw [List.map_append] at hnd
    exact (List.nodup_append.mp hnd).2.2 d.1.id (List.mem_map_of_mem (List.mem_map_of_mem hd)) best.id
      (by simp) e.symm
  have hnot : best ∉ s.touched := by
    rw [h.touched]
    intro hb
    obtain ⟨d, hd, e⟩ := List.mem_map.mp hb
    exact hdone d hd (congrArg Order.id e.symm)
  -- the head goes exactly when what is left of it is not more than what is left of the new order
  have hpop : best.quantity ≤ (s.fills best.id).filledQuantity + tradeQuantity s best ↔
      left fills best ≤ s.remainingQuantity := by
    rw [hq, hbest, left]
    constructor
    · intro hle
      have := min_le_left s.remainingQuantity (best.quantity - (fills best.id).filledQuantity)
      linarith
    · intro hle
      rw [min_eq_right hle]
      linarith
  have hahead := h.ahead
  have hbehind := h.behind
  rw [hopp, taken_cons hrem hacc, ← hq] at hahead
  rw [hopp, remainder_cons hrem hacc, ← hq] at hbehind
  have hleft : (matchHead o best rest s).remainingQuantity = s.remainingQuantity - tradeQuantity s best :=
    rfl
  refine ⟨?_, ?_, ?_, ?_, ?_, ?_, ?_⟩
  · show s.trades ++ _ = _
    rw [h.trades, List.map_append]
    rfl
  · show (if best ∈ s.touched then s.touched else s.touched ++ [best]) = _
    rw [if_neg hnot, h.touched, List.map_append]
    rfl
  · rw [hleft, h.remaining, total_append, total_cons, total_nil]
    ring
  · intro d hd
    rcases List.mem_append.mp hd with hd | hd
    · have hod : o.id ≠ d.1.id := hside.fresh d.1 (by
        rw [hsplit]
        exact List.mem_append_left _ (List.mem_map_of_mem hd))
      rw [matchHead_fills_other hod (hdone d hd)]
      exact h.makers d hd
    · rw [List.mem_singleton.mp hd, matchHead_fills_maker, hbest]
  · rw [hahead, hleft, matchHead_opposite, List.append_assoc, List.singleton_append]
    split
    · rfl
    · rename_i hkeep
      have hzero : (matchHead o best rest s).remainingQuantity = 0 := matchHead_remaining hkeep
      rw [hleft] at hzero
      rw [taken_of_not_pos hzero.le, taken_of_not_pos hzero.le]
  · rw [hbehind, hleft, matchHead_opposite]
    by_cases hle : left fills best ≤ s.remainingQuantity
    · rw [if_pos hle, if_pos (hpop.mpr hle)]
    · have hkeep := mt hpop.mp hle
      have hzero : (matchHead o best rest s).remainingQuantity = 0 := matchHead_remaining hkeep
      rw [hleft] at hzero
      rw [if_neg hle, if_neg hkeep, remainder_of_not_pos hzero.le]
  · intro hpos
    have hfull : best.quantity ≤ (s.fills best.id).filledQuantity + tradeQuantity s best := by
      by_contra hkeep
      rw [matchHead_remaining hkeep] at hpos
      exact lt_irrefl _ hpos
    rw [matchHead_opposite, if_pos hfull]
    refine ⟨by rw [hsplit]; simp, fun x hx => ?_⟩
    rw [matchHead_fills_other (hrest x hx).1 (hrest x hx).2]
    exact hfresh x (.tail _ hx)

/-- **The loop is the sweep.** -/
theorem matchLoop_sweep (fills : Uuid → Fill) (hside : Side o opp) :
    Swept o fills opp (taken o fills (matchStart o fills opp).remainingQuantity opp)
        (matchLoop o fills opp) ∧
      (matchLoop o fills opp).oppositeOrders =
        remainder o fills (matchStart o fills opp).remainingQuantity opp := by
  obtain ⟨done, h⟩ : ∃ done, Swept o fills opp done (matchLoop o fills opp) := by
    refine matchLoop_inv (I := fun s => ∃ done, Swept o fills opp done s) ⟨[], swept_start⟩ ?_
    rintro s best rest ⟨done, h⟩ hopp hrem hacc
    exact ⟨_, swept_body hside h hopp hrem hacc⟩
  -- where the loop stops nothing is ahead
  have hstop : taken o fills (matchLoop o fills opp).remainingQuantity
        (matchLoop o fills opp).oppositeOrders = [] ∧
      remainder o fills (matchLoop o fills opp).remainingQuantity
        (matchLoop o fills opp).oppositeOrders = (matchLoop o fills opp).oppositeOrders := by
    rcases matchStep_none (matchLoop_exit o fills opp) with hrem | hnil | ⟨best, rest, hopp, hacc⟩
    · exact ⟨taken_of_not_pos hrem, remainder_of_not_pos hrem⟩
    · rw [hnil]
      exact ⟨rfl, rfl⟩
    · rw [hopp]
      exact ⟨if_pos (.inr hacc), if_pos (.inr hacc)⟩
  have hahead := h.ahead
  rw [hstop.1, List.append_nil] at hahead
  rw [hahead]
  exact ⟨h, by rw [h.behind, hstop.2]⟩

theorem bookMatch_sweep {books : String → Option OrderBook} (fills : Uuid → Fill)
    (hside : Side o (bookSide books o.assetKey o.side.opposite)) :
    ∃ ts, ts = taken o fills (matchStart o fills (bookSide books o.assetKey o.side.opposite)).remainingQuantity
        (bookSide books o.assetKey o.side.opposite) ∧
      (matchOrder books fills o).trades = ts.map (fun d => tradeOf o d.1 d.2) ∧
      (matchOrder books fills o).touchedOrders = ts.map Prod.fst ∧
      (∀ d ∈ ts, (matchOrder books fills o).fills d.1.id = makerFill d.1 (fills d.1.id) d.2) ∧
      ((matchOrder books fills o).fills o.id).filledQuantity =
        (fills o.id).filledQuantity + total ts ∧
      bookSide (matchOrder books fills o).orderBooks o.assetKey o.side.opposite =
        remainder o fills (matchStart o fills (bookSide books o.assetKey o.side.opposite)).remainingQuantity
          (bookSide books o.assetKey o.side.opposite) := by
  obtain ⟨hfills, htrades, htouched, hbooks⟩ := matchOrder_eq books fills o
  obtain ⟨h, hrest⟩ := matchLoop_sweep fills hside
  refine ⟨_, rfl, htrades.trans h.trades, htouched.trans h.touched, ?_, ?_, ?_⟩
  · rw [hfills]
    exact h.makers
  · rw [hfills, bookMatch, matchLoop_traded hside, h.trades]
    congr 1
    generalize taken o fills _ _ = ts
    induction ts with
    | nil => rfl
    | cons d ts ih =>
      rw [List.map_cons, traded, List.map_cons, List.sum_cons, if_pos (tradeOf_names.mpr (.inl rfl)),
        total_cons]
      exact congrArg _ ih
  · rw [hbooks, if_pos ⟨rfl, rfl⟩]
    exact hrest

/-! ## Conservation -/

/-- The new order would buy from, or sell to, `x` within its limit: a market order has none, and a
price of `x` that is missing crosses no limit. -/
def CrossesLimit (o x : Order) : Prop :=
  o.type = .market ∨ ∃ p q, o.price = some p ∧ x.price = some q ∧ p ≠ 0 ∧ q ≠ 0 ∧ o.side.Reaches p q

theorem accepts_iff {x : Order} : Accepts o x ↔ CrossesLimit o x := by
  unfold Accepts CrossesLimit
  split
  · rename_i hm
    simp [hm]
  · rename_i hl
    split
    · rename_i p q hp hq
      simp [hl, hp, hq]
    · rename_i hnone
      simp only [hl, reduceCtorEq, false_or, false_iff]
      rintro ⟨p, q, hp, hq, -⟩
      exact hnone p q hp hq

/-- What a match of `o` does to the quantities, to the makers and to the side they stand on. -/
structure Conserves (books : String → Option OrderBook) (fills : Uuid → Fill) (o : Order)
    (r : MatchResult) : Prop where
  taker : (r.trades.map Trade.quantity).sum =
    (r.fills o.id).filledQuantity - (fills o.id).filledQuantity
  makers : (r.trades.map Trade.quantity).sum =
    (r.touchedOrders.map fun x => (r.fills x.id).filledQuantity - (fills x.id).filledQuantity).sum
  positive : ∀ t ∈ r.trades, 0 < t.quantity
  bounded : ∀ x ∈ o :: bookSide books o.assetKey o.side.opposite,
    (r.fills x.id).filledQuantity ≤ x.quantity
  hit : List.Forall₂ (fun t x => t = tradeOf o x t.quantity) r.trades r.touchedOrders
  emptied : ∃ full, (∀ x ∈ full, (r.fills x.id).filledQuantity = x.quantity ∧
      x ∉ bookSide r.orderBooks o.assetKey o.side.opposite) ∧
    bookSide books o.assetKey o.side.opposite =
      full ++ bookSide r.orderBooks o.assetKey o.side.opposite ∧
    (r.touchedOrders = full ∨
      ∃ x rest, bookSide r.orderBooks o.assetKey o.side.opposite = x :: rest ∧
        r.touchedOrders = full ++ [x])
  others : ∀ id, id ≠ o.id → (∀ x ∈ r.touchedOrders, x.id ≠ id) → r.fills id = fills id
  exit : (r.fills o.id).filledQuantity = o.quantity ∨
    bookSide r.orderBooks o.assetKey o.side.opposite = [] ∨
    ∃ best rest, bookSide r.orderBooks o.assetKey o.side.opposite = best :: rest ∧
      ¬ CrossesLimit o best

theorem matchStart_remaining (h0 : 0 ≤ (fills o.id).filledQuantity) :
    (matchStart o fills opp).remainingQuantity = left fills o := by
  unfold matchStart left
  split
  · rfl
  · rename_i hnot
    rw [le_antisymm (not_lt.mp hnot) h0, sub_zero]

theorem sum_quantities (o : Order) (ts : List (Order × ℚ)) :
    ((ts.map fun d => tradeOf o d.1 d.2).map Trade.quantity).sum = total ts := by
  rw [List.map_map]
  rfl

theorem emptied_of_split {l l' full : List Order} {ds : List (Order × ℚ)} {fills' : Uuid → Fill}
    (hside : Side o l) (hl : l = ds.map Prod.fst ++ l') (hfull : ∀ d ∈ ds, d.2 = left fills d.1)
    (hfills : ∀ d ∈ ds, fills' d.1.id = makerFill d.1 (fills d.1.id) d.2)
    (he : full = ds.map Prod.fst) :
    ∀ x ∈ full, (fills' x.id).filledQuantity = x.quantity ∧ x ∉ l' := by
  intro x hx
  rw [he] at hx
  refine ⟨?_, fun hx' => ?_⟩
  · obtain ⟨d, hd, rfl⟩ := List.mem_map.mp hx
    rw [hfills d hd, makerFill_filled, hfull d hd, left]
    ring
  · have hnd := hside.nodup
    rw [hl, List.map_append] at hnd
    exact (List.nodup_append.mp hnd).2.2 x.id (List.mem_map_of_mem hx) x.id
      (List.mem_map_of_mem hx') rfl

section Match

variable {books : String → Option OrderBook}

theorem match_others (hside : Side o (bookSide books o.assetKey o.side.opposite)) {id : Uuid}
    (hid : id ≠ o.id) (hnot : ∀ x ∈ (matchOrder books fills o).touchedOrders, x.id ≠ id) :
    (matchOrder books fills o).fills id = fills id := by
  have hwalk := matchLoop_walk fills hside
  rw [(matchOrder_eq books fills o).1]
  refine hwalk.frame id fun t ht hn => ?_
  obtain ⟨y, hy, q, rfl⟩ := hwalk.trades t ht
  rw [(matchOrder_eq books fills o).2.2.1] at hnot
  exact (tradeOf_names.mp hn).elim (fun e => hid e.symm) (hnot y hy)

theorem match_bounded (hside : Side o (bookSide books o.assetKey o.side.opposite))
    (hleft : ∀ x ∈ bookSide books o.assetKey o.side.opposite, 0 < left fills x)
    (h0 : 0 ≤ (fills o.id).filledQuantity) (ho : 0 < left fills o) :
    ∀ x ∈ o :: bookSide books o.assetKey o.side.opposite,
      ((matchOrder books fills o).fills x.id).filledQuantity ≤ x.quantity := by
  obtain ⟨ts, hts, -, htouched, hmakers, htaker, -⟩ := bookMatch_sweep fills hside
  rw [matchStart_remaining h0] at hts
  intro x hx
  rcases List.mem_cons.mp hx with rfl | hx
  · have hle : total ts ≤ left fills x := hts ▸ total_taken_le ho.le
    rw [htaker]
    rw [left] at hle
    linarith
  · by_cases hhit : ∃ d ∈ ts, d.1.id = x.id
    · obtain ⟨d, hd, hid⟩ := hhit
      have hdx : d.1 = x := List.inj_on_of_nodup_map hside.nodup (taken_part (hts ▸ hd)).1 hx hid
      have hdle : d.2 ≤ left fills d.1 := taken_le_left (hts ▸ hd)
      rw [← hdx, hmakers d hd, makerFill_filled]
      rw [left] at hdle
      linarith
    · have hxl := hleft x hx
      rw [match_others hside (hside.fresh x hx).symm fun y hy e => hhit ?_]
      · rw [left] at hxl
        linarith
      · rw [htouched] at hy
        obtain ⟨d, hd, rfl⟩ := List.mem_map.mp hy
        exact ⟨d, hd, e⟩

theorem match_emptied (hside : Side o (bookSide books o.assetKey o.side.opposite))
    (h0 : 0 ≤ (fills o.id).filledQuantity) :
    ∃ full, (∀ x ∈ full, ((matchOrder books fills o).fills x.id).filledQuantity = x.quantity ∧
        x ∉ bookSide (matchOrder books fills o).orderBooks o.assetKey o.side.opposite) ∧
      bookSide books o.assetKey o.side.opposite =
        full ++ bookSide (matchOrder books fills o).orderBooks o.assetKey o.side.opposite ∧
      ((matchOrder books fills o).touchedOrders = full ∨
        ∃ x rest, bookSide (matchOrder books fills o).orderBooks o.assetKey o.side.opposite = x :: rest ∧
          (matchOrder books fills o).touchedOrders = full ++ [x]) := by
  obtain ⟨ts, hts, -, htouched, hmakers, -, hbook⟩ := bookMatch_sweep fills hside
  rw [matchStart_remaining h0] at hts hbook
  rcases taken_split o fills (left fills o) (bookSide books o.assetKey o.side.opposite) with
    ⟨hl, hfull⟩ | ⟨ds, d, rest, ht, hrem, hl, hfull, -, -⟩
  · rw [← hts, ← hbook] at hl
    rw [← hts] at hfull
    exact ⟨_, emptied_of_split hside hl hfull hmakers rfl, hl, .inl htouched⟩
  · rw [← hts] at ht
    rw [hrem] at hbook
    rw [← hbook] at hl
    refine ⟨_, emptied_of_split hside hl hfull (fun e he => hmakers e ?_) rfl, hl,
      .inr ⟨d.1, rest, hbook, ?_⟩⟩
    · rw [ht]
      exact List.mem_append_left _ he
    · rw [htouched, ht, List.map_append]
      rfl

theorem match_exit (hside : Side o (bookSide books o.assetKey o.side.opposite))
    (h0 : 0 ≤ (fills o.id).filledQuantity) (ho : 0 < left fills o) :
    ((matchOrder books fills o).fills o.id).filledQuantity = o.quantity ∨
      bookSide (matchOrder books fills o).orderBooks o.assetKey o.side.opposite = [] ∨
      ∃ best rest, bookSide (matchOrder books fills o).orderBooks o.assetKey o.side.opposite =
        best :: rest ∧ ¬ CrossesLimit o best := by
  have hb : bookSide (matchOrder books fills o).orderBooks o.assetKey o.side.opposite =
      (bookMatch books fills o).oppositeOrders := by
    rw [(matchOrder_eq books fills o).2.2.2, if_pos ⟨rfl, rfl⟩]
  rw [hb]
  rcases matchStep_none (matchLoop_exit o fills _) with hrem | hnil | ⟨best, rest, hopp, hacc⟩
  · left
    obtain ⟨ts, hts, -, -, -, htaker, -⟩ := bookMatch_sweep fills hside
    rw [matchStart_remaining h0] at hts
    have hle : total ts ≤ left fills o := hts ▸ total_taken_le ho.le
    have hswept := (matchLoop_sweep fills hside).1.remaining
    rw [matchStart_remaining h0, ← hts] at hswept
    rw [htaker]
    rw [hswept] at hrem
    rw [left] at hrem hle
    linarith
  · exact .inr (.inl hnil)
  · exact .inr (.inr ⟨best, rest, hopp, fun hc => hacc (accepts_iff.mpr hc)⟩)

end Match

/-- **A match ends, and conserves quantity.** -/
theorem matchOrder_conserves {books : String → Option OrderBook} {fills : Uuid → Fill} {o : Order}
    (hside : Side o (bookSide books o.assetKey o.side.opposite))
    (hleft : ∀ x ∈ bookSide books o.assetKey o.side.opposite, 0 < left fills x)
    (h0 : 0 ≤ (fills o.id).filledQuantity) (ho : 0 < left fills o) :
    matchStep o (bookMatch books fills o) = none ∧
      Conserves books fills o (matchOrder books fills o) := by
  refine ⟨matchLoop_exit _ _ _, ?_⟩
  obtain ⟨ts, hts, htrades, htouched, hmakers, htaker, -⟩ := bookMatch_sweep fills hside
  have hsum : ((matchOrder books fills o).trades.map Trade.quantity).sum = total ts := by
    rw [htrades, sum_quantities]
  refine ⟨?_, ?_, ?_, match_bounded hside hleft h0 ho, ?_, match_emptied hside h0,
    fun _ => match_others hside, match_exit hside h0 ho⟩
  · rw [hsum, htaker]
    ring
  · rw [hsum, htouched, List.map_map, total]
    refine congrArg List.sum (List.map_congr_left fun d hd => ?_)
    show d.2 = ((matchOrder books fills o).fills d.1.id).filledQuantity - _
    rw [hmakers d hd, makerFill_filled]
    ring
  · intro t ht
    rw [htrades] at ht
    obtain ⟨d, hd, rfl⟩ := List.mem_map.mp ht
    exact taken_pos hleft (hts ▸ hd)
  · rw [htrades, htouched]
    exact List.forall₂_map_left_iff.mpr (List.forall₂_map_right_iff.mpr
      (List.forall₂_same.mpr fun d _ => rfl))

/-- Two asks of 6 at 100 and one of 6 at 120. -/
def askRun : List Op :=
  [.createOrder 1 (orderDto .sell .limit 6 (some 100)) 0 none,
    .createOrder 2 (orderDto .sell .limit 6 (some 100)) 0 none,
    .createOrder 3 (orderDto .sell .limit 6 (some 120)) 0 none]

def askBid : Order := createOrder.order 3 4 (orderDto .buy .limit 10 (some 100))

open Lib.Insertion in
def askState [Arithmetic] : State := createOrder.save (run step State.empty askRun) askBid

theorem askBid_conserves :
    (matchStep askBid (bookMatch askState.orderBooks askState.fills askBid) = none ∧
      Conserves askState.orderBooks askState.fills askBid (askState.matchOrder askBid)) ∧
    (askState.matchOrder askBid).trades.map Trade.quantity = [6, 4] :=
  ⟨matchOrder_conserves ⟨by decide +kernel, by decide +kernel⟩ (by decide +kernel)
    (by decide +kernel) (by decide +kernel), by decide +kernel⟩

end Trading
end TradeCore
