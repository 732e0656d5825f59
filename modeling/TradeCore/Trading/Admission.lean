import TradeCore.Trading.Statuses

/-!
# TradeCore.Trading.Admission

What the validation of a request admits, and what it does to the trades.

`CreateOrderDto` asks for numbers and `createOrder` for the price of a limit order, so that quantities
and prices may be 0 or negative and a market order may rest without a price. Trades stay positive and
fills within their quantities exactly as long as no quantity is negative and no new order gets to a
resting order with nothing to take or without a positive price (`along_positive_iff`).
-/

namespace TradeCore
namespace Trading

open Lib Lib.Exact

/-- Filled within the quantity. -/
def Within (o : Order) (fill : Fill) : Prop :=
  0 ≤ fill.filledQuantity ∧ fill.filledQuantity ≤ o.quantity

/-- Every order is filled within its quantity, in memory and in the table. -/
def FillsWithin (st : State) : Prop :=
  ∀ row ∈ st.db.orders, Within row.order (st.fills row.id) ∧ Within row.order row.fill

def Trade.IsPositive (t : Trade) : Prop := 0 < t.quantity ∧ ∃ p, t.price = some p ∧ 0 < p

def TradesPositive [Arithmetic] (st : State) (op : Op) : Prop := ∀ t ∈ produced st op, t.IsPositive

def HasPositivePrice (x : Order) : Prop := ∃ p, x.price = some p ∧ 0 < p

instance : DecidablePred HasPositivePrice := fun x =>
  decidable_of_iff (∃ p ∈ x.price, 0 < p) (by simp [HasPositivePrice])

/-- No quantity is negative, and every resting order that the new one gets to has something left and a
positive price. -/
def Sound (st : State) : Op → Prop
  | .createOrder u dto now fault => createOrder.validate dto now = .ok () → fault ≠ some .save →
      0 ≤ dto.quantity ∧ EveryMet (createOrder.order st.nextId u dto) st.fills
        (fun _ x => 0 < left st.fills x ∧ HasPositivePrice x) dto.quantity
        (opposite st (createOrder.order st.nextId u dto))
  | _ => True

instance (st : State) (op : Op) : Decidable (Sound st op) := by
  unfold Sound
  split <;> infer_instance

theorem Kept.fillsWithin {st : State} (h : Kept Within st) : FillsWithin st := by
  intro row hrow
  have hlook : st.db.order? row.id = some row := lookup_of_mem h.keys hrow
  obtain ⟨s, hs, -⟩ := h.row _ _ hlook
  exact ⟨h.object _ _ hlook, hs⟩

/-! ## One call -/

section Step

variable {st : State} {o : Order} {u : Uuid} {dto : CreateOrderDto} {now : Time}
  {fault : Option CreateFault}

/-- What is asked of the orders met is what is asked of the trades with them. -/
theorem sound_iff {fills : Uuid → Fill} {r : ℚ} {opp : List Order} :
    EveryMet o fills (fun _ x => 0 < left fills x ∧ HasPositivePrice x) r opp ↔
      ∀ d ∈ taken o fills r opp, (tradeOf o d.1 d.2).IsPositive := by
  refine everyMet_iff (Q := fun x q => (tradeOf o x q).IsPositive) fun r x hr => ?_
  show _ ↔ 0 < min r (left fills x) ∧ HasPositivePrice x
  rw [lt_min_iff, and_iff_right hr]

theorem within_match (h : Kept Within st) (ho : o.id = st.nextId) (hq : 0 ≤ o.quantity)
    (hpos : ∀ d ∈ taken o st.fills o.quantity (opposite st o), (tradeOf o d.1 d.2).IsPositive) :
    MatchKeeps Within st o := by
  obtain ⟨ts, hts, -, htouched, hmakers, htaker⟩ := h.match_taken ho
  rw [← hts] at hpos
  have htotal : total ts ≤ o.quantity := hts ▸ total_taken_le hq
  have htotal0 : 0 ≤ total ts := by
    refine List.sum_nonneg fun q hqm => ?_
    obtain ⟨d, hd, rfl⟩ := List.mem_map.mp hqm
    exact (hpos d hd).1.le
  refine ⟨⟨le_refl _, hq⟩, List.forall_mem_cons.mpr ⟨?_, fun x hx => ?_⟩⟩
  · rw [Within, htaker]
    exact ⟨htotal0, htotal⟩
  · rw [htouched] at hx
    obtain ⟨d, hd, rfl⟩ := List.mem_map.mp hx
    have hdt : d ∈ taken o st.fills o.quantity (opposite st o) := hts ▸ hd
    have hle : d.2 ≤ left st.fills d.1 := taken_le_left hdt
    have hd0 : 0 < d.2 := (hpos d hd).1
    have hin := h.inBook_object (h.placed.inBook (taken_part hdt).1)
    rw [left] at hle
    rw [Within, hmakers d hd, makerFill_filled]
    exact ⟨add_nonneg hin.1 hd0.le, by linarith⟩

theorem produced_eq (h : Kept Within st) (hv : createOrder.validate dto now = .ok ())
    (hf : fault ≠ some .save) (ho : o = createOrder.order st.nextId u dto) :
    produced st (.createOrder u dto now fault) =
      (taken o st.fills o.quantity (opposite st o)).map fun d => tradeOf o d.1 d.2 := by
  obtain ⟨ts, hts, htrades, -⟩ := h.match_taken (o := o) (by rw [ho]; rfl)
  rw [produced, if_pos ⟨hv, hf⟩, ← ho, htrades, hts]

theorem sound_step [ArraySort] (st : State) (op : Op) (h : Kept Within st) (hs : Sound st op) :
    TradesPositive st op ∧ Kept Within (step st op) := by
  cases op with
  | cancelOrder k u => exact ⟨List.forall_mem_nil _, h.cancelOrder k u⟩
  | cleanupExpiredOrders now => exact ⟨List.forall_mem_nil _, h.cleanupExpiredOrders now⟩
  | createOrder u dto now fault =>
    refine ⟨fun t ht => ?_, h.createOrder fun hv hf => ?_⟩
    · by_cases hgo : createOrder.validate dto now = .ok () ∧ fault ≠ some .save
      · rw [produced_eq h hgo.1 hgo.2 rfl] at ht
        obtain ⟨d, hd, rfl⟩ := List.mem_map.mp ht
        exact sound_iff.mp (hs hgo.1 hgo.2).2 d hd
      · rw [produced, if_neg hgo] at ht
        cases ht
    · exact within_match h rfl (hs hv hf).1 (sound_iff.mp (hs hv hf).2)

theorem sound_of_positive [ArraySort] (st : State) (op : Op) (h : Kept Within st) (ht : TradesPositive st op)
    (hw : FillsWithin (step st op)) : Sound st op := by
  cases op with
  | cancelOrder | cleanupExpiredOrders => trivial
  | createOrder u dto now fault =>
    intro hv hf
    refine ⟨?_, sound_iff.mpr fun d hd => ht _ ?_⟩
    · obtain ⟨-, ⟨fill, hrow⟩, -⟩ := h.created_order (u := u) hv hf rfl
      have hwithin := (hw _ (mem_of_lookup hrow)).1
      exact hwithin.1.trans hwithin.2
    · rw [produced_eq h hv hf rfl]
      exact List.mem_map_of_mem hd

end Step

/-- The trades of a run are positive and its fills within their quantities exactly when every call is
sound. -/
theorem along_positive_iff [ArraySort] (ops : List Op) :
    Along step TradesPositive State.empty ops ∧ Always step FillsWithin State.empty ops ↔
      Along step Sound State.empty ops :=
  along_always_iff (H := fun _ _ => True) (fun _ h => h.fillsWithin)
    (fun st op h _ hs => sound_step st op h hs) (fun st op h _ => sound_of_positive st op h)
    (kept_empty Within) along_true

end Trading
end TradeCore
