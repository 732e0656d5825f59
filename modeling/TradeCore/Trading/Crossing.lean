import TradeCore.Trading.Concurrent
import TradeCore.Trading.Priority

/-!
# TradeCore.Trading.Crossing

Crossing prices under interleaved calls.

An order that has been matched and is not in the book yet is invisible to the orders that are
matched meanwhile. Two limit orders that cross can rest in one book when each was matched while the
other was on its way there. In the interleavings in which no limit order is matched while one it crosses
is on its way, and no order without a price comes to rest, they cannot (`always_limitsUncrossed`).
-/

namespace TradeCore
namespace Trading

open Lib Lib.Exact

/-- The order a call has matched and not put in the book yet. -/
def Call.left? : Call → Option Order
  | .persisting o _ _ | .resting o => some o
  | _ => none

def leftBy : CallTask → Option Order
  | .running c => c.left?
  | .done _ => none

/-- The orders on their way to the book. -/
def leaving (ts : List CallTask) : List Order := ts.filterMap leftBy

instance (a b : Order) : Decidable (Crosses a b) :=
  decidable_of_iff (∃ p ∈ a.price, ∃ q ∈ b.price, a.side.Reaches p q) (by simp [Crosses])

/-- A limit order that is matched crosses no limit order that is on its way to the book, and an
order that comes to rest has a price. -/
def Visible (st : State) (ts : List CallTask) : Call → Prop
  | .matching o => o.type = .limit → ∀ y ∈ leaving ts, (st.fills y.id).status ∈ openStatuses →
      y.type = .limit → y.assetKey = o.assetKey → y.side = o.side.opposite → ¬ Crosses o y
  | .resting o => (st.fills o.id).status ∈ openStatuses → Priced o.price
  | _ => True

instance Visible.decidable (st : State) (ts : List CallTask) : ∀ c, Decidable (Visible st ts c)
  | .matching _ => inferInstanceAs (Decidable (_ → _))
  | .resting _ => inferInstanceAs (Decidable (_ → _))
  | .start _ => .isTrue trivial
  | .persisting .. => .isTrue trivial
  | .removing .. => .isTrue trivial
  | .writing .. => .isTrue trivial

/-- The calls create orders of positive quantity, or cancel or expire orders. -/
def CallOp.Positive : CallOp → Prop
  | .createOrder _ dto => 0 < dto.quantity
  | _ => True

instance : DecidablePred CallOp.Positive
  | .createOrder _ dto => inferInstanceAs (Decidable (0 < dto.quantity))
  | .cancelOrder .. => .isTrue trivial
  | .cleanupExpiredOrders => .isTrue trivial

/-- No two limit orders on opposite sides of one book cross. -/
def LimitsUncrossed (st : State) : Prop :=
  ∀ key, ∀ b ∈ bookSide st.orderBooks key .buy, ∀ a ∈ bookSide st.orderBooks key .sell,
    b.type = .limit → a.type = .limit → ∀ p q, b.price = some p → a.price = some q → p < q

/-- An order that is in the book or will be, unless its transaction fails. -/
def Live (st : State) (ts : List CallTask) (x : Order) : Prop :=
  InBook st.orderBooks x ∨ x ∈ leaving ts ∧ (st.fills x.id).status ∈ openStatuses

def Call.Ready : Call → Prop
  | .start op => op.Positive
  | .matching o => 0 < o.quantity ∧ (o.type = .limit → Priced o.price)
  | _ => True

structure CrossInv (st : State) (ts : List CallTask) : Prop where
  base : Base st ts
  sorted : Sorted st.orderBooks
  ready : AllRunning Call.Ready ts
  uncrossed : ∀ x y, Live st ts x → Live st ts y → x.type = .limit → y.type = .limit →
    y.assetKey = x.assetKey → y.side = x.side.opposite → ¬ Crosses x y

section Step

variable {st st' : State} {pre post : List CallTask} {c : Call} {t : CallTask} {o : Order}

theorem leaving_flying {ts : List CallTask} {y : Order} (h : y ∈ leaving ts) : y ∈ flying ts := by
  obtain ⟨t, ht, hy⟩ := List.mem_filterMap.mp h
  refine List.mem_filterMap.mpr ⟨t, ht, ?_⟩
  cases t with
  | done r => cases hy
  | running c =>
    cases c with
    | persisting | resting => exact hy
    | start | matching | removing | writing => cases hy

theorem mem_leaving_split {y : Order} :
    y ∈ leaving (pre ++ t :: post) ↔ y ∈ leaving pre ∨ leftBy t = some y ∨ y ∈ leaving post := by
  simp [leaving, List.mem_filterMap]

/-- A step after which no order is live that was not before. -/
theorem CrossInv.shrink (h : CrossInv st (pre ++ .running c :: post))
    (hbase : Base st' (pre ++ t :: post))
    (hb : ∀ key side, (bookSide st'.orderBooks key side).Sublist (bookSide st.orderBooks key side))
    (hready : ∀ c', t = .running c' → c'.Ready)
    (hlive : ∀ x, x ∈ leaving (pre ++ t :: post) → (st'.fills x.id).status ∈ openStatuses →
      Live st (pre ++ .running c :: post) x) : CrossInv st' (pre ++ t :: post) := by
  have hlive' : ∀ x, Live st' (pre ++ t :: post) x → Live st (pre ++ .running c :: post) x := by
    rintro x (hx | ⟨hx, hopen⟩)
    · exact .inl ((hb _ _).subset hx)
    · exact hlive x hx hopen
  exact ⟨hbase, h.sorted.mono hb, h.ready.replace hready,
    fun x y hx hy => h.uncrossed x y (hlive' x hx) (hlive' y hy)⟩

/-- A step that leaves the objects alone and whose call holds on to its order or lets it go. -/
theorem CrossInv.quiet_step (h : CrossInv st (pre ++ .running c :: post))
    (hbase : Base st' (pre ++ t :: post))
    (hb : ∀ key side, (bookSide st'.orderBooks key side).Sublist (bookSide st.orderBooks key side))
    (hf : st'.fills = st.fills) (ht : leftBy t = c.left? ∨ leftBy t = none)
    (hready : ∀ c', t = .running c' → c'.Ready) : CrossInv st' (pre ++ t :: post) := by
  refine h.shrink hbase hb hready fun x hx hopen => .inr ⟨?_, hf ▸ hopen⟩
  rw [mem_leaving_split] at hx ⊢
  rcases hx with hx | hx | hx
  · exact .inl hx
  · rcases ht with ht | ht
    · exact .inr (.inl (ht.symm.trans hx))
    · rw [ht] at hx; cases hx
  · exact .inr (.inr hx)

theorem CrossInv.save (h : CrossInv st (pre ++ .running c :: post)) (hc : c.order? = none)
    (ho : o.id = st.nextId) (hready : (Call.matching o).Ready) :
    CrossInv (createOrder.save st o) (pre ++ .running (.matching o) :: post) := by
  refine h.shrink (h.base.save hc ho) (fun _ _ => .refl _) (fun c' e => by cases e; exact hready)
    fun x hx hopen => ?_
  have hx' : x ∈ leaving (pre ++ .running c :: post) := by
    rw [mem_leaving_split] at hx ⊢
    rcases hx with hx | hx | hx
    · exact .inl hx
    · cases hx
    · exact .inr (.inr hx)
  have hne : x.id ≠ o.id := ho ▸ (h.base.bounded x (leaving_flying hx')).ne
  refine .inr ⟨hx', ?_⟩
  rwa [createOrder.save_other st hne] at hopen

/-- The match: an order that is live after it was live before, or is what is left of the new one,
which crosses no other. -/
theorem CrossInv.matched {ts : List Trade} {us : List Order}
    (h : CrossInv st (pre ++ .running (.matching o) :: post))
    (hv : Visible st (pre ++ .running (.matching o) :: post) (.matching o)) :
    CrossInv (createOrder.matched st o) (pre ++ .running (.persisting o ts us) :: post) := by
  obtain ⟨-, hfresh, hothers⟩ := h.base.held rfl
  obtain ⟨hq, hlimit⟩ := h.ready.here
  have hsub := match_sublist h.base.placed hfresh st.fills
  have hnew : New (st.fills o.id) := h.base.newborn o (by simp)
  have hlive : ∀ x, Live (createOrder.matched st o) (pre ++ .running (.persisting o ts us) :: post) x →
      x ≠ o → Live st (pre ++ .running (.matching o) :: post) x ∧
        (((createOrder.matched st o).fills o.id).status ∈ openStatuses → o.type = .limit →
          x.type = .limit → x.assetKey = o.assetKey → x.side = o.side.opposite → ¬ Crosses o x) := by
    intro x hx hne
    rcases hx with hx | ⟨hx, hopen⟩
    · exact ⟨.inl ((hsub _ _).subset hx), fun hopen _ _ hk hs =>
        match_uncrossed h.base.placed h.sorted hfresh hnew hq hlimit hopen hx hk hs⟩
    · rw [mem_leaving_split] at hx
      have hfly : x ∈ leaving pre ∨ x ∈ leaving post := by
        rcases hx with hx | hx | hx
        · exact .inl hx
        · exact absurd (Option.some.inj hx).symm hne
        · exact .inr hx
      have hx' : x ∈ leaving (pre ++ .running (.matching o) :: post) :=
        mem_leaving_split.mpr (hfly.imp id .inr)
      have hsame : (createOrder.matched st o).fills x.id = st.fills x.id :=
        h.base.match_frame (hothers x (hfly.imp leaving_flying leaving_flying))
          (h.base.apart x (leaving_flying hx'))
      rw [hsame] at hopen
      exact ⟨.inr ⟨hx', hopen⟩, fun _ hto htx hk hs => hv hto x hx' hopen htx hk hs⟩
  have hown : Live (createOrder.matched st o) (pre ++ .running (.persisting o ts us) :: post) o →
      ((createOrder.matched st o).fills o.id).status ∈ openStatuses := by
    rintro (hx | ⟨-, hopen⟩)
    · exact absurd rfl (hfresh o ((hsub _ _).subset hx))
    · exact hopen
  refine ⟨h.base.matched ts us, h.sorted.mono hsub, h.ready.replace fun c' e => by cases e; trivial,
    fun x y hx hy htx hty hk hs => ?_⟩
  by_cases hxo : x = o
  · subst hxo
    by_cases hyo : y = x
    · subst hyo
      cases hside : y.side <;> simp [hside, OrderSide.opposite] at hs
    · exact (hlive y hy hyo).2 (hown hx) htx hty hk hs
  · by_cases hyo : y = o
    · subst hyo
      have hs' : x.side = y.side.opposite := by rw [hs]; cases x.side <;> rfl
      exact fun hc => (hlive x hx hxo).2 (hown hy) hty htx hk.symm hs' (hc.symm hs)
    · exact h.uncrossed x y (hlive x hx hxo).1 (hlive y hy hyo).1 htx hty hk hs

/-- What is left of the order moves into the book. -/
theorem CrossInv.rest [ArraySort] {r : Except HttpError Unit}
    (h : CrossInv st (pre ++ .running (.resting o) :: post))
    (hv : Visible st (pre ++ .running (.resting o) :: post) (.resting o)) :
    CrossInv (createOrder.rest st o) (pre ++ .done r :: post) := by
  have hbase := h.base.rest (r := r)
  have hdone : ∀ x, x ∈ leaving (pre ++ .done r :: post) →
      x ∈ leaving (pre ++ .running (.resting o) :: post) := by
    intro x hx
    rw [mem_leaving_split] at hx ⊢
    exact hx.imp id fun hx => hx.elim (fun e => by cases e) .inr
  unfold createOrder.rest at hbase ⊢
  split
  · rename_i hopen
    rw [if_pos hopen] at hbase
    have hlive : ∀ x, Live { st with orderBooks := addToOrderBook st.orderBooks o }
        (pre ++ .done r :: post) x → Live st (pre ++ .running (.resting o) :: post) x := by
      rintro x (hx | ⟨hx, hxopen⟩)
      · rcases inBook_add.mp hx with hx | rfl
        · exact .inl hx
        · exact .inr ⟨mem_leaving_split.mpr (.inr (.inl rfl)), hopen⟩
      · exact .inr ⟨hdone x hx, hxopen⟩
    exact ⟨hbase, h.sorted.add (hv hopen), h.ready.replace (fun c' e => by cases e),
      fun x y hx hy => h.uncrossed x y (hlive x hx) (hlive y hy)⟩
  · rename_i hclosed
    rw [if_neg hclosed] at hbase
    exact h.quiet_step hbase (fun _ _ => .refl _) rfl (.inr rfl) fun c' e => by cases e

theorem crossInv_step [ArraySort] {env : Env} (h : CrossInv st (pre ++ .running c :: post))
    (hv : Visible st (pre ++ .running c :: post) c) (hs : Step env st c st' t) :
    CrossInv st' (pre ++ t :: post) := by
  have hbase := base_step h.base hs
  have hsame : ∀ key side, (bookSide st.orderBooks key side).Sublist (bookSide st.orderBooks key side) :=
    fun _ _ => .refl _
  cases hs with
  | stop => exact h.quiet_step hbase hsame rfl (.inr rfl) fun c' e => by cases e
  | save hvalid ho =>
    refine h.save rfl (by rw [ho]; rfl) ?_
    rw [ho]
    exact ⟨h.ready.here, validate_ok hvalid⟩
  | matched => exact h.matched hv
  | persist hp =>
    obtain ⟨-, -, rfl⟩ := createOrder.persist_ok hp
    exact h.quiet_step hbase hsame rfl (.inl rfl) fun c' e => by cases e; trivial
  | abort => exact h.quiet_step hbase hsame rfl (.inr rfl) fun c' e => by cases e
  | rest => exact h.rest hv
  | read => exact h.quiet_step hbase hsame rfl (.inr rfl) fun c' e => by cases e; trivial
  | remove =>
    exact h.quiet_step hbase (remove_sublist _ _) rfl (.inr rfl) fun c' e => by cases e; trivial
  | write => exact h.quiet_step hbase hsame rfl (.inr rfl) fun c' e => by cases e; trivial

end Step

/-! ## Whole interleavings -/

theorem CrossInv.limitsUncrossed {st : State} {ts : List CallTask} (h : CrossInv st ts) :
    LimitsUncrossed st := by
  intro key b hb a ha htb hta p q hp hq
  obtain ⟨hbk, hbs⟩ := h.base.placed.placed key .buy b hb
  obtain ⟨hak, has⟩ := h.base.placed.placed key .sell a ha
  by_contra hle
  refine h.uncrossed b a (.inl (h.base.placed.inBook hb)) (.inl (h.base.placed.inBook ha)) htb hta
    (hak.trans hbk.symm) (by rw [has, hbs]; rfl) ⟨p, q, hp, hq, ?_⟩
  rw [hbs]
  exact not_lt.mp hle

abbrev VisibleStep :
    Conf State Call (Except HttpError Unit) → Act Env CallOp → Prop :=
  Meets CallOp.Positive fun _ c st ts => Visible st ts c

theorem crossInv_run [ArraySort] (c : Conf State Call (Except HttpError Unit)) (a : Act Env CallOp)
    (h : CrossInv c.shared c.tasks) (hG : VisibleStep c a) :
    CrossInv (engine.step c a).shared (engine.step c a).tasks := by
  refine step_inv engine ?_ ?_ c a h hG
  · rintro s ts op hop ⟨hbase, hsorted, hready, hun⟩
    have hleaving : leaving (ts ++ [Task.running (engine.start op)]) = leaving ts := by
      simp [leaving, leftBy, engine, Call.left?]
    refine ⟨hbase.spawn op, hsorted, hready.spawn hop, fun x y hx hy => ?_⟩
    rw [Live, hleaving] at hx hy
    exact hun x y hx hy
  · exact fun s pre k post env hv h => crossInv_step h hv (advance_step env k s)

/-- Limit orders do not cross once all calls have completed, in the interleavings that let every
limit order see what it crosses. -/
theorem always_limitsUncrossed [ArraySort] (acts : List (Act Env CallOp))
    (hG : Along engine.step VisibleStep (Conf.init State.empty) acts) :
    Always engine.step (fun c => c.Quiet → LimitsUncrossed c.shared) (Conf.init State.empty) acts := by
  refine always_of_inv (I := fun c => CrossInv c.shared c.tasks)
    (P := fun c => c.Quiet → LimitsUncrossed c.shared) (fun _ h _ => h.limitsUncrossed)
    crossInv_run ?_ hG
  refine ⟨base_init, ⟨fun _ _ _ hx => (by cases hx), fun _ _ => List.Pairwise.nil⟩, AllRunning.nil, ?_⟩
  rintro x y (hx | ⟨hx, -⟩) <;> cases hx

end Trading
end TradeCore
