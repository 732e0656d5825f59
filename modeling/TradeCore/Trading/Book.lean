import TradeCore.Lib.StableSort
import TradeCore.Trading.Match

/-!
# TradeCore.Trading.Book

The books, side by side. `bookSide books key side` is one side of one book, empty when there is no
book yet; the three functions that change the books are described by what they do to it.

`Placed` says that the orders of a side belong there and stand there once, `Sorted` that they have a
price and are sorted by it. Taking orders out keeps both (`Placed.mono`, `Sorted.mono`), and so does
adding a new order (`Placed.add`), for `Sorted` one with a price (`Sorted.add`).
-/

namespace TradeCore
namespace Trading

open Lib Lib.Exact

def bookSide (books : String → Option OrderBook) (key : String) (side : OrderSide) : List Order :=
  match books key with
  | none => []
  | some book => book.side side

theorem side_setSide (book : OrderBook) (s s' : OrderSide) (l : List Order) :
    (book.setSide s l).side s' = if s' = s then l else book.side s' := by
  cases s <;> cases s' <;> rfl

variable {books : String → Option OrderBook} {key : String} {side : OrderSide} {o : Order}

/-- Writing one side of one book. -/
theorem bookSide_update {book : OrderBook} (hbook : ∀ s, book.side s = bookSide books key s)
    (l : List Order) (s : OrderSide) (key' : String) (s' : OrderSide) :
    bookSide (Function.update books key (some (book.setSide s l))) key' s' =
      if key' = key ∧ s' = s then l else bookSide books key' s' := by
  by_cases hk : key' = key
  · subst hk
    simp only [bookSide, Function.update_self, side_setSide, true_and]
    by_cases hs : s' = s
    · rw [if_pos hs, if_pos hs]
    · rw [if_neg hs, if_neg hs, hbook]
      rfl
  · simp only [bookSide, Function.update_of_ne hk, hk, false_and, if_false]

theorem bookSide_addToOrderBook [ArraySort] (books : String → Option OrderBook) (o : Order) (key : String)
    (side : OrderSide) :
    bookSide (addToOrderBook books o) key side =
      if key = o.assetKey ∧ side = o.side then
        ArraySort.sort (comparePrices o.side) (bookSide books o.assetKey o.side ++ [o])
      else bookSide books key side := by
  have hbook : ∀ s, ((books o.assetKey).getD ⟨[], []⟩).side s = bookSide books o.assetKey s := by
    intro s
    unfold bookSide
    cases books o.assetKey with
    | none => cases s <;> rfl
    | some b => rfl
  unfold addToOrderBook
  dsimp only
  rw [bookSide_update hbook, hbook]

theorem bookSide_removeFromOrderBook (books : String → Option OrderBook) (o : Order) (key : String)
    (side : OrderSide) :
    bookSide (removeFromOrderBook books o) key side =
      if key = o.assetKey ∧ side = o.side then
        (bookSide books o.assetKey o.side).filter (·.id ≠ o.id)
      else bookSide books key side := by
  unfold removeFromOrderBook
  split
  · rename_i hnone
    split
    · rename_i hk
      simp [bookSide, hnone, hk.1]
    · rfl
  · rename_i book hsome
    have hbook : ∀ s, book.side s = bookSide books o.assetKey s := by
      intro s
      simp [bookSide, hsome]
    rw [bookSide_update hbook, hbook]

/-- A match is the loop on the opposite side of the book of the order, whether there is one or not. -/
def bookMatch [Arithmetic] (books : String → Option OrderBook) (fills : Uuid → Fill) (o : Order) : MatchState :=
  matchLoop o fills (bookSide books o.assetKey o.side.opposite)

theorem matchOrder_eq [Arithmetic] (books : String → Option OrderBook) (fills : Uuid → Fill) (o : Order) :
    (matchOrder books fills o).fills = (bookMatch books fills o).fills ∧
      (matchOrder books fills o).trades = (bookMatch books fills o).trades ∧
      (matchOrder books fills o).touchedOrders = (bookMatch books fills o).touched ∧
      ∀ key side, bookSide (matchOrder books fills o).orderBooks key side =
        if key = o.assetKey ∧ side = o.side.opposite then (bookMatch books fills o).oppositeOrders
        else bookSide books key side := by
  unfold matchOrder bookMatch
  cases hb : books o.assetKey with
  | none =>
    have hnil : bookSide books o.assetKey o.side.opposite = [] := by simp [bookSide, hb]
    rw [hnil]
    refine ⟨rfl, rfl, rfl, fun key side => ?_⟩
    dsimp only
    split
    · rename_i hk
      rw [hk.1, hk.2, hnil]
      rfl
    · rfl
  | some book =>
    have hbook : ∀ s, book.side s = bookSide books o.assetKey s := by
      intro s
      simp [bookSide, hb]
    rw [← hbook]
    exact ⟨rfl, rfl, rfl, fun key side => bookSide_update hbook _ _ key side⟩

/-! ## Membership -/

def InBook (books : String → Option OrderBook) (x : Order) : Prop :=
  x ∈ bookSide books x.assetKey x.side

/-- Every order stands on its own side of its own book, and once. -/
structure Placed (books : String → Option OrderBook) : Prop where
  placed : ∀ key side, ∀ x ∈ bookSide books key side, x.assetKey = key ∧ x.side = side
  nodup : ∀ key side, ((bookSide books key side).map Order.id).Nodup
  unique : ∀ x y, InBook books x → InBook books y → x.id = y.id → x = y

theorem Placed.inBook (h : Placed books) {x : Order} (hx : x ∈ bookSide books key side) :
    InBook books x := by
  obtain ⟨rfl, rfl⟩ := h.placed key side x hx
  exact hx

theorem Placed.mono {books' : String → Option OrderBook} (h : Placed books)
    (hsub : ∀ key side, (bookSide books' key side).Sublist (bookSide books key side)) :
    Placed books' where
  placed key side x hx := h.placed key side x ((hsub key side).subset hx)
  nodup key side := (h.nodup key side).sublist ((hsub key side).map _)
  unique x y hx hy := h.unique x y ((hsub _ _).subset hx) ((hsub _ _).subset hy)

theorem mem_addToOrderBook [ArraySort] {x : Order} :
    x ∈ bookSide (addToOrderBook books o) key side ↔
      x ∈ bookSide books key side ∨ x = o ∧ key = o.assetKey ∧ side = o.side := by
  rw [bookSide_addToOrderBook]
  split
  · rename_i h
    rw [(ArraySort.sort_perm _ _).mem_iff, h.1, h.2]
    simp
  · rename_i h
    simp [h]

theorem inBook_add [ArraySort] {x : Order} : InBook (addToOrderBook books o) x ↔ InBook books x ∨ x = o := by
  unfold InBook
  rw [mem_addToOrderBook]
  refine or_congr_right ⟨fun h => h.1, ?_⟩
  rintro rfl
  exact ⟨rfl, rfl, rfl⟩

theorem Placed.add [ArraySort] (h : Placed books) (hfresh : ∀ x, InBook books x → x.id ≠ o.id) :
    Placed (addToOrderBook books o) where
  placed key side x hx := by
    rcases mem_addToOrderBook.mp hx with hx | ⟨rfl, rfl, rfl⟩
    · exact h.placed key side x hx
    · exact ⟨rfl, rfl⟩
  nodup key side := by
    rw [bookSide_addToOrderBook]
    split
    · rw [((ArraySort.sort_perm _ _).map _).nodup_iff, List.map_append, List.nodup_append]
      refine ⟨h.nodup _ _, by simp, ?_⟩
      intro i hi j hj
      obtain ⟨x, hx, rfl⟩ := List.mem_map.mp hi
      simp only [List.map_cons, List.map_nil, List.mem_singleton] at hj
      rw [hj]
      exact hfresh x (h.inBook hx)
    · exact h.nodup key side
  unique x y hx hy hid := by
    rcases inBook_add.mp hx with hx' | hx'
    · rcases inBook_add.mp hy with hy' | hy'
      · exact h.unique x y hx' hy' hid
      · exact absurd (hy' ▸ hid) (hfresh x hx')
    · rcases inBook_add.mp hy with hy' | hy'
      · exact absurd (hx' ▸ hid.symm) (hfresh y hy')
      · rw [hx', hy']

theorem remove_sublist (books : String → Option OrderBook) (o : Order) (key : String)
    (side : OrderSide) :
    (bookSide (removeFromOrderBook books o) key side).Sublist (bookSide books key side) := by
  rw [bookSide_removeFromOrderBook]
  split
  · rename_i h
    rw [h.1, h.2]
    exact List.filter_sublist
  · exact .refl _

/-- A removal takes out the orders with the id, and no others. -/
theorem inBook_remove {x : Order} (hsame : x.id = o.id → x = o) :
    InBook (removeFromOrderBook books o) x ↔ InBook books x ∧ x ≠ o := by
  unfold InBook
  rw [bookSide_removeFromOrderBook]
  split
  · rename_i hk
    rw [List.mem_filter, ← hk.1, ← hk.2]
    simp only [decide_eq_true_eq]
    exact and_congr_right fun _ => ⟨fun hne e => hne (by rw [e]), fun hne e => hne (hsame e)⟩
  · rename_i hk
    refine ⟨fun hx => ⟨hx, ?_⟩, fun hx => hx.1⟩
    rintro rfl
    exact hk ⟨rfl, rfl⟩

theorem Placed.toSide (h : Placed books) (hfresh : ∀ x, InBook books x → x.id ≠ o.id)
    (key : String) (s : OrderSide) : Side o (bookSide books key s) :=
  ⟨h.nodup key s, fun x hx => (hfresh x (h.inBook hx)).symm⟩

/-- A match leaves a part of the opposite side, and the other sides alone. -/
theorem match_sublist (h : Placed books) (hfresh : ∀ x, InBook books x → x.id ≠ o.id)
    (fills : Uuid → Fill) (key : String) (side : OrderSide) :
    (bookSide (matchOrder books fills o).orderBooks key side).Sublist (bookSide books key side) := by
  rw [(matchOrder_eq books fills o).2.2.2]
  split
  · rename_i hk
    obtain ⟨popped, hsplit, -⟩ := (matchLoop_walk fills (h.toSide hfresh _ _)).split
    rw [hk.1, hk.2, hsplit]
    exact List.sublist_append_right _ _
  · exact .refl _

section Touched

variable {x : Order}

theorem match_touched_mem (h : Placed books) (hfresh : ∀ x, InBook books x → x.id ≠ o.id)
    (fills : Uuid → Fill) (hx : x ∈ (matchOrder books fills o).touchedOrders) :
    x ∈ bookSide books o.assetKey o.side.opposite := by
  rw [(matchOrder_eq books fills o).2.2.1] at hx
  exact (matchLoop_walk fills (h.toSide hfresh _ _)).touched x hx

/-- An object that is neither the new one nor touched stays as it is. -/
theorem match_frame_of_touched (h : Placed books) (hfresh : ∀ x, InBook books x → x.id ≠ o.id)
    (fills : Uuid → Fill) {id : Uuid} (ho : id ≠ o.id)
    (hid : ∀ x ∈ (matchOrder books fills o).touchedOrders, x.id ≠ id) :
    (matchOrder books fills o).fills id = fills id := by
  have hwalk := matchLoop_walk fills (h.toSide hfresh o.assetKey o.side.opposite)
  rw [(matchOrder_eq books fills o).2.2.1] at hid
  rw [(matchOrder_eq books fills o).1]
  refine hwalk.frame id fun t ht hn => ?_
  obtain ⟨y, hy, q, rfl⟩ := hwalk.trades t ht
  exact (tradeOf_names.mp hn).elim (fun e => ho e.symm) (hid y hy)

theorem match_unnamed (h : Placed books) (hfresh : ∀ x, InBook books x → x.id ≠ o.id)
    (fills : Uuid → Fill) {id : Uuid} (hid : ∀ t ∈ (matchOrder books fills o).trades, ¬ t.Names id) :
    (matchOrder books fills o).fills id = fills id := by
  rw [(matchOrder_eq books fills o).2.1] at hid
  rw [(matchOrder_eq books fills o).1]
  exact (matchLoop_walk fills (h.toSide hfresh _ _)).frame id hid

/-- A trade names the new order and one that was touched. -/
theorem match_names (h : Placed books) (hfresh : ∀ x, InBook books x → x.id ≠ o.id)
    (fills : Uuid → Fill) {t : Trade} (ht : t ∈ (matchOrder books fills o).trades) {id : Uuid}
    (hid : t.Names id) : ∃ x ∈ o :: (matchOrder books fills o).touchedOrders, x.id = id := by
  rw [(matchOrder_eq books fills o).2.1] at ht
  rw [(matchOrder_eq books fills o).2.2.1]
  obtain ⟨x, hx, q, rfl⟩ := (matchLoop_walk fills (h.toSide hfresh _ _)).trades t ht
  rcases tradeOf_names.mp hid with e | e
  · exact ⟨o, .head _, e⟩
  · exact ⟨x, .tail _ hx, e⟩

/-- A match fills the objects as its trades say. -/
theorem match_traded (h : Placed books) (hfresh : ∀ x, InBook books x → x.id ≠ o.id)
    (fills : Uuid → Fill) (id : Uuid) :
    ((matchOrder books fills o).fills id).filledQuantity =
      (fills id).filledQuantity + traded id (matchOrder books fills o).trades := by
  rw [(matchOrder_eq books fills o).1, (matchOrder_eq books fills o).2.1]
  exact matchLoop_traded (h.toSide hfresh _ _) id

theorem match_untouched (h : Placed books) (hfresh : ∀ x, InBook books x → x.id ≠ o.id)
    (fills : Uuid → Fill) (hx : InBook books x)
    (hnot : x ∉ (matchOrder books fills o).touchedOrders) :
    (matchOrder books fills o).fills x.id = fills x.id := by
  refine match_frame_of_touched h hfresh fills (hfresh x hx) fun y hy e => hnot ?_
  have hyb := h.inBook (match_touched_mem h hfresh fills hy)
  exact h.unique y x hyb hx e ▸ hy

theorem match_frame (h : Placed books) (hfresh : ∀ x, InBook books x → x.id ≠ o.id)
    (fills : Uuid → Fill) (hx : InBook books x)
    (helse : ¬ (x.assetKey = o.assetKey ∧ x.side = o.side.opposite)) :
    (matchOrder books fills o).fills x.id = fills x.id :=
  match_untouched h hfresh fills hx fun ht =>
    helse (h.placed _ _ x (match_touched_mem h hfresh fills ht))

/-- An order that stays in the books keeps its status. -/
theorem match_kept (h : Placed books) (hfresh : ∀ x, InBook books x → x.id ≠ o.id)
    (fills : Uuid → Fill) (hx : InBook (matchOrder books fills o).orderBooks x) :
    ((matchOrder books fills o).fills x.id).status = (fills x.id).status := by
  by_cases hk : x.assetKey = o.assetKey ∧ x.side = o.side.opposite
  · rw [InBook, (matchOrder_eq books fills o).2.2.2, if_pos hk] at hx
    rw [(matchOrder_eq books fills o).1]
    exact (matchLoop_walk fills (h.toSide hfresh _ _)).kept x hx
  · rw [match_frame h hfresh fills ((match_sublist h hfresh fills _ _).subset hx) hk]

/-- An order that leaves the books has been touched and filled. -/
theorem match_gone (h : Placed books) (hfresh : ∀ x, InBook books x → x.id ≠ o.id)
    (fills : Uuid → Fill) (hx : InBook books x)
    (hgone : ¬ InBook (matchOrder books fills o).orderBooks x) :
    x ∈ (matchOrder books fills o).touchedOrders ∧
      ((matchOrder books fills o).fills x.id).status = .filled := by
  rw [InBook, (matchOrder_eq books fills o).2.2.2] at hgone
  split at hgone
  · rename_i hk
    rw [InBook, hk.1, hk.2] at hx
    obtain ⟨popped, hsplit, hpop⟩ := (matchLoop_walk fills (h.toSide hfresh _ _)).split
    rw [hsplit] at hx
    rw [(matchOrder_eq books fills o).1, (matchOrder_eq books fills o).2.2.1]
    exact hpop x ((List.mem_append.mp hx).resolve_right hgone)
  · exact absurd hx hgone

end Touched

/-! ## Order -/

theorem precedes_of_not {a b : Order} (h : ¬ Precedes side a b) : Precedes side b a := by
  unfold Precedes at h ⊢
  split at h
  · rename_i p q hp hq
    simp only [hp, hq]
    cases side with
    | buy => exact (not_le.mp h).le
    | sell => exact (not_le.mp h).le
  · exact absurd trivial h

theorem precedes_trans {a b c : Order} (hb : Priced b.price) (hab : Precedes side a b)
    (hbc : Precedes side b c) : Precedes side a c := by
  obtain ⟨q, hq⟩ := Option.ne_none_iff_exists'.mp hb.1
  unfold Precedes at hab hbc ⊢
  split
  · rename_i p r hp hr
    simp only [hp, hq, hr] at hab hbc
    cases side with
    | buy => exact le_trans (show r ≤ q from hbc) hab
    | sell => exact le_trans (show p ≤ q from hab) hbc
  · trivial

theorem sort_priced [ArraySort] {l : List Order} (h : ∀ x ∈ l, Priced x.price) :
    ArraySort.sort (comparePrices side) l = l.insertionSort (Precedes side) := by
  have hprice : ∀ x ∈ l, x.price = some (x.price.getD 0) := by
    intro x hx
    obtain ⟨p, hp⟩ := Option.ne_none_iff_exists'.mp (h x hx).1
    rw [hp]
    rfl
  -- the bids go by the price turned around
  cases side with
  | buy =>
    rw [ArraySort.sort_eq fun x : Order => OrderDual.toDual (x.price.getD 0)]
    · refine insertionSort_congr fun a ha b hb => ?_
      rw [Precedes, hprice a ha, hprice b hb]
      rfl
    · intro a ha b hb
      rw [comparePrices, hprice a ha, hprice b hb]
      exact congrArg some (cmp_toDual _ _).symm
  | sell =>
    rw [ArraySort.sort_eq fun x : Order => x.price.getD 0]
    · refine insertionSort_congr fun a ha b hb => ?_
      rw [Precedes, hprice a ha, hprice b hb]
      rfl
    · intro a ha b hb
      rw [comparePrices, hprice a ha, hprice b hb]
      rfl

/-- Every side is sorted by price, and every order in it has one. -/
structure Sorted (books : String → Option OrderBook) : Prop where
  priced : ∀ key side, ∀ x ∈ bookSide books key side, Priced x.price
  sorted : ∀ key side, (bookSide books key side).Pairwise (Precedes side)

theorem Sorted.mono {books' : String → Option OrderBook} (h : Sorted books)
    (hsub : ∀ key side, (bookSide books' key side).Sublist (bookSide books key side)) :
    Sorted books' where
  priced key side x hx := h.priced key side x ((hsub key side).subset hx)
  sorted key side := (h.sorted key side).sublist (hsub key side)

/-- Sorting again carries over any order `R` finer than the price that puts the new order behind the
equal ones. -/
theorem pairwise_add [ArraySort] (h : Sorted books) (hp : Priced o.price) {R : OrderSide → Order → Order → Prop}
    (hR : ∀ side a b, R side a b → Precedes side a b)
    (hpair : ∀ key side, (bookSide books key side).Pairwise (R side))
    (before : ∀ a ∈ bookSide books o.assetKey o.side, Precedes o.side a o → R o.side a o)
    (after : ∀ a ∈ bookSide books o.assetKey o.side, ¬ Precedes o.side a o → R o.side o a)
    (key : String) (side : OrderSide) :
    (bookSide (addToOrderBook books o) key side).Pairwise (R side) := by
  rw [bookSide_addToOrderBook]
  split
  · rename_i hk
    rw [hk.2]
    have htrans : ∀ a ∈ bookSide books o.assetKey o.side, ∀ b ∈ bookSide books o.assetKey o.side,
        Precedes o.side a b → Precedes o.side b o → Precedes o.side a o :=
      fun a _ b hb => precedes_trans (h.priced _ _ b hb)
    have hpriced : ∀ x ∈ bookSide books o.assetKey o.side ++ [o], Priced x.price := by
      intro x hx
      rcases List.mem_append.mp hx with hx | hx
      · exact h.priced _ _ x hx
      · exact List.mem_singleton.mp hx ▸ hp
    rw [sort_priced hpriced, insertionSort_append htrans (h.sorted _ _)]
    exact pairwise_insertLast htrans (hR o.side) (hpair _ _) before after
  · exact hpair key side

theorem Sorted.add [ArraySort] (h : Sorted books) (hp : Priced o.price) : Sorted (addToOrderBook books o) where
  priced key side x hx := by
    rcases mem_addToOrderBook.mp hx with hx | ⟨rfl, -, -⟩
    · exact h.priced key side x hx
    · exact hp
  sorted := pairwise_add h hp (fun _ _ _ hab => hab) h.sorted (fun _ _ hab => hab)
    fun _ _ hab => precedes_of_not hab

/-- What a match leaves of the order crosses nothing that it leaves in the books. -/
theorem match_uncrossed {fills : Uuid → Fill} (hp : Placed books) (hs : Sorted books)
    (hfresh : ∀ x, InBook books x → x.id ≠ o.id) (hnew : New (fills o.id)) (hq : 0 < o.quantity)
    (hlimit : o.type = .limit → Priced o.price)
    (hopen : ((matchOrder books fills o).fills o.id).status ∈ openStatuses) {x : Order}
    (hx : InBook (matchOrder books fills o).orderBooks x) (hkey : x.assetKey = o.assetKey)
    (hside : x.side = o.side.opposite) : ¬ Crosses o x := by
  rw [(matchOrder_eq books fills o).1] at hopen
  refine matchLoop_uncrossed (hp.toSide hfresh _ _) hnew hq (hs.sorted _ _) (hs.priced _ _) hlimit
    hopen x ?_
  rwa [InBook, (matchOrder_eq books fills o).2.2.2, if_pos ⟨hkey, hside⟩] at hx

end Trading
end TradeCore
