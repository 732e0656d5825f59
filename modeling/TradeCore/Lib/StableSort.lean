import Mathlib.Data.List.Sort

/-!
# TradeCore.Lib.StableSort

Appending one element to a sorted list and sorting again with a stable sort puts the element
behind every element it does not precede. `insertLast` is that position; `insertionSort_append`
says the sort computes it, and `pairwise_insertLast` carries an order `R` finer than the sorted
one (a tie-break) over the insertion.
-/

namespace Lib

section StableSort

variable {α : Type} {r R : α → α → Prop} [DecidableRel r]

def insertLast (r : α → α → Prop) [DecidableRel r] (x : α) : List α → List α
  | [] => [x]
  | a :: l => if r a x then a :: insertLast r x l else x :: a :: l

theorem insertLast_of_not {x : α} {l : List α} (h : ∀ a ∈ l, ¬ r a x) :
    insertLast r x l = x :: l := by
  cases l with
  | nil => rfl
  | cons a l => rw [insertLast, if_neg (h a (by simp))]

theorem insertLast_perm (x : α) (l : List α) : (insertLast r x l).Perm (x :: l) := by
  induction l with
  | nil => exact .refl _
  | cons a l ih =>
    rw [insertLast]
    split
    · exact (ih.cons a).trans (.swap x a l)
    · exact .refl _

theorem mem_insertLast {x y : α} {l : List α} : y ∈ insertLast r x l ↔ y = x ∨ y ∈ l :=
  (insertLast_perm x l).mem_iff.trans List.mem_cons

theorem orderedInsert_congr {r' : α → α → Prop} [DecidableRel r'] {a : α} {l : List α}
    (h : ∀ b ∈ l, (r a b ↔ r' a b)) : l.orderedInsert r a = l.orderedInsert r' a := by
  induction l with
  | nil => rfl
  | cons b l ih =>
    have hb := h b (.head _)
    rw [List.orderedInsert_cons, List.orderedInsert_cons, ih fun c hc => h c (.tail _ hc)]
    by_cases hab : r a b
    · rw [if_pos hab, if_pos (hb.mp hab)]
    · rw [if_neg hab, if_neg (mt hb.mpr hab)]

omit [DecidableRel r] in
/-- Behind the first element that `x` precedes, `x` precedes everything. -/
theorem not_rel_tail {x a : α} {l : List α} (ht : ∀ b ∈ l, r a b → r b x → r a x)
    (hl : ∀ b ∈ l, r a b) (ha : ¬ r a x) : ∀ b ∈ l, ¬ r b x :=
  fun b hb hbx => ha (ht b hb (hl b hb) hbx)

theorem insertionSort_congr {r' : α → α → Prop} [DecidableRel r'] {l : List α}
    (h : ∀ a ∈ l, ∀ b ∈ l, (r a b ↔ r' a b)) : l.insertionSort r = l.insertionSort r' := by
  induction l with
  | nil => rfl
  | cons a l ih =>
    rw [List.insertionSort_cons, List.insertionSort_cons,
      ih fun b hb c hc => h b (.tail _ hb) c (.tail _ hc)]
    exact orderedInsert_congr fun b hb => h a (.head _) b (.tail _ ((List.mem_insertionSort r').mp hb))

/-- The relation only has to be transitive on the way to `x`. -/
theorem insertionSort_append {x : α} {l : List α}
    (ht : ∀ a ∈ l, ∀ b ∈ l, r a b → r b x → r a x) (hl : l.Pairwise r) :
    (l ++ [x]).insertionSort r = insertLast r x l := by
  induction l with
  | nil => rfl
  | cons a l ih =>
    obtain ⟨hal, hl'⟩ := List.pairwise_cons.mp hl
    have ht' : ∀ b ∈ l, ∀ c ∈ l, r b c → r c x → r b x :=
      fun b hb c hc => ht b (.tail _ hb) c (.tail _ hc)
    rw [List.cons_append, List.insertionSort_cons, ih ht' hl', insertLast]
    by_cases hax : r a x
    · rw [if_pos hax]
      have hall : ∀ b ∈ insertLast r x l, r a b := by
        intro b hb
        rcases mem_insertLast.mp hb with rfl | hb
        · exact hax
        · exact hal b hb
      cases hins : insertLast r x l with
      | nil => rfl
      | cons b bs => rw [List.orderedInsert_cons, if_pos (hall b (by simp [hins]))]
    · have hrest : ∀ b ∈ l, ¬ r b x :=
        not_rel_tail (fun b hb => ht a (.head _) b (.tail _ hb)) hal hax
      rw [if_neg hax, insertLast_of_not hrest, List.orderedInsert_cons, if_neg hax]
      cases l with
      | nil => rfl
      | cons b bs => rw [List.orderedInsert_cons, if_pos (hal b (by simp))]

theorem pairwise_insertLast {x : α} {l : List α}
    (ht : ∀ a ∈ l, ∀ b ∈ l, r a b → r b x → r a x) (hRr : ∀ a b, R a b → r a b)
    (hl : l.Pairwise R) (before : ∀ a ∈ l, r a x → R a x) (after : ∀ a ∈ l, ¬ r a x → R x a) :
    (insertLast r x l).Pairwise R := by
  induction l with
  | nil => exact List.pairwise_singleton R x
  | cons a l ih =>
    obtain ⟨hal, hl'⟩ := List.pairwise_cons.mp hl
    rw [insertLast]
    by_cases hax : r a x
    · rw [if_pos hax, List.pairwise_cons]
      refine ⟨fun b hb => ?_, ih (fun b hb c hc => ht b (.tail _ hb) c (.tail _ hc)) hl'
        (fun b hb => before b (by simp [hb])) (fun b hb => after b (by simp [hb]))⟩
      rcases mem_insertLast.mp hb with rfl | hb
      · exact before a (by simp) hax
      · exact hal b hb
    · rw [if_neg hax, List.pairwise_cons]
      refine ⟨fun b hb => after b hb ?_, hl⟩
      rcases List.mem_cons.mp hb with rfl | hb
      · exact hax
      · exact not_rel_tail (fun c hc => ht a (.head _) c (.tail _ hc))
          (fun c hc => hRr _ _ (hal c hc)) hax b hb

end StableSort

end Lib
