import TradeCore.Lib.Table
import Mathlib.Data.List.Sort
import Mathlib.Data.List.Perm.Basic

/-!
# TradeCore.Lib.SortedIndex

A table of rows and a list of their keys in ascending order, kept beside it as an index.

`Indexes key order t` says that `order` lists the keys of `t` in ascending order, each once. There
is one rule for each way to change the two together: a row behind all others
(`Indexes.append`), a row anywhere and a sort (`Indexes.append_sort`), the first key taken out
(`Indexes.tail`), and the index built again from the rows (`Indexes.of_sort`).
-/

namespace Lib

section SortedIndex

variable {κ α : Type} [LinearOrder κ]

structure Indexes (key : α → κ) (order : List κ) (t : List α) : Prop where
  ascending : order.Pairwise (· < ·)
  perm : order.Perm (t.map key)

variable {key : α → κ} {order : List κ} {t : List α}

namespace Indexes

theorem nil : Indexes key [] [] := ⟨.nil, .nil⟩

theorem nodup (h : Indexes key order t) : (t.map key).Nodup :=
  h.perm.nodup_iff.mp (h.ascending.imp ne_of_lt)

theorem mem_iff (h : Indexes key order t) {k : κ} : k ∈ order ↔ k ∈ t.map key := h.perm.mem_iff

theorem length_eq (h : Indexes key order t) : order.length = t.length := by
  rw [h.perm.length_eq, List.length_map]

/-- Sorting a list without duplicates makes it strictly ascending. -/
theorem of_sort (h : (t.map key).Nodup) : Indexes key ((t.map key).insertionSort (· ≤ ·)) t := by
  have hp := List.perm_insertionSort (· ≤ ·) (t.map key)
  refine ⟨?_, hp⟩
  have hle := List.pairwise_insertionSort (· ≤ ·) (t.map key)
  have hne : ((t.map key).insertionSort (· ≤ ·)).Pairwise (· ≠ ·) := hp.nodup_iff.mpr h
  exact (hle.and hne).imp fun hab => lt_of_le_of_ne hab.1 hab.2

theorem append (h : Indexes key order t) {r : α} (hr : ∀ k ∈ order, k < key r) :
    Indexes key (order ++ [key r]) (t ++ [r]) := by
  refine ⟨List.pairwise_append.mpr ⟨h.ascending, by simp, by simpa using hr⟩, ?_⟩
  simpa using h.perm.append_right [key r]

theorem append_sort (h : Indexes key order t) {r : α} (hr : key r ∉ order) :
    Indexes key ((order ++ [key r]).insertionSort (· ≤ ·)) (t ++ [r]) := by
  have hp : (order ++ [key r]).Perm ((t ++ [r]).map key) := by
    simpa using h.perm.append_right [key r]
  have hn : ((t ++ [r]).map key).Nodup := by
    rw [List.map_append, List.map_singleton, List.nodup_append]
    refine ⟨h.nodup, by simp, ?_⟩
    rintro k hk k' hk' rfl
    rw [List.mem_singleton] at hk'
    exact hr (hk' ▸ h.mem_iff.mpr hk)
  have hs : (order ++ [key r]).insertionSort (· ≤ ·) = ((t ++ [r]).map key).insertionSort (· ≤ ·) :=
    List.Perm.eq_of_pairwise' (List.pairwise_insertionSort _ _) (List.pairwise_insertionSort _ _)
      ((List.perm_insertionSort _ _).trans (hp.trans (List.perm_insertionSort _ _).symm))
  rw [hs]
  exact of_sort hn

/-- The row of the smallest key leaves with its key. -/
theorem tail {k : κ} (h : Indexes key (k :: order) t) :
    Indexes key order (t.filter fun r => decide (key r ≠ k)) := by
  have hk : k ∉ order := fun hm => lt_irrefl k ((List.pairwise_cons.mp h.ascending).1 k hm)
  refine ⟨(List.pairwise_cons.mp h.ascending).2, ?_⟩
  have hmap : (t.filter fun r => decide (key r ≠ k)).map key
      = (t.map key).filter fun n => decide (n ≠ k) := by
    rw [List.filter_map]
    rfl
  have hf := h.perm.filter fun n => decide (n ≠ k)
  rw [List.filter_cons_of_neg (by simp)] at hf
  rw [hmap]
  refine List.Perm.trans ?_ hf
  rw [List.filter_eq_self.mpr fun n hn => by simpa using ne_of_mem_of_not_mem hn hk]

theorem exists_row (h : Indexes key order t) {k : κ} (hk : k ∈ order) :
    ∃ r ∈ t, key r = k ∧ lookup key k t = some r := by
  obtain ⟨r, hr, rfl⟩ := List.mem_map.mp (h.mem_iff.mp hk)
  exact ⟨r, hr, rfl, lookup_of_mem h.nodup hr⟩

end Indexes

end SortedIndex

end Lib
