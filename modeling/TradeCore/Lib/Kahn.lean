import Mathlib.Algebra.Order.BigOperators.Group.Finset
import Mathlib.Algebra.Ring.Nat
import Mathlib.Logic.Relation
import Mathlib.Order.WellFounded
import Mathlib.Data.Fintype.EquivFin
import Mathlib.Data.Fintype.Sets

/-!
# TradeCore.Lib.Kahn

What a topological sort by counting relies on. An entry of a list becomes ready when the entries in
front of it have brought it as much as it needs; the weight of an edge is what its source brings to
its target. In a list that is `Fed` everybody stands behind enough weight, and a set is `Starved` when
none of its members gets enough from outside: the members of a starved set are exactly the ones that
can never become ready (`complete_iff`). With weight one on every edge, readiness is the readiness of
all sources (`source_mem`); heavier edges break that.
-/

namespace Lib

open Relation

section Kahn

variable {α : Type} (weight : α → α → Nat) (need : α → Nat)

def inflow (done : List α) (v : α) : Nat := (done.map fun u => weight u v).sum

def Fed (order : List α) : Prop :=
  ∀ pre v post, order = pre ++ v :: post → need v ≤ inflow weight pre v

def Starved [DecidableEq α] (univ members : Finset α) : Prop :=
  ∀ v ∈ members, ∑ u ∈ univ \ members, weight u v < need v

variable {weight need}

@[simp] theorem inflow_nil (v : α) : inflow weight [] v = 0 := rfl

@[simp] theorem inflow_append (xs ys : List α) (v : α) :
    inflow weight (xs ++ ys) v = inflow weight xs v + inflow weight ys v := by
  simp [inflow]

@[simp] theorem inflow_singleton (u v : α) : inflow weight [u] v = weight u v := by
  simp [inflow]

theorem Fed.snoc {order : List α} {v : α} (h : Fed weight need order)
    (hv : need v ≤ inflow weight order v) : Fed weight need (order ++ [v]) := by
  intro pre u post heq
  rcases List.eq_nil_or_concat post with rfl | ⟨post, z, rfl⟩
  · obtain ⟨rfl, hvu⟩ := List.append_inj' heq rfl
    cases hvu
    exact hv
  · rw [List.concat_eq_append, ← List.cons_append, ← List.append_assoc] at heq
    exact h pre u post (List.append_inj' heq rfl).1

theorem Fed.of_append {xs ys : List α} (h : Fed weight need (xs ++ ys)) : Fed weight need xs := by
  intro pre v post heq
  exact h pre v (post ++ ys) (by simp [heq])

variable [DecidableEq α]

theorem inflow_eq_sum {done : List α} (h : done.Nodup) (v : α) :
    inflow weight done v = ∑ u ∈ done.toFinset, weight u v :=
  (List.sum_toFinset _ h).symm

/-- Nobody in a starved set ever becomes ready. -/
theorem Fed.disjoint {univ members : Finset α} {order : List α} (h : Fed weight need order)
    (hn : order.Nodup) (hu : ∀ v ∈ order, v ∈ univ) (hs : Starved weight need univ members) :
    ∀ v ∈ order, v ∉ members := by
  induction order using List.reverseRecOn with
  | nil => simp
  | append_singleton order u ih =>
    have hn' : order.Nodup := hn.of_append_left
    have ih := ih h.of_append hn' fun v hv => hu v (List.mem_append_left _ hv)
    intro v hv
    rcases List.mem_append.mp hv with hv | hv
    · exact ih v hv
    rw [List.mem_singleton] at hv
    subst hv
    intro hmem
    have hle : inflow weight order v ≤ ∑ u ∈ univ \ members, weight u v := by
      rw [inflow_eq_sum hn']
      refine Finset.sum_le_sum_of_subset fun u hu' => ?_
      have hu' := List.mem_toFinset.mp hu'
      exact Finset.mem_sdiff.mpr ⟨hu u (List.mem_append_left _ hu'), ih u hu'⟩
    have hneed := h order v [] rfl
    have hlt := hs v hmem
    omega

/-- What is left over when nobody else is ready is starved. -/
theorem starved_sdiff {univ : Finset α} {order : List α} (hn : order.Nodup)
    (hu : ∀ v ∈ order, v ∈ univ)
    (hrest : ∀ v ∈ univ, v ∉ order → inflow weight order v < need v) :
    Starved weight need univ (univ \ order.toFinset) := by
  intro v hv
  obtain ⟨hvu, hvo⟩ := Finset.mem_sdiff.mp hv
  have hsub : order.toFinset ⊆ univ := fun u h => hu u (List.mem_toFinset.mp h)
  rw [Finset.sdiff_sdiff_eq_self hsub, ← inflow_eq_sum hn]
  exact hrest v hvu fun h => hvo (List.mem_toFinset.mpr h)

theorem complete_iff {univ : Finset α} {order : List α} (h : Fed weight need order)
    (hn : order.Nodup) (hu : ∀ v ∈ order, v ∈ univ)
    (hrest : ∀ v ∈ univ, v ∉ order → inflow weight order v < need v) :
    (∀ v ∈ univ, v ∈ order) ↔
      ¬ ∃ members ⊆ univ, members.Nonempty ∧ Starved weight need univ members := by
  constructor
  · rintro hall ⟨members, hsub, ⟨v, hv⟩, hs⟩
    exact h.disjoint hn hu hs v (hall v (hsub hv)) hv
  · intro hno v hv
    by_contra hvo
    refine hno ⟨univ \ order.toFinset, Finset.sdiff_subset, ⟨v, ?_⟩, starved_sdiff hn hu hrest⟩
    exact Finset.mem_sdiff.mpr ⟨hv, fun h => hvo (List.mem_toFinset.mp h)⟩

/-- A source without which the others bring too little stands in front. -/
theorem Fed.source_mem {pre post : List α} {u v : α} {univ : Finset α}
    (h : Fed weight need (pre ++ v :: post)) (hn : pre.Nodup) (hu : ∀ x ∈ pre, x ∈ univ)
    (hlt : ∑ x ∈ univ.erase u, weight x v < need v) : u ∈ pre := by
  by_contra hup
  have hneed := h pre v post rfl
  rw [inflow_eq_sum hn] at hneed
  have hle : ∑ x ∈ pre.toFinset, weight x v ≤ ∑ x ∈ univ.erase u, weight x v := by
    refine Finset.sum_le_sum_of_subset fun x hx => ?_
    have hx := List.mem_toFinset.mp hx
    exact Finset.mem_erase.mpr ⟨fun hxu => hup (hxu ▸ hx), hu x hx⟩
  omega

/-- Without a cycle no set is starved: one of its members has all its sources outside. -/
theorem not_starved_of_acyclic {R : α → α → Prop} {univ members : Finset α}
    (hac : ∀ v, ¬ TransGen R v v)
    (hneed : ∀ v ∈ members, need v ≤ ∑ u ∈ univ \ members, weight u v ∨ ∃ u ∈ members, R u v)
    (hne : members.Nonempty) : ¬ Starved weight need univ members := by
  intro hs
  have hsource : ∀ v : members, ∃ u : members, R u v := by
    intro v
    rcases hneed v v.2 with h | ⟨u, hu, hR⟩
    · have := hs v v.2
      omega
    · exact ⟨⟨u, hu⟩, hR⟩
  have hwf : WellFounded fun u v : members => TransGen R u v := by
    have htrans : IsTrans members fun u v => TransGen R u v := ⟨fun _ _ _ => TransGen.trans⟩
    have hirr : Std.Irrefl fun u v : members => TransGen R u v := ⟨fun v => hac v⟩
    exact Finite.wellFounded_of_trans_of_irrefl _
  obtain ⟨v, hv⟩ := hne
  obtain ⟨m, -, hmin⟩ := hwf.has_min Set.univ ⟨⟨v, hv⟩, trivial⟩
  obtain ⟨u, hu⟩ := hsource m
  exact hmin u trivial (TransGen.single hu)

end Kahn

end Lib
