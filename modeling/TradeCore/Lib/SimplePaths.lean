import Mathlib.Data.List.Nodup
import Mathlib.Data.List.Infix

/-!
# TradeCore.Lib.SimplePaths

Depth-first enumeration of the simple paths of a directed multigraph. A value travels along the path
and `pass` may stop it at an edge. `simplePaths` never enters a visited vertex and stops at the goal
as soon as it has left the start; `mem_simplePaths` says that it lists exactly the simple paths that
the value gets through, and `nodup_simplePaths` that it lists each of them once.
-/

namespace Lib

section SimplePaths

variable {V E A : Type} (out : V → List E) (target : E → V) (pass : E → A → Option A)

def Leads : V → List E → V → Prop
  | v, [], w => v = w
  | v, e :: es, w => e ∈ out v ∧ Leads (target e) es w

def carry : List E → A → Option A
  | [], a => some a
  | e :: es, a => (pass e a).bind (carry es)

def simplePaths [DecidableEq V] (goal : V) : Nat → Bool → List V → V → A → List (List E)
  | 0, started, _, v, _ => if v = goal ∧ started then [[]] else []
  | hops + 1, started, visited, v, a =>
    if v = goal ∧ started then [[]]
    else
      (out v).flatMap fun e =>
        if target e ∈ v :: visited then []
        else
          match pass e a with
          | none => []
          | some b => (simplePaths goal hops true (v :: visited) (target e) b).map (e :: ·)

/-- A path of at most `hops` edges that enters no vertex twice and none of the visited ones. -/
structure IsSimple (goal : V) (hops : Nat) (started : Bool) (visited : List V) (v : V) (a : A)
    (es : List E) : Prop where
  leads : Leads out target v es goal
  leaves : started = true ∨ es ≠ []
  short : es.length ≤ hops
  nodup : (v :: es.map target).Nodup
  fresh : ∀ u ∈ es.map target, u ∉ visited
  passes : (carry pass es a).isSome

variable {out target pass} {goal v : V} {a : A} {hops : Nat} {started : Bool} {visited : List V}

/-- A simple path that leads from the goal to the goal has no edge. -/
theorem Leads.eq_nil {es : List E} (h : Leads out target v es v) (hn : (v :: es.map target).Nodup) :
    es = [] := by
  have hlast : ∀ (es : List E) (u w : V), Leads out target u es w → es ≠ [] → w ∈ es.map target := by
    intro es
    induction es with
    | nil => exact fun _ _ _ hne => absurd rfl hne
    | cons e es ih =>
      intro u w h _
      cases es with
      | nil => exact List.mem_singleton.mpr h.2.symm
      | cons e' es => exact List.mem_cons_of_mem _ (ih _ w h.2 (List.cons_ne_nil _ _))
  by_contra hne
  exact (List.nodup_cons.mp hn).1 (hlast es v v h hne)

theorem isSimple_cons {e : E} {es : List E} :
    IsSimple out target pass goal (hops + 1) started visited v a (e :: es) ↔
      e ∈ out v ∧ target e ∉ v :: visited ∧
        ∃ b, pass e a = some b ∧
          IsSimple out target pass goal hops true (v :: visited) (target e) b es := by
  constructor
  · rintro ⟨⟨he, hleads⟩, -, hshort, hnodup, hfresh, hpasses⟩
    rw [List.map_cons, List.nodup_cons] at hnodup
    obtain ⟨b, hb, hcarry⟩ : ∃ b, pass e a = some b ∧ (carry pass es b).isSome := by
      cases hp : pass e a with
      | none => simp [carry, hp] at hpasses
      | some b => exact ⟨b, rfl, by simpa [carry, hp] using hpasses⟩
    have hve : v ≠ target e := fun h => hnodup.1 (h ▸ List.mem_cons_self)
    refine ⟨he, ?_, b, hb, hleads, Or.inl rfl, Nat.le_of_succ_le_succ hshort, hnodup.2, ?_, hcarry⟩
    · rw [List.mem_cons, not_or]
      exact ⟨Ne.symm hve, hfresh _ (by simp)⟩
    · intro u hu
      rw [List.mem_cons, not_or]
      exact ⟨fun h => hnodup.1 (h ▸ List.mem_cons_of_mem _ hu), hfresh u (by simp [hu])⟩
  · rintro ⟨he, hnew, b, hb, hleads, -, hshort, hnodup, hfresh, hpasses⟩
    rw [List.mem_cons, not_or] at hnew
    refine ⟨⟨he, hleads⟩, Or.inr (List.cons_ne_nil _ _), Nat.succ_le_succ hshort, ?_, ?_, ?_⟩
    · rw [List.map_cons, List.nodup_cons]
      refine ⟨fun hv => ?_, hnodup⟩
      rcases List.mem_cons.mp hv with hv | hv
      · exact hnew.1 hv.symm
      · exact hfresh v hv List.mem_cons_self
    · intro u hu
      rcases List.mem_cons.mp hu with rfl | hu
      · exact hnew.2
      · exact fun hin => hfresh u hu (List.mem_cons_of_mem _ hin)
    · simpa [carry, hb] using hpasses

theorem isSimple_nil :
    IsSimple out target pass goal hops started visited v a [] ↔ v = goal ∧ started = true :=
  ⟨fun h => ⟨h.leads, h.leaves.resolve_right (by simp)⟩,
    fun h => ⟨h.1, Or.inl h.2, Nat.zero_le _, List.nodup_singleton v, by simp, rfl⟩⟩

theorem IsSimple.eq_nil {es : List E} (h : IsSimple out target pass goal hops started visited v a es)
    (hg : v = goal) : es = [] := by
  subst hg
  exact h.leads.eq_nil h.nodup

variable [DecidableEq V]

theorem simplePaths_goal (h : v = goal ∧ started = true) :
    simplePaths out target pass goal hops started visited v a = [[]] := by
  unfold simplePaths
  split <;> exact if_pos h

theorem mem_simplePaths {es : List E} :
    es ∈ simplePaths out target pass goal hops started visited v a ↔
      IsSimple out target pass goal hops started visited v a es := by
  induction hops generalizing started visited v a es with
  | zero =>
    by_cases hgoal : v = goal ∧ started = true
    · rw [simplePaths_goal hgoal, List.mem_singleton]
      exact ⟨fun h => h ▸ isSimple_nil.mpr hgoal, fun h => h.eq_nil hgoal.1⟩
    unfold simplePaths
    rw [if_neg hgoal]
    refine iff_of_false List.not_mem_nil fun h => hgoal ?_
    have hes : es = [] := List.eq_nil_of_length_eq_zero (Nat.le_zero.mp h.short)
    exact isSimple_nil.mp (hes ▸ h)
  | succ hops ih =>
    by_cases hgoal : v = goal ∧ started = true
    · rw [simplePaths_goal hgoal, List.mem_singleton]
      exact ⟨fun h => h ▸ isSimple_nil.mpr hgoal, fun h => h.eq_nil hgoal.1⟩
    unfold simplePaths
    rw [if_neg hgoal, List.mem_flatMap]
    constructor
    · rintro ⟨e, he, hin⟩
      split at hin
      · cases hin
      · rename_i hnew
        split at hin
        · cases hin
        · rename_i b hb
          obtain ⟨es, hes, rfl⟩ := List.mem_map.mp hin
          exact isSimple_cons.mpr ⟨he, hnew, b, hb, ih.mp hes⟩
    · intro h
      cases es with
      | nil => exact absurd (isSimple_nil.mp h) hgoal
      | cons e es =>
        obtain ⟨he, hnew, b, hb, hes⟩ := isSimple_cons.mp h
        refine ⟨e, he, ?_⟩
        rw [if_neg hnew, hb]
        exact List.mem_map_of_mem (ih.mpr hes)

/-- Parallel edges are told apart, loops do not matter. -/
theorem nodup_simplePaths (hout : ∀ v, (out v).Pairwise fun e e' => e = e' → target e = v) :
    (simplePaths out target pass goal hops started visited v a).Nodup := by
  induction hops generalizing started visited v a with
  | zero =>
    unfold simplePaths
    split
    · exact List.nodup_singleton _
    · exact List.nodup_nil
  | succ hops ih =>
    unfold simplePaths
    split
    · exact List.nodup_singleton _
    rw [List.nodup_flatMap]
    constructor
    · intro e _
      split
      · exact List.nodup_nil
      · split
        · exact List.nodup_nil
        · exact ih.map fun _ _ h => (List.cons.inj h).2
    · refine (hout v).imp fun {e e'} hee => ?_
      -- the lists start with their edge, unless they are empty
      have hhead : ∀ e, ∀ es ∈ (if target e ∈ v :: visited then [] else
          match pass e a with
          | none => []
          | some b => (simplePaths out target pass goal hops true (v :: visited) (target e) b).map (e :: ·)),
          target e ≠ v ∧ es.head? = some e := by
        intro e es hes
        split at hes
        · cases hes
        · rename_i hnew
          split at hes
          · cases hes
          · obtain ⟨es, -, rfl⟩ := List.mem_map.mp hes
            exact ⟨fun h => hnew (h ▸ List.mem_cons_self), rfl⟩
      intro es hes hes'
      obtain ⟨hne, hh⟩ := hhead e es hes
      obtain ⟨-, hh'⟩ := hhead e' es hes'
      exact hne (hee (Option.some.inj (hh.symm.trans hh')))

end SimplePaths

end Lib
