import TradeCore.Coordinator.Graph
import TradeCore.Lib.Kahn
import Mathlib.Algebra.BigOperators.Group.Finset.Piecewise

/-!
# TradeCore.Coordinator.TopologicalOrder

What the graph of a request is sorted by. `addEdge` keeps the dependencies of a leg free of
repetitions, and its list of dependents not: an edge that is added twice, because the request names a
leg twice or names a leg its assets already point to, counts twice when its source leaves the queue
and once when the in-degree is taken. A leg with another dependency may then enter the queue too
early (`buildGraphFromDtos_ordered`, `leg_before_dependency`), and a cycle may go unnoticed
(`cycle_detected_iff`).
-/

namespace TradeCore
namespace Coordinator

open Lib Relation

/-! ## The edges of a request -/

def explicitSources (leg : SwapLegDto) : List Nat :=
  (leg.dependencies.getD []).filterMap fun dep => index? dep.value

def implicitSources (previous : List SwapLegDto) (leg : SwapLegDto) : List Nat :=
  (previous.zipIdx.filter fun p => hasImplicitDependency leg p.1).map Prod.snd

def edgesFrom : List SwapLegDto → List SwapLegDto → List (Nat × Nat)
  | _, [] => []
  | previous, leg :: rest =>
    (explicitSources leg ++ implicitSources previous leg).map (fun source => (source, previous.length)) ++
      edgesFrom (previous ++ [leg]) rest

/-- Source and target of every edge a request adds, in the order in which they are added. -/
def edges (legs : List SwapLegDto) : List (Nat × Nat) := edgesFrom [] legs

/-- Leg `i` names leg `d`, or takes its source asset from the earlier leg `d`. -/
def DependsOn (legs : List SwapLegDto) (i d : Nat) : Prop :=
  (∃ leg, legs[i]? = some leg ∧ ∃ dep ∈ leg.dependencies.getD [], dep.value = d) ∨
    (d < i ∧ ∃ leg previous, legs[i]? = some leg ∧ legs[d]? = some previous ∧
      hasImplicitDependency leg previous = true)

/-- The number is the index of one of `n` legs, and not of leg `i`. -/
def NamesOther (n i : Nat) (dep : JsNumber) : Prop := ∃ d : Nat, dep.value = d ∧ d < n ∧ d ≠ i

def IndicesValid (legs : List SwapLegDto) : Prop :=
  ∀ i leg, legs[i]? = some leg → ∀ dep ∈ leg.dependencies.getD [], NamesOther legs.length i dep

def addEdges (nodes : Nodes) (es : List (Nat × Nat)) : Nodes :=
  es.foldl (fun nodes e => addEdge nodes e.1 e.2) nodes

@[simp] theorem addEdges_append (nodes : Nodes) (es fs : List (Nat × Nat)) :
    addEdges nodes (es ++ fs) = addEdges (addEdges nodes es) fs :=
  List.foldl_append

@[simp] theorem length_addEdges (nodes : Nodes) (es : List (Nat × Nat)) :
    (addEdges nodes es).length = nodes.length := by
  induction es generalizing nodes with
  | nil => rfl
  | cons e es ih => exact (ih _).trans (length_addEdge nodes e.1 e.2)

@[simp] theorem index?_natCast (k : Nat) : index? (k : ℚ) = some k := by
  simp [index?]

theorem index?_eq_some {x : ℚ} {k : Nat} : index? x = some k ↔ x = k := by
  constructor
  · intro h
    unfold index? at h
    split at h
    · rename_i hx
      cases h
      have hnum : ((x.num.toNat : Int) : ℚ) = x.num := by rw [Int.toNat_of_nonneg hx.2]
      rw [← Rat.num_div_den x, hx.1]
      push_cast at hnum
      simp [hnum]
    · cases h
  · rintro rfl
    exact index?_natCast k

theorem mem_explicitSources {leg : SwapLegDto} {d : Nat} :
    d ∈ explicitSources leg ↔ ∃ dep ∈ leg.dependencies.getD [], dep.value = d := by
  simp only [explicitSources, List.mem_filterMap, index?_eq_some]

theorem mem_implicitSources {previous : List SwapLegDto} {leg : SwapLegDto} {d : Nat} :
    d ∈ implicitSources previous leg ↔
      ∃ p, previous[d]? = some p ∧ hasImplicitDependency leg p = true := by
  simp only [implicitSources, List.mem_map, List.mem_filter, Prod.exists,
    List.mk_mem_zipIdx_iff_getElem?]
  constructor
  · rintro ⟨p, k, ⟨hk, hp⟩, rfl⟩
    exact ⟨p, hk, hp⟩
  · rintro ⟨p, hd, hp⟩
    exact ⟨p, d, ⟨hd, hp⟩, rfl⟩

theorem mem_edgesFrom {previous rest : List SwapLegDto} {d i : Nat} :
    (d, i) ∈ edgesFrom previous rest ↔ ∃ k leg, rest[k]? = some leg ∧ i = previous.length + k ∧
      (d ∈ explicitSources leg ∨ d ∈ implicitSources (previous ++ rest.take k) leg) := by
  induction rest generalizing previous with
  | nil => simp [edgesFrom]
  | cons leg rest ih =>
    simp only [edgesFrom, List.mem_append, List.mem_map, Prod.mk.injEq, ih]
    constructor
    · rintro (⟨_, hd, rfl, hi⟩ | ⟨k, l, hk, rfl, hd⟩)
      · exact ⟨0, leg, rfl, hi.symm, by simpa using hd⟩
      · refine ⟨k + 1, l, hk, by simp only [List.length_append, List.length_singleton]; omega, ?_⟩
        simpa using hd
    · rintro ⟨k, l, hk, hi, hd⟩
      cases k with
      | zero =>
        cases hk
        exact Or.inl ⟨d, by simpa using hd, rfl, hi.symm⟩
      | succ k =>
        refine Or.inr ⟨k, l, hk, by simp only [List.length_append, List.length_singleton]; omega, ?_⟩
        simpa using hd

theorem mem_edges {legs : List SwapLegDto} {d i : Nat} :
    (d, i) ∈ edges legs ↔ DependsOn legs i d := by
  unfold edges DependsOn
  rw [mem_edgesFrom]
  simp only [List.length_nil, Nat.zero_add, List.nil_append, mem_explicitSources,
    mem_implicitSources, List.getElem?_take]
  constructor
  · rintro ⟨k, leg, hk, rfl, h | ⟨p, hp, himp⟩⟩
    · exact Or.inl ⟨leg, hk, h⟩
    · split at hp
      · exact Or.inr ⟨by assumption, leg, p, hk, hp, himp⟩
      · cases hp
  · rintro (⟨leg, hk, h⟩ | ⟨hlt, leg, p, hk, hp, himp⟩)
    · exact ⟨i, leg, hk, rfl, Or.inl h⟩
    · exact ⟨i, leg, hk, rfl, Or.inr ⟨p, by simpa [hlt] using hp, himp⟩⟩

/-! ## Building the nodes -/

theorem namesOther_iff {n i d : Nat} {dep : JsNumber} (h : dep.value = d) :
    NamesOther n i dep ↔ d < n ∧ d ≠ i := by
  constructor
  · rintro ⟨e, he, hlt, hne⟩
    rw [Nat.cast_inj.mp (h.symm.trans he)]
    exact ⟨hlt, hne⟩
  · exact fun hd => ⟨d, h, hd⟩

theorem addExplicit_eq_ok_iff {n i : Nat} {deps : List JsNumber} {nodes nodes' : Nodes} :
    addExplicit n i deps nodes = .ok nodes' ↔ (∀ dep ∈ deps, NamesOther n i dep) ∧
      addEdges nodes ((deps.filterMap fun dep => index? dep.value).map fun d => (d, i)) = nodes' := by
  induction deps generalizing nodes with
  | nil => simp [addExplicit, addEdges]
  | cons dep deps ih =>
    rw [addExplicit, List.forall_mem_cons]
    cases hdep : index? dep.value with
    | none =>
      have hno : ¬ NamesOther n i dep := by
        rintro ⟨d, hd, -⟩
        rw [hd, index?_natCast] at hdep
        cases hdep
      split
      · simp [hno]
      · split <;> simp [hno]
    | some d =>
      have hd : dep.value = d := index?_eq_some.mp hdep
      have hmap : ((dep :: deps).filterMap fun dep => index? dep.value) =
          d :: deps.filterMap fun dep => index? dep.value := by simp [hdep]
      rw [namesOther_iff hd, hd, hmap]
      split
      · rename_i h
        have : ¬ d < n := by
          rcases h with h | h
          · exact absurd h (by simp)
          · exact Nat.not_lt.mpr (by exact_mod_cast h)
        simp [this]
      · rename_i h
        have hlt : d < n := by exact_mod_cast lt_of_not_ge (not_or.mp h).2
        split
        · rename_i hi
          have : d = i := by exact_mod_cast hi
          simp [this]
        · rename_i hi
          have hother : d < n ∧ d ≠ i := ⟨hlt, fun h => hi (by rw [h])⟩
          dsimp only
          rw [ih, and_assoc, and_iff_right hother]
          rfl

theorem addImplicit_eq (i : Nat) (leg : SwapLegDto) (previous : List SwapLegDto) (nodes : Nodes) :
    addImplicit i leg previous nodes =
      addEdges nodes ((implicitSources previous leg).map fun d => (d, i)) := by
  unfold addImplicit implicitSources addEdges
  generalize previous.zipIdx = ps
  induction ps generalizing nodes with
  | nil => rfl
  | cons p ps ih =>
    rw [List.foldl_cons, List.filter_cons]
    split
    · rw [List.map_cons, List.map_cons, List.foldl_cons]
      exact ih _
    · exact ih nodes

theorem addLegs_eq_ok_iff {n : Nat} {previous rest : List SwapLegDto} {nodes nodes' : Nodes} :
    addLegs n previous rest nodes = .ok nodes' ↔
      (∀ k leg, rest[k]? = some leg → ∀ dep ∈ leg.dependencies.getD [],
        NamesOther n (previous.length + k) dep) ∧
        addEdges nodes (edgesFrom previous rest) = nodes' := by
  induction rest generalizing previous nodes with
  | nil => simp [addLegs, edgesFrom, addEdges]
  | cons leg rest ih =>
    have hnext : ∀ k, (previous ++ [leg]).length + k = previous.length + (k + 1) := by
      intro k
      simp only [List.length_append, List.length_singleton]
      omega
    have hsplit : (∀ k l, (leg :: rest)[k]? = some l → ∀ dep ∈ l.dependencies.getD [],
        NamesOther n (previous.length + k) dep) ↔
        (∀ dep ∈ leg.dependencies.getD [], NamesOther n previous.length dep) ∧
          ∀ k l, rest[k]? = some l → ∀ dep ∈ l.dependencies.getD [],
            NamesOther n ((previous ++ [leg]).length + k) dep := by
      constructor
      · intro h
        exact ⟨h 0 leg rfl, fun k l hk => hnext k ▸ h (k + 1) l hk⟩
      · rintro ⟨h0, h⟩ k l hk
        cases k with
        | zero =>
          cases hk
          exact h0
        | succ k => exact hnext k ▸ h k l hk
    rw [hsplit, addLegs, edgesFrom]
    cases hexp : addExplicit n previous.length (leg.dependencies.getD []) nodes with
    | error e =>
      have hno : ¬ ∀ dep ∈ leg.dependencies.getD [], NamesOther n previous.length dep := by
        intro h
        rw [addExplicit_eq_ok_iff.mpr ⟨h, rfl⟩] at hexp
        cases hexp
      simp [hno]
    | ok nodes1 =>
      obtain ⟨hvalid, rfl⟩ := addExplicit_eq_ok_iff.mp hexp
      dsimp only
      rw [ih, addImplicit_eq, List.map_append, addEdges_append, addEdges_append, and_assoc,
        and_iff_right hvalid]
      rfl

def graphNodes (legs : List SwapLegDto) : Nodes := addEdges (createEmptyGraph legs.length) (edges legs)

theorem addLegs_iff_valid {legs : List SwapLegDto} {nodes : Nodes} :
    addLegs legs.length [] legs (createEmptyGraph legs.length) = .ok nodes ↔
      IndicesValid legs ∧ graphNodes legs = nodes := by
  rw [addLegs_eq_ok_iff]
  simp only [List.length_nil, Nat.zero_add]
  rfl

/-! ## What the nodes hold -/

def dependentsAt (nodes : Nodes) (i : Nat) : List Nat := (nodes[i]?.map (·.dependents)).getD []

theorem depsAt_addEdge_eq {nodes : Nodes} {source target : Nat} (ht : target < nodes.length) (i : Nat) :
    depsAt (addEdge nodes source target) i =
      if i = target ∧ source ∉ depsAt nodes target then depsAt nodes target ++ [source]
      else depsAt nodes i := by
  unfold depsAt addEdge
  rw [List.getElem?_modify, List.getElem?_modify]
  by_cases hi : i = target
  · subst hi
    rw [List.getElem?_eq_getElem ht]
    by_cases hs : source = i <;> simp [hs, GraphNode.addDependency] <;> split <;> simp [*]
  · have hti : target ≠ i := fun h => hi h.symm
    cases nodes[i]? <;> by_cases hs : source = i <;> simp [hi, hti, hs]

theorem dependentsAt_addEdge {nodes : Nodes} {source target : Nat} (hs : source < nodes.length)
    (hne : source ≠ target) (i : Nat) :
    dependentsAt (addEdge nodes source target) i =
      if i = source ∧ target ∉ depsAt nodes source then dependentsAt nodes source ++ [target]
      else dependentsAt nodes i := by
  have hkeep : ∀ node : GraphNode, (node.addDependency source).dependents = node.dependents := by
    intro node
    unfold GraphNode.addDependency
    split <;> rfl
  unfold dependentsAt depsAt addEdge
  rw [List.getElem?_modify, List.getElem?_modify]
  by_cases hi : i = source
  · subst hi
    rw [List.getElem?_eq_getElem hs]
    simp [hne.symm, GraphNode.addDependent]
    split <;> simp [*]
  · have hsi : source ≠ i := fun h => hi h.symm
    cases nodes[i]? <;> by_cases ht : target = i <;> simp [hi, hsi, ht, hkeep]

/-- Edges between `n` legs, in the order of their targets. -/
structure EdgeList (n : Nat) (es : List (Nat × Nat)) : Prop where
  bound : ∀ e ∈ es, e.1 < n ∧ e.2 < n ∧ e.1 ≠ e.2
  sorted : es.Pairwise fun e f => e.2 ≤ f.2

theorem EdgeList.of_append {n : Nat} {es fs : List (Nat × Nat)} (h : EdgeList n (es ++ fs)) :
    EdgeList n es :=
  ⟨fun e he => h.bound e (List.mem_append_left _ he), (List.pairwise_append.mp h.sorted).1⟩

/-- The dependencies of a node are the sources of its edges, each once. -/
theorem depsAt_addEdges {n : Nat} {es : List (Nat × Nat)} (h : EdgeList n es) (i : Nat) :
    (depsAt (addEdges (createEmptyGraph n) es) i).Nodup ∧
      ∀ d, d ∈ depsAt (addEdges (createEmptyGraph n) es) i ↔ (d, i) ∈ es := by
  induction es using List.reverseRecOn with
  | nil =>
    have hnil : depsAt (addEdges (createEmptyGraph n) []) i = [] := by
      simp only [addEdges, List.foldl_nil, depsAt, createEmptyGraph, List.getElem?_replicate]
      split <;> rfl
    simp [hnil]
  | append_singleton es e ih =>
    obtain ⟨source, target⟩ := e
    obtain ⟨hnodup, hmem⟩ := ih h.of_append
    obtain ⟨-, ht, -⟩ := h.bound (source, target) (by simp)
    have hlen : target < (addEdges (createEmptyGraph n) es).length := by simpa [createEmptyGraph] using ht
    have hstep : addEdges (createEmptyGraph n) (es ++ [(source, target)]) =
        addEdge (addEdges (createEmptyGraph n) es) source target := by simp [addEdges]
    rw [hstep, depsAt_addEdge_eq hlen]
    split
    · rename_i hnew
      obtain ⟨rfl, hnew⟩ := hnew
      refine ⟨List.nodup_append.mpr ⟨hnodup, List.nodup_singleton _, ?_⟩, fun d => ?_⟩
      · rintro a ha b hb rfl
        exact hnew (List.mem_singleton.mp hb ▸ ha)
      · simp [hmem]
    · rename_i hold
      refine ⟨hnodup, fun d => ?_⟩
      rw [hmem, List.mem_append, List.mem_singleton]
      constructor
      · exact Or.inl
      · rintro (hd | hd)
        · exact hd
        · cases hd
          by_contra hno
          exact hold ⟨rfl, fun hin => hno ((hmem source).mp hin)⟩

/-- How often leg `i` stands among the dependents of leg `d`. -/
def timesCounted (es : List (Nat × Nat)) (d i : Nat) : Nat :=
  if d < i ∧ (i, d) ∈ es then 0 else es.count (d, i)

theorem count_dependentsAt {n : Nat} {es : List (Nat × Nat)} (h : EdgeList n es) (d i : Nat) :
    (dependentsAt (addEdges (createEmptyGraph n) es) d).count i = timesCounted es d i := by
  unfold timesCounted
  induction es using List.reverseRecOn with
  | nil =>
    have hnil : dependentsAt (addEdges (createEmptyGraph n) []) d = [] := by
      simp only [addEdges, List.foldl_nil, dependentsAt, createEmptyGraph, List.getElem?_replicate]
      split <;> rfl
    simp [hnil]
  | append_singleton es e ih =>
    obtain ⟨source, target⟩ := e
    have ih := ih h.of_append
    obtain ⟨hs, -, hne⟩ := h.bound (source, target) (by simp)
    have hlast : ∀ e ∈ es, e.2 ≤ target := fun e he =>
      (List.pairwise_append.mp h.sorted).2.2 e he _ (List.mem_singleton.mpr rfl)
    have hlen : source < (addEdges (createEmptyGraph n) es).length := by simpa [createEmptyGraph] using hs
    have hstep : addEdges (createEmptyGraph n) (es ++ [(source, target)]) =
        addEdge (addEdges (createEmptyGraph n) es) source target := by simp [addEdges]
    have hdep : target ∈ depsAt (addEdges (createEmptyGraph n) es) source ↔ (target, source) ∈ es :=
      (depsAt_addEdges h.of_append source).2 target
    dsimp only at hs hne
    have hback : (target, source) ∈ es → source < target := fun hin =>
      Nat.lt_of_le_of_ne (hlast _ hin) hne
    simp only [hstep, dependentsAt_addEdge hlen hne, hdep, List.count_append, List.count_singleton,
      List.mem_append, List.mem_singleton, Prod.mk.injEq, beq_iff_eq]
    by_cases hd : d = source
    · subst hd
      by_cases hi : i = target
      · subst hi
        by_cases hin : (i, d) ∈ es
        · simpa [hin, hback hin] using ih
        · simpa [hin, hne] using ih
      · have hkeep : (dependentsAt (addEdges (createEmptyGraph n) es) d ++ [target]).count i =
            (dependentsAt (addEdges (createEmptyGraph n) es) d).count i := by
          simp [Ne.symm hi]
        have hnot : ¬ (i = d ∧ d = target) := fun h => hne h.2
        split <;> simpa [hkeep, hnot, Ne.symm hi] using ih
    · by_cases hrev : i = source ∧ d = target
      · -- an edge the other way round, later than every edge into its source
        obtain ⟨rfl, rfl⟩ := hrev
        by_cases hlt : d < i
        · have hnone : es.count (d, i) = 0 :=
            List.count_eq_zero.mpr fun hin => Nat.not_le.mpr hlt (hlast _ hin)
          simpa [hd, hlt, hnone] using ih
        · simpa [hd, hne, hlt] using ih
      · simpa [hd, Ne.symm hd, hrev] using ih

theorem edgesFrom_sorted (previous rest : List SwapLegDto) :
    (edgesFrom previous rest).Pairwise fun e f => e.2 ≤ f.2 := by
  induction rest generalizing previous with
  | nil => exact List.Pairwise.nil
  | cons leg rest ih =>
    refine List.pairwise_append.mpr ⟨?_, ih _, ?_⟩
    · exact List.pairwise_map.mpr (List.pairwise_of_forall fun _ _ => Nat.le_refl _)
    · intro e he f hf
      obtain ⟨d, -, rfl⟩ := List.mem_map.mp he
      obtain ⟨k, l, -, hi, -⟩ := mem_edgesFrom.mp hf
      rw [List.length_append, List.length_singleton] at hi
      dsimp only
      omega

theorem edgeList_edges {legs : List SwapLegDto} (h : IndicesValid legs) :
    EdgeList legs.length (edges legs) := by
  refine ⟨?_, edgesFrom_sorted [] legs⟩
  rintro ⟨d, i⟩ he
  rcases mem_edges.mp he with ⟨leg, hi, dep, hdep, hd⟩ | ⟨hlt, leg, -, hi, -, -⟩
  · have hother := (namesOther_iff hd).mp (h i leg hi dep hdep)
    exact ⟨hother.1, (List.getElem?_eq_some_iff.mp hi).1, hother.2⟩
  · have hin := (List.getElem?_eq_some_iff.mp hi).1
    exact ⟨hlt.trans hin, hin, Nat.ne_of_lt hlt⟩

/-! ## The order of the queue -/

def weight (nodes : Nodes) (d i : Nat) : Nat := (dependentsAt nodes d).count i

def need (nodes : Nodes) (i : Nat) : Nat := (depsAt nodes i).length

/-- What the loop has done so far: a node has entered the queue exactly when it has been counted as
often as it has dependencies. -/
structure Sorting (nodes : Nodes) (s : List Int × List Nat) (result : List Nat) : Prop where
  degree : ∀ i < nodes.length, s.1[i]? = some ((need nodes i : Int) - inflow (weight nodes) result i)
  nodup : (result ++ s.2).Nodup
  bound : ∀ i ∈ result ++ s.2, i < nodes.length
  entered : ∀ i < nodes.length, i ∈ result ++ s.2 ↔ need nodes i ≤ inflow (weight nodes) result i
  fed : Fed (weight nodes) (need nodes) (result ++ s.2)

theorem getElem?_countDown {n : Nat} {need received : Nat → Nat} {inDegree : List Int}
    (h : ∀ i < n, inDegree[i]? = some ((need i : Int) - received i)) {d : Nat} (hd : d < n) :
    ∀ i < n, (inDegree.set d ((need d : Int) - received d - 1))[i]? =
      some ((need i : Int) - ((if i = d then received i + 1 else received i : Nat))) := by
  have hlen : d < inDegree.length := (List.getElem?_eq_some_iff.mp (h d hd)).1
  intro i hi
  rw [List.getElem?_set]
  by_cases hid : i = d
  · subst hid
    simp [hlen]
    omega
  · rw [if_neg (Ne.symm hid), if_neg hid]
    exact h i hi

theorem count_received (received : Nat → Nat) (d : Nat) (ds : List Nat) (i : Nat) :
    received i + (d :: ds).count i = (if i = d then received i + 1 else received i) + ds.count i := by
  rw [List.count_cons]
  by_cases hid : i = d
  · simp [hid]
    omega
  · simp [hid, Ne.symm hid]

theorem relax_spec {n : Nat} {need received : Nat → Nat} {ds : List Nat} {s : List Int × List Nat}
    (hds : ∀ d ∈ ds, d < n)
    (hs : ∀ i < n, s.1[i]? = some ((need i : Int) - received i)) :
    (∀ i < n, (relax ds s).1[i]? = some ((need i : Int) - (received i + ds.count i : Nat))) ∧
      ∃ new, (relax ds s).2 = s.2 ++ new ∧ new.Nodup ∧
        ∀ i, i ∈ new ↔ i < n ∧ received i < need i ∧ need i ≤ received i + ds.count i := by
  induction ds generalizing s received with
  | nil =>
    refine ⟨fun i hi => by simpa [relax] using hs i hi, [], by simp [relax], List.nodup_nil, fun i => ?_⟩
    simp only [List.not_mem_nil, List.count_nil, Nat.add_zero, false_iff]
    omega
  | cons d ds ih =>
    obtain ⟨inDegree, queue⟩ := s
    dsimp only at hs
    have hd : d < n := hds d (by simp)
    have hdeg := hs d hd
    simp only [relax, hdeg, Option.getD_some]
    -- one more has been received by `d`
    obtain ⟨hdegree, new, hqueue, hnew, hmem⟩ :=
      @ih (fun i => if i = d then received i + 1 else received i)
        (inDegree.set d ((need d : Int) - received d - 1),
          if (need d : Int) - received d - 1 = 0 then queue ++ [d] else queue)
        (fun e he => hds e (by simp [he])) (getElem?_countDown hs hd)
    refine ⟨fun i hi => by rw [hdegree i hi, count_received], ?_⟩
    simp only [count_received]
    by_cases hzero : (need d : Int) - received d - 1 = 0
    · rw [if_pos hzero] at hqueue ⊢
      refine ⟨d :: new, by simpa using hqueue, List.nodup_cons.mpr ⟨fun hin => ?_, hnew⟩, fun i => ?_⟩
      · have := ((hmem d).mp hin).2.1
        simp only [if_true] at this
        omega
      · rw [List.mem_cons, hmem]
        by_cases hid : i = d
        · subst hid
          simp only [if_true, true_or, true_iff]
          omega
        · simp only [hid, if_false, false_or]
    · rw [if_neg hzero] at hqueue ⊢
      refine ⟨new, hqueue, hnew, fun i => ?_⟩
      rw [hmem]
      by_cases hid : i = d
      · subst hid
        simp only [if_true]
        omega
      · simp only [hid, if_false]

theorem Sorting.step {nodes : Nodes} {inDegree : List Int} {current : Nat} {queue result : List Nat}
    (hl : ∀ d i, i ∈ dependentsAt nodes d → i < nodes.length)
    (h : Sorting nodes (inDegree, current :: queue) result) :
    Sorting nodes (relax (dependentsAt nodes current) (inDegree, queue)) (result ++ [current]) := by
  obtain ⟨hdegree, new, hqueue, hnew, hmem⟩ := relax_spec (s := (inDegree, queue)) (hl current) h.degree
  have hrest : result ++ [current] ++ queue = result ++ current :: queue := by simp
  have hflow : ∀ i, inflow (weight nodes) (result ++ [current]) i =
      inflow (weight nodes) result i + (dependentsAt nodes current).count i := by
    intro i
    rw [inflow_append, inflow_singleton]
    rfl
  have hfresh : ∀ i ∈ new, i ∉ result ++ current :: queue := by
    intro i hi hin
    obtain ⟨hlt, hbelow, -⟩ := (hmem i).mp hi
    have := (h.entered i hlt).mp hin
    omega
  refine ⟨fun i hi => ?_, ?_, fun i hi => ?_, fun i hi => ?_, ?_⟩
  · rw [hflow]
    exact hdegree i hi
  · rw [hqueue, ← List.append_assoc, hrest]
    exact List.nodup_append.mpr ⟨h.nodup, hnew, fun a ha b hb hab => hfresh b hb (hab ▸ ha)⟩
  · rw [hqueue, ← List.append_assoc, hrest] at hi
    rcases List.mem_append.mp hi with hi | hi
    · exact h.bound i hi
    · exact ((hmem i).mp hi).1
  · rw [hqueue, ← List.append_assoc, hrest, List.mem_append, h.entered i hi, hmem, hflow]
    omega
  · rw [hqueue, ← List.append_assoc, hrest]
    have hall : ∀ post, post ⊆ new → Fed (weight nodes) (need nodes) (result ++ current :: queue ++ post) := by
      intro post
      induction post using List.reverseRecOn with
      | nil => exact fun _ => by simpa using h.fed
      | append_singleton post i ih =>
        intro hsub
        rw [← List.append_assoc]
        refine (ih fun j hj => hsub (List.mem_append_left _ hj)).snoc ?_
        obtain ⟨-, -, hneed⟩ := (hmem i).mp (hsub (by simp))
        refine Nat.le_trans hneed ?_
        rw [← hflow, ← hrest, List.append_assoc, inflow_append (result ++ [current])]
        exact Nat.le_add_right _ _
    exact hall new (List.Subset.refl _)

theorem Sorting.init (nodes : Nodes) :
    Sorting nodes (nodes.map fun node => (node.dependencies.length : Int),
      (List.range nodes.length).filter fun i => decide (depsAt nodes i = [])) [] := by
  have hmem : ∀ i, i ∈ (List.range nodes.length).filter (fun i => decide (depsAt nodes i = [])) ↔
      i < nodes.length ∧ need nodes i = 0 := by
    intro i
    simp [need]
  refine ⟨fun i hi => ?_, ?_, fun i hi => ((hmem i).mp hi).1, fun i hi => ?_, ?_⟩
  · simp [need, depsAt, List.getElem?_eq_getElem hi]
  · exact List.nodup_range.filter _
  · rw [List.nil_append, hmem]
    simp [hi]
  · intro pre v post heq
    have hv := (hmem v).mp (by rw [← List.nil_append (List.filter _ _), heq]; simp)
    omega

theorem sortLoop_sorting {nodes : Nodes} (hl : ∀ d i, i ∈ dependentsAt nodes d → i < nodes.length)
    {fuel : Nat} {s : List Int × List Nat} {result : List Nat} (h : Sorting nodes s result)
    (hfuel : nodes.length ≤ fuel + result.length) :
    ∃ inDegree, Sorting nodes (inDegree, []) (sortLoop nodes fuel s result) := by
  induction fuel generalizing s result with
  | zero =>
    obtain ⟨inDegree, queue⟩ := s
    have hsub : result ++ queue ⊆ List.range nodes.length := fun i hi => List.mem_range.mpr (h.bound i hi)
    have hle := (h.nodup.subperm hsub).length_le
    rw [List.length_append, List.length_range] at hle
    dsimp only at hle
    have hempty : queue = [] := List.eq_nil_of_length_eq_zero (by omega)
    subst hempty
    exact ⟨inDegree, h⟩
  | succ fuel ih =>
    obtain ⟨inDegree, queue⟩ := s
    cases queue with
    | nil => exact ⟨inDegree, h⟩
    | cons current queue =>
      refine ih (h.step hl) ?_
      rw [List.length_append, List.length_singleton]
      omega

theorem topologicalSort_sorting {nodes : Nodes}
    (hl : ∀ d i, i ∈ dependentsAt nodes d → i < nodes.length) :
    ∃ inDegree, Sorting nodes (inDegree, []) (topologicalSort nodes) :=
  sortLoop_sorting hl (Sorting.init nodes) (by simp)

/-! ## Layers -/

theorem le_foldl_max {l : List Nat} {x : Nat} (hx : x ∈ l) (m : Nat) : x ≤ l.foldl max m := by
  have hstart : ∀ (l : List Nat) (m : Nat), m ≤ l.foldl max m := by
    intro l
    induction l with
    | nil => exact fun m => Nat.le_refl m
    | cons y l ih => exact fun m => Nat.le_trans (Nat.le_max_left m y) (ih _)
  induction l generalizing m with
  | nil => cases hx
  | cons y l ih =>
    rw [List.foldl_cons]
    rcases List.mem_cons.mp hx with rfl | hx
    · exact Nat.le_trans (Nat.le_max_right m x) (hstart l _)
    · exact ih hx _

theorem layerMapOf_snoc (nodes : Nodes) (order : List Nat) (i : Nat) :
    layerMapOf nodes (order ++ [i]) =
      upsert Prod.fst (i, layerOf nodes (layerMapOf nodes order) i) (layerMapOf nodes order) := by
  simp [layerMapOf, List.foldl_append]

theorem layerMapOf_keys {nodes : Nodes} {order : List Nat} (hn : order.Nodup) :
    (layerMapOf nodes order).map Prod.fst = order := by
  induction order using List.reverseRecOn with
  | nil => rfl
  | append_singleton order i ih =>
    have ih := ih hn.of_append_left
    have hi : i ∉ (layerMapOf nodes order).map Prod.fst := by
      rw [ih]
      exact fun hin => List.disjoint_of_nodup_append hn hin (by simp)
    rw [layerMapOf_snoc, upsert_of_not_mem hi, List.map_append, ih]
    rfl

/-- The layer of a node, once the nodes of `order` have got theirs. -/
def layerIn (nodes : Nodes) (order : List Nat) (i : Nat) : Nat :=
  ((lookup Prod.fst i (layerMapOf nodes order)).map Prod.snd).getD 0

theorem layerIn_snoc_self (nodes : Nodes) (order : List Nat) (i : Nat) :
    layerIn nodes (order ++ [i]) i = layerOf nodes (layerMapOf nodes order) i := by
  simp [layerIn, layerMapOf_snoc, lookup_upsert]

theorem layerIn_append {nodes : Nodes} {order rest : List Nat} (hn : (order ++ rest).Nodup) {i : Nat}
    (hi : i ∈ order) : layerIn nodes (order ++ rest) i = layerIn nodes order i := by
  induction rest using List.reverseRecOn with
  | nil => rw [List.append_nil]
  | append_singleton rest k ih =>
    rw [← List.append_assoc] at hn ⊢
    have hki : k ≠ i := by
      rintro rfl
      exact List.disjoint_of_nodup_append hn (List.mem_append_left _ hi) (by simp)
    rw [← ih hn.of_append_left]
    unfold layerIn
    rw [layerMapOf_snoc, lookup_upsert, if_neg hki]

theorem layerIn_lt {nodes : Nodes} {pre post : List Nat} {d i : Nat} (hn : (pre ++ i :: post).Nodup)
    (hd : d ∈ pre) (hdep : d ∈ depsAt nodes i) :
    layerIn nodes (pre ++ i :: post) d < layerIn nodes (pre ++ i :: post) i := by
  have hsplit : pre ++ i :: post = pre ++ [i] ++ post := by simp
  rw [layerIn_append hn hd]
  rw [hsplit] at hn ⊢
  rw [layerIn_append hn (by simp), layerIn_snoc_self]
  unfold depsAt at hdep
  unfold layerOf
  split
  · rename_i hnil
    rw [hnil] at hdep
    cases hdep
  · exact Nat.lt_succ_of_le (le_foldl_max (List.mem_map_of_mem hdep) 0)

theorem mem_executionLayers {nodes : Nodes} {order : List Nat} (hn : order.Nodup) {i : Nat}
    (hi : i ∈ order) (layer : Nat) :
    i ∈ (buildExecutionLayers nodes order).getD layer [] ↔ layer = layerIn nodes order i := by
  have hkeys : (layerMapOf nodes order).map Prod.fst = order := layerMapOf_keys hn
  have hmem : (i, layer) ∈ layerMapOf nodes order ↔ layer = layerIn nodes order i := by
    obtain ⟨⟨k, l⟩, hr, hk⟩ := List.mem_map.mp (hkeys.symm ▸ hi)
    dsimp only at hk
    subst hk
    have hlookup := lookup_of_mem (hkeys.symm ▸ hn) hr
    dsimp only at hlookup
    have hl : layerIn nodes order k = l := by simp [layerIn, hlookup]
    rw [hl]
    constructor
    · intro h
      have := lookup_of_mem (hkeys.symm ▸ hn) h
      dsimp only at this
      rw [hlookup] at this
      cases this
      rfl
    · rintro rfl
      exact hr
  rw [← hmem]
  unfold buildExecutionLayers
  dsimp only
  rw [List.getD_eq_getElem?_getD, List.getElem?_map]
  by_cases hlt : layer < ((layerMapOf nodes order).map fun r => r.2 + 1).foldl max 0
  · simp [List.getElem?_range hlt]
  · have hout : ¬ (i, layer) ∈ layerMapOf nodes order := by
      intro h
      have := le_foldl_max (List.mem_map_of_mem (f := fun r : Nat × Nat => r.2 + 1) h) 0
      dsimp only at this
      omega
    simp [hlt, hout]

/-! ## The graph of a request -/

def cycleDetected : HttpError := .badRequest "Cycle detected in transaction dependency graph"

def sources (legs : List SwapLegDto) (i : Nat) : Finset Nat :=
  (Finset.range legs.length).filter fun d => (d, i) ∈ edges legs

/-- Some of the legs, none of which the other legs bring as many counted edges as it has
dependencies. -/
def HasStarved (legs : List SwapLegDto) : Prop :=
  ∃ members ⊆ Finset.range legs.length, members.Nonempty ∧
    Starved (timesCounted (edges legs)) (fun i => (sources legs i).card) (Finset.range legs.length) members

theorem length_graphNodes (legs : List SwapLegDto) : (graphNodes legs).length = legs.length := by
  simp [graphNodes, createEmptyGraph]

theorem buildGraphFromDtos_valid {legs : List SwapLegDto} (h : IndicesValid legs) :
    buildGraphFromDtos legs = finishGraph (graphNodes legs) legs.length := by
  unfold buildGraphFromDtos
  rw [addLegs_iff_valid.mpr ⟨h, rfl⟩]

theorem valid_of_buildGraphFromDtos {legs : List SwapLegDto} {graph : TransactionGraph}
    (h : buildGraphFromDtos legs = .ok graph) : IndicesValid legs := by
  unfold buildGraphFromDtos at h
  split at h
  · cases h
  · rename_i hadd
    exact (addLegs_iff_valid.mp hadd).1

section Valid

variable {legs : List SwapLegDto} (h : IndicesValid legs)
include h

theorem weight_graphNodes : weight (graphNodes legs) = timesCounted (edges legs) := by
  funext d i
  exact count_dependentsAt (edgeList_edges h) d i

theorem mem_sources {d i : Nat} : d ∈ sources legs i ↔ DependsOn legs i d := by
  unfold sources
  rw [Finset.mem_filter, mem_edges, Finset.mem_range]
  refine and_iff_right_of_imp fun hd => ?_
  exact ((edgeList_edges h).bound (d, i) (mem_edges.mpr hd)).1

theorem need_graphNodes : need (graphNodes legs) = fun i => (sources legs i).card := by
  funext i
  obtain ⟨hnodup, hmem⟩ := depsAt_addEdges (edgeList_edges h) i
  unfold need graphNodes
  rw [← List.toFinset_card_of_nodup hnodup]
  congr 1
  ext d
  rw [List.mem_toFinset, mem_sources h, ← mem_edges]
  exact hmem d

theorem dependents_linked (d i : Nat) (hi : i ∈ dependentsAt (graphNodes legs) d) :
    i < (graphNodes legs).length := by
  have hpos : 0 < timesCounted (edges legs) d i := by
    rw [← weight_graphNodes h]
    exact List.count_pos_iff.mpr hi
  have hin : (d, i) ∈ edges legs := by
    unfold timesCounted at hpos
    split at hpos
    · omega
    · exact List.count_pos_iff.mp hpos
  rw [length_graphNodes]
  exact ((edgeList_edges h).bound (d, i) hin).2.1

theorem sort_spec :
    let order := topologicalSort (graphNodes legs)
    order.Nodup ∧ (∀ i ∈ order, i < legs.length) ∧
      Fed (timesCounted (edges legs)) (fun i => (sources legs i).card) order ∧
      ((∀ i < legs.length, i ∈ order) ↔ ¬ HasStarved legs) := by
  obtain ⟨inDegree, hs⟩ := topologicalSort_sorting (dependents_linked h)
  have hnodup := hs.nodup
  have hbound := hs.bound
  have hfed := hs.fed
  have hentered := hs.entered
  rw [weight_graphNodes h, need_graphNodes h] at hfed hentered
  simp only [List.append_nil, length_graphNodes] at hnodup hbound hfed hentered
  refine ⟨hnodup, hbound, hfed, ?_⟩
  have hrest : ∀ i ∈ Finset.range legs.length, i ∉ topologicalSort (graphNodes legs) →
      inflow (timesCounted (edges legs)) (topologicalSort (graphNodes legs)) i < (sources legs i).card := by
    intro i hi hout
    exact Nat.lt_of_not_le fun hle => hout ((hentered i (Finset.mem_range.mp hi)).mpr hle)
  have hall := complete_iff hfed hnodup (fun i hi => Finset.mem_range.mpr (hbound i hi)) hrest
  simp only [Finset.mem_range] at hall
  exact hall

theorem length_sort_lt_iff :
    (topologicalSort (graphNodes legs)).length < legs.length ↔ HasStarved legs := by
  obtain ⟨hnodup, hbound, -, hcomplete⟩ := sort_spec h
  have hsub : topologicalSort (graphNodes legs) ⊆ List.range legs.length :=
    fun i hi => List.mem_range.mpr (hbound i hi)
  have hsp := hnodup.subperm hsub
  constructor
  · intro hlt
    by_contra hno
    have hall := hcomplete.mpr hno
    have hle := (List.nodup_range.subperm fun i hi => hall i (List.mem_range.mp hi)).length_le
    rw [List.length_range] at hle
    omega
  · intro hst
    by_contra hge
    have hperm := hsp.perm_of_length_le (by rw [List.length_range]; omega)
    exact hcomplete.mp (fun i hi => hperm.mem_iff.mpr (List.mem_range.mpr hi)) hst

theorem rejected_iff : buildGraphFromDtos legs = .error cycleDetected ↔ HasStarved legs := by
  rw [buildGraphFromDtos_valid h, ← length_sort_lt_iff h]
  unfold finishGraph
  dsimp only
  split
  · rename_i hlt
    exact iff_of_true rfl hlt
  · rename_i hlt
    exact iff_of_false (fun hok => by cases hok) hlt

theorem cyclic_of_starved (hs : HasStarved legs) : ∃ i, TransGen (DependsOn legs) i i := by
  by_contra hac
  obtain ⟨members, hsub, hne, hstarved⟩ := hs
  refine not_starved_of_acyclic (R := fun d i => DependsOn legs i d) ?_ ?_ hne hstarved
  · intro i hi
    exact hac ⟨i, transGen_swap.mp hi⟩
  · intro i _
    by_cases hin : ∃ d ∈ members, DependsOn legs i d
    · exact Or.inr hin
    refine Or.inl ?_
    have hcounted : ∀ d ∈ sources legs i, 1 ≤ timesCounted (edges legs) d i := by
      intro d hd
      have hdi := (mem_sources h).mp hd
      have hback : (i, d) ∉ edges legs := fun hid =>
        hac ⟨i, (TransGen.single hdi).tail (mem_edges.mp hid)⟩
      rw [timesCounted, if_neg fun hc => hback hc.2]
      exact List.count_pos_iff.mpr (mem_edges.mpr hdi)
    have houtside : sources legs i ⊆ Finset.range legs.length \ members := fun d hd =>
      Finset.mem_sdiff.mpr ⟨(Finset.mem_filter.mp hd).1, fun hm => hin ⟨d, hm, (mem_sources h).mp hd⟩⟩
    calc (sources legs i).card = ∑ d ∈ sources legs i, 1 := Finset.card_eq_sum_ones _
      _ ≤ ∑ d ∈ sources legs i, timesCounted (edges legs) d i := Finset.sum_le_sum hcounted
      _ ≤ ∑ d ∈ Finset.range legs.length \ members, timesCounted (edges legs) d i :=
        Finset.sum_le_sum_of_subset houtside

end Valid

def Cyclic (legs : List SwapLegDto) : Prop := ∃ i, TransGen (DependsOn legs) i i

/-- Cycles are reported exactly when there is none, or when counted edges do not make up for the
missing ones. -/
theorem cycle_detected_iff {legs : List SwapLegDto} (h : IndicesValid legs) :
    (buildGraphFromDtos legs = .error cycleDetected ↔ Cyclic legs) ↔ (Cyclic legs → HasStarved legs) := by
  rw [rejected_iff h]
  exact ⟨fun hiff => hiff.mpr, fun hc => ⟨cyclic_of_starved h, hc⟩⟩

/-- Legs 1, 2 and 3 name each other in a circle. Leg 1 also names leg 0, whose yield it swaps, and
that edge counts for two. -/
def hiddenCycle : List SwapLegDto :=
  [plainLeg "XLM" "USD" [], plainLeg "USD" "EUR" [0, 3], plainLeg "GBP" "JPY" [1],
    plainLeg "CHF" "SEK" [2]]

theorem hiddenCycle_accepted : IndicesValid hiddenCycle ∧ Cyclic hiddenCycle ∧
    buildGraphFromDtos hiddenCycle ≠ .error cycleDetected := by
  obtain ⟨graph, hgraph⟩ : ∃ graph, buildGraphFromDtos hiddenCycle = .ok graph := ⟨_, rfl⟩
  have hedges : edges hiddenCycle = [(0, 1), (3, 1), (0, 1), (1, 2), (2, 3)] := by decide +kernel
  refine ⟨valid_of_buildGraphFromDtos hgraph, ⟨1, ?_⟩, fun h => ?_⟩
  · have h13 : DependsOn hiddenCycle 1 3 := mem_edges.mp (by rw [hedges]; decide)
    have h32 : DependsOn hiddenCycle 3 2 := mem_edges.mp (by rw [hedges]; decide)
    have h21 : DependsOn hiddenCycle 2 1 := mem_edges.mp (by rw [hedges]; decide)
    exact ((TransGen.single h13).tail h32).tail h21
  · rw [hgraph] at h
    cases h

def openCycle : List SwapLegDto := [plainLeg "XLM" "USD" [1], plainLeg "EUR" "GBP" [0]]

theorem openCycle_detected : buildGraphFromDtos openCycle = .error cycleDetected ↔ Cyclic openCycle := by
  have hvalid : IndicesValid openCycle :=
    (@addLegs_iff_valid openCycle (graphNodes openCycle)).mp rfl |>.1
  refine (cycle_detected_iff hvalid).mpr fun _ => ⟨{0, 1}, by decide, by decide, ?_⟩
  have hedges : edges openCycle = [(1, 0), (0, 1)] := by decide +kernel
  unfold sources Starved
  rw [hedges]
  decide

/-! ## Order and layers -/

/-- What the graph of a request promises to the ones who execute it. -/
structure OrdersLegs (legs : List SwapLegDto) (graph : TransactionGraph) : Prop where
  perm : graph.topologicalOrder.Perm (List.range legs.length)
  precedes : ∀ i d, DependsOn legs i d →
    graph.topologicalOrder.idxOf d < graph.topologicalOrder.idxOf i
  layers : ∃ layer : Nat → Nat,
    (∀ i < legs.length, ∀ l, i ∈ graph.executionLayers.getD l [] ↔ l = layer i) ∧
      ∀ i d, DependsOn legs i d → layer d < layer i

/-- A leg that depends on several legs gets the edge from each of them once. -/
def EdgesOnce (legs : List SwapLegDto) : Prop :=
  ∀ i d e, DependsOn legs i d → DependsOn legs i e → d ≠ e → (edges legs).count (d, i) = 1

/-- No dependency of a leg can be made up for by the others. -/
theorem EdgesOnce.short {legs : List SwapLegDto} (hv : IndicesValid legs) (h : EdgesOnce legs) {i d : Nat}
    (hd : DependsOn legs i d) :
    ∑ e ∈ (Finset.range legs.length).erase d, timesCounted (edges legs) e i < (sources legs i).card := by
  have hmem := (mem_sources hv).mpr hd
  calc ∑ e ∈ (Finset.range legs.length).erase d, timesCounted (edges legs) e i
      ≤ ∑ e ∈ (Finset.range legs.length).erase d, if e ∈ sources legs i then 1 else 0 := ?_
    _ = ((sources legs i).erase d).card := ?_
    _ < (sources legs i).card := Finset.card_erase_lt_of_mem hmem
  · refine Finset.sum_le_sum fun e he => ?_
    have hle : timesCounted (edges legs) e i ≤ (edges legs).count (e, i) := by
      unfold timesCounted
      split <;> omega
    refine Nat.le_trans hle ?_
    split
    · rename_i hin
      exact Nat.le_of_eq (h i e d ((mem_sources hv).mp hin) hd (Finset.mem_erase.mp he).1)
    · rename_i hout
      refine Nat.le_of_eq (List.count_eq_zero.mpr fun hin => hout ?_)
      exact (mem_sources hv).mpr (mem_edges.mp hin)
  · rw [← Finset.card_filter]
    congr 1
    ext e
    simp only [Finset.mem_filter, Finset.mem_erase, and_assoc]
    refine and_congr_right fun _ => and_iff_right_of_imp fun he => (Finset.mem_filter.mp he).1

theorem buildGraphFromDtos_ordered {legs : List SwapLegDto} {graph : TransactionGraph}
    (hone : EdgesOnce legs) (h : buildGraphFromDtos legs = .ok graph) : OrdersLegs legs graph := by
  have hv := valid_of_buildGraphFromDtos h
  obtain ⟨hnodup, hbound, hfed, hcomplete⟩ := sort_spec hv
  have hnot : ¬ HasStarved legs := by
    intro hs
    rw [(rejected_iff hv).mpr hs] at h
    cases h
  have hall := hcomplete.mpr hnot
  rw [buildGraphFromDtos_valid hv] at h
  unfold finishGraph at h
  dsimp only at h
  rw [if_neg fun hlt => hnot ((length_sort_lt_iff hv).mp hlt)] at h
  cases h
  set order := topologicalSort (graphNodes legs) with horder
  -- every dependency stands in front
  have hsplit : ∀ i d, DependsOn legs i d → ∃ pre post, order = pre ++ i :: post ∧ d ∈ pre := by
    intro i d hd
    have hi : i < legs.length := ((edgeList_edges hv).bound (d, i) (mem_edges.mpr hd)).2.1
    obtain ⟨pre, post, heq⟩ := List.append_of_mem (hall i hi)
    refine ⟨pre, post, heq, ?_⟩
    rw [heq] at hfed hnodup hbound
    exact hfed.source_mem hnodup.of_append_left
      (fun e he => Finset.mem_range.mpr (hbound e (List.mem_append_left _ he))) (hone.short hv hd)
  refine ⟨?_, fun i d hd => ?_, layerIn (graphNodes legs) order, fun i hi l => ?_, fun i d hd => ?_⟩
  · rw [List.perm_ext_iff_of_nodup hnodup List.nodup_range]
    exact fun i => ⟨fun hi => List.mem_range.mpr (hbound i hi), fun hi => hall i (List.mem_range.mp hi)⟩
  · obtain ⟨pre, post, heq, hdp⟩ := hsplit i d hd
    dsimp only
    rw [heq] at hnodup ⊢
    have hip : i ∉ pre := fun hip => List.disjoint_of_nodup_append hnodup hip (by simp)
    rw [List.idxOf_append_of_mem hdp, List.idxOf_append_of_notMem hip]
    exact Nat.lt_of_lt_of_le (List.idxOf_lt_length_iff.mpr hdp) (Nat.le_add_right _ _)
  · exact mem_executionLayers hnodup (hall i hi) l
  · obtain ⟨pre, post, heq, hdp⟩ := hsplit i d hd
    rw [heq] at hnodup ⊢
    refine layerIn_lt hnodup hdp ?_
    exact ((depsAt_addEdges (edgeList_edges hv) i).2 d).mpr (mem_edges.mpr hd)

/-- Leg 3 names leg 0, whose yield it swaps, and leg 2, which comes after leg 1. -/
def earlyLeg : List SwapLegDto :=
  [plainLeg "XLM" "USD" [], plainLeg "EUR" "GBP" [0], plainLeg "CHF" "JPY" [1],
    plainLeg "USD" "SEK" [0, 2]]

/-- Leg 3 is sorted before leg 2, and shares its layer. -/
theorem leg_before_dependency :
    ∃ graph, buildGraphFromDtos earlyLeg = .ok graph ∧ ¬ OrdersLegs earlyLeg graph := by
  obtain ⟨graph, hgraph, horder⟩ : ∃ graph, buildGraphFromDtos earlyLeg = .ok graph ∧
      graph.topologicalOrder = [0, 1, 3, 2] := ⟨_, rfl, by decide +kernel⟩
  refine ⟨graph, hgraph, fun h => ?_⟩
  have hedges : edges earlyLeg = [(0, 1), (1, 2), (0, 3), (2, 3), (0, 3)] := by decide +kernel
  have hdep : DependsOn earlyLeg 3 2 := mem_edges.mp (by rw [hedges]; decide)
  have := h.precedes 3 2 hdep
  rw [horder] at this
  revert this
  decide

def inTurn : List SwapLegDto :=
  [plainLeg "XLM" "USD" [], plainLeg "USD" "EUR" [], plainLeg "GBP" "JPY" [0, 1]]

theorem inTurn_ordered :
    ∃ graph, buildGraphFromDtos inTurn = .ok graph ∧ OrdersLegs inTurn graph := by
  obtain ⟨graph, hgraph⟩ : ∃ graph, buildGraphFromDtos inTurn = .ok graph := ⟨_, rfl⟩
  refine ⟨graph, hgraph, buildGraphFromDtos_ordered (fun i d e hd he _ => ?_) hgraph⟩
  have hedges : edges inTurn = [(0, 1), (0, 2), (1, 2)] := by decide +kernel
  have hin := mem_edges.mpr hd
  rw [hedges] at hin ⊢
  revert hin
  simp only [List.mem_cons, Prod.mk.injEq, List.not_mem_nil, or_false]
  rintro (⟨rfl, rfl⟩ | ⟨rfl, rfl⟩ | ⟨rfl, rfl⟩) <;> rfl

end Coordinator
end TradeCore
