import TradeCore.Coordinator.Entities
import TradeCore.Lib.Table

/-!
# TradeCore.Coordinator.Graph

`TransactionGraphBuilderService`, and `createBatch`, which plans a batch with it.

A graph is the list of its nodes. A dependency of a request is a JavaScript number; one that is no
index makes `addEdge` read a node that is not there. `createBatch` stores a dependency on leg `k` as
the text `order_k`, while `buildGraphFromLegs` looks for a leg whose key is that text. There is none,
so the graph of stored legs has no edges and one layer (`layers_agree_iff`).
-/

namespace TradeCore
namespace Coordinator

open Lib

structure GraphNode where
  dependencies : List Nat
  dependents : List Nat
  deriving DecidableEq, Repr

abbrev Nodes := List GraphNode

structure TransactionGraph where
  nodes : Nodes
  executionLayers : List (List Nat)
  topologicalOrder : List Nat
  deriving DecidableEq, Repr

def createEmptyGraph (nodeCount : Nat) : Nodes := List.replicate nodeCount ⟨[], []⟩

/-- The test in front of `dependents` reads the dependencies, so that an edge added twice is listed
twice here. -/
def GraphNode.addDependent (target : Nat) (node : GraphNode) : GraphNode :=
  if target ∈ node.dependencies then node
  else { node with dependents := node.dependents ++ [target] }

def GraphNode.addDependency (source : Nat) (node : GraphNode) : GraphNode :=
  if source ∈ node.dependencies then node
  else { node with dependencies := node.dependencies ++ [source] }

def addEdge (nodes : Nodes) (source target : Nat) : Nodes :=
  (nodes.modify source (GraphNode.addDependent target)).modify target (GraphNode.addDependency source)

def hasImplicitDependency (current previous : SwapLegDto) : Bool :=
  decide (current.sourceAssetCode = previous.destAssetCode) &&
    decide (current.sourceAssetIssuer = previous.destAssetIssuer)

/-- The index a number denotes. -/
def index? (x : ℚ) : Option Nat := if x.den = 1 ∧ 0 ≤ x.num then some x.num.toNat else none

/-! ## Topological order and layers -/

/-- The loop over the dependents of the node just taken from the queue. -/
def relax : List Nat → List Int × List Nat → List Int × List Nat
  | [], s => s
  | dependent :: rest, (inDegree, queue) =>
    let newDegree := inDegree[dependent]?.getD 1 - 1
    relax rest
      (inDegree.set dependent newDegree, if newDegree = 0 then queue ++ [dependent] else queue)

def sortLoop (nodes : Nodes) : Nat → List Int × List Nat → List Nat → List Nat
  | 0, _, result => result
  | _ + 1, (_, []), result => result
  | fuel + 1, (inDegree, current :: queue), result =>
    sortLoop nodes fuel
      (relax ((nodes[current]?.map (·.dependents)).getD []) (inDegree, queue)) (result ++ [current])

/-- Kahn's algorithm. Every node enters the queue at most once, so that as many rounds as there are
nodes empty it (`topologicalSort_exhausts`). -/
def topologicalSort (nodes : Nodes) : List Nat :=
  let inDegree := nodes.map fun node => (node.dependencies.length : Int)
  let queue := (List.range nodes.length).filter fun i =>
    decide (((nodes[i]?.map (·.dependencies)).getD []) = [])
  sortLoop nodes nodes.length (inDegree, queue) []

/-- The layer of a node, from the layers found so far. -/
def layerOf (nodes : Nodes) (layerMap : List (Nat × Nat)) (nodeIndex : Nat) : Nat :=
  match (nodes[nodeIndex]?.map (·.dependencies)).getD [] with
  | [] => 0
  | deps => (deps.map fun dep => ((lookup Prod.fst dep layerMap).map Prod.snd).getD 0).foldl max 0 + 1

def layerMapOf (nodes : Nodes) (topologicalOrder : List Nat) : List (Nat × Nat) :=
  topologicalOrder.foldl (fun layerMap i => upsert Prod.fst (i, layerOf nodes layerMap i) layerMap) []

/-- The nodes grouped by layer, in the order in which they got their layer. -/
def buildExecutionLayers (nodes : Nodes) (topologicalOrder : List Nat) : List (List Nat) :=
  let layerMap := layerMapOf nodes topologicalOrder
  let count := (layerMap.map fun r => r.2 + 1).foldl max 0
  (List.range count).map fun layer => (layerMap.filter fun r => r.2 = layer).map Prod.fst

def finishGraph (nodes : Nodes) (legCount : Nat) : Except HttpError TransactionGraph :=
  let topologicalOrder := topologicalSort nodes
  if topologicalOrder.length < legCount then
    .error (.badRequest "Cycle detected in transaction dependency graph")
  else .ok ⟨nodes, buildExecutionLayers nodes topologicalOrder, topologicalOrder⟩

/-! ## From the request -/

def addExplicit (legCount i : Nat) : List JsNumber → Nodes → Except HttpError Nodes
  | [], nodes => .ok nodes
  | dep :: deps, nodes =>
    if dep.value < 0 ∨ (legCount : ℚ) ≤ dep.value then
      .error (.badRequest s!"Leg {i} has invalid dependency index {String.ofList dep.text}")
    else if dep.value = i then .error (.badRequest s!"Leg {i} cannot depend on itself")
    else
      match index? dep.value with
      | none => .error (.internal "TypeError: Cannot read properties of undefined")
      | some depIndex => addExplicit legCount i deps (addEdge nodes depIndex i)

/-- An edge from every previous leg whose destination asset is the source asset of leg `i`. -/
def addImplicit (i : Nat) (leg : SwapLegDto) (previous : List SwapLegDto) (nodes : Nodes) : Nodes :=
  previous.zipIdx.foldl
    (fun nodes p => if hasImplicitDependency leg p.1 then addEdge nodes p.2 i else nodes) nodes

def addLegs (legCount : Nat) : List SwapLegDto → List SwapLegDto → Nodes → Except HttpError Nodes
  | _, [], nodes => .ok nodes
  | previous, leg :: rest, nodes =>
    match addExplicit legCount previous.length (leg.dependencies.getD []) nodes with
    | .error e => .error e
    | .ok nodes =>
      addLegs legCount (previous ++ [leg]) rest (addImplicit previous.length leg previous nodes)

def buildGraphFromDtos (legs : List SwapLegDto) : Except HttpError TransactionGraph :=
  match addLegs legs.length [] legs (createEmptyGraph legs.length) with
  | .error e => .error e
  | .ok nodes => finishGraph nodes legs.length

/-! ## From the stored legs -/

def addStored (legs : List BatchLeg) (i : Nat) (dependencies : List String) (nodes : Nodes) : Nodes :=
  dependencies.foldl
    (fun nodes depId =>
      match legs.findIdx? fun l => decide (l.id.text = depId) with
      | some depIndex => addEdge nodes depIndex i
      | none => nodes) nodes

def buildGraphFromLegs (legs : List BatchLeg) : Except HttpError TransactionGraph :=
  let nodes := legs.zipIdx.foldl (fun nodes p => addStored legs p.2 p.1.dependencies nodes)
    (createEmptyGraph legs.length)
  finishGraph nodes legs.length

/-! ## Creating a batch -/

def createBatch.validateLeg (i : Nat) : List JsNumber → Except HttpError Unit
  | [] => .ok ()
  | dep :: deps =>
    if (i : ℚ) ≤ dep.value then
      .error (.badRequest s!"Leg {i} has forward dependency on leg {String.ofList dep.text}")
    else createBatch.validateLeg i deps

def createBatch.validate : Nat → List SwapLegDto → Except HttpError Unit
  | _, [] => .ok ()
  | i, leg :: legs =>
    match createBatch.validateLeg i (leg.dependencies.getD []) with
    | .error e => .error e
    | .ok () => createBatch.validate (i + 1) legs

/-- The references are stored as texts; nothing resolves them to keys later. -/
def resolveDependencyIndices (legDto : SwapLegDto) : List String :=
  (legDto.dependencies.getD []).map fun dep => "order_" ++ String.ofList dep.text

def createBatch.legRow (id : Nat → UuidText) (legDto : SwapLegDto) (index : Nat) : BatchLeg where
  id := id index
  orderIndex := index
  dependencies := resolveDependencyIndices legDto
  amount := column legDto.amount
  minAmountOut := column legDto.minAmountOut
  maxAmountOut := legDto.maxAmountOut.map column
  isConditional := legDto.isConditional
  conditionExpression := legDto.conditional.bind (·.conditionExpression)
  conditionType := legDto.conditional.bind (·.conditionType)
  status := .pending
  expectedOutput := none
  actualOutput := none
  stellarTxHash := none

/-- A batch as it is stored, with the plan that goes to the audit log. -/
structure CreatedBatch where
  batch : TransactionBatch
  legs : List BatchLeg
  executionPlan : List (List Nat)

/-- `id` are the keys the database generates for the legs. -/
def createBatch (id : Nat → UuidText) (dto : CreateBatchDto) : Except HttpError CreatedBatch :=
  if dto.legs.length < 1 then .error (.badRequest "Batch must have at least 1 leg")
  else
    match createBatch.validate 0 dto.legs with
    | .error e => .error e
    | .ok () =>
      match buildGraphFromDtos dto.legs with
      | .error e => .error e
      | .ok graph =>
        .ok { batch := ⟨.created, dto.legs.length, 0, 0⟩
              legs := dto.legs.zipIdx.map fun p => createBatch.legRow id p.1 p.2
              executionPlan := graph.executionLayers }

/-! ## Edges -/

def depsAt (nodes : Nodes) (i : Nat) : List Nat := (nodes[i]?.map (·.dependencies)).getD []

@[simp] theorem length_addEdge (nodes : Nodes) (source target : Nat) :
    (addEdge nodes source target).length = nodes.length := by
  simp [addEdge]

@[simp] theorem GraphNode.dependencies_addDependent (target : Nat) (node : GraphNode) :
    (node.addDependent target).dependencies = node.dependencies := by
  unfold GraphNode.addDependent
  split <;> rfl

theorem GraphNode.subset_addDependency (source : Nat) (node : GraphNode) :
    node.dependencies ⊆ (node.addDependency source).dependencies := by
  intro d hd
  unfold GraphNode.addDependency
  split
  · exact hd
  · exact List.mem_append_left _ hd

theorem GraphNode.mem_addDependency (source : Nat) (node : GraphNode) :
    source ∈ (node.addDependency source).dependencies := by
  unfold GraphNode.addDependency
  split
  · assumption
  · simp

theorem depsAt_modify {f : GraphNode → GraphNode}
    (hf : ∀ node : GraphNode, node.dependencies ⊆ (f node).dependencies) (nodes : Nodes) (k i : Nat) :
    depsAt nodes i ⊆ depsAt (nodes.modify k f) i := by
  intro d hd
  unfold depsAt at hd ⊢
  rw [List.getElem?_modify]
  cases hi : nodes[i]? with
  | none => simp [hi] at hd
  | some node =>
    simp only [hi, Option.map_some, Option.getD_some] at hd
    by_cases hk : k = i
    · simpa [hk] using hf node hd
    · simpa [hk] using hd

theorem depsAt_addEdge (nodes : Nodes) (source target i : Nat) :
    depsAt nodes i ⊆ depsAt (addEdge nodes source target) i := by
  intro d hd
  refine depsAt_modify (GraphNode.subset_addDependency source) _ target i ?_
  exact depsAt_modify (fun node => by simp) nodes source i hd

theorem mem_depsAt_addEdge {nodes : Nodes} {source target : Nat} (h : target < nodes.length) :
    source ∈ depsAt (addEdge nodes source target) target := by
  have hlen : target < (nodes.modify source (GraphNode.addDependent target)).length := by simpa using h
  unfold depsAt addEdge
  rw [List.getElem?_modify, List.getElem?_eq_getElem hlen]
  simpa using GraphNode.mem_addDependency source _

theorem addExplicit_cons {n i : Nat} {dep : JsNumber} {deps : List JsNumber} {nodes nodes' : Nodes}
    (h : addExplicit n i (dep :: deps) nodes = .ok nodes') :
    ∃ depIndex, 0 ≤ dep.value ∧ dep.value < n ∧ dep.value ≠ i ∧ index? dep.value = some depIndex ∧
      addExplicit n i deps (addEdge nodes depIndex i) = .ok nodes' := by
  simp only [addExplicit] at h
  split at h
  · cases h
  · rename_i hrange
    rw [not_or, not_lt, not_le] at hrange
    split at h
    · cases h
    · rename_i hself
      split at h
      · cases h
      · rename_i depIndex hindex
        exact ⟨depIndex, hrange.1, hrange.2, hself, hindex, h⟩

theorem addExplicit_ok {n i : Nat} {deps : List JsNumber} {nodes nodes' : Nodes}
    (h : addExplicit n i deps nodes = .ok nodes') :
    nodes'.length = nodes.length ∧ (∀ k, depsAt nodes k ⊆ depsAt nodes' k) ∧
      (deps ≠ [] → i < nodes.length → depsAt nodes' i ≠ []) := by
  induction deps generalizing nodes with
  | nil =>
    cases h
    exact ⟨rfl, fun _ _ hd => hd, fun hne => absurd rfl hne⟩
  | cons dep deps ih =>
    obtain ⟨depIndex, -, -, -, -, hrest⟩ := addExplicit_cons h
    obtain ⟨hlen, hsub, -⟩ := ih hrest
    rw [length_addEdge] at hlen
    refine ⟨hlen, fun k _ hd => hsub k (depsAt_addEdge nodes depIndex i k hd), fun _ hi => ?_⟩
    exact List.ne_nil_of_mem (hsub i (mem_depsAt_addEdge hi))

theorem addImplicit_spec (i : Nat) (leg : SwapLegDto) (previous : List (SwapLegDto × Nat)) (nodes : Nodes) :
    let nodes' := previous.foldl
      (fun nodes p => if hasImplicitDependency leg p.1 then addEdge nodes p.2 i else nodes) nodes
    nodes'.length = nodes.length ∧ (∀ k, depsAt nodes k ⊆ depsAt nodes' k) ∧
      ((∃ p ∈ previous, hasImplicitDependency leg p.1 = true) → i < nodes.length → depsAt nodes' i ≠ []) := by
  induction previous generalizing nodes with
  | nil => simp
  | cons p previous ih =>
    simp only [List.foldl_cons]
    by_cases hp : hasImplicitDependency leg p.1 = true
    · obtain ⟨hlen, hsub, -⟩ := ih (addEdge nodes p.2 i)
      simp only [hp, if_true]
      rw [length_addEdge] at hlen
      refine ⟨hlen, fun k _ hd => hsub k (depsAt_addEdge nodes p.2 i k hd), fun _ hi => ?_⟩
      exact List.ne_nil_of_mem (hsub i (mem_depsAt_addEdge hi))
    · obtain ⟨hlen, hsub, hex⟩ := ih nodes
      simp only [hp]
      refine ⟨hlen, hsub, fun hany hi => hex ?_ hi⟩
      obtain ⟨q, hq, hqi⟩ := hany
      rcases List.mem_cons.mp hq with rfl | hq
      · exact absurd hqi hp
      · exact ⟨q, hq, hqi⟩

theorem length_addLeg {n : Nat} {leg : SwapLegDto} {previous rest : List SwapLegDto}
    {nodes nodes' : Nodes}
    (hn : previous.length + (leg :: rest).length ≤ nodes.length)
    (h : addExplicit n previous.length (leg.dependencies.getD []) nodes = .ok nodes') :
    (previous ++ [leg]).length + rest.length ≤
      (addImplicit previous.length leg previous nodes').length := by
  have hlen := (addImplicit_spec previous.length leg previous.zipIdx nodes').1
  unfold addImplicit
  rw [hlen, (addExplicit_ok h).1]
  simp only [List.length_append, List.length_cons, List.length_nil] at hn ⊢
  omega

/-- No leg of a request names another leg or takes its source asset from an earlier one. -/
def Independent (legs : List SwapLegDto) : Prop :=
  ∀ i leg, legs[i]? = some leg → leg.dependencies.getD [] = [] ∧
    ∀ p ∈ legs.take i, hasImplicitDependency leg p = false

/-- Leg `k` of the rest depends on some leg. -/
def Depends (previous rest : List SwapLegDto) (k : Nat) (leg : SwapLegDto) : Prop :=
  leg.dependencies.getD [] ≠ [] ∨ ∃ p ∈ previous ++ rest.take k, hasImplicitDependency leg p = true

theorem addLegs_cons_ok {n : Nat} {leg : SwapLegDto} {previous rest : List SwapLegDto}
    {nodes nodes' : Nodes} (h : addLegs n previous (leg :: rest) nodes = .ok nodes') :
    ∃ nodes1, addExplicit n previous.length (leg.dependencies.getD []) nodes = .ok nodes1 ∧
      addLegs n (previous ++ [leg]) rest (addImplicit previous.length leg previous nodes1) = .ok nodes' := by
  rw [addLegs] at h
  split at h
  · cases h
  · rename_i nodes1 hexp
    exact ⟨nodes1, hexp, h⟩

theorem addLegs_ok {n : Nat} {previous rest : List SwapLegDto} {nodes nodes' : Nodes}
    (hn : previous.length + rest.length ≤ nodes.length)
    (h : addLegs n previous rest nodes = .ok nodes') :
    nodes'.length = nodes.length ∧ (∀ k, depsAt nodes k ⊆ depsAt nodes' k) ∧
      ∀ k leg, rest[k]? = some leg → Depends previous rest k leg →
        depsAt nodes' (previous.length + k) ≠ [] := by
  induction rest generalizing previous nodes with
  | nil =>
    cases h
    exact ⟨rfl, fun _ _ hd => hd, fun k leg hk => by simp at hk⟩
  | cons leg rest ih =>
    obtain ⟨nodes1, hexp, h⟩ := addLegs_cons_ok h
    have hn2 := length_addLeg hn hexp
    simp only [List.length_cons] at hn
    obtain ⟨hlen1, hsub1, hne1⟩ := addExplicit_ok hexp
    obtain ⟨hlen2, hsub2, hne2⟩ := addImplicit_spec previous.length leg previous.zipIdx nodes1
    obtain ⟨hlen3, hsub3, hne3⟩ := ih hn2 h
    refine ⟨hlen3.trans (hlen2.trans hlen1),
      fun k _ hd => hsub3 k (hsub2 k (hsub1 k hd)), fun k l hk hdep => ?_⟩
    cases k with
    | zero =>
      simp only [List.getElem?_cons_zero, Option.some.injEq] at hk
      subst hk
      have hi : previous.length < nodes.length := by omega
      rw [Nat.add_zero]
      rcases hdep with hdep | ⟨q, hq, hqi⟩
      · obtain ⟨d, hd⟩ := List.exists_mem_of_ne_nil _ (hne1 hdep hi)
        exact List.ne_nil_of_mem (hsub3 _ (hsub2 _ hd))
      · have hex : ∃ q ∈ previous.zipIdx, hasImplicitDependency leg q.1 = true := by
          rw [List.take_zero, List.append_nil] at hq
          obtain ⟨m, hm⟩ := List.getElem?_of_mem hq
          exact ⟨(q, m), by simpa [List.mem_zipIdx_iff_getElem?] using hm, hqi⟩
        obtain ⟨d, hd⟩ := List.exists_mem_of_ne_nil _ (hne2 hex (by omega))
        exact List.ne_nil_of_mem (hsub3 _ hd)
    | succ k =>
      simp only [List.getElem?_cons_succ] at hk
      have hdep' : Depends (previous ++ [leg]) rest k l := by
        simpa [Depends] using hdep
      have := hne3 k l hk hdep'
      rw [List.length_append, List.length_singleton, Nat.add_right_comm] at this
      exact this

theorem addImplicit_none {i : Nat} {leg : SwapLegDto} {previous : List SwapLegDto} {nodes : Nodes}
    (h : ∀ p ∈ previous, hasImplicitDependency leg p = false) :
    addImplicit i leg previous nodes = nodes := by
  have hall : ∀ q ∈ previous.zipIdx, hasImplicitDependency leg q.1 = false := by
    intro q hq
    exact h q.1 (List.fst_mem_of_mem_zipIdx hq)
  unfold addImplicit
  generalize previous.zipIdx = ps at hall
  induction ps with
  | nil => rfl
  | cons q ps ih =>
    rw [List.foldl_cons, hall q (by simp)]
    exact ih fun r hr => hall r (by simp [hr])

theorem addLegs_independent {n : Nat} {previous rest : List SwapLegDto} {nodes : Nodes}
    (h : ∀ k leg, rest[k]? = some leg → ¬ Depends previous rest k leg) :
    addLegs n previous rest nodes = .ok nodes := by
  induction rest generalizing previous with
  | nil => rfl
  | cons leg rest ih =>
    have h0 := h 0 leg rfl
    simp only [Depends, List.take_zero, List.append_nil, not_or, not_not, not_exists, not_and] at h0
    rw [addLegs, h0.1]
    simp only [addExplicit]
    rw [addImplicit_none fun p hp => by simpa using h0.2 p hp]
    refine ih fun k l hk hdep => h (k + 1) l (by simpa using hk) ?_
    simpa [Depends] using hdep

/-! ## The queue empties -/

/-- Every dependent is a node. -/
def Linked (nodes : Nodes) : Prop := ∀ node ∈ nodes, ∀ d ∈ node.dependents, d < nodes.length

/-- Nodes still to enter the queue, and nodes in it. -/
def load (s : List Int × List Nat) : Nat := s.1.countP (fun d => decide (0 < d)) + s.2.length

theorem countP_set_add {p : Int → Bool} {l : List Int} {i : Nat} {x : Int} (h : l[i]? = some x) (y : Int) :
    (l.set i y).countP p + (if p x then 1 else 0) = l.countP p + if p y then 1 else 0 := by
  induction l generalizing i with
  | nil => simp at h
  | cons z l ih =>
    cases i with
    | zero =>
      simp only [List.getElem?_cons_zero, Option.some.injEq] at h
      subst h
      simp only [List.set_cons_zero, List.countP_cons]
      omega
    | succ i =>
      have := ih (i := i) (by simpa using h)
      simp only [List.set_cons_succ, List.countP_cons]
      omega

theorem relax_load {ds : List Nat} {s : List Int × List Nat} (h : ∀ d ∈ ds, d < s.1.length) :
    load (relax ds s) ≤ load s ∧ (relax ds s).1.length = s.1.length := by
  induction ds generalizing s with
  | nil => exact ⟨Nat.le_refl _, rfl⟩
  | cons d ds ih =>
    obtain ⟨inDegree, queue⟩ := s
    have hd : d < inDegree.length := h d (by simp)
    simp only [relax, List.getElem?_eq_getElem hd, Option.getD_some]
    obtain ⟨hload, hlen⟩ := ih (s := (inDegree.set d (inDegree[d] - 1),
      if inDegree[d] - 1 = 0 then queue ++ [d] else queue)) (by simpa using fun e he => h e (by simp [he]))
    refine ⟨Nat.le_trans hload ?_, by simpa using hlen⟩
    have hset := countP_set_add (p := fun x => decide (0 < x)) (List.getElem?_eq_getElem hd)
      (inDegree[d] - 1)
    simp only [decide_eq_true_eq] at hset
    unfold load
    dsimp only
    split
    · rename_i h0
      rw [List.length_append, List.length_singleton]
      split at hset <;> split at hset <;> omega
    · split at hset <;> split at hset <;> omega

theorem sortLoop_exhausts {nodes : Nodes} (hl : Linked nodes) (fuel extra : Nat)
    (s : List Int × List Nat) (result : List Nat) (hlen : s.1.length = nodes.length)
    (hfuel : load s ≤ fuel) :
    sortLoop nodes (fuel + extra) s result = sortLoop nodes fuel s result := by
  induction fuel generalizing s result with
  | zero =>
    obtain ⟨inDegree, queue⟩ := s
    have : queue = [] := by
      unfold load at hfuel
      exact List.eq_nil_of_length_eq_zero (by dsimp only at hfuel; omega)
    subst this
    cases extra <;> simp [sortLoop]
  | succ fuel ih =>
    obtain ⟨inDegree, queue⟩ := s
    rw [Nat.add_right_comm]
    cases queue with
    | nil => simp [sortLoop]
    | cons current queue =>
      simp only [sortLoop]
      have hd : ∀ d ∈ (nodes[current]?.map (·.dependents)).getD [], d < inDegree.length := by
        intro d hd
        dsimp only at hlen
        rw [hlen]
        cases hc : nodes[current]? with
        | none => simp [hc] at hd
        | some node => exact hl node (List.mem_of_getElem? hc) d (by simpa [hc] using hd)
      obtain ⟨hload, hlen'⟩ := relax_load (s := (inDegree, queue)) hd
      refine ih _ _ (hlen'.trans hlen) ?_
      unfold load at hload hfuel ⊢
      simp only [List.length_cons] at hload hfuel
      omega

theorem Linked.addEdge {nodes : Nodes} (h : Linked nodes) {source target : Nat}
    (ht : target < nodes.length) : Linked (Coordinator.addEdge nodes source target) := by
  have hmod : ∀ {ns : Nodes} {k : Nat} {f : GraphNode → GraphNode},
      (∀ node ∈ ns, ∀ d ∈ node.dependents, d < nodes.length) →
      (∀ node : GraphNode, (∀ d ∈ node.dependents, d < nodes.length) →
        ∀ d ∈ (f node).dependents, d < nodes.length) →
      ∀ node ∈ ns.modify k f, ∀ d ∈ node.dependents, d < nodes.length := by
    intro ns k f hns hf node hnode
    obtain ⟨i, hi⟩ := List.getElem?_of_mem hnode
    rw [List.getElem?_modify] at hi
    obtain ⟨old, hold, rfl⟩ := Option.map_eq_some_iff.mp hi
    have hold := hns old (List.mem_of_getElem? hold)
    split
    · exact hf old hold
    · exact hold
  unfold Linked
  rw [length_addEdge]
  refine hmod (hmod h ?_) ?_
  · intro node hnode d hd
    unfold GraphNode.addDependent at hd
    split at hd
    · exact hnode d hd
    · rcases List.mem_append.mp hd with hd | hd
      · exact hnode d hd
      · rw [List.mem_singleton.mp hd]
        exact ht
  · intro node hnode d hd
    unfold GraphNode.addDependency at hd
    split at hd <;> exact hnode d hd

theorem linked_addExplicit {n i : Nat} {deps : List JsNumber} {nodes nodes' : Nodes}
    (hl : Linked nodes) (hi : i < nodes.length) (h : addExplicit n i deps nodes = .ok nodes') :
    Linked nodes' := by
  induction deps generalizing nodes with
  | nil =>
    cases h
    exact hl
  | cons dep deps ih =>
    obtain ⟨depIndex, -, -, -, -, hrest⟩ := addExplicit_cons h
    exact ih (hl.addEdge hi) (by simpa using hi) hrest

theorem linked_addImplicit {i : Nat} {leg : SwapLegDto} {previous : List SwapLegDto} {nodes : Nodes}
    (hl : Linked nodes) (hi : i < nodes.length) : Linked (addImplicit i leg previous nodes) := by
  unfold addImplicit
  generalize previous.zipIdx = ps
  induction ps generalizing nodes with
  | nil => exact hl
  | cons p ps ih =>
    rw [List.foldl_cons]
    split
    · exact ih (hl.addEdge hi) (by simpa using hi)
    · exact ih hl hi

theorem linked_addLegs {n : Nat} {previous rest : List SwapLegDto} {nodes nodes' : Nodes}
    (hl : Linked nodes) (hn : previous.length + rest.length ≤ nodes.length)
    (h : addLegs n previous rest nodes = .ok nodes') : Linked nodes' := by
  induction rest generalizing previous nodes with
  | nil =>
    cases h
    exact hl
  | cons leg rest ih =>
    obtain ⟨nodes1, hexp, h⟩ := addLegs_cons_ok h
    have hn2 := length_addLeg hn hexp
    simp only [List.length_cons] at hn
    have hi : previous.length < nodes.length := by omega
    have hi1 : previous.length < nodes1.length := (addExplicit_ok hexp).1 ▸ hi
    exact ih (linked_addImplicit (linked_addExplicit hl hi hexp) hi1) hn2 h

theorem topologicalSort_exhausts {legs : List SwapLegDto} {nodes : Nodes}
    (h : addLegs legs.length [] legs (createEmptyGraph legs.length) = .ok nodes) (extra : Nat) :
    sortLoop nodes (nodes.length + extra)
      (nodes.map fun node => (node.dependencies.length : Int),
        (List.range nodes.length).filter fun i => decide (depsAt nodes i = [])) [] =
      topologicalSort nodes := by
  have hl : Linked (createEmptyGraph legs.length) := by
    intro node hnode d hd
    rw [List.eq_of_mem_replicate hnode] at hd
    cases hd
  refine sortLoop_exhausts (linked_addLegs hl (by simp [createEmptyGraph]) h) _ _ _ _ (by simp) ?_
  -- a node either waits for its dependencies or is in the queue from the start
  have hqueue : ((List.range nodes.length).filter fun i => decide (depsAt nodes i = [])).length =
      nodes.countP fun node => decide (node.dependencies = []) := by
    have hmap : (List.range nodes.length).map (fun i => nodes[i]?) = nodes.map some := by
      apply List.ext_getElem?
      intro i
      by_cases hi : i < nodes.length
      · simp [List.getElem?_range hi, List.getElem?_eq_getElem hi]
      · have hle : nodes.length ≤ i := Nat.le_of_not_lt hi
        simp [hle]
    have hcount := congrArg (List.countP fun o : Option GraphNode =>
      decide ((o.map (·.dependencies)).getD [] = [])) hmap
    rw [List.countP_map, List.countP_map, List.countP_eq_length_filter] at hcount
    exact hcount
  have hsplit := List.length_eq_countP_add_countP (fun node : GraphNode => decide (node.dependencies = []))
    (l := nodes)
  have hwait : (nodes.map fun node => (node.dependencies.length : Int)).countP (fun d => decide (0 < d)) =
      nodes.countP fun node => ¬ decide (node.dependencies = []) = true := by
    rw [List.countP_map]
    refine List.countP_congr fun node _ => ?_
    simp [List.length_pos_iff]
  unfold load
  rw [hqueue, hwait]
  omega

/-! ## A graph without edges -/

theorem sortLoop_edgeless {nodes : Nodes} (h : ∀ node ∈ nodes, node.dependents = []) (fuel : Nat)
    (inDegree : List Int) (queue result : List Nat) (hq : queue.length ≤ fuel) :
    sortLoop nodes fuel (inDegree, queue) result = result ++ queue := by
  induction fuel generalizing queue result with
  | zero =>
    have : queue = [] := List.eq_nil_of_length_eq_zero (by omega)
    rw [this, List.append_nil]
    rfl
  | succ fuel ih =>
    cases queue with
    | nil => simp [sortLoop]
    | cons current queue =>
      have hnone : (nodes[current]?.map (·.dependents)).getD [] = [] := by
        cases hc : nodes[current]? with
        | none => rfl
        | some node => simpa using h node (List.mem_of_getElem? hc)
      rw [sortLoop, hnone]
      simp only [relax]
      rw [ih queue _ (by simpa using hq)]
      simp

theorem layerMapOf_edgeless {nodes : Nodes} (h : ∀ i, depsAt nodes i = []) {order : List Nat}
    (hn : order.Nodup) : layerMapOf nodes order = order.map fun i => (i, 0) := by
  have hstep : ∀ (todo : List Nat) (done : List (Nat × Nat)), todo.Nodup →
      (∀ i ∈ todo, i ∉ done.map Prod.fst) →
      todo.foldl (fun m i => upsert Prod.fst (i, layerOf nodes m i) m) done =
        done ++ todo.map fun i => (i, 0) := by
    intro todo
    induction todo with
    | nil => intro done _ _; simp
    | cons i todo ih =>
      intro done hnd hfresh
      rw [List.nodup_cons] at hnd
      have hlayer : layerOf nodes done i = 0 := by
        have := h i
        unfold depsAt at this
        simp [layerOf, this]
      rw [List.foldl_cons, hlayer, upsert_of_not_mem (hfresh i (by simp)), ih _ hnd.2 ?_]
      · simp
      · intro k hk
        have hne : k ≠ i := fun he => hnd.1 (he ▸ hk)
        simp only [List.map_append, List.map_cons, List.map_nil, List.mem_append, List.mem_singleton,
          not_or]
        exact ⟨hfresh k (by simp [hk]), hne⟩
  simpa [layerMapOf] using hstep order [] hn (by simp)

theorem foldl_max_replicate_one (n : Nat) (h : 0 < n) :
    (List.replicate n 1).foldl max 0 = 1 := by
  obtain ⟨m, rfl⟩ : ∃ m, n = m + 1 := ⟨n - 1, by omega⟩
  have hone : ∀ m, (List.replicate m 1).foldl max 1 = 1 := by
    intro m
    induction m with
    | zero => rfl
    | succ m ih => simpa [List.replicate_succ] using ih
  simpa [List.replicate_succ] using hone m

theorem finishGraph_edgeless {n : Nat} (h : 0 < n) :
    finishGraph (createEmptyGraph n) n =
      .ok ⟨createEmptyGraph n, [List.range n], List.range n⟩ := by
  have hdeps : ∀ i, depsAt (createEmptyGraph n) i = [] := by
    intro i
    unfold depsAt createEmptyGraph
    rw [List.getElem?_replicate]
    split <;> rfl
  have hnone : ∀ node ∈ createEmptyGraph n, node.dependents = [] := by
    intro node hnode
    rw [List.eq_of_mem_replicate hnode]
  have hlen : (createEmptyGraph n).length = n := List.length_replicate
  have hqueue : ((List.range (createEmptyGraph n).length).filter fun i =>
      decide ((((createEmptyGraph n)[i]?.map (·.dependencies)).getD []) = [])) = List.range n := by
    rw [hlen, List.filter_eq_self]
    intro i _
    simpa [depsAt] using hdeps i
  have hsort : topologicalSort (createEmptyGraph n) = List.range n := by
    unfold topologicalSort
    dsimp only
    rw [hqueue, sortLoop_edgeless hnone _ _ _ _ (by simp [hlen])]
    simp
  have hlayers : buildExecutionLayers (createEmptyGraph n) (List.range n) = [List.range n] := by
    unfold buildExecutionLayers
    rw [layerMapOf_edgeless hdeps List.nodup_range]
    have hcount : (((List.range n).map fun i => (i, 0)).map fun r : Nat × Nat => r.2 + 1).foldl max 0 = 1 := by
      rw [List.map_map]
      have : (List.range n).map ((fun r : Nat × Nat => r.2 + 1) ∘ fun i => (i, 0)) = List.replicate n 1 := by
        simp [List.eq_replicate_iff]
      rw [this, foldl_max_replicate_one n h]
    have hall : ((List.range n).map fun i => (i, 0)).filter (fun r : Nat × Nat => decide (r.2 = 0)) =
        (List.range n).map fun i => (i, 0) := by
      rw [List.filter_eq_self]
      intro r hr
      obtain ⟨i, -, rfl⟩ := List.mem_map.mp hr
      rfl
    have hfst : ((List.range n).map fun i => (i, 0)).map (Prod.fst : Nat × Nat → Nat) = List.range n := by
      simp [List.map_map, Function.comp_def]
    dsimp only
    rw [hcount, List.range_one, List.map_singleton, hall, hfst]
  unfold finishGraph
  simp [hsort, hlayers]

theorem depsAt_of_layer_zero {nodes : Nodes} {order : List Nat} {i : Nat}
    (h : (i, 0) ∈ layerMapOf nodes order) : depsAt nodes i = [] := by
  have hinv : ∀ (todo : List Nat) (done : List (Nat × Nat)),
      (∀ r ∈ done, r.2 = 0 → depsAt nodes r.1 = []) →
      ∀ r ∈ todo.foldl (fun m i => upsert Prod.fst (i, layerOf nodes m i) m) done,
        r.2 = 0 → depsAt nodes r.1 = [] := by
    intro todo
    induction todo with
    | nil => exact fun done hd => hd
    | cons k todo ih =>
      intro done hd
      rw [List.foldl_cons]
      refine ih _ fun r hr h0 => ?_
      rcases mem_upsert hr with rfl | hr
      · unfold layerOf at h0
        split at h0
        · assumption
        · omega
      · exact hd r hr h0
  exact hinv order [] (by simp) (i, 0) h rfl

theorem depsAt_of_layers {nodes : Nodes} {n : Nat} {order : List Nat}
    (h : buildExecutionLayers nodes order = [List.range n]) {i : Nat} (hi : i < n) :
    depsAt nodes i = [] := by
  unfold buildExecutionLayers at h
  dsimp only at h
  generalize hc : ((layerMapOf nodes order).map fun r => r.2 + 1).foldl max 0 = count at h
  have hcount : count = 1 := by simpa using congrArg List.length h
  rw [hcount] at h
  simp only [List.range_one, List.map_cons, List.map_nil, List.cons.injEq, and_true] at h
  have hmem : i ∈ ((layerMapOf nodes order).filter fun r => decide (r.2 = 0)).map Prod.fst := by
    rw [h]
    exact List.mem_range.mpr hi
  obtain ⟨r, hr, rfl⟩ := List.mem_map.mp hmem
  obtain ⟨hr, h0⟩ := List.mem_filter.mp hr
  have h0 : r.2 = 0 := by simpa using h0
  have hr0 : (r.1, 0) ∈ layerMapOf nodes order := by
    rw [← h0]
    exact hr
  exact depsAt_of_layer_zero hr0

theorem finishGraph_layers {nodes : Nodes} {n : Nat} {graph : TransactionGraph}
    (h : finishGraph nodes n = .ok graph) :
    ∃ order, graph.executionLayers = buildExecutionLayers nodes order := by
  unfold finishGraph at h
  dsimp only at h
  split at h
  · cases h
  · cases h
    exact ⟨_, rfl⟩

/-! ## The stored legs -/

theorem order_ne_uuid (u : UuidText) (t : String) : u.text ≠ "order_" ++ t := by
  intro h
  have hmem : 'o' ∈ u.text.toList := by
    rw [h, String.toList_append]
    exact List.mem_append_left _ (by decide)
  have := u.hex 'o' hmem
  revert this
  decide

theorem addStored_unresolved {legs : List BatchLeg} {i : Nat} {deps : List String} {nodes : Nodes}
    (h : ∀ d ∈ deps, ∃ t, d = "order_" ++ t) : addStored legs i deps nodes = nodes := by
  unfold addStored
  induction deps with
  | nil => rfl
  | cons d deps ih =>
    obtain ⟨t, rfl⟩ := h d (by simp)
    have hnone : (legs.findIdx? fun l => decide (l.id.text = "order_" ++ t)) = none := by
      rw [List.findIdx?_eq_none_iff]
      intro l _
      simpa using order_ne_uuid l.id t
    rw [List.foldl_cons, hnone]
    exact ih fun d hd => h d (by simp [hd])

/-- What `createBatch` stores for a leg. -/
def Stored (legs : List BatchLeg) : Prop := ∀ l ∈ legs, ∀ d ∈ l.dependencies, ∃ t, d = "order_" ++ t

theorem buildGraphFromLegs_stored {legs : List BatchLeg} (hs : Stored legs) (hpos : 0 < legs.length) :
    buildGraphFromLegs legs =
      .ok ⟨createEmptyGraph legs.length, [List.range legs.length], List.range legs.length⟩ := by
  have hnodes : ∀ (ps : List (BatchLeg × Nat)) (nodes : Nodes), (∀ p ∈ ps, p.1 ∈ legs) →
      ps.foldl (fun nodes p => addStored legs p.2 p.1.dependencies nodes) nodes = nodes := by
    intro ps
    induction ps with
    | nil => intro nodes _; rfl
    | cons p ps ih =>
      intro nodes hp
      rw [List.foldl_cons, addStored_unresolved (hs p.1 (hp p (by simp)))]
      exact ih nodes fun q hq => hp q (by simp [hq])
  unfold buildGraphFromLegs
  dsimp only
  rw [hnodes legs.zipIdx _ fun p hp => List.fst_mem_of_mem_zipIdx hp]
  exact finishGraph_edgeless hpos

theorem createBatch_ok {id : Nat → UuidText} {dto : CreateBatchDto} {c : CreatedBatch}
    (h : createBatch id dto = .ok c) :
    0 < dto.legs.length ∧ c.legs = dto.legs.zipIdx.map (fun p => createBatch.legRow id p.1 p.2) ∧
      c.batch = ⟨.created, dto.legs.length, 0, 0⟩ ∧
      ∃ graph, buildGraphFromDtos dto.legs = .ok graph ∧ c.executionPlan = graph.executionLayers := by
  unfold createBatch at h
  split at h
  · cases h
  · split at h
    · cases h
    · split at h
      · cases h
      · rename_i graph hgraph
        cases h
        exact ⟨by omega, rfl, rfl, graph, hgraph, rfl⟩

theorem stored_of_createBatch {id : Nat → UuidText} {dto : CreateBatchDto} {c : CreatedBatch}
    (h : createBatch id dto = .ok c) : Stored c.legs ∧ c.legs.length = dto.legs.length := by
  obtain ⟨-, hlegs, -⟩ := createBatch_ok h
  rw [hlegs]
  refine ⟨?_, by simp⟩
  intro l hl d hd
  obtain ⟨p, -, rfl⟩ := List.mem_map.mp hl
  obtain ⟨dep, -, rfl⟩ := List.mem_map.mp hd
  exact ⟨_, rfl⟩

theorem independent_iff (legs : List SwapLegDto) :
    Independent legs ↔ ∀ k leg, legs[k]? = some leg → ¬ Depends [] legs k leg := by
  simp [Independent, Depends]

/-- The plan of an accepted batch is the one the stored legs are executed by exactly when no leg
depends on another. -/
theorem layers_agree_iff {id : Nat → UuidText} {dto : CreateBatchDto} {c : CreatedBatch}
    (h : createBatch id dto = .ok c) :
    (buildGraphFromLegs c.legs).map (·.executionLayers) = .ok c.executionPlan ↔
      Independent dto.legs := by
  obtain ⟨hpos, -, -, graph, hgraph, hplan⟩ := createBatch_ok h
  obtain ⟨hst, hlen⟩ := stored_of_createBatch h
  rw [buildGraphFromLegs_stored hst (by omega), hlen, hplan, independent_iff]
  unfold buildGraphFromDtos at hgraph
  constructor
  · intro heq k leg hk hdep
    have hlayers : graph.executionLayers = [List.range dto.legs.length] := (Except.ok.inj heq).symm
    split at hgraph
    · cases hgraph
    · rename_i nodes hadd
      have hroom : ([] : List SwapLegDto).length + dto.legs.length ≤
          (createEmptyGraph dto.legs.length).length := by simp [createEmptyGraph]
      obtain ⟨-, -, hne⟩ := addLegs_ok hroom hadd
      obtain ⟨order, hbuild⟩ := finishGraph_layers hgraph
      refine hne k leg hk hdep ?_
      rw [hlayers] at hbuild
      rw [List.length_nil, Nat.zero_add]
      exact depsAt_of_layers hbuild.symm (List.getElem?_eq_some_iff.mp hk).1
  · intro hind
    rw [addLegs_independent hind] at hgraph
    dsimp only at hgraph
    rw [finishGraph_edgeless hpos] at hgraph
    cases hgraph
    rfl

/-- A leg that swaps one asset for another, with the legs it names. -/
def plainLeg (source dest : String) (deps : List Nat) : SwapLegDto where
  sourceAssetCode := source
  sourceAssetIssuer := .undefined
  destAssetCode := dest
  destAssetIssuer := .undefined
  amount := 10
  minAmountOut := 1
  maxAmountOut := some 20
  dependencies := some (deps.map fun d : Nat => ⟨(d : ℚ), Nat.toDigits 10 d⟩)
  isConditional := false
  conditional := none

def plainId (_ : Nat) : UuidText := ⟨"00000000-0000-4000-8000-000000000000", by simp⟩

/-- The second leg swaps what the first one yields, and names it. The plan has two layers, the
stored legs have one. -/
theorem chained_layers_differ :
    ∃ c, createBatch plainId ⟨[plainLeg "USD" "EUR" [], plainLeg "EUR" "JPY" [0]]⟩ = .ok c ∧
      (buildGraphFromLegs c.legs).map (·.executionLayers) ≠ .ok c.executionPlan := by
  obtain ⟨c, hc, hplan, hstored⟩ : ∃ c,
      createBatch plainId ⟨[plainLeg "USD" "EUR" [], plainLeg "EUR" "JPY" [0]]⟩ = .ok c ∧
      c.executionPlan = [[0], [1]] ∧
      (buildGraphFromLegs c.legs).map (·.executionLayers) = .ok [[0, 1]] :=
    ⟨_, rfl, by decide +kernel, by decide +kernel⟩
  refine ⟨c, hc, fun h => ?_⟩
  rw [hplan, hstored, Except.ok.injEq] at h
  exact absurd h (by decide)

theorem separate_layers_agree :
    ∃ c, createBatch plainId ⟨[plainLeg "USD" "EUR" [], plainLeg "GBP" "JPY" []]⟩ = .ok c ∧
      (buildGraphFromLegs c.legs).map (·.executionLayers) = .ok c.executionPlan := by
  obtain ⟨c, hc⟩ : ∃ c,
      createBatch plainId ⟨[plainLeg "USD" "EUR" [], plainLeg "GBP" "JPY" []]⟩ = .ok c := ⟨_, rfl⟩
  refine ⟨c, hc, (layers_agree_iff hc).mpr ?_⟩
  intro i leg hi
  match i with
  | 0 =>
    cases hi
    exact ⟨rfl, by simp⟩
  | 1 =>
    cases hi
    exact ⟨rfl, by decide⟩
  | i + 2 => simp at hi

end Coordinator
end TradeCore
