import Mathlib.Logic.Function.Basic
import TradeCore.Common
import TradeCore.Lib.Run
import TradeCore.Lib.Table

/-!
# TradeCore.Soroban.Registry

The contract registry: the metadata of every deployed contract by id, and the index of the ids
registered under each type. An id never leaves the index of a type, also when the contract is
registered again under another one.

* `oneActive_run`: at most one stored contract of each type is active, in every reachable state.
  The invariant is `Indexed`.
* `isolated_run_iff`: the contracts of one type are untouched by operations on another one, and
  looked up under their own type only, exactly as long as no contract with a former type is made
  active.
-/

namespace TradeCore
namespace Soroban

open Lib

structure ContractMetadata where
  contractId : String
  type : String
  version : String
  capabilities : List String
  deployedAt : Time
  previousVersions : Option (List String)
  isActive : Bool
  metadata : Option (List (String × String))
  deriving DecidableEq, Repr

structure Registry where
  registry : List ContractMetadata
  typeIndex : String → List String

namespace Registry

def empty : Registry := ⟨[], fun _ => []⟩

def get? (r : Registry) (contractId : String) : Option ContractMetadata :=
  lookup (·.contractId) contractId r.registry

/-- The loop of `register` and `setActive` over the ids of one type. -/
def deactivate (keep : String) : List String → List ContractMetadata → List ContractMetadata
  | [], registry => registry
  | id :: ids, registry =>
    if id = keep then deactivate keep ids registry
    else
      match lookup (·.contractId) id registry with
      | some sibling =>
        deactivate keep ids (upsert (·.contractId) { sibling with isActive := false } registry)
      | none => deactivate keep ids registry

/-- What `register` does once the ABI is in: the siblings of an active contract go off, the entry is
written, and its id is added to the index of its type. -/
def store (r : Registry) (m : ContractMetadata) : Registry :=
  let siblings := if m.isActive then r.typeIndex m.type else []
  { registry := upsert (·.contractId) m (deactivate m.contractId siblings r.registry)
    typeIndex :=
      if m.contractId ∈ r.typeIndex m.type then r.typeIndex
      else Function.update r.typeIndex m.type (r.typeIndex m.type ++ [m.contractId]) }

section

variable (registerFromXdr : String → List String → Except String Unit)

/-- What the ABI service says to the spec entries, when there are any. -/
def abiRegistered (m : ContractMetadata) : Option (List String) → Except String Unit
  | some specEntriesXdr => registerFromXdr m.contractId specEntriesXdr
  | none => .ok ()

def register (r : Registry) (m : ContractMetadata) (specEntriesXdr : Option (List String)) :
    Except String (ContractMetadata × Registry) :=
  match abiRegistered registerFromXdr m specEntriesXdr with
  | .error e => .error e
  | .ok () => .ok (m, r.store m)

end

def isRegistered (r : Registry) (contractId : String) : Bool := (r.get? contractId).isSome

def getMetadata (r : Registry) (contractId : String) : Except String ContractMetadata :=
  match r.get? contractId with
  | some m => .ok m
  | none => .error s!"Contract {contractId} not found in registry"

def getContractsByType (r : Registry) (type : String) : Except String (List ContractMetadata) :=
  (r.typeIndex type).mapM r.getMetadata

def getActiveContract (r : Registry) (type : String) : Except String (Option ContractMetadata) :=
  (r.getContractsByType type).map fun contracts => contracts.find? (·.isActive)

def listAll (r : Registry) : List ContractMetadata := r.registry

def setActive (r : Registry) (contractId : String) : Except String Registry :=
  match r.get? contractId with
  | none => .error s!"Cannot activate unknown contract {contractId}"
  | some m =>
    .ok { r with
      registry := upsert (·.contractId) { m with isActive := true }
        (deactivate contractId (r.typeIndex m.type) r.registry) }

/-! ## What one write does -/

def off (ids : List String) (m : ContractMetadata) : ContractMetadata :=
  if m.contractId ∈ ids then { m with isActive := false } else m

@[simp] theorem off_nil (m : ContractMetadata) : off [] m = m := by simp [off]

@[simp] theorem off_contractId (ids : List String) (m : ContractMetadata) :
    (off ids m).contractId = m.contractId := by
  unfold off
  split <;> rfl

@[simp] theorem off_type (ids : List String) (m : ContractMetadata) : (off ids m).type = m.type := by
  unfold off
  split <;> rfl

theorem off_isActive (ids : List String) (m : ContractMetadata) :
    (off ids m).isActive = true ↔ m.isActive = true ∧ m.contractId ∉ ids := by
  unfold off
  split <;> simp [*]

theorem lookup_deactivate (keep id : String) (ids : List String) (registry : List ContractMetadata) :
    lookup (·.contractId) id (deactivate keep ids registry) =
      if id = keep then lookup (·.contractId) id registry
      else (lookup (·.contractId) id registry).map (off ids) := by
  induction ids generalizing registry with
  | nil =>
    have : (off [] : ContractMetadata → ContractMetadata) = fun m => m := funext off_nil
    simp [deactivate, this]
  | cons x xs ih =>
    have hother : id ≠ x → (lookup (·.contractId) id registry).map (off (x :: xs)) =
        (lookup (·.contractId) id registry).map (off xs) := by
      intro hne
      cases hm : lookup (fun m : ContractMetadata => m.contractId) id registry with
      | none => rfl
      | some m =>
        have hid : m.contractId = id := lookup_key hm
        simp [off, hid, hne]
    simp only [deactivate]
    split
    · rename_i hx
      rw [ih]
      split
      · rfl
      · rename_i hk
        exact (hother fun e => hk (e.trans hx)).symm
    · rename_i hx
      split
      · rename_i sibling hs
        have hsx : sibling.contractId = x := lookup_key hs
        rw [ih, lookup_upsert]
        by_cases hid : x = id
        · subst hid
          rw [if_neg hx, if_neg hx, if_pos hsx, hs]
          simp [off, hsx]
        · rw [if_neg fun e : sibling.contractId = id => hid (hsx.symm.trans e),
            hother fun e => hid e.symm]
      · rename_i hs
        rw [ih]
        by_cases hid : x = id
        · rw [← hid, hs]
          rfl
        · rw [hother fun e => hid e.symm]

theorem map_deactivate (keep : String) (ids : List String) (registry : List ContractMetadata) :
    (deactivate keep ids registry).map (·.contractId) = registry.map (·.contractId) := by
  induction ids generalizing registry with
  | nil => rfl
  | cons x xs ih =>
    simp only [deactivate]
    split
    · exact ih registry
    · split
      · rename_i sibling hs
        rw [ih]
        exact map_upsert (List.mem_map.mpr ⟨sibling, mem_of_lookup hs, rfl⟩) fun _ _ hk => hk
      · exact ih registry

theorem get?_store (r : Registry) (m : ContractMetadata) (id : String) :
    (r.store m).get? id = if m.contractId = id then some m
      else (r.get? id).map (off (if m.isActive then r.typeIndex m.type else [])) := by
  simp only [store, get?, lookup_upsert, lookup_deactivate]
  split
  · rfl
  · rename_i hne
    rw [if_neg fun e => hne e.symm]

theorem mem_typeIndex_store (r : Registry) (m : ContractMetadata) (t id : String) :
    id ∈ (r.store m).typeIndex t ↔ id ∈ r.typeIndex t ∨ t = m.type ∧ id = m.contractId := by
  simp only [store]
  split
  · rename_i hin
    refine ⟨.inl, fun h => h.elim (fun h => h) ?_⟩
    rintro ⟨rfl, rfl⟩
    exact hin
  · by_cases ht : t = m.type
    · subst ht
      simp
    · simp [ht]

/-- What a stored contract was before a write. -/
theorem get?_store_cases {r : Registry} {m c : ContractMetadata} {id : String}
    (h : (r.store m).get? id = some c) :
    m.contractId = id ∧ c = m ∨ m.contractId ≠ id ∧ ∃ c₀, r.get? id = some c₀ ∧
      c = off (if m.isActive then r.typeIndex m.type else []) c₀ := by
  rw [get?_store] at h
  split at h
  · rename_i hid
    exact .inl ⟨hid, (Option.some.inj h).symm⟩
  · rename_i hid
    obtain ⟨c₀, hc₀, rfl⟩ := Option.map_eq_some_iff.mp h
    exact .inr ⟨hid, c₀, hc₀, rfl⟩

/-! ## The invariant -/

/-- Every stored contract is in the index of its type, and at most one of a type is active. -/
structure Indexed (r : Registry) : Prop where
  nodup : (r.registry.map (·.contractId)).Nodup
  listed : ∀ {id c}, r.get? id = some c → id ∈ r.typeIndex c.type
  stored : ∀ {t id}, id ∈ r.typeIndex t → ∃ c, r.get? id = some c
  oneActive : ∀ {id id' c c'}, r.get? id = some c → r.get? id' = some c' → c.type = c'.type →
    c.isActive = true → c'.isActive = true → id = id'

theorem Indexed.empty : Indexed empty where
  nodup := List.nodup_nil
  listed h := nomatch h
  stored h := nomatch h
  oneActive h := nomatch h

theorem Indexed.store {r : Registry} (hr : Indexed r) (m : ContractMetadata) :
    Indexed (r.store m) where
  nodup := by
    refine nodup_upsert ?_
    rw [map_deactivate]
    exact hr.nodup
  listed := by
    intro id c hc
    rw [mem_typeIndex_store]
    obtain ⟨rfl, rfl⟩ | ⟨-, c₀, hc₀, rfl⟩ := get?_store_cases hc
    · exact .inr ⟨rfl, rfl⟩
    · rw [off_type]
      exact .inl (hr.listed hc₀)
  stored := by
    intro t id h
    rw [get?_store]
    split
    · exact ⟨m, rfl⟩
    · rename_i hid
      rcases (mem_typeIndex_store r m t id).mp h with h | ⟨-, rfl⟩
      · obtain ⟨c, hc⟩ := hr.stored h
        exact ⟨_, by rw [hc]; rfl⟩
      · exact absurd rfl hid
  oneActive := by
    -- a contract left active beside an active `m` is not in the index of the type of `m`
    have key : ∀ {id c₀}, r.get? id = some c₀ → m.isActive = true →
        (off (if m.isActive then r.typeIndex m.type else []) c₀).isActive = true →
        c₀.type ≠ m.type := by
      intro id c₀ hc₀ hm hact ht
      rw [if_pos hm, off_isActive] at hact
      have hid : c₀.contractId = id := lookup_key hc₀
      exact hact.2 (hid ▸ ht ▸ hr.listed hc₀)
    intro id id' c c' hc hc' ht ha ha'
    obtain ⟨rfl, rfl⟩ | ⟨-, c₀, hc₀, rfl⟩ := get?_store_cases hc
    · obtain ⟨rfl, -⟩ | ⟨-, c₁, hc₁, rfl⟩ := get?_store_cases hc'
      · rfl
      · rw [off_type] at ht
        exact absurd ht.symm (key hc₁ ha ha')
    · rw [off_type] at ht
      obtain ⟨rfl, rfl⟩ | ⟨-, c₁, hc₁, rfl⟩ := get?_store_cases hc'
      · exact absurd ht (key hc₀ ha' ha)
      · rw [off_type] at ht
        exact hr.oneActive hc₀ hc₁ ht ((off_isActive _ _).mp ha).1 ((off_isActive _ _).mp ha').1

theorem eq_of_store_active {r : Registry} {m c : ContractMetadata} {id : String}
    (hm : m.isActive = true) (hc : (r.store m).get? id = some c) (ha : c.isActive = true)
    (hin : id ∈ (r.store m).typeIndex m.type) : c = m := by
  obtain ⟨rfl, rfl⟩ | ⟨hid, c₀, hc₀, rfl⟩ := get?_store_cases hc
  · rfl
  · rw [if_pos hm, off_isActive] at ha
    obtain rfl : c₀.contractId = id := lookup_key hc₀
    rcases (mem_typeIndex_store r m _ _).mp hin with hin | ⟨-, he⟩
    · exact absurd hin ha.2
    · exact absurd he.symm hid

/-- Where every contract is in the index of its type, `setActive` is one more write. -/
theorem setActive_eq {r : Registry} (hr : Indexed r) {id : String} {m : ContractMetadata}
    (h : r.get? id = some m) : r.setActive id = .ok (r.store { m with isActive := true }) := by
  obtain rfl : m.contractId = id := lookup_key h
  have hin : m.contractId ∈ r.typeIndex m.type := hr.listed h
  simp only [setActive, h, store, if_pos hin, if_true]

/-! ## Runs -/

inductive Op where
  | register (metadata : ContractMetadata) (specEntriesXdr : Option (List String))
  | setActive (contractId : String)
  deriving DecidableEq, Repr

section

variable (registerFromXdr : String → List String → Except String Unit)

/-- A request that throws leaves the registry as it is. -/
def step (r : Registry) : Op → Registry
  | .register m specEntriesXdr =>
    match r.register registerFromXdr m specEntriesXdr with
    | .ok (_, r') => r'
    | .error _ => r
  | .setActive contractId =>
    match r.setActive contractId with
    | .ok r' => r'
    | .error _ => r

variable {registerFromXdr}

theorem register_ok {r r' : Registry} {m m' : ContractMetadata} {spec : Option (List String)}
    (h : r.register registerFromXdr m spec = .ok (m', r')) :
    abiRegistered registerFromXdr m spec = .ok () ∧ r' = r.store m := by
  unfold register at h
  split at h
  · cases h
  · rename_i habi
    cases h
    exact ⟨habi, rfl⟩

theorem step_register (r : Registry) (m : ContractMetadata) (spec : Option (List String)) :
    step registerFromXdr r (.register m spec) =
      if abiRegistered registerFromXdr m spec = .ok () then r.store m else r := by
  cases h : abiRegistered registerFromXdr m spec with
  | ok u => simp [step, register, h]
  | error e => simp [step, register, h]

theorem step_setActive {r : Registry} (hr : Indexed r) (id : String) :
    step registerFromXdr r (.setActive id) =
      match r.get? id with
      | some m => r.store { m with isActive := true }
      | none => r := by
  cases h : r.get? id with
  | some m => simp [step, setActive_eq hr h]
  | none => simp [step, setActive, h]

theorem Indexed.step {r : Registry} (hr : Indexed r) (op : Op) :
    Indexed (step registerFromXdr r op) := by
  cases op with
  | register m spec =>
    rw [step_register]
    split
    · exact hr.store m
    · exact hr
  | setActive id =>
    rw [step_setActive hr]
    split
    · exact hr.store _
    · exact hr

theorem indexed_run (ops : List Op) : Indexed (run (step registerFromXdr) empty ops) :=
  run_inv (fun _ op hr _ => hr.step op) Indexed.empty
    along_true

end

theorem length_le_one {rows : List ContractMetadata} (hd : (rows.map (·.contractId)).Nodup)
    (h : ∀ c ∈ rows, ∀ c' ∈ rows, c.contractId = c'.contractId) : rows.length ≤ 1 := by
  match rows with
  | [] => exact Nat.zero_le _
  | [_] => exact Nat.le_refl _
  | c :: c' :: _ =>
    have hne : c.contractId ≠ c'.contractId := by
      simp only [List.map_cons, List.nodup_cons, List.mem_cons, not_or] at hd
      exact hd.1.1
    exact absurd (h c (by simp) c' (by simp)) hne

theorem get?_of_mem {r : Registry} (hr : Indexed r) {c : ContractMetadata} (hc : c ∈ r.listAll) :
    r.get? c.contractId = some c :=
  lookup_of_mem hr.nodup hc

/-- At most one stored contract of each type is active, whatever was registered and activated, a
contract registered again under another type included. -/
theorem oneActive_run (registerFromXdr : String → List String → Except String Unit) (ops : List Op)
    (t : String) :
    ((run (step registerFromXdr) empty ops).listAll.filter
      fun c => c.type = t && c.isActive).length ≤ 1 := by
  have hr := @indexed_run registerFromXdr ops
  refine length_le_one (hr.nodup.sublist (List.filter_sublist.map _)) ?_
  intro c hc c' hc'
  obtain ⟨hc, hp⟩ := List.mem_filter.mp hc
  obtain ⟨hc', hp'⟩ := List.mem_filter.mp hc'
  obtain ⟨ht, ha⟩ : c.type = t ∧ c.isActive = true := by simpa using hp
  obtain ⟨ht', ha'⟩ : c'.type = t ∧ c'.isActive = true := by simpa using hp'
  exact hr.oneActive (get?_of_mem hr hc) (get?_of_mem hr hc') (ht.trans ht'.symm) ha ha'

/-! ## Contracts of other types -/

def flag (r : Registry) (id : String) : Option Bool := (r.get? id).map (·.isActive)

theorem get?_store_self (r : Registry) (m : ContractMetadata) :
    (r.store m).get? m.contractId = some m := by
  rw [get?_store, if_pos rfl]

/-- The write of an active contract turns off what the index of its type lists. -/
theorem flag_store_sibling {r : Registry} {m c : ContractMetadata} {id : String}
    (hm : m.isActive = true) (hc : r.get? id = some c) (hin : id ∈ r.typeIndex m.type)
    (hid : id ≠ m.contractId) : (r.store m).flag id = some false := by
  obtain rfl : c.contractId = id := lookup_key hc
  simp [flag, get?_store, if_neg (Ne.symm hid), hc, hm, off, hin]

/-- Operations on one type leave the other types alone, and a look-up by type finds that type. -/
structure Isolated (registerFromXdr : String → List String → Except String Unit) (r : Registry) :
    Prop where
  register : ∀ m spec m' r', r.register registerFromXdr m spec = .ok (m', r') →
    ∀ id c, r.get? id = some c → id ≠ m.contractId → c.type ≠ m.type → r'.flag id = r.flag id
  setActive : ∀ id₀ m r', r.get? id₀ = some m → r.setActive id₀ = .ok r' →
    ∀ id c, r.get? id = some c → id ≠ id₀ → c.type ≠ m.type → r'.flag id = r.flag id
  getActiveContract : ∀ t c, r.getActiveContract t = .ok (some c) → c.type = t

/-- An active contract is in the index of its own type only. -/
def NoStray (r : Registry) : Prop :=
  ∀ {id c t}, r.get? id = some c → c.isActive = true → id ∈ r.typeIndex t → t = c.type

theorem mem_of_mapM {α β : Type} {f : α → Except String β} {xs : List α} {ys : List β}
    (h : xs.mapM f = .ok ys) {y : β} (hy : y ∈ ys) : ∃ x ∈ xs, f x = .ok y := by
  induction xs generalizing ys with
  | nil =>
    cases h
    cases hy
  | cons x xs ih =>
    rw [List.mapM_cons] at h
    cases hx : f x with
    | error e => rw [hx] at h; cases h
    | ok v =>
      cases hxs : xs.mapM f with
      | error e => rw [hx, hxs] at h; cases h
      | ok vs =>
        rw [hx, hxs] at h
        cases h
        rcases List.mem_cons.mp hy with rfl | hy
        · exact ⟨x, .head _, hx⟩
        · obtain ⟨x', hin, hx'⟩ := ih hxs hy
          exact ⟨x', .tail _ hin, hx'⟩

theorem getMetadata_ok {r : Registry} {id : String} {c : ContractMetadata}
    (h : r.getMetadata id = .ok c) : r.get? id = some c := by
  unfold getMetadata at h
  split at h
  · rename_i hm
    cases h
    exact hm
  · cases h

theorem getActiveContract_ok {r : Registry} {t : String} {c : ContractMetadata}
    (h : r.getActiveContract t = .ok (some c)) :
    ∃ id ∈ r.typeIndex t, r.get? id = some c ∧ c.isActive = true := by
  unfold getActiveContract getContractsByType at h
  cases hcs : (r.typeIndex t).mapM r.getMetadata with
  | error e => rw [hcs] at h; cases h
  | ok cs =>
    rw [hcs] at h
    have hfind : cs.find? (·.isActive) = some c := Except.ok.inj h
    obtain ⟨id, hid, hc⟩ := mem_of_mapM hcs (List.mem_of_find?_eq_some hfind)
    exact ⟨id, hid, getMetadata_ok hc, by simpa using List.find?_some hfind⟩

theorem mapM_of_forall {α β : Type} {f : α → Except String β} {xs : List α}
    (h : ∀ x ∈ xs, ∃ y, f x = .ok y) : ∃ ys, xs.mapM f = .ok ys ∧ ∀ x ∈ xs, ∃ y ∈ ys, f x = .ok y := by
  induction xs with
  | nil => exact ⟨[], rfl, nofun⟩
  | cons x xs ih =>
    obtain ⟨y, hy⟩ := h x (.head _)
    obtain ⟨ys, hys, hin⟩ := ih fun x hx => h x (.tail _ hx)
    refine ⟨y :: ys, by rw [List.mapM_cons, hy, hys]; rfl, fun x' hx' => ?_⟩
    rcases List.mem_cons.mp hx' with rfl | hx'
    · exact ⟨y, .head _, hy⟩
    · obtain ⟨y', hy', he⟩ := hin x' hx'
      exact ⟨y', .tail _ hy', he⟩

/-- The contract a write makes active is the one its type is looked up by. -/
theorem getActiveContract_store {r : Registry} (hr : Indexed r) {m : ContractMetadata}
    (hm : m.isActive = true) : (r.store m).getActiveContract m.type = .ok (some m) := by
  have hself := get?_store_self r m
  have hget : ∀ {id c}, (r.store m).get? id = some c → (r.store m).getMetadata id = .ok c := by
    intro id c h
    simp only [getMetadata, h]
  obtain ⟨cs, hcs, hall⟩ := @mapM_of_forall _ _ (r.store m).getMetadata
    ((r.store m).typeIndex m.type) fun id hid => by
      obtain ⟨c, hc⟩ := (hr.store m).stored hid
      exact ⟨c, hget hc⟩
  have honly : ∀ c ∈ cs, c.isActive = true → c = m := by
    intro c hc ha
    obtain ⟨id, hid, hmeta⟩ := mem_of_mapM hcs hc
    exact eq_of_store_active hm (getMetadata_ok hmeta) ha hid
  obtain ⟨c, hc, hmeta⟩ := hall m.contractId ((hr.store m).listed hself)
  rw [hget hself] at hmeta
  cases hmeta
  unfold getActiveContract getContractsByType
  rw [hcs]
  cases hfind : cs.find? (·.isActive) with
  | none => exact absurd hm (by simpa using List.find?_eq_none.mp hfind m hc)
  | some c =>
    rw [honly c (List.mem_of_find?_eq_some hfind) (by simpa using List.find?_some hfind)] at hfind
    exact congrArg Except.ok hfind

theorem NoStray.flag_store {r : Registry} (hs : NoStray r) {m c : ContractMetadata} {id : String}
    (hc : r.get? id = some c) (hid : id ≠ m.contractId) (ht : c.type ≠ m.type) :
    (r.store m).flag id = r.flag id := by
  obtain rfl : c.contractId = id := lookup_key hc
  simp only [flag, get?_store, if_neg (Ne.symm hid), hc, Option.map_some, Option.some.injEq]
  rw [Bool.eq_iff_iff, off_isActive]
  refine ⟨And.left, fun ha => ⟨ha, fun hin => ?_⟩⟩
  split at hin
  · exact ht (hs hc ha hin).symm
  · cases hin

/-- Every active contract listed under a foreign type is one that an operation on that type turns
off: here the registration of a fresh active contract. -/
theorem isolated_iff {registerFromXdr : String → List String → Except String Unit} {r : Registry}
    (hr : Indexed r) : Isolated registerFromXdr r ↔ NoStray r := by
  constructor
  · intro h id c t hc ha hin
    by_contra hne
    let fresh : ContractMetadata := ⟨id.push 'x', t, "", [], 0, none, true, none⟩
    have hid : id ≠ fresh.contractId := by
      intro e
      have := congrArg String.length e
      simp [fresh] at this
    have hflag := h.register fresh none fresh (r.store fresh) rfl id c hc hid fun e => hne e.symm
    obtain rfl : c.contractId = id := lookup_key hc
    have hon : (off (r.typeIndex t) c).isActive = true := by
      simpa [flag, get?_store, Ne.symm hid, hc, fresh, ha] using hflag
    exact ((off_isActive _ _).mp hon).2 hin
  · intro hs
    refine ⟨?_, ?_, ?_⟩
    · intro m spec m' r' h id c hc hid ht
      rw [(register_ok h).2]
      exact hs.flag_store hc hid ht
    · intro id₀ m r' hm h id c hc hid ht
      rw [setActive_eq hr hm] at h
      cases h
      obtain rfl : m.contractId = id₀ := lookup_key hm
      exact hs.flag_store hc hid ht
    · intro t c h
      obtain ⟨id, hin, hc, ha⟩ := getActiveContract_ok h
      exact (hs hc ha hin).symm

/-- The operation makes no contract active that was registered under another type before. -/
def Settles (registerFromXdr : String → List String → Except String Unit) (r : Registry) : Op → Prop
  | .register m spec => abiRegistered registerFromXdr m spec = .ok () → m.isActive = true →
      ∀ t, m.contractId ∈ r.typeIndex t → t = m.type
  | .setActive id => ∀ c, r.get? id = some c → ∀ t, id ∈ r.typeIndex t → t = c.type

theorem NoStray.store_iff {r : Registry} (hs : NoStray r) (m : ContractMetadata) :
    NoStray (r.store m) ↔
      (m.isActive = true → ∀ t, m.contractId ∈ r.typeIndex t → t = m.type) := by
  constructor
  · intro h hact t hin
    exact h (by rw [get?_store, if_pos rfl]) hact ((mem_typeIndex_store r m t _).mpr (.inl hin))
  · intro hown id c t hc ha hin
    rw [mem_typeIndex_store] at hin
    obtain ⟨rfl, rfl⟩ | ⟨hid, c₀, hc₀, rfl⟩ := get?_store_cases hc
    · exact hin.elim (hown ha t) And.left
    · rcases hin with hin | ⟨-, rfl⟩
      · rw [off_type]
        exact hs hc₀ ((off_isActive _ _).mp ha).1 hin
      · exact absurd rfl hid

theorem NoStray.step_iff {registerFromXdr : String → List String → Except String Unit} {r : Registry}
    (hr : Indexed r) (hs : NoStray r) (op : Op) :
    NoStray (step registerFromXdr r op) ↔ Settles registerFromXdr r op := by
  cases op with
  | register m spec =>
    rw [step_register]
    split
    · rename_i habi
      rw [hs.store_iff]
      exact ⟨fun h _ => h, fun h => h habi⟩
    · rename_i habi
      exact ⟨fun _ h => absurd h habi, fun _ => hs⟩
  | setActive id =>
    rw [step_setActive hr]
    cases hm : r.get? id with
    | none => exact ⟨fun _ c hc => (nomatch hm.symm.trans hc), fun _ => hs⟩
    | some m =>
      obtain rfl : m.contractId = id := lookup_key hm
      dsimp only
      rw [hs.store_iff]
      constructor
      · intro h c hc
        obtain rfl : m = c := Option.some.inj (hm.symm.trans hc)
        exact h rfl
      · intro h _
        exact h m hm

/-- The exact runs in which contracts of different types do not touch each other. -/
theorem isolated_run_iff (registerFromXdr : String → List String → Except String Unit)
    (ops : List Op) :
    Always (step registerFromXdr) (Isolated registerFromXdr) empty ops ↔
      Along (step registerFromXdr) (Settles registerFromXdr) empty ops := by
  have hinit : Indexed empty ∧ NoStray empty := ⟨.empty, fun hc => nomatch hc⟩
  refine @always_iff_along _ _ _ (fun r => Indexed r ∧ NoStray r) _ _ ?_ ?_ ?_ _ _ hinit
  · rintro r ⟨hr, hs⟩
    exact (isolated_iff hr).mpr hs
  · rintro r op ⟨hr, hs⟩ h
    exact ⟨hr.step op, (hs.step_iff hr op).mpr h⟩
  · rintro r op ⟨hr, hs⟩ h hbad
    exact h ((hs.step_iff hr op).mp ((isolated_iff (hr.step op)).mp hbad))

/-- A pool that was an escrow before: the next escrow turns it off, and until then it is the active
escrow. -/
theorem former_type_touched :
    let pool (type : String) : ContractMetadata := ⟨"CA", type, "1.0.0", [], 0, none, true, none⟩
    let r := run (step fun _ _ => .ok ()) empty
      [.register (pool "escrow") none, .register (pool "swap-pool") none]
    r.getActiveContract "escrow" = .ok (some (pool "swap-pool")) ∧
      ∃ r', r.register (fun _ _ => .ok ()) ⟨"CB", "escrow", "1.0.0", [], 0, none, true, none⟩ none =
          .ok (⟨"CB", "escrow", "1.0.0", [], 0, none, true, none⟩, r') ∧
        r.flag "CA" = some true ∧ r'.flag "CA" = some false := by
  refine ⟨by decide, _, rfl, by decide, by decide⟩

end Registry

end Soroban
end TradeCore
