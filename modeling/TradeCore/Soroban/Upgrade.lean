import TradeCore.Soroban.ContractState
import TradeCore.Soroban.Registry

/-!
# TradeCore.Soroban.Upgrade

The upgrade of a contract: upload and instantiate the new WASM, migrate the state, register and
activate what was deployed. Each step before the registry can fail, and the registry is written last.

* `executeUpgrade_ok`: when an upgrade succeeds, in terms of what its steps find (`Ready`).
* `loses_no_state_iff`: an upgrade that succeeds may have left state behind. The exact cases are those in
  which no cached key of the old contract can be read back.
* `hands_over_iff`: what success, failure and a rollback do to the registry, and when they do it.
-/

namespace TradeCore
namespace Soroban

open Lib Registry

structure UpgradePlan where
  currentContractId : String
  newContractId : String
  newVersion : String
  canUpgrade : Bool
  warnings : List String
  newWasm : Option (List UInt8)
  salt : Option (List UInt8)
  newSpecXdr : Option (List String)
  deriving DecidableEq

structure UpgradeResult where
  success : Bool
  previousContractId : String
  newContractId : String
  migratedAt : Time
  migrationsExecuted : List String
  errors : List String
  transactionHashes : List String
  deriving DecidableEq

structure Upload where
  wasmHash : String
  transactionHash : String
  deriving DecidableEq

structure Instance where
  contractId : Option String
  transactionHash : String
  deriving DecidableEq

/-- What the steps of an upgrade find outside the manager: the two deployment transactions, the ABI
service, the cache and the network behind the state service, and the clock. -/
structure Outside (σ β : Type) where
  uploadWasm : List UInt8 → Except String Upload
  instantiate : String → Option (List UInt8) → Except String Instance
  registerFromXdr : String → List String → Except String Unit
  cache : Cache σ β
  network : Network σ β
  now : Time

/-- What a run has done when it ends, by an error or not. -/
structure Progress where
  deployedContractId : String
  transactionHashes : List String
  migrationsExecuted : List String

section

variable {σ β : Type} (o : Outside σ β)

/-- The ABI under the id that was deployed, when that is not the planned one. -/
def registerNewSpec (plan : UpgradePlan) (id : String) : Except String Unit :=
  match plan.newSpecXdr with
  | none | some [] => .ok ()
  | some spec => if id = plan.newContractId then .ok () else o.registerFromXdr id spec

/-- Step 1. -/
def deployNewVersion (plan : UpgradePlan) (p : Progress) : Progress × Except String Unit :=
  match plan.newWasm with
  | none | some [] =>
    (p, .error "Cannot execute upgrade without new WASM bytecode: pass UpgradePlan.newWasm (or newWasm to createUpgradePlan).")
  | some wasm =>
    match o.uploadWasm wasm with
    | .error e => (p, .error e)
    | .ok upload =>
      let p := { p with transactionHashes := p.transactionHashes ++ [upload.transactionHash] }
      match o.instantiate upload.wasmHash plan.salt with
      | .error e => (p, .error e)
      | .ok inst =>
        let p := { p with transactionHashes := p.transactionHashes ++ [inst.transactionHash] }
        match inst.contractId with
        | none | some "" => (p, .error "Contract instantiation succeeded but returned no contract ID")
        | some id =>
          let p := { p with deployedContractId := id }
          match registerNewSpec o plan id with
          | .error e => (p, .error e)
          | .ok () =>
            ({ p with migrationsExecuted := p.migrationsExecuted ++ ["deploy-new-contract"] }, .ok ())

variable [DecidableEq σ]

/-- Step 2. -/
def migrateContractState (oldContractId newContractId : String) : Except String Unit :=
  match o.network.exportContractState o.cache oldContractId with
  | .error e => .error e
  | .ok (allState, _) => Network.importContractState newContractId allState

/-- The registration of Step 3, for an id the registry does not know. -/
def registerDeployed (plan : UpgradePlan) (r : Registry) (deployedContractId : String) :
    Registry × Except String Unit :=
  if r.isRegistered deployedContractId then (r, .ok ())
  else
    match r.getMetadata plan.currentContractId with
    | .error e => (r, .error e)
    | .ok current =>
      match r.register o.registerFromXdr {
          contractId := deployedContractId
          type := current.type
          version := plan.newVersion
          capabilities := current.capabilities
          deployedAt := o.now
          previousVersions := some [current.version]
          isActive := false
          metadata := none } none with
      | .error e => (r, .error e)
      | .ok (_, r) => (r, .ok ())

/-- Step 3. -/
def updateRegistry (plan : UpgradePlan) (r : Registry) (deployedContractId : String) :
    Registry × Except String Unit :=
  match registerDeployed o plan r deployedContractId with
  | (r, .error e) => (r, .error e)
  | (r, .ok ()) =>
    match r.setActive deployedContractId with
    | .error e => (r, .error e)
    | .ok r => (r, .ok ())

/-- The body of the `try`: what it has done, the registry it leaves, and how it ends. -/
def upgradeSteps (plan : UpgradePlan) (r : Registry) : Progress × Registry × Except String Unit :=
  match deployNewVersion o plan ⟨plan.newContractId, [], []⟩ with
  | (p, .error e) => (p, r, .error e)
  | (p, .ok ()) =>
    match migrateContractState o plan.currentContractId p.deployedContractId with
    | .error e => (p, r, .error e)
    | .ok () =>
      let p := { p with migrationsExecuted := p.migrationsExecuted ++ ["migrate-state"] }
      match updateRegistry o plan r p.deployedContractId with
      | (r, .error e) => (p, r, .error e)
      | (r, .ok ()) =>
        ({ p with migrationsExecuted := p.migrationsExecuted ++ ["update-registry"] }, r, .ok ())

def executeUpgrade (plan : UpgradePlan) (r : Registry) : Except String (UpgradeResult × Registry) :=
  if plan.canUpgrade = false then
    .error ("Cannot execute upgrade plan, preflight checks failed: " ++ ", ".intercalate plan.warnings)
  else
    let (p, r, outcome) := upgradeSteps o plan r
    let errors := match outcome with
      | .error e => [e]
      | .ok () => []
    .ok ({
      success := errors.length = 0
      previousContractId := plan.currentContractId
      newContractId := p.deployedContractId
      migratedAt := o.now
      migrationsExecuted := p.migrationsExecuted
      errors
      transactionHashes := p.transactionHashes }, r)

/-- The id of the new version only goes to the log. -/
def rollbackUpgrade (previousContractId : String) (r : Registry) : Except String Registry :=
  r.setActive previousContractId

/-! ## When the steps succeed -/

/-- The new version is deployed under `id`. -/
def Deploys (plan : UpgradePlan) (id : String) : Prop :=
  ∃ wasm upload inst, plan.newWasm = some wasm ∧ wasm ≠ [] ∧ o.uploadWasm wasm = .ok upload ∧
    o.instantiate upload.wasmHash plan.salt = .ok inst ∧ inst.contractId = some id ∧ id ≠ "" ∧
    registerNewSpec o plan id = .ok ()

omit [DecidableEq σ] in
theorem deployNewVersion_ok {plan : UpgradePlan} {p p' : Progress}
    (h : deployNewVersion o plan p = (p', .ok ())) : Deploys o plan p'.deployedContractId := by
  unfold deployNewVersion at h
  split at h
  · cases h
  · cases h
  · rename_i wasm hne hwasm
    split at h
    · cases h
    · rename_i upload hupload
      dsimp only at h
      split at h
      · cases h
      · rename_i inst hinst
        split at h
        · cases h
        · cases h
        · rename_i id hid hsome
          split at h
          · cases h
          · rename_i habi
            cases h
            exact ⟨wasm, upload, inst, hwasm, fun e => hne e, hupload, hinst, hsome, fun e => hid e, habi⟩

omit [DecidableEq σ] in
theorem Deploys.run {plan : UpgradePlan} {id : String} (h : Deploys o plan id) (p : Progress) :
    ∃ p', deployNewVersion o plan p = (p', .ok ()) ∧ p'.deployedContractId = id := by
  obtain ⟨wasm, upload, inst, hwasm, hne, hupload, hinst, hid, hne', habi⟩ := h
  unfold deployNewVersion
  rw [hwasm]
  split
  · rename_i h; cases h
  · rename_i h; exact absurd (Option.some.inj h) hne
  · rename_i wasm' _ hw
    obtain rfl := Option.some.inj hw
    rw [hupload]
    dsimp only
    rw [hinst]
    dsimp only
    rw [hid]
    split
    · rename_i h; cases h
    · rename_i h; exact absurd (Option.some.inj h) hne'
    · rename_i id' _ hi
      obtain rfl := Option.some.inj hi
      rw [habi]
      exact ⟨_, rfl, rfl⟩

theorem migrateContractState_ok_iff (old new : String) :
    migrateContractState o old new = .ok () ↔
      o.network.scanFails = false ∧ ¬ o.network.Exported o.cache old := by
  unfold migrateContractState
  cases hexport : o.network.exportContractState o.cache old with
  | error e =>
    have hscan : o.network.scanFails = true := by
      unfold Network.exportContractState Network.listStorageKeys at hexport
      cases hs : o.network.scanFails with
      | true => rfl
      | false => rw [hs] at hexport; cases hexport
    simp [hscan]
  | ok res =>
    obtain ⟨state, cache'⟩ := res
    have hscan : o.network.scanFails = false := by
      unfold Network.exportContractState Network.listStorageKeys at hexport
      cases hs : o.network.scanFails with
      | true => rw [hs] at hexport; cases hexport
      | false => rfl
    rw [← Network.exportContractState_eq_nil hexport]
    cases state with
    | nil => simp [Network.importContractState, hscan]
    | cons p state => simp [Network.importContractState]

/-- What Step 3 needs. -/
def Registrable (plan : UpgradePlan) (r : Registry) (id : String) : Prop :=
  r.get? id ≠ none ∨ r.get? plan.currentContractId ≠ none

omit [DecidableEq σ] in
/-- Step 3 writes the deployed contract as the active one of the type it is registered with, or, when
it is new, of the type of the current contract. -/
theorem updateRegistry_ok {plan : UpgradePlan} {r : Registry} (hr : Indexed r) {id : String}
    (h : Registrable plan r id) :
    ∃ r₁ m, updateRegistry o plan r id = (r₁.store m, .ok ()) ∧ Indexed r₁ ∧ m.contractId = id ∧
      m.isActive = true ∧ (∀ x, x ≠ id → r₁.get? x = r.get? x) ∧
      ((r.get? id).map (·.type) = some m.type ∨
        r.get? id = none ∧ (r.get? plan.currentContractId).map (·.type) = some m.type) := by
  unfold updateRegistry registerDeployed isRegistered
  cases hd : r.get? id with
  | some d =>
    obtain rfl : d.contractId = id := lookup_key hd
    refine ⟨r, { d with isActive := true }, ?_, hr, rfl, rfl, fun _ _ => rfl, .inl rfl⟩
    simp [setActive_eq hr hd]
  | none =>
    cases hc : r.get? plan.currentContractId with
    | none => exact absurd h (by simp [Registrable, hd, hc])
    | some current =>
      let m : ContractMetadata := ⟨id, current.type, plan.newVersion, current.capabilities, o.now,
        some [current.version], false, none⟩
      have hm : (r.store m).get? id = some m := get?_store_self r m
      refine ⟨r.store m, { m with isActive := true }, ?_, hr.store m, rfl, rfl, ?_, .inr ⟨rfl, rfl⟩⟩
      · simp only [getMetadata, hc, register, abiRegistered, Option.isSome_none]
        exact congrArg (fun x : Except String Registry => match x with
          | .error e => (r.store m, Except.error e)
          | .ok r => (r, .ok ())) (setActive_eq (hr.store m) hm)
      · intro x hx
        rw [get?_store, if_neg (Ne.symm hx)]
        cases r.get? x with
        | none => rfl
        | some c => simp [m]

omit [DecidableEq σ] in
theorem updateRegistry_error {plan : UpgradePlan} {r : Registry} {id : String}
    (h : ¬ Registrable plan r id) : ∃ e, updateRegistry o plan r id = (r, .error e) := by
  obtain ⟨hd, hc⟩ := not_or.mp h
  unfold updateRegistry registerDeployed isRegistered
  simp only [not_not.mp hd, getMetadata, not_not.mp hc]
  exact ⟨_, rfl⟩

/-- Every step but the export of the state succeeds. -/
def Proceeds (plan : UpgradePlan) (r : Registry) (id : String) : Prop :=
  plan.canUpgrade = true ∧ Deploys o plan id ∧ o.network.scanFails = false ∧ Registrable plan r id

/-- Every step succeeds: nothing is exported. -/
def Ready (plan : UpgradePlan) (r : Registry) (id : String) : Prop :=
  Proceeds o plan r id ∧ ¬ o.network.Exported o.cache plan.currentContractId

theorem upgradeSteps_cases {plan : UpgradePlan} {r : Registry} (hr : Indexed r)
    (hplan : plan.canUpgrade = true) {p : Progress} {r' : Registry} {outcome : Except String Unit}
    (h : upgradeSteps o plan r = (p, r', outcome)) :
    (outcome = .ok () ∧ Ready o plan r p.deployedContractId ∧
      r' = (updateRegistry o plan r p.deployedContractId).1) ∨
    ((∃ e, outcome = .error e) ∧ r' = r ∧ ∀ id, ¬ Ready o plan r id) := by
  unfold upgradeSteps at h
  split at h
  · rename_i p₁ e hdeploy
    cases h
    refine .inr ⟨⟨_, rfl⟩, rfl, fun id hready => ?_⟩
    obtain ⟨p₂, hrun, -⟩ := Deploys.run o hready.1.2.1 ⟨plan.newContractId, [], []⟩
    rw [hdeploy] at hrun
    cases hrun
  · rename_i p₁ hdeploy
    have hid : ∀ id, Ready o plan r id → id = p₁.deployedContractId := by
      intro id hready
      obtain ⟨p₂, hrun, hid⟩ := Deploys.run o hready.1.2.1 ⟨plan.newContractId, [], []⟩
      rw [hdeploy] at hrun
      cases hrun
      exact hid.symm
    have hdeploys := deployNewVersion_ok o hdeploy
    split at h
    · rename_i e hmigrate
      cases h
      refine .inr ⟨⟨_, rfl⟩, rfl, fun id hready => ?_⟩
      have := (migrateContractState_ok_iff o plan.currentContractId p.deployedContractId).mpr
        ⟨hready.1.2.2.1, hready.2⟩
      rw [hmigrate] at this
      cases this
    · rename_i hmigrate
      obtain ⟨hscan, hexported⟩ := (migrateContractState_ok_iff o _ _).mp hmigrate
      dsimp only at h
      by_cases hreg : Registrable plan r p₁.deployedContractId
      · obtain ⟨r₁, m, hupdate, -⟩ := updateRegistry_ok o hr hreg
        rw [hupdate] at h
        cases h
        refine .inl ⟨rfl, ⟨⟨hplan, hdeploys, hscan, hreg⟩, hexported⟩, ?_⟩
        rw [hupdate]
      · obtain ⟨e, hupdate⟩ := updateRegistry_error o hreg
        rw [hupdate] at h
        cases h
        refine .inr ⟨⟨_, rfl⟩, rfl, fun id hready => hreg ?_⟩
        rw [← hid id hready]
        exact hready.1.2.2.2

/-- An upgrade succeeds when every step does; otherwise the registry stays as it was. -/
theorem executeUpgrade_ok {plan : UpgradePlan} {r r' : Registry} (hr : Indexed r)
    {result : UpgradeResult} (h : executeUpgrade o plan r = .ok (result, r')) :
    result.previousContractId = plan.currentContractId ∧
      ((result.success = true ∧ Ready o plan r result.newContractId ∧
        r' = (updateRegistry o plan r result.newContractId).1) ∨
      (result.success = false ∧ r' = r ∧ ∀ id, ¬ Ready o plan r id)) := by
  unfold executeUpgrade at h
  split at h
  · cases h
  · rename_i hplan
    have hplan : plan.canUpgrade = true := by simpa using hplan
    cases hsteps : upgradeSteps o plan r with
    | mk p rest =>
    obtain ⟨r₁, outcome⟩ := rest
    rw [hsteps] at h
    obtain ⟨rfl, hready, hr'⟩ | ⟨⟨e, rfl⟩, rfl, hnot⟩ := upgradeSteps_cases o hr hplan hsteps
    · cases h
      exact ⟨rfl, .inl ⟨rfl, hready, hr'⟩⟩
    · cases h
      exact ⟨rfl, .inr ⟨rfl, rfl, hnot⟩⟩

omit [DecidableEq σ] in
theorem Deploys.unique {plan : UpgradePlan} {id id' : String} (h : Deploys o plan id)
    (h' : Deploys o plan id') : id = id' := by
  obtain ⟨p, hp, rfl⟩ := Deploys.run o h ⟨"", [], []⟩
  obtain ⟨p', hp', rfl⟩ := Deploys.run o h' ⟨"", [], []⟩
  rw [hp] at hp'
  cases hp'
  rfl

theorem executeUpgrade_of_ready {plan : UpgradePlan} {r : Registry} (hr : Indexed r) {id : String}
    (h : Ready o plan r id) :
    ∃ result, executeUpgrade o plan r = .ok (result, (updateRegistry o plan r id).1) ∧
      result.success = true ∧ result.previousContractId = plan.currentContractId ∧
      result.newContractId = id := by
  have hok : ∃ result r', executeUpgrade o plan r = .ok (result, r') := by
    unfold executeUpgrade
    rw [if_neg (by simp [h.1.1])]
    exact ⟨_, _, rfl⟩
  obtain ⟨result, r', hresult⟩ := hok
  obtain ⟨hprev, ⟨hs, hready, rfl⟩ | ⟨-, -, hnot⟩⟩ := executeUpgrade_ok o hr hresult
  · have hid := Deploys.unique o hready.1.2.1 h.1.2.1
    rw [hid] at hresult
    exact ⟨result, hresult, hs, hprev, hid⟩
  · exact absurd h (hnot id)

/-! ## State that is left behind -/

/-- Where the old contract has storage entries, the upgrade reports failure and the old contract
stays active. -/
def LosesNoState (plan : UpgradePlan) (r : Registry) : Prop :=
  ∀ result r', executeUpgrade o plan r = .ok (result, r') →
    (∃ e ∈ o.network.ledger, e.contractId = plan.currentContractId) →
      result.success = false ∧
        (r.flag plan.currentContractId = some true → r'.flag plan.currentContractId = some true)

theorem loses_no_state_iff (plan : UpgradePlan) (ops : List Op) :
    LosesNoState o plan (run (step o.registerFromXdr) empty ops) ↔
      (∀ e ∈ o.network.ledger, e.contractId ≠ plan.currentContractId) ∨
      o.network.Exported o.cache plan.currentContractId ∨
      ∀ id, ¬ Proceeds o plan (run (step o.registerFromXdr) empty ops) id := by
  have hr := @indexed_run o.registerFromXdr ops
  generalize run (step o.registerFromXdr) empty ops = r at hr
  constructor
  · intro h
    by_contra hnot
    simp only [not_or, not_forall, not_not] at hnot
    obtain ⟨⟨e, he, hc⟩, hexported, id, hproceeds⟩ := hnot
    obtain ⟨result, hresult, hs, -⟩ := executeUpgrade_of_ready o hr ⟨hproceeds, hexported⟩
    have hfalse := (h result _ hresult ⟨e, he, hc⟩).1
    rw [hs] at hfalse
    cases hfalse
  · rintro h result r' hresult ⟨e, he, hc⟩
    obtain ⟨-, ⟨-, hready, -⟩ | ⟨hs, rfl, -⟩⟩ := executeUpgrade_ok o hr hresult
    · rcases h with h | h | h
      · exact absurd hc (h e he)
      · exact absurd h hready.2
      · exact absurd hready.1 (h _)
    · exact ⟨hs, fun h => h⟩

/-! ## The registry after an upgrade -/

/-- Failure leaves the registry alone. Success makes the deployed contract the active one of the type
of the previous contract and the previous one inactive, and a rollback turns that around. -/
def HandsOver (plan : UpgradePlan) (r : Registry) : Prop :=
  ∀ result r', executeUpgrade o plan r = .ok (result, r') →
    (result.success = false → r' = r) ∧
    (result.success = true → ∃ previous deployed,
      r.get? result.previousContractId = some previous ∧
      r'.get? result.newContractId = some deployed ∧ deployed.type = previous.type ∧
      r'.getActiveContract previous.type = .ok (some deployed) ∧
      r'.flag result.newContractId = some true ∧ r'.flag result.previousContractId = some false ∧
      ∃ r'', rollbackUpgrade result.previousContractId r' = .ok r'' ∧
        r''.flag result.previousContractId = some true ∧
        r''.flag result.newContractId = some false)

/-- The previous contract is known, and what is deployed is another contract, new or registered
under the same type. -/
def Succeeds (plan : UpgradePlan) (r : Registry) (id : String) : Prop :=
  ∃ previous, r.get? plan.currentContractId = some previous ∧ id ≠ plan.currentContractId ∧
    ∀ d, r.get? id = some d → d.type = previous.type

omit [DecidableEq σ] in
/-- What a successful upgrade and its rollback do to the two contracts. -/
theorem Succeeds.handover {plan : UpgradePlan} {r : Registry} (hr : Indexed r) {id : String}
    (h : Succeeds plan r id) : ∃ previous deployed,
      r.get? plan.currentContractId = some previous ∧
      (updateRegistry o plan r id).1.get? id = some deployed ∧ deployed.type = previous.type ∧
      (updateRegistry o plan r id).1.getActiveContract previous.type = .ok (some deployed) ∧
      (updateRegistry o plan r id).1.flag id = some true ∧
      (updateRegistry o plan r id).1.flag plan.currentContractId = some false ∧
      ∃ r'', rollbackUpgrade plan.currentContractId (updateRegistry o plan r id).1 = .ok r'' ∧
        r''.flag plan.currentContractId = some true ∧ r''.flag id = some false := by
  obtain ⟨previous, hprev, hne, htype⟩ := h
  have hreg : Registrable plan r id := .inr (by simp [hprev])
  obtain ⟨r₁, m, hupdate, hr₁, rfl, hact, hother, hm⟩ := updateRegistry_ok o hr hreg
  rw [hupdate]
  have hmt : m.type = previous.type := by
    rcases hm with hm | ⟨-, hm⟩
    · obtain ⟨d, hd, hdt⟩ := Option.map_eq_some_iff.mp hm
      rw [← hdt, htype d hd]
    · rw [hprev] at hm
      exact (Option.some.inj hm).symm
  have hprev₁ : r₁.get? plan.currentContractId = some previous := by rw [hother _ (Ne.symm hne), hprev]
  have hself := get?_store_self r₁ m
  have hin : plan.currentContractId ∈ r₁.typeIndex m.type := hmt ▸ hr₁.listed hprev₁
  have hoff := flag_store_sibling hact hprev₁ hin (Ne.symm hne)
  obtain ⟨previous', hprev', hoff'⟩ := Option.map_eq_some_iff.mp hoff
  have hpt : previous'.type = m.type := by
    obtain ⟨he, -⟩ | ⟨-, c, hc, rfl⟩ := get?_store_cases hprev'
    · exact absurd he hne
    · rw [off_type, Option.some.inj (hc.symm.trans hprev₁), hmt]
  have hpid : previous'.contractId = plan.currentContractId := lookup_key hprev'
  refine ⟨previous, m, hprev, hself, hmt, hmt ▸ getActiveContract_store hr₁ hact, ?_, hoff, ?_⟩
  · rw [flag, hself, Option.map_some, hact]
  · refine ⟨_, setActive_eq (hr₁.store m) hprev', ?_, ?_⟩
    · rw [flag, ← hpid, get?_store_self ((r₁.store m)) { previous' with isActive := true }]
      rfl
    · refine flag_store_sibling rfl hself ?_ (hpid ▸ hne)
      exact hpt ▸ (hr₁.store m).listed hself

theorem hands_over_iff (plan : UpgradePlan) (ops : List Op) :
    HandsOver o plan (run (step o.registerFromXdr) empty ops) ↔
      ∀ id, Ready o plan (run (step o.registerFromXdr) empty ops) id →
        Succeeds plan (run (step o.registerFromXdr) empty ops) id := by
  have hr := @indexed_run o.registerFromXdr ops
  generalize run (step o.registerFromXdr) empty ops = r at hr
  constructor
  · intro h id hready
    obtain ⟨result, hresult, hs, hprev, rfl⟩ := executeUpgrade_of_ready o hr hready
    obtain ⟨previous, deployed, hp, hd, ht, -, hon, hoff, -⟩ := (h result _ hresult).2 hs
    rw [hprev] at hp hoff
    refine ⟨previous, hp, fun he => ?_, fun d hd' => ?_⟩
    · rw [he] at hon hoff
      rw [hoff] at hon
      cases hon
    · obtain ⟨r₁, m, hupdate, -, hid, -, -, hm⟩ := updateRegistry_ok o hr hready.1.2.2.2
      rw [hupdate, ← hid, get?_store_self] at hd
      rw [hd', Option.map_some] at hm
      rcases hm with hm | ⟨hnone, -⟩
      · rw [Option.some.inj hm, Option.some.inj hd, ht]
      · cases hnone
  · intro h result r' hresult
    obtain ⟨hprev, ⟨hs, hready, rfl⟩ | ⟨hs, rfl, -⟩⟩ := executeUpgrade_ok o hr hresult
    · refine ⟨fun hf => absurd (hs.symm.trans hf) (by decide), fun _ => ?_⟩
      rw [hprev]
      exact Succeeds.handover o hr (h _ hready)
    · exact ⟨fun _ => rfl, fun ht => absurd (hs.symm.trans ht) (by decide)⟩

end

/-! ## Two runs -/

def pool (contractId type : String) (isActive : Bool) : ContractMetadata :=
  ⟨contractId, type, "1.0.0", [], 0, none, isActive, none⟩

def toB : UpgradePlan := ⟨"CA", "CB", "2.0.0", true, [], some [0], none, none⟩

/-- Every request succeeds, and the cache is empty. -/
def cold (ledger : List (LedgerEntry ScalarVal Nat)) : Outside ScalarVal Nat where
  uploadWasm _ := .ok ⟨"00", "t1"⟩
  instantiate _ _ := .ok ⟨some "CB", "t2"⟩
  registerFromXdr _ _ := .ok ()
  cache := []
  network := ⟨ScalarVal.view, scalarToScVal, ledger, false, fun _ => ⟨false, false, false⟩, 0⟩
  now := 0

/-- The balance of the old contract is on the ledger and not in the cache. -/
theorem uncached_state_lost :
    let o := cold [⟨"CA", .str "balance", .persistent, 7, none, none⟩]
    let r := run (step o.registerFromXdr) empty [.register (pool "CA" "swap-pool" true) none]
    ∃ result r', executeUpgrade o toB r = .ok (result, r') ∧ result.success = true ∧
      r.flag "CA" = some true ∧ r'.flag "CA" = some false :=
  ⟨_, _, rfl, rfl, by decide, by decide⟩

/-- What is deployed is known as an escrow: it is activated as one, and the pool stays active. -/
theorem deployed_under_other_type :
    let o := cold []
    let r := run (step o.registerFromXdr) empty
      [.register (pool "CA" "swap-pool" true) none, .register (pool "CB" "escrow" false) none]
    ∃ result r', executeUpgrade o toB r = .ok (result, r') ∧ result.success = true ∧
      r'.flag "CA" = some true ∧
      r'.getActiveContract "swap-pool" = .ok (some (pool "CA" "swap-pool" true)) :=
  ⟨_, _, rfl, rfl, by decide, by decide⟩

end Soroban
end TradeCore
