import TradeCore.Common
import TradeCore.Lib.Table
import TradeCore.Soroban.StateKey

/-!
# TradeCore.Soroban.ContractState

Reads of contract storage through the Redis cache, and the export of a contract's state that an
upgrade asks for. The export knows the cached keys only, and a read that fails leaves its key out.

* `getState_shares`: a read that is served from the cache shares its entry with the read that wrote
  it.
* `exportContractState_eq_nil`: the export is empty exactly when no listed key can be read back.
-/

namespace TradeCore
namespace Soroban

open Lib

variable {σ β : Type}

/-- A storage entry on the ledger. -/
structure LedgerEntry (σ β : Type) where
  contractId : String
  key : σ
  durability : Durability
  val : β
  lastModifiedLedgerSeq : Option Nat
  liveUntilLedgerSeq : Option Nat

structure ContractStateEntry (σ β : Type) where
  contractId : String
  key : Key σ
  value : β
  lastModifiedLedger : Option Nat
  liveUntilLedger : Option Nat
  cached : Bool
  fetchedAt : Time

abbrev Cache (σ β : Type) := List (String × ContractStateEntry σ β)

/-- What fails in one read: the look-up in Redis (or the entry has expired), the request to the node,
the write to Redis. -/
structure Fault where
  get : Bool
  rpc : Bool
  set : Bool
  deriving DecidableEq

/-- What the reads of one export find outside the service; `faults i` is for the `i`-th one. -/
structure Network (σ β : Type) where
  view : σ → List (String × Json)
  nativeToScVal : Key σ → Option σ
  ledger : List (LedgerEntry σ β)
  scanFails : Bool
  faults : Nat → Fault
  now : Time

namespace Network

variable (w : Network σ β)

def readCache (fault : Fault) (cache : Cache σ β) (cacheKey : String) :
    Option (ContractStateEntry σ β) :=
  if fault.get then none else (lookup (·.1) cacheKey cache).map (·.2)

section

variable [DecidableEq σ]

/-- `none` is the error `getContractData` ends with, for a missing entry too. -/
def fetchFromNetwork (fault : Fault) (contractId : String) (key : Key σ) (durability : Durability) :
    Option (ContractStateEntry σ β) :=
  match toScKey w.nativeToScVal key with
  | none => none
  | some scKey =>
    if fault.rpc then none
    else
      match w.ledger.find? fun e =>
        e.contractId = contractId ∧ e.key = scKey ∧ e.durability = durability with
      | none => none
      | some e => some {
          contractId, key
          value := e.val
          lastModifiedLedger := e.lastModifiedLedgerSeq
          liveUntilLedger := e.liveUntilLedgerSeq
          cached := false
          fetchedAt := w.now }

def getState (fault : Fault) (cache : Cache σ β) (contractId : String) (key : Key σ)
    (durability : Durability) (forceRefresh : Bool) :
    Option (ContractStateEntry σ β) × Cache σ β :=
  let cacheKey := cacheKey w.view contractId key durability
  match if forceRefresh then none else readCache fault cache cacheKey with
  | some entry => (some { entry with cached := true }, cache)
  | none =>
    match w.fetchFromNetwork fault contractId key durability with
    | none => (none, cache)
    | some fresh =>
      (some fresh, if fault.set then cache else upsert (·.1) (cacheKey, fresh) cache)

end

/-- The part behind the fourth colon. -/
def storageKey (key : String) : String :=
  let parts := key.toList.splitOn ':'
  if 5 ≤ parts.length then String.ofList ([':'].intercalate (parts.drop 4)) else key

/-- The cache keys that match `soroban:state:{contractId}:*`, a contract id being letters and digits. -/
def scan (cache : Cache σ β) (contractId : String) : List String :=
  (cache.map (·.1)).filter fun key =>
    (keyPrefix.toList ++ contractId.toList ++ [':']).isPrefixOf key.toList

def listStorageKeys (cache : Cache σ β) (contractId : String) : Except String (List String) :=
  if w.scanFails then .error "Redis scan failed" else .ok ((scan cache contractId).map storageKey)

/-- `state[key] = value`. The name `__proto__` sets the prototype and adds no property. -/
def assign (state : List (String × β)) (key : String) (value : β) : List (String × β) :=
  if key = "__proto__" then state else upsert (·.1) (key, value) state

section

variable [DecidableEq σ]

def exportEntries (contractId : String) :
    Nat → List String → Cache σ β → List (String × β) → List (String × β) × Cache σ β
  | _, [], cache, state => (state, cache)
  | i, key :: keys, cache, state =>
    match w.getState (w.faults i) cache contractId (.string key) .persistent false with
    | (some entry, cache) => exportEntries contractId (i + 1) keys cache (assign state key entry.value)
    | (none, cache) => exportEntries contractId (i + 1) keys cache state

def exportContractState (cache : Cache σ β) (contractId : String) :
    Except String (List (String × β) × Cache σ β) :=
  match w.listStorageKeys cache contractId with
  | .error e => .error e
  | .ok keys => .ok (w.exportEntries contractId 0 keys cache [])

end

def importContractState (contractId : String) (state : List (String × β)) : Except String Unit :=
  if state.length = 0 then .ok ()
  else .error (s!"State migration is not supported for contract {contractId}: " ++
    s!"{state.length} storage entries cannot be migrated generically. " ++
    "Migrate state explicitly via the contract's supported methods or upgrade a state-free contract.")

/-! ## The keys that are listed -/

/-- A key is listed by the text it is cached under. -/
theorem storageKey_cacheKey (view : σ → List (String × Json)) {c : String} (hc : ':' ∉ c.toList)
    (k : Key σ) (d : Durability) : storageKey (cacheKey view c k d) = stableStringify view k := by
  have hpre : keyPrefix.toList = "soroban".toList ++ ':' :: ("state".toList ++ [':']) := by rfl
  have hparts : (cacheKey view c k d).toList.splitOn ':' = "soroban".toList :: "state".toList ::
      c.toList :: d.text.toList :: (stableStringify view k).toList.splitOn ':' := by
    rw [cacheKey_toList, hpre]
    simp only [List.append_assoc, List.cons_append, List.nil_append]
    rw [List.splitOn_append_cons_self_of_not_mem (by decide),
      List.splitOn_append_cons_self_of_not_mem (by decide),
      List.splitOn_append_cons_self_of_not_mem hc,
      List.splitOn_append_cons_self_of_not_mem (colon_not_mem_text d)]
  have hlen : 0 < ((stableStringify view k).toList.splitOn ':').length :=
    List.length_pos_iff.mpr (List.splitOn_ne_nil _ _)
  simp only [storageKey, hparts, List.length_cons, List.drop_succ_cons, List.drop_zero,
    List.intercalate_splitOn]
  rw [if_pos (by omega), String.ofList_toList]

/-! ## What a read does -/

section

variable [DecidableEq σ] {w}

/-- What a read answers with and what it leaves in the cache. -/
theorem getState_cases {fault : Fault} {cache cache' : Cache σ β} {c : String} {k : Key σ}
    {d : Durability} {force : Bool} {entry : Option (ContractStateEntry σ β)}
    (h : w.getState fault cache c k d force = (entry, cache')) :
    (∃ cached, readCache fault cache (cacheKey w.view c k d) = some cached ∧ force = false ∧
      entry = some { cached with cached := true } ∧ cache' = cache) ∨
    (w.fetchFromNetwork fault c k d = none ∧ entry = none ∧ cache' = cache ∧
      (force = false → readCache fault cache (cacheKey w.view c k d) = none)) ∨
    (∃ fresh, w.fetchFromNetwork fault c k d = some fresh ∧ entry = some fresh ∧
      cache' = if fault.set then cache
        else upsert (·.1) (cacheKey w.view c k d, fresh) cache) := by
  simp only [getState] at h
  split at h
  · rename_i cached hread
    split at hread
    · cases hread
    · rename_i hforce
      cases h
      exact .inl ⟨cached, hread, by simpa using hforce, rfl, rfl⟩
  · rename_i hread
    split at h
    · rename_i hfetch
      cases h
      refine .inr (.inl ⟨hfetch, rfl, rfl, ?_⟩)
      rintro rfl
      simpa using hread
    · rename_i fresh hfetch
      cases h
      exact .inr (.inr ⟨fresh, hfetch, rfl, rfl⟩)

theorem lookup_getState {fault : Fault} {cache cache' : Cache σ β} {c : String} {k : Key σ}
    {d : Durability} {force : Bool} {entry : Option (ContractStateEntry σ β)} {key : String}
    (h : w.getState fault cache c k d force = (entry, cache')) (hne : cacheKey w.view c k d ≠ key) :
    lookup (·.1) key cache' = lookup (·.1) key cache := by
  obtain ⟨-, -, -, -, rfl⟩ | ⟨-, -, rfl, -⟩ | ⟨fresh, -, -, rfl⟩ := getState_cases h
  · rfl
  · rfl
  · split
    · rfl
    · rw [lookup_upsert, if_neg hne]

theorem fetchFromNetwork_some {fault : Fault} {c : String} {k : Key σ} {d : Durability}
    {entry : ContractStateEntry σ β} (h : w.fetchFromNetwork fault c k d = some entry) :
    entry.contractId = c ∧ entry.key = k := by
  unfold fetchFromNetwork at h
  split at h
  · cases h
  · split at h
    · cases h
    · split at h
      · cases h
      · cases h
        exact ⟨rfl, rfl⟩

variable (w) in
/-- Every entry is held under a cache key of the read that fetched it. -/
def Keyed (cache : Cache σ β) : Prop :=
  ∀ p ∈ cache, ∃ d, p.1 = cacheKey w.view p.2.contractId p.2.key d

theorem Keyed.getState {fault : Fault} {cache cache' : Cache σ β} {c : String} {k : Key σ}
    {d : Durability} {force : Bool} {entry : Option (ContractStateEntry σ β)} (hk : w.Keyed cache)
    (h : w.getState fault cache c k d force = (entry, cache')) : w.Keyed cache' := by
  obtain ⟨-, -, -, -, rfl⟩ | ⟨-, -, rfl, -⟩ | ⟨fresh, hfetch, -, rfl⟩ := getState_cases h
  · exact hk
  · exact hk
  · split
    · exact hk
    · intro p hp
      rcases mem_upsert hp with rfl | hp
      · obtain ⟨hc, hkey⟩ := fetchFromNetwork_some hfetch
        exact ⟨d, by rw [hc, hkey]⟩
      · exact hk p hp

/-- What a read answers with was read under the same cache key, by itself or by the read that wrote
the entry. -/
theorem getState_shares {fault : Fault} {cache cache' : Cache σ β} {c : String} {k : Key σ}
    {d : Durability} {force : Bool} {entry : ContractStateEntry σ β} (hk : w.Keyed cache)
    (h : w.getState fault cache c k d force = (some entry, cache')) :
    ∃ d', cacheKey w.view entry.contractId entry.key d' = cacheKey w.view c k d := by
  obtain ⟨cached, hread, -, hentry, -⟩ | ⟨-, hentry, -⟩ | ⟨fresh, hfetch, hentry, -⟩ :=
    getState_cases h
  · obtain rfl := Option.some.inj hentry
    unfold readCache at hread
    split at hread
    · cases hread
    · obtain ⟨p, hp, rfl⟩ := Option.map_eq_some_iff.mp hread
      obtain ⟨d', hd'⟩ := hk p (mem_of_lookup hp)
      exact ⟨d', hd'.symm.trans (lookup_key hp)⟩
  · cases hentry
  · obtain rfl := Option.some.inj hentry
    obtain ⟨hc, hkey⟩ := fetchFromNetwork_some hfetch
    exact ⟨d, by rw [hc, hkey]⟩

variable (w) in
/-- The read of a key gets a value, from the cache or from the ledger. -/
def Readable (fault : Fault) (cache : Cache σ β) (c : String) (key : Key σ) : Prop :=
  readCache fault cache (cacheKey w.view c key .persistent) ≠ none ∨
    w.fetchFromNetwork fault c key .persistent ≠ none

theorem readable_of_some {fault : Fault} {cache cache' : Cache σ β} {c : String} {k : Key σ}
    {entry : ContractStateEntry σ β}
    (h : w.getState fault cache c k .persistent false = (some entry, cache')) :
    w.Readable fault cache c k := by
  obtain ⟨cached, hread, -⟩ | ⟨-, hnone, -⟩ | ⟨fresh, hfetch, -⟩ := getState_cases h
  · exact .inl (hread ▸ Option.some_ne_none cached)
  · cases hnone
  · exact .inr (hfetch ▸ Option.some_ne_none fresh)

theorem not_readable_of_none {fault : Fault} {cache cache' : Cache σ β} {c : String} {k : Key σ}
    (h : w.getState fault cache c k .persistent false = (none, cache')) :
    ¬ w.Readable fault cache c k ∧ cache' = cache := by
  obtain ⟨_, -, -, hnone, -⟩ | ⟨hfetch, -, hcache, hread⟩ | ⟨_, -, hnone, -⟩ := getState_cases h
  · cases hnone
  · exact ⟨fun hr => hr.elim (fun h => h (hread rfl)) fun h => h hfetch, hcache⟩
  · cases hnone

theorem readable_congr {fault : Fault} {cache cache' : Cache σ β} {c : String} {k : Key σ}
    (h : lookup (·.1) (cacheKey w.view c k .persistent) cache' =
      lookup (·.1) (cacheKey w.view c k .persistent) cache) :
    w.Readable fault cache' c k ↔ w.Readable fault cache c k := by
  simp only [Readable, readCache, h]

omit [DecidableEq σ] in
theorem cacheKey_string_ne (view : σ → List (String × Json)) (c : String) (d : Durability)
    {s t : String} (h : s ≠ t) : cacheKey view c (.string s) d ≠ cacheKey view c (.string t) d := by
  intro he
  have he := congrArg String.toList he
  rw [cacheKey_toList, cacheKey_toList, List.append_cancel_left_eq, List.append_cancel_left_eq,
    List.cons.injEq, List.append_cancel_left_eq, List.cons.injEq] at he
  exact h (String.toList_inj.mp he.2.2)

/-! ## The export -/

theorem assign_eq_nil {state : List (String × β)} {key : String} {value : β} :
    assign state key value = [] ↔ state = [] ∧ key = "__proto__" := by
  unfold assign
  split
  · rename_i hk
    exact ⟨fun h => ⟨h, hk⟩, And.left⟩
  · rename_i hk
    exact ⟨fun h => absurd h (upsert_ne_nil _ _), fun h => absurd h.2 hk⟩

/-- By induction on the keys. A read that gets a value makes the state non-empty, except for
`__proto__`, whose value only goes to the cache entry of its own. -/
theorem exportEntries_eq_nil {c : String} {i : Nat} {keys : List String} {cache : Cache σ β}
    {state : List (String × β)} :
    (w.exportEntries c i keys cache state).1 = [] ↔ state = [] ∧
      ∀ j key, keys[j]? = some key → key ≠ "__proto__" →
        ¬ w.Readable (w.faults (i + j)) cache c (.string key) := by
  induction keys generalizing i cache state with
  | nil => simp [exportEntries]
  | cons key keys ih =>
    have hsplit : (∀ j key', (key :: keys)[j]? = some key' → key' ≠ "__proto__" →
          ¬ w.Readable (w.faults (i + j)) cache c (.string key')) ↔
        (key ≠ "__proto__" → ¬ w.Readable (w.faults i) cache c (.string key)) ∧
          ∀ j key', keys[j]? = some key' → key' ≠ "__proto__" →
            ¬ w.Readable (w.faults (i + 1 + j)) cache c (.string key') := by
      constructor
      · intro h
        exact ⟨h 0 key rfl, fun j key' hj => Nat.add_right_comm i j 1 ▸ h (j + 1) key' hj⟩
      · rintro ⟨h0, h⟩ (_ | j) key' hj
        · cases hj
          exact h0
        · have := h j key' hj
          rwa [Nat.add_right_comm i 1 j] at this
    rw [hsplit]
    simp only [exportEntries]
    split
    · rename_i entry cache' hget
      have hread := readable_of_some hget
      rw [ih, assign_eq_nil]
      constructor
      · rintro ⟨⟨hstate, rfl⟩, hrest⟩
        refine ⟨hstate, fun hne => absurd rfl hne, fun j key' hj hne => ?_⟩
        rw [← readable_congr (lookup_getState hget (cacheKey_string_ne _ _ _ (Ne.symm hne)))]
        exact hrest j key' hj hne
      · rintro ⟨hstate, h0, hrest⟩
        have hproto : key = "__proto__" := by
          by_contra hne
          exact h0 hne hread
        subst hproto
        refine ⟨⟨hstate, rfl⟩, fun j key' hj hne => ?_⟩
        rw [readable_congr (lookup_getState hget (cacheKey_string_ne _ _ _ (Ne.symm hne)))]
        exact hrest j key' hj hne
    · rename_i cache' hget
      obtain ⟨hunread, rfl⟩ := not_readable_of_none hget
      rw [ih]
      exact ⟨fun h => ⟨h.1, fun _ => hunread, h.2⟩, fun h => ⟨h.1, h.2.2⟩⟩

variable (w) in
/-- A key listed in the cache is read back by the export. -/
def Exported (cache : Cache σ β) (c : String) : Prop :=
  ∃ i key, ((scan cache c).map storageKey)[i]? = some key ∧ key ≠ "__proto__" ∧
    w.Readable (w.faults i) cache c (.string key)

/-- The state that is exported is empty exactly when no cached key can be read back. -/
theorem exportContractState_eq_nil {c : String} {cache cache' : Cache σ β}
    {state : List (String × β)} (h : w.exportContractState cache c = .ok (state, cache')) :
    state = [] ↔ ¬ w.Exported cache c := by
  unfold exportContractState at h
  split at h
  · cases h
  · rename_i keys hkeys
    have hscan : keys = (scan cache c).map storageKey := by
      unfold listStorageKeys at hkeys
      split at hkeys
      · cases hkeys
      · exact (Except.ok.inj hkeys).symm
    have hstate : (w.exportEntries c 0 keys cache []).1 = state := by rw [Except.ok.inj h]
    rw [← hstate, exportEntries_eq_nil, hscan]
    simp only [true_and, Nat.zero_add, Exported]
    constructor
    · rintro h ⟨i, key, hi, hne, hr⟩
      exact h i key hi hne hr
    · intro h i key hi hne hr
      exact h ⟨i, key, hi, hne, hr⟩

end

end Network

end Soroban
end TradeCore
