import Mathlib.Data.List.Nodup
import Mathlib.Data.List.Pairwise
import TradeCore.Common
import TradeCore.Lib.Interleave
import TradeCore.Lib.Table

/-!
# TradeCore.Auth.ApiKeys

`ApiKeysService`: keys are created, validated and revoked by any number of calls at a time, one
statement of the database a step. A key is handed out once and stored as a digest, which finds the
row, and a hash, which decides.

The rows are related to the calls that have returned: each was created by one of them, and is active
until one has revoked it.

* `validate_run`: a key is accepted as long as it was created, has not expired and has not been
  revoked, whatever else runs at the same time.
* `create_run`: the check of a name looks at the user's own keys and the index at everybody's, so a
  name can be refused in two ways, and revoking a key does not free it.
-/

namespace TradeCore
namespace Auth
namespace ApiKeysService

open Lib

structure ApiKey where
  id : Uuid
  userId : Uuid
  name : String
  keyHash : String
  lookupHash : Option String
  keyPreview : Option String
  isActive : Bool
  lastUsedAt : Option Time
  expiresAt : Option Time
  scopes : Option (List String)
  deriving DecidableEq, Repr

structure CreateApiKeyDto where
  name : String
  expiresAt : Option Time
  scopes : Option (List String)
  deriving DecidableEq, Repr

/-- The table with its three unique indexes. -/
structure ApiKeys where
  rows : List ApiKey
  ids : (rows.map ApiKey.id).Nodup
  names : (rows.map ApiKey.name).Nodup
  hashes : (rows.filterMap ApiKey.lookupHash).Nodup

/-- bcrypt and the HMAC of `AuthTokenLookupService`. -/
structure Settings where
  hash : (salt raw : String) → String
  compare : (raw hash : String) → Bool
  digest : String → String

/-- What a step learns from outside: `random` is the hexadecimal text of 32 random bytes. -/
structure Env where
  now : Time
  fault : Bool
  id : Uuid
  random : String
  salt : String

inductive Op where
  | create (userId : Uuid) (dto : CreateApiKeyDto)
  | validate (rawKey : String)
  | revoke (userId keyId : Uuid)

/-- Where a call stands: before the statement its constructor names. A call that is about to `touch`
a key has answered. -/
inductive Call where
  | start (op : Op)
  | insert (userId : Uuid) (dto : CreateApiKeyDto)
  | touch (key : ApiKey)
  | save (key : ApiKey)

inductive Answer where
  | created (apiKey : ApiKey) (plainKey : String)
  | validated (apiKey : ApiKey)
  | revoked (keyId : Uuid)
  | failed (e : HttpError)
  deriving DecidableEq

abbrev KeyTask := Task Call Answer

def keyPrefix : String := "ict_"

def previewLength : Nat := 8

namespace ApiKeys

theorem nodup_column {β : Type} (column : ApiKey → β) : (([] : List ApiKey).map column).Nodup := .nil

theorem nodup_hashes : (([] : List ApiKey).filterMap ApiKey.lookupHash).Nodup := .nil

def empty : ApiKeys := ⟨[], nodup_column ApiKey.id, nodup_column ApiKey.name, nodup_hashes⟩

def live (db : ApiKeys) (lookupHash : String) (now : Time) : Option ApiKey :=
  db.rows.find? fun k =>
    k.lookupHash = some lookupHash ∧ k.isActive = true ∧ k.expiresAt.all fun expiresAt => now < expiresAt

/-- The columns that are ever written to a row again; `none` leaves `isActive`. -/
def write (id : Uuid) (isActive : Option Bool) (lastUsedAt : Option Time) (k : ApiKey) : ApiKey :=
  if k.id = id then { k with isActive := isActive.getD k.isActive, lastUsedAt := lastUsedAt } else k

theorem write_columns (id : Uuid) (isActive : Option Bool) (lastUsedAt : Option Time) (k : ApiKey) :
    (write id isActive lastUsedAt k).id = k.id ∧ (write id isActive lastUsedAt k).name = k.name ∧
      (write id isActive lastUsedAt k).lookupHash = k.lookupHash := by
  unfold write
  split <;> exact ⟨rfl, rfl, rfl⟩

def update (db : ApiKeys) (id : Uuid) (isActive : Option Bool) (lastUsedAt : Option Time) : ApiKeys where
  rows := db.rows.map (write id isActive lastUsedAt)
  ids := by simpa [Function.comp_def, (write_columns ..).1] using db.ids
  names := by simpa [Function.comp_def, (write_columns ..).2.1] using db.names
  hashes := by simpa [Function.comp_def, (write_columns ..).2.2] using db.hashes

/-- No row has the id, the name or the digest of `row`. -/
def Admits (db : ApiKeys) (row : ApiKey) : Prop :=
  row.id ∉ db.rows.map ApiKey.id ∧ row.name ∉ db.rows.map ApiKey.name ∧
    ∀ lookupHash ∈ row.lookupHash, lookupHash ∉ db.rows.filterMap ApiKey.lookupHash

instance (db : ApiKeys) (row : ApiKey) : Decidable (db.Admits row) :=
  inferInstanceAs (Decidable (_ ∧ _ ∧ _))

def add (db : ApiKeys) (row : ApiKey) (h : db.Admits row) : ApiKeys where
  rows := db.rows ++ [row]
  ids := by simpa [List.nodup_append, db.ids] using h.1
  names := by simpa [List.nodup_append, db.names] using h.2.1
  hashes := by
    rw [List.filterMap_append]
    cases hhash : row.lookupHash with
    | none => simpa [hhash] using db.hashes
    | some lookupHash =>
      have hnew := h.2.2 lookupHash hhash
      rw [List.filterMap_cons_some hhash, List.filterMap_nil, List.nodup_append]
      refine ⟨db.hashes, List.nodup_singleton _, fun x hx y hy => ?_⟩
      rintro rfl
      exact hnew (List.mem_singleton.mp hy ▸ hx)

end ApiKeys

def invalidKey : KeyTask := .done (.failed (.unauthorized "Invalid or expired API key"))

def newKey (cfg : Settings) (env : Env) (userId : Uuid) (dto : CreateApiKeyDto) : ApiKey :=
  let rawKey := keyPrefix ++ env.random
  { id := env.id
    userId := userId
    name := dto.name
    keyHash := cfg.hash env.salt rawKey
    lookupHash := some (cfg.digest rawKey)
    keyPreview := some (String.ofList (rawKey.toList.drop (rawKey.length - previewLength)))
    isActive := true
    lastUsedAt := none
    expiresAt := dto.expiresAt
    scopes := dto.scopes }

def advance (cfg : Settings) (env : Env) (call : Call) (db : ApiKeys) : ApiKeys × KeyTask :=
  match call with
  | .start (.create userId dto) =>
    if env.fault then (db, .done (.failed databaseError))
    else if db.rows.any fun k => k.userId = userId ∧ k.name = dto.name then
      (db, .done (.failed (.conflict ("An API key named \"" ++ dto.name ++ "\" already exists"))))
    else (db, .running (.insert userId dto))
  | .insert userId dto =>
    if h : db.Admits (newKey cfg env userId dto) then
      if env.fault then (db, .done (.failed databaseError))
      else (db.add (newKey cfg env userId dto) h,
        .done (.created (newKey cfg env userId dto) (keyPrefix ++ env.random)))
    else (db, .done (.failed databaseError))
  | .start (.validate rawKey) =>
    if keyPrefix.toList.isPrefixOf rawKey.toList then
      if env.fault then (db, .done (.failed databaseError))
      else match db.live (cfg.digest rawKey) env.now with
      | none => (db, invalidKey)
      | some candidate =>
        if cfg.compare rawKey candidate.keyHash then (db, .running (.touch candidate))
        else (db, invalidKey)
    else (db, .done (.failed (.unauthorized "Invalid API key format")))
  -- nobody waits for this statement, and that it fails is ignored
  | .touch key =>
    (if env.fault then db else db.update key.id none (some env.now), .done (.validated key))
  | .start (.revoke userId keyId) =>
    if env.fault then (db, .done (.failed databaseError))
    else match db.rows.find? fun k => k.id = keyId ∧ k.userId = userId with
    | none => (db, .done (.failed (.notFound "API key not found")))
    | some key => (db, .running (.save { key with isActive := false }))
  -- the entity is saved with the time of use that was read
  | .save key =>
    if env.fault then (db, .done (.failed databaseError))
    else (db.update key.id (some key.isActive) key.lastUsedAt, .done (.revoked key.id))

def keysProc (cfg : Settings) : Proc ApiKeys Env Op Call Answer := ⟨.start, advance cfg⟩

/-! ## The rows and the calls -/

/-- The row as it was inserted. -/
def ApiKey.issued (k : ApiKey) : ApiKey := { k with isActive := true, lastUsedAt := none }

def createdBy : KeyTask → Option ApiKey
  | .done (.created apiKey _) => some apiKey
  | _ => none

/-- The keys that calls of `create` have returned. -/
def created (ts : List KeyTask) : List ApiKey := ts.filterMap createdBy

structure Inv (cfg : Settings) (db : ApiKeys) (ts : List KeyTask) : Prop where
  returned : (created ts).Perm (db.rows.map ApiKey.issued)
  digests : ∀ key plainKey, .done (.created key plainKey) ∈ ts → key.lookupHash = some (cfg.digest plainKey)
  active : ∀ k ∈ db.rows, k.isActive = false ↔ .done (.revoked k.id) ∈ ts
  known : ∀ id, .done (.revoked id) ∈ ts → id ∈ db.rows.map ApiKey.id
  saving : ∀ key, .running (.save key) ∈ ts → key.isActive = false ∧ key.id ∈ db.rows.map ApiKey.id

@[simp] theorem issued_newKey (cfg : Settings) (env : Env) (userId : Uuid) (dto : CreateApiKeyDto) :
    (newKey cfg env userId dto).issued = newKey cfg env userId dto := rfl

@[simp] theorem issued_write (id : Uuid) (isActive : Option Bool) (lastUsedAt : Option Time) (k : ApiKey) :
    (ApiKeys.write id isActive lastUsedAt k).issued = k.issued := by
  unfold ApiKeys.write
  split <;> rfl

section Step

variable {cfg : Settings} {db : ApiKeys} {pre post ts : List KeyTask} {call : Call} {t : KeyTask}

theorem mem_created {key : ApiKey} : key ∈ created ts ↔ ∃ plainKey, .done (.created key plainKey) ∈ ts := by
  simp only [created, List.mem_filterMap]
  constructor
  · rintro ⟨t, ht, hkey⟩
    cases t with
    | running call => cases hkey
    | done answer =>
      cases answer <;> simp only [createdBy, Option.some.injEq, reduceCtorEq] at hkey
      case created apiKey plainKey =>
        subst hkey
        exact ⟨plainKey, ht⟩
  · rintro ⟨plainKey, ht⟩
    exact ⟨_, ht, rfl⟩

theorem created_replace (pre post : List KeyTask) (call : Call) (t : KeyTask) :
    (created (pre ++ t :: post)).Perm ((createdBy t).toList ++ created (pre ++ .running call :: post)) := by
  have hrunning : createdBy (.running call) = none := rfl
  simp only [created, List.filterMap_append, List.filterMap_cons, hrunning]
  cases createdBy t with
  | none => exact .refl _
  | some key => exact List.perm_middle

theorem Inv.spawn (h : Inv cfg db ts) (op : Op) : Inv cfg db (ts ++ [.running (.start op)]) := by
  have hmem : ∀ a : Answer, Task.done a ∈ ts ++ [Task.running (Call.start op)] ↔ .done a ∈ ts := by simp
  refine ⟨?_, fun key plainKey hkey => h.digests key plainKey ((hmem _).mp hkey), fun k hk => ?_,
    fun id hid => h.known id ((hmem _).mp hid), fun key hkey => h.saving key ?_⟩
  · have hnew : created (ts ++ [.running (.start op)]) = created ts :=
      List.filterMap_append.trans (List.append_nil _)
    rw [hnew]
    exact h.returned
  · rw [hmem]
    exact h.active k hk
  · simpa using hkey

/-- A step that leaves the rows and neither creates nor revokes a key. -/
theorem Inv.keep (h : Inv cfg db (pre ++ .running call :: post)) (hcreated : createdBy t = none)
    (hrevoked : ∀ id, t ≠ .done (.revoked id))
    (hsave : ∀ key, t = .running (.save key) → key.isActive = false ∧ key.id ∈ db.rows.map ApiKey.id) :
    Inv cfg db (pre ++ t :: post) := by
  have hdone : ∀ a : Answer, .done a ∈ pre ++ .running call :: post → .done a ∈ pre ++ t :: post := by
    intro a ha
    simp only [List.mem_append, List.mem_cons, reduceCtorEq, false_or] at ha ⊢
    exact ha.imp id .inr
  have hback : ∀ a : Answer, .done a ∈ pre ++ t :: post → .done a = t ∨ .done a ∈ pre ++ .running call :: post := by
    intro a ha
    simp only [List.mem_append, List.mem_cons, reduceCtorEq, false_or] at ha ⊢
    tauto
  have hrev : ∀ id, .done (.revoked id) ∈ pre ++ t :: post →
      .done (.revoked id) ∈ pre ++ .running call :: post :=
    fun id hid => (hback _ hid).resolve_left fun he => hrevoked id he.symm
  constructor
  case returned =>
    have hperm := created_replace pre post call t
    rw [hcreated] at hperm
    exact hperm.trans h.returned
  case digests =>
    intro key plainKey hkey
    rcases hback _ hkey with he | hkey
    · rw [← he] at hcreated
      cases hcreated
    · exact h.digests key plainKey hkey
  case active => exact fun k hk => ⟨fun hk' => hdone _ ((h.active k hk).mp hk'), fun hid => (h.active k hk).mpr (hrev _ hid)⟩
  case known => exact fun id hid => h.known id (hrev id hid)
  case saving =>
    intro key hkey
    simp only [List.mem_append, List.mem_cons] at hkey
    rcases hkey with hkey | hkey | hkey
    · exact h.saving key (by simp [hkey])
    · exact hsave key hkey.symm
    · exact h.saving key (by simp [hkey])

/-- An update of a row that is kept as active as it is. -/
theorem Inv.touch (h : Inv cfg db ts) (id : Uuid) (lastUsedAt : Option Time) :
    Inv cfg (db.update id none lastUsedAt) ts := by
  have hids : (db.update id none lastUsedAt).rows.map ApiKey.id = db.rows.map ApiKey.id := by
    simp [ApiKeys.update, Function.comp_def, (ApiKeys.write_columns ..).1]
  refine ⟨?_, h.digests, fun k hk => ?_, fun id' hid => hids ▸ h.known id' hid,
    fun key hkey => hids ▸ h.saving key hkey⟩
  · simpa [ApiKeys.update, Function.comp_def] using h.returned
  · obtain ⟨row, hrow, rfl⟩ := List.mem_map.mp hk
    rw [(ApiKeys.write_columns ..).1, ← h.active row hrow]
    unfold ApiKeys.write
    split <;> rfl

/-- The save of a revoked key. -/
theorem Inv.save {key : ApiKey} (h : Inv cfg db (pre ++ .running (.save key) :: post)) :
    Inv cfg (db.update key.id (some key.isActive) key.lastUsedAt)
      (pre ++ .done (.revoked key.id) :: post) := by
  obtain ⟨hinactive, hknown⟩ := h.saving key (by simp)
  have hids : (db.update key.id (some key.isActive) key.lastUsedAt).rows.map ApiKey.id =
      db.rows.map ApiKey.id := by
    simp [ApiKeys.update, Function.comp_def, (ApiKeys.write_columns ..).1]
  have hmem : ∀ id, Task.done (.revoked id) ∈ pre ++ .done (.revoked key.id) :: post ↔
      id = key.id ∨ .done (.revoked id) ∈ pre ++ .running (.save key) :: post := by
    intro id
    simp only [List.mem_append, List.mem_cons, Task.done.injEq, Answer.revoked.injEq, reduceCtorEq, false_or]
    tauto
  constructor
  case returned =>
    have hperm := (created_replace pre post (.save key) (.done (.revoked key.id))).trans h.returned
    simpa [ApiKeys.update, Function.comp_def] using hperm
  case digests =>
    intro key' plainKey hkey
    refine h.digests key' plainKey ?_
    simpa using hkey
  case active =>
    intro k hk
    obtain ⟨row, hrow, rfl⟩ := List.mem_map.mp hk
    rw [(ApiKeys.write_columns ..).1, hmem, ← h.active row hrow]
    unfold ApiKeys.write
    by_cases hid : row.id = key.id
    · simp [hid, hinactive]
    · simp [hid]
  case known =>
    intro id hid
    rw [hids]
    rcases (hmem id).mp hid with rfl | hid
    · exact hknown
    · exact h.known id hid
  case saving =>
    intro key' hkey
    rw [hids]
    refine h.saving key' ?_
    simp only [List.mem_append, List.mem_cons, reduceCtorEq, false_or] at hkey ⊢
    tauto

/-- The insert of a new key. -/
theorem Inv.insert {env : Env} {userId : Uuid} {dto : CreateApiKeyDto}
    (h : Inv cfg db (pre ++ .running (.insert userId dto) :: post))
    (hadmits : db.Admits (newKey cfg env userId dto)) :
    Inv cfg (db.add (newKey cfg env userId dto) hadmits)
      (pre ++ .done (.created (newKey cfg env userId dto) (keyPrefix ++ env.random)) :: post) := by
  generalize htask : Task.running (Call.insert userId dto) = old at h
  have hrows : (db.add (newKey cfg env userId dto) hadmits).rows = db.rows ++ [newKey cfg env userId dto] := rfl
  have hmem : ∀ id, Task.done (.revoked id) ∈
      pre ++ .done (.created (newKey cfg env userId dto) (keyPrefix ++ env.random)) :: post ↔
        .done (.revoked id) ∈ pre ++ old :: post := by
    simp [← htask]
  constructor
  case returned =>
    have hperm := created_replace pre post (.insert userId dto)
      (.done (.created (newKey cfg env userId dto) (keyPrefix ++ env.random)))
    rw [htask] at hperm
    rw [hrows, List.map_append, List.map_singleton, issued_newKey]
    exact hperm.trans ((h.returned.cons _).trans (List.perm_append_singleton _ _).symm)
  case digests =>
    intro key plainKey hkey
    simp only [List.mem_append, List.mem_cons, Task.done.injEq, Answer.created.injEq] at hkey
    rcases hkey with hkey | ⟨rfl, rfl⟩ | hkey
    · exact h.digests key plainKey (by simp [hkey])
    · rfl
    · exact h.digests key plainKey (by simp [hkey])
  case active =>
    intro k hk
    rw [hmem]
    rw [hrows, List.mem_append, List.mem_singleton] at hk
    rcases hk with hk | rfl
    · exact h.active k hk
    · -- nobody revokes a key before it is there
      exact iff_of_false (by simp [newKey]) fun hid => hadmits.1 (h.known _ hid)
  case known =>
    intro id hid
    rw [hrows, List.map_append, List.mem_append]
    exact .inl (h.known id ((hmem id).mp hid))
  case saving =>
    intro key hkey
    rw [hrows, List.map_append, List.mem_append]
    have hkey : .running (.save key) ∈ pre ++ old :: post := by
      simp only [List.mem_append, List.mem_cons, reduceCtorEq, false_or] at hkey ⊢
      tauto
    exact (h.saving key hkey).imp_right .inl

theorem Inv.advance (h : Inv cfg db (pre ++ .running call :: post)) (env : Env) :
    Inv cfg (advance cfg env call db).1 (pre ++ (advance cfg env call db).2 :: post) := by
  have hsame : ∀ {t : KeyTask}, createdBy t = none → (∀ id, t ≠ .done (.revoked id)) →
      (∀ key, t ≠ .running (.save key)) → Inv cfg db (pre ++ t :: post) :=
    fun hcreated hrevoked hsave => h.keep hcreated hrevoked fun key he => absurd he (hsave key)
  cases call with
  | start op =>
    cases op with
    | create userId dto =>
      simp only [ApiKeysService.advance]
      repeat' split
      all_goals exact hsame rfl (by simp) (by simp)
    | validate rawKey =>
      simp only [ApiKeysService.advance]
      repeat' split
      all_goals exact hsame rfl (by simp [invalidKey]) (by simp [invalidKey])
    | revoke userId keyId =>
      simp only [ApiKeysService.advance]
      split
      · exact hsame rfl (by simp) (by simp)
      · split
        · exact hsame rfl (by simp) (by simp)
        · rename_i key hkey
          refine h.keep rfl (by simp) fun key' he => ?_
          obtain rfl : { key with isActive := false } = key' := by simpa using he
          exact ⟨rfl, List.mem_map.mpr ⟨key, List.mem_of_find?_eq_some hkey, rfl⟩⟩
  | insert userId dto =>
    simp only [ApiKeysService.advance]
    split
    · rename_i hadmits
      split
      · exact hsame rfl (by simp) (by simp)
      · exact h.insert hadmits
    · exact hsame rfl (by simp) (by simp)
  | touch key =>
    simp only [ApiKeysService.advance]
    have hdone : Inv cfg db (pre ++ .done (.validated key) :: post) := hsame rfl (by simp) (by simp)
    split
    · exact hdone
    · exact hdone.touch key.id _
  | save key =>
    simp only [ApiKeysService.advance]
    split
    · exact hsame rfl (by simp) (by simp)
    · exact h.save

end Step

theorem inv_run (cfg : Settings) (acts : List (Act Env Op)) :
    Inv cfg (run (keysProc cfg).step (Conf.init .empty) acts).shared
      (run (keysProc cfg).step (Conf.init .empty) acts).tasks := by
  refine run_inv (I := fun c => Inv cfg c.shared c.tasks) (fun c a hI hG =>
    step_inv (keysProc cfg) (fun _ _ op _ h => h.spawn op) (fun _ _ _ _ env _ h => h.advance env) c a hI hG)
    ?_ (along_of_spawns (keysProc cfg) (S := fun _ => True) (fun _ _ => trivial) _)
  exact ⟨.refl _, by simp [Conf.init], by simp [Conf.init, ApiKeys.empty], by simp [Conf.init],
    by simp [Conf.init]⟩

/-! ## What the calls answer -/

theorem ApiKeys.eq_of_lookupHash (db : ApiKeys) {k k' : ApiKey} {lookupHash : String} (hk : k ∈ db.rows)
    (hk' : k' ∈ db.rows) (hhash : k.lookupHash = some lookupHash) (hhash' : k'.lookupHash = some lookupHash) :
    k = k' := by
  by_contra hne
  let Apart (k k' : ApiKey) : Prop := ∀ a, k.lookupHash = some a → ∀ b, k'.lookupHash = some b → a ≠ b
  have hpair : db.rows.Pairwise Apart := List.pairwise_filterMap.mp db.hashes
  have : Std.Symm Apart := ⟨fun _ _ h a ha b hb => (h b hb a ha).symm⟩
  exact hpair.forall hk hk' hne _ hhash _ hhash' rfl

theorem ApiKeys.live_iff (db : ApiKeys) {lookupHash : String} {now : Time} {k : ApiKey} :
    db.live lookupHash now = some k ↔ k ∈ db.rows ∧ k.lookupHash = some lookupHash ∧ k.isActive = true ∧
      k.expiresAt.all (fun expiresAt => now < expiresAt) = true := by
  constructor
  · intro h
    have hk := List.find?_some h
    simp only [decide_eq_true_eq] at hk
    exact ⟨List.mem_of_find?_eq_some h, by simpa using hk⟩
  · rintro ⟨hk, hhash, hactive, hexpires⟩
    cases h : db.live lookupHash now with
    | none =>
      have := List.find?_eq_none.mp h k hk
      simp_all
    | some k' =>
      have hk' := List.find?_some h
      simp only [decide_eq_true_eq] at hk'
      rw [db.eq_of_lookupHash (List.mem_of_find?_eq_some h) hk hk'.1 hhash]

theorem Inv.mem_created_iff {cfg : Settings} {db : ApiKeys} {ts : List KeyTask} (h : Inv cfg db ts)
    {issued : ApiKey} : issued ∈ created ts ↔ ∃ k ∈ db.rows, k.issued = issued := by
  rw [h.returned.mem_iff, List.mem_map]

/-- After every run, a key is accepted when a call has created it, under the digest of what is
presented, its hash accepts that, it has not expired, and no call has revoked it. -/
theorem validate_run (cfg : Settings) (acts : List (Act Env Op)) (env : Env) (rawKey : String)
    (issued : ApiKey) :
    let c := run (keysProc cfg).step (Conf.init .empty) acts
    (∃ key, (advance cfg env (.start (.validate rawKey)) c.shared).2 = .running (.touch key) ∧
        key.issued = issued) ↔
      keyPrefix.toList.isPrefixOf rawKey.toList = true ∧ env.fault = false ∧
        (∃ plainKey, .done (.created issued plainKey) ∈ c.tasks ∧ cfg.digest plainKey = cfg.digest rawKey) ∧
        cfg.compare rawKey issued.keyHash = true ∧
        issued.expiresAt.all (fun expiresAt => env.now < expiresAt) = true ∧
        .done (.revoked issued.id) ∉ c.tasks := by
  intro c
  have h : Inv cfg c.shared c.tasks := inv_run cfg acts
  have haccepts : ∀ key, (advance cfg env (.start (.validate rawKey)) c.shared).2 = .running (.touch key) ↔
      keyPrefix.toList.isPrefixOf rawKey.toList = true ∧ env.fault = false ∧
        c.shared.live (cfg.digest rawKey) env.now = some key ∧ cfg.compare rawKey key.keyHash = true := by
    intro key
    simp only [advance]
    split
    · rename_i hbegins
      split
      · simp_all
      · rename_i hfault
        split
        · rename_i hlive
          simp [invalidKey, hlive]
        · rename_i candidate hlive
          split
          · rename_i hcompare
            constructor
            · intro he
              obtain rfl : candidate = key := by simpa using he
              exact ⟨hbegins, by simpa using hfault, hlive, hcompare⟩
            · rintro ⟨-, -, hkey, -⟩
              rw [Option.some.inj (hlive.symm.trans hkey)]
          · rename_i hcompare
            refine iff_of_false (by simp [invalidKey]) ?_
            rintro ⟨-, -, hkey, hkey'⟩
            rw [Option.some.inj (hlive.symm.trans hkey)] at hcompare
            exact hcompare hkey'
    · simp_all
  constructor
  · rintro ⟨key, hkey, rfl⟩
    obtain ⟨hbegins, hfault, hlive, hcompare⟩ := (haccepts key).mp hkey
    obtain ⟨hrow, hhash, hactive, hexpires⟩ := c.shared.live_iff.mp hlive
    obtain ⟨plainKey, hcreated⟩ := mem_created.mp (h.mem_created_iff.mpr ⟨key, hrow, rfl⟩)
    have hdigest : key.issued.lookupHash = some (cfg.digest plainKey) := h.digests _ _ hcreated
    refine ⟨hbegins, hfault, ⟨plainKey, hcreated, ?_⟩, hcompare, hexpires, fun hrevoked => ?_⟩
    · exact Option.some.inj (hdigest.symm.trans hhash)
    · have hinactive := (h.active key hrow).mpr hrevoked
      rw [hactive] at hinactive
      cases hinactive
  · rintro ⟨hbegins, hfault, ⟨plainKey, hcreated, hdigest⟩, hcompare, hexpires, hrevoked⟩
    obtain ⟨key, hrow, rfl⟩ := h.mem_created_iff.mp (mem_created.mpr ⟨plainKey, hcreated⟩)
    refine ⟨key, (haccepts key).mpr ⟨hbegins, hfault, c.shared.live_iff.mpr ⟨hrow, ?_, ?_, hexpires⟩, hcompare⟩, rfl⟩
    · exact (h.digests _ _ hcreated).trans (congrArg some hdigest)
    · rw [← Bool.not_eq_false, h.active key hrow]
      exact hrevoked

/-- After every run, the check of a new name asks whether the user itself has ever created a key of
that name, revoked or not, and the insert whether anybody has. What the check lets past and the index
does not ends in an error of the database. -/
theorem create_run (cfg : Settings) (acts : List (Act Env Op)) (env : Env) (userId : Uuid)
    (dto : CreateApiKeyDto) :
    let c := run (keysProc cfg).step (Conf.init .empty) acts
    ((advance cfg env (.start (.create userId dto)) c.shared).2 = .running (.insert userId dto) ↔
      env.fault = false ∧ ∀ key ∈ created c.tasks, key.name = dto.name → key.userId ≠ userId) ∧
    ((∃ key plainKey, (advance cfg env (.insert userId dto) c.shared).2 = .done (.created key plainKey)) ↔
      env.fault = false ∧ ∀ key ∈ created c.tasks, key.name ≠ dto.name ∧ key.id ≠ env.id ∧
        key.lookupHash ≠ some (cfg.digest (keyPrefix ++ env.random))) ∧
    ∀ key ∈ created c.tasks, key.name = dto.name →
      (advance cfg env (.insert userId dto) c.shared).2 = .done (.failed databaseError) := by
  intro c
  have h : Inv cfg c.shared c.tasks := inv_run cfg acts
  have hall : ∀ p : ApiKey → Prop, (∀ k, p k.issued ↔ p k) →
      ((∀ key ∈ created c.tasks, p key) ↔ ∀ k ∈ c.shared.rows, p k) := by
    intro p hp
    simp only [h.mem_created_iff]
    exact ⟨fun hall k hk => (hp k).mp (hall _ ⟨k, hk, rfl⟩), by rintro hall _ ⟨k, hk, rfl⟩; exact (hp k).mpr (hall k hk)⟩
  have hadmits : c.shared.Admits (newKey cfg env userId dto) ↔ ∀ k ∈ c.shared.rows, k.name ≠ dto.name ∧
      k.id ≠ env.id ∧ k.lookupHash ≠ some (cfg.digest (keyPrefix ++ env.random)) := by
    simp only [ApiKeys.Admits, newKey, List.mem_map, List.mem_filterMap, Option.mem_def, not_exists, not_and,
      Option.some.injEq, forall_eq']
    exact ⟨fun ⟨hid, hname, hhash⟩ k hk => ⟨hname k hk, hid k hk, hhash k hk⟩,
      fun hall => ⟨fun k hk => (hall k hk).2.1, fun k hk => (hall k hk).1, fun k hk => (hall k hk).2.2⟩⟩
  refine ⟨?_, ?_, ?_⟩
  · have hown : (c.shared.rows.any fun k => k.userId = userId ∧ k.name = dto.name) = false ↔
        ∀ k ∈ c.shared.rows, k.name = dto.name → k.userId ≠ userId := by
      simp only [List.any_eq_false, decide_eq_true_eq, not_and']
    rw [hall _ fun k => Iff.rfl, ← hown]
    simp only [advance]
    generalize (c.shared.rows.any fun k => k.userId = userId ∧ k.name = dto.name) = taken
    cases taken <;> cases env.fault <;> simp
  · rw [hall _ fun k => Iff.rfl, ← hadmits]
    simp only [advance]
    split
    · split <;> simp_all
    · simp_all
  · intro key hkey hname
    have hrefused : ¬ c.shared.Admits (newKey cfg env userId dto) := by
      rw [hadmits, ← hall _ fun k => Iff.rfl]
      intro hfresh
      exact (hfresh key hkey).1 hname
    simp only [advance]
    rw [dif_neg hrefused]

end ApiKeysService
end Auth
end TradeCore
