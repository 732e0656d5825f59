import TradeCore.Common
import TradeCore.Lib.JsonParse
import TradeCore.Lib.Run
import TradeCore.Lib.Table
import TradeCore.Soroban.StateKey

/-!
# TradeCore.Soroban.StateCache

The text a storage entry is cached as, and what a later read makes of it.

`writeCache` stores `JSON.stringify` of the entry, with bigints as strings, and `readCache` takes
`JSON.parse` of the text as the entry. `getState_same_iff` says when a read that finds a live entry
returns what the network read returned: when value and key have no bigint, no bytes and no object of the
SDK at any depth.
-/

namespace TradeCore
namespace Soroban
namespace StateCache

open Lib

/-- A value `scValToNative` makes, or a key as the caller has it. Bytes are a `Buffer`; `σ` is the type of
the objects of the SDK. A number is finite and comes with the text `String` gives for it. -/
inductive Native (σ : Type) where
  | null
  | bool (b : Bool)
  | number (text : NumText)
  | bigint (i : Int)
  | bytes (data : List UInt8)
  | string (s : String)
  | array (xs : List (Native σ))
  | object (fields : List (String × Native σ))
  | sdk (v : σ)

section

variable {σ : Type}

/-! ## Objects -/

def index? (name : String) : Option Nat := arrayIndex? name.toList

/-- The properties of an object in the order JavaScript lists them in, after the assignments `fields`:
array indices first, in numeric order, then the other names as they were first assigned. -/
def ownProperties {α : Type} (fields : List (String × α)) : List (String × α) :=
  let assigned := fields.foldl (fun t field => upsert (·.1) field t) []
  (assigned.filter fun p => (index? p.1).isSome).insertionSort
      (fun p q => (index? p.1).getD 0 ≤ (index? q.1).getD 0) ++
    assigned.filter fun p => (index? p.1).isNone

mutual

/-- What every value is: an object lists its own properties, and the text of a number is one of the
grammar. -/
def Native.WellFormed : Native σ → Prop
  | .number text => validNumber text.chars = true
  | .array xs => WellFormedElements xs
  | .object fields => ownProperties fields = fields ∧ WellFormedFields fields
  | _ => True

def WellFormedElements : List (Native σ) → Prop
  | [] => True
  | x :: xs => x.WellFormed ∧ WellFormedElements xs

def WellFormedFields : List (String × Native σ) → Prop
  | [] => True
  | (_, x) :: fields => x.WellFormed ∧ WellFormedFields fields

end

/-! ## `JSON.stringify` and `JSON.parse` -/

-- The properties of an SDK object as `JSON.stringify` writes them.
variable (written : σ → List (String × Json))

def intText (i : Int) : NumText where
  chars := digits i
  ne_nil := by
    rw [digits]
    split
    · exact List.cons_ne_nil _ _
    · exact Nat.toDigits_ne_nil
  num := by
    have hdigit : ∀ c ∈ Nat.toDigits 10 i.natAbs, isNumChar c = true := fun c hc => by
      simp [isNumChar, isDigit_toDigits _ c hc]
    intro c hc
    rw [digits] at hc
    split at hc
    · rcases List.mem_cons.mp hc with rfl | hc
      · decide
      · exact hdigit c hc
    · exact hdigit c hc

/-- `Buffer.prototype.toJSON`, which comes before the replacer. -/
def bufferJson (data : List UInt8) : Json :=
  .obj [("type", .str "Buffer"), ("data", .arr (data.map fun b => .num (intText b.toNat)))]

mutual

/-- The replacer of `writeCache` turns a bigint into a string. -/
def toJson : Native σ → Json
  | .null => .null
  | .bool b => .bool b
  | .number text => .num text
  | .bigint i => .str (String.ofList (digits i))
  | .bytes data => bufferJson data
  | .string s => .str s
  | .array xs => .arr (toJsonElements xs)
  | .object fields => .obj (toJsonFields fields)
  | .sdk v => .obj (written v)

def toJsonElements : List (Native σ) → List Json
  | [] => []
  | x :: xs => toJson x :: toJsonElements xs

def toJsonFields : List (String × Native σ) → List (String × Json)
  | [] => []
  | (name, x) :: fields => (name, toJson x) :: toJsonFields fields

end

mutual

/-- The value `JSON.parse` makes. -/
def ofJson : Json → Native σ
  | .null => .null
  | .bool b => .bool b
  | .num text => .number text
  | .str s => .string s
  | .arr xs => .array (ofJsonElements xs)
  | .obj fields => .object (ownProperties (ofJsonFields fields))

def ofJsonElements : List Json → List (Native σ)
  | [] => []
  | x :: xs => ofJson x :: ofJsonElements xs

def ofJsonFields : List (String × Json) → List (String × Native σ)
  | [] => []
  | (name, x) :: fields => (name, ofJson x) :: ofJsonFields fields

end

/-! ## Plain values -/

mutual

/-- No bigint, no bytes and no SDK object at any depth. -/
def Native.Plain : Native σ → Prop
  | .bigint _ => False
  | .bytes _ => False
  | .sdk _ => False
  | .array xs => PlainElements xs
  | .object fields => PlainFields fields
  | _ => True

def PlainElements : List (Native σ) → Prop
  | [] => True
  | x :: xs => x.Plain ∧ PlainElements xs

def PlainFields : List (String × Native σ) → Prop
  | [] => True
  | (_, x) :: fields => x.Plain ∧ PlainFields fields

end

theorem plainFields_iff {fields : List (String × Native σ)} :
    PlainFields fields ↔ ∀ p ∈ fields, p.2.Plain := by
  induction fields with
  | nil => simp [PlainFields]
  | cons p fields ih => simp [PlainFields, ih]

theorem mem_of_mem_ownProperties {α : Type} {fields : List (String × α)} {p : String × α}
    (h : p ∈ ownProperties fields) : p ∈ fields := by
  have hassigned : ∀ (fields t : List (String × α)), ∀ p ∈ fields.foldl (fun t field => upsert (·.1) field t) t,
      p ∈ fields ∨ p ∈ t := by
    intro fields
    induction fields with
    | nil => exact fun t p hp => .inr hp
    | cons field fields ih =>
      intro t p hp
      rcases ih _ p hp with hp | hp
      · exact .inl (List.mem_cons_of_mem _ hp)
      · rcases mem_upsert hp with rfl | hp
        · exact .inl List.mem_cons_self
        · exact .inr hp
  have hmem : p ∈ fields.foldl (fun t field => upsert (·.1) field t) [] := by
    rw [ownProperties, List.mem_append] at h
    rcases h with h | h
    · exact List.mem_of_mem_filter ((List.perm_insertionSort _ _).mem_iff.mp h)
    · exact List.mem_of_mem_filter h
  rcases hassigned fields [] p hmem with h | h
  · exact h
  · cases h

mutual

/-- A text holds plain values only. -/
theorem plain_ofJson (x : Json) : (ofJson x : Native σ).Plain := by
  match x with
  | .null => simp [ofJson, Native.Plain]
  | .bool b => simp [ofJson, Native.Plain]
  | .num text => simp [ofJson, Native.Plain]
  | .str s => simp [ofJson, Native.Plain]
  | .arr xs =>
    rw [ofJson, Native.Plain]
    exact plain_ofJsonElements xs
  | .obj fields =>
    have hfields := plainFields_iff.mp (plain_ofJsonFields fields)
    rw [ofJson, Native.Plain, plainFields_iff]
    exact fun p hp => hfields p (mem_of_mem_ownProperties hp)

theorem plain_ofJsonElements (xs : List Json) : PlainElements (ofJsonElements xs : List (Native σ)) := by
  match xs with
  | [] => simp [ofJsonElements, PlainElements]
  | x :: xs =>
    rw [ofJsonElements, PlainElements]
    exact ⟨plain_ofJson x, plain_ofJsonElements xs⟩

theorem plain_ofJsonFields (fields : List (String × Json)) :
    PlainFields (ofJsonFields fields : List (String × Native σ)) := by
  match fields with
  | [] => simp [ofJsonFields, PlainFields]
  | (name, x) :: fields =>
    rw [ofJsonFields, PlainFields]
    exact ⟨plain_ofJson x, plain_ofJsonFields fields⟩

end

mutual

/-- A plain value is written as a text of the grammar and read back as it is. -/
theorem ofJson_toJson (x : Native σ) (hplain : x.Plain) (hform : x.WellFormed) :
    (toJson written x).Valid ∧ ofJson (toJson written x) = x := by
  match x, hplain, hform with
  | .null, _, _ => exact ⟨trivial, rfl⟩
  | .bool b, _, _ => exact ⟨trivial, rfl⟩
  | .number text, _, hform => exact ⟨hform, rfl⟩
  | .string s, _, _ => exact ⟨trivial, rfl⟩
  | .array xs, hplain, hform =>
    obtain ⟨hvalid, hxs⟩ := ofJsonElements_toJsonElements xs hplain hform
    rw [toJson, ofJson, hxs]
    exact ⟨hvalid, rfl⟩
  | .object fields, hplain, hform =>
    obtain ⟨hvalid, hfields⟩ := ofJsonFields_toJsonFields fields hplain hform.2
    rw [toJson, ofJson, hfields, hform.1]
    exact ⟨hvalid, rfl⟩

theorem ofJsonElements_toJsonElements (xs : List (Native σ)) (hplain : PlainElements xs)
    (hform : WellFormedElements xs) :
    ValidElements (toJsonElements written xs) ∧ ofJsonElements (toJsonElements written xs) = xs := by
  match xs, hplain, hform with
  | [], _, _ => exact ⟨trivial, rfl⟩
  | x :: xs, hplain, hform =>
    obtain ⟨hvalid, hx⟩ := ofJson_toJson x hplain.1 hform.1
    obtain ⟨hvalids, hxs⟩ := ofJsonElements_toJsonElements xs hplain.2 hform.2
    rw [toJsonElements, ofJsonElements, hx, hxs]
    exact ⟨⟨hvalid, hvalids⟩, rfl⟩

theorem ofJsonFields_toJsonFields (fields : List (String × Native σ)) (hplain : PlainFields fields)
    (hform : WellFormedFields fields) :
    ValidFields (toJsonFields written fields) ∧ ofJsonFields (toJsonFields written fields) = fields := by
  match fields, hplain, hform with
  | [], _, _ => exact ⟨trivial, rfl⟩
  | (name, x) :: fields, hplain, hform =>
    obtain ⟨hvalid, hx⟩ := ofJson_toJson x hplain.1 hform.1
    obtain ⟨hvalids, hfields⟩ := ofJsonFields_toJsonFields fields hplain.2 hform.2
    rw [toJsonFields, ofJsonFields, hx, hfields]
    exact ⟨⟨hvalid, hvalids⟩, rfl⟩

end

/-! ## The cache -/

mutual

/-- The key as `JSON.stringify` and `String` see it. -/
def toKey : Native σ → Key σ
  | .null => .null
  | .bool b => .bool b
  | .number text => .number (.finite ((textValue? text.chars).getD 0) text)
  | .bigint i => .bigint i
  | .bytes data => .object [("type", .string "Buffer"), ("data", .array (data.map fun b =>
      .number (.finite b.toNat (intText b.toNat))))]
  | .string s => .string s
  | .array xs => .array (toKeyElements xs)
  | .object fields => .object (toKeyFields fields)
  | .sdk v => .scVal v

def toKeyElements : List (Native σ) → List (Key σ)
  | [] => []
  | x :: xs => toKey x :: toKeyElements xs

def toKeyFields : List (String × Native σ) → List (String × Key σ)
  | [] => []
  | (name, x) :: fields => (name, toKey x) :: toKeyFields fields

end

structure StateEntry (σ : Type) where
  contractId : String
  key : Native σ
  value : Native σ
  lastModifiedLedger : Option NumText
  liveUntilLedger : Option NumText
  cached : Bool
  fetchedAt : NumText

/-- A field that is left out when it is undefined. -/
def optionalField (name : String) : Option NumText → List (String × Json)
  | none => []
  | some text => [(name, .num text)]

def entryJson (entry : StateEntry σ) : Json :=
  .obj ([("contractId", .str entry.contractId), ("key", toJson written entry.key),
      ("value", toJson written entry.value)] ++
    optionalField "lastModifiedLedger" entry.lastModifiedLedger ++
    optionalField "liveUntilLedger" entry.liveUntilLedger ++
    [("cached", .bool entry.cached), ("fetchedAt", .num entry.fetchedAt)])

def property? (name : String) (fields : List (String × Json)) : Option Json :=
  (lookup (·.1) name fields).map (·.2)

def number? : Json → Option NumText
  | .num text => some text
  | _ => none

/-- The parsed text, taken as an entry. -/
def entryOf : Json → Option (StateEntry σ)
  | .obj fields =>
    match property? "contractId" fields, property? "key" fields, property? "value" fields,
      property? "cached" fields, property? "fetchedAt" fields with
    | some (.str contractId), some key, some value, some (.bool cached), some (.num fetchedAt) => some {
        contractId, cached, fetchedAt
        key := ofJson key
        value := ofJson value
        lastModifiedLedger := (property? "lastModifiedLedger" fields).bind number?
        liveUntilLedger := (property? "liveUntilLedger" fields).bind number? }
    | _, _, _, _, _ => none
  | _ => none

/-- A cached text. `filledBy` is no part of Redis: the network read that filled the entry. -/
structure Stored (σ : Type) where
  text : List Char
  expiresAt : Time
  filledBy : StateEntry σ

abbrev Redis (σ : Type) := List (String × Stored σ)

/-- What the network answers: the decoded value and the ledgers. -/
structure Fetched (σ : Type) where
  value : Native σ
  lastModifiedLedgerSeq : Option NumText
  liveUntilLedgerSeq : Option NumText

/-- A call of `getState` and what it meets: the time at which it looks into Redis, the time at which the
network has answered, and the commands that fail. -/
structure Call (σ : Type) where
  contractId : String
  key : Native σ
  durability : Durability
  forceRefresh : Bool
  now : Time
  answered : Time
  network : Option (Fetched σ)
  getFails : Bool
  setFails : Bool

-- The fields of an SDK key in its printed form, and the lifetime of an entry.
variable (view : σ → List (String × Json)) (cacheTtlSecs : Int)

def Call.entryKey (c : Call σ) : String := cacheKey view c.contractId (toKey c.key) c.durability

def stored? (redis : Redis σ) (key : String) : Option (Stored σ) := (lookup (·.1) key redis).map (·.2)

def readCache (redis : Redis σ) (c : Call σ) : Option (StateEntry σ) :=
  if c.getFails then none
  else
    match stored? redis (c.entryKey view) with
    | none => none
    | some stored => if c.now < stored.expiresAt then (parseJson stored.text).bind entryOf else none

def fetchFromNetwork (c : Call σ) : Option (StateEntry σ) :=
  c.network.map fun entry => {
    contractId := c.contractId
    key := c.key
    value := entry.value
    lastModifiedLedger := entry.lastModifiedLedgerSeq
    liveUntilLedger := entry.liveUntilLedgerSeq
    cached := false
    fetchedAt := intText c.answered }

def writeCache (redis : Redis σ) (c : Call σ) (entry : StateEntry σ) : Redis σ :=
  if c.setFails then redis
  else upsert (·.1) (c.entryKey view, {
    text := render (entryJson written entry)
    expiresAt := c.answered + cacheTtlSecs * 1000
    filledBy := entry }) redis

def getState (redis : Redis σ) (c : Call σ) : Option (StateEntry σ) × Redis σ :=
  match if c.forceRefresh then none else readCache view redis c with
  | some entry => (some { entry with cached := true }, redis)
  | none =>
    match fetchFromNetwork c with
    | none => (none, redis)
    | some fresh => (some fresh, writeCache written view cacheTtlSecs redis c fresh)

inductive Act (σ : Type) where
  | getState (c : Call σ)
  /-- A call that other calls have overlapped writes what the network has answered. -/
  | answered (c : Call σ)
  /-- `invalidate`, `invalidateContract`, or an entry that Redis gives up. -/
  | deleted (keys : List String)

def step (redis : Redis σ) : Act σ → Redis σ
  | .getState c => (getState written view cacheTtlSecs redis c).2
  | .answered c =>
    match fetchFromNetwork c with
    | none => redis
    | some fresh => writeCache written view cacheTtlSecs redis c fresh
  | .deleted keys => redis.filter fun p => p.1 ∉ keys

/-! ## What a text holds -/

structure StateEntry.WellFormed (entry : StateEntry σ) : Prop where
  key : entry.key.WellFormed
  value : entry.value.WellFormed
  lastModifiedLedger : ∀ text ∈ entry.lastModifiedLedger, validNumber text.chars = true
  liveUntilLedger : ∀ text ∈ entry.liveUntilLedger, validNumber text.chars = true
  fetchedAt : validNumber entry.fetchedAt.chars = true

/-- What the SDK and the caller hand over are JavaScript values. -/
structure Call.WellFormed (c : Call σ) : Prop where
  key : c.key.WellFormed
  value : ∀ entry ∈ c.network, entry.value.WellFormed
  lastModifiedLedger : ∀ entry ∈ c.network, ∀ text ∈ entry.lastModifiedLedgerSeq,
    validNumber text.chars = true
  liveUntilLedger : ∀ entry ∈ c.network, ∀ text ∈ entry.liveUntilLedgerSeq, validNumber text.chars = true

def Act.WellFormed : Act σ → Prop
  | .getState c | .answered c => c.WellFormed
  | .deleted _ => True

theorem validNumber_intText (i : Int) : validNumber (intText i).chars = true := by
  show validNumber (digits i) = true
  rw [digits]
  split
  · exact (validNumber_toDigits i.natAbs).2
  · exact (validNumber_toDigits i.natAbs).1

theorem entryOf_entryJson (entry : StateEntry σ) :
    entryOf (entryJson written entry) = some ({ entry with
      key := ofJson (toJson written entry.key)
      value := ofJson (toJson written entry.value) } : StateEntry σ) := by
  obtain ⟨contractId, key, value, lastModified, liveUntil, cached, fetchedAt⟩ := entry
  cases lastModified <;> cases liveUntil <;> rfl

theorem entryJson_valid {entry : StateEntry σ} (h : entry.WellFormed) (hkey : entry.key.Plain)
    (hvalue : entry.value.Plain) : (entryJson written entry).Valid := by
  obtain ⟨hkeyvalid, -⟩ := ofJson_toJson written entry.key hkey h.key
  obtain ⟨hvaluevalid, -⟩ := ofJson_toJson written entry.value hvalue h.value
  obtain ⟨contractId, key, value, lastModified, liveUntil, cached, fetchedAt⟩ := entry
  have hlast := h.lastModifiedLedger
  have hlive := h.liveUntilLedger
  have hfetched := h.fetchedAt
  cases lastModified <;> cases liveUntil <;>
    simp_all [entryJson, optionalField, Json.Valid, ValidFields]

theorem parse_entry {entry : StateEntry σ} (h : entry.WellFormed) (hkey : entry.key.Plain)
    (hvalue : entry.value.Plain) :
    (parseJson (render (entryJson written entry))).bind entryOf = some entry := by
  obtain ⟨-, hkeyback⟩ := ofJson_toJson written entry.key hkey h.key
  obtain ⟨-, hvalueback⟩ := ofJson_toJson written entry.value hvalue h.value
  rw [parseJson_render (entryJson_valid written h hkey hvalue), Option.bind_some, entryOf_entryJson,
    hkeyback, hvalueback]

theorem plain_entryOf {json : Json} {entry : StateEntry σ} (h : entryOf json = some entry) :
    entry.value.Plain ∧ entry.key.Plain := by
  unfold entryOf at h
  split at h
  · split at h
    · cases h
      exact ⟨plain_ofJson _, plain_ofJson _⟩
    · cases h
  · cases h

/-! ## Runs -/

/-- Every text is that of the network read that filled its entry. -/
def Filled (redis : Redis σ) : Prop :=
  ∀ p ∈ redis, p.2.text = render (entryJson written p.2.filledBy) ∧ p.2.filledBy.WellFormed

theorem fetch_wellFormed {c : Call σ} {fresh : StateEntry σ} (hc : c.WellFormed)
    (h : fetchFromNetwork c = some fresh) : fresh.WellFormed ∧ fresh.cached = false := by
  obtain ⟨entry, hentry, rfl⟩ := Option.map_eq_some_iff.mp h
  exact ⟨⟨hc.key, hc.value entry hentry, hc.lastModifiedLedger entry hentry, hc.liveUntilLedger entry hentry,
    validNumber_intText c.answered⟩, rfl⟩

variable {written} {view} {cacheTtlSecs}

theorem Filled.writeCache {redis : Redis σ} {c : Call σ} {fresh : StateEntry σ} (h : Filled written redis)
    (hfresh : fresh.WellFormed) : Filled written (writeCache written view cacheTtlSecs redis c fresh) := by
  unfold StateCache.writeCache
  split
  · exact h
  · intro p hp
    rcases mem_upsert hp with rfl | hp
    · exact ⟨rfl, hfresh⟩
    · exact h p hp

theorem filled_step (redis : Redis σ) (a : Act σ) (h : Filled written redis) (ha : a.WellFormed) :
    Filled written (step written view cacheTtlSecs redis a) := by
  cases a with
  | getState c =>
    rw [step, getState]
    split
    · exact h
    · split
      · exact h
      · rename_i fresh hfresh
        exact h.writeCache (fetch_wellFormed ha hfresh).1
  | answered c =>
    rw [step]
    split
    · exact h
    · rename_i fresh hfresh
      exact h.writeCache (fetch_wellFormed ha hfresh).1
  | deleted keys => exact fun p hp => h p (List.mem_of_mem_filter hp)

theorem filled_run {acts : List (Act σ)} (hacts : ∀ a ∈ acts, a.WellFormed) :
    Filled written (run (step written view cacheTtlSecs) [] acts) :=
  run_inv (fun redis a h ha => filled_step redis a h ha) (fun p hp => by cases hp)
    (along_of_forall hacts)

variable (view) in
/-- The call looks into Redis, and the entry it finds has not expired. -/
structure Live (redis : Redis σ) (c : Call σ) (stored : Stored σ) : Prop where
  found : stored? redis (c.entryKey view) = some stored
  unexpired : c.now < stored.expiresAt
  asked : c.forceRefresh = false
  answered : c.getFails = false

theorem readCache_live {redis : Redis σ} {c : Call σ} {stored : Stored σ} (h : Live view redis c stored) :
    readCache view redis c = (parseJson stored.text).bind entryOf := by
  simp [readCache, h.answered, h.found, h.unexpired]

theorem getState_live_iff {redis : Redis σ} {c : Call σ} {stored : Stored σ} (hfilled : Filled written redis)
    (h : Live view redis c stored) :
    (getState written view cacheTtlSecs redis c).1 = some { stored.filledBy with cached := true } ↔
      stored.filledBy.value.Plain ∧ stored.filledBy.key.Plain := by
  obtain ⟨p, hp, rfl⟩ := Option.map_eq_some_iff.mp h.found
  obtain ⟨htext, hform⟩ := hfilled p (mem_of_lookup hp)
  have hread := readCache_live h
  rw [getState, h.asked, if_neg Bool.false_ne_true, hread]
  constructor
  · intro hsame
    cases hjson : (parseJson p.2.text).bind (entryOf (σ := σ)) with
    | none =>
      rw [hjson] at hsame
      cases hfetch : fetchFromNetwork c with
      | none =>
        rw [hfetch] at hsame
        cases hsame
      | some fresh =>
        rw [hfetch] at hsame
        obtain ⟨entry, -, rfl⟩ := Option.map_eq_some_iff.mp hfetch
        exact absurd (congrArg StateEntry.cached (Option.some.inj hsame)) Bool.false_ne_true
    | some entry =>
      rw [hjson] at hsame
      obtain ⟨json, -, hentry⟩ := Option.bind_eq_some_iff.mp hjson
      have hvalue := congrArg StateEntry.value (Option.some.inj hsame)
      have hkey := congrArg StateEntry.key (Option.some.inj hsame)
      obtain ⟨hplainvalue, hplainkey⟩ := plain_entryOf hentry
      exact ⟨hvalue ▸ hplainvalue, hkey ▸ hplainkey⟩
  · rintro ⟨hvalue, hkey⟩
    rw [htext, parse_entry written hform hkey hvalue]

theorem getState_same_iff {acts : List (Act σ)} (hacts : ∀ a ∈ acts, a.WellFormed) {c : Call σ}
    {stored : Stored σ} (h : Live view (run (step written view cacheTtlSecs) [] acts) c stored) :
    (getState written view cacheTtlSecs (run (step written view cacheTtlSecs) [] acts) c).1 =
        some { stored.filledBy with cached := true } ↔
      stored.filledBy.value.Plain ∧ stored.filledBy.key.Plain :=
  getState_live_iff (filled_run hacts) h

end

/-! ## A map of a contract and a counter -/

/-- A read of one key, twice within the lifetime of the entry. -/
def balanceCall (value : Native Empty) : Call Empty where
  contractId := "C"
  key := .string "balance"
  durability := .persistent
  forceRefresh := false
  now := 0
  answered := 0
  network := some ⟨value, none, none⟩
  getFails := false
  setFails := false

def cachedBalance (value : Native Empty) : Stored Empty where
  text := render (entryJson Empty.elim ⟨"C", .string "balance", value, none, none, false, intText 0⟩)
  expiresAt := 30000
  filledBy := ⟨"C", .string "balance", value, none, none, false, intText 0⟩

theorem balance_live (value : Native Empty) :
    Live Empty.elim (run (step Empty.elim Empty.elim 30) [] [.getState (balanceCall value)])
      (balanceCall value) (cachedBalance value) where
  found := by
    have hrun : run (step Empty.elim Empty.elim 30) [] [.getState (balanceCall value)] =
        [((balanceCall value).entryKey Empty.elim, cachedBalance value)] := rfl
    simp [hrun, stored?, lookup]
  unexpired := by
    show (0 : Int) < 30000
    decide
  asked := rfl
  answered := rfl

theorem balance_wellFormed {value : Native Empty} (h : value.WellFormed) :
    ∀ a ∈ [Act.getState (balanceCall value)], a.WellFormed := by
  intro a ha
  obtain rfl := List.mem_singleton.mp ha
  refine ⟨trivial, ?_, ?_, ?_⟩
  · intro entry hentry
    obtain rfl := Option.some.inj hentry
    exact h
  · intro entry hentry text htext
    obtain rfl := Option.some.inj hentry
    cases htext
  · intro entry hentry text htext
    obtain rfl := Option.some.inj hentry
    cases htext

/-- An array of what a contract can hold besides numbers of 64 bits and more and bytes. -/
def plainValue : Native Empty :=
  .array [.object [("owner", .string "G"), ("frozen", .bool false)], .null, .number (intText 7)]

theorem plainValue_wellFormed : plainValue.WellFormed :=
  ⟨⟨rfl, trivial, trivial, trivial⟩, trivial, validNumber_intText 7, trivial⟩

theorem getState_same_plain :
    (getState Empty.elim Empty.elim 30
        (run (step Empty.elim Empty.elim 30) [] [.getState (balanceCall plainValue)])
        (balanceCall plainValue)).1 = some { (cachedBalance plainValue).filledBy with cached := true } ↔
      plainValue.Plain ∧ (Native.string "balance" : Native Empty).Plain :=
  getState_same_iff (balance_wellFormed plainValue_wellFormed) (balance_live plainValue)

/-- The network read returned the bigint, the read from the cache returns its digits. -/
theorem bigint_not_same :
    (getState Empty.elim Empty.elim 30
        (run (step Empty.elim Empty.elim 30) [] [.getState (balanceCall (.bigint 5))])
        (balanceCall (.bigint 5))).1 ≠
      (fetchFromNetwork (balanceCall (.bigint 5))).map fun fresh => { fresh with cached := true } :=
  have hform : (Native.bigint 5 : Native Empty).WellFormed := trivial
  fun h => ((getState_live_iff (filled_run (balance_wellFormed hform)) (balance_live (.bigint 5))).mp h).1

end StateCache
end Soroban
end TradeCore
