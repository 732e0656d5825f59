import Mathlib.Data.List.Basic
import TradeCore.Common
import TradeCore.Lib.HashChain
import TradeCore.Lib.JsonText
import TradeCore.Lib.Run

/-!
# TradeCore.Authorization.Audit

The hash-chained audit trail of authorisation decisions: `record` appends an entry, `verifyChain`
recomputes the chain.

An entry is hashed as one text, its fields joined by bars (`payload`). The chain is tamper evident in
that text (`verifyFrom_iff`), but the text does not tell the fields: free text may hold a
bar, and an absent subject reads as an empty one. `resplit_accepted` is a forged entry that
`verifyChain` accepts; `payloadFields_of_text` says that fields without bars cannot be forged so.

SHA-256 is a parameter, with `Sha256On` for what is asked of it on the texts of the chains compared.
The values of `metadata` and their `JSON.stringify` are a parameter as well.
-/

namespace TradeCore
namespace Authorization

open Lib

inductive AuditDecision where
  | allow
  | deny
  deriving DecidableEq, Repr

/-- The values of `metadata`, with `{}` and `JSON.stringify`. -/
structure MetadataJson (M : Type) where
  empty : M
  stringify : M → String

structure RecordAuditInput (M : Type) where
  actorId : String
  action : String
  subjectId : Option String
  decision : AuditDecision
  reason : String
  metadata : Option M
  deriving DecidableEq, Repr

structure AuthorizationAuditEntry (M : Type) where
  id : Uuid
  sequence : Nat
  timestamp : Time
  actorId : String
  action : String
  subjectId : Option String
  decision : AuditDecision
  reason : String
  metadata : M
  previousHash : String
  hash : String
  deriving DecidableEq, Repr

/-! ## The text of an entry -/

/-- A number with at least `width` digits. -/
def padded (width n : Nat) : String := String.ofList (List.leftpad width '0' (Nat.toDigits 10 n))

/-- Year, month and day of the proleptic Gregorian calendar, counted from 1970-01-01. Years start in
March here, so that the leap day is the last one. -/
def civilOfDays (days : Int) : Int × Nat × Nat :=
  let z := days + 719468
  let era := z / 146097
  let doe := (z % 146097).toNat
  let yoe := (doe - doe / 1460 + doe / 36524 - doe / 146096) / 365
  let doy := doe - (365 * yoe + yoe / 4 - yoe / 100)
  let mp := (5 * doy + 2) / 153
  let month := if mp < 10 then mp + 3 else mp - 9
  let year := yoe + era * 400 + if month ≤ 2 then 1 else 0
  (year, month, doy - (153 * mp + 2) / 5 + 1)

def yearText (year : Int) : String :=
  if 0 ≤ year ∧ year ≤ 9999 then padded 4 year.toNat
  else (if year < 0 then "-" else "+") ++ padded 6 year.natAbs

def toISOString (date : Time) : String :=
  let (year, month, day) := civilOfDays (date / 86400000)
  let ms := (date % 86400000).toNat
  yearText year ++ "-" ++ padded 2 month ++ "-" ++ padded 2 day ++ "T" ++ padded 2 (ms / 3600000) ++
    ":" ++ padded 2 (ms / 60000 % 60) ++ ":" ++ padded 2 (ms / 1000 % 60) ++ "." ++
    padded 3 (ms % 1000) ++ "Z"

example : toISOString 0 = "1970-01-01T00:00:00.000Z" ∧
    toISOString 1709164800999 = "2024-02-29T00:00:00.999Z" ∧
    toISOString (-1) = "1969-12-31T23:59:59.999Z" := by
  decide +kernel

def AuditDecision.text : AuditDecision → String
  | .allow => "allow"
  | .deny => "deny"

/-- `fields.join('|')`. -/
def joinBar : List String → String
  | [] => ""
  | [f] => f
  | f :: fs => f ++ "|" ++ joinBar fs

def genesisHash : String := String.ofList (List.replicate 64 '0')

section Chain

variable {M : Type} (sha256 : String → String) (json : MetadataJson M)

def payloadFields (previousHash : String) (sequence : Nat) (input : RecordAuditInput M)
    (timestamp : Time) : List String :=
  [previousHash, toString sequence, input.actorId, input.action, input.subjectId.getD "",
    input.decision.text, input.reason, toISOString timestamp,
    json.stringify (input.metadata.getD json.empty)]

def payload (previousHash : String) (sequence : Nat) (input : RecordAuditInput M) (timestamp : Time) :
    String :=
  joinBar (payloadFields json previousHash sequence input timestamp)

def computeHash (previousHash : String) (sequence : Nat) (input : RecordAuditInput M)
    (timestamp : Time) : String :=
  sha256 (payload json previousHash sequence input timestamp)

/-! ## Recording and verifying -/

structure RecordCall (M : Type) where
  id : Uuid
  timestamp : Time
  input : RecordAuditInput M

def record (entries : List (AuthorizationAuditEntry M)) (call : RecordCall M) :
    List (AuthorizationAuditEntry M) :=
  let previousHash := ((entries.getLast?).map AuthorizationAuditEntry.hash).getD genesisHash
  let sequence := entries.length + 1
  let hash := computeHash sha256 json previousHash sequence call.input call.timestamp
  entries ++
    [{ id := call.id
       sequence := sequence
       timestamp := call.timestamp
       actorId := call.input.actorId
       action := call.input.action
       subjectId := call.input.subjectId
       decision := call.input.decision
       reason := call.input.reason
       metadata := call.input.metadata.getD json.empty
       previousHash := previousHash
       hash := hash }]

/-- The chain after the calls. -/
def recorded (calls : List (RecordCall M)) : List (AuthorizationAuditEntry M) :=
  run (record sha256 json) [] calls

/-- The input an entry is hashed with again. -/
def AuthorizationAuditEntry.input (entry : AuthorizationAuditEntry M) : RecordAuditInput M where
  actorId := entry.actorId
  action := entry.action
  subjectId := entry.subjectId
  decision := entry.decision
  reason := entry.reason
  metadata := some entry.metadata

def verifyFrom (previousHash : String) : List (AuthorizationAuditEntry M) → Bool
  | [] => true
  | entry :: entries =>
    if entry.previousHash ≠ previousHash then false
    else
      let expected :=
        computeHash sha256 json entry.previousHash entry.sequence entry.input entry.timestamp
      if expected ≠ entry.hash then false else verifyFrom entry.hash entries

def verifyChain (entries : List (AuthorizationAuditEntry M)) : Bool :=
  verifyFrom sha256 json genesisHash entries

/-- The fields of an entry that its hash is meant to cover: all but the id and the hash itself. -/
def AuthorizationAuditEntry.covered (entry : AuthorizationAuditEntry M) : AuthorizationAuditEntry M :=
  { entry with id := 0, hash := "" }

def AuthorizationAuditEntry.text (entry : AuthorizationAuditEntry M) : String :=
  payload json entry.previousHash entry.sequence entry.input entry.timestamp

def lastHash (entries : List (AuthorizationAuditEntry M)) : String :=
  headHash AuthorizationAuditEntry.hash genesisHash entries

variable {sha256 json}

theorem verifyFrom_iff {g : String} {entries : List (AuthorizationAuditEntry M)} :
    verifyFrom sha256 json g entries = true ↔
      Linked sha256 (AuthorizationAuditEntry.text json) AuthorizationAuditEntry.previousHash
        AuthorizationAuditEntry.hash g entries := by
  induction entries generalizing g with
  | nil => simp [verifyFrom, Linked]
  | cons entry entries ih =>
    rw [verifyFrom, Linked]
    split
    · rename_i hprev
      simp [hprev]
    · rename_i hprev
      rw [not_ne_iff] at hprev
      dsimp only
      split
      · rename_i hhash
        have : entry.hash ≠ sha256 (entry.text json) := Ne.symm hhash
        simp [this]
      · rename_i hhash
        rw [not_ne_iff] at hhash
        have : entry.hash = sha256 (entry.text json) := hhash.symm
        rw [ih]
        exact ⟨fun h => ⟨hprev, this, h⟩, fun h => h.2.2⟩

theorem record_eq (entries : List (AuthorizationAuditEntry M)) (call : RecordCall M) :
    ∃ entry, record sha256 json entries call = entries ++ [entry] ∧
      entry.previousHash = lastHash entries ∧ entry.hash = sha256 (entry.text json) := by
  refine ⟨_, rfl, ?_, rfl⟩
  cases entries using List.reverseRecOn with
  | nil => rfl
  | append_singleton entries e => simp [lastHash, headHash_append]

theorem linked_recorded (calls : List (RecordCall M)) :
    Linked sha256 (AuthorizationAuditEntry.text json) AuthorizationAuditEntry.previousHash
      AuthorizationAuditEntry.hash genesisHash (recorded sha256 json calls) := by
  refine run_inv (G := fun _ _ => True) (fun entries call h _ => ?_) trivial
    along_true
  obtain ⟨entry, he, hprev, hhash⟩ : ∃ entry, record sha256 json entries call = entries ++ [entry] ∧
      entry.previousHash = lastHash entries ∧ entry.hash = sha256 (entry.text json) :=
    record_eq entries call
  rw [he]
  exact linked_append.mpr ⟨h, hprev, hhash⟩

/-! ## What a text tells -/

theorem joinBar_cons_toList (f g : String) (fs : List String) :
    (joinBar (f :: g :: fs)).toList = f.toList ++ '|' :: (joinBar (g :: fs)).toList := by
  simp [joinBar, String.toList_append]

theorem joinBar_cons_inj {f g f' g' : String} {fs fs' : List String} (hf : '|' ∉ f.toList)
    (hf' : '|' ∉ f'.toList) (h : joinBar (f :: g :: fs) = joinBar (f' :: g' :: fs')) :
    f = f' ∧ joinBar (g :: fs) = joinBar (g' :: fs') := by
  have h := congrArg String.toList h
  rw [joinBar_cons_toList, joinBar_cons_toList] at h
  obtain ⟨hfirst, hrest⟩ := delimited_inj hf hf' h
  exact ⟨String.toList_inj.mp hfirst, String.toList_inj.mp hrest⟩

theorem joinBar_inj {fs fs' : List String} (hlen : fs.length = fs'.length)
    (hfs : ∀ f ∈ fs.dropLast, '|' ∉ f.toList) (hfs' : ∀ f ∈ fs'.dropLast, '|' ∉ f.toList)
    (h : joinBar fs = joinBar fs') : fs = fs' := by
  induction fs generalizing fs' with
  | nil => exact (List.length_eq_zero_iff.mp hlen.symm).symm
  | cons f fs ih =>
    cases fs' with
    | nil => cases hlen
    | cons f' fs' =>
      cases fs with
      | nil =>
        have : fs' = [] := List.length_eq_zero_iff.mp (Nat.succ.inj hlen).symm
        subst this
        rw [show f = f' from h]
      | cons g fs =>
        cases fs' with
        | nil => cases hlen
        | cons g' fs' =>
          rw [List.dropLast_cons_cons] at hfs hfs'
          obtain ⟨hfirst, hrest⟩ :=
            joinBar_cons_inj (hfs f List.mem_cons_self) (hfs' f' List.mem_cons_self) h
          rw [hfirst, ih (Nat.succ.inj hlen) (fun x hx => hfs x (List.mem_cons_of_mem f hx))
            (fun x hx => hfs' x (List.mem_cons_of_mem f' hx)) hrest]

theorem previousHash_of_text {b c : AuthorizationAuditEntry M} (hb : '|' ∉ b.previousHash.toList)
    (hc : '|' ∉ c.previousHash.toList) (h : b.text json = c.text json) :
    b.previousHash = c.previousHash :=
  (joinBar_cons_inj hb hc h).1

def AuthorizationAuditEntry.fields (json : MetadataJson M) (entry : AuthorizationAuditEntry M) :
    List String :=
  payloadFields json entry.previousHash entry.sequence entry.input entry.timestamp

/-- Where no field but the metadata holds a bar, the text tells every field. -/
theorem payloadFields_of_text {b c : AuthorizationAuditEntry M}
    (hb : ∀ f ∈ (b.fields json).dropLast, '|' ∉ f.toList)
    (hc : ∀ f ∈ (c.fields json).dropLast, '|' ∉ f.toList) (h : b.text json = c.text json) :
    b.fields json = c.fields json := by
  refine joinBar_inj ?_ hb hc h
  simp only [AuthorizationAuditEntry.fields, payloadFields, List.length_cons]

/-! ## Tampering -/

/-- What is asked of SHA-256: digests are hexadecimal, and on the texts at hand there is no collision
and no text with the digest the chain starts from. -/
structure Sha256On (sha256 : String → String) (texts : List String) : Prop where
  hex : ∀ t, '|' ∉ (sha256 t).toList
  injective : ∀ s ∈ texts, ∀ t ∈ texts, sha256 s = sha256 t → s = t
  genesis : ∀ t ∈ texts, sha256 t ≠ genesisHash

/-- Two chains read the same where it matters to `verifyChain`. -/
structure SameTexts (json : MetadataJson M) (entries entries' : List (AuthorizationAuditEntry M)) :
    Prop where
  texts : entries.map (AuthorizationAuditEntry.text json) =
    entries'.map (AuthorizationAuditEntry.text json)
  previousHashes : entries.map AuthorizationAuditEntry.previousHash =
    entries'.map AuthorizationAuditEntry.previousHash
  hashes : entries.map AuthorizationAuditEntry.hash = entries'.map AuthorizationAuditEntry.hash

theorem bar_not_mem_genesisHash : '|' ∉ genesisHash.toList := by
  have htext : genesisHash.toList = List.replicate 64 '0' := String.toList_ofList
  rw [htext]
  simp

theorem bar_not_mem_previousHash (hex : ∀ t, '|' ∉ (sha256 t).toList)
    {entries : List (AuthorizationAuditEntry M)}
    (h : Linked sha256 (AuthorizationAuditEntry.text json) AuthorizationAuditEntry.previousHash
      AuthorizationAuditEntry.hash genesisHash entries)
    {entry : AuthorizationAuditEntry M} (hin : entry ∈ entries) :
    '|' ∉ entry.previousHash.toList := by
  rcases h.prev_eq hin with he | ⟨c, -, he⟩
  · rw [he]
    exact bar_not_mem_genesisHash
  · rw [he]
    exact hex _

/-- A recorded chain verifies. One that was altered and keeps the last hash is rejected exactly when
it does not read the same as the recorded one. -/
theorem verifyChain_rejects_iff (calls : List (RecordCall M)) :
    verifyChain sha256 json (recorded sha256 json calls) = true ∧
    ∀ entries : List (AuthorizationAuditEntry M),
      Sha256On sha256 ((recorded sha256 json calls ++ entries).map
        (AuthorizationAuditEntry.text json)) →
      lastHash entries = lastHash (recorded sha256 json calls) →
      entries.map AuthorizationAuditEntry.covered ≠
        (recorded sha256 json calls).map AuthorizationAuditEntry.covered →
      (verifyChain sha256 json entries = false ↔
        ¬ SameTexts json entries (recorded sha256 json calls)) := by
  have hrec : Linked sha256 (AuthorizationAuditEntry.text json) AuthorizationAuditEntry.previousHash
      AuthorizationAuditEntry.hash genesisHash (recorded sha256 json calls) := linked_recorded calls
  refine ⟨verifyFrom_iff.mpr hrec, fun entries hsha hlast _ => ?_⟩
  rw [← Bool.not_eq_true, not_iff_not, verifyChain, verifyFrom_iff]
  constructor
  · intro h
    have hmem : ∀ e ∈ entries, e.text json ∈
        (recorded sha256 json calls ++ entries).map (AuthorizationAuditEntry.text json) :=
      fun e he => List.mem_map_of_mem (List.mem_append_right _ he)
    have hmem' : ∀ e ∈ recorded sha256 json calls, e.text json ∈
        (recorded sha256 json calls ++ entries).map (AuthorizationAuditEntry.text json) :=
      fun e he => List.mem_map_of_mem (List.mem_append_left _ he)
    obtain ⟨htexts, hprevs, hhashes⟩ := h.same hrec hlast
      (fun b hb c hc => hsha.injective _ (hmem b hb) _ (hmem' c hc))
      (fun b hb => hsha.genesis _ (hb.elim (hmem b) (hmem' b)))
      (fun b hb c hc => previousHash_of_text (bar_not_mem_previousHash hsha.hex h hb)
        (bar_not_mem_previousHash hsha.hex hrec hc))
    exact ⟨htexts, hprevs, hhashes⟩
  · intro h
    exact hrec.congr h.texts.symm h.previousHashes.symm h.hashes.symm

end Chain

/-! ## A forged entry -/

/-- Metadata is always `\x7b\x7d` here. -/
def noMetadata : MetadataJson Unit := ⟨(), fun _ => "\x7b\x7d"⟩

def auditCall (actorId action subjectId : String) : RecordCall Unit where
  id := 0
  timestamp := 1704196800000
  input := ⟨actorId, action, some subjectId, .allow, "No policy restrictions applied", none⟩

/-- SHA-256 on the texts below, and the digest of the empty text elsewhere. -/
def sampleSha256 (text : String) : String :=
  if text = joinBar [genesisHash, "1|a|b|c|s|allow|No policy restrictions applied",
      "2024-01-02T12:00:00.000Z", "\x7b\x7d"] then
    "a0d1fa4bcc7076c582469c7e8a0595d2a66b6b1fb3f301cb9e7b71d5ed6dae78"
  else if text = joinBar [genesisHash,
      "1|alice|trade:create|alice|allow|No policy restrictions applied",
      "2024-01-02T12:00:00.000Z", "\x7b\x7d"] then
    "e0bb11bd03f72e22871a9b563ca38631c1437144e6d0a5964ac75d227ea11a45"
  else if text = joinBar [genesisHash, "1|alice|trade:create|alice|allow|tampered",
      "2024-01-02T12:00:00.000Z", "\x7b\x7d"] then
    "7207e0ff0adcc3c740b00e851c61f87d1ca6c65fcba4f83504988ff3d7f167ce"
  else "e3b0c44298fc1c149afbf4c8996fb92427ae41e4649b934ca495991b7852b855"

theorem bar_not_mem_sampleSha256 (t : String) : '|' ∉ (sampleSha256 t).toList := by
  rw [sampleSha256]
  split
  · decide +kernel
  · split
    · decide +kernel
    · split <;> decide +kernel

def recordedEntries (actorId action subjectId : String) : List (AuthorizationAuditEntry Unit) :=
  recorded sampleSha256 noMetadata [auditCall actorId action subjectId]

/-- The entry of actor `a|b` and action `c` with the bar moved. -/
def resplitEntries : List (AuthorizationAuditEntry Unit) :=
  (recordedEntries "a|b" "c" "s").map fun e => { e with actorId := "a", action := "b|c" }

/-- The forged chain differs from the recorded one, keeps its last hash and verifies. -/
theorem resplit_accepted :
    Sha256On sampleSha256 ((recordedEntries "a|b" "c" "s" ++ resplitEntries).map
      (AuthorizationAuditEntry.text noMetadata)) ∧
    lastHash resplitEntries = lastHash (recordedEntries "a|b" "c" "s") ∧
    resplitEntries.map AuthorizationAuditEntry.covered ≠
      (recordedEntries "a|b" "c" "s").map AuthorizationAuditEntry.covered ∧
    verifyChain sampleSha256 noMetadata resplitEntries = true := by
  refine ⟨⟨bar_not_mem_sampleSha256, ?_, ?_⟩, ?_, ?_, ?_⟩
  · decide +kernel
  · decide +kernel
  · decide +kernel
  · decide +kernel
  · decide +kernel

def tamperedEntries : List (AuthorizationAuditEntry Unit) :=
  (recordedEntries "alice" "trade:create" "alice").map fun e => { e with reason := "tampered" }

theorem tampered_reason_rejected :
    verifyChain sampleSha256 noMetadata tamperedEntries = false := by
  refine ((verifyChain_rejects_iff [auditCall "alice" "trade:create" "alice"]).2 tamperedEntries
    ⟨bar_not_mem_sampleSha256, ?_, ?_⟩ ?_ ?_).mpr fun h => ?_
  · decide +kernel
  · decide +kernel
  · decide +kernel
  · decide +kernel
  · exact absurd h.texts (by decide +kernel)

end Authorization
end TradeCore
