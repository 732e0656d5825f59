import TradeCore.Common
import TradeCore.Lib.Run
import TradeCore.Lib.Table

/-!
# TradeCore.Compliance.Kyc

The verification record of a user, the documents, and their review. After every review the level is set
from the verified documents when the required ones are among them, and is left as it is otherwise: verifying
a document can take a higher level away, and a level outlives the documents it was granted for.
`review_run_iff` says in which sequences of reviews neither happens.

`granted` is no field of the source: it tells the users whose level was set by a review.
-/

namespace TradeCore
namespace Compliance

open Lib

inductive KycLevel where
  | unverified
  | standard
  | enhanced
  | institutional
  deriving DecidableEq, Repr

def KycLevel.rank : KycLevel → Nat
  | .unverified => 0
  | .standard => 1
  | .enhanced => 2
  | .institutional => 3

inductive AmlRiskLevel where
  | low
  | medium
  | high
  | critical
  deriving DecidableEq, Repr

inductive KycDocumentType where
  | idVerification
  | addressProof
  | beneficialOwnership
  deriving DecidableEq, Repr

def KycDocumentType.text : KycDocumentType → String
  | .idVerification => "id_verification"
  | .addressProof => "address_proof"
  | .beneficialOwnership => "beneficial_ownership"

inductive KycDocumentStatus where
  | pending
  | verified
  | rejected
  deriving DecidableEq, Repr

def KycDocumentStatus.text : KycDocumentStatus → String
  | .pending => "pending"
  | .verified => "verified"
  | .rejected => "rejected"

/-- One row a user, by the unique index. -/
structure KycVerification where
  userId : Uuid
  level : KycLevel
  riskLevel : AmlRiskLevel
  riskScore : Int
  region : Option String
  deriving DecidableEq, Repr

structure KycDocument where
  id : Uuid
  userId : Uuid
  documentType : KycDocumentType
  status : KycDocumentStatus
  fileName : String
  reviewedBy : Option Uuid
  reviewedAt : Option Time
  rejectionReason : Option String
  deriving DecidableEq, Repr

structure DocumentAudit where
  performedBy : Uuid
  performedByRole : String
  targetUserId : Uuid
  action : String
  description : String
  entityId : Uuid
  previousStatus : KycDocumentStatus
  newStatus : KycDocumentStatus
  deriving DecidableEq, Repr

/-- `compliance.kyc.level_updated`. -/
structure LevelUpdated where
  userId : Uuid
  previousLevel : KycLevel
  newLevel : KycLevel
  reason : String
  deriving DecidableEq, Repr

structure KycDb where
  verifications : List KycVerification
  documents : List KycDocument
  audits : List DocumentAudit
  events : List LevelUpdated
  deriving DecidableEq, Repr

def levelOf (db : KycDb) (userId : Uuid) : Option KycLevel :=
  (lookup KycVerification.userId userId db.verifications).map KycVerification.level

def getDocument (db : KycDb) (documentId requesterId : Uuid) (isPrivileged : Bool) :
    Except HttpError KycDocument :=
  match lookup KycDocument.id documentId db.documents with
  | none => .error (.notFound ("Document " ++ toString documentId ++ " not found"))
  | some doc =>
    if ¬ isPrivileged ∧ doc.userId ≠ requesterId then
      .error (.notFound ("Document " ++ toString documentId ++ " not found"))
    else .ok doc

def isPrivilegedRole (role : String) : Bool := role = "admin" ∨ role = "analyst"

def requiredTypes : List KycDocumentType := [.idVerification, .addressProof]

def verifiedTypes (documents : List KycDocument) (userId : Uuid) : List KycDocumentType :=
  (documents.filter fun d => d.userId = userId ∧ d.status = .verified).map KycDocument.documentType

/-- `newLevel`. -/
def completedLevel (verifiedTypes : List KycDocumentType) (level : KycLevel) : KycLevel :=
  let allRequiredVerified := ∀ t ∈ requiredTypes, t ∈ verifiedTypes
  let hasBeneficialOwnership := .beneficialOwnership ∈ verifiedTypes
  if allRequiredVerified ∧ hasBeneficialOwnership then .enhanced
  else if allRequiredVerified then .standard
  else level

def checkDocumentCompletion (db : KycDb) (userId : Uuid) : KycDb :=
  match lookup KycVerification.userId userId db.verifications with
  | none => db
  | some verification =>
    let newLevel := completedLevel (verifiedTypes db.documents userId) verification.level
    if newLevel ≠ verification.level then
      -- the event reads the level after it has been assigned
      { db with
        verifications := upsert KycVerification.userId { verification with level := newLevel } db.verifications
        events := db.events ++ [⟨userId, newLevel, newLevel, "document_verification_complete"⟩] }
    else db

structure ReviewCall where
  documentId : Uuid
  status : KycDocumentStatus
  reviewerId : Uuid
  reviewerRole : String
  rejectionReason : Option String
  now : Time
  deriving DecidableEq, Repr

def reviewed (document : KycDocument) (call : ReviewCall) : KycDocument :=
  { document with
    status := call.status
    reviewedBy := some call.reviewerId
    reviewedAt := some call.now
    rejectionReason :=
      if call.status = .rejected ∧ call.rejectionReason.getD "" ≠ "" then call.rejectionReason
      else document.rejectionReason }

def reviewDocument (db : KycDb) (call : ReviewCall) : Except HttpError (KycDocument × KycDb) :=
  match getDocument db call.documentId call.reviewerId (isPrivilegedRole call.reviewerRole) with
  | .error e => .error e
  | .ok document =>
    let saved := reviewed document call
    let db' := checkDocumentCompletion { db with documents := upsert KycDocument.id saved db.documents }
      document.userId
    .ok (saved, { db' with
      audits := db'.audits ++ [{
        performedBy := call.reviewerId
        performedByRole := call.reviewerRole
        targetUserId := document.userId
        action := "kyc.document_" ++ call.status.text
        description := "Document " ++ call.status.text ++ ": " ++ document.fileName ++ " (" ++
          document.documentType.text ++ ")"
        entityId := call.documentId
        previousStatus := document.status
        newStatus := call.status }] })

/-! ## One review -/

theorem mem_verifiedTypes {documents : List KycDocument} {userId : Uuid} {t : KycDocumentType} :
    t ∈ verifiedTypes documents userId ↔
      ∃ d ∈ documents, d.userId = userId ∧ d.status = .verified ∧ d.documentType = t := by
  simp only [verifiedTypes, List.mem_map, List.mem_filter, decide_eq_true_eq]
  exact ⟨fun ⟨d, ⟨hmem, huser, hstatus⟩, ht⟩ => ⟨d, hmem, huser, hstatus, ht⟩,
    fun ⟨d, hmem, huser, hstatus, ht⟩ => ⟨d, ⟨hmem, huser, hstatus⟩, ht⟩⟩

theorem getDocument_ok {db : KycDb} {documentId requesterId : Uuid} {isPrivileged : Bool}
    {document : KycDocument} (h : getDocument db documentId requesterId isPrivileged = .ok document) :
    lookup KycDocument.id documentId db.documents = some document := by
  unfold getDocument at h
  split at h
  next => cases h
  next doc hlookup =>
    split at h
    next => cases h
    next =>
      cases h
      exact hlookup

theorem checkDocumentCompletion_documents (db : KycDb) (userId : Uuid) :
    (checkDocumentCompletion db userId).documents = db.documents := by
  unfold checkDocumentCompletion
  split
  · rfl
  · dsimp only
    split <;> rfl

theorem levelOf_checkDocumentCompletion (db : KycDb) (userId u : Uuid) :
    levelOf (checkDocumentCompletion db userId) u =
      if u = userId then (levelOf db u).map (completedLevel (verifiedTypes db.documents userId))
      else levelOf db u := by
  unfold checkDocumentCompletion levelOf
  split
  next hnone =>
    split
    next h => rw [h, hnone]; rfl
    next => rfl
  next verification hsome =>
    dsimp only
    have hkey : verification.userId = userId := lookup_key hsome
    by_cases hu : u = userId
    · rw [if_pos hu, hu, hsome]
      split
      next => rw [lookup_upsert, if_pos hkey]; rfl
      next hsame => rw [hsome]; simpa using (not_not.mp hsame).symm
    · rw [if_neg hu]
      split
      next => rw [lookup_upsert, if_neg (fun h => hu (h.symm.trans hkey))]
      next => rfl

/-- The documents with the reviewed one written back. -/
def documentsAfter (db : KycDb) (document : KycDocument) (call : ReviewCall) : List KycDocument :=
  upsert KycDocument.id (reviewed document call) db.documents

theorem reviewDocument_ok {db db' : KycDb} {call : ReviewCall} {saved : KycDocument}
    (h : reviewDocument db call = .ok (saved, db')) :
    ∃ document, getDocument db call.documentId call.reviewerId (isPrivilegedRole call.reviewerRole) =
        .ok document ∧
      db'.documents = documentsAfter db document call ∧
      ∀ u, levelOf db' u =
        if u = document.userId then
          (levelOf db u).map (completedLevel (verifiedTypes (documentsAfter db document call) u))
        else levelOf db u := by
  unfold reviewDocument at h
  split at h
  next => cases h
  next document hdoc =>
    cases h
    refine ⟨document, hdoc, checkDocumentCompletion_documents _ _, fun u => ?_⟩
    have hlevel := levelOf_checkDocumentCompletion
      { db with documents := documentsAfter db document call } document.userId u
    by_cases hu : u = document.userId
    · rw [if_pos hu] at hlevel ⊢
      rw [hu] at hlevel ⊢
      exact hlevel
    · rw [if_neg hu] at hlevel ⊢
      exact hlevel

/-! ## Sequences of reviews -/

structure Reviews where
  db : KycDb
  granted : Uuid → Bool

def start (db : KycDb) : Reviews := ⟨db, fun _ => false⟩

def step (s : Reviews) (call : ReviewCall) : Reviews :=
  match reviewDocument s.db call with
  | .error _ => s
  | .ok (_, db') => ⟨db', fun u => s.granted u || decide (levelOf db' u ≠ levelOf s.db u)⟩

def requiredFor : KycLevel → List KycDocumentType
  | .standard => [.idVerification, .addressProof]
  | .enhanced => [.idVerification, .addressProof, .beneficialOwnership]
  | .unverified | .institutional => []

/-- A level that a review has granted has its documents. -/
def Held (s : Reviews) : Prop :=
  ∀ u level, s.granted u = true → levelOf s.db u = some level →
    ∀ t ∈ requiredFor level, t ∈ verifiedTypes s.db.documents u

def NotLowered (s : Reviews) (call : ReviewCall) : Prop :=
  call.status = .verified → ∀ u level level', levelOf s.db u = some level →
    levelOf (step s call).db u = some level' → level.rank ≤ level'.rank

/-- What a review must not meet with: a level above the one the documents are good for, or the last
document of a granted level. -/
def KeepsLevel (s : Reviews) (call : ReviewCall) : Prop :=
  ∀ document, getDocument s.db call.documentId call.reviewerId (isPrivilegedRole call.reviewerRole) =
      .ok document → ∀ level, levelOf s.db document.userId = some level →
    let verified := verifiedTypes (documentsAfter s.db document call) document.userId
    if call.status = .verified then
      (∀ t ∈ requiredTypes, t ∈ verified) →
        level ≠ .institutional ∧ (level = .enhanced → .beneficialOwnership ∈ verified)
    else
      s.granted document.userId = true → level = .standard ∨ level = .enhanced →
        ∀ t ∈ requiredTypes, t ∈ verified

theorem step_cases (s : Reviews) (call : ReviewCall) :
    (step s call = s ∧
      ∀ document, getDocument s.db call.documentId call.reviewerId (isPrivilegedRole call.reviewerRole) ≠
        .ok document) ∨
    ∃ document, getDocument s.db call.documentId call.reviewerId (isPrivilegedRole call.reviewerRole) =
        .ok document ∧
      (step s call).db.documents = documentsAfter s.db document call ∧
      (∀ u, (step s call).granted u =
        (s.granted u || decide (levelOf (step s call).db u ≠ levelOf s.db u))) ∧
      ∀ u, levelOf (step s call).db u =
        if u = document.userId then
          (levelOf s.db u).map (completedLevel (verifiedTypes (documentsAfter s.db document call) u))
        else levelOf s.db u := by
  unfold step
  split
  next e herror =>
    refine .inl ⟨rfl, fun document hdoc => ?_⟩
    rw [reviewDocument, hdoc] at herror
    cases herror
  next saved db' hok =>
    obtain ⟨document, hdoc, hdocuments, hlevel⟩ := reviewDocument_ok hok
    exact .inr ⟨document, hdoc, hdocuments, fun u => rfl, hlevel⟩

section Review

variable {db : KycDb} {call : ReviewCall} {document : KycDocument}
  (hdoc : getDocument db call.documentId call.reviewerId (isPrivilegedRole call.reviewerRole) = .ok document)
include hdoc

theorem mem_documentsAfter {d : KycDocument} (hd : d ∈ db.documents) :
    d = document ∨ d ∈ documentsAfter db document call := by
  have hlookup := getDocument_ok hdoc
  have hid : document.id = call.documentId := lookup_key hlookup
  exact mem_upsert_of_lookup (hid.symm ▸ hlookup) hd

theorem verifiedTypes_of_other {u : Uuid} (hu : u ≠ document.userId) {t : KycDocumentType}
    (ht : t ∈ verifiedTypes db.documents u) : t ∈ verifiedTypes (documentsAfter db document call) u := by
  obtain ⟨d, hd, huser, hstatus, htype⟩ := mem_verifiedTypes.mp ht
  rcases mem_documentsAfter hdoc hd with rfl | hafter
  · exact absurd huser.symm hu
  · exact mem_verifiedTypes.mpr ⟨d, hafter, huser, hstatus, htype⟩

theorem verifiedTypes_of_verified (hverified : call.status = .verified) {u : Uuid} {t : KycDocumentType}
    (ht : t ∈ verifiedTypes db.documents u) : t ∈ verifiedTypes (documentsAfter db document call) u := by
  obtain ⟨d, hd, huser, hstatus, htype⟩ := mem_verifiedTypes.mp ht
  rcases mem_documentsAfter hdoc hd with rfl | hafter
  · exact mem_verifiedTypes.mpr ⟨reviewed d call, mem_upsert_self _ _, huser, hverified, htype⟩
  · exact mem_verifiedTypes.mpr ⟨d, hafter, huser, hstatus, htype⟩

end Review

theorem completedLevel_of_not {verified : List KycDocumentType} (h : ¬ ∀ t ∈ requiredTypes, t ∈ verified)
    (level : KycLevel) : completedLevel verified level = level := by
  simp only [completedLevel, h, false_and, if_false]

theorem completedLevel_of_all {verified : List KycDocumentType} (h : ∀ t ∈ requiredTypes, t ∈ verified)
    (level : KycLevel) :
    completedLevel verified level =
      if .beneficialOwnership ∈ verified then .enhanced else .standard := by
  have hall : (∀ t ∈ requiredTypes, t ∈ verified) = True := eq_true h
  simp only [completedLevel, hall, true_and, if_true]

theorem requiredFor_completed {verified : List KycDocumentType} (h : ∀ t ∈ requiredTypes, t ∈ verified)
    (level : KycLevel) : ∀ t ∈ requiredFor (completedLevel verified level), t ∈ verified := by
  rw [completedLevel_of_all h]
  intro t ht
  split at ht
  next howner =>
    rcases List.mem_cons.mp ht with rfl | ht
    · exact h _ (by decide)
    · rcases List.mem_cons.mp ht with rfl | ht
      · exact h _ (by decide)
      · rwa [List.mem_singleton.mp ht]
  next => exact h t ht

theorem requiredTypes_sub {level : KycLevel} (h : level = .standard ∨ level = .enhanced) :
    ∀ t ∈ requiredTypes, t ∈ requiredFor level := by
  rcases h with rfl | rfl <;> decide

theorem rank_completed_iff {verified : List KycDocumentType} (h : ∀ t ∈ requiredTypes, t ∈ verified)
    (level : KycLevel) :
    level.rank ≤ (completedLevel verified level).rank ↔
      level ≠ .institutional ∧ (level = .enhanced → .beneficialOwnership ∈ verified) := by
  rw [completedLevel_of_all h]
  by_cases howner : .beneficialOwnership ∈ verified <;> cases level <;> simp [howner, KycLevel.rank]

theorem step_not_lowered {s : Reviews} {call : ReviewCall} (hkeeps : KeepsLevel s call) :
    NotLowered s call := by
  intro hverified u level level' hbefore hafter
  rcases step_cases s call with ⟨hstep, -⟩ | ⟨document, hdoc, -, -, hlevel⟩
  · rw [hstep, hbefore] at hafter
    exact (Option.some.inj hafter) ▸ Nat.le_refl _
  · rw [hlevel] at hafter
    by_cases hu : u = document.userId
    · rw [if_pos hu, hbefore, Option.map_some, Option.some.injEq] at hafter
      rw [← hafter]
      by_cases hall : ∀ t ∈ requiredTypes, t ∈ verifiedTypes (documentsAfter s.db document call) u
      · have hcond := hkeeps document hdoc level (hu ▸ hbefore)
        rw [← hu, if_pos hverified] at hcond
        exact (rank_completed_iff hall level).mpr (hcond hall)
      · simp only [completedLevel_of_not hall, Nat.le_refl]
    · rw [if_neg hu, hbefore] at hafter
      exact (Option.some.inj hafter) ▸ Nat.le_refl _

/-- A level that the review leaves alone keeps its origin, and its documents unless a rejection takes one. -/
theorem step_held {s : Reviews} {call : ReviewCall} (hheld : Held s) (hkeeps : KeepsLevel s call) :
    Held (step s call) := by
  rcases step_cases s call with ⟨hstep, -⟩ | ⟨document, hdoc, hdocuments, hgranted, hlevel⟩
  · exact hstep.symm ▸ hheld
  intro u level' hgrant hafter t ht
  rw [hdocuments]
  rw [hlevel] at hafter
  by_cases hu : u = document.userId
  · rw [if_pos hu] at hafter
    obtain ⟨level, hbefore, hcompleted⟩ := Option.map_eq_some_iff.mp hafter
    by_cases hall : ∀ t ∈ requiredTypes, t ∈ verifiedTypes (documentsAfter s.db document call) u
    · exact requiredFor_completed hall level t (hcompleted ▸ ht)
    · rw [completedLevel_of_not hall] at hcompleted
      subst hcompleted
      have hsame : levelOf (step s call).db u = levelOf s.db u := by
        rw [hlevel, if_pos hu, hbefore, Option.map_some, completedLevel_of_not hall]
      have hgrant' : s.granted u = true := by simpa [hgranted, hsame] using hgrant
      by_cases hverified : call.status = .verified
      · exact verifiedTypes_of_verified hdoc hverified (hheld u level hgrant' hbefore t ht)
      · have hcond := hkeeps document hdoc level (hu ▸ hbefore)
        rw [← hu, if_neg hverified] at hcond
        -- only the two levels that ask for documents could lose one
        cases level with
        | unverified => cases ht
        | standard => exact absurd (hcond hgrant' (.inl rfl)) hall
        | enhanced => exact absurd (hcond hgrant' (.inr rfl)) hall
        | institutional => cases ht
  · rw [if_neg hu] at hafter
    have hsame : levelOf (step s call).db u = levelOf s.db u := by rw [hlevel, if_neg hu]
    have hgrant' : s.granted u = true := by simpa [hgranted, hsame] using hgrant
    exact verifiedTypes_of_other hdoc hu (hheld u level' hgrant' hafter t ht)

theorem keepsLevel_of_step {s : Reviews} {call : ReviewCall} (hnot : NotLowered s call)
    (hheld : Held (step s call)) : KeepsLevel s call := by
  intro document hdoc level hbefore
  rcases step_cases s call with ⟨-, herror⟩ | ⟨document', hdoc', hdocuments, hgranted, hlevel⟩
  · exact absurd hdoc (herror document)
  obtain rfl : document' = document := by
    rw [hdoc'] at hdoc
    exact Except.ok.inj hdoc
  have hafter : levelOf (step s call).db document'.userId =
      some (completedLevel (verifiedTypes (documentsAfter s.db document' call) document'.userId) level) := by
    rw [hlevel, if_pos rfl, hbefore, Option.map_some]
  dsimp only
  split
  next hverified =>
    intro hall
    exact (rank_completed_iff hall level).mp (hnot hverified _ _ _ hbefore hafter)
  next =>
    intro hgrant hgood t ht
    by_contra hmissing
    have hnotall : ¬ ∀ t ∈ requiredTypes,
        t ∈ verifiedTypes (documentsAfter s.db document' call) document'.userId :=
      fun hall => hmissing (hall t ht)
    rw [completedLevel_of_not hnotall] at hafter
    have hmem := hheld document'.userId level (by rw [hgranted, hgrant, Bool.true_or]) hafter t
      (requiredTypes_sub hgood t ht)
    rw [hdocuments] at hmem
    exact hmissing hmem

theorem review_run_iff (db : KycDb) (calls : List ReviewCall) :
    (Along step NotLowered (start db) calls ∧ Always step Held (start db) calls) ↔
      Along step KeepsLevel (start db) calls :=
  along_always_iff (I := Held) (H := fun _ _ => True) (fun _ h => h)
    (fun _ _ hheld _ hkeeps => ⟨step_not_lowered hkeeps, step_held hheld hkeeps⟩)
    (fun _ _ _ _ hnot hheld => keepsLevel_of_step hnot hheld)
    (fun _ _ hgrant _ => absurd hgrant Bool.false_ne_true) along_true

/-! ## A level lowered, and a level outlived -/

def uploaded (id : Uuid) (documentType : KycDocumentType) : KycDocument where
  id := id
  userId := 7
  documentType := documentType
  status := .pending
  fileName := "scan.pdf"
  reviewedBy := none
  reviewedAt := none
  rejectionReason := none

/-- A user of a level with a document of each required type. -/
def sampleDb (level : KycLevel) : KycDb where
  verifications := [⟨7, level, .low, 0, none⟩]
  documents := [uploaded 1 .idVerification, uploaded 2 .addressProof]
  audits := []
  events := []

def review (documentId : Uuid) (status : KycDocumentStatus) : ReviewCall :=
  ⟨documentId, status, 9, "admin", none, 0⟩

/-- Verifying the second document takes an institutional user down to standard; and a user whose two
documents are verified stays standard when one of them is rejected. -/
theorem level_lowered_and_outlived :
    (levelOf (run step (start (sampleDb .institutional)) [review 1 .verified, review 2 .verified]).db 7 =
        some .standard ∧
      ¬ Along step NotLowered (start (sampleDb .institutional)) [review 1 .verified, review 2 .verified]) ∧
    (levelOf (run step (start (sampleDb .unverified))
        [review 1 .verified, review 2 .verified, review 2 .rejected]).db 7 = some .standard ∧
      ¬ Always step Held (start (sampleDb .unverified))
        [review 1 .verified, review 2 .verified, review 2 .rejected]) := by
  refine ⟨⟨by decide, fun h => ?_⟩, by decide, fun h => ?_⟩
  · have hrank := h.2.1 rfl 7 .institutional .standard (by decide) (by decide)
    exact absurd hrank (by decide)
  · have hmem := h.last 7 .standard (by decide) (by decide) .addressProof (by decide)
    exact absurd hmem (by decide)

end Compliance
end TradeCore
