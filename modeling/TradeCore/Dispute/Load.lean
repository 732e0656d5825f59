import TradeCore.Dispute.Service
import TradeCore.Lib.Run

/-!
# TradeCore.Dispute.Load

The load of the arbitrators over runs of the dispute operations.

`Balanced` is what `activeDisputeCount` is for: it is the number of unresolved disputes assigned to the
arbitrator, within the arbitrator's maximum. Two operations break it. The query of `assignArbitrator`
returns arbitrators of general expertise whatever their load, so one that is full may be selected; and
an appeal that finds nobody leaves the dispute with the arbitrator the resolution has released.
`balanced_iff_wellAssigned`: the runs that are balanced throughout are exactly those in which neither
happens.
-/

namespace TradeCore
namespace Disputes

open Lib

inductive DisputeOp where
  | createArbitrator (dto : CreateArbitratorDto)
  | createDispute (now oneMonthAgo : Time) (order : Nat) (userId : Uuid) (dto : CreateDisputeDto)
  | submitEvidence (disputeId userId : Uuid) (userRole : UserRole) (validFile : Except HttpError Unit)
  | resolveDispute (disputeId actorId : Uuid) (actorRole : UserRole) (dto : ResolveDisputeDto)
  | appealDispute (order : Nat) (disputeId userId : Uuid)

def step (db : Db) : DisputeOp → Db
  | .createArbitrator dto => (createArbitrator db dto).1
  | .createDispute now oneMonthAgo order userId dto =>
    (createDispute db now oneMonthAgo order userId dto).1
  | .submitEvidence disputeId userId userRole validFile =>
    (submitEvidence db disputeId userId userRole validFile).1
  | .resolveDispute disputeId actorId actorRole dto =>
    (resolveDispute db disputeId actorId actorRole dto).1
  | .appealDispute order disputeId userId => (appealDispute db order disputeId userId).1

/-- Users and trades are there; nobody arbitrates and nothing is disputed yet. -/
def Db.start (users : List User) (trades : List Trade) : Db := ⟨users, trades, [], [], [], 0⟩

def unresolved (d : Dispute) : Bool := decide (d.status ∉ [.resolved, .closed, .rejected])

def assignedTo (userId : Uuid) (d : Dispute) : Bool :=
  decide (d.arbitratorId = some userId) && unresolved d

def Balanced (db : Db) : Prop :=
  ∀ a ∈ db.arbitrators, a.activeDisputeCount = db.disputes.countP (assignedTo a.userId) ∧
    a.activeDisputeCount ≤ a.maxActiveDisputes

/-- The condition on an operation: an arbitrator that is selected is not full, and an appeal that
selects nobody is about a dispute without arbitrator. -/
def WellAssigned (db : Db) : DisputeOp → Prop
  | .createDispute _ oneMonthAgo order userId dto =>
    ∀ trade, createDispute.accept db oneMonthAgo userId dto = .ok trade →
      ∀ a, selectArbitrator db dto.classification order = some a →
        a.activeDisputeCount < a.maxActiveDisputes
  | .appealDispute order disputeId userId =>
    ∀ d, db.dispute? disputeId = some d → appealDispute.accept d userId = .ok () →
      match selectArbitrator db d.classification order with
      | some a => a.activeDisputeCount < a.maxActiveDisputes
      | none => d.arbitratorId = none
  | _ => True

structure Inv (db : Db) : Prop where
  arbitrators : (db.arbitrators.map Arbitrator.userId).Nodup
  disputes : (db.disputes.map Dispute.id).Nodup
  fresh : ∀ d ∈ db.disputes, d.id < db.nextId
  known : ∀ d ∈ db.disputes, ∀ u, d.arbitratorId = some u → u ∈ db.arbitrators.map Arbitrator.userId
  balanced : Balanced db

/-! ## What the operations do -/

theorem mem_of_selectArbitrator {db : Db} {c : DisputeClassification} {order : Nat} {a : Arbitrator}
    (h : selectArbitrator db c order = some a) : a ∈ db.arbitrators := by
  have := List.mem_of_getElem? h
  exact List.mem_of_mem_filter (List.mem_of_mem_filter this)

/-- The arbitrator with one more dispute. -/
def Arbitrator.assigned (a : Arbitrator) : Arbitrator :=
  { a with activeDisputeCount := a.activeDisputeCount + 1 }

def Dispute.assign (d : Dispute) (userId : Uuid) (status : DisputeStatus) : Dispute :=
  { d with arbitratorId := some userId, status := status }

/-- The search for an arbitrator, after the dispute was saved. -/
theorem assignDispute_cases (db : Db) (order : Nat) (saved : Dispute) (status : DisputeStatus) :
    (selectArbitrator db saved.classification order = none ∧
      assignDispute (db.saveDispute saved) order saved status = db.saveDispute saved) ∨
    ∃ a, selectArbitrator db saved.classification order = some a ∧
      assignDispute (db.saveDispute saved) order saved status =
        (db.saveArbitrator a.assigned).saveDispute (saved.assign a.userId status) := by
  have hsame : selectArbitrator (db.saveDispute saved) saved.classification order =
      selectArbitrator db saved.classification order := rfl
  rw [assignDispute, assignArbitrator, hsame]
  cases selectArbitrator db saved.classification order with
  | none => exact .inl ⟨rfl, rfl⟩
  | some a =>
    refine .inr ⟨a, rfl, ?_⟩
    have hdisputes : ∀ d, d.id = saved.id → upsert Dispute.id d (upsert Dispute.id saved db.disputes) =
        upsert Dispute.id d db.disputes := fun d hd => upsert_upsert hd _
    simp [Db.saveArbitrator, Db.saveDispute, Dispute.assign, Arbitrator.assigned, hdisputes]

theorem releaseArbitrator_frame (db : Db) (u : Uuid) :
    (releaseArbitrator db u).disputes = db.disputes ∧ (releaseArbitrator db u).nextId = db.nextId := by
  rw [releaseArbitrator]
  split
  · exact ⟨rfl, rfl⟩
  · split <;> exact ⟨rfl, rfl⟩

theorem releaseAssigned_frame (db : Db) (holder : Option Uuid) :
    (releaseAssigned db holder).disputes = db.disputes ∧
      (releaseAssigned db holder).nextId = db.nextId := by
  cases holder with
  | none => exact ⟨rfl, rfl⟩
  | some u => exact releaseArbitrator_frame db u

theorem executeEnforcement_cases (db : Db) (d : Dispute) :
    (executeEnforcement db d).arbitrators = db.arbitrators ∧
    (executeEnforcement db d).nextId = db.nextId ∧
    ((executeEnforcement db d).disputes = db.disputes ∨
      (executeEnforcement db d).disputes =
        upsert Dispute.id { d with enforcementExecuted := true } db.disputes) := by
  rw [executeEnforcement]
  split
  · exact ⟨rfl, rfl, .inl rfl⟩
  · split
    · exact ⟨rfl, rfl, .inr rfl⟩
    · split
      · exact ⟨rfl, rfl, .inl rfl⟩
      · exact ⟨rfl, rfl, .inr rfl⟩

theorem resolveDispute_cases (db : Db) (disputeId actorId : Uuid) (actorRole : UserRole)
    (dto : ResolveDisputeDto) :
    (resolveDispute db disputeId actorId actorRole dto).1 = db ∨
    ∃ d d', db.dispute? disputeId = some d ∧ d.status ∈ resolvableStatuses ∧ d'.id = d.id ∧
      d'.arbitratorId = d.arbitratorId ∧ d'.status = .resolved ∧
      (resolveDispute db disputeId actorId actorRole dto).1.disputes =
        upsert Dispute.id d' db.disputes ∧
      (resolveDispute db disputeId actorId actorRole dto).1.arbitrators =
        (releaseAssigned db d.arbitratorId).arbitrators ∧
      (resolveDispute db disputeId actorId actorRole dto).1.nextId = db.nextId := by
  rw [resolveDispute]
  cases hd : db.dispute? disputeId with
  | none => exact .inl rfl
  | some d =>
    dsimp only
    cases haccept : resolveDispute.accept d actorId actorRole with
    | error e => exact .inl rfl
    | ok u =>
      have hstatus := status_of_accept haccept
      obtain ⟨h1, h2⟩ := releaseAssigned_frame
        (db.saveDispute (resolveDispute.resolved d dto)) d.arbitratorId
      have h3 : (releaseAssigned (db.saveDispute (resolveDispute.resolved d dto))
          d.arbitratorId).arbitrators = (releaseAssigned db d.arbitratorId).arbitrators := by
        cases d.arbitratorId with
        | none => rfl
        | some u =>
          simp only [releaseAssigned, releaseArbitrator, Db.arbitrator?, Db.saveDispute]
          split
          · rfl
          · split <;> rfl
      obtain ⟨e1, e2, e3⟩ := executeEnforcement_cases (releaseAssigned
        (db.saveDispute (resolveDispute.resolved d dto)) d.arbitratorId) (resolveDispute.resolved d dto)
      right
      rcases e3 with e3 | e3
      · exact ⟨d, resolveDispute.resolved d dto, rfl, hstatus, rfl, rfl, rfl, e3.trans h1, e1.trans h3,
          e2.trans h2⟩
      · refine ⟨d, { resolveDispute.resolved d dto with enforcementExecuted := true }, rfl, hstatus,
          rfl, rfl, rfl, e3.trans ?_, e1.trans h3, e2.trans h2⟩
        rw [h1]
        refine upsert_upsert (r := resolveDispute.resolved d dto) ?_ db.disputes
        rfl

/-! ## The invariant -/

theorem assignedTo_iff {u : Uuid} {d : Dispute} :
    assignedTo u d = true ↔ d.arbitratorId = some u ∧ unresolved d = true := by
  simp [assignedTo]

theorem assignedTo_resolved {d : Dispute} (h : d.status = .resolved) (u : Uuid) :
    assignedTo u d = false := by
  simp [assignedTo, unresolved, h]

theorem unresolved_of_resolvable {d : Dispute} (h : d.status ∈ resolvableStatuses) :
    unresolved d = true := by
  simp only [resolvableStatuses, List.mem_cons, List.not_mem_nil, or_false] at h
  rcases h with h | h | h | h <;> simp [unresolved, h]

/-- One arbitrator's counter moves with the disputes assigned to it; nobody else's disputes move. -/
theorem Balanced.move {db db' : Db} (h : Balanced db) {a : Arbitrator}
    (hnodup : (db.arbitrators.map Arbitrator.userId).Nodup)
    (harbitrators : db'.arbitrators = upsert Arbitrator.userId a db.arbitrators)
    (hcap : a.activeDisputeCount ≤ a.maxActiveDisputes)
    (hown : a.activeDisputeCount = db'.disputes.countP (assignedTo a.userId))
    (hother : ∀ u, u ≠ a.userId →
      db'.disputes.countP (assignedTo u) = db.disputes.countP (assignedTo u)) : Balanced db' := by
  intro b hb
  rw [harbitrators] at hb
  rcases mem_upsert_cases hnodup hb with rfl | ⟨hb, hne⟩
  · exact ⟨hown, hcap⟩
  · rw [hother b.userId hne]
    exact h b hb

theorem Inv.arbitrator_of_mem {db : Db} (h : Inv db) {a : Arbitrator} (ha : a ∈ db.arbitrators) :
    db.arbitrator? a.userId = some a :=
  lookup_of_mem h.arbitrators ha

/-- What a rewritten dispute adds to the counts. -/
theorem countP_saveDispute {db : Db} (h : Inv db) {d0 d : Dispute} {k : Uuid}
    (hd0 : db.dispute? k = some d0) (hid : d.id = d0.id) (u : Uuid) :
    (upsert Dispute.id d db.disputes).countP (assignedTo u) + (if assignedTo u d0 then 1 else 0) =
      db.disputes.countP (assignedTo u) + (if assignedTo u d then 1 else 0) := by
  refine countP_upsert h.disputes ?_
  rw [hid]
  exact lookup_of_mem h.disputes (mem_of_lookup hd0)

/-- A database whose disputes changed in one row, with the ids and the arbitrators in order. -/
theorem Inv.rewrite {db db' : Db} (h : Inv db) {d0 d : Dispute} {k : Uuid}
    (hd0 : db.dispute? k = some d0) (hid : d.id = d0.id)
    (hdisputes : db'.disputes = upsert Dispute.id d db.disputes) (hnext : db'.nextId = db.nextId)
    (harbitrators : db'.arbitrators.map Arbitrator.userId = db.arbitrators.map Arbitrator.userId)
    (hknown : ∀ u, d.arbitratorId = some u → u ∈ db.arbitrators.map Arbitrator.userId)
    (hbalanced : Balanced db') : Inv db' := by
  refine ⟨harbitrators ▸ h.arbitrators, hdisputes ▸ nodup_upsert h.disputes, ?_, ?_, hbalanced⟩
  · intro x hx
    rw [hdisputes] at hx
    rw [hnext]
    rcases mem_upsert hx with rfl | hx
    · rw [hid]
      exact h.fresh d0 (mem_of_lookup hd0)
    · exact h.fresh x hx
  · intro x hx u hu
    rw [hdisputes] at hx
    rw [harbitrators]
    rcases mem_upsert hx with rfl | hx
    · exact hknown u hu
    · exact h.known x hx u hu

theorem map_userId_upsert {db : Db} {a a' : Arbitrator} (ha : a ∈ db.arbitrators)
    (hid : a'.userId = a.userId) :
    (upsert Arbitrator.userId a' db.arbitrators).map Arbitrator.userId =
      db.arbitrators.map Arbitrator.userId :=
  map_upsert (List.mem_map.mpr ⟨a, ha, hid.symm⟩) fun _ _ h => h

theorem createArbitrator_inv {db : Db} (h : Inv db) (dto : CreateArbitratorDto) :
    Inv (createArbitrator db dto).1 := by
  rw [createArbitrator]
  split
  · exact h
  · split
    · exact h
    · rename_i hnone
      have hfresh : dto.userId ∉ db.arbitrators.map Arbitrator.userId := by
        intro hin
        obtain ⟨a, ha, hid⟩ := List.mem_map.mp hin
        rw [← hid, h.arbitrator_of_mem ha] at hnone
        cases hnone
      -- the new arbitrator has no disputes, since every dispute names one that exists
      have hzero : db.disputes.countP (assignedTo dto.userId) = 0 := by
        refine List.countP_eq_zero.mpr fun d hd hassigned => hfresh ?_
        exact h.known d hd _ (assignedTo_iff.mp hassigned).1
      generalize hnew : (⟨dto.userId, dto.expertise, true, 0, dto.maxActiveDisputes.getD 10, 0⟩ :
        Arbitrator) = a
      have hinv : Inv (db.saveArbitrator a) := by
        subst hnew
        refine ⟨nodup_upsert h.arbitrators, h.disputes, h.fresh, ?_, ?_⟩
        · intro d hd u hu
          obtain ⟨b, hb, hid⟩ := List.mem_map.mp (h.known d hd u hu)
          refine List.mem_map.mpr ⟨b, mem_upsert_of_ne hb fun he => hfresh ?_, hid⟩
          exact List.mem_map.mpr ⟨b, hb, he⟩
        · exact h.balanced.move h.arbitrators rfl (Nat.zero_le _) hzero.symm fun _ _ => rfl
      dsimp only
      split
      · exact ⟨hinv.arbitrators, hinv.disputes, hinv.fresh, hinv.known, hinv.balanced⟩
      · exact hinv

theorem submitEvidence_inv {db : Db} (h : Inv db) (disputeId userId : Uuid) (userRole : UserRole)
    (validFile : Except HttpError Unit) :
    Inv (submitEvidence db disputeId userId userRole validFile).1 := by
  rw [submitEvidence]
  split
  · exact h
  · rename_i d hd
    split
    · exact h
    · split
      · exact h
      · split
        · exact h
        · split
          · rename_i hfiled
            have hsame : ∀ u, assignedTo u { d with status := .investigation } = assignedTo u d := by
              intro u
              simp [assignedTo, unresolved, hfiled]
            refine h.rewrite hd (d := { d with status := .investigation }) rfl rfl rfl rfl
              (h.known d (mem_of_lookup hd)) fun a ha => ?_
            have hcount := countP_saveDispute h hd (d := { d with status := .investigation }) rfl a.userId
            rw [hsame] at hcount
            have hbal := h.balanced a ha
            refine ⟨hbal.1.trans ?_, hbal.2⟩
            exact (Nat.add_right_cancel hcount).symm
          · exact h

theorem assign_inv {db : Db} (h : Inv db) {d0 d : Dispute} {k : Uuid} {a : Arbitrator}
    (hd0 : db.dispute? k = some d0) (hid : d.id = d0.id) (hnone : ∀ u, assignedTo u d0 = false)
    (ha : a ∈ db.arbitrators) (hfree : a.activeDisputeCount < a.maxActiveDisputes)
    {status : DisputeStatus} (hstatus : unresolved (d.assign a.userId status) = true) :
    Inv ((db.saveArbitrator a.assigned).saveDispute (d.assign a.userId status)) := by
  have hcount := fun u => countP_saveDispute h hd0 (d := d.assign a.userId status) hid u
  refine h.rewrite hd0 (d := d.assign a.userId status) hid rfl rfl (map_userId_upsert ha rfl) ?_ ?_
  · intro u hu
    rw [← Option.some.inj hu]
    exact List.mem_map_of_mem ha
  · refine h.balanced.move (a := a.assigned) h.arbitrators rfl hfree ?_ ?_
    · have := hcount a.userId
      rw [hnone, assignedTo_iff.mpr ⟨rfl, hstatus⟩, ← (h.balanced a ha).1] at this
      exact this.symm
    · intro u hu
      have hnot : assignedTo u (d.assign a.userId status) = false := by
        simp [assignedTo, Dispute.assign, show a.userId ≠ u from fun e => hu e.symm]
      have := hcount u
      rw [hnone, hnot] at this
      exact this

theorem resolve_inv {db db' : Db} (h : Inv db) {d d' : Dispute} {k : Uuid}
    (hd : db.dispute? k = some d) (hstatus : d.status ∈ resolvableStatuses) (hid : d'.id = d.id)
    (harb : d'.arbitratorId = d.arbitratorId) (hresolved : d'.status = .resolved)
    (hdisputes : db'.disputes = upsert Dispute.id d' db.disputes)
    (harbitrators : db'.arbitrators = (releaseAssigned db d.arbitratorId).arbitrators)
    (hnext : db'.nextId = db.nextId) : Inv db' := by
  have hin := mem_of_lookup hd
  have hknown : ∀ u, d'.arbitratorId = some u → u ∈ db.arbitrators.map Arbitrator.userId := by
    rw [harb]
    exact h.known d hin
  have hcount : ∀ u, (upsert Dispute.id d' db.disputes).countP (assignedTo u) +
      (if assignedTo u d then 1 else 0) = db.disputes.countP (assignedTo u) := by
    intro u
    have := countP_saveDispute h hd hid u
    rwa [assignedTo_resolved hresolved] at this
  cases hholder : d.arbitratorId with
  | none =>
    rw [hholder] at harbitrators
    refine h.rewrite hd hid hdisputes hnext (congrArg _ harbitrators) hknown fun a ha => ?_
    rw [harbitrators] at ha
    have hbal := h.balanced a ha
    have hzero : assignedTo a.userId d = false := by simp [assignedTo, hholder]
    have := hcount a.userId
    rw [hzero] at this
    rw [hdisputes]
    exact ⟨hbal.1.trans this.symm, hbal.2⟩
  | some u =>
    obtain ⟨a, ha, hau⟩ := List.mem_map.mp (h.known d hin u hholder)
    subst hau
    have hassigned : assignedTo a.userId d = true :=
      assignedTo_iff.mpr ⟨hholder, unresolved_of_resolvable hstatus⟩
    have hown := hcount a.userId
    rw [hassigned, ← (h.balanced a ha).1, if_pos rfl] at hown
    have hpos : 0 < a.activeDisputeCount := by omega
    rw [hholder, releaseAssigned, releaseArbitrator, h.arbitrator_of_mem ha] at harbitrators
    dsimp only at harbitrators
    rw [if_pos hpos] at harbitrators
    refine h.rewrite hd hid hdisputes hnext ?_ hknown ?_
    · rw [harbitrators]
      exact map_userId_upsert ha rfl
    · refine h.balanced.move h.arbitrators harbitrators ?_ ?_ ?_
      · exact Nat.le_trans (Nat.sub_le _ _) (h.balanced a ha).2
      · rw [hdisputes]
        exact Nat.sub_eq_of_eq_add hown.symm
      · intro u hu
        have hnot : assignedTo u d = false := by
          simp [assignedTo, hholder, show a.userId ≠ u from fun e => hu e.symm]
        have := hcount u
        rw [hnot] at this
        rw [hdisputes]
        exact this

theorem createDispute_cases (db : Db) (now oneMonthAgo : Time) (order : Nat) (userId : Uuid)
    (dto : CreateDisputeDto) :
    (createDispute db now oneMonthAgo order userId dto).1 = db ∨
    ∃ trade, createDispute.accept db oneMonthAgo userId dto = .ok trade ∧
      (createDispute db now oneMonthAgo order userId dto).1 =
        assignDispute (Db.saveDispute { db with nextId := db.nextId + 1 }
          (createDispute.filed now db.nextId userId dto trade)) order
          (createDispute.filed now db.nextId userId dto trade) .underReview := by
  rw [createDispute]
  cases createDispute.accept db oneMonthAgo userId dto with
  | error e => exact .inl rfl
  | ok trade => exact .inr ⟨trade, rfl, rfl⟩

theorem appealDispute_cases (db : Db) (order : Nat) (disputeId userId : Uuid) :
    (appealDispute db order disputeId userId).1 = db ∨
    ∃ d, db.dispute? disputeId = some d ∧ appealDispute.accept d userId = .ok () ∧
      (appealDispute db order disputeId userId).1 =
        assignDispute (db.saveDispute (appealDispute.reopened d)) order (appealDispute.reopened d)
          .arbitration := by
  rw [appealDispute]
  cases db.dispute? disputeId with
  | none => exact .inl rfl
  | some d =>
    dsimp only
    cases haccept : appealDispute.accept d userId with
    | error e => exact .inl rfl
    | ok u => exact .inr ⟨d, rfl, haccept, rfl⟩

theorem resolved_of_accept {d : Dispute} {userId : Uuid} (h : appealDispute.accept d userId = .ok ()) :
    d.status = .resolved := by
  rw [appealDispute.accept] at h
  split at h
  · cases h
  · split at h
    · cases h
    · rename_i hstatus
      exact not_not.mp hstatus

theorem filed_inv {db : Db} (h : Inv db) (now : Time) (userId : Uuid) (dto : CreateDisputeDto)
    (trade : Trade) :
    Inv (Db.saveDispute { db with nextId := db.nextId + 1 }
      (createDispute.filed now db.nextId userId dto trade)) := by
  generalize hnew : createDispute.filed now db.nextId userId dto trade = d
  have hid : d.id = db.nextId := by rw [← hnew]; rfl
  have hnone : d.arbitratorId = none := by rw [← hnew]; rfl
  have hfresh : d.id ∉ db.disputes.map Dispute.id := by
    intro hin
    obtain ⟨x, hx, hxd⟩ := List.mem_map.mp hin
    have := h.fresh x hx
    rw [hxd, hid] at this
    exact Nat.lt_irrefl _ this
  refine ⟨h.arbitrators, nodup_upsert h.disputes, ?_, ?_, ?_⟩
  · intro x hx
    rcases mem_upsert hx with rfl | hx
    · exact hid ▸ Nat.lt_succ_self _
    · exact Nat.lt_succ_of_lt (h.fresh x hx)
  · intro x hx u hu
    rcases mem_upsert hx with rfl | hx
    · rw [hnone] at hu
      cases hu
    · exact h.known x hx u hu
  · intro a ha
    have hzero : assignedTo a.userId d = false := by simp [assignedTo, hnone]
    have hbal := h.balanced a ha
    refine ⟨hbal.1.trans ?_, hbal.2⟩
    show _ = (upsert Dispute.id d db.disputes).countP _
    rw [upsert_of_not_mem hfresh, List.countP_append, List.countP_singleton, hzero]
    rfl

theorem not_balanced_of_full {db : Db} {a : Arbitrator} {d : Dispute}
    (hfull : ¬ a.activeDisputeCount < a.maxActiveDisputes) :
    ¬ Balanced ((db.saveArbitrator a.assigned).saveDispute d) := by
  intro h
  have hle := (h a.assigned (mem_upsert_self a.assigned db.arbitrators)).2
  exact hfull hle

theorem not_balanced_of_kept {db : Db} (h : Inv db) {d : Dispute} {k u : Uuid}
    (hd : db.dispute? k = some d) (hresolved : d.status = .resolved) (hu : d.arbitratorId = some u) :
    ¬ Balanced (db.saveDispute (appealDispute.reopened d)) := by
  intro hbal
  obtain ⟨a, ha, rfl⟩ := List.mem_map.mp (h.known d (mem_of_lookup hd) u hu)
  have hcount := countP_saveDispute h hd (d := appealDispute.reopened d) rfl a.userId
  have hopen : assignedTo a.userId (appealDispute.reopened d) = true := assignedTo_iff.mpr ⟨hu, rfl⟩
  rw [assignedTo_resolved hresolved, hopen, ← (h.balanced a ha).1] at hcount
  have := (hbal a ha).1
  have hsame : (db.saveDispute (appealDispute.reopened d)).disputes =
      upsert Dispute.id (appealDispute.reopened d) db.disputes := rfl
  rw [hsame] at this
  simp at hcount
  omega

theorem step_inv_load (db : Db) (op : DisputeOp) (h : Inv db) (hG : WellAssigned db op) :
    Inv (step db op) := by
  cases op with
  | createArbitrator dto => exact createArbitrator_inv h dto
  | submitEvidence k userId role file => exact submitEvidence_inv h k userId role file
  | createDispute now oneMonthAgo order userId dto =>
    rw [step]
    rcases createDispute_cases db now oneMonthAgo order userId dto with he | ⟨trade, haccept, he⟩
    · rwa [he]
    · rw [he]
      have hfiled := filed_inv h now userId dto trade
      generalize hd : createDispute.filed now db.nextId userId dto trade = d at hfiled
      have hclass : d.classification = dto.classification := by rw [← hd]; rfl
      rcases assignDispute_cases { db with nextId := db.nextId + 1 } order d .underReview with
        ⟨-, he⟩ | ⟨a, hsel, he⟩
      · rwa [he]
      · rw [he]
        rw [hclass] at hsel
        have hstored : Db.dispute? (Db.saveDispute { db with nextId := db.nextId + 1 } d) d.id = some d :=
          lookup_of_mem hfiled.disputes (mem_upsert_self d db.disputes)
        have hreview : unresolved (d.assign a.userId .underReview) = true := rfl
        have hinv := assign_inv hfiled hstored rfl (fun u => by rw [← hd]; rfl)
          (mem_of_selectArbitrator hsel) (hG trade haccept a hsel) hreview
        have hsame : upsert Dispute.id (d.assign a.userId .underReview) (upsert Dispute.id d db.disputes) =
            upsert Dispute.id (d.assign a.userId .underReview) db.disputes := by
          refine upsert_upsert ?_ db.disputes
          rfl
        simp only [Db.saveDispute, Db.saveArbitrator, hsame] at hinv ⊢
        exact hinv
  | resolveDispute k actorId role dto =>
    rw [step]
    rcases resolveDispute_cases db k actorId role dto with
      he | ⟨d, d', hd, hstatus, hid, harb, hresolved, hdisputes, harbitrators, hnext⟩
    · rwa [he]
    · exact resolve_inv h hd hstatus hid harb hresolved hdisputes harbitrators hnext
  | appealDispute order k userId =>
    rw [step]
    rcases appealDispute_cases db order k userId with he | ⟨d, hd, haccept, he⟩
    · rwa [he]
    · rw [he]
      have hresolved := resolved_of_accept haccept
      have hcond := hG d hd haccept
      rcases assignDispute_cases db order (appealDispute.reopened d) .arbitration with
        ⟨hsel, he⟩ | ⟨a, hsel, he⟩
      · rw [he]
        have hsel : selectArbitrator db d.classification order = none := hsel
        rw [hsel] at hcond
        have hnone : ∀ u, assignedTo u (appealDispute.reopened d) = false := by
          intro u
          simp [assignedTo, appealDispute.reopened, show d.arbitratorId = none from hcond]
        refine h.rewrite hd (d := appealDispute.reopened d) rfl rfl rfl rfl
          (h.known d (mem_of_lookup hd)) fun a ha => ?_
        have hcount := countP_saveDispute h hd (d := appealDispute.reopened d) rfl a.userId
        rw [assignedTo_resolved hresolved, hnone] at hcount
        have hbal := h.balanced a ha
        exact ⟨hbal.1.trans hcount.symm, hbal.2⟩
      · rw [he]
        have hsel : selectArbitrator db d.classification order = some a := hsel
        rw [hsel] at hcond
        exact assign_inv h hd (d := appealDispute.reopened d) rfl (assignedTo_resolved hresolved)
          (mem_of_selectArbitrator hsel) hcond rfl

theorem step_unbalanced (db : Db) (op : DisputeOp) (h : Inv db) (hG : ¬ WellAssigned db op) :
    ¬ Balanced (step db op) := by
  cases op with
  | createArbitrator dto => exact absurd trivial hG
  | submitEvidence k userId role file => exact absurd trivial hG
  | resolveDispute k actorId role dto => exact absurd trivial hG
  | createDispute now oneMonthAgo order userId dto =>
    simp only [WellAssigned, not_forall] at hG
    obtain ⟨trade, haccept, a, hsel, hfull⟩ := hG
    rw [step, createDispute, haccept]
    rcases assignDispute_cases { db with nextId := db.nextId + 1 } order
        (createDispute.filed now db.nextId userId dto trade) .underReview with ⟨hnone, -⟩ | ⟨b, hb, he⟩
    · exact absurd (hsel.symm.trans hnone) (by simp)
    · have hab : b = a := Option.some.inj (hb.symm.trans hsel)
      subst hab
      show ¬ Balanced (assignDispute _ order _ .underReview)
      refine he ▸ not_balanced_of_full hfull
  | appealDispute order k userId =>
    simp only [WellAssigned, not_forall] at hG
    obtain ⟨d, hd, haccept, hcond⟩ := hG
    have hresolved := resolved_of_accept haccept
    rw [step, appealDispute, hd]
    dsimp only
    rw [haccept]
    dsimp only
    rcases assignDispute_cases db order (appealDispute.reopened d) .arbitration with
      ⟨hsel, he⟩ | ⟨a, hsel, he⟩
    · rw [he]
      have hsel : selectArbitrator db d.classification order = none := hsel
      rw [hsel] at hcond
      obtain ⟨u, hu⟩ := Option.ne_none_iff_exists'.mp hcond
      exact not_balanced_of_kept h hd hresolved hu
    · rw [he]
      have hsel : selectArbitrator db d.classification order = some a := hsel
      rw [hsel] at hcond
      exact not_balanced_of_full hcond

/-- The runs whose arbitrators' loads are right in every state are exactly those in which no full
arbitrator is selected and no appeal leaves a dispute with a released one. -/
theorem balanced_iff_wellAssigned (users : List User) (trades : List Trade) (ops : List DisputeOp) :
    Always step Balanced (Db.start users trades) ops ↔
      Along step WellAssigned (Db.start users trades) ops := by
  refine always_iff_along (I := Inv) (fun _ h => h.balanced) step_inv_load step_unbalanced ?_
  exact ⟨List.nodup_nil, List.nodup_nil, fun _ h => (by cases h), fun _ h => (by cases h),
    fun _ h => (by cases h)⟩

/-! ## Two runs that lose the balance -/

instance : DecidablePred Balanced := fun db => inferInstanceAs (Decidable (∀ a ∈ db.arbitrators, _))

def sampleStart : Db :=
  Db.start [⟨9, .user⟩] [⟨1, 101, 102, "XLM", none, 100⟩, ⟨2, 103, 104, "XLM", none, 100⟩]

def fileFraud (userId tradeId : Uuid) : DisputeOp := .createDispute 1000 0 0 userId ⟨tradeId, .fraud⟩

/-- A general arbitrator with room for one dispute, and two disputes. -/
def overload : List DisputeOp :=
  [.createArbitrator ⟨9, [.general], some 1⟩, fileFraud 101 1, fileFraud 103 2]

/-- The only arbitrator resolves one dispute, takes a second one, and the first is appealed. -/
def staleAppeal : List DisputeOp :=
  [.createArbitrator ⟨9, [.fraud], some 1⟩, fileFraud 101 1,
    .resolveDispute 0 9 .arbitrator ⟨.refund, none⟩, fileFraud 103 2, .appealDispute 0 0 102]

/-- The first run ends with two disputes on an arbitrator for one; the second with two unresolved
disputes assigned to an arbitrator who counts one. -/
theorem loads_out_of_balance :
    ¬ Always step Balanced sampleStart overload ∧ ¬ Always step Balanced sampleStart staleAppeal ∧
      (run step sampleStart overload).arbitrators = [⟨9, [.general], true, 2, 1, 0⟩] ∧
      (run step sampleStart staleAppeal).arbitrators = [⟨9, [.fraud], true, 1, 1, 1⟩] ∧
      (run step sampleStart staleAppeal).disputes.map (fun d => (d.arbitratorId, d.status)) =
        [(some 9, .appealed), (some 9, .underReview)] := by
  refine ⟨fun h => ?_, fun h => ?_, by decide +kernel, by decide +kernel, by decide +kernel⟩
  · exact absurd h.last (by decide +kernel)
  · exact absurd h.last (by decide +kernel)

end Disputes
end TradeCore
