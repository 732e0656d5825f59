import Mathlib.Algebra.Order.BigOperators.Group.List
import Mathlib.Algebra.Order.Ring.Rat
import TradeCore.Dispute.Service
import TradeCore.Lib.Interleave

/-!
# TradeCore.Dispute.Remediation

`resolveDispute` and `appealDispute` interleaved on one dispute, and the remediation they record.

A call works on the row it has read and writes the whole row back. A resolution saves the row before it
enforces: it records the transaction and sets `enforcementExecuted` in two further steps. An appeal
clears the flag, so that the decision after it is enforced too. Statements between these that touch
neither the row nor the transactions (the timeline, the release of the arbitrator) are no steps of
their own; that one of them fails is a failure of the step that follows.

`resolutions` is the history of the decisions that were saved. Every decision is paid at most once and
with what it awards, in every interleaving (`paid_once`). When calls do not overlap there is at most one
decision before the appeal and one after it (`remediation_of_decisions`).
-/

namespace TradeCore
namespace Disputes

open Lib

inductive DecisionOp where
  | resolveDispute (actorId : Uuid) (actorRole : UserRole) (dto : ResolveDisputeDto)
  | appealDispute (userId : Uuid)
  deriving DecidableEq, Repr

structure DecisionState where
  row : Dispute
  ledger : List Remediation
  resolutions : List Dispute
  deriving DecidableEq, Repr

/-- Where a call stands, with the row it works on. -/
inductive DecisionCall where
  | start (op : DecisionOp)
  | resolveSave (saved : Dispute)
  | enforceRecord (saved : Dispute)
  | enforceSave (saved : Dispute)
  | appealSave (saved : Dispute)
  | appealAssign (saved : Dispute)
  deriving DecidableEq, Repr

/-- What a step learns: whether its statement fails, and the arbitrator an appeal is given. -/
structure DecisionEnv where
  fault : Bool
  arbitrator : Option Uuid
  deriving DecidableEq, Repr

abbrev DecisionTask := Task DecisionCall (Except HttpError Unit)

/-- The rows a decision leads to: those of `remediation`, if the trade is there. -/
def owed (trade : Option Trade) (saved : Dispute) : List Remediation :=
  match trade with
  | none => []
  | some trade => remediation saved trade

/-- How `executeEnforcement` goes on from the row that was saved. -/
def enforce (trade : Option Trade) (saved : Dispute) : DecisionTask :=
  if saved.enforcementExecuted then .done (.ok ())
  else if saved.resolutionType = some .dismissed then .running (.enforceSave saved)
  else
    match trade with
    | none => .done (.ok ())
    | some _ => .running (.enforceRecord saved)

def advanceDecision (trade : Option Trade) (env : DecisionEnv) (c : DecisionCall) (s : DecisionState) :
    DecisionState × DecisionTask :=
  if env.fault then (s, .done (.error databaseError))
  else
    match c with
    | .start (.resolveDispute actorId actorRole dto) =>
      match resolveDispute.accept s.row actorId actorRole with
      | .error e => (s, .done (.error e))
      | .ok () => (s, .running (.resolveSave (resolveDispute.resolved s.row dto)))
    | .start (.appealDispute userId) =>
      match appealDispute.accept s.row userId with
      | .error e => (s, .done (.error e))
      | .ok () => (s, .running (.appealSave (appealDispute.reopened s.row)))
    | .resolveSave saved =>
      ({ s with row := saved, resolutions := s.resolutions ++ [saved] }, enforce trade saved)
    | .enforceRecord saved =>
      ({ s with ledger := s.ledger ++ owed trade saved }, .running (.enforceSave saved))
    | .enforceSave saved => ({ s with row := { saved with enforcementExecuted := true } }, .done (.ok ()))
    | .appealSave saved => ({ s with row := saved }, .running (.appealAssign saved))
    | .appealAssign saved =>
      match env.arbitrator with
      | none => (s, .done (.ok ()))
      | some userId =>
        ({ s with row := { saved with arbitratorId := some userId, status := .arbitration } },
          .done (.ok ()))

def decisionProc (trade : Option Trade) :
    Proc DecisionState DecisionEnv DecisionOp DecisionCall (Except HttpError Unit) where
  start := .start
  adv := advanceDecision trade

abbrev DecisionConf := Conf DecisionState DecisionCall (Except HttpError Unit)

def DecisionConf.start (row : Dispute) : DecisionConf := Conf.init ⟨row, [], []⟩

/-! ## Every decision is paid at most once -/

/-- The payment a call in flight is about to make. -/
def pending (trade : Option Trade) : DecisionCall → List Remediation
  | .enforceRecord saved => owed trade saved
  | _ => []

/-- What is recorded or about to be is owed by the decisions, each counted once. -/
def PaidOnce (trade : Option Trade) (s : DecisionState) (ts : List DecisionTask) : Prop :=
  (s.ledger ++ gather (pending trade) ts).Subperm (s.resolutions.flatMap (owed trade))

section Paid

variable {trade : Option Trade} {s : DecisionState} {pre post : List DecisionTask} {k : DecisionCall}
  {t : DecisionTask}

/-- The payments with that of one call in front of the others. -/
theorem paidOnce_split :
    PaidOnce trade s (pre ++ t :: post) ↔
      (s.ledger ++ t.gather (pending trade) ++
        (gather (pending trade) pre ++ gather (pending trade) post)).Subperm
        (s.resolutions.flatMap (owed trade)) := by
  have hperm : (s.ledger ++ gather (pending trade) (pre ++ t :: post)).Perm
      (s.ledger ++ t.gather (pending trade) ++
        (gather (pending trade) pre ++ gather (pending trade) post)) := by
    rw [gather_split, List.append_assoc s.ledger]
    refine List.Perm.append_left _ ?_
    rw [← List.append_assoc]
    exact List.perm_append_comm.append_right _
  exact hperm.subperm_right

/-- A step that records nothing, in a call that has nothing to pay afterwards. -/
theorem PaidOnce.drop (h : PaidOnce trade s (pre ++ .running k :: post))
    (ht : t.gather (pending trade) = []) {s' : DecisionState} (hledger : s'.ledger = s.ledger)
    (hres : s'.resolutions = s.resolutions) : PaidOnce trade s' (pre ++ t :: post) := by
  rw [paidOnce_split] at h ⊢
  rw [hledger, hres, ht, List.append_nil]
  refine List.Subperm.trans (List.Sublist.subperm ?_) h
  exact (List.sublist_append_left _ _).append (List.Sublist.refl _)

theorem gather_enforce (trade : Option Trade) (saved : Dispute) :
    (Task.gather (pending trade) (enforce trade saved)).Sublist (owed trade saved) := by
  simp only [enforce]
  split
  · exact List.nil_sublist _
  · split
    · exact List.nil_sublist _
    · cases trade with
      | none => exact List.nil_sublist _
      | some trade => exact List.Sublist.refl _

/-- A decision that is saved owes what its call is then about to pay. -/
theorem PaidOnce.decided {saved : Dispute}
    (h : PaidOnce trade s (pre ++ .running (.resolveSave saved) :: post)) :
    PaidOnce trade { s with row := saved, resolutions := s.resolutions ++ [saved] }
      (pre ++ enforce trade saved :: post) := by
  rw [paidOnce_split] at h ⊢
  have h : (s.ledger ++ (gather (pending trade) pre ++ gather (pending trade) post)).Subperm
      (s.resolutions.flatMap (owed trade)) := by
    simpa [Task.gather, pending] using h
  have hpay : (s.ledger ++ Task.gather (pending trade) (enforce trade saved) ++
      (gather (pending trade) pre ++ gather (pending trade) post)).Subperm
      (s.ledger ++ owed trade saved ++
        (gather (pending trade) pre ++ gather (pending trade) post)) :=
    (((List.Sublist.refl _).append (gather_enforce trade saved)).append (List.Sublist.refl _)).subperm
  have hperm : (s.ledger ++ owed trade saved ++
      (gather (pending trade) pre ++ gather (pending trade) post)).Perm
      (s.ledger ++ (gather (pending trade) pre ++ gather (pending trade) post) ++
        owed trade saved) := by
    rw [List.append_assoc, List.append_assoc]
    exact List.perm_append_comm.append_left _
  rw [List.flatMap_append, List.flatMap_singleton]
  exact hpay.trans (hperm.subperm.trans ((List.subperm_append_right _).mpr h))

/-- A payment that is recorded is no longer pending. -/
theorem PaidOnce.recorded {saved : Dispute}
    (h : PaidOnce trade s (pre ++ .running (.enforceRecord saved) :: post)) :
    PaidOnce trade { s with ledger := s.ledger ++ owed trade saved }
      (pre ++ .running (.enforceSave saved) :: post) := by
  rw [paidOnce_split] at h ⊢
  simpa [Task.gather, pending] using h

end Paid

/-- In every interleaving. -/
theorem paid_once (trade : Option Trade) (row : Dispute) (acts : List (Act DecisionEnv DecisionOp)) :
    PaidOnce trade (run (decisionProc trade).step (DecisionConf.start row) acts).shared
      (run (decisionProc trade).step (DecisionConf.start row) acts).tasks := by
  have hstep := step_inv (decisionProc trade) (I := PaidOnce trade) (S := fun _ => True)
    (G := fun _ _ _ _ => True) ?_ ?_
  · refine run_inv (I := fun c : DecisionConf => PaidOnce trade c.shared c.tasks)
      (fun c a h _ => hstep c a h (meets_true c a)) ?_
      along_true
    exact List.Subperm.refl _
  · intro s ts x _ h
    rw [PaidOnce, gather_spawn (by rfl)]
    exact h
  · intro s pre k post e _ h
    show PaidOnce trade (advanceDecision trade e k s).1 (pre ++ (advanceDecision trade e k s).2 :: post)
    unfold advanceDecision
    split
    · exact h.drop rfl rfl rfl
    · cases k with
      | start op =>
        cases op with
        | resolveDispute actorId role dto =>
          dsimp only
          split
          · exact h.drop rfl rfl rfl
          · exact h.drop rfl rfl rfl
        | appealDispute userId =>
          dsimp only
          split
          · exact h.drop rfl rfl rfl
          · exact h.drop rfl rfl rfl
      | resolveSave saved => exact h.decided
      | enforceRecord saved => exact h.recorded
      | enforceSave saved => exact h.drop rfl rfl rfl
      | appealSave saved => exact h.drop rfl rfl rfl
      | appealAssign saved =>
        dsimp only
        split
        · exact h.drop rfl rfl rfl
        · exact h.drop rfl rfl rfl

/-! ## Calls that do not overlap -/

/-- A call that has read the row. -/
def underway : DecisionCall → List Unit
  | .start _ => []
  | _ => [()]

/-- A call reads the row only while no other call is underway. -/
def InTurn (_ : DecisionEnv) (k : DecisionCall) (_ : DecisionState) (ts : List DecisionTask) : Prop :=
  underway k = [] → gather underway ts = []

instance (e : DecisionEnv) (k : DecisionCall) (s : DecisionState) (ts : List DecisionTask) :
    Decidable (InTurn e k s ts) :=
  inferInstanceAs (Decidable (_ → _))

/-- One decision, and a second one after the appeal; the row holds the last. -/
structure Decisions (s : DecisionState) : Prop where
  bounded : s.resolutions.length ≤ if s.row.appealed then 2 else 1
  undecided : s.row.status ≠ .resolved → s.resolutions.length ≤ if s.row.appealed then 1 else 0
  final : ∀ r, s.resolutions.getLast? = some r →
    r.resolutionType = s.row.resolutionType ∧ r.resolutionAmount = s.row.resolutionAmount

/-- What a call knows of the row while it is the only one underway. -/
def Fits (s : DecisionState) : DecisionCall → Prop
  | .start _ => True
  | .resolveSave saved =>
    s.row.status ≠ .resolved ∧ saved.status = .resolved ∧ saved.appealed = s.row.appealed
  | .enforceRecord saved => s.row = saved
  | .enforceSave saved => s.row = saved
  | .appealSave saved =>
    s.row.status = .resolved ∧ s.row.appealed = false ∧ saved = appealDispute.reopened s.row
  | .appealAssign saved => s.row = saved ∧ saved.status ≠ .resolved

structure Serial (s : DecisionState) (ts : List DecisionTask) : Prop where
  decisions : Decisions s
  fits : AllRunning (Fits s) ts
  single : (gather underway ts).length ≤ 1

/-- The step of a call while the others have not started or are over. -/
theorem Serial.of_alone {s : DecisionState} {pre post : List DecisionTask} {t : DecisionTask}
    (hpre : gather underway pre = []) (hpost : gather underway post = []) (hd : Decisions s)
    (ht : ∀ k, t = .running k → Fits s k) : Serial s (pre ++ t :: post) := by
  have hfree : ∀ {ts : List DecisionTask}, gather underway ts = [] → AllRunning (Fits s) ts := by
    intro ts hts k hk
    have hstart : underway k = [] := free_of_gather_nil hts k hk
    cases k with
    | start op => trivial
    | resolveSave saved => cases hstart
    | enforceRecord saved => cases hstart
    | enforceSave saved => cases hstart
    | appealSave saved => cases hstart
    | appealAssign saved => cases hstart
  refine ⟨hd, ?_, ?_⟩
  · intro k hk
    simp only [List.mem_append, List.mem_cons] at hk
    rcases hk with hk | hk | hk
    · exact hfree hpre k hk
    · exact ht k hk.symm
    · exact hfree hpost k hk
  · rw [gather_split, hpre, hpost, List.nil_append, List.append_nil]
    cases t with
    | done r => exact Nat.zero_le _
    | running k => cases k <;> simp [Task.gather, underway]

/-- What the decisions say of a row is kept by a row with the same decision and status. -/
theorem Decisions.congr {s s' : DecisionState} (h : Decisions s)
    (hres : s'.resolutions = s.resolutions) (hstatus : s'.row.status = s.row.status)
    (happealed : s'.row.appealed = s.row.appealed)
    (htype : s'.row.resolutionType = s.row.resolutionType)
    (hamount : s'.row.resolutionAmount = s.row.resolutionAmount) : Decisions s' := by
  refine ⟨?_, ?_, ?_⟩
  · rw [hres, happealed]
    exact h.bounded
  · rw [hres, happealed, hstatus]
    exact h.undecided
  · rw [hres, htype, hamount]
    exact h.final

theorem Decisions.resolve {s : DecisionState} (h : Decisions s) {saved : Dispute}
    (hf : Fits s (.resolveSave saved)) :
    Decisions { s with row := saved, resolutions := s.resolutions ++ [saved] } := by
  obtain ⟨hopen, hresolved, happealed⟩ := hf
  have hlen := h.undecided hopen
  refine ⟨?_, fun hne => absurd hresolved hne, ?_⟩
  · rw [List.length_append, List.length_singleton, happealed]
    split
    · rename_i ha
      rw [if_pos ha] at hlen
      omega
    · rename_i ha
      rw [if_neg ha] at hlen
      omega
  · intro r hr
    rw [List.getLast?_append, List.getLast?_singleton] at hr
    cases hr
    exact ⟨rfl, rfl⟩

theorem Decisions.appeal {s : DecisionState} (h : Decisions s) {saved : Dispute}
    (hf : Fits s (.appealSave saved)) : Decisions { s with row := saved } := by
  obtain ⟨-, happealed, rfl⟩ := hf
  have hlen := h.bounded
  rw [happealed] at hlen
  have hlen : s.resolutions.length ≤ 1 := hlen
  exact ⟨Nat.le_succ_of_le hlen, fun _ => hlen, h.final⟩

theorem fits_enforce (trade : Option Trade) {s : DecisionState} {saved : Dispute} (h : s.row = saved)
    {k : DecisionCall} (hk : enforce trade saved = .running k) : Fits s k := by
  simp only [enforce] at hk
  split at hk
  · cases hk
  · split at hk
    · cases hk
      exact h
    · cases trade with
      | none => cases hk
      | some trade =>
        cases hk
        exact h

theorem advance_serial (trade : Option Trade) {s : DecisionState} {pre post : List DecisionTask}
    {k : DecisionCall} {e : DecisionEnv} (hG : InTurn e k s (pre ++ .running k :: post))
    (h : Serial s (pre ++ .running k :: post)) :
    Serial (advanceDecision trade e k s).1 (pre ++ (advanceDecision trade e k s).2 :: post) := by
  obtain ⟨hpre, hpost⟩ : gather underway pre = [] ∧ gather underway post = [] := by
    by_cases hk : underway k = []
    · have hall := hG hk
      rw [gather_split, List.append_eq_nil_iff, List.append_eq_nil_iff] at hall
      exact ⟨hall.1.1, hall.2⟩
    · obtain ⟨b, hb⟩ := List.exists_mem_of_ne_nil _ hk
      exact others_of_gather_le_one h.single hb
  have hfits : Fits s k := h.fits.here
  have hdone : ∀ {s' : DecisionState} {r : Except HttpError Unit}, Decisions s' →
      Serial s' (pre ++ .done r :: post) :=
    fun hd => .of_alone hpre hpost hd fun _ hk => (by cases hk)
  have hrun : ∀ {s' : DecisionState} {k' : DecisionCall}, Decisions s' → Fits s' k' →
      Serial s' (pre ++ .running k' :: post) := by
    intro s' k' hd hf
    refine .of_alone hpre hpost hd fun k'' hk => ?_
    cases hk
    exact hf
  have hd := h.decisions
  unfold advanceDecision
  split
  · exact hdone hd
  · cases k with
    | start op =>
      cases op with
      | resolveDispute actorId role dto =>
        dsimp only
        split
        · exact hdone hd
        · rename_i haccept
          refine hrun hd ⟨fun hres => ?_, rfl, rfl⟩
          rw [resolveDispute.accept, hres] at haccept
          split at haccept
          · cases haccept
          · cases haccept
      | appealDispute userId =>
        dsimp only
        split
        · exact hdone hd
        · rename_i haccept
          rw [appealDispute.accept] at haccept
          split at haccept
          · cases haccept
          · split at haccept
            · cases haccept
            · split at haccept
              · cases haccept
              · rename_i hstatus happealed
                exact hrun hd ⟨not_not.mp hstatus, eq_false_of_ne_true happealed, rfl⟩
    | resolveSave saved =>
      exact .of_alone hpre hpost (hd.resolve hfits) fun k' hk' => fits_enforce trade rfl hk'
    | enforceRecord saved => exact hrun (hd.congr rfl rfl rfl rfl rfl) hfits
    | enforceSave saved =>
      have hrow : s.row = saved := hfits
      subst hrow
      exact hdone (hd.congr rfl rfl rfl rfl rfl)
    | appealSave saved =>
      obtain ⟨-, -, hsaved⟩ := id hfits
      refine hrun (hd.appeal hfits) ⟨rfl, ?_⟩
      rw [hsaved]
      exact DisputeStatus.noConfusion
    | appealAssign saved =>
      obtain ⟨hrow, hopen⟩ := hfits
      dsimp only
      split
      · exact hdone hd
      · subst hrow
        refine hdone ⟨hd.bounded, fun _ => hd.undecided hopen, hd.final⟩

theorem run_serial (trade : Option Trade) {row : Dispute} {acts : List (Act DecisionEnv DecisionOp)}
    (h : Along (decisionProc trade).step (Meets (fun _ => True) InTurn) (DecisionConf.start row) acts) :
    Serial (run (decisionProc trade).step (DecisionConf.start row) acts).shared
      (run (decisionProc trade).step (DecisionConf.start row) acts).tasks := by
  refine run_inv (I := fun c : DecisionConf => Serial c.shared c.tasks) (fun c a hc hG => ?_) ?_ h
  · refine step_inv (decisionProc trade) (I := Serial) (fun s ts x _ hs => ?_)
      (fun s pre k post e hG hs => advance_serial trade hG hs) c a hc hG
    refine ⟨hs.decisions, hs.fits.spawn trivial, ?_⟩
    rw [gather_spawn (by rfl)]
    exact hs.single
  · refine ⟨⟨Nat.zero_le _, fun _ => Nat.zero_le _, ?_⟩, AllRunning.nil, Nat.zero_le _⟩
    intro r hr
    cases hr

/-! ## The total -/

def award (trade : Option Trade) (decision : Dispute) : ℚ :=
  ((owed trade decision).map Remediation.amount).sum

def total (s : DecisionState) : ℚ := (s.ledger.map Remediation.amount).sum

/-- The dispute, its decisions and the remediation after a run. -/
def afterDecisions (trade : Option Trade) (row : Dispute) (acts : List (Act DecisionEnv DecisionOp)) :
    DecisionState :=
  (run (decisionProc trade).step (DecisionConf.start row) acts).shared

theorem owed_nonneg {trade : Option Trade} {decision : Dispute} (h : 0 ≤ award trade decision) :
    ∀ x ∈ owed trade decision, 0 ≤ x.amount := by
  intro x hx
  cases trade with
  | none => cases hx
  | some trade =>
    simp only [award, owed, remediation] at h hx
    split at hx
    · cases hx
    · rename_i heq
      rw [heq] at h
      rw [List.mem_singleton.mp hx]
      simpa using h

theorem sum_flatMap_owed (trade : Option Trade) (decisions : List Dispute) :
    ((decisions.flatMap (owed trade)).map Remediation.amount).sum =
      (decisions.map (award trade)).sum := by
  induction decisions with
  | nil => rfl
  | cons d ds ih => rw [List.flatMap_cons, List.map_append, List.sum_append, ih, List.map_cons,
      List.sum_cons, award]

theorem total_le {trade : Option Trade} {s : DecisionState}
    (h : s.ledger.Subperm (s.resolutions.flatMap (owed trade)))
    (hnonneg : ∀ r ∈ s.resolutions, 0 ≤ award trade r) :
    total s ≤ (s.resolutions.map (award trade)).sum := by
  obtain ⟨ledger, hperm, hsub⟩ := h
  rw [total, ← sum_flatMap_owed, ← (hperm.map Remediation.amount).sum_eq]
  refine (hsub.map Remediation.amount).sum_le_sum fun x hx => ?_
  obtain ⟨y, hy, rfl⟩ := List.mem_map.mp hx
  obtain ⟨r, hr, hyr⟩ := List.mem_flatMap.mp hy
  exact owed_nonneg (hnonneg r hr) y hyr

/-- What is recorded for a dispute: in every interleaving each decision is paid at most once, with what
it awards; without overlapping calls there is one decision and, after an appeal, a second one, and the
row holds the last. -/
theorem remediation_of_decisions (trade : Option Trade) (row : Dispute)
    (acts : List (Act DecisionEnv DecisionOp)) :
    (afterDecisions trade row acts).ledger.Subperm
      ((afterDecisions trade row acts).resolutions.flatMap (owed trade)) ∧
    ((∀ r ∈ (afterDecisions trade row acts).resolutions, 0 ≤ award trade r) →
      total (afterDecisions trade row acts) ≤
        ((afterDecisions trade row acts).resolutions.map (award trade)).sum) ∧
    (Along (decisionProc trade).step (Meets (fun _ => True) InTurn) (DecisionConf.start row) acts →
      (afterDecisions trade row acts).resolutions.length ≤
        (if (afterDecisions trade row acts).row.appealed then 2 else 1) ∧
      ∀ r, (afterDecisions trade row acts).resolutions.getLast? = some r →
        r.resolutionType = (afterDecisions trade row acts).row.resolutionType ∧
          r.resolutionAmount = (afterDecisions trade row acts).row.resolutionAmount) := by
  have hpaid : (afterDecisions trade row acts).ledger.Subperm
      ((afterDecisions trade row acts).resolutions.flatMap (owed trade)) :=
    (List.sublist_append_left _ _).subperm.trans (paid_once trade row acts)
  refine ⟨hpaid, total_le hpaid, fun h => ?_⟩
  have hserial := run_serial trade h
  exact ⟨hserial.decisions.bounded, hserial.decisions.final⟩

/-! ## An appeal pays again -/

def sampleTrade : Trade := ⟨1, 101, 102, "XLM", none, 100⟩

def sampleRow : Dispute :=
  ⟨0, 1, 101, 102, .fraud, .underReview, some 9, none, none, false, false, 1000⟩

def allOk : DecisionEnv := ⟨false, some 9⟩

/-- A refund of the whole trade, an appeal of the respondent, and a settlement of 40. -/
def appealedRun : List (Act DecisionEnv DecisionOp) :=
  [.spawn (.resolveDispute 9 .arbitrator ⟨.refund, none⟩),
    .sched 0 allOk, .sched 0 allOk, .sched 0 allOk, .sched 0 allOk,
    .spawn (.appealDispute 102), .sched 1 allOk, .sched 1 allOk, .sched 1 allOk,
    .spawn (.resolveDispute 9 .arbitrator ⟨.settlement, some 40⟩),
    .sched 2 allOk, .sched 2 allOk, .sched 2 allOk, .sched 2 allOk]

/-- One call after the other; the final resolution awards 40 and 140 is recorded. -/
theorem appeal_pays_again :
    Along (decisionProc (some sampleTrade)).step (Meets (fun _ => True) InTurn)
      (DecisionConf.start sampleRow) appealedRun ∧
    (run (decisionProc (some sampleTrade)).step (DecisionConf.start sampleRow) appealedRun).tasks =
      [.done (.ok ()), .done (.ok ()), .done (.ok ())] ∧
    award (some sampleTrade) (afterDecisions (some sampleTrade) sampleRow appealedRun).row = 40 ∧
    total (afterDecisions (some sampleTrade) sampleRow appealedRun) = 140 ∧
    ¬ total (afterDecisions (some sampleTrade) sampleRow appealedRun) ≤
      award (some sampleTrade) (afterDecisions (some sampleTrade) sampleRow appealedRun).row := by
  refine ⟨?_, ?_, ?_, ?_, ?_⟩
  · decide +kernel
  · decide +kernel
  · decide +kernel
  · decide +kernel
  · decide +kernel

/-- In that run both decisions are paid, one before the appeal and one after it. -/
theorem appealed_run_bounded :
    total (afterDecisions (some sampleTrade) sampleRow appealedRun) ≤
      ((afterDecisions (some sampleTrade) sampleRow appealedRun).resolutions.map
        (award (some sampleTrade))).sum ∧
    (afterDecisions (some sampleTrade) sampleRow appealedRun).resolutions.length ≤ 2 := by
  obtain ⟨-, htotal, hserial⟩ := remediation_of_decisions (some sampleTrade) sampleRow appealedRun
  refine ⟨htotal (by decide +kernel), ?_⟩
  have hlen := (hserial (by decide +kernel)).1
  have happealed : (afterDecisions (some sampleTrade) sampleRow appealedRun).row.appealed = true := by
    decide +kernel
  rwa [happealed] at hlen

end Disputes
end TradeCore
