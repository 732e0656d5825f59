import TradeCore.Escrow.Discipline
import TradeCore.Lib.Interleave

/-!
# TradeCore.Escrow.Approval

`approveEscrow` and `revokeApproval` interleaved. A call reads the escrow row, then the signatory
rows, and writes in a third step; the threshold is decided on the rows that were read.

The escrow is APPROVED exactly when enough signatures are stored, and every passage to APPROVED
emits one event, in the runs whose writes still find what their decision rests on
(`threshold_of_fresh`). Two last approvals that do not see each other leave the escrow FUNDED with
all its signatures (`racing_approvals_stay_funded`).
-/

namespace TradeCore
namespace Escrow

open Lib

inductive SigOp where
  | approveEscrow (escrowId userId : Uuid) (dto : ApproveEscrowDto) (ipAddress : Option String)
  | revokeApproval (escrowId userId : Uuid)

/-- Where a call stands, with the rows it has read. -/
inductive SigCall where
  | start (op : SigOp)
  | approveRead (escrowId userId : Uuid) (dto : ApproveEscrowDto) (ipAddress : Option String)
      (escrow : EscrowAccount)
  | approveCommit (escrowId userId : Uuid) (dto : ApproveEscrowDto) (ipAddress : Option String)
      (escrow : EscrowAccount) (signatories : List EscrowSignatory) (signatory : EscrowSignatory)
  | revokeRead (escrowId userId : Uuid) (escrow : EscrowAccount)
  | revokeWrite (escrowId userId : Uuid) (escrow : EscrowAccount) (signatory : EscrowSignatory)

abbrev SigTask := Task SigCall (Except HttpError Unit)

def sigAdvance (env : Env) (c : SigCall) (st : Store) : Store × SigTask :=
  match c with
  | .start (.approveEscrow k u dto ip) =>
    match approveEscrow.admit st.db k with
    | .error e => (st, .done (.error e))
    | .ok escrow => (st, .running (.approveRead k u dto ip escrow))
  | .start (.revokeApproval k u) =>
    match revokeApproval.admit st.db k with
    | .error e => (st, .done (.error e))
    | .ok escrow => (st, .running (.revokeRead k u escrow))
  | .approveRead k u dto ip escrow =>
    match approveEscrow.own (st.db.signatoriesOf k) u with
    | .error e => (st, .done (.error e))
    | .ok s => (st, .running (.approveCommit k u dto ip escrow (st.db.signatoriesOf k) s))
  | .revokeRead k u escrow =>
    match revokeApproval.own (st.db.signatoriesOf k) u with
    | .error e => (st, .done (.error e))
    | .ok s => (st, .running (.revokeWrite k u escrow s))
  | .approveCommit _ u dto ip escrow ss s =>
    let r := approveEscrow.commit st escrow ss s u dto ip env.now env.fault
    (r.1, .done r.2)
  | .revokeWrite _ u escrow s =>
    let r := revokeApproval.commit st escrow s u env.now
    (r.1, .done r.2)

def sigProc : Proc Store Env SigOp SigCall (Except HttpError Unit) := ⟨.start, sigAdvance⟩

def SigOp.whole (now : Time) : SigOp → Op
  | .approveEscrow k u dto ip => .approveEscrow k u dto ip now
  | .revokeApproval k u => .revokeApproval k u now

theorem sig_alone (st : Store) (op : SigOp) (now : Time) :
    ∃ r, sigProc.alone [⟨now, none⟩, ⟨now, none⟩, ⟨now, none⟩] st (.running (.start op)) =
      (step st (op.whole now), .done r) := by
  cases op with
  | approveEscrow k u dto ip =>
    simp only [sigProc, Proc.alone, sigAdvance, SigOp.whole, step, approveEscrow]
    cases hrow : approveEscrow.admit st.db k with
    | error e => simp
    | ok escrow =>
      cases hown : approveEscrow.own (st.db.signatoriesOf k) u with
      | error e => simp [Proc.alone, sigAdvance, hown]
      | ok s => simp [Proc.alone, sigAdvance, hown]
  | revokeApproval k u =>
    simp only [sigProc, Proc.alone, sigAdvance, SigOp.whole, step, revokeApproval]
    cases hrow : revokeApproval.admit st.db k with
    | error e => simp
    | ok escrow =>
      cases hown : revokeApproval.own (st.db.signatoriesOf k) u with
      | error e => simp [Proc.alone, sigAdvance, hown]
      | ok s => simp [Proc.alone, sigAdvance, hown]

/-- **The runs of whole calls are among the interleavings.** -/
theorem sig_serial (st : Store) (ops : List (SigOp × Time)) :
    ∃ acts, (run sigProc.step (Conf.init st) acts).Quiet ∧
      (run sigProc.step (Conf.init st) acts).shared =
        run (fun st op => step st (op.1.whole op.2)) st ops := by
  refine serial_run sigProc (fun st op => ?_) ops (Conf.init st) fun t ht => by cases ht
  obtain ⟨r, hr⟩ := sig_alone st op.1 op.2
  exact ⟨op.1, _, r, hr⟩

/-! ## The threshold -/

/-- The signatures stored for escrow `k`. -/
def approvals (db : Db) (k : Uuid) : Nat := approvedCount (db.signatoriesOf k)

/-- An approval that sees these rows moves the escrow to APPROVED. -/
def ReachesThreshold (escrow : EscrowAccount) (approvals : Nat) : Prop :=
  escrow.requiredSignatures ≤ approvals ∧ escrow.status ≠ .approved

instance (escrow : EscrowAccount) (n : Nat) : Decidable (ReachesThreshold escrow n) :=
  inferInstanceAs (Decidable (_ ∧ _))

/-- Escrow `k`, with threshold `m`, is APPROVED when enough signatures are stored and FUNDED when
they are not. -/
def Threshold (k : Uuid) (m : Nat) (db : Db) : Prop :=
  ∃ row ∈ db.escrow? k, row.requiredSignatures = m ∧
    (row.status = .approved ↔ m ≤ approvals db k) ∧ (row.status = .funded ↔ approvals db k < m)

instance (k : Uuid) (m : Nat) (db : Db) : Decidable (Threshold k m db) :=
  inferInstanceAs (Decidable (∃ row ∈ db.escrow? k, _))

def thresholdEvents (k : Uuid) (st : Store) : Nat :=
  st.emitted.countP fun
    | .signatureThresholdReached k' _ _ => k' = k
    | _ => false

/-- Escrow `k` goes from FUNDED to APPROVED. -/
def Passage (k : Uuid) (st st' : Store) : Prop :=
  (st.db.escrow? k).map EscrowAccount.status = some .funded ∧
    (st'.db.escrow? k).map EscrowAccount.status = some .approved

instance (k : Uuid) (st st' : Store) : Decidable (Passage k st st') :=
  inferInstanceAs (Decidable (_ ∧ _))

/-- What the write of a call on escrow `k` rests on is still so. An approval takes the same decision
on the rows it read as on the stored ones with its own signature added, and a commit that aborts has
announced nothing; a revocation finds the escrow FUNDED or takes no signature it needs. -/
def Fresh (k : Uuid) (env : Env) (st : Store) : SigCall → Prop
  | .approveCommit k' u _ ip escrow ss s => k' = k → ∀ row ∈ st.db.escrow? k,
    match env.fault with
    | some .insert => True
    | some .commit => ¬ ReachesThreshold escrow (approvedCount (approveEscrow.marked ss u ip env.now))
    | none => ReachesThreshold escrow (approvedCount (approveEscrow.marked ss u ip env.now)) ↔
        ReachesThreshold row (approvals (st.db.saveSignatory (approveEscrow.mark s ip env.now)) k)
  | .revokeWrite k' _ _ s => k' = k → ∀ row ∈ st.db.escrow? k, row.status = .approved →
      row.requiredSignatures ≤ approvals (st.db.saveSignatory (revokeApproval.mark s env.now)) k
  | _ => True

instance Fresh.decidable (k : Uuid) (env : Env) (st : Store) :
    ∀ c : SigCall, Decidable (Fresh k env st c)
  | .approveCommit k' u _ ip escrow ss s =>
    match h : env.fault with
    | some .insert => .isTrue (by simp [Fresh, h])
    | some .commit => decidable_of_iff (k' = k → ∀ row ∈ st.db.escrow? k,
        ¬ ReachesThreshold escrow (approvedCount (approveEscrow.marked ss u ip env.now)))
        (by simp only [Fresh, h])
    | none => decidable_of_iff (k' = k → ∀ row ∈ st.db.escrow? k,
        (ReachesThreshold escrow (approvedCount (approveEscrow.marked ss u ip env.now)) ↔
        ReachesThreshold row (approvals (st.db.saveSignatory (approveEscrow.mark s ip env.now)) k)))
        (by simp only [Fresh, h])
  | .revokeWrite _ _ _ _ => inferInstanceAs (Decidable (_ → _))
  | .start _ => .isTrue trivial
  | .approveRead .. => .isTrue trivial
  | .revokeRead .. => .isTrue trivial

/-! ## Writing one signature -/

section Signatures

variable {k : Uuid} {db : Db} {s : EscrowSignatory}

theorem approvals_eq_countP (db : Db) (k : Uuid) :
    approvals db k = db.signatories.countP fun s => s.hasApproved && s.escrowAccountId = k := by
  simp only [approvals, approvedCount, Db.signatoriesOf, List.countP_filter]

theorem approvals_congr {db' : Db} (h : db'.signatories = db.signatories) :
    approvals db' k = approvals db k := by
  simp only [approvals_eq_countP, h]

theorem approvals_saveSignatory_other (h : s.escrowAccountId ≠ k) :
    approvals (db.saveSignatory s) k = approvals db k := by
  simp only [approvals_eq_countP, Db.saveSignatory]
  refine countP_upsert_eq (fun x hx => ?_) _
  have : x.escrowAccountId = s.escrowAccountId := congrArg Prod.fst hx
  simp [this, h]

theorem approvals_le_of_approved (h : s.hasApproved = true) (hk : s.escrowAccountId = k) :
    approvals db k ≤ approvals (db.saveSignatory s) k := by
  simp only [approvals_eq_countP, Db.saveSignatory]
  exact countP_le_upsert (by simp [h, hk]) _

theorem approvals_le_of_revoked (h : s.hasApproved = false) :
    approvals (db.saveSignatory s) k ≤ approvals db k := by
  simp only [approvals_eq_countP, Db.saveSignatory]
  exact countP_upsert_le (by simp [h]) _

end Signatures

/-! ## What one step does to the threshold -/

/-- The call works on its own escrow; on escrow `k` it has read the threshold `m`. -/
def SigCall.Holds (k : Uuid) (m : Nat) : SigCall → Prop
  | .start _ => True
  | .approveRead k' _ _ _ escrow => escrow.id = k' ∧ (k' = k → escrow.requiredSignatures = m)
  | .approveCommit k' _ _ _ escrow _ s => escrow.id = k' ∧ s.escrowAccountId = k' ∧
      (k' = k → escrow.requiredSignatures = m)
  | .revokeRead _ _ _ => True
  | .revokeWrite k' _ _ s => s.escrowAccountId = k'

/-- What a step keeps: the threshold, and one event for each passage. -/
structure Kept (k : Uuid) (m : Nat) (st st' : Store) : Prop where
  threshold : Threshold k m st'.db
  events : thresholdEvents k st' = thresholdEvents k st + if Passage k st st' then 1 else 0

section Step

variable {k k' u : Uuid} {m : Nat} {env : Env} {st st' : Store} {row escrow : EscrowAccount}
  {s : EscrowSignatory} {ss : List EscrowSignatory}

theorem not_passage_of_same (h : st'.db.escrow? k = st.db.escrow? k) : ¬ Passage k st st' := by
  rintro ⟨hf, ha⟩
  rw [h, hf] at ha
  cases ha

/-- The row of `k` stays, and so does what is announced about it. -/
theorem Kept.of_same_row (h : Threshold k m st'.db) (hrow : st'.db.escrow? k = st.db.escrow? k)
    (he : thresholdEvents k st' = thresholdEvents k st) : Kept k m st st' :=
  ⟨h, by rw [if_neg (not_passage_of_same hrow), he]; rfl⟩

theorem Threshold.congr {db db' : Db} (h : Threshold k m db) (hrow : db'.escrow? k = db.escrow? k)
    (ha : approvals db' k = approvals db k) : Threshold k m db' := by
  obtain ⟨row, hr, hm, happ, hf⟩ := h
  exact ⟨row, hrow.trans hr, hm, by rw [ha]; exact happ, by rw [ha]; exact hf⟩

theorem Kept.of_same_db (h : Threshold k m st.db) (hdb : st'.db = st.db)
    (he : st'.emitted = st.emitted) : Kept k m st st' := by
  refine .of_same_row (by rw [hdb]; exact h) (by rw [hdb]) ?_
  rw [thresholdEvents, thresholdEvents, he]

theorem own_mem {ss : List EscrowSignatory} (h : assertSignatory ss u = .ok s) : s ∈ ss := by
  unfold assertSignatory at h
  split at h
  · rename_i s' hs
    cases h
    exact List.mem_of_find?_eq_some hs
  · cases h

theorem assertSignatory_escrow {db : Db} (h : assertSignatory (db.signatoriesOf k') u = .ok s) :
    s.escrowAccountId = k' := by
  have hm := own_mem h
  simpa [Db.signatoriesOf] using (List.mem_filter.mp hm).2

theorem approveEscrow_own_ok {ss : List EscrowSignatory} (h : approveEscrow.own ss u = .ok s) :
    assertSignatory ss u = .ok s := by
  unfold approveEscrow.own at h
  split at h
  · cases h
  · rename_i s' hs
    split at h
    · cases h
    · cases h
      exact hs

theorem revokeApproval_own_ok {ss : List EscrowSignatory} (h : revokeApproval.own ss u = .ok s) :
    assertSignatory ss u = .ok s := by
  unfold revokeApproval.own at h
  split at h
  · cases h
  · rename_i s' hs
    split at h
    · cases h
    · cases h
      exact hs

/-- A signature for another escrow. -/
theorem Kept.of_other (h : Threshold k m st.db) (hk : s.escrowAccountId ≠ k)
    (hs : st'.db.signatories = upsert EscrowSignatory.key s st.db.signatories)
    (hrow : st'.db.escrow? k = st.db.escrow? k)
    (he : thresholdEvents k st' = thresholdEvents k st) : Kept k m st st' := by
  refine .of_same_row (h.congr hrow ?_) hrow he
  have hsave : approvals st'.db k = approvals (st.db.saveSignatory s) k := approvals_congr hs
  exact hsave.trans (approvals_saveSignatory_other hk)

theorem thresholdEvents_other {n r : Nat} (hk : k' ≠ k)
    (h : st'.emitted = st.emitted ++ [.signatureThresholdReached k' n r]) :
    thresholdEvents k st' = thresholdEvents k st := by
  simp [thresholdEvents, h, hk]

theorem approve_failed_kept {dto : ApproveEscrowDto} {ip : Option String} (h : Threshold k m st.db)
    (hid : escrow.id = k') (hf : Fresh k env st (.approveCommit k' u dto ip escrow ss s))
    (hdb : st'.db = st.db) (hem : st'.emitted = st.emitted ∨ env.fault = some .commit ∧
      ReachesThreshold escrow (approvedCount (approveEscrow.marked ss u ip env.now)) ∧
      st'.emitted = st.emitted ++ [.signatureThresholdReached escrow.id
        (approvedCount (approveEscrow.marked ss u ip env.now)) escrow.requiredSignatures]) :
    Kept k m st st' := by
  rcases hem with hem | ⟨hfault, hmet, hem⟩
  · exact .of_same_db h hdb hem
  · by_cases hkk : k' = k
    · obtain ⟨row, hrow, -⟩ := h
      have hfresh := hf hkk row hrow
      rw [hfault] at hfresh
      exact absurd hmet hfresh
    · refine .of_same_row (by rw [hdb]; exact h) (by rw [hdb]) ?_
      rw [hid] at hem
      exact thresholdEvents_other hkk hem

theorem approve_kept {dto : ApproveEscrowDto} {ip : Option String} (h : Threshold k m st.db)
    (hh : (SigCall.approveCommit k' u dto ip escrow ss s).Holds k m)
    (hf : Fresh k env st (.approveCommit k' u dto ip escrow ss s)) :
    Kept k m st (approveEscrow.commit st escrow ss s u dto ip env.now env.fault).1 := by
  obtain ⟨hid, hsid, hreq⟩ := hh
  rcases approveEscrow.commit_cases st escrow ss s u dto ip env.now env.fault with
    ⟨e, st', hc, hdb, hem⟩ | ⟨st', hnone, hc, hsig, hcase⟩
  · rw [hc]
    exact approve_failed_kept h hid hf hdb hem
  · rw [hc]
    by_cases hkk : k' = k
    · subst hkk
      obtain ⟨row, hrow, hm, happ, hfund⟩ := h
      have hfresh := hf rfl row hrow
      rw [Option.mem_def] at hrow
      rw [hnone] at hfresh
      have hcount : approvals st'.db k' = approvals (st.db.saveSignatory _) k' :=
        approvals_congr hsig
      have hmono : approvals st.db k' ≤ approvals st'.db k' := by
        rw [hcount]
        exact approvals_le_of_approved rfl hsid
      rw [← hcount] at hfresh
      rcases hcase with ⟨hmet, hne, hw, hem⟩ | ⟨hnot, hw, hem⟩
      · -- the passage: enough signatures are stored, and the row was FUNDED
        obtain ⟨hge, hopen⟩ := hfresh.mp ⟨hmet, hne⟩
        rw [hm] at hge
        have hfunded : row.status = .funded := hfund.mpr (not_le.mp fun h => hopen (happ.mpr h))
        have hrow' : st'.db.escrow? k' = some { escrow with status := .approved } := by
          rw [hw, if_pos hid]
        refine ⟨⟨_, hrow', hreq rfl, ?_, ?_⟩, ?_⟩
        · simp [hge]
        · simp [hge]
        · rw [if_pos ⟨by simp [hrow, hfunded], by simp [hrow']⟩]
          simp [thresholdEvents, hem, hid]
      · have hstay : ¬ ReachesThreshold row (approvals st'.db k') := fun h => hnot (hfresh.mpr h)
        rw [ReachesThreshold, hm] at hstay
        refine .of_same_row ⟨row, (hw k').trans hrow, hm, ?_, ?_⟩ (hw k')
          (by rw [thresholdEvents, hem]; rfl)
        · exact ⟨fun ha => (happ.mp ha).trans hmono, fun hge => by_contra fun ha => hstay ⟨hge, ha⟩⟩
        · refine ⟨fun hst => not_le.mp fun hge => hstay ⟨hge, by simp [hst]⟩, fun hlt => ?_⟩
          exact hfund.mpr (lt_of_le_of_lt hmono hlt)
    · have hne : (approveEscrow.mark s ip env.now).escrowAccountId ≠ k := hsid.trans_ne hkk
      rcases hcase with ⟨-, -, hw, hem⟩ | ⟨-, hw, hem⟩
      · rw [hid] at hem hw
        exact .of_other h hne hsig (by rw [hw, if_neg hkk]) (thresholdEvents_other hkk hem)
      · exact .of_other h hne hsig (hw k) (by rw [thresholdEvents, hem]; rfl)

theorem revoke_kept (h : Threshold k m st.db)
    (hh : (SigCall.revokeWrite k' u escrow s).Holds k m)
    (hf : Fresh k env st (.revokeWrite k' u escrow s)) :
    Kept k m st (revokeApproval.commit st escrow s u env.now).1 := by
  by_cases hkk : k' = k
  · subst hkk
    obtain ⟨row, hrow, hm, happ, hfund⟩ := h
    have hfresh := hf rfl row hrow
    have hle : approvals (st.db.saveSignatory (revokeApproval.mark s env.now)) k' ≤
        approvals st.db k' := approvals_le_of_revoked rfl
    refine .of_same_row ⟨row, hrow, hm, ?_, ?_⟩ rfl rfl
    · show row.status = .approved ↔ m ≤ approvals (st.db.saveSignatory _) k'
      rw [hm] at hfresh
      exact ⟨hfresh, fun hge => happ.mpr (hge.trans hle)⟩
    · show row.status = .funded ↔ approvals (st.db.saveSignatory _) k' < m
      refine ⟨fun hst => lt_of_le_of_lt hle (hfund.mp hst), fun hlt => ?_⟩
      refine hfund.mpr (not_le.mp fun hge => ?_)
      have := hfresh (happ.mpr hge)
      omega
  · have hne : (revokeApproval.mark s env.now).escrowAccountId ≠ k := fun e => hkk (hh.symm.trans e)
    exact .of_other h hne rfl rfl rfl

/-- One atomic step of a call: a read changes nothing and leaves a call that works on its own
escrow, a write that is fresh keeps the threshold. -/
theorem sigAdvance_kept (env : Env) {c : SigCall} (h : Threshold k m st.db) (hh : c.Holds k m)
    (hf : Fresh k env st c) :
    Kept k m st (sigAdvance env c st).1 ∧
      ∀ c', (sigAdvance env c st).2 = .running c' → c'.Holds k m := by
  have hsame : Kept k m st st := .of_same_db h rfl rfl
  cases c with
  | start op =>
    cases op with
    | approveEscrow k' u dto ip =>
      simp only [sigAdvance]
      split
      · exact ⟨hsame, fun c' h' => by cases h'⟩
      · rename_i escrow hadmit
        obtain ⟨hrow, -⟩ := approveEscrow.admit_ok hadmit
        refine ⟨hsame, fun c' h' => ?_⟩
        cases h'
        refine ⟨Db.escrow?_id hrow, fun hk => ?_⟩
        obtain ⟨row, hrow', hm, -⟩ := h
        subst hk
        rw [hrow] at hrow'
        cases hrow'
        exact hm
    | revokeApproval k' u =>
      simp only [sigAdvance]
      split
      · exact ⟨hsame, fun c' h' => by cases h'⟩
      · exact ⟨hsame, fun c' h' => by cases h'; trivial⟩
  | approveRead k' u dto ip escrow =>
    simp only [sigAdvance]
    split
    · exact ⟨hsame, fun c' h' => by cases h'⟩
    · rename_i s hown
      refine ⟨hsame, fun c' h' => ?_⟩
      cases h'
      exact ⟨hh.1, assertSignatory_escrow (approveEscrow_own_ok hown), hh.2⟩
  | revokeRead k' u escrow =>
    simp only [sigAdvance]
    split
    · exact ⟨hsame, fun c' h' => by cases h'⟩
    · rename_i s hown
      refine ⟨hsame, fun c' h' => ?_⟩
      cases h'
      exact assertSignatory_escrow (revokeApproval_own_ok hown)
  | approveCommit k' u dto ip escrow ss s =>
    exact ⟨approve_kept h hh hf, fun c' h' => by cases h'⟩
  | revokeWrite k' u escrow s => exact ⟨revoke_kept h hh hf, fun c' h' => by cases h'⟩

end Step

/-! ## Whole interleavings -/

def SigInv (k : Uuid) (m : Nat) (c : Conf Store SigCall (Except HttpError Unit)) : Prop :=
  AllRunning (SigCall.Holds k m) c.tasks ∧ Threshold k m c.shared.db

abbrev FreshStep (k : Uuid) :
    Conf Store SigCall (Except HttpError Unit) → Act Env SigOp → Prop :=
  Meets (fun _ => True) fun env c st _ => Fresh k env st c

theorem sigInv_step {k : Uuid} {m : Nat} (c : Conf Store SigCall (Except HttpError Unit))
    (a : Act Env SigOp) (h : SigInv k m c) (hG : FreshStep k c a) :
    SigInv k m (sigProc.step c a) ∧
      thresholdEvents k (sigProc.step c a).shared = thresholdEvents k c.shared +
        if Passage k c.shared (sigProc.step c a).shared then 1 else 0 := by
  obtain ⟨hh, ht⟩ := h
  have hsame : ¬ Passage k c.shared c.shared := not_passage_of_same rfl
  obtain ⟨x, rfl, hs⟩ | ⟨i, env, call, pre, post, rfl, hi, hts, hs⟩ | hs := step_cases sigProc c a
  · rw [hs, if_neg hsame]
    exact ⟨⟨hh.spawn trivial, ht⟩, rfl⟩
  · have hf := hG call hi
    rw [hts] at hh
    obtain ⟨hk, hnext⟩ := sigAdvance_kept env ht hh.here hf
    rw [hs]
    exact ⟨⟨hh.replace hnext, hk.threshold⟩, hk.events⟩
  · rw [hs, if_neg hsame]
    exact ⟨⟨hh, ht⟩, rfl⟩

/-- What is asked of an interleaving that has come to rest: the status tells whether the threshold
is met, and one event was emitted for each passage from FUNDED to APPROVED on the way. -/
def ThresholdKept (k : Uuid) (m : Nat) (st : Store) (acts : List (Act Env SigOp)) : Prop :=
  (run sigProc.step (Conf.init st) acts).Quiet →
    Threshold k m (run sigProc.step (Conf.init st) acts).shared.db ∧
    thresholdEvents k (run sigProc.step (Conf.init st) acts).shared = thresholdEvents k st +
      count sigProc.step (fun c c' => Passage k c.shared c'.shared) (Conf.init st) acts

instance (k : Uuid) (m : Nat) (st : Store) (acts : List (Act Env SigOp)) :
    Decidable (ThresholdKept k m st acts) :=
  inferInstanceAs (Decidable (_ → _))

/-- **Every interleaving of fresh approvals and revocations keeps the threshold.** -/
theorem threshold_of_fresh {k : Uuid} {m : Nat} {st : Store} (h : Threshold k m st.db)
    (acts : List (Act Env SigOp)) (hG : Along sigProc.step (FreshStep k) (Conf.init st) acts) :
    ThresholdKept k m st acts := by
  intro _
  have h0 : SigInv k m (Conf.init st) := ⟨AllRunning.nil, h⟩
  exact ⟨(run_inv (fun c a hI hG => (sigInv_step c a hI hG).1) h0 hG).2,
    count_eq (f := fun c => thresholdEvents k c.shared) sigInv_step h0 hG⟩

/-- The two signatories approve one after the other. -/
def serialApprovals : List (Act Env SigOp) :=
  [.spawn (.approveEscrow 7 1 ⟨none⟩ none), .sched 0 ⟨0, none⟩, .sched 0 ⟨0, none⟩, .sched 0 ⟨0, none⟩,
    .spawn (.approveEscrow 7 2 ⟨none⟩ none), .sched 1 ⟨0, none⟩, .sched 1 ⟨0, none⟩, .sched 1 ⟨0, none⟩]

theorem threshold_serial_approvals : ThresholdKept 7 2 fundedStore serialApprovals ∧
    thresholdEvents 7 (run sigProc.step (Conf.init fundedStore) serialApprovals).shared = 1 :=
  ⟨threshold_of_fresh (by decide +kernel) serialApprovals (by decide +kernel), by decide +kernel⟩

/-- Both signatories read before either writes. -/
def racingApprovals : List (Act Env SigOp) :=
  [.spawn (.approveEscrow 7 1 ⟨none⟩ none), .spawn (.approveEscrow 7 2 ⟨none⟩ none),
    .sched 0 ⟨0, none⟩, .sched 0 ⟨0, none⟩, .sched 1 ⟨0, none⟩, .sched 1 ⟨0, none⟩,
    .sched 0 ⟨0, none⟩, .sched 1 ⟨0, none⟩]

/-- A funded escrow that one signature approves. -/
def singleStore : Store :=
  run step Store.empty [.createEscrow 1 { plainDto 10 with requiredSignatures := 1 } ⟨7, id⟩ 0,
    .fundEscrow 7 1 "tx" 0]

/-- With threshold 2 each call counts one signature: both are stored and the escrow stays FUNDED.
With threshold 1 both calls announce the one passage. -/
theorem racing_approvals_stay_funded :
    (Threshold 7 2 fundedStore.db ∧
      ((run sigProc.step (Conf.init fundedStore) racingApprovals).shared.db.escrow? 7).map
        EscrowAccount.status = some .funded ∧
      approvals (run sigProc.step (Conf.init fundedStore) racingApprovals).shared.db 7 = 2 ∧
      ¬ ThresholdKept 7 2 fundedStore racingApprovals) ∧
    (Threshold 7 1 singleStore.db ∧
      thresholdEvents 7 (run sigProc.step (Conf.init singleStore) racingApprovals).shared = 2 ∧
      ¬ ThresholdKept 7 1 singleStore racingApprovals) := by
  decide +kernel

end Escrow
end TradeCore
