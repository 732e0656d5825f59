import TradeCore.Escrow.Lifecycle
import TradeCore.Lib.Run

/-!
# TradeCore.Escrow.Discipline

What whole runs of escrow requests keep about one escrow.

* `Disciplined`: a SETTLED, REFUNDED or CANCELLED escrow stays as it is, a DISPUTED one is frozen
  until `resolveDispute`, and a PENDING one has nothing released. The force path of `releaseFunds`
  skips every check of the status, so this holds in the runs that never force a release out of one
  of these statuses (`disciplined_of_unforced`), and not in all runs (`forced_release_undisciplined`).
* `Agrees`: the status and the amount released tell the same story. `resolveDispute` settles or
  refunds without looking at the amount, and an escrow may be created over nothing; apart from
  these two the pair stays in agreement (`agrees_of_resolved`).
-/

namespace TradeCore
namespace Escrow

open Lib

/-! ## Terminal, disputed and pending escrows -/

def terminalStatuses : List EscrowStatus := [.settled, .refunded, .cancelled]

structure Disciplined (st : Store) (ops : List Op) : Prop where
  terminal : ∀ pre post, ops = pre ++ post → ∀ id row, (run step st pre).db.escrow? id = some row →
    row.status ∈ terminalStatuses → ∃ row', (run step st (pre ++ post)).db.escrow? id = some row' ∧
      row'.status = row.status ∧ row'.releasedAmount = row.releasedAmount
  disputed : ∀ pre op post, ops = pre ++ op :: post → ∀ id row,
    (run step st pre).db.escrow? id = some row → row.status = .disputed →
    ∃ row', (run step st (pre ++ [op])).db.escrow? id = some row' ∧
      row'.releasedAmount = row.releasedAmount ∧
      (row'.status = .disputed ∨ ∃ u b now, op = .resolveDispute id u b now)
  pending : ∀ pre op post, ops = pre ++ op :: post → ∀ id row,
    (run step st pre).db.escrow? id = some row → row.status = .pending →
    ∃ row', (run step st (pre ++ [op])).db.escrow? id = some row' ∧
      row'.releasedAmount = row.releasedAmount

/-- A forced release acts on no escrow that is pending, disputed or over, unless there is nothing
left to release. -/
def Unforced (st : Store) : Op → Prop
  | .releaseFunds k _ .admin _ _ => ∀ row, st.db.escrow? k = some row →
      row.status ∉ [.pending, .disputed, .settled, .refunded, .cancelled] ∨
        row.releasedAmount = row.amount
  | _ => True

theorem trans_disciplined {id : Uuid} {op : Op} {v v' : View} (ht : Trans id op v v')
    (hu : ∀ u dto now, op = .releaseFunds id u .admin dto now →
      v.status ∉ [.pending, .disputed, .settled, .refunded, .cancelled] ∨ v.released = v.amount) :
    v.status ∉ terminalStatuses ∧
      (v.status = .disputed → v'.released = v.released ∧ ∃ u b now, op = .resolveDispute id u b now) ∧
      (v.status = .pending → v'.released = v.released) := by
  cases ht with
  | release h hpos hle =>
    rename_i u role dto now x
    have hstatus : v.status ∉ [.pending, .disputed, .settled, .refunded, .cancelled] := by
      rcases h with rfl | h | h
      · rcases hu u dto now rfl with h | h
        · exact h
        · omega
      · simp [h]
      · simp [h]
    simp only [List.mem_cons, List.not_mem_nil, or_false, not_or] at hstatus
    obtain ⟨h1, h2, h3, h4, h5⟩ := hstatus
    refine ⟨by simp [terminalStatuses, h3, h4, h5], fun h => absurd h h2, fun h => absurd h h1⟩
  | resolve h =>
    exact ⟨by simp [terminalStatuses, h], fun _ => ⟨rfl, _, _, _, rfl⟩, fun _ => rfl⟩
  | timeLock h =>
    simp only [List.mem_cons, List.not_mem_nil, or_false] at h
    rcases h with h | h <;> simp [terminalStatuses, h]
  | fund h => simp [terminalStatuses, h]
  | approve h => simp [terminalStatuses, h]
  | cancel h => simp [terminalStatuses, h]
  | refund h _ | flag h | expire h | timeout h =>
    cases hv : v.status <;> simp [hv, terminalStatuses] at h ⊢

/-- One unforced request: the row stays, and keeps what its status asks it to keep. -/
theorem step_disciplined {st : Store} {op : Op} (hu : Unforced st op) {id : Uuid}
    {row : EscrowAccount} (hrow : st.db.escrow? id = some row) :
    ∃ row', (step st op).db.escrow? id = some row' ∧
      (row.status ∈ terminalStatuses → row' = row) ∧
      (row.status = .disputed → row'.releasedAmount = row.releasedAmount ∧
        (row'.status = .disputed ∨ ∃ u b now, op = .resolveDispute id u b now)) ∧
      (row.status = .pending → row'.releasedAmount = row.releasedAmount) := by
  have he := step_refines st op id
  rw [hrow] at he
  generalize hs : (step st op).db.escrow? id = o at he
  cases he with
  | same => exact ⟨row, rfl, fun _ => rfl, fun h => ⟨rfl, .inl h⟩, fun _ => rfl⟩
  | @move _ row' ht =>
    have hforce : ∀ u dto now, op = .releaseFunds id u .admin dto now →
        row.view.status ∉ [.pending, .disputed, .settled, .refunded, .cancelled] ∨
          row.view.released = row.view.amount := by
      rintro u dto now rfl
      rcases hu row hrow with h | h
      · exact .inl h
      · exact .inr (by simp only [EscrowAccount.view, h])
    obtain ⟨hterm, hdisp, hpend⟩ := trans_disciplined ht hforce
    refine ⟨row', rfl, fun h => absurd h hterm, fun h => ?_, fun h => Numeric.ext_stroops (hpend h)⟩
    exact ⟨Numeric.ext_stroops (hdisp h).1, .inr (hdisp h).2⟩

theorem terminal_stays {st : Store} {ops : List Op} (hu : Along step Unforced st ops) {id : Uuid}
    {row : EscrowAccount} (hrow : st.db.escrow? id = some row) (ht : row.status ∈ terminalStatuses) :
    (run step st ops).db.escrow? id = some row := by
  induction ops generalizing st with
  | nil => exact hrow
  | cons op ops ih =>
    obtain ⟨row', hrow', hkeep, -⟩ := step_disciplined hu.1 hrow
    rw [hkeep ht] at hrow'
    exact ih hu.2 hrow'

/-- **In every run that forces no release out of a pending, disputed or finished escrow, the
terminal statuses are final, disputes freeze the escrow and nothing is released before funding.** -/
theorem disciplined_of_unforced (st : Store) (ops : List Op) (hu : Along step Unforced st ops) :
    Disciplined st ops where
  terminal := by
    rintro pre post rfl id row hrow ht
    obtain ⟨-, hpost⟩ := along_append.mp hu
    rw [run_append]
    exact ⟨row, terminal_stays hpost hrow ht, rfl, rfl⟩
  disputed := by
    rintro pre op post rfl id row hrow hd
    obtain ⟨-, hop, -⟩ := along_append.mp hu
    obtain ⟨row', hrow', -, hdisp, -⟩ := step_disciplined hop hrow
    rw [run_append]
    exact ⟨row', hrow', hdisp hd⟩
  pending := by
    rintro pre op post rfl id row hrow hp
    obtain ⟨-, hop, -⟩ := along_append.mp hu
    obtain ⟨row', hrow', -, -, hpend⟩ := step_disciplined hop hrow
    rw [run_append]
    exact ⟨row', hrow', hpend hp⟩

/-- A whole-number amount of a request. -/
def jsInt (n : Nat) : JsNumber := ⟨n, Nat.toDigits 10 n⟩

/-- A request for an escrow of `amount`, with the two signatories 1 and 2. -/
def plainDto (amount : Nat) : CreateEscrowDto where
  type := .standard
  requiredSignatures := 2
  assetCode := "XLM"
  amount := jsInt amount
  settlementDeadline := .undefined
  timeLockExpiry := .undefined
  signatories := [⟨1, .creator⟩, ⟨2, .counterparty⟩]
  milestones := none

/-- An escrow over 10 that has been funded. -/
def fundedStore : Store :=
  run step Store.empty [.createEscrow 1 (plainDto 10) ⟨7, id⟩ 0, .fundEscrow 7 1 "tx" 0]

/-- An escrow of 10 is funded and disputed; an admin then releases 4 of it. -/
def forcedRun : List Op :=
  [.createEscrow 1 (plainDto 10) ⟨7, id⟩ 0, .fundEscrow 7 1 "tx" 0, .flagDispute 7 2 ⟨"late"⟩,
    .releaseFunds 7 9 .admin ⟨some (jsInt 4), none⟩ 0]

/-- While the escrow is disputed the forced release moves 4 of the 10 and ends the dispute. -/
theorem forced_release_undisciplined : ¬ Disciplined Store.empty forcedRun := by
  intro h
  have hbefore : ((run step Store.empty (forcedRun.take 3)).db.escrow? 7).map EscrowAccount.view =
      some ⟨.disputed, 0, 100000000⟩ := by decide +kernel
  have hafter : ((run step Store.empty forcedRun).db.escrow? 7).map EscrowAccount.view =
      some ⟨.partiallyReleased, 40000000, 100000000⟩ := by decide +kernel
  obtain ⟨row, hrow, hv⟩ := Option.map_eq_some_iff.mp hbefore
  obtain ⟨row', hrow', hv'⟩ := Option.map_eq_some_iff.mp hafter
  obtain ⟨row2, hrow2, hrel, -⟩ :=
    h.disputed (forcedRun.take 3) _ [] rfl 7 row hrow (congrArg View.status hv)
  have : row2 = row' := Option.some.inj (hrow2.symm.trans hrow')
  subst this
  have h0 : row.releasedAmount.stroops = 0 := congrArg View.released hv
  have h4 : row2.releasedAmount.stroops = 40000000 := congrArg View.released hv'
  rw [hrel] at h4
  omega

/-- An admin may still force a release out of a funded escrow. -/
def fundedForceRun : List Op :=
  [.createEscrow 1 (plainDto 10) ⟨7, id⟩ 0, .fundEscrow 7 1 "tx" 0,
    .releaseFunds 7 9 .admin ⟨some (jsInt 4), none⟩ 0]

theorem disciplined_funded_force : Disciplined Store.empty fundedForceRun := by
  refine disciplined_of_unforced _ _ ⟨trivial, trivial, fun row hrow => .inl ?_, trivial⟩
  have h : ((run step Store.empty (fundedForceRun.take 2)).db.escrow? 7).map EscrowAccount.view =
      some ⟨.funded, 0, 100000000⟩ := by decide +kernel
  obtain ⟨row', hrow', hv⟩ := Option.map_eq_some_iff.mp h
  have : row = row' := Option.some.inj (hrow.symm.trans hrow')
  subst this
  have hs : row.status = .funded := congrArg View.status hv
  simp [hs]

/-! ## Status and amount -/

structure Agrees (row : EscrowAccount) : Prop where
  settled : row.status = .settled ↔ row.releasedAmount.stroops = row.amount.stroops
  refunded : row.status = .refunded → row.releasedAmount.stroops = 0
  partiallyReleased : row.status = .partiallyReleased →
    0 < row.releasedAmount.stroops ∧ row.releasedAmount.stroops < row.amount.stroops
  unreleased : row.status ∈ [.pending, .funded, .approved] → row.releasedAmount.stroops = 0

def AllAgree (st : Store) : Prop := ∀ id row, st.db.escrow? id = some row → Agrees row

/-- No escrow is created over nothing, and a dispute is resolved only by refunding an escrow of
which nothing was released. -/
def Resolved (st : Store) : Op → Prop
  | .createEscrow _ dto _ _ => ∀ amount : Numeric,
      SqlNumeric.ofText? 30 7 dto.amount.text = some amount → amount.stroops ≠ 0
  | .resolveDispute k _ b _ => ∀ row, st.db.escrow? k = some row → row.status = .disputed →
      b = true ∧ row.releasedAmount.stroops = 0
  | _ => True

/-- The invariant behind `Agrees`: the statuses a release does not reach have nothing released. -/
structure View.Sound (v : View) : Prop where
  pos : 0 < v.amount
  nonneg : 0 ≤ v.released
  settled : v.status = .settled ↔ v.released = v.amount
  partiallyReleased : v.status = .partiallyReleased → 0 < v.released ∧ v.released < v.amount
  unreleased : v.status ∈ [.pending, .awaitingFunding, .funded, .approved, .refunded, .expired,
    .cancelled] → v.released = 0

theorem View.Sound.agrees {row : EscrowAccount} (h : row.view.Sound) : Agrees row where
  settled := h.settled
  refunded hs := h.unreleased (by simp [EscrowAccount.view, hs])
  partiallyReleased := h.partiallyReleased
  unreleased hs := h.unreleased (by
    simp only [List.mem_cons, List.not_mem_nil, or_false] at hs
    rcases hs with hs | hs | hs <;> simp [EscrowAccount.view, hs])

/-- A view whose new status has nothing released, moved there from one that has not either. -/
theorem View.Sound.unmoved {v : View} (h : v.Sound) {s : EscrowStatus} (h0 : v.released = 0)
    (hs : s ≠ .settled) (hp : s ≠ .partiallyReleased) : View.Sound { v with status := s } where
  pos := h.pos
  nonneg := h.nonneg
  settled := by
    have := h.pos
    have hne : v.released ≠ v.amount := by omega
    simp [hs, hne]
  partiallyReleased h' := absurd h' hp
  unreleased _ := h0

theorem View.Sound.release {v : View} (h : v.Sound) {x : Int} (hpos : 0 < x)
    (hle : x ≤ v.amount - v.released) : (v.release x).Sound := by
  have h0 := h.nonneg
  by_cases hx : v.released + x = v.amount
  · rw [View.release, if_pos hx, hx]
    exact ⟨h.pos, h.pos.le, by simp, by simp, by simp⟩
  · rw [View.release, if_neg hx]
    refine ⟨h.pos, ?_, by simp [hx], fun _ => ?_, by simp⟩
    · show 0 ≤ v.released + x
      omega
    · show 0 < v.released + x ∧ v.released + x < v.amount
      omega

/-- Disputing keeps the pair sound: the escrow was not settled. -/
theorem View.Sound.dispute {v : View} (h : v.Sound) (hs : v.status ≠ .settled) :
    View.Sound { v with status := .disputed } where
  pos := h.pos
  nonneg := h.nonneg
  settled := by
    have : v.released ≠ v.amount := fun e => hs (h.settled.mpr e)
    simp [this]
  partiallyReleased h' := by cases h'
  unreleased h' := by simp at h'

theorem trans_sound {id : Uuid} {op : Op} {v v' : View} (ht : Trans id op v v') (h : v.Sound)
    (hr : ∀ u b now, op = .resolveDispute id u b now → v.status = .disputed →
      b = true ∧ v.released = 0) : v'.Sound := by
  cases ht with
  | fund hs => exact h.unmoved (h.unreleased (by simp [hs])) (by simp) (by simp)
  | approve hs => exact h.unmoved (h.unreleased (by simp [hs])) (by simp) (by simp)
  | release _ hpos hle => exact h.release hpos hle
  | refund hs _ =>
    refine h.unmoved (h.unreleased ?_) (by simp) (by simp)
    cases hv : v.status <;> simp [hv] at hs ⊢
  | cancel hs => exact h.unmoved (h.unreleased (by simp [hs])) (by simp) (by simp)
  | flag hs =>
    refine h.dispute fun he => ?_
    simp [he] at hs
  | resolve hs =>
    rename_i u b now
    obtain ⟨rfl, h0⟩ := hr u b now rfl hs
    exact h.unmoved h0 (by simp) (by simp)
  | expire hs =>
    refine h.unmoved (h.unreleased ?_) (by simp) (by simp)
    cases hv : v.status <;> simp [hv] at hs ⊢
  | timeout hs =>
    refine h.unmoved (h.unreleased ?_) (by simp) (by simp)
    cases hv : v.status <;> simp [hv] at hs ⊢
  | timeLock _ => exact ⟨h.pos, h.pos.le, by simp, by simp, by simp⟩

def AllSound (st : Store) : Prop := ∀ id row, st.db.escrow? id = some row → row.view.Sound

theorem step_sound (st : Store) (op : Op) (h : AllSound st) (hr : Resolved st op) :
    AllSound (step st op) := by
  intro id row' hrow'
  have he := step_refines st op id
  rw [hrow'] at he
  generalize hb : st.db.escrow? id = o at he
  cases he with
  | same => exact h id row' hb
  | move ht =>
    rename_i row
    have hv := h id row hb
    refine trans_sound ht hv ?_
    rintro u b now rfl hd
    exact hr row hb hd
  | create hop hamount hcheck =>
    subst hop
    have hne := hr _ hamount
    rename_i amount
    refine ⟨?_, le_refl _, ?_, ?_, fun _ => rfl⟩
    · show 0 < amount.stroops
      omega
    · have : (Numeric.zero).stroops ≠ amount.stroops := fun e => hne e.symm
      simp [EscrowAccount.view, createEscrow.row, this]
    · intro hs; cases hs

/-- **In every state of a run that creates no empty escrow and resolves disputes only by refunding
an untouched one, status and amount agree.** -/
theorem agrees_of_resolved (ops : List Op) (hr : Along step Resolved Store.empty ops) :
    Always step AllAgree Store.empty ops := by
  refine always_of_inv (I := AllSound) (fun st h id row hrow => (h id row hrow).agrees) step_sound
    (fun id row hrow => ?_) hr
  cases hrow

def settledDisputeRun : List Op :=
  [.createEscrow 1 (plainDto 10) ⟨7, id⟩ 0, .fundEscrow 7 1 "tx" 0, .flagDispute 7 2 ⟨"late"⟩,
    .resolveDispute 7 9 false 0]

/-- The escrow is SETTLED and nothing of its 10 was released. -/
theorem settled_dispute_disagrees : ¬ AllAgree (run step Store.empty settledDisputeRun) := by
  intro h
  have hv : ((run step Store.empty settledDisputeRun).db.escrow? 7).map EscrowAccount.view =
      some ⟨.settled, 0, 100000000⟩ := by decide +kernel
  obtain ⟨row, hrow, hv⟩ := Option.map_eq_some_iff.mp hv
  have hs := (h 7 row hrow).settled.mp (congrArg View.status hv)
  have h0 : row.releasedAmount.stroops = 0 := congrArg View.released hv
  have ha : row.amount.stroops = 100000000 := congrArg View.amount hv
  omega

/-- A dispute resolved in favour of the creator before anything was released. -/
def refundedDisputeRun : List Op :=
  [.createEscrow 1 (plainDto 10) ⟨7, id⟩ 0, .fundEscrow 7 1 "tx" 0, .flagDispute 7 2 ⟨"late"⟩,
    .resolveDispute 7 9 true 0]

theorem agrees_refunded_dispute : Always step AllAgree Store.empty refundedDisputeRun := by
  refine agrees_of_resolved _ ⟨fun amount ha => ?_, trivial, trivial, fun row hrow _ => ⟨rfl, ?_⟩,
    trivial⟩
  · have h10 : (SqlNumeric.ofText? 30 7 (plainDto 10).amount.text).map SqlNumeric.units =
        some 100000000 := by decide +kernel
    rw [ha] at h10
    have : amount.stroops = 100000000 := Option.some.inj h10
    omega
  · have h : ((run step Store.empty (refundedDisputeRun.take 3)).db.escrow? 7).map EscrowAccount.view =
        some ⟨.disputed, 0, 100000000⟩ := by decide +kernel
    obtain ⟨row', hrow', hv⟩ := Option.map_eq_some_iff.mp h
    have : row = row' := Option.some.inj (hrow.symm.trans hrow')
    subst this
    exact congrArg View.released hv

end Escrow
end TradeCore
