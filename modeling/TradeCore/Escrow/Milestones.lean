import TradeCore.Escrow.Discipline

/-!
# TradeCore.Escrow.Milestones

What the milestones of an escrow bound. A milestone row holds the amount to release when it is
completed, but `releaseFunds` reads of a milestone only whether it is completed, and a release that
cites none reads no milestone at all.

`History` is a store with what has happened to one escrow: the releases, each with the milestone it
cited, and the milestones that have been marked completed. `Capped` says that the milestones bound
the releases. `capped_iff_within` is the exact condition: every release asks for no more than the
milestones allow, which the service does not check (`uncapped_release`).
-/

namespace TradeCore
namespace Escrow

open Lib

structure History where
  store : Store
  released : List (Option Uuid × Int)
  marked : List Uuid

/-- The milestones completed in the tables are marked; no release has been made. -/
def History.start (k : Uuid) (st : Store) : History where
  store := st
  released := []
  marked := (st.db.milestones.filter fun m => m.escrowAccountId = k ∧ m.isCompleted).map (·.id)

/-- The two requests; releases are not by admins. -/
inductive MilestoneOp where
  | updateMilestone (milestoneId userId : Uuid) (userRole : UserRole) (dto : UpdateMilestoneDto)
      (now : Time)
  | releaseFunds (userId : Uuid) (userRole : UserRole) (unforced : userRole ≠ .admin)
      (dto : ReleaseFundsDto) (now : Time)

def milestoneStep (k : Uuid) (h : History) : MilestoneOp → History
  | .updateMilestone m u role dto now =>
    match updateMilestone h.store k m u role dto now with
    | (st, .ok milestone) =>
      { h with
        store := st
        marked := if milestone.isCompleted then h.marked.insert milestone.id else h.marked }
    | (st, .error _) => { h with store := st }
  | .releaseFunds u role _ dto now =>
    match releaseFunds h.store k u role dto now with
    | (st, .ok x) => { h with store := st, released := h.released ++ [(dto.milestoneId, x)] }
    | (st, .error _) => { h with store := st }

/-- What a milestone contributes to the amount that may be released. -/
def EscrowMilestone.unlocks (k : Uuid) (marked : List Uuid) (m : EscrowMilestone) : Int :=
  if m.escrowAccountId = k ∧ m.id ∈ marked then m.amount.stroops else 0

/-- The amounts of the milestones marked completed. -/
def History.unlocked (k : Uuid) (h : History) : Int :=
  (h.store.db.milestones.map (EscrowMilestone.unlocks k h.marked)).sum

/-- The stroops of the releases that cite a milestone. -/
def History.citing (h : History) (milestoneId : Uuid) : Int :=
  ((h.released.filter fun r => r.1 = some milestoneId).map (·.2)).sum

structure Capped (k : Uuid) (h : History) : Prop where
  total : ∀ row, h.store.db.escrow? k = some row → row.releasedAmount.stroops ≤ h.unlocked k
  each : ∀ m ∈ h.store.db.milestones, m.escrowAccountId = k →
    some m.id ∈ h.released.map (·.1) → h.citing m.id ≤ m.amount.stroops

/-- The stroops a request asks for: its amount, or what is left of the escrow. -/
def ReleaseFundsDto.asks (dto : ReleaseFundsDto) (row : EscrowAccount) : Int :=
  match dto.amount with
  | none => row.amount.stroops - row.releasedAmount.stroops
  | some x => (toStroops (.number x)).getD 0

/-- `releaseFunds` lets the request through. -/
def Admits (db : Db) (k : Uuid) (role : UserRole) (dto : ReleaseFundsDto) (now : Time) : Prop :=
  ∃ plan, releaseFunds.plan db k role dto now = .ok plan

/-- A request stays within what the milestones allow. A milestone of a negative amount lowers the
cap when it is marked. -/
def Within (k : Uuid) (h : History) : MilestoneOp → Prop
  | .releaseFunds _ role _ dto now => ∀ row, h.store.db.escrow? k = some row →
      Admits h.store.db k role dto now →
      row.releasedAmount.stroops + dto.asks row ≤ h.unlocked k ∧
      ∀ m ∈ h.store.db.milestones, m.escrowAccountId = k → dto.milestoneId = some m.id →
        h.citing m.id + dto.asks row ≤ m.amount.stroops
  | .updateMilestone id u role dto _ => ∀ row m, updateMilestone.admit h.store.db k id u role = .ok (row, m) →
      dto.isCompleted = true → m.id ∉ h.marked →
      row.releasedAmount.stroops ≤ h.unlocked k + m.amount.stroops

/-! ## One request -/

theorem unlocks_insert {k i : Uuid} {marked : List Uuid} {m : EscrowMilestone} (h : m.id ≠ i) :
    m.unlocks k (marked.insert i) = m.unlocks k marked := by
  simp [EscrowMilestone.unlocks, List.mem_insert_iff, h]

theorem map_unlocks_insert {k i : Uuid} {marked : List Uuid} {ms : List EscrowMilestone}
    (h : i ∉ ms.map (·.id)) :
    ms.map (EscrowMilestone.unlocks k (marked.insert i)) = ms.map (EscrowMilestone.unlocks k marked) := by
  refine List.map_congr_left fun m hm => unlocks_insert fun he => h ?_
  rw [← he]
  exact List.mem_map_of_mem hm

theorem sum_unlocks_insert {k : Uuid} {marked : List Uuid} {ms : List EscrowMilestone}
    {m : EscrowMilestone} (hn : (ms.map (·.id)).Nodup) (hm : m ∈ ms) (hk : m.escrowAccountId = k)
    (hnew : m.id ∉ marked) :
    (ms.map (EscrowMilestone.unlocks k (marked.insert m.id))).sum =
      (ms.map (EscrowMilestone.unlocks k marked)).sum + m.amount.stroops := by
  induction ms with
  | nil => cases hm
  | cons x xs ih =>
    simp only [List.map_cons, List.nodup_cons] at hn
    rcases List.mem_cons.mp hm with rfl | hm
    · have hhere : m.unlocks k (marked.insert m.id) = m.amount.stroops := by
        simp [EscrowMilestone.unlocks, List.mem_insert_iff, hk]
      have hbefore : m.unlocks k marked = 0 := by simp [EscrowMilestone.unlocks, hnew]
      simp only [List.map_cons, List.sum_cons, map_unlocks_insert hn.1, hhere, hbefore]
      omega
    · have hne : x.id ≠ m.id := fun he => hn.1 (he ▸ List.mem_map_of_mem hm)
      simp only [List.map_cons, List.sum_cons, unlocks_insert hne, ih hn.2 hm]
      omega

/-- What the caps read of a milestone. -/
def EscrowMilestone.terms (m : EscrowMilestone) : Uuid × Uuid × Int :=
  (m.id, m.escrowAccountId, m.amount.stroops)

theorem map_unlocks_of_terms {k : Uuid} {marked : List Uuid} {ms ms' : List EscrowMilestone}
    (h : ms'.map EscrowMilestone.terms = ms.map EscrowMilestone.terms) :
    ms'.map (EscrowMilestone.unlocks k marked) = ms.map (EscrowMilestone.unlocks k marked) := by
  have hcomp : EscrowMilestone.unlocks k marked =
      (fun t : Uuid × Uuid × Int => if t.2.1 = k ∧ t.1 ∈ marked then t.2.2 else 0) ∘
        EscrowMilestone.terms := rfl
  rw [hcomp, ← List.map_map, h, List.map_map]

theorem ids_of_terms {ms ms' : List EscrowMilestone}
    (h : ms'.map EscrowMilestone.terms = ms.map EscrowMilestone.terms) :
    ms'.map (·.id) = ms.map (·.id) := by
  have := congrArg (List.map Prod.fst) h
  simpa [List.map_map, Function.comp_def, EscrowMilestone.terms] using this

theorem milestone?_some {db : Db} {k i : Uuid} {m : EscrowMilestone} (h : db.milestone? k i = some m) :
    m ∈ db.milestones ∧ m.id = i ∧ m.escrowAccountId = k := by
  refine ⟨List.mem_of_find?_eq_some h, ?_⟩
  simpa using List.find?_some h

theorem updateMilestone.admit_ok {db : Db} {k i u : Uuid} {role : UserRole} {row : EscrowAccount}
    {m : EscrowMilestone} (h : updateMilestone.admit db k i u role = .ok (row, m)) :
    db.escrow? k = some row ∧ db.milestone? k i = some m := by
  unfold updateMilestone.admit at h
  split at h
  · cases h
  · rename_i escrow hrow
    simp only [ite_error_eq_ok] at h
    obtain ⟨-, -, -, h⟩ := h
    split at h
    · cases h
    · rename_i milestone hm
      cases h
      exact ⟨getEscrowOrThrow_ok.mp hrow, hm⟩

/-- Every way `updateMilestone` can end: the row it saves is the one it found but for its
completion, which is what the request says. -/
theorem updateMilestone_cases (st : Store) (k i u : Uuid) (role : UserRole) (dto : UpdateMilestoneDto)
    (now : Time) :
    (∃ e, updateMilestone st k i u role dto now = (st, .error e) ∧
      ∀ rm, updateMilestone.admit st.db k i u role = .ok rm → dto.isCompleted = false) ∨
    ∃ row m m' st', updateMilestone.admit st.db k i u role = .ok (row, m) ∧
      updateMilestone st k i u role dto now = (st', .ok m') ∧ m'.terms = m.terms ∧
      m'.isCompleted = dto.isCompleted ∧
      st'.db.milestones = upsert EscrowMilestone.id m' st.db.milestones ∧
      st'.db.escrow? k = st.db.escrow? k := by
  unfold updateMilestone
  cases hadm : updateMilestone.admit st.db k i u role with
  | error e => exact .inl ⟨e, rfl, fun _ h => by cases h⟩
  | ok rm =>
    obtain ⟨row, m⟩ := rm
    dsimp only
    split
    · rename_i hc
      exact .inr ⟨row, m, _, _, rfl, rfl, rfl, hc.1.symm, rfl, rfl⟩
    · split
      · rename_i hc
        split
        · exact .inl ⟨_, rfl, fun _ _ => by simpa using hc.1⟩
        · exact .inr ⟨row, m, _, _, rfl, rfl, rfl, by simpa using hc.1, rfl, rfl⟩
      · rename_i h1 h2
        refine .inr ⟨row, m, _, _, rfl, rfl, rfl, ?_, rfl, rfl⟩
        cases hd : dto.isCompleted <;> cases hm : m.isCompleted <;> simp_all

theorem asks_of_amounts {row : EscrowAccount} {dto : ReleaseFundsDto} {now : Time} {plan : ReleasePlan}
    (h : releaseFunds.amounts row dto now = .ok plan) : plan.releaseStroops = dto.asks row := by
  unfold releaseFunds.amounts at h
  split at h
  · cases h
  · rename_i t d r hst
    simp only [ite_error_eq_ok] at h
    obtain ⟨-, h⟩ := h
    cases h
    unfold ReleaseFundsDto.asks
    cases hx : dto.amount with
    | none =>
      simp only [releaseFunds.stroops, toStroops_text, hx, Option.some.injEq, Prod.mk.injEq] at hst
      obtain ⟨-, -, rfl⟩ := hst
      rfl
    | some x =>
      simp only [releaseFunds.stroops, toStroops_text, hx, Option.map_eq_some_iff, Prod.mk.injEq] at hst
      obtain ⟨_, hr, -, -, rfl⟩ := hst
      simp [hr]

theorem releaseFunds.plan_asks {db : Db} {k : Uuid} {role : UserRole} {dto : ReleaseFundsDto} {now : Time}
    {plan : ReleasePlan} {row : EscrowAccount} (hrow : db.escrow? k = some row)
    (h : releaseFunds.plan db k role dto now = .ok plan) :
    PlanOk row plan ∧ plan.releaseStroops = dto.asks row := by
  unfold releaseFunds.plan at h
  rw [getEscrowOrThrow_ok.mpr hrow] at h
  dsimp only at h
  split at h
  · cases h
  · split at h
    · cases h
    · exact ⟨releaseFunds.amounts_ok h, asks_of_amounts h⟩

/-- With nothing in between, what has been planned is written: the new amount lies between two
stored ones. -/
theorem releaseFunds.commit_of_plan {st : Store} {k u : Uuid} {row : EscrowAccount} {plan : ReleasePlan}
    (hrow : st.db.escrow? k = some row) (hp : PlanOk row plan) :
    ∃ st' row', releaseFunds.commit st k u plan none = (st', .ok plan.releaseStroops) ∧
      st'.db.milestones = st.db.milestones ∧ st'.db.escrow? k = some row' ∧
      row'.releasedAmount.stroops = row.releasedAmount.stroops + plan.releaseStroops := by
  have hfits : ∃ released : Numeric, SqlNumeric.ofUnits? 30 7
      (row.releasedAmount.stroops + plan.releaseStroops) = some released := by
    refine ⟨_, dif_pos ?_⟩
    have h1 := row.releasedAmount.bound
    have h2 := row.amount.bound
    have := hp.pos
    have := hp.le
    unfold Numeric.stroops at *
    omega
  obtain ⟨released, hreleased⟩ := hfits
  have hr := ofUnits?_some hreleased
  have hcheck : released.stroops ≤ row.amount.stroops := by
    have := hp.le
    omega
  obtain ⟨row', hrow', hamount⟩ : ∃ row' : EscrowAccount, row' = { row with
      releasedAmount := released
      status := plan.status
      settledAt := plan.settledAt.or row.settledAt
      settlementTxHash := plan.settlementTxHash.or row.settlementTxHash } ∧
      row'.releasedAmount = released := ⟨_, rfl, rfl⟩
  have hupdate : releaseFunds.update st.db k plan =
      .ok { st.db with escrows := upsert EscrowAccount.id row' st.db.escrows } := by
    unfold releaseFunds.update
    rw [hp.expected, hp.released, ofText?_fromStroops_stroops, ofText?_fromStroops, hreleased]
    simp only [hrow, if_true, ← hrow']
    unfold Db.saveEscrow
    rw [if_pos (by rw [hrow']; exact hcheck)]
  simp only [releaseFunds.commit, hupdate]
  refine ⟨_, row', rfl, rfl, ?_, by rw [hamount, hr]⟩
  have hid : row'.id = row.id := by rw [hrow']
  have hk : row.id = k := Db.escrow?_id hrow
  show lookup EscrowAccount.id k (upsert EscrowAccount.id row' st.db.escrows) = some row'
  rw [lookup_upsert, if_pos (hid.trans hk)]

theorem releaseFunds_cases (st : Store) (k u : Uuid) (role : UserRole) (dto : ReleaseFundsDto)
    (now : Time) :
    (¬ Admits st.db k role dto now ∧ ∃ e, releaseFunds st k u role dto now = (st, .error e)) ∨
    ∃ row row' st', Admits st.db k role dto now ∧ st.db.escrow? k = some row ∧
      releaseFunds st k u role dto now = (st', .ok (dto.asks row)) ∧
      st'.db.milestones = st.db.milestones ∧ st'.db.escrow? k = some row' ∧
      row'.releasedAmount.stroops = row.releasedAmount.stroops + dto.asks row := by
  unfold releaseFunds
  cases hplan : releaseFunds.plan st.db k role dto now with
  | error e =>
    refine .inl ⟨?_, e, rfl⟩
    rintro ⟨plan, h⟩
    rw [hplan] at h
    cases h
  | ok plan =>
    obtain ⟨row, hrow, -⟩ := releaseFunds.plan_ok hplan
    obtain ⟨hp, hasks⟩ := releaseFunds.plan_asks hrow hplan
    obtain ⟨st', row', hcommit, hms, hrow', hr⟩ := releaseFunds.commit_of_plan (u := u) hrow hp
    rw [hasks] at hcommit hr
    exact .inr ⟨row, row', st', ⟨plan, hplan⟩, hrow, hcommit, hms, hrow', hr⟩

/-! ## Runs -/

theorem citing_of_released {h h' : History} {cited : Option Uuid} {x : Int}
    (hrel : h'.released = h.released ++ [(cited, x)]) (i : Uuid) :
    h'.citing i = h.citing i + if cited = some i then x else 0 := by
  unfold History.citing
  rw [hrel]
  by_cases hc : cited = some i <;> simp [hc]

/-- Milestone ids are the primary key of their table. -/
def History.Keyed (h : History) : Prop := (h.store.db.milestones.map (·.id)).Nodup

section Step

variable {k : Uuid} {h : History}

/-- A release that is let through moves the two sums it is to be held against. -/
theorem release_step (u : Uuid) (role : UserRole) (hu : role ≠ .admin) (dto : ReleaseFundsDto)
    (now : Time) :
    let h' := milestoneStep k h (.releaseFunds u role hu dto now)
    (¬ Admits h.store.db k role dto now ∧ h' = h) ∨
    ∃ row row', Admits h.store.db k role dto now ∧ h.store.db.escrow? k = some row ∧
      h'.store.db.milestones = h.store.db.milestones ∧ h'.marked = h.marked ∧
      h'.released = h.released ++ [(dto.milestoneId, dto.asks row)] ∧
      h'.store.db.escrow? k = some row' ∧
      row'.releasedAmount.stroops = row.releasedAmount.stroops + dto.asks row := by
  simp only [milestoneStep]
  rcases releaseFunds_cases h.store k u role dto now with
    ⟨hno, e, hr⟩ | ⟨row, row', st', hadm, hrow, hr, hms, hrow', hsum⟩
  · rw [hr]
    exact .inl ⟨hno, rfl⟩
  · rw [hr]
    exact .inr ⟨row, row', hadm, hrow, hms, rfl, rfl, hrow', hsum⟩

theorem unlocked_congr {h' : History} (hm : h'.marked = h.marked)
    (ht : h'.store.db.milestones.map EscrowMilestone.terms =
      h.store.db.milestones.map EscrowMilestone.terms) : h'.unlocked k = h.unlocked k := by
  unfold History.unlocked
  rw [hm, map_unlocks_of_terms ht]

theorem each_of_terms {h' : History} (hr : h'.released = h.released)
    (ht : h'.store.db.milestones.map EscrowMilestone.terms =
      h.store.db.milestones.map EscrowMilestone.terms)
    (hc : ∀ m ∈ h.store.db.milestones, m.escrowAccountId = k →
      some m.id ∈ h.released.map (·.1) → h.citing m.id ≤ m.amount.stroops) :
    ∀ m ∈ h'.store.db.milestones, m.escrowAccountId = k →
      some m.id ∈ h'.released.map (·.1) → h'.citing m.id ≤ m.amount.stroops := by
  intro m hm hk hcited
  have hmem : m.terms ∈ h.store.db.milestones.map EscrowMilestone.terms := by
    rw [← ht]
    exact List.mem_map_of_mem hm
  obtain ⟨m0, hm0, heq⟩ := List.mem_map.mp hmem
  simp only [EscrowMilestone.terms, Prod.mk.injEq] at heq
  obtain ⟨hid, hesc, hamt⟩ := heq
  rw [hr, ← hid] at hcited
  have := hc m0 hm0 (hesc.trans hk) hcited
  unfold History.citing at this ⊢
  rw [hr, ← hid, ← hamt]
  exact this

/-- An update keeps what the caps read of the rows; a milestone it marks for the first time unlocks
its amount. -/
theorem update_step (hn : h.Keyed) (i u : Uuid) (role : UserRole) (dto : UpdateMilestoneDto) (now : Time) :
    let h' := milestoneStep k h (.updateMilestone i u role dto now)
    h'.released = h.released ∧ h'.store.db.escrow? k = h.store.db.escrow? k ∧
      h'.store.db.milestones.map EscrowMilestone.terms =
        h.store.db.milestones.map EscrowMilestone.terms ∧
      ((h'.unlocked k = h.unlocked k ∧
          ∀ row m, updateMilestone.admit h.store.db k i u role = .ok (row, m) →
            dto.isCompleted = true → m.id ∈ h.marked) ∨
        ∃ row m, updateMilestone.admit h.store.db k i u role = .ok (row, m) ∧
          dto.isCompleted = true ∧ m.id ∉ h.marked ∧
          h'.unlocked k = h.unlocked k + m.amount.stroops) := by
  simp only [milestoneStep]
  rcases updateMilestone_cases h.store k i u role dto now with
    ⟨e, hu, hno⟩ | ⟨row, m, m', st', hadm, hu, hterms, hcomp, hms, hrow⟩
  · rw [hu]
    refine ⟨rfl, rfl, rfl, .inl ⟨rfl, fun row m hadm hc => ?_⟩⟩
    rw [hno _ hadm] at hc
    cases hc
  · obtain ⟨-, hm⟩ := updateMilestone.admit_ok hadm
    obtain ⟨hmem, -, hk⟩ := milestone?_some hm
    have hid : m'.id = m.id := congrArg Prod.fst hterms
    have hsame : st'.db.milestones.map EscrowMilestone.terms =
        h.store.db.milestones.map EscrowMilestone.terms := by
      rw [hms]
      refine map_upsert (by rw [hid]; exact List.mem_map_of_mem hmem) fun x hx hxid => ?_
      rw [hterms, List.inj_on_of_nodup_map hn hx hmem (hxid.trans hid)]
    rw [hu]
    refine ⟨rfl, hrow, hsame, ?_⟩
    by_cases hnew : dto.isCompleted = true ∧ m.id ∉ h.marked
    · refine .inr ⟨row, m, hadm, hnew.1, hnew.2, ?_⟩
      simp only [History.unlocked, hcomp, hnew.1, if_true, hid]
      rw [map_unlocks_of_terms hsame, sum_unlocks_insert hn hmem hk hnew.2]
    · refine .inl ⟨unlocked_congr ?_ hsame, ?_⟩
      · simp only [hcomp, hid]
        split
        · rename_i hc
          exact List.insert_of_mem (not_not.mp fun hm => hnew ⟨hc, hm⟩)
        · rfl
      · intro row1 m1 hadm1 hc
        rw [hadm] at hadm1
        cases hadm1
        exact not_not.mp fun hm => hnew ⟨hc, hm⟩

theorem keyed_step (hn : h.Keyed) (op : MilestoneOp) : (milestoneStep k h op).Keyed := by
  cases op with
  | updateMilestone i u role dto now =>
    obtain ⟨-, -, hterms, -⟩ := update_step (k := k) hn i u role dto now
    unfold History.Keyed
    rw [ids_of_terms hterms]
    exact hn
  | releaseFunds u role hu dto now =>
    rcases release_step (k := k) (h := h) u role hu dto now with ⟨-, hs⟩ | ⟨row, row', -, -, hms, -⟩
    · rw [hs]
      exact hn
    · unfold History.Keyed
      rw [hms]
      exact hn

theorem capped_of_within (hn : h.Keyed) (hc : Capped k h) {op : MilestoneOp} (hw : Within k h op) :
    Capped k (milestoneStep k h op) := by
  cases op with
  | updateMilestone i u role dto now =>
    obtain ⟨hrel, hrow, hterms, hun⟩ := update_step (k := k) hn i u role dto now
    refine ⟨fun row hr => ?_, each_of_terms hrel hterms hc.each⟩
    rw [hrow] at hr
    rcases hun with ⟨hsame, -⟩ | ⟨row1, m, hadm, hcomp, hnew, hun⟩
    · rw [hsame]
      exact hc.total row hr
    · obtain ⟨hrow1, -⟩ := updateMilestone.admit_ok hadm
      rw [hr] at hrow1
      cases hrow1
      rw [hun]
      exact hw row m hadm hcomp hnew
  | releaseFunds u role hu dto now =>
    rcases release_step (k := k) (h := h) u role hu dto now with
      ⟨-, hs⟩ | ⟨row, row', hadm, hrow, hms, hmk, hrel, hrow', hsum⟩
    · rw [hs]
      exact hc
    · obtain ⟨htotal, heach⟩ := hw row hrow hadm
      refine ⟨fun r hr => ?_, fun m hm hk hcited => ?_⟩
      · rw [hrow'] at hr
        cases hr
        rw [hsum, unlocked_congr hmk (by rw [hms])]
        exact htotal
      · rw [hms] at hm
        rw [citing_of_released hrel]
        by_cases hcite : dto.milestoneId = some m.id
        · rw [if_pos hcite]
          exact heach m hm hk hcite
        · rw [if_neg hcite, Int.add_zero]
          refine hc.each m hm hk ?_
          rw [hrel, List.map_append, List.mem_append] at hcited
          rcases hcited with hcited | hcited
          · exact hcited
          · simp only [List.map_cons, List.map_nil, List.mem_singleton] at hcited
            exact absurd hcited.symm hcite

theorem uncapped_of_not_within (hn : h.Keyed) {op : MilestoneOp} (hw : ¬ Within k h op) :
    ¬ Capped k (milestoneStep k h op) := by
  intro hc
  cases op with
  | updateMilestone i u role dto now =>
    obtain ⟨-, hrow, -, hun⟩ := update_step (k := k) hn i u role dto now
    refine hw fun row m hadm hcomp hnew => ?_
    obtain ⟨hrow1, -⟩ := updateMilestone.admit_ok hadm
    rcases hun with ⟨-, hold⟩ | ⟨row2, m2, hadm2, -, -, hun⟩
    · exact absurd (hold row m hadm hcomp) hnew
    · rw [hadm] at hadm2
      cases hadm2
      rw [← hun]
      exact hc.total row (hrow.trans hrow1)
  | releaseFunds u role hu dto now =>
    refine hw fun row hrow hadm => ?_
    rcases release_step (k := k) (h := h) u role hu dto now with
      ⟨hno, -⟩ | ⟨row1, row', -, hrow1, hms, hmk, hrel, hrow', hsum⟩
    · exact absurd hadm hno
    · rw [hrow] at hrow1
      cases hrow1
      refine ⟨?_, fun m hm hk hcite => ?_⟩
      · have := hc.total row' hrow'
        rw [hsum, unlocked_congr hmk (by rw [hms])] at this
        exact this
      · have := hc.each m (by rw [hms]; exact hm) hk (by rw [hrel]; simp [hcite])
        rw [citing_of_released hrel, if_pos hcite] at this
        exact this

end Step

/-- The milestones bound the releases of a run exactly when each of its requests stays within what
they allow. -/
theorem capped_iff_within {k : Uuid} {st : Store} (hn : (st.db.milestones.map (·.id)).Nodup)
    (h0 : Capped k (History.start k st)) (ops : List MilestoneOp) :
    Always (milestoneStep k) (Capped k) (History.start k st) ops ↔
      Along (milestoneStep k) (Within k) (History.start k st) ops := by
  refine always_iff_along (I := fun h => h.Keyed ∧ Capped k h) (fun h hI => hI.2) ?_ ?_ ⟨hn, h0⟩
  · intro h op hI hw
    exact ⟨keyed_step hI.1 op, capped_of_within hI.1 hI.2 hw⟩
  · intro h op hI hw
    exact uncapped_of_not_within hI.1 hw

/-- An escrow over 10 in two milestones of 4 and 6, funded and approved by both signatories. -/
def milestoneStore : Store :=
  run step Store.empty
    [.createEscrow 1 { plainDto 10 with
        type := .milestoneBased
        milestones := some [⟨"draft", 0, jsInt 4⟩, ⟨"final", 1, jsInt 6⟩] } ⟨7, id⟩ 0,
      .fundEscrow 7 1 "tx" 0, .approveEscrow 7 1 ⟨none⟩ none 0, .approveEscrow 7 2 ⟨none⟩ none 0]

/-- A release that cites no milestone pays out everything before any milestone is completed. -/
theorem uncapped_release :
    (milestoneStore.db.escrow? 7).map (·.type) = some .milestoneBased ∧
      ¬ Always (milestoneStep 7) (Capped 7) (History.start 7 milestoneStore)
        [.releaseFunds 1 .user (by decide) ⟨none, none⟩ 0] := by
  refine ⟨by decide +kernel, fun h => ?_⟩
  have hlast := h.last
  have hrel : ((run (milestoneStep 7) (History.start 7 milestoneStore)
      [.releaseFunds 1 .user (by decide) ⟨none, none⟩ 0]).store.db.escrow? 7).map
        (·.releasedAmount.stroops) = some 100000000 := by decide +kernel
  have hun : (run (milestoneStep 7) (History.start 7 milestoneStore)
      [.releaseFunds 1 .user (by decide) ⟨none, none⟩ 0]).unlocked 7 = 0 := by decide +kernel
  obtain ⟨row, hrow, hr⟩ := Option.map_eq_some_iff.mp hrel
  have := hlast.total row hrow
  omega

/-- The first milestone is completed and its amount released. -/
def milestoneRun : List MilestoneOp :=
  [.updateMilestone 0 1 .user ⟨true⟩ 0, .releaseFunds 1 .user (by decide) ⟨some (jsInt 4), some 0⟩ 0]

theorem capped_milestone_release :
    Always (milestoneStep 7) (Capped 7) (History.start 7 milestoneStore) milestoneRun := by
  have hrow0 : (milestoneStore.db.escrow? 7).map (·.releasedAmount.stroops) = some 0 := by
    decide +kernel
  have hun0 : (History.start 7 milestoneStore).unlocked 7 = 0 := by decide +kernel
  have h0 : Capped 7 (History.start 7 milestoneStore) := by
    refine ⟨fun row hrow => ?_, fun m _ _ hcited => by cases hcited⟩
    have hstart : milestoneStore.db.escrow? 7 = some row := hrow
    rw [hstart, Option.map_some, Option.some.injEq] at hrow0
    omega
  refine (capped_iff_within (by decide +kernel) h0 milestoneRun).mpr ⟨?_, ?_, trivial⟩
  · intro row m hadm hc hnew
    obtain ⟨hrow, hm⟩ := updateMilestone.admit_ok hadm
    have hamount : (milestoneStore.db.milestone? 7 0).map (·.amount.stroops) = some 40000000 := by
      decide +kernel
    have hrow : milestoneStore.db.escrow? 7 = some row := hrow
    have hm : milestoneStore.db.milestone? 7 0 = some m := hm
    rw [hrow, Option.map_some, Option.some.injEq] at hrow0
    rw [hm, Option.map_some, Option.some.injEq] at hamount
    omega
  · intro row hrow hadm
    have hrow1 : ((run (milestoneStep 7) (History.start 7 milestoneStore)
        (milestoneRun.take 1)).store.db.escrow? 7).map (·.releasedAmount.stroops) = some 0 := by
      decide +kernel
    have hun1 : (run (milestoneStep 7) (History.start 7 milestoneStore)
        (milestoneRun.take 1)).unlocked 7 = 40000000 := by decide +kernel
    have hasks : (toStroops (.number (jsInt 4))).getD 0 = 40000000 := by decide +kernel
    have heach : ∀ m ∈ (run (milestoneStep 7) (History.start 7 milestoneStore)
        (milestoneRun.take 1)).store.db.milestones, m.id = 0 → 40000000 ≤ m.amount.stroops := by
      decide +kernel
    have hrow : (run (milestoneStep 7) (History.start 7 milestoneStore)
        (milestoneRun.take 1)).store.db.escrow? 7 = some row := hrow
    rw [hrow, Option.map_some, Option.some.injEq] at hrow1
    refine ⟨?_, fun m hm _ hcite => ?_⟩
    · show row.releasedAmount.stroops + (toStroops (.number (jsInt 4))).getD 0 ≤
        (run (milestoneStep 7) (History.start 7 milestoneStore) (milestoneRun.take 1)).unlocked 7
      omega
    · have hid : m.id = 0 := (Option.some.inj hcite).symm
      have hciting : (run (milestoneStep 7) (History.start 7 milestoneStore)
          (milestoneRun.take 1)).citing 0 = 0 := by decide +kernel
      have := heach m hm hid
      rw [hid]
      show (run (milestoneStep 7) (History.start 7 milestoneStore) (milestoneRun.take 1)).citing 0 +
        (toStroops (.number (jsInt 4))).getD 0 ≤ m.amount.stroops
      omega


end Escrow
end TradeCore
