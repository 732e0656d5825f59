import TradeCore.Escrow.Discipline
import TradeCore.Lib.Double

/-!
# TradeCore.Escrow.Creation

What `createEscrow` persists of an escrow in milestones. A request is checked in numbers, with a
tolerance, and stored in stroops; the tolerance is one stroop, and a difference of exactly that much
is accepted (`milestones_sum_iff`).
-/

namespace TradeCore
namespace Escrow

open Lib

/-- A number that is a whole number of stroops, printed without rounding. -/
def WholeStroops (x : JsNumber) : Prop :=
  textValue? x.text = some x.value ∧ ∃ n : Int, x.value = n / 10 ^ 7

/-- Such a number is stored as it is. -/
theorem WholeStroops.stored {x : JsNumber} (h : WholeStroops x) {a : Numeric}
    (ha : SqlNumeric.ofText? 30 7 x.text = some a) : (a.stroops : ℚ) = x.value * 10 ^ 7 := by
  obtain ⟨htext, n, hn⟩ := h
  rw [hn] at htext
  rw [SqlNumeric.ofText?_of_value htext, SqlNumeric.ofUnits?] at ha
  split at ha
  · rw [← Option.some.inj ha, hn]
    show (n : ℚ) = _
    field_simp
  · cases ha

theorem allSome_eq_some {α : Type} {l : List (Option α)} {r : List α} (h : l.allSome = some r) :
    l = r.map some := by
  induction l generalizing r with
  | nil =>
    cases h
    rfl
  | cons x xs ih =>
    cases x with
    | none => cases h
    | some a =>
      rw [List.allSome, List.mapM_cons, id, Option.bind_eq_bind, Option.bind_some] at h
      obtain ⟨as, has, h⟩ := Option.bind_eq_some_iff.mp h
      rw [← Option.some.inj h, List.map_cons, ih has]

theorem milestoneRows {escrowId : Uuid} {ms : List MilestoneInput} (hms : ∀ m ∈ ms, WholeStroops m.amount)
    {ids : Nat → Uuid} {rows : List EscrowMilestone}
    (h : (ms.mapIdx fun i m => createEscrow.milestoneRow? escrowId m (ids i)) = rows.map some) :
    (∀ r ∈ rows, r.escrowAccountId = escrowId) ∧
      (((rows.map fun r => r.amount.stroops).sum : Int) : ℚ) = milestoneTotal ms * 10 ^ 7 := by
  induction ms generalizing ids rows with
  | nil =>
    cases rows with
    | nil =>
      refine ⟨fun r hr => ?_, by simp [milestoneTotal]⟩
      cases hr
    | cons r rows => cases h
  | cons m ms ih =>
    rw [List.mapIdx_cons] at h
    cases rows with
    | nil => cases h
    | cons r rows =>
      obtain ⟨hr, hrest⟩ := List.cons.inj h
      obtain ⟨hid, hsum⟩ := @ih (fun m hm => hms m (.tail _ hm)) (fun i => ids (i + 1)) rows hrest
      obtain ⟨amount, hamount, rfl⟩ := Option.map_eq_some_iff.mp hr
      have hstored := (hms m (.head _)).stored hamount
      refine ⟨fun x hx => ?_, ?_⟩
      · rcases List.mem_cons.mp hx with rfl | hx
        · rfl
        · exact hid x hx
      · rw [List.map_cons, List.sum_cons, Int.cast_add, hsum, hstored, milestoneTotal, milestoneTotal,
          List.map_cons, List.sum_cons, add_mul]

theorem createEscrow.validate_milestones {dto : CreateEscrowDto} (h : createEscrow.validate dto = .ok ())
    (htype : dto.type = .milestoneBased) :
    ∃ ms, dto.milestones = some ms ∧ |milestoneTotal ms - dto.amount.value| ≤ 1 / 10 ^ 7 := by
  simp only [createEscrow.validate, ite_error_eq_ok, htype, if_true] at h
  obtain ⟨-, -, h⟩ := h
  split at h
  · cases h
  · cases h
  · rename_i ms _ hms
    simp only [ite_error_eq_ok, not_lt] at h
    exact ⟨ms, hms, h.1⟩

theorem createEscrow_ok {st st' : Store} {u : Uuid} {dto : CreateEscrowDto} {ids : NewIds} {now : Time}
    {escrow : EscrowAccount} (h : createEscrow st u dto ids now = (st', .ok escrow)) :
    createEscrow.validate dto = .ok () ∧ escrow.id = ids.escrowId ∧
      SqlNumeric.ofText? 30 7 dto.amount.text = some escrow.amount ∧
      ∃ rows, ((dto.milestones.getD []).mapIdx fun i m =>
          createEscrow.milestoneRow? ids.escrowId m (ids.milestoneId i)) = rows.map some ∧
        st'.db.milestones = st.db.milestones ++ rows ∧ st'.db.escrow? escrow.id = some escrow := by
  unfold createEscrow at h
  split at h
  · cases h
  · rename_i hvalid
    split at h
    · cases h
    · split at h
      · cases h
      · rename_i db row hins
        unfold createEscrow.insert at hins
        split at hins
        · rename_i amount rows hamount hrows
          simp only [ite_error_eq_ok] at hins
          split at hins
          · cases hins.2
          · rename_i db' hs
            cases hins.2
            cases h
            have hrow := Db.escrow?_saveEscrow hs ids.escrowId
            rw [if_pos (show (createEscrow.row u dto amount ids now).id = ids.escrowId from rfl)] at hrow
            refine ⟨hvalid, rfl, hamount, rows, allSome_eq_some hrows, ?_, hrow⟩
            unfold Db.saveEscrow at hs
            split at hs
            · cases hs
              rfl
            · cases hs
        · cases hins

/-- The milestone rows of an accepted request sum to the amount of its escrow unless the request is
exactly one stroop off. -/
theorem milestones_sum_iff {st st' : Store} {u : Uuid} {dto : CreateEscrowDto} {ids : NewIds} {now : Time}
    {escrow : EscrowAccount} (h : createEscrow st u dto ids now = (st', .ok escrow))
    (htype : dto.type = .milestoneBased) (hamount : WholeStroops dto.amount)
    (hms : ∀ m ∈ dto.milestones.getD [], WholeStroops m.amount) :
    ∃ rows, st'.db.milestones = st.db.milestones ++ rows ∧ st'.db.escrow? escrow.id = some escrow ∧
      (∀ r ∈ rows, r.escrowAccountId = escrow.id) ∧
      ((rows.map fun r => r.amount.stroops).sum = escrow.amount.stroops ↔
        |milestoneTotal (dto.milestones.getD []) - dto.amount.value| ≠ 1 / 10 ^ 7) := by
  obtain ⟨hvalid, hid, hstored, rows, hrows, hadded, hsaved⟩ := createEscrow_ok h
  obtain ⟨ms, hdto, htolerance⟩ := createEscrow.validate_milestones hvalid htype
  obtain ⟨howner, hsum⟩ := milestoneRows hms hrows
  refine ⟨rows, hadded, hsaved, fun r hr => (howner r hr).trans hid.symm, ?_⟩
  have hescrow := hamount.stored hstored
  rw [hdto, Option.getD_some] at hsum ⊢
  generalize (rows.map fun r => r.amount.stroops).sum = sum at hsum ⊢
  -- both totals are whole numbers of stroops, at most one apart
  have hdiff : milestoneTotal ms - dto.amount.value =
      ((sum - escrow.amount.stroops : Int) : ℚ) / 10 ^ 7 := by
    rw [Int.cast_sub, hsum, hescrow]
    field_simp
  rw [hdiff, abs_div, abs_of_pos (by norm_num : (0 : ℚ) < 10 ^ 7)] at htolerance
  rw [hdiff, abs_div, abs_of_pos (by norm_num : (0 : ℚ) < 10 ^ 7)]
  rw [div_le_div_iff_of_pos_right (by norm_num)] at htolerance
  rw [Ne, div_left_inj' (by norm_num)]
  have hle : |sum - escrow.amount.stroops| ≤ 1 := by exact_mod_cast htolerance
  have hone : |((sum - escrow.amount.stroops : Int) : ℚ)| = 1 ↔ |sum - escrow.amount.stroops| = 1 := by
    rw [← Int.cast_abs]
    exact_mod_cast Iff.rfl
  rw [hone]
  constructor
  · intro heq
    simp [heq]
  · intro hne
    rw [abs_le] at hle
    have hmore : sum - escrow.amount.stroops ≠ 1 := fun h => hne (by rw [h]; rfl)
    have hless : sum - escrow.amount.stroops ≠ -1 := fun h => hne (by rw [h]; rfl)
    omega

def twoMilestones (x y : JsNumber) : CreateEscrowDto :=
  { plainDto 1 with
    type := .milestoneBased
    milestones := some [⟨"draft", 0, x⟩, ⟨"final", 1, y⟩] }

def half : JsNumber := ⟨5 / 10, ['0', '.', '5']⟩

/-- `0.5000001`, as `toString` prints it. -/
def stroopOverHalf : JsNumber := ⟨5000001 / 10 ^ 7, ['0', '.', '5', '0', '0', '0', '0', '0', '1']⟩

theorem half_wholeStroops : WholeStroops half :=
  ⟨by decide +kernel, 5000000, by decide +kernel⟩

/-- The milestones of an escrow over 1 are stored with one stroop more. Doubles accept the request
too: they have `0.5 + 0.5000001 - 1` a little below the tolerance. -/
theorem stroop_over_accepted :
    (WholeStroops (jsInt 1) ∧ WholeStroops half ∧ WholeStroops stroopOverHalf) ∧
      (∃ st escrow, createEscrow .empty 1 (twoMilestones half stroopOverHalf) ⟨7, id⟩ 0 =
          (st, .ok escrow) ∧
        escrow.type = .milestoneBased ∧ escrow.amount.stroops = 10000000 ∧
        (st.db.milestones.map fun r => r.amount.stroops) = [5000000, 5000001]) ∧
      nearestDouble (nearestDouble (half.value + nearestDouble stroopOverHalf.value) - 1) <
        nearestDouble (1 / 10 ^ 7) := by
  refine ⟨⟨⟨by decide +kernel, 10000000, by decide +kernel⟩, half_wholeStroops,
    by decide +kernel, 5000001, by decide +kernel⟩, ?_, by decide +kernel⟩
  exact ⟨_, createEscrow.row 1 (twoMilestones half stroopOverHalf) ⟨10000000, by decide⟩ ⟨7, id⟩ 0,
    Prod.ext rfl (by decide +kernel), rfl, rfl, by decide +kernel⟩

theorem milestones_two_halves :
    ∃ st escrow, createEscrow .empty 1 (twoMilestones half half) ⟨7, id⟩ 0 = (st, .ok escrow) ∧
      (st.db.milestones.map fun r => r.amount.stroops).sum = escrow.amount.stroops := by
  have hok : createEscrow .empty 1 (twoMilestones half half) ⟨7, id⟩ 0 =
      ((createEscrow .empty 1 (twoMilestones half half) ⟨7, id⟩ 0).1,
        .ok (createEscrow.row 1 (twoMilestones half half) ⟨10000000, by decide⟩ ⟨7, id⟩ 0)) :=
    Prod.ext rfl (by decide +kernel)
  have hone : WholeStroops (jsInt 1) := ⟨by decide +kernel, 10000000, by decide +kernel⟩
  obtain ⟨rows, hrows, -, -, hsum⟩ := milestones_sum_iff hok rfl hone (by
    intro m hm
    rcases List.mem_cons.mp hm with rfl | hm
    · exact half_wholeStroops
    · rw [List.mem_singleton.mp hm]
      exact half_wholeStroops)
  refine ⟨_, _, hok, ?_⟩
  rw [hrows]
  exact hsum.mpr (by decide +kernel)

end Escrow
end TradeCore
