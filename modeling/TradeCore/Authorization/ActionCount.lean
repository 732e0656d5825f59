import Mathlib.Data.List.Induction
import Mathlib.Tactic.Linarith
import TradeCore.Authorization.PolicyEngine
import TradeCore.Lib.Run

/-!
# TradeCore.Authorization.ActionCount

The action counters over a history of recorded actions. A counter starts anew with the first action that
comes a window after its start, the window being the one this action is recorded with; a reader brings a
window of its own and gets the whole count or nothing. `count_covers_iff` says when it gets no less than
the actions its window holds.
-/

namespace TradeCore
namespace Authorization

open Lib

/-- A call of `recordAction` and the clock it meets. -/
structure ActionCall where
  now : Time
  subjectId : String
  windowMs : ℚ
  deriving DecidableEq, Repr

def PolicyEngine.record (engine : PolicyEngine) (c : ActionCall) : PolicyEngine :=
  recordAction engine c.now c.subjectId c.windowMs

def callsOf (subjectId : String) (calls : List ActionCall) : List ActionCall :=
  calls.filter fun c => c.subjectId = subjectId

/-- How many of the calls are at most at `now` and less than `windowMs` before it. -/
def callsWithin (now : Time) (windowMs : ℚ) (calls : List ActionCall) : Nat :=
  calls.countP fun c => decide ((now : ℚ) - windowMs < c.now ∧ c.now ≤ now)

/-- The counter has counted the last of the calls, from the one at its start on. -/
def Counted (calls : List ActionCall) : Option ActionCounter → Prop
  | none => calls = []
  | some counter => ∃ before c since, calls = before ++ c :: since ∧
      counter = ⟨since.length + 1, c.now⟩

theorem record_other {engine : PolicyEngine} {c : ActionCall} {subjectId : String}
    (h : c.subjectId ≠ subjectId) :
    (engine.record c).actionCounters subjectId = engine.actionCounters subjectId :=
  Function.update_of_ne (Ne.symm h) _ _

theorem record_self (engine : PolicyEngine) (c : ActionCall) :
    (engine.record c).actionCounters c.subjectId = some ⟨1, c.now⟩ ∨
      ∃ counter, engine.actionCounters c.subjectId = some counter ∧
        (engine.record c).actionCounters c.subjectId = some ⟨counter.count + 1, counter.windowStart⟩ := by
  simp only [PolicyEngine.record, recordAction, Function.update_self]
  cases engine.actionCounters c.subjectId with
  | none => exact .inl rfl
  | some counter =>
    dsimp only
    split
    · exact .inl rfl
    · exact .inr ⟨counter, rfl, rfl⟩

theorem counted_record {engine : PolicyEngine} {subjectId : String} {calls : List ActionCall}
    (h : Counted (callsOf subjectId calls) (engine.actionCounters subjectId)) (c : ActionCall) :
    Counted (callsOf subjectId (calls ++ [c])) ((engine.record c).actionCounters subjectId) := by
  rw [callsOf, List.filter_append]
  by_cases hc : c.subjectId = subjectId
  · subst hc
    rw [List.filter_cons_of_pos (by simp), List.filter_nil]
    rcases record_self engine c with hnew | ⟨counter, hcounter, hmore⟩
    · rw [hnew]
      exact ⟨_, c, [], rfl, rfl⟩
    · rw [hcounter] at h
      obtain ⟨before, first, since, hcalls, rfl⟩ := h
      rw [hmore]
      refine ⟨before, first, since ++ [c], ?_, by simp⟩
      rw [← callsOf, hcalls, List.append_assoc]
      rfl
  · rw [List.filter_cons_of_neg (by simp [hc]), List.filter_nil, List.append_nil, record_other hc]
    exact h

theorem run_counted (subjectId : String) (calls : List ActionCall) :
    Counted (callsOf subjectId calls) ((run PolicyEngine.record .init calls).actionCounters subjectId) := by
  induction calls using List.reverseRecOn with
  | nil => exact rfl
  | append_singleton calls c ih =>
    rw [run_append]
    exact counted_record ih c

theorem callsWithin_eq_zero {now : Time} {w : ℚ} {calls : List ActionCall}
    (hnow : ∀ c ∈ calls, c.now ≤ now) :
    callsWithin now w calls = 0 ↔ ∀ c ∈ calls, (c.now : ℚ) ≤ now - w := by
  rw [callsWithin, List.countP_eq_zero]
  refine forall₂_congr fun c hc => ?_
  simp [hnow c hc]

theorem callsWithin_since {now : Time} {w : ℚ} {c : ActionCall} {since : List ActionCall}
    (hnow : ∀ d ∈ c :: since, d.now ≤ now) (hsince : ∀ d ∈ since, c.now ≤ d.now)
    (hc : (now : ℚ) - w < c.now) : callsWithin now w (c :: since) = since.length + 1 := by
  rw [callsWithin, List.countP_eq_length.mpr, List.length_cons]
  intro d hd
  have hle : (c.now : ℚ) ≤ d.now := by
    rcases List.mem_cons.mp hd with rfl | hd
    · exact le_refl _
    · exact_mod_cast hsince d hd
  exact decide_eq_true ⟨lt_of_lt_of_le hc hle, hnow d hd⟩

theorem covers_counted {now : Time} {w : ℚ} {before : List ActionCall} {c : ActionCall}
    {since : List ActionCall} (hsorted : (before ++ c :: since).Pairwise fun d e => d.now ≤ e.now)
    (hnow : ∀ d ∈ before ++ c :: since, d.now ≤ now) :
    callsWithin now w (before ++ c :: since) ≤
        (if w ≤ ((now - c.now : Int) : ℚ) then 0 else since.length + 1) ↔
      (∀ d ∈ before ++ c :: since, (d.now : ℚ) ≤ now - w) ∨
        ((now : ℚ) - w < c.now ∧ ∀ d ∈ before, (d.now : ℚ) ≤ now - w) := by
  by_cases hw : w ≤ ((now - c.now : Int) : ℚ)
  · -- the counter is too old for the reader
    have hold : ¬ (now : ℚ) - w < c.now := by
      push_cast at hw
      linarith
    rw [if_pos hw, Nat.le_zero, callsWithin_eq_zero hnow]
    exact (or_iff_left fun h => hold h.1).symm
  · have hstart : (now : ℚ) - w < c.now := by
      push_cast at hw
      linarith
    obtain ⟨-, hlater, -⟩ := List.pairwise_append.mp hsorted
    have hsince := callsWithin_since (fun d hd => hnow d (List.mem_append_right _ hd))
      (List.pairwise_cons.mp hlater).1 hstart
    have hbefore := callsWithin_eq_zero (w := w)
      fun d hd => hnow d (List.mem_append_left (c :: since) hd)
    have hsplit : callsWithin now w (before ++ c :: since) =
        callsWithin now w before + (since.length + 1) := by
      rw [← hsince]
      exact List.countP_append
    have hsome : ¬ ∀ d ∈ before ++ c :: since, (d.now : ℚ) ≤ now - w :=
      fun hall => absurd (hall c (by simp)) (not_le.mpr hstart)
    rw [if_neg hw, hsplit, or_iff_right hsome, ← hbefore]
    simp only [hstart, true_and]
    omega

/-- A reader gets at least the number of the actions in its window exactly when there are none, or the
counter was started inside the window and no action before its start is. -/
theorem count_covers_iff (calls : List ActionCall)
    (htimes : calls.Pairwise fun c d => c.now ≤ d.now) (now : Time) (hnow : ∀ c ∈ calls, c.now ≤ now)
    (subjectId : String) (windowMs : ℚ) :
    callsWithin now windowMs (callsOf subjectId calls) ≤
        recentActionCount (run PolicyEngine.record .init calls) now subjectId windowMs ↔
      (∀ c ∈ callsOf subjectId calls, (c.now : ℚ) ≤ now - windowMs) ∨
        ∃ counter, (run PolicyEngine.record .init calls).actionCounters subjectId = some counter ∧
          (now : ℚ) - windowMs < counter.windowStart ∧
          ∀ c ∈ (callsOf subjectId calls).take ((callsOf subjectId calls).length - counter.count),
            (c.now : ℚ) ≤ now - windowMs := by
  have hcounted := run_counted subjectId calls
  have hown : ∀ c ∈ callsOf subjectId calls, c.now ≤ now := fun c hc => hnow c (List.mem_filter.mp hc).1
  have hsorted : (callsOf subjectId calls).Pairwise fun c d => c.now ≤ d.now :=
    htimes.sublist List.filter_sublist
  rw [recentActionCount]
  cases hcounter : (run PolicyEngine.record .init calls).actionCounters subjectId with
  | none =>
    rw [hcounter] at hcounted
    have hnil : callsOf subjectId calls = [] := hcounted
    simp [hnil, callsWithin]
  | some counter =>
    rw [hcounter] at hcounted
    obtain ⟨before, c, since, hcalls, rfl⟩ := hcounted
    rw [hcalls] at hown hsorted ⊢
    have htake : (before ++ c :: since).take ((before ++ c :: since).length - (since.length + 1)) =
        before := by
      rw [List.length_append, List.length_cons, Nat.add_sub_cancel]
      exact List.take_left
    simp only [Option.some.injEq, exists_eq_left', htake]
    exact covers_counted hsorted hown

/-- Two actions a minute apart, recorded with the window of `recordAction` itself. -/
def twoActions : List ActionCall := [⟨0, "subject-1", 60000⟩, ⟨60000, "subject-1", 60000⟩]

/-- Of the two actions of the last hour one is counted. -/
theorem hour_undercounted :
    callsWithin 60001 3600000 (callsOf "subject-1" twoActions) = 2 ∧
      recentActionCount (run PolicyEngine.record .init twoActions) 60001 "subject-1" 3600000 = 1 :=
  ⟨by decide +kernel, by decide +kernel⟩

theorem minute_covered :
    callsWithin 60001 60000 (callsOf "subject-1" twoActions) ≤
      recentActionCount (run PolicyEngine.record .init twoActions) 60001 "subject-1" 60000 := by
  refine (count_covers_iff twoActions (by decide) 60001 (by decide) "subject-1" 60000).mpr (.inr ?_)
  exact ⟨⟨1, 60000⟩, by decide +kernel, by norm_num, by decide +kernel⟩

end Authorization
end TradeCore
