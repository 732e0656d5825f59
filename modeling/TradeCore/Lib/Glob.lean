import Mathlib.Data.List.Count

/-!
# TradeCore.Lib.Glob

Sequences of quantified symbol classes, as a backtracking matcher runs them, and glob patterns.

* `accepts ts s`    the whole of `s` is matched by the terms `ts`. Each term is given what is to be
  accepted after it.
* `Glob w p ps s`   `s` is in the language of the pattern `ps`, in which `w` stands for any string of
  symbols of the class `p` and every other symbol for itself.

`accepts_globTerms` is the correctness of the terms a pattern is translated to. `glob_iff_count` says
what a wildcard that does not match every symbol misses.
-/

namespace Lib

section Glob

variable {α : Type}

inductive Quantifier where
  | one
  | optional
  | many
  deriving DecidableEq, Repr

structure Quantified (α : Type) where
  test : α → Bool
  quantifier : Quantifier

/-- A symbol of the class, then what `k` accepts. -/
def takeOne (test : α → Bool) (k : List α → Bool) : List α → Bool
  | [] => false
  | c :: s => test c && k s

/-- Any number of symbols of the class, then what `k` accepts. -/
def takeMany (test : α → Bool) (k : List α → Bool) : List α → Bool
  | [] => k []
  | c :: s => k (c :: s) || (test c && takeMany test k s)

def accepts : List (Quantified α) → List α → Bool
  | [] => List.isEmpty
  | t :: ts =>
    match t.quantifier with
    | .one => takeOne t.test (accepts ts)
    | .optional => fun s => takeOne t.test (accepts ts) s || accepts ts s
    | .many => takeMany t.test (accepts ts)

theorem takeMany_of_rest {test : α → Bool} {k : List α → Bool} {s : List α} (h : k s = true) :
    takeMany test k s = true := by
  cases s with
  | nil => exact h
  | cons c s => simp [takeMany, h]

theorem takeMany_iff {test : α → Bool} {k : List α → Bool} {s : List α} :
    takeMany test k s = true ↔ ∃ u v, s = u ++ v ∧ (∀ c ∈ u, test c = true) ∧ k v = true := by
  constructor
  · intro h
    induction s with
    | nil => exact ⟨[], [], rfl, fun _ hc => absurd hc List.not_mem_nil, h⟩
    | cons c s ih =>
      rw [takeMany, Bool.or_eq_true, Bool.and_eq_true] at h
      rcases h with h | ⟨hc, h⟩
      · exact ⟨[], c :: s, rfl, fun _ hc => absurd hc List.not_mem_nil, h⟩
      · obtain ⟨u, v, rfl, hu, hv⟩ := ih h
        exact ⟨c :: u, v, rfl, List.forall_mem_cons.mpr ⟨hc, hu⟩, hv⟩
  · rintro ⟨u, v, rfl, hu, hv⟩
    induction u with
    | nil => exact takeMany_of_rest hv
    | cons c u ih =>
      obtain ⟨hc, hu⟩ := List.forall_mem_cons.mp hu
      simp [takeMany, hc, ih hu]

/-! ## Glob patterns -/

inductive Glob (w : α) (p : α → Bool) : List α → List α → Prop where
  | nil : Glob w p [] []
  | wild {u ps s} (hu : ∀ c ∈ u, p c = true) (h : Glob w p ps s) : Glob w p (w :: ps) (u ++ s)
  | symbol {c ps s} (hc : c ≠ w) (h : Glob w p ps s) : Glob w p (c :: ps) (c :: s)

variable [DecidableEq α] {w : α} {p : α → Bool} {ps s : List α}

/-- The term for a symbol of a pattern. -/
def globTerm (w : α) (p : α → Bool) (c : α) : Quantified α :=
  if c = w then ⟨p, .many⟩ else ⟨fun d => decide (d = c), .one⟩

theorem accepts_globTerms : accepts (ps.map (globTerm w p)) s = true ↔ Glob w p ps s := by
  constructor
  · intro h
    induction ps generalizing s with
    | nil =>
      rw [List.isEmpty_iff.mp h]
      exact .nil
    | cons c ps ih =>
      by_cases hc : c = w
      · rw [List.map_cons, globTerm, if_pos hc] at h
        obtain ⟨u, v, rfl, hu, hv⟩ := takeMany_iff.mp h
        rw [hc]
        exact .wild hu (ih hv)
      · rw [List.map_cons, globTerm, if_neg hc] at h
        cases s with
        | nil => cases h
        | cons d s =>
          obtain ⟨hd, hs⟩ := Bool.and_eq_true_iff.mp h
          rw [of_decide_eq_true hd]
          exact .symbol hc (ih hs)
  · intro h
    induction h with
    | nil => rfl
    | wild hu _ ih =>
      rw [List.map_cons, globTerm, if_pos rfl]
      exact takeMany_iff.mpr ⟨_, _, rfl, hu, ih⟩
    | symbol hc _ ih =>
      rw [List.map_cons, globTerm, if_neg hc]
      exact Bool.and_eq_true_iff.mpr ⟨decide_eq_true rfl, ih⟩

omit [DecidableEq α] in
theorem Glob.mono {q : α → Bool} (hpq : ∀ c, p c = true → q c = true) (h : Glob w p ps s) :
    Glob w q ps s := by
  induction h with
  | nil => exact .nil
  | wild hu _ ih => exact .wild (fun c hc => hpq c (hu c hc)) ih
  | symbol hc _ ih => exact .symbol hc ih

omit [DecidableEq α] in
/-- What a pattern asks for by name is there. -/
theorem Glob.countP_le {q : α → Bool} (hq : q w = false) (h : Glob w p ps s) :
    ps.countP q ≤ s.countP q := by
  induction h with
  | nil => exact Nat.le_refl _
  | wild _ _ ih =>
    rw [List.countP_cons_of_neg (by simp [hq]), List.countP_append]
    exact Nat.le_trans ih (Nat.le_add_left _ _)
  | symbol _ _ ih =>
    rw [List.countP_cons, List.countP_cons]
    exact Nat.add_le_add_right ih _

omit [DecidableEq α] in
/-- A wildcard that does not match the symbols of `bad` misses exactly the strings with more of them
than the pattern names. -/
theorem glob_iff_count {bad : α → Bool} (hbad : bad w = false) :
    Glob w (fun c => !bad c) ps s ↔ Glob w (fun _ => true) ps s ∧ s.countP bad ≤ ps.countP bad := by
  constructor
  · intro h
    refine ⟨h.mono fun _ _ => rfl, ?_⟩
    induction h with
    | nil => exact Nat.le_refl _
    | @wild u _ _ hu _ ih =>
      have hnone : u.countP bad = 0 := List.countP_eq_zero.mpr fun c hc => by simpa using hu c hc
      rw [List.countP_cons_of_neg (by simp [hbad]), List.countP_append, hnone, Nat.zero_add]
      exact ih
    | symbol _ _ ih =>
      rw [List.countP_cons, List.countP_cons]
      exact Nat.add_le_add_right ih _
  · rintro ⟨h, hcount⟩
    induction h with
    | nil => exact .nil
    | @wild u ps s _ h ih =>
      rw [List.countP_cons_of_neg (by simp [hbad]), List.countP_append] at hcount
      have hle := h.countP_le hbad
      have hnone : u.countP bad = 0 := by omega
      exact .wild (fun c hc => by simpa using List.countP_eq_zero.mp hnone c hc) (ih (by omega))
    | symbol hc _ ih =>
      rw [List.countP_cons, List.countP_cons] at hcount
      exact .symbol hc (ih (by omega))

/-- A pattern without its wildcards is in its own language. -/
theorem glob_filter (w : α) (p : α → Bool) (ps : List α) :
    Glob w p ps (ps.filter fun c => decide (c ≠ w)) := by
  induction ps with
  | nil => exact .nil
  | cons c ps ih =>
    by_cases hc : c = w
    · rw [List.filter_cons_of_neg (by simp [hc]), hc]
      exact .wild (fun _ h => absurd h List.not_mem_nil) ih
    · rw [List.filter_cons_of_pos (by simp [hc])]
      exact .symbol hc ih

end Glob

end Lib
