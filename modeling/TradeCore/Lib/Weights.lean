import Mathlib.Algebra.Order.BigOperators.Group.List
import Mathlib.Algebra.BigOperators.Ring.List
import Mathlib.Algebra.Order.Field.Basic
import Mathlib.Tactic.Linarith

/-!
# TradeCore.Lib.Weights

Nonnegative weights: the greatest of them and the sum of their squares. When the weights add up to 1, the
sum of the squares lies between the square of the greatest one and the greatest one.
-/

namespace Lib

def squares {α : Type} [Semiring α] (ws : List α) : α := ws.foldl (fun sum w => sum + w * w) 0

theorem squares_eq {α : Type} [Semiring α] (ws : List α) : squares ws = (ws.map fun w => w * w).sum := by
  have hfold : ∀ sum : α, ws.foldl (fun sum w => sum + w * w) sum = sum + (ws.map fun w => w * w).sum := by
    induction ws with
    | nil => simp
    | cons w ws ih =>
      intro sum
      rw [List.foldl_cons, ih, List.map_cons, List.sum_cons, add_assoc]
  rw [squares, hfold, zero_add]

section Weights

variable {α : Type} [Field α] [LinearOrder α] [IsStrictOrderedRing α] {ws : List α}

def greatest (ws : List α) : α := ws.foldl (fun top w => if top < w then w else top) 0

theorem foldl_greatest (ws : List α) (top : α) :
    let g := ws.foldl (fun top w => if top < w then w else top) top
    top ≤ g ∧ (∀ w ∈ ws, w ≤ g) ∧ (g = top ∨ g ∈ ws) := by
  induction ws generalizing top with
  | nil => simp
  | cons w ws ih =>
    obtain ⟨hle, hall, hmem⟩ := ih (if top < w then w else top)
    have hboth : top ≤ (if top < w then w else top) ∧ w ≤ (if top < w then w else top) := by
      split
      · exact ⟨by linarith, le_refl w⟩
      · exact ⟨le_refl top, by linarith⟩
    rw [List.foldl_cons]
    refine ⟨hboth.1.trans hle, ?_, ?_⟩
    · intro w' hw'
      rcases List.mem_cons.mp hw' with rfl | hw'
      · exact hboth.2.trans hle
      · exact hall w' hw'
    · rcases hmem with hmem | hmem
      · rw [hmem]
        split
        · exact .inr (.head _)
        · exact .inl rfl
      · exact .inr (.tail _ hmem)

theorem greatest_nonneg (ws : List α) : 0 ≤ greatest ws := (foldl_greatest ws 0).1

theorem le_greatest {w : α} (h : w ∈ ws) : w ≤ greatest ws := (foldl_greatest ws 0).2.1 w h

theorem greatest_mem (h : ∀ w ∈ ws, 0 ≤ w) (hne : ws ≠ []) : greatest ws ∈ ws := by
  rcases (foldl_greatest ws 0).2.2 with hzero | hmem
  · obtain ⟨w, hw⟩ := List.exists_mem_of_ne_nil ws hne
    have hzero : greatest ws = 0 := hzero
    have : w = 0 := le_antisymm (hzero ▸ le_greatest hw) (h w hw)
    rw [hzero, ← this]
    exact hw
  · exact hmem

theorem le_sum_of_mem {w : α} (h : ∀ w ∈ ws, 0 ≤ w) (hw : w ∈ ws) : w ≤ ws.sum :=
  List.single_le_sum h w hw

theorem sq_greatest_le_squares (h : ∀ w ∈ ws, 0 ≤ w) : greatest ws * greatest ws ≤ squares ws := by
  rw [squares_eq]
  by_cases hne : ws = []
  · subst hne
    simp [greatest]
  · refine List.single_le_sum ?_ _ (List.mem_map_of_mem (greatest_mem h hne))
    intro x hx
    obtain ⟨w, -, rfl⟩ := List.mem_map.mp hx
    exact mul_self_nonneg w

theorem squares_le (h : ∀ w ∈ ws, 0 ≤ w) : squares ws ≤ greatest ws * ws.sum := by
  have hterm : ∀ w ∈ ws, w * w ≤ greatest ws * w :=
    fun w hw => mul_le_mul_of_nonneg_right (le_greatest hw) (h w hw)
  have hsum : (ws.map fun w => greatest ws * w).sum = greatest ws * ws.sum := by
    rw [List.sum_map_mul_left, List.map_id']
  rw [squares_eq, ← hsum]
  exact List.sum_le_sum hterm

end Weights

end Lib
