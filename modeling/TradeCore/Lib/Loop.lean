import Mathlib.Order.Basic

/-!
# TradeCore.Lib.Loop

A `while` loop: `step s = none` leaves the loop, `step s = some s'` is one iteration. `loop` runs it
with fuel; `loop_inv` is the invariant rule and `loop_exit` says that enough fuel for a variant that
falls at every iteration reaches the exit.
-/

namespace Lib

section Loop

variable {σ : Type} (step : σ → Option σ)

def loop : Nat → σ → σ
  | 0, s => s
  | n + 1, s =>
    match step s with
    | none => s
    | some s' => loop n s'

variable {step}

theorem loop_none {s : σ} (h : step s = none) (n : Nat) : loop step n s = s := by
  cases n with
  | zero => rfl
  | succ n => simp only [loop, h]

theorem loop_some {s s' : σ} (h : step s = some s') (n : Nat) :
    loop step (n + 1) s = loop step n s' := by
  simp only [loop, h]

theorem loop_inv {I : σ → Prop} (hstep : ∀ s s', I s → step s = some s' → I s') {s : σ} (h : I s)
    (n : Nat) : I (loop step n s) := by
  induction n generalizing s with
  | zero => exact h
  | succ n ih =>
    rw [loop]
    split
    · exact h
    · rename_i s' hs
      exact ih (hstep s s' h hs)

theorem loop_congr {step' : σ → Option σ} {I : σ → Prop} (heq : ∀ s, I s → step s = step' s)
    (hstep : ∀ s s', I s → step' s = some s' → I s') {s : σ} (h : I s) (n : Nat) :
    loop step n s = loop step' n s := by
  induction n generalizing s with
  | zero => rfl
  | succ n ih =>
    rw [loop, loop, heq s h]
    split
    · rfl
    · rename_i s' hs
      exact ih (hstep s s' h hs)

theorem loop_exit {μ : σ → Nat} (hμ : ∀ s s', step s = some s' → μ s' < μ s) {n : Nat} {s : σ}
    (hn : μ s ≤ n) : step (loop step n s) = none := by
  induction n generalizing s with
  | zero =>
    cases hs : step s with
    | none => exact hs
    | some s' =>
      have := hμ s s' hs
      omega
  | succ n ih =>
    rw [loop]
    split
    · assumption
    · rename_i s' hs
      have := hμ s s' hs
      exact ih (by omega)

end Loop

end Lib
