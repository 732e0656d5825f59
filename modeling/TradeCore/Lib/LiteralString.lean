import Mathlib.Data.List.Basic

/-!
# TradeCore.Lib.LiteralString

Literals between an opening and a closing symbol, which may be nested, with a symbol that takes the
meaning from the one behind it.

`closingAt` finds the symbol that closes a literal. `closingAt_eq_length` says when this is the one behind
a given text: when the text, read on its own, leaves nothing open.
-/

namespace Lib
namespace LiteralString

structure Symbols (α : Type) where
  opening : α
  closing : α
  escape : α
  closing_ne : closing ≠ opening ∧ closing ≠ escape

/-- Inside a literal: how many nested ones are open, and whether an escape stands right before. -/
structure State where
  depth : Nat
  escaped : Bool
  deriving DecidableEq

def State.initial : State := ⟨0, false⟩

section LiteralString

variable {α : Type} [DecidableEq α] (d : Symbols α)

/-- `none` where the literal ends. -/
def step (s : State) (c : α) : Option State :=
  if s.escaped then some { s with escaped := false }
  else if c = d.escape then some { s with escaped := true }
  else if c = d.opening then some { s with depth := s.depth + 1 }
  else if c = d.closing then
    match s.depth with
    | 0 => none
    | depth + 1 => some { s with depth }
  else some s

def run (s : State) (body : List α) : Option State := body.foldlM (step d) s

/-- The place of the symbol that closes a literal begun before the text. -/
def closingAt (s : State) : List α → Option Nat
  | [] => none
  | c :: cs =>
    match step d s c with
    | none => some 0
    | some s => (closingAt s cs).map (· + 1)

variable {d}

theorem run_append (s : State) (a b : List α) : run d s (a ++ b) = (run d s a).bind fun s => run d s b :=
  List.foldlM_append

theorem step_closing (s : State) : step d s d.closing = none ↔ s = .initial := by
  obtain ⟨hopening, hescape⟩ := d.closing_ne
  obtain ⟨depth, escaped⟩ := s
  cases escaped <;> cases depth <;> simp [step, hopening, hescape, State.initial]

theorem closingAt_eq_length (s : State) (body after : List α) :
    closingAt d s (body ++ d.closing :: after) = some body.length ↔ run d s body = some .initial := by
  induction body generalizing s with
  | nil =>
    rw [List.nil_append, closingAt]
    have hclosing := step_closing (d := d) s
    cases hstep : step d s d.closing with
    | none => exact iff_of_true rfl (congrArg some (hclosing.mp hstep))
    | some s' =>
      rw [hstep] at hclosing
      refine iff_of_false (by simp) fun hrun => ?_
      have hs : some s = some State.initial := hrun
      cases hclosing.mpr (Option.some.inj hs)
  | cons c body ih =>
    rw [List.cons_append, closingAt, run, List.foldlM_cons]
    cases hstep : step d s c with
    | none => simp
    | some s' =>
      have hih := ih s'
      rw [run] at hih
      simpa using hih

end LiteralString

end LiteralString
end Lib
