/-!
# TradeCore.Common

What the modules of the service share: keys, dates and the exceptions a request can end with. A
uuid is a number and a date is its milliseconds.
-/

namespace TradeCore

abbrev Uuid := Nat

/-- Milliseconds. -/
abbrev Time := Int

/-- The exceptions a request can end with; `internal` is everything that is no `HttpException`. -/
inductive HttpError where
  | badRequest (message : String)
  | forbidden (message : String)
  | notFound (message : String)
  | conflict (message : String)
  | unauthorized (message : String)
  | serviceUnavailable (message : String)
  | internal (message : String)
  deriving DecidableEq, Repr

/-- What a request ends with when a statement of the database fails. -/
def databaseError : HttpError := .internal "Internal server error"

theorem bind_eq_ok {ε α β : Type} {x : Except ε α} {f : α → Except ε β} {b : β} :
    x >>= f = .ok b ↔ ∃ v, x = .ok v ∧ f v = .ok b := by
  cases x with
  | error e =>
    constructor
    · intro h
      cases h
    · rintro ⟨_, h, -⟩
      cases h
  | ok v =>
    constructor
    · exact fun h => ⟨v, rfl, h⟩
    · rintro ⟨w, hw, hf⟩
      cases hw
      exact hf

end TradeCore
