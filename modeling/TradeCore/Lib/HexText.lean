import Mathlib.Data.List.Basic

/-!
# TradeCore.Lib.HexText

Bytes as hexadecimal text. The digits written are the lower-case ones; both cases are read, and a text
is read up to its first pair that is no byte.
-/

namespace Lib

/-- `digest('hex')`. -/
def hexOf (bytes : List (Fin 256)) : List Char :=
  bytes.flatMap fun b => [Nat.digitChar (b.val / 16), Nat.digitChar (b.val % 16)]

def hexValue (c : Char) : Option Nat :=
  if c.isDigit then some (c.toNat - 48)
  else if 'a' ≤ c ∧ c ≤ 'f' then some (c.toNat - 87)
  else if 'A' ≤ c ∧ c ≤ 'F' then some (c.toNat - 55)
  else none

/-- `Buffer.from(_, 'hex')`. -/
def bytesOf : List Char → List Nat
  | c :: d :: rest =>
    match hexValue c, hexValue d with
    | some h, some l => (16 * h + l) :: bytesOf rest
    | _, _ => []
  | _ => []

theorem hexValue_digitChar : ∀ n < 16, hexValue (Nat.digitChar n) = some n := by decide

theorem bytesOf_hexOf (bytes : List (Fin 256)) : bytesOf (hexOf bytes) = bytes.map Fin.val := by
  induction bytes with
  | nil => rfl
  | cons b bytes ih =>
    have hh := hexValue_digitChar (b.val / 16) (by omega)
    have hl := hexValue_digitChar (b.val % 16) (by omega)
    show bytesOf (_ :: _ :: hexOf bytes) = _
    rw [bytesOf, hh, hl]
    simp only [ih, List.map_cons, List.cons.injEq, and_true]
    omega

theorem hexOf_eq_nil {bytes : List (Fin 256)} : hexOf bytes = [] ↔ bytes = [] := by
  cases bytes <;> simp [hexOf]

/-- What is no digit can separate such texts. -/
theorem not_mem_hexOf {c : Char} (hc : hexValue c = none) (bytes : List (Fin 256)) : c ∉ hexOf bytes := by
  have hdigit : ∀ n < 16, c ≠ Nat.digitChar n := by
    rintro n hn rfl
    rw [hexValue_digitChar n hn] at hc
    cases hc
  intro h
  obtain ⟨b, -, hb⟩ := List.mem_flatMap.mp h
  simp only [List.mem_cons, List.not_mem_nil, or_false] at hb
  rcases hb with hb | hb
  · exact hdigit _ (by omega) hb
  · exact hdigit _ (by omega) hb

end Lib
