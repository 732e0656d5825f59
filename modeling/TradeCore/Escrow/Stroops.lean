import TradeCore.Lib.DecimalText

/-!
# TradeCore.Escrow.Stroops

`EscrowService.toStroops` and `EscrowService.fromStroops` over texts, and `Numeric`, the column
type `numeric(30, 7)` of every escrow amount: a stored amount is a whole number of stroops.

`toStroops_fromStroops` says the two conversions are exact on every integer, so that the amounts
the service computes with are the stored ones (`toStroops_text`) and the amounts it writes are
stored as computed (`ofText?_fromStroops`).
-/

namespace TradeCore
namespace Escrow

open Lib

/-- An amount argument: a text, or a number of the request body. -/
inductive Amount where
  | text (s : List Char)
  | number (x : JsNumber)

/-- The two parts `split('.')` yields first; the second one defaults to the empty text. -/
def splitDot (s : List Char) : List Char × List Char :=
  (s.takeWhile (· != '.'),
    match s.dropWhile (· != '.') with
    | [] => []
    | _ :: r => r.takeWhile (· != '.'))

def toStroopsText (normalized : List Char) : Option Int :=
  let (intPart, fracPart) := splitDot normalized
  let frac := (fracPart ++ "0000000".toList).take 7
  let sign : Int := if intPart.head? = some '-' then -1 else 1
  let absText := intPart.erase '-'
  match bigInt? (if absText = [] then ['0'] else absText),
      bigInt? (if frac = [] then ['0'] else frac) with
  | some absInt, some fracInt => some (sign * (absInt * 10000000 + fracInt))
  | _, _ => none

/-- `none` is the `SyntaxError` of `BigInt`. -/
def toStroops : Amount → Option Int
  | .number x => toStroopsText (x.toFixed 7)
  | .text s => toStroopsText (trim s)

def fromStroops (stroops : Int) : List Char :=
  let negative := stroops < 0
  let abs := stroops.natAbs
  let intPart := abs / 10000000
  let frac := List.leftpad 7 '0' (Nat.toDigits 10 (abs % 10000000))
  (if negative then ['-'] else []) ++ Nat.toDigits 10 intPart ++ '.' :: frac

theorem fromStroops_eq_signedText (n : Int) : fromStroops n = signedText 7 n := by
  unfold fromStroops signedText fixedText
  by_cases h : n < 0 <;> simp [h]

theorem ne_dot_of_isDigit {c : Char} (h : c.isDigit = true) : (c != '.') = true := by
  simp only [bne_iff_ne, ne_eq]
  rintro rfl
  cases h

theorem ne_minus_of_isDigit {c : Char} (h : c.isDigit = true) : c ≠ '-' := by
  rintro rfl
  cases h

theorem splitDot_append {u v : List Char} (hu : ∀ c ∈ u, (c != '.') = true)
    (hv : ∀ c ∈ v, (c != '.') = true) : splitDot (u ++ '.' :: v) = (u, v) := by
  rw [splitDot, List.takeWhile_append_of_pos hu, List.dropWhile_append_of_pos hu]
  simp [List.takeWhile_eq_self_iff.mpr hv]

theorem toStroopsText_digits {u v : List Char} (hu : u ≠ []) (hud : ∀ c ∈ u, c.isDigit = true)
    (hv : v.length = 7) (hvd : ∀ c ∈ v, c.isDigit = true) :
    toStroopsText (u ++ '.' :: v) =
      some (((Nat.ofDigitChars 10 u 0 : Nat) : Int) * 10000000 + (Nat.ofDigitChars 10 v 0 : Nat)) := by
  have hvne : v ≠ [] := by rintro rfl; cases hv
  have hhead : u.head? ≠ some '-' := by
    intro h
    exact ne_minus_of_isDigit (hud '-' (List.mem_of_mem_head? h)) rfl
  have herase : u.erase '-' = u :=
    List.erase_of_not_mem fun h => ne_minus_of_isDigit (hud '-' h) rfl
  have htake : (v ++ "0000000".toList).take 7 = v := by
    rw [List.take_append_of_le_length (by omega), List.take_of_length_le (by omega)]
  simp only [toStroopsText, splitDot_append (fun c hc => ne_dot_of_isDigit (hud c hc))
    (fun c hc => ne_dot_of_isDigit (hvd c hc)), htake, herase, if_neg hu, if_neg hvne, if_neg hhead,
    bigInt?_digits hu hud, bigInt?_digits hvne hvd, one_mul]

theorem toStroopsText_minus {u v : List Char} (hu : u ≠ []) (hud : ∀ c ∈ u, c.isDigit = true)
    (hv : v.length = 7) (hvd : ∀ c ∈ v, c.isDigit = true) :
    toStroopsText ('-' :: (u ++ '.' :: v)) =
      some (-(((Nat.ofDigitChars 10 u 0 : Nat) : Int) * 10000000 +
        (Nat.ofDigitChars 10 v 0 : Nat))) := by
  have hvne : v ≠ [] := by rintro rfl; cases hv
  have hu' : ∀ c ∈ '-' :: u, (c != '.') = true := by
    intro c hc
    rcases List.mem_cons.mp hc with rfl | hc
    · rfl
    · exact ne_dot_of_isDigit (hud c hc)
  have htake : (v ++ "0000000".toList).take 7 = v := by
    rw [List.take_append_of_le_length (by omega), List.take_of_length_le (by omega)]
  have hsplit : splitDot ('-' :: (u ++ '.' :: v)) = ('-' :: u, v) :=
    splitDot_append hu' (fun c hc => ne_dot_of_isDigit (hvd c hc))
  simp only [toStroopsText, hsplit, htake, List.erase_cons_head, if_neg hu, if_neg hvne,
    List.head?_cons, if_true, bigInt?_digits hu hud, bigInt?_digits hvne hvd, neg_one_mul]

theorem toStroopsText_fromStroops (n : Int) : toStroopsText (fromStroops n) = some n := by
  have hu := isDigit_toDigits (n.natAbs / 10 ^ 7)
  have hv := isDigit_frac 7 (n.natAbs % 10 ^ 7)
  have hlen : (List.leftpad 7 '0' (Nat.toDigits 10 (n.natAbs % 10 ^ 7))).length = 7 :=
    length_frac (by omega)
  have hval : ((n.natAbs / 10 ^ 7 : Nat) : Int) * 10000000 + ((n.natAbs % 10 ^ 7 : Nat) : Int)
      = n.natAbs := by omega
  rw [fromStroops_eq_signedText, signedText, fixedText]
  by_cases hn : n < 0
  · rw [if_pos hn, toStroopsText_minus Nat.toDigits_ne_nil hu hlen hv, ofDigitChars_frac,
      Nat.ofDigitChars_ten_toDigits, hval]
    congr 1
    omega
  · rw [if_neg hn, toStroopsText_digits Nat.toDigits_ne_nil hu hlen hv, ofDigitChars_frac,
      Nat.ofDigitChars_ten_toDigits, hval]
    congr 1
    omega

theorem trim_fromStroops (n : Int) : trim (fromStroops n) = fromStroops n := by
  rw [fromStroops_eq_signedText]
  exact trim_of_not_white (not_white_signedText 7 n)

@[simp] theorem toStroops_fromStroops (n : Int) : toStroops (.text (fromStroops n)) = some n := by
  rw [toStroops, trim_fromStroops, toStroopsText_fromStroops]

/-! ## Canonical texts -/

/-- An optional minus sign, digits without superfluous leading zeros, a dot and seven digits; zero has
no sign. -/
def Canonical (s : List Char) : Prop :=
  ∃ (minus : Bool) (u v : List Char), s = (if minus then ['-'] else []) ++ (u ++ '.' :: v) ∧
    u ≠ [] ∧ (∀ c ∈ u, c.isDigit = true) ∧ (u.head? = some '0' → u = ['0']) ∧
    v.length = 7 ∧ (∀ c ∈ v, c.isDigit = true) ∧ (minus = true → ∃ c ∈ u ++ v, c ≠ '0')

theorem Canonical.not_white {s : List Char} (h : Canonical s) : ∀ c ∈ s, isWhite c = false := by
  obtain ⟨minus, u, v, rfl, -, hud, -, -, hvd, -⟩ := h
  intro c hc
  rw [List.mem_append, List.mem_append, List.mem_cons] at hc
  rcases hc with hc | hc | rfl | hc
  · cases minus with
    | false => cases hc
    | true =>
      rw [List.mem_singleton.mp hc]
      decide
  · exact isWhite_of_isDigit (hud c hc)
  · decide
  · exact isWhite_of_isDigit (hvd c hc)

theorem fixedText_digits {u v : List Char} (hu : u ≠ []) (hud : ∀ c ∈ u, c.isDigit = true)
    (hlead : u.head? = some '0' → u = ['0']) (hv : v.length = 7) (hvd : ∀ c ∈ v, c.isDigit = true) :
    fixedText 7 (Nat.ofDigitChars 10 u 0 * 10000000 + Nat.ofDigitChars 10 v 0) = u ++ '.' :: v := by
  have hvne : v ≠ [] := by rintro rfl; cases hv
  have hlt : Nat.ofDigitChars 10 v 0 < 10 ^ 7 := by simpa [hv] using ofDigitChars_lt hvd 0
  have hdiv : (Nat.ofDigitChars 10 u 0 * 10000000 + Nat.ofDigitChars 10 v 0) / 10 ^ 7 =
      Nat.ofDigitChars 10 u 0 := by omega
  have hmod : (Nat.ofDigitChars 10 u 0 * 10000000 + Nat.ofDigitChars 10 v 0) % 10 ^ 7 =
      Nat.ofDigitChars 10 v 0 := by omega
  rw [fixedText, hdiv, hmod, toDigits_ofDigitChars hu hud hlead, ← hv, leftpad_ofDigitChars hvne hvd]

theorem stroops_round_trip :
    (∀ n : Int, toStroops (.text (fromStroops n)) = some n) ∧
      ∀ s, Canonical s → ∃ n, toStroops (.text s) = some n ∧ fromStroops n = s := by
  refine ⟨fun n => toStroops_fromStroops n, fun s hs => ?_⟩
  have htrim : toStroops (.text s) = toStroopsText s := by
    rw [toStroops, trim_of_not_white hs.not_white]
  obtain ⟨minus, u, v, rfl, hu, hud, hlead, hv, hvd, hzero⟩ := hs
  rw [htrim]
  have htext := fixedText_digits hu hud hlead hv hvd
  cases minus with
  | false =>
    refine ⟨(Nat.ofDigitChars 10 u 0 * 10000000 + Nat.ofDigitChars 10 v 0 : Nat),
      toStroopsText_digits hu hud hv hvd, ?_⟩
    rw [fromStroops_eq_signedText, signedText, if_neg (by omega), Int.natAbs_natCast]
    exact htext
  | true =>
    have hpos : 0 < Nat.ofDigitChars 10 u 0 * 10000000 + Nat.ofDigitChars 10 v 0 := by
      obtain ⟨c, hc, hne⟩ := hzero rfl
      rcases List.mem_append.mp hc with hc | hc
      · have := ofDigitChars_pos hud ⟨c, hc, hne⟩ 0
        omega
      · have := ofDigitChars_pos hvd ⟨c, hc, hne⟩ 0
        omega
    refine ⟨-(Nat.ofDigitChars 10 u 0 * 10000000 + Nat.ofDigitChars 10 v 0 : Nat),
      toStroopsText_minus hu hud hv hvd, ?_⟩
    rw [fromStroops_eq_signedText, signedText, if_pos (by omega), Int.natAbs_neg, Int.natAbs_natCast]
    exact congrArg ('-' :: ·) htext

def oneStroopLess : List Char := ['-', '0', '.', '0', '0', '0', '0', '0', '0', '1']

theorem negative_stroop :
    ∃ n, toStroops (.text oneStroopLess) = some n ∧ fromStroops n = oneStroopLess :=
  stroops_round_trip.2 _ ⟨true, ['0'], ['0', '0', '0', '0', '0', '0', '1'], rfl, by simp, by simp,
    by simp, rfl, by simp, fun _ => ⟨'1', by simp, by simp⟩⟩

/-! ## Stored amounts -/

abbrev Numeric := SqlNumeric 30 7

namespace Numeric

def zero : Numeric := ⟨0, by decide⟩

def stroops (x : Numeric) : Int := x.units

theorem ext_stroops {x y : Numeric} (h : x.stroops = y.stroops) : x = y := by
  cases x; cases y; cases h; rfl

end Numeric

theorem text_eq_fromStroops (x : Numeric) : x.text = fromStroops x.stroops :=
  (fromStroops_eq_signedText x.stroops).symm

/-- The service reads a stored amount as the stroops it holds. -/
@[simp] theorem toStroops_text (x : Numeric) : toStroops (.text x.text) = some x.stroops := by
  rw [text_eq_fromStroops, toStroops_fromStroops]

/-- An amount the service formats is stored as it was computed. -/
theorem ofText?_fromStroops (n : Int) :
    SqlNumeric.ofText? 30 7 (fromStroops n) = SqlNumeric.ofUnits? 30 7 n := by
  rw [fromStroops_eq_signedText, SqlNumeric.ofText?_signedText (by omega)]

theorem ofText?_fromStroops_stroops (x : Numeric) :
    SqlNumeric.ofText? 30 7 (fromStroops x.stroops) = some x := by
  rw [ofText?_fromStroops]
  exact dif_pos x.bound

end Escrow
end TradeCore
