import Mathlib.Data.List.TakeWhile
import Mathlib.Data.Rat.Floor
import Mathlib.Algebra.Order.Floor.Ring
import Mathlib.Algebra.Order.Field.Rat
import Mathlib.Algebra.Order.Field.Power
import Mathlib.Tactic.FieldSimp

/-!
# TradeCore.Lib.DecimalText

Decimal texts as a JavaScript runtime and an SQL database read and write them.

* `bigInt?`       `BigInt(s)`: `none` is the `SyntaxError` it throws.
* `fixedText f n` the digits of `n / 10^f` with exactly `f` decimals.
* `JsNumber`      a finite number: its exact value and the text `toString` prints for it.
* `toFixed`       `Number.prototype.toFixed`.
* `SqlNumeric p s` a column `numeric(p, s)`: a whole number of units of `10^-s` below `10^p`, with
  the text the driver returns for it and the text the database accepts for it.

`bigInt?_digits` and `ofText?_signedText` are the round trips the users of this module need, and
`ofText?_of_value` says that a text is stored as the number it denotes when that is a whole number of
units.
-/

namespace Lib

/-! ## `BigInt(s)` -/

def isWhite (c : Char) : Bool :=
  c.toNat ∈ [0x09, 0x0A, 0x0B, 0x0C, 0x0D, 0x20, 0xA0, 0x1680, 0x2000, 0x2001, 0x2002, 0x2003,
    0x2004, 0x2005, 0x2006, 0x2007, 0x2008, 0x2009, 0x200A, 0x2028, 0x2029, 0x202F, 0x205F, 0x3000,
    0xFEFF]

/-- `s.trim()`. -/
def trim (s : List Char) : List Char := ((s.dropWhile isWhite).reverse.dropWhile isWhite).reverse

def digitVal (c : Char) : Option Nat :=
  if c.isDigit then some (c.toNat - '0'.toNat)
  else if 'a' ≤ c ∧ c ≤ 'f' then some (c.toNat - 'a'.toNat + 10)
  else if 'A' ≤ c ∧ c ≤ 'F' then some (c.toNat - 'A'.toNat + 10)
  else none

/-- The digits `s` in base `b`, after a number `acc` already read. -/
def natOfDigits (b : Nat) : Nat → List Char → Option Nat
  | acc, [] => some acc
  | acc, c :: cs =>
    match digitVal c with
    | some d => if d < b then natOfDigits b (acc * b + d) cs else none
    | none => none

/-- A literal in base `b`: at least one digit. -/
def natOfText (b : Nat) (s : List Char) : Option Nat :=
  if s = [] then none else natOfDigits b 0 s

/-- The base a literal announces after its leading `0`. -/
def radix? (c : Char) : Option Nat :=
  if c = 'x' ∨ c = 'X' then some 16
  else if c = 'o' ∨ c = 'O' then some 8
  else if c = 'b' ∨ c = 'B' then some 2
  else none

def literal? : List Char → Option Nat
  | '0' :: c :: ds =>
    match radix? c with
    | some b => natOfText b ds
    | none => natOfText 10 ('0' :: c :: ds)
  | ds => natOfText 10 ds

def bigInt? (s : List Char) : Option Int :=
  match trim s with
  | [] => some 0
  | '-' :: ds => (natOfText 10 ds).map fun n => -(n : Int)
  | '+' :: ds => (natOfText 10 ds).map fun n => (n : Int)
  | ds => (literal? ds).map fun n => (n : Int)

theorem isWhite_of_isDigit {c : Char} (h : c.isDigit = true) : isWhite c = false := by
  simp only [Char.isDigit, Bool.and_eq_true, decide_eq_true_eq] at h
  have h1 : 48 ≤ c.toNat := h.1
  have h2 : c.toNat ≤ 57 := h.2
  simp only [isWhite, List.mem_cons, List.not_mem_nil, or_false, decide_eq_false_iff_not]
  omega

theorem dropWhile_isWhite {s : List Char} (h : ∀ c ∈ s, isWhite c = false) :
    s.dropWhile isWhite = s := by
  cases s with
  | nil => rfl
  | cons c cs => simp [h c (by simp)]

theorem trim_of_not_white {s : List Char} (h : ∀ c ∈ s, isWhite c = false) : trim s = s := by
  rw [trim, dropWhile_isWhite h, dropWhile_isWhite (by simpa using h), List.reverse_reverse]

theorem digitVal_of_isDigit {c : Char} (h : c.isDigit = true) :
    digitVal c = some (c.toNat - '0'.toNat) ∧ c.toNat - '0'.toNat < 10 := by
  refine ⟨by simp [digitVal, h], ?_⟩
  simp only [Char.isDigit, Bool.and_eq_true, decide_eq_true_eq] at h
  have h2 : c.toNat ≤ 57 := h.2
  have : '0'.toNat = 48 := rfl
  omega

theorem natOfDigits_ten {s : List Char} (h : ∀ c ∈ s, c.isDigit = true) :
    ∀ acc, natOfDigits 10 acc s = some (Nat.ofDigitChars 10 s acc) := by
  induction s with
  | nil => intro acc; simp [natOfDigits]
  | cons c cs ih =>
    intro acc
    obtain ⟨hv, hlt⟩ := digitVal_of_isDigit (h c (by simp))
    simp only [natOfDigits, hv, if_pos hlt, Nat.ofDigitChars_cons]
    rw [ih (fun d hd => h d (by simp [hd])), Nat.mul_comm]

theorem natOfText_ten {s : List Char} (hne : s ≠ []) (h : ∀ c ∈ s, c.isDigit = true) :
    natOfText 10 s = some (Nat.ofDigitChars 10 s 0) := by
  rw [natOfText, if_neg hne, natOfDigits_ten h]

theorem isDigit_toDigits (n : Nat) : ∀ c ∈ Nat.toDigits 10 n, c.isDigit = true :=
  fun _ hc => Nat.isDigit_of_mem_toDigits (by omega) (by omega) hc

theorem toDigits_inj {m n : Nat} (h : Nat.toDigits 10 m = Nat.toDigits 10 n) : m = n := by
  simpa using congrArg (fun ds => Nat.ofDigitChars 10 ds 0) h

theorem toList_intText (i : Int) :
    (toString i).toList = (if i < 0 then ['-'] else []) ++ Nat.toDigits 10 i.natAbs := by
  rw [Int.toString_eq_repr, Int.repr_eq_if]
  split
  · rw [if_neg (by omega), Nat.toList_repr, List.nil_append]
    congr 1
    omega
  · rw [if_pos (by omega), String.toList_append, Nat.toList_repr]
    congr 2
    omega

theorem mem_intText {i : Int} {c : Char} (h : c ∈ (toString i).toList) : c = '-' ∨ c.isDigit = true := by
  rw [toList_intText, List.mem_append] at h
  rcases h with h | h
  · split at h
    · exact .inl (List.mem_singleton.mp h)
    · cases h
  · exact .inr (isDigit_toDigits _ c h)

theorem intText_inj {i j : Int} (h : toString i = toString j) : i = j := by
  have hlist := congrArg String.toList h
  have hdash (n : Nat) (ds : List Char) : '-' :: ds ≠ Nat.toDigits 10 n := by
    intro heq
    exact absurd (isDigit_toDigits n '-' (by rw [← heq]; exact .head _)) (by decide)
  rw [toList_intText, toList_intText] at hlist
  split at hlist <;> split at hlist
  · have := toDigits_inj (List.tail_eq_of_cons_eq hlist)
    omega
  · exact absurd hlist (hdash _ _)
  · exact absurd hlist.symm (hdash _ _)
  · have := toDigits_inj hlist
    omega

theorem radix?_of_isDigit {c : Char} (h : c.isDigit = true) : radix? c = none := by
  have hne : ∀ d : Char, d.isDigit = false → c ≠ d := fun d hd e => by rw [e, hd] at h; cases h
  simp only [radix?, hne 'x' rfl, hne 'X' rfl, hne 'o' rfl, hne 'O' rfl, hne 'b' rfl, hne 'B' rfl,
    or_self, if_false]

theorem literal?_digits {s : List Char} (hne : s ≠ []) (h : ∀ c ∈ s, c.isDigit = true) :
    literal? s = some (Nat.ofDigitChars 10 s 0) := by
  rw [literal?.eq_def]
  split
  · rename_i c ds
    rw [radix?_of_isDigit (h c (by simp))]
    exact natOfText_ten hne h
  · exact natOfText_ten hne h

/-- A text of decimal digits is read as the number it denotes. -/
theorem bigInt?_digits {s : List Char} (hne : s ≠ []) (h : ∀ c ∈ s, c.isDigit = true) :
    bigInt? s = some ((Nat.ofDigitChars 10 s 0 : Nat) : Int) := by
  rw [bigInt?, trim_of_not_white fun c hc => isWhite_of_isDigit (h c hc)]
  split
  · exact absurd rfl hne
  · exact absurd (h '-' (by simp)) (by decide)
  · exact absurd (h '+' (by simp)) (by decide)
  · rw [literal?_digits hne h]; rfl

/-! ## Fixed-point texts -/

/-- `n / 10^f` with exactly `f` decimals: `${n / 10n**f}.${(n % 10n**f).padStart(f, '0')}`. -/
def fixedText (f n : Nat) : List Char :=
  Nat.toDigits 10 (n / 10 ^ f) ++ '.' :: List.leftpad f '0' (Nat.toDigits 10 (n % 10 ^ f))

theorem length_toDigits_mod {f n : Nat} (hf : 0 < f) : (Nat.toDigits 10 (n % 10 ^ f)).length ≤ f :=
  (Nat.length_toDigits_le_iff (by omega) hf).mpr (Nat.mod_lt _ (by positivity))

theorem length_frac {f n : Nat} (hf : 0 < f) :
    (List.leftpad f '0' (Nat.toDigits 10 (n % 10 ^ f))).length = f := by
  rw [List.length_leftpad]
  exact max_eq_left (length_toDigits_mod hf)

theorem isDigit_frac (f n : Nat) : ∀ c ∈ List.leftpad f '0' (Nat.toDigits 10 n), c.isDigit = true := by
  intro c hc
  rw [List.leftpad, List.mem_append] at hc
  rcases hc with hc | hc
  · rw [List.eq_of_mem_replicate hc]; rfl
  · exact isDigit_toDigits n c hc

theorem ofDigitChars_frac (f n : Nat) :
    Nat.ofDigitChars 10 (List.leftpad f '0' (Nat.toDigits 10 n)) 0 = n := by
  rw [List.leftpad, Nat.ofDigitChars_append, Nat.ofDigitChars_replicate_zero, Nat.mul_zero,
    Nat.ofDigitChars_ten_toDigits]

theorem exists_digitChar {c : Char} (h : c.isDigit = true) :
    ∃ d < 10, c = d.digitChar ∧ c.toNat - '0'.toNat = d ∧ (c ≠ '0' → 0 < d) := by
  have hbounds : 48 ≤ c.toNat ∧ c.toNat ≤ 57 := by
    simpa [Char.isDigit, UInt32.le_iff_toNat_le] using h
  have hzero : '0'.toNat = 48 := rfl
  refine ⟨c.toNat - 48, by omega, ?_, rfl, fun hne => ?_⟩
  · apply Char.toNat_inj.mp
    rw [Nat.toNat_digitChar_of_lt_ten (by omega)]
    omega
  · have : c.toNat ≠ 48 := fun heq => hne (Char.toNat_inj.mp (heq.trans hzero.symm))
    omega

/-- By induction on the digits that are left, the number before them being positive. -/
theorem toDigits_append_digits {cs : List Char} (h : ∀ c ∈ cs, c.isDigit = true) {n : Nat} (hn : 0 < n) :
    Nat.toDigits 10 (Nat.ofDigitChars 10 cs n) = Nat.toDigits 10 n ++ cs := by
  induction cs generalizing n with
  | nil => simp
  | cons c cs ih =>
    obtain ⟨d, hd, hc, hval, -⟩ := exists_digitChar (h c (by simp))
    have hstep : Nat.toDigits 10 (10 * n + d) = Nat.toDigits 10 n ++ [c] := by
      rw [← Nat.toDigits_append_toDigits (by omega) hn hd, Nat.toDigits_of_lt_base hd, hc]
    rw [Nat.ofDigitChars_cons, hval, ih (fun c hc => h c (by simp [hc])) (by omega), hstep,
      List.append_assoc]
    rfl

/-- Digits without superfluous leading zeros are the ones that are written for their number. -/
theorem toDigits_ofDigitChars {u : List Char} (hne : u ≠ []) (h : ∀ c ∈ u, c.isDigit = true)
    (hlead : u.head? = some '0' → u = ['0']) : Nat.toDigits 10 (Nat.ofDigitChars 10 u 0) = u := by
  cases u with
  | nil => exact absurd rfl hne
  | cons c cs =>
    by_cases hzero : c = '0'
    · rw [hlead (by rw [hzero]; rfl)]
      rfl
    · obtain ⟨d, hd, hc, hval, hpos⟩ := exists_digitChar (h c (by simp))
      rw [Nat.ofDigitChars_cons, hval, Nat.mul_zero, Nat.zero_add,
        toDigits_append_digits (fun c hc => h c (by simp [hc])) (hpos hzero),
        Nat.toDigits_of_lt_base hd, ← hc]
      rfl

theorem ofDigitChars_lt {v : List Char} (h : ∀ c ∈ v, c.isDigit = true) (n : Nat) :
    Nat.ofDigitChars 10 v n < (n + 1) * 10 ^ v.length := by
  induction v generalizing n with
  | nil => simp
  | cons c v ih =>
    obtain ⟨d, hd, -, hval, -⟩ := exists_digitChar (h c (by simp))
    have hle : (10 * n + d + 1) * 10 ^ v.length ≤ (n + 1) * 10 * 10 ^ v.length := by
      gcongr
      omega
    rw [Nat.ofDigitChars_cons, hval, List.length_cons, pow_succ']
    calc Nat.ofDigitChars 10 v (10 * n + d)
        < (10 * n + d + 1) * 10 ^ v.length := ih (fun c hc => h c (by simp [hc])) _
      _ ≤ (n + 1) * (10 * 10 ^ v.length) := by rwa [← Nat.mul_assoc]

theorem le_ofDigitChars (cs : List Char) (n : Nat) : n ≤ Nat.ofDigitChars 10 cs n := by
  induction cs generalizing n with
  | nil => exact Nat.le_refl n
  | cons c cs ih =>
    rw [Nat.ofDigitChars_cons]
    exact le_trans (by omega) (ih _)

theorem ofDigitChars_pos {cs : List Char} (hd : ∀ c ∈ cs, c.isDigit = true) (h : ∃ c ∈ cs, c ≠ '0')
    (n : Nat) : 0 < Nat.ofDigitChars 10 cs n := by
  induction cs generalizing n with
  | nil => simp at h
  | cons c cs ih =>
    rw [Nat.ofDigitChars_cons]
    by_cases hzero : c = '0'
    · obtain ⟨c', hc', hne⟩ := h
      have hmem : c' ∈ cs := (List.mem_cons.mp hc').resolve_left fun heq => hne (heq.trans hzero)
      exact ih (fun c hc => hd c (by simp [hc])) ⟨c', hmem, hne⟩ _
    · obtain ⟨d, -, -, hval, hpos⟩ := exists_digitChar (hd c (by simp))
      rw [hval]
      exact Nat.lt_of_lt_of_le (Nat.add_pos_right _ (hpos hzero)) (le_ofDigitChars cs _)

/-- Padding to their own length restores the leading zeros of some digits. -/
theorem leftpad_ofDigitChars {v : List Char} (hne : v ≠ []) (h : ∀ c ∈ v, c.isDigit = true) :
    List.leftpad v.length '0' (Nat.toDigits 10 (Nat.ofDigitChars 10 v 0)) = v := by
  induction v with
  | nil => exact absurd rfl hne
  | cons c cs ih =>
    by_cases hzero : c = '0'
    · subst hzero
      cases cs with
      | nil => rfl
      | cons c' cs =>
        have hcs : ∀ c ∈ c' :: cs, c.isDigit = true := fun c hc => h c (List.mem_cons_of_mem _ hc)
        have hlen : (Nat.toDigits 10 (Nat.ofDigitChars 10 (c' :: cs) 0)).length ≤ (c' :: cs).length :=
          (Nat.length_toDigits_le_iff (by omega) (by simp)).mpr (by simpa using ofDigitChars_lt hcs 0)
        have hsame : Nat.ofDigitChars 10 ('0' :: c' :: cs) 0 = Nat.ofDigitChars 10 (c' :: cs) 0 := by
          rw [Nat.ofDigitChars_cons]
          rfl
        rw [hsame, List.leftpad, List.length_cons, Nat.succ_sub hlen, List.replicate_succ,
          List.cons_append]
        exact congrArg ('0' :: ·) (ih (by simp) hcs)
    · rw [toDigits_ofDigitChars hne h fun hhead => absurd (Option.some.inj hhead) hzero, List.leftpad,
        Nat.sub_self]
      rfl

/-- The signed form: a minus sign for a negative number of units. -/
def signedText (f : Nat) (n : Int) : List Char :=
  if n < 0 then '-' :: fixedText f n.natAbs else fixedText f n.natAbs

theorem fixedText_cons (f n : Nat) : ∃ d r, fixedText f n = d :: r ∧ d.isDigit = true := by
  cases h : Nat.toDigits 10 (n / 10 ^ f) with
  | nil => exact absurd h Nat.toDigits_ne_nil
  | cons d r =>
    exact ⟨d, _, by rw [fixedText, h]; rfl, isDigit_toDigits (n / 10 ^ f) d (by simp [h])⟩

theorem not_white_signedText (f : Nat) (n : Int) : ∀ c ∈ signedText f n, isWhite c = false := by
  have hfix : ∀ c ∈ fixedText f n.natAbs, isWhite c = false := by
    intro c hc
    rw [fixedText, List.mem_append, List.mem_cons] at hc
    rcases hc with hc | rfl | hc
    · exact isWhite_of_isDigit (isDigit_toDigits _ c hc)
    · decide
    · exact isWhite_of_isDigit (isDigit_frac f _ c hc)
  intro c hc
  rw [signedText] at hc
  split at hc
  · rcases List.mem_cons.mp hc with rfl | hc
    · decide
    · exact hfix c hc
  · exact hfix c hc

/-! ## Numbers -/

/-- A finite number: its exact value, and the text `toString` gives for it. -/
structure JsNumber where
  value : ℚ
  text : List Char

/-- `x.toFixed(f)`: the nearest multiple of `10^-f`, ties away from zero; from `10^21` on the text
of `toString`. -/
def JsNumber.toFixed (f : Nat) (x : JsNumber) : List Char :=
  if 10 ^ 21 ≤ |x.value| then x.text
  else
    let m := fixedText f ⌊|x.value| * 10 ^ f + 1 / 2⌋.toNat
    if x.value < 0 then '-' :: m else m

/-! ## Columns `numeric(p, s)` -/

/-- A stored value: `units` units of `10^-s`, fewer than `p` digits. -/
structure SqlNumeric (p s : Nat) where
  units : Int
  bound : units.natAbs < 10 ^ p
  deriving DecidableEq

/-- The digits and the decimal exponent of a text `[digits][.digits][e[+-]digits]`. -/
def mantissa? (t : List Char) : Option (Nat × Int) :=
  let ip := t.takeWhile Char.isDigit
  let (fp, rest) :=
    match t.dropWhile Char.isDigit with
    | '.' :: r => (r.takeWhile Char.isDigit, r.dropWhile Char.isDigit)
    | r => ([], r)
  let exp? : Option Int :=
    match rest with
    | [] => some 0
    | c :: '-' :: ds => if c = 'e' ∨ c = 'E' then (natOfText 10 ds).map fun n => -(n : Int) else none
    | c :: '+' :: ds => if c = 'e' ∨ c = 'E' then (natOfText 10 ds).map fun n => (n : Int) else none
    | c :: ds => if c = 'e' ∨ c = 'E' then (natOfText 10 ds).map fun n => (n : Int) else none
  match natOfText 10 (ip ++ fp), exp? with
  | some m, some e => some (m, e - fp.length)
  | _, _ => none

/-- `m * 10^e` rounded to a whole number, ties away from zero. -/
def scaled (m : Nat) : Int → Nat
  | .ofNat e => m * 10 ^ e
  | .negSucc e => (2 * m + 10 ^ (e + 1)) / (2 * 10 ^ (e + 1))

namespace SqlNumeric

variable {p s : Nat}

def ofUnits? (p s : Nat) (n : Int) : Option (SqlNumeric p s) :=
  if h : n.natAbs < 10 ^ p then some ⟨n, h⟩ else none

/-- The input conversion of the database; `none` is a syntax or an overflow error. -/
def ofText? (p s : Nat) (t : List Char) : Option (SqlNumeric p s) :=
  match trim t with
  | '-' :: r => (mantissa? r).bind fun x => ofUnits? p s (-(scaled x.1 (x.2 + s) : Nat))
  | '+' :: r => (mantissa? r).bind fun x => ofUnits? p s (scaled x.1 (x.2 + s) : Nat)
  | r => (mantissa? r).bind fun x => ofUnits? p s (scaled x.1 (x.2 + s) : Nat)

/-- The text the driver returns. -/
def text (x : SqlNumeric p s) : List Char := signedText s x.units

end SqlNumeric

theorem takeWhile_digits {u v : List Char} {c : Char} (h : ∀ d ∈ u, d.isDigit = true)
    (hc : c.isDigit = false) : (u ++ c :: v).takeWhile Char.isDigit = u := by
  rw [List.takeWhile_append_of_pos h, List.takeWhile_cons_of_neg (by simp [hc]), List.append_nil]

theorem dropWhile_digits {u v : List Char} {c : Char} (h : ∀ d ∈ u, d.isDigit = true)
    (hc : c.isDigit = false) : (u ++ c :: v).dropWhile Char.isDigit = c :: v := by
  rw [List.dropWhile_append_of_pos h, List.dropWhile_cons_of_neg (by simp [hc])]

theorem mantissa?_fixedText {f : Nat} (hf : 0 < f) (n : Nat) :
    mantissa? (fixedText f n) = some (n, -(f : Int)) := by
  have hi := isDigit_toDigits (n / 10 ^ f)
  have hd := isDigit_frac f (n % 10 ^ f)
  have hfp : (List.leftpad f '0' (Nat.toDigits 10 (n % 10 ^ f))).takeWhile Char.isDigit
      = List.leftpad f '0' (Nat.toDigits 10 (n % 10 ^ f)) := List.takeWhile_eq_self_iff.mpr hd
  have hrest : (List.leftpad f '0' (Nat.toDigits 10 (n % 10 ^ f))).dropWhile Char.isDigit = [] :=
    List.dropWhile_eq_nil_iff.mpr hd
  have hm : natOfText 10 (Nat.toDigits 10 (n / 10 ^ f) ++
      List.leftpad f '0' (Nat.toDigits 10 (n % 10 ^ f))) = some n := by
    rw [natOfText_ten (by simp [Nat.toDigits_ne_nil])
      (fun c hc => (List.mem_append.mp hc).elim (hi c) (hd c)),
      Nat.ofDigitChars_append, Nat.ofDigitChars_ten_toDigits,
      Nat.ofDigitChars_eq_ofDigitChars_zero, ofDigitChars_frac, length_frac hf, Nat.div_add_mod]
  simp only [mantissa?, fixedText, takeWhile_digits hi (show ('.' : Char).isDigit = false by rfl),
    dropWhile_digits hi (show ('.' : Char).isDigit = false by rfl), hfp, hrest, hm, length_frac hf]
  simp

/-- The text of `n` units is stored as `n` units, or refused when it has too many digits. -/
theorem SqlNumeric.ofText?_signedText {p s : Nat} (hs : 0 < s) (n : Int) :
    ofText? p s (signedText s n) = ofUnits? p s n := by
  rw [ofText?, trim_of_not_white (not_white_signedText s n)]
  have hsc : ∀ m : Nat, scaled m (-(s : Int) + (s : Int)) = m := by
    intro m; rw [neg_add_cancel]; simp [scaled]
  by_cases hn : n < 0
  · have he : -((n.natAbs : Nat) : Int) = n := by omega
    simp only [signedText, if_pos hn, mantissa?_fixedText hs, Option.bind_some, hsc, he]
  · have he : ((n.natAbs : Nat) : Int) = n := by omega
    obtain ⟨d, r, hd, hdig⟩ := fixedText_cons s n.natAbs
    have hm := mantissa?_fixedText hs n.natAbs
    simp only [signedText, if_neg hn]
    rw [hd] at hm ⊢
    split
    · rename_i h; cases h; exact absurd hdig (by decide)
    · rename_i h; cases h; exact absurd hdig (by decide)
    · simp only [hm, Option.bind_some, hsc, he]

/-! ## The value of a text -/

/-- The number a decimal text denotes. -/
def textValue? (t : List Char) : Option ℚ :=
  match trim t with
  | '-' :: r => (mantissa? r).map fun x => -(x.1 * 10 ^ x.2)
  | '+' :: r => (mantissa? r).map fun x => x.1 * 10 ^ x.2
  | r => (mantissa? r).map fun x => x.1 * 10 ^ x.2

theorem scaled_eq {m k : Nat} {e : Int} (h : (m : ℚ) * 10 ^ e = k) : scaled m e = k := by
  cases e with
  | ofNat e =>
    rw [Int.ofNat_eq_natCast, zpow_natCast] at h
    exact_mod_cast h
  | negSucc e =>
    rw [zpow_negSucc, ← div_eq_mul_inv, div_eq_iff (by positivity)] at h
    have hm : m = k * 10 ^ (e + 1) := by exact_mod_cast h
    have hpos : 0 < 10 ^ (e + 1) := by positivity
    rw [scaled, hm, Nat.div_eq_iff (by omega)]
    generalize 10 ^ (e + 1) = d at hpos ⊢
    have : k * (2 * d) = 2 * (k * d) := by ring
    constructor <;> omega

/-- A text that denotes a whole number of units is stored as that many. -/
theorem SqlNumeric.ofText?_of_value {p s : Nat} {t : List Char} {n : Int}
    (h : textValue? t = some ((n : ℚ) / 10 ^ s)) : ofText? p s t = ofUnits? p s n := by
  have hunits : ∀ (m : Nat) (e k : Int), (m : ℚ) * 10 ^ e = k / 10 ^ s → (scaled m (e + s) : Int) = k := by
    intro m e k hk
    have hval : (m : ℚ) * 10 ^ (e + (s : Int)) = k := by
      rw [zpow_add₀ (by norm_num), zpow_natCast, ← mul_assoc, hk]
      field_simp
    have hk0 : 0 ≤ k := by
      have hpos : (0 : ℚ) ≤ m * 10 ^ (e + (s : Int)) :=
        mul_nonneg (Nat.cast_nonneg m) (zpow_nonneg (by norm_num) _)
      rw [hval] at hpos
      exact_mod_cast hpos
    lift k to ℕ using hk0
    rw [scaled_eq (by exact_mod_cast hval)]
  unfold textValue? at h
  unfold ofText?
  split at h
  · obtain ⟨x, hx, hv⟩ := Option.map_eq_some_iff.mp h
    have := hunits x.1 x.2 (-n) (by rw [Int.cast_neg, neg_div, ← hv, neg_neg])
    simp only [hx, Option.bind_some, this, Int.neg_neg]
  · obtain ⟨x, hx, hv⟩ := Option.map_eq_some_iff.mp h
    simp only [hx, Option.bind_some, hunits x.1 x.2 n hv]
  · obtain ⟨x, hx, hv⟩ := Option.map_eq_some_iff.mp h
    simp only [hx, Option.bind_some, hunits x.1 x.2 n hv]

end Lib
