import TradeCore.Lib.DecimalText
import TradeCore.Lib.JsonText

/-!
# TradeCore.Lib.JsonParse

`JSON.parse`, as far as the value of a text.

* `readString`  the text behind an opening quote.
* `readNumber`  the longest run of number characters, which has to be a number of the grammar.
* `readValue`   a value and what stands behind it. Each call of one reader by another uses up a unit of
  the fuel; `parseJson` gives enough for any text.

`parseJson_render` says that the text `render` writes for a value is read as this value.
-/

namespace Lib

def isJsonSpace (c : Char) : Bool := c = ' ' || c = '\t' || c = '\n' || c = '\r'

def skipSpace (text : List Char) : List Char := text.dropWhile isJsonSpace

/-! ## Strings -/

def hexDigit? (c : Char) : Option Nat := (digitVal c).filter (· < 16)

def hexCode? (digits : List Char) : Option Nat :=
  digits.foldlM (fun acc c => (hexDigit? c).map (16 * acc + ·)) 0

def escapeLetters : List Char := [quoteMark, backslash, '/', 'b', 'f', 'n', 'r', 't']

/-- The code of a character or of an escape, and what stands behind it. -/
def readUnit : List Char → Option (Nat × List Char)
  | [] => none
  | c :: t =>
    if c = backslash then
      match t with
      | [] => none
      | l :: t =>
        if l = 'u' then (hexCode? (t.take 4)).bind fun code => if t.length < 4 then none else some (code, t.drop 4)
        else if l ∈ escapeLetters then some (shortCode l, t)
        else none
    else if c.toNat < 0x20 then none
    else some (c.toNat, t)

/-- The codes up to the closing quote. -/
def readUnits : Nat → List Char → Option (List Nat × List Char)
  | _, [] => none
  | 0, _ => none
  | n + 1, c :: t =>
    if c = quoteMark then some ([], t)
    else
      (readUnit (c :: t)).bind fun unit => (readUnits n unit.2).map fun rest => (unit.1 :: rest.1, rest.2)

/-- Two surrogates are one character; one alone is none, and reads as U+0000. -/
def charsOf : List Nat → List Char
  | [] => []
  | [code] => [Char.ofNat code]
  | high :: low :: codes =>
    if 0xD800 ≤ high ∧ high < 0xDC00 ∧ 0xDC00 ≤ low ∧ low < 0xE000 then
      Char.ofNat (0x10000 + (high - 0xD800) * 0x400 + (low - 0xDC00)) :: charsOf codes
    else Char.ofNat high :: charsOf (low :: codes)

def readString (text : List Char) : Option (String × List Char) :=
  (readUnits (text.length + 1) text).map fun p => (String.ofList (charsOf p.1), p.2)

/-! ## Numbers -/

def validExponent : List Char → Bool
  | [] => true
  | c :: t =>
    let digits :=
      match t with
      | '-' :: r | '+' :: r => r
      | r => r
    c = 'e' && digits ≠ [] && digits.all Char.isDigit

def validFraction (text : List Char) : Bool :=
  match text with
  | '.' :: t => t.takeWhile Char.isDigit ≠ [] && validExponent (t.dropWhile Char.isDigit)
  | t => validExponent t

/-- A number of the grammar: no leading zero before another digit. -/
def validNumber (text : List Char) : Bool :=
  let unsigned :=
    match text with
    | '-' :: t => t
    | t => t
  let whole := unsigned.takeWhile Char.isDigit
  whole ≠ [] && (whole = ['0'] || whole.head? ≠ some '0') && validFraction (unsigned.dropWhile Char.isDigit)

def isNumberChar (c : Char) : Bool := isNumChar c || c = 'E'

def readNumber (text : List Char) : Option (NumText × List Char) :=
  let chars := (text.takeWhile isNumberChar).map fun c => if c = 'E' then 'e' else c
  if h : chars ≠ [] ∧ chars.all isNumChar = true then
    if validNumber chars then some (⟨chars, h.1, List.all_eq_true.mp h.2⟩, text.dropWhile isNumberChar)
    else none
  else none

theorem head?_toDigits_ne {n : Nat} (h : 0 < n) : (Nat.toDigits 10 n).head? ≠ some '0' := by
  induction n using Nat.strongRecOn with
  | ind n ih =>
    rw [Nat.toDigits_eq_if (by omega)]
    split
    · rename_i hlt
      have hdigit : ∀ d < 10, 0 < d → Nat.digitChar d ≠ '0' := by decide
      rw [List.head?_cons]
      exact fun heq => hdigit n hlt h (Option.some.inj heq)
    · rw [List.head?_append_of_ne_nil _ Nat.toDigits_ne_nil]
      exact ih (n / 10) (by omega) (by omega)

theorem validNumber_toDigits (n : Nat) :
    validNumber (Nat.toDigits 10 n) = true ∧ validNumber ('-' :: Nat.toDigits 10 n) = true := by
  have hdigits := isDigit_toDigits n
  have hminus : '-' ∉ Nat.toDigits 10 n := fun h => absurd (hdigits _ h) (by decide)
  have htake : (Nat.toDigits 10 n).takeWhile Char.isDigit = Nat.toDigits 10 n :=
    List.takeWhile_eq_self_iff.mpr hdigits
  have hdrop : (Nat.toDigits 10 n).dropWhile Char.isDigit = [] := List.dropWhile_eq_nil_iff.mpr hdigits
  have hlead : Nat.toDigits 10 n = ['0'] ∨ (Nat.toDigits 10 n).head? ≠ some '0' := by
    rcases Nat.eq_zero_or_pos n with rfl | hpos
    · exact .inl (Nat.toDigits_zero 10)
    · exact .inr (head?_toDigits_ne hpos)
  have hunsigned : validNumber (Nat.toDigits 10 n) = validNumber ('-' :: Nat.toDigits 10 n) := by
    unfold validNumber
    split
    · rename_i heq
      exact absurd (heq ▸ List.mem_cons_self) hminus
    · rfl
  refine ⟨hunsigned ▸ ?_, ?_⟩ <;>
  · simp only [validNumber, htake, hdrop, validFraction, validExponent]
    simpa [Nat.toDigits_ne_nil] using hlead

/-! ## Values -/

/-- A word, behind its first letter. -/
def readWord (word : List Char) (value : Json) (text : List Char) : Option (Json × List Char) :=
  if word.isPrefixOf text then some (value, text.drop word.length) else none

mutual

def readValue : Nat → List Char → Option (Json × List Char)
  | 0, _ => none
  | n + 1, text =>
    match skipSpace text with
    | [] => none
    | c :: t =>
      if c = quoteMark then (readString t).map fun p => (.str p.1, p.2)
      else if c = '[' then
        if (skipSpace t).head? = some ']' then some (.arr [], (skipSpace t).tail)
        else (readElements n t).map fun p => (.arr p.1, p.2)
      else if c = openBrace then
        if (skipSpace t).head? = some closeBrace then some (.obj [], (skipSpace t).tail)
        else (readFields n t).map fun p => (.obj p.1, p.2)
      else if c = 'n' then readWord ['u', 'l', 'l'] .null t
      else if c = 't' then readWord ['r', 'u', 'e'] (.bool true) t
      else if c = 'f' then readWord ['a', 'l', 's', 'e'] (.bool false) t
      else (readNumber (c :: t)).map fun p => (.num p.1, p.2)

/-- The elements of an array up to its bracket, one at least. -/
def readElements : Nat → List Char → Option (List Json × List Char)
  | 0, _ => none
  | n + 1, text =>
    (readValue n text).bind fun value =>
      match skipSpace value.2 with
      | [] => none
      | c :: t =>
        if c = ',' then (readElements n t).map fun rest => (value.1 :: rest.1, rest.2)
        else if c = ']' then some ([value.1], t)
        else none

/-- The fields of an object up to its brace, one at least. -/
def readFields : Nat → List Char → Option (List (String × Json) × List Char)
  | 0, _ => none
  | n + 1, text =>
    match skipSpace text with
    | [] => none
    | q :: t =>
      if q ≠ quoteMark then none
      else
        (readString t).bind fun name =>
          match skipSpace name.2 with
          | [] => none
          | colon :: t =>
            if colon ≠ ':' then none
            else
              (readValue n t).bind fun value =>
                match skipSpace value.2 with
                | [] => none
                | c :: t =>
                  if c = ',' then (readFields n t).map fun rest => ((name.1, value.1) :: rest.1, rest.2)
                  else if c = closeBrace then some ([(name.1, value.1)], t)
                  else none

end

/-- `none` is the `SyntaxError` it throws. -/
def parseJson (text : List Char) : Option Json :=
  match readValue (2 * text.length + 2) text with
  | some (value, rest) => if skipSpace rest = [] then some value else none
  | none => none

/-! ## Reading what was written -/

theorem hexDigit?_digitChar : ∀ n < 16, hexDigit? (Nat.digitChar n) = some n := by decide

theorem readUnit_escape (c : Char) (u : List Char) : readUnit (escape c ++ u) = some (c.toNat, u) := by
  unfold escape
  split
  · rename_i l hl
    obtain ⟨hu, hcode⟩ := shortEscape_cases hl
    have hmem : l ∈ escapeLetters := by
      unfold shortEscape at hl
      split at hl
      case h_8 => cases hl
      all_goals
        cases hl
        decide
    simp [readUnit, hu, hmem, hcode]
  · rename_i hnone
    split
    · rename_i hlt
      have hh := hexDigit?_digitChar (c.toNat / 16) (by omega)
      have hk := hexDigit?_digitChar (c.toNat % 16) (by omega)
      have hzero : hexDigit? '0' = some 0 := by decide
      have hcode : hexCode? ['0', '0', Nat.digitChar (c.toNat / 16), Nat.digitChar (c.toNat % 16)] =
          some c.toNat := by
        simp only [hexCode?, List.foldlM_cons, List.foldlM_nil, hzero, hh, hk, Option.map_some,
          Option.bind_eq_bind, Option.bind_some, Option.pure_def, Option.some.injEq]
        omega
      simp [readUnit, hcode]
    · rename_i hge
      simp [readUnit, (shortEscape_none hnone).1, hge]

theorem readUnits_escaped (s u : List Char) {n : Nat} (hn : s.length < n) :
    readUnits n (s.flatMap escape ++ quoteMark :: u) = some (s.map Char.toNat, u) := by
  induction s generalizing n with
  | nil =>
    obtain ⟨n, rfl⟩ := Nat.exists_eq_succ_of_ne_zero (Nat.ne_of_gt hn)
    simp [readUnits]
  | cons c s ih =>
    obtain ⟨n, rfl⟩ := Nat.exists_eq_succ_of_ne_zero (Nat.ne_zero_of_lt hn)
    rw [List.flatMap_cons, List.append_assoc]
    have hunit := readUnit_escape c (s.flatMap escape ++ quoteMark :: u)
    have hhead := escape_head c (s.flatMap escape ++ quoteMark :: u)
    cases htext : escape c ++ (s.flatMap escape ++ quoteMark :: u) with
    | nil =>
      rw [htext, readUnit] at hunit
      cases hunit
    | cons d t =>
      rw [htext] at hunit
      have hd : d ≠ quoteMark := fun h => hhead t (by rw [htext, h])
      rw [readUnits, if_neg hd, hunit, Option.bind_some, ih (Nat.lt_of_succ_lt_succ hn)]
      rfl

/-- A character is no surrogate. -/
theorem charsOf_toNat (s : List Char) : charsOf (s.map Char.toNat) = s := by
  induction s with
  | nil => rfl
  | cons c s ih =>
    cases s with
    | nil => simp [charsOf]
    | cons d s =>
      have hvalid : ¬ (0xD800 ≤ c.toNat ∧ c.toNat < 0xDC00 ∧ 0xDC00 ≤ d.toNat ∧ d.toNat < 0xE000) := by
        rintro ⟨hlow, hhigh, -, -⟩
        have hc : c.toNat < 0xD800 ∨ 0xDFFF < c.toNat ∧ c.toNat < 0x110000 := c.valid
        omega
      rw [List.map_cons, List.map_cons, charsOf, if_neg hvalid, Char.ofNat_toNat, ← List.map_cons, ih]

theorem readString_quoted (s : String) (u : List Char) :
    readString (s.toList.flatMap escape ++ quoteMark :: u) = some (s, u) := by
  have hlength : s.toList.length < (s.toList.flatMap escape ++ quoteMark :: u).length + 1 := by
    have hquote := length_lt_quote s
    simp only [quote, List.length_cons, List.length_append, List.length_nil] at hquote ⊢
    omega
  rw [readString, readUnits_escaped s.toList u hlength, Option.map_some, charsOf_toNat, String.ofList_toList]

/-- The text goes on with something that no number can have. -/
def Ends (u : List Char) : Prop := ∀ c ∈ u.head?, isNumberChar c = false

theorem readNumber_num (t : NumText) (ht : validNumber t.chars = true) {u : List Char} (hu : Ends u) :
    readNumber (t.chars ++ u) = some (t, u) := by
  have hnumber : ∀ c ∈ t.chars, isNumberChar c = true := fun c hc => by
    rw [isNumberChar, t.num c hc, Bool.true_or]
  have htake : (t.chars ++ u).takeWhile isNumberChar = t.chars := by
    rw [List.takeWhile_append_of_pos hnumber]
    cases u with
    | nil => simp
    | cons c u => rw [List.takeWhile_cons_of_neg (by simp [hu c rfl]), List.append_nil]
  have hdrop : (t.chars ++ u).dropWhile isNumberChar = u := by
    rw [List.dropWhile_append_of_pos hnumber]
    cases u with
    | nil => rfl
    | cons c u => rw [List.dropWhile_cons_of_neg (by simp [hu c rfl])]
  have hmap : t.chars.map (fun c => if c = 'E' then 'e' else c) = t.chars := by
    refine (List.map_congr_left fun c hc => if_neg ?_).trans (List.map_id _)
    rintro rfl
    exact absurd (t.num 'E' hc) (by decide)
  simp only [readNumber, htake, hdrop, hmap]
  rw [dif_pos ⟨t.ne_nil, List.all_eq_true.mpr t.num⟩, if_pos ht]

mutual

/-- The numbers of a value are numbers of the grammar. -/
def Json.Valid : Json → Prop
  | .num t => validNumber t.chars = true
  | .arr xs => ValidElements xs
  | .obj fields => ValidFields fields
  | _ => True

def ValidElements : List Json → Prop
  | [] => True
  | x :: xs => x.Valid ∧ ValidElements xs

def ValidFields : List (String × Json) → Prop
  | [] => True
  | (_, x) :: fields => x.Valid ∧ ValidFields fields

end

theorem skipSpace_cons {c : Char} (h : isJsonSpace c = false) (t : List Char) : skipSpace (c :: t) = c :: t :=
  List.dropWhile_cons_of_neg (by simp [h])

theorem skipSpace_render (x : Json) (u : List Char) : skipSpace (render x ++ u) = render x ++ u := by
  obtain ⟨c, t, hx, hc⟩ := render_head x
  have hspace : isJsonSpace c = false := by
    rw [Bool.eq_false_iff]
    intro hspace
    simp only [isJsonSpace, Bool.or_eq_true, decide_eq_true_eq] at hspace
    refine x.tag_ne (hc.symm.trans ?_)
    rcases hspace with ((rfl | rfl) | rfl) | rfl <;> decide
  rw [hx]
  exact skipSpace_cons hspace (t ++ u)

theorem Ends.cons {c : Char} (u : List Char) (h : isNumberChar c = false) : Ends (c :: u) := by
  intro d hd
  obtain rfl : c = d := Option.some.inj hd
  exact h

theorem ends_renderElements (xs : List Json) (u : List Char) : Ends (renderElements xs ++ u) := by
  cases xs with
  | nil => rw [renderElements]; exact .cons _ (by decide)
  | cons x xs => rw [renderElements]; exact .cons _ (by decide)

theorem ends_renderFields (fields : List (String × Json)) (u : List Char) :
    Ends (renderFields fields ++ u) := by
  cases fields with
  | nil => rw [renderFields]; exact .cons _ (by decide)
  | cons p fields => rw [renderFields]; exact .cons _ (by decide)

theorem length_render_pos (x : Json) : 0 < (render x).length := by
  obtain ⟨c, t, hx, -⟩ := render_head x
  rw [hx]
  exact Nat.succ_pos _

/-- No value begins with the bracket that would end an array without elements. -/
theorem head?_render_ne (x : Json) (u : List Char) {c : Char} (hc : charTag c = 7) :
    (render x ++ u).head? ≠ some c := by
  obtain ⟨d, t, hx, hd⟩ := render_head x
  rw [hx]
  intro h
  obtain rfl : d = c := Option.some.inj h
  exact x.tag_ne (hd.symm.trans hc)

/-- A number begins with none of the characters the other values begin with. -/
theorem readValue_num (t : NumText) (ht : validNumber t.chars = true) {u : List Char} (hu : Ends u) (n : Nat) :
    readValue (n + 1) (t.chars ++ u) = some (.num t, u) := by
  have hskip := skipSpace_render (.num t) u
  rw [render] at hskip
  have hread := readNumber_num t ht hu
  obtain ⟨c, r, hc⟩ := List.exists_cons_of_ne_nil t.ne_nil
  have hnum : isNumChar c = true := t.num c (by simp [hc])
  have hne : ∀ d, isNumChar d = false → c ≠ d := fun d hd h => by
    rw [h, hd] at hnum
    cases hnum
  rw [hc, List.cons_append] at hskip hread ⊢
  rw [readValue, hskip]
  simp only [if_neg (hne quoteMark (by decide)), if_neg (hne '[' (by decide)),
    if_neg (hne openBrace (by decide)), if_neg (hne 'n' (by decide)), if_neg (hne 't' (by decide)),
    if_neg (hne 'f' (by decide)), hread, Option.map_some]

/-- Two units of fuel for each character are enough. -/
def Reads (x : Json) : Prop :=
  ∀ u n, Ends u → 2 * (render x).length ≤ n → readValue n (render x ++ u) = some (x, u)

mutual

theorem readValue_render (x : Json) (hx : x.Valid) : Reads x := by
  intro u n hu hn
  have hpos := length_render_pos x
  obtain ⟨n, rfl⟩ : ∃ m, n = m + 1 := ⟨n - 1, by omega⟩
  match x, hx with
  | .null, _ => rfl
  | .bool true, _ => rfl
  | .bool false, _ => rfl
  | .num t, ht =>
    rw [render]
    exact readValue_num t ht hu n
  | .str s, _ =>
    have hread := readString_quoted s u
    rw [render, quote, List.cons_append, List.append_assoc, readValue, skipSpace_cons (by decide)]
    simp only [if_true, List.singleton_append, hread, Option.map_some]
  | .arr [], _ => rfl
  | .arr (x :: xs), hx =>
    rw [render, List.length_cons, List.length_append] at hn
    have hread := readElements_render x xs (readValue_render x hx.1) hx.2 u n (by omega)
    rw [render, List.cons_append, List.append_assoc, readValue, skipSpace_cons (by decide)]
    simp only [skipSpace_render, if_neg (head?_render_ne x (renderElements xs ++ u) (by decide : charTag ']' = 7)),
      hread, Option.map_some]
    rfl
  | .obj [], _ => rfl
  | .obj ((k, x) :: fields), hx =>
    rw [render, List.length_cons, List.length_append, List.length_cons, List.length_append] at hn
    have hread := readFields_render k x fields (readValue_render x hx.1) hx.2 u n (by omega)
    have hhead : ∀ t, (skipSpace (quote k ++ t)).head? ≠ some closeBrace := by
      intro t
      rw [quote, List.cons_append, skipSpace_cons (by decide), List.head?_cons]
      decide
    rw [render, List.cons_append, List.append_assoc, List.cons_append, List.append_assoc, readValue,
      skipSpace_cons (by decide)]
    simp only [if_neg (hhead _), hread, Option.map_some]
    rfl

theorem readElements_render (x : Json) (xs : List Json) (hx : Reads x) (hxs : ValidElements xs)
    (u : List Char) (n : Nat) (hn : 2 * ((render x).length + (renderElements xs).length) + 1 ≤ n) :
    readElements n (render x ++ (renderElements xs ++ u)) = some (x :: xs, u) := by
  obtain ⟨n, rfl⟩ : ∃ m, n = m + 1 := ⟨n - 1, by omega⟩
  have hvalue := hx _ n (ends_renderElements xs u) (by omega)
  rw [readElements, hvalue, Option.bind_some]
  match xs, hxs with
  | [], _ => rfl
  | y :: ys, hys =>
    rw [renderElements, List.length_cons, List.length_append] at hn
    have hrest := readElements_render y ys (readValue_render y hys.1) hys.2 u n (by omega)
    rw [renderElements, List.cons_append, List.append_assoc, skipSpace_cons (by decide)]
    simp only [if_true, hrest, Option.map_some]

theorem readFields_render (k : String) (x : Json) (fields : List (String × Json)) (hx : Reads x)
    (hfields : ValidFields fields) (u : List Char) (n : Nat)
    (hn : 2 * ((quote k).length + (render x).length + (renderFields fields).length) + 1 ≤ n) :
    readFields n (quote k ++ ':' :: (render x ++ (renderFields fields ++ u))) = some ((k, x) :: fields, u) := by
  obtain ⟨n, rfl⟩ : ∃ m, n = m + 1 := ⟨n - 1, by omega⟩
  have hname := readString_quoted k (':' :: (render x ++ (renderFields fields ++ u)))
  have hvalue := hx _ n (ends_renderFields fields u) (by omega)
  rw [quote, List.cons_append, List.append_assoc, List.singleton_append, readFields,
    skipSpace_cons (by decide)]
  simp only [ne_eq, not_true_eq_false, if_false, hname, Option.bind_some]
  rw [skipSpace_cons (by decide)]
  simp only [not_true_eq_false, if_false, hvalue, Option.bind_some]
  match fields, hfields with
  | [], _ => rfl
  | (l, y) :: rest, hrest =>
    rw [renderFields, List.length_cons, List.length_append, List.length_cons, List.length_append] at hn
    have hread := readFields_render l y rest (readValue_render y hrest.1) hrest.2 u n (by omega)
    rw [renderFields, List.cons_append, List.append_assoc, List.cons_append, List.append_assoc,
      skipSpace_cons (by decide)]
    simp only [if_true, hread, Option.map_some]

end

theorem parseJson_render {x : Json} (hx : x.Valid) : parseJson (render x) = some x := by
  have hends : Ends [] := fun c hc => by cases hc
  have hread := readValue_render x hx [] (2 * (render x).length + 2) hends (by omega)
  rw [List.append_nil] at hread
  rw [parseJson, hread]
  rfl

end Lib
