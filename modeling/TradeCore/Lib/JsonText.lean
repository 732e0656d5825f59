import Mathlib.Data.List.Basic

/-!
# TradeCore.Lib.JsonText

JSON values and the text `JSON.stringify` writes for them, without an indent.

* `quote`   a string between quotes, with the escapes the standard prescribes.
* `render`  the text of a value; the fields of an object come in the order they are given in.

`render_append_inj` says no text is the beginning of another one that goes on with a delimiter, so
`render_injective`: a text has one value.
-/

namespace Lib

/-- A character of a number. -/
def isNumChar (c : Char) : Bool := c.isDigit || c = '-' || c = '+' || c = '.' || c = 'e'

/-- The text of a number. -/
structure NumText where
  chars : List Char
  ne_nil : chars ≠ []
  num : ∀ c ∈ chars, isNumChar c = true
  deriving DecidableEq

inductive Json where
  | null
  | bool (b : Bool)
  | num (t : NumText)
  | str (s : String)
  | arr (xs : List Json)
  | obj (fields : List (String × Json))

/-! ## Strings -/

/-- A text tells what stands before its first delimiter. -/
theorem delimited_inj {d : Char} {u v u' v' : List Char} (hu : d ∉ u) (hu' : d ∉ u')
    (h : u ++ d :: v = u' ++ d :: v') : u = u' ∧ v = v' := by
  induction u generalizing u' with
  | nil =>
    cases u' with
    | nil => exact ⟨rfl, List.tail_eq_of_cons_eq h⟩
    | cons c u' => exact absurd (List.head_eq_of_cons_eq h ▸ List.mem_cons_self) hu'
  | cons c u ih =>
    cases u' with
    | nil => exact absurd ((List.head_eq_of_cons_eq h).symm ▸ List.mem_cons_self) hu
    | cons c' u' =>
      have hrest := ih (fun h => hu (List.mem_cons_of_mem c h)) (fun h => hu' (List.mem_cons_of_mem c' h))
        (List.tail_eq_of_cons_eq h)
      have hfirst : c = c' := List.head_eq_of_cons_eq h
      exact ⟨by rw [hfirst, hrest.1], hrest.2⟩

def quoteMark : Char := Char.ofNat 0x22

def backslash : Char := Char.ofNat 0x5C

/-- The letter of the short escapes. -/
def shortEscape (c : Char) : Option Char :=
  match c.toNat with
  | 0x22 => some quoteMark
  | 0x5C => some backslash
  | 0x08 => some 'b'
  | 0x09 => some 't'
  | 0x0A => some 'n'
  | 0x0C => some 'f'
  | 0x0D => some 'r'
  | _ => none

def escape (c : Char) : List Char :=
  match shortEscape c with
  | some l => [backslash, l]
  | none =>
    if c.toNat < 0x20 then
      [backslash, 'u', '0', '0', Nat.digitChar (c.toNat / 16), Nat.digitChar (c.toNat % 16)]
    else [c]

def quote (s : String) : List Char := quoteMark :: (s.toList.flatMap escape ++ [quoteMark])

/-- The code of the character a short escape stands for. -/
def shortCode (l : Char) : Nat :=
  if l = 'b' then 0x08 else if l = 't' then 0x09 else if l = 'n' then 0x0A else if l = 'f' then 0x0C
  else if l = 'r' then 0x0D else l.toNat

def hexCode (c : Char) : Nat := if c.isDigit then c.toNat - 48 else c.toNat - 87

/-- The code of the first character of an escaped text, and what comes behind it. -/
def unescape : List Char → Option (Nat × List Char)
  | [] => none
  | c :: t =>
    if c ≠ backslash then some (c.toNat, t)
    else
      match t with
      | [] => none
      | l :: t =>
        if l ≠ 'u' then some (shortCode l, t)
        else
          match t with
          | _ :: _ :: h :: k :: t => some (16 * hexCode h + hexCode k, t)
          | _ => none

theorem shortEscape_cases {c l : Char} (h : shortEscape c = some l) :
    l ≠ 'u' ∧ shortCode l = c.toNat := by
  unfold shortEscape at h
  split at h
  case h_8 => cases h
  all_goals
    rename_i hc
    cases h
    rw [hc]
    decide

theorem shortEscape_none {c : Char} (h : shortEscape c = none) : c ≠ backslash ∧ c ≠ quoteMark := by
  constructor
  · rintro rfl
    exact absurd h (by decide)
  · rintro rfl
    exact absurd h (by decide)

theorem hexCode_digitChar : ∀ n < 16, hexCode (Nat.digitChar n) = n := by decide

theorem unescape_escape (c : Char) (t : List Char) : unescape (escape c ++ t) = some (c.toNat, t) := by
  unfold escape
  split
  · rename_i l hl
    obtain ⟨hu, hcode⟩ := shortEscape_cases hl
    simp [unescape, hu, hcode]
  · rename_i hnone
    split
    · rename_i hlt
      have hh := hexCode_digitChar (c.toNat / 16) (by omega)
      have hk := hexCode_digitChar (c.toNat % 16) (by omega)
      simp only [List.cons_append, List.nil_append, unescape]
      simp only [ne_eq, not_true_eq_false, if_false, hh, hk, Option.some.injEq, Prod.mk.injEq, and_true]
      omega
    · simp [unescape, (shortEscape_none hnone).1]

theorem escape_append_inj {c d : Char} {u v : List Char} (h : escape c ++ u = escape d ++ v) :
    c = d ∧ u = v := by
  have h := congrArg unescape h
  rw [unescape_escape, unescape_escape] at h
  obtain ⟨hc, rfl⟩ := Prod.mk.inj (Option.some.inj h)
  exact ⟨Char.toNat_inj.mp hc, rfl⟩

/-- No escape begins with a quote, so a quoted text ends where its string does. -/
theorem escape_head (c : Char) (u v : List Char) : escape c ++ u ≠ quoteMark :: v := by
  intro h
  unfold escape at h
  split at h
  · cases h
  · rename_i hnone
    split at h
    · cases h
    · exact (shortEscape_none hnone).2 (List.cons.inj h).1

theorem escaped_append_inj {s t u v : List Char}
    (h : s.flatMap escape ++ quoteMark :: u = t.flatMap escape ++ quoteMark :: v) :
    s = t ∧ u = v := by
  induction s generalizing t with
  | nil =>
    cases t with
    | nil => exact ⟨rfl, (List.cons.inj h).2⟩
    | cons d t =>
      rw [List.flatMap_cons, List.append_assoc] at h
      exact absurd h.symm (escape_head d _ _)
  | cons c s ih =>
    cases t with
    | nil =>
      rw [List.flatMap_cons, List.append_assoc] at h
      exact absurd h (escape_head c _ _)
    | cons d t =>
      rw [List.flatMap_cons, List.flatMap_cons, List.append_assoc, List.append_assoc] at h
      obtain ⟨rfl, hrest⟩ := escape_append_inj h
      obtain ⟨rfl, rfl⟩ := ih hrest
      exact ⟨rfl, rfl⟩

theorem quote_append_inj {s t : String} {u v : List Char} (h : quote s ++ u = quote t ++ v) :
    s = t ∧ u = v := by
  simp only [quote, List.cons_append, List.append_assoc, List.nil_append, List.cons.injEq,
    true_and] at h
  exact (escaped_append_inj h).imp_left String.toList_inj.mp

theorem escape_length_pos (c : Char) : 0 < (escape c).length := by
  unfold escape
  split
  · simp
  · split <;> simp

theorem length_lt_quote (s : String) : s.toList.length < (quote s).length := by
  have hle : s.toList.length ≤ (s.toList.flatMap escape).length := by
    induction s.toList with
    | nil => simp
    | cons c t ih =>
      have := escape_length_pos c
      simp only [List.flatMap_cons, List.length_append, List.length_cons]
      omega
  simp only [quote, List.length_cons, List.length_append]
  omega

/-! ## Values -/

def openBrace : Char := Char.ofNat 0x7B

def closeBrace : Char := Char.ofNat 0x7D

mutual

def render : Json → List Char
  | .null => ['n', 'u', 'l', 'l']
  | .bool true => ['t', 'r', 'u', 'e']
  | .bool false => ['f', 'a', 'l', 's', 'e']
  | .num t => t.chars
  | .str s => quote s
  | .arr [] => ['[', ']']
  | .arr (x :: xs) => '[' :: (render x ++ renderElements xs)
  | .obj [] => [openBrace, closeBrace]
  | .obj ((k, x) :: fields) => openBrace :: (quote k ++ ':' :: (render x ++ renderFields fields))

/-- The elements behind the first one, and the bracket. -/
def renderElements : List Json → List Char
  | [] => [']']
  | x :: xs => ',' :: (render x ++ renderElements xs)

/-- The fields behind the first one, and the brace. -/
def renderFields : List (String × Json) → List Char
  | [] => [closeBrace]
  | (k, x) :: fields => ',' :: (quote k ++ ':' :: (render x ++ renderFields fields))

end

/-- What the first character says of the value behind it; 7 is no value. -/
def charTag (c : Char) : Nat :=
  if isNumChar c then 3 else if c = 'n' then 0 else if c = 't' then 1 else if c = 'f' then 2
  else if c = quoteMark then 4 else if c = '[' then 5 else if c = openBrace then 6 else 7

def Json.tag : Json → Nat
  | .null => 0
  | .bool true => 1
  | .bool false => 2
  | .num _ => 3
  | .str _ => 4
  | .arr _ => 5
  | .obj _ => 6

theorem Json.tag_ne (x : Json) : x.tag ≠ 7 := by
  cases x with
  | bool b => cases b <;> decide
  | _ => simp [Json.tag]

theorem render_head (x : Json) : ∃ c t, render x = c :: t ∧ charTag c = x.tag := by
  match x with
  | .null => exact ⟨'n', _, by rw [render], by decide⟩
  | .bool true => exact ⟨'t', _, by rw [render], by decide⟩
  | .bool false => exact ⟨'f', _, by rw [render], by decide⟩
  | .num ⟨[], hne, _⟩ => exact absurd rfl hne
  | .num ⟨c :: t, _, hnum⟩ => exact ⟨c, t, by rw [render], if_pos (hnum c (by simp))⟩
  | .str s => exact ⟨quoteMark, _, by rw [render, quote], by rfl⟩
  | .arr [] => exact ⟨'[', _, by rw [render], by decide⟩
  | .arr (_ :: _) => exact ⟨'[', _, by rw [render], by rfl⟩
  | .obj [] => exact ⟨openBrace, _, by rw [render], by decide⟩
  | .obj ((_, _) :: _) => exact ⟨openBrace, _, by rw [render], by rfl⟩

theorem tag_eq {x y : Json} {u v : List Char} (h : render x ++ u = render y ++ v) :
    x.tag = y.tag := by
  obtain ⟨c, s, hx, hc⟩ := render_head x
  obtain ⟨d, t, hy, hd⟩ := render_head y
  rw [hx, hy] at h
  rw [← hc, ← hd, (List.cons.inj h).1]

/-- No value begins with the bracket or brace that ends the one around it. -/
theorem render_ne_cons {x : Json} {u v : List Char} {c : Char} (hc : charTag c = 7) :
    c :: u ≠ render x ++ v := by
  intro h
  obtain ⟨d, t, hx, hd⟩ := render_head x
  rw [hx] at h
  exact x.tag_ne (hd.symm.trans ((List.cons.inj h).1 ▸ hc))

/-- The text goes on with something that is no part of a number. -/
def Stops (u : List Char) : Prop := ∀ c ∈ u.head?, isNumChar c = false

theorem Stops.nil : Stops [] := fun _ h => nomatch h

theorem Stops.cons {c : Char} (u : List Char) (h : isNumChar c = false) : Stops (c :: u) := by
  intro d hd
  obtain rfl : c = d := Option.some.inj hd
  exact h

theorem stops_renderElements (xs : List Json) (u : List Char) : Stops (renderElements xs ++ u) := by
  cases xs with
  | nil => rw [renderElements]; exact .cons _ (by decide)
  | cons x xs => rw [renderElements]; exact .cons _ (by decide)

theorem stops_renderFields (fields : List (String × Json)) (u : List Char) :
    Stops (renderFields fields ++ u) := by
  cases fields with
  | nil => rw [renderFields]; exact .cons _ (by decide)
  | cons p fields => rw [renderFields]; exact .cons _ (by decide)

theorem takeWhile_num (t : NumText) {u : List Char} (hu : Stops u) :
    (t.chars ++ u).takeWhile isNumChar = t.chars := by
  rw [List.takeWhile_append_of_pos t.num]
  cases u with
  | nil => simp
  | cons c u => rw [List.takeWhile_cons_of_neg (by simp [hu c rfl]), List.append_nil]

theorem num_append_inj {s t : NumText} {u v : List Char} (hu : Stops u) (hv : Stops v)
    (h : s.chars ++ u = t.chars ++ v) : s = t ∧ u = v := by
  have hst : s.chars = t.chars := by rw [← takeWhile_num s hu, h, takeWhile_num t hv]
  rw [hst] at h
  refine ⟨?_, List.append_cancel_left h⟩
  cases s
  cases t
  cases hst
  rfl

mutual

/-- By induction on the first value. What follows it inside a value is a delimiter. -/
theorem render_append_inj (x y : Json) {u v : List Char} (hu : Stops u) (hv : Stops v)
    (h : render x ++ u = render y ++ v) : x = y ∧ u = v := by
  have htag := tag_eq h
  match x, y, htag with
  | .null, .null, _ => exact ⟨rfl, by simpa [render] using h⟩
  | .bool true, .bool true, _ => exact ⟨rfl, by simpa [render] using h⟩
  | .bool false, .bool false, _ => exact ⟨rfl, by simpa [render] using h⟩
  | .num s, .num t, _ =>
    rw [render, render] at h
    obtain ⟨rfl, rfl⟩ := num_append_inj hu hv h
    exact ⟨rfl, rfl⟩
  | .str s, .str t, _ =>
    rw [render, render] at h
    obtain ⟨rfl, rfl⟩ := quote_append_inj h
    exact ⟨rfl, rfl⟩
  | .arr [], .arr [], _ => exact ⟨rfl, by simpa [render] using h⟩
  | .arr [], .arr (y :: ys), _ =>
    simp only [render, List.cons_append, List.append_assoc, List.nil_append, List.cons.injEq,
      true_and] at h
    exact absurd h (render_ne_cons (by decide))
  | .arr (x :: xs), .arr [], _ =>
    simp only [render, List.cons_append, List.append_assoc, List.nil_append, List.cons.injEq,
      true_and] at h
    exact absurd h.symm (render_ne_cons (by decide))
  | .arr (x :: xs), .arr (y :: ys), _ =>
    simp only [render, List.cons_append, List.append_assoc, List.cons.injEq, true_and] at h
    obtain ⟨rfl, hrest⟩ :=
      render_append_inj x y (stops_renderElements xs u) (stops_renderElements ys v) h
    obtain ⟨rfl, rfl⟩ := renderElements_append_inj xs ys hrest
    exact ⟨rfl, rfl⟩
  | .obj [], .obj [], _ => exact ⟨rfl, by simpa [render] using h⟩
  | .obj [], .obj ((k, y) :: ys), _ =>
    simp only [render, quote, List.cons_append, List.nil_append, List.cons.injEq, true_and] at h
    exact absurd h.1 (by decide)
  | .obj ((k, x) :: xs), .obj [], _ =>
    simp only [render, quote, List.cons_append, List.nil_append, List.cons.injEq, true_and] at h
    exact absurd h.1 (by decide)
  | .obj ((k, x) :: xs), .obj ((l, y) :: ys), _ =>
    simp only [render, List.cons_append, List.append_assoc, List.cons.injEq, true_and] at h
    obtain ⟨rfl, hvalue⟩ := quote_append_inj h
    obtain ⟨rfl, hrest⟩ := render_append_inj x y (stops_renderFields xs u) (stops_renderFields ys v)
      (List.cons.inj hvalue).2
    obtain ⟨rfl, rfl⟩ := renderFields_append_inj xs ys hrest
    exact ⟨rfl, rfl⟩

theorem renderElements_append_inj (xs ys : List Json) {u v : List Char}
    (h : renderElements xs ++ u = renderElements ys ++ v) : xs = ys ∧ u = v := by
  match xs, ys with
  | [], [] => exact ⟨rfl, by simpa [renderElements] using h⟩
  | [], y :: ys =>
    simp only [renderElements, List.cons_append, List.cons.injEq] at h
    exact absurd h.1 (by decide)
  | x :: xs, [] =>
    simp only [renderElements, List.cons_append, List.cons.injEq] at h
    exact absurd h.1 (by decide)
  | x :: xs, y :: ys =>
    simp only [renderElements, List.cons_append, List.append_assoc, List.cons.injEq, true_and] at h
    obtain ⟨rfl, hrest⟩ :=
      render_append_inj x y (stops_renderElements xs u) (stops_renderElements ys v) h
    obtain ⟨rfl, rfl⟩ := renderElements_append_inj xs ys hrest
    exact ⟨rfl, rfl⟩

theorem renderFields_append_inj (xs ys : List (String × Json)) {u v : List Char}
    (h : renderFields xs ++ u = renderFields ys ++ v) : xs = ys ∧ u = v := by
  match xs, ys with
  | [], [] => exact ⟨rfl, by simpa [renderFields] using h⟩
  | [], (l, y) :: ys =>
    simp only [renderFields, List.cons_append, List.cons.injEq] at h
    exact absurd h.1 (by decide)
  | (k, x) :: xs, [] =>
    simp only [renderFields, List.cons_append, List.cons.injEq] at h
    exact absurd h.1 (by decide)
  | (k, x) :: xs, (l, y) :: ys =>
    simp only [renderFields, List.cons_append, List.append_assoc, List.cons.injEq, true_and] at h
    obtain ⟨rfl, hvalue⟩ := quote_append_inj h
    obtain ⟨rfl, hrest⟩ := render_append_inj x y (stops_renderFields xs u) (stops_renderFields ys v)
      (List.cons.inj hvalue).2
    obtain ⟨rfl, rfl⟩ := renderFields_append_inj xs ys hrest
    exact ⟨rfl, rfl⟩

end

theorem render_injective {x y : Json} (h : render x = render y) : x = y :=
  (render_append_inj x y .nil .nil (by rw [h])).1

end Lib
