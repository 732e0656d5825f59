import Mathlib.Data.Finset.Image
import TradeCore.Lib.Fields
import TradeCore.Common

/-!
# TradeCore.Analytics.CronExpression

The parser of the 5-field cron expressions of scheduled reports. It splits a field at its commas, an
item at its slashes and the part in front at its dashes, and reads the first two pieces.

* `parseCronExpression_iff`: it accepts exactly the expressions that are well formed once each item is
  cut off after those pieces, and returns the values that the cut items denote.
* `meets_grammar_iff`: so it accepts exactly the well-formed expressions, save those in which it drops
  a piece of an item and what is left is well formed.
-/

namespace TradeCore
namespace Analytics

open Lib

structure CronSchedule where
  minute : Finset Nat
  hour : Finset Nat
  dayOfMonth : Finset Nat
  month : Finset Nat
  dayOfWeek : Finset Nat
  dayOfMonthRestricted : Bool
  dayOfWeekRestricted : Bool
  expression : String
  deriving DecidableEq

def quoted (token : List Char) : String := "\"" ++ String.ofList token ++ "\""

/-- The range and the step of a token. -/
def parseCronStep (token : List Char) (label : String) : Except String (List Char × Nat) :=
  if '/' ∈ token then
    match token.splitOn '/' with
    | rangePart :: stepPart :: _ =>
      if rangePart = [] ∨ stepPart = [] ∨ ¬ isDigits stepPart then
        .error ("Invalid cron step for " ++ label ++ ": " ++ quoted token)
      else if digitsValue stepPart ≤ 0 then
        .error ("Invalid cron step for " ++ label ++ ": " ++ quoted token)
      else .ok (rangePart, digitsValue stepPart)
    | _ => .error ("Invalid cron step for " ++ label ++ ": " ++ quoted token)
  else .ok (token, 1)

/-- The first and the last value of a range, before they are compared with the field's bounds. -/
def parseCronRange (range token : List Char) (min max : Nat) (label : String) :
    Except String (Nat × Nat) :=
  if range = ['*'] then .ok (min, max)
  else if '-' ∈ range then
    match range.splitOn '-' with
    | startPart :: endPart :: _ =>
      if ¬ isDigits startPart ∨ ¬ isDigits endPart then
        .error ("Invalid cron range for " ++ label ++ ": " ++ quoted token)
      else if digitsValue endPart < digitsValue startPart then
        .error ("Invalid cron range for " ++ label ++ ": " ++ quoted token ++ " (start after end)")
      else .ok (digitsValue startPart, digitsValue endPart)
    | _ => .error ("Invalid cron range for " ++ label ++ ": " ++ quoted token)
  else if ¬ isDigits range then
    .error ("Invalid cron value for " ++ label ++ ": " ++ quoted token)
  else .ok (digitsValue range, digitsValue range)

/-- One part of a field: its first value, its last value and its step. -/
def parseCronPart (part : List Char) (min max : Nat) (label : String) :
    Except String (Nat × Nat × Nat) := do
  let token := trim part
  if token = [] then .error ("Invalid cron expression: empty " ++ label ++ " entry")
  else
    let (range, step) ← parseCronStep token label
    let (start, stop) ← parseCronRange range token min max label
    if start < min ∨ max < stop then
      .error ("Cron " ++ label ++ " out of range [" ++ toString min ++ ", " ++ toString max ++ "]: " ++
        quoted token)
    else .ok (start, stop, step)

/-- `for (let value = start; value <= end; value += step)`, with fuel for the rounds. -/
def addValues (stop step : Nat) : Nat → Nat → Finset Nat → Finset Nat
  | 0, _, values => values
  | fuel + 1, value, values =>
    if value ≤ stop then addValues stop step fuel (value + step) (insert value values) else values

/-- The loop over the parts of a field. -/
def parseCronParts (min max : Nat) (label : String) :
    List (List Char) → Finset Nat → Except String (Finset Nat)
  | [], values => .ok values
  | part :: parts, values => do
    let (start, stop, step) ← parseCronPart part min max label
    parseCronParts min max label parts (addValues stop step (stop + 1 - start) start values)

def parseCronField (field : List Char) (min max : Nat) (label : String) :
    Except String (Finset Nat × Bool) := do
  let trimmed := trim field
  if trimmed = [] then .error ("Invalid cron expression: empty " ++ label ++ " field")
  else
    let values ← parseCronParts min max label (trimmed.splitOn ',') ∅
    if values = ∅ then .error ("Invalid cron expression: " ++ label ++ " selects no values")
    else .ok (values, trimmed ≠ ['*'])

/-- Day-of-week 7 is an alias for Sunday (0). -/
def sundayAlias (values : Finset Nat) : Finset Nat :=
  if 7 ∈ values then insert 0 (values.erase 7) else values

def parseCronExpression (expression : String) : Except String CronSchedule :=
  let trimmed := trim expression.toList
  if trimmed = [] then .error "CUSTOM frequency requires a valid cronExpression"
  else
    match splitRuns isWhite false trimmed with
    | [minute, hour, dayOfMonth, month, dayOfWeek] => do
      let minuteParsed ← parseCronField minute 0 59 "minute"
      let hourParsed ← parseCronField hour 0 23 "hour"
      let domParsed ← parseCronField dayOfMonth 1 31 "day-of-month"
      let monthParsed ← parseCronField month 1 12 "month"
      let dowParsed ← parseCronField dayOfWeek 0 7 "day-of-week"
      .ok
        { minute := minuteParsed.1
          hour := hourParsed.1
          dayOfMonth := domParsed.1
          month := monthParsed.1
          dayOfWeek := sundayAlias dowParsed.1
          dayOfMonthRestricted := domParsed.2
          dayOfWeekRestricted := dowParsed.2
          expression := String.ofList trimmed }
    | parts => .error ("Invalid cron expression " ++ quoted expression.toList ++ ": expected 5 fields " ++
        "(minute hour day-of-month month day-of-week), got " ++ toString parts.length)

/-! ## The grammar -/

/-- `*`, `n` or `a-b`, with its first and its last value. -/
inductive RangeText (min max : Nat) : List Char → Nat → Nat → Prop
  | star : RangeText min max ['*'] min max
  | single {t : List Char} {n : Nat} (ht : IsNumber t n) (hmin : min ≤ n) (hmax : n ≤ max) :
      RangeText min max t n n
  | range {s t : List Char} {a b : Nat} (hs : IsNumber s a) (ht : IsNumber t b) (hab : a ≤ b)
      (hmin : min ≤ a) (hmax : b ≤ max) : RangeText min max (s ++ '-' :: t) a b

/-- A range, with its step behind a slash or with step 1. -/
inductive ItemText (min max : Nat) : List Char → Nat → Nat → Nat → Prop
  | plain {r : List Char} {a b : Nat} (hr : RangeText min max r a b) : ItemText min max r a b 1
  | stepped {r t : List Char} {a b step : Nat} (hr : RangeText min max r a b) (ht : IsNumber t step)
      (hstep : 1 ≤ step) : ItemText min max (r ++ '/' :: t) a b step

/-- Every `step`-th value from `a` to `b`. -/
def progression (a b step : Nat) : Set Nat := {v | ∃ k, v = a + k * step ∧ v ≤ b}

/-- The values that one of the items denotes. -/
def denoted (min max : Nat) (items : List (List Char)) : Set Nat :=
  {v | ∃ t ∈ items, ∃ a b step, ItemText min max t a b step ∧ v ∈ progression a b step}

/-- The items are well formed, and the values are those they denote. -/
structure ItemsText (min max : Nat) (items : List (List Char)) (values : Set Nat) : Prop where
  wellFormed : ∀ t ∈ items, ∃ a b step, ItemText min max t a b step
  union : values = denoted min max items

/-- Five fields, each made of items as `items` reads them, with the values they denote. -/
def CronText (items : List Char → List (List Char)) (s : String)
    (minute hour dayOfMonth month dayOfWeek : Set Nat) : Prop :=
  ∃ m h dom mon dow, InFields isWhite (trim s.toList) [m, h, dom, mon, dow] ∧
    ItemsText 0 59 (items m) minute ∧ ItemsText 0 23 (items h) hour ∧
    ItemsText 1 31 (items dom) dayOfMonth ∧ ItemsText 1 12 (items mon) month ∧
    ItemsText 0 7 (items dow) dayOfWeek

/-- A comma-separated list of items. -/
def itemsOf (field : List Char) : List (List Char) := field.splitOn ','

/-- The pieces of an item that the parser reads. -/
def cutItem (t : List Char) : List Char :=
  match t.splitOn '/' with
  | rangePart :: stepPart :: _ => firstTwo '-' rangePart ++ '/' :: stepPart
  | _ => firstTwo '-' t

def cutItemsOf (field : List Char) : List (List Char) := (itemsOf field).map cutItem

/-! ## One item -/

theorem dash_not_digit : Char.isDigit '-' = false := by decide

theorem slash_not_digit : Char.isDigit '/' = false := by decide

section Item

variable {min max : Nat} {label : String}

theorem RangeText.slash_not_mem {r : List Char} {a b : Nat} (h : RangeText min max r a b) : '/' ∉ r := by
  cases h with
  | star => decide
  | single ht _ _ => exact not_mem_of_isDigits ht.digits slash_not_digit
  | range hs ht _ _ _ =>
    rw [List.mem_append, List.mem_cons]
    rintro (hin | hin | hin)
    · exact not_mem_of_isDigits hs.digits slash_not_digit hin
    · exact absurd hin (by decide)
    · exact not_mem_of_isDigits ht.digits slash_not_digit hin

theorem RangeText.firstTwo_eq {r : List Char} {a b : Nat} (h : RangeText min max r a b) :
    firstTwo '-' r = r := by
  cases h with
  | star => decide
  | single ht _ _ => exact firstTwo_of_not_mem (not_mem_of_isDigits ht.digits dash_not_digit)
  | range hs ht _ _ _ =>
    rw [firstTwo, splitOn_pieces (not_mem_of_isDigits hs.digits dash_not_digit)
      (not_mem_of_isDigits ht.digits dash_not_digit)]
    simp

/-- A range with a dash in it is `a-b`. -/
theorem RangeText.dash {x y : List Char} {a b : Nat} (hx : '-' ∉ x)
    (h : RangeText min max (x ++ '-' :: y) a b) :
    IsNumber x a ∧ IsNumber y b ∧ a ≤ b ∧ min ≤ a ∧ b ≤ max := by
  generalize hr : x ++ '-' :: y = r at h
  cases h with
  | star =>
    have hin : '-' ∈ x ++ '-' :: y := by simp
    rw [hr] at hin
    exact absurd hin (by decide)
  | single ht _ _ =>
    have hin : '-' ∈ x ++ '-' :: y := by simp
    rw [hr] at hin
    exact absurd hin (not_mem_of_isDigits ht.digits dash_not_digit)
  | range hs ht hab hmin hmax =>
    obtain ⟨rfl, rfl⟩ := pieces_inj hx (not_mem_of_isDigits hs.digits dash_not_digit) hr
    exact ⟨hs, ht, hab, hmin, hmax⟩

theorem RangeText.no_dash {r : List Char} {a b : Nat} (hstar : r ≠ ['*']) (hdash : '-' ∉ r)
    (h : RangeText min max r a b) : IsNumber r a ∧ a = b ∧ min ≤ a ∧ a ≤ max := by
  cases h with
  | star => exact absurd rfl hstar
  | single ht hmin hmax => exact ⟨ht, rfl, hmin, hmax⟩
  | range _ _ _ _ _ => exact absurd (by simp) hdash

theorem parseCronRange_iff {range token : List Char} {a b : Nat} :
    (parseCronRange range token min max label = .ok (a, b) ∧ ¬ (a < min ∨ max < b)) ↔
      RangeText min max (firstTwo '-' range) a b := by
  rw [parseCronRange]
  by_cases hstar : range = ['*']
  · subst hstar
    have hcut : firstTwo '-' ['*'] = ['*'] := by decide
    rw [if_pos rfl, hcut]
    constructor
    · rintro ⟨h, -⟩
      cases h
      exact .star
    · intro h
      generalize hr : ['*'] = r at h
      cases h with
      | star => simp
      | single ht _ _ =>
        rw [← hr] at ht
        exact absurd ht.digits (by decide)
      | range _ _ _ _ _ =>
        have hlen := congrArg (fun r => '-' ∈ r) hr
        simp at hlen
  rw [if_neg hstar]
  by_cases hdash : '-' ∈ range
  · obtain ⟨x, y, rest, hsplit, hcut, hx, hy⟩ := exists_pieces hdash
    rw [if_pos hdash, hsplit, hcut]
    constructor
    · rintro ⟨h, hbound⟩
      simp only at h
      split at h
      · cases h
      rename_i hdigits
      split at h
      · cases h
      rename_i hle
      simp only [not_or, not_not] at hdigits
      cases h
      exact .range ⟨hdigits.1, rfl⟩ ⟨hdigits.2, rfl⟩ (by omega) (by omega) (by omega)
    · intro h
      obtain ⟨hs, ht, hab, hmin, hmax⟩ := h.dash hx
      obtain ⟨hs, rfl⟩ := hs
      obtain ⟨ht, rfl⟩ := ht
      refine ⟨?_, by omega⟩
      simp only [hs, ht, not_true_eq_false, or_self, if_false, if_neg (Nat.not_lt.mpr hab)]
  · rw [if_neg hdash, firstTwo_of_not_mem hdash]
    constructor
    · rintro ⟨h, hbound⟩
      split at h
      · cases h
      rename_i hdigits
      simp only [not_not] at hdigits
      cases h
      exact .single ⟨hdigits, rfl⟩ (by omega) (by omega)
    · intro h
      obtain ⟨⟨ht, rfl⟩, rfl, hmin, hmax⟩ := h.no_dash hstar hdash
      exact ⟨by simp only [ht, not_true_eq_false, if_false], by omega⟩

/-- An item cut around a slash. -/
theorem ItemText.slash {r t : List Char} {a b step : Nat} (hr : '/' ∉ r)
    (h : ItemText min max (r ++ '/' :: t) a b step) :
    RangeText min max r a b ∧ IsNumber t step ∧ 1 ≤ step := by
  generalize hu : r ++ '/' :: t = u at h
  cases h with
  | plain hrange =>
    have hin : '/' ∈ r ++ '/' :: t := by simp
    rw [hu] at hin
    exact absurd hin hrange.slash_not_mem
  | stepped hrange ht hstep =>
    obtain ⟨rfl, rfl⟩ := pieces_inj hr hrange.slash_not_mem hu
    exact ⟨hrange, ht, hstep⟩

theorem ItemText.no_slash {r : List Char} {a b step : Nat} (hr : '/' ∉ r)
    (h : ItemText min max r a b step) : RangeText min max r a b ∧ step = 1 := by
  cases h with
  | plain hrange => exact ⟨hrange, rfl⟩
  | stepped _ _ _ => exact absurd (by simp) hr

theorem ItemText.cutItem_eq {t : List Char} {a b step : Nat} (h : ItemText min max t a b step) :
    cutItem t = t := by
  cases h with
  | plain hrange =>
    rw [cutItem, List.splitOn_eq_singleton hrange.slash_not_mem]
    exact hrange.firstTwo_eq
  | stepped hrange ht _ =>
    rw [cutItem, splitOn_pieces hrange.slash_not_mem (not_mem_of_isDigits ht.digits slash_not_digit)]
    simp only [hrange.firstTwo_eq]

theorem parseCronStep_iff {token range : List Char} {step : Nat} :
    parseCronStep token label = .ok (range, step) ↔
      ('/' ∉ token ∧ range = token ∧ step = 1) ∨
        '/' ∈ token ∧ ∃ stepPart rest, token.splitOn '/' = range :: stepPart :: rest ∧ range ≠ [] ∧
          IsNumber stepPart step ∧ 1 ≤ step := by
  rw [parseCronStep]
  by_cases hslash : '/' ∈ token
  · obtain ⟨x, y, rest, hsplit, -, -, -⟩ := exists_pieces hslash
    rw [if_pos hslash, hsplit]
    constructor
    · intro h
      simp only at h
      split at h
      · cases h
      rename_i hpieces
      split at h
      · cases h
      rename_i hpos
      simp only [not_or, not_not] at hpieces
      cases h
      exact .inr ⟨hslash, y, rest, rfl, hpieces.1, ⟨hpieces.2.2, rfl⟩, by omega⟩
    · rintro (⟨hno, -⟩ | ⟨-, stepPart, rest', he, hne, ⟨hdigits, rfl⟩, hpos⟩)
      · exact absurd hslash hno
      · obtain ⟨rfl, rfl, -⟩ : x = range ∧ y = stepPart ∧ rest = rest' := by simpa using he
        have hy : y ≠ [] := (isDigits_iff.mp hdigits).1
        simp only [hne, hy, hdigits, not_true_eq_false, or_self, if_false,
          if_neg (Nat.not_le.mpr hpos)]
  · rw [if_neg hslash]
    constructor
    · intro h
      cases h
      exact .inl ⟨hslash, rfl, rfl⟩
    · rintro (⟨-, rfl, rfl⟩ | ⟨hin, -⟩)
      · rfl
      · exact absurd hin hslash

theorem RangeText.ne_nil {r : List Char} {a b : Nat} (h : RangeText min max r a b) : r ≠ [] := by
  rintro rfl
  obtain ⟨ht, -⟩ := h.no_dash (by decide) (by decide)
  exact absurd ht.digits (by decide)

theorem parseCronPart_eq {part : List Char} (hclean : ∀ c ∈ part, isWhite c = false) {a b step : Nat} :
    parseCronPart part min max label = .ok (a, b, step) ↔
      part ≠ [] ∧ ∃ range, parseCronStep part label = .ok (range, step) ∧
        RangeText min max (firstTwo '-' range) a b := by
  rw [parseCronPart, trim_of_not_white hclean]
  by_cases hpart : part = []
  · rw [if_pos hpart]
    constructor
    · intro h
      cases h
    · exact fun h => absurd hpart h.1
  rw [if_neg hpart, bind_eq_ok]
  constructor
  · rintro ⟨⟨range, step'⟩, hstep, h⟩
    obtain ⟨⟨start, stop⟩, hrange, h⟩ := bind_eq_ok.mp h
    simp only at h
    split at h
    · cases h
    rename_i hbound
    cases h
    exact ⟨hpart, range, hstep, parseCronRange_iff.mp ⟨hrange, hbound⟩⟩
  · rintro ⟨-, range, hstep, hr⟩
    obtain ⟨hrange, hbound⟩ := (@parseCronRange_iff min max label range part a b).mpr hr
    exact ⟨(range, step), hstep, bind_eq_ok.mpr ⟨(a, b), hrange, if_neg hbound⟩⟩

/-- A part is read exactly when it is an item once it is cut off. -/
theorem parseCronPart_iff {part : List Char} (hclean : ∀ c ∈ part, isWhite c = false) {a b step : Nat} :
    parseCronPart part min max label = .ok (a, b, step) ↔ ItemText min max (cutItem part) a b step := by
  rw [parseCronPart_eq hclean]
  simp only [parseCronStep_iff]
  by_cases hslash : '/' ∈ part
  · obtain ⟨x, y, rest, hsplit, -, hx, -⟩ := exists_pieces hslash
    have hcut : cutItem part = firstTwo '-' x ++ '/' :: y := by rw [cutItem, hsplit]
    have hx' : '/' ∉ firstTwo '-' x := fun hin => hx ((firstTwo_initial x).subset hin)
    rw [hcut]
    constructor
    · rintro ⟨-, range, (⟨hno, -⟩ | ⟨-, stepPart, rest', he, -, ht, hpos⟩), hr⟩
      · exact absurd hslash hno
      · rw [hsplit] at he
        obtain ⟨rfl, rfl, -⟩ : x = range ∧ y = stepPart ∧ rest = rest' := by simpa using he
        exact .stepped hr ht hpos
    · intro h
      obtain ⟨hr, ht, hpos⟩ := h.slash hx'
      have hne : x ≠ [] := by
        rintro rfl
        exact hr.ne_nil (by decide)
      exact ⟨List.ne_nil_of_mem hslash, x, .inr ⟨hslash, y, rest, hsplit, hne, ht, hpos⟩, hr⟩
  · have hcut : cutItem part = firstTwo '-' part := by
      rw [cutItem, List.splitOn_eq_singleton hslash]
    have hno : '/' ∉ firstTwo '-' part := fun hin => hslash ((firstTwo_initial part).subset hin)
    rw [hcut]
    constructor
    · rintro ⟨-, range, (⟨-, rfl, rfl⟩ | ⟨hin, -⟩), hr⟩
      · exact .plain hr
      · exact absurd hin hslash
    · intro h
      obtain ⟨hr, rfl⟩ := h.no_slash hno
      have hne : part ≠ [] := by
        rintro rfl
        exact hr.ne_nil (by decide)
      exact ⟨hne, part, .inl ⟨hslash, rfl, rfl⟩, hr⟩

end Item

/-! ## The loops -/

theorem mem_addValues {stop step : Nat} (hstep : 1 ≤ step) {fuel value : Nat}
    (hfuel : stop + 1 ≤ value + fuel) {values : Finset Nat} {v : Nat} :
    v ∈ addValues stop step fuel value values ↔ v ∈ values ∨ v ∈ progression value stop step := by
  induction fuel generalizing value values with
  | zero =>
    rw [addValues]
    refine ⟨.inl, ?_⟩
    rintro (h | ⟨k, hk, hle⟩)
    · exact h
    · exfalso
      have := Nat.zero_le (k * step)
      omega
  | succ fuel ih =>
    rw [addValues]
    split
    · rename_i hle
      rw [ih (by omega), Finset.mem_insert]
      constructor
      · rintro ((rfl | h) | ⟨k, hk, hle⟩)
        · exact .inr ⟨0, by simp, hle⟩
        · exact .inl h
        · exact .inr ⟨k + 1, by rw [hk, Nat.succ_mul]; omega, hle⟩
      · rintro (h | ⟨k, hk, hle'⟩)
        · exact .inl (.inr h)
        · cases k with
          | zero => exact .inl (.inl (by simpa using hk))
          | succ k => exact .inr ⟨k, by rw [hk, Nat.succ_mul]; omega, hle'⟩
    · rename_i hgt
      refine ⟨.inl, ?_⟩
      rintro (h | ⟨k, hk, hle⟩)
      · exact h
      · exfalso
        have := Nat.zero_le (k * step)
        omega

section Field

variable {min max : Nat} {label : String}

theorem ItemText.one_le_step {t : List Char} {a b step : Nat} (h : ItemText min max t a b step) :
    1 ≤ step := by
  cases h with
  | plain _ => exact Nat.le_refl 1
  | stepped _ _ hstep => exact hstep

theorem coe_addValues {a b step : Nat} (hstep : 1 ≤ step) (acc : Finset Nat) :
    (addValues b step (b + 1 - a) a acc : Set Nat) = ↑acc ∪ progression a b step := by
  ext v
  rw [Finset.mem_coe, mem_addValues hstep (by omega), Set.mem_union, Finset.mem_coe]

theorem denoted_cons {part : List Char} (hclean : ∀ c ∈ part, isWhite c = false) {a b step : Nat}
    (h : ItemText min max (cutItem part) a b step) (items : List (List Char)) :
    denoted min max (cutItem part :: items) = progression a b step ∪ denoted min max items := by
  ext v
  constructor
  · rintro ⟨t, ht, a', b', step', hitem, hv⟩
    rcases List.mem_cons.mp ht with rfl | ht
    · have heq := (@parseCronPart_iff min max "" part hclean a b step).mpr h
      rw [(parseCronPart_iff hclean).mpr hitem] at heq
      cases heq
      exact .inl hv
    · exact .inr ⟨t, ht, a', b', step', hitem, hv⟩
  · rintro (hv | ⟨t, ht, rest⟩)
    · exact ⟨_, List.mem_cons_self, a, b, step, h, hv⟩
    · exact ⟨t, List.mem_cons_of_mem _ ht, rest⟩

theorem parseCronParts_iff {parts : List (List Char)}
    (hclean : ∀ part ∈ parts, ∀ c ∈ part, isWhite c = false) {acc values : Finset Nat} :
    parseCronParts min max label parts acc = .ok values ↔
      (∀ t ∈ parts.map cutItem, ∃ a b step, ItemText min max t a b step) ∧
        (values : Set Nat) = ↑acc ∪ denoted min max (parts.map cutItem) := by
  induction parts generalizing acc with
  | nil =>
    have hnone : denoted min max [] = ∅ := by simp [denoted]
    rw [parseCronParts, List.map_nil, hnone, Set.union_empty, Except.ok.injEq, Finset.coe_inj, eq_comm]
    simp
  | cons part parts ih =>
    have hpart := hclean part (by simp)
    have hparts := fun p hp => hclean p (List.mem_cons_of_mem part hp)
    rw [parseCronParts, bind_eq_ok, List.map_cons]
    constructor
    · rintro ⟨⟨a, b, step⟩, hp, hrest⟩
      have hitem := (parseCronPart_iff hpart).mp hp
      obtain ⟨hwf, hvalues⟩ := (ih hparts).mp hrest
      rw [coe_addValues hitem.one_le_step, Set.union_assoc, ← denoted_cons hpart hitem] at hvalues
      exact ⟨List.forall_mem_cons.mpr ⟨⟨a, b, step, hitem⟩, hwf⟩, hvalues⟩
    · rintro ⟨hwf, hvalues⟩
      obtain ⟨⟨a, b, step, hitem⟩, hwf⟩ := List.forall_mem_cons.mp hwf
      rw [denoted_cons hpart hitem, ← Set.union_assoc, ← coe_addValues hitem.one_le_step] at hvalues
      exact ⟨(a, b, step), (parseCronPart_iff hpart).mpr hitem, (ih hparts).mpr ⟨hwf, hvalues⟩⟩

theorem exists_values {parts : List (List Char)}
    (hclean : ∀ part ∈ parts, ∀ c ∈ part, isWhite c = false)
    (h : ∀ t ∈ parts.map cutItem, ∃ a b step, ItemText min max t a b step) :
    ∃ values : Finset Nat, (values : Set Nat) = denoted min max (parts.map cutItem) := by
  have hall : ∀ acc, ∃ values, parseCronParts min max "" parts acc = .ok values := by
    induction parts with
    | nil => exact fun acc => ⟨acc, rfl⟩
    | cons part parts ih =>
      intro acc
      rw [List.map_cons, List.forall_mem_cons] at h
      obtain ⟨⟨a, b, step, hitem⟩, hrest⟩ := h
      have hp := (@parseCronPart_iff min max "" part (hclean part (by simp)) a b step).mpr hitem
      rw [parseCronParts, hp]
      exact ih (fun p hp => hclean p (List.mem_cons_of_mem part hp)) hrest _
  obtain ⟨values, hvalues⟩ := hall ∅
  have hcoe := ((parseCronParts_iff hclean).mp hvalues).2
  rw [Finset.coe_empty, Set.empty_union] at hcoe
  exact ⟨values, hcoe⟩

theorem ItemText.nonempty {t : List Char} {a b step : Nat} (hle : min ≤ max)
    (h : ItemText min max t a b step) : a ∈ progression a b step := by
  refine ⟨0, by simp, ?_⟩
  have hrange : ∀ {r : List Char}, RangeText min max r a b → a ≤ b := by
    intro r hr
    cases hr with
    | star => exact hle
    | single _ _ _ => exact Nat.le_refl a
    | range _ _ hab _ _ => exact hab
  cases h with
  | plain hr => exact hrange hr
  | stepped hr _ _ => exact hrange hr

theorem clean_items {field : List Char} (hf : IsField isWhite field) :
    ∀ part ∈ itemsOf field, ∀ c ∈ part, isWhite c = false :=
  fun _ hp c hc => hf.clean c (mem_of_mem_splitOn hp hc)

theorem parseCronField_iff {field : List Char} (hf : IsField isWhite field) (hle : min ≤ max)
    {values : Finset Nat} {restricted : Bool} :
    parseCronField field min max label = .ok (values, restricted) ↔
      ItemsText min max (cutItemsOf field) ↑values ∧ restricted = decide (field ≠ ['*']) := by
  rw [parseCronField, trim_of_not_white hf.clean, if_neg hf.ne_nil, bind_eq_ok]
  have hparts := @parseCronParts_iff min max label (itemsOf field) (clean_items hf) ∅
  simp only [Finset.coe_empty, Set.empty_union] at hparts
  constructor
  · rintro ⟨values', hparse, h⟩
    split at h
    · cases h
    · cases h
      obtain ⟨hwf, hvalues⟩ := hparts.mp hparse
      exact ⟨⟨hwf, hvalues⟩, rfl⟩
  · rintro ⟨⟨hwf, hvalues⟩, rfl⟩
    refine ⟨values, hparts.mpr ⟨hwf, hvalues⟩, if_neg ?_⟩
    rintro rfl
    -- the first item has at least its first value
    obtain ⟨t, ht⟩ := List.exists_mem_of_ne_nil _ (List.splitOn_ne_nil ',' field)
    obtain ⟨a, b, step, hitem⟩ := hwf (cutItem t) (List.mem_map_of_mem ht)
    have hin : a ∈ denoted min max (cutItemsOf field) :=
      ⟨_, List.mem_map_of_mem ht, a, b, step, hitem, hitem.nonempty hle⟩
    rw [← hvalues] at hin
    simp at hin

/-- Well-formed items are read whole. -/
theorem cutItemsOf_eq {field : List Char}
    (h : ∀ t ∈ itemsOf field, ∃ a b step, ItemText min max t a b step) :
    cutItemsOf field = itemsOf field := by
  have hcut : ∀ t ∈ itemsOf field, cutItem t = id t := by
    intro t ht
    obtain ⟨a, b, step, hitem⟩ := h t ht
    exact hitem.cutItem_eq
  rw [cutItemsOf, List.map_congr_left hcut, List.map_id]

end Field

/-! ## The expression -/

theorem coe_sundayAlias (values : Finset Nat) :
    (sundayAlias values : Set Nat) = (fun v => if v = 7 then 0 else v) '' values := by
  rw [sundayAlias]
  ext v
  split
  · rename_i h7
    rw [Finset.coe_insert, Set.mem_insert_iff, Finset.mem_coe, Finset.mem_erase]
    constructor
    · rintro (rfl | ⟨hne, hv⟩)
      · exact ⟨7, h7, rfl⟩
      · exact ⟨v, hv, if_neg hne⟩
    · rintro ⟨w, hw, hwv⟩
      by_cases h : w = 7
      · exact .inl (by simpa [h] using hwv.symm)
      · simp only [if_neg h] at hwv
        exact .inr (hwv ▸ ⟨h, hw⟩)
  · rename_i h7
    constructor
    · intro hv
      have h : v ≠ 7 := by
        rintro rfl
        exact h7 hv
      exact ⟨v, hv, if_neg h⟩
    · rintro ⟨w, hw, hwv⟩
      have h : w ≠ 7 := by
        rintro rfl
        exact h7 hw
      simp only [if_neg h] at hwv
      exact hwv ▸ hw

/-- What the expression is parsed to: exactly what its items denote once they are cut off. -/
theorem parseCronExpression_iff {s : String} {schedule : CronSchedule} :
    parseCronExpression s = .ok schedule ↔
      ∃ m h dom mon dow, InFields isWhite (trim s.toList) [m, h, dom, mon, dow] ∧
        ∃ minute hour dayOfMonth month dayOfWeek : Finset Nat,
          ItemsText 0 59 (cutItemsOf m) minute ∧ ItemsText 0 23 (cutItemsOf h) hour ∧
          ItemsText 1 31 (cutItemsOf dom) dayOfMonth ∧ ItemsText 1 12 (cutItemsOf mon) month ∧
          ItemsText 0 7 (cutItemsOf dow) dayOfWeek ∧
          schedule = ⟨minute, hour, dayOfMonth, month, sundayAlias dayOfWeek, decide (dom ≠ ['*']),
            decide (dow ≠ ['*']), String.ofList (trim s.toList)⟩ := by
  rw [parseCronExpression]
  by_cases hne : trim s.toList = []
  · rw [if_pos hne, hne]
    constructor
    · intro h
      cases h
    · rintro ⟨m, h, dom, mon, dow, hin, -⟩
      exact absurd rfl hin.head.1
  rw [if_neg hne]
  have htrim := fun fs => @Trimmed.inFields_iff isWhite _ hne (trimmed_trim s.toList) fs
  constructor
  · intro hparse
    split at hparse
    · rename_i m h dom mon dow hsplit
      have hin := (htrim _).mpr hsplit
      obtain ⟨⟨minute, r1⟩, h1, hparse⟩ := bind_eq_ok.mp hparse
      obtain ⟨⟨hour, r2⟩, h2, hparse⟩ := bind_eq_ok.mp hparse
      obtain ⟨⟨dayOfMonth, r3⟩, h3, hparse⟩ := bind_eq_ok.mp hparse
      obtain ⟨⟨month, r4⟩, h4, hparse⟩ := bind_eq_ok.mp hparse
      obtain ⟨⟨dayOfWeek, r5⟩, h5, hparse⟩ := bind_eq_ok.mp hparse
      have hf := hin.fields
      have h1 := (parseCronField_iff (hf m (by simp)) (by omega)).mp h1
      have h2 := (parseCronField_iff (hf h (by simp)) (by omega)).mp h2
      have h3 := (parseCronField_iff (hf dom (by simp)) (by omega)).mp h3
      have h4 := (parseCronField_iff (hf mon (by simp)) (by omega)).mp h4
      have h5 := (parseCronField_iff (hf dow (by simp)) (by omega)).mp h5
      refine ⟨m, h, dom, mon, dow, hin, minute, hour, dayOfMonth, month, dayOfWeek, h1.1, h2.1, h3.1, h4.1,
        h5.1, ?_⟩
      rw [← h3.2, ← h5.2]
      cases hparse
      rfl
    · cases hparse
  · rintro ⟨m, h, dom, mon, dow, hin, minute, hour, dayOfMonth, month, dayOfWeek, h1, h2, h3, h4, h5, rfl⟩
    have hf := hin.fields
    rw [(htrim _).mp hin]
    simp only [bind_eq_ok]
    refine ⟨(minute, _), (parseCronField_iff (hf m (by simp)) (by omega)).mpr ⟨h1, rfl⟩,
      (hour, _), (parseCronField_iff (hf h (by simp)) (by omega)).mpr ⟨h2, rfl⟩,
      (dayOfMonth, _), (parseCronField_iff (hf dom (by simp)) (by omega)).mpr ⟨h3, rfl⟩,
      (month, _), (parseCronField_iff (hf mon (by simp)) (by omega)).mpr ⟨h4, rfl⟩,
      (dayOfWeek, _), (parseCronField_iff (hf dow (by simp)) (by omega)).mpr ⟨h5, rfl⟩, rfl⟩

theorem exists_parse_iff {s : String} :
    (∃ schedule, parseCronExpression s = .ok schedule) ↔
      ∃ minute hour dayOfMonth month dayOfWeek,
        CronText cutItemsOf s minute hour dayOfMonth month dayOfWeek := by
  constructor
  · rintro ⟨schedule, h⟩
    obtain ⟨m, h, dom, mon, dow, hin, minute, hour, dayOfMonth, month, dayOfWeek, h1, h2, h3, h4, h5, -⟩ :=
      parseCronExpression_iff.mp h
    exact ⟨_, _, _, _, _, m, h, dom, mon, dow, hin, h1, h2, h3, h4, h5⟩
  · rintro ⟨_, _, _, _, _, m, h, dom, mon, dow, hin, h1, h2, h3, h4, h5⟩
    have hf := hin.fields
    have hvalues : ∀ {min max : Nat} {f : List Char} {values : Set Nat}, IsField isWhite f →
        ItemsText min max (cutItemsOf f) values →
        ∃ found : Finset Nat, ItemsText min max (cutItemsOf f) found := by
      intro min max f values hf h
      obtain ⟨found, hfound⟩ := exists_values (clean_items hf) h.wellFormed
      exact ⟨found, h.wellFormed, hfound⟩
    obtain ⟨minute, h1⟩ := hvalues (hf m (by simp)) h1
    obtain ⟨hour, h2⟩ := hvalues (hf h (by simp)) h2
    obtain ⟨dayOfMonth, h3⟩ := hvalues (hf dom (by simp)) h3
    obtain ⟨month, h4⟩ := hvalues (hf mon (by simp)) h4
    obtain ⟨dayOfWeek, h5⟩ := hvalues (hf dow (by simp)) h5
    exact ⟨_, parseCronExpression_iff.mpr ⟨m, h, dom, mon, dow, hin, minute, hour, dayOfMonth, month,
      dayOfWeek, h1, h2, h3, h4, h5, rfl⟩⟩

/-- The parser accepts a text exactly when the grammar does, and returns the values its items denote,
with 7 read as 0 for the day of the week. -/
structure MeetsGrammar (s : String) : Prop where
  accepts : (∃ schedule, parseCronExpression s = .ok schedule) ↔
    ∃ minute hour dayOfMonth month dayOfWeek,
      CronText itemsOf s minute hour dayOfMonth month dayOfWeek
  values : ∀ schedule, parseCronExpression s = .ok schedule → ∃ dayOfWeek : Set Nat,
    CronText itemsOf s schedule.minute schedule.hour schedule.dayOfMonth schedule.month dayOfWeek ∧
      (schedule.dayOfWeek : Set Nat) = (fun v => if v = 7 then 0 else v) '' dayOfWeek

/-- Nothing is cut off, unless what is left is not well formed either. -/
def ReadsWhole (s : String) : Prop :=
  ∀ m h dom mon dow, InFields isWhite (trim s.toList) [m, h, dom, mon, dow] →
    (∃ minute hour dayOfMonth month dayOfWeek,
      CronText cutItemsOf s minute hour dayOfMonth month dayOfWeek) →
    ∀ f ∈ [m, h, dom, mon, dow], cutItemsOf f = itemsOf f

/-- What the grammar accepts, the parser reads whole. -/
theorem CronText.cut {s : String} {minute hour dayOfMonth month dayOfWeek : Set Nat}
    (h : CronText itemsOf s minute hour dayOfMonth month dayOfWeek) :
    CronText cutItemsOf s minute hour dayOfMonth month dayOfWeek := by
  obtain ⟨m, h, dom, mon, dow, hin, h1, h2, h3, h4, h5⟩ := h
  refine ⟨m, h, dom, mon, dow, hin, ?_⟩
  rw [cutItemsOf_eq h1.wellFormed, cutItemsOf_eq h2.wellFormed, cutItemsOf_eq h3.wellFormed,
    cutItemsOf_eq h4.wellFormed, cutItemsOf_eq h5.wellFormed]
  exact ⟨h1, h2, h3, h4, h5⟩

theorem meets_grammar_iff (s : String) : MeetsGrammar s ↔ ReadsWhole s := by
  constructor
  · intro hmeets m h dom mon dow hin hcut
    obtain ⟨_, _, _, _, _, m', h', dom', mon', dow', hin', h1, h2, h3, h4, h5⟩ :=
      hmeets.accepts.mp (exists_parse_iff.mpr hcut)
    have hfields := hin.splitRuns_eq.symm.trans hin'.splitRuns_eq
    obtain ⟨rfl, rfl, rfl, rfl, rfl⟩ : m = m' ∧ h = h' ∧ dom = dom' ∧ mon = mon' ∧ dow = dow' := by
      simpa using hfields
    intro f hf
    simp only [List.mem_cons, List.not_mem_nil, or_false] at hf
    rcases hf with rfl | rfl | rfl | rfl | rfl
    · exact cutItemsOf_eq h1.wellFormed
    · exact cutItemsOf_eq h2.wellFormed
    · exact cutItemsOf_eq h3.wellFormed
    · exact cutItemsOf_eq h4.wellFormed
    · exact cutItemsOf_eq h5.wellFormed
  · intro hwhole
    have hvalues : ∀ schedule, parseCronExpression s = .ok schedule → ∃ dayOfWeek : Set Nat,
        CronText itemsOf s schedule.minute schedule.hour schedule.dayOfMonth schedule.month dayOfWeek ∧
          (schedule.dayOfWeek : Set Nat) = (fun v => if v = 7 then 0 else v) '' dayOfWeek := by
      intro schedule hparse
      obtain ⟨m, h, dom, mon, dow, hin, minute, hour, dayOfMonth, month, dayOfWeek, h1, h2, h3, h4, h5,
        rfl⟩ := parseCronExpression_iff.mp hparse
      have hf := hwhole m h dom mon dow hin (exists_parse_iff.mp ⟨_, hparse⟩)
      refine ⟨dayOfWeek, ⟨m, h, dom, mon, dow, hin, ?_⟩, coe_sundayAlias dayOfWeek⟩
      rw [← hf m (by simp), ← hf h (by simp), ← hf dom (by simp), ← hf mon (by simp), ← hf dow (by simp)]
      exact ⟨h1, h2, h3, h4, h5⟩
    refine ⟨⟨?_, ?_⟩, hvalues⟩
    · rintro ⟨schedule, hparse⟩
      obtain ⟨dayOfWeek, htext, -⟩ := hvalues schedule hparse
      exact ⟨_, _, _, _, _, htext⟩
    · rintro ⟨_, _, _, _, _, htext⟩
      exact exists_parse_iff.mpr ⟨_, _, _, _, _, htext.cut⟩

/-- The piece behind the second slash is not looked at. -/
theorem second_slash_dropped : ¬ MeetsGrammar "*/2/3 * * * *" := by
  intro hmeets
  have hok : ∃ schedule, parseCronExpression "*/2/3 * * * *" = .ok schedule := by
    have his : (parseCronExpression "*/2/3 * * * *").isOk = true := by decide +kernel
    cases hparse : parseCronExpression "*/2/3 * * * *" with
    | error e =>
      rw [hparse] at his
      cases his
    | ok schedule => exact ⟨schedule, rfl⟩
  obtain ⟨_, _, _, _, _, m, h, dom, mon, dow, hin, hm, -⟩ := hmeets.accepts.mp hok
  have hsplit : splitRuns isWhite false (trim "*/2/3 * * * *".toList) =
      [['*', '/', '2', '/', '3'], ['*'], ['*'], ['*'], ['*']] := by decide +kernel
  rw [hin.splitRuns_eq] at hsplit
  obtain ⟨rfl, -⟩ := List.cons.inj hsplit
  obtain ⟨a, b, step, hitem⟩ := hm.wellFormed ['*', '/', '2', '/', '3'] (by decide)
  have hslash := hitem.slash (r := ['*']) (t := ['2', '/', '3']) (by decide)
  exact absurd hslash.2.1.digits (by decide)

end Analytics
end TradeCore
