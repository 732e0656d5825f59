import Mathlib.Data.Rat.Defs
import Mathlib.Data.List.Lex
import Mathlib.Data.List.Sort
import TradeCore.Lib.DecimalText
import TradeCore.Lib.JsonText

/-!
# TradeCore.Soroban.StateKey

The keys under which contract storage is read and the text a read is cached under. A caller passes
a native value or an ScVal object; `nativeToScVal` turns it into the ScVal the ledger is asked for,
and `cacheKey` into the text.

* `cacheKey_eq_iff`: two reads share a cache entry when contract and durability are equal and the
  keys print alike.
* `cacheKey_separates_iff`: keys that print alike are kept apart by `nativeToScVal` unless they are
  one value. The exact collisions are a string that spells another key, and a structure that has a
  bigint where another has its digits (or `NaN` for `null`, or an ScVal for its fields).
-/

namespace TradeCore
namespace Soroban

open Lib

inductive Durability where
  | temporary
  | persistent
  deriving DecidableEq, Repr

def Durability.text : Durability → String
  | .temporary => "temporary"
  | .persistent => "persistent"

/-- A number. A finite one comes with its exact value and the text `String` gives for it. -/
inductive Number where
  | finite (value : ℚ) (text : NumText)
  | nan
  | infinity (negative : Bool)

/-- A key as the caller has it; `σ` is the type of ScVal objects. -/
inductive Key (σ : Type) where
  | null
  | bool (b : Bool)
  | number (x : Number)
  | bigint (i : Int)
  | string (s : String)
  | array (xs : List (Key σ))
  | object (fields : List (String × Key σ))
  | scVal (v : σ)

/-! ## The printed form -/

/-- The digits of a bigint. -/
def digits (i : Int) : List Char :=
  if i < 0 then '-' :: Nat.toDigits 10 i.natAbs else Nat.toDigits 10 i.natAbs

def Number.text : Number → List Char
  | .finite _ text => text.chars
  | .nan => "NaN".toList
  | .infinity false => "Infinity".toList
  | .infinity true => "-Infinity".toList

/-- The number a property name is, when it is an array index. -/
def arrayIndex? (name : List Char) : Option Nat :=
  let n := Nat.ofDigitChars 10 name 0
  if name = Nat.toDigits 10 n ∧ n < 2 ^ 32 - 1 then some n else none

def codeUnits (name : List Char) : List Nat :=
  name.flatMap fun c =>
    if c.toNat < 0x10000 then [c.toNat]
    else [0xD800 + (c.toNat - 0x10000) / 0x400, 0xDC00 + (c.toNat - 0x10000) % 0x400]

/-- Array indices come first, in numeric order, then the other names by their code units. -/
def nameRank (name : String) : List Nat :=
  match arrayIndex? name.toList with
  | some n => [0, n]
  | none => 1 :: codeUnits name.toList

/-- The fields of an object built from the sorted names of another one. -/
def propertyOrder {α : Type} (fields : List (String × α)) : List (String × α) :=
  fields.insertionSort fun p q => nameRank p.1 ≤ nameRank q.1

def keyPrefix : String := "soroban:state:"

section

variable {σ : Type} (view : σ → List (String × Json))

mutual

/-- What the replacer of `stableStringify` leaves of a key. `view` gives the own fields of an ScVal
object. -/
def jsonOf : Key σ → Json
  | .null => .null
  | .bool b => .bool b
  | .number (.finite _ text) => .num text
  | .number .nan => .null
  | .number (.infinity _) => .null
  | .bigint i => .str (String.ofList (digits i))
  | .string s => .str s
  | .array xs => .arr (jsonElements xs)
  | .object fields => .obj (propertyOrder (jsonFields fields))
  | .scVal v => .obj (view v)

def jsonElements : List (Key σ) → List Json
  | [] => []
  | x :: xs => jsonOf x :: jsonElements xs

def jsonFields : List (String × Key σ) → List (String × Json)
  | [] => []
  | (name, x) :: fields => (name, jsonOf x) :: jsonFields fields

end

/-- `String(value)` of what is no string and no structure. -/
def scalarText : Key σ → Option (List Char)
  | .null => some "null".toList
  | .bool true => some "true".toList
  | .bool false => some "false".toList
  | .number x => some x.text
  | .bigint i => some (digits i)
  | _ => none

def stableStringify : Key σ → String
  | .string s => s
  | k =>
    match scalarText k with
    | some text => String.ofList text
    | none => String.ofList (render (jsonOf view k))

def cacheKey (contractId : String) (key : Key σ) (durability : Durability) : String :=
  keyPrefix ++ contractId ++ ":" ++ durability.text ++ ":" ++ stableStringify view key

/-- The ScVal the ledger is asked for; `none` is a key that cannot be encoded. -/
def toScKey (nativeToScVal : Key σ → Option σ) : Key σ → Option σ
  | .scVal v => some v
  | k => nativeToScVal k

/-! ## When two keys print alike -/

/-- One is a string and spells the other, or both are scalars with one text, or both are structures
that the replacer makes equal. -/
def Alike : Key σ → Key σ → Prop
  | .string s, l => s = stableStringify view l
  | k, .string t => stableStringify view k = t
  | k, l => scalarText k = scalarText l ∧ (scalarText k = none → jsonOf view k = jsonOf view l)

theorem jsonElements_eq (xs : List (Key σ)) : jsonElements view xs = xs.map (jsonOf view) := by
  induction xs with
  | nil => rfl
  | cons x xs ih => rw [jsonElements, ih, List.map_cons]

theorem jsonFields_eq (fields : List (String × Key σ)) :
    jsonFields view fields = fields.map fun p => (p.1, jsonOf view p.2) := by
  induction fields with
  | nil => rfl
  | cons p fields ih => rw [jsonFields, ih, List.map_cons]

theorem propertyOrder_map {α β : Type} (g : α → β) (fields : List (String × α)) :
    propertyOrder (fields.map fun p => (p.1, g p.2)) =
      (propertyOrder fields).map fun p => (p.1, g p.2) :=
  (List.map_insertionSort (fun p q : String × α => nameRank p.1 ≤ nameRank q.1)
    (fun p q : String × β => nameRank p.1 ≤ nameRank q.1) (fun p => (p.1, g p.2)) fields
    fun _ _ _ _ => Iff.rfl).symm

theorem mem_propertyOrder {α : Type} {fields : List (String × α)} {p : String × α} :
    p ∈ propertyOrder fields ↔ p ∈ fields :=
  (List.perm_insertionSort _ _).mem_iff

theorem jsonOf_object (fields : List (String × Key σ)) :
    jsonOf view (.object fields) =
      .obj ((propertyOrder fields).map fun p => (p.1, jsonOf view p.2)) := by
  rw [jsonOf, jsonFields_eq, propertyOrder_map]

theorem digits_head (i : Int) : ∃ c t, digits i = c :: t ∧ isNumChar c = true := by
  unfold digits
  split
  · exact ⟨'-', _, rfl, by decide⟩
  · cases h : Nat.toDigits 10 i.natAbs with
    | nil => exact absurd h Nat.toDigits_ne_nil
    | cons c t =>
      have hc := isDigit_toDigits i.natAbs c (by simp [h])
      exact ⟨c, t, rfl, by simp [isNumChar, hc]⟩

theorem scalarText_head {k : Key σ} {text : List Char} (h : scalarText k = some text) :
    ∃ c t, text = c :: t ∧ c ≠ '[' ∧ c ≠ openBrace := by
  have hnum : ∀ {c : Char}, isNumChar c = true → c ≠ '[' ∧ c ≠ openBrace := by
    intro c hc
    constructor
    · rintro rfl
      exact absurd hc (by decide)
    · rintro rfl
      exact absurd hc (by decide)
  cases k with
  | null => cases h; exact ⟨_, _, rfl, by decide, by decide⟩
  | bool b => cases b <;> cases h <;> exact ⟨_, _, rfl, by decide, by decide⟩
  | number x =>
    cases x with
    | finite value text =>
      cases h
      obtain ⟨chars, hne, hall⟩ := text
      cases chars with
      | nil => exact absurd rfl hne
      | cons c t => exact ⟨c, t, rfl, hnum (hall c (by simp))⟩
    | nan => cases h; exact ⟨_, _, rfl, by decide, by decide⟩
    | infinity negative => cases negative <;> cases h <;> exact ⟨_, _, rfl, by decide, by decide⟩
  | bigint i =>
    cases h
    obtain ⟨c, t, hd, hc⟩ := digits_head i
    exact ⟨c, t, hd, hnum hc⟩
  | string s => cases h
  | array xs => cases h
  | object fields => cases h
  | scVal v => cases h

theorem render_structure {l : Key σ} (hl : scalarText l = none) (hs : ∀ s, l ≠ .string s) :
    ∃ c t, render (jsonOf view l) = c :: t ∧ (c = '[' ∨ c = openBrace) := by
  have hobj : ∀ fields, ∃ c t, render (.obj fields) = c :: t ∧ (c = '[' ∨ c = openBrace) := by
    intro fields
    cases fields with
    | nil => exact ⟨_, _, by rw [render], .inr rfl⟩
    | cons p fields => exact ⟨_, _, by rw [render], .inr rfl⟩
  cases l with
  | string s => exact absurd rfl (hs s)
  | array xs =>
    rw [jsonOf]
    cases jsonElements view xs with
    | nil => exact ⟨_, _, by rw [render], .inl rfl⟩
    | cons x xs => exact ⟨_, _, by rw [render], .inl rfl⟩
  | object fields => exact hobj _
  | scVal v => exact hobj _
  | null => cases hl
  | bool b => cases b <;> cases hl
  | number x => cases hl
  | bigint i => cases hl

theorem stableStringify_scalar {k : Key σ} {text : List Char} (h : scalarText k = some text) :
    stableStringify view k = String.ofList text := by
  cases k <;> simp_all [stableStringify, scalarText]

theorem stableStringify_structure {k : Key σ} (h : scalarText k = none) (hs : ∀ s, k ≠ .string s) :
    stableStringify view k = String.ofList (render (jsonOf view k)) := by
  cases k <;> simp_all [stableStringify, scalarText]

theorem stableStringify_ne {k l : Key σ} {text : List Char} (hk : scalarText k = some text)
    (hl : scalarText l = none) (hs : ∀ s, l ≠ .string s) :
    stableStringify view k ≠ stableStringify view l := by
  rw [stableStringify_scalar view hk, stableStringify_structure view hl hs]
  intro h
  obtain ⟨c, t, rfl, hb, hc⟩ := scalarText_head hk
  obtain ⟨d, u, hd, hdc⟩ := render_structure view hl hs
  rw [hd] at h
  obtain rfl := (List.cons.inj (String.ofList_injective h)).1
  exact hdc.elim hb hc

theorem alike_iff {k l : Key σ} (hk : ∀ s, k ≠ .string s) (hl : ∀ s, l ≠ .string s) :
    Alike view k l ↔
      scalarText k = scalarText l ∧ (scalarText k = none → jsonOf view k = jsonOf view l) := by
  cases k <;> first | exact absurd rfl (hk _) | skip
  all_goals cases l <;> first | exact absurd rfl (hl _) | exact Iff.rfl

theorem stableStringify_eq_iff (k l : Key σ) :
    stableStringify view k = stableStringify view l ↔ Alike view k l := by
  by_cases hk : ∃ s, k = .string s
  · obtain ⟨s, rfl⟩ := hk
    exact Iff.rfl
  by_cases hl : ∃ s, l = .string s
  · obtain ⟨s, rfl⟩ := hl
    cases k <;> first | exact absurd ⟨_, rfl⟩ hk | exact Iff.rfl
  have hk : ∀ s, k ≠ .string s := fun s h => hk ⟨s, h⟩
  have hl : ∀ s, l ≠ .string s := fun s h => hl ⟨s, h⟩
  rw [alike_iff view hk hl]
  cases hsk : scalarText k with
  | some text =>
    cases hsl : scalarText l with
    | some text' =>
      rw [stableStringify_scalar view hsk, stableStringify_scalar view hsl]
      simp [String.ofList_inj]
    | none => simpa using stableStringify_ne view hsk hsl hl
  | none =>
    cases hsl : scalarText l with
    | some text' => simpa using (stableStringify_ne view hsl hsk hk).symm
    | none =>
      rw [stableStringify_structure view hsk hk, stableStringify_structure view hsl hl]
      simp only [String.ofList_inj, true_and, forall_const]
      exact ⟨render_injective, congrArg render⟩

theorem colon_not_mem_text (d : Durability) : ':' ∉ d.text.toList := by cases d <;> decide

theorem Durability.text_inj {d e : Durability} (h : d.text = e.text) : d = e := by
  cases d <;> cases e <;> first | rfl | exact absurd h (by decide)

theorem cacheKey_toList (c : String) (k : Key σ) (d : Durability) :
    (cacheKey view c k d).toList = keyPrefix.toList ++
      (c.toList ++ ':' :: (d.text.toList ++ ':' :: (stableStringify view k).toList)) := by
  have hcolon : ":".toList = [':'] := rfl
  simp only [cacheKey, String.toList_append, List.append_assoc, hcolon, List.cons_append,
    List.nil_append]

/-- Two reads share a cache entry exactly when contract and durability are equal and the keys print
alike. -/
theorem cacheKey_eq_iff {c c' : String} (hc : ':' ∉ c.toList) (hc' : ':' ∉ c'.toList)
    (k k' : Key σ) (d d' : Durability) :
    cacheKey view c k d = cacheKey view c' k' d' ↔ c = c' ∧ d = d' ∧ Alike view k k' := by
  rw [← stableStringify_eq_iff, ← String.toList_inj, cacheKey_toList, cacheKey_toList,
    List.append_cancel_left_eq]
  constructor
  · intro h
    obtain ⟨hcc, h⟩ := delimited_inj hc hc' h
    obtain ⟨hd, h⟩ := delimited_inj (colon_not_mem_text d) (colon_not_mem_text d') h
    exact ⟨String.toList_inj.mp hcc, Durability.text_inj (String.toList_inj.mp hd),
      String.toList_inj.mp h⟩
  · rintro ⟨rfl, rfl, h⟩
    rw [h]

/-! ## The value a key stands for -/

inductive Value (σ : Type) where
  | null
  | bool (b : Bool)
  | int (i : Int)
  | fraction (value : ℚ)
  | nan
  | infinity (negative : Bool)
  | string (s : String)
  | array (xs : List (Value σ))
  | object (fields : List (String × Value σ))
  | scVal (v : σ)

def Number.toValue : Number → Value σ
  | .finite value _ => if value.den = 1 then .int value.num else .fraction value
  | .nan => .nan
  | .infinity negative => .infinity negative

mutual

/-- A whole number and the bigint with its value are one value, and the order of fields does not
matter. -/
def valueOf : Key σ → Value σ
  | .null => .null
  | .bool b => .bool b
  | .number x => x.toValue
  | .bigint i => .int i
  | .string s => .string s
  | .array xs => .array (valueElements xs)
  | .object fields => .object (propertyOrder (valueFields fields))
  | .scVal v => .scVal v

def valueElements : List (Key σ) → List (Value σ)
  | [] => []
  | x :: xs => valueOf x :: valueElements xs

def valueFields : List (String × Key σ) → List (String × Value σ)
  | [] => []
  | (name, x) :: fields => (name, valueOf x) :: valueFields fields

end

theorem valueElements_eq (xs : List (Key σ)) : valueElements xs = xs.map valueOf := by
  induction xs with
  | nil => rfl
  | cons x xs ih => rw [valueElements, ih, List.map_cons]

theorem valueFields_eq (fields : List (String × Key σ)) :
    valueFields fields = fields.map fun p => (p.1, valueOf p.2) := by
  induction fields with
  | nil => rfl
  | cons p fields ih => rw [valueFields, ih, List.map_cons]

theorem valueOf_object (fields : List (String × Key σ)) :
    valueOf (.object fields) = .object ((propertyOrder fields).map fun p => (p.1, valueOf p.2)) := by
  rw [valueOf, valueFields_eq, propertyOrder_map]

/-! ## `nativeToScVal` -/

inductive Kind where
  | null
  | boolean
  | integer
  | string
  | array
  | object
  deriving DecidableEq

/-- The kind of a native value; an ScVal object is none. -/
def Key.kind : Key σ → Option Kind
  | .null => some .null
  | .bool _ => some .boolean
  | .number _ => some .integer
  | .bigint _ => some .integer
  | .string _ => some .string
  | .array _ => some .array
  | .object _ => some .object
  | .scVal _ => none

def Value.kind : Value σ → Option Kind
  | .null => some .null
  | .bool _ => some .boolean
  | .string _ => some .string
  | .array _ => some .array
  | .object _ => some .object
  | .scVal _ => none
  | _ => some .integer

theorem kind_valueOf (k : Key σ) : (valueOf k).kind = k.kind := by
  cases k with
  | number x =>
    cases x with
    | finite value text => simp only [valueOf, Number.toValue]; split <;> rfl
    | nan => rfl
    | infinity negative => rfl
  | _ => rfl

theorem Key.kind_cases {k l : Key σ} (h : k.kind = l.kind) :
    (k = .null ∧ l = .null) ∨ (∃ b c, k = .bool b ∧ l = .bool c) ∨
      (k.kind = some .integer ∧ l.kind = some .integer) ∨ (∃ s t, k = .string s ∧ l = .string t) ∨
      (∃ xs ys, k = .array xs ∧ l = .array ys) ∨ (∃ xs ys, k = .object xs ∧ l = .object ys) ∨
      ∃ v w, k = .scVal v ∧ l = .scVal w := by
  cases k <;> cases l <;> simp_all [Key.kind]

inductive TypeOf where
  | boolean
  | number
  | bigint
  | string
  | object
  deriving DecidableEq

def Key.typeOf : Key σ → TypeOf
  | .bool _ => .boolean
  | .number _ => .number
  | .bigint _ => .bigint
  | .string _ => .string
  | _ => .object

/-- What the SDK says of `nativeToScVal`: values of different kinds go to different ScVals, a number
to the integer it is, an array and an object to what their parts go to (an array depends on the
types of its elements too, which must agree), an ScVal object to itself. `none` is a value it
refuses. -/
structure Marshals (nativeToScVal : Key σ → Option σ) : Prop where
  kinds : ∀ {k l a b v}, k.kind = some a → l.kind = some b → nativeToScVal k = some v →
    nativeToScVal l = some v → a = b
  number : ∀ value text, nativeToScVal (.number (.finite value text)) =
    if value.den = 1 then nativeToScVal (.bigint value.num) else none
  nan : nativeToScVal (.number .nan) = none
  infinity : ∀ negative, nativeToScVal (.number (.infinity negative)) = none
  bigint : ∀ {i j v}, nativeToScVal (.bigint i) = some v → nativeToScVal (.bigint j) = some v → i = j
  array : ∀ {xs ys v}, nativeToScVal (.array xs) = some v → nativeToScVal (.array ys) = some v →
    xs.map nativeToScVal = ys.map nativeToScVal
  elements : ∀ {xs v}, nativeToScVal (.array xs) = some v → ∀ x ∈ xs, (nativeToScVal x).isSome
  array_congr : ∀ {xs ys}, xs.map Key.typeOf = ys.map Key.typeOf →
    xs.map nativeToScVal = ys.map nativeToScVal → nativeToScVal (.array xs) = nativeToScVal (.array ys)
  object : ∀ {xs ys v}, nativeToScVal (.object xs) = some v → nativeToScVal (.object ys) = some v →
    (propertyOrder xs).map (fun p => (p.1, nativeToScVal p.2)) =
      (propertyOrder ys).map fun p => (p.1, nativeToScVal p.2)
  fields : ∀ {xs v}, nativeToScVal (.object xs) = some v → ∀ p ∈ xs, (nativeToScVal p.2).isSome
  object_congr : ∀ {xs ys}, (propertyOrder xs).map (fun p => (p.1, nativeToScVal p.2)) =
    ((propertyOrder ys).map fun p => (p.1, nativeToScVal p.2)) →
      nativeToScVal (.object xs) = nativeToScVal (.object ys)
  scVal : ∀ v, nativeToScVal (.scVal v) = some v
  /-- An ScVal object does not print as the native value it can be made from. -/
  prints : ∀ {k v}, k.kind ≠ none → nativeToScVal k = some v →
    stableStringify view k ≠ stableStringify view (.scVal v)

omit view in
/-- Two lists that agree on `p` and `r` agree on `q`, when `p` and `r` tell `q`. -/
theorem map_eq_of_maps {α β γ δ : Type} {p : α → β} {r : α → γ} {q : α → δ} {xs ys : List α}
    (hp : xs.map p = ys.map p) (hr : xs.map r = ys.map r)
    (h : ∀ x ∈ xs, ∀ y, p x = p y → r x = r y → q x = q y) : xs.map q = ys.map q := by
  induction xs generalizing ys with
  | nil =>
    obtain rfl : ys = [] := by simpa using hp.symm
    rfl
  | cons x xs ih =>
    cases ys with
    | nil => cases hp
    | cons y ys =>
      simp only [List.map_cons, List.cons.injEq] at hp hr ⊢
      exact ⟨h x (.head _) y hp.1 hr.1, ih hp.2 hr.2 fun x hx => h x (.tail _ hx)⟩

theorem Key.induct {P : Key σ → Prop} (null : P .null) (bool : ∀ b, P (.bool b))
    (number : ∀ x, P (.number x)) (bigint : ∀ i, P (.bigint i)) (string : ∀ s, P (.string s))
    (array : ∀ xs, (∀ x ∈ xs, P x) → P (.array xs))
    (object : ∀ fields, (∀ p ∈ fields, P p.2) → P (.object fields))
    (scVal : ∀ v, P (.scVal v)) (k : Key σ) : P k :=
  @Key.rec σ P (fun xs => ∀ x ∈ xs, P x) (fun fields => ∀ p ∈ fields, P p.2) (fun p => P p.2)
    null bool number bigint string array object scVal
    (fun _ h => nomatch h) (fun _ _ hx hxs => List.forall_mem_cons.mpr ⟨hx, hxs⟩)
    (fun _ h => nomatch h) (fun _ _ hp hps => List.forall_mem_cons.mpr ⟨hp, hps⟩)
    (fun _ _ h => h) k

variable {view} {nativeToScVal : Key σ → Option σ} (hm : Marshals view nativeToScVal)

include hm

/-- A number marshals as the integer it is, if it is one. -/
theorem Marshals.integer {k : Key σ} (hk : k.kind = some .integer) :
    nativeToScVal k = match valueOf k with
      | .int i => nativeToScVal (.bigint i)
      | _ => none := by
  cases k with
  | number x =>
    cases x with
    | finite value text =>
      rw [hm.number]
      simp only [valueOf, Number.toValue]
      split <;> rfl
    | nan => exact hm.nan
    | infinity negative => exact hm.infinity negative
  | bigint i => rfl
  | _ => cases hk

theorem Marshals.integer_some {k : Key σ} {v : σ} (hk : k.kind = some .integer)
    (h : nativeToScVal k = some v) :
    ∃ i, valueOf k = .int i ∧ nativeToScVal (.bigint i) = some v := by
  rw [hm.integer hk] at h
  split at h
  · rename_i i hi
    exact ⟨i, hi, h⟩
  · cases h

theorem Marshals.integer_eq {k l : Key σ} {v : σ} (hk : k.kind = some .integer)
    (hl : l.kind = some .integer) (hkv : nativeToScVal k = some v) (hlv : nativeToScVal l = some v) :
    valueOf k = valueOf l := by
  obtain ⟨i, hi, hiv⟩ := hm.integer_some hk hkv
  obtain ⟨j, hj, hjv⟩ := hm.integer_some hl hlv
  rw [hi, hj, hm.bigint hiv hjv]

/-- Keys with one ScVal are of one kind, unless an ScVal object and a native value print differently. -/
theorem Marshals.kind_eq {k l : Key σ} {v : σ} (hkv : nativeToScVal k = some v)
    (hlv : nativeToScVal l = some v)
    (h : k.kind = none ∨ l.kind = none → stableStringify view k = stableStringify view l) :
    k.kind = l.kind := by
  cases k with
  | scVal w =>
    obtain rfl : w = v := Option.some.inj ((hm.scVal w).symm.trans hkv)
    by_contra hl
    exact hm.prints (Ne.symm hl) hlv (h (.inl rfl)).symm
  | _ =>
    cases l with
    | scVal w =>
      obtain rfl : w = v := Option.some.inj ((hm.scVal w).symm.trans hlv)
      exact absurd (h (.inr rfl)) (hm.prints (Option.some_ne_none _) hkv)
    | _ => exact congrArg some (hm.kinds rfl rfl hkv hlv)

omit hm in
theorem stableStringify_of_jsonOf {k l : Key σ} (h : jsonOf view k = jsonOf view l)
    (hkl : k.kind = none ∨ l.kind = none) : stableStringify view k = stableStringify view l := by
  have hobj : ∀ {k : Key σ} {fields}, jsonOf view k = .obj fields →
      stableStringify view k = String.ofList (render (jsonOf view k)) := by
    intro k fields hk
    cases k with
    | number x => cases x <;> cases hk
    | object fields => rfl
    | scVal v => rfl
    | _ => cases hk
  have hsome : ∃ fields, jsonOf view k = .obj fields := by
    rcases hkl with hk | hl
    · cases k with
      | scVal v => exact ⟨_, rfl⟩
      | _ => cases hk
    · cases l with
      | scVal v => exact ⟨_, h⟩
      | _ => cases hl
  obtain ⟨fields, hk⟩ := hsome
  rw [hobj hk, hobj (h.symm.trans hk), h]

theorem Marshals.scalar_eq {k l : Key σ} {v : σ} (hkv : nativeToScVal k = some v)
    (hlv : nativeToScVal l = some v) (hkind : k.kind = l.kind) (harr : k.kind ≠ some .array)
    (hobj : k.kind ≠ some .object) (hb : ∀ b c, k = .bool b → l = .bool c → b = c)
    (hs : ∀ s t, k = .string s → l = .string t → s = t) : valueOf k = valueOf l := by
  obtain ⟨rfl, rfl⟩ | ⟨b, c, rfl, rfl⟩ | ⟨hk, hl⟩ | ⟨s, t, rfl, rfl⟩ | ⟨xs, ys, rfl, rfl⟩ |
    ⟨xs, ys, rfl, rfl⟩ | ⟨w, w', rfl, rfl⟩ := Key.kind_cases hkind
  · rfl
  · rw [hb b c rfl rfl]
  · exact hm.integer_eq hk hl hkv hlv
  · rw [hs s t rfl rfl]
  · exact absurd rfl harr
  · exact absurd rfl hobj
  · rw [hm.scVal] at hkv hlv
    rw [Option.some.inj (hkv.trans hlv.symm)]

/-- Keys with one ScVal that the replacer makes equal are one value. By induction on the first one;
the parts of an array or object with an ScVal have ScVals of their own. -/
theorem Marshals.valueOf_eq (k l : Key σ) {v : σ} (h : jsonOf view k = jsonOf view l)
    (hkv : nativeToScVal k = some v) (hlv : nativeToScVal l = some v) : valueOf k = valueOf l := by
  induction k using Key.induct generalizing l v with
  | array xs ih =>
    have hkind := hm.kind_eq hkv hlv (stableStringify_of_jsonOf h)
    cases l with
    | array ys =>
      simp only [jsonOf, jsonElements_eq, Json.arr.injEq] at h
      have hparts : xs.map valueOf = ys.map valueOf := by
        refine map_eq_of_maps h (hm.array hkv hlv) fun x hx y hj hxy => ?_
        obtain ⟨w, hw⟩ := Option.isSome_iff_exists.mp (hm.elements hkv x hx)
        exact ih x hx y hj hw (hxy.symm.trans hw)
      simp only [valueOf, valueElements_eq, hparts]
    | _ => cases hkind
  | object xs ih =>
    have hkind := hm.kind_eq hkv hlv (stableStringify_of_jsonOf h)
    cases l with
    | object ys =>
      simp only [jsonOf_object, Json.obj.injEq] at h
      rw [valueOf_object, valueOf_object]
      congr 1
      refine map_eq_of_maps h (hm.object hkv hlv) ?_
      rintro ⟨name, x⟩ hx ⟨name', y⟩ hj hxy
      obtain ⟨rfl, hj⟩ := Prod.mk.inj hj
      have hxy : nativeToScVal x = nativeToScVal y := (Prod.mk.inj hxy).2
      obtain ⟨w, hw⟩ := Option.isSome_iff_exists.mp (hm.fields hkv _ (mem_propertyOrder.mp hx))
      exact congrArg _ (ih _ (mem_propertyOrder.mp hx) y hj hw (hxy.symm.trans hw))
    | _ => cases hkind
  | _ =>
    refine hm.scalar_eq hkv hlv (hm.kind_eq hkv hlv (stableStringify_of_jsonOf h)) nofun nofun ?_ ?_
    · intro b c hb hc
      rw [hb, hc] at h
      exact Json.bool.inj h
    · intro s t hs ht
      rw [hs, ht] at h
      exact Json.str.inj h

theorem Marshals.alike_eq {k l : Key σ} {v : σ} (h : Alike view k l) (hkv : nativeToScVal k = some v)
    (hlv : nativeToScVal l = some v) : valueOf k = valueOf l := by
  have htext := (stableStringify_eq_iff view k l).mpr h
  have hkind := hm.kind_eq hkv hlv fun _ => htext
  by_cases hstr : k.kind = some .array ∨ k.kind = some .object
  · refine hm.valueOf_eq k l ?_ hkv hlv
    cases k with
    | array xs =>
      cases l with
      | array ys => exact h.2 rfl
      | _ => cases hkind
    | object xs =>
      cases l with
      | object ys => exact h.2 rfl
      | _ => cases hkind
    | _ => rcases hstr with hstr | hstr <;> cases hstr
  · obtain ⟨harr, hobj⟩ := not_or.mp hstr
    refine hm.scalar_eq hkv hlv hkind harr hobj ?_ ?_
    · rintro b c rfl rfl
      have := h.1
      cases b <;> cases c <;> first | rfl | exact absurd (Option.some.inj this) (by decide)
    · rintro s t rfl rfl
      exact htext

/-! ## One value has one ScVal -/

theorem Marshals.integer_congr {k l : Key σ} (hk : k.kind = some .integer)
    (hl : l.kind = some .integer) (hv : valueOf k = valueOf l) :
    nativeToScVal k = nativeToScVal l := by
  rw [hm.integer hk, hm.integer hl, hv]

theorem Marshals.scalar_congr {k l : Key σ} (hv : valueOf k = valueOf l)
    (harr : k.kind ≠ some .array) (hobj : k.kind ≠ some .object) :
    nativeToScVal k = nativeToScVal l := by
  have hkind : k.kind = l.kind := by rw [← kind_valueOf, ← kind_valueOf, hv]
  obtain ⟨rfl, rfl⟩ | ⟨b, c, rfl, rfl⟩ | ⟨hk, hl⟩ | ⟨s, t, rfl, rfl⟩ | ⟨xs, ys, rfl, rfl⟩ |
    ⟨xs, ys, rfl, rfl⟩ | ⟨w, w', rfl, rfl⟩ := Key.kind_cases hkind
  · rfl
  · rw [Value.bool.inj hv]
  · exact hm.integer_congr hk hl hv
  · rw [Value.string.inj hv]
  · exact absurd rfl harr
  · exact absurd rfl hobj
  · rw [Value.scVal.inj hv]

omit hm in
theorem typeOf_eq {k l : Key σ} (h : jsonOf view k = jsonOf view l) (hkind : k.kind = l.kind)
    (harr : k.kind ≠ some .array) (hobj : k.kind ≠ some .object) : k.typeOf = l.typeOf := by
  have hne : ∀ (x : Number) (i : Int), jsonOf view (.number x) ≠ jsonOf view (.bigint i) := by
    intro x i
    cases x <;> exact nofun
  cases k <;> cases l <;> first | rfl | exact absurd h (hne _ _) | exact absurd h.symm (hne _ _) |
    cases hkind

theorem Marshals.nativeToScVal_eq (k l : Key σ) (h : jsonOf view k = jsonOf view l)
    (hv : valueOf k = valueOf l) : k.typeOf = l.typeOf ∧ nativeToScVal k = nativeToScVal l := by
  have hkind : k.kind = l.kind := by rw [← kind_valueOf, ← kind_valueOf, hv]
  induction k using Key.induct generalizing l with
  | array xs ih =>
    cases l with
    | array ys =>
      simp only [jsonOf, jsonElements_eq, Json.arr.injEq] at h
      simp only [valueOf, valueElements_eq, Value.array.injEq] at hv
      have hpart : ∀ x ∈ xs, ∀ y, jsonOf view x = jsonOf view y → valueOf x = valueOf y →
          x.typeOf = y.typeOf ∧ nativeToScVal x = nativeToScVal y := by
        intro x hx y hj hxy
        exact ih x hx y hj hxy (by rw [← kind_valueOf, ← kind_valueOf, hxy])
      exact ⟨rfl, hm.array_congr (map_eq_of_maps h hv fun x hx y hj hxy => (hpart x hx y hj hxy).1)
        (map_eq_of_maps h hv fun x hx y hj hxy => (hpart x hx y hj hxy).2)⟩
    | _ => cases hkind
  | object xs ih =>
    cases l with
    | object ys =>
      simp only [jsonOf_object, Json.obj.injEq] at h
      simp only [valueOf_object, Value.object.injEq] at hv
      refine ⟨rfl, hm.object_congr (map_eq_of_maps h hv ?_)⟩
      rintro ⟨name, x⟩ hx ⟨name', y⟩ hj hxy
      obtain ⟨rfl, hj⟩ := Prod.mk.inj hj
      have hxy : valueOf x = valueOf y := (Prod.mk.inj hxy).2
      exact congrArg _ (ih _ (mem_propertyOrder.mp hx) y hj hxy
        (by rw [← kind_valueOf, ← kind_valueOf, hxy])).2
    | _ => cases hkind
  | _ =>
    exact ⟨typeOf_eq h hkind nofun nofun, hm.scalar_congr hv nofun nofun⟩

theorem Marshals.alike_congr {k l : Key σ} (h : Alike view k l) (hv : valueOf k = valueOf l) :
    nativeToScVal k = nativeToScVal l := by
  have hkind : k.kind = l.kind := by rw [← kind_valueOf, ← kind_valueOf, hv]
  cases k with
  | array xs =>
    cases l with
    | array ys => exact (hm.nativeToScVal_eq _ _ (h.2 rfl) hv).2
    | _ => cases hkind
  | object xs =>
    cases l with
    | object ys => exact (hm.nativeToScVal_eq _ _ (h.2 rfl) hv).2
    | _ => cases hkind
  | _ => exact hm.scalar_congr hv nofun nofun

omit hm in
/-- Contract, durability and ScVal of two reads that share a cache entry are equal. -/
def Separated (view : σ → List (String × Json)) (nativeToScVal : Key σ → Option σ) (c c' : String)
    (k k' : Key σ) (d d' : Durability) : Prop :=
  cacheKey view c k d = cacheKey view c' k' d' →
    c = c' ∧ d = d' ∧ toScKey nativeToScVal k = toScKey nativeToScVal k'

theorem Marshals.toScKey_eq (k : Key σ) : toScKey nativeToScVal k = nativeToScVal k := by
  cases k with
  | scVal v => exact (hm.scVal v).symm
  | _ => rfl

/-- The exact pairs of reads that share an entry they should not: one contract and durability, keys
that print alike but are different values, at least one of which has an ScVal. -/
theorem cacheKey_separates_iff {c c' : String} (hc : ':' ∉ c.toList) (hc' : ':' ∉ c'.toList)
    (k k' : Key σ) (d d' : Durability) :
    Separated view nativeToScVal c c' k k' d d' ↔
      ¬ (c = c' ∧ d = d' ∧ Alike view k k' ∧ valueOf k ≠ valueOf k' ∧
        (toScKey nativeToScVal k ≠ none ∨ toScKey nativeToScVal k' ≠ none)) := by
  rw [Separated, cacheKey_eq_iff view hc hc', hm.toScKey_eq, hm.toScKey_eq]
  constructor
  · rintro h ⟨rfl, rfl, halike, hne, hsome⟩
    have heq := (h ⟨rfl, rfl, halike⟩).2.2
    cases hk : nativeToScVal k with
    | none => exact hsome.elim (fun h => h hk) fun h => h (heq.symm.trans hk)
    | some v => exact hne (hm.alike_eq halike hk (heq.symm.trans hk))
  · rintro h ⟨rfl, rfl, halike⟩
    refine ⟨rfl, rfl, ?_⟩
    by_cases hv : valueOf k = valueOf k'
    · exact hm.alike_congr halike hv
    · have hnone : nativeToScVal k = none ∧ nativeToScVal k' = none := by
        by_contra hsome
        exact h ⟨rfl, rfl, halike, hv, not_and_or.mp hsome⟩
      rw [hnone.1, hnone.2]

end

/-! ## Scalar keys

`nativeToScVal` on scalars, enough to run the key of a read. -/

inductive ScalarVal where
  | void
  | bool (b : Bool)
  | int (i : Int)
  | str (s : String)
  deriving DecidableEq

def ScalarVal.view : ScalarVal → List (String × Json)
  | .void => [("_arm", .str "void")]
  | .bool b => [("_arm", .str "b"), ("_value", .bool b)]
  | .int i => [("_arm", .str "i128"), ("_value", .str (String.ofList (digits i)))]
  | .str s => [("_arm", .str "str"), ("_value", .str s)]

def scalarToScVal : Key ScalarVal → Option ScalarVal
  | .null => some .void
  | .bool b => some (.bool b)
  | .number (.finite value _) => if value.den = 1 then some (.int value.num) else none
  | .number _ => none
  | .bigint i => some (.int i)
  | .string s => some (.str s)
  | .array _ => none
  | .object _ => none
  | .scVal v => some v

theorem string_ne_view (s : String) : s ≠ String.ofList (render (.obj (ScalarVal.view (.str s)))) := by
  intro h
  have h := congrArg (fun t : String => t.toList.length) h
  have hq := length_lt_quote s
  simp only [String.toList_ofList, ScalarVal.view, render, renderFields, List.length_cons,
    List.length_append] at h
  omega

def ScalarVal.kind : ScalarVal → Kind
  | .void => .null
  | .bool _ => .boolean
  | .int _ => .integer
  | .str _ => .string

theorem scalarToScVal_kind {k : Key ScalarVal} {v : ScalarVal} {a : Kind} (hk : k.kind = some a)
    (h : scalarToScVal k = some v) : a = v.kind := by
  cases k with
  | number x =>
    cases x with
    | finite value text =>
      simp only [scalarToScVal] at h
      split at h
      · cases h
        exact (Option.some.inj hk).symm
      · cases h
    | nan => cases h
    | infinity negative => cases h
  | array xs => cases h
  | object fields => cases h
  | scVal w => cases hk
  | _ =>
    cases h
    exact (Option.some.inj hk).symm

theorem scalar_marshals : Marshals ScalarVal.view scalarToScVal where
  kinds hk hl hkv hlv := (scalarToScVal_kind hk hkv).trans (scalarToScVal_kind hl hlv).symm
  number value text := rfl
  nan := rfl
  infinity _ := rfl
  bigint h h' := ScalarVal.int.inj (Option.some.inj (h.trans h'.symm))
  array h := nomatch h
  elements h := nomatch h
  array_congr _ _ := rfl
  object h := nomatch h
  fields h := nomatch h
  object_congr _ := rfl
  scVal _ := rfl
  prints := by
    intro k v hk hv
    cases k with
    | string s =>
      cases hv
      exact string_ne_view s
    | scVal w => exact absurd rfl hk
    | array xs => cases hv
    | object fields => cases hv
    | bool b => cases b <;> exact stableStringify_ne _ rfl rfl nofun
    | _ => exact stableStringify_ne _ rfl rfl nofun

def one : Key ScalarVal :=
  .number (.finite 1 ⟨['1'], by decide, List.forall_mem_singleton.mpr (by decide)⟩)

/-- The number 1 and the string "1" are read under one cache entry. -/
theorem number_shares_string : Marshals ScalarVal.view scalarToScVal ∧
    cacheKey ScalarVal.view "CA" one .persistent =
      cacheKey ScalarVal.view "CA" (.string "1") .persistent ∧
    toScKey scalarToScVal one = some (.int 1) ∧
    toScKey scalarToScVal (.string "1") = some (.str "1") :=
  ⟨scalar_marshals, rfl, rfl, rfl⟩

theorem strings_separated :
    Separated ScalarVal.view scalarToScVal "CA" "CA" (.string "1") (.string "2") .persistent
      .persistent :=
  (cacheKey_separates_iff scalar_marshals (by decide) (by decide) _ _ _ _).mpr
    fun h => absurd h.2.2.1 (by decide : "1" ≠ "2")

end Soroban
end TradeCore
