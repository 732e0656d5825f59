import Mathlib.Data.List.Basic

/-!
# TradeCore.Lib.StreamDecoder

Decoders that are fed piece by piece, and text that is cut into lines piece by piece.

* `StreamDecoder`  what it writes for the pieces is what the pieces in one decode to.
* `ofStep`  a machine that reads one symbol at a time is such a decoder.
* `utf8`  the UTF-8 decoder of the web platform.
* `splitOn_append`  the lines of a text with more text behind it: the complete ones, then those that the
  last one and the new text give.
-/

namespace Lib

section StreamDecoder

variable {σ α β : Type}

/-- What is written for each of the pieces. -/
def outputs (decode : σ → List α → List β × σ) (s : σ) : List (List α) → List (List β)
  | [] => []
  | piece :: pieces => (decode s piece).1 :: outputs decode (decode s piece).2 pieces

structure StreamDecoder (α β : Type) where
  State : Type
  initial : State
  decode : State → List α → List β × State
  decoded : List α → List β
  yields : ∀ pieces, (outputs decode initial pieces).flatten = decoded pieces.flatten

/-- A machine that reads one symbol at a time. -/
def feed (step : σ → α → List β × σ) (s : σ) : List α → List β × σ
  | [] => ([], s)
  | a :: as => ((step s a).1 ++ (feed step (step s a).2 as).1, (feed step (step s a).2 as).2)

theorem feed_append (step : σ → α → List β × σ) (s : σ) (as bs : List α) :
    feed step s (as ++ bs) =
      ((feed step s as).1 ++ (feed step (feed step s as).2 bs).1, (feed step (feed step s as).2 bs).2) := by
  induction as generalizing s with
  | nil => rfl
  | cons a as ih => simp only [List.cons_append, feed, ih, List.append_assoc]

theorem outputs_feed (step : σ → α → List β × σ) (s : σ) (pieces : List (List α)) :
    (outputs (feed step) s pieces).flatten = (feed step s pieces.flatten).1 := by
  induction pieces generalizing s with
  | nil => rfl
  | cons piece pieces ih => rw [outputs, List.flatten_cons, ih, List.flatten_cons, feed_append]

def ofStep (step : σ → α → List β × σ) (s : σ) : StreamDecoder α β where
  State := σ
  initial := s
  decode := feed step
  decoded symbols := (feed step s symbols).1
  yields := outputs_feed step s

end StreamDecoder

/-! ## UTF-8 -/

/-- A character of which some bytes are read: its bits so far, the bytes it still needs and the bounds of
the next one. `started` is set behind the first character, which may be a byte order mark. -/
structure Utf8 where
  codePoint : Nat
  needed : Nat
  lower : Nat
  upper : Nat
  started : Bool

def Utf8.initial (started : Bool) : Utf8 := ⟨0, 0, 0x80, 0xBF, started⟩

/-- A complete character; a byte order mark at the start is left out. -/
def Utf8.emit (s : Utf8) (c : Char) : List Char × Utf8 :=
  (if c.toNat = 0xFEFF ∧ s.started = false then [] else [c], .initial true)

def replacement : Char := Char.ofNat 0xFFFD

/-- A byte that begins a character. -/
def Utf8.lead (s : Utf8) (byte : Nat) : List Char × Utf8 :=
  if byte ≤ 0x7F then s.emit (Char.ofNat byte)
  else if 0xC2 ≤ byte ∧ byte ≤ 0xDF then ([], { s with codePoint := byte % 0x20, needed := 1 })
  else if 0xE0 ≤ byte ∧ byte ≤ 0xEF then
    ([], { s with
      codePoint := byte % 0x10
      needed := 2
      lower := if byte = 0xE0 then 0xA0 else 0x80
      upper := if byte = 0xED then 0x9F else 0xBF })
  else if 0xF0 ≤ byte ∧ byte ≤ 0xF4 then
    ([], { s with
      codePoint := byte % 0x08
      needed := 3
      lower := if byte = 0xF0 then 0x90 else 0x80
      upper := if byte = 0xF4 then 0x8F else 0xBF })
  else s.emit replacement

/-- A byte that does not go on with a character ends it, and is read again as the first of the next. -/
def Utf8.step (s : Utf8) (b : UInt8) : List Char × Utf8 :=
  let byte := b.toNat
  if s.needed = 0 then s.lead byte
  else if byte < s.lower ∨ s.upper < byte then
    (replacement :: ((Utf8.initial true).lead byte).1, ((Utf8.initial true).lead byte).2)
  else
    let codePoint := s.codePoint * 0x40 + byte % 0x40
    if s.needed = 1 then s.emit (Char.ofNat codePoint)
    else ([], { s with codePoint, needed := s.needed - 1, lower := 0x80, upper := 0xBF })

def utf8 : StreamDecoder UInt8 Char := ofStep Utf8.step (.initial false)

/-! ## Lines -/

theorem splitOn_append {α : Type} [BEq α] [LawfulBEq α] (sep : α) (xs ys : List α) :
    (xs ++ ys).splitOn sep =
      (xs.splitOn sep).dropLast ++ (((xs.splitOn sep).getLast?).getD [] ++ ys).splitOn sep := by
  induction xs with
  | nil => simp
  | cons x xs ih =>
    rw [List.cons_append, List.splitOn_cons_eq_if_modifyHead, List.splitOn_cons_eq_if_modifyHead, ih]
    obtain ⟨piece, pieces, hpieces⟩ := List.exists_cons_of_ne_nil (List.splitOn_ne_nil sep xs)
    rw [hpieces]
    split
    · simp
    · rename_i hx
      cases pieces with
      | nil => simp [List.splitOn_cons_eq_if_modifyHead, hx]
      | cons next pieces => simp

end Lib
