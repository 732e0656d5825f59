import Mathlib.Data.List.Basic
import Mathlib.Data.List.TakeWhile

/-!
# TradeCore.Lib.Template

Texts with placeholders: a key of word letters between two opening and two closing delimiters. A text is
scanned from the left; a placeholder that starts at a position is taken whole, and where none starts
the letter stands for itself.

* `segments_iff`  the scan is the one decomposition of the text whose letters start no placeholder.
* `render_text`   the placeholders of a text with no other opening delimiter are found as written.
* `render_render` filling in two steps is filling in one, when the values of the first step have no
  opening delimiter.
-/

namespace Lib
namespace Template

variable {α : Type} [DecidableEq α]

/-- Word letters and the two delimiters, which are none. -/
structure Marks (α : Type) where
  word : α → Bool
  opening : α
  closing : α
  opening_word : word opening = false
  closing_word : word closing = false

inductive Segment (α : Type) where
  | letter (x : α)
  | hole (key : List α)
  deriving DecidableEq

variable (M : Marks α)

/-- The text of a placeholder. -/
def Marks.hole (key : List α) : List α := M.opening :: M.opening :: key ++ [M.closing, M.closing]

/-- The key of the placeholder a text starts with, and the rest of the text. -/
def placeholder : List α → Option (List α × List α)
  | o :: o' :: cs =>
    match cs.dropWhile M.word with
    | c :: c' :: rest =>
      if o = M.opening ∧ o' = M.opening ∧ cs.takeWhile M.word ≠ [] ∧ c = M.closing ∧ c' = M.closing then
        some (cs.takeWhile M.word, rest)
      else none
    | _ => none
  | _ => none

def IsKey (key : List α) : Prop := key ≠ [] ∧ ∀ x ∈ key, M.word x = true

variable {M}

theorem placeholder_eq_some {cs key rest : List α} :
    placeholder M cs = some (key, rest) ↔ IsKey M key ∧ cs = M.hole key ++ rest := by
  constructor
  · intro h
    unfold placeholder at h
    split at h
    · rename_i o o' cs
      split at h
      · rename_i c c' rest' hdrop
        split at h
        · rename_i hmarks
          obtain ⟨rfl, rfl, hkey, rfl, rfl⟩ := hmarks
          simp only [Option.some.injEq, Prod.mk.injEq] at h
          obtain ⟨rfl, rfl⟩ := h
          refine ⟨⟨hkey, fun x hx => List.mem_takeWhile_imp hx⟩, ?_⟩
          have := List.takeWhile_append_dropWhile (p := M.word) (l := cs)
          rw [hdrop] at this
          simp only [Marks.hole, List.cons_append, List.append_assoc, List.nil_append]
          rw [this]
        · cases h
      · cases h
    · cases h
  · rintro ⟨⟨hne, hword⟩, rfl⟩
    have htake : (key ++ M.closing :: M.closing :: rest).takeWhile M.word = key := by
      rw [List.takeWhile_append_of_pos hword, List.takeWhile_cons, M.closing_word]
      simp
    have hdrop : (key ++ M.closing :: M.closing :: rest).dropWhile M.word =
        M.closing :: M.closing :: rest := by
      rw [List.dropWhile_append_of_pos hword, List.dropWhile_cons, M.closing_word]
      simp
    simp [Marks.hole, placeholder, htake, hdrop, hne]

theorem length_of_placeholder {cs key rest : List α} (h : placeholder M cs = some (key, rest)) :
    rest.length < cs.length := by
  obtain ⟨-, rfl⟩ := placeholder_eq_some.mp h
  simp [Marks.hole]
  omega

variable (M)

def segments (cs : List α) : List (Segment α) :=
  match _ : placeholder M cs with
  | some (key, rest) => .hole key :: segments rest
  | none =>
    match cs with
    | [] => []
    | x :: cs => .letter x :: segments cs
termination_by cs.length
decreasing_by
  · exact length_of_placeholder ‹_›
  · exact Nat.lt_succ_self _

def Segment.text : Segment α → List α
  | .letter x => [x]
  | .hole key => M.hole key

def textOf (s : List (Segment α)) : List α := s.flatMap (Segment.text M)

/-- A segment with its placeholder filled in; one without a value stays. -/
def Segment.fill (f : List α → Option (List α)) : Segment α → List α
  | .letter x => [x]
  | .hole key => (f key).getD (M.hole key)

def render (f : List α → Option (List α)) (cs : List α) : List α := (segments M cs).flatMap (Segment.fill M f)

/-- The keys are of word letters, and no letter starts a placeholder. -/
def Leftmost : List (Segment α) → Prop
  | [] => True
  | .letter x :: s => placeholder M (x :: textOf M s) = none ∧ Leftmost s
  | .hole key :: s => IsKey M key ∧ Leftmost s

/-- The keys are of word letters, and no letter is an opening delimiter. -/
def Plain (s : List (Segment α)) : Prop :=
  ∀ x ∈ s, match x with
    | .letter x => x ≠ M.opening
    | .hole key => IsKey M key

variable {M}

theorem segments_hole {cs key rest : List α} (h : placeholder M cs = some (key, rest)) :
    segments M cs = .hole key :: segments M rest := by
  rw [segments]
  split
  · rename_i key' rest' h'
    rw [h] at h'
    cases h'
    rfl
  · rename_i h'
    rw [h] at h'
    cases h'

theorem segments_letter {x : α} {cs : List α} (h : placeholder M (x :: cs) = none) :
    segments M (x :: cs) = .letter x :: segments M cs := by
  rw [segments]
  split
  · rename_i key' rest' h'
    rw [h] at h'
    cases h'
  · rfl

theorem segments_nil : segments M ([] : List α) = [] := by
  rw [segments]
  split
  · rename_i h
    cases h
  · rfl

/-- The scan loses nothing. -/
theorem textOf_segments (cs : List α) : textOf M (segments M cs) = cs := by
  induction cs using segments.induct M with
  | case1 cs key rest h ih =>
    obtain ⟨-, rfl⟩ := placeholder_eq_some.mp h
    rw [segments_hole h, textOf, List.flatMap_cons]
    exact congrArg (M.hole key ++ ·) ih
  | case2 => rw [segments_nil]; rfl
  | case3 x cs h ih =>
    rw [segments_letter h, textOf, List.flatMap_cons]
    exact congrArg (x :: ·) ih

theorem leftmost_segments (cs : List α) : Leftmost M (segments M cs) := by
  induction cs using segments.induct M with
  | case1 cs key rest h ih =>
    rw [segments_hole h]
    exact ⟨(placeholder_eq_some.mp h).1, ih⟩
  | case2 => rw [segments_nil]; trivial
  | case3 x cs h ih =>
    rw [segments_letter h]
    refine ⟨?_, ih⟩
    rw [textOf_segments]
    exact h

theorem segments_textOf {s : List (Segment α)} (h : Leftmost M s) : segments M (textOf M s) = s := by
  induction s with
  | nil => exact segments_nil
  | cons x s ih =>
    cases x with
    | letter x => exact (segments_letter h.1).trans (congrArg _ (ih h.2))
    | hole key =>
      have hp : placeholder M (textOf M (.hole key :: s)) = some (key, textOf M s) :=
        placeholder_eq_some.mpr ⟨h.1, rfl⟩
      rw [segments_hole hp, ih h.2]

/-- The scan is the only decomposition in which every placeholder is taken from the left. -/
theorem segments_iff {cs : List α} {s : List (Segment α)} :
    segments M cs = s ↔ textOf M s = cs ∧ Leftmost M s := by
  constructor
  · rintro rfl
    exact ⟨textOf_segments cs, leftmost_segments cs⟩
  · rintro ⟨rfl, h⟩
    exact segments_textOf h

theorem placeholder_letter {x : α} (h : x ≠ M.opening) (cs : List α) : placeholder M (x :: cs) = none := by
  cases hp : placeholder M (x :: cs) with
  | none => rfl
  | some p =>
    obtain ⟨key, rest⟩ := p
    obtain ⟨-, he⟩ := placeholder_eq_some.mp hp
    exact absurd (List.cons.inj he).1 h

theorem Plain.leftmost {s : List (Segment α)} (h : Plain M s) : Leftmost M s := by
  induction s with
  | nil => trivial
  | cons x s ih =>
    have ih := ih fun y hy => h y (.tail _ hy)
    have hx := h x (.head _)
    cases x with
    | letter x => exact ⟨placeholder_letter hx _, ih⟩
    | hole key => exact ⟨hx, ih⟩

theorem render_text {s : List (Segment α)} (h : Plain M s) (f : List α → Option (List α)) :
    render M f (textOf M s) = s.flatMap (Segment.fill M f) := by
  rw [render, segments_textOf h.leftmost]

/-- The segments of a text that is filled in, the letters of the values among them. -/
def Segment.filled (f : List α → Option (List α)) : Segment α → List (Segment α)
  | .letter x => [.letter x]
  | .hole key => (f key).elim [.hole key] fun v => v.map .letter

omit [DecidableEq α] in
theorem textOf_letters (v : List α) : textOf M (v.map .letter) = v := by
  induction v with
  | nil => rfl
  | cons x v ih => exact congrArg (x :: ·) ih

omit [DecidableEq α] in
theorem fill_letters (f : List α → Option (List α)) (v : List α) :
    (v.map .letter).flatMap (Segment.fill M f) = v := by
  induction v with
  | nil => rfl
  | cons x v ih => exact congrArg (x :: ·) ih

omit [DecidableEq α] in
theorem textOf_filled (f : List α → Option (List α)) (s : List (Segment α)) :
    textOf M (s.flatMap (Segment.filled f)) = s.flatMap (Segment.fill M f) := by
  rw [textOf, List.flatMap_assoc]
  refine List.flatMap_congr fun x _ => ?_
  cases x with
  | letter x => rfl
  | hole key =>
    cases hf : f key with
    | none => simp [Segment.filled, Segment.fill, Segment.text, hf]
    | some v =>
      have := textOf_letters (M := M) v
      simpa [Segment.filled, Segment.fill, hf, textOf] using this

omit [DecidableEq α] in
theorem Plain.filled {s : List (Segment α)} (h : Plain M s) {f : List α → Option (List α)}
    (hf : ∀ key v, f key = some v → M.opening ∉ v) : Plain M (s.flatMap (Segment.filled f)) := by
  intro y hy
  obtain ⟨x, hx, hy⟩ := List.mem_flatMap.mp hy
  have hx := h x hx
  cases x with
  | letter x =>
    rw [List.mem_singleton.mp hy]
    exact hx
  | hole key =>
    cases hk : f key with
    | none =>
      rw [Segment.filled, hk, Option.elim_none, List.mem_singleton] at hy
      rw [hy]
      exact hx
    | some v =>
      rw [Segment.filled, hk, Option.elim_some] at hy
      obtain ⟨z, hz, rfl⟩ := List.mem_map.mp hy
      exact fun he => hf key v hk (he ▸ hz)

theorem render_render {s : List (Segment α)} (h : Plain M s) {f g : List α → Option (List α)}
    (hf : ∀ key v, f key = some v → M.opening ∉ v) :
    render M g (render M f (textOf M s)) = render M (fun key => (f key).or (g key)) (textOf M s) := by
  rw [render_text h, ← textOf_filled, render_text (h.filled hf), render_text h, List.flatMap_assoc]
  refine List.flatMap_congr fun x _ => ?_
  cases x with
  | letter x => rfl
  | hole key =>
    cases hk : f key with
    | none => simp [Segment.filled, Segment.fill, hk]
    | some v => simp [Segment.filled, Segment.fill, hk, fill_letters]

end Template
end Lib
