import Mathlib.Data.List.Basic

/-!
# TradeCore.Lib.Layout

Where the parts of a file stand.

* `At file pos part`  `part` stands in `file` at `pos`.
* `blocks block start count`  the blocks numbered from `start` on, one behind the other.

`at_block` places every block behind the ones before it, and `blocks_length` gives the place where all
blocks have one width.
-/

namespace Lib
namespace Layout

section Layout

variable {α : Type}

def At (file : List α) (pos : Nat) (part : List α) : Prop := part <+: file.drop pos

theorem at_append {file : List α} {pos : Nat} {a b : List α} :
    At file pos (a ++ b) ↔ At file pos a ∧ At file (pos + a.length) b := by
  constructor
  · rintro ⟨rest, hrest⟩
    refine ⟨⟨b ++ rest, by rw [← hrest, List.append_assoc]⟩, ⟨rest, ?_⟩⟩
    rw [← List.drop_drop, ← hrest, List.append_assoc, List.drop_left]
  · rintro ⟨⟨rest, hrest⟩, h⟩
    rw [At, ← List.drop_drop, ← hrest, List.drop_left] at h
    rw [At, ← hrest]
    exact List.prefix_append_right_inj a |>.mpr h

theorem at_embed (before part after : List α) : At (before ++ part ++ after) before.length part := by
  rw [At, List.append_assoc, List.drop_left]
  exact List.prefix_append part after

theorem At.map {β : Type} (f : α → β) {file : List α} {pos : Nat} {part : List α} (h : At file pos part) :
    At (file.map f) pos (part.map f) := by
  rw [At, ← List.map_drop]
  exact List.IsPrefix.map f h

/-- Two parts that go on from one place agree as far as both go. -/
theorem At.agree {file : List α} {pos : Nat} {lead a b : List α} (ha : At file pos (lead ++ a))
    (hb : At file pos (lead ++ b)) : a <+: b ∨ b <+: a :=
  List.prefix_or_prefix_of_prefix (at_append.mp ha).2 (at_append.mp hb).2

theorem At.pos_lt {file : List α} {pos : Nat} {part : List α} (h : At file pos part) (hpart : part ≠ []) :
    pos < file.length := by
  have hlength := List.IsPrefix.length_le h
  have hpos := List.length_pos_of_ne_nil hpart
  rw [List.length_drop] at hlength
  omega

/-! ## Numbered blocks -/

def blocks (block : Nat → List α) (start count : Nat) : List α :=
  (List.range' start count).flatMap block

theorem blocks_succ (block : Nat → List α) (start count : Nat) :
    blocks block start (count + 1) = blocks block start count ++ block (start + count) := by
  rw [blocks, List.range'_concat, List.flatMap_append, Nat.one_mul]
  simp only [List.flatMap_singleton, blocks]

theorem blocks_split {block : Nat → List α} {start i count : Nat} (h : i < count) :
    ∃ after, blocks block start count = blocks block start i ++ block (start + i) ++ after := by
  induction count with
  | zero => exact absurd h (Nat.not_lt_zero i)
  | succ count ih =>
    rw [blocks_succ]
    rcases Nat.lt_succ_iff_lt_or_eq.mp h with hlt | rfl
    · obtain ⟨after, hafter⟩ := ih hlt
      exact ⟨after ++ block (start + count), by rw [hafter, List.append_assoc]⟩
    · exact ⟨[], by rw [List.append_nil]⟩

theorem at_block {block : Nat → List α} {start i count : Nat} (h : i < count) (before after : List α) :
    At (before ++ blocks block start count ++ after)
      (before.length + (blocks block start i).length) (block (start + i)) := by
  obtain ⟨rest, hrest⟩ := @blocks_split α block start i count h
  have hat := at_embed (before ++ blocks block start i) (block (start + i)) (rest ++ after)
  rw [List.length_append] at hat
  rw [hrest]
  simpa only [List.append_assoc] using hat

theorem blocks_length {block : Nat → List α} {width start count : Nat}
    (h : ∀ i, i < count → (block (start + i)).length = width) :
    (blocks block start count).length = width * count := by
  induction count with
  | zero => rfl
  | succ count ih =>
    rw [blocks_succ, List.length_append, ih fun i hi => h i (Nat.lt_succ_of_lt hi),
      h count (Nat.lt_succ_self count), Nat.mul_succ]

theorem blocks_congr {block block' : Nat → List α} {start count : Nat}
    (h : ∀ i, i < count → block (start + i) = block' (start + i)) :
    blocks block start count = blocks block' start count := by
  refine List.flatMap_congr fun n hn => ?_
  obtain ⟨i, hi, rfl⟩ := List.mem_range'.mp hn
  rw [Nat.one_mul]
  exact h i hi

end Layout

end Layout
end Lib
