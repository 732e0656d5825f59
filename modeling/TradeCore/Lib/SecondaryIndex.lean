import TradeCore.Lib.Table

/-!
# TradeCore.Lib.SecondaryIndex

A table of rows and a second map beside it, from a column `group` of the rows to the keys of the rows
that have the value there. The map has no entry for a value that no row has.

`GroupedBy key group index t` says that the index is that map. There is one rule for each way to
change the two together: a new row (`GroupedBy.append`), one row out (`GroupedBy.remove`), and all
rows of a group out (`GroupedBy.removeGroup`).
-/

namespace Lib

section SecondaryIndex

variable {κ γ α : Type}

/-- An index entry with these keys, or none when there are no keys. -/
def entryOf (g : γ) : List κ → Option (γ × List κ)
  | [] => none
  | k :: ks => some (g, k :: ks)

theorem entryOf_of_ne_nil {g : γ} {ks : List κ} (h : ks ≠ []) : entryOf g ks = some (g, ks) := by
  cases ks with
  | nil => exact absurd rfl h
  | cons k ks => rfl

theorem entryOf_eq_some {g : γ} {ks : List κ} {e : γ × List κ} :
    entryOf g ks = some e ↔ ks ≠ [] ∧ e = (g, ks) := by
  cases ks with
  | nil => simp [entryOf]
  | cons k ks => simp [entryOf, eq_comm]

variable [DecidableEq γ] (key : α → κ) (group : α → γ)

def keysOf (g : γ) (t : List α) : List κ := (t.filter fun r => group r = g).map key

structure GroupedBy (index : List (γ × List κ)) (t : List α) : Prop where
  rows : (t.map key).Nodup
  groups : (index.map Prod.fst).Nodup
  entry : ∀ g, lookup Prod.fst g index = entryOf g (keysOf key group g t)

variable {key group}

theorem mem_keysOf {g : γ} {k : κ} {t : List α} :
    k ∈ keysOf key group g t ↔ ∃ r ∈ t, group r = g ∧ key r = k := by
  simp [keysOf, and_assoc]

theorem nodup_keysOf {g : γ} {t : List α} (h : (t.map key).Nodup) : (keysOf key group g t).Nodup :=
  h.sublist ((List.filter_sublist).map key)

theorem keysOf_append (g : γ) (t : List α) (r : α) :
    keysOf key group g (t ++ [r]) =
      if group r = g then keysOf key group g t ++ [key r] else keysOf key group g t := by
  by_cases h : group r = g <;> simp [keysOf, List.filter_append, h]

/-- The rows left when the keys of one group are gone. -/
theorem keysOf_filter_group (g g' : γ) (t : List α) :
    keysOf key group g (t.filter fun r => group r ≠ g') =
      if g = g' then [] else keysOf key group g t := by
  rw [keysOf, List.filter_filter]
  split
  · rename_i h
    subst h
    simp
  · rename_i h
    rw [keysOf]
    congr 2
    funext r
    by_cases hr : group r = g
    · simp [hr, h]
    · simp [hr]

section DeleteKey

variable [DecidableEq κ]

variable (key) in
/-- `Map.delete`: the rows with another key. -/
def deleteKey (k : κ) (t : List α) : List α := t.filter fun r => key r ≠ k

theorem lookup_deleteKey (k k' : κ) (t : List α) :
    lookup key k (deleteKey key k' t) = if k = k' then none else lookup key k t := by
  induction t with
  | nil => simp [deleteKey, lookup]
  | cons x xs ih =>
    simp only [deleteKey, lookup, List.filter_cons] at ih ⊢
    by_cases hx : key x = k'
    · by_cases hk : k = k'
      · simp [hx, hk]
      · simpa [hx, hk, Ne.symm hk] using ih
    · by_cases hk : key x = k
      · have hne : k ≠ k' := fun e => hx (hk.trans e)
        simp [hk, hne]
      · simpa [hx, hk] using ih

theorem nodup_deleteKey {k : κ} {t : List α} (h : (t.map key).Nodup) : ((deleteKey key k t).map key).Nodup :=
  h.sublist ((List.filter_sublist).map key)

theorem mem_deleteKey {k : κ} {r : α} {t : List α} : r ∈ deleteKey key k t ↔ r ∈ t ∧ key r ≠ k := by
  simp [deleteKey]

theorem keysOf_deleteKey (g : γ) (k : κ) (t : List α) :
    keysOf key group g (deleteKey key k t) = (keysOf key group g t).filter (· ≠ k) := by
  rw [keysOf, keysOf, deleteKey, List.filter_filter, List.filter_map, List.filter_filter]
  congr 2
  funext r
  simp [Bool.and_comm]

end DeleteKey

namespace GroupedBy

variable {index : List (γ × List κ)} {t : List α}

theorem nil : GroupedBy key group ([] : List (γ × List κ)) [] :=
  ⟨List.nodup_nil, List.nodup_nil, fun _ => rfl⟩

/-- The keys that the index has for a group, `[]` when it has none. -/
theorem keys (h : GroupedBy key group index t) (g : γ) :
    ((lookup Prod.fst g index).map Prod.snd).getD [] = keysOf key group g t := by
  rw [h.entry g]
  cases keysOf key group g t <;> rfl

theorem of_mem (h : GroupedBy key group index t) {e : γ × List κ} (he : e ∈ index) :
    e.2 ≠ [] ∧ e.2 = keysOf key group e.1 t := by
  have hl := lookup_of_mem h.groups he
  rw [h.entry, entryOf_eq_some] at hl
  exact ⟨by rw [congrArg Prod.snd hl.2]; exact hl.1, congrArg Prod.snd hl.2⟩

theorem append (h : GroupedBy key group index t) {r : α} (hr : key r ∉ t.map key) :
    GroupedBy key group (upsert Prod.fst (group r, keysOf key group (group r) t ++ [key r]) index)
      (t ++ [r]) := by
  refine ⟨?_, nodup_upsert h.groups, fun g => ?_⟩
  · rw [List.map_append, List.map_singleton]
    exact List.nodup_append.mpr ⟨h.rows, List.nodup_singleton _, by
      rintro k hk k' hk' rfl
      rw [List.mem_singleton] at hk'
      exact hr (hk' ▸ hk)⟩
  · rw [lookup_upsert, keysOf_append]
    by_cases hg : group r = g
    · subst hg
      rw [if_pos rfl, if_pos rfl, entryOf_of_ne_nil (by simp)]
    · rw [if_neg hg, if_neg hg, h.entry g]

theorem removeGroup (h : GroupedBy key group index t) (g : γ) :
    GroupedBy key group (deleteKey Prod.fst g index) (t.filter fun r => group r ≠ g) := by
  refine ⟨h.rows.sublist ((List.filter_sublist).map key), nodup_deleteKey h.groups, fun g' => ?_⟩
  rw [lookup_deleteKey, keysOf_filter_group]
  split
  · rfl
  · exact h.entry g'

variable [DecidableEq κ]

/-- The index after one row is out: its key leaves its group, and the group with its last key. -/
theorem remove (h : GroupedBy key group index t) {r : α} (hr : r ∈ t) :
    GroupedBy key group
      (if (keysOf key group (group r) t).filter (· ≠ key r) = [] then
          deleteKey Prod.fst (group r) index
        else upsert Prod.fst (group r, (keysOf key group (group r) t).filter (· ≠ key r)) index)
      (deleteKey key (key r) t) := by
  have hother : ∀ g, group r ≠ g →
      keysOf key group g (deleteKey key (key r) t) = keysOf key group g t := by
    intro g hg
    rw [keysOf_deleteKey, List.filter_eq_self]
    intro k hk
    obtain ⟨x, hx, hxg, hxk⟩ := mem_keysOf.mp hk
    have hne : k ≠ key r := by
      rintro rfl
      have hlx := lookup_of_mem h.rows hx
      rw [hxk, lookup_of_mem h.rows hr] at hlx
      exact hg (Option.some.inj hlx ▸ hxg)
    simpa using hne
  refine ⟨nodup_deleteKey h.rows, ?_, fun g => ?_⟩
  · split
    · exact nodup_deleteKey h.groups
    · exact nodup_upsert h.groups
  · by_cases hg : group r = g
    · subst hg
      rw [keysOf_deleteKey]
      split
      · rename_i he
        rw [lookup_deleteKey, if_pos rfl, he, entryOf]
      · rename_i hne
        rw [lookup_upsert, if_pos rfl, entryOf_of_ne_nil hne]
    · rw [hother g hg, ← h.entry g]
      split
      · rw [lookup_deleteKey, if_neg (Ne.symm hg)]
      · rw [lookup_upsert, if_neg hg]

/-- Taking the keys of a group out one by one leaves the rows of the other groups. -/
theorem foldl_deleteKey (h : (t.map key).Nodup) (g : γ) :
    (keysOf key group g t).foldl (fun rows k => deleteKey key k rows) t =
      t.filter fun r => group r ≠ g := by
  have hfold : ∀ (ks : List κ) (rows : List α),
      ks.foldl (fun rows k => deleteKey key k rows) rows = rows.filter fun r => key r ∉ ks := by
    intro ks
    induction ks with
    | nil => simp
    | cons k ks ih =>
      intro rows
      rw [List.foldl_cons, ih, deleteKey, List.filter_filter]
      congr 1
      funext r
      simp [Bool.and_comm]
  rw [hfold]
  refine List.filter_congr fun r hr => ?_
  rw [decide_eq_decide, mem_keysOf, not_iff_not]
  constructor
  · rintro ⟨x, hx, hxg, hxk⟩
    have hlx := lookup_of_mem h hx
    rw [hxk, lookup_of_mem h hr] at hlx
    exact Option.some.inj hlx ▸ hxg
  · intro hg
    exact ⟨r, hr, hg, rfl⟩

end GroupedBy

end SecondaryIndex

end Lib
