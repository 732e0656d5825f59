import Mathlib.Data.List.Nodup

/-!
# TradeCore.Lib.Table

Tables of rows with a primary key, as lists. `lookup` is a query by key, `upsert` writes one row
back: it replaces the row with the same key or adds the row at the end. `insertOrIgnore` adds the rows
of a batch whose key is not there yet. A query by another condition is `List.filter`.
-/

namespace Lib

section Table

variable {κ α : Type} [DecidableEq κ] (key : α → κ)

def lookup (k : κ) (t : List α) : Option α := t.find? fun r => key r = k

def upsert (r : α) : List α → List α
  | [] => [r]
  | x :: xs => if key x = key r then r :: xs else x :: upsert r xs

/-- `ON CONFLICT DO NOTHING`: the table with the batch inserted, and the rows that went in. -/
def insertOrIgnore : List α → List α → List α × List α
  | t, [] => (t, [])
  | t, r :: batch =>
    if key r ∈ t.map key then insertOrIgnore t batch
    else
      let (t, inserted) := insertOrIgnore (t ++ [r]) batch
      (t, r :: inserted)

variable {key}

theorem insertOrIgnore_fst (t batch : List α) :
    (insertOrIgnore key t batch).1 = t ++ (insertOrIgnore key t batch).2 := by
  induction batch generalizing t with
  | nil => simp [insertOrIgnore]
  | cons r batch ih =>
    simp only [insertOrIgnore]
    split
    · exact ih t
    · rw [ih (t ++ [r]), List.append_assoc]
      rfl

theorem mem_inserted {t batch : List α} {x : α} (h : x ∈ (insertOrIgnore key t batch).2) :
    x ∈ batch ∧ key x ∉ t.map key := by
  induction batch generalizing t with
  | nil => cases h
  | cons r batch ih =>
    simp only [insertOrIgnore] at h
    split at h
    · exact (ih h).imp (List.mem_cons_of_mem r) id
    · rename_i hnot
      rcases List.mem_cons.mp h with rfl | h
      · exact ⟨List.mem_cons_self, hnot⟩
      · obtain ⟨hin, hfresh⟩ := ih h
        refine ⟨List.mem_cons_of_mem r hin, fun hmem => hfresh ?_⟩
        rw [List.map_append]
        exact List.mem_append_left _ hmem

theorem insertOrIgnore_append (t a b : List α) :
    (insertOrIgnore key t (a ++ b)).1 =
      (insertOrIgnore key (insertOrIgnore key t a).1 b).1 := by
  induction a generalizing t with
  | nil => rfl
  | cons r a ih =>
    simp only [List.cons_append, insertOrIgnore]
    split <;> exact ih _

/-- A row goes in if it is the first of the batch with its key and the table has no such row. -/
theorem mem_insertOrIgnore_iff {t batch : List α} {x : α} :
    x ∈ (insertOrIgnore key t batch).1 ↔
      x ∈ t ∨ key x ∉ t.map key ∧ (batch.find? fun r => key r = key x) = some x := by
  induction batch generalizing t with
  | nil => simp [insertOrIgnore]
  | cons r batch ih =>
    simp only [insertOrIgnore]
    by_cases hr : key r = key x
    · by_cases hold : key r ∈ t.map key
      · rw [if_pos hold, ih]
        simp [hr ▸ hold]
      · rw [if_neg hold, ih]
        simp [hr, hr ▸ hold, eq_comm]
    · split
      · rw [ih, List.find?_cons_of_neg (by simpa using hr)]
      · rw [ih, List.find?_cons_of_neg (by simpa using hr)]
        have hne : x ≠ r := fun h => hr (congrArg key h).symm
        simp [hne, Ne.symm hr]

theorem nodup_insertOrIgnore {t batch : List α} (h : (t.map key).Nodup) :
    ((insertOrIgnore key t batch).1.map key).Nodup := by
  induction batch generalizing t with
  | nil => exact h
  | cons r batch ih =>
    simp only [insertOrIgnore]
    split
    · exact ih h
    · rename_i hnew
      refine ih ?_
      rw [List.map_append, List.map_singleton, ← List.concat_eq_append]
      exact h.concat hnew

theorem lookup_key {k : κ} {t : List α} {r : α} (h : lookup key k t = some r) : key r = k := by
  simpa using List.find?_some h

theorem mem_of_lookup {k : κ} {t : List α} {r : α} (h : lookup key k t = some r) : r ∈ t :=
  List.mem_of_find?_eq_some h

theorem lookup_upsert (r : α) (k : κ) (t : List α) :
    lookup key k (upsert key r t) = if key r = k then some r else lookup key k t := by
  induction t with
  | nil => by_cases h : key r = k <;> simp [upsert, lookup, h]
  | cons x xs ih =>
    simp only [upsert]
    by_cases hx : key x = key r
    · by_cases h : key r = k <;> simp [lookup, hx, h]
    · simp only [if_neg hx, lookup, List.find?_cons] at ih ⊢
      by_cases hxk : key x = k
      · have : key r ≠ k := fun e => hx (hxk.trans e.symm)
        simp [hxk, this]
      · simp [hxk, ih]

theorem mem_upsert {r x : α} {t : List α} (h : x ∈ upsert key r t) : x = r ∨ x ∈ t := by
  induction t with
  | nil => simpa [upsert] using h
  | cons y ys ih =>
    simp only [upsert] at h
    split at h
    · rcases List.mem_cons.mp h with rfl | h
      · exact .inl rfl
      · exact .inr (List.mem_cons_of_mem _ h)
    · rcases List.mem_cons.mp h with rfl | h
      · exact .inr List.mem_cons_self
      · exact (ih h).imp id (List.mem_cons_of_mem _)

theorem mem_upsert_self (r : α) (t : List α) : r ∈ upsert key r t := by
  induction t with
  | nil => exact List.mem_singleton.mpr rfl
  | cons x xs ih =>
    simp only [upsert]
    split
    · exact List.mem_cons_self
    · exact List.mem_cons_of_mem _ ih

theorem upsert_ne_nil (r : α) (t : List α) : upsert key r t ≠ [] :=
  List.ne_nil_of_mem (mem_upsert_self r t)

/-- A write leaves the rows with other keys. -/
theorem mem_upsert_of_ne {r x : α} {t : List α} (hx : x ∈ t) (hne : key x ≠ key r) :
    x ∈ upsert key r t := by
  induction t with
  | nil => cases hx
  | cons y ys ih =>
    simp only [upsert]
    rcases List.mem_cons.mp hx with rfl | hx
    · rw [if_neg hne]
      exact List.mem_cons_self
    · split
      · exact List.mem_cons_of_mem _ hx
      · exact List.mem_cons_of_mem _ (ih hx)

/-- A write replaces the row a query by its key finds, and no other. -/
theorem mem_upsert_of_lookup {r x y : α} {t : List α} (hy : lookup key (key r) t = some y) (hx : x ∈ t) :
    x = y ∨ x ∈ upsert key r t := by
  induction t with
  | nil => cases hx
  | cons z zs ih =>
    simp only [upsert]
    by_cases hz : key z = key r
    · obtain rfl : z = y := by simpa [lookup, hz] using hy
      rw [if_pos hz]
      exact (List.mem_cons.mp hx).imp id (List.mem_cons_of_mem _)
    · rw [if_neg hz]
      have hy' : lookup key (key r) zs = some y := by simpa [lookup, hz] using hy
      rcases List.mem_cons.mp hx with rfl | hx
      · exact .inr List.mem_cons_self
      · exact (ih hy' hx).imp id (List.mem_cons_of_mem _)

/-- A row with a key of its own goes to the end. -/
theorem upsert_of_not_mem {r : α} {t : List α} (h : key r ∉ t.map key) : upsert key r t = t ++ [r] := by
  induction t with
  | nil => rfl
  | cons x xs ih =>
    simp only [List.map_cons, List.mem_cons, not_or] at h
    rw [upsert, if_neg (Ne.symm h.1), ih h.2]
    rfl

theorem length_upsert_of_mem {r : α} {t : List α} (h : key r ∈ t.map key) :
    (upsert key r t).length = t.length := by
  induction t with
  | nil => cases h
  | cons x xs ih =>
    simp only [upsert]
    split
    · rfl
    · rename_i hx
      rw [List.map_cons, List.mem_cons] at h
      rw [List.length_cons, List.length_cons, ih (h.resolve_left fun e => hx e.symm)]

theorem nodup_upsert {r : α} {t : List α} (h : (t.map key).Nodup) :
    ((upsert key r t).map key).Nodup := by
  induction t with
  | nil => simp [upsert]
  | cons x xs ih =>
    simp only [List.map_cons, List.nodup_cons] at h
    simp only [upsert]
    by_cases hx : key x = key r
    · rw [if_pos hx]
      simpa [← hx] using h
    · rw [if_neg hx, List.map_cons, List.nodup_cons]
      refine ⟨fun hm => ?_, ih h.2⟩
      obtain ⟨y, hy, hyk⟩ := List.mem_map.mp hm
      rcases mem_upsert hy with rfl | hy
      · exact hx hyk.symm
      · exact h.1 (List.mem_map.mpr ⟨y, hy, hyk⟩)

/-- In a table without duplicate keys a row is what a query by its key returns. -/
theorem lookup_of_mem {t : List α} (h : (t.map key).Nodup) {r : α} (hr : r ∈ t) :
    lookup key (key r) t = some r := by
  induction t with
  | nil => cases hr
  | cons x xs ih =>
    simp only [List.map_cons, List.nodup_cons] at h
    rcases List.mem_cons.mp hr with rfl | hr
    · simp [lookup]
    · have hne : key x ≠ key r := fun e => h.1 (List.mem_map.mpr ⟨r, hr, e.symm⟩)
      have := ih h.2 hr
      simpa [lookup, hne] using this

/-- After a write, the rows with other keys are those that were there. -/
theorem mem_upsert_cases {t : List α} (h : (t.map key).Nodup) {r x : α} (hx : x ∈ upsert key r t) :
    x = r ∨ x ∈ t ∧ key x ≠ key r := by
  by_cases hk : key x = key r
  · have hnew := lookup_of_mem (nodup_upsert (r := r) h) hx
    rw [lookup_upsert, if_pos hk.symm] at hnew
    exact .inl (Option.some.inj hnew).symm
  · refine (mem_upsert hx).imp id fun hin => ⟨hin, hk⟩

/-- A write that replaces a row and leaves what `f` sees of it. -/
theorem map_upsert {β : Type} {f : α → β} {r : α} {t : List α} (hin : key r ∈ t.map key)
    (hf : ∀ x ∈ t, key x = key r → f x = f r) : (upsert key r t).map f = t.map f := by
  induction t with
  | nil => cases hin
  | cons x xs ih =>
    simp only [upsert]
    split
    · rename_i hx
      simp [hf x (by simp) hx]
    · rename_i hx
      have hin : key r ∈ xs.map key := by
        rcases List.mem_cons.mp hin with h | h
        · exact absurd h.symm hx
        · exact h
      rw [List.map_cons, List.map_cons, ih hin fun y hy => hf y (by simp [hy])]

theorem countP_le_upsert {p : α → Bool} {r : α} (hr : p r = true) (t : List α) :
    t.countP p ≤ (upsert key r t).countP p := by
  induction t with
  | nil => simp
  | cons x xs ih =>
    simp only [upsert]
    split
    · rw [List.countP_cons, List.countP_cons_of_pos hr]
      split <;> omega
    · rw [List.countP_cons, List.countP_cons]
      omega

theorem countP_upsert_le {p : α → Bool} {r : α} (hr : p r = false) (t : List α) :
    (upsert key r t).countP p ≤ t.countP p := by
  induction t with
  | nil => simp [upsert, hr]
  | cons x xs ih =>
    simp only [upsert]
    split
    · rw [List.countP_cons_of_neg (a := r) (by simp [hr]), List.countP_cons]
      omega
    · rw [List.countP_cons, List.countP_cons]
      omega

/-- A second write of a row replaces the first. -/
theorem upsert_upsert {r r' : α} (hk : key r' = key r) (t : List α) :
    upsert key r' (upsert key r t) = upsert key r' t := by
  induction t with
  | nil => simp [upsert, hk]
  | cons x xs ih =>
    by_cases hx : key x = key r
    · simp [upsert, hx, hk]
    · simp [upsert, hx, hk, ih]

/-- How a count moves when one row is replaced. -/
theorem countP_upsert {p : α → Bool} {r x : α} {t : List α} (h : (t.map key).Nodup)
    (hx : lookup key (key r) t = some x) :
    (upsert key r t).countP p + (if p x then 1 else 0) = t.countP p + (if p r then 1 else 0) := by
  induction t with
  | nil => cases hx
  | cons y ys ih =>
    simp only [List.map_cons, List.nodup_cons] at h
    by_cases hy : key y = key r
    · have hyx : y = x := by simpa [lookup, hy] using hx
      rw [upsert, if_pos hy, List.countP_cons, List.countP_cons, hyx]
      omega
    · have hx' : lookup key (key r) ys = some x := by simpa [lookup, hy] using hx
      rw [upsert, if_neg hy, List.countP_cons, List.countP_cons]
      have := ih h.2 hx'
      omega

/-- A write on rows that `p` does not see. -/
theorem countP_upsert_eq {p : α → Bool} {r : α} (hp : ∀ x, key x = key r → p x = false)
    (t : List α) : (upsert key r t).countP p = t.countP p := by
  induction t with
  | nil => simp [upsert, hp r rfl]
  | cons x xs ih =>
    simp only [upsert]
    split
    · rename_i hx
      rw [List.countP_cons_of_neg (by simp [hp r rfl]), List.countP_cons_of_neg (by simp [hp x hx])]
    · rw [List.countP_cons, List.countP_cons, ih]

end Table

section Live

variable {α : Type}

/-- What an update rewrites is no longer live: the live rows are those it left alone. -/
theorem filter_update {live p : α → Bool} {f : α → α} (hdead : ∀ t, p t = true → live (f t) = false)
    (hkeep : ∀ t, p t = false → f t = t) (rows : List α) :
    (rows.map f).filter live = (rows.filter live).filter fun t => !p t := by
  induction rows with
  | nil => rfl
  | cons t rows ih =>
    cases hp : p t with
    | true => cases hl : live t <;> simp [hdead t hp, hp, hl, ih]
    | false => cases hl : live t <;> simp [hkeep t hp, hp, hl, ih]

/-- A query for live rows. -/
theorem find?_of_live {live q : α → Bool} {rows rows' : List α}
    (h : rows.filter live = rows'.filter live) (hq : ∀ t, q t = true → live t = true) :
    rows.find? q = rows'.find? q := by
  have hboth : ∀ rows : List α, (rows.filter live).find? q = rows.find? q := by
    intro rows
    rw [List.find?_filter]
    congr 1
    funext t
    cases hqt : q t with
    | true => simp [hq t hqt]
    | false => simp
  rw [← hboth rows, h, hboth]

theorem filter_filter_of_imp {p q : α → Bool} (h : ∀ t, p t = true → q t = true)
    (rows : List α) : (rows.filter q).filter p = rows.filter p := by
  rw [List.filter_filter]
  refine List.filter_congr fun t _ => ?_
  cases hp : p t with
  | true => simp [h t hp]
  | false => simp

end Live

end Lib
