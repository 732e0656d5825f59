import Mathlib.Algebra.BigOperators.Group.List.Basic
import Mathlib.Data.List.Induction
import Mathlib.Data.List.ProdSigma

/-!
# TradeCore.Lib.KeyedFold

A list folded into a map by key, one entry for each key in the order in which the keys come up. The
first element of a key makes its entry, `first x`; every later one updates it, `next b x`.

* `lookup_groupFold`   the entry of a key is the fold of the elements that have it.
* `sum_groupFold`      what each element adds to its entry adds up over the map; `sumsByKey` is the map of
  the sums themselves.
* `flatMap_pairs_groups` the pairs within the groups are the pairs of one key; `flatMap_orient_groups`
  takes them in the order of a relation.
* `pairwise_groupFold` the keys of a list sorted by key come strictly increasing.
* `groupFold_rollUp`   a sorted list folded by a fine key, and the entries folded by a coarser one, is
  the list folded by the coarse key.
-/

namespace Lib

section KeyedFold

variable {κ α β : Type} [DecidableEq κ] (first : α → β) (next : β → α → β)

/-- `map.set(k, …)`: the entry of `k` is updated with `x`, or made of it at the end. -/
def putKey (k : κ) (x : α) : List (κ × β) → List (κ × β)
  | [] => [(k, first x)]
  | (k', b) :: m => if k' = k then (k', next b x) :: m else (k', b) :: putKey k x m

variable (key : α → κ)

def groupFold (xs : List α) : List (κ × β) := xs.foldl (fun m x => putKey first next (key x) x m) []

/-- The elements by key: the first of each, and the others after it. -/
def groups (xs : List α) : List (κ × α × List α) :=
  groupFold (fun x => (x, [])) (fun g x => (g.1, g.2 ++ [x])) key xs

/-- One entry, made of all the elements of its key. -/
def foldEntry : List α → Option β
  | [] => none
  | x :: xs => some (xs.foldl next (first x))

variable {first next key}

theorem groupFold_append (xs : List α) (x : α) :
    groupFold first next key (xs ++ [x]) = putKey first next (key x) x (groupFold first next key xs) := by
  simp [groupFold]

theorem foldEntry_append (xs : List α) (x : α) :
    foldEntry first next (xs ++ [x]) =
      some (match foldEntry first next xs with
        | none => first x
        | some b => next b x) := by
  cases xs with
  | nil => rfl
  | cons y ys => simp [foldEntry]

theorem mem_keys_putKey {k k' : κ} {x : α} {m : List (κ × β)} :
    k' ∈ (putKey first next k x m).map Prod.fst ↔ k' = k ∨ k' ∈ m.map Prod.fst := by
  induction m with
  | nil => simp [putKey]
  | cons e m ih =>
    obtain ⟨k1, b⟩ := e
    simp only [putKey]
    split
    · rename_i h
      subst h
      simp
    · rw [List.map_cons, List.mem_cons, ih, List.map_cons, List.mem_cons, or_left_comm]

theorem nodup_putKey {k : κ} {x : α} {m : List (κ × β)} (h : (m.map Prod.fst).Nodup) :
    ((putKey first next k x m).map Prod.fst).Nodup := by
  induction m with
  | nil => simp [putKey]
  | cons e m ih =>
    obtain ⟨k1, b⟩ := e
    simp only [List.map_cons, List.nodup_cons] at h
    simp only [putKey]
    split
    · simpa using h
    · rename_i hne
      rw [List.map_cons, List.nodup_cons, mem_keys_putKey]
      exact ⟨fun hmem => hmem.elim hne h.1, ih h.2⟩

theorem lookup_putKey (k k' : κ) (x : α) (m : List (κ × β)) :
    (putKey first next k x m).lookup k' =
      if k' = k then some (match m.lookup k with
        | none => first x
        | some b => next b x)
      else m.lookup k' := by
  induction m with
  | nil =>
    by_cases h : k' = k
    · simp [putKey, h]
    · have : (k' == k) = false := by simpa using h
      simp [putKey, List.lookup_cons, h, this]
  | cons e m ih =>
    obtain ⟨k1, b⟩ := e
    simp only [putKey]
    by_cases h1 : k1 = k
    · subst h1
      rw [if_pos rfl]
      by_cases h : k' = k1
      · simp [h]
      · have : (k' == k1) = false := by simpa using h
        simp [List.lookup_cons, h, this]
    · rw [if_neg h1]
      have hk1 : (k == k1) = false := by simpa using Ne.symm h1
      by_cases h' : k' = k1
      · have hne : k' ≠ k := fun e => h1 (h'.symm.trans e)
        subst h'
        simp [hne]
      · have : (k' == k1) = false := by simpa using h'
        simp only [List.lookup_cons, this, hk1, ih]

/-! ## The entries -/

theorem mem_keys_groupFold {xs : List α} {k : κ} :
    k ∈ (groupFold first next key xs).map Prod.fst ↔ ∃ x ∈ xs, key x = k := by
  induction xs using List.reverseRecOn with
  | nil => simp [groupFold]
  | append_singleton xs x ih =>
    rw [groupFold_append, mem_keys_putKey, ih]
    constructor
    · rintro (rfl | ⟨y, hy, rfl⟩)
      · exact ⟨x, by simp, rfl⟩
      · exact ⟨y, by simp [hy], rfl⟩
    · rintro ⟨y, hy, rfl⟩
      rcases List.mem_append.mp hy with hy | hy
      · exact .inr ⟨y, hy, rfl⟩
      · exact .inl (congrArg key (List.mem_singleton.mp hy))

theorem nodup_groupFold (xs : List α) : ((groupFold first next key xs).map Prod.fst).Nodup := by
  induction xs using List.reverseRecOn with
  | nil => exact List.nodup_nil
  | append_singleton xs x ih =>
    rw [groupFold_append]
    exact nodup_putKey ih

/-- The entry of a key is the fold of the elements that have it. -/
theorem lookup_groupFold (xs : List α) (k : κ) :
    (groupFold first next key xs).lookup k = foldEntry first next (xs.filter fun x => key x = k) := by
  induction xs using List.reverseRecOn generalizing k with
  | nil => rfl
  | append_singleton xs x ih =>
    rw [groupFold_append, lookup_putKey, List.filter_append, List.filter_singleton]
    by_cases h : k = key x
    · subst h
      rw [if_pos rfl, ih]
      simp [foldEntry_append]
    · rw [if_neg h, ih]
      have : ¬ key x = k := Ne.symm h
      simp [this]

theorem mem_of_lookup_eq {k : κ} {b : β} {m : List (κ × β)} (h : m.lookup k = some b) : (k, b) ∈ m := by
  induction m with
  | nil => cases h
  | cons e m ih =>
    obtain ⟨k1, b1⟩ := e
    by_cases hk : k = k1
    · subst hk
      rw [List.lookup_cons_self] at h
      cases h
      exact .head _
    · have : (k == k1) = false := by simpa using hk
      rw [List.lookup_cons, this] at h
      exact .tail _ (ih h)

theorem lookup_eq_of_mem {k : κ} {b : β} {m : List (κ × β)} (hm : (m.map Prod.fst).Nodup)
    (h : (k, b) ∈ m) : m.lookup k = some b := by
  induction m with
  | nil => cases h
  | cons e m ih =>
    obtain ⟨k1, b1⟩ := e
    simp only [List.map_cons, List.nodup_cons] at hm
    rcases List.mem_cons.mp h with h | h
    · cases h
      exact List.lookup_cons_self
    · have hk : k ≠ k1 := fun e => hm.1 (List.mem_map.mpr ⟨(k, b), h, e⟩)
      have : (k == k1) = false := by simpa using hk
      rw [List.lookup_cons, this]
      exact ih hm.2 h

theorem mem_groupFold {xs : List α} {k : κ} {b : β} :
    (k, b) ∈ groupFold first next key xs ↔
      foldEntry first next (xs.filter fun x => key x = k) = some b := by
  rw [← lookup_groupFold]
  exact ⟨lookup_eq_of_mem (nodup_groupFold xs), mem_of_lookup_eq⟩

/-- Elements of one key make one entry. -/
theorem groupFold_of_key {k : κ} {xs : List α} (h : ∀ x ∈ xs, key x = k) :
    groupFold first next key xs = ((foldEntry first next xs).map fun b => (k, b)).toList := by
  induction xs using List.reverseRecOn with
  | nil => rfl
  | append_singleton xs x ih =>
    rw [groupFold_append, foldEntry_append, ih fun y hy => h y (by simp [hy]), h x (by simp)]
    cases foldEntry first next xs <;> simp [putKey]

/-- The elements of a key, in their order. -/
theorem mem_groups {xs : List α} {k : κ} {x : α} {l : List α} :
    (k, x, l) ∈ groups key xs ↔ xs.filter (fun x => key x = k) = x :: l := by
  have hfold : ∀ (l r : List α) (y : α),
      l.foldl (fun (g : α × List α) x => (g.1, g.2 ++ [x])) (y, r) = (y, r ++ l) := by
    intro l
    induction l with
    | nil => simp
    | cons z l ih => intro r y; simp [ih]
  rw [groups, mem_groupFold]
  cases xs.filter fun x => key x = k with
  | nil => simp [foldEntry]
  | cons y ys => simp [foldEntry, hfold]

theorem putKey_map {γ : Type} {first' : α → γ} {next' : γ → α → γ} {f : β → γ}
    (hfirst : ∀ x, f (first x) = first' x) (hnext : ∀ b x, f (next b x) = next' (f b) x) (k : κ) (x : α)
    (m : List (κ × β)) :
    (putKey first next k x m).map (Prod.map id f) = putKey first' next' k x (m.map (Prod.map id f)) := by
  induction m with
  | nil => simp [putKey, hfirst]
  | cons e m ih =>
    obtain ⟨k1, b⟩ := e
    simp only [putKey, List.map_cons, Prod.map_apply, id_eq]
    split
    · simp [hnext]
    · simp [ih]

/-- A map of the entries that goes along with the updates. -/
theorem groupFold_map {γ : Type} {first' : α → γ} {next' : γ → α → γ} {f : β → γ}
    (hfirst : ∀ x, f (first x) = first' x) (hnext : ∀ b x, f (next b x) = next' (f b) x) (xs : List α) :
    (groupFold first next key xs).map (Prod.map id f) = groupFold first' next' key xs := by
  induction xs using List.reverseRecOn with
  | nil => rfl
  | append_singleton xs x ih => rw [groupFold_append, groupFold_append, putKey_map hfirst hnext, ih]

theorem groupFold_comap {γ : Type} (f : γ → α) (xs : List γ) :
    groupFold first next key (xs.map f) =
      groupFold (fun x => first (f x)) (fun b x => next b (f x)) (fun x => key (f x)) xs := by
  have hput : ∀ (k : κ) (x : γ) (m : List (κ × β)),
      putKey first next k (f x) m = putKey (fun x => first (f x)) (fun b x => next b (f x)) k x m := by
    intro k x m
    induction m with
    | nil => rfl
    | cons e m ih => simp only [putKey, ih]
  simp only [groupFold, List.foldl_map, hput]

/-! ## What the map adds up to -/

section Sum

variable {M : Type} [AddCommMonoid M] {μ : β → M} {w : α → M}

theorem sum_putKey (hfirst : ∀ x, μ (first x) = w x) (hnext : ∀ b x, μ (next b x) = μ b + w x) (k : κ)
    (x : α) (m : List (κ × β)) :
    ((putKey first next k x m).map fun e => μ e.2).sum = (m.map fun e => μ e.2).sum + w x := by
  induction m with
  | nil => simp [putKey, hfirst]
  | cons e m ih =>
    obtain ⟨k1, b⟩ := e
    simp only [putKey]
    split
    · simp only [List.map_cons, List.sum_cons, hnext]
      rw [add_assoc, add_comm (w x), ← add_assoc]
    · simp only [List.map_cons, List.sum_cons, ih, add_assoc]

theorem sum_groupFold (hfirst : ∀ x, μ (first x) = w x) (hnext : ∀ b x, μ (next b x) = μ b + w x)
    (xs : List α) : ((groupFold first next key xs).map fun e => μ e.2).sum = (xs.map w).sum := by
  induction xs using List.reverseRecOn with
  | nil => rfl
  | append_singleton xs x ih =>
    rw [groupFold_append, sum_putKey hfirst hnext, ih]
    simp

variable (key w) in
/-- A sum over the groups is one over the elements. -/
theorem sum_groups (xs : List α) :
    ((groups key xs).map fun e => ((e.2.1 :: e.2.2).map w).sum).sum = (xs.map w).sum := by
  let total : α × List α → M := fun g => ((g.1 :: g.2).map w).sum
  have hfirst : ∀ x, total (x, []) = w x := fun x => by simp [total]
  have hnext : ∀ g x, total (g.1, g.2 ++ [x]) = total g + w x := fun g x => by simp [total, add_assoc]
  change ((groups key xs).map fun e => total e.2).sum = _
  exact sum_groupFold hfirst hnext xs

variable (key) in
/-- A sum, taken key by key. -/
theorem sum_by_key (ks : List κ) (hks : ks.Nodup) (xs : List α) (hcover : ∀ x ∈ xs, key x ∈ ks)
    (w : α → M) :
    (ks.map fun k => ((xs.filter fun x => key x = k).map w).sum).sum = (xs.map w).sum := by
  induction xs with
  | nil => simp
  | cons x xs ih =>
    have hone : ∀ l : List κ, l.Nodup → (l.map fun k => if key x = k then w x else 0).sum =
        if key x ∈ l then w x else 0 := by
      intro l hl
      induction l with
      | nil => rfl
      | cons k l ih =>
        rw [List.nodup_cons] at hl
        rw [List.map_cons, List.sum_cons, ih hl.2]
        by_cases hk : key x = k
        · simp [hk, hl.1]
        · simp [hk]
    have hsplit : ∀ k, (((x :: xs).filter fun x => key x = k).map w).sum =
        (if key x = k then w x else 0) + ((xs.filter fun x => key x = k).map w).sum := by
      intro k
      by_cases hk : key x = k <;> simp [hk]
    simp only [hsplit]
    rw [List.sum_map_add, hone ks hks, if_pos (hcover x (.head _)), ih fun y hy => hcover y (.tail _ hy),
      List.map_cons, List.sum_cons]

variable (key w) in
/-- The sum of each key. -/
def sumsByKey (xs : List α) : List (κ × M) := groupFold w (fun b x => b + w x) key xs

theorem mem_sumsByKey {xs : List α} {k : κ} {b : M} :
    (k, b) ∈ sumsByKey key w xs ↔ (∃ x ∈ xs, key x = k) ∧ b = ((xs.filter fun x => key x = k).map w).sum := by
  have hfold : ∀ (l : List α) (b : M), l.foldl (fun b x => b + w x) b = b + (l.map w).sum := by
    intro l
    induction l with
    | nil => simp
    | cons y l ih => intro b; simp [ih, add_assoc]
  have hmem : (∃ x ∈ xs, key x = k) ↔ xs.filter (fun x => key x = k) ≠ [] := by
    simp [List.filter_eq_nil_iff]
  rw [sumsByKey, mem_groupFold, hmem]
  cases xs.filter fun x => key x = k with
  | nil => simp [foldEntry]
  | cons y ys => simp [foldEntry, hfold, eq_comm]

theorem sum_sumsByKey (xs : List α) : ((sumsByKey key w xs).map Prod.snd).sum = (xs.map w).sum := by
  let entry : M → M := fun b => b
  change ((groupFold w (fun b x => b + w x) key xs).map fun e => entry e.2).sum = _
  exact sum_groupFold (fun _ => rfl) (fun _ _ => rfl) xs

end Sum

/-! ## Pairs -/

section Pairs

omit [DecidableEq κ] in
/-- `for i`, `for j = i + 1`: every two elements once, the earlier one first. -/
def pairs : List α → List (α × α)
  | [] => []
  | x :: xs => xs.map (fun y => (x, y)) ++ pairs xs

theorem pairs_nil_of_length {l : List α} (h : l.length < 2) : pairs l = [] := by
  match l, h with
  | [], _ => rfl
  | [_], _ => rfl

theorem mem_of_mem_pairs {l : List α} {p : α × α} (h : p ∈ pairs l) : p.1 ∈ l ∧ p.2 ∈ l := by
  induction l with
  | nil => cases h
  | cons x l ih =>
    rcases List.mem_append.mp h with h | h
    · obtain ⟨y, hy, rfl⟩ := List.mem_map.mp h
      exact ⟨.head _, .tail _ hy⟩
    · exact ⟨.tail _ (ih h).1, .tail _ (ih h).2⟩

theorem pairs_append_singleton (xs : List α) (x : α) :
    (pairs (xs ++ [x])).Perm (pairs xs ++ xs.map fun y => (y, x)) := by
  induction xs with
  | nil => exact .refl _
  | cons y xs ih =>
    simp only [List.cons_append, pairs, List.map_append, List.map_cons, List.map_nil, List.append_assoc]
    refine List.Perm.append_left _ ?_
    exact (ih.cons (y, x)).trans List.perm_middle.symm

/-- The elements in the entry of a key. -/
def elementsOf (k : κ) (m : List (κ × α × List α)) : List α := ((m.lookup k).map fun g => g.1 :: g.2).getD []

theorem elementsOf_groups (xs : List α) (k : κ) :
    elementsOf k (groups key xs) = xs.filter fun x => key x = k := by
  unfold elementsOf
  cases h : (groups key xs).lookup k with
  | none =>
    rw [groups, lookup_groupFold] at h
    cases hl : xs.filter (fun x => decide (key x = k)) with
    | nil => rfl
    | cons y ys => simp [hl, foldEntry] at h
  | some g => exact (mem_groups.mp (mem_of_lookup_eq h)).symm

theorem flatMap_pairs_putKey (k : κ) (x : α) (m : List (κ × α × List α)) :
    ((putKey (fun x => (x, [])) (fun g x => (g.1, g.2 ++ [x])) k x m).flatMap fun e => pairs (e.2.1 :: e.2.2)).Perm
      ((m.flatMap fun e => pairs (e.2.1 :: e.2.2)) ++ (elementsOf k m).map fun y => (y, x)) := by
  induction m with
  | nil => exact .refl _
  | cons e m ih =>
    obtain ⟨k', y, ys⟩ := e
    rw [putKey]
    split
    · rename_i hk
      subst hk
      have hentry : elementsOf k' ((k', y, ys) :: m) = y :: ys := by simp [elementsOf]
      rw [hentry, List.flatMap_cons, List.flatMap_cons, List.append_assoc]
      refine ((pairs_append_singleton (y :: ys) x).append_right _).trans ?_
      rw [List.append_assoc]
      exact List.perm_append_comm.append_left _
    · rename_i hk
      have hentry : elementsOf k ((k', y, ys) :: m) = elementsOf k m := by
        have : (k == k') = false := by simpa using Ne.symm hk
        simp [elementsOf, List.lookup_cons, this]
      rw [hentry, List.flatMap_cons, List.flatMap_cons, List.append_assoc]
      exact ih.append_left _

/-- The pairs within the groups are the pairs of one key. -/
theorem flatMap_pairs_groups (xs : List α) :
    ((groups key xs).flatMap fun e => pairs (e.2.1 :: e.2.2)).Perm
      ((pairs xs).filter fun p => key p.1 = key p.2) := by
  induction xs using List.reverseRecOn with
  | nil => exact .refl _
  | append_singleton xs x ih =>
    rw [groups, groupFold_append]
    refine (flatMap_pairs_putKey (key x) x (groups key xs)).trans ?_
    refine .trans ?_ ((pairs_append_singleton xs x).filter _).symm
    rw [elementsOf_groups, List.filter_append, List.filter_map]
    exact ih.append_right _

variable {R : α → α → Prop} [DecidableRel R]

omit [DecidableEq κ] in
variable (R) in
/-- The pair, the smaller one first; a pair that `R` relates in neither way is none. -/
def orient (p : α × α) : Option (α × α) :=
  if R p.1 p.2 then some p else if R p.2 p.1 then some p.swap else none

omit [DecidableEq κ] in
theorem product_cons_perm (x : α) (xs : List α) :
    ((x :: xs).product (x :: xs)).Perm
      ((x, x) :: (xs.map (fun y => (x, y)) ++ xs.map fun y => (y, x)) ++ xs.product xs) := by
  simp only [List.product, List.flatMap_cons, List.map_cons, List.cons_append, List.append_assoc]
  exact ((List.map_append_flatMap_perm xs (fun y => (y, x)) fun y => xs.map fun z => (y, z)).symm.append_left
    _).cons _

omit [DecidableEq κ] in
theorem filterMap_orient_map (hasymm : ∀ x y, R x y → ¬ R y x) (x : α) (xs : List α) :
    ((xs.map fun y => (x, y)).filterMap (orient R)).Perm
      ((xs.map (fun y => (x, y)) ++ xs.map fun y => (y, x)).filter fun p => R p.1 p.2) := by
  induction xs with
  | nil => exact .refl _
  | cons y xs ih =>
    rw [List.filter_append] at ih ⊢
    simp only [List.map_cons, List.filterMap_cons, orient, List.filter_cons]
    by_cases h : R x y
    · simpa [h, hasymm x y h] using ih
    · by_cases h' : R y x
      · simpa [h, h'] using (ih.cons (y, x)).trans List.perm_middle.symm
      · simpa [h, h'] using ih

omit [DecidableEq κ] in
/-- Every two elements once, put in order, are the ordered pairs of the product. -/
theorem filterMap_orient_pairs (hasymm : ∀ x y, R x y → ¬ R y x) (xs : List α) :
    ((pairs xs).filterMap (orient R)).Perm ((xs.product xs).filter fun p => R p.1 p.2) := by
  induction xs with
  | nil => exact .refl _
  | cons x xs ih =>
    have hirrefl : ¬ R x x := fun h => hasymm x x h h
    refine .trans ?_ ((product_cons_perm x xs).filter _).symm
    rw [pairs, List.filterMap_append, List.cons_append, List.filter_cons, if_neg (by simpa using hirrefl),
      List.filter_append]
    exact (filterMap_orient_map hasymm x xs).append ih

/-- The pairs within the groups, put in order by a relation that keeps within a key. -/
theorem flatMap_orient_groups (hasymm : ∀ x y, R x y → ¬ R y x) (hkey : ∀ x y, R x y → key x = key y)
    (xs : List α) :
    ((groups key xs).flatMap fun e => (pairs (e.2.1 :: e.2.2)).filterMap (orient R)).Perm
      ((xs.product xs).filter fun p => R p.1 p.2) := by
  have hnone : ∀ p : α × α, ¬ key p.1 = key p.2 → orient R p = none := by
    intro p hne
    unfold orient
    rw [if_neg fun h => hne (hkey _ _ h), if_neg fun h => hne (hkey _ _ h).symm]
  rw [← List.filterMap_flatMap]
  refine ((flatMap_pairs_groups xs).filterMap _).trans ?_
  refine .trans (.of_eq ?_) (filterMap_orient_pairs hasymm xs)
  rw [List.filterMap_filter]
  refine List.filterMap_congr fun p _ => ?_
  by_cases h : key p.1 = key p.2
  · simp [h]
  · simp [h, hnone p h]

end Pairs

/-! ## Lists sorted by key -/

section Sorted

variable [PartialOrder κ]

variable (first next)

/-- An element whose key is not below the others belongs to the last entry or makes one of its own. -/
theorem putKey_of_le {k : κ} (x : α) {m : List (κ × β)} (h : (m.map Prod.fst).Pairwise (· < ·))
    (hk : ∀ k' ∈ m.map Prod.fst, k' ≤ k) :
    (∃ m' b, m = m' ++ [(k, b)] ∧ putKey first next k x m = m' ++ [(k, next b x)]) ∨
      (∀ k' ∈ m.map Prod.fst, k' < k) ∧ putKey first next k x m = m ++ [(k, first x)] := by
  induction m with
  | nil => exact .inr ⟨by simp, rfl⟩
  | cons e m ih =>
    obtain ⟨k1, b⟩ := e
    simp only [List.map_cons, List.pairwise_cons] at h
    simp only [List.map_cons, List.forall_mem_cons] at hk
    by_cases h1 : k1 = k
    · have hm : m = [] := by
        refine List.eq_nil_iff_forall_not_mem.mpr fun e he => ?_
        have hmem : e.1 ∈ m.map Prod.fst := List.mem_map_of_mem he
        exact not_le_of_gt (h.1 _ hmem) (h1 ▸ hk.2 _ hmem)
      subst hm h1
      exact .inl ⟨[], b, rfl, by simp [putKey]⟩
    · rcases ih h.2 hk.2 with ⟨m', b', rfl, hput⟩ | ⟨hlt, hput⟩
      · exact .inl ⟨(k1, b) :: m', b', rfl, by rw [putKey, if_neg h1, hput]; rfl⟩
      · refine .inr ⟨?_, by rw [putKey, if_neg h1, hput]; rfl⟩
        rw [List.map_cons, List.forall_mem_cons]
        exact ⟨lt_of_le_of_ne hk.1 h1, hlt⟩

/-- The last element of a sorted list belongs to the last entry or makes one of its own. -/
theorem groupFold_append_cases {xs : List α} {x : α} (h : ((xs ++ [x]).map key).Pairwise (· ≤ ·))
    (hpair : ((groupFold first next key xs).map Prod.fst).Pairwise (· < ·)) :
    (∃ m b, groupFold first next key xs = m ++ [(key x, b)] ∧
        groupFold first next key (xs ++ [x]) = m ++ [(key x, next b x)]) ∨
      (∀ k ∈ (groupFold first next key xs).map Prod.fst, k < key x) ∧
        groupFold first next key (xs ++ [x]) = groupFold first next key xs ++ [(key x, first x)] := by
  rw [List.map_append, List.pairwise_append] at h
  rw [groupFold_append]
  refine putKey_of_le first next x hpair fun k hk => ?_
  obtain ⟨y, hy, rfl⟩ := mem_keys_groupFold.mp hk
  exact h.2.2 _ (List.mem_map_of_mem hy) _ (by simp)

omit [DecidableEq κ] in
theorem sorted_init {xs : List α} {x : α} (h : ((xs ++ [x]).map key).Pairwise (· ≤ ·)) :
    (xs.map key).Pairwise (· ≤ ·) := by
  rw [List.map_append, List.pairwise_append] at h
  exact h.1

/-- The keys of a sorted list come strictly increasing. -/
theorem pairwise_groupFold {xs : List α} (h : (xs.map key).Pairwise (· ≤ ·)) :
    ((groupFold first next key xs).map Prod.fst).Pairwise (· < ·) := by
  induction xs using List.reverseRecOn with
  | nil => exact List.Pairwise.nil
  | append_singleton xs x ih =>
    have ih := ih (sorted_init h)
    rcases groupFold_append_cases first next h ih with ⟨m, b, hm, happ⟩ | ⟨hlt, happ⟩
    · rw [hm] at ih
      rw [happ]
      simpa using ih
    · rw [happ, List.map_append, List.pairwise_append]
      exact ⟨ih, by simp, by simpa using hlt⟩

variable {first next}

/-- The entries of a fine key, folded by a coarser one: when an entry can be merged with a later one
as if its elements had come one by one, this is the list folded by the coarse key. -/
theorem groupFold_rollUp {κ' : Type} [DecidableEq κ'] {coarse : κ → κ'} {merge : β → β → β}
    (hfirst : ∀ b x, merge b (first x) = next b x)
    (hnext : ∀ b b' x, merge b (next b' x) = next (merge b b') x) {xs : List α}
    (h : (xs.map key).Pairwise (· ≤ ·)) :
    groupFold Prod.snd (fun b e => merge b e.2) (fun e => coarse e.1) (groupFold first next key xs) =
      groupFold first next (fun x => coarse (key x)) xs := by
  induction xs using List.reverseRecOn with
  | nil => rfl
  | append_singleton xs x ih =>
    have hxs := sorted_init h
    have ih := ih hxs
    have hcoarse : groupFold first next (fun x => coarse (key x)) (xs ++ [x]) =
        putKey first next (coarse (key x)) x (groupFold first next (fun x => coarse (key x)) xs) :=
      groupFold_append xs x
    rw [hcoarse, ← ih]
    rcases groupFold_append_cases first next h (pairwise_groupFold _ _ hxs) with
      ⟨m, b, hm, happ⟩ | ⟨-, happ⟩
    · -- the element goes to the last fine entry, and that one to the coarse entry it is in
      rw [happ, hm, groupFold_append, groupFold_append]
      generalize groupFold Prod.snd (fun b e => merge b e.2) (fun e => coarse e.1) m = m
      induction m with
      | nil => simp [putKey]
      | cons e m ih =>
        obtain ⟨k1, b1⟩ := e
        by_cases h1 : k1 = coarse (key x)
        · simp [putKey, h1, hnext]
        · simp only [putKey, if_neg h1]
          exact congrArg _ ih
    · rw [happ, groupFold_append]
      generalize groupFold Prod.snd (fun b e => merge b e.2) (fun e => coarse e.1)
        (groupFold first next key xs) = m
      induction m with
      | nil => rfl
      | cons e m ih =>
        obtain ⟨k1, b1⟩ := e
        by_cases h1 : k1 = coarse (key x)
        · simp [putKey, h1, hfirst]
        · simp only [putKey, if_neg h1]
          exact congrArg _ ih

end Sorted

end KeyedFold

end Lib
