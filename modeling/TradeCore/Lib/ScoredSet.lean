import TradeCore.Lib.Table
import Mathlib.Data.List.Perm.Subperm

/-!
# TradeCore.Lib.ScoredSet

Sorted sets as a key-value server keeps them: members without duplicates, each with a score, and
a key that holds such a set until it expires.

`removeUpTo` takes out the scores up to a bound, the bound included, and `add` gives a member a
score, a new one or in place of the one it has. `Expiring.at` is what a command finds at a moment
of the server's clock.
-/

namespace Lib

section ScoredSet

variable {μ : Type}

structure ScoredSet (μ : Type) where
  entries : List (μ × Int)
  nodup : (entries.map Prod.fst).Nodup

namespace ScoredSet

def empty : ScoredSet μ := ⟨[], .nil⟩

def removeUpTo (bound : Int) (s : ScoredSet μ) : ScoredSet μ where
  entries := s.entries.filter fun e => bound < e.2
  nodup := s.nodup.sublist ((List.filter_sublist).map _)

def add [DecidableEq μ] (m : μ) (score : Int) (s : ScoredSet μ) : ScoredSet μ where
  entries := upsert Prod.fst (m, score) s.entries
  nodup := nodup_upsert s.nodup

def card (s : ScoredSet μ) : Nat := s.entries.length

/-- The least score, `none` of the empty set. -/
def least (s : ScoredSet μ) : Option Int := (s.entries.map Prod.snd).min?

theorem mem_removeUpTo {bound : Int} {s : ScoredSet μ} {e : μ × Int} :
    e ∈ (s.removeUpTo bound).entries ↔ e ∈ s.entries ∧ bound < e.2 := by
  simp [removeUpTo]

/-- Entries held under different members are counted one by one. -/
theorem length_le_card {α : Type} {f : α → μ × Int} {l : List α} {s : ScoredSet μ}
    (hl : (l.map fun a => (f a).1).Nodup) (h : ∀ a ∈ l, f a ∈ s.entries) : l.length ≤ s.card := by
  have hnodup : (l.map f).Nodup := by
    refine List.Nodup.of_map Prod.fst ?_
    rwa [List.map_map]
  have hsub : l.map f ⊆ s.entries := by
    intro e he
    obtain ⟨a, ha, rfl⟩ := List.mem_map.mp he
    exact h a ha
  have := (List.subperm_of_subset hnodup hsub).length_le
  rwa [List.length_map] at this

theorem removeUpTo_self (b : Int) (s : ScoredSet μ) :
    (s.removeUpTo b).removeUpTo b = s.removeUpTo b := by
  simp [removeUpTo, List.filter_filter]

theorem card_removeUpTo_le {b b' : Int} (h : b ≤ b') (s : ScoredSet μ) :
    (s.removeUpTo b').card ≤ (s.removeUpTo b).card := by
  refine (List.monotone_filter_right s.entries fun e he => ?_).length_le
  simp only [decide_eq_true_eq] at he ⊢
  omega

theorem card_add_of_fresh [DecidableEq μ] {m : μ} {s : ScoredSet μ} (score : Int)
    (h : ∀ e ∈ s.entries, e.1 ≠ m) : (s.add m score).card = s.card + 1 := by
  have hnot : m ∉ s.entries.map Prod.fst := by
    intro hm
    obtain ⟨e, he, hem⟩ := List.mem_map.mp hm
    exact h e he hem
  show (upsert Prod.fst (m, score) s.entries).length = s.entries.length + 1
  rw [upsert_of_not_mem hnot, List.length_append]
  rfl

theorem card_add_le [DecidableEq μ] (m : μ) (score : Int) (s : ScoredSet μ) :
    (s.add m score).card ≤ s.card + 1 := by
  by_cases hm : m ∈ s.entries.map Prod.fst
  · have hlen : (s.add m score).card = s.card := length_upsert_of_mem hm
    omega
  · refine Nat.le_of_eq (card_add_of_fresh score fun e he hem => hm ?_)
    rw [← hem]
    exact List.mem_map_of_mem he

theorem least_eq_some {s : ScoredSet μ} {o : Int} (h : s.least = some o) :
    (∃ e ∈ s.entries, e.2 = o) ∧ ∀ e ∈ s.entries, o ≤ e.2 := by
  obtain ⟨hmem, hle⟩ := List.min?_eq_some_iff.mp h
  exact ⟨List.mem_map.mp hmem, fun e he => hle _ (List.mem_map_of_mem he)⟩

theorem exists_least {s : ScoredSet μ} {e : μ × Int} (h : e ∈ s.entries) : ∃ o, s.least = some o := by
  cases hl : s.least with
  | some o => exact ⟨o, rfl⟩
  | none =>
    have hnil : s.entries.map Prod.snd = [] := List.min?_eq_none_iff.mp hl
    rw [List.map_eq_nil_iff.mp hnil] at h
    cases h

end ScoredSet

/-- A key of the server; `expiresAt` is `none` while it has no expiry. -/
structure Expiring (α : Type) where
  value : α
  expiresAt : Option Int

namespace Expiring

variable {α : Type}

def holds (v : α) : Expiring α := ⟨v, none⟩

/-- What the key holds at `now`, `absent` once it has expired. -/
def «at» (absent : α) (now : Int) (k : Expiring α) : α :=
  match k.expiresAt with
  | none => k.value
  | some e => if e ≤ now then absent else k.value

/-- The key as a command finds it at `now`: one that has expired is gone, and its lifetime with it. -/
def live (absent : α) (now : Int) (k : Expiring α) : Expiring α :=
  match k.expiresAt with
  | none => k
  | some e => if e ≤ now then ⟨absent, none⟩ else k

@[simp] theorem live_value (absent : α) (now : Int) (k : Expiring α) :
    (k.live absent now).value = k.at absent now := by
  unfold live Expiring.at
  cases h : k.expiresAt with
  | none => rfl
  | some e =>
    dsimp only
    split <;> rfl

/-- A lifetime that a command finds has not run out. -/
theorem lt_of_live {absent : α} {now e : Int} {k : Expiring α}
    (h : (k.live absent now).expiresAt = some e) : k.expiresAt = some e ∧ now < e := by
  unfold live at h
  cases hk : k.expiresAt with
  | none =>
    rw [hk] at h
    cases hk.symm.trans h
  | some e' =>
    rw [hk] at h
    dsimp only at h
    split at h
    · cases h
    · obtain rfl := Option.some.inj (hk.symm.trans h)
      exact ⟨rfl, by omega⟩

/-- A new lifetime for a key that is there. -/
def renew [DecidableEq α] (absent : α) (now lifetime : Int) (k : Expiring α) : Expiring α :=
  let found := k.live absent now
  if found.value = absent then found else ⟨found.value, some (now + lifetime)⟩

/-- A key that has not expired is found as it is. -/
theorem live_of_lt {absent : α} {now : Int} {k : Expiring α} (h : ∀ e, k.expiresAt = some e → now < e) :
    k.live absent now = k := by
  unfold live
  cases hk : k.expiresAt with
  | none => rfl
  | some e => exact if_neg (Int.not_le.mpr (h e hk))

/-- A lifetime that is not positive deletes the key. -/
def expire (absent : α) (now lifetime : Int) (v : α) : Expiring α :=
  if lifetime ≤ 0 then ⟨absent, none⟩ else ⟨v, some (now + lifetime)⟩

theorem at_expire_of_lt {absent v : α} {now lifetime t : Int} (h : now ≤ t) (ht : t < now + lifetime) :
    (expire absent now lifetime v).at absent t = v := by
  have hpos : ¬ lifetime ≤ 0 := by omega
  have hlt : ¬ now + lifetime ≤ t := by omega
  simp [expire, Expiring.at, hpos, hlt]

theorem at_expire (absent v : α) (now lifetime t : Int) :
    (expire absent now lifetime v).at absent t =
      if 0 < lifetime ∧ t < now + lifetime then v else absent := by
  unfold expire Expiring.at
  by_cases hpos : lifetime ≤ 0
  · rw [if_pos hpos, if_neg (by omega)]
  · rw [if_neg hpos]
    dsimp only
    by_cases ht : now + lifetime ≤ t
    · rw [if_pos ht, if_neg (by omega)]
    · rw [if_neg ht, if_pos (by omega)]

/-- An expired set has no members. -/
theorem mem_of_mem_at {μ : Type} {now : Int} {k : Expiring (ScoredSet μ)} {m : μ × Int}
    (h : m ∈ (k.at .empty now).entries) : m ∈ k.value.entries := by
  unfold Expiring.at at h
  split at h
  · exact h
  · split at h
    · cases h
    · exact h

end Expiring

end ScoredSet

end Lib
