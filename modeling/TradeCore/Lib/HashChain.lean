import Mathlib.Data.List.Induction

/-!
# TradeCore.Lib.HashChain

Chains of records in which each record stores its own hash and the hash of the one before it.

`Linked g bs`  every record of `bs` names the hash of its predecessor, `g` for the first, and stores
the hash of its own text.
`headHash g bs` the hash the next record has to name.

`Linked.same` is tamper evidence: where the hash tells the texts of two linked chains apart and a text
tells the hash it names, two chains with one head hold the same texts.
-/

namespace Lib

section HashChain

variable {β τ δ : Type} (H : τ → δ) (text : β → τ) (prev hash : β → δ)

def Linked (g : δ) : List β → Prop
  | [] => True
  | b :: bs => prev b = g ∧ hash b = H (text b) ∧ Linked (hash b) bs

def headHash (g : δ) : List β → δ
  | [] => g
  | b :: bs => headHash (hash b) bs

variable {H text prev hash} {g : δ}

theorem headHash_append (b : β) (bs : List β) : headHash hash g (bs ++ [b]) = hash b := by
  induction bs generalizing g with
  | nil => rfl
  | cons c bs ih => exact ih

theorem linked_append {b : β} {bs : List β} :
    Linked H text prev hash g (bs ++ [b]) ↔
      Linked H text prev hash g bs ∧ prev b = headHash hash g bs ∧ hash b = H (text b) := by
  induction bs generalizing g with
  | nil => simp [Linked, headHash]
  | cons c bs ih => simp [Linked, headHash, ih, and_assoc]

/-- What a record of a linked chain names is the hash the chain starts from or that of a record. -/
theorem Linked.prev_eq {bs : List β} (h : Linked H text prev hash g bs) {b : β} (hb : b ∈ bs) :
    prev b = g ∨ ∃ c ∈ bs, prev b = H (text c) := by
  induction bs generalizing g with
  | nil => cases hb
  | cons c bs ih =>
    rcases List.mem_cons.mp hb with rfl | hb
    · exact .inl h.1
    · rcases ih h.2.2 hb with he | ⟨d, hd, he⟩
      · exact .inr ⟨c, List.mem_cons_self, he.trans h.2.1⟩
      · exact .inr ⟨d, List.mem_cons_of_mem c hd, he⟩

/-- Whether a chain is linked is read off its texts and what it stores. -/
theorem Linked.congr {bs cs : List β} (ht : bs.map text = cs.map text)
    (hp : bs.map prev = cs.map prev) (hh : bs.map hash = cs.map hash)
    (h : Linked H text prev hash g bs) : Linked H text prev hash g cs := by
  induction bs generalizing cs g with
  | nil =>
    cases cs with
    | nil => trivial
    | cons c cs => cases ht
  | cons b bs ih =>
    cases cs with
    | nil => cases ht
    | cons c cs =>
      simp only [List.map_cons, List.cons.injEq] at ht hp hh
      obtain ⟨hprev, hhash, hrest⟩ := h
      refine ⟨hp.1 ▸ hprev, ?_, ?_⟩
      · rw [← hh.1, ← ht.1]
        exact hhash
      · rw [← hh.1]
        exact ih ht.2 hp.2 hh.2 hrest

/-- Two linked chains with one head: from the last record backwards, equal hashes come from equal
texts and equal texts name equal hashes. -/
theorem Linked.same {bs cs : List β} (hb : Linked H text prev hash g bs)
    (hc : Linked H text prev hash g cs) (hhead : headHash hash g bs = headHash hash g cs)
    (hinj : ∀ b ∈ bs, ∀ c ∈ cs, H (text b) = H (text c) → text b = text c)
    (hgenesis : ∀ b, b ∈ bs ∨ b ∈ cs → H (text b) ≠ g)
    (hprev : ∀ b ∈ bs, ∀ c ∈ cs, text b = text c → prev b = prev c) :
    bs.map text = cs.map text ∧ bs.map prev = cs.map prev ∧ bs.map hash = cs.map hash := by
  induction bs using List.reverseRecOn generalizing cs with
  | nil =>
    cases cs using List.reverseRecOn with
    | nil => exact ⟨rfl, rfl, rfl⟩
    | append_singleton cs c =>
      rw [headHash_append, (linked_append.mp hc).2.2] at hhead
      exact absurd hhead.symm (hgenesis c (.inr (by simp)))
  | append_singleton bs b ih =>
    cases cs using List.reverseRecOn with
    | nil =>
      rw [headHash_append, (linked_append.mp hb).2.2] at hhead
      exact absurd hhead (hgenesis b (.inl (by simp)))
    | append_singleton cs c =>
      obtain ⟨hb, hbprev, hbhash⟩ := linked_append.mp hb
      obtain ⟨hc, hcprev, hchash⟩ := linked_append.mp hc
      have hhash : hash b = hash c := by rwa [headHash_append, headHash_append] at hhead
      have htext : text b = text c := by
        refine hinj b (by simp) c (by simp) ?_
        rw [← hbhash, ← hchash, hhash]
      have hnames : prev b = prev c := hprev b (by simp) c (by simp) htext
      obtain ⟨h1, h2, h3⟩ := ih hb hc (by rw [← hbprev, ← hcprev, hnames])
        (fun x hx y hy => hinj x (by simp [hx]) y (by simp [hy]))
        (fun x hx => hgenesis x (hx.imp (by simp +contextual) (by simp +contextual)))
        (fun x hx y hy => hprev x (by simp [hx]) y (by simp [hy]))
      simp [h1, h2, h3, htext, hnames, hhash]

end HashChain

end Lib
