import TradeCore.Lib.DecimalText

/-!
# TradeCore.Lib.Fields

Texts made of pieces: `s.split(/\s+/)`, the pieces around a separator, and decimal numbers.

* `splitRuns p`  the pieces of a text between the runs of characters with `p`.
* `InFields p`  a text as fields with runs of such characters between them. On a text that neither
  starts nor ends with one, `splitRuns` finds exactly these fields (`inFields_iff`).
* `firstTwo`     a text with everything behind its second piece cut off.
* `IsNumber`     a text of decimal digits and its value.
-/

namespace Lib

/-! ## Runs of separators -/

section Runs

variable (p : Char → Bool)

/-- The flag says that the characters before are part of a run. -/
def splitRuns : Bool → List Char → List (List Char)
  | _, [] => [[]]
  | inRun, c :: cs =>
    if p c then if inRun then splitRuns true cs else [] :: splitRuns true cs
    else (splitRuns false cs).modifyHead (c :: ·)

structure IsField (f : List Char) : Prop where
  ne_nil : f ≠ []
  clean : ∀ c ∈ f, p c = false

inductive InFields : List Char → List (List Char) → Prop
  | last {f : List Char} (hf : IsField p f) : InFields f [f]
  | cons {f gap s : List Char} {fs : List (List Char)} (hf : IsField p f) (hne : gap ≠ [])
      (hgap : ∀ c ∈ gap, p c = true) (hs : InFields s fs) : InFields (f ++ (gap ++ s)) (f :: fs)

/-- Neither the first nor the last character has `p`. -/
structure Trimmed (s : List Char) : Prop where
  head : ∀ c ∈ s.head?, p c = false
  last : ∀ c ∈ s.getLast?, p c = false

variable {p}

theorem splitRuns_append {f : List Char} (hf : ∀ c ∈ f, p c = false) (s : List Char) :
    splitRuns p false (f ++ s) = (splitRuns p false s).modifyHead (f ++ ·) := by
  induction f with
  | nil =>
    rw [List.nil_append]
    cases splitRuns p false s <;> rfl
  | cons c cs ih =>
    rw [List.cons_append, splitRuns, hf c (by simp), if_neg (by simp), ih fun d hd => hf d (by simp [hd])]
    cases splitRuns p false s <;> rfl

theorem splitRuns_run {gap : List Char} (hgap : ∀ c ∈ gap, p c = true) (s : List Char) :
    splitRuns p true (gap ++ s) = splitRuns p true s := by
  induction gap with
  | nil => rfl
  | cons c cs ih =>
    rw [List.cons_append, splitRuns, hgap c (by simp), if_pos rfl, if_pos rfl]
    exact ih fun d hd => hgap d (by simp [hd])

/-- After a run the next piece starts. -/
theorem splitRuns_true {s : List Char} (hs : s ≠ []) (hhead : ∀ c ∈ s.head?, p c = false) :
    splitRuns p true s = splitRuns p false s := by
  cases s with
  | nil => exact absurd rfl hs
  | cons c cs =>
    rw [splitRuns, splitRuns, hhead c rfl]
    rfl

theorem InFields.head {s : List Char} {fs : List (List Char)} (h : InFields p s fs) :
    s ≠ [] ∧ ∀ c ∈ s.head?, p c = false := by
  have hfield : ∀ {f r : List Char}, IsField p f → f ++ r ≠ [] ∧ ∀ c ∈ (f ++ r).head?, p c = false := by
    intro f r hf
    cases f with
    | nil => exact absurd rfl hf.ne_nil
    | cons c cs =>
      refine ⟨by simp, fun d hd => ?_⟩
      obtain rfl : c = d := by simpa using hd
      exact hf.clean c (by simp)
  cases h with
  | last hf => simpa using hfield (r := []) hf
  | cons hf => exact hfield hf

theorem InFields.splitRuns_eq {s : List Char} {fs : List (List Char)} (h : InFields p s fs) :
    splitRuns p false s = fs := by
  induction h with
  | @last f hf =>
    have happend := splitRuns_append hf.clean []
    simpa [splitRuns] using happend
  | @cons f gap s fs hf hne hgap hs ih =>
    rw [splitRuns_append hf.clean]
    cases gap with
    | nil => exact absurd rfl hne
    | cons c cs =>
      rw [List.cons_append, splitRuns, hgap c (by simp), if_pos rfl, if_neg (by simp),
        splitRuns_run fun d hd => hgap d (by simp [hd]), splitRuns_true hs.head.1 hs.head.2, ih]
      simp

/-- The first field of a text, and what is behind the run that follows it. -/
theorem Trimmed.first_field {s : List Char} (hs : s ≠ []) (h : Trimmed p s) :
    IsField p s ∨ ∃ f gap t, s = f ++ (gap ++ t) ∧ IsField p f ∧ gap ≠ [] ∧
      (∀ c ∈ gap, p c = true) ∧ t ≠ [] ∧ Trimmed p t := by
  have hsplit := List.takeWhile_append_dropWhile (p := fun c => !p c) (l := s)
  have hfield : IsField p (s.takeWhile fun c => !p c) := by
    refine ⟨?_, fun c hc => by simpa using List.mem_takeWhile_imp hc⟩
    cases s with
    | nil => exact absurd rfl hs
    | cons c cs => simp [h.head c rfl]
  cases hrest : s.dropWhile (fun c => !p c) with
  | nil =>
    rw [hrest, List.append_nil] at hsplit
    exact .inl (hsplit ▸ hfield)
  | cons c cs =>
    have hc : p c = true := by
      have := List.head?_dropWhile_not (fun c => !p c) s
      simpa [hrest] using this
    have hrun := List.takeWhile_append_dropWhile (p := p) (l := c :: cs)
    have hcut : s = s.takeWhile (fun c => !p c) ++
        ((c :: cs).takeWhile p ++ (c :: cs).dropWhile p) := by rw [hrun, ← hrest, hsplit]
    have hlast : ∀ d ∈ (c :: cs).getLast?, p d = false := fun d hd => h.last d (by
      rw [← hsplit, hrest, List.getLast?_append, Option.mem_def.mp hd]
      rfl)
    have hne : (c :: cs).dropWhile p ≠ [] := by
      intro hnil
      have hall := List.dropWhile_eq_nil_iff.mp hnil
      obtain ⟨d, hd⟩ : ∃ d, (c :: cs).getLast? = some d := ⟨_, List.getLast?_eq_some_getLast (by simp)⟩
      have := hall d (List.mem_of_getLast? hd)
      simp [hlast d hd] at this
    have hgap : (c :: cs).takeWhile p ≠ [] := by
      rw [List.takeWhile_cons_of_pos hc]
      exact List.cons_ne_nil _ _
    refine .inr ⟨_, _, _, hcut, hfield, hgap, fun d hd => List.mem_takeWhile_imp hd, hne, ?_, ?_⟩
    · intro d hd
      have := List.head?_dropWhile_not p (c :: cs)
      rw [Option.mem_def.mp hd] at this
      exact this
    · intro d hd
      refine hlast d ?_
      rw [← hrun, List.getLast?_append, Option.mem_def.mp hd]
      rfl

/-- A text that neither starts nor ends with a separator consists of fields. -/
theorem Trimmed.inFields {s : List Char} (hs : s ≠ []) (h : Trimmed p s) :
    InFields p s (splitRuns p false s) := by
  obtain ⟨fs, hfs⟩ : ∃ fs, InFields p s fs := by
    induction hn : s.length using Nat.strong_induction_on generalizing s with
    | _ n ih =>
      rcases h.first_field hs with hf | ⟨f, gap, t, rfl, hf, hne, hgap, ht, htrim⟩
      · exact ⟨_, .last hf⟩
      · have hlt : t.length < n := by
          have := List.length_pos_of_ne_nil hne
          simp only [List.length_append] at hn
          omega
        obtain ⟨fs, hfs⟩ := ih t.length hlt ht htrim rfl
        exact ⟨_, .cons hf hne hgap hfs⟩
  rw [hfs.splitRuns_eq]
  exact hfs

theorem Trimmed.inFields_iff {s : List Char} (hs : s ≠ []) (h : Trimmed p s) {fs : List (List Char)} :
    InFields p s fs ↔ splitRuns p false s = fs :=
  ⟨InFields.splitRuns_eq, fun he => he ▸ h.inFields hs⟩

theorem InFields.fields {s : List Char} {fs : List (List Char)} (h : InFields p s fs) :
    ∀ f ∈ fs, IsField p f := by
  induction h with
  | last hf => simpa using hf
  | cons hf _ _ _ ih => simpa using ⟨hf, ih⟩

end Runs

theorem trimmed_trim (s : List Char) : Trimmed isWhite (trim s) := by
  have hdrop : ∀ (t : List Char), ∀ c ∈ (t.dropWhile isWhite).head?, isWhite c = false := by
    intro t c hc
    have := List.head?_dropWhile_not isWhite t
    rw [Option.mem_def.mp hc] at this
    exact this
  constructor
  · intro c hc
    rw [trim, List.head?_reverse] at hc
    refine hdrop s c ?_
    obtain ⟨u, hu⟩ := List.dropWhile_suffix isWhite (l := (s.dropWhile isWhite).reverse)
    rw [← List.getLast?_reverse, ← hu, List.getLast?_append, Option.mem_def.mp hc]
    rfl
  · intro c hc
    rw [trim, List.getLast?_reverse] at hc
    exact hdrop _ c hc

/-! ## Pieces around a separator -/

section Pieces

variable {α : Type} {sep : α}

/-- A text cut in two at the separator, in one way only. -/
theorem pieces_inj {x y x' y' : List α} (hx : sep ∉ x) (hx' : sep ∉ x')
    (h : x ++ sep :: y = x' ++ sep :: y') : x = x' ∧ y = y' := by
  induction x generalizing x' with
  | nil =>
    cases x' with
    | nil => exact ⟨rfl, List.tail_eq_of_cons_eq h⟩
    | cons c cs =>
      have hc : sep = c := List.head_eq_of_cons_eq h
      exact absurd (by simp [hc]) hx'
  | cons c cs ih =>
    cases x' with
    | nil =>
      have hc : c = sep := List.head_eq_of_cons_eq h
      exact absurd (by simp [hc]) hx
    | cons d ds =>
      have hcd : c = d := List.head_eq_of_cons_eq h
      obtain ⟨hcs, hy⟩ := ih (fun hin => hx (List.mem_cons_of_mem _ hin))
        (fun hin => hx' (List.mem_cons_of_mem _ hin)) (List.tail_eq_of_cons_eq h)
      exact ⟨by rw [hcd, hcs], hy⟩

variable [DecidableEq α]

/-- A text with everything behind its second piece cut off. -/
def firstTwo (sep : α) (s : List α) : List α := [sep].intercalate ((s.splitOn sep).take 2)

theorem firstTwo_of_not_mem {s : List α} (h : sep ∉ s) : firstTwo sep s = s := by
  rw [firstTwo, List.splitOn_eq_singleton h]
  simp

theorem splitOn_pieces {x y : List α} (hx : sep ∉ x) (hy : sep ∉ y) :
    (x ++ sep :: y).splitOn sep = [x, y] := by
  rw [List.splitOn_append_cons_self_of_not_mem hx, List.splitOn_eq_singleton hy]

/-- The first two pieces of a text with a separator in it. -/
theorem exists_pieces {s : List α} (h : sep ∈ s) :
    ∃ x y rest, s.splitOn sep = x :: y :: rest ∧ firstTwo sep s = x ++ sep :: y ∧
      sep ∉ x ∧ sep ∉ y := by
  obtain ⟨x, t, rfl, hx⟩ := List.eq_append_cons_of_mem h
  have hsplit := List.splitOn_append_cons_self_of_not_mem hx t
  by_cases ht : sep ∈ t
  · obtain ⟨y, u, rfl, hy⟩ := List.eq_append_cons_of_mem ht
    rw [List.splitOn_append_cons_self_of_not_mem hy] at hsplit
    refine ⟨x, y, _, hsplit, ?_, hx, hy⟩
    rw [firstTwo, hsplit]
    simp
  · rw [List.splitOn_eq_singleton ht] at hsplit
    refine ⟨x, t, [], hsplit, ?_, hx, ht⟩
    rw [firstTwo, hsplit]
    simp

theorem mem_of_mem_splitOn {s p : List α} {c : α} (hp : p ∈ s.splitOn sep) (hc : c ∈ p) : c ∈ s := by
  induction s generalizing p with
  | nil =>
    rw [List.splitOn_nil, List.mem_singleton] at hp
    rw [hp] at hc
    cases hc
  | cons d ds ih =>
    rw [List.splitOn_cons_eq_if_modifyHead] at hp
    split at hp
    · rcases List.mem_cons.mp hp with rfl | hp
      · cases hc
      · exact List.mem_cons_of_mem d (ih hp hc)
    · cases hds : ds.splitOn sep with
      | nil => exact absurd hds (List.splitOn_ne_nil sep ds)
      | cons q qs =>
        rw [hds, List.modifyHead_cons] at hp
        rw [hds] at ih
        rcases List.mem_cons.mp hp with rfl | hp
        · rcases List.mem_cons.mp hc with rfl | hc
          · exact List.mem_cons_self
          · exact List.mem_cons_of_mem d (ih List.mem_cons_self hc)
        · exact List.mem_cons_of_mem d (ih (List.mem_cons_of_mem q hp) hc)

theorem firstTwo_initial (s : List α) : firstTwo sep s <+: s := by
  by_cases h : sep ∈ s
  · obtain ⟨x, t, rfl, hx⟩ := List.eq_append_cons_of_mem h
    have hsplit := List.splitOn_append_cons_self_of_not_mem hx t
    by_cases ht : sep ∈ t
    · obtain ⟨y, u, rfl, hy⟩ := List.eq_append_cons_of_mem ht
      rw [List.splitOn_append_cons_self_of_not_mem hy] at hsplit
      rw [firstTwo, hsplit]
      exact ⟨sep :: u, by simp⟩
    · rw [List.splitOn_eq_singleton ht] at hsplit
      rw [firstTwo, hsplit]
      exact ⟨[], by simp⟩
  · simp only [firstTwo_of_not_mem h, List.prefix_refl]

end Pieces

/-! ## Numbers -/

/-- `/^\d+$/` on a text. -/
def isDigits (t : List Char) : Bool := !t.isEmpty && t.all Char.isDigit

/-- `Number.parseInt(t, 10)` of a text of digits. -/
def digitsValue (t : List Char) : Nat := Nat.ofDigitChars 10 t 0

structure IsNumber (t : List Char) (n : Nat) : Prop where
  digits : isDigits t = true
  value : digitsValue t = n

theorem isDigits_iff {t : List Char} : isDigits t = true ↔ t ≠ [] ∧ ∀ c ∈ t, c.isDigit = true := by
  simp [isDigits]

theorem not_mem_of_isDigits {t : List Char} (h : isDigits t = true) {c : Char}
    (hc : c.isDigit = false) : c ∉ t := by
  intro hin
  have := (isDigits_iff.mp h).2 c hin
  rw [hc] at this
  cases this

end Lib
