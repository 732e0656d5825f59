import Mathlib.Data.List.Basic

/-!
# TradeCore.Lib.Run

Runs of a machine `step : σ → α → σ` over lists of actions.

* `run step s as`      the state after the actions `as`.
* `Along step G s as`  every action of `as` is taken in a state that meets `G`.
* `Always step P s as` `P` holds in every state of the run, the first one included.
* `count step Q s as`  how many steps of the run go from a state to one related to it by `Q`.

`run_inv` and `always_of_inv` turn a step lemma into a run lemma. `always_iff_along` is the rule
for a machine that keeps `P` exactly as long as its actions meet `G`, `always_iff_along_of` the same
within the runs whose actions meet `H`.
-/

namespace Lib

section Run

variable {σ α : Type} (step : σ → α → σ)

def run : σ → List α → σ
  | s, [] => s
  | s, a :: as => run (step s a) as

def Along (G : σ → α → Prop) : σ → List α → Prop
  | _, [] => True
  | s, a :: as => G s a ∧ Along G (step s a) as

def Always (P : σ → Prop) : σ → List α → Prop
  | s, [] => P s
  | s, a :: as => P s ∧ Always P (step s a) as

def count (Q : σ → σ → Prop) [DecidableRel Q] : σ → List α → Nat
  | _, [] => 0
  | s, a :: as => (if Q s (step s a) then 1 else 0) + count Q (step s a) as

instance Along.decidable {G : σ → α → Prop} [∀ s a, Decidable (G s a)] :
    ∀ (s : σ) (as : List α), Decidable (Along step G s as)
  | _, [] => inferInstanceAs (Decidable True)
  | s, a :: as =>
    have := Along.decidable (G := G) (step s a) as
    inferInstanceAs (Decidable (G s a ∧ Along step G (step s a) as))

variable {step}

theorem run_append (s : σ) (as bs : List α) : run step s (as ++ bs) = run step (run step s as) bs := by
  induction as generalizing s with
  | nil => rfl
  | cons a as ih => exact ih (step s a)

theorem along_append {G : σ → α → Prop} {s : σ} {as bs : List α} :
    Along step G s (as ++ bs) ↔ Along step G s as ∧ Along step G (run step s as) bs := by
  induction as generalizing s with
  | nil => simp [Along, run]
  | cons a as ih => simp [Along, run, ih, and_assoc]

theorem along_of_forall {G : α → Prop} {as : List α} (h : ∀ a ∈ as, G a) {s : σ} :
    Along step (fun _ a => G a) s as := by
  induction as generalizing s with
  | nil => trivial
  | cons a as ih => exact ⟨h a (.head _), ih fun b hb => h b (.tail _ hb)⟩

theorem along_true {s : σ} {as : List α} : Along step (fun _ _ => True) s as :=
  along_of_forall (G := fun _ => True) fun _ _ => trivial

/-- A condition along a run is one on every step of it, taken where the actions before lead. -/
theorem along_iff_split {G : σ → α → Prop} {s : σ} {as : List α} :
    Along step G s as ↔ ∀ bs a cs, as = bs ++ a :: cs → G (run step s bs) a := by
  constructor
  · intro h bs a cs he
    rw [he, along_append] at h
    exact h.2.1
  · intro h
    induction as generalizing s with
    | nil => trivial
    | cons a as ih =>
      refine ⟨h [] a as rfl, ih fun bs b cs he => ?_⟩
      exact h (a :: bs) b cs (by rw [he]; rfl)

theorem Along.mono {G H : σ → α → Prop} (hGH : ∀ s a, G s a → H s a) {s : σ} {as : List α}
    (h : Along step G s as) : Along step H s as := by
  induction as generalizing s with
  | nil => trivial
  | cons a as ih => exact ⟨hGH s a h.1, ih h.2⟩

/-- An invariant kept by every step that meets `G` holds at the end of every run that does. -/
theorem run_inv {I : σ → Prop} {G : σ → α → Prop}
    (hstep : ∀ s a, I s → G s a → I (step s a)) {s : σ} {as : List α} (h0 : I s)
    (hG : Along step G s as) : I (run step s as) := by
  induction as generalizing s with
  | nil => exact h0
  | cons a as ih => exact ih (hstep s a h0 hG.1) hG.2

theorem always_of_inv {I P : σ → Prop} {G : σ → α → Prop} (hP : ∀ s, I s → P s)
    (hstep : ∀ s a, I s → G s a → I (step s a)) {s : σ} {as : List α} (h0 : I s)
    (hG : Along step G s as) : Always step P s as := by
  induction as generalizing s with
  | nil => exact hP s h0
  | cons a as ih => exact ⟨hP s h0, ih (hstep s a h0 hG.1) hG.2⟩

/-- What every step taken inside the invariant does is done along the whole run. -/
theorem along_of_inv {I : σ → Prop} {G H : σ → α → Prop} (hH : ∀ s a, I s → G s a → H s a)
    (hstep : ∀ s a, I s → G s a → I (step s a)) {s : σ} {as : List α} (h0 : I s)
    (hG : Along step G s as) : Along step H s as := by
  induction as generalizing s with
  | nil => trivial
  | cons a as ih => exact ⟨hH s a h0 hG.1, ih (hstep s a h0 hG.1) hG.2⟩

theorem Always.head {P : σ → Prop} {s : σ} {as : List α} (h : Always step P s as) : P s := by
  cases as with
  | nil => exact h
  | cons a as => exact h.1

theorem Always.mono {P P' : σ → Prop} (hP : ∀ s, P s → P' s) {s : σ} {as : List α}
    (h : Always step P s as) : Always step P' s as := by
  induction as generalizing s with
  | nil => exact hP s h
  | cons a as ih => exact ⟨hP s h.1, ih h.2⟩

theorem Always.and {P Q : σ → Prop} {s : σ} {as : List α} (hP : Always step P s as)
    (hQ : Always step Q s as) : Always step (fun s => P s ∧ Q s) s as := by
  induction as generalizing s with
  | nil => exact ⟨hP, hQ⟩
  | cons a as ih => exact ⟨⟨hP.1, hQ.1⟩, ih hP.2 hQ.2⟩

theorem Always.at {P : σ → Prop} {s : σ} (as : List α) {bs : List α}
    (h : Always step P s (as ++ bs)) : P (run step s as) := by
  induction as generalizing s with
  | nil => exact h.head
  | cons a as ih => exact ih h.2

theorem Always.last {P : σ → Prop} {s : σ} {as : List α} (h : Always step P s as) :
    P (run step s as) := by
  rw [← as.append_nil] at h
  exact h.at as

/-- The runs, among those whose steps meet `H`, that keep `P` throughout and in which every step does
`T` are exactly those whose steps all meet `G`, when a step that meets `G` does both and one that does
both meets `G`. -/
theorem along_always_iff {I P : σ → Prop} {G H T : σ → α → Prop} (hP : ∀ s, I s → P s)
    (good : ∀ s a, I s → H s a → G s a → T s a ∧ I (step s a))
    (bad : ∀ s a, I s → H s a → T s a → P (step s a) → G s a) {s : σ} {as : List α} (h0 : I s)
    (hH : Along step H s as) : Along step T s as ∧ Always step P s as ↔ Along step G s as := by
  induction as generalizing s with
  | nil => exact ⟨fun _ => trivial, fun _ => ⟨trivial, hP s h0⟩⟩
  | cons a as ih =>
    constructor
    · intro ⟨hT, hA⟩
      have hG : G s a := bad s a h0 hH.1 hT.1 hA.2.head
      exact ⟨hG, (ih (good s a h0 hH.1 hG).2 hH.2).mp ⟨hT.2, hA.2⟩⟩
    · intro ⟨hG, hrest⟩
      obtain ⟨hT, hI⟩ := good s a h0 hH.1 hG
      obtain ⟨hT', hA'⟩ := (ih hI hH.2).mpr hrest
      exact ⟨⟨hT, hT'⟩, hP s h0, hA'⟩

/-- Among the runs whose steps meet `H`, those that keep `P` throughout are exactly those whose steps
all meet `G`. -/
theorem always_iff_along_of {I P : σ → Prop} {G H : σ → α → Prop} (hP : ∀ s, I s → P s)
    (good : ∀ s a, I s → H s a → G s a → I (step s a))
    (bad : ∀ s a, I s → H s a → P (step s a) → G s a) {s : σ} {as : List α} (h0 : I s)
    (hH : Along step H s as) : Always step P s as ↔ Along step G s as := by
  rw [← along_always_iff (T := fun _ _ => True) hP
    (fun s a hI hs hG => ⟨trivial, good s a hI hs hG⟩) (fun s a hI hs _ hp => bad s a hI hs hp) h0 hH]
  exact ⟨fun h => ⟨along_true, h⟩, And.right⟩

/-- When a step outside `G` always breaks `P`, the runs that keep `P` throughout are exactly
those whose steps all meet `G`. -/
theorem always_iff_along {I P : σ → Prop} {G : σ → α → Prop} (hP : ∀ s, I s → P s)
    (good : ∀ s a, I s → G s a → I (step s a)) (bad : ∀ s a, I s → ¬ G s a → ¬ P (step s a))
    {s : σ} {as : List α} (h0 : I s) : Always step P s as ↔ Along step G s as :=
  always_iff_along_of hP (fun s a hI _ hG => good s a hI hG)
    (fun s a hI _ hp => not_not.mp fun hG => bad s a hI hG hp) h0 along_true

section Congr

variable {step' : σ → α → σ} {s : σ} {as : List α}

/-- A machine that takes the steps of another one along a run goes through the same states. -/
theorem run_congr (h : Along step (fun s a => step s a = step' s a) s as) :
    run step s as = run step' s as := by
  induction as generalizing s with
  | nil => rfl
  | cons a as ih => exact (ih h.2).trans (by rw [h.1]; rfl)

theorem always_congr {P : σ → Prop} (h : Along step (fun s a => step s a = step' s a) s as) :
    Always step P s as ↔ Always step' P s as := by
  induction as generalizing s with
  | nil => exact .rfl
  | cons a as ih => exact and_congr .rfl ((ih h.2).trans (by rw [h.1]))

theorem along_congr {G G' : σ → α → Prop}
    (h : Along step (fun s a => step s a = step' s a ∧ (G s a ↔ G' s a)) s as) :
    Along step G s as ↔ Along step' G' s as := by
  induction as generalizing s with
  | nil => exact .rfl
  | cons a as ih => exact and_congr h.1.2 ((ih h.2).trans (by rw [h.1.1]))

end Congr

/-- A counter `f` that moves by one exactly at the steps `Q` counts them. -/
theorem count_eq {I : σ → Prop} {G : σ → α → Prop} {Q : σ → σ → Prop} [DecidableRel Q] {f : σ → Nat}
    (hstep : ∀ s a, I s → G s a →
      I (step s a) ∧ f (step s a) = f s + if Q s (step s a) then 1 else 0)
    {s : σ} {as : List α} (h0 : I s) (hG : Along step G s as) :
    f (run step s as) = f s + count step Q s as := by
  induction as generalizing s with
  | nil => rfl
  | cons a as ih =>
    obtain ⟨hI, hf⟩ := hstep s a h0 hG.1
    rw [run, ih hI hG.2, hf, count, Nat.add_assoc]

end Run

end Lib
