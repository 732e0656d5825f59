import TradeCore.Lib.Run

/-!
# TradeCore.Lib.Interleave

Calls that run in atomic steps on one shared state, in any interleaving.

A `Proc` gives the local state a call starts in and what its next atomic step does: it changes
the shared state and either leaves the call running or ends it with a result. A `Conf` holds the
shared state and one `Task` for every call made so far, finished calls included, so that results
can be summed over the whole history. The environment value `ε` of a step is what the step learns
from outside (the clock, a failing transaction).

`Meets S G` is the condition a run is asked to meet: `S` of the input of every call, `G` of the
state before every atomic step. `step_inv` is the invariant rule: a task list is met as
`pre ++ task :: post`, so that sums over the calls split at the one that moves. `gather f` lists what
the calls in flight hold, and `Exclusive` is the bookkeeping of a lock. `Proc.alone` is a call that nothing interrupts; `serial_run` finds the runs
of whole calls among the interleavings.
-/

namespace Lib

inductive Task (κ ρ : Type) where
  | running (k : κ)
  | done (r : ρ)
  deriving DecidableEq, Repr

structure Proc (σ ε ι κ ρ : Type) where
  start : ι → κ
  adv : ε → κ → σ → σ × Task κ ρ

structure Conf (σ κ ρ : Type) where
  shared : σ
  tasks : List (Task κ ρ)

inductive Act (ε ι : Type) where
  | spawn (x : ι)
  | sched (i : Nat) (e : ε)

section Step

variable {σ ε ι κ ρ : Type}

def Task.isDone : Task κ ρ → Bool
  | .running _ => false
  | .done _ => true

/-- No call is in flight. -/
def Conf.Quiet (c : Conf σ κ ρ) : Prop := ∀ t ∈ c.tasks, t.isDone = true

instance (c : Conf σ κ ρ) : Decidable c.Quiet := inferInstanceAs (Decidable (∀ t ∈ c.tasks, _))

def Conf.init (s : σ) : Conf σ κ ρ := ⟨s, []⟩

def Proc.step (P : Proc σ ε ι κ ρ) (c : Conf σ κ ρ) : Act ε ι → Conf σ κ ρ
  | .spawn x => { c with tasks := c.tasks ++ [.running (P.start x)] }
  | .sched i e =>
    match c.tasks[i]? with
    | some (.running k) => ⟨(P.adv e k c.shared).1, c.tasks.set i (P.adv e k c.shared).2⟩
    | _ => c

def Meets (S : ι → Prop) (G : ε → κ → σ → List (Task κ ρ) → Prop) (c : Conf σ κ ρ) :
    Act ε ι → Prop
  | .spawn x => S x
  | .sched i e => ∀ k, c.tasks[i]? = some (.running k) → G e k c.shared c.tasks

instance Meets.decidable {S : ι → Prop} {G : ε → κ → σ → List (Task κ ρ) → Prop}
    [DecidablePred S] [∀ e k s ts, Decidable (G e k s ts)] (c : Conf σ κ ρ) :
    ∀ a : Act ε ι, Decidable (Meets S G c a)
  | .spawn x => inferInstanceAs (Decidable (S x))
  | .sched i e =>
    match h : c.tasks[i]? with
    | some (.running k) =>
      decidable_of_iff (G e k c.shared c.tasks) (by simp [Meets, h])
    | some (.done r) => .isTrue (by simp [Meets, h])
    | none => .isTrue (by simp [Meets, h])

/-- Two programs whose calls start alike and whose next step is the same take the same step. -/
theorem step_congr {P Q : Proc σ ε ι κ ρ} (hstart : P.start = Q.start)
    {G : ε → κ → σ → List (Task κ ρ) → Prop} {c : Conf σ κ ρ}
    (hadv : ∀ e k, .running k ∈ c.tasks → G e k c.shared c.tasks → P.adv e k c.shared = Q.adv e k c.shared)
    {S : ι → Prop} {a : Act ε ι} (ha : Meets S G c a) : P.step c a = Q.step c a := by
  cases a with
  | spawn x => simp only [Proc.step, hstart]
  | sched i e =>
    simp only [Proc.step]
    split
    · rename_i k hk
      rw [hadv e k (List.mem_of_getElem? hk) (ha k hk)]
    · rfl

theorem meets_true (c : Conf σ κ ρ) (a : Act ε ι) :
    Meets (fun _ => True) (fun _ _ _ _ => True) c a := by
  cases a with
  | spawn x => trivial
  | sched i e => exact fun _ _ => trivial

/-- Every call in flight meets `p`. -/
def AllRunning (p : κ → Prop) (ts : List (Task κ ρ)) : Prop := ∀ k, .running k ∈ ts → p k

instance AllRunning.decidable {p : κ → Prop} [DecidablePred p] :
    ∀ ts : List (Task κ ρ), Decidable (AllRunning p ts)
  | [] => .isTrue fun _ h => by cases h
  | .running k :: ts =>
    have := AllRunning.decidable (p := p) ts
    decidable_of_iff (p k ∧ AllRunning p ts) (by simp [AllRunning])
  | .done r :: ts =>
    have := AllRunning.decidable (p := p) ts
    decidable_of_iff (AllRunning p ts) (by simp [AllRunning])

theorem AllRunning.nil {p : κ → Prop} : AllRunning p ([] : List (Task κ ρ)) :=
  fun _ h => by cases h

theorem AllRunning.spawn {p : κ → Prop} {ts : List (Task κ ρ)} {k : κ} (h : AllRunning p ts)
    (hk : p k) : AllRunning p (ts ++ [Task.running k]) := by
  intro k' hk'
  simp only [List.mem_append, List.mem_singleton, Task.running.injEq] at hk'
  rcases hk' with hk' | rfl
  · exact h k' hk'
  · exact hk

theorem AllRunning.here {p : κ → Prop} {pre post : List (Task κ ρ)} {k : κ}
    (h : AllRunning p (pre ++ .running k :: post)) : p k :=
  h k (by simp)

theorem AllRunning.replace {p : κ → Prop} {pre post : List (Task κ ρ)} {k : κ} {t : Task κ ρ}
    (h : AllRunning p (pre ++ .running k :: post)) (ht : ∀ k', t = .running k' → p k') :
    AllRunning p (pre ++ t :: post) := by
  intro k' hk'
  simp only [List.mem_append, List.mem_cons] at hk'
  rcases hk' with hk' | hk' | hk'
  · exact h k' (by simp [hk'])
  · exact ht k' hk'.symm
  · exact h k' (by simp [hk'])

/-- One task is replaced, and what is known of the others is carried over. -/
theorem forall_replace {p q : Task κ ρ → Prop} {pre post : List (Task κ ρ)} {t t' : Task κ ρ}
    (h : ∀ u ∈ pre ++ t :: post, p u) (hpq : ∀ u, p u → q u) (ht' : q t') :
    ∀ u ∈ pre ++ t' :: post, q u := by
  intro u hu
  rcases List.mem_append.mp hu with hu | hu
  · exact hpq u (h u (List.mem_append_left _ hu))
  · rcases List.mem_cons.mp hu with rfl | hu
    · exact ht'
    · exact hpq u (h u (List.mem_append_right _ (.tail _ hu)))

/-- What the calls in flight hold, `f` of each. -/
def Task.gather {β : Type} (f : κ → List β) : Task κ ρ → List β
  | .running k => f k
  | .done _ => []

def gather {β : Type} (f : κ → List β) (ts : List (Task κ ρ)) : List β := ts.flatMap (Task.gather f)

section Gather

variable {β : Type} {f : κ → List β} {b : β} {pre post ts : List (Task κ ρ)} {t : Task κ ρ} {k : κ}

theorem gather_split : gather f (pre ++ t :: post) = gather f pre ++ t.gather f ++ gather f post := by
  simp [gather]

/-- A call that moves and holds what it held. -/
theorem gather_congr (h : t.gather f = f k) :
    gather f (pre ++ t :: post) = gather f (pre ++ .running k :: post) := by
  rw [gather_split, gather_split, h]
  rfl

theorem mem_gather_split :
    b ∈ gather f (pre ++ t :: post) ↔ b ∈ t.gather f ∨ b ∈ gather f pre ∨ b ∈ gather f post := by
  rw [gather_split, List.mem_append, List.mem_append, or_assoc, or_left_comm]

theorem mem_gather_here (h : b ∈ f k) : b ∈ gather f (pre ++ .running k :: post) :=
  mem_gather_split.mpr (.inl h)

/-- What a step adds comes from the call that moves. -/
theorem mem_gather_replace (h : b ∈ gather f (pre ++ t :: post)) :
    b ∈ t.gather f ∨ b ∈ gather f (pre ++ .running k :: post) :=
  (mem_gather_split.mp h).imp id fun h => mem_gather_split.mpr (.inr h)

/-- A step takes nothing from what the other calls hold. -/
theorem gather_subset_replace (h : f k ⊆ t.gather f) :
    gather f (pre ++ .running k :: post) ⊆ gather f (pre ++ t :: post) :=
  fun _ hb => mem_gather_split.mpr ((mem_gather_split.mp hb).imp_left fun hb => h hb)

theorem exists_of_mem_gather (h : b ∈ gather f ts) : ∃ k, .running k ∈ ts ∧ b ∈ f k := by
  obtain ⟨t, ht, hb⟩ := List.mem_flatMap.mp h
  cases t with
  | running k => exact ⟨k, ht, hb⟩
  | done r => cases hb

theorem gather_spawn (h : f k = []) : gather f (ts ++ [Task.running k]) = gather f ts := by
  simp [gather, Task.gather, h]

theorem gather_nil_of {γ : Type} {g : κ → List γ} (hg : ∀ k, f k = [] → g k = [])
    (h : gather f ts = []) : gather g ts = [] := by
  refine List.flatMap_eq_nil_iff.mpr fun t ht => ?_
  have hf := List.flatMap_eq_nil_iff.mp h t ht
  cases t with
  | running k => exact hg k hf
  | done r => rfl

theorem gather_quiet {s : σ} (h : (⟨s, ts⟩ : Conf σ κ ρ).Quiet) : gather f ts = [] := by
  refine List.flatMap_eq_nil_iff.mpr fun t ht => ?_
  have hdone := h t ht
  cases t with
  | running k => cases hdone
  | done r => rfl

/-- What no two calls hold: a call that moves holds nothing that another one does. -/
theorem not_mem_of_nodup_gather (h : (gather f (pre ++ .running k :: post)).Nodup) {k' : κ}
    (hk' : .running k' ∈ pre ∨ .running k' ∈ post) (hb : b ∈ f k) : b ∉ f k' := by
  intro hb'
  rw [gather_split, List.nodup_append, List.nodup_append] at h
  obtain ⟨⟨-, -, hpre⟩, -, hpost⟩ := h
  rcases hk' with hk' | hk'
  · exact hpre b (List.mem_flatMap.mpr ⟨_, hk', hb'⟩) b hb rfl
  · exact hpost b (List.mem_append_right _ hb) b (List.mem_flatMap.mpr ⟨_, hk', hb'⟩) rfl

theorem free_of_gather_nil (h : gather f ts = []) : AllRunning (fun k => f k = []) ts :=
  fun _ hk => List.flatMap_eq_nil_iff.mp h _ hk

/-- What at most one call holds: the others hold nothing. -/
theorem others_of_gather_le_one (h : (gather f (pre ++ .running k :: post)).length ≤ 1)
    (hb : b ∈ f k) : gather f pre = [] ∧ gather f post = [] := by
  rw [gather_split, List.length_append, List.length_append] at h
  have hk : 0 < (Task.gather f (.running k : Task κ ρ)).length := List.length_pos_of_mem hb
  exact ⟨List.length_eq_zero_iff.mp (by omega), List.length_eq_zero_iff.mp (by omega)⟩

/-- What the calls hold is listed in the shared state, and no two of them hold the same. -/
structure Exclusive (f : κ → List β) (held : List β) (ts : List (Task κ ρ)) : Prop where
  perm : held.Perm (gather f ts)
  nodup : held.Nodup

theorem Exclusive.keep {held : List β} (h : Exclusive f held (pre ++ .running k :: post))
    (ht : t.gather f = f k) : Exclusive f held (pre ++ t :: post) := by
  refine ⟨?_, h.nodup⟩
  rw [gather_congr ht]
  exact h.perm

theorem Exclusive.acquire {held : List β} (h : Exclusive f held (pre ++ .running k :: post))
    (hk : f k = []) (hfree : b ∉ held) (ht : t.gather f = [b]) :
    Exclusive f (b :: held) (pre ++ t :: post) := by
  refine ⟨?_, List.nodup_cons.mpr ⟨hfree, h.nodup⟩⟩
  have hperm := h.perm
  rw [gather_split, Task.gather, hk, List.append_nil] at hperm
  rw [gather_split, ht, List.append_assoc]
  exact (hperm.cons b).trans List.perm_middle.symm

theorem Exclusive.release [DecidableEq β] {held : List β}
    (h : Exclusive f held (pre ++ .running k :: post)) (hk : f k = [b]) (ht : t.gather f = []) :
    Exclusive f (held.erase b) (pre ++ t :: post) := by
  refine ⟨?_, h.nodup.erase b⟩
  have hperm := h.perm
  rw [gather_split, Task.gather, hk, List.append_assoc] at hperm
  rw [gather_split, ht, List.append_nil]
  have hrest := (hperm.trans List.perm_middle).erase b
  rwa [List.erase_cons_head] at hrest

end Gather

theorem split_of_getElem? {t : Task κ ρ} :
    ∀ {ts : List (Task κ ρ)} {i : Nat}, ts[i]? = some t →
      ∃ pre post, ts = pre ++ t :: post ∧ ∀ t', ts.set i t' = pre ++ t' :: post := by
  intro ts
  induction ts with
  | nil => intro i h; simp at h
  | cons u us ih =>
    intro i h
    cases i with
    | zero =>
      simp only [List.getElem?_cons_zero, Option.some.injEq] at h
      subst h
      exact ⟨[], us, rfl, fun _ => rfl⟩
    | succ i =>
      obtain ⟨pre, post, he, hs⟩ := ih (by simpa using h)
      exact ⟨u :: pre, post, by rw [he]; rfl, fun t' => by simp [hs t']⟩

/-- Everything a step can do: a new call, one atomic step of a running call, or nothing. -/
theorem step_cases (P : Proc σ ε ι κ ρ) (c : Conf σ κ ρ) (a : Act ε ι) :
    (∃ x, a = .spawn x ∧ P.step c a = ⟨c.shared, c.tasks ++ [Task.running (P.start x)]⟩) ∨
    (∃ i e k pre post, a = .sched i e ∧ c.tasks[i]? = some (.running k) ∧
      c.tasks = pre ++ .running k :: post ∧
      P.step c a = ⟨(P.adv e k c.shared).1, pre ++ (P.adv e k c.shared).2 :: post⟩) ∨
    P.step c a = c := by
  cases a with
  | spawn x => exact .inl ⟨x, rfl, rfl⟩
  | sched i e =>
    cases h : c.tasks[i]? with
    | none => exact .inr (.inr (by simp [Proc.step, h]))
    | some t =>
      cases t with
      | done r => exact .inr (.inr (by simp [Proc.step, h]))
      | running k =>
        obtain ⟨pre, post, he, hs⟩ := split_of_getElem? h
        exact .inr (.inl ⟨i, e, k, pre, post, rfl, h, he, by simp [Proc.step, h, hs]⟩)

/-- The invariant rule. -/
theorem step_inv (P : Proc σ ε ι κ ρ) {S : ι → Prop} {G : ε → κ → σ → List (Task κ ρ) → Prop}
    {I : σ → List (Task κ ρ) → Prop}
    (hspawn : ∀ s ts x, S x → I s ts → I s (ts ++ [Task.running (P.start x)]))
    (hadv : ∀ s pre k post e, G e k s (pre ++ .running k :: post) →
      I s (pre ++ .running k :: post) → I (P.adv e k s).1 (pre ++ (P.adv e k s).2 :: post))
    (c : Conf σ κ ρ) (a : Act ε ι) (h : I c.shared c.tasks) (hG : Meets S G c a) :
    I (P.step c a).shared (P.step c a).tasks := by
  obtain ⟨x, rfl, hs⟩ | ⟨i, e, k, pre, post, rfl, hi, ht, hs⟩ | hs := step_cases P c a
  · rw [hs]; exact hspawn _ _ x hG h
  · have hg := hG k hi
    rw [ht] at h hg
    rw [hs]; exact hadv _ pre k post e hg h
  · rw [hs]; exact h

/-- A run asked only about the inputs of its calls and what its steps learn. -/
theorem along_of_acts (P : Proc σ ε ι κ ρ) {S : ι → Prop} {G : ε → κ → σ → List (Task κ ρ) → Prop}
    {as : List (Act ε ι)} (hS : ∀ x, .spawn x ∈ as → S x)
    (hG : ∀ i e, .sched i e ∈ as → ∀ k s ts, G e k s ts) (c : Conf σ κ ρ) :
    Along P.step (Meets S G) c as := by
  induction as generalizing c with
  | nil => trivial
  | cons a as ih =>
    refine ⟨?_, ih (fun x hx => hS x (.tail _ hx)) (fun i e he => hG i e (.tail _ he)) _⟩
    cases a with
    | spawn x => exact hS x (.head _)
    | sched i e => exact fun k _ => hG i e (.head _) k _ _

theorem along_of_spawns (P : Proc σ ε ι κ ρ) {S : ι → Prop} {as : List (Act ε ι)}
    (h : ∀ x, .spawn x ∈ as → S x) (c : Conf σ κ ρ) :
    Along P.step (Meets S fun _ _ _ _ => True) c as :=
  along_of_acts P h (fun _ _ _ _ _ _ => trivial) c

theorem step_done (P : Proc σ ε ι κ ρ) {c : Conf σ κ ρ} {i : Nat} {r : ρ}
    (h : c.tasks[i]? = some (.done r)) (a : Act ε ι) : (P.step c a).tasks[i]? = some (.done r) := by
  cases a with
  | spawn x =>
    obtain ⟨hi, -⟩ := List.getElem?_eq_some_iff.mp h
    simpa [Proc.step, List.getElem?_append_left hi] using h
  | sched j e =>
    by_cases hj : j = i
    · subst hj
      simp [Proc.step, h]
    · simp only [Proc.step]
      split
      · rw [List.getElem?_set_ne hj]; exact h
      · exact h

/-- A call that has ended keeps its result. -/
theorem run_done (P : Proc σ ε ι κ ρ) {c : Conf σ κ ρ} {i : Nat} {r : ρ}
    (h : c.tasks[i]? = some (.done r)) (as : List (Act ε ι)) :
    (run P.step c as).tasks[i]? = some (.done r) := by
  induction as generalizing c with
  | nil => exact h
  | cons a as ih => exact ih (step_done P h a)

theorem step_sched (P : Proc σ ε ι κ ρ) {c : Conf σ κ ρ} {i : Nat} {k : κ}
    (h : c.tasks[i]? = some (.running k)) (e : ε) :
    P.step c (.sched i e) = ⟨(P.adv e k c.shared).1, c.tasks.set i (P.adv e k c.shared).2⟩ := by
  simp only [Proc.step, h]

/-- How a task came to meet `Q`: by a step of its own, or as a call that was just made. -/
theorem exists_step_into (P : Proc σ ε ι κ ρ) {Q : Task κ ρ → Prop} {c : Conf σ κ ρ} {i : Nat}
    {acts : List (Act ε ι)} (h0 : ∀ t, c.tasks[i]? = some t → ¬ Q t) {t : Task κ ρ}
    (h : (run P.step c acts).tasks[i]? = some t) (hQ : Q t) :
    ∃ as a bs, acts = as ++ a :: bs ∧
      ((∃ x, a = .spawn x ∧ Q (.running (P.start x))) ∨
        ∃ e k, a = .sched i e ∧ (run P.step c as).tasks[i]? = some (.running k) ∧
          ¬ Q (.running k) ∧ Q (P.adv e k (run P.step c as).shared).2) := by
  induction acts generalizing c with
  | nil => exact absurd hQ (h0 t h)
  | cons a acts ih =>
    by_cases h1 : ∀ t, (P.step c a).tasks[i]? = some t → ¬ Q t
    · obtain ⟨as, b, bs, rfl, hb⟩ := ih h1 h
      exact ⟨a :: as, b, bs, rfl, hb⟩
    · simp only [not_forall, not_not] at h1
      obtain ⟨t, ht, hQt⟩ := h1
      refine ⟨[], a, acts, rfl, ?_⟩
      cases a with
      | spawn x =>
        refine .inl ⟨x, rfl, ?_⟩
        by_cases hi : i < c.tasks.length
        · rw [Proc.step, List.getElem?_append_left hi] at ht
          exact absurd hQt (h0 t ht)
        · rw [Proc.step, List.getElem?_append_right (by omega), List.getElem?_singleton] at ht
          split at ht
          · rw [Option.some.inj ht]
            exact hQt
          · cases ht
      | sched j e =>
        cases hj : c.tasks[j]? with
        | none =>
          simp only [Proc.step, hj] at ht
          exact absurd hQt (h0 t ht)
        | some u =>
          cases u with
          | done r =>
            simp only [Proc.step, hj] at ht
            exact absurd hQt (h0 t ht)
          | running k =>
            rw [step_sched P hj] at ht
            by_cases hij : j = i
            · subst hij
              obtain ⟨hlt, -⟩ := List.getElem?_eq_some_iff.mp hj
              rw [List.getElem?_set_self hlt] at ht
              rw [← Option.some.inj ht] at hQt
              exact .inr ⟨e, k, rfl, hj, h0 _ hj, hQt⟩
            · rw [List.getElem?_set_ne hij] at ht
              exact absurd hQt (h0 t ht)

/-- How a task came to be what it is. -/
theorem exists_step_to (P : Proc σ ε ι κ ρ) {c : Conf σ κ ρ} {i : Nat} {t : Task κ ρ}
    {acts : List (Act ε ι)} (h0 : c.tasks[i]? ≠ some t)
    (h : (run P.step c acts).tasks[i]? = some t) :
    ∃ as a bs, acts = as ++ a :: bs ∧
      ((∃ x, a = .spawn x ∧ t = .running (P.start x)) ∨
        ∃ e k, a = .sched i e ∧ (run P.step c as).tasks[i]? = some (.running k) ∧
          t ≠ .running k ∧ (P.adv e k (run P.step c as).shared).2 = t) := by
  obtain ⟨as, a, bs, he, ⟨x, ha, hx⟩ | ⟨e, k, ha, hk, hne, hadv⟩⟩ :=
    exists_step_into P (Q := fun u => u = t) (fun u hu hut => h0 (hut ▸ hu)) h rfl
  · exact ⟨as, a, bs, he, .inl ⟨x, ha, hx.symm⟩⟩
  · exact ⟨as, a, bs, he, .inr ⟨e, k, ha, hk, fun h => hne h.symm, hadv⟩⟩

theorem length_le_step (P : Proc σ ε ι κ ρ) (c : Conf σ κ ρ) (a : Act ε ι) :
    c.tasks.length ≤ (P.step c a).tasks.length := by
  obtain ⟨x, -, hs⟩ | ⟨i, e, k, pre, post, -, -, ht, hs⟩ | hs := step_cases P c a
  · rw [hs, List.length_append]
    exact Nat.le_add_right _ _
  · refine Nat.le_of_eq ?_
    rw [hs, ht]
    simp
  · exact Nat.le_of_eq (by rw [hs])

/-- No call is forgotten. -/
theorem length_le_run (P : Proc σ ε ι κ ρ) (c : Conf σ κ ρ) (acts : List (Act ε ι)) :
    c.tasks.length ≤ (run P.step c acts).tasks.length := by
  induction acts generalizing c with
  | nil => exact Nat.le_refl _
  | cons a acts ih => exact Nat.le_trans (length_le_step P c a) (ih _)

/-- A step of a call that was made after `as` comes after `as`. -/
theorem prefix_of_later (P : Proc σ ε ι κ ρ) {c : Conf σ κ ρ} {as bs as' : List (Act ε ι)}
    {a : Act ε ι} {bs' : List (Act ε ι)} {i : Nat} {t : Task κ ρ}
    (h : as ++ bs = as' ++ a :: bs') (hi : (run P.step c as).tasks.length ≤ i)
    (ht : (run P.step c as').tasks[i]? = some t) : ∃ ds, as' = as ++ ds := by
  rcases List.append_eq_append_iff.mp h with ⟨ds, hds, -⟩ | ⟨ds, hds, -⟩
  · exact ⟨ds, hds⟩
  · obtain ⟨hlt, -⟩ := List.getElem?_eq_some_iff.mp ht
    have := length_le_run P (run P.step c as') ds
    rw [← run_append, ← hds] at this
    omega

/-- In the run `acts`, call `i` takes a step from a state that meets `Q`. -/
def Took (P : Proc σ ε ι κ ρ) (c : Conf σ κ ρ) (acts : List (Act ε ι)) (i : Nat)
    (Q : ε → κ → σ → Prop) : Prop :=
  ∃ as e bs k, acts = as ++ .sched i e :: bs ∧ (run P.step c as).tasks[i]? = some (.running k) ∧
    Q e k (run P.step c as).shared

theorem Took.append {P : Proc σ ε ι κ ρ} {c : Conf σ κ ρ} {as : List (Act ε ι)} {i : Nat}
    {Q : ε → κ → σ → Prop} (h : Took P c as i Q) (bs : List (Act ε ι)) : Took P c (as ++ bs) i Q := by
  obtain ⟨as, e, bs', k, rfl, hk, hQ⟩ := h
  exact ⟨as, e, bs' ++ bs, k, by simp, hk, hQ⟩

/-- A call that runs by itself. -/
def Proc.alone (P : Proc σ ε ι κ ρ) : List ε → σ → Task κ ρ → σ × Task κ ρ
  | [], s, t => (s, t)
  | _ :: _, s, .done r => (s, .done r)
  | e :: es, s, .running k => P.alone es (P.adv e k s).1 (P.adv e k s).2

@[simp] theorem alone_done (P : Proc σ ε ι κ ρ) (es : List ε) (s : σ) (r : ρ) :
    P.alone es s (.done r) = (s, .done r) := by
  cases es <;> rfl

/-- The run in which only one call is scheduled is that call by itself. -/
theorem run_alone (P : Proc σ ε ι κ ρ) (pre post : List (Task κ ρ)) (es : List ε) (s : σ)
    (t : Task κ ρ) :
    run P.step ⟨s, pre ++ t :: post⟩ (es.map (.sched pre.length)) =
      ⟨(P.alone es s t).1, pre ++ (P.alone es s t).2 :: post⟩ := by
  induction es generalizing s t with
  | nil => rfl
  | cons e es ih =>
    have hi : (pre ++ t :: post)[pre.length]? = some t := by simp
    cases t with
    | done r =>
      have hstep : P.step ⟨s, pre ++ .done r :: post⟩ (.sched pre.length e) =
          ⟨s, pre ++ .done r :: post⟩ := by
        simp only [Proc.step, hi]
      rw [List.map_cons, run, hstep, ih, alone_done, alone_done]
    | running k =>
      rw [List.map_cons, run, step_sched P hi, Proc.alone, ← ih]
      simp

/-- When every step of `f` is what some call does by itself, the runs of `f` are runs of the
calls, one after the other. -/
theorem serial_run (P : Proc σ ε ι κ ρ) {α : Type} {f : σ → α → σ}
    (h : ∀ s a, ∃ x es r, P.alone es s (.running (P.start x)) = (f s a, .done r))
    (as : List α) (c : Conf σ κ ρ) (hq : c.Quiet) :
    ∃ acts, (run P.step c acts).Quiet ∧ (run P.step c acts).shared = run f c.shared as := by
  induction as generalizing c with
  | nil => exact ⟨[], hq, rfl⟩
  | cons a as ih =>
    obtain ⟨x, es, r, halone⟩ := h c.shared a
    have hrun : run P.step c (.spawn x :: es.map (.sched c.tasks.length)) =
        ⟨f c.shared a, c.tasks ++ [Task.done r]⟩ := by
      have := run_alone P c.tasks [] es c.shared (.running (P.start x))
      rw [halone] at this
      exact this
    have hquiet : (⟨f c.shared a, c.tasks ++ [Task.done r]⟩ : Conf σ κ ρ).Quiet := by
      intro t ht
      rcases List.mem_append.mp ht with ht | ht
      · exact hq t ht
      · rw [List.mem_singleton.mp ht]
        rfl
    obtain ⟨acts, hacts, hshared⟩ := ih _ hquiet
    refine ⟨.spawn x :: es.map (.sched c.tasks.length) ++ acts, ?_⟩
    rw [run_append, hrun]
    exact ⟨hacts, hshared⟩

/-- A call whose steps change `f` only as they end it with another result than `r` has not changed
`f` in any of its steps when it ends with `r`. -/
theorem unchanged_of_result (P : Proc σ ε ι κ ρ) {β : Type} {f : σ → β} {r : ρ} {c : Conf σ κ ρ}
    {i : Nat} {e : ε} {as bs : List (Act ε ι)}
    (hadv : ∀ k, .running k ∈ (run P.step c as).tasks →
      f (P.adv e k (run P.step c as).shared).1 = f (run P.step c as).shared ∨
        ∃ r', (P.adv e k (run P.step c as).shared).2 = .done r' ∧ r' ≠ r)
    (hr : (run P.step c (as ++ .sched i e :: bs)).tasks[i]? = some (.done r)) :
    f (run P.step c (as ++ [Act.sched i e])).shared = f (run P.step c as).shared := by
  rw [run_append, run] at hr
  rw [run_append]
  generalize run P.step c as = c' at hadv hr ⊢
  show f (P.step c' (.sched i e)).shared = f c'.shared
  cases hi : c'.tasks[i]? with
  | none => simp [Proc.step, hi]
  | some t =>
    cases t with
    | done r' => simp [Proc.step, hi]
    | running k =>
      rw [step_sched P hi] at hr ⊢
      rcases hadv k (List.mem_of_getElem? hi) with h | ⟨r', hdone, hne⟩
      · exact h
      · obtain ⟨hlt, -⟩ := List.getElem?_eq_some_iff.mp hi
        have hset : (c'.tasks.set i (P.adv e k c'.shared).2)[i]? = some (.done r') := by
          rw [List.getElem?_set_self hlt, hdone]
        rw [run_done P hset] at hr
        cases hr
        exact absurd rfl hne

end Step

end Lib
