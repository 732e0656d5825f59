import TradeCore.Indexer.Cursor

/-!
# TradeCore.Indexer.Flush

What a `flush` that has returned has done.

A flush whose drain fails puts its batch back into the queue and returns like any other, so its return
says nothing by itself. `over_advance` is what it does say: when a flush is over, no batch is in flight,
and the queue is empty or holds what the failed write of its own drain left in it. Nothing is asked of
the writes; `OneDrain` is the part of the order of drains that no failure breaks.
-/

namespace TradeCore
namespace Indexer

open Lib

namespace Persistence

section

variable {α : Type} {n : Int} {s : State α} {pre post ts : List (Task (Call α) Nat)} {k : Call α}

/-- The drain in flight is the one of `flushPromise`. -/
def OneDrain (s : State α) (ts : List (Task (Call α) Nat)) : Prop :=
  gather Call.drain ts = s.flushPromise.toList

theorem drain_cases (n : Int) (ok : Bool) (k : Call α) (s : State α) :
    (k.drain = [] ∧ (advance n ok k s).1.flushPromise = s.flushPromise ∧
      (advance n ok k s).2.gather Call.drain = []) ∨
    (k.drain = [] ∧ s.flushPromise = none ∧ ∃ d, (advance n ok k s).1.flushPromise = some d ∧
      (advance n ok k s).2.gather Call.drain = [d]) ∨
    (∃ d, k.drain = [d] ∧ (advance n ok k s).1.flushPromise = s.flushPromise ∧
      (advance n ok k s).2.gather Call.drain = [d]) ∨
    ∃ a d p, k = .returning a d p := by
  have hdrain : ∀ (a p d : Nat) (s : State α), (drainPending n a p d s).1.flushPromise = s.flushPromise ∧
      (drainPending n a p d s).2.gather Call.drain = [d] := by
    intro a p d s
    unfold drainPending
    split <;> exact ⟨rfl, rfl⟩
  have hflush : ∀ (a : Nat) (s : State α),
      ((flush n a s).1.flushPromise = s.flushPromise ∧ (flush n a s).2.gather Call.drain = []) ∨
      (s.flushPromise = none ∧ ∃ d, (flush n a s).1.flushPromise = some d ∧
        (flush n a s).2.gather Call.drain = [d]) := by
    intro a s
    unfold flush
    split
    · exact .inl ⟨rfl, rfl⟩
    · rename_i hnone
      split
      · exact .inl ⟨rfl, rfl⟩
      · obtain ⟨hp, hd⟩ := hdrain a 0 s.drains.length
          { s with flushPromise := some s.drains.length, drains := s.drains ++ [none] }
        exact .inr ⟨hnone, s.drains.length, hp, hd⟩
  cases k with
  | start op =>
    cases op with
    | enqueue event =>
      simp only [advance, enqueue]
      split
      · rcases hflush 0 (push event s) with ⟨hp, hd⟩ | ⟨hnone, hd⟩
        · exact .inl ⟨rfl, hp, hd⟩
        · exact .inr (.inl ⟨rfl, hnone, hd⟩)
      · exact .inl ⟨rfl, rfl, rfl⟩
    | flush =>
      rcases hflush 0 s with ⟨hp, hd⟩ | ⟨hnone, hd⟩
      · exact .inl ⟨rfl, hp, hd⟩
      · exact .inr (.inl ⟨rfl, hnone, hd⟩)
    | startFlushTimer =>
      simp only [advance]
      split <;> exact .inl ⟨rfl, rfl, rfl⟩
  | seeding persisted =>
    refine .inl ⟨rfl, ?_⟩
    simp only [advance]
    split
    · split <;> exact ⟨rfl, rfl⟩
    · exact ⟨rfl, rfl⟩
  | awaiting d =>
    simp only [advance]
    split
    · rename_i persisted _
      rcases hflush persisted s with ⟨hp, hd⟩ | ⟨hnone, hd⟩
      · exact .inl ⟨rfl, hp, hd⟩
      · exact .inr (.inl ⟨rfl, hnone, hd⟩)
    · exact .inl ⟨rfl, rfl, rfl⟩
  | inserting a p d batch =>
    refine .inr (.inr (.inl ⟨d, rfl, ?_⟩))
    simp only [advance]
    split
    · split
      · exact ⟨rfl, rfl⟩
      · exact hdrain a _ d _
    · exact ⟨rfl, rfl⟩
  | counting a p d batch counter inserted =>
    refine .inr (.inr (.inl ⟨d, rfl, ?_⟩))
    simp only [advance]
    split
    · exact hdrain a _ d _
    · exact ⟨rfl, rfl⟩
  | returning a d p => exact .inr (.inr (.inr ⟨a, d, p, rfl⟩))

theorem oneDrain_advance (ok : Bool) (h : OneDrain s (pre ++ .running k :: post)) :
    OneDrain (advance n ok k s).1 (pre ++ (advance n ok k s).2 :: post) := by
  unfold OneDrain at h ⊢
  obtain ⟨hk, hp, hd⟩ | ⟨hk, hnone, d, hp, hd⟩ | ⟨d, hk, hp, hd⟩ | ⟨a, d, p, rfl⟩ := drain_cases n ok k s
  · rw [gather_congr (hd.trans hk.symm), hp]
    exact h
  · rw [hnone, Option.toList_none, gather_split, List.append_eq_nil_iff, List.append_eq_nil_iff] at h
    rw [gather_split, h.1.1, h.2, hd, hp]
    rfl
  · rw [gather_congr (hd.trans hk.symm), hp]
    exact h
  · -- the one drain there is ends
    rw [gather_split, Task.gather, Call.drain] at h
    have hlen : ((gather Call.drain pre ++ [d]) ++ gather Call.drain post).length ≤ 1 := by
      rw [h]
      cases s.flushPromise <;> simp
    simp only [List.length_append, List.length_singleton] at hlen
    have hpre : gather Call.drain pre = [] := List.length_eq_zero_iff.mp (by omega)
    have hpost : gather Call.drain post = [] := List.length_eq_zero_iff.mp (by omega)
    rw [hpre, hpost] at h
    have hpromise : s.flushPromise = some d := by
      cases hs : s.flushPromise with
      | none => rw [hs] at h; cases h
      | some d' => rw [hs] at h; cases h; rfl
    rw [gather_split, hpre, hpost]
    simp [advance, hpromise, Task.gather]

/-- A batch whose counter is being written is in the table. -/
def Counted (s : State α) (ts : List (Task (Call α) Nat)) : Prop :=
  ∀ a p d batch counter inserted, .running (.counting a p d batch counter inserted) ∈ ts →
    ∀ e ∈ batch, e.sequenceNumber ∈ s.rows.map (·.sequenceNumber)

theorem counter_drainPending (n : Int) (a p d : Nat) (s : State α) :
    (drainPending n a p d s).2.gather Call.counter = [] := by
  unfold drainPending
  split
  · rfl
  · rfl

theorem counter_flush (n : Int) (a : Nat) (s : State α) : (flush n a s).2.gather Call.counter = [] := by
  unfold flush
  split
  · rfl
  · split
    · rfl
    · exact counter_drainPending n a 0 _ _

theorem inserted_of_counting {ok : Bool} {a p d : Nat} {batch : List (IndexedEventInput α)}
    {counter : Int} {inserted : Nat}
    (h : (advance n ok k s).2 = .running (.counting a p d batch counter inserted)) :
    ∀ e ∈ batch, e.sequenceNumber ∈ (advance n ok k s).1.rows.map (·.sequenceNumber) := by
  have hcounter : (advance n ok k s).2.gather Call.counter = [counter] := by
    rw [h]
    rfl
  cases k with
  | start op =>
    cases op with
    | enqueue event =>
      simp only [advance, enqueue] at hcounter
      split at hcounter
      · rw [counter_flush] at hcounter
        cases hcounter
      · cases hcounter
    | flush =>
      rw [advance, counter_flush] at hcounter
      cases hcounter
    | startFlushTimer =>
      simp only [advance] at hcounter
      split at hcounter
      · cases hcounter
      · cases hcounter
  | seeding persisted =>
    simp only [advance] at h
    split at h
    · split at h
      · cases h
      · cases h
    · cases h
  | awaiting d' =>
    simp only [advance] at hcounter
    split at hcounter
    · rw [counter_flush] at hcounter
      cases hcounter
    · cases hcounter
  | inserting a' p' d' batch' =>
    simp only [advance] at h ⊢
    split at h
    · rename_i hok
      rw [if_pos hok]
      split at h
      · rename_i hhigh
        rw [if_pos hhigh]
        cases h
        exact fun e he => stored_insertOrIgnore he
      · have hnone := congrArg (Task.gather Call.counter) h
        rw [persistedBatch, counter_drainPending] at hnone
        cases hnone
    · cases h
  | counting a' p' d' batch' counter' inserted' =>
    simp only [advance] at hcounter
    split at hcounter
    · rw [persistedBatch, counter_drainPending] at hcounter
      cases hcounter
    · cases hcounter
  | returning a' d' p' => cases h

theorem counted_advance (ok : Bool) (h : Counted s (pre ++ .running k :: post)) :
    Counted (advance n ok k s).1 (pre ++ (advance n ok k s).2 :: post) := by
  intro a p d batch counter inserted hmem
  have hold : .running (.counting a p d batch counter inserted) ∈ pre ++ .running k :: post →
      ∀ e ∈ batch, e.sequenceNumber ∈ (advance n ok k s).1.rows.map (·.sequenceNumber) :=
    fun hin e he =>
      List.map_subset _ (hands_advance n ok k s).rows (h a p d batch counter inserted hin e he)
  rw [List.mem_append, List.mem_cons] at hmem
  rcases hmem with hmem | hmem | hmem
  · exact hold (List.mem_append_left _ hmem)
  · exact inserted_of_counting hmem.symm
  · exact hold (List.mem_append_right _ (List.mem_cons_of_mem _ hmem))

/-- The calls that a `flush` goes through. -/
def Call.flushes : Call α → Bool
  | .start .flush | .awaiting _ | .inserting _ _ _ _ | .counting _ _ _ _ _ _ | .returning _ _ _ => true
  | _ => false

/-- The call waits for a write of the database. -/
def Call.writes : Call α → Bool
  | .inserting _ _ _ _ | .counting _ _ _ _ _ _ => true
  | _ => false

/-- The call has returned, or has nothing left to do but that. -/
def Over : Task (Call α) Nat → Prop
  | .running (.returning _ _ _) | .done _ => True
  | _ => False

theorem batch_of_over {t : Task (Call α) Nat} (h : Over t) : t.gather Call.batch = [] := by
  cases t with
  | done r => rfl
  | running k =>
    cases k with
    | returning a d p => rfl
    | start op => cases h
    | seeding persisted => cases h
    | awaiting d => cases h
    | inserting a p d batch => cases h
    | counting a p d batch counter inserted => cases h

/-- A drain goes on as long as the queue is not empty. -/
theorem over_drainPending {a p d : Nat} (h : Over (drainPending n a p d s).2) :
    (drainPending n a p d s).1.pendingBatch = [] := by
  unfold drainPending at h ⊢
  split at h
  · rename_i hempty
    rw [if_pos hempty]
    exact hempty
  · cases h

theorem over_flush {a : Nat} (h : Over (flush n a s).2) :
    s.flushPromise = none ∧ (flush n a s).1.pendingBatch = [] := by
  unfold flush at h ⊢
  split at h
  · cases h
  · rename_i hnone
    refine ⟨hnone, ?_⟩
    split at h
    · rename_i hempty
      simp only [hempty, if_true]
    · rename_i hsome
      rw [if_neg hsome]
      exact over_drainPending h

theorem flushes_flush (n : Int) (a : Nat) (s : State α) {k' : Call α}
    (h : (flush n a s).2 = .running k') : k'.flushes = true := by
  simp only [flush, drainPending] at h
  repeat' split at h
  all_goals cases h <;> rfl

theorem flushes_advance (ok : Bool) (hk : k.flushes = true) {k' : Call α}
    (h : (advance n ok k s).2 = .running k') : k'.flushes = true := by
  cases k with
  | start op =>
    cases op with
    | enqueue event => cases hk
    | flush => exact flushes_flush n 0 s h
    | startFlushTimer => cases hk
  | seeding persisted => cases hk
  | awaiting d =>
    simp only [advance] at h
    split at h
    · exact flushes_flush n _ s h
    · cases h
      rfl
  | inserting a p d batch =>
    simp only [advance, persistedBatch, drainPending] at h
    repeat' split at h
    all_goals (cases h; rfl)
  | counting a p d batch counter inserted =>
    simp only [advance, persistedBatch, drainPending] at h
    repeat' split at h
    all_goals (cases h; rfl)
  | returning a d p => cases h

theorem batch_others (h : OneDrain s (pre ++ .running k :: post))
    (hk : k.drain ≠ [] ∨ s.flushPromise = none) :
    gather Call.batch pre = [] ∧ gather Call.batch post = [] := by
  have hlen : (gather Call.drain (pre ++ .running k :: post)).length ≤ 1 := by
    rw [OneDrain] at h
    rw [h]
    cases s.flushPromise <;> simp
  have hothers : gather Call.drain pre = [] ∧ gather Call.drain post = [] := by
    rcases hk with hk | hnone
    · obtain ⟨d, hd⟩ := List.exists_mem_of_ne_nil _ hk
      exact others_of_gather_le_one hlen hd
    · rw [OneDrain, hnone, Option.toList_none, gather_split, List.append_eq_nil_iff,
        List.append_eq_nil_iff] at h
      exact ⟨h.1.1, h.2⟩
  exact ⟨gather_nil_of (fun _ => Call.batch_of_idle) hothers.1,
    gather_nil_of (fun _ => Call.batch_of_idle) hothers.2⟩

/-- A flush that has just come to its end: nothing is in flight, and the queue is empty or holds what
a failed write has left. -/
theorem over_advance {ok : Bool} (hone : OneDrain s (pre ++ .running k :: post))
    (hk : k.flushes = true) (hover : Over (advance n ok k s).2) :
    (∃ a d p, k = .returning a d p) ∨
    gather Call.batch (pre ++ (advance n ok k s).2 :: post) = [] ∧
      ((advance n ok k s).1.pendingBatch = [] ∨
        ok = false ∧ k.writes = true ∧
          (advance n ok k s).1.pendingBatch = k.held ++ s.pendingBatch) := by
  have hnone : k.drain ≠ [] ∨ s.flushPromise = none →
      gather Call.batch (pre ++ (advance n ok k s).2 :: post) = [] := by
    intro h
    obtain ⟨hpre, hpost⟩ := batch_others hone h
    rw [gather_split, hpre, hpost, batch_of_over hover]
    rfl
  cases k with
  | start op =>
    cases op with
    | enqueue event => cases hk
    | flush =>
      obtain ⟨hpromise, hempty⟩ := over_flush hover
      exact .inr ⟨hnone (.inr hpromise), .inl hempty⟩
    | startFlushTimer => cases hk
  | seeding persisted => cases hk
  | awaiting d =>
    simp only [advance] at hover hnone ⊢
    split at hover
    · rename_i hd
      simp only [hd] at hnone ⊢
      obtain ⟨hpromise, hempty⟩ := over_flush hover
      exact .inr ⟨hnone (.inr hpromise), .inl hempty⟩
    · cases hover
  | inserting a p d batch =>
    refine .inr ⟨hnone (.inl (by simp [Call.drain])), ?_⟩
    simp only [advance] at hover ⊢
    split at hover
    · rename_i hok
      rw [if_pos hok]
      split at hover
      · cases hover
      · rename_i hhigh
        rw [if_neg hhigh]
        exact .inl (over_drainPending hover)
    · rename_i hok
      rw [if_neg hok]
      exact .inr ⟨Bool.eq_false_of_not_eq_true hok, rfl, rfl⟩
  | counting a p d batch counter inserted =>
    refine .inr ⟨hnone (.inl (by simp [Call.drain])), ?_⟩
    simp only [advance] at hover ⊢
    split at hover
    · rename_i hok
      rw [if_pos hok]
      exact .inl (over_drainPending hover)
    · rename_i hok
      rw [if_neg hok]
      exact .inr ⟨Bool.eq_false_of_not_eq_true hok, rfl, rfl⟩
  | returning a d p => exact .inl ⟨a, d, p, rfl⟩

/-- What a failed write of the call `k` leaves outside the table. -/
def left (ok : Bool) (k : Call α) (s : State α) : List (IndexedEventInput α) :=
  if ok = false ∧ k.writes = true then k.batch ++ s.pendingBatch else []

/-- When a flush comes to its end, what was enqueued is in the table, but for what its own failed write
has left. -/
theorem over_settles {A : IndexedEventInput α → Prop} {ok : Bool}
    (hone : OneDrain s (pre ++ .running k :: post)) (hcustody : Custody A s (pre ++ .running k :: post))
    (hcounted : Counted s (pre ++ .running k :: post)) (hk : k.flushes = true)
    (hover : Over (advance n ok k s).2) :
    (∃ a d p, k = .returning a d p) ∨ ∀ e ∈ s.enqueued, e ∈ left ok k s ∨
      e.sequenceNumber ∈ (advance n ok k s).1.rows.map (·.sequenceNumber) := by
  have hhands := hands_advance n ok k s
  rcases over_advance hone hk hover with hreturning | ⟨hnone, hpending⟩
  · exact .inl hreturning
  · refine .inr fun e he => ?_
    have hkept := (custody_advance n ok hcustody).kept e
      (by rw [hhands.enqueued]; exact List.mem_append_left _ he)
    rw [hnone] at hkept
    rcases hkept with hin | hin | hin
    · rcases hpending with hempty | ⟨hok, hwrites, hback⟩
      · rw [hempty] at hin
        cases hin
      · rw [hback] at hin
        rw [left, if_pos ⟨hok, hwrites⟩]
        rcases List.mem_append.mp hin with hin | hin
        · cases k with
          | inserting a p d batch => exact .inl (List.mem_append_left _ hin)
          | counting a p d batch counter inserted =>
            exact .inr (List.map_subset _ hhands.rows
              (hcounted a p d batch counter inserted (by simp) e hin))
          | start op => cases hwrites
          | seeding persisted => cases hwrites
          | awaiting d => cases hwrites
          | returning a d p => cases hwrites
        · exact .inl (List.mem_append_right _ hin)
    · cases hin
    · exact .inr hin

/-! ## A flush that somebody waits for -/

/-- The call `j` is a flush, and `D` holds once it is over. -/
def Awaited (j : Nat) (D : State α → Prop) (c : Conf (State α) (Call α) Nat) : Prop :=
  ∃ t, c.tasks[j]? = some t ∧ (∀ k, t = .running k → k.flushes = true) ∧ (Over t → D c.shared)

/-- All that is known of the calls of the service, whatever fails. -/
structure Orderly (A : IndexedEventInput α → Prop) (c : Conf (State α) (Call α) Nat) : Prop where
  custody : Custody A c.shared c.tasks
  one : OneDrain c.shared c.tasks
  counted : Counted c.shared c.tasks

variable {A : IndexedEventInput α → Prop} {c : Conf (State α) (Call α) Nat} {D : State α → Prop}
  {j : Nat}

theorem orderly_step (n : Int) (a : Act Bool (Op α)) (h : Orderly A c)
    (ha : Meets (Brings A) (fun _ _ _ _ => True) c a) : Orderly A ((persistProc n).step c a) := by
  refine ⟨custody_step n c a h.custody ha, ?_, ?_⟩
  · refine step_inv (persistProc n) (I := OneDrain) ?_ ?_ c a h.one (meets_true c a)
    · intro s ts op _ hs
      rw [OneDrain, gather_spawn rfl]
      exact hs
    · exact fun s pre k post ok _ hs => oneDrain_advance ok hs
  · refine step_inv (persistProc n) (I := Counted) ?_ ?_ c a h.counted (meets_true c a)
    · intro s ts op _ hs a p d batch counter inserted hmem
      refine hs a p d batch counter inserted ?_
      simpa [persistProc] using hmem
    · exact fun s pre k post ok _ hs => counted_advance ok hs

theorem orderly_call (n : Int) (ok : Bool) {op : Op α} (h : Orderly A c) (hop : Brings A op) :
    Orderly A (call n ok op c) :=
  orderly_step n _ (orderly_step n (.spawn op) h hop) fun _ _ => trivial

theorem Orderly.mono {B : IndexedEventInput α → Prop} (hAB : ∀ e, A e → B e) (h : Orderly A c) :
    Orderly B c :=
  ⟨h.custody.mono hAB, h.one, h.counted⟩

theorem orderly_init {rows : List (IndexedEventInput α)} (counter : Int) (hrows : ∀ e ∈ rows, A e) :
    Orderly A (Conf.init (State.init rows counter)) where
  custody :=
    { enqueued := fun e he => by cases he
      pending := fun e he => by cases he
      held := fun e he => by cases he
      rows := hrows
      entering := fun e he => by cases he
      kept := fun e he => by cases he }
  one := rfl
  counted _ _ _ _ _ _ h := by cases h

/-- A step of another call. -/
theorem Awaited.other (n : Int) {i : Nat} (hij : i ≠ j) (ok : Bool) (h : Awaited j D c)
    (hmono : ∀ s' : State α, c.shared.rows ⊆ s'.rows → D c.shared → D s') :
    Awaited j D ((persistProc n).step c (.sched i ok)) := by
  obtain ⟨t, ht, hflushes, hover⟩ := h
  refine ⟨t, ?_, hflushes, fun ho => hmono _ (grows_step n c (.sched i ok)).1 (hover ho)⟩
  simp only [Proc.step]
  split
  · rw [List.getElem?_set_ne hij]
    exact ht
  · exact ht

theorem Awaited.call (n : Int) (ok : Bool) (op : Op α) (h : Awaited j D c)
    (hmono : ∀ s' : State α, c.shared.rows ⊆ s'.rows → D c.shared → D s') :
    Awaited j D (call n ok op c) := by
  obtain ⟨t, ht, hflushes, hover⟩ := h
  have hj : j < c.tasks.length := (List.getElem?_eq_some_iff.mp ht).1
  have hspawn : Awaited j D ((persistProc n).step c (.spawn op)) :=
    ⟨t, by rw [Proc.step, List.getElem?_append_left hj]; exact ht, hflushes, hover⟩
  exact hspawn.other n (by omega) ok hmono

/-- A step of the flush itself. -/
theorem Awaited.own (n : Int) {ok : Bool} (ho : Orderly A c) (h : Awaited j D c)
    (hmono : ∀ s' : State α, c.shared.rows ⊆ s'.rows → D c.shared → D s')
    (hsettled : ∀ k, c.tasks[j]? = some (.running k) → ∀ s' : State α, c.shared.rows ⊆ s'.rows →
      (∀ e ∈ s'.rows, A e) → (∀ e ∈ c.shared.enqueued, e ∈ left ok k c.shared ∨
        e.sequenceNumber ∈ s'.rows.map (·.sequenceNumber)) → D s') :
    Awaited j D ((persistProc n).step c (.sched j ok)) := by
  obtain ⟨t, ht, hflushes, hover⟩ := h
  cases t with
  | done r =>
    refine ⟨.done r, step_done (persistProc n) ht _, hflushes, fun _ => ?_⟩
    exact hmono _ (grows_step n c (.sched j ok)).1 (hover trivial)
  | running k =>
    obtain ⟨pre, post, htasks, hset⟩ := split_of_getElem? ht
    obtain ⟨hcustody, hone, hcounted⟩ := ho
    rw [htasks] at hcustody hone hcounted
    have hrows := (grows_step n c (.sched j ok)).1
    rw [step_sched (persistProc n) ht] at hrows ⊢
    have hlt : j < c.tasks.length := (List.getElem?_eq_some_iff.mp ht).1
    refine ⟨(advance n ok k c.shared).2, List.getElem?_set_self hlt,
      fun k' hk' => flushes_advance ok (hflushes k rfl) hk', fun hend => ?_⟩
    rcases over_settles hone hcustody hcounted (hflushes k rfl) hend with ⟨a, d, p, rfl⟩ | hall
    · exact hmono _ hrows (hover trivial)
    · exact hsettled k ht _ hrows (custody_advance n ok hcustody).rows hall

/-- A flush that is called is awaited, unless it returns at once. -/
theorem awaited_flush (n : Int) (ok : Bool) (ho : Orderly A c)
    (hsettled : ∀ s' : State α, c.shared.rows ⊆ s'.rows → (∀ e ∈ s'.rows, A e) →
      (∀ e ∈ c.shared.enqueued, e.sequenceNumber ∈ s'.rows.map (·.sequenceNumber)) → D s')
    (hmono : ∀ s' : State α, c.shared.rows ⊆ s'.rows → D c.shared → D s') :
    Awaited c.tasks.length D (call n ok .flush c) := by
  have hspawned : ((persistProc n).step c (.spawn .flush)).tasks[c.tasks.length]? =
      some (.running (.start .flush)) := by
    simp [Proc.step, persistProc]
  have hwait : Awaited c.tasks.length D ((persistProc n).step c (.spawn .flush)) := by
    refine ⟨_, hspawned, fun k hk => ?_, fun h => by cases h⟩
    cases hk
    rfl
  refine hwait.own n (orderly_step n (.spawn .flush) ho trivial) hmono fun k hk s' hrows hA hall => ?_
  rw [hspawned] at hk
  cases hk
  refine hsettled s' hrows hA fun e he => ?_
  rcases hall e he with hleft | hin
  · rw [left, if_neg (by simp [Call.writes])] at hleft
    cases hleft
  · exact hin

end

end Persistence

end Indexer
end TradeCore
