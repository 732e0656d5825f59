import TradeCore.Coordinator.Entities
import TradeCore.Lib.Interleave

/-!
# TradeCore.Coordinator.Timeout

Calls on one batch in any interleaving: `executeBatch`, `prepareBatch`, `commitBatch`,
`handleBatchTimeout` and `cancelBatch`, cut at every `await`.

An execution reads the status of the batch once, at its start. The timer of `executeWithTimeout`
calls `handleBatchTimeout` beside the execution and does not stop it, and each party saves its own
object. What a call learns from outside is an `Env`: whether the awaited call succeeds, what the
preparation finds out about a leg, and which of the legs that run at the same time goes on.

Nothing else is kept of the rows than the status of the batch and the statuses of the legs; `invoked`
lists the legs whose contract has been called.
-/

namespace TradeCore
namespace Coordinator
namespace Race

open Lib

structure Shared where
  status : BatchStatus
  legs : List LegStatus
  invoked : List Nat
  deriving DecidableEq, Repr

inductive Op where
  | executeBatch
  | prepareBatch
  | commitBatch
  | handleBatchTimeout
  | cancelBatch
  deriving DecidableEq, Repr

/-- What the preparation finds out about a leg that does not throw. -/
inductive Verdict where
  | prepared
  | skipped
  | unmet
  deriving DecidableEq, Repr

structure Env where
  ok : Bool
  leg : Nat
  verdict : Verdict
  deriving DecidableEq, Repr

/-- Where a leg stands in `prepareLeg` or `executeLeg`. -/
inductive LegRun where
  | todo
  | busy
  | writing (status : LegStatus)
  | logging (status : LegStatus)
  | failing
  | over (status : LegStatus) (threw : Bool)
  deriving DecidableEq, Repr

/-- The three ways into the executor. -/
inductive Mode where
  | whole
  | prepareOnly
  | commitOnly
  deriving DecidableEq, Repr

/-- Where a leg stands in `rollbackLeg`. -/
inductive Stage where
  | rollingBack
  | rolledBack
  | audit
  | again
  deriving DecidableEq, Repr

inductive Call where
  | read (op : Op)
  | load (mode : Mode)
  | auditStarted (legs : List LegStatus)
  | savePreparing (mode : Mode) (legs : List LegStatus)
  | preparing (mode : Mode) (legs : List LegRun)
  | checkPrepared (mode : Mode) (legs : List LegStatus)
  | savePrepared (mode : Mode) (legs : List LegStatus)
  | auditPrepared (mode : Mode) (legs : List LegStatus)
  | saveCommitting (mode : Mode) (legs : List LegStatus)
  | auditCommitting (mode : Mode) (legs : List LegStatus)
  | committing (mode : Mode) (legs : List LegRun)
  | saveCommitted (mode : Mode)
  | auditCommitted (mode : Mode)
  | undoing (mode : Mode) (legs : List Nat) (stage : Stage)
  | saveUndone (mode : Mode)
  | auditUndone (mode : Mode)
  | saveRollingBack
  | auditRollingBack
  | loadExecuted
  | rollingBack (legs : List Nat) (stage : Stage)
  | saveRolledBack
  | auditRolledBack
  | saveExpired
  | loadExpired
  | expiring (legs : List Nat)
  | saveCancelling
  | loadCancelling
  | cancelling (legs : List Nat)
  | saveCancelled
  | auditCancelled
  deriving DecidableEq, Repr

abbrev Next := Task Call Unit

/-- Where an error in the executor leads: `executeBatch` catches it and rolls back. -/
def thrown : Mode → Next
  | .whole => .running .saveRollingBack
  | _ => .done ()

/-- The legs with one of the given statuses. -/
def having (statuses : List LegStatus) (legs : List LegStatus) : List Nat :=
  (List.range legs.length).filter fun i => decide (legs[i]? ∈ statuses.map some)

/-- One awaited call of a leg: the first save, the work, the save of its outcome, the audit row, the
save of the `catch` block. -/
def LegRun.step (first : LegStatus) (work : LegRun) (e : Env) (legs : List LegStatus) :
    LegRun → LegRun × List LegStatus
  | .todo => if e.ok then (.busy, legs.set e.leg first) else (.over first true, legs)
  | .busy => (if e.ok then work else .failing, legs)
  | .writing status =>
    if e.ok then
      (if status = .failed then .over .failed false else .logging status, legs.set e.leg status)
    else (.failing, legs)
  | .logging status => (if e.ok then .over status false else .failing, legs)
  | .failing => (.over .failed true, if e.ok then legs.set e.leg .failed else legs)
  | .over status threw => (.over status threw, legs)

def Verdict.status : Verdict → LegStatus
  | .prepared => .prepared
  | .skipped => .skipped
  | .unmet => .failed

def LegRun.isOver : LegRun → Bool
  | .over _ _ => true
  | _ => false

/-- The status of the object of a leg that is over. -/
def LegRun.status : LegRun → LegStatus
  | .over status _ => status
  | _ => .pending

/-- A leg at the start of the commit phase: only prepared legs are executed. -/
def LegRun.ofStatus (status : LegStatus) : LegRun :=
  if status = .prepared then .todo else .over status false

def LegRun.threw : LegRun → Bool
  | .over _ threw => threw
  | _ => false

/-- The indices of the legs that were executed, the last one first. -/
def committedDesc (legs : List LegRun) : List Nat :=
  (List.range legs.length).reverse.filter fun i => decide (legs[i]? = some (.over .executed false))

/-- One awaited call of the rollback of the legs `i :: rest`: what it leaves to do, or an error. -/
def rollbackStep (e : Env) (i : Nat) (rest : List Nat) (legs : List LegStatus) :
    Stage → Option (List Nat × Stage) × List LegStatus
  | .rollingBack =>
    if e.ok then (some (i :: rest, .rolledBack), legs.set i .rollingBack) else (none, legs)
  | .rolledBack =>
    if e.ok then (some (i :: rest, .audit), legs.set i .rolledBack) else (some (i :: rest, .again), legs)
  | .audit => (some (if e.ok then (rest, .rollingBack) else (i :: rest, .again)), legs)
  | .again => if e.ok then (some (rest, .rollingBack), legs.set i .rolledBack) else (none, legs)

def advance (e : Env) (k : Call) (s : Shared) : Shared × Next :=
  match k with
  | .read .executeBatch => (s, if s.status = .created then .running (.load .whole) else .done ())
  | .read .prepareBatch => (s, if s.status = .created then .running (.load .prepareOnly) else .done ())
  | .read .commitBatch => (s, if s.status = .prepared then .running (.load .commitOnly) else .done ())
  | .read .handleBatchTimeout =>
    (s, if s.status ∈ [.created, .preparing, .prepared, .committing] then .running .saveExpired
      else .done ())
  | .read .cancelBatch =>
    (s,
      -- the caller is not the creator of the batch
      if !e.ok then .done ()
      else if s.status ∈ [.prepared, .preparing] then .running .saveCancelling
      else if s.status = .created then .running .saveCancelled
      else .done ())
  | .load .whole => (s, if s.legs = [] then thrown .whole else .running (.auditStarted s.legs))
  | .load .prepareOnly => (s, .running (.savePreparing .prepareOnly s.legs))
  | .load .commitOnly => (s, .running (.saveCommitting .commitOnly s.legs))
  | .auditStarted legs => (s, if e.ok then .running (.savePreparing .whole legs) else thrown .whole)
  | .savePreparing mode legs =>
    if e.ok then ({ s with status := .preparing }, .running (.preparing mode (legs.map fun _ => .todo)))
    else (s, thrown mode)
  | .preparing mode legs =>
    if legs.all LegRun.isOver then
      (s,
        if legs.all fun l => decide (l.status = .prepared ∨ l.status = .skipped) then
          .running (.checkPrepared mode (legs.map LegRun.status))
        else thrown mode)
    else
      match legs[e.leg]? with
      | some l =>
        let next := LegRun.step .preparing (.writing e.verdict.status) e s.legs l
        ({ s with legs := next.2 }, .running (.preparing mode (legs.set e.leg next.1)))
      | none => (s, .running (.preparing mode legs))
  | .checkPrepared mode legs => (s, if e.ok then .running (.savePrepared mode legs) else thrown mode)
  | .savePrepared mode legs =>
    if e.ok then ({ s with status := .prepared }, .running (.auditPrepared mode legs))
    else (s, thrown mode)
  | .auditPrepared mode legs =>
    (s,
      if !e.ok then thrown mode
      else if mode = .prepareOnly then .done ()
      else .running (.saveCommitting mode legs))
  | .saveCommitting mode legs =>
    if e.ok then ({ s with status := .committing }, .running (.auditCommitting mode legs))
    else (s, thrown mode)
  | .auditCommitting mode legs =>
    (s, if e.ok then .running (.committing mode (legs.map LegRun.ofStatus)) else thrown mode)
  | .committing mode legs =>
    if legs.all LegRun.isOver then
      (s,
        if legs.any LegRun.threw then .running (.undoing mode (committedDesc legs) .rollingBack)
        else .running (.saveCommitted mode))
    else
      match legs[e.leg]? with
      | some l =>
        let next := LegRun.step .executing (.writing .executed) e s.legs l
        ({ s with
            legs := next.2
            invoked := if l = .busy then s.invoked ++ [e.leg] else s.invoked },
          .running (.committing mode (legs.set e.leg next.1)))
      | none => (s, .running (.committing mode legs))
  | .saveCommitted mode =>
    if e.ok then ({ s with status := .committed }, .running (.auditCommitted mode)) else (s, thrown mode)
  | .auditCommitted mode => (s, if e.ok then .done () else thrown mode)
  | .undoing mode [] _ => (s, .running (.saveUndone mode))
  | .undoing mode (i :: rest) stage =>
    let next := rollbackStep e i rest s.legs stage
    ({ s with legs := next.2 },
      match next.1 with
      | some (legs, stage) => .running (.undoing mode legs stage)
      | none => thrown mode)
  | .saveUndone mode =>
    if e.ok then ({ s with status := .rolledBack }, .running (.auditUndone mode)) else (s, thrown mode)
  | .auditUndone mode => (s, if e.ok then .done () else thrown mode)
  | .saveRollingBack =>
    if e.ok then ({ s with status := .rollingBack }, .running .auditRollingBack) else (s, .done ())
  | .auditRollingBack => (s, if e.ok then .running .loadExecuted else .done ())
  | .loadExecuted => (s, .running (.rollingBack (having [.executed] s.legs).reverse .rollingBack))
  | .rollingBack [] _ => (s, .running .saveRolledBack)
  | .rollingBack (i :: rest) stage =>
    let next := rollbackStep e i rest s.legs stage
    ({ s with legs := next.2 },
      match next.1 with
      | some (legs, stage) => .running (.rollingBack legs stage)
      | none => .done ())
  | .saveRolledBack =>
    if e.ok then ({ s with status := .rolledBack }, .running .auditRolledBack) else (s, .done ())
  | .auditRolledBack => (s, .done ())
  | .saveExpired =>
    if e.ok then ({ s with status := .expired }, .running .loadExpired) else (s, .done ())
  | .loadExpired => (s, .running (.expiring (having [.prepared, .executed, .executing] s.legs)))
  | .expiring [] => (s, .done ())
  | .expiring (i :: rest) =>
    if e.ok then ({ s with legs := s.legs.set i .rolledBack }, .running (.expiring rest))
    else (s, .done ())
  | .saveCancelling =>
    if e.ok then ({ s with status := .rollingBack }, .running .loadCancelling) else (s, .done ())
  | .loadCancelling => (s, .running (.cancelling (having [.prepared, .executed] s.legs)))
  | .cancelling [] => (s, .running .saveCancelled)
  | .cancelling (i :: rest) =>
    if e.ok then ({ s with legs := s.legs.set i .rolledBack }, .running (.cancelling rest))
    else (s, .done ())
  | .saveCancelled =>
    if e.ok then ({ s with status := .rolledBack }, .running .auditCancelled) else (s, .done ())
  | .auditCancelled => (s, .done ())

def batchProc : Proc Shared Env Op Call Unit where
  start := .read
  adv := advance

/-! ## What can still commit -/

/-- A call that has found the batch ready and may still commit it or invoke a leg. -/
def Call.live : Call → Bool
  | .load _ | .auditStarted _ | .savePreparing _ _ | .preparing _ _ | .checkPrepared _ _
  | .savePrepared _ _ | .auditPrepared _ _ | .saveCommitting _ _ | .auditCommitting _ _
  | .committing _ _ | .saveCommitted _ => true
  | _ => false

/-- A step that is about to store that the batch has expired or is rolled back. -/
def Call.ends : Call → Bool
  | .saveUndone _ | .saveRolledBack | .saveExpired | .saveCancelled => true
  | _ => false

/-- The batch is given up only while no execution of it is under way. -/
def Alone (_ : Env) (k : Call) (_ : Shared) (ts : List Next) : Prop :=
  k.ends = true → AllRunning (fun k => k.live = false) ts

instance (e : Env) (k : Call) (s : Shared) (ts : List Next) : Decidable (Alone e k s ts) :=
  inferInstanceAs (Decidable (_ → _))

def Terminal (status : BatchStatus) : Prop := status = .expired ∨ status = .rolledBack

/-- The batch is given up for good: no call in flight can commit it, and no new one finds it ready. -/
def Closed (s : Shared) (ts : List Next) : Prop :=
  s.status ∈ [.expired, .rolledBack, .rollingBack] ∧ AllRunning (fun k => k.live = false) ts

section Step

variable {e : Env} {k : Call} {s s' : Shared} {n : Next}

/-- A step that leaves the batch given up. -/
structure StaysClosed (s s' : Shared) (n : Next) : Prop where
  status : s'.status ∈ [.expired, .rolledBack, .rollingBack]
  invoked : s'.invoked = s.invoked
  next : ∀ k, n = .running k → k.live = false

theorem thrown_not_live (mode : Mode) : ∀ k, thrown mode = .running k → k.live = false := by
  intro k h
  cases mode <;> cases h
  rfl

theorem StaysClosed.done (h : s'.status ∈ [.expired, .rolledBack, .rollingBack])
    (hi : s'.invoked = s.invoked) : StaysClosed s s' (.done ()) := ⟨h, hi, nofun⟩

theorem StaysClosed.running (h : s'.status ∈ [.expired, .rolledBack, .rollingBack])
    (hi : s'.invoked = s.invoked) (hk : k.live = false) : StaysClosed s s' (.running k) :=
  ⟨h, hi, fun _ heq => by cases heq; exact hk⟩

theorem StaysClosed.thrown (h : s'.status ∈ [.expired, .rolledBack, .rollingBack])
    (hi : s'.invoked = s.invoked) (mode : Mode) : StaysClosed s s' (thrown mode) :=
  ⟨h, hi, thrown_not_live mode⟩

theorem advance_closed (hs : s.status ∈ [.expired, .rolledBack, .rollingBack]) (hk : k.live = false) :
    StaysClosed s (advance e k s).1 (advance e k s).2 := by
  cases k with
  | read op =>
    -- no operation finds the batch in a status it starts from
    have hread : advance e (.read op) s = (s, .done ()) := by
      simp only [List.mem_cons, List.not_mem_nil, or_false] at hs
      rcases hs with h | h | h <;> cases op <;> simp [advance, h]
    rw [hread]
    exact .done hs rfl
  | load | auditStarted | savePreparing | preparing | checkPrepared | savePrepared | auditPrepared
  | saveCommitting | auditCommitting | committing | saveCommitted => cases hk
  | auditCommitted mode =>
    simp only [advance]
    split
    · exact .done hs rfl
    · exact .thrown hs rfl mode
  | undoing mode legs stage =>
    cases legs with
    | nil => exact .running hs rfl rfl
    | cons i rest =>
      simp only [advance]
      split
      · exact .running hs rfl rfl
      · exact ⟨hs, rfl, thrown_not_live mode⟩
  | saveUndone mode =>
    simp only [advance]
    split
    · exact .running (by simp) rfl rfl
    · exact .thrown hs rfl mode
  | auditUndone mode =>
    simp only [advance]
    split
    · exact .done hs rfl
    · exact .thrown hs rfl mode
  | rollingBack legs stage =>
    cases legs with
    | nil => exact .running hs rfl rfl
    | cons i rest =>
      simp only [advance]
      split
      · exact .running hs rfl rfl
      · exact .done hs rfl
  | auditRollingBack =>
    simp only [advance]
    split
    · exact .running hs rfl rfl
    · exact .done hs rfl
  | saveRollingBack | saveRolledBack | saveExpired | saveCancelling | saveCancelled =>
    simp only [advance]
    split
    · exact .running (by simp) rfl rfl
    · exact .done hs rfl
  | expiring legs =>
    cases legs with
    | nil => exact .done hs rfl
    | cons i rest =>
      simp only [advance]
      split
      · exact .running hs rfl rfl
      · exact .done hs rfl
  | cancelling legs =>
    cases legs with
    | nil => exact .running hs rfl rfl
    | cons i rest =>
      simp only [advance]
      split
      · exact .running hs rfl rfl
      · exact .done hs rfl
  | loadExecuted | loadExpired | loadCancelling => exact .running hs rfl rfl
  | auditRolledBack | auditCancelled => exact .done hs rfl

theorem advance_status (hk : k.ends = false) :
    (advance e k s).1.status = s.status ∨
      (advance e k s).1.status ∈ [.preparing, .prepared, .committing, .committed, .rollingBack] := by
  cases k with
  | read op =>
    left
    cases op <;> rfl
  | load mode =>
    left
    cases mode <;> rfl
  | savePreparing | savePrepared | saveCommitting | saveCommitted | saveRollingBack | saveCancelling =>
    simp only [advance]
    split
    · right
      simp
    · exact .inl rfl
  | preparing mode legs | committing mode legs =>
    left
    simp only [advance]
    split
    · rfl
    · split <;> rfl
  | undoing mode legs stage =>
    left
    cases legs <;> rfl
  | rollingBack legs stage =>
    left
    cases legs <;> rfl
  | expiring legs | cancelling legs =>
    left
    cases legs with
    | nil => rfl
    | cons i rest =>
      simp only [advance]
      split <;> rfl
  | saveUndone | saveRolledBack | saveExpired | saveCancelled => cases hk
  | auditStarted | checkPrepared | auditPrepared | auditCommitting | auditCommitted | auditUndone
  | auditRollingBack | loadExecuted | auditRolledBack | loadExpired | loadCancelling | auditCancelled =>
    exact .inl rfl

theorem advance_ends (hk : k.ends = true) (h : Terminal (advance e k s).1.status)
    (hs : ¬ Terminal s.status) : ∀ k', (advance e k s).2 = .running k' → k'.live = false := by
  cases k with
  | saveUndone | saveRolledBack | saveExpired | saveCancelled =>
    simp only [advance] at h ⊢
    split
    · rintro _ ⟨⟩
      rfl
    · rename_i hok
      rw [if_neg hok] at h
      exact absurd h hs
  | _ => cases hk

end Step

/-! ## Runs -/

/-- Whenever the batch has expired or is rolled back, it is given up for good. -/
def Settles (s : Shared) (ts : List Next) : Prop := Terminal s.status → Closed s ts

theorem closed_step (c : Conf Shared Call Unit) (a : Act Env Op) (h : Closed c.shared c.tasks) :
    Closed (batchProc.step c a).shared (batchProc.step c a).tasks ∧
      (batchProc.step c a).shared.invoked = c.shared.invoked := by
  obtain ⟨op, rfl, hs⟩ | ⟨i, e, k, pre, post, rfl, hi, ht, hs⟩ | hs := step_cases batchProc c a
  · rw [hs]
    exact ⟨⟨h.1, h.2.spawn rfl⟩, rfl⟩
  · rw [hs]
    obtain ⟨hstatus, hlive⟩ := h
    rw [ht] at hlive
    have hstay := advance_closed (e := e) hstatus hlive.here
    exact ⟨⟨hstay.status, hlive.replace hstay.next⟩, hstay.invoked⟩
  · rw [hs]
    exact ⟨h, rfl⟩

theorem closed_run (c : Conf Shared Call Unit) (acts : List (Act Env Op))
    (h : Closed c.shared c.tasks) :
    Closed (run batchProc.step c acts).shared (run batchProc.step c acts).tasks ∧
      (run batchProc.step c acts).shared.invoked = c.shared.invoked := by
  induction acts generalizing c with
  | nil => exact ⟨h, rfl⟩
  | cons a acts ih =>
    obtain ⟨h1, hinv⟩ := closed_step c a h
    obtain ⟨h2, hinv'⟩ := ih _ h1
    exact ⟨h2, hinv'.trans hinv⟩

theorem settles_step (c : Conf Shared Call Unit) (a : Act Env Op) (h : Settles c.shared c.tasks)
    (hG : Meets (fun _ => True) Alone c a) :
    Settles (batchProc.step c a).shared (batchProc.step c a).tasks := by
  intro hterm
  by_cases hbefore : Terminal c.shared.status
  · exact (closed_step c a (h hbefore)).1
  · -- the step itself stores the final status
    obtain ⟨op, rfl, hs⟩ | ⟨i, e, k, pre, post, rfl, hi, ht, hs⟩ | hs := step_cases batchProc c a
    · rw [hs] at hterm
      exact absurd hterm hbefore
    · rw [hs] at hterm ⊢
      cases hk : k.ends with
      | false =>
        rcases advance_status (e := e) (s := c.shared) hk with hsame | hother
        · rw [show (batchProc.adv e k c.shared).1.status = c.shared.status from hsame] at hterm
          exact absurd hterm hbefore
        · rcases hterm with hterm | hterm
          · rw [show (advance e k c.shared).1.status = .expired from hterm] at hother
            exact absurd hother (by decide)
          · rw [show (advance e k c.shared).1.status = .rolledBack from hterm] at hother
            exact absurd hother (by decide)
      | true =>
        have halone := hG k hi hk
        rw [ht] at halone
        refine ⟨?_, halone.replace (advance_ends hk hterm hbefore)⟩
        rcases hterm with hterm | hterm <;> rw [hterm] <;> simp
    · rw [hs] at hterm
      exact absurd hterm hbefore

/-- In every interleaving in which the batch is given up only while no execution of it is under way:
once it has expired or is rolled back it is never committed afterwards, and no further leg is
invoked. -/
theorem never_committed_after (s : Shared) (acts acts' : List (Act Env Op))
    (hG : Along batchProc.step (Meets (fun _ => True) Alone) (Conf.init s) acts)
    (h : Terminal (run batchProc.step (Conf.init s) acts).shared.status) :
    (run batchProc.step (Conf.init s) (acts ++ acts')).shared.status ≠ .committed ∧
      (run batchProc.step (Conf.init s) (acts ++ acts')).shared.invoked =
        (run batchProc.step (Conf.init s) acts).shared.invoked := by
  have h0 : Settles (Conf.init (κ := Call) (ρ := Unit) s).shared (Conf.init (κ := Call) (ρ := Unit) s).tasks := by
    intro hterm
    refine ⟨?_, AllRunning.nil⟩
    rcases hterm with hterm | hterm <;> rw [show (Conf.init s).shared.status = _ from hterm] <;> simp
  have hsettles := run_inv (I := fun c => Settles c.shared c.tasks) (fun c a => settles_step c a) h0 hG
  obtain ⟨hclosed, hinv⟩ := closed_run _ acts' (hsettles h)
  rw [run_append]
  refine ⟨fun hcom => ?_, hinv⟩
  have hstatus := hclosed.1
  rw [hcom] at hstatus
  exact absurd hstatus (by decide)

/-- The awaited call succeeds, for the first leg. -/
def fine : Env := ⟨true, 0, .prepared⟩

/-- An execution of a batch of one leg up to the commit phase, and then its timeout. -/
def timedOut : List (Act Env Op) :=
  .spawn .executeBatch :: List.replicate 14 (.sched 0 fine) ++
    [.spawn .handleBatchTimeout, .sched 1 fine, .sched 1 fine]

/-- The batch has expired, and then its leg is invoked and it is committed. -/
theorem committed_after_expired :
    Terminal (run batchProc.step (Conf.init ⟨.created, [.pending], []⟩) timedOut).shared.status ∧
      (run batchProc.step (Conf.init ⟨.created, [.pending], []⟩) timedOut).shared.invoked = [] ∧
      (run batchProc.step (Conf.init ⟨.created, [.pending], []⟩)
        (timedOut ++ List.replicate 6 (.sched 0 fine))).shared.status = .committed ∧
      (run batchProc.step (Conf.init ⟨.created, [.pending], []⟩)
        (timedOut ++ List.replicate 6 (.sched 0 fine))).shared.invoked = [0] :=
  ⟨.inl (by decide), by decide, by decide, by decide⟩

/-- A batch is prepared and then cancelled; a commit that comes later is refused. -/
def cancelled : List (Act Env Op) :=
  .spawn .prepareBatch :: List.replicate 11 (.sched 0 fine) ++
    .spawn .cancelBatch :: List.replicate 6 (.sched 1 fine)

theorem cancelled_not_committed :
    (run batchProc.step (Conf.init ⟨.created, [.pending], []⟩) cancelled).shared.status = .rolledBack ∧
      (run batchProc.step (Conf.init ⟨.created, [.pending], []⟩)
        (cancelled ++ .spawn .commitBatch :: List.replicate 6 (.sched 2 fine))).shared.status ≠ .committed := by
  have hrow : (run batchProc.step (Conf.init ⟨.created, [.pending], []⟩) cancelled).shared.status =
      .rolledBack := by decide
  have hG : Along batchProc.step (Meets (fun _ => True) Alone)
      (Conf.init ⟨.created, [.pending], []⟩) cancelled := by decide
  exact ⟨hrow, (never_committed_after _ cancelled _ hG (.inr hrow)).1⟩

end Race
end Coordinator
end TradeCore
