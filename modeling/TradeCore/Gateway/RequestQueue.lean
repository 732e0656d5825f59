import Mathlib.Data.List.Perm.Basic
import Mathlib.Data.List.Nodup
import TradeCore.Lib.Run

/-!
# TradeCore.Gateway.RequestQueue

The request queue of the Stellar gateway: a bounded list of requests, a loop that starts them while
fewer than `maxConcurrentRequests` are active, and the callbacks that settle a request and count it
off. A request is the number of the `enqueue` call that accepted it.

A request ends in two callbacks. `executeRequest` settles the caller's promise; the `finally` behind
it runs in a later microtask, after the caller has already gone on.

* `queue_run`: the joint invariant over every order of the callbacks. Each accepted request is waiting,
  executing or settled, once; requests start in order; the active ones are those executing and those
  whose `finally` is still to run.
* `settled_before_finally`: a caller that goes on as soon as its request is settled still finds it
  counted as active.
-/

namespace TradeCore
namespace Gateway

open Lib

structure QueueConfig where
  maxQueueSize : Nat
  maxConcurrentRequests : Nat
  deriving DecidableEq, Repr

inductive Outcome where
  | resolved
  | rejected (message : String)
  deriving DecidableEq, Repr

/-- The service, and behind it the promises: `executing` are the requests whose `execute()` is
pending, `finishing` those that are settled and not counted off yet, `started` and `settled` what has
been started and settled so far. -/
structure RequestQueue where
  queue : List Nat
  activeRequests : Nat
  isProcessing : Bool
  accepted : Nat
  executing : List Nat
  finishing : List Nat
  started : List Nat
  settled : List (Nat × Outcome)
  deriving DecidableEq, Repr

namespace RequestQueue

def init : RequestQueue := ⟨[], 0, false, 0, [], [], [], []⟩

def queueFull : String := "Stellar request queue is full. Please try again later."

def queueCleared : String := "Queue cleared by administrator"

def enqueue (cfg : QueueConfig) (q : RequestQueue) : Except String RequestQueue :=
  if cfg.maxQueueSize ≤ q.queue.length then .error queueFull
  else .ok { q with queue := q.queue ++ [q.accepted], accepted := q.accepted + 1 }

/-- A tick of the timer enters the loop, unless it runs already. -/
def processQueue (q : RequestQueue) : RequestQueue :=
  if q.isProcessing then q else { q with isProcessing := true }

/-- One evaluation of the condition of the loop: start the first request, or leave. -/
def iterate (cfg : QueueConfig) (q : RequestQueue) : RequestQueue :=
  match q.queue with
  | [] => { q with isProcessing := false }
  | request :: rest =>
    if q.activeRequests < cfg.maxConcurrentRequests then
      { q with
        queue := rest
        activeRequests := q.activeRequests + 1
        executing := q.executing ++ [request]
        started := q.started ++ [request] }
    else { q with isProcessing := false }

/-- `execute()` has ended, and `executeRequest` settles the promise of the caller. -/
def complete (q : RequestQueue) (request : Nat) (outcome : Outcome) : RequestQueue :=
  { q with
    executing := q.executing.erase request
    finishing := q.finishing ++ [request]
    settled := q.settled ++ [(request, outcome)] }

/-- The callback of `finally`. -/
def finish (q : RequestQueue) (request : Nat) : RequestQueue :=
  { q with activeRequests := q.activeRequests - 1, finishing := q.finishing.erase request }

def clearQueue (q : RequestQueue) : RequestQueue :=
  { q with
    queue := []
    settled := q.settled ++ q.queue.map fun request => (request, .rejected queueCleared) }

inductive Event where
  | enqueue
  | tick
  | iterate
  | complete (request : Nat) (outcome : Outcome)
  | finish (request : Nat)
  | clearQueue
  deriving DecidableEq, Repr

def step (cfg : QueueConfig) (q : RequestQueue) : Event → RequestQueue
  | .enqueue =>
    match q.enqueue cfg with
    | .ok q' => q'
    | .error _ => q
  | .tick => q.processQueue
  | .iterate => if q.isProcessing then q.iterate cfg else q
  | .complete request outcome => if request ∈ q.executing then q.complete request outcome else q
  | .finish request => if request ∈ q.finishing then q.finish request else q
  | .clearQueue => q.clearQueue

/-! ## The invariant -/

/-- The waiting, the executing and the settled requests together. -/
def requests (q : RequestQueue) : List Nat := q.queue ++ q.executing ++ q.settled.map (·.1)

structure Inv (cfg : QueueConfig) (q : RequestQueue) : Prop where
  active : q.activeRequests = q.executing.length + q.finishing.length
  active_le : q.activeRequests ≤ cfg.maxConcurrentRequests
  queue_le : q.queue.length ≤ cfg.maxQueueSize
  partition : q.requests.Perm (List.range q.accepted)
  /-- Started and waiting requests together are in the order they were accepted in. -/
  order : (q.started ++ q.queue).Pairwise (· < ·)
  executing_started : ∀ id ∈ q.executing, id ∈ q.started
  started_lt : ∀ id ∈ q.started, id < q.accepted

theorem Inv.lt_accepted {cfg : QueueConfig} {q : RequestQueue} (h : Inv cfg q) {id : Nat}
    (hid : id ∈ q.requests) : id < q.accepted :=
  List.mem_range.mp (h.partition.mem_iff.mp hid)

theorem Inv.init (cfg : QueueConfig) : Inv cfg init where
  active := rfl
  active_le := Nat.zero_le _
  queue_le := Nat.zero_le _
  partition := .refl _
  order := .nil
  executing_started := nofun
  started_lt := nofun

/-- The loop is entered or left. -/
theorem Inv.processing {cfg : QueueConfig} {q : RequestQueue} (h : Inv cfg q) (isProcessing : Bool) :
    Inv cfg { q with isProcessing } :=
  ⟨h.active, h.active_le, h.queue_le, h.partition, h.order, h.executing_started, h.started_lt⟩

theorem Inv.enqueue {cfg : QueueConfig} {q q' : RequestQueue} (h : Inv cfg q)
    (he : q.enqueue cfg = .ok q') : Inv cfg q' := by
  unfold RequestQueue.enqueue at he
  split at he
  · cases he
  · rename_i hroom
    cases he
    refine ⟨h.active, h.active_le, ?_, ?_, ?_, h.executing_started, ?_⟩
    · rw [List.length_append, List.length_singleton]
      omega
    · have hmove : (q.queue ++ [q.accepted] ++ q.executing ++ q.settled.map (·.1)).Perm
          (q.requests ++ [q.accepted]) := by
        simp only [requests, List.append_assoc]
        refine List.Perm.append_left _ ?_
        rw [← List.append_assoc q.executing]
        exact List.perm_append_comm
      rw [List.range_succ]
      exact hmove.trans (h.partition.append_right _)
    · rw [← List.append_assoc]
      refine List.pairwise_append.mpr ⟨h.order, List.pairwise_singleton _ _, ?_⟩
      intro id hid id' hid'
      rw [List.mem_singleton.mp hid']
      rcases List.mem_append.mp hid with hid | hid
      · exact h.started_lt id hid
      · exact h.lt_accepted (by simp [requests, hid])
    · intro id hid
      exact Nat.lt_succ_of_lt (h.started_lt id hid)

theorem Inv.iterate {cfg : QueueConfig} {q : RequestQueue} (h : Inv cfg q) :
    Inv cfg (q.iterate cfg) := by
  unfold RequestQueue.iterate
  split
  · exact h.processing false
  · rename_i request rest hqueue
    split
    · rename_i hlt
      have hle := h.queue_le
      rw [hqueue, List.length_cons] at hle
      refine ⟨?_, hlt, Nat.le_of_succ_le hle, ?_, ?_, ?_, ?_⟩
      · have := h.active
        dsimp only
        rw [List.length_append, List.length_singleton]
        omega
      · have hmove : (rest ++ (q.executing ++ [request]) ++ q.settled.map (·.1)).Perm q.requests := by
          simp only [requests, hqueue, ← List.append_assoc]
          refine List.Perm.append_right _ ?_
          exact List.perm_append_comm
        exact hmove.trans h.partition
      · have := h.order
        rw [hqueue, List.append_cons] at this
        exact this
      · intro id hid
        rcases List.mem_append.mp hid with hid | hid
        · exact List.mem_append_left _ (h.executing_started id hid)
        · exact List.mem_append_right _ hid
      · intro id hid
        rcases List.mem_append.mp hid with hid | hid
        · exact h.started_lt id hid
        · rw [List.mem_singleton.mp hid]
          exact h.lt_accepted (by simp [requests, hqueue])
    · exact h.processing false

theorem Inv.complete {cfg : QueueConfig} {q : RequestQueue} (h : Inv cfg q) {request : Nat}
    (hin : request ∈ q.executing) (outcome : Outcome) : Inv cfg (q.complete request outcome) := by
  have hlen := List.length_erase_of_mem hin
  have hpos := List.length_pos_of_mem hin
  refine ⟨?_, h.active_le, h.queue_le, ?_, h.order, ?_, h.started_lt⟩
  · have := h.active
    simp only [RequestQueue.complete, List.length_append, List.length_singleton, hlen]
    omega
  · have hmove : (q.complete request outcome).requests.Perm q.requests := by
      simp only [requests, RequestQueue.complete, List.append_assoc, List.map_append]
      refine List.Perm.append_left _ ?_
      calc q.executing.erase request ++ (q.settled.map (·.1) ++ [request])
          = q.executing.erase request ++ q.settled.map (·.1) ++ [request] := by rw [List.append_assoc]
        _ |>.Perm (request :: (q.executing.erase request ++ q.settled.map (·.1))) :=
          List.perm_append_singleton _ _
        _ |>.Perm (q.executing ++ q.settled.map (·.1)) :=
          (List.perm_cons_erase hin).symm.append_right _
    exact hmove.trans h.partition
  · intro id hid
    exact h.executing_started id (List.mem_of_mem_erase hid)

theorem Inv.finish {cfg : QueueConfig} {q : RequestQueue} (h : Inv cfg q) {request : Nat}
    (hin : request ∈ q.finishing) : Inv cfg (q.finish request) := by
  have hlen := List.length_erase_of_mem hin
  have hpos := List.length_pos_of_mem hin
  refine ⟨?_, ?_, h.queue_le, h.partition, h.order, h.executing_started, h.started_lt⟩
  · have := h.active
    simp only [RequestQueue.finish, hlen]
    omega
  · exact Nat.le_trans (Nat.sub_le _ _) h.active_le

theorem Inv.clearQueue {cfg : QueueConfig} {q : RequestQueue} (h : Inv cfg q) :
    Inv cfg q.clearQueue := by
  refine ⟨h.active, h.active_le, Nat.zero_le _, ?_, ?_, h.executing_started, h.started_lt⟩
  · have hmove : q.clearQueue.requests.Perm q.requests := by
      have hids : (q.queue.map fun request => (request, Outcome.rejected queueCleared)).map (·.1) =
          q.queue := by
        rw [List.map_map]
        exact List.map_id _
      simp only [requests, RequestQueue.clearQueue, List.nil_append, List.map_append, hids]
      rw [← List.append_assoc]
      exact List.perm_append_comm.trans (by rw [List.append_assoc])
    exact hmove.trans h.partition
  · have := (List.pairwise_append.mp h.order).1
    simpa [RequestQueue.clearQueue] using this

theorem Inv.step {cfg : QueueConfig} {q : RequestQueue} (h : Inv cfg q) (e : Event) :
    Inv cfg (step cfg q e) := by
  cases e with
  | enqueue =>
    simp only [RequestQueue.step]
    split
    · rename_i he
      exact h.enqueue he
    · exact h
  | tick =>
    simp only [RequestQueue.step, processQueue]
    split
    · exact h
    · exact h.processing true
  | iterate =>
    simp only [RequestQueue.step]
    split
    · exact h.iterate
    · exact h
  | complete request outcome =>
    simp only [RequestQueue.step]
    split
    · rename_i hin
      exact h.complete hin outcome
    · exact h
  | finish request =>
    simp only [RequestQueue.step]
    split
    · rename_i hin
      exact h.finish hin
    · exact h
  | clearQueue => exact h.clearQueue

theorem inv_run (cfg : QueueConfig) (events : List Event) : Inv cfg (run (step cfg) init events) :=
  run_inv (G := fun _ _ => True) (fun _ e h _ => h.step e) (.init cfg)
    along_true

theorem Inv.mem_queue {cfg : QueueConfig} {q : RequestQueue} (h : Inv cfg q) (id : Nat) :
    id ∈ q.queue ↔ id < q.accepted ∧ id ∉ q.started ∧ id ∉ q.settled.map (·.1) := by
  have hnodup : q.requests.Nodup := h.partition.nodup_iff.mpr List.nodup_range
  constructor
  · intro hid
    refine ⟨h.lt_accepted (by simp [requests, hid]), fun hs => ?_, fun hs => ?_⟩
    · exact Nat.lt_irrefl _ ((List.pairwise_append.mp h.order).2.2 id hs id hid)
    · exact (List.disjoint_of_nodup_append hnodup) (List.mem_append_left _ hid) hs
  · rintro ⟨hlt, hstarted, hsettled⟩
    have hin := h.partition.mem_iff.mpr (List.mem_range.mpr hlt)
    rcases List.mem_append.mp hin with hin | hin
    · rcases List.mem_append.mp hin with hin | hin
      · exact hin
      · exact absurd (h.executing_started id hin) hstarted
    · exact absurd hin hsettled

/-- In every order of the events: the active requests are those executing and those whose `finally`
is still to run, and neither limit is passed; requests start in the order they were accepted in;
each accepted one is waiting, executing or settled, and once; and `clearQueue` rejects those that were
neither started nor settled. -/
theorem queue_run (cfg : QueueConfig) (events : List Event) :
    let q := run (step cfg) init events
    q.activeRequests = q.executing.length + q.finishing.length ∧
    q.activeRequests ≤ cfg.maxConcurrentRequests ∧ q.queue.length ≤ cfg.maxQueueSize ∧
    q.started.Pairwise (· < ·) ∧
    (q.queue ++ q.executing ++ q.settled.map (·.1)).Perm (List.range q.accepted) ∧
    ∃ ids : List Nat, q.clearQueue.settled =
        q.settled ++ ids.map (fun id => (id, .rejected queueCleared)) ∧
      ∀ id, id ∈ ids ↔ id < q.accepted ∧ id ∉ q.started ∧ id ∉ q.settled.map (·.1) := by
  have h := inv_run cfg events
  exact ⟨h.active, h.active_le, h.queue_le, (List.pairwise_append.mp h.order).1, h.partition,
    _, rfl, h.mem_queue⟩

/-- The caller of request 0 goes on, and enqueues another one, between the two callbacks: nothing is
executing and one request is active. -/
theorem settled_before_finally :
    let q := run (step ⟨100, 5⟩) init [.enqueue, .tick, .iterate, .iterate, .complete 0 .resolved,
      .enqueue]
    q.executing = [] ∧ q.activeRequests = 1 := by decide

end RequestQueue

end Gateway
end TradeCore
