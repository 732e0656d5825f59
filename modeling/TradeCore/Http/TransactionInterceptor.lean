import Mathlib.Data.List.Basic

/-!
# TradeCore.Http.TransactionInterceptor

`TransactionInterceptor`: a request handler inside one database transaction.

An async function is the tree of the calls it awaits. What it does is a list of events: up to its
first `await` it runs with its caller (`started`), the rest happens later (`resumed`). The operators of
the stream differ in what they do with the promise of their callback: `tap` drops it and hands the
value on as soon as the callback gives up control, `catchError` waits for it.

The commit runs in the callback of the `tap`. So the value is out before the commit has ended, and
only requests whose handler fails are treated as the interceptor promises (`transactional_iff_failed`).
The query runner is given back unless the commit fails (`released_iff`).
-/

namespace TradeCore
namespace Http

/-- The calls on the query runner. -/
inductive Call where
  | connect
  | startTransaction
  | commitTransaction
  | rollbackTransaction
  | release
  deriving DecidableEq, Repr

inductive Event (α ε : Type) where
  | called (call : Call)
  | settled (call : Call) (result : Except ε Unit)
  /-- `request.queryRunner` is set. -/
  | attached
  | logged (message : String)
  /-- What the rest of the request sees: a response value, or that the request has failed. -/
  | emitted (result : Except ε α)
  /-- A promise that nobody waits for has been rejected. -/
  | unhandled (error : ε)

variable {α ε : Type}

/-! ## Async functions -/

inductive Async (ε β : Type) where
  | returned (b : β)
  | thrown (e : ε)
  | log (message : String) (next : Async ε β)
  | await (call : Call) (next : Except ε Unit → Async ε β)

namespace Async

variable {β : Type}

/-- What the function does before it first gives up control. -/
def started : Async ε β → List (Event α ε)
  | .returned _ | .thrown _ => []
  | .log message next => .logged message :: next.started
  | .await call _ => [.called call]

/-- What it does from then on, when the calls end as `db` says. -/
def resumed (db : Call → Except ε Unit) : Async ε β → List (Event α ε)
  | .returned _ | .thrown _ => []
  | .log _ next => next.resumed db
  | .await call next =>
    .settled call (db call) :: ((next (db call)).started ++ (next (db call)).resumed db)

def result (db : Call → Except ε Unit) : Async ε β → Except ε β
  | .returned b => .ok b
  | .thrown e => .error e
  | .log _ next => next.result db
  | .await call next => (next (db call)).result db

/-- `await call`, which throws what the call throws. -/
def call (c : Call) (next : Async ε β) : Async ε β :=
  .await c fun
    | .error e => .thrown e
    | .ok () => next

end Async

/-! ## The interceptor -/

/-- `tap` with an async callback, on a value. -/
def tap (db : Call → Except ε Unit) (callback : Async ε Unit) (value : α) : List (Event α ε) :=
  callback.started ++ .emitted (.ok value) :: callback.resumed db ++
    match callback.result db with
    | .ok () => []
    | .error e => [.unhandled e]

/-- `catchError` with an async selector, on an error. -/
def catchError (db : Call → Except ε Unit) (selector : ε → Async ε α) (err : ε) : List (Event α ε) :=
  (selector err).started ++ (selector err).resumed db ++ [.emitted ((selector err).result db)]

def intercept.commit : Async ε Unit :=
  .call .commitTransaction (.call .release (.returned ()))

def intercept.rollback (message : ε → String) (err : ε) : Async ε α :=
  let finally_ : Async ε α := .call .release (.thrown err)
  .await .rollbackTransaction fun
    | .ok () => finally_
    | .error rollbackErr =>
      .log ("Failed to roll back transaction: " ++ message rollbackErr) finally_

def intercept.start : Async ε Unit :=
  .call .connect (.call .startTransaction (.returned ()))

/-- What `intercept` and the stream it returns do, for a handler that ends with `outcome`. -/
def intercept (http : Bool) (message : ε → String) (db : Call → Except ε Unit)
    (outcome : Except ε α) : List (Event α ε) :=
  if ¬ http then [.emitted outcome]
  else
    let start : Async ε Unit := intercept.start
    start.started ++ start.resumed db ++
      match start.result db with
      | .error e => [.emitted (.error e)]
      | .ok () => .attached ::
        match outcome with
        | .ok value => tap db intercept.commit value
        | .error err => catchError db (intercept.rollback message) err

/-! ## What the interceptor promises -/

/-- The event is a call that gives the query runner back. -/
def Event.isRelease : Event α ε → Bool
  | .called .release => true
  | _ => false

structure Transactional (outcome : Except ε α) (events : List (Event α ε)) : Prop where
  afterCommit : ∀ before value after, events = before ++ .emitted (.ok value) :: after →
    .settled .commitTransaction (.ok ()) ∈ before
  commitFailed : ∀ e, .settled .commitTransaction (.error e) ∈ events →
    (∃ e', .emitted (.error e') ∈ events) ∧ ∀ value, .emitted (.ok value) ∉ events
  handlerFailed : ∀ err, outcome = .error err →
    .called .rollbackTransaction ∈ events ∧ .called .commitTransaction ∉ events
  released : (events.filter Event.isRelease).length = 1

variable (message : ε → String) {db : Call → Except ε Unit} {outcome : Except ε α}

theorem intercept_started (hconnect : db .connect = .ok ()) (hstart : db .startTransaction = .ok ()) :
    intercept true message db outcome =
      ([.called .connect, .settled .connect (.ok ()), .called .startTransaction,
        .settled .startTransaction (.ok ()), .attached] : List (Event α ε)) ++
        match outcome with
        | .ok value => tap db intercept.commit value
        | .error err => catchError db (intercept.rollback message) err := by
  simp [intercept, intercept.start, Async.call, Async.started, Async.resumed, Async.result, hconnect,
    hstart]

theorem intercept_failed (hconnect : db .connect = .ok ()) (hstart : db .startTransaction = .ok ())
    (err : ε) : ∃ logs : List (Event α ε), (∀ e ∈ logs, ∃ s, e = .logged s) ∧ ∃ e,
      intercept true message db (.error err : Except ε α) =
        ([.called .connect, .settled .connect (.ok ()), .called .startTransaction,
          .settled .startTransaction (.ok ()), .attached, .called .rollbackTransaction,
          .settled .rollbackTransaction (db .rollbackTransaction)] : List (Event α ε)) ++ logs ++
          ([.called .release, .settled .release (db .release), .emitted (.error e)] :
            List (Event α ε)) := by
  rw [intercept_started message hconnect hstart]
  have hend : ∃ e, (Async.call .release (.thrown err) : Async ε α).result db = .error e ∧
      (Async.call .release (.thrown err) : Async ε α).resumed db =
        [(.settled .release (db .release) : Event α ε)] := by
    cases hr : db .release with
    | ok _ => exact ⟨err, by simp [Async.call, Async.result, hr],
        by simp [Async.call, Async.resumed, Async.started, hr]⟩
    | error e => exact ⟨e, by simp [Async.call, Async.result, hr],
        by simp [Async.call, Async.resumed, Async.started, hr]⟩
  obtain ⟨e, hres, hevents⟩ := hend
  cases hroll : db .rollbackTransaction with
  | ok _ =>
    refine ⟨[], List.forall_mem_nil _, e, ?_⟩
    simp only [catchError, intercept.rollback, Async.started, Async.resumed, Async.result, hroll, hres,
      hevents]
    rfl
  | error rollbackErr =>
    refine ⟨[.logged ("Failed to roll back transaction: " ++ message rollbackErr)],
      List.forall_mem_singleton.mpr ⟨_, rfl⟩, e, ?_⟩
    simp only [catchError, intercept.rollback, Async.started, Async.resumed, Async.result, hroll, hres,
      hevents]
    rfl

theorem intercept_value (hconnect : db .connect = .ok ()) (hstart : db .startTransaction = .ok ())
    (value : α) : ∃ rest : List (Event α ε),
      intercept true message db (.ok value : Except ε α) =
        ([.called .connect, .settled .connect (.ok ()), .called .startTransaction,
          .settled .startTransaction (.ok ()), .attached, .called .commitTransaction] :
            List (Event α ε)) ++
          .emitted (.ok value) :: .settled .commitTransaction (db .commitTransaction) :: rest ∧
      (rest.filter Event.isRelease).length = if (db .commitTransaction).isOk then 1 else 0 := by
  rw [intercept_started message hconnect hstart]
  cases hcommit : db .commitTransaction with
  | error e =>
    refine ⟨[.unhandled e], ?_, rfl⟩
    simp [tap, intercept.commit, Async.call, Async.started, Async.resumed, Async.result, hcommit]
  | ok _ =>
    cases hrel : db .release with
    | ok _ =>
      refine ⟨[.called .release, .settled .release (.ok ())], ?_, rfl⟩
      simp [tap, intercept.commit, Async.call, Async.started, Async.resumed, Async.result, hcommit, hrel]
    | error e =>
      refine ⟨[.called .release, .settled .release (.error e), .unhandled e], ?_, rfl⟩
      simp [tap, intercept.commit, Async.call, Async.started, Async.resumed, Async.result, hcommit, hrel]

/-- The query runner is given back once, unless the commit fails. -/
theorem released_iff (hconnect : db .connect = .ok ()) (hstart : db .startTransaction = .ok ()) :
    ((intercept true message db outcome).filter Event.isRelease).length = 1 ↔
      ((∃ err, outcome = .error err) ∨ db .commitTransaction = .ok ()) := by
  cases outcome with
  | error err =>
    obtain ⟨logs, hlogs, e, he⟩ := @intercept_failed α ε message db hconnect hstart err
    have hnone : logs.filter Event.isRelease = [] := by
      refine List.filter_eq_nil_iff.mpr fun x hx => ?_
      obtain ⟨s, rfl⟩ := hlogs x hx
      simp [Event.isRelease]
    rw [he, List.filter_append, List.filter_append, hnone]
    exact iff_of_true rfl (.inl ⟨err, rfl⟩)
  | ok value =>
    obtain ⟨rest, he, hrest⟩ := intercept_value message hconnect hstart value
    rw [he, List.filter_append]
    show (rest.filter Event.isRelease).length = 1 ↔ _
    rw [hrest]
    cases db .commitTransaction with
    | ok _ => exact iff_of_true rfl (.inr rfl)
    | error e => simp [Except.isOk, Except.toBool]

/-- **The promise is kept exactly for the handlers that fail**, whatever commit, rollback and release
do. -/
theorem transactional_iff_failed (hconnect : db .connect = .ok ())
    (hstart : db .startTransaction = .ok ()) :
    Transactional outcome (intercept true message db outcome) ↔ ∃ err, outcome = .error err := by
  constructor
  · intro h
    cases outcome with
    | error err => exact ⟨err, rfl⟩
    | ok value =>
      obtain ⟨rest, he, -⟩ := intercept_value message hconnect hstart value
      have hbefore := h.afterCommit _ value _ he
      simp at hbefore
  · rintro ⟨err, rfl⟩
    have hreleased := (@released_iff α ε message db (.error err) hconnect hstart).mpr (.inl ⟨err, rfl⟩)
    obtain ⟨logs, hlogs, e, he⟩ := @intercept_failed α ε message db hconnect hstart err
    rw [he] at hreleased ⊢
    have hlog : ∀ {x : Event α ε}, (∀ s, x ≠ .logged s) → x ∉ logs := by
      intro x hx hmem
      obtain ⟨s, rfl⟩ := hlogs x hmem
      exact hx s rfl
    refine ⟨fun before value after hsplit => ?_, fun e' hmem => ?_, fun _ _ => ⟨by simp, ?_⟩, hreleased⟩
    · have hmem : (.emitted (.ok value) : Event α ε) ∈ before ++ .emitted (.ok value) :: after := by simp
      rw [← hsplit] at hmem
      simp [hlog] at hmem
    · simp [hlog] at hmem
    · simp [hlog]

/-- A database in which nothing fails but the rollback. -/
def noRollback : Call → Except String Unit
  | .rollbackTransaction => .error "rollback failed"
  | _ => .ok ()

theorem noRollback_transactional :
    Transactional (.error "boom" : Except String Nat)
      (intercept true id noRollback (.error "boom")) :=
  (transactional_iff_failed id rfl rfl).mpr ⟨"boom", rfl⟩

/-- A database in which nothing fails but the commit. -/
def noCommit : Call → Except String Unit
  | .commitTransaction => .error "commit failed"
  | _ => .ok ()

/-- The value goes out although the commit fails, the error is lost, and the query runner is never
given back. -/
theorem failed_commit_responds :
    intercept true id noCommit (.ok 7 : Except String Nat) =
      [.called .connect, .settled .connect (.ok ()), .called .startTransaction,
        .settled .startTransaction (.ok ()), .attached, .called .commitTransaction, .emitted (.ok 7),
        .settled .commitTransaction (.error "commit failed"), .unhandled "commit failed"] ∧
    ¬ Transactional (.ok 7) (intercept true id noCommit (.ok 7 : Except String Nat)) := by
  refine ⟨rfl, fun h => ?_⟩
  exact absurd h.released (by decide)

end Http
end TradeCore
