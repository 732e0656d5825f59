import TradeCore.Lib.Table
import TradeCore.Gateway.RequestQueue
import TradeCore.Gateway.ConnectionPool

/-!
# TradeCore.Gateway.ApiGateway

The four operations of the gateway behind the request queue, and the limiter they consult. Each of
them asks the Horizon server first and consults the limiter, inside `executeWithMonitoring`, once
the server has answered.

A call is the number of its request in the queue. `reached`, `window` and `counted` are written for
the statements: whether the call has reached the server, in which window of its client, and which
window has counted it. Windows are numbered in the order they are opened.

* `limits_respected_iff`: exactly when a run keeps what the limits are for. The limiter refuses no
  call, since that call has been made; and a call is sent only while the counter of the window, with
  the calls it misses, leaves room.
* `limited_after_submission`: a transaction that is submitted and answered as rate limited.
-/

namespace TradeCore
namespace Gateway

open Lib

structure RateLimitConfig where
  requestsPerMinute : Nat
  burstLimit : Nat
  enabled : Bool
  deriving DecidableEq, Repr

/-- An entry of the map of windows; `number` identifies the window. -/
structure ClientRateLimit where
  client : String
  requests : Nat
  windowStart : Time
  number : Nat
  deriving DecidableEq, Repr

/-- The limiter; `windows` counts the windows opened so far. -/
structure RateLimiter where
  clientLimits : List ClientRateLimit
  windows : Nat
  deriving DecidableEq, Repr

namespace RateLimiter

def windowMs : Int := 60000

def rateLimitExceeded : String := "Stellar API rate limit exceeded. Please try again later."

def tooManyConcurrent : String := "Too many concurrent Stellar requests. Please try again later."

/-- The window of a client that a check at `now` goes on with. -/
def window (now : Time) (client : String) (lim : RateLimiter) : Option ClientRateLimit :=
  (lookup (·.client) client lim.clientLimits).filter fun l => ¬ windowMs < now - l.windowStart

/-- Counts one more request in a window and writes it to the map. -/
def count (limit : ClientRateLimit) (lim : RateLimiter) : RateLimiter :=
  ⟨upsert (·.client) { limit with requests := limit.requests + 1 } lim.clientLimits,
    max lim.windows (limit.number + 1)⟩

/-- The window a check counts a request in. -/
def windowFor (now : Time) (client : String) (lim : RateLimiter) : ClientRateLimit :=
  (lim.window now client).getD ⟨client, 0, now, lim.windows⟩

/-- The limiter behind the check, with the number of the window that has counted the request. -/
def checkRateLimit (cfg : RateLimitConfig) (now : Time) (client : String) (lim : RateLimiter) :
    Except String (RateLimiter × Option Nat) :=
  if cfg.enabled = false then .ok (lim, none)
  else
    let limit := lim.windowFor now client
    if cfg.requestsPerMinute ≤ limit.requests then .error rateLimitExceeded
    else .ok (lim.count limit, some limit.number)

def checkBurstLimit (cfg : RateLimitConfig) (concurrentRequests : Nat) : Except String Unit :=
  if cfg.enabled = false then .ok ()
  else if cfg.burstLimit ≤ concurrentRequests then .error tooManyConcurrent
  else .ok ()

/-- Both checks let a request pass. -/
def Admits (cfg : RateLimitConfig) (now : Time) (client : String) (active : Nat) (lim : RateLimiter) :
    Prop :=
  cfg.enabled = false ∨
    (lim.windowFor now client).requests < cfg.requestsPerMinute ∧ active < cfg.burstLimit

def cleanupOldWindows (now : Time) (lim : RateLimiter) : RateLimiter :=
  { lim with clientLimits := lim.clientLimits.filter fun l => ¬ windowMs < now - l.windowStart }

end RateLimiter

/-- What a call ends with: a response with `success` true, one with `success` false (because of a
limit, or of the operation), or a rejected promise. -/
inductive Answer where
  | success
  | limited (message : String)
  | failed
  | threw
  deriving DecidableEq, Repr

def Answer.isLimited : Answer → Bool
  | .limited _ => true
  | _ => false

/-- What a call learns from the server on: whether its answer is an error, whether the code in front of
the limiter throws, and whether the monitored operation does. -/
structure Reply where
  rejected : Bool
  throws : Bool
  operationThrows : Bool
  deriving DecidableEq, Repr

/-- The limiter behind the call, the window that has counted it, and the answer. -/
def executeWithMonitoring (cfg : RateLimitConfig) (now : Time) (client : String) (active : Nat)
    (operationThrows : Bool) (lim : RateLimiter) : RateLimiter × Option Nat × Answer :=
  match lim.checkRateLimit cfg now client with
  | .error message => (lim, none, .limited message)
  | .ok (lim', counted) =>
    match RateLimiter.checkBurstLimit cfg active with
    | .error message => (lim', counted, .limited message)
    | .ok () => (lim', counted, if operationThrows then .failed else .success)

/-- The operations from the answer of the server on. -/
def afterReply (cfg : RateLimitConfig) (now : Time) (op : ConnectionPool.Operation) (client : String)
    (active : Nat) (reply : Reply) (lim : RateLimiter) : RateLimiter × Option Nat × Answer :=
  match op with
  | .getAccount =>
    if reply.rejected || reply.throws then (lim, none, .threw)
    else executeWithMonitoring cfg now client active reply.operationThrows lim
  | .executeSettlement =>
    if reply.rejected || reply.throws then (lim, none, .threw)
    else executeWithMonitoring cfg now client active false lim
  | .getTransaction | .submitTransaction =>
    if reply.rejected then (lim, none, .threw)
    else executeWithMonitoring cfg now client active false lim

structure Call where
  op : ConnectionPool.Operation
  client : String
  reached : Bool
  window : Option Nat
  counted : Option Nat
  answer : Option Answer
  deriving DecidableEq, Repr

structure ApiGateway where
  queue : RequestQueue
  limiter : RateLimiter
  calls : List Call
  deriving DecidableEq, Repr

namespace ApiGateway

def init : ApiGateway := ⟨.init, ⟨[], 0⟩, []⟩

/-- `queue` is an event of the queue by itself; it settles a request that has an answer. A call gets
no connection, is sent to the server, or hears of it. -/
inductive Event where
  | request (op : ConnectionPool.Operation) (client : String)
  | queue (e : RequestQueue.Event)
  | noConnection (id : Nat)
  | send (id : Nat) (now : Time)
  | reply (id : Nat) (now : Time) (reply : Reply)
  | cleanupOldWindows (now : Time)
  deriving DecidableEq, Repr

/-- The call `id` is being executed, has not been sent and has no answer. -/
def Ready (g : ApiGateway) (id : Nat) (call : Call) : Prop :=
  g.calls[id]? = some call ∧ id ∈ g.queue.executing ∧ call.reached = false ∧ call.answer = none

def Awaiting (g : ApiGateway) (id : Nat) (call : Call) : Prop :=
  g.calls[id]? = some call ∧ call.reached = true ∧ call.answer = none

def allows (g : ApiGateway) : RequestQueue.Event → Bool
  | .enqueue => false
  | .complete id _ => (g.calls[id]?).any (·.answer.isSome)
  | _ => true

def step (qcfg : QueueConfig) (cfg : RateLimitConfig) (g : ApiGateway) : Event → ApiGateway
  | .request op client =>
    match g.queue.enqueue qcfg with
    | .ok queue' =>
      { g with queue := queue', calls := g.calls ++ [⟨op, client, false, none, none, none⟩] }
    | .error _ => g
  | .queue e => if g.allows e then { g with queue := RequestQueue.step qcfg g.queue e } else g
  | .noConnection id =>
    match g.calls[id]? with
    | some call =>
      if id ∈ g.queue.executing ∧ call.reached = false ∧ call.answer = none then
        { g with calls := g.calls.set id { call with answer := some .threw } }
      else g
    | none => g
  | .send id now =>
    match g.calls[id]? with
    | some call =>
      if id ∈ g.queue.executing ∧ call.reached = false ∧ call.answer = none then
        let window := (g.limiter.window now call.client).map (·.number)
        { g with calls := g.calls.set id { call with reached := true, window } }
      else g
    | none => g
  | .reply id now reply =>
    match g.calls[id]? with
    | some call =>
      if call.reached = true ∧ call.answer = none then
        let (limiter, counted, answer) :=
          afterReply cfg now call.op call.client g.queue.activeRequests reply g.limiter
        { g with limiter, calls := g.calls.set id { call with counted, answer := some answer } }
      else g
    | none => g
  | .cleanupOldWindows now => { g with limiter := g.limiter.cleanupOldWindows now }

/-! ## The calls of a window -/

/-- The calls of a client that reached the server in the window `n`. -/
def sentIn (client : String) (n : Nat) (calls : List Call) : Nat :=
  calls.countP fun call => call.client = client ∧ call.window = some n

/-- The calls the window `n` has counted. -/
def countedIn (client : String) (n : Nat) (calls : List Call) : Nat :=
  calls.countP fun call => call.client = client ∧ call.counted = some n

/-- Calls that reached the server in the window and that it has not counted: those still awaited, and
those that failed. -/
def uncounted (client : String) (n : Nat) (calls : List Call) : Nat :=
  calls.countP fun call => call.client = client ∧ call.window = some n ∧ call.counted ≠ some n

/-- Calls the window has counted that reached the server before it was opened. -/
def early (client : String) (n : Nat) (calls : List Call) : Nat :=
  calls.countP fun call => call.client = client ∧ call.counted = some n ∧ call.window ≠ some n

theorem sentIn_add_early (client : String) (n : Nat) (calls : List Call) :
    sentIn client n calls + early client n calls =
      countedIn client n calls + uncounted client n calls := by
  induction calls with
  | nil => rfl
  | cons call calls ih =>
    have hcall : sentIn client n [call] + early client n [call] =
        countedIn client n [call] + uncounted client n [call] := by
      by_cases hw : call.window = some n
      · by_cases hn : call.counted = some n
        · simp [sentIn, early, countedIn, uncounted, hw, hn]
        · simp [sentIn, early, countedIn, uncounted, hw, hn]
      · by_cases hn : call.counted = some n
        · simp [sentIn, early, countedIn, uncounted, hw, hn]
        · simp [sentIn, early, countedIn, uncounted, hw, hn]
    rw [← List.singleton_append]
    simp only [sentIn, early, countedIn, uncounted, List.countP_append] at ih hcall ⊢
    omega

/-- What the limits are for: a call that is answered as limited has not reached the server, and no
window of a client has seen more than `requestsPerMinute` of its calls. -/
def LimitsRespected (cfg : RateLimitConfig) (g : ApiGateway) : Prop :=
  (∀ call ∈ g.calls, (call.answer.any Answer.isLimited) = true → call.reached = false) ∧
    ∀ client n, sentIn client n g.calls ≤ cfg.requestsPerMinute

/-- The operation goes on to the limiter. -/
def consults (op : ConnectionPool.Operation) (reply : Reply) : Bool :=
  match op with
  | .getAccount | .executeSettlement => !(reply.rejected || reply.throws)
  | .getTransaction | .submitTransaction => !reply.rejected

/-- The counter of the window, with the calls it misses, leaves room for one more. -/
def HasRoom (cfg : RateLimitConfig) (now : Time) (client : String) (g : ApiGateway) : Prop :=
  ∀ limit, g.limiter.window now client = some limit →
    limit.requests + uncounted client limit.number g.calls <
      cfg.requestsPerMinute + early client limit.number g.calls

/-- A call is sent only with room in its window, and consults the limiter only when that admits it. -/
def Within (cfg : RateLimitConfig) (g : ApiGateway) : Event → Prop
  | .send id now => ∀ call, g.Ready id call → HasRoom cfg now call.client g
  | .reply id now reply => ∀ call, g.Awaiting id call → consults call.op reply = true →
      g.limiter.Admits cfg now call.client g.queue.activeRequests
  | _ => True

/-! ## What a step does -/

section Step

variable {qcfg : QueueConfig} {cfg : RateLimitConfig} {g : ApiGateway} {id : Nat} {call : Call}

theorem step_noConnection (h : g.Ready id call) :
    step qcfg cfg g (.noConnection id) =
      { g with calls := g.calls.set id { call with answer := some .threw } } := by
  obtain ⟨hcall, hready⟩ := h
  simp only [step, hcall]
  rw [if_pos hready]

theorem step_send (h : g.Ready id call) (now : Time) :
    step qcfg cfg g (.send id now) = { g with
      calls := g.calls.set id
        { call with reached := true, window := (g.limiter.window now call.client).map (·.number) } } := by
  obtain ⟨hcall, hready⟩ := h
  simp only [step, hcall]
  rw [if_pos hready]

theorem step_reply (h : g.Awaiting id call) (now : Time) (reply : Reply) :
    let r := afterReply cfg now call.op call.client g.queue.activeRequests reply g.limiter
    step qcfg cfg g (.reply id now reply) = { g with
      limiter := r.1
      calls := g.calls.set id { call with counted := r.2.1, answer := some r.2.2 } } := by
  obtain ⟨hcall, hready⟩ := h
  simp only [step, hcall]
  rw [if_pos hready]

/-- Everything a step can do. -/
theorem step_cases (qcfg : QueueConfig) (cfg : RateLimitConfig) (g : ApiGateway) (e : Event) :
    (∃ queue', step qcfg cfg g e = { g with queue := queue' }) ∨
    (∃ queue' op client, step qcfg cfg g e = { g with
      queue := queue', calls := g.calls ++ [⟨op, client, false, none, none, none⟩] }) ∨
    (∃ id call, e = .noConnection id ∧ g.Ready id call) ∨
    (∃ id now call, e = .send id now ∧ g.Ready id call) ∨
    (∃ id now reply call, e = .reply id now reply ∧ g.Awaiting id call) ∨
    ∃ now, step qcfg cfg g e = { g with limiter := g.limiter.cleanupOldWindows now } := by
  cases e with
  | request op client =>
    simp only [step]
    split
    · exact .inr (.inl ⟨_, _, _, rfl⟩)
    · exact .inl ⟨_, rfl⟩
  | queue e =>
    simp only [step]
    split
    · exact .inl ⟨_, rfl⟩
    · exact .inl ⟨_, rfl⟩
  | noConnection id =>
    simp only [step]
    split
    · rename_i call hcall
      split
      · rename_i hready
        exact .inr (.inr (.inl ⟨id, call, rfl, hcall, hready⟩))
      · exact .inl ⟨_, rfl⟩
    · exact .inl ⟨_, rfl⟩
  | send id now =>
    simp only [step]
    split
    · rename_i call hcall
      split
      · rename_i hready
        exact .inr (.inr (.inr (.inl ⟨id, now, call, rfl, hcall, hready⟩)))
      · exact .inl ⟨_, rfl⟩
    · exact .inl ⟨_, rfl⟩
  | reply id now reply =>
    simp only [step]
    split
    · rename_i call hcall
      split
      · rename_i hready
        exact .inr (.inr (.inr (.inr (.inl ⟨id, now, reply, call, rfl, hcall, hready⟩))))
      · exact .inl ⟨_, rfl⟩
    · exact .inl ⟨_, rfl⟩
  | cleanupOldWindows now => exact .inr (.inr (.inr (.inr (.inr ⟨now, rfl⟩))))

end Step

/-! ## What the limiter answers -/

section Limiter

variable (cfg : RateLimitConfig) (now : Time) (client : String) (active : Nat) (lim : RateLimiter)

theorem executeWithMonitoring_cases (operationThrows : Bool) :
    let r := executeWithMonitoring cfg now client active operationThrows lim
    r.1 = lim ∧ r.2.1 = none ∨
      r.1 = lim.count (lim.windowFor now client) ∧
        r.2.1 = some (lim.windowFor now client).number := by
  simp only [executeWithMonitoring, RateLimiter.checkRateLimit]
  by_cases hoff : cfg.enabled = false
  · simp [hoff, RateLimiter.checkBurstLimit]
  · rw [if_neg hoff]
    by_cases hrate : cfg.requestsPerMinute ≤ (lim.windowFor now client).requests
    · rw [if_pos hrate]
      exact .inl ⟨rfl, rfl⟩
    · rw [if_neg hrate]
      dsimp only
      split
      · exact .inr ⟨rfl, rfl⟩
      · exact .inr ⟨rfl, rfl⟩

theorem executeWithMonitoring_limited (operationThrows : Bool) :
    (executeWithMonitoring cfg now client active operationThrows lim).2.2.isLimited = true ↔
      ¬ lim.Admits cfg now client active := by
  simp only [executeWithMonitoring, RateLimiter.checkRateLimit, RateLimiter.checkBurstLimit,
    RateLimiter.Admits]
  by_cases hoff : cfg.enabled = false
  · cases operationThrows <;> simp [hoff, Answer.isLimited]
  · simp only [if_neg hoff]
    by_cases hrate : cfg.requestsPerMinute ≤ (lim.windowFor now client).requests
    · simp [hrate, hoff, Answer.isLimited, Nat.not_lt.mpr hrate]
    · by_cases hburst : cfg.burstLimit ≤ active
      · simp [hrate, hburst, hoff, Answer.isLimited]
      · have hpass : (lim.windowFor now client).requests < cfg.requestsPerMinute ∧
            active < cfg.burstLimit := by omega
        cases operationThrows <;> simp [hrate, hburst, hpass, Answer.isLimited]

theorem afterReply_cases (op : ConnectionPool.Operation) (reply : Reply) :
    consults op reply = false ∧
        afterReply cfg now op client active reply lim = (lim, none, .threw) ∨
      consults op reply = true ∧ ∃ operationThrows,
        afterReply cfg now op client active reply lim =
          executeWithMonitoring cfg now client active operationThrows lim := by
  cases op with
  | getAccount =>
    cases h : (reply.rejected || reply.throws) with
    | true => exact .inl ⟨by simp [consults, h], by simp [afterReply, h]⟩
    | false => exact .inr ⟨by simp [consults, h], reply.operationThrows, by simp [afterReply, h]⟩
  | executeSettlement =>
    cases h : (reply.rejected || reply.throws) with
    | true => exact .inl ⟨by simp [consults, h], by simp [afterReply, h]⟩
    | false => exact .inr ⟨by simp [consults, h], false, by simp [afterReply, h]⟩
  | getTransaction =>
    cases h : reply.rejected with
    | true => exact .inl ⟨by simp [consults, h], by simp [afterReply, h]⟩
    | false => exact .inr ⟨by simp [consults, h], false, by simp [afterReply, h]⟩
  | submitTransaction =>
    cases h : reply.rejected with
    | true => exact .inl ⟨by simp [consults, h], by simp [afterReply, h]⟩
    | false => exact .inr ⟨by simp [consults, h], false, by simp [afterReply, h]⟩

end Limiter

/-! ## The invariant -/

structure Inv (g : ApiGateway) : Prop where
  nodup : (g.limiter.clientLimits.map (·.client)).Nodup
  number_lt : ∀ limit ∈ g.limiter.clientLimits, limit.number < g.limiter.windows
  /-- The counter of a window is the number of calls it has counted. -/
  requests_eq : ∀ limit ∈ g.limiter.clientLimits,
    limit.requests = countedIn limit.client limit.number g.calls
  counted_lt : ∀ call ∈ g.calls, ∀ n, call.counted = some n → n < g.limiter.windows
  uncounted : ∀ call ∈ g.calls, call.answer = none → call.counted = none
  unsent : ∀ call ∈ g.calls, call.reached = false → call.window = none

theorem Inv.init : Inv init :=
  ⟨.nil, List.forall_mem_nil _, List.forall_mem_nil _, List.forall_mem_nil _, List.forall_mem_nil _,
    List.forall_mem_nil _⟩

section Set

variable {g : ApiGateway} {id : Nat} {call call' : Call}

/-- A count over the calls when one of them changes. -/
theorem countP_set (p : Call → Bool) (calls : List Call) (call' : Call) (h : calls[id]? = some call) :
    (calls.set id call').countP p + (if p call then 1 else 0) =
      calls.countP p + if p call' then 1 else 0 := by
  induction calls generalizing id with
  | nil => cases h
  | cons c calls ih =>
    cases id with
    | zero =>
      cases h
      simp only [List.set_cons_zero, List.countP_cons]
      omega
    | succ id =>
      have := @ih id h
      simp only [List.set_cons_succ, List.countP_cons]
      omega

theorem sentIn_set (h : g.calls[id]? = some call) (hw : call.window = none) (client : String)
    (n : Nat) : sentIn client n (g.calls.set id call') =
      sentIn client n g.calls + if call'.client = client ∧ call'.window = some n then 1 else 0 := by
  have := countP_set (fun c => c.client = client ∧ c.window = some n) g.calls call' h
  simpa [sentIn, hw] using this

theorem sentIn_set_keep (h : g.calls[id]? = some call) (hc : call'.client = call.client)
    (hw : call'.window = call.window) (client : String) (n : Nat) :
    sentIn client n (g.calls.set id call') = sentIn client n g.calls := by
  have := countP_set (fun c => c.client = client ∧ c.window = some n) g.calls call' h
  rw [hc, hw] at this
  exact Nat.add_right_cancel this

theorem countedIn_set (call' : Call) (h : g.calls[id]? = some call) (hn : call.counted = none)
    (client : String) (n : Nat) : countedIn client n (g.calls.set id call') =
      countedIn client n g.calls + if call'.client = client ∧ call'.counted = some n then 1 else 0 := by
  have := countP_set (fun c => c.client = client ∧ c.counted = some n) g.calls call' h
  simpa [countedIn, hn] using this

end Set

theorem RateLimiter.mem_of_window {lim : RateLimiter} {now : Time} {client : String}
    {limit : ClientRateLimit} (h : lim.window now client = some limit) :
    limit ∈ lim.clientLimits ∧ limit.client = client := by
  obtain ⟨hlook, -⟩ := Option.filter_eq_some_iff.mp h
  exact ⟨mem_of_lookup hlook, lookup_key hlook⟩

section Step

variable {qcfg : QueueConfig} {cfg : RateLimitConfig} {g : ApiGateway} {id : Nat} {call : Call}

/-- The window of a check is of its client, and its counter is right, also when it is a new one. -/
theorem Inv.windowFor (h : Inv g) (now : Time) (client : String) :
    (g.limiter.windowFor now client).client = client ∧
      (g.limiter.windowFor now client).requests =
        countedIn client (g.limiter.windowFor now client).number g.calls := by
  unfold RateLimiter.windowFor
  cases hw : g.limiter.window now client with
  | none =>
    refine ⟨rfl, Eq.symm (List.countP_eq_zero.mpr fun call hcall hp => ?_)⟩
    exact Nat.lt_irrefl _ (h.counted_lt call hcall _ (of_decide_eq_true hp).2)
  | some limit =>
    obtain ⟨hin, rfl⟩ := RateLimiter.mem_of_window hw
    exact ⟨rfl, h.requests_eq limit hin⟩

theorem Inv.queue (h : Inv g) (queue' : RequestQueue) : Inv { g with queue := queue' } :=
  ⟨h.nodup, h.number_lt, h.requests_eq, h.counted_lt, h.uncounted, h.unsent⟩

theorem Inv.request (h : Inv g) (queue' : RequestQueue) (op : ConnectionPool.Operation)
    (client : String) :
    Inv { g with queue := queue', calls := g.calls ++ [⟨op, client, false, none, none, none⟩] } := by
  refine ⟨h.nodup, h.number_lt, ?_, ?_, ?_, ?_⟩
  · intro limit hin
    rw [h.requests_eq limit hin]
    simp [countedIn]
  · intro call hin n hn
    rcases List.mem_append.mp hin with hin | hin
    · exact h.counted_lt call hin n hn
    · rw [List.mem_singleton.mp hin] at hn
      cases hn
  · intro call hin hnone
    rcases List.mem_append.mp hin with hin | hin
    · exact h.uncounted call hin hnone
    · rw [List.mem_singleton.mp hin]
  · intro call hin hreached
    rcases List.mem_append.mp hin with hin | hin
    · exact h.unsent call hin hreached
    · rw [List.mem_singleton.mp hin]

/-- A call that changes and is not counted. -/
theorem Inv.set (h : Inv g) {call' : Call} (hcall : g.calls[id]? = some call)
    (hclient : call'.client = call.client) (hcounted : call'.counted = call.counted)
    (hnone : call'.answer = none → call.answer = none)
    (hunsent : call'.reached = false → call'.window = none) :
    Inv { g with calls := g.calls.set id call' } := by
  have hold := List.mem_of_getElem? hcall
  refine ⟨h.nodup, h.number_lt, ?_, ?_, ?_, ?_⟩
  · intro limit hin
    have := countP_set (fun c => c.client = limit.client ∧ c.counted = some limit.number) g.calls
      call' hcall
    rw [hclient, hcounted] at this
    rw [h.requests_eq limit hin]
    exact (Nat.add_right_cancel this).symm
  · intro c hin n hn
    rcases List.mem_or_eq_of_mem_set hin with hin | rfl
    · exact h.counted_lt c hin n hn
    · exact h.counted_lt call hold n (hcounted ▸ hn)
  · intro c hin hans
    rcases List.mem_or_eq_of_mem_set hin with hin | rfl
    · exact h.uncounted c hin hans
    · rw [hcounted]
      exact h.uncounted call hold (hnone hans)
  · intro c hin hreached
    rcases List.mem_or_eq_of_mem_set hin with hin | rfl
    · exact h.unsent c hin hreached
    · exact hunsent hreached

/-- A call that is counted in the window of its check. -/
theorem Inv.count (h : Inv g) (hcall : g.Awaiting id call) (now : Time) (answer : Answer) :
    let limit := g.limiter.windowFor now call.client
    Inv { g with
      limiter := g.limiter.count limit
      calls := g.calls.set id { call with counted := some limit.number, answer := some answer } } := by
  intro limit
  obtain ⟨hclient, hrequests⟩ := h.windowFor now call.client
  have hold := List.mem_of_getElem? hcall.1
  have hset := countedIn_set { call with counted := some limit.number, answer := some answer }
    hcall.1 (h.uncounted call hold hcall.2.2)
  have hmono : g.limiter.windows ≤ (g.limiter.count limit).windows := Nat.le_max_left _ _
  have hnew : limit.number < (g.limiter.count limit).windows := Nat.le_max_right _ _
  refine ⟨nodup_upsert h.nodup, ?_, ?_, ?_, ?_, ?_⟩
  · intro l hl
    rcases mem_upsert hl with rfl | hl
    · exact hnew
    · exact Nat.lt_of_lt_of_le (h.number_lt l hl) hmono
  · intro l hl
    rcases mem_upsert_cases h.nodup hl with rfl | ⟨hl, hne⟩
    · show limit.requests + 1 = countedIn limit.client limit.number _
      rw [hset, hclient, if_pos ⟨rfl, rfl⟩, hrequests]
    · rw [hset, h.requests_eq l hl, if_neg]
      · rfl
      · rintro ⟨hc, -⟩
        exact hne (hc.symm.trans hclient.symm)
  · intro c hin n hn
    rcases List.mem_or_eq_of_mem_set hin with hin | rfl
    · exact Nat.lt_of_lt_of_le (h.counted_lt c hin n hn) hmono
    · cases hn
      exact hnew
  · intro c hin hans
    rcases List.mem_or_eq_of_mem_set hin with hin | rfl
    · exact h.uncounted c hin hans
    · cases hans
  · intro c hin hreached
    rcases List.mem_or_eq_of_mem_set hin with hin | rfl
    · exact h.unsent c hin hreached
    · exact h.unsent call hold hreached

theorem Inv.reply (h : Inv g) (hcall : g.Awaiting id call) (now : Time) (reply : Reply) :
    Inv (step qcfg cfg g (.reply id now reply)) := by
  have hold := List.mem_of_getElem? hcall.1
  have hplain : ∀ answer, Inv { g with
      calls := g.calls.set id { call with counted := none, answer := some answer } } := fun answer =>
    h.set hcall.1 rfl (h.uncounted call hold hcall.2.2).symm nofun (h.unsent call hold)
  rw [step_reply hcall]
  rcases afterReply_cases cfg now call.client g.queue.activeRequests g.limiter call.op reply with
    ⟨-, hr⟩ | ⟨-, operationThrows, hr⟩
  · rw [hr]
    exact hplain .threw
  · rw [hr]
    rcases executeWithMonitoring_cases cfg now call.client g.queue.activeRequests g.limiter
      operationThrows with
      ⟨hlim, hcounted⟩ | ⟨hlim, hcounted⟩
    · rw [hlim, hcounted]
      exact hplain _
    · rw [hlim, hcounted]
      exact h.count hcall now _

theorem Inv.cleanup (h : Inv g) (now : Time) :
    Inv { g with limiter := g.limiter.cleanupOldWindows now } := by
  have hsub : ∀ l ∈ (g.limiter.cleanupOldWindows now).clientLimits, l ∈ g.limiter.clientLimits :=
    fun l hl => List.mem_of_mem_filter hl
  exact ⟨(List.filter_sublist.map _).nodup h.nodup, fun l hl => h.number_lt l (hsub l hl),
    fun l hl => h.requests_eq l (hsub l hl), h.counted_lt, h.uncounted, h.unsent⟩

theorem Inv.step (h : Inv g) (e : Event) : Inv (step qcfg cfg g e) := by
  rcases step_cases qcfg cfg g e with ⟨queue', hs⟩ | ⟨queue', op, client, hs⟩ |
    ⟨id, call, rfl, hready⟩ | ⟨id, now, call, rfl, hready⟩ | ⟨id, now, reply, call, rfl, hcall⟩ |
    ⟨now, hs⟩
  · rw [hs]
    exact h.queue queue'
  · rw [hs]
    exact h.request queue' op client
  · rw [step_noConnection hready]
    exact h.set hready.1 rfl rfl nofun (h.unsent call (List.mem_of_getElem? hready.1))
  · rw [step_send hready]
    exact h.set hready.1 rfl rfl (fun _ => hready.2.2.2) nofun
  · exact h.reply hcall now reply
  · rw [hs]
    exact h.cleanup now

/-! ## The limits -/

theorem sentIn_send (h : Inv g) (hready : g.Ready id call) (now : Time) (client : String) (n : Nat) :
    sentIn client n (ApiGateway.step qcfg cfg g (.send id now)).calls = sentIn client n g.calls +
      if call.client = client ∧ (g.limiter.window now call.client).map (·.number) = some n then 1
      else 0 := by
  rw [step_send hready]
  exact sentIn_set hready.1 (h.unsent call (List.mem_of_getElem? hready.1) hready.2.2.1) client n

theorem hasRoom_iff (h : Inv g) (now : Time) (client : String) :
    HasRoom cfg now client g ↔ ∀ limit, g.limiter.window now client = some limit →
      sentIn client limit.number g.calls < cfg.requestsPerMinute := by
  refine forall_congr' fun limit => imp_congr_right fun hw => ?_
  obtain ⟨hin, rfl⟩ := RateLimiter.mem_of_window hw
  have := h.requests_eq limit hin
  have := sentIn_add_early limit.client limit.number g.calls
  omega

theorem respected_send (h : Inv g) (hr : LimitsRespected cfg g) (hready : g.Ready id call)
    (now : Time) :
    LimitsRespected cfg (ApiGateway.step qcfg cfg g (.send id now)) ↔
      HasRoom cfg now call.client g := by
  rw [hasRoom_iff h]
  constructor
  · rintro ⟨-, hsent⟩ limit hw
    have := hsent call.client limit.number
    rw [sentIn_send h hready, hw, if_pos ⟨rfl, rfl⟩] at this
    exact this
  · intro hroom
    refine ⟨?_, fun client n => ?_⟩
    · rw [step_send hready]
      intro c hin hlim
      rcases List.mem_or_eq_of_mem_set hin with hin | rfl
      · exact hr.1 c hin hlim
      · rw [hready.2.2.2] at hlim
        cases hlim
    · rw [sentIn_send h hready]
      split
      · rename_i hcond
        obtain ⟨rfl, hw⟩ := hcond
        obtain ⟨limit, hlimit, rfl⟩ := Option.map_eq_some_iff.mp hw
        exact hroom limit hlimit
      · exact hr.2 client n

theorem respected_noConnection (hr : LimitsRespected cfg g) (hready : g.Ready id call) :
    LimitsRespected cfg (ApiGateway.step qcfg cfg g (.noConnection id)) := by
  rw [step_noConnection hready]
  refine ⟨fun c hin hlim => ?_, fun client n => ?_⟩
  · rcases List.mem_or_eq_of_mem_set hin with hin | rfl
    · exact hr.1 c hin hlim
    · cases hlim
  · have hkeep : sentIn client n (g.calls.set id { call with answer := some .threw }) =
        sentIn client n g.calls := by
      refine sentIn_set_keep hready.1 ?_ ?_ client n
      · rfl
      · rfl
    rw [hkeep]
    exact hr.2 client n

theorem respected_reply (hr : LimitsRespected cfg g) (hcall : g.Awaiting id call) (now : Time)
    (reply : Reply) :
    LimitsRespected cfg (ApiGateway.step qcfg cfg g (.reply id now reply)) ↔
      (consults call.op reply = true →
        g.limiter.Admits cfg now call.client g.queue.activeRequests) := by
  have hsent : ∀ client n, sentIn client n (ApiGateway.step qcfg cfg g (.reply id now reply)).calls =
      sentIn client n g.calls := by
    intro client n
    rw [step_reply hcall]
    refine sentIn_set_keep hcall.1 ?_ ?_ client n
    · rfl
    · rfl
  have hlimited : (afterReply cfg now call.op call.client g.queue.activeRequests reply
      g.limiter).2.2.isLimited = false ↔ (consults call.op reply = true →
        g.limiter.Admits cfg now call.client g.queue.activeRequests) := by
    rcases afterReply_cases cfg now call.client g.queue.activeRequests g.limiter call.op reply with
      ⟨hc, ha⟩ | ⟨hc, operationThrows, ha⟩
    · simp [hc, ha, Answer.isLimited]
    · rw [ha, ← Bool.not_eq_true, executeWithMonitoring_limited, Classical.not_not]
      simp [hc]
  rw [← hlimited]
  constructor
  · rintro ⟨hans, -⟩
    rw [step_reply hcall] at hans
    have hlt := (List.getElem?_eq_some_iff.mp hcall.1).1
    have := hans _ (List.mem_set hlt _)
    rw [← Bool.not_eq_true]
    intro hlim
    rw [Option.any_some] at this
    rw [hcall.2.1] at this
    cases this hlim
  · intro hlim
    refine ⟨?_, fun client n => ?_⟩
    · rw [step_reply hcall]
      intro c hin hc
      rcases List.mem_or_eq_of_mem_set hin with hin | rfl
      · exact hr.1 c hin hc
      · rw [Option.any_some, hlim] at hc
        cases hc
    · rw [hsent]
      exact hr.2 client n

theorem respected_step (h : Inv g) (hr : LimitsRespected cfg g) (e : Event) :
    LimitsRespected cfg (ApiGateway.step qcfg cfg g e) ↔ Within cfg g e := by
  constructor
  · intro hnext
    cases e with
    | send id now => exact fun call hready => (respected_send h hr hready now).mp hnext
    | reply id now reply => exact fun call hcall => (respected_reply hr hcall now reply).mp hnext
    | request op client => trivial
    | queue e => trivial
    | noConnection id => trivial
    | cleanupOldWindows now => trivial
  · intro hw
    rcases step_cases qcfg cfg g e with ⟨queue', hs⟩ | ⟨queue', op, client, hs⟩ |
      ⟨id, call, rfl, hready⟩ | ⟨id, now, call, rfl, hready⟩ | ⟨id, now, reply, call, rfl, hcall⟩ |
      ⟨now, hs⟩
    · rw [hs]
      exact hr
    · rw [hs]
      refine ⟨fun call hin hlim => ?_, fun client n => ?_⟩
      · rcases List.mem_append.mp hin with hin | hin
        · exact hr.1 call hin hlim
        · rw [List.mem_singleton.mp hin]
      · simpa [sentIn] using hr.2 client n
    · exact respected_noConnection hr hready
    · exact (respected_send h hr hready now).mpr (hw call hready)
    · exact (respected_reply hr hcall now reply).mpr (hw call hcall)
    · rw [hs]
      exact hr

end Step

/-- For every history of calls: the limits are respected throughout exactly when each call is sent with
room in its window, and each one that consults the limiter is admitted. -/
theorem limits_respected_iff (qcfg : QueueConfig) (cfg : RateLimitConfig) (events : List Event) :
    Always (step qcfg cfg) (LimitsRespected cfg) init events ↔
      Along (step qcfg cfg) (Within cfg) init events :=
  always_iff_along (I := fun g => Inv g ∧ LimitsRespected cfg g) (fun _ h => h.2)
    (fun _ e h hw => ⟨h.1.step e, (respected_step h.1 h.2 e).mpr hw⟩)
    (fun _ e h hw hr => hw ((respected_step h.1 h.2 e).mp hr))
    ⟨.init, nofun, fun _ _ => Nat.zero_le _⟩

/-- One client submits two transactions to a gateway of one request per minute. -/
def twoSubmissions : List Event :=
  [.request .submitTransaction "web", .request .submitTransaction "web", .queue .tick,
    .queue .iterate, .queue .iterate, .send 0 0, .reply 0 400 ⟨false, false, false⟩, .send 1 500,
    .reply 1 900 ⟨false, false, false⟩]

/-- The second one is submitted, and answered as rate limited. -/
theorem limited_after_submission :
    let g := run (step ⟨100, 5⟩ ⟨1, 10, true⟩) init twoSubmissions
    g.calls[1]? = some ⟨.submitTransaction, "web", true, some 0, none,
        some (.limited RateLimiter.rateLimitExceeded)⟩ ∧
      ¬ LimitsRespected ⟨1, 10, true⟩ g := by
  intro g
  have hcall : g.calls[1]? = some ⟨.submitTransaction, "web", true, some 0, none,
      some (.limited RateLimiter.rateLimitExceeded)⟩ := by decide
  exact ⟨hcall, fun h => nomatch h.1 _ (List.mem_of_getElem? hcall) rfl⟩

end ApiGateway

end Gateway
end TradeCore
