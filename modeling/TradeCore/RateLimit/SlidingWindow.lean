import TradeCore.Lib.Run
import TradeCore.Lib.ScoredSet
import Mathlib.Data.List.Induction

/-!
# TradeCore.RateLimit.SlidingWindow

`slidingWindowCheck`: the requests of one key lie in a sorted set under the times they were made.
A request trims the set to the window that ends with it, records itself, whatever the answer, and
is allowed when the set then holds at most `maxRequests` requests.

The server's clock and the caller's are one. `recorded` says what the set still holds at any later
time, and `allowed_within_window` bounds the allowed requests of every window, wherever it starts.
-/

namespace TradeCore
namespace RateLimit

open Lib

structure RateLimitResult where
  allowed : Bool
  limit : Nat
  remaining : Nat
  resetSeconds : Int
  retryAfterSeconds : Int
  deriving DecidableEq, Repr

/-- A request: the time it was made, in milliseconds, and its draw of `Math.random().toString(36).slice(2, 8)`. -/
structure Request where
  now : Int
  draw : String
  deriving DecidableEq, Repr

def Request.member (r : Request) : String := toString r.now ++ ":" ++ r.draw

abbrev Key := Expiring (ScoredSet String)

/-- What the key holds when a command of the server meets it at `now`. -/
def Key.read (now : Int) (k : Key) : ScoredSet String := k.at .empty now

/-- `Math.ceil(ms / 1000)`. -/
def ceilSeconds (ms : Int) : Int := -((-ms) / 1000)

/-- The first four commands of the check, in the order of its pipeline: ZREMRANGEBYSCORE, ZADD,
EXPIRE and ZCARD. -/
def slidingWindowCheck.exec (key : Key) (r : Request) (windowMs : Int) : Key × Nat :=
  let minScore := r.now - windowMs
  let trimmed := (key.read r.now).removeUpTo minScore
  let added := trimmed.add r.member r.now
  let key' : Key := .expire .empty r.now (1000 * (ceilSeconds windowMs + 1)) added
  (key', (key'.read r.now).card)

def slidingWindowCheck (key : Key) (r : Request) (windowMs : Int) (maxRequests : Nat) :
    Key × RateLimitResult :=
  let (key', currentCount) := slidingWindowCheck.exec key r windowMs
  let allowed := decide (currentCount ≤ maxRequests)
  let resetSeconds :=
    match (key'.read r.now).least with
    | some oldest => ceilSeconds (oldest + windowMs - r.now)
    | none => ceilSeconds windowMs
  (key', {
    allowed
    limit := maxRequests
    remaining := maxRequests - currentCount
    resetSeconds := max 0 resetSeconds
    retryAfterSeconds := if allowed then 0 else resetSeconds })

/-- A key and what its requests were answered, in the order they were made. -/
structure Served where
  key : Key
  answers : List (Request × RateLimitResult)

def serve (windowMs : Int) (maxRequests : Nat) (s : Served) (r : Request) : Served :=
  let (key', result) := slidingWindowCheck s.key r windowMs maxRequests
  ⟨key', s.answers ++ [(r, result)]⟩

section Window

variable {w : Int} {m : Nat} {k : Key} {r : Request}

theorem lt_ceilSeconds (w : Int) : w < 1000 * (ceilSeconds w + 1) := by
  unfold ceilSeconds
  omega

theorem serve_key (s : Served) :
    (serve w m s r).key = (slidingWindowCheck.exec s.key r w).1 := rfl

theorem serve_answers (s : Served) :
    (serve w m s r).answers = s.answers ++ [(r, (slidingWindowCheck s.key r w m).2)] := rfl

theorem serve_requests (s : Served) :
    (serve w m s r).answers.map Prod.fst = s.answers.map Prod.fst ++ [r] := by
  simp [serve_answers]

theorem run_requests (rs : List Request) (s : Served) :
    (run (serve w m) s rs).answers.map Prod.fst = s.answers.map Prod.fst ++ rs := by
  induction rs generalizing s with
  | nil => simp [run]
  | cons r rs ih =>
    rw [run, ih, serve_requests, List.append_assoc]
    rfl

theorem read_exec {t : Int} (hr : r.now ≤ t) (ht : t - w < r.now) :
    (slidingWindowCheck.exec k r w).1.read t =
      ((k.read r.now).removeUpTo (r.now - w)).add r.member r.now := by
  refine Expiring.at_expire_of_lt hr ?_
  have := lt_ceilSeconds w
  omega

theorem mem_exec_self {t : Int} (hr : r.now ≤ t) (ht : t - w < r.now) :
    (r.member, r.now) ∈ ((slidingWindowCheck.exec k r w).1.read t).entries := by
  rw [read_exec hr ht]
  exact mem_upsert_self _ _

theorem mem_exec_of_mem {t : Int} {q : Request} (hq : q.now ≤ r.now) (hr : r.now ≤ t)
    (ht : t - w < q.now) (hne : q.member ≠ r.member)
    (h : (q.member, q.now) ∈ (k.read r.now).entries) :
    (q.member, q.now) ∈ ((slidingWindowCheck.exec k r w).1.read t).entries := by
  rw [read_exec hr (by omega)]
  refine mem_upsert_of_ne ?_ hne
  refine ScoredSet.mem_removeUpTo.mpr ⟨h, ?_⟩
  show r.now - w < q.now
  omega

/-- What one key is asked over time: no request before an earlier one, no member twice. -/
structure Ordered (rs : List Request) : Prop where
  times : rs.Pairwise fun q r => q.now ≤ r.now
  members : (rs.map Request.member).Nodup

theorem Ordered.snoc {rs : List Request} (h : Ordered (rs ++ [r])) :
    Ordered rs ∧ ∀ q ∈ rs, q.now ≤ r.now ∧ q.member ≠ r.member := by
  obtain ⟨htimes, -, hle⟩ := List.pairwise_append.mp h.times
  have hmembers := h.members
  rw [List.map_append, List.nodup_append] at hmembers
  obtain ⟨hnodup, -, hne⟩ := hmembers
  refine ⟨⟨htimes, hnodup⟩, fun q hq => ⟨hle q hq r (by simp), ?_⟩⟩
  exact hne _ (List.mem_map_of_mem hq) _ (by simp)

/-- At every later time the set holds the requests, allowed or not, that its window reaches. -/
theorem recorded {rs : List Request} (h : Ordered rs) (t : Int) (ht : ∀ r ∈ rs, r.now ≤ t)
    {q : Request} (hq : q ∈ rs) (hw : t - w < q.now) :
    (q.member, q.now) ∈ ((run (serve w m) ⟨k, []⟩ rs).key.read t).entries := by
  induction rs using List.reverseRecOn generalizing t with
  | nil => cases hq
  | append_singleton rs r ih =>
    obtain ⟨hrs, hr⟩ := h.snoc
    have hrt : r.now ≤ t := ht r (by simp)
    rw [run_append, run, run, serve_key]
    rcases List.mem_append.mp hq with hq | hq
    · have hin := ih hrs r.now (fun q hq => (hr q hq).1) hq (by omega)
      exact mem_exec_of_mem (hr q hq).1 hrt hw (hr q hq).2 hin
    · rw [List.mem_singleton.mp hq] at hw ⊢
      exact mem_exec_self hrt hw

/-- A count at `r` covers the requests before it that lie less than a window back, and `r`. -/
theorem length_lt_count {rs l : List Request} (h : Ordered (rs ++ [r])) (hl : l.Sublist rs)
    (hw : 0 < w) (hnear : ∀ q ∈ l, r.now - w < q.now) :
    l.length < (slidingWindowCheck.exec (run (serve w m) ⟨k, []⟩ rs).key r w).2 := by
  obtain ⟨hrs, hr⟩ := h.snoc
  have hsub : (l ++ [r]).Sublist (rs ++ [r]) := hl.append_right [r]
  have hnodup : ((l ++ [r]).map Request.member).Nodup := h.members.sublist (hsub.map _)
  have hcard := ScoredSet.length_le_card (f := fun q : Request => (q.member, q.now))
    (s := (slidingWindowCheck.exec (run (serve w m) ⟨k, []⟩ rs).key r w).1.read r.now)
    hnodup ?_
  · rw [List.length_append, List.length_singleton] at hcard
    exact hcard
  · intro q hq
    rcases List.mem_append.mp hq with hq | hq
    · have hqr := hr q (hl.subset hq)
      have hin := recorded (m := m) (k := k) hrs r.now (fun q hq => (hr q hq).1) (hl.subset hq)
        (hnear q hq)
      exact mem_exec_of_mem hqr.1 (Int.le_refl _) (hnear q hq) hqr.2 hin
    · rw [List.mem_singleton.mp hq]
      exact mem_exec_self (Int.le_refl _) (by omega)

/-- The allowed requests whose times lie in `p`. -/
def allowedIn (p : Int → Bool) (answers : List (Request × RateLimitResult)) :
    List (Request × RateLimitResult) :=
  answers.filter fun x => x.2.allowed && p x.1.now

theorem length_allowedIn_snoc (p : Int → Bool) (l : List (Request × RateLimitResult))
    (x : Request × RateLimitResult) :
    (allowedIn p (l ++ [x])).length =
      (allowedIn p l).length + if x.2.allowed && p x.1.now then 1 else 0 := by
  rw [allowedIn, List.filter_append, List.length_append, List.filter_cons, List.filter_nil]
  split <;> rfl

theorem allowedIn_le (p : Int → Bool) (hp : ∀ t t', p t → p t' → t' - w < t) {rs : List Request}
    (h : Ordered rs) :
    (allowedIn p (run (serve w m) ⟨k, []⟩ rs).answers).length ≤ m := by
  induction rs using List.reverseRecOn with
  | nil => simp [run, allowedIn]
  | append_singleton rs r ih =>
    have hrs := ih h.snoc.1
    rw [run_append, run, run, serve_answers, length_allowedIn_snoc]
    split
    · rename_i hin
      obtain ⟨hallowed, hpr⟩ := Bool.and_eq_true_iff.mp hin
      -- `r` is the last allowed request of the window: it counted the others, rejected ones too
      have hcount : (slidingWindowCheck.exec (run (serve w m) ⟨k, []⟩ rs).key r w).2 ≤ m :=
        of_decide_eq_true hallowed
      have hsub : ((allowedIn p (run (serve w m) ⟨k, []⟩ rs).answers).map Prod.fst).Sublist
          ((run (serve w m) ⟨k, []⟩ rs).answers.map Prod.fst) := List.filter_sublist.map _
      rw [run_requests, List.map_nil, List.nil_append] at hsub
      have hw : 0 < w := by
        have := hp r.now r.now hpr hpr
        omega
      have hnear : ∀ q ∈ (allowedIn p (run (serve w m) ⟨k, []⟩ rs).answers).map Prod.fst,
          r.now - w < q.now := by
        intro q hq
        obtain ⟨x, hx, rfl⟩ := List.mem_map.mp hq
        exact hp _ _ (Bool.and_eq_true_iff.mp (List.mem_filter.mp hx).2).2 hpr
      have hlt := length_lt_count (m := m) (k := k) h hsub hw hnear
      rw [List.length_map] at hlt
      omega
    · exact hrs

end Window

/-- Every window of length `w`, open at either end and wherever it starts, holds at most `m`
allowed requests, whatever the key held before. -/
theorem allowed_within_window (w : Int) (m : Nat) (key : Key) (rs : List Request)
    (htimes : rs.Pairwise fun q r => q.now ≤ r.now) (hmembers : (rs.map Request.member).Nodup)
    (a : Int) :
    (allowedIn (fun t => a ≤ t && t < a + w) (run (serve w m) ⟨key, []⟩ rs).answers).length ≤ m ∧
      (allowedIn (fun t => a < t && t ≤ a + w) (run (serve w m) ⟨key, []⟩ rs).answers).length ≤ m := by
  have h : Ordered rs := ⟨htimes, hmembers⟩
  constructor
  · refine allowedIn_le _ (fun t t' ht ht' => ?_) h
    simp only [Bool.and_eq_true, decide_eq_true_eq] at ht ht'
    omega
  · refine allowedIn_le _ (fun t t' ht ht' => ?_) h
    simp only [Bool.and_eq_true, decide_eq_true_eq] at ht ht'
    omega

/-- Three requests at once and one a window later, under a limit of two. -/
def burst : List Request := [⟨0, "k3x"⟩, ⟨0, "p0q"⟩, ⟨400, "zz1"⟩, ⟨1401, "a7c"⟩]

theorem burst_within_window :
    burst.map Request.member = ["0:k3x", "0:p0q", "400:zz1", "1401:a7c"] ∧
      (run (serve 1000 2) ⟨.holds .empty, []⟩ burst).answers.map (fun x => x.2.allowed) =
        [true, true, false, true] ∧
      (allowedIn (fun t => 0 ≤ t && t < 0 + 1000)
        (run (serve 1000 2) ⟨.holds .empty, []⟩ burst).answers).length ≤ 2 :=
  ⟨by decide +kernel, by decide +kernel,
    (allowed_within_window 1000 2 (.holds .empty) burst (by decide) (by decide +kernel) 0).1⟩

end RateLimit
end TradeCore
