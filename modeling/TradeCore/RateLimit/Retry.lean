import TradeCore.RateLimit.SlidingWindow
import Mathlib.Data.Set.Finite.Basic

/-!
# TradeCore.RateLimit.Retry

The retry hint of a rejected request. It names the second in which the oldest request of the window
leaves it. The rejected request stays in the window with the others, so one that leaves makes room for
the next request only if all but `maxRequests - 1` of those recorded leave with it
(`retry_allowed_iff`).
-/

namespace TradeCore
namespace RateLimit

open Lib

/-- The requests the key holds once `r` is recorded. -/
def recordedWith (k : Key) (r : Request) (windowMs : Int) : ScoredSet String :=
  ((k.read r.now).removeUpTo (r.now - windowMs)).add r.member r.now

section Recorded

variable {w : Int} {m : Nat} {k : Key} {r : Request}

theorem le_ceilSeconds (ms : Int) : ms ≤ 1000 * ceilSeconds ms := by
  unfold ceilSeconds
  omega

theorem ceilSeconds_lt (ms : Int) : 1000 * ceilSeconds ms < ms + 1000 := by
  unfold ceilSeconds
  omega

theorem read_exec_eq (k : Key) (r : Request) (w t : Int) :
    (slidingWindowCheck.exec k r w).1.read t =
      if 0 < 1000 * (ceilSeconds w + 1) ∧ t < r.now + 1000 * (ceilSeconds w + 1) then
        recordedWith k r w
      else .empty :=
  Expiring.at_expire _ _ _ _ _

theorem allowed_iff_count :
    (slidingWindowCheck k r w m).2.allowed = true ↔ (slidingWindowCheck.exec k r w).2 ≤ m :=
  decide_eq_true_iff

theorem lasts_of_count (h : 0 < (slidingWindowCheck.exec k r w).2) : 0 < 1000 * (ceilSeconds w + 1) := by
  by_contra hle
  have hread := read_exec_eq k r w r.now
  rw [if_neg fun hand => hle hand.1] at hread
  have hzero : (slidingWindowCheck.exec k r w).2 = 0 := by
    show ((slidingWindowCheck.exec k r w).1.read r.now).card = 0
    rw [hread]
    rfl
  omega

theorem read_of_lasts (h : 0 < 1000 * (ceilSeconds w + 1)) :
    (slidingWindowCheck.exec k r w).1.read r.now = recordedWith k r w := by
  rw [read_exec_eq, if_pos ⟨h, by omega⟩]

theorem count_of_lasts (h : 0 < 1000 * (ceilSeconds w + 1)) :
    (slidingWindowCheck.exec k r w).2 = (recordedWith k r w).card :=
  congrArg ScoredSet.card (read_of_lasts h)

theorem mem_recordedWith : (r.member, r.now) ∈ (recordedWith k r w).entries := mem_upsert_self _ _

theorem retry_of_rejected (h : (slidingWindowCheck k r w m).2.allowed = false) :
    0 < 1000 * (ceilSeconds w + 1) ∧ ∃ oldest, (recordedWith k r w).least = some oldest ∧
      (slidingWindowCheck k r w m).2.retryAfterSeconds = ceilSeconds (oldest + w - r.now) := by
  have hcount : ¬ (slidingWindowCheck.exec k r w).2 ≤ m := by
    rw [← allowed_iff_count, h]
    exact Bool.false_ne_true
  have hlasts := lasts_of_count (w := w) (k := k) (r := r) (by omega)
  obtain ⟨oldest, holdest⟩ := ScoredSet.exists_least (mem_recordedWith (k := k) (r := r) (w := w))
  refine ⟨hlasts, oldest, holdest, ?_⟩
  simp only [slidingWindowCheck, hcount, read_of_lasts hlasts, holdest]
  rfl

theorem exists_fresh (t : Int) (s : ScoredSet String) :
    ∃ draw, ∀ e ∈ s.entries, e.1 ≠ Request.member ⟨t, draw⟩ := by
  have hinj : Function.Injective fun draw => Request.member ⟨t, draw⟩ := by
    intro d d' h
    exact (String.append_right_inj _).mp h
  obtain ⟨_, ⟨draw, rfl⟩, hdraw⟩ :=
    (Set.infinite_range_of_injective hinj).exists_notMem_finset (s.entries.map Prod.fst).toFinset
  refine ⟨draw, fun e he hem => hdraw ?_⟩
  exact List.mem_toFinset.mpr (List.mem_map.mpr ⟨e, he, hem⟩)

end Recorded

/-- The requests of a rejection leave the window fast enough: whenever, whole seconds after it, one of
them has left, fewer than `m` are still in it. -/
def ClearsInTime (m : Nat) (w : Int) (k : Key) (r : Request) : Prop :=
  ∀ n : Int, (∃ e ∈ (recordedWith k r w).entries, e.2 + w ≤ r.now + 1000 * n) →
    ((recordedWith k r w).removeUpTo (r.now + 1000 * n - w)).card < m

/-- After any history, the requests made no earlier than the hint of a rejected one says, with none
between, are all allowed exactly when those recorded leave the window fast enough. -/
theorem retry_allowed_iff (w : Int) (m : Nat) (key : Key) (rs : List Request) (r : Request)
    (h : (slidingWindowCheck (run (serve w m) ⟨key, []⟩ rs).key r w m).2.allowed = false) :
    let k := (run (serve w m) ⟨key, []⟩ rs).key
    (∀ q : Request, r.now + 1000 * (slidingWindowCheck k r w m).2.retryAfterSeconds ≤ q.now →
      (slidingWindowCheck (slidingWindowCheck k r w m).1 q w m).2.allowed = true) ↔
      ClearsInTime m w k r := by
  intro k
  obtain ⟨hlasts, oldest, holdest, hretry⟩ := retry_of_rejected h
  obtain ⟨⟨e, he, rfl⟩, hleast⟩ := ScoredSet.least_eq_some holdest
  rw [hretry]
  have hup := le_ceilSeconds (e.2 + w - r.now)
  have hdown := ceilSeconds_lt (e.2 + w - r.now)
  constructor
  · intro hall n ⟨e', he', hn⟩
    -- the first request the hint admits, under a member of its own
    obtain ⟨draw, hdraw⟩ := exists_fresh (r.now + 1000 * ceilSeconds (e.2 + w - r.now)) (recordedWith k r w)
    have hq := allowed_iff_count.mp (hall ⟨_, draw⟩ (Int.le_refl _))
    have hself : e.2 ≤ r.now := hleast _ mem_recordedWith
    have hwhole := lt_ceilSeconds w
    have hread := read_exec_eq k r w (r.now + 1000 * ceilSeconds (e.2 + w - r.now))
    rw [if_pos ⟨hlasts, by unfold ceilSeconds at *; omega⟩] at hread
    rw [count_of_lasts hlasts, recordedWith,
      show (slidingWindowCheck k r w m).1.read _ = recordedWith k r w from hread,
      ScoredSet.card_add_of_fresh _ fun x hx => hdraw x (ScoredSet.mem_removeUpTo.mp hx).1] at hq
    have hback : r.now + 1000 * ceilSeconds (e.2 + w - r.now) - w ≤ r.now + 1000 * n - w := by
      have := hleast e' he'
      omega
    have hmono := ScoredSet.card_removeUpTo_le hback (recordedWith k r w)
    exact Nat.lt_of_le_of_lt hmono (Nat.lt_of_succ_le hq)
  · intro hclears q hq
    have hroom := hclears (ceilSeconds (e.2 + w - r.now)) ⟨e, he, by omega⟩
    rw [allowed_iff_count, count_of_lasts hlasts, recordedWith]
    refine Nat.le_trans (ScoredSet.card_add_le _ _ _) (Nat.succ_le_of_lt (Nat.lt_of_le_of_lt ?_ hroom))
    rw [show (slidingWindowCheck k r w m).1.read q.now = _ from read_exec_eq k r w q.now]
    split
    · exact ScoredSet.card_removeUpTo_le (by omega) _
    · exact Nat.zero_le _

/-- The key after a request at 0, under a window of `w`. -/
def askedOnce (w : Int) : Key := (run (serve w 1) ⟨.holds .empty, []⟩ [⟨0, "k3x"⟩]).key

/-- One request in two seconds: the second is told to come back in one, and is rejected again. -/
theorem retry_rejected_again :
    (slidingWindowCheck (askedOnce 2000) ⟨1500, "p0q"⟩ 2000 1).2 = ⟨false, 1, 0, 1, 1⟩ ∧
      (slidingWindowCheck (slidingWindowCheck (askedOnce 2000) ⟨1500, "p0q"⟩ 2000 1).1
        ⟨2500, "zz1"⟩ 2000 1).2.allowed = false :=
  ⟨by decide +kernel, by decide +kernel⟩

/-- One request in a second: the hint reaches past both requests. -/
theorem retry_allowed_once :
    (slidingWindowCheck (askedOnce 1000) ⟨500, "p0q"⟩ 1000 1).2.retryAfterSeconds = 1 ∧
      (slidingWindowCheck (slidingWindowCheck (askedOnce 1000) ⟨500, "p0q"⟩ 1000 1).1
        ⟨1500, "zz1"⟩ 1000 1).2.allowed = true := by
  have hretry : (slidingWindowCheck (askedOnce 1000) ⟨500, "p0q"⟩ 1000 1).2.retryAfterSeconds = 1 := by
    decide +kernel
  have hset : ∀ e ∈ (recordedWith (askedOnce 1000) ⟨500, "p0q"⟩ 1000).entries, 0 ≤ e.2 ∧ e.2 ≤ 500 := by
    decide +kernel
  refine ⟨hretry, (retry_allowed_iff 1000 1 (.holds .empty) [⟨0, "k3x"⟩] ⟨500, "p0q"⟩
    (by decide +kernel)).mpr ?_ ⟨1500, "zz1"⟩ ?_⟩
  · rintro n ⟨e, he, hn⟩
    have he0 := (hset e he).1
    have hn : e.2 + 1000 ≤ 500 + 1000 * n := hn
    have hnone : ((recordedWith (askedOnce 1000) ⟨500, "p0q"⟩ 1000).removeUpTo
        (500 + 1000 * n - 1000)).entries = [] := by
      refine List.filter_eq_nil_iff.mpr fun x hx => ?_
      have := (hset x hx).2
      rw [decide_eq_true_eq]
      omega
    exact Nat.lt_one_iff.mpr (List.length_eq_zero_iff.mpr hnone)
  · show 500 + 1000 * (slidingWindowCheck (askedOnce 1000) ⟨500, "p0q"⟩ 1000 1).2.retryAfterSeconds ≤ 1500
    omega

end RateLimit
end TradeCore
