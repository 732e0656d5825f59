import TradeCore.Lib.DecimalText
import TradeCore.Lib.JsonText
import TradeCore.RateLimit.Service

/-!
# TradeCore.RateLimit.Counting

How many requests a check counts: under either strategy the requests of its key, itself included, that its
window reaches (`currentCount_eq`). The history may interleave any keys, as long as calls under one key of
the server are under the same limits.
-/

namespace TradeCore
namespace RateLimit

open Lib

/-- The window of a check at `now` reaches the time `t`. -/
def InWindow (strategy : SlidingWindowStrategy) (windowMs : Int) (now t : Time) : Bool :=
  match strategy with
  | .slidingWindow => now - windowMs < t
  | .fixedWindow => windowStart t windowMs = windowStart now windowMs

/-! ## The sliding window -/

section Sliding

variable {w : Int} {m : Nat} {r : Request}

theorem exists_of_mem_value (rs : List Request) :
    ∀ e ∈ (run (serve w m) ⟨.holds .empty, []⟩ rs).key.value.entries,
      ∃ q ∈ rs, (q.member, q.now) = e := by
  induction rs using List.reverseRecOn with
  | nil => exact fun e he => absurd he List.not_mem_nil
  | append_singleton rs r ih =>
    rw [run_append, run, run, serve_key]
    intro e he
    have hadded : e ∈ (recordedWith (run (serve w m) ⟨.holds .empty, []⟩ rs).key r w).entries := by
      unfold slidingWindowCheck.exec Expiring.expire at he
      dsimp only at he
      split at he
      · cases he
      · exact he
    rcases mem_upsert hadded with rfl | hin
    · exact ⟨r, by simp, rfl⟩
    · obtain ⟨q, hq, rfl⟩ := ih e (Expiring.mem_of_mem_at (ScoredSet.mem_removeUpTo.mp hin).1)
      exact ⟨q, by simp [hq], rfl⟩

theorem exec_count {rs : List Request} (h : Ordered (rs ++ [r])) (hw : 0 < w) :
    (slidingWindowCheck.exec (run (serve w m) ⟨.holds .empty, []⟩ rs).key r w).2 =
      (rs ++ [r]).countP fun q => r.now - w < q.now := by
  have hself : (rs ++ [r]).countP (fun q => r.now - w < q.now) =
      (rs.filter fun q => r.now - w < q.now).length + 1 := by
    rw [List.countP_append, List.countP_eq_length_filter, List.countP_singleton, if_pos (by simpa using hw)]
  rw [hself]
  refine Nat.le_antisymm ?_ ?_
  · rw [count_of_lasts (by have := lt_ceilSeconds w; omega)]
    refine Nat.le_trans (ScoredSet.card_add_le _ _ _) (Nat.add_le_add_right ?_ 1)
    rw [← List.length_map (fun q : Request => (q.member, q.now))]
    refine (List.subperm_of_subset (List.Nodup.of_map Prod.fst (ScoredSet.nodup _)) ?_).length_le
    intro e he
    obtain ⟨hin, hlate⟩ := ScoredSet.mem_removeUpTo.mp he
    obtain ⟨q, hq, rfl⟩ := exists_of_mem_value rs e (Expiring.mem_of_mem_at hin)
    exact List.mem_map_of_mem (List.mem_filter.mpr ⟨hq, by simpa using hlate⟩)
  · refine length_lt_count h List.filter_sublist hw fun q hq => ?_
    simpa using (List.mem_filter.mp hq).2

end Sliding

/-! ## The keys -/

theorem windowKey_inj {key key' : String} {t t' : Time} (h : windowKey key t = windowKey key' t') :
    key = key' ∧ t = t' := by
  have hcolon : ∀ t : Time, ':' ∉ (toString t).toList.reverse := by
    intro t hmem
    rcases mem_intText (List.mem_reverse.mp hmem) with h | h
    · exact absurd h (by decide)
    · exact absurd h (by decide)
  have hlist := congrArg (fun s : String => s.toList.reverse) h
  simp only [windowKey, String.toList_append, List.reverse_append] at hlist
  obtain ⟨htime, hkey⟩ := delimited_inj (hcolon t) (hcolon t') (by simpa using hlist)
  exact ⟨String.toList_injective (List.reverse_injective hkey),
    intText_inj (String.toList_injective (List.reverse_injective htime))⟩

/-! ## The keys over a history -/

section History

variable {service : RateLimitService} {redis : Redis} {c : Call} {limits : Limits} {m : Nat}

/-- The requests whose calls share a key of the server. -/
def requestsUnder (redisKey : String) (calls : List Call) : List Request :=
  (calls.filter fun c => c.redisKey = redisKey).map Call.request

theorem requestsUnder_append (redisKey : String) (calls rest : List Call) :
    requestsUnder redisKey (calls ++ rest) = requestsUnder redisKey calls ++ requestsUnder redisKey rest := by
  rw [requestsUnder, List.filter_append, List.map_append]
  rfl

theorem requestsUnder_self (c : Call) : requestsUnder c.redisKey [c] = [c.request] := by
  simp [requestsUnder]

theorem requestsUnder_other {key : String} (h : c.redisKey ≠ key) : requestsUnder key [c] = [] := by
  simp [requestsUnder, h]

theorem step_sliding_other (hs : service.strategy = .slidingWindow) {key : String}
    (hne : key ≠ c.redisKey) : step service redis c key = redis key := by
  rw [step, check]
  cases getEffectiveLimits service.cache c.tier c.endpoint with
  | error e => rfl
  | ok limits =>
    dsimp only
    cases limits.maxRequests with
    | unlimited => rfl
    | finite m =>
      simp only [hs, Redis.slidingWindowCheck]
      cases (redis c.redisKey).set? c.request.now <;> exact Function.update_of_ne hne _ _

theorem step_fixed_other (hs : service.strategy = .fixedWindow) {key : String}
    (hne : ∀ limits, getEffectiveLimits service.cache c.tier c.endpoint = .ok limits →
      key ≠ windowKey c.redisKey (windowStart c.request.now limits.windowMs)) :
    step service redis c key = redis key := by
  rw [step, check]
  cases hlimits : getEffectiveLimits service.cache c.tier c.endpoint with
  | error e => rfl
  | ok limits =>
    dsimp only
    cases limits.maxRequests with
    | unlimited => rfl
    | finite m =>
      simp only [hs]
      exact Function.update_of_ne (hne limits hlimits) _ _

theorem lt_lifetime {t now : Time} {w : Int} (hw : 0 < w) (h : windowStart now w = windowStart t w) :
    t < now + lifetime w := by
  calc
    t < windowStart t w + w := by
      have := Int.lt_ediv_add_one_mul_self t hw
      rwa [add_mul, one_mul] at this
    _ = windowStart now w + w := by rw [h]
    _ ≤ now + w := Int.add_le_add_right (Int.ediv_mul_le now (by omega)) w
    _ < now + lifetime w := Int.add_lt_add_left (lt_ceilSeconds w) now

theorem run_sliding (hs : service.strategy = .slidingWindow) (hm : limits.maxRequests = .finite m)
    (redisKey : String) (calls : List Call)
    (hlimits : ∀ d ∈ calls, d.redisKey = redisKey →
      getEffectiveLimits service.cache d.tier d.endpoint = .ok limits) :
    run (step service) Redis.empty calls redisKey =
      .set (run (serve limits.windowMs m) ⟨.holds .empty, []⟩ (requestsUnder redisKey calls)).key := by
  induction calls using List.reverseRecOn with
  | nil => rfl
  | append_singleton calls c ih =>
    have hkey := ih fun d hd => hlimits d (List.mem_append_left _ hd)
    rw [run_append, run, run, requestsUnder_append]
    by_cases hc : c.redisKey = redisKey
    · obtain rfl := hc
      rw [requestsUnder_self, run_append, run, run, serve_key, step,
        check_sliding hs (hlimits c (by simp) rfl) hm hkey]
      exact Function.update_self _ _ _
    · rw [requestsUnder_other hc, List.append_nil, step_sliding_other hs (Ne.symm hc), hkey]

/-- The counter of a fixed window holds, as long as the window lasts, the number of the requests of its
key that fell in it. -/
theorem run_fixed (hs : service.strategy = .fixedWindow) (hm : limits.maxRequests = .finite m)
    (redisKey : String) (calls : List Call)
    (hlimits : ∀ d ∈ calls, d.redisKey = redisKey →
      getEffectiveLimits service.cache d.tier d.endpoint = .ok limits)
    (htimes : calls.Pairwise fun d e => d.request.now ≤ e.request.now) (t : Time)
    (ht : ∀ d ∈ calls, d.request.now ≤ t) :
    (run (step service) Redis.empty calls
        (windowKey redisKey (windowStart t limits.windowMs))).count t =
      (requestsUnder redisKey calls).countP fun q => InWindow .fixedWindow limits.windowMs t q.now := by
  induction calls using List.reverseRecOn generalizing t with
  | nil => rfl
  | append_singleton calls c ih =>
    obtain ⟨hcalls, -, hle⟩ := List.pairwise_append.mp htimes
    have ih := ih (fun d hd => hlimits d (List.mem_append_left _ hd)) hcalls
    have hct : c.request.now ≤ t := ht c (by simp)
    have hbefore := ih t fun d hd => ht d (List.mem_append_left _ hd)
    rw [run_append, run, run, requestsUnder_append, List.countP_append]
    have hother (hmiss : c.redisKey = redisKey →
        windowStart t limits.windowMs ≠ windowStart c.request.now limits.windowMs) :
        step service (run (step service) Redis.empty calls) c
            (windowKey redisKey (windowStart t limits.windowMs)) =
          run (step service) Redis.empty calls (windowKey redisKey (windowStart t limits.windowMs)) := by
      refine step_fixed_other hs fun limits' hlimits' hkey => ?_
      obtain ⟨rfl, hstart⟩ := windowKey_inj hkey
      rw [hlimits c (by simp) rfl] at hlimits'
      cases hlimits'
      exact hmiss rfl hstart
    by_cases hc : c.redisKey = redisKey
    · obtain rfl := hc
      rw [requestsUnder_self, List.countP_singleton]
      simp only [InWindow, decide_eq_true_eq]
      by_cases hw : windowStart c.request.now limits.windowMs = windowStart t limits.windowMs
      · have hself := ih c.request.now fun d hd => hle d hd c (by simp)
        have htyped := run_typed service calls
        rw [hs] at htyped
        rw [if_pos hw, ← hw, step_fixed_self _ c hs (hlimits c (by simp) rfl) hm,
          count_exec_of_lt (htyped _) hct (lt_lifetime (windowMs_pos limits) hw), hself]
        simp only [InWindow]
      · rw [if_neg hw, hother fun _ => Ne.symm hw, hbefore, Nat.add_zero]
        rfl
    · rw [requestsUnder_other hc, hother fun h => absurd h hc, hbefore, List.countP_nil, Nat.add_zero]

/-- The requests a check counts: those of its key that its window reaches, itself included. -/
theorem currentCount_eq (hm : limits.maxRequests = .finite m) (calls : List Call) (c : Call)
    (hlimits : ∀ d ∈ calls, d.redisKey = c.redisKey →
      getEffectiveLimits service.cache d.tier d.endpoint = .ok limits)
    (htimes : (calls ++ [c]).Pairwise fun d e => d.request.now ≤ e.request.now)
    (hmembers : ((requestsUnder c.redisKey (calls ++ [c])).map Request.member).Nodup) :
    (run (step service) Redis.empty calls).currentCount service c limits.windowMs =
      (requestsUnder c.redisKey (calls ++ [c])).countP fun q =>
        InWindow service.strategy limits.windowMs c.request.now q.now := by
  have hrequests : requestsUnder c.redisKey (calls ++ [c]) =
      requestsUnder c.redisKey calls ++ [c.request] := by
    rw [requestsUnder_append, requestsUnder_self]
  cases hs : service.strategy with
  | slidingWindow =>
    have hordered : Ordered (requestsUnder c.redisKey calls ++ [c.request]) := by
      rw [← hrequests]
      refine ⟨?_, hmembers⟩
      exact List.pairwise_map.mpr (htimes.sublist List.filter_sublist)
    simp only [Redis.currentCount, hs, run_sliding hs hm _ _ hlimits, Slot.set?]
    rw [hrequests, exec_count hordered (windowMs_pos limits)]
    rfl
  | fixedWindow =>
    obtain ⟨hcalls, -, hle⟩ := List.pairwise_append.mp htimes
    simp only [Redis.currentCount, hs]
    rw [fixedWindowCheck_count, run_fixed hs hm _ _ hlimits hcalls _ fun d hd => hle d hd c (by simp),
      hrequests, List.countP_append, List.countP_singleton, if_pos (by simp [InWindow])]

/-- The limit and the remaining requests of a check that counts. -/
theorem check_limited (htyped : redis.Typed service.strategy)
    (hlimits : getEffectiveLimits service.cache c.tier c.endpoint = .ok limits)
    (hm : limits.maxRequests = .finite m) :
    ∃ result, (check service redis c).2 = .ok (.limited result) ∧ result.limit = m ∧
      result.remaining = m - redis.currentCount service c limits.windowMs := by
  cases hs : service.strategy with
  | slidingWindow =>
    rw [hs] at htyped
    obtain ⟨k, hk⟩ := htyped c.redisKey
    rw [check_sliding hs hlimits hm hk]
    refine ⟨_, rfl, rfl, ?_⟩
    simp only [Redis.currentCount, hs, hk, Slot.set?]
    rfl
  | fixedWindow =>
    rw [check_fixed hs hlimits hm]
    refine ⟨_, rfl, rfl, ?_⟩
    simp only [Redis.currentCount, hs]
    rfl

end History

end RateLimit
end TradeCore
