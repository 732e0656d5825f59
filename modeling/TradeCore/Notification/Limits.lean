import Mathlib.Data.List.Flatten
import TradeCore.Notification.Services

/-!
# TradeCore.Notification.Limits

Limits, cooldown and deduplication under interleaved calls.

A call checks first and records later, each key by itself, so that calls that check before any of them
records all say yes (`checks_pass_together`). A period that is counted is described by `Counted`,
once for the hours and once for the days: what has been recorded in the period is on the counter, or
on its way there.

`alerts_limited`: the limits, the cooldown and the window hold in every interleaving in which the
checks of a call would still pass when it records.
-/

namespace TradeCore
namespace Notification

open Lib

/-! ## What the calls hold -/

/-- The target and the moment of a call that has recorded its notification. -/
def Call.sending : Call → List (Target × Time)
  | .recorded target sentAt | .hourlyIncremented target sentAt _ | .hourlyExpires target sentAt
  | .dailyIncremented target sentAt _ => [(target, sentAt)]
  | _ => []

/-- The keys that are recorded and not yet on the counter of the hour. -/
def Call.beforeHourly : Call → List String
  | .recorded target _ => [target.key]
  | _ => []

def Call.beforeDaily : Call → List String
  | .recorded target _ | .hourlyIncremented target _ _ | .hourlyExpires target _ => [target.key]
  | _ => []

/-- The hour whose counter a call is about to give a lifetime. -/
def Call.openHour : Call → List Int
  | .hourlyIncremented _ _ hour => [hour]
  | _ => []

def Call.openDay : Call → List Int
  | .dailyIncremented _ _ day => [day]
  | _ => []

/-- The event and the moment of a call that has recorded it. -/
def Call.seeing : Call → List (String × Time)
  | .exactSet event seenAt | .exactExpires event seenAt | .similarSet event seenAt =>
    [(event.uniqueId, seenAt)]
  | _ => []

/-- The notifications that calls have said yes to. -/
def sentBy : CallTask → List (Target × Time)
  | .done (.send target sentAt) => [(target, sentAt)]
  | _ => []

/-- The events that calls have said are no duplicates. -/
def freshBy : CallTask → List (String × Time)
  | .done (.fresh event seenAt) => [(event.uniqueId, seenAt)]
  | _ => []

def sendsOf (t : CallTask) : List (Target × Time) := sentBy t ++ t.gather Call.sending

def seenOf (t : CallTask) : List (String × Time) := freshBy t ++ t.gather Call.seeing

/-! ## What is asked of a run -/

/-- Two moments are at least so many milliseconds apart. -/
def Apart (distance : Int) (t t' : Time) : Prop := distance ≤ t' - t ∨ distance ≤ t - t'

theorem Apart.symm {distance : Int} {t t' : Time} (h : Apart distance t t') : Apart distance t' t :=
  Or.symm h

/-- The calls that have said yes keep the limits of their rule, and those that have called an event new
are a window apart. -/
structure Limited (clock : Clock) (sends : List (Target × Time)) (seen : List (String × Time)) :
    Prop where
  hourly : ∀ (target : Target) (hour : Int),
    sends.countP (fun e => e.1 = target ∧ clock.hour e.2 = hour) ≤ target.rule.rateLimit.maxPerHour
  daily : ∀ (target : Target) (day : Int),
    sends.countP (fun e => e.1 = target ∧ clock.day e.2 = day) ≤ target.rule.rateLimit.maxPerDay
  cooldown : sends.Pairwise fun a b =>
    a.1 = b.1 → Apart (a.1.rule.rateLimit.cooldownPeriod * 1000) a.2 b.2
  once : seen.Pairwise fun a b => a.1 = b.1 → Apart (windowSeconds * 1000) a.2 b.2

def AlertsLimited (clock : Clock) (c : Conf State Call Result) : Prop :=
  Limited clock (c.tasks.flatMap sentBy) (c.tasks.flatMap freshBy)

/-- When a call records, its checks would pass again, with the calls counted that have recorded and are
not yet on the counters. -/
def StillPasses (clock : Clock) (elapsed : Nat) (c : Call) (s : State) (ts : List CallTask) : Prop :=
  match c with
  | .gotDaily target count =>
    count < target.rule.rateLimit.maxPerDay →
      ¬ isInCooldown target.rule ((s.last target.key).at none (s.tick elapsed).now)
          (s.tick elapsed).now ∧
        (s.hourly (target.key, clock.hour (s.tick elapsed).now)).at 0 (s.tick elapsed).now +
          (gather Call.beforeHourly ts).count target.key < target.rule.rateLimit.maxPerHour ∧
        (s.daily (target.key, clock.day (s.tick elapsed).now)).at 0 (s.tick elapsed).now +
          (gather Call.beforeDaily ts).count target.key < target.rule.rateLimit.maxPerDay
  | .gotSimilar event lastSeen =>
    ¬ isSimilarDuplicate lastSeen (s.tick elapsed).now →
      (s.exact event.uniqueId).at none (s.tick elapsed).now = none
  | _ => True

instance StillPasses.decidable (clock : Clock) (elapsed : Nat) :
    ∀ (c : Call) (s : State) (ts : List CallTask), Decidable (StillPasses clock elapsed c s ts)
  | .gotDaily _ _, _, _ => inferInstanceAs (Decidable (_ → _ ∧ _ ∧ _))
  | .gotSimilar _ _, _, _ => inferInstanceAs (Decidable (_ → _))
  | .checkLast _, _, _ | .gotLast _ _, _, _ | .gotHourly _ _, _, _ | .recorded _ _, _, _
  | .hourlyIncremented _ _ _, _, _ | .hourlyExpires _ _, _, _ | .dailyIncremented _ _ _, _, _
  | .checkExact _, _, _ | .exactAbsent _, _, _ | .exactSet _ _, _, _ | .exactExpires _ _, _, _
  | .similarSet _ _, _, _ => .isTrue trivial

abbrev StillPassesStep (clock : Clock) : Conf State Call Result → Act Nat CallOp → Prop :=
  Meets (fun _ => True) (StillPasses clock)

/-! ## One period -/

/-- The counters of a period, against what has been recorded. -/
structure Counted (per : Time → Int) (span : Int) (max : Target → Nat) (now : Time)
    (keys : String × Int → Expiring Nat) (sends : List (Target × Time)) (pending : List String)
    (opened : List Int) : Prop where
  count : ∀ key, sends.countP (fun e => e.1.key = key ∧ per e.2 = per now) ≤
    (keys (key, per now)).value + pending.count key
  /-- A counter lives longer than its period. -/
  expiry : ∀ k e, (keys k).expiresAt = some e → ∃ t, per t = k.2 ∧ t + span ≤ e
  opened : ∀ p ∈ opened, ∃ t ≤ now, per t = p
  limit : ∀ target p, sends.countP (fun e => e.1 = target ∧ per e.2 = p) ≤ max target

section Counted

variable {per : Time → Int} {span : Int} {max : Target → Nat} {now now' : Time}
  {keys : String × Int → Expiring Nat} {sends sends' : List (Target × Time)}
  {pending pending' : List String} {opened opened' : List Int}

theorem Counted.perm (h : Counted per span max now keys sends pending opened)
    (hs : sends'.Perm sends) (hp : pending'.Perm pending) (ho : opened'.Perm opened) :
    Counted per span max now keys sends' pending' opened' where
  count key := by rw [hs.countP_eq, hp.count_eq]; exact h.count key
  expiry := h.expiry
  opened p hmem := h.opened p (ho.mem_iff.mp hmem)
  limit target p := by rw [hs.countP_eq]; exact h.limit target p

/-- Time passes: what is counted in a new period is nothing. -/
theorem Counted.tick (h : Counted per span max now keys sends pending opened)
    (hmono : ∀ t t', t ≤ t' → per t ≤ per t') (hpast : ∀ e ∈ sends, e.2 ≤ now) (hle : now ≤ now') :
    Counted per span max now' keys sends pending opened := by
  refine ⟨fun key => ?_, h.expiry, fun p hp => ?_, h.limit⟩
  · by_cases hsame : per now' = per now
    · rw [hsame]
      exact h.count key
    · have hzero : sends.countP (fun e => e.1.key = key ∧ per e.2 = per now') = 0 := by
        refine List.countP_eq_zero.mpr fun e he hk => hsame ?_
        have hper : per e.2 = per now' := (of_decide_eq_true hk).2
        exact le_antisymm (hper ▸ hmono _ _ (hpast e he)) (hmono _ _ hle)
      rw [hzero]
      exact Nat.zero_le _
  · obtain ⟨t, ht, hper⟩ := h.opened p hp
    exact ⟨t, ht.trans hle, hper⟩

/-- The counter of the running period has not expired. -/
theorem Counted.live (h : Counted per span max now keys sends pending opened)
    (hspan : ∀ t t', per t = per t' → t' < t + span) (key : String) :
    (keys (key, per now)).live 0 now = keys (key, per now) := by
  refine Expiring.live_of_lt fun e he => ?_
  obtain ⟨t, hper, hle⟩ := h.expiry _ e he
  exact (hspan t now hper).trans_le hle

/-- A call records while the counter and what is on its way there are below the limit. -/
theorem Counted.send (h : Counted per span max now keys sends pending opened)
    (hspan : ∀ t t', per t = per t' → t' < t + span) {target : Target}
    (hlt : (keys (target.key, per now)).at 0 now + pending.count target.key < max target) :
    Counted per span max now keys ((target, now) :: sends) (target.key :: pending) opened := by
  rw [← Expiring.live_value, h.live hspan] at hlt
  refine ⟨fun key => ?_, h.expiry, h.opened, fun target' p => ?_⟩
  · have hcount := h.count key
    rw [List.countP_cons, List.count_cons]
    by_cases hk : target.key = key
    · simp only [hk, and_self, decide_true, if_true, beq_self_eq_true]
      omega
    · simp only [hk, false_and, decide_false, Bool.false_eq_true, if_false, beq_iff_eq]
      omega
  · have hlimit := h.limit target' p
    rw [List.countP_cons]
    split
    · rename_i he
      obtain ⟨rfl, rfl⟩ := of_decide_eq_true he
      dsimp only at hlimit ⊢
      have hsub : sends.countP (fun e => e.1 = target ∧ per e.2 = per now) ≤
          sends.countP (fun e => e.1.key = target.key ∧ per e.2 = per now) := by
        refine List.countP_mono_left fun e _ he => decide_eq_true ?_
        obtain ⟨he1, he2⟩ := of_decide_eq_true he
        exact ⟨by rw [he1], he2⟩
      have hcount := h.count target.key
      omega
    · omega

theorem Counted.incr {key : String}
    (h : Counted per span max now keys sends (key :: pending) opened)
    (hspan : ∀ t t', per t = per t' → t' < t + span) :
    Counted per span max now
      (Function.update keys (key, per now) (State.incr (keys (key, per now)) now)) sends pending
      (per now :: opened) := by
  have hincr : State.incr (keys (key, per now)) now =
      ⟨(keys (key, per now)).value + 1, (keys (key, per now)).expiresAt⟩ := by
    rw [State.incr, h.live hspan]
  refine ⟨fun key' => ?_, fun k e he => ?_, fun p hp => ?_, h.limit⟩
  · have hcount := h.count key'
    rw [List.count_cons] at hcount
    by_cases hk : key' = key
    · subst hk
      rw [Function.update_self, hincr]
      simp only [beq_self_eq_true, if_true] at hcount
      exact hcount.trans (by dsimp only; omega)
    · rw [Function.update_of_ne (by simp [hk])]
      rw [if_neg (by simpa using Ne.symm hk)] at hcount
      exact hcount
  · by_cases hk : k = (key, per now)
    · rw [hk, Function.update_self, hincr] at he
      rw [hk]
      exact h.expiry _ e he
    · rw [Function.update_of_ne hk] at he
      exact h.expiry k e he
  · rcases List.mem_cons.mp hp with rfl | hp
    · exact ⟨now, le_refl _, rfl⟩
    · exact h.opened p hp

theorem Counted.expire {key : String} {p : Int}
    (h : Counted per span max now keys sends pending (p :: opened))
    (hspan : ∀ t t', per t = per t' → t' < t + span) :
    Counted per span max now
      (Function.update keys (key, p) ((keys (key, p)).renew 0 now span)) sends pending opened := by
  obtain ⟨t, ht, hper⟩ := h.opened p (.head _)
  refine ⟨fun key' => ?_, fun k e he => ?_, fun q hq => h.opened q (.tail _ hq), h.limit⟩
  · by_cases hk : (key', per now) = (key, p)
    · have hvalue : ((keys (key, p)).renew 0 now span).value = (keys (key, p)).value := by
        rw [← hk, Expiring.renew, h.live hspan]
        split <;> rfl
      rw [hk, Function.update_self, hvalue, ← hk]
      exact h.count key'
    · rw [Function.update_of_ne hk]
      exact h.count key'
  · by_cases hk : k = (key, p)
    · subst hk
      rw [Function.update_self, Expiring.renew] at he
      split at he
      · exact h.expiry _ e (Expiring.lt_of_live he).1
      · obtain rfl : now + span = e := Option.some.inj he
        exact ⟨t, hper, Int.add_le_add_right ht span⟩
    · rw [Function.update_of_ne hk] at he
      exact h.expiry k e he

end Counted

/-! ## The cooldown and the window -/

/-- `last:` holds the latest moment that a notification was recorded. -/
structure Cooled (now : Time) (last : String → Expiring (Option Time))
    (sends : List (Target × Time)) : Prop where
  past : ∀ e ∈ sends, e.2 ≤ now
  latest : ∀ e ∈ sends, ∃ l, last e.1.key = .holds (some l) ∧ e.2 ≤ l
  cooldown : sends.Pairwise fun a b =>
    a.1 = b.1 → Apart (a.1.rule.rateLimit.cooldownPeriod * 1000) a.2 b.2

/-- `exact:` holds an event until its window is over. -/
structure Deduped (now : Time) (exact : String → Expiring (Option Time))
    (seen : List (String × Time)) : Prop where
  past : ∀ e ∈ seen, e.2 ≤ now
  found : ∀ e ∈ seen, e.2 + windowSeconds * 1000 ≤ now ∨
    (exact e.1).value ≠ none ∧
      ∀ t, (exact e.1).expiresAt = some t → e.2 + windowSeconds * 1000 ≤ t
  once : seen.Pairwise fun a b => a.1 = b.1 → Apart (windowSeconds * 1000) a.2 b.2

section Cooled

variable {now now' : Time} {last : String → Expiring (Option Time)} {sends sends' : List (Target × Time)}

theorem Cooled.perm (h : Cooled now last sends) (hs : sends'.Perm sends) : Cooled now last sends' where
  past e he := h.past e (hs.mem_iff.mp he)
  latest e he := h.latest e (hs.mem_iff.mp he)
  cooldown := (hs.pairwise_iff fun hab he => he ▸ (hab he.symm).symm).mpr h.cooldown

theorem Cooled.tick (h : Cooled now last sends) (hle : now ≤ now') : Cooled now' last sends :=
  ⟨fun e he => (h.past e he).trans hle, h.latest, h.cooldown⟩

theorem Cooled.send (h : Cooled now last sends) {target : Target}
    (hnot : ¬ isInCooldown target.rule ((last target.key).at none now) now) :
    Cooled now (Function.update last target.key (.holds (some now))) ((target, now) :: sends) := by
  refine ⟨fun e he => ?_, fun e he => ?_, List.pairwise_cons.mpr ⟨fun e he heq => ?_, h.cooldown⟩⟩
  · rcases List.mem_cons.mp he with rfl | he
    · exact le_refl _
    · exact h.past e he
  · by_cases hk : e.1.key = target.key
    · rw [hk, Function.update_self]
      refine ⟨now, rfl, ?_⟩
      rcases List.mem_cons.mp he with rfl | he
      · exact le_refl _
      · exact h.past e he
    · rw [Function.update_of_ne hk]
      rcases List.mem_cons.mp he with rfl | he
      · exact absurd rfl hk
      · exact h.latest e he
  · obtain ⟨l, hl, hle⟩ := h.latest e he
    dsimp only at heq
    rw [heq, hl] at hnot
    have hlt : ¬ now - l < target.rule.rateLimit.cooldownPeriod * 1000 :=
      fun hlt => hnot (heq ▸ ⟨l, rfl, hlt⟩)
    exact .inr ((Int.not_lt.mp hlt).trans (Int.sub_le_sub_left hle now))

end Cooled

section Deduped

variable {now now' : Time} {exact : String → Expiring (Option Time)} {seen seen' : List (String × Time)}

theorem Deduped.perm (h : Deduped now exact seen) (hs : seen'.Perm seen) : Deduped now exact seen' where
  past e he := h.past e (hs.mem_iff.mp he)
  found e he := h.found e (hs.mem_iff.mp he)
  once := (hs.pairwise_iff fun hab he => (hab he.symm).symm).mpr h.once

theorem Deduped.tick (h : Deduped now exact seen) (hle : now ≤ now') : Deduped now' exact seen :=
  ⟨fun e he => (h.past e he).trans hle, fun e he => (h.found e he).imp_left hle.trans', h.once⟩

/-- An event whose key is gone was recorded a window ago. -/
theorem Deduped.over (h : Deduped now exact seen) {e : String × Time} (he : e ∈ seen)
    (habsent : (exact e.1).at none now = none) : e.2 + windowSeconds * 1000 ≤ now := by
  rcases h.found e he with hover | ⟨hvalue, hexpiry⟩
  · exact hover
  · unfold Expiring.at at habsent
    cases hexp : (exact e.1).expiresAt with
    | none =>
      rw [hexp] at habsent
      exact absurd habsent hvalue
    | some t =>
      rw [hexp] at habsent
      dsimp only at habsent
      split at habsent
      · exact (hexpiry t hexp).trans ‹_›
      · exact absurd habsent hvalue

theorem Deduped.see (h : Deduped now exact seen) {uniqueId : String}
    (habsent : (exact uniqueId).at none now = none) :
    Deduped now (Function.update exact uniqueId (.holds (some now))) ((uniqueId, now) :: seen) := by
  refine ⟨fun e he => ?_, fun e he => ?_, List.pairwise_cons.mpr ⟨fun e he heq => ?_, h.once⟩⟩
  · rcases List.mem_cons.mp he with rfl | he
    · exact le_refl _
    · exact h.past e he
  · by_cases hk : e.1 = uniqueId
    · rw [hk, Function.update_self]
      exact .inr ⟨nofun, nofun⟩
    · rw [Function.update_of_ne hk]
      rcases List.mem_cons.mp he with rfl | he
      · exact absurd rfl hk
      · exact h.found e he
  · dsimp only at heq
    exact .inr (Int.le_sub_left_of_add_le (h.over he (heq ▸ habsent)))

theorem Deduped.expire (h : Deduped now exact seen) (uniqueId : String) :
    Deduped now
      (Function.update exact uniqueId ((exact uniqueId).renew none now (windowSeconds * 1000))) seen := by
  refine ⟨h.past, fun e he => ?_, h.once⟩
  by_cases hk : e.1 = uniqueId
  · subst hk
    rw [Function.update_self, Expiring.renew]
    split
    · rename_i hnone
      exact .inl (h.over he (by rwa [Expiring.live_value] at hnone))
    · rename_i hsome
      refine .inr ⟨hsome, fun t ht => ?_⟩
      obtain rfl : now + windowSeconds * 1000 = t := Option.some.inj ht
      exact Int.add_le_add_right (h.past e he) _
  · rw [Function.update_of_ne hk]
    exact h.found e he

end Deduped

/-! ## Every interleaving -/

/-- What the keys hold, against what the calls have recorded. -/
structure Recorded (clock : Clock) (s : State) (sends : List (Target × Time))
    (toHourly toDaily : List String) (openHours openDays : List Int) (seen : List (String × Time)) :
    Prop where
  cooled : Cooled s.now s.last sends
  hours : Counted clock.hour (3600 * 1000) (fun target => target.rule.rateLimit.maxPerHour) s.now
    s.hourly sends toHourly openHours
  days : Counted clock.day (86400 * 1000) (fun target => target.rule.rateLimit.maxPerDay) s.now
    s.daily sends toDaily openDays
  deduped : Deduped s.now s.exact seen

def RecordedBy (clock : Clock) (s : State) (ts : List CallTask) : Prop :=
  Recorded clock s (ts.flatMap sendsOf) (gather Call.beforeHourly ts) (gather Call.beforeDaily ts)
    (gather Call.openHour ts) (gather Call.openDay ts) (ts.flatMap seenOf)

section Recorded

variable {clock : Clock} {s : State} {sends sends' : List (Target × Time)}
  {toHourly toHourly' toDaily toDaily' : List String} {openHours openHours' openDays openDays' : List Int}
  {seen seen' : List (String × Time)}

theorem Recorded.perm (h : Recorded clock s sends toHourly toDaily openHours openDays seen)
    (hs : sends'.Perm sends) (hth : toHourly'.Perm toHourly) (htd : toDaily'.Perm toDaily)
    (hoh : openHours'.Perm openHours) (hod : openDays'.Perm openDays) (hn : seen'.Perm seen) :
    Recorded clock s sends' toHourly' toDaily' openHours' openDays' seen' :=
  ⟨h.cooled.perm hs, h.hours.perm hs hth hoh, h.days.perm hs htd hod, h.deduped.perm hn⟩

theorem Recorded.tick (h : Recorded clock s sends toHourly toDaily openHours openDays seen)
    (elapsed : Nat) :
    Recorded clock (s.tick elapsed) sends toHourly toDaily openHours openDays seen := by
  have hle : s.now ≤ (s.tick elapsed).now := Int.le_add_of_nonneg_right (Int.natCast_nonneg elapsed)
  exact ⟨h.cooled.tick hle, h.hours.tick clock.hour_mono h.cooled.past hle,
    h.days.tick clock.day_mono h.cooled.past hle, h.deduped.tick hle⟩

end Recorded

/-- The call that moves stands first in what the calls hold. -/
theorem flatMap_split {β : Type} (f : CallTask → List β) (pre : List CallTask) (t : CallTask)
    (post : List CallTask) :
    ((pre ++ t :: post).flatMap f).Perm (f t ++ (pre ++ post).flatMap f) :=
  List.perm_middle.flatMap_right f

theorem recordedBy_split {clock : Clock} {s : State} {pre post : List CallTask} {t : CallTask} :
    RecordedBy clock s (pre ++ t :: post) ↔
      Recorded clock s (sendsOf t ++ (pre ++ post).flatMap sendsOf)
        (t.gather Call.beforeHourly ++ gather Call.beforeHourly (pre ++ post))
        (t.gather Call.beforeDaily ++ gather Call.beforeDaily (pre ++ post))
        (t.gather Call.openHour ++ gather Call.openHour (pre ++ post))
        (t.gather Call.openDay ++ gather Call.openDay (pre ++ post))
        (seenOf t ++ (pre ++ post).flatMap seenOf) := by
  constructor
  · intro h
    exact h.perm (flatMap_split _ _ _ _).symm (flatMap_split _ _ _ _).symm
      (flatMap_split _ _ _ _).symm (flatMap_split _ _ _ _).symm (flatMap_split _ _ _ _).symm
      (flatMap_split _ _ _ _).symm
  · intro h
    exact h.perm (flatMap_split _ _ _ _) (flatMap_split _ _ _ _) (flatMap_split _ _ _ _)
      (flatMap_split _ _ _ _) (flatMap_split _ _ _ _) (flatMap_split _ _ _ _)

theorem count_gather_split {f : Call → List String} {c : Call} (hc : f c = []) (key : String)
    (pre post : List CallTask) :
    (gather f (pre ++ .running c :: post)).count key = (gather f (pre ++ post)).count key := by
  rw [gather, (flatMap_split (Task.gather f) pre (.running c) post).count_eq, Task.gather, hc]
  rfl

theorem adv_recorded {clock : Clock} {s : State} {pre post : List CallTask} {c : Call} {elapsed : Nat}
    (hpass : StillPasses clock elapsed c s (pre ++ .running c :: post))
    (h : RecordedBy clock s (pre ++ .running c :: post)) :
    RecordedBy clock (adv clock c (s.tick elapsed)).1
      (pre ++ (adv clock c (s.tick elapsed)).2 :: post) := by
  rw [recordedBy_split] at h ⊢
  replace h := h.tick elapsed
  cases c with
  | checkLast target => exact h
  | gotLast target lastSent =>
    simp only [adv]
    split <;> exact h
  | gotHourly target count =>
    simp only [adv]
    split <;> exact h
  | gotDaily target count =>
    simp only [adv]
    split
    · exact h
    · rename_i hlt
      obtain ⟨hcool, hhour, hday⟩ := hpass (Nat.not_le.mp hlt)
      rw [count_gather_split rfl] at hhour hday
      exact ⟨h.cooled.send hcool, h.hours.send clock.hour_span hhour,
        h.days.send clock.day_span hday, h.deduped⟩
  | recorded target sentAt => exact { h with hours := h.hours.incr clock.hour_span }
  | hourlyIncremented target sentAt hour => exact { h with hours := h.hours.expire clock.hour_span }
  | hourlyExpires target sentAt => exact { h with days := h.days.incr clock.day_span }
  | dailyIncremented target sentAt day => exact { h with days := h.days.expire clock.day_span }
  | checkExact event =>
    simp only [adv]
    split <;> exact h
  | exactAbsent event => exact h
  | gotSimilar event lastSeen =>
    simp only [adv]
    split
    · exact h
    · rename_i hnot
      exact { h with deduped := h.deduped.see (hpass hnot) }
  | exactSet event seenAt => exact { h with deduped := h.deduped.expire _ }
  | exactExpires event seenAt => exact { h with }
  | similarSet event seenAt => exact { h with }

theorem step_recorded {clock : Clock} (c : Conf State Call Result) (a : Act Nat CallOp)
    (h : RecordedBy clock c.shared c.tasks) (hpass : StillPassesStep clock c a) :
    RecordedBy clock ((calls clock).step c a).shared ((calls clock).step c a).tasks := by
  refine step_inv (calls clock) (fun s ts op _ h => ?_) (fun s pre k post e => adv_recorded) c a h hpass
  rw [recordedBy_split, List.append_nil]
  cases op <;> exact h

theorem RecordedBy.limited {clock : Clock} {c : Conf State Call Result}
    (h : RecordedBy clock c.shared c.tasks) : AlertsLimited clock c := by
  have hsends : (c.tasks.flatMap sentBy).Sublist (c.tasks.flatMap sendsOf) :=
    List.Sublist.flatMap_right _ fun _ _ => List.sublist_append_left _ _
  have hseen : (c.tasks.flatMap freshBy).Sublist (c.tasks.flatMap seenOf) :=
    List.Sublist.flatMap_right _ fun _ _ => List.sublist_append_left _ _
  exact ⟨fun target hour => (hsends.countP_le).trans (h.hours.limit target hour),
    fun target day => (hsends.countP_le).trans (h.days.limit target day),
    h.cooled.cooldown.sublist hsends, h.deduped.once.sublist hseen⟩

theorem recordedBy_init (clock : Clock) (now : Time) : RecordedBy clock (State.empty now) [] where
  cooled := ⟨nofun, nofun, .nil⟩
  hours := ⟨fun _ => Nat.zero_le _, nofun, nofun, fun _ _ => Nat.zero_le _⟩
  days := ⟨fun _ => Nat.zero_le _, nofun, nofun, fun _ _ => Nat.zero_le _⟩
  deduped := ⟨nofun, nofun, .nil⟩

theorem alerts_limited (clock : Clock) (now : Time) {acts : List (Act Nat CallOp)}
    (hpass : Along (calls clock).step (StillPassesStep clock) (.init (.empty now)) acts) :
    Always (calls clock).step (AlertsLimited clock) (.init (.empty now)) acts :=
  always_of_inv (I := fun c => RecordedBy clock c.shared c.tasks) (fun _ h => h.limited) step_recorded
    (recordedBy_init clock now) hpass

/-! ## Two calls at a time -/

def utc : Clock where
  hour t := t / (3600 * 1000)
  day t := t / (86400 * 1000)
  hour_mono _ _ h := Int.ediv_le_ediv (by decide) h
  day_mono _ _ h := Int.ediv_le_ediv (by decide) h
  hour_span t t' h := Int.lt_add_of_sub_left_lt (by omega)
  day_span t t' h := Int.lt_add_of_sub_left_lt (by omega)

def volumeRule (maxPerHour : Nat) : AlertRule := ⟨"volume-spike", ⟨maxPerHour, 10, 60⟩⟩

def payment : BlockchainEvent := ⟨"tx-1-payment", "payment", "GA", some "GB", some "XLM", 250⟩

/-- The second call records a minute after the first one, which has not counted itself yet. -/
def minuteApart : List (Act Nat CallOp) :=
  [.spawn (.shouldSendNotification (volumeRule 2) payment),
    .spawn (.shouldSendNotification (volumeRule 2) payment), .spawn (.isDuplicate payment),
    .spawn (.isDuplicate payment), .sched 0 0, .sched 0 1, .sched 0 1, .sched 0 1, .sched 2 0,
    .sched 2 1, .sched 2 1, .sched 3 1, .sched 1 60000, .sched 1 0, .sched 1 0, .sched 1 0,
    .sched 0 1, .sched 1 1, .sched 0 0, .sched 1 0, .sched 0 0, .sched 1 0, .sched 0 0, .sched 1 0,
    .sched 2 0, .sched 2 0, .sched 2 0]

theorem minuteApart_limited :
    Along (calls utc).step (StillPassesStep utc) (.init (.empty 0)) minuteApart ∧
      Always (calls utc).step (AlertsLimited utc) (.init (.empty 0)) minuteApart ∧
      (run (calls utc).step (.init (.empty 0)) minuteApart).tasks.flatMap sentBy =
        [(⟨volumeRule 2, "GB"⟩, 3), (⟨volumeRule 2, "GB"⟩, 60006)] ∧
      (run (calls utc).step (.init (.empty 0)) minuteApart).tasks.flatMap freshBy =
        [("tx-1-payment", 5)] := by
  have hpass : Along (calls utc).step (StillPassesStep utc) (.init (.empty 0)) minuteApart := by
    decide +kernel
  exact ⟨hpass, alerts_limited utc 0 hpass, by decide +kernel, by decide +kernel⟩

/-- Both calls check before either records. -/
def bothCheckFirst (op : CallOp) : List (Act Nat CallOp) :=
  .spawn op :: .spawn op :: (List.replicate 8 [.sched 0 0, .sched 1 0]).flatten

/-- Two notifications are sent in an hour that allows one, and an event is new twice. -/
theorem checks_pass_together :
    ¬ AlertsLimited utc (run (calls utc).step (.init (.empty 0))
        (bothCheckFirst (.shouldSendNotification (volumeRule 1) payment))) ∧
      ¬ AlertsLimited utc (run (calls utc).step (.init (.empty 0))
        (bothCheckFirst (.isDuplicate payment))) := by
  constructor
  · intro h
    exact absurd (h.hourly ⟨volumeRule 1, "GB"⟩ 0) (by decide +kernel)
  · intro h
    exact absurd h.once (by unfold Apart; decide +kernel)

end Notification
end TradeCore
