import Mathlib.Algebra.Order.Field.Rat
import Mathlib.Data.Rat.Floor
import TradeCore.Common
import TradeCore.Lib.Interleave
import TradeCore.Lib.ScoredSet

/-!
# TradeCore.Notification.Services

`NotificationThrottleService.shouldSendNotification` and `DeduplicationService.isDuplicate`, on the
keys they keep in Redis.

Any number of calls run at a time, and every command is one step. A step takes some time, reads what
the command before it answered, and sends the next one. A call that says yes records the moment first:
`shouldSendNotification` in `last:`, `isDuplicate` in `exact:`.

The hours and days are those of the server's clock.
-/

namespace TradeCore
namespace Notification

open Lib

/-- The hours and days of the server's clock; it is not set back, so that no hour has more than 3600
seconds and no day more than 86400. -/
structure Clock where
  hour : Time → Int
  day : Time → Int
  hour_mono : ∀ t t', t ≤ t' → hour t ≤ hour t'
  day_mono : ∀ t t', t ≤ t' → day t ≤ day t'
  hour_span : ∀ t t', hour t = hour t' → t' < t + 3600 * 1000
  day_span : ∀ t t', day t = day t' → t' < t + 86400 * 1000

structure RateLimitConfig where
  maxPerHour : Nat
  maxPerDay : Nat
  /-- Seconds. -/
  cooldownPeriod : Nat
  deriving DecidableEq

structure AlertRule where
  id : String
  rateLimit : RateLimitConfig
  deriving DecidableEq

structure BlockchainEvent where
  uniqueId : String
  eventType : String
  sourceAccount : String
  destinationAccount : Option String
  assetCode : Option String
  amount : ℚ
  deriving DecidableEq

/-- The rule and the user that a notification is throttled for. -/
structure Target where
  rule : AlertRule
  userId : String
  deriving DecidableEq

def Target.key (target : Target) : String := target.rule.id ++ ":" ++ target.userId

/-- `event.destinationAccount || 'global'`. -/
def BlockchainEvent.userId (event : BlockchainEvent) : String :=
  match event.destinationAccount with
  | none => "global"
  | some account => if account = "" then "global" else account

/-- What the similarity of events is told by; the amount is rounded to the nearest 100. -/
structure Fingerprint where
  eventType : String
  sourceAccount : String
  destinationAccount : Option String
  assetCode : Option String
  amount : Int
  deriving DecidableEq

def generateEventFingerprint (event : BlockchainEvent) : Fingerprint where
  eventType := event.eventType
  sourceAccount := event.sourceAccount
  destinationAccount := event.destinationAccount
  assetCode := event.assetCode
  amount := ⌊event.amount / 100 + 1 / 2⌋ * 100

def windowSeconds : Int := 300

/-- The server: the moment it is, and the keys under their five names. The hash of a fingerprint is
taken to tell the fingerprints apart. -/
structure State where
  now : Time
  last : String → Expiring (Option Time)
  hourly : String × Int → Expiring Nat
  daily : String × Int → Expiring Nat
  exact : String → Expiring (Option Time)
  similar : Fingerprint → Expiring (Option Time)

def State.empty (now : Time) : State :=
  ⟨now, fun _ => .holds none, fun _ => .holds 0, fun _ => .holds 0, fun _ => .holds none,
    fun _ => .holds none⟩

def State.tick (s : State) (elapsed : Nat) : State := { s with now := s.now + elapsed }

namespace State

def setLast (s : State) (key : String) : State :=
  { s with last := Function.update s.last key (.holds (some s.now)) }

def incr (k : Expiring Nat) (now : Time) : Expiring Nat :=
  let found := k.live 0 now
  ⟨found.value + 1, found.expiresAt⟩

def incrHourly (s : State) (key : String × Int) : State :=
  { s with hourly := Function.update s.hourly key (incr (s.hourly key) s.now) }

def expireHourly (s : State) (key : String × Int) : State :=
  { s with hourly := Function.update s.hourly key ((s.hourly key).renew 0 s.now (3600 * 1000)) }

def incrDaily (s : State) (key : String × Int) : State :=
  { s with daily := Function.update s.daily key (incr (s.daily key) s.now) }

def expireDaily (s : State) (key : String × Int) : State :=
  { s with daily := Function.update s.daily key ((s.daily key).renew 0 s.now (86400 * 1000)) }

def setExact (s : State) (uniqueId : String) : State :=
  { s with exact := Function.update s.exact uniqueId (.holds (some s.now)) }

def expireExact (s : State) (uniqueId : String) : State :=
  { s with
    exact := Function.update s.exact uniqueId
      ((s.exact uniqueId).renew none s.now (windowSeconds * 1000)) }

def setSimilar (s : State) (fingerprint : Fingerprint) : State :=
  { s with similar := Function.update s.similar fingerprint (.holds (some s.now)) }

def expireSimilar (s : State) (fingerprint : Fingerprint) : State :=
  { s with
    similar := Function.update s.similar fingerprint
      ((s.similar fingerprint).renew none s.now (windowSeconds * 1000)) }

end State

/-- `isInCooldown`, once the key has been read. -/
def isInCooldown (rule : AlertRule) (lastSent : Option Time) (now : Time) : Prop :=
  ∃ sentAt ∈ lastSent, now - sentAt < rule.rateLimit.cooldownPeriod * 1000

instance (rule : AlertRule) (lastSent : Option Time) (now : Time) :
    Decidable (isInCooldown rule lastSent now) :=
  inferInstanceAs (Decidable (∃ sentAt ∈ lastSent, _))

/-- `isSimilarDuplicate`, once the key has been read. -/
def isSimilarDuplicate (lastSeen : Option Time) (now : Time) : Prop :=
  ∃ seenAt ∈ lastSeen, now - seenAt < windowSeconds * 1000

instance (lastSeen : Option Time) (now : Time) : Decidable (isSimilarDuplicate lastSeen now) :=
  inferInstanceAs (Decidable (∃ seenAt ∈ lastSeen, _))

/-! ## The calls -/

inductive CallOp where
  | shouldSendNotification (rule : AlertRule) (event : BlockchainEvent)
  | isDuplicate (event : BlockchainEvent)

/-- Where a call stands, with the answer of its last command. From `recorded` on a call will say yes,
and from `exactSet` on no, and keeps the moment it has recorded. -/
inductive Call where
  | checkLast (target : Target)
  | gotLast (target : Target) (lastSent : Option Time)
  | gotHourly (target : Target) (count : Nat)
  | gotDaily (target : Target) (count : Nat)
  | recorded (target : Target) (sentAt : Time)
  | hourlyIncremented (target : Target) (sentAt : Time) (hour : Int)
  | hourlyExpires (target : Target) (sentAt : Time)
  | dailyIncremented (target : Target) (sentAt : Time) (day : Int)
  | checkExact (event : BlockchainEvent)
  | exactAbsent (event : BlockchainEvent)
  | gotSimilar (event : BlockchainEvent) (lastSeen : Option Time)
  | exactSet (event : BlockchainEvent) (seenAt : Time)
  | exactExpires (event : BlockchainEvent) (seenAt : Time)
  | similarSet (event : BlockchainEvent) (seenAt : Time)
  deriving DecidableEq

inductive Result where
  | send (target : Target) (sentAt : Time)
  | throttled
  | duplicate
  | fresh (event : BlockchainEvent) (seenAt : Time)
  deriving DecidableEq

abbrev CallTask := Task Call Result

def Call.start : CallOp → Call
  | .shouldSendNotification rule event => .checkLast ⟨rule, event.userId⟩
  | .isDuplicate event => .checkExact event

def adv (clock : Clock) (c : Call) (s : State) : State × CallTask :=
  match c with
  | .checkLast target => (s, .running (.gotLast target ((s.last target.key).at none s.now)))
  | .gotLast target lastSent =>
    if isInCooldown target.rule lastSent s.now then (s, .done .throttled)
    else (s, .running (.gotHourly target ((s.hourly (target.key, clock.hour s.now)).at 0 s.now)))
  | .gotHourly target count =>
    if target.rule.rateLimit.maxPerHour ≤ count then (s, .done .throttled)
    else (s, .running (.gotDaily target ((s.daily (target.key, clock.day s.now)).at 0 s.now)))
  | .gotDaily target count =>
    if target.rule.rateLimit.maxPerDay ≤ count then (s, .done .throttled)
    else (s.setLast target.key, .running (.recorded target s.now))
  | .recorded target sentAt =>
    (s.incrHourly (target.key, clock.hour s.now),
      .running (.hourlyIncremented target sentAt (clock.hour s.now)))
  | .hourlyIncremented target sentAt hour =>
    (s.expireHourly (target.key, hour), .running (.hourlyExpires target sentAt))
  | .hourlyExpires target sentAt =>
    (s.incrDaily (target.key, clock.day s.now),
      .running (.dailyIncremented target sentAt (clock.day s.now)))
  | .dailyIncremented target sentAt day =>
    (s.expireDaily (target.key, day), .done (.send target sentAt))
  | .checkExact event =>
    if (s.exact event.uniqueId).at none s.now = none then (s, .running (.exactAbsent event))
    else (s, .done .duplicate)
  | .exactAbsent event =>
    (s, .running (.gotSimilar event ((s.similar (generateEventFingerprint event)).at none s.now)))
  | .gotSimilar event lastSeen =>
    if isSimilarDuplicate lastSeen s.now then (s, .done .duplicate)
    else (s.setExact event.uniqueId, .running (.exactSet event s.now))
  | .exactSet event seenAt => (s.expireExact event.uniqueId, .running (.exactExpires event seenAt))
  | .exactExpires event seenAt =>
    (s.setSimilar (generateEventFingerprint event), .running (.similarSet event seenAt))
  | .similarSet event seenAt =>
    (s.expireSimilar (generateEventFingerprint event), .done (.fresh event seenAt))

/-- A step happens when the time it takes is over. -/
def calls (clock : Clock) : Proc State Nat CallOp Call Result :=
  ⟨Call.start, fun elapsed c s => adv clock c (s.tick elapsed)⟩

end Notification
end TradeCore
