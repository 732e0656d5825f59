import TradeCore.Common
import TradeCore.Lib.Interleave
import TradeCore.Lib.Table

/-!
# TradeCore.Notification.Delivery

Delivery with retries: `send`, `processScheduledNotifications` and the loop they share,
`deliverWithRetry`, interleaved. A step is one statement of the database or one call of a provider,
and `accepted` lists what the providers have taken.

* `sent_accepted`: a record says SENT only when a provider has taken its message for its recipient.
* `accepted_once`: no record is delivered twice, and those delivered say SENT, in the runs in which
  the run over the due notifications is alone and what was delivered can be saved (`Apart`).
* Without that both fail: two such runs at the same time deliver all they have listed
  (`delivered_twice`).
-/

namespace TradeCore
namespace NotificationDelivery

open Lib

inductive Channel where
  | webSocket
  | inApp
  | email
  | sms
  | telegram
  | discord
  deriving DecidableEq, Repr

inductive DeliveryStatus where
  | pending
  | sent
  | failed
  | scheduled
  | retrying
  deriving DecidableEq, Repr

inductive NotificationType where
  | orderUpdate
  | priceAlert
  | portfolioAlert
  | systemNotice
  deriving DecidableEq, Repr

/-- The argument of `send`, with its metadata as text. -/
structure Notification where
  channel : Channel
  recipient : String
  message : String
  type : NotificationType
  title : Option String
  metadata : Option String
  scheduledAt : Option Time
  batchId : Option String

structure NotificationEntity where
  id : Uuid
  recipient : String
  channel : Channel
  type : NotificationType
  title : Option String
  message : String
  metadata : Option String
  isRead : Bool
  deliveryStatus : DeliveryStatus
  retryCount : Nat
  scheduledAt : Option Time
  batchId : Option String
  deriving DecidableEq

structure NotificationPreference where
  userId : String
  channel : Channel
  isEnabled : Bool
  subscribedTypes : List NotificationType

def NotificationPreference.key (p : NotificationPreference) : String × Channel := (p.userId, p.channel)

/-- The preferences, one for each user and channel. -/
structure Preferences where
  rows : List NotificationPreference
  keys : (rows.map NotificationPreference.key).Nodup

/-- What a provider has taken, and the record it was sent for. -/
structure Accepted where
  record : Uuid
  channel : Channel
  recipient : String
  message : String
  deriving DecidableEq

structure NotificationDb where
  preferences : Preferences
  rows : List NotificationEntity
  ids : (rows.map NotificationEntity.id).Nodup
  accepted : List Accepted

/-- What a call goes on with after a delivery: `send` returns, the run over the due notifications takes
the next. -/
inductive After where
  | returnEntity
  | due (rest : List NotificationEntity) (processed : Nat)

inductive Call where
  | send (n : Notification)
  | create (n : Notification)
  | schedule (e : NotificationEntity)
  | processScheduledNotifications
  | findDue
  | attempt (e : NotificationEntity) (attempt : Nat) (after : After)
  | saveSent (e : NotificationEntity) (attempt : Nat) (after : After)
  | saveRetrying (e : NotificationEntity) (attempt : Nat) (after : After)
  | saveFailed (e : NotificationEntity) (attempt : Nat) (after : After)

inductive Answer where
  | skipped
  | sent (id : Uuid)
  | processed (count : Nat)
  | failed (e : HttpError)
  deriving DecidableEq

inductive Op where
  | send (n : Notification)
  | processScheduledNotifications

structure Env where
  now : Time
  fault : Bool
  id : Uuid
  accepts : Bool

abbrev CallTask := Task Call Answer

def maxRetries : Nat := 3

namespace NotificationDb

/-- The channel is disabled, or the type is none the user has subscribed to on it. -/
def skips (db : NotificationDb) (n : Notification) : Bool :=
  (lookup NotificationPreference.key (n.recipient, n.channel) db.preferences.rows).any fun p =>
    p.isEnabled = false ∨ n.type ∉ p.subscribedTypes

/-- Every column of the record is written. -/
def save (db : NotificationDb) (e : NotificationEntity) : NotificationDb :=
  { db with
    rows := upsert NotificationEntity.id e db.rows
    ids := nodup_upsert db.ids }

def insert (db : NotificationDb) (e : NotificationEntity) (h : e.id ∉ db.rows.map NotificationEntity.id) :
    NotificationDb :=
  { db with
    rows := db.rows ++ [e]
    ids := by simpa [List.nodup_append, db.ids] using h }

def due (db : NotificationDb) (now : Time) : List NotificationEntity :=
  db.rows.filter fun n => n.deliveryStatus = .scheduled ∧ n.scheduledAt.any (· ≤ now)

end NotificationDb

def create (n : Notification) (id : Uuid) : NotificationEntity where
  id
  recipient := n.recipient
  channel := n.channel
  type := n.type
  title := n.title
  message := n.message
  metadata := n.metadata
  isRead := false
  deliveryStatus := .pending
  retryCount := 0
  scheduledAt := n.scheduledAt
  batchId := n.batchId

def databaseFailed : CallTask := .done (.failed databaseError)

/-- The record that has been delivered, or has failed, is done with. -/
def goOn (e : NotificationEntity) : After → CallTask
  | .returnEntity => .done (.sent e.id)
  | .due [] processed => .done (.processed (processed + 1))
  | .due (e :: rest) processed => .running (.attempt e 1 (.due rest (processed + 1)))

/-- The `catch` of an attempt. -/
def catchAttempt (e : NotificationEntity) (attempt : Nat) (after : After) : CallTask :=
  if attempt < maxRetries then .running (.saveRetrying e attempt after)
  else .running (.saveFailed e attempt after)

def advance (env : Env) (call : Call) (db : NotificationDb) : NotificationDb × CallTask :=
  match call with
  | .send n =>
    if env.fault then (db, databaseFailed)
    else if db.skips n then (db, .done .skipped)
    else (db, .running (.create n))
  | .create n =>
    if h : env.fault = false ∧ env.id ∉ db.rows.map NotificationEntity.id then
      let e := create n env.id
      (db.insert e h.2, .running (if n.scheduledAt.any (env.now < ·) then .schedule e
        else .attempt e 1 .returnEntity))
    else (db, databaseFailed)
  | .schedule e =>
    if env.fault then (db, databaseFailed)
    else (db.save { e with deliveryStatus := .scheduled }, .done (.sent e.id))
  -- a first query, whose result is not used
  | .processScheduledNotifications =>
    if env.fault then (db, databaseFailed) else (db, .running .findDue)
  | .findDue =>
    if env.fault then (db, databaseFailed)
    else match db.due env.now with
      | [] => (db, .done (.processed 0))
      | e :: rest => (db, .running (.attempt e 1 (.due rest 0)))
  | .attempt e attempt after =>
    if env.accepts then
      ({ db with accepted := db.accepted ++ [⟨e.id, e.channel, e.recipient, e.message⟩] },
        .running (.saveSent e attempt after))
    else (db, catchAttempt e attempt after)
  -- this save is in the `try`: when it fails the message is sent again
  | .saveSent e attempt after =>
    if env.fault then (db, catchAttempt e attempt after)
    else (db.save { e with deliveryStatus := .sent, retryCount := attempt - 1 }, goOn e after)
  | .saveRetrying e attempt after =>
    let e := { e with deliveryStatus := .retrying, retryCount := attempt }
    if env.fault then (db, databaseFailed)
    else (db.save e, .running (.attempt e (attempt + 1) after))
  | .saveFailed e attempt after =>
    if env.fault then (db, databaseFailed)
    else (db.save { e with deliveryStatus := .failed, retryCount := attempt }, goOn e after)

def notifications : Proc NotificationDb Env Op Call Answer where
  start
    | .send n => .send n
    | .processScheduledNotifications => .processScheduledNotifications
  adv := advance

/-! ## What the calls hold -/

def After.rest : After → List NotificationEntity
  | .returnEntity => []
  | .due rest _ => rest

/-- The records a call goes on to write or to deliver. -/
def Call.held : Call → List NotificationEntity
  | .schedule e => [e]
  | .attempt e _ after | .saveSent e _ after | .saveRetrying e _ after | .saveFailed e _ after =>
    e :: after.rest
  | _ => []

def Call.heldIds (k : Call) : List Uuid := k.held.map NotificationEntity.id

/-- The records a run over the due notifications holds. -/
def Call.dueHeld : Call → List NotificationEntity
  | .attempt e _ (.due rest _) | .saveSent e _ (.due rest _) | .saveRetrying e _ (.due rest _)
  | .saveFailed e _ (.due rest _) => e :: rest
  | _ => []

/-- The record a call of `send` holds. -/
def Call.sending : Call → List Uuid
  | .schedule e | .attempt e _ .returnEntity | .saveSent e _ .returnEntity
  | .saveRetrying e _ .returnEntity | .saveFailed e _ .returnEntity => [e.id]
  | _ => []

/-- The record a call has delivered and is about to mark. -/
def Call.delivered : Call → List Uuid
  | .saveSent e _ _ => [e.id]
  | _ => []

/-- What is sent for a record, and to whom. -/
def NotificationEntity.content (e : NotificationEntity) : Channel × String × String :=
  (e.channel, e.recipient, e.message)

def Accepted.content (a : Accepted) : Channel × String × String := (a.channel, a.recipient, a.message)

theorem delivered_subset (k : Call) : k.delivered ⊆ k.heldIds := by
  intro id hid
  cases k with
  | saveSent e attempt after =>
    rw [List.mem_singleton.mp hid]
    exact .head _
  | _ => cases hid

theorem held_goOn (e : NotificationEntity) (after : After) :
    (goOn e after).gather Call.held = after.rest := by
  cases after with
  | returnEntity => rfl
  | due rest processed => cases rest <;> rfl

theorem held_catchAttempt (e : NotificationEntity) (attempt : Nat) (after : After) :
    (catchAttempt e attempt after).gather Call.held = e :: after.rest := by
  unfold catchAttempt
  split <;> rfl

/-- What a step does to the rows, to what was accepted and to what its call holds. -/
inductive Moves (fault : Bool) (db : NotificationDb) : Call → NotificationDb → CallTask → Prop where
  | ended {k : Call} {r : Answer} (hk : k.delivered = []) : Moves fault db k db (.done r)
  | read {k k' : Call} (hk : k.held = []) (hk' : k'.held = []) : Moves fault db k db (.running k')
  | created {n : Notification} {e : NotificationEntity} {k' : Call}
      (hnew : e.id ∉ db.rows.map NotificationEntity.id) (hstatus : e.deliveryStatus = .pending)
      (hk' : k' = .schedule e ∨ k' = .attempt e 1 .returnEntity) :
      Moves fault db (.create n) (db.insert e hnew) (.running k')
  | listed {now : Time} {e : NotificationEntity} {rest : List NotificationEntity}
      (hdue : db.due now = e :: rest) : Moves fault db .findDue db (.running (.attempt e 1 (.due rest 0)))
  | taken {e : NotificationEntity} {attempt : Nat} {after : After} :
      Moves fault db (.attempt e attempt after)
        { db with accepted := db.accepted ++ [⟨e.id, e.channel, e.recipient, e.message⟩] }
        (.running (.saveSent e attempt after))
  | refused {e : NotificationEntity} {attempt : Nat} {after : After} :
      Moves fault db (.attempt e attempt after) db (catchAttempt e attempt after)
  | unsaved {e : NotificationEntity} {attempt : Nat} {after : After} (hfault : fault = true) :
      Moves fault db (.saveSent e attempt after) db (catchAttempt e attempt after)
  | scheduled {e : NotificationEntity} :
      Moves fault db (.schedule e) (db.save { e with deliveryStatus := .scheduled }) (.done (.sent e.id))
  | sent {e : NotificationEntity} {attempt : Nat} {after : After} :
      Moves fault db (.saveSent e attempt after)
        (db.save { e with deliveryStatus := .sent, retryCount := attempt - 1 }) (goOn e after)
  | retrying {e e' : NotificationEntity} {attempt : Nat} {after : After}
      (he' : e' = { e with deliveryStatus := .retrying, retryCount := attempt }) :
      Moves fault db (.saveRetrying e attempt after) (db.save e') (.running (.attempt e' (attempt + 1) after))
  | failed {e : NotificationEntity} {attempt : Nat} {after : After} :
      Moves fault db (.saveFailed e attempt after)
        (db.save { e with deliveryStatus := .failed, retryCount := attempt }) (goOn e after)

theorem advance_moves (env : Env) (call : Call) (db : NotificationDb) :
    Moves env.fault db call (advance env call db).1 (advance env call db).2 := by
  cases call with
  | send n =>
    simp only [advance]
    split
    · exact .ended rfl
    · split
      · exact .ended rfl
      · exact .read rfl rfl
  | create n =>
    simp only [advance]
    split
    · rename_i h
      refine .created h.2 rfl ?_
      split
      · exact .inl rfl
      · exact .inr rfl
    · exact .ended rfl
  | schedule e =>
    simp only [advance]
    split
    · exact .ended rfl
    · exact .scheduled
  | processScheduledNotifications =>
    simp only [advance]
    split
    · exact .ended rfl
    · exact .read rfl rfl
  | findDue =>
    simp only [advance]
    split
    · exact .ended rfl
    · split
      · exact .ended rfl
      · rename_i hdue
        exact .listed hdue
  | attempt e attempt after =>
    simp only [advance]
    split
    · exact .taken
    · exact .refused
  | saveSent e attempt after =>
    simp only [advance]
    split
    · rename_i hfault
      exact .unsaved hfault
    · exact .sent
  | saveRetrying e attempt after =>
    simp only [advance]
    split
    · exact .ended rfl
    · exact .retrying rfl
  | saveFailed e attempt after =>
    simp only [advance]
    split
    · exact .ended rfl
    · exact .failed

/-! ## Any interleaving -/

section Honest

variable {db db' : NotificationDb} {pre post : List CallTask} {k : Call} {t : CallTask}

/-- Every row is still there, with the same message for the same recipient. -/
def Keeps (db db' : NotificationDb) : Prop :=
  ∀ row ∈ db.rows, ∃ row' ∈ db'.rows, row'.id = row.id ∧ row'.content = row.content

/-- What a call holds is a row, and whatever says SENT, or is about to, was accepted. -/
structure Honest (db : NotificationDb) (ts : List CallTask) : Prop where
  held : ∀ e ∈ gather Call.held ts, ∃ row ∈ db.rows, row.id = e.id ∧ row.content = e.content
  log : ∀ a ∈ db.accepted, ∃ row ∈ db.rows, row.id = a.record ∧ row.content = a.content
  sent : ∀ row ∈ db.rows, row.deliveryStatus = .sent → ∃ a ∈ db.accepted, a.record = row.id
  delivered : ∀ id ∈ gather Call.delivered ts, ∃ a ∈ db.accepted, a.record = id

theorem keeps_save {e : NotificationEntity} (h : ∃ row ∈ db.rows, row.id = e.id ∧ row.content = e.content)
    {e' : NotificationEntity} (hid : e'.id = e.id) (hcontent : e'.content = e.content) :
    Keeps db (db.save e') := by
  obtain ⟨row₀, hrow₀, hid₀, hcontent₀⟩ := h
  intro row hrow
  by_cases he : row.id = e'.id
  · obtain rfl : row = row₀ := List.inj_on_of_nodup_map db.ids hrow hrow₀ (by rw [he, hid, hid₀])
    exact ⟨e', mem_upsert_self e' db.rows, he.symm, by rw [hcontent, hcontent₀]⟩
  · exact ⟨row, mem_upsert_of_ne hrow he, rfl, rfl⟩

/-- What a step has to show for its call. -/
theorem Honest.replace (h : Honest db (pre ++ .running k :: post)) (hkeeps : Keeps db db')
    (hlog : ∀ a ∈ db.accepted, a ∈ db'.accepted)
    (hheld : ∀ e ∈ t.gather Call.held, ∃ row ∈ db'.rows, row.id = e.id ∧ row.content = e.content)
    (hnew : ∀ a ∈ db'.accepted, a ∈ db.accepted ∨
      ∃ row ∈ db.rows, row.id = a.record ∧ row.content = a.content)
    (hsent : ∀ row ∈ db'.rows, row ∉ db.rows → row.deliveryStatus = .sent →
      ∃ a ∈ db'.accepted, a.record = row.id)
    (hdelivered : ∀ id ∈ t.gather Call.delivered, ∃ a ∈ db'.accepted, a.record = id) :
    Honest db' (pre ++ t :: post) := by
  constructor
  case held =>
    intro e he
    rcases mem_gather_replace (k := k) he with he | he
    · exact hheld e he
    · obtain ⟨row, hrow, hid, hcontent⟩ := h.held e he
      obtain ⟨row', hrow', hid', hcontent'⟩ := hkeeps row hrow
      exact ⟨row', hrow', hid'.trans hid, hcontent'.trans hcontent⟩
  case log =>
    intro a ha
    have hrow : ∃ row ∈ db.rows, row.id = a.record ∧ row.content = a.content := by
      rcases hnew a ha with ha | ha
      · exact h.log a ha
      · exact ha
    obtain ⟨row, hrow, hid, hcontent⟩ := hrow
    obtain ⟨row', hrow', hid', hcontent'⟩ := hkeeps row hrow
    exact ⟨row', hrow', hid'.trans hid, hcontent'.trans hcontent⟩
  case sent =>
    intro row hrow hstatus
    by_cases hold : row ∈ db.rows
    · obtain ⟨a, ha, hrecord⟩ := h.sent row hold hstatus
      exact ⟨a, hlog a ha, hrecord⟩
    · exact hsent row hrow hold hstatus
  case delivered =>
    intro id hid
    rcases mem_gather_replace (k := k) hid with hid | hid
    · exact hdelivered id hid
    · obtain ⟨a, ha, hrecord⟩ := h.delivered id hid
      exact ⟨a, hlog a ha, hrecord⟩

/-- A save of what the call holds. -/
theorem Honest.save (h : Honest db (pre ++ .running k :: post)) {e e' : NotificationEntity}
    (he : e ∈ k.held) (hid : e'.id = e.id) (hcontent : e'.content = e.content)
    (hheld : ∀ x ∈ t.gather Call.held, x = e' ∨ x ∈ k.held)
    (hsent : e'.deliveryStatus = .sent → e.id ∈ k.delivered) (hdelivered : t.gather Call.delivered = []) :
    Honest (db.save e') (pre ++ t :: post) := by
  have hkeeps := keeps_save (h.held e (mem_gather_here he)) hid hcontent
  refine h.replace hkeeps (fun a ha => ha) (fun x hx => ?_) (fun a ha => .inl ha) (fun row hrow hnot hstatus => ?_)
    (fun id hin => by rw [hdelivered] at hin; cases hin)
  · rcases hheld x hx with rfl | hx
    · exact ⟨x, mem_upsert_self x db.rows, rfl, rfl⟩
    · obtain ⟨row, hrow, hid, hcontent⟩ := h.held x (mem_gather_here hx)
      obtain ⟨row', hrow', hid', hcontent'⟩ := hkeeps row hrow
      exact ⟨row', hrow', hid'.trans hid, hcontent'.trans hcontent⟩
  · rcases mem_upsert hrow with rfl | hrow
    · obtain ⟨a, ha, hrecord⟩ := h.delivered e.id (mem_gather_here (hsent hstatus))
      exact ⟨a, ha, hrecord.trans hid.symm⟩
    · exact absurd hrow hnot

theorem delivered_goOn (e : NotificationEntity) (after : After) :
    (goOn e after).gather Call.delivered = [] := by
  cases after with
  | returnEntity => rfl
  | due rest processed => cases rest <;> rfl

theorem delivered_catchAttempt (e : NotificationEntity) (attempt : Nat) (after : After) :
    (catchAttempt e attempt after).gather Call.delivered = [] := by
  unfold catchAttempt
  split <;> rfl

theorem Honest.moves {fault : Bool} (hmoves : Moves fault db k db' t) (h : Honest db (pre ++ .running k :: post)) :
    Honest db' (pre ++ t :: post) := by
  have hsame : Keeps db db := fun row hrow => ⟨row, hrow, rfl, rfl⟩
  have hkept : ∀ {t : CallTask}, (∀ e ∈ t.gather Call.held, e ∈ k.held) → t.gather Call.delivered = [] →
      Honest db (pre ++ t :: post) := fun hheld hdelivered =>
    h.replace hsame (fun a ha => ha) (fun e he => h.held e (mem_gather_here (hheld e he)))
      (fun a ha => .inl ha) (fun row hrow hnot => absurd hrow hnot)
      (fun id hid => by rw [hdelivered] at hid; cases hid)
  cases hmoves with
  | ended => exact hkept (by simp [Task.gather]) rfl
  | read hk hk' =>
    refine hkept (by simp [Task.gather, hk']) (List.eq_nil_iff_forall_not_mem.mpr fun id hid => ?_)
    have := delivered_subset _ hid
    rw [Call.heldIds, hk'] at this
    cases this
  | @created n e k' hnew hstatus hk' =>
    have hheld : k'.held = [e] ∧ k'.delivered = [] := by rcases hk' with rfl | rfl <;> exact ⟨rfl, rfl⟩
    refine h.replace (fun row hrow => ⟨row, List.mem_append_left _ hrow, rfl, rfl⟩) (fun a ha => ha)
      (fun x hx => ?_) (fun a ha => .inl ha) (fun row hrow hnot hsent => ?_)
      (fun id hid => by rw [Task.gather, hheld.2] at hid; cases hid)
    · rw [Task.gather, hheld.1, List.mem_singleton] at hx
      exact ⟨e, List.mem_append_right _ (.head _), by rw [hx], by rw [hx]⟩
    · rcases List.mem_append.mp hrow with hrow | hrow
      · exact absurd hrow hnot
      · rw [List.mem_singleton.mp hrow, hstatus] at hsent
        cases hsent
  | @listed now e rest hdue =>
    have hrow : ∀ x ∈ e :: rest, x ∈ db.rows := fun x hx => List.mem_of_mem_filter (hdue ▸ hx)
    refine h.replace hsame (fun a ha => ha) (fun x hx => ⟨x, hrow x hx, rfl, rfl⟩)
      (fun a ha => .inl ha) (fun row hrow hnot => absurd hrow hnot) (by simp [Task.gather, Call.delivered])
  | @taken e attempt after =>
    have hheld : ∀ x ∈ e :: after.rest, ∃ row ∈ db.rows, row.id = x.id ∧ row.content = x.content :=
      fun x hx => h.held x (mem_gather_here hx)
    refine h.replace hsame (fun a ha => List.mem_append_left _ ha) hheld (fun a ha => ?_)
      (fun row hrow hnot => absurd hrow hnot) (fun id hid => ?_)
    · rcases List.mem_append.mp ha with ha | ha
      · exact .inl ha
      · rw [List.mem_singleton.mp ha]
        exact .inr (hheld e (.head _))
    · rw [List.mem_singleton.mp hid]
      exact ⟨_, List.mem_append_right _ (.head _), rfl⟩
  | refused | unsaved =>
    exact hkept (by rw [held_catchAttempt]; exact fun x hx => hx) (delivered_catchAttempt _ _ _)
  | scheduled => exact h.save (.head _) rfl rfl (by simp [Task.gather]) (fun hs => by cases hs) rfl
  | sent =>
    exact h.save (.head _) rfl rfl (by rw [held_goOn]; exact fun x hx => .inr (.tail _ hx))
      (fun _ => .head _) (delivered_goOn _ _)
  | retrying he' =>
    subst he'
    refine h.save (.head _) rfl rfl (fun x hx => ?_) (fun hs => by cases hs) rfl
    exact (List.mem_cons.mp hx).imp id fun hx => .tail _ hx
  | failed =>
    exact h.save (.head _) rfl rfl (by rw [held_goOn]; exact fun x hx => .inr (.tail _ hx))
      (fun hs => by cases hs) (delivered_goOn _ _)

end Honest

def NotificationDb.empty (preferences : Preferences) : NotificationDb :=
  ⟨preferences, [], List.nodup_nil, []⟩

def reach (preferences : Preferences) (acts : List (Act Env Op)) :
    Conf NotificationDb Call Answer :=
  run notifications.step (Conf.init (.empty preferences)) acts

theorem honest_reach (preferences : Preferences) (acts : List (Act Env Op)) :
    Honest (reach preferences acts).shared (reach preferences acts).tasks := by
  refine run_inv (I := fun c => Honest c.shared c.tasks) (G := Meets (fun _ => True) fun _ _ _ _ => True)
    (fun c a hI hG => step_inv notifications (fun s ts op _ h => ?_)
      (fun s pre k post e _ h => h.moves (advance_moves e k s)) c a hI hG)
    ?_ (along_of_spawns _ (fun _ _ => trivial) _)
  · have hheld : (notifications.start op).held = [] := by cases op <;> rfl
    have hdelivered : (notifications.start op).delivered = [] := by cases op <;> rfl
    exact ⟨by rw [gather_spawn hheld]; exact h.held, h.log, h.sent,
      by rw [gather_spawn hdelivered]; exact h.delivered⟩
  · exact ⟨by simp [Conf.init, gather], by simp [Conf.init, NotificationDb.empty],
      by simp [Conf.init, NotificationDb.empty], by simp [Conf.init, gather]⟩

/-- A record says SENT only when a provider has taken its message, for its recipient and on its
channel. -/
theorem sent_accepted (preferences : Preferences) (acts : List (Act Env Op)) :
    ∀ row ∈ (reach preferences acts).shared.rows, row.deliveryStatus = .sent →
      ∃ a ∈ (reach preferences acts).shared.accepted, a.record = row.id ∧ a.content = row.content := by
  intro row hrow hstatus
  have h := honest_reach preferences acts
  obtain ⟨a, ha, hrecord⟩ := h.sent row hrow hstatus
  obtain ⟨row', hrow', hid, hcontent⟩ := h.log a ha
  obtain rfl : row' = row := List.inj_on_of_nodup_map (reach preferences acts).shared.ids hrow' hrow
    (hid.trans hrecord)
  exact ⟨a, ha, hrecord, hcontent.symm⟩

def noPreferences : Preferences := ⟨[], List.nodup_nil⟩

def email (scheduledAt : Option Time) : Notification :=
  ⟨.email, "ann", "hello", .systemNotice, none, none, scheduledAt, none⟩

/-- The clock, and a provider that takes what it gets. -/
def tick (now : Time) (id : Uuid) : Env := ⟨now, false, id, true⟩

def sentAtOnce : List (Act Env Op) := .spawn (.send (email none)) :: List.replicate 4 (.sched 0 (tick 0 1))

theorem sent_accepted_atOnce : ∃ row ∈ (reach noPreferences sentAtOnce).shared.rows,
    row.deliveryStatus = .sent ∧
      ∃ a ∈ (reach noPreferences sentAtOnce).shared.accepted, a.record = row.id ∧ a.content = row.content := by
  have hsent : ∃ row ∈ (reach noPreferences sentAtOnce).shared.rows, row.deliveryStatus = .sent := by decide
  obtain ⟨row, hrow, hstatus⟩ := hsent
  exact ⟨row, hrow, hstatus, sent_accepted noPreferences sentAtOnce row hrow hstatus⟩

/-! ## One delivery -/

/-- A run over the due notifications finds no other that holds some, and the record of a message that
was delivered can be saved. -/
def Apart (env : Env) (call : Call) (ts : List CallTask) : Prop :=
  match call with
  | .findDue => gather Call.dueHeld ts = []
  | .saveSent _ _ _ => env.fault = false
  | _ => True

/-- No two calls hold a record, and what was accepted was so once: its call is about to mark it, or
it says SENT and no call holds it. -/
structure Once (db : NotificationDb) (ts : List CallTask) : Prop where
  own : (gather Call.heldIds ts).Nodup
  sending : ∀ row ∈ db.rows, row.id ∈ gather Call.sending ts → row.deliveryStatus ≠ .scheduled
  once : (db.accepted.map Accepted.record).Nodup
  settled : ∀ a ∈ db.accepted, a.record ∈ gather Call.delivered ts ∨
    a.record ∉ gather Call.heldIds ts ∧ ∃ row ∈ db.rows, row.id = a.record ∧ row.deliveryStatus = .sent

section Once

variable {db db' : NotificationDb} {pre post : List CallTask} {k : Call} {t : CallTask}

theorem sending_subset (k : Call) : k.sending ⊆ k.heldIds := by
  intro id hid
  cases k with
  | schedule e => exact hid
  | attempt e _ after | saveSent e _ after | saveRetrying e _ after | saveFailed e _ after =>
    cases after with
    | returnEntity => exact hid
    | due rest processed => cases hid
  | _ => cases hid

theorem gather_sending_subset (ts : List CallTask) :
    gather Call.sending ts ⊆ gather Call.heldIds ts := by
  intro id hid
  obtain ⟨k, hk, hid⟩ := exists_of_mem_gather hid
  exact List.mem_flatMap.mpr ⟨_, hk, sending_subset k hid⟩

theorem held_cases {k : Call} {id : Uuid} (h : id ∈ k.heldIds) :
    id ∈ k.sending ∨ k.dueHeld ≠ [] := by
  cases k with
  | schedule e => exact .inl h
  | attempt e _ after | saveSent e _ after | saveRetrying e _ after | saveFailed e _ after =>
    cases after with
    | returnEntity => exact .inl h
    | due rest processed => exact .inr (List.cons_ne_nil _ _)
  | _ => cases h

theorem Once.own_sublist (h : Once db (pre ++ .running k :: post))
    (ht : (t.gather Call.heldIds).Sublist k.heldIds) : (gather Call.heldIds (pre ++ t :: post)).Nodup := by
  have hown := h.own
  rw [gather_split] at hown ⊢
  exact hown.sublist (((List.Sublist.refl _).append ht).append (List.Sublist.refl _))

theorem Once.not_accepted (h : Once db (pre ++ .running k :: post)) {id : Uuid} (hid : id ∈ k.heldIds)
    (hk : id ∉ k.delivered) : id ∉ db.accepted.map Accepted.record := by
  intro hmem
  obtain ⟨a, ha, rfl⟩ := List.mem_map.mp hmem
  rcases h.settled a ha with hin | ⟨hnot, -⟩
  · rcases mem_gather_split.mp hin with hin | hin | hin
    · exact hk hin
    · obtain ⟨k', hk', hin⟩ := exists_of_mem_gather hin
      exact not_mem_of_nodup_gather h.own (.inl hk') hid (delivered_subset k' hin)
    · obtain ⟨k', hk', hin⟩ := exists_of_mem_gather hin
      exact not_mem_of_nodup_gather h.own (.inr hk') hid (delivered_subset k' hin)
  · exact hnot (mem_gather_here hid)

/-- A step that leaves the database and lets go of records that were not delivered. -/
theorem Once.keep (h : Once db (pre ++ .running k :: post))
    (ht : (t.gather Call.heldIds).Sublist k.heldIds) (hsending : t.gather Call.sending ⊆ k.sending)
    (hdelivered : k.delivered = []) : Once db (pre ++ t :: post) := by
  refine ⟨h.own_sublist ht, fun row hrow hin => ?_, h.once, fun a ha => ?_⟩
  · refine h.sending row hrow ?_
    rcases mem_gather_replace (k := k) hin with hin | hin
    · exact mem_gather_here (hsending hin)
    · exact hin
  · rcases h.settled a ha with hin | ⟨hnot, hrow⟩
    · rcases mem_gather_split.mp hin with hin | hin
      · rw [Task.gather, hdelivered] at hin
        cases hin
      · exact .inl (mem_gather_split.mpr (.inr hin))
    · refine .inr ⟨fun hin => hnot ?_, hrow⟩
      rcases mem_gather_replace (k := k) hin with hin | hin
      · exact mem_gather_here (ht.subset hin)
      · exact hin

/-- A save of the record a call holds. -/
theorem Once.save (h : Once db (pre ++ .running k :: post)) {e e' : NotificationEntity}
    (he : e.id ∈ k.heldIds) (hid : e'.id = e.id) (ht : (t.gather Call.heldIds).Sublist k.heldIds)
    (hsending : t.gather Call.sending ⊆ k.sending)
    (hscheduled : e'.deliveryStatus = .scheduled → t.gather Call.sending = [])
    (hdelivered : k.delivered = [] ∨
      k.delivered = [e.id] ∧ e'.deliveryStatus = .sent ∧ e.id ∉ t.gather Call.heldIds) :
    Once (db.save e') (pre ++ t :: post) := by
  have hothers : ∀ {ts : List CallTask}, (ts = pre ∨ ts = post) → e.id ∉ gather Call.heldIds ts := by
    intro ts hts hin
    obtain ⟨k', hk', hin⟩ := exists_of_mem_gather hin
    refine not_mem_of_nodup_gather h.own ?_ he hin
    rcases hts with rfl | rfl
    · exact .inl hk'
    · exact .inr hk'
  have hsend : ∀ {id}, id ∈ gather Call.sending (pre ++ t :: post) →
      id ∈ gather Call.sending (pre ++ .running k :: post) := by
    intro id hin
    rcases mem_gather_replace (k := k) hin with hin | hin
    · exact mem_gather_here (hsending hin)
    · exact hin
  refine ⟨h.own_sublist ht, fun row hrow hin hstatus => ?_, h.once, fun a ha => ?_⟩
  · rcases mem_upsert_cases db.ids hrow with rfl | ⟨hrow, -⟩
    · rcases mem_gather_split.mp hin with hin | hin | hin
      · rw [hscheduled hstatus] at hin
        cases hin
      · exact hothers (.inl rfl) (hid ▸ gather_sending_subset pre hin)
      · exact hothers (.inr rfl) (hid ▸ gather_sending_subset post hin)
    · exact h.sending row hrow (hsend hin) hstatus
  · rcases h.settled a ha with hin | ⟨hnot, row, hrow, hrecord, hsent⟩
    · rcases mem_gather_split.mp hin with hin | hin
      · rcases hdelivered with hnil | ⟨hone, hsent, hreleased⟩
        · rw [Task.gather, hnil] at hin
          cases hin
        · rw [Task.gather, hone] at hin
          refine .inr ⟨?_, e', mem_upsert_self e' db.rows, by rw [hid, List.mem_singleton.mp hin], hsent⟩
          rw [List.mem_singleton.mp hin]
          intro hheld
          rcases mem_gather_split.mp hheld with hheld | hheld | hheld
          · exact hreleased hheld
          · exact hothers (.inl rfl) hheld
          · exact hothers (.inr rfl) hheld
      · exact .inl (mem_gather_split.mpr (.inr hin))
    · refine .inr ⟨fun hin => hnot ?_, row, mem_upsert_of_ne hrow fun heq => hnot ?_, hrecord, hsent⟩
      · rcases mem_gather_replace (k := k) hin with hin | hin
        · exact mem_gather_here (ht.subset hin)
        · exact hin
      · rw [← hrecord, heq, hid]
        exact mem_gather_here he

theorem heldIds_goOn (e : NotificationEntity) (after : After) :
    (goOn e after).gather Call.heldIds = after.rest.map NotificationEntity.id := by
  cases after with
  | returnEntity => rfl
  | due rest processed => cases rest <;> rfl

theorem sending_goOn (e : NotificationEntity) (after : After) :
    (goOn e after).gather Call.sending = [] := by
  cases after with
  | returnEntity => rfl
  | due rest processed => cases rest <;> rfl

theorem heldIds_catchAttempt (e : NotificationEntity) (attempt : Nat) (after : After) :
    (catchAttempt e attempt after).gather Call.heldIds = e.id :: after.rest.map NotificationEntity.id := by
  unfold catchAttempt
  split <;> rfl

theorem sending_catchAttempt (e : NotificationEntity) (attempt : Nat) (after : After) :
    (catchAttempt e attempt after).gather Call.sending = (Call.attempt e attempt after).sending := by
  unfold catchAttempt
  cases after <;> split <;> rfl

/-- What the calls hold is in the table. -/
theorem Honest.ids {ts : List CallTask} (h : Honest db ts) :
    ∀ id ∈ gather Call.heldIds ts, id ∈ db.rows.map NotificationEntity.id := by
  intro id hid
  obtain ⟨k, hk, hid⟩ := exists_of_mem_gather hid
  obtain ⟨e, he, rfl⟩ := List.mem_map.mp hid
  obtain ⟨row, hrow, hid, -⟩ := h.held e (List.mem_flatMap.mpr ⟨_, hk, he⟩)
  exact hid ▸ List.mem_map_of_mem hrow

theorem Once.created {n : Notification} {e : NotificationEntity} {k' : Call}
    (hhonest : Honest db (pre ++ .running (.create n) :: post))
    (h : Once db (pre ++ .running (.create n) :: post))
    (hnew : e.id ∉ db.rows.map NotificationEntity.id) (hstatus : e.deliveryStatus = .pending)
    (hk' : k'.heldIds = [e.id]) (hsending : k'.sending = [e.id]) :
    Once (db.insert e hnew) (pre ++ .running k' :: post) := by
  have hfree : e.id ∉ gather Call.heldIds (pre ++ .running (.create n) :: post) :=
    fun hin => hnew (hhonest.ids _ hin)
  refine ⟨?_, fun row hrow hin => ?_, h.once, fun a ha => ?_⟩
  · have hown := h.own
    rw [gather_split] at hown hfree ⊢
    simp only [Task.gather, Call.heldIds, Call.held, List.map_nil, List.append_nil] at hown hfree
    rw [Task.gather, hk', List.append_assoc]
    exact List.nodup_middle.mpr (List.nodup_cons.mpr ⟨hfree, hown⟩)
  · rcases List.mem_append.mp hrow with hrow | hrow
    · refine h.sending row hrow ?_
      rcases mem_gather_replace (k := .create n) hin with hin | hin
      · rw [Task.gather, hsending, List.mem_singleton] at hin
        exact absurd (hin ▸ List.mem_map_of_mem hrow) hnew
      · exact hin
    · rw [List.mem_singleton.mp hrow, hstatus]
      simp
  · rcases h.settled a ha with hin | ⟨hnot, row, hrow, hrecord, hsent⟩
    · refine .inl (mem_gather_split.mpr (.inr ?_))
      rcases mem_gather_split.mp hin with hin | hin
      · cases hin
      · exact hin
    · refine .inr ⟨fun hin => ?_, row, List.mem_append_left _ hrow, hrecord, hsent⟩
      rcases mem_gather_replace (k := .create n) hin with hin | hin
      · rw [Task.gather, hk', List.mem_singleton] at hin
        exact hnew (hin ▸ hrecord ▸ List.mem_map_of_mem hrow)
      · exact hnot hin

/-- The run over the due notifications takes records that no call holds and that were not delivered. -/
theorem Once.listed {now : Time} {e : NotificationEntity} {rest : List NotificationEntity}
    (h : Once db (pre ++ .running .findDue :: post)) (hdue : db.due now = e :: rest)
    (halone : gather Call.dueHeld (pre ++ .running .findDue :: post) = []) :
    Once db (pre ++ .running (.attempt e 1 (.due rest 0)) :: post) := by
  have hrow : ∀ x ∈ e :: rest, x ∈ db.rows ∧ x.deliveryStatus = .scheduled := by
    intro x hx
    rw [← hdue, NotificationDb.due, List.mem_filter, decide_eq_true_eq] at hx
    exact ⟨hx.1, hx.2.1⟩
  have hfree : ∀ x ∈ e :: rest, x.id ∉ gather Call.heldIds (pre ++ .running .findDue :: post) := by
    intro x hx hin
    obtain ⟨hin', hstatus⟩ := hrow x hx
    obtain ⟨k, hk, hid⟩ := exists_of_mem_gather hin
    rcases held_cases hid with hsend | hheld
    · exact h.sending x hin' (List.mem_flatMap.mpr ⟨_, hk, hsend⟩) hstatus
    · exact hheld (free_of_gather_nil halone k hk)
  have hids : ((e :: rest).map NotificationEntity.id).Nodup := by
    rw [← hdue]
    exact db.ids.sublist (List.filter_sublist.map _)
  refine ⟨?_, fun row hrow hin => h.sending row hrow ?_, h.once, fun a ha => ?_⟩
  · have hown := h.own
    rw [gather_split] at hown ⊢
    simp only [gather_split, Task.gather, Call.heldIds, Call.held, List.map_nil, List.append_nil] at hown hfree
    have hdisjoint : ∀ id ∈ (e :: rest).map NotificationEntity.id,
        id ∉ gather Call.heldIds pre ++ gather Call.heldIds post := by
      intro id hid
      obtain ⟨x, hx, rfl⟩ := List.mem_map.mp hid
      exact hfree x hx
    refine (List.perm_append_comm.append_right _).nodup_iff.mpr ?_
    rw [List.append_assoc]
    exact List.nodup_append.mpr ⟨hids, hown, fun a ha b hb hab => hdisjoint a ha (hab ▸ hb)⟩
  · rcases mem_gather_replace (k := .findDue) hin with hin | hin
    · cases hin
    · exact hin
  · rcases h.settled a ha with hin | ⟨hnot, row, hrow', hrecord, hsent⟩
    · refine .inl (mem_gather_split.mpr (.inr ?_))
      rcases mem_gather_split.mp hin with hin | hin
      · cases hin
      · exact hin
    · refine .inr ⟨fun hin => ?_, row, hrow', hrecord, hsent⟩
      rcases mem_gather_replace (k := .findDue) hin with hin | hin
      · obtain ⟨x, hx, hid⟩ := List.mem_map.mp (show a.record ∈ (e :: rest).map NotificationEntity.id from hin)
        obtain ⟨hx, hstatus⟩ := hrow x hx
        obtain rfl : row = x := List.inj_on_of_nodup_map db.ids hrow' hx (hrecord.trans hid.symm)
        rw [hsent] at hstatus
        cases hstatus
      · exact hnot hin

theorem Once.taken {e : NotificationEntity} {attempt : Nat} {after : After}
    (h : Once db (pre ++ .running (.attempt e attempt after) :: post)) :
    Once { db with accepted := db.accepted ++ [⟨e.id, e.channel, e.recipient, e.message⟩] }
      (pre ++ .running (.saveSent e attempt after) :: post) := by
  have hnew : e.id ∉ db.accepted.map Accepted.record :=
    h.not_accepted (.head _) (by simp [Call.delivered])
  have hheld : gather Call.heldIds (pre ++ .running (.saveSent e attempt after) :: post) =
      gather Call.heldIds (pre ++ .running (.attempt e attempt after) :: post) := gather_congr rfl
  have hsending : gather Call.sending (pre ++ .running (.saveSent e attempt after) :: post) =
      gather Call.sending (pre ++ .running (.attempt e attempt after) :: post) :=
    gather_congr (by cases after <;> rfl)
  refine ⟨hheld ▸ h.own, fun row hrow hin => h.sending row hrow (hsending ▸ hin), ?_, fun a ha => ?_⟩
  · rw [List.map_append, List.nodup_append]
    refine ⟨h.once, by simp, fun a ha b hb hab => hnew ?_⟩
    rw [List.map_singleton, List.mem_singleton] at hb
    rwa [hab, hb] at ha
  · rcases List.mem_append.mp ha with ha | ha
    · rw [hheld]
      refine (h.settled a ha).imp (fun hin => mem_gather_split.mpr (.inr ?_)) id
      rcases mem_gather_split.mp hin with hin | hin
      · cases hin
      · exact hin
    · rw [List.mem_singleton.mp ha]
      exact .inl (mem_gather_here (.head _))

theorem Once.moves {env : Env} (hmoves : Moves env.fault db k db' t)
    (hhonest : Honest db (pre ++ .running k :: post)) (hapart : Apart env k (pre ++ .running k :: post))
    (h : Once db (pre ++ .running k :: post)) : Once db' (pre ++ t :: post) := by
  cases hmoves with
  | ended hk => exact h.keep (List.nil_sublist _) (List.nil_subset _) hk
  | @read _ k' hk hk' =>
    have hids : k'.heldIds = [] := by rw [Call.heldIds, hk', List.map_nil]
    refine h.keep (by rw [Task.gather, hids]; exact List.nil_sublist _) ?_ ?_
    · exact fun id hid => absurd (sending_subset _ hid) (by rw [hids]; exact List.not_mem_nil)
    · refine List.eq_nil_iff_forall_not_mem.mpr fun id hid => ?_
      have := delivered_subset _ hid
      rw [Call.heldIds, hk] at this
      cases this
  | created hnew hstatus hk' =>
    refine h.created hhonest hnew hstatus ?_ ?_ <;> rcases hk' with rfl | rfl <;> rfl
  | listed hdue => exact h.listed hdue hapart
  | taken => exact h.taken
  | refused =>
    refine h.keep ?_ ?_ rfl
    · rw [heldIds_catchAttempt]
      exact List.Sublist.refl _
    · rw [sending_catchAttempt]
      exact List.Subset.refl _
  | unsaved hfault =>
    have hok : env.fault = false := hapart
    rw [hok] at hfault
    cases hfault
  | scheduled =>
    exact h.save (.head _) rfl (List.nil_sublist _) (List.nil_subset _) (fun _ => rfl) (.inl rfl)
  | @sent e attempt after =>
    refine h.save (.head _) rfl ?_ ?_ (fun hs => by cases hs) (.inr ⟨rfl, rfl, ?_⟩)
    · rw [heldIds_goOn]
      exact List.sublist_cons_self _ _
    · rw [sending_goOn]
      exact List.nil_subset _
    · have hown := h.own
      rw [gather_split, List.nodup_append, List.nodup_append] at hown
      rw [heldIds_goOn]
      exact (List.nodup_cons.mp hown.1.2.1).1
  | @retrying e e' attempt after he' =>
    subst he'
    refine h.save (.head _) rfl (List.Sublist.refl _) ?_ (fun hs => by cases hs) (.inl rfl)
    cases after <;> exact List.Subset.refl _
  | @failed e attempt after =>
    refine h.save (.head _) rfl ?_ ?_ (fun hs => by cases hs) (.inl rfl)
    · rw [heldIds_goOn]
      exact List.sublist_cons_self _ _
    · rw [sending_goOn]
      exact List.nil_subset _

end Once

instance (env : Env) (call : Call) (ts : List CallTask) : Decidable (Apart env call ts) :=
  match call with
  | .findDue => inferInstanceAs (Decidable (_ = []))
  | .saveSent _ _ _ => inferInstanceAs (Decidable (_ = false))
  | .send _ | .create _ | .schedule _ | .processScheduledNotifications | .attempt _ _ _
  | .saveRetrying _ _ _ | .saveFailed _ _ _ => .isTrue trivial

abbrev ApartStep : Conf NotificationDb Call Answer → Act Env Op → Prop :=
  Meets (fun _ => True) fun env call _ ts => Apart env call ts

/-- No record is delivered twice, and when no call is in flight those delivered say SENT. -/
theorem accepted_once (preferences : Preferences) {acts : List (Act Env Op)}
    (h : Along notifications.step ApartStep (Conf.init (.empty preferences)) acts) :
    ((reach preferences acts).shared.accepted.map Accepted.record).Nodup ∧
      ((reach preferences acts).Quiet → ∀ a ∈ (reach preferences acts).shared.accepted,
        ∃ row ∈ (reach preferences acts).shared.rows, row.id = a.record ∧ row.deliveryStatus = .sent) := by
  have hboth : Honest (reach preferences acts).shared (reach preferences acts).tasks ∧
      Once (reach preferences acts).shared (reach preferences acts).tasks := by
    refine run_inv (I := fun c => Honest c.shared c.tasks ∧ Once c.shared c.tasks)
      (fun c a hI hG => step_inv notifications (I := fun s ts => Honest s ts ∧ Once s ts)
        (fun s ts op _ h => ?_) (fun s pre k post e hapart h =>
          ⟨h.1.moves (advance_moves e k s), h.2.moves (advance_moves e k s) h.1 hapart⟩) c a hI hG) ?_ h
    · have hheld : (notifications.start op).held = [] := by cases op <;> rfl
      have hids : (notifications.start op).heldIds = [] := by cases op <;> rfl
      have hsending : (notifications.start op).sending = [] := by cases op <;> rfl
      have hdelivered : (notifications.start op).delivered = [] := by cases op <;> rfl
      refine ⟨⟨by rw [gather_spawn hheld]; exact h.1.held, h.1.log, h.1.sent,
        by rw [gather_spawn hdelivered]; exact h.1.delivered⟩, ?_⟩
      constructor
      · rw [gather_spawn hids]
        exact h.2.own
      · rw [gather_spawn hsending]
        exact h.2.sending
      · exact h.2.once
      · rw [gather_spawn hids, gather_spawn hdelivered]
        exact h.2.settled
    · exact ⟨⟨by simp [Conf.init, gather], by simp [Conf.init, NotificationDb.empty],
        by simp [Conf.init, NotificationDb.empty], by simp [Conf.init, gather]⟩,
        by simp [Conf.init, gather], by simp [Conf.init, NotificationDb.empty],
        by simp [Conf.init, NotificationDb.empty], by simp [Conf.init, NotificationDb.empty]⟩
  refine ⟨hboth.2.once, fun hquiet a ha => ?_⟩
  rcases hboth.2.settled a ha with hin | ⟨-, hrow⟩
  · have hnil : gather Call.delivered (reach preferences acts).tasks = [] := gather_quiet hquiet
    rw [hnil] at hin
    cases hin
  · exact hrow

/-- A notification for later, and two runs over the due ones when its time has come. -/
def twoRuns : List (Act Env Op) :=
  [.spawn (.send (email (some 10))), .sched 0 (tick 0 1), .sched 0 (tick 0 1), .sched 0 (tick 0 1),
    .spawn .processScheduledNotifications, .spawn .processScheduledNotifications]

theorem accepted_once_twoRuns :
    ((reach noPreferences (twoRuns ++ List.replicate 4 (.sched 1 (tick 20 0)) ++
      List.replicate 4 (.sched 2 (tick 20 0)))).shared.accepted.map Accepted.record).Nodup ∧
      ((reach noPreferences (twoRuns ++ List.replicate 4 (.sched 1 (tick 20 0)) ++
        List.replicate 4 (.sched 2 (tick 20 0)))).Quiet →
        ∀ a ∈ (reach noPreferences (twoRuns ++ List.replicate 4 (.sched 1 (tick 20 0)) ++
            List.replicate 4 (.sched 2 (tick 20 0)))).shared.accepted,
          ∃ row ∈ (reach noPreferences (twoRuns ++ List.replicate 4 (.sched 1 (tick 20 0)) ++
              List.replicate 4 (.sched 2 (tick 20 0)))).shared.rows,
            row.id = a.record ∧ row.deliveryStatus = .sent) :=
  accepted_once noPreferences (by decide)

/-- Two runs that both list the notification both deliver it. -/
theorem delivered_twice :
    (reach noPreferences (twoRuns ++ (List.replicate 4 [Act.sched 1 (tick 20 0),
      .sched 2 (tick 20 0)]).flatten)).shared.accepted.map Accepted.record = [1, 1] := by decide

/-! ## The priority of an alert -/

def mapSeverityToNotificationType (severity : String) : NotificationType :=
  if severity = "critical" ∨ severity = "high" then .portfolioAlert
  else if severity = "medium" then .priceAlert
  else .systemNotice

def getChannelsForNotification (preferences : List NotificationPreference) (type : NotificationType)
    (priority : String) : List Channel :=
  (preferences.filter fun pref => priority = "critical" ∨ type ∈ pref.subscribedTypes).map
    NotificationPreference.channel

/-- The notifications that `sendNotificationToUser` gives to `send`. -/
def sendNotificationToUser (db : NotificationDb) (userId title message severity priority : String) :
    List Notification :=
  let type := mapSeverityToNotificationType severity
  let userPreferences := db.preferences.rows.filter fun p => p.userId = userId ∧ p.isEnabled
  (getChannelsForNotification userPreferences type priority).map fun channel =>
    ⟨channel, userId, message, type, some title, none, none, none⟩

/-- `send` asks the subscriptions again, so an alert of critical priority is recorded on the channels
that any other is. -/
theorem critical_reaches_subscribed (db : NotificationDb)
    (userId title message severity priority : String) :
    (sendNotificationToUser db userId title message severity "critical").filter (fun n => !db.skips n) =
      (sendNotificationToUser db userId title message severity priority).filter fun n => !db.skips n := by
  simp only [sendNotificationToUser, getChannelsForNotification, List.map_map, List.filter_map,
    List.filter_filter]
  refine congrArg (List.map _) (List.filter_congr fun p hp => ?_)
  -- the preference that `send` finds is the one the channel comes from
  have hfound : ∀ userId, p.userId = userId →
      lookup NotificationPreference.key (userId, p.channel) db.preferences.rows = some p := by
    rintro _ rfl
    exact lookup_of_mem db.preferences.keys hp
  by_cases huser : p.userId = userId
  · simp only [Function.comp_apply, NotificationDb.skips, hfound userId huser, Option.any_some]
    by_cases hsub : mapSeverityToNotificationType severity ∈ p.subscribedTypes <;> simp [hsub]
  · simp [huser]

end NotificationDelivery
end TradeCore
