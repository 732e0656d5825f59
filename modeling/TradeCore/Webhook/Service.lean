import TradeCore.Common
import TradeCore.Lib.HexText
import TradeCore.Lib.Interleave
import TradeCore.Lib.JsonText
import TradeCore.Lib.Table

/-!
# TradeCore.Webhook.Service

`deliverEvent`, `executeDelivery`, `retryDelivery` and `rotateSecret`, on the rows of the deliveries and
the subscriptions.

Calls run in any interleaving and every await ends a step: a save, the POST, its answer, the text of the
answer, the timer of a retry. An attempt works on copies of the two rows, which the timer of the next
attempt hands on; `retryDelivery` starts another chain of attempts on a copy of its own. What a step
awaits can fail, and the timer goes off at any later moment.

The log is not part of the service. It says in which order things happened, the newest first.
-/

namespace TradeCore
namespace Webhook

open Lib

inductive WebhookDeliveryStatus where
  | pending
  | success
  | failed
  | retrying
  deriving DecidableEq, Repr

structure WebhookSubscription where
  id : Uuid
  url : String
  secret : String
  customHeaders : Option (List (String × String))
  authToken : Option String
  maxRetries : Nat
  totalDeliveries : Nat
  totalFailures : Nat
  deriving DecidableEq

structure WebhookDelivery where
  id : Uuid
  webhookSubscriptionId : Uuid
  eventType : String
  payload : Json
  signature : String
  status : WebhookDeliveryStatus
  httpStatusCode : Option Nat
  responseBody : Option String
  errorMessage : Option String
  attemptNumber : Nat
  maxRetries : Nat
  /-- As `toISOString` writes it. -/
  deliveredAt : String

/-- What the service calls: the HMAC-SHA256 of a text under a secret, `JSON.parse` on UTF-16 units, and
what a `jsonb` column gives back of a value. -/
structure Runtime where
  hmac : String → List Char → List (Fin 256)
  parse : List Nat → Option Json
  jsonb : Json → Json

/-! ## Signing -/

section Signing

variable (rt : Runtime)

def signPayload (payload : Json) (secret : String) : String :=
  String.ofList (hexOf (rt.hmac secret (render payload)))

/-- `timingSafeEqual` throws on buffers of two lengths, which counts as not verified. -/
def verifySignature (payload signature : List Char) (secret : String) : Bool :=
  let expectedSignature := hexOf (rt.hmac secret payload)
  if expectedSignature.length ≠ signature.length then false
  else bytesOf expectedSignature = bytesOf signature

end Signing

/-! ## The rows -/

/-- What is sent: the headers as `fetch` is given them. The secret is the one that the subscription has
in the table at that moment. -/
structure Post where
  deliveryId : Uuid
  subscriptionId : Uuid
  url : String
  headers : List (String × String)
  body : List Char
  secret : Option String

inductive Event where
  /-- `deliverEvent` has signed a new delivery. -/
  | signed (delivery : WebhookDelivery) (secret : String)
  | post (p : Post)
  /-- The endpoint has answered a POST with 2xx. -/
  | accepted (deliveryId : Uuid)
  | retryDelivery (deliveryId : Uuid)

structure State where
  subscriptions : List WebhookSubscription
  deliveries : List WebhookDelivery
  nextId : Uuid
  log : List Event

namespace State

def start (subscriptions : List WebhookSubscription) : State := ⟨subscriptions, [], 0, []⟩

def subscription? (s : State) (id : Uuid) : Option WebhookSubscription :=
  lookup WebhookSubscription.id id s.subscriptions

def secret? (s : State) (id : Uuid) : Option String :=
  (s.subscription? id).map WebhookSubscription.secret

def delivery? (s : State) (id : Uuid) : Option WebhookDelivery :=
  lookup WebhookDelivery.id id s.deliveries

def status (s : State) (id : Uuid) : Option WebhookDeliveryStatus :=
  (s.delivery? id).map WebhookDelivery.status

/-- `deliveryRepo.save`: every column is written. -/
def save (s : State) (delivery : WebhookDelivery) : State :=
  { s with deliveries := upsert WebhookDelivery.id delivery s.deliveries }

def saveSubscription (s : State) (subscription : WebhookSubscription) : State :=
  { s with subscriptions := upsert WebhookSubscription.id subscription s.subscriptions }

/-- `subscriptionRepo.update`, in one statement on the row as it is. -/
def update (s : State) (id : Uuid) (set : WebhookSubscription → WebhookSubscription) : State :=
  match s.subscription? id with
  | none => s
  | some row => s.saveSubscription (set row)

def record (s : State) (e : Event) : State := { s with log := e :: s.log }

theorem delivery?_save (s : State) (delivery : WebhookDelivery) (id : Uuid) :
    (s.save delivery).delivery? id = if delivery.id = id then some delivery else s.delivery? id :=
  lookup_upsert delivery id s.deliveries

theorem status_save (s : State) (delivery : WebhookDelivery) (id : Uuid) :
    (s.save delivery).status id = if delivery.id = id then some delivery.status else s.status id := by
  rw [status, delivery?_save]
  split
  · rfl
  · rfl

@[simp] theorem update_deliveries (s : State) (id : Uuid)
    (set : WebhookSubscription → WebhookSubscription) : (s.update id set).deliveries = s.deliveries := by
  unfold update
  split <;> rfl

@[simp] theorem update_nextId (s : State) (id : Uuid)
    (set : WebhookSubscription → WebhookSubscription) : (s.update id set).nextId = s.nextId := by
  unfold update
  split <;> rfl

@[simp] theorem update_log (s : State) (id : Uuid)
    (set : WebhookSubscription → WebhookSubscription) : (s.update id set).log = s.log := by
  unfold update
  split <;> rfl

end State

/-! ## One attempt -/

/-- `Object.assign`. -/
def assign (headers : List (String × String)) (custom : List (String × String)) :
    List (String × String) :=
  custom.foldl (fun headers header => upsert Prod.fst header headers) headers

def headers (delivery : WebhookDelivery) (subscription : WebhookSubscription) :
    List (String × String) :=
  let headers := [("Content-Type", "application/json"),
    ("User-Agent", "InterChangableTrade-Webhook/1.0"), ("X-Webhook-ID", toString subscription.id),
    ("X-Webhook-Signature", "sha256=" ++ delivery.signature),
    ("X-Webhook-Timestamp", delivery.deliveredAt), ("X-Webhook-Event", delivery.eventType),
    ("X-Webhook-Delivery-Id", toString delivery.id)]
  let headers := assign headers (subscription.customHeaders.getD [])
  match subscription.authToken with
  | none => headers
  | some token =>
    if token = "" then headers else upsert Prod.fst ("Authorization", "Bearer " ++ token) headers

/-- The copies of the two rows that the attempts of a chain hand on. The number of POSTs that the chain
has made is not part of the service. -/
structure Attempt where
  delivery : WebhookDelivery
  subscription : WebhookSubscription
  posts : Nat

/-- Where a call stands: what it awaits. -/
inductive Call where
  | deliverEvent (subscriptionId : Uuid) (eventType : String) (payload : List (String × Json))
      (eventId timestamp : String)
  | creating (a : Attempt)
  | saving (a : Attempt)
  | posting (a : Attempt)
  | posted (a : Attempt)
  | answered (a : Attempt) (status : Nat)
  | succeeding (a : Attempt)
  | counting (a : Attempt)
  | rescheduling (a : Attempt)
  | waiting (a : Attempt)
  | givingUp (a : Attempt)
  | countingFailure (a : Attempt)
  | retryDelivery (deliveryId subscriptionId : Uuid)
  | found (delivery : WebhookDelivery) (subscriptionId : Uuid)
  | resetting (a : Attempt)
  | rotateSecret (id : Uuid)
  | rotating (subscription : WebhookSubscription)

/-- The copies of deliveries that a call holds. -/
def Call.copies : Call → List WebhookDelivery
  | .creating a | .saving a | .posting a | .posted a | .answered a _ | .succeeding a | .counting a
  | .rescheduling a | .waiting a | .givingUp a | .countingFailure a | .resetting a => [a.delivery]
  | .found delivery _ => [delivery]
  | .deliverEvent _ _ _ _ _ | .retryDelivery _ _ | .rotateSecret _ | .rotating _ => []

inductive CallOp where
  | deliverEvent (subscriptionId : Uuid) (eventType : String) (payload : List (String × Json))
      (eventId timestamp : String)
  | retryDelivery (deliveryId subscriptionId : Uuid)
  | rotateSecret (id : Uuid)

/-- The POSTs that the chain of a call has made, and the retries it was allowed. -/
structure Ended where
  posts : Nat
  maxRetries : Nat

abbrev CallTask := Task Call Ended

def Attempt.ended (a : Attempt) : CallTask := .done ⟨a.posts, a.delivery.maxRetries⟩

def rejected : CallTask := .done ⟨0, 0⟩

/-- What a step learns: the exception that it ends with, the status of the answer, and the text of the
answer or the secret that is generated. -/
structure Env where
  error : Option String
  status : Nat
  text : String

/-- `executeDelivery` is called, by a new chain or by the timer. -/
def Attempt.execute (a : Attempt) : Call :=
  .saving { a with delivery := { a.delivery with status := .retrying } }

/-- The catch clause, up to its save. -/
def Attempt.failed (a : Attempt) (errorMessage : String) : Call :=
  let delivery := { a.delivery with
    httpStatusCode := none, responseBody := none, errorMessage := some errorMessage }
  if delivery.attemptNumber < delivery.maxRetries then
    .rescheduling { a with
      delivery := { delivery with attemptNumber := delivery.attemptNumber + 1, status := .retrying } }
  else
    .givingUp { a with
      delivery := { delivery with attemptNumber := delivery.attemptNumber + 1, status := .failed } }

def isOk (status : Nat) : Bool := 200 ≤ status ∧ status ≤ 299

def Attempt.read (a : Attempt) (status : Nat) (responseBody : String) : Call :=
  if isOk status then
    .succeeding { a with delivery := { a.delivery with
      status := .success, httpStatusCode := some status,
      responseBody := some (String.ofList (responseBody.toList.take 1024)) } }
  else
    a.failed ("HTTP " ++ toString status ++ ": " ++ String.ofList (responseBody.toList.take 200))

def State.post (s : State) (a : Attempt) : Post where
  deliveryId := a.delivery.id
  subscriptionId := a.subscription.id
  url := a.subscription.url
  headers := headers a.delivery a.subscription
  body := render a.delivery.payload
  secret := s.secret? a.subscription.id

/-! ## A new delivery -/

def maxPayloadSize : Nat := 256 * 1024

/-- The units of a text in UTF-16. -/
def utf16 (text : List Char) : List Nat :=
  text.flatMap fun c =>
    if c.toNat < 0x10000 then [c.toNat]
    else [0xD800 + (c.toNat - 0x10000) / 0x400, 0xDC00 + (c.toNat - 0x10000) % 0x400]

section Calls

variable (rt : Runtime)

/-- A payload that is too large is cut and read again, which can throw. -/
def truncatedPayload (fullPayload : Json) : Option Json :=
  let payloadJson := utf16 (render fullPayload)
  if maxPayloadSize < payloadJson.length then
    rt.parse (payloadJson.take maxPayloadSize ++ [quoteMark.toNat, closeBrace.toNat])
  else some fullPayload

def newDelivery (id : Uuid) (subscription : WebhookSubscription) (eventType : String)
    (payload : List (String × Json)) (eventId timestamp : String) : Option WebhookDelivery :=
  (truncatedPayload rt (.obj [("id", .str eventId), ("event", .str eventType),
    ("timestamp", .str timestamp), ("data", .obj payload)])).map fun payload =>
    { id, webhookSubscriptionId := subscription.id, eventType, payload
      signature := signPayload rt payload subscription.secret
      status := .pending, httpStatusCode := none, responseBody := none, errorMessage := none
      attemptNumber := 0, maxRetries := subscription.maxRetries, deliveredAt := timestamp }

def Call.start : CallOp → Call
  | .deliverEvent subscriptionId eventType payload eventId timestamp =>
    .deliverEvent subscriptionId eventType payload eventId timestamp
  | .retryDelivery deliveryId subscriptionId => .retryDelivery deliveryId subscriptionId
  | .rotateSecret id => .rotateSecret id

def adv (e : Env) (c : Call) (s : State) : State × CallTask :=
  match c with
  | .deliverEvent subscriptionId eventType payload eventId timestamp =>
    match s.subscription? subscriptionId with
    | none => (s, rejected)
    | some subscription =>
      match newDelivery rt s.nextId subscription eventType payload eventId timestamp with
      | none => (s, rejected)
      | some delivery =>
        ({ s with nextId := s.nextId + 1 }.record (.signed delivery subscription.secret),
          .running (.creating ⟨delivery, subscription, 0⟩))
  | .creating a =>
    match e.error with
    | some _ => (s, a.ended)
    | none => (s.save a.delivery, .running a.execute)
  | .saving a =>
    match e.error with
    | some message => (s, .running (a.failed message))
    | none => (s.save a.delivery, .running (.posting a))
  | .posting a => (s.record (.post (s.post a)), .running (.posted { a with posts := a.posts + 1 }))
  | .posted a =>
    match e.error with
    | some message => (s, .running (a.failed message))
    | none =>
      (if isOk e.status then s.record (.accepted a.delivery.id) else s, .running (.answered a e.status))
  | .answered a status =>
    match e.error with
    | some message => (s, .running (a.failed message))
    | none => (s, .running (a.read status e.text))
  | .succeeding a =>
    match e.error with
    | some message => (s, .running (a.failed message))
    | none => (s.save a.delivery, .running (.counting a))
  | .counting a =>
    match e.error with
    | some message => (s, .running (a.failed message))
    | none =>
      (s.update a.subscription.id fun row => { row with totalDeliveries := row.totalDeliveries + 1 },
        a.ended)
  | .rescheduling a =>
    match e.error with
    | some _ => (s, a.ended)
    | none => (s.save a.delivery, .running (.waiting a))
  | .waiting a => (s, .running a.execute)
  | .givingUp a =>
    match e.error with
    | some _ => (s, a.ended)
    | none => (s.save a.delivery, .running (.countingFailure a))
  | .countingFailure a =>
    match e.error with
    | some _ => (s, a.ended)
    | none =>
      (s.update a.subscription.id fun row => { row with totalFailures := row.totalFailures + 1 },
        a.ended)
  | .retryDelivery deliveryId subscriptionId =>
    match s.delivery? deliveryId with
    | none => (s.record (.retryDelivery deliveryId), rejected)
    | some row =>
      (s.record (.retryDelivery deliveryId),
        .running (.found { row with payload := rt.jsonb row.payload } subscriptionId))
  | .found delivery subscriptionId =>
    match s.subscription? subscriptionId with
    | none => (s, rejected)
    | some subscription =>
      (s, .running (.resetting
        ⟨{ delivery with status := .pending, attemptNumber := 0, errorMessage := none }, subscription,
          0⟩))
  | .resetting a =>
    match e.error with
    | some _ => (s, a.ended)
    | none => (s.save a.delivery, .running a.execute)
  | .rotateSecret id =>
    match s.subscription? id with
    | none => (s, rejected)
    | some subscription => (s, .running (.rotating subscription))
  | .rotating subscription =>
    match e.error with
    | some _ => (s, rejected)
    | none => (s.saveSubscription { subscription with secret := e.text }, rejected)

def calls : Proc State Env CallOp Call Ended := ⟨Call.start, adv rt⟩

variable {rt}

theorem newDelivery_spec {id : Uuid} {subscription : WebhookSubscription} {eventType : String}
    {payload : List (String × Json)} {eventId timestamp : String} {delivery : WebhookDelivery}
    (h : newDelivery rt id subscription eventType payload eventId timestamp = some delivery) :
    delivery.id = id ∧ delivery.signature = signPayload rt delivery.payload subscription.secret ∧
      delivery.attemptNumber = 0 := by
  obtain ⟨payload, -, rfl⟩ := Option.map_eq_some_iff.mp h
  exact ⟨rfl, rfl, rfl⟩

variable (rt)

/-- What a step can log. -/
theorem adv_log (e : Env) (c : Call) (s : State) :
    (∃ delivery secret, delivery.id = s.nextId ∧
      (adv rt e c s).1.log = .signed delivery secret :: s.log) ∨
    (∃ a, c = .posting a ∧ (adv rt e c s).1.log = .post (s.post a) :: s.log) ∨
    (∃ a, c = .posted a ∧ (adv rt e c s).2 = .running (.answered a e.status) ∧
      isOk e.status = true ∧ (adv rt e c s).1.log = .accepted a.delivery.id :: s.log) ∨
    (∃ deliveryId subscriptionId, c = .retryDelivery deliveryId subscriptionId ∧
      (adv rt e c s).1.log = .retryDelivery deliveryId :: s.log) ∨
    (adv rt e c s).1.log = s.log := by
  cases c with
  | deliverEvent subscriptionId eventType payload eventId timestamp =>
    simp only [adv]
    split
    · exact .inr (.inr (.inr (.inr rfl)))
    · split
      · exact .inr (.inr (.inr (.inr rfl)))
      · rename_i subscription _ _ delivery hnew
        exact .inl ⟨delivery, subscription.secret, (newDelivery_spec hnew).1, rfl⟩
  | posting a => exact .inr (.inl ⟨a, rfl, rfl⟩)
  | posted a =>
    simp only [adv]
    split
    · exact .inr (.inr (.inr (.inr rfl)))
    · split
      · exact .inr (.inr (.inl ⟨a, rfl, rfl, ‹_›, rfl⟩))
      · exact .inr (.inr (.inr (.inr rfl)))
  | retryDelivery deliveryId subscriptionId =>
    refine .inr (.inr (.inr (.inl ⟨deliveryId, subscriptionId, rfl, ?_⟩)))
    simp only [adv]
    split <;> rfl
  | waiting a => exact .inr (.inr (.inr (.inr rfl)))
  | counting a | countingFailure a =>
    refine .inr (.inr (.inr (.inr ?_)))
    simp only [adv]
    split
    · rfl
    · exact State.update_log _ _ _
  | creating a | saving a | answered a status | succeeding a | rescheduling a | givingUp a
  | found delivery subscriptionId | resetting a | rotateSecret id | rotating subscription =>
    refine .inr (.inr (.inr (.inr ?_)))
    simp only [adv]
    split <;> rfl

end Calls

end Webhook
end TradeCore
