import TradeCore.Webhook.Service

/-!
# TradeCore.Webhook.Signature

Whether the header `X-Webhook-Signature` of a POST verifies against its body.

A delivery is signed once, over the payload it is made of and with the secret of that moment. Its body is
written anew at every attempt, from a row that a `jsonb` column may have given back with its keys in
another order, and custom headers are assigned over the service's own.

`posts_verify_iff`: as long as no custom header takes the name of the signature, every POST verifies
exactly in the runs in which every POST sends the text that was signed, under the secret that signed it.
-/

namespace TradeCore
namespace Webhook

open Lib

section Verify

variable {rt : Runtime}

theorem verifySignature_hexOf {payload : List Char} {bytes : List (Fin 256)} {secret : String} :
    verifySignature rt payload (hexOf bytes) secret = true ↔ rt.hmac secret payload = bytes := by
  unfold verifySignature
  constructor
  · intro h
    dsimp only at h
    split at h
    · cases h
    · have hbytes := of_decide_eq_true h
      rw [bytesOf_hexOf, bytesOf_hexOf] at hbytes
      exact List.map_injective_iff.mpr (fun _ _ => Fin.ext) hbytes
  · intro h
    simp [h]

end Verify

/-! ## Headers -/

/-- The names of headers are compared without case. -/
def lower (name : String) : List Char := name.toList.map Char.toLower

def signatureHeader : String := "X-Webhook-Signature"

/-- What the endpoint gets under a name: the values are joined. -/
def headerValue (name : String) (headers : List (String × String)) : Option String :=
  match headers.filter fun h => lower h.1 = lower name with
  | [] => none
  | found => some (", ".intercalate (found.map Prod.snd))

/-- No custom header takes the name of the signature. -/
def Plain (subscription : WebhookSubscription) : Prop :=
  ∀ h ∈ subscription.customHeaders.getD [], lower h.1 ≠ lower signatureHeader

instance (subscription : WebhookSubscription) : Decidable (Plain subscription) :=
  inferInstanceAs (Decidable (∀ h ∈ _, _))

theorem filter_upsert_header {name : String} {header : String × String}
    (hne : lower header.1 ≠ lower name) (headers : List (String × String)) :
    ((upsert Prod.fst header headers).filter fun h => lower h.1 = lower name) =
      headers.filter fun h => lower h.1 = lower name := by
  induction headers with
  | nil => simp [upsert, hne]
  | cons h headers ih =>
    simp only [upsert]
    split
    · rename_i hname
      simp [hname, hne]
    · rw [List.filter_cons, List.filter_cons, ih]

theorem filter_assign {name : String} {custom : List (String × String)}
    (hne : ∀ h ∈ custom, lower h.1 ≠ lower name) (headers : List (String × String)) :
    ((assign headers custom).filter fun h => lower h.1 = lower name) =
      headers.filter fun h => lower h.1 = lower name := by
  induction custom generalizing headers with
  | nil => rfl
  | cons header custom ih =>
    rw [assign, List.foldl_cons]
    rw [← filter_upsert_header (hne header (.head _)) headers]
    exact ih (fun h hh => hne h (.tail _ hh)) _

theorem own_headers : ∀ name ∈ ["Content-Type", "User-Agent", "X-Webhook-ID", "X-Webhook-Timestamp",
    "X-Webhook-Event", "X-Webhook-Delivery-Id", "Authorization"],
    lower name ≠ lower signatureHeader := by decide +kernel

theorem filter_headers {delivery : WebhookDelivery} {subscription : WebhookSubscription}
    (hplain : Plain subscription) :
    ((headers delivery subscription).filter fun h => lower h.1 = lower signatureHeader) =
      [(signatureHeader, "sha256=" ++ delivery.signature)] := by
  have hown := own_headers
  simp only [List.forall_mem_cons, signatureHeader] at hown
  obtain ⟨h1, h2, h3, h4, h5, h6, h7, -⟩ := hown
  unfold headers
  dsimp only
  generalize hassigned : assign _ (subscription.customHeaders.getD []) = assigned
  have hsignature : (assigned.filter fun h => lower h.1 = lower signatureHeader) =
      [(signatureHeader, "sha256=" ++ delivery.signature)] := by
    rw [← hassigned, filter_assign hplain]
    simp [h1, h2, h3, h4, h5, h6, signatureHeader]
  split
  · exact hsignature
  · split
    · exact hsignature
    · exact (@filter_upsert_header "X-Webhook-Signature" ("Authorization", _) h7 assigned).trans hsignature

theorem headerValue_headers {delivery : WebhookDelivery} {subscription : WebhookSubscription}
    (hplain : Plain subscription) :
    headerValue signatureHeader (headers delivery subscription) =
      some ("sha256=" ++ delivery.signature) := by
  unfold headerValue
  rw [filter_headers hplain]
  rfl

/-- The hex digest that the header carries. -/
def hexDigest (value : String) : Option (List Char) :=
  if value.toList.take 7 = "sha256=".toList then some (value.toList.drop 7) else none

theorem hexDigest_signature (signature : String) :
    hexDigest ("sha256=" ++ signature) = some signature.toList := by
  simp [hexDigest, String.toList_append]

/-! ## Runs -/

section Runs

variable (rt : Runtime)

/-- The digest in the header of a POST verifies against its body, under the secret of the subscription
at that moment. -/
def Post.Verifies (p : Post) : Prop :=
  ∃ value ∈ headerValue signatureHeader p.headers, ∃ digest ∈ hexDigest value, ∃ secret ∈ p.secret,
    verifySignature rt p.body digest secret = true

def AllVerify (c : Conf State Call Ended) : Prop := ∀ p, .post p ∈ c.shared.log → p.Verifies rt

instance (p : Post) : Decidable (p.Verifies rt) :=
  inferInstanceAs (Decidable (∃ value ∈ headerValue signatureHeader p.headers,
    ∃ digest ∈ hexDigest value, ∃ secret ∈ p.secret, _))

def posts (log : List Event) : List Post :=
  log.filterMap fun e => match e with
    | .post p => some p
    | _ => none

theorem mem_posts {log : List Event} {p : Post} : p ∈ posts log ↔ .post p ∈ log := by
  rw [posts, List.mem_filterMap]
  constructor
  · rintro ⟨e, he, heq⟩
    cases e with
    | post q => exact Option.some.inj heq ▸ he
    | _ => cases heq
  · intro h
    exact ⟨_, h, rfl⟩

instance (c : Conf State Call Ended) : Decidable (AllVerify rt c) :=
  decidable_of_iff (∀ p ∈ posts c.shared.log, p.Verifies rt) (by simp only [mem_posts, AllVerify])

/-- No POST has a custom header with the name of the signature. -/
def PlainPost (_ : Env) (c : Call) (_ : State) (_ : List CallTask) : Prop :=
  match c with
  | .posting a => Plain a.subscription
  | _ => True

/-- The attempt sends the text that was signed, and the subscription has the secret that signed it. -/
def Attempt.SendsSigned (a : Attempt) (s : State) : Event → Prop
  | .signed delivery secret =>
    delivery.id = a.delivery.id →
      s.secret? a.subscription.id = some secret ∧
        render a.delivery.payload = render delivery.payload
  | _ => True

def SentAsSigned (_ : Env) (c : Call) (s : State) (_ : List CallTask) : Prop :=
  match c with
  | .posting a => ∀ e ∈ s.log, a.SendsSigned s e
  | _ => True

instance (e : Env) (c : Call) (s : State) (ts : List CallTask) : Decidable (PlainPost e c s ts) := by
  unfold PlainPost
  split <;> infer_instance

instance (a : Attempt) (s : State) (e : Event) : Decidable (a.SendsSigned s e) := by
  unfold Attempt.SendsSigned
  split <;> infer_instance

instance (e : Env) (c : Call) (s : State) (ts : List CallTask) : Decidable (SentAsSigned e c s ts) := by
  unfold SentAsSigned
  split <;> infer_instance

abbrev PlainStep : Conf State Call Ended → Act Env CallOp → Prop := Meets (fun _ => True) PlainPost

abbrev SignedStep : Conf State Call Ended → Act Env CallOp → Prop :=
  Meets (fun _ => True) SentAsSigned

variable {rt}

theorem verifies_iff (hinj : Function.Injective2 rt.hmac) {a : Attempt} {s : State}
    {delivery : WebhookDelivery} {secret : String} (hplain : Plain a.subscription)
    (hsig : a.delivery.signature = signPayload rt delivery.payload secret) :
    (s.post a).Verifies rt ↔ s.secret? a.subscription.id = some secret ∧
      render a.delivery.payload = render delivery.payload := by
  have hheader : headerValue signatureHeader (s.post a).headers =
      some ("sha256=" ++ a.delivery.signature) := headerValue_headers hplain
  have hdigest : hexDigest ("sha256=" ++ a.delivery.signature) =
      some (hexOf (rt.hmac secret (render delivery.payload))) := by
    rw [hexDigest_signature, hsig, signPayload, String.toList_ofList]
  constructor
  · rintro ⟨value, hvalue, digest, hd, current, hcurrent, hverify⟩
    obtain rfl := Option.some.inj (hheader.symm.trans hvalue)
    obtain rfl := Option.some.inj (hdigest.symm.trans hd)
    obtain ⟨rfl, hbody⟩ := hinj (verifySignature_hexOf.mp hverify)
    exact ⟨hcurrent, hbody⟩
  · rintro ⟨hsecret, hbody⟩
    refine ⟨_, hheader, _, hdigest, secret, hsecret, verifySignature_hexOf.mpr ?_⟩
    show rt.hmac secret (render a.delivery.payload) = _
    rw [hbody]

/-! ## What is signed -/

variable (rt)

/-- The signature is that of the delivery as it was made. -/
def Genuine (log : List Event) (delivery : WebhookDelivery) : Prop :=
  ∃ original secret, .signed original secret ∈ log ∧ original.id = delivery.id ∧
    delivery.signature = signPayload rt original.payload secret

structure Signed (s : State) (ts : List CallTask) : Prop where
  fresh : ∀ d secret, .signed d secret ∈ s.log → d.id < s.nextId
  unique : ∀ d secret d' secret', .signed d secret ∈ s.log → .signed d' secret' ∈ s.log →
    d.id = d'.id → d = d' ∧ secret = secret'
  rows : ∀ d ∈ s.deliveries, Genuine rt s.log d
  copies : ∀ d ∈ gather Call.copies ts, Genuine rt s.log d

variable {rt}

section Signed

variable {s s' : State} {pre post : List CallTask} {c : Call} {t : CallTask}

theorem Genuine.mono {log log' : List Event} {delivery : WebhookDelivery} (h : Genuine rt log delivery)
    (hsub : log ⊆ log') : Genuine rt log' delivery :=
  let ⟨original, secret, hmem, hrest⟩ := h
  ⟨original, secret, hsub hmem, hrest⟩

/-- A call that moves on with copies that are signed. -/
theorem Signed.move (h : Signed rt s (pre ++ .running c :: post))
    (ht : ∀ d ∈ t.gather Call.copies, Genuine rt s.log d) : Signed rt s (pre ++ t :: post) :=
  { h with copies := fun d hd => (mem_gather_replace hd).elim (ht d) (h.copies d) }

theorem Signed.ends (h : Signed rt s (pre ++ .running c :: post)) (r : Ended) :
    Signed rt s (pre ++ .done r :: post) :=
  h.move (List.forall_mem_nil _)

theorem Signed.save {ts : List CallTask} (h : Signed rt s ts) {d : WebhookDelivery}
    (hd : Genuine rt s.log d) : Signed rt (s.save d) ts :=
  { h with rows := fun d' hd' => (mem_upsert hd').elim (fun he => he ▸ hd) (h.rows d') }

/-- Other events sign nothing. -/
theorem Signed.record {ts : List CallTask} (h : Signed rt s ts) {e : Event}
    (he : ∀ d secret, e ≠ .signed d secret) : Signed rt (s.record e) ts := by
  have hold : ∀ d secret, .signed d secret ∈ (s.record e).log → .signed d secret ∈ s.log :=
    fun d secret hmem => (List.mem_cons.mp hmem).resolve_left fun heq => he d secret heq.symm
  exact ⟨fun d secret hmem => h.fresh d secret (hold d secret hmem),
    fun d secret d' secret' hd hd' => h.unique d secret d' secret' (hold _ _ hd) (hold _ _ hd'),
    fun d hd => (h.rows d hd).mono (List.subset_cons_self _ _),
    fun d hd => (h.copies d hd).mono (List.subset_cons_self _ _)⟩

theorem Signed.sign {ts : List CallTask} (h : Signed rt s ts) {d : WebhookDelivery} {secret : String}
    (hid : d.id = s.nextId) :
    Signed rt ({ s with nextId := s.nextId + 1 }.record (.signed d secret)) ts := by
  refine ⟨fun d' secret' hmem => ?_, fun d₁ secret₁ d₂ secret₂ h₁ h₂ heq => ?_,
    fun d hd => (h.rows d hd).mono (List.subset_cons_self _ _),
    fun d hd => (h.copies d hd).mono (List.subset_cons_self _ _)⟩
  · rcases List.mem_cons.mp hmem with heq | hmem
    · obtain ⟨rfl, rfl⟩ := Event.signed.inj heq
      exact hid ▸ Nat.lt_succ_self _
    · exact Nat.lt_succ_of_lt (h.fresh d' secret' hmem)
  · rcases List.mem_cons.mp h₁ with he₁ | hm₁ <;> rcases List.mem_cons.mp h₂ with he₂ | hm₂
    · obtain ⟨rfl, rfl⟩ := Event.signed.inj he₁
      obtain ⟨rfl, rfl⟩ := Event.signed.inj he₂
      exact ⟨rfl, rfl⟩
    · obtain ⟨rfl, rfl⟩ := Event.signed.inj he₁
      exact absurd (h.fresh _ _ hm₂) (by rw [← heq, hid]; exact Nat.lt_irrefl _)
    · obtain ⟨rfl, rfl⟩ := Event.signed.inj he₂
      exact absurd (h.fresh _ _ hm₁) (by rw [heq, hid]; exact Nat.lt_irrefl _)
    · exact h.unique _ _ _ _ hm₁ hm₂ heq

/-- An attempt that fails keeps what is signed of its copy. -/
theorem genuine_failed {a : Attempt} {message : String} (h : Genuine rt s.log a.delivery) :
    ∀ d ∈ (a.failed message).copies, Genuine rt s.log d := by
  unfold Attempt.failed
  dsimp only
  split <;> exact List.forall_mem_singleton.mpr h

theorem genuine_read {a : Attempt} {status : Nat} {body : String} (h : Genuine rt s.log a.delivery) :
    ∀ d ∈ (a.read status body).copies, Genuine rt s.log d := by
  unfold Attempt.read
  split
  · exact List.forall_mem_singleton.mpr h
  · exact genuine_failed h

theorem Signed.saveSubscription {ts : List CallTask} (h : Signed rt s ts) (row : WebhookSubscription) :
    Signed rt (s.saveSubscription row) ts :=
  { h with }

theorem Signed.update {ts : List CallTask} (h : Signed rt s ts) (id : Uuid)
    (set : WebhookSubscription → WebhookSubscription) : Signed rt (s.update id set) ts := by
  unfold State.update
  split
  · exact h
  · exact h.saveSubscription _

theorem adv_signed {e : Env} (h : Signed rt s (pre ++ .running c :: post)) :
    Signed rt (adv rt e c s).1 (pre ++ (adv rt e c s).2 :: post) := by
  have hc : ∀ d ∈ c.copies, Genuine rt s.log d := fun d hd => h.copies d (mem_gather_here hd)
  cases c with
  | deliverEvent subscriptionId eventType payload eventId timestamp =>
    simp only [adv]
    split
    · exact h.ends _
    · split
      · exact h.ends _
      · rename_i subscription _ delivery hnew
        obtain ⟨hid, hsig, -⟩ := newDelivery_spec hnew
        exact (h.sign hid).move
          (List.forall_mem_singleton.mpr ⟨delivery, _, .head _, rfl, hsig⟩)
  | posting a =>
    exact (h.record (by simp)).move fun d hd => (hc d hd).mono (List.subset_cons_self _ _)
  | posted a =>
    simp only [adv]
    split
    · exact h.move (genuine_failed (hc a.delivery (.head _)))
    · split
      · exact (h.record (by simp)).move fun d hd => (hc d hd).mono (List.subset_cons_self _ _)
      · exact h.move hc
  | retryDelivery deliveryId subscriptionId =>
    simp only [adv]
    split
    · exact (h.record (by simp)).ends _
    · rename_i row hrow
      refine (h.record (by simp)).move (List.forall_mem_singleton.mpr ?_)
      exact (h.rows row (mem_of_lookup hrow)).mono (List.subset_cons_self _ _)
  | found delivery subscriptionId =>
    simp only [adv]
    split
    · exact h.ends _
    · exact h.move (List.forall_mem_singleton.mpr (hc delivery (.head _)))
  | rotateSecret id =>
    simp only [adv]
    split
    · exact h.ends _
    · exact h.move (List.forall_mem_nil _)
  | rotating subscription =>
    simp only [adv]
    split
    · exact h.ends _
    · exact (h.ends _).saveSubscription _
  | waiting a => exact h.move (List.forall_mem_singleton.mpr (hc a.delivery (.head _)))
  | saving a | succeeding a =>
    simp only [adv]
    split
    · exact h.move (genuine_failed (hc a.delivery (.head _)))
    · exact (h.save (hc a.delivery (.head _))).move hc
  | answered a status =>
    simp only [adv]
    split
    · exact h.move (genuine_failed (hc a.delivery (.head _)))
    · exact h.move (genuine_read (hc a.delivery (.head _)))
  | counting a =>
    simp only [adv]
    split
    · exact h.move (genuine_failed (hc a.delivery (.head _)))
    · exact (h.ends _).update _ _
  | creating a | rescheduling a | givingUp a | resetting a =>
    simp only [adv]
    split
    · exact h.ends _
    · exact (h.save (hc a.delivery (.head _))).move
        (List.forall_mem_singleton.mpr (hc a.delivery (.head _)))
  | countingFailure a =>
    simp only [adv]
    split
    · exact h.ends _
    · exact (h.ends _).update _ _

end Signed

theorem step_signed (c : Conf State Call Ended) (a : Act Env CallOp) (h : Signed rt c.shared c.tasks) :
    Signed rt ((calls rt).step c a).shared ((calls rt).step c a).tasks := by
  refine step_inv (calls rt) (fun s ts op _ h => ?_) (fun s pre k post e _ => adv_signed) c a h
    (meets_true c a)
  refine { h with copies := fun d hd => h.copies d ?_ }
  cases op <;> rwa [gather_spawn rfl] at hd

theorem sendsSigned_iff (hinj : Function.Injective2 rt.hmac) {s : State} {ts : List CallTask}
    {a : Attempt} (h : Signed rt s ts) (hplain : Plain a.subscription)
    (hmem : a.delivery ∈ gather Call.copies ts) :
    (∀ e ∈ s.log, a.SendsSigned s e) ↔ (s.post a).Verifies rt := by
  obtain ⟨original, secret, hsigned, hid, hsig⟩ := h.copies _ hmem
  rw [verifies_iff hinj hplain hsig]
  constructor
  · intro hsends
    exact hsends _ hsigned hid
  · intro hsent e he
    cases e with
    | signed delivery secret' =>
      intro hid'
      obtain ⟨rfl, rfl⟩ := h.unique _ _ _ _ he hsigned (hid'.trans hid.symm)
      exact hsent
    | _ => trivial

theorem mem_post_step {c : Conf State Call Ended} {i : Nat} {e : Env}
    (hno : ∀ a, c.tasks[i]? ≠ some (.running (.posting a))) (p : Post) :
    .post p ∈ ((calls rt).step c (.sched i e)).shared.log ↔ .post p ∈ c.shared.log := by
  cases hi : c.tasks[i]? with
  | none => simp [Proc.step, hi]
  | some t =>
    cases t with
    | done r => simp [Proc.step, hi]
    | running k =>
      rw [step_sched _ hi]
      show .post p ∈ (adv rt e k c.shared).1.log ↔ _
      obtain ⟨_, _, -, hlog⟩ | ⟨a, rfl, -⟩ | ⟨_, -, -, -, hlog⟩ | ⟨_, _, -, hlog⟩ | hlog :=
        adv_log rt e k c.shared
      · simp [hlog]
      · exact absurd hi (hno a)
      · simp [hlog]
      · simp [hlog]
      · rw [hlog]

theorem step_allVerify (hinj : Function.Injective2 rt.hmac) (c : Conf State Call Ended)
    (a : Act Env CallOp) (h : Signed rt c.shared c.tasks) (hplain : PlainStep c a) :
    AllVerify rt ((calls rt).step c a) ↔ AllVerify rt c ∧ SignedStep c a := by
  cases a with
  | spawn op => exact ⟨fun hall => ⟨hall, trivial⟩, And.left⟩
  | sched i e =>
    by_cases hpost : ∃ a, c.tasks[i]? = some (.running (.posting a))
    · obtain ⟨a, hi⟩ := hpost
      have hmem : a.delivery ∈ gather Call.copies c.tasks :=
        List.mem_flatMap.mpr ⟨_, List.mem_of_getElem? hi, .head _⟩
      have hstep : SignedStep c (.sched i e) ↔ (c.shared.post a).Verifies rt := by
        rw [← sendsSigned_iff hinj h (hplain _ hi) hmem]
        constructor
        · intro hG
          exact hG _ hi
        · intro hsends k hk
          obtain rfl := Task.running.inj (Option.some.inj (hi.symm.trans hk))
          exact hsends
      rw [hstep, step_sched _ hi]
      constructor
      · intro hall
        exact ⟨fun p hp => hall p (.tail _ hp), hall _ (.head _)⟩
      · intro ⟨hall, hnew⟩ p hp
        rcases List.mem_cons.mp hp with he | hp
        · exact Event.post.inj he ▸ hnew
        · exact hall p hp
    · have hno : ∀ a, c.tasks[i]? ≠ some (.running (.posting a)) := fun a hi => hpost ⟨a, hi⟩
      have hG : SignedStep c (.sched i e) := by
        intro k hi
        cases k with
        | posting a => exact absurd hi (hno a)
        | _ => trivial
      constructor
      · intro hall
        exact ⟨fun p hp => hall p ((mem_post_step hno p).mpr hp), hG⟩
      · intro ⟨hall, _⟩ p hp
        exact hall p ((mem_post_step hno p).mp hp)

theorem signed_start (subscriptions : List WebhookSubscription) : Signed rt (.start subscriptions) [] :=
  ⟨fun _ _ h => absurd h List.not_mem_nil, fun _ _ _ _ h => absurd h List.not_mem_nil,
    List.forall_mem_nil _, List.forall_mem_nil _⟩

theorem run_signed (subscriptions : List WebhookSubscription) (acts : List (Act Env CallOp)) :
    Signed rt (run (calls rt).step (.init (.start subscriptions)) acts).shared
      (run (calls rt).step (.init (.start subscriptions)) acts).tasks :=
  run_inv (I := fun c => Signed rt c.shared c.tasks) (G := fun _ _ => True)
    (fun c a h _ => step_signed c a h) (signed_start subscriptions) along_true

theorem not_allVerify (hinj : Function.Injective2 rt.hmac) {subscriptions : List WebhookSubscription}
    {acts : List (Act Env CallOp)} {a : Act Env CallOp}
    (hplain : PlainStep (run (calls rt).step (.init (.start subscriptions)) acts) a)
    (hbad : ¬ SignedStep (run (calls rt).step (.init (.start subscriptions)) acts) a) :
    ¬ AllVerify rt (run (calls rt).step (.init (.start subscriptions)) (acts ++ [a])) := by
  intro hall
  rw [run_append] at hall
  exact hbad ((step_allVerify hinj _ a (run_signed subscriptions acts) hplain).mp hall).2

/-- **Among the runs whose POSTs have no custom header under the name of the signature, those in which
every POST verifies are exactly those in which every POST sends what was signed.** -/
theorem posts_verify_iff (rt : Runtime) (hinj : Function.Injective2 rt.hmac)
    (subscriptions : List WebhookSubscription) {acts : List (Act Env CallOp)}
    (hplain : Along (calls rt).step PlainStep (.init (.start subscriptions)) acts) :
    Always (calls rt).step (AllVerify rt) (.init (.start subscriptions)) acts ↔
      Along (calls rt).step SignedStep (.init (.start subscriptions)) acts :=
  always_iff_along_of (I := fun c => Signed rt c.shared c.tasks ∧ AllVerify rt c) (fun _ h => h.2)
    (fun c a hI hH hG => ⟨step_signed c a hI.1, (step_allVerify hinj c a hI.1 hH).mpr ⟨hI.2, hG⟩⟩)
    (fun c a hI hH hP => ((step_allVerify hinj c a hI.1 hH).mp hP).2)
    ⟨signed_start subscriptions, fun _ h => absurd h List.not_mem_nil⟩ hplain

/-! ## Three histories -/

/-- A character in four bytes. -/
def charBytes (c : Char) : List (Fin 256) :=
  [Fin.ofNat 256 (c.toNat / 16777216), Fin.ofNat 256 (c.toNat / 65536), Fin.ofNat 256 (c.toNat / 256),
    Fin.ofNat 256 c.toNat]

def tagged (tag : Fin 256) (text : List Char) : List (Fin 256) :=
  text.flatMap fun c => tag :: charBytes c

/-- An oracle without collisions: it tells the secret and the text. -/
def idealMac (secret : String) (body : List Char) : List (Fin 256) :=
  tagged 1 secret.toList ++ tagged 0 body

theorem charBytes_append_inj {c d : Char} {u v : List (Fin 256)}
    (h : charBytes c ++ u = charBytes d ++ v) : c = d ∧ u = v := by
  simp only [charBytes, List.cons_append, List.nil_append, List.cons.injEq, Fin.ext_iff,
    Fin.val_ofNat] at h
  obtain ⟨h1, h2, h3, h4, rfl⟩ := h
  have hc : c.toNat < 2 ^ 32 := c.val.toNat_lt
  have hd : d.toNat < 2 ^ 32 := d.val.toNat_lt
  exact ⟨Char.toNat_inj.mp (by omega), rfl⟩

theorem tagged_cons_append_inj {tag : Fin 256} {c d : Char} {k k' : List Char} {u v : List (Fin 256)}
    (h : tagged tag (c :: k) ++ u = tagged tag (d :: k') ++ v) :
    c = d ∧ tagged tag k ++ u = tagged tag k' ++ v := by
  simp only [tagged, List.flatMap_cons, List.cons_append, List.append_assoc, List.cons.injEq,
    true_and] at h
  exact charBytes_append_inj h

theorem tagged_append_inj {tag : Fin 256} {k k' : List Char} {u v : List (Fin 256)}
    (hu : u.head? ≠ some tag) (hv : v.head? ≠ some tag) (h : tagged tag k ++ u = tagged tag k' ++ v) :
    k = k' ∧ u = v := by
  induction k generalizing k' with
  | nil =>
    cases k' with
    | nil => exact ⟨rfl, h⟩
    | cons d k' => exact absurd (congrArg List.head? h) hu
  | cons c k ih =>
    cases k' with
    | nil => exact absurd (congrArg List.head? h).symm hv
    | cons d k' =>
      obtain ⟨rfl, hrest⟩ := tagged_cons_append_inj h
      obtain ⟨rfl, huv⟩ := ih hrest
      exact ⟨rfl, huv⟩

theorem idealMac_injective : Function.Injective2 idealMac := by
  intro secret secret' body body' h
  have hbody : ∀ text, (tagged 0 text).head? ≠ some 1 := by
    intro text
    cases text <;> simp [tagged]
  obtain ⟨hsecret, htext⟩ := tagged_append_inj (hbody body) (hbody body') h
  have hnil := tagged_append_inj (u := []) (v := []) nofun nofun (by simpa using htext)
  exact ⟨String.toList_inj.mp hsecret, hnil.1⟩

/-- `jsonb` keeps the shorter keys first. -/
def shorterFirst : Json → Json
  | .obj [id, event, timestamp, data] => .obj [id, data, event, timestamp]
  | v => v

def runtime : Runtime := ⟨idealMac, fun _ => none, shorterFirst⟩

def endpoint (customHeaders : Option (List (String × String))) (maxRetries : Nat) :
    WebhookSubscription :=
  ⟨7, "https://example.com/hook", "s3cret", customHeaders, none, maxRetries, 0, 0⟩

abbrev begun (customHeaders : Option (List (String × String))) (maxRetries : Nat) :
    Conf State Call Ended :=
  .init (.start [endpoint customHeaders maxRetries])

def fine : Env := ⟨none, 200, "ok"⟩

def unavailable : Env := ⟨none, 503, "busy"⟩

def rotated : Env := ⟨none, 0, "n3w"⟩

/-- A delivery up to the answer to its first POST. -/
def delivered (answer : Env) : List (Act Env CallOp) :=
  [.spawn (.deliverEvent 7 "trade.completed" [("amount", .str "5")] "evt_1" "2026-01-01T00:00:00.000Z"),
    .sched 0 fine, .sched 0 fine, .sched 0 fine, .sched 0 fine, .sched 0 answer, .sched 0 answer]

/-- The save of a failed attempt, and the timer of the next one up to its POST. -/
def again : List (Act Env CallOp) := List.replicate 4 (.sched 0 fine)

theorem retried_verifies :
    Along (calls runtime).step PlainStep (begun (some [("X-Env", "prod")]) 1)
        (delivered unavailable ++ again) ∧
      Always (calls runtime).step (AllVerify runtime) (begun (some [("X-Env", "prod")]) 1)
        (delivered unavailable ++ again) ∧
      (posts (run (calls runtime).step (begun (some [("X-Env", "prod")]) 1)
        (delivered unavailable ++ again)).shared.log).length = 2 := by
  have hplain : Along (calls runtime).step PlainStep (begun (some [("X-Env", "prod")]) 1)
      (delivered unavailable ++ again) := by decide +kernel
  have hsigned : Along (calls runtime).step SignedStep (begun (some [("X-Env", "prod")]) 1)
      (delivered unavailable ++ again) := by decide +kernel
  exact ⟨hplain, (posts_verify_iff runtime idealMac_injective _ hplain).mpr hsigned, by decide +kernel⟩

/-- The row is read back for a manual retry, with its keys in another order. -/
def reloaded : List (Act Env CallOp) :=
  delivered unavailable ++
    ([.sched 0 fine, .sched 0 fine, .spawn (.retryDelivery 0 7)] : List (Act Env CallOp)) ++
    List.replicate 4 (Act.sched 1 fine)

/-- The secret is rotated while the timer of the next attempt runs. -/
def rotatedBetween : List (Act Env CallOp) :=
  delivered unavailable ++
    ([.sched 0 fine, .spawn (.rotateSecret 7), .sched 1 rotated, .sched 1 rotated] :
      List (Act Env CallOp)) ++
    List.replicate 2 (Act.sched 0 fine)

theorem posts_not_verified :
    ¬ AllVerify runtime (run (calls runtime).step (begun none 0) (reloaded ++ [.sched 1 fine])) ∧
      ¬ AllVerify runtime
        (run (calls runtime).step (begun none 1) (rotatedBetween ++ [.sched 0 fine])) ∧
      ¬ AllVerify runtime (run (calls runtime).step
        (begun (some [("X-Webhook-Signature", "mine")]) 0) (delivered fine)) := by
  refine ⟨not_allVerify idealMac_injective ?_ ?_, not_allVerify idealMac_injective ?_ ?_, ?_⟩
  · decide +kernel
  · decide +kernel
  · decide +kernel
  · decide +kernel
  · decide +kernel

end Runs

end Webhook
end TradeCore
