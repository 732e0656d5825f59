import TradeCore.Webhook.Signature

/-!
# TradeCore.Webhook.Delivery

What comes after a POST that the endpoint has accepted.

The success is saved and counted inside the try block of the POST, so that a failure there is handled as
a failed attempt: the delivery is sent again or marked FAILED. And `retryDelivery` starts a chain of its
own while the timer of an older chain still runs; each chain saves its own copy of the row.

`delivered_once`: in every run in which nothing fails behind an accepted POST and `retryDelivery` is
called for deliveries that no chain works on, an accepted delivery is not sent again and ends as SUCCESS.
That a chain makes at most `maxRetries + 1` POSTs holds in every run.
-/

namespace TradeCore
namespace Webhook

open Lib

/-! ## What is asked of a run -/

/-- The endpoint has accepted a POST of the delivery, and `retryDelivery` has not been called since. -/
def Settled (id : Uuid) : List Event → Prop
  | [] => False
  | .accepted deliveryId :: older => deliveryId = id ∨ Settled id older
  | .retryDelivery deliveryId :: older => deliveryId ≠ id ∧ Settled id older
  | .signed _ _ :: older | .post _ :: older => Settled id older

/-- No POST was made of a delivery that was settled. -/
def Silent : List Event → Prop
  | [] => True
  | .post p :: older => ¬ Settled p.deliveryId older ∧ Silent older
  | .accepted _ :: older | .retryDelivery _ :: older | .signed _ _ :: older => Silent older

instance Settled.decidable (id : Uuid) : ∀ log, Decidable (Settled id log)
  | [] => inferInstanceAs (Decidable False)
  | .accepted deliveryId :: older =>
    have := Settled.decidable id older
    inferInstanceAs (Decidable (deliveryId = id ∨ _))
  | .retryDelivery deliveryId :: older =>
    have := Settled.decidable id older
    inferInstanceAs (Decidable (deliveryId ≠ id ∧ _))
  | .signed _ _ :: older | .post _ :: older => Settled.decidable id older

instance Silent.decidable : ∀ log, Decidable (Silent log)
  | [] => inferInstanceAs (Decidable True)
  | .post _ :: older =>
    have := Silent.decidable older
    inferInstanceAs (Decidable (¬ _ ∧ _))
  | .accepted _ :: older | .retryDelivery _ :: older | .signed _ _ :: older => Silent.decidable older

def Call.deliveryIds (c : Call) : List Uuid := c.copies.map WebhookDelivery.id

/-- The POSTs of a chain so far, and the retries it is allowed. -/
def Call.chain : Call → Ended
  | .creating a | .saving a | .posting a | .posted a | .answered a _ | .succeeding a | .counting a
  | .rescheduling a | .waiting a | .givingUp a | .countingFailure a | .resetting a =>
    ⟨a.posts, a.delivery.maxRetries⟩
  | .found _ _ | .deliverEvent _ _ _ _ _ | .retryDelivery _ _ | .rotateSecret _ | .rotating _ => ⟨0, 0⟩

def chain : CallTask → Ended
  | .running c => c.chain
  | .done r => r

structure DeliveredOnce (c : Conf State Call Ended) : Prop where
  silent : Silent c.shared.log
  /-- When no call works on it any more. -/
  success : ∀ id, Settled id c.shared.log → id ∉ gather Call.deliveryIds c.tasks →
    c.shared.status id = some .success
  bounded : ∀ t ∈ c.tasks, (chain t).posts ≤ (chain t).maxRetries + 1

/-- Nothing fails behind an accepted POST, and `retryDelivery` is called for a delivery that no call
works on. -/
def Undisturbed (e : Env) (c : Call) (_ : State) (ts : List CallTask) : Prop :=
  match c with
  | .answered _ status => isOk status = true → e.error = none
  | .succeeding _ | .counting _ => e.error = none
  | .retryDelivery deliveryId _ => deliveryId ∉ gather Call.deliveryIds ts
  | _ => True

instance (e : Env) (c : Call) (s : State) (ts : List CallTask) : Decidable (Undisturbed e c s ts) := by
  unfold Undisturbed
  split <;> infer_instance

abbrev UndisturbedStep : Conf State Call Ended → Act Env CallOp → Prop :=
  Meets (fun _ => True) Undisturbed

/-! ## The POSTs of a chain -/

/-- How many POSTs can have been made at this point of an attempt, and what it is about to save. -/
def Call.Consistent : Call → Prop
  | .creating a | .saving a | .posting a | .rescheduling a | .waiting a | .resetting a =>
    a.posts ≤ a.delivery.attemptNumber ∧ a.delivery.attemptNumber ≤ a.delivery.maxRetries
  | .posted a | .answered a _ | .counting a =>
    a.posts ≤ a.delivery.attemptNumber + 1 ∧ a.delivery.attemptNumber ≤ a.delivery.maxRetries
  | .succeeding a =>
    a.posts ≤ a.delivery.attemptNumber + 1 ∧ a.delivery.attemptNumber ≤ a.delivery.maxRetries ∧
      a.delivery.status = .success
  | .givingUp a | .countingFailure a => a.posts ≤ a.delivery.maxRetries + 1
  | .found _ _ | .deliverEvent _ _ _ _ _ | .retryDelivery _ _ | .rotateSecret _ | .rotating _ => True

def Consistent : CallTask → Prop
  | .running c => c.Consistent
  | .done r => r.posts ≤ r.maxRetries + 1

section Consistent

variable {rt : Runtime} {e : Env} {c : Call} {s : State}

theorem Consistent.chain {t : CallTask} (h : Consistent t) : (chain t).posts ≤ (chain t).maxRetries + 1 := by
  cases t with
  | done r => exact h
  | running c =>
    cases c with
    | creating a | saving a | posting a | rescheduling a | waiting a | resetting a =>
      exact Nat.le_trans (Nat.le_trans h.1 h.2) (Nat.le_succ _)
    | posted a | answered a status | counting a => exact Nat.le_trans h.1 (Nat.succ_le_succ h.2)
    | succeeding a => exact Nat.le_trans h.1 (Nat.succ_le_succ h.2.1)
    | givingUp a | countingFailure a => exact h
    | _ => exact Nat.zero_le _

theorem consistent_failed {a : Attempt} {message : String}
    (hposts : a.posts ≤ a.delivery.attemptNumber + 1)
    (hattempt : a.delivery.attemptNumber ≤ a.delivery.maxRetries) : (a.failed message).Consistent := by
  unfold Attempt.failed
  dsimp only
  split
  · rename_i hlt
    exact ⟨hposts, hlt⟩
  · exact Nat.le_trans hposts (Nat.succ_le_succ hattempt)

theorem consistent_read {a : Attempt} {status : Nat} {body : String}
    (hposts : a.posts ≤ a.delivery.attemptNumber + 1)
    (hattempt : a.delivery.attemptNumber ≤ a.delivery.maxRetries) : (a.read status body).Consistent := by
  unfold Attempt.read
  split
  · exact ⟨hposts, hattempt, rfl⟩
  · exact consistent_failed hposts hattempt

theorem adv_consistent (h : Consistent (.running c)) : Consistent (adv rt e c s).2 := by
  cases c with
  | deliverEvent subscriptionId eventType payload eventId timestamp =>
    simp only [adv]
    split
    · exact Nat.zero_le _
    · split
      · exact Nat.zero_le _
      · rename_i hnew
        have hzero := (newDelivery_spec hnew).2.2
        exact ⟨Nat.zero_le _, Nat.le_trans (Nat.le_of_eq hzero) (Nat.zero_le _)⟩
  | posting a => exact ⟨Nat.succ_le_succ h.1, h.2⟩
  | waiting a => exact h
  | saving a =>
    simp only [adv]
    split
    · exact consistent_failed (Nat.le_trans h.1 (Nat.le_succ _)) h.2
    · exact h
  | posted a =>
    simp only [adv]
    split
    · exact consistent_failed h.1 h.2
    · exact h
  | succeeding a =>
    simp only [adv]
    split
    · exact consistent_failed h.1 h.2.1
    · exact ⟨h.1, h.2.1⟩
  | answered a status =>
    simp only [adv]
    split
    · exact consistent_failed h.1 h.2
    · exact consistent_read h.1 h.2
  | counting a =>
    simp only [adv]
    split
    · exact consistent_failed h.1 h.2
    · exact Consistent.chain h
  | creating a | rescheduling a | resetting a =>
    simp only [adv]
    split
    · exact Consistent.chain h
    · exact h
  | givingUp a | countingFailure a =>
    simp only [adv]
    split <;> exact h
  | found delivery subscriptionId =>
    simp only [adv]
    split
    · exact Nat.zero_le _
    · exact ⟨Nat.le_refl _, Nat.zero_le _⟩
  | retryDelivery deliveryId subscriptionId | rotateSecret id =>
    simp only [adv]
    split
    · exact Nat.zero_le _
    · trivial
  | rotating subscription =>
    simp only [adv]
    split <;> exact Nat.zero_le _

end Consistent

/-! ## Accepted deliveries -/

/-- The delivery of a call that has not seen it accepted. -/
def Call.unaccepted : Call → List Uuid
  | .answered a status => if isOk status then [] else [a.delivery.id]
  | .succeeding _ | .counting _ => []
  | c => c.deliveryIds

/-- The delivery of a call that has seen it accepted and not saved it yet. -/
def Call.unsaved : Call → List Uuid
  | .answered a status => if isOk status then [a.delivery.id] else []
  | .succeeding a => [a.delivery.id]
  | _ => []

/-- A delivery has one chain at a time, and the chain of a settled one has seen it accepted. -/
structure Inv (s : State) (ts : List CallTask) : Prop where
  nodup : (gather Call.deliveryIds ts).Nodup
  fresh : ∀ id ∈ gather Call.deliveryIds ts, id < s.nextId
  rows : ∀ d ∈ s.deliveries, d.id < s.nextId
  settled : ∀ id, Settled id s.log → id < s.nextId
  silent : Silent s.log
  held : ∀ id, Settled id s.log → id ∉ gather Call.unaccepted ts
  saved : ∀ id, Settled id s.log → id ∈ gather Call.unsaved ts ∨ s.status id = some .success

section Inv

variable {rt : Runtime} {s s' : State} {pre post : List CallTask} {c : Call} {t : CallTask}

theorem Inv.not_settled (h : Inv s (pre ++ .running c :: post)) {id : Uuid} (hid : id ∈ c.unaccepted) :
    ¬ Settled id s.log :=
  fun hset => h.held id hset (mem_gather_here hid)

theorem Inv.nodup_of (h : Inv s (pre ++ .running c :: post))
    (hids : t.gather Call.deliveryIds = c.deliveryIds ∨ t.gather Call.deliveryIds = []) :
    (gather Call.deliveryIds (pre ++ t :: post)).Nodup := by
  have hnodup := h.nodup
  rcases hids with hids | hids
  · rwa [gather_congr hids]
  · rw [gather_split] at hnodup ⊢
    rw [hids, List.append_nil]
    exact hnodup.sublist ((List.sublist_append_left _ _).append (List.Sublist.refl _))

/-- A step of a call that keeps its delivery or lets go of it, and leaves the log. -/
theorem Inv.move (h : Inv s (pre ++ .running c :: post)) (hnext : s'.nextId = s.nextId)
    (hlog : s'.log = s.log) (hrows : ∀ d ∈ s'.deliveries, d.id < s.nextId)
    (hids : t.gather Call.deliveryIds = c.deliveryIds ∨ t.gather Call.deliveryIds = [])
    (hacc : t.gather Call.unaccepted ⊆ c.unaccepted)
    (hstatus : ∀ id, s.status id = some .success →
      s'.status id = some .success ∨ id ∈ c.unaccepted)
    (hsaved : ∀ id ∈ c.unsaved, id ∈ t.gather Call.unsaved ∨ s'.status id = some .success) :
    Inv s' (pre ++ t :: post) := by
  refine ⟨h.nodup_of hids, fun id hid => hnext ▸ ?_, hnext ▸ hrows,
    fun id hset => hnext ▸ h.settled id (hlog ▸ hset), hlog ▸ h.silent, fun id hset hid => ?_,
    fun id hset => ?_⟩
  · rcases mem_gather_replace hid with hid | hid
    · rcases hids with hids | hids
      · exact h.fresh id (mem_gather_here (hids ▸ hid))
      · exact absurd (hids ▸ hid) List.not_mem_nil
    · exact h.fresh id hid
  · rw [hlog] at hset
    rcases mem_gather_replace hid with hid | hid
    · exact h.not_settled (hacc hid) hset
    · exact h.held id hset hid
  · rw [hlog] at hset
    rcases h.saved id hset with hun | hsucc
    · rcases mem_gather_split.mp hun with hun | hun
      · exact (hsaved id hun).imp_left fun hin => mem_gather_split.mpr (.inl hin)
      · exact .inl (mem_gather_split.mpr (.inr hun))
    · exact .inr ((hstatus id hsucc).resolve_right fun hid => h.not_settled hid hset)

/-- The rows stay. -/
theorem Inv.stay (h : Inv s (pre ++ .running c :: post))
    (hids : t.gather Call.deliveryIds = c.deliveryIds ∨ t.gather Call.deliveryIds = [])
    (hacc : t.gather Call.unaccepted ⊆ c.unaccepted) (hsaved : c.unsaved ⊆ t.gather Call.unsaved) :
    Inv s (pre ++ t :: post) :=
  h.move rfl rfl h.rows hids hacc (fun _ hs => .inl hs) fun _ hid => .inl (hsaved hid)

/-- The call ends, or has nothing more to do with its delivery. -/
theorem Inv.leave (h : Inv s (pre ++ .running c :: post)) (hids : t.gather Call.deliveryIds = [])
    (hacc : t.gather Call.unaccepted = []) (hsaved : c.unsaved = []) : Inv s (pre ++ t :: post) :=
  h.stay (.inr hids) (by simp [hacc]) (by simp [hsaved])

/-- A call that has not seen its delivery accepted saves its copy. -/
theorem Inv.save {a : Attempt} (h : Inv s (pre ++ .running c :: post))
    (hc : c.unaccepted = [a.delivery.id]) (hc' : c.deliveryIds = [a.delivery.id])
    (hun : c.unsaved = []) (hids : t.gather Call.deliveryIds = [a.delivery.id])
    (hacc : t.gather Call.unaccepted ⊆ [a.delivery.id]) :
    Inv (s.save a.delivery) (pre ++ t :: post) := by
  have hmem : a.delivery.id ∈ c.deliveryIds := hc' ▸ .head _
  refine h.move rfl rfl (fun d hd => ?_) (.inl (hids.trans hc'.symm)) (hc ▸ hacc) (fun id hs => ?_)
    (by simp [hun])
  · rcases mem_upsert hd with rfl | hd
    · exact h.fresh _ (mem_gather_here hmem)
    · exact h.rows d hd
  · rw [State.status_save]
    split
    · rename_i he
      exact .inr (hc ▸ he ▸ .head _)
    · exact .inl hs

theorem Inv.nodup_new (h : Inv s (pre ++ .running c :: post)) {id : Uuid} (hc : c.deliveryIds = [])
    (hnew : id ∉ gather Call.deliveryIds (pre ++ .running c :: post))
    (ht : t.gather Call.deliveryIds = [id]) :
    (gather Call.deliveryIds (pre ++ t :: post)).Nodup :=
  let hex := Exclusive.acquire ⟨.refl _, h.nodup⟩ hc hnew ht
  hex.perm.nodup_iff.mp hex.nodup

theorem Inv.sign {delivery : WebhookDelivery} {secret : String} {subscription : WebhookSubscription}
    (h : Inv s (pre ++ .running c :: post)) (hc : c.deliveryIds = []) (hun : c.unsaved = [])
    (hid : delivery.id = s.nextId) :
    Inv ({ s with nextId := s.nextId + 1 }.record (.signed delivery secret))
      (pre ++ .running (.creating ⟨delivery, subscription, 0⟩) :: post) := by
  have hnew : delivery.id ∉ gather Call.deliveryIds (pre ++ .running c :: post) := fun hmem =>
    Nat.lt_irrefl _ (hid ▸ h.fresh _ hmem)
  refine ⟨h.nodup_new hc hnew rfl, fun id hin => ?_, fun d hd => Nat.lt_succ_of_lt (h.rows d hd),
    fun id hset => Nat.lt_succ_of_lt (h.settled id hset), h.silent, fun id hset hin => ?_,
    fun id hset => ?_⟩
  · rcases mem_gather_replace hin with hin | hin
    · rw [List.mem_singleton.mp hin]
      exact hid ▸ Nat.lt_succ_self _
    · exact Nat.lt_succ_of_lt (h.fresh id hin)
  · rcases mem_gather_replace hin with hin | hin
    · have hlt := h.settled id hset
      rw [List.mem_singleton.mp hin, hid] at hlt
      exact Nat.lt_irrefl _ hlt
    · exact h.held id hset hin
  · exact (h.saved id hset).imp_left fun hin =>
      gather_subset_replace (hun ▸ List.nil_subset _) hin

/-- The POST of a call that works on its delivery alone. -/
theorem Inv.send {a : Attempt} (h : Inv s (pre ++ .running (.posting a) :: post)) :
    Inv (s.record (.post (s.post a)))
      (pre ++ .running (.posted { a with posts := a.posts + 1 }) :: post) := by
  have hstay : Inv s (pre ++ .running (.posted { a with posts := a.posts + 1 }) :: post) :=
    h.stay (.inl rfl) (List.Subset.refl _) (List.Subset.refl _)
  exact { hstay with silent := ⟨h.not_settled (.head _), h.silent⟩ }

theorem unaccepted_subset (c : Call) : c.unaccepted ⊆ c.deliveryIds := by
  cases c with
  | answered a status =>
    show (if isOk status then [] else [a.delivery.id]) ⊆ _
    split
    · exact List.nil_subset _
    · exact List.Subset.refl _
  | succeeding a | counting a => exact List.nil_subset _
  | _ => exact List.Subset.refl _

theorem unsaved_subset (c : Call) : c.unsaved ⊆ c.deliveryIds := by
  cases c with
  | answered a status =>
    show (if isOk status then [a.delivery.id] else []) ⊆ _
    split
    · exact List.Subset.refl _
    · exact List.nil_subset _
  | succeeding a => exact List.Subset.refl _
  | _ => exact List.nil_subset _

theorem Inv.accept {a : Attempt} {status : Nat} (h : Inv s (pre ++ .running (.posted a) :: post))
    (hok : isOk status = true) :
    Inv (s.record (.accepted a.delivery.id)) (pre ++ .running (.answered a status) :: post) := by
  have hmem : a.delivery.id ∈ gather Call.deliveryIds (pre ++ .running (.posted a) :: post) :=
    mem_gather_here (.head _)
  have hacc : Call.unaccepted (.answered a status) = [] := if_pos hok
  have hun : Call.unsaved (.answered a status) = [a.delivery.id] := if_pos hok
  have hstay : Inv s (pre ++ .running (.answered a status) :: post) :=
    h.stay (.inl rfl) (by simp [Task.gather, hacc]) (by simp [Call.unsaved])
  refine { hstay with settled := fun id hset => ?_, held := fun id hset => ?_, saved := fun id hset => ?_ }
  · rcases hset with rfl | hset
    · exact h.fresh _ hmem
    · exact h.settled id hset
  · rcases hset with rfl | hset
    · intro hin
      rcases mem_gather_split.mp hin with hin | hin
      · rw [Task.gather, hacc] at hin
        cases hin
      · have hother : ∃ k, (.running k ∈ pre ∨ .running k ∈ post) ∧ a.delivery.id ∈ k.unaccepted := by
          rcases hin with hin | hin
          · obtain ⟨k, hk, hin⟩ := exists_of_mem_gather hin
            exact ⟨k, .inl hk, hin⟩
          · obtain ⟨k, hk, hin⟩ := exists_of_mem_gather hin
            exact ⟨k, .inr hk, hin⟩
        obtain ⟨k, hk, hin⟩ := hother
        exact not_mem_of_nodup_gather h.nodup hk (.head _) (unaccepted_subset k hin)
    · exact hstay.held id hset
  · rcases hset with rfl | hset
    · exact .inl (mem_gather_here (hun ▸ .head _))
    · exact hstay.saved id hset

/-- `retryDelivery` is called for a delivery that no call works on. -/
theorem Inv.retry {deliveryId : Uuid} (h : Inv s (pre ++ .running c :: post)) (hc : c.deliveryIds = [])
    (hun : c.unsaved = []) (hnew : deliveryId ∉ gather Call.deliveryIds (pre ++ .running c :: post))
    (ht : t.gather Call.deliveryIds = [] ∨ t.gather Call.deliveryIds = [deliveryId] ∧
      deliveryId < s.nextId) (hacc : t.gather Call.unaccepted ⊆ [deliveryId]) :
    Inv (s.record (.retryDelivery deliveryId)) (pre ++ t :: post) := by
  refine ⟨?_, fun id hin => ?_, h.rows, fun id hset => h.settled id hset.2, h.silent,
    fun id hset hin => ?_, fun id hset => ?_⟩
  · rcases ht with ht | ⟨ht, -⟩
    · exact h.nodup_of (.inr ht)
    · exact h.nodup_new hc hnew ht
  · rcases mem_gather_replace hin with hin | hin
    · rcases ht with ht | ⟨ht, hlt⟩
      · rw [ht] at hin
        cases hin
      · rw [ht] at hin
        rw [List.mem_singleton.mp hin]
        exact hlt
    · exact h.fresh id hin
  · rcases mem_gather_replace hin with hin | hin
    · exact hset.1 (List.mem_singleton.mp (hacc hin)).symm
    · exact h.held id hset.2 hin
  · exact (h.saved id hset.2).imp_left fun hin =>
      gather_subset_replace (hun ▸ List.nil_subset _) hin

theorem Inv.spawn {ts : List CallTask} (h : Inv s ts) (hc : c.deliveryIds = []) :
    Inv s (ts ++ [Task.running c]) := by
  have hacc : c.unaccepted = [] := List.subset_nil.mp (hc ▸ unaccepted_subset c)
  have hun : c.unsaved = [] := List.subset_nil.mp (hc ▸ unsaved_subset c)
  refine { h with nodup := ?_, fresh := ?_, held := ?_, saved := ?_ }
  · rw [gather_spawn hc]
    exact h.nodup
  · rw [gather_spawn hc]
    exact h.fresh
  · rw [gather_spawn hacc]
    exact h.held
  · rw [gather_spawn hun]
    exact h.saved

/-- The table of the subscriptions does not matter. -/
theorem Inv.subscriptions {ts : List CallTask} (h : Inv s ts) (hrows : s'.deliveries = s.deliveries)
    (hnext : s'.nextId = s.nextId) (hlog : s'.log = s.log) : Inv s' ts := by
  cases s
  cases s'
  cases hrows
  cases hnext
  cases hlog
  exact { h with }

theorem Inv.update {ts : List CallTask} (h : Inv s ts) (id : Uuid)
    (set : WebhookSubscription → WebhookSubscription) : Inv (s.update id set) ts :=
  h.subscriptions (by simp) (by simp) (by simp)

/-- The success of an accepted delivery is saved. -/
theorem Inv.succeed {a : Attempt} (hstatus : a.delivery.status = .success)
    (h : Inv s (pre ++ .running (.succeeding a) :: post)) :
    Inv (s.save a.delivery) (pre ++ .running (.counting a) :: post) := by
  refine h.move rfl rfl (fun d hd => ?_) (.inl rfl) (List.Subset.refl _) (fun id hs => ?_)
    fun id hid => ?_
  · rcases mem_upsert hd with rfl | hd
    · exact h.fresh _ (mem_gather_here (.head _))
    · exact h.rows d hd
  · rw [State.status_save, hstatus]
    exact .inl (ite_eq_left_iff.mpr fun _ => hs)
  · rw [State.status_save, hstatus, if_pos (List.mem_singleton.mp hid).symm]
    exact .inr rfl

/-- A failed attempt works on its delivery still. -/
theorem Inv.fail {a : Attempt} {message : String} (h : Inv s (pre ++ .running c :: post))
    (hids : c.deliveryIds = [a.delivery.id]) (hc : c.unaccepted = [a.delivery.id])
    (hun : c.unsaved = []) : Inv s (pre ++ .running (a.failed message) :: post) := by
  have hfailed : (a.failed message).deliveryIds = [a.delivery.id] ∧
      (a.failed message).unaccepted = [a.delivery.id] := by
    unfold Attempt.failed
    dsimp only
    split <;> exact ⟨rfl, rfl⟩
  refine h.stay (.inl (hfailed.1.trans hids.symm)) ?_ (by simp [hun])
  rw [Task.gather, hfailed.2, hc]
  exact List.Subset.refl _

theorem adv_inv {e : Env} (hok : Undisturbed e c s (pre ++ .running c :: post)) (hc : c.Consistent)
    (h : Inv s (pre ++ .running c :: post)) :
    Inv (adv rt e c s).1 (pre ++ (adv rt e c s).2 :: post) := by
  cases c with
  | deliverEvent subscriptionId eventType payload eventId timestamp =>
    simp only [adv]
    split
    · exact h.leave rfl rfl rfl
    · split
      · exact h.leave rfl rfl rfl
      · rename_i hnew
        exact h.sign rfl rfl (newDelivery_spec hnew).1
  | posting a => exact h.send
  | posted a =>
    simp only [adv]
    split
    · exact h.fail rfl rfl rfl
    · split
      · exact h.accept ‹_›
      · rename_i hnot
        refine h.stay (.inl rfl) ?_ (List.nil_subset _)
        rw [Task.gather, Call.unaccepted, if_neg hnot]
        exact List.Subset.refl _
  | answered a status =>
    simp only [adv]
    cases hstatus : isOk status with
    | true =>
      rw [hok hstatus]
      dsimp only
      rw [Attempt.read, if_pos hstatus]
      refine h.stay (.inl rfl) (List.nil_subset _) ?_
      rw [Call.unsaved, if_pos hstatus]
      exact List.Subset.refl _
    | false =>
      have hnot : ¬ isOk status = true := by simp [hstatus]
      have hopen : (Call.answered a status).unaccepted = [a.delivery.id] := if_neg hnot
      have hun : (Call.answered a status).unsaved = [] := if_neg hnot
      split
      · exact h.fail rfl hopen hun
      · rw [Attempt.read, if_neg hnot]
        exact h.fail rfl hopen hun
  | succeeding a =>
    have hnone : e.error = none := hok
    simp only [adv, hnone]
    exact h.succeed hc.2.2
  | counting a =>
    have hnone : e.error = none := hok
    simp only [adv, hnone]
    exact (h.stay (.inr rfl) (List.nil_subset _) (List.Subset.refl _)).update _ _
  | saving a =>
    simp only [adv]
    split
    · exact h.fail rfl rfl rfl
    · exact h.save rfl rfl rfl rfl (List.Subset.refl _)
  | creating a | rescheduling a | givingUp a | resetting a =>
    simp only [adv]
    split
    · exact h.leave rfl rfl rfl
    · exact h.save rfl rfl rfl rfl (List.Subset.refl _)
  | waiting a => exact h.stay (.inl rfl) (List.Subset.refl _) (List.Subset.refl _)
  | countingFailure a =>
    simp only [adv]
    split
    · exact h.leave rfl rfl rfl
    · exact (h.leave rfl rfl rfl).update _ _
  | retryDelivery deliveryId subscriptionId =>
    simp only [adv]
    split
    · exact h.retry rfl rfl hok (.inl rfl) (List.nil_subset _)
    · rename_i row hrow
      obtain rfl : row.id = deliveryId := lookup_key hrow
      exact h.retry rfl rfl hok (.inr ⟨rfl, h.rows row (mem_of_lookup hrow)⟩) (List.Subset.refl _)
  | found delivery subscriptionId =>
    simp only [adv]
    split
    · exact h.leave rfl rfl rfl
    · exact h.stay (.inl rfl) (List.Subset.refl _) (List.Subset.refl _)
  | rotateSecret id =>
    simp only [adv]
    split <;> exact h.leave rfl rfl rfl
  | rotating subscription =>
    simp only [adv]
    split
    · exact h.leave rfl rfl rfl
    · exact (h.leave rfl rfl rfl).subscriptions rfl rfl rfl

end Inv

/-! ## Every interleaving -/

section Runs

variable {rt : Runtime}

/-- What holds in every run that meets the condition. -/
structure Kept (s : State) (ts : List CallTask) : Prop where
  consistent : ∀ t ∈ ts, Consistent t
  inv : Inv s ts

theorem Kept.once {c : Conf State Call Ended} (h : Kept c.shared c.tasks) : DeliveredOnce c := by
  refine ⟨h.inv.silent, fun id hset hfree => ?_, fun t ht => (h.consistent t ht).chain⟩
  refine (h.inv.saved id hset).resolve_left fun hun => hfree ?_
  obtain ⟨k, hk, hid⟩ := exists_of_mem_gather hun
  exact List.mem_flatMap.mpr ⟨_, hk, unsaved_subset k hid⟩

theorem consistent_spawn {ts : List CallTask} (op : CallOp) (h : ∀ t ∈ ts, Consistent t) :
    ∀ t ∈ ts ++ [Task.running (Call.start op)], Consistent t := by
  intro t ht
  rcases List.mem_append.mp ht with ht | ht
  · exact h t ht
  · rw [List.mem_singleton.mp ht]
    cases op <;> trivial

theorem consistent_adv {e : Env} {s : State} {pre post : List CallTask} {c : Call}
    (h : ∀ t ∈ pre ++ .running c :: post, Consistent t) :
    ∀ t ∈ pre ++ (adv rt e c s).2 :: post, Consistent t :=
  forall_replace h (fun _ ht => ht) (adv_consistent (h _ (by simp)))

/-- In every run a chain makes at most `maxRetries + 1` POSTs. -/
theorem chains_bounded (rt : Runtime) (subscriptions : List WebhookSubscription)
    (acts : List (Act Env CallOp)) :
    ∀ t ∈ (run (calls rt).step (.init (.start subscriptions)) acts).tasks,
      (chain t).posts ≤ (chain t).maxRetries + 1 := by
  have hall : ∀ t ∈ (run (calls rt).step (.init (.start subscriptions)) acts).tasks, Consistent t :=
    run_inv (I := fun c => ∀ t ∈ c.tasks, Consistent t) (G := fun _ _ => True)
      (fun c a h _ => step_inv (calls rt) (I := fun _ ts => ∀ t ∈ ts, Consistent t)
        (fun _ _ op _ => consistent_spawn op) (fun _ _ _ _ _ _ => consistent_adv) c a h (meets_true c a))
      (List.forall_mem_nil _) along_true
  exact fun t ht => (hall t ht).chain

theorem step_kept (c : Conf State Call Ended) (a : Act Env CallOp) (h : Kept c.shared c.tasks)
    (hok : UndisturbedStep c a) :
    Kept ((calls rt).step c a).shared ((calls rt).step c a).tasks := by
  refine step_inv (calls rt) (fun s ts op _ h => ?_) (fun s pre k post e hok h => ?_) c a h hok
  · refine ⟨consistent_spawn op h.consistent, ?_⟩
    cases op <;> exact h.inv.spawn rfl
  · exact ⟨consistent_adv h.consistent, adv_inv hok (h.consistent (.running k) (by simp)) h.inv⟩

theorem kept_start (subscriptions : List WebhookSubscription) : Kept (.start subscriptions) [] where
  consistent := List.forall_mem_nil _
  inv := ⟨.nil, List.forall_mem_nil _, List.forall_mem_nil _, fun _ h => h.elim, trivial,
    fun _ h => h.elim, fun _ h => h.elim⟩

/-- **In every run in which nothing fails behind an accepted POST and `retryDelivery` is called for
deliveries that no chain works on, an accepted delivery is not sent again and ends as SUCCESS.** -/
theorem delivered_once (rt : Runtime) (subscriptions : List WebhookSubscription)
    {acts : List (Act Env CallOp)}
    (hok : Along (calls rt).step UndisturbedStep (.init (.start subscriptions)) acts) :
    Always (calls rt).step DeliveredOnce (.init (.start subscriptions)) acts :=
  always_of_inv (I := fun c => Kept c.shared c.tasks) (fun _ h => h.once) step_kept
    (kept_start subscriptions) hok

/-- The second attempt is accepted, saved and counted; then the delivery is retried by hand. -/
def acceptedTwice : List (Act Env CallOp) :=
  delivered unavailable ++ List.replicate 8 (Act.sched 0 fine) ++
    ([.spawn (.retryDelivery 0 7)] : List (Act Env CallOp)) ++ List.replicate 9 (Act.sched 1 fine)

theorem acceptedTwice_once :
    Along (calls runtime).step UndisturbedStep (begun none 1) acceptedTwice ∧
      Always (calls runtime).step DeliveredOnce (begun none 1) acceptedTwice ∧
      (run (calls runtime).step (begun none 1) acceptedTwice).shared.status 0 = some .success := by
  have hok : Along (calls runtime).step UndisturbedStep (begun none 1) acceptedTwice := by
    decide +kernel
  exact ⟨hok, delivered_once runtime _ hok, by decide +kernel⟩

def unsaved : Env := ⟨some "connection lost", 0, ""⟩

/-- The POST is accepted, its success is not saved, and the timer of the next attempt goes off. -/
def acceptedNotSaved : List (Act Env CallOp) := delivered fine ++ [Act.sched 0 unsaved] ++ again

/-- The POST is accepted and its success saved, but not counted. -/
def acceptedNotCounted : List (Act Env CallOp) :=
  delivered fine ++
    ([.sched 0 fine, .sched 0 unsaved, .sched 0 fine, .sched 0 fine] : List (Act Env CallOp))

/-- A manual retry is accepted while the timer of the first chain runs. -/
def twoChains : List (Act Env CallOp) :=
  delivered unavailable ++
    ([.sched 0 fine, .spawn (.retryDelivery 0 7)] : List (Act Env CallOp)) ++
    List.replicate 9 (Act.sched 1 fine) ++ List.replicate 3 (Act.sched 0 fine)

theorem not_once_of_sent {c : Conf State Call Ended} (h : ¬ Silent c.shared.log) : ¬ DeliveredOnce c :=
  fun hc => h hc.silent

theorem not_once_of_status (id : Uuid) {c : Conf State Call Ended} (hset : Settled id c.shared.log)
    (hfree : id ∉ gather Call.deliveryIds c.tasks) (h : c.shared.status id ≠ some .success) :
    ¬ DeliveredOnce c :=
  fun hc => h (hc.success id hset hfree)

theorem accepted_not_final :
    ¬ DeliveredOnce (run (calls runtime).step (begun none 1) acceptedNotSaved) ∧
      ¬ DeliveredOnce (run (calls runtime).step (begun none 0) acceptedNotCounted) ∧
      ¬ DeliveredOnce (run (calls runtime).step (begun none 1) twoChains) := by
  refine ⟨not_once_of_sent ?_, not_once_of_status 0 ?_ ?_ ?_, not_once_of_sent ?_⟩
  · decide +kernel
  · decide +kernel
  · decide +kernel
  · decide +kernel
  · decide +kernel

end Runs

end Webhook
end TradeCore
