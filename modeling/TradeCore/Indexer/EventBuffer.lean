import TradeCore.Common
import TradeCore.Lib.Run
import TradeCore.Lib.SortedIndex

/-!
# TradeCore.Indexer.EventBuffer

`EventBufferService`: the buffer between the normalizer and the persistence layer.

The service keeps a `Map` from sequence number to event and, beside it, the array `sequenceOrder`
of its keys. A `Map` is the list of its entries in insertion order. Sequence numbers are JavaScript
numbers other than `NaN`; all the service does with them is compare them, so the model is over any
linear order. `maxBufferSize` and the arguments of `drain` and `peek` are what `parseInt` can
return, negative numbers included.

`ordered_of_run` is the main result: whatever has been pushed, drained and evicted, the array is
the index of the map, and `drain` takes the smallest sequence numbers in ascending order.
-/

namespace TradeCore
namespace Indexer

open Lib

structure BufferedEvent (κ α : Type) where
  sequenceNumber : κ
  /-- Ledger, event type, timestamp and data: nothing in the buffer reads them. -/
  payload : α
  /-- Zero when the caller has not set it. -/
  bufferedAt : Time
  deriving DecidableEq, Repr

structure BufferConfig where
  maxBufferSize : Int
  eventTtlMs : Int

structure BufferStats where
  totalReceived : Nat
  totalDuplicates : Nat
  totalExpired : Nat
  deriving DecidableEq, Repr

structure EventBuffer (κ α : Type) where
  buffer : List (κ × BufferedEvent κ α)
  sequenceOrder : List κ
  stats : BufferStats
  deriving DecidableEq, Repr

section

variable {κ α : Type} [LinearOrder κ]

namespace EventBuffer

def empty : EventBuffer κ α := ⟨[], [], ⟨0, 0, 0⟩⟩

def keys (s : EventBuffer κ α) : List κ := s.buffer.map Prod.fst

def delete (n : κ) (b : List (κ × BufferedEvent κ α)) : List (κ × BufferedEvent κ α) :=
  b.filter fun r => decide (r.1 ≠ n)

def evictOldest (s : EventBuffer κ α) : EventBuffer κ α :=
  match s.sequenceOrder with
  | [] => s
  | oldest :: rest => { s with buffer := delete oldest s.buffer, sequenceOrder := rest }

/-- The array is sorted only when the element just pushed is smaller than the one before it. -/
def sortPushed (order : List κ) : List κ :=
  match order.reverse with
  | last :: prev :: _ => if last < prev then order.insertionSort (· ≤ ·) else order
  | _ => order

/-- What `push` does with an event that is no duplicate, once there is room. -/
def insert (event : BufferedEvent κ α) (now : Time) (s : EventBuffer κ α) : EventBuffer κ α :=
  let event := if event.bufferedAt = 0 then { event with bufferedAt := now } else event
  { s with
    buffer := upsert Prod.fst (event.sequenceNumber, event) s.buffer
    sequenceOrder := sortPushed (s.sequenceOrder ++ [event.sequenceNumber]) }

def push (cfg : BufferConfig) (now : Time) (event : BufferedEvent κ α) (s : EventBuffer κ α) :
    Bool × EventBuffer κ α :=
  let s := { s with stats := { s.stats with totalReceived := s.stats.totalReceived + 1 } }
  if event.sequenceNumber ∈ s.keys then
    (false, { s with stats := { s.stats with totalDuplicates := s.stats.totalDuplicates + 1 } })
  else
    let s := if cfg.maxBufferSize ≤ s.buffer.length then s.evictOldest else s
    (true, s.insert event now)

/-- Every event comes with the time at which its turn in the loop comes. -/
def pushBatch (cfg : BufferConfig) : List (BufferedEvent κ α × Time) → EventBuffer κ α →
    Nat × EventBuffer κ α
  | [], s => (0, s)
  | (event, now) :: events, s =>
    let (accepted, s) := push cfg now event s
    let (n, s) := pushBatch cfg events s
    (if accepted then n + 1 else n, s)

/-- The loop of `drain` over the spliced sequence numbers. -/
def take : List κ → List (κ × BufferedEvent κ α) →
    List (BufferedEvent κ α) × List (κ × BufferedEvent κ α)
  | [], b => ([], b)
  | seq :: sequences, b =>
    match lookup Prod.fst seq b with
    | some r =>
      let (events, b) := take sequences (delete seq b)
      (r.2 :: events, b)
    | none => take sequences b

/-- `splice` takes a negative count for zero. -/
def drain (maxCount : Int) (s : EventBuffer κ α) : List (BufferedEvent κ α) × EventBuffer κ α :=
  let count := (min maxCount s.sequenceOrder.length).toNat
  let (events, buffer) := take (s.sequenceOrder.take count) s.buffer
  (events, { s with buffer := buffer, sequenceOrder := s.sequenceOrder.drop count })

/-- `slice(0, count)` counts a negative `count` from the end. -/
def peek (count : Int) (s : EventBuffer κ α) : List (BufferedEvent κ α) :=
  let stop := if count < 0 then (s.sequenceOrder.length + count).toNat else count.toNat
  (s.sequenceOrder.take stop).filterMap fun seq => (lookup Prod.fst seq s.buffer).map Prod.snd

def expired (cfg : BufferConfig) (now : Time) (event : BufferedEvent κ α) : Bool :=
  decide (cfg.eventTtlMs < now - event.bufferedAt)

def evictExpired (cfg : BufferConfig) (now : Time) (s : EventBuffer κ α) : EventBuffer κ α :=
  let evicted := s.buffer.countP fun r => expired cfg now r.2
  let buffer := s.buffer.filter fun r => !expired cfg now r.2
  if 0 < evicted then
    { buffer := buffer
      sequenceOrder := (buffer.map Prod.fst).insertionSort (· ≤ ·)
      stats := { s.stats with totalExpired := s.stats.totalExpired + evicted } }
  else { s with buffer := buffer }

end EventBuffer

/-- One call of the service; `evictExpired` is also what the cleanup timer runs. -/
inductive BufferOp (κ α : Type) where
  | push (event : BufferedEvent κ α) (now : Time)
  | pushBatch (events : List (BufferedEvent κ α × Time))
  | drain (maxCount : Int)
  | peek (count : Int)
  | evictExpired (now : Time)

def bufferStep (cfg : BufferConfig) (s : EventBuffer κ α) : BufferOp κ α → EventBuffer κ α
  | .push event now => (s.push cfg now event).2
  | .pushBatch events => (EventBuffer.pushBatch cfg events s).2
  | .drain maxCount => (s.drain maxCount).2
  | .peek _ => s
  | .evictExpired now => s.evictExpired cfg now

/-! ## The array is the index of the map -/

/-- What every reachable state satisfies. -/
structure EventBuffer.Ordered (cfg : BufferConfig) (s : EventBuffer κ α) : Prop where
  indexes : Indexes Prod.fst s.sequenceOrder s.buffer
  own : ∀ r ∈ s.buffer, r.2.sequenceNumber = r.1
  bounded : (s.buffer.length : Int) ≤ max 1 cfg.maxBufferSize

/-- What a call of `drain` with `k` owes its caller. -/
structure DrainsSmallest (k : Int) (s : EventBuffer κ α)
    (out : List (BufferedEvent κ α) × EventBuffer κ α) : Prop where
  length : out.1.length = (min k s.buffer.length).toNat
  ascending : out.1.Pairwise fun a b => a.sequenceNumber < b.sequenceNumber
  buffered : ∀ e ∈ out.1, (e.sequenceNumber, e) ∈ s.buffer
  smallest : ∀ e ∈ out.1, ∀ n ∈ out.2.keys, e.sequenceNumber < n
  removed : out.2.buffer
    = s.buffer.filter fun r => decide (r.1 ∉ out.1.map BufferedEvent.sequenceNumber)

namespace EventBuffer

/-- The last two elements of a sorted array with one element pushed decide whether the element is
in place: the one before it is the largest of the rest. -/
theorem indexes_sortPushed {t : List (κ × BufferedEvent κ α)} {order : List κ}
    (h : Indexes Prod.fst order t) {r : κ × BufferedEvent κ α} (hr : r.1 ∉ order) :
    Indexes Prod.fst (sortPushed (order ++ [r.1])) (t ++ [r]) := by
  simp only [sortPushed, List.reverse_append, List.reverse_singleton, List.singleton_append]
  cases hrev : order.reverse with
  | nil =>
    have : order = [] := by simpa using hrev
    subst this
    exact h.append (by simp)
  | cons prev rest =>
    have hord : order = rest.reverse ++ [prev] := by
      rw [← List.reverse_reverse order, hrev, List.reverse_cons]
    dsimp only
    split
    · exact h.append_sort hr
    · rename_i hlt
      have hprev : prev < r.1 := by
        refine lt_of_le_of_ne (not_lt.mp hlt) ?_
        rintro rfl
        exact hr (by simp [hord])
      have hasc := h.ascending
      rw [hord, List.pairwise_append] at hasc
      refine h.append fun k hk => ?_
      rw [hord, List.mem_append, List.mem_singleton] at hk
      rcases hk with hk | rfl
      · exact (hasc.2.2 k hk prev (by simp)).trans hprev
      · exact hprev

theorem evictOldest_cases (s : EventBuffer κ α) :
    s.sequenceOrder = [] ∧ s.evictOldest = s ∨
    ∃ oldest rest, s.sequenceOrder = oldest :: rest ∧
      s.evictOldest = { s with buffer := delete oldest s.buffer, sequenceOrder := rest } := by
  unfold evictOldest
  split
  · rename_i h
    exact .inl ⟨h, rfl⟩
  · rename_i oldest rest h
    exact .inr ⟨oldest, rest, h, rfl⟩

theorem evictOldest_spec {s : EventBuffer κ α} (h : Indexes Prod.fst s.sequenceOrder s.buffer) :
    Indexes Prod.fst s.evictOldest.sequenceOrder s.evictOldest.buffer ∧
      s.evictOldest.buffer ⊆ s.buffer ∧ s.evictOldest.buffer.length = s.buffer.length - 1 := by
  rcases evictOldest_cases s with ⟨hnil, he⟩ | ⟨oldest, rest, hcons, he⟩
  · rw [he]
    have := h.length_eq
    simp only [hnil, List.length_nil] at this
    exact ⟨h, fun _ hr => hr, by omega⟩
  · rw [he]
    have ht : Indexes Prod.fst rest (delete oldest s.buffer) := (hcons ▸ h).tail
    have hl := h.length_eq
    have hl' := ht.length_eq
    simp only [hcons, List.length_cons] at hl
    exact ⟨ht, List.filter_subset_self _, by dsimp only; omega⟩

/-- The event goes in at the end of the map, with the time if it had none. -/
theorem insert_eq (s : EventBuffer κ α) {event : BufferedEvent κ α} (now : Time)
    (hn : event.sequenceNumber ∉ s.keys) :
    ∃ event' : BufferedEvent κ α, event'.sequenceNumber = event.sequenceNumber ∧
      event'.payload = event.payload ∧ s.insert event now = { s with
        buffer := s.buffer ++ [(event'.sequenceNumber, event')]
        sequenceOrder := sortPushed (s.sequenceOrder ++ [event'.sequenceNumber]) } := by
  obtain ⟨event', hseq, hpay, hins⟩ : ∃ event' : BufferedEvent κ α,
      event'.sequenceNumber = event.sequenceNumber ∧ event'.payload = event.payload ∧
      s.insert event now = { s with
        buffer := upsert Prod.fst (event'.sequenceNumber, event') s.buffer
        sequenceOrder := sortPushed (s.sequenceOrder ++ [event'.sequenceNumber]) } := by
    refine ⟨_, ?_, ?_, rfl⟩
    · split <;> rfl
    · split <;> rfl
  refine ⟨event', hseq, hpay, ?_⟩
  rw [← hseq] at hn
  rw [hins, upsert_of_not_mem hn]

theorem insert_spec {s : EventBuffer κ α} (h : Indexes Prod.fst s.sequenceOrder s.buffer)
    (own : ∀ r ∈ s.buffer, r.2.sequenceNumber = r.1) {event : BufferedEvent κ α} (now : Time)
    (hn : event.sequenceNumber ∉ s.keys) :
    Indexes Prod.fst (s.insert event now).sequenceOrder (s.insert event now).buffer ∧
      (∀ r ∈ (s.insert event now).buffer, r.2.sequenceNumber = r.1) ∧
      (s.insert event now).buffer.length = s.buffer.length + 1 := by
  obtain ⟨event', hseq, -, hins⟩ := insert_eq s now hn
  rw [← hseq] at hn
  rw [hins]
  refine ⟨indexes_sortPushed (r := (event'.sequenceNumber, event')) h
    fun hm => hn (h.mem_iff.mp hm), ?_, by simp⟩
  intro r hr
  rcases List.mem_append.mp hr with hr | hr
  · exact own r hr
  · rw [List.mem_singleton.mp hr]

theorem push_of_mem (cfg : BufferConfig) (now : Time) {event : BufferedEvent κ α}
    {s : EventBuffer κ α} (h : event.sequenceNumber ∈ s.keys) :
    s.push cfg now event = (false, { s with stats := { s.stats with
      totalReceived := s.stats.totalReceived + 1
      totalDuplicates := s.stats.totalDuplicates + 1 } }) := by
  exact if_pos h

theorem push_of_not_mem (cfg : BufferConfig) (now : Time) {event : BufferedEvent κ α}
    {s : EventBuffer κ α} (h : event.sequenceNumber ∉ s.keys) :
    ∃ st, s.push cfg now event = (true, EventBuffer.insert event now
      (if cfg.maxBufferSize ≤ s.buffer.length then evictOldest { s with stats := st }
        else { s with stats := st })) :=
  ⟨_, if_neg h⟩

theorem push_ordered {cfg : BufferConfig} {s : EventBuffer κ α} (h : s.Ordered cfg)
    (event : BufferedEvent κ α) (now : Time) : (s.push cfg now event).2.Ordered cfg := by
  by_cases hm : event.sequenceNumber ∈ s.keys
  · rw [push_of_mem cfg now hm]
    exact ⟨h.indexes, h.own, h.bounded⟩
  · obtain ⟨st, hpush⟩ := push_of_not_mem cfg now hm
    rw [hpush]
    split
    · -- the buffer is full: one event leaves before the new one enters
      obtain ⟨hi, hsub, hlen⟩ := evictOldest_spec (s := { s with stats := st }) h.indexes
      have hown : ∀ r ∈ ({ s with stats := st } : EventBuffer κ α).evictOldest.buffer,
          r.2.sequenceNumber = r.1 := fun r hr => h.own r (hsub hr)
      have hnot : event.sequenceNumber ∉ ({ s with stats := st } : EventBuffer κ α).evictOldest.keys :=
        fun hk => hm (List.map_subset _ hsub hk)
      obtain ⟨hi', hown', hlen'⟩ := insert_spec hi hown now hnot
      refine ⟨hi', hown', ?_⟩
      have := h.bounded
      dsimp only at hlen hlen' ⊢
      omega
    · rename_i hroom
      obtain ⟨hi', hown', hlen'⟩ := insert_spec (s := { s with stats := st }) h.indexes h.own now hm
      refine ⟨hi', hown', ?_⟩
      dsimp only at hlen' ⊢
      omega

theorem pushBatch_ordered {cfg : BufferConfig} {s : EventBuffer κ α} (h : s.Ordered cfg)
    (events : List (BufferedEvent κ α × Time)) : (pushBatch cfg events s).2.Ordered cfg := by
  induction events generalizing s with
  | nil => exact h
  | cons e events ih => exact ih (push_ordered h e.1 e.2)

theorem evictExpired_ordered {cfg : BufferConfig} {s : EventBuffer κ α} (h : s.Ordered cfg)
    (now : Time) : (s.evictExpired cfg now).Ordered cfg := by
  have hsub : (s.buffer.filter fun r => !expired cfg now r.2).Sublist s.buffer := List.filter_sublist
  have hlen := hsub.length_le
  have hb := h.bounded
  simp only [evictExpired]
  split
  · refine ⟨Indexes.of_sort (h.indexes.nodup.sublist (hsub.map _)), ?_, by dsimp only; omega⟩
    exact fun r hr => h.own r (hsub.subset hr)
  · -- nothing has expired, so the map is as it was and the array is left alone
    rename_i hnone
    have hself : (s.buffer.filter fun r => !expired cfg now r.2) = s.buffer := by
      rw [List.filter_eq_self]
      intro r hr
      have := List.countP_eq_zero.mp (Nat.eq_zero_of_not_pos hnone) r hr
      simpa using this
    rw [hself]
    exact ⟨h.indexes, h.own, hb⟩

theorem take_spec {sequences order : List κ} {b : List (κ × BufferedEvent κ α)}
    (h : Indexes Prod.fst (sequences ++ order) b) (own : ∀ r ∈ b, r.2.sequenceNumber = r.1) :
    (take sequences b).1.map BufferedEvent.sequenceNumber = sequences ∧
      (∀ e ∈ (take sequences b).1, (e.sequenceNumber, e) ∈ b) ∧
      (take sequences b).2 = (b.filter fun r => decide (r.1 ∉ sequences)) ∧
      Indexes Prod.fst order (take sequences b).2 := by
  induction sequences generalizing b with
  | nil =>
    refine ⟨rfl, by simp [take], ?_, h⟩
    rw [take, List.filter_eq_self.mpr (by simp)]
  | cons seq sequences ih =>
    obtain ⟨r, hr, hrk, hlook⟩ := h.exists_row (k := seq) (by simp)
    have htail : Indexes Prod.fst (sequences ++ order) (delete seq b) := Indexes.tail h
    have hsub : delete seq b ⊆ b := List.filter_subset_self _
    obtain ⟨hmap, hbuf, hrest, hidx⟩ := ih htail fun r hr => own r (hsub hr)
    have hown := own r hr
    rw [hrk] at hown
    simp only [take, hlook]
    refine ⟨by rw [List.map_cons, hmap, hown], ?_, ?_, hidx⟩
    · intro e he
      rcases List.mem_cons.mp he with rfl | he
      · rw [hown, ← hrk]
        exact hr
      · exact hsub (hbuf e he)
    · rw [hrest, delete, List.filter_filter]
      refine List.filter_congr fun x _ => ?_
      simp [Bool.and_comm]

theorem drain_spec {cfg : BufferConfig} {s : EventBuffer κ α} (h : s.Ordered cfg) (k : Int) :
    DrainsSmallest k s (s.drain k) ∧ (s.drain k).2.Ordered cfg := by
  obtain ⟨count, hcount⟩ : ∃ n, n = (min k s.sequenceOrder.length).toNat := ⟨_, rfl⟩
  have hdrain : s.drain k = ((take (s.sequenceOrder.take count) s.buffer).1,
      { s with buffer := (take (s.sequenceOrder.take count) s.buffer).2
               sequenceOrder := s.sequenceOrder.drop count }) := by
    rw [hcount]
    rfl
  have hsplit : Indexes Prod.fst (s.sequenceOrder.take count ++ s.sequenceOrder.drop count) s.buffer := by
    rw [List.take_append_drop]
    exact h.indexes
  obtain ⟨hmap, hbuf, hrest, hidx⟩ := take_spec hsplit h.own
  have hlen : (s.sequenceOrder.take count).length = count := by
    rw [List.length_take]
    omega
  have hasc := List.pairwise_append.mp hsplit.ascending
  have hsub : (take (s.sequenceOrder.take count) s.buffer).2 ⊆ s.buffer := by
    rw [hrest]
    exact List.filter_subset_self _
  rw [hdrain]
  constructor
  · refine ⟨?_, ?_, hbuf, ?_, ?_⟩
    · rw [← List.length_map (f := BufferedEvent.sequenceNumber), hmap, hlen, hcount, h.indexes.length_eq]
    · have := hasc.1
      rw [← hmap, List.pairwise_map] at this
      exact this
    · intro e he n hn
      refine hasc.2.2 e.sequenceNumber ?_ n (hidx.mem_iff.mpr hn)
      rw [← hmap]
      exact List.mem_map_of_mem he
    · rw [hmap]
      exact hrest
  · refine ⟨hidx, fun r hr => h.own r (hsub hr), ?_⟩
    have hb := h.bounded
    have := hidx.length_eq
    have := h.indexes.length_eq
    rw [List.length_drop] at *
    dsimp only
    omega

/-! ### Filled and emptied in one go -/

theorem push_buffer (cfg : BufferConfig) (now : Time) (event : BufferedEvent κ α)
    (s : EventBuffer κ α) :
    event.sequenceNumber ∈ s.keys ∧ (s.push cfg now event).2.buffer = s.buffer ∨
    event.sequenceNumber ∉ s.keys ∧ (s.push cfg now event).1 = true ∧
      ∃ rest event', event'.sequenceNumber = event.sequenceNumber ∧ event'.payload = event.payload ∧
        (s.push cfg now event).2.buffer = rest ++ [(event'.sequenceNumber, event')] ∧ rest ⊆ s.buffer ∧
        (s.buffer.length < cfg.maxBufferSize ∨ s.sequenceOrder = [] → rest = s.buffer) := by
  by_cases hm : event.sequenceNumber ∈ s.keys
  · exact .inl ⟨hm, by rw [push_of_mem cfg now hm]⟩
  · obtain ⟨st, hpush⟩ := push_of_not_mem cfg now hm
    rw [hpush]
    refine .inr ⟨hm, rfl, ?_⟩
    split
    · rename_i hfull
      rcases evictOldest_cases { s with stats := st } with ⟨hnil, he⟩ | ⟨oldest, rest, hcons, he⟩
      · rw [he]
        obtain ⟨event', hseq, hpay, hins⟩ := insert_eq { s with stats := st } now hm
        exact ⟨_, event', hseq, hpay, by rw [hins], List.Subset.refl _, fun _ => rfl⟩
      · have hsub : delete oldest s.buffer ⊆ s.buffer := List.filter_subset_self _
        have hnot : event.sequenceNumber ∉ ({ s with stats := st } : EventBuffer κ α).evictOldest.keys := by
          rw [he]
          exact fun hk => hm (List.map_subset _ hsub hk)
        obtain ⟨event', hseq, hpay, hins⟩ := insert_eq _ now hnot
        refine ⟨_, event', hseq, hpay, by rw [hins], by rw [he]; exact hsub, ?_⟩
        rintro (hroom | hnil)
        · omega
        · dsimp only at hcons
          rw [hnil] at hcons
          cases hcons
    · obtain ⟨event', hseq, hpay, hins⟩ := insert_eq { s with stats := st } now hm
      exact ⟨_, event', hseq, hpay, by rw [hins], List.Subset.refl _, fun _ => rfl⟩

theorem mem_pushBatch {cfg : BufferConfig} {events : List (BufferedEvent κ α × Time)}
    {s : EventBuffer κ α} {r : κ × BufferedEvent κ α} (h : r ∈ (pushBatch cfg events s).2.buffer) :
    r ∈ s.buffer ∨ ∃ p ∈ events, r.2.payload = p.1.payload := by
  induction events generalizing s with
  | nil => exact .inl h
  | cons p events ih =>
    rcases ih (s := (s.push cfg p.2 p.1).2) h with h | ⟨p', hp', hpay⟩
    · rcases push_buffer cfg p.2 p.1 s with ⟨-, hb⟩ | ⟨-, -, rest, event', -, hpay, hb, hsub, -⟩
      · exact .inl (hb ▸ h)
      · rw [hb, List.mem_append, List.mem_singleton] at h
        rcases h with h | rfl
        · exact .inl (hsub h)
        · exact .inr ⟨p, by simp, hpay⟩
    · exact .inr ⟨p', by simp [hp'], hpay⟩

/-- New events for which there is room all go in. -/
theorem pushBatch_room {cfg : BufferConfig} (events : List (BufferedEvent κ α × Time))
    {s : EventBuffer κ α} (hs : s.Ordered cfg)
    (hnew : (s.keys ++ events.map fun p => p.1.sequenceNumber).Nodup)
    (hroom : ((s.buffer.length + events.length : Nat) : Int) ≤ max 1 cfg.maxBufferSize) :
    s.buffer ⊆ (pushBatch cfg events s).2.buffer ∧
      ∀ p ∈ events, ∃ r ∈ (pushBatch cfg events s).2.buffer, r.2.payload = p.1.payload := by
  induction events generalizing s with
  | nil => exact ⟨List.Subset.refl _, by simp⟩
  | cons p events ih =>
    have hnot : p.1.sequenceNumber ∉ s.keys := by
      rw [List.nodup_append] at hnew
      exact fun hm => hnew.2.2 _ hm _ (by simp) rfl
    rcases push_buffer cfg p.2 p.1 s with ⟨hm, -⟩ | ⟨-, -, rest, event', hseq, hpay, hb, -, hrest⟩
    · exact absurd hm hnot
    · have hrest : rest = s.buffer := by
        refine hrest ?_
        by_cases h0 : s.buffer.length = 0
        · have hlen := hs.indexes.length_eq
          exact .inr (List.eq_nil_of_length_eq_zero (by omega))
        · rw [List.length_cons] at hroom
          exact .inl (by omega)
      subst hrest
      have hkeys : (s.push cfg p.2 p.1).2.keys = s.keys ++ [p.1.sequenceNumber] := by
        simp [keys, hb, hseq]
      obtain ⟨hsub, hall⟩ := ih (s := (s.push cfg p.2 p.1).2) (push_ordered hs p.1 p.2)
        (by rw [hkeys]; simpa using hnew)
        (by rw [hb]; simp only [List.length_append, List.length_cons, List.length_nil] at hroom ⊢; omega)
      rw [hb] at hsub
      refine ⟨fun r hr => hsub (List.mem_append_left _ hr), ?_⟩
      intro p' hp'
      rcases List.mem_cons.mp hp' with rfl | hp'
      · exact ⟨(event'.sequenceNumber, event'), hsub (by simp), hpay⟩
      · exact hall p' hp'

theorem pushBatch_accepted (cfg : BufferConfig) {p : BufferedEvent κ α × Time}
    (events : List (BufferedEvent κ α × Time)) {s : EventBuffer κ α} (h : s.buffer = []) :
    0 < (pushBatch cfg (p :: events) s).1 := by
  have hnot : p.1.sequenceNumber ∉ s.keys := by simp [keys, h]
  obtain ⟨st, hpush⟩ := push_of_not_mem cfg p.2 hnot
  simp [pushBatch, hpush]

/-- `drain` of the whole buffer. -/
theorem drain_all {cfg : BufferConfig} {s : EventBuffer κ α} (h : s.Ordered cfg) :
    (s.drain s.buffer.length).2.buffer = [] ∧
      ∀ e, e ∈ (s.drain s.buffer.length).1 ↔ ∃ r ∈ s.buffer, r.2 = e := by
  obtain ⟨hd, hord⟩ := drain_spec h s.buffer.length
  have hempty : (s.drain s.buffer.length).2.buffer = [] := by
    have horder : (s.drain s.buffer.length).2.sequenceOrder = [] := by
      simp [drain, h.indexes.length_eq]
    have hlen := hord.indexes.length_eq
    rw [horder] at hlen
    exact List.eq_nil_of_length_eq_zero hlen.symm
  refine ⟨hempty, fun e => ⟨fun he => ⟨_, hd.buffered e he, rfl⟩, ?_⟩⟩
  rintro ⟨r, hr, rfl⟩
  -- a row that was not drained would still be in the map
  have hrem := hd.removed
  rw [hempty] at hrem
  have hr1 : r.1 ∈ (s.drain s.buffer.length).1.map BufferedEvent.sequenceNumber := by
    have := List.filter_eq_nil_iff.mp hrem.symm r hr
    simpa using this
  obtain ⟨e, he, hseq⟩ := List.mem_map.mp hr1
  have hsame : (e.sequenceNumber, e) = r :=
    List.inj_on_of_nodup_map h.indexes.nodup (hd.buffered e he) hr hseq
  rw [← hsame]
  exact he

end EventBuffer

theorem bufferStep_ordered {cfg : BufferConfig} {s : EventBuffer κ α} (h : s.Ordered cfg)
    (op : BufferOp κ α) : (bufferStep cfg s op).Ordered cfg := by
  cases op with
  | push event now => exact EventBuffer.push_ordered h event now
  | pushBatch events => exact EventBuffer.pushBatch_ordered h events
  | drain k => exact (EventBuffer.drain_spec h k).2
  | peek _ => exact h
  | evictExpired now => exact EventBuffer.evictExpired_ordered h now

theorem ordered_run (cfg : BufferConfig) (ops : List (BufferOp κ α)) :
    (run (bufferStep cfg) .empty ops).Ordered cfg := by
  refine run_inv (I := EventBuffer.Ordered cfg) (G := fun _ _ => True)
    (fun s op h _ => bufferStep_ordered h op) ⟨.nil, by simp [EventBuffer.empty], ?_⟩
    along_true
  simp only [EventBuffer.empty, List.length_nil]
  omega

/-- In every reachable state the array is the index of the map and within bounds, a duplicate only
moves the two counters of the statistics, and `drain` takes the smallest. -/
theorem ordered_of_run (cfg : BufferConfig) (ops : List (BufferOp κ α)) :
    let s : EventBuffer κ α := run (bufferStep cfg) .empty ops
    s.sequenceOrder.Pairwise (· < ·) ∧ s.sequenceOrder.Perm s.keys ∧
      (s.buffer.length : Int) ≤ max 1 cfg.maxBufferSize ∧
      (∀ event now, event.sequenceNumber ∈ s.keys →
        s.push cfg now event = (false, { s with stats := { s.stats with
          totalReceived := s.stats.totalReceived + 1
          totalDuplicates := s.stats.totalDuplicates + 1 } })) ∧
      ∀ k, DrainsSmallest k s (s.drain k) := by
  intro s
  have h : s.Ordered cfg := ordered_run cfg ops
  exact ⟨h.indexes.ascending, h.indexes.perm, h.bounded,
    fun event now hm => EventBuffer.push_of_mem cfg now hm, fun k => (EventBuffer.drain_spec h k).1⟩

end

end Indexer
end TradeCore
