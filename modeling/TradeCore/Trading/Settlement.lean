import TradeCore.Lib.Interleave
import TradeCore.Lib.Table
import TradeCore.Trading.Model

/-!
# TradeCore.Trading.Settlement

`settleTrade` reads the trade, calls `executeSettlement` when the trade is not settled, and saves it
as settled. Any number of calls run at a time, and each ends a step at its awaits: the read, the
call of the settlement, its answer, the save and the audit record.

`settled_at_most_once`: the settlement of a trade is invoked once at most, in every interleaving in
which a call reads the trade only while no other one holds an unsettled copy of it, and no call
before has invoked the settlement and left the trade unsettled.
-/

namespace TradeCore
namespace Trading

open Lib

structure TradeRow extends Trade where
  id : Uuid
  stellarTxHash : Option String
  settledAt : Option Time
  deriving DecidableEq

structure SettlementRequest where
  fromAccount : Uuid
  toAccount : Uuid
  assetCode : String
  assetIssuer : Option String
  amount : ℚ
  price : Option ℚ
  deriving DecidableEq

def TradeRow.request (trade : TradeRow) : SettlementRequest where
  fromAccount := trade.takerUserId
  toAccount := trade.makerUserId
  assetCode := trade.assetCode
  assetIssuer := trade.assetIssuer
  amount := trade.quantity
  price := trade.price

/-- The table, and every invocation of `executeSettlement` with the trade it is for. -/
structure Settlements where
  trades : List TradeRow
  invocations : List (Uuid × SettlementRequest)
  deriving DecidableEq

def Settlements.timesInvoked (s : Settlements) (tradeId : Uuid) : Nat :=
  (s.invocations.map (·.1)).count tradeId

/-- What a step learns: the clock, the hash `executeSettlement` answers with (`none` when it
throws), and whether the database refuses. -/
structure SettleEnv where
  now : Time
  txHash : Option String
  fails : Bool

inductive SettleCall where
  | start (tradeId : Uuid)
  | checked (trade : TradeRow)
  | settling (trade : TradeRow)
  | saving (trade : TradeRow)
  | auditing (trade : TradeRow)
  deriving DecidableEq

/-- How a call ended, and whether it had invoked the settlement. -/
structure SettleResult where
  tradeId : Uuid
  invoked : Bool
  outcome : Except HttpError TradeRow

abbrev SettleTask := Task SettleCall SettleResult

def settlementFailed : HttpError :=
  .serviceUnavailable "Unable to execute settlement transaction on Stellar network"

def TradeRow.markSettled (trade : TradeRow) (txHash : String) (now : Time) : TradeRow :=
  { trade with
    stellarTxHash := some txHash
    settled := true
    settledAt := some now }

def settleTrade (env : SettleEnv) (c : SettleCall) (s : Settlements) : Settlements × SettleTask :=
  match c with
  | .start tradeId =>
    if env.fails then (s, .done ⟨tradeId, false, .error databaseError⟩)
    else
      match lookup (·.id) tradeId s.trades with
      | none => (s, .done ⟨tradeId, false, .error (.notFound "Trade not found")⟩)
      | some trade =>
        if trade.settled then
          (s, .done ⟨tradeId, false, .error (.badRequest "Trade already settled")⟩)
        else (s, .running (.checked trade))
  | .checked trade =>
    ({ s with invocations := s.invocations ++ [(trade.id, trade.request)] },
      .running (.settling trade))
  | .settling trade =>
    match env.txHash with
    | none => (s, .done ⟨trade.id, true, .error settlementFailed⟩)
    | some txHash => (s, .running (.saving (trade.markSettled txHash env.now)))
  | .saving trade =>
    if env.fails then (s, .done ⟨trade.id, true, .error databaseError⟩)
    else ({ s with trades := upsert (·.id) trade s.trades }, .running (.auditing trade))
  | .auditing trade =>
    if env.fails then (s, .done ⟨trade.id, true, .error databaseError⟩)
    else (s, .done ⟨trade.id, true, .ok trade⟩)

def settlement : Proc Settlements SettleEnv Uuid SettleCall SettleResult := ⟨.start, settleTrade⟩

/-! ## Who holds a trade -/

/-- The trade a call is about to invoke the settlement of. -/
def SettleCall.toInvoke : SettleCall → List Uuid
  | .checked trade => [trade.id]
  | _ => []

/-- The trade whose settlement a call has invoked and not saved yet. -/
def SettleCall.unsaved : SettleCall → List Uuid
  | .settling trade => [trade.id]
  | .saving trade => [trade.id]
  | _ => []

def SettleCall.held (c : SettleCall) : List Uuid := c.toInvoke ++ c.unsaved

/-- The trade of a call that has invoked the settlement and thrown. -/
def abandonedBy : SettleTask → List Uuid
  | .done ⟨tradeId, true, .error _⟩ => [tradeId]
  | _ => []

def Abandoned (tradeId : Uuid) (ts : List SettleTask) : Prop := tradeId ∈ ts.flatMap abandonedBy

instance (tradeId : Uuid) (ts : List SettleTask) : Decidable (Abandoned tradeId ts) :=
  inferInstanceAs (Decidable (tradeId ∈ ts.flatMap abandonedBy))

def Settlements.Settled (s : Settlements) (tradeId : Uuid) : Prop :=
  ∃ trade ∈ (lookup (·.id) tradeId s.trades).toList, trade.settled = true

instance (s : Settlements) (tradeId : Uuid) : Decidable (s.Settled tradeId) :=
  inferInstanceAs (Decidable (∃ trade ∈ (lookup (·.id) tradeId s.trades).toList, trade.settled = true))

/-- The read of a trade that no other call holds, and that no call has left unsettled after
invoking its settlement. -/
def ReadsAlone (_ : SettleEnv) (c : SettleCall) (s : Settlements) (ts : List SettleTask) : Prop :=
  match c with
  | .start tradeId =>
    tradeId ∉ gather SettleCall.held ts ∧ (Abandoned tradeId ts → s.Settled tradeId)
  | _ => True

instance (env : SettleEnv) (s : Settlements) (ts : List SettleTask) :
    ∀ c : SettleCall, Decidable (ReadsAlone env c s ts)
  | .start tradeId => inferInstanceAs (Decidable
      (tradeId ∉ gather SettleCall.held ts ∧ (Abandoned tradeId ts → s.Settled tradeId)))
  | .checked _ | .settling _ | .saving _ | .auditing _ => inferInstanceAs (Decidable True)

/-! ## The invariant -/

structure SettleInv (s : Settlements) (ts : List SettleTask) : Prop where
  /-- No two calls hold one trade. -/
  exclusive : (gather SettleCall.held ts).Nodup
  once : ∀ id, s.timesInvoked id ≤ 1
  /-- What is to be invoked has not been. -/
  fresh : ∀ id ∈ gather SettleCall.toInvoke ts, id ∉ s.invocations.map (·.1)
  /-- What has been invoked is settled, or a call holds it, or one has thrown. -/
  known : ∀ id ∈ s.invocations.map (·.1),
    s.Settled id ∨ id ∈ gather SettleCall.unsaved ts ∨ Abandoned id ts
  marked : AllRunning (fun c => ∀ trade, c = .saving trade → trade.settled = true) ts

theorem settleInv_init (trades : List TradeRow) : SettleInv ⟨trades, []⟩ [] where
  exclusive := List.nodup_nil
  once := fun _ => Nat.zero_le 1
  fresh := by intro id hid; cases hid
  known := by intro id hid; cases hid
  marked := AllRunning.nil

section Step

variable {s : Settlements} {ts pre post : List SettleTask} {c : SettleCall} {t : SettleTask}

theorem mem_held_of_toInvoke {id : Uuid} (h : id ∈ c.toInvoke) : id ∈ c.held :=
  List.mem_append_left _ h

theorem abandoned_replace {id : Uuid} (h : Abandoned id (pre ++ .running c :: post)) :
    Abandoned id (pre ++ t :: post) := by
  rw [Abandoned, List.flatMap_append, List.flatMap_cons] at h ⊢
  rcases List.mem_append.mp h with h | h
  · exact List.mem_append_left _ h
  · exact List.mem_append_right _ (List.mem_append_right _ h)

theorem abandoned_here {id : Uuid} {e : HttpError} :
    Abandoned id (pre ++ .done ⟨id, true, .error e⟩ :: post) := by
  rw [Abandoned, List.flatMap_append, List.flatMap_cons]
  exact List.mem_append_right _ (List.mem_append_left _ (List.mem_singleton_self id))

theorem settled_save {id : Uuid} {trade : TradeRow} (hs : trade.settled = true)
    (h : s.Settled id ∨ id = trade.id) :
    Settlements.Settled { s with trades := upsert (·.id) trade s.trades } id := by
  unfold Settlements.Settled at h ⊢
  rw [lookup_upsert]
  by_cases hid : trade.id = id
  · rw [if_pos hid]
    exact ⟨trade, by simp, hs⟩
  · rw [if_neg hid]
    exact h.resolve_right fun heq => hid heq.symm

/-- A call that lets go of the trade it holds. -/
theorem settleInv_drop {s' : Settlements} (h : SettleInv s (pre ++ .running c :: post))
    (hinvoked : s'.invocations = s.invocations) (hset : ∀ id, s.Settled id → s'.Settled id)
    (ht : t.gather SettleCall.held = [])
    (hc : ∀ id ∈ c.unsaved, s'.Settled id ∨ Abandoned id (pre ++ t :: post)) :
    SettleInv s' (pre ++ t :: post) := by
  refine ⟨?_, ?_, ?_, ?_, ?_⟩
  · have hnodup := h.exclusive
    rw [gather_split] at hnodup ⊢
    rw [ht, List.append_nil]
    exact hnodup.sublist ((List.sublist_append_left _ _).append_right _)
  · intro id
    rw [Settlements.timesInvoked, hinvoked]
    exact h.once id
  · intro id hid
    rw [hinvoked]
    refine h.fresh id ?_
    rcases mem_gather_replace hid with hid | hid
    · cases t with
      | running c' =>
        have hheld : id ∈ c'.held := mem_held_of_toInvoke hid
        rw [show c'.held = [] from ht] at hheld
        cases hheld
      | done r => cases hid
    · exact hid
  · intro id hid
    rw [hinvoked] at hid
    rcases h.known id hid with hsettled | hin | hab
    · exact .inl (hset id hsettled)
    · rcases mem_gather_split.mp hin with hin | hin
      · exact (hc id hin).imp_right .inr
      · exact .inr (.inl (mem_gather_split.mpr (.inr hin)))
    · exact .inr (.inr (abandoned_replace hab))
  · refine h.marked.replace fun c' hc' trade hsaving => ?_
    subst hc' hsaving
    cases ht

theorem settleInv_read {tradeId : Uuid} {trade : TradeRow} {env : SettleEnv}
    (h : SettleInv s (pre ++ .running (.start tradeId) :: post))
    (hG : ReadsAlone env (.start tradeId) s (pre ++ .running (.start tradeId) :: post))
    (hrow : lookup (·.id) tradeId s.trades = some trade) (hopen : trade.settled ≠ true) :
    SettleInv s (pre ++ .running (.checked trade) :: post) := by
  have hid : trade.id = tradeId := lookup_key hrow
  obtain ⟨hfree, hleft⟩ := hG
  have hunsettled : ¬ s.Settled tradeId := by
    rintro ⟨row, hin, hrowsettled⟩
    rw [hrow] at hin
    rw [List.mem_singleton.mp hin] at hrowsettled
    exact hopen hrowsettled
  -- neither settled, nor held, nor abandoned: the settlement has not been invoked
  have hnew : tradeId ∉ s.invocations.map (·.1) := by
    intro hin
    rcases h.known tradeId hin with hsettled | hheld | hab
    · exact hunsettled hsettled
    · obtain ⟨c', hc', hmem⟩ := exists_of_mem_gather hheld
      exact hfree (List.mem_flatMap.mpr ⟨_, hc', List.mem_append_right _ hmem⟩)
    · exact hunsettled (hleft hab)
  refine ⟨?_, h.once, ?_, ?_, h.marked.replace fun c' hc' row hsaving => ?_⟩
  · have hnodup := h.exclusive
    rw [gather_split] at hnodup hfree ⊢
    have hperm : (gather SettleCall.held pre ++ [trade.id] ++ gather SettleCall.held post).Perm
        (trade.id :: (gather SettleCall.held pre ++ gather SettleCall.held post)) := by
      rw [List.append_assoc]
      exact List.perm_middle
    refine hperm.nodup_iff.mpr (List.nodup_cons.mpr ⟨?_, ?_⟩)
    · rw [hid]
      simpa [Task.gather, SettleCall.held, SettleCall.toInvoke, SettleCall.unsaved] using hfree
    · simpa [Task.gather, SettleCall.held, SettleCall.toInvoke, SettleCall.unsaved] using hnodup
  · intro id hin
    rcases mem_gather_replace hin with hin | hin
    · rw [List.mem_singleton.mp hin, hid]
      exact hnew
    · exact h.fresh id hin
  · intro id hin
    rcases h.known id hin with hsettled | hheld | hab
    · exact .inl hsettled
    · exact .inr (.inl (by simpa [gather, Task.gather, SettleCall.unsaved] using hheld))
    · exact .inr (.inr (abandoned_replace hab))
  · subst hsaving
    cases hc'

theorem settleInv_invoke {trade : TradeRow}
    (h : SettleInv s (pre ++ .running (.checked trade) :: post)) :
    SettleInv { s with invocations := s.invocations ++ [(trade.id, trade.request)] }
      (pre ++ .running (.settling trade) :: post) := by
  have hnew : trade.id ∉ s.invocations.map (·.1) :=
    h.fresh trade.id (mem_gather_here (List.mem_singleton_self _))
  have hothers : ∀ id ∈ gather SettleCall.toInvoke (pre ++ .running (.settling trade) :: post),
      id ≠ trade.id := by
    rintro id hid rfl
    have hhere : trade.id ∈ (SettleCall.checked trade).held := List.mem_singleton_self _
    rcases mem_gather_split.mp hid with hid | hid | hid
    · cases hid
    · obtain ⟨c', hc', hmem⟩ := exists_of_mem_gather hid
      exact not_mem_of_nodup_gather h.exclusive (.inl hc') hhere (mem_held_of_toInvoke hmem)
    · obtain ⟨c', hc', hmem⟩ := exists_of_mem_gather hid
      exact not_mem_of_nodup_gather h.exclusive (.inr hc') hhere (mem_held_of_toInvoke hmem)
  refine ⟨?_, ?_, ?_, ?_, h.marked.replace fun c' hc' row hsaving => ?_⟩
  · rw [gather_congr (k := .checked trade) rfl]
    exact h.exclusive
  · intro id
    simp only [Settlements.timesInvoked, List.map_append, List.map_cons, List.map_nil,
      List.count_append, List.count_singleton]
    by_cases hid : trade.id = id
    · rw [← hid, List.count_eq_zero_of_not_mem hnew]
      simp
    · have := h.once id
      rw [Settlements.timesInvoked] at this
      simpa [hid] using this
  · intro id hid
    have hne := hothers id hid
    have hold : id ∉ s.invocations.map (·.1) := by
      refine h.fresh id ?_
      rcases mem_gather_replace hid with hin | hin
      · cases hin
      · exact hin
    simp only [List.map_append, List.map_cons, List.map_nil, List.mem_append, List.mem_singleton]
    exact fun hin => hin.elim hold hne
  · intro id hid
    simp only [List.map_append, List.map_cons, List.map_nil, List.mem_append,
      List.mem_singleton] at hid
    rcases hid with hid | rfl
    · rcases h.known id hid with hsettled | hheld | hab
      · exact .inl hsettled
      · refine .inr (.inl (mem_gather_split.mpr (.inr ?_)))
        rcases mem_gather_split.mp hheld with hin | hin
        · cases hin
        · exact hin
      · exact .inr (.inr (abandoned_replace hab))
    · exact .inr (.inl (mem_gather_here (List.mem_singleton_self _)))
  · subst hsaving
    cases hc'

end Step

theorem settleInv_adv (s : Settlements) (pre : List SettleTask) (c : SettleCall)
    (post : List SettleTask) (env : SettleEnv)
    (hG : ReadsAlone env c s (pre ++ .running c :: post))
    (h : SettleInv s (pre ++ .running c :: post)) :
    SettleInv (settlement.adv env c s).1 (pre ++ (settlement.adv env c s).2 :: post) := by
  cases c with
  | start tradeId =>
    simp only [settlement, settleTrade]
    split
    · exact settleInv_drop h rfl (fun _ => id) rfl fun id hid => by cases hid
    · split
      · exact settleInv_drop h rfl (fun _ => id) rfl fun id hid => by cases hid
      · rename_i trade hrow
        split
        · exact settleInv_drop h rfl (fun _ => id) rfl fun id hid => by cases hid
        · rename_i hopen
          exact settleInv_read h hG hrow hopen
  | checked trade => exact settleInv_invoke h
  | settling trade =>
    simp only [settlement, settleTrade]
    split
    · refine settleInv_drop h rfl (fun _ => id) rfl fun id hid => .inr ?_
      rw [List.mem_singleton.mp hid]
      exact abandoned_here
    · rename_i txHash _
      -- the call goes on holding the trade, now marked as settled
      refine ⟨?_, h.once, ?_, ?_, h.marked.replace ?_⟩
      · rw [gather_congr (k := .settling trade) rfl]
        exact h.exclusive
      · rw [gather_congr (k := .settling trade) rfl]
        exact h.fresh
      · intro id hid
        rw [gather_congr (k := .settling trade) rfl]
        exact (h.known id hid).imp_right (.imp_right abandoned_replace)
      · intro c' hc' row hsaving
        subst hsaving
        cases hc'
        rfl
  | saving trade =>
    have hmarked : trade.settled = true := h.marked.here trade rfl
    simp only [settlement, settleTrade]
    split
    · refine settleInv_drop h rfl (fun _ => id) rfl fun id hid => .inr ?_
      rw [List.mem_singleton.mp hid]
      exact abandoned_here
    · exact settleInv_drop h rfl (fun id hset => settled_save hmarked (.inl hset)) rfl
        fun id hid => .inl (settled_save hmarked (.inr (List.mem_singleton.mp hid)))
  | auditing trade =>
    simp only [settlement, settleTrade]
    split
    · exact settleInv_drop h rfl (fun _ => id) rfl fun id hid => by cases hid
    · exact settleInv_drop h rfl (fun _ => id) rfl fun id hid => by cases hid

theorem settleInv_spawn (s : Settlements) (ts : List SettleTask) (tradeId : Uuid)
    (h : SettleInv s ts) : SettleInv s (ts ++ [Task.running (settlement.start tradeId)]) := by
  have hstart : settlement.start tradeId = .start tradeId := rfl
  rw [hstart]
  refine ⟨?_, h.once, ?_, ?_, h.marked.spawn fun trade hsaving => by cases hsaving⟩
  · rw [gather_spawn rfl]
    exact h.exclusive
  · rw [gather_spawn rfl]
    exact h.fresh
  · intro id hid
    rw [gather_spawn rfl]
    refine (h.known id hid).imp_right (.imp_right fun hab => ?_)
    rw [Abandoned, List.flatMap_append]
    exact List.mem_append_left _ hab

/-- `executeSettlement` is invoked at most once for each trade, in every state of a run whose reads
are alone. -/
theorem settled_at_most_once (trades : List TradeRow) (acts : List (Act SettleEnv Uuid))
    (h : Along settlement.step (Meets (fun _ => True) ReadsAlone) (Conf.init ⟨trades, []⟩) acts) :
    Always settlement.step (fun c => ∀ id, c.shared.timesInvoked id ≤ 1)
      (Conf.init ⟨trades, []⟩) acts :=
  always_of_inv (I := fun c => SettleInv c.shared c.tasks) (fun _ hinv => hinv.once)
    (step_inv settlement (fun s ts x _ => settleInv_spawn s ts x) settleInv_adv)
    (settleInv_init trades) h

def openTrade : TradeRow :=
  { makerOrderId := 1
    takerOrderId := 2
    makerUserId := 3
    takerUserId := 4
    assetCode := "XLM"
    assetIssuer := none
    quantity := 10
    price := some 2
    settled := false
    id := 7
    stellarTxHash := none
    settledAt := none }

/-- A step of call `i` in which nothing fails. -/
def goes (i : Nat) : Act SettleEnv Uuid := .sched i ⟨0, some "settlement_0", false⟩

/-- A second call comes in when the first has saved the trade and not recorded it yet. -/
theorem second_call_refused :
    Always settlement.step (fun c => ∀ id, c.shared.timesInvoked id ≤ 1)
      (Conf.init ⟨[openTrade], []⟩)
      [.spawn 7, goes 0, goes 0, .spawn 7, goes 0, goes 0, goes 1, goes 0] :=
  settled_at_most_once [openTrade] _ (by decide +kernel)

/-- Two calls read the trade before either has saved it; or the first fails to save it. -/
theorem settled_twice :
    (run settlement.step (Conf.init ⟨[openTrade], []⟩)
      [.spawn 7, .spawn 7, goes 0, goes 1, goes 0, goes 1]).shared.timesInvoked 7 = 2 ∧
    (run settlement.step (Conf.init ⟨[openTrade], []⟩)
      [.spawn 7, goes 0, goes 0, goes 0, .sched 0 ⟨0, none, true⟩, .spawn 7, goes 1,
        goes 1]).shared.timesInvoked 7 = 2 := by
  constructor
  · decide +kernel
  · decide +kernel

end Trading
end TradeCore
