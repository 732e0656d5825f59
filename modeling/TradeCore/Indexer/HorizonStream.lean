import TradeCore.Common
import TradeCore.Lib.DecimalText
import TradeCore.Lib.JsonText
import TradeCore.Lib.Run
import TradeCore.Lib.Table

/-!
# TradeCore.Indexer.HorizonStream

`HorizonStreamService`: the stream of ledgers, its reconnects and the calls that start, stop and redirect
it.

`start` and `resetCursor` are split at their awaits: what they check and set before, and what they do when
the state service has answered. A stream loop is a response being awaited or read; what it gets after its
controller was aborted ends it.

`stream_sound`: in every run in which no `start` is called while another one is in flight, no
`resetCursor` while a `start` is, and no ledger arrives while a `resetCursor` is, there is one live loop
at most and none beside a reconnect timer, nothing is emitted while the service is stopped, and a
`resetCursor` decides where the stream goes on.
-/

namespace TradeCore
namespace Indexer
namespace HorizonStream

open Lib

/-! ## Ledgers -/

structure LedgerCloseEvent where
  sequence : NumText
  closedAt : String
  hash : String
  pagingToken : String
  header : Json

def field? (name : String) : Json → Option Json
  | .obj fields => (lookup Prod.fst name fields).map Prod.snd
  | _ => none

def stringField? (name : String) (data : Json) : Option String :=
  match field? name data with
  | some (.str s) => some s
  | _ => none

/-- A record without a numeric `sequence` or a `hash` is no ledger. -/
def handleLedgerRecord (data : Json) : Option LedgerCloseEvent :=
  match field? "sequence" data with
  | some (.num sequence) =>
    let hash := ((stringField? "hash" data).or (stringField? "id" data)).getD ""
    if hash = "" then none
    else some {
      sequence, hash
      pagingToken := (stringField? "paging_token" data).getD (String.ofList sequence.chars)
      closedAt := (stringField? "closed_at" data).getD ""
      header := data }
  | _ => none

section Lines

-- `JSON.parse`.
variable (parse : List Char → Option Json)

def carriageReturn : Char := Char.ofNat 13

def lineFeed : Char := Char.ofNat 10

def startsWith (text : List Char) (start : String) : Bool := start.toList.isPrefixOf text

def processLine (line : List Char) : Option LedgerCloseEvent :=
  let trimmed := if line.getLast? = some carriageReturn then line.dropLast else line
  if trimmed = [] ∨ startsWith trimmed ":" ∨ startsWith trimmed "event:" ∨
      startsWith trimmed "id:" ∨ startsWith trimmed "retry:" then none
  else if ¬ startsWith trimmed "data:" then none
  else
    let jsonStr := trim (trimmed.drop 5)
    if jsonStr = [] then none else (parse jsonStr).bind handleLedgerRecord

/-- The ledgers in the lines that a piece of the stream completes. -/
def ledgersOf (buffer text : List Char) : List LedgerCloseEvent :=
  ((buffer ++ text).splitOn lineFeed).dropLast.filterMap (processLine parse)

/-- The line that is not complete yet. -/
def restOf (buffer text : List Char) : List Char :=
  (((buffer ++ text).splitOn lineFeed).getLast?).getD []

end Lines

/-! ## The service -/

/-- A stream loop that has not ended: the number of its controller, and the cursor it streams from. -/
structure Loop where
  id : Nat
  source : String
  aborted : Bool
  reading : Bool
  buffer : List Char
  deriving DecidableEq

/-- A ledger as it is emitted: the cursor its loop streams from, the cursor asked for, and whether the
service was stopped. -/
structure Emission where
  source : String
  expected : Option String
  stopped : Bool
  deriving DecidableEq

structure State where
  currentController : Option Nat
  reconnectTimer : Bool
  currentReconnectDelay : Nat
  connected : Bool
  lastLedgerSequence : Option NumText
  cursor : Option String
  stopping : Bool
  reconnectAttempts : Nat
  totalReconnects : Nat
  loops : List Loop
  nextId : Nat
  /-- The calls in flight: how many of `start`, and those of `resetCursor` by number. -/
  starting : Nat
  resetting : List Nat
  calls : Nat
  /-- What follows is no part of the service. `stop` was called, and no `start` since. -/
  stopped : Bool
  /-- The last call, when it is a `resetCursor` that has not failed. -/
  lastCall : Option (Nat × String)
  /-- The cursor of the last call, from the moment when no call is in flight any more up to the next
  ledger or call. -/
  expected : Option String
  emitted : List Emission

def init : State where
  currentController := none
  reconnectTimer := false
  currentReconnectDelay := 0
  connected := false
  lastLedgerSequence := none
  cursor := none
  stopping := false
  reconnectAttempts := 0
  totalReconnects := 0
  loops := []
  nextId := 0
  starting := 0
  resetting := []
  calls := 0
  stopped := false
  lastCall := none
  expected := none
  emitted := []

namespace State

def Quiet (s : State) : Prop := s.starting = 0 ∧ s.resetting = []

instance (s : State) : Decidable s.Quiet := inferInstanceAs (Decidable (_ ∧ _))

/-- A call has ended. -/
def settle (s : State) : State :=
  if s.Quiet then { s with expected := s.lastCall.map Prod.snd } else s

def connect (s : State) : State :=
  if s.stopping then s
  else { s with
    currentController := some s.nextId
    loops := ⟨s.nextId, s.cursor.getD "now", false, false, []⟩ :: s.loops
    nextId := s.nextId + 1 }

/-- `controller?.abort()` of the current controller, which is given up. -/
def disconnect (s : State) : State :=
  { s with
    currentController := none
    connected := false
    loops := s.loops.map fun l =>
      if s.currentController = some l.id then { l with aborted := true } else l }

def scheduleReconnect (s : State) : State :=
  if s.stopping ∨ s.reconnectTimer then s
  else { s with
    currentReconnectDelay := s.currentReconnectDelay + 1
    reconnectAttempts := s.reconnectAttempts + 1
    totalReconnects := s.totalReconnects + 1
    reconnectTimer := true }

/-- The finally clause of a stream loop. -/
def finish (s : State) (loop : Loop) : State :=
  let s := { s with connected := false, loops := s.loops.filter (·.id ≠ loop.id) }
  if s.currentController = some loop.id then
    let s := { s with currentController := none }
    if s.stopping then s else s.scheduleReconnect
  else s

/-- `emit('ledger')`, with what is set before. -/
def emit (source : String) (s : State) (event : LedgerCloseEvent) : State :=
  { s with
    lastLedgerSequence := some event.sequence
    cursor := some event.pagingToken
    currentReconnectDelay := 0
    reconnectAttempts := 0
    expected := none
    emitted := ⟨source, s.expected, s.stopped⟩ :: s.emitted }

def stop (s : State) : State :=
  let s := { s with stopping := true, reconnectTimer := false }.disconnect
  { s with stopped := true, lastCall := none, expected := none }

/-- `start` up to its await. -/
def start (s : State) : State :=
  let s := { s with stopped := false, lastCall := none, expected := none }
  if s.currentController.isSome ∨ s.reconnectTimer then s
  else { s with
    stopping := false
    currentReconnectDelay := 0
    reconnectAttempts := 0
    starting := s.starting + 1 }

/-- `start` from its await on. -/
def started (s : State) (token : Option String) (lastIndexed : Option NumText) : State :=
  ({ s with
    starting := s.starting - 1
    cursor := some (token.getD "now")
    lastLedgerSequence := lastIndexed }.connect).settle

/-- `resetCursor` up to its await. -/
def resetCursor (s : State) (cursor : String) : State :=
  { s with
    cursor := some cursor
    resetting := s.calls :: s.resetting
    calls := s.calls + 1
    lastCall := some (s.calls, cursor)
    expected := none }

/-- `resetCursor` from its await on. -/
def cursorReset (s : State) (call : Nat) : State :=
  let s := { s with resetting := s.resetting.erase call }
  (if s.currentController.isSome then s.disconnect.connect else s).settle

end State

inductive Act where
  | start
  | started (token : Option String) (lastIndexed : Option NumText)
  | startFailed
  | stop
  | resetCursor (cursor : String)
  | cursorReset (call : Nat)
  | resetFailed (call : Nat)
  /-- The response of a loop: whether it is one that can be read. -/
  | responded (loop : Nat) (ok : Bool)
  | data (loop : Nat) (text : List Char)
  /-- The stream of a loop ends, normally or with an error. -/
  | ended (loop : Nat)
  | timer

def loop? (s : State) (id : Nat) : Option Loop := lookup Loop.id id s.loops

section Step

variable (parse : List Char → Option Json)

def received (s : State) (loop : Loop) (text : List Char) : State :=
  (ledgersOf parse loop.buffer text).foldl (State.emit loop.source)
    { s with loops := upsert Loop.id { loop with buffer := restOf loop.buffer text } s.loops }

def step (s : State) : Act → State
  | .start => s.start
  | .started token lastIndexed => if s.starting = 0 then s else s.started token lastIndexed
  | .startFailed => if s.starting = 0 then s else { s with starting := s.starting - 1 }.settle
  | .stop => s.stop
  | .resetCursor cursor => s.resetCursor cursor
  | .cursorReset call => if call ∈ s.resetting then s.cursorReset call else s
  | .resetFailed call =>
    if call ∈ s.resetting then
      { s with
        resetting := s.resetting.erase call
        lastCall := s.lastCall.filter fun last => last.1 ≠ call }.settle
    else s
  | .responded id ok =>
    match loop? s id with
    | none => s
    | some loop =>
      if loop.reading then s
      else if ok ∧ loop.aborted = false then
        { s with connected := true, loops := upsert Loop.id { loop with reading := true } s.loops }
      else s.finish loop
  | .data id text =>
    match loop? s id with
    | none => s
    | some loop =>
      if loop.reading = false then s
      else if loop.aborted then s.finish loop
      else received parse s loop text
  | .ended id =>
    match loop? s id with
    | none => s
    | some loop => s.finish loop
  | .timer => if s.reconnectTimer then { s with reconnectTimer := false }.connect else s

/-! ## What is asked of a run -/

structure Sound (s : State) : Prop where
  one : (s.loops.filter fun l => l.aborted = false).length ≤ 1
  timer : s.reconnectTimer = true → ∀ l ∈ s.loops, l.aborted = true
  silent : ∀ e ∈ s.emitted, e.stopped = false
  resumed : ∀ e ∈ s.emitted, ∀ cursor ∈ e.expected, e.source = cursor

instance (s : State) : Decidable (Sound s) :=
  decidable_of_iff
    ((s.loops.filter fun l => l.aborted = false).length ≤ 1 ∧
      (s.reconnectTimer = true → ∀ l ∈ s.loops, l.aborted = true) ∧
      (∀ e ∈ s.emitted, e.stopped = false) ∧
      ∀ e ∈ s.emitted, ∀ cursor ∈ e.expected, e.source = cursor)
    ⟨fun h => ⟨h.1, h.2.1, h.2.2.1, h.2.2.2⟩, fun h => ⟨h.one, h.timer, h.silent, h.resumed⟩⟩

/-- The calls do not overlap where they must not, and no ledger arrives while a `resetCursor` is in
flight. -/
def Apart (s : State) : Act → Prop
  | .start => s.currentController = none → s.reconnectTimer = false → s.starting = 0
  | .resetCursor _ => s.starting = 0
  | .data id text =>
    s.resetting ≠ [] → ∀ l ∈ loop? s id, l.aborted = false → ledgersOf parse l.buffer text = []
  | _ => True

instance Apart.decidable (s : State) : ∀ a, Decidable (Apart parse s a)
  | .start => inferInstanceAs (Decidable (_ → _ → _))
  | .resetCursor _ => inferInstanceAs (Decidable (_ = _))
  | .data id text =>
    have : DecidablePred fun l : Loop => l.aborted = false → ledgersOf parse l.buffer text = [] :=
      fun l => decidable_of_iff (l.aborted = false → (ledgersOf parse l.buffer text).isEmpty = true)
        (by rw [List.isEmpty_iff])
    inferInstanceAs (Decidable (_ → ∀ l ∈ loop? s id, _))
  | .started _ _ | .startFailed | .stop | .cursorReset _ | .resetFailed _ | .responded _ _ | .ended _
  | .timer => .isTrue trivial

end Step

/-! ## Controllers and timers -/

/-- The live loop is that of the current controller, and there is none while a timer or a `start` is to
connect. -/
structure Wired (s : State) : Prop where
  nodup : (s.loops.map Loop.id).Nodup
  fresh : ∀ l ∈ s.loops, l.id < s.nextId
  live : ∀ l ∈ s.loops, l.aborted = false → s.currentController = some l.id
  timer : s.reconnectTimer = true → s.currentController = none
  starting : s.starting ≠ 0 →
    s.starting = 1 ∧ s.currentController = none ∧ s.reconnectTimer = false
  stopping : s.stopping = true → s.currentController = none ∧ s.reconnectTimer = false
  stopped : s.stopped = true → s.stopping = true

section Wired

variable {s : State}

theorem Wired.connect (h : Wired s) (hcurrent : s.currentController = none)
    (htimer : s.reconnectTimer = false) (hstarting : s.starting = 0) : Wired s.connect := by
  unfold State.connect
  split
  · exact h
  · rename_i hstopping
    have hnew : ∀ l ∈ s.loops, l.id ≠ s.nextId := fun l hl => Nat.ne_of_lt (h.fresh l hl)
    refine ⟨List.nodup_cons.mpr ⟨fun hmem => ?_, h.nodup⟩, fun l hl => ?_, fun l hl hlive => ?_,
      fun ht => ?_, fun hs => absurd hstarting hs, fun hs => absurd hs hstopping, h.stopped⟩
    · obtain ⟨l, hl, heq⟩ := List.mem_map.mp hmem
      exact hnew l hl heq
    · rcases List.mem_cons.mp hl with rfl | hl
      · exact Nat.lt_succ_self _
      · exact Nat.lt_succ_of_lt (h.fresh l hl)
    · rcases List.mem_cons.mp hl with rfl | hl
      · rfl
      · have hlive := h.live l hl hlive
        rw [hcurrent] at hlive
        cases hlive
    · dsimp only at ht
      rw [htimer] at ht
      cases ht

theorem disconnect_aborted (h : Wired s) : ∀ l ∈ s.disconnect.loops, l.aborted = true := by
  intro l hl
  obtain ⟨l₀, hl₀, rfl⟩ := List.mem_map.mp hl
  split
  · rfl
  · rename_i hne
    by_contra hlive
    exact hne (h.live l₀ hl₀ (by simpa using hlive))

theorem Wired.disconnect (h : Wired s) : Wired s.disconnect := by
  have hids : s.disconnect.loops.map Loop.id = s.loops.map Loop.id := by
    simp only [State.disconnect, List.map_map]
    refine List.map_congr_left fun l _ => ?_
    dsimp only [Function.comp]
    split <;> rfl
  refine ⟨hids ▸ h.nodup, fun l hl => ?_, fun l hl hlive => ?_, fun _ => rfl, fun hs => ?_,
    fun hs => ⟨rfl, (h.stopping hs).2⟩, h.stopped⟩
  · obtain ⟨l₀, hl₀, rfl⟩ := List.mem_map.mp hl
    split <;> exact h.fresh l₀ hl₀
  · rw [disconnect_aborted h l hl] at hlive
    cases hlive
  · exact ⟨(h.starting hs).1, rfl, (h.starting hs).2.2⟩

theorem Wired.finish {loop : Loop} (h : Wired s) : Wired (s.finish loop) := by
  have hsub : ∀ l ∈ s.loops.filter (·.id ≠ loop.id), l ∈ s.loops ∧ l.id ≠ loop.id := by
    intro l hl
    simpa using hl
  have hnodup : ((s.loops.filter (·.id ≠ loop.id)).map Loop.id).Nodup :=
    h.nodup.sublist (List.filter_sublist.map _)
  have hfresh : ∀ l ∈ s.loops.filter (·.id ≠ loop.id), l.id < s.nextId :=
    fun l hl => h.fresh l (hsub l hl).1
  unfold State.finish
  dsimp only
  split
  · rename_i hcurrent
    have hidle : s.starting = 0 := by
      by_contra hne
      rw [(h.starting hne).2.1] at hcurrent
      cases hcurrent
    have hrunning : ¬ s.stopping = true := by
      intro hs
      rw [(h.stopping hs).1] at hcurrent
      cases hcurrent
    have htimer : ¬ s.reconnectTimer = true := by
      intro ht
      rw [h.timer ht] at hcurrent
      cases hcurrent
    rw [if_neg hrunning, State.scheduleReconnect, if_neg (not_or.mpr ⟨hrunning, htimer⟩)]
    refine ⟨hnodup, hfresh, fun l hl hlive => ?_, fun _ => rfl, fun hs => absurd hidle hs,
      fun hs => absurd hs hrunning, h.stopped⟩
    have heq := h.live l (hsub l hl).1 hlive
    rw [hcurrent] at heq
    exact absurd (Option.some.inj heq).symm (hsub l hl).2
  · exact ⟨hnodup, hfresh, fun l hl => h.live l (hsub l hl).1, h.timer, h.starting, h.stopping,
      h.stopped⟩

theorem Wired.settle (h : Wired s) : Wired s.settle := by
  unfold State.settle
  split
  · exact { h with }
  · exact h

theorem Wired.emits (source : String) (events : List LedgerCloseEvent) (h : Wired s) :
    Wired (events.foldl (State.emit source) s) := by
  induction events generalizing s with
  | nil => exact h
  | cons event events ih => exact ih { h with }

/-- A loop goes on reading. -/
theorem Wired.upsert {loop loop' : Loop} (h : Wired s) (hmem : loop ∈ s.loops)
    (hid : loop'.id = loop.id) (haborted : loop'.aborted = loop.aborted) :
    Wired { s with loops := Lib.upsert Loop.id loop' s.loops } := by
  refine { h with nodup := nodup_upsert h.nodup, fresh := fun l hl => ?_, live := fun l hl hlive => ?_ }
  · rcases mem_upsert hl with rfl | hl
    · exact hid ▸ h.fresh loop hmem
    · exact h.fresh l hl
  · rcases mem_upsert hl with rfl | hl
    · exact hid ▸ h.live loop hmem (haborted ▸ hlive)
    · exact h.live l hl hlive

theorem Wired.stop (h : Wired s) : Wired s.stop := by
  have hstop : Wired { s with stopping := true, reconnectTimer := false }.disconnect := by
    have hd := h.disconnect
    exact ⟨hd.nodup, hd.fresh, hd.live, fun _ => rfl, fun hs => ⟨(h.starting hs).1, rfl, rfl⟩,
      fun _ => ⟨rfl, rfl⟩, fun _ => rfl⟩
  exact { hstop with stopped := fun _ => rfl }

theorem Wired.start (h : Wired s)
    (hapart : s.currentController = none → s.reconnectTimer = false → s.starting = 0) :
    Wired s.start := by
  unfold State.start
  dsimp only
  split
  · exact { h with stopped := nofun }
  · rename_i hguard
    rw [not_or, Option.not_isSome_iff_eq_none, Bool.not_eq_true] at hguard
    have hzero := hapart hguard.1 hguard.2
    exact { h with
      starting := fun _ => ⟨by dsimp only; omega, hguard⟩
      stopping := nofun
      stopped := nofun }

theorem Wired.started {token : Option String} {lastIndexed : Option NumText} (h : Wired s)
    (hstarting : s.starting ≠ 0) : Wired (s.started token lastIndexed) := by
  obtain ⟨hone, hcurrent, htimer⟩ := h.starting hstarting
  have hzero : s.starting - 1 = 0 := by omega
  have hwired : Wired { s with
      starting := s.starting - 1
      cursor := some (token.getD "now")
      lastLedgerSequence := lastIndexed } :=
    { h with starting := fun hs => absurd hzero hs }
  exact (hwired.connect hcurrent htimer hzero).settle

theorem Wired.cursorReset {call : Nat} (h : Wired s) : Wired (s.cursorReset call) := by
  unfold State.cursorReset
  dsimp only
  refine Wired.settle ?_
  have h' : Wired { s with resetting := s.resetting.erase call } := { h with }
  split
  · rename_i hcurrent
    have hne : ¬ s.currentController = none := fun hn => by simp [hn] at hcurrent
    refine h'.disconnect.connect rfl ?_ ?_
    · exact Bool.eq_false_iff.mpr fun ht => hne (h.timer ht)
    · by_contra hs
      exact hne (h.starting hs).2.1
  · exact h'

end Wired

theorem mem_of_loop? {s : State} {id : Nat} {loop : Loop} (h : loop? s id = some loop) :
    loop ∈ s.loops :=
  mem_of_lookup h

theorem step_wired {parse : List Char → Option Json} (s : State) (a : Act) (h : Wired s)
    (hapart : Apart parse s a) : Wired (step parse s a) := by
  cases a with
  | start => exact h.start hapart
  | started token lastIndexed =>
    simp only [step]
    split
    · exact h
    · exact h.started ‹_›
  | startFailed =>
    simp only [step]
    split
    · exact h
    · rename_i hs
      have hone := (h.starting hs).1
      exact Wired.settle { h with starting := fun hs' => absurd (by dsimp only; omega) hs' }
  | stop => exact h.stop
  | resetCursor cursor => exact { h with }
  | cursorReset call =>
    simp only [step]
    split
    · exact h.cursorReset
    · exact h
  | resetFailed call =>
    simp only [step]
    split
    · exact Wired.settle { h with }
    · exact h
  | responded id ok =>
    simp only [step]
    split
    · exact h
    · rename_i loop hloop
      split
      · exact h
      · split
        · have hwired : Wired { s with
              loops := upsert Loop.id { loop with reading := true } s.loops } :=
            h.upsert (mem_of_loop? hloop) rfl rfl
          exact { hwired with }
        · exact h.finish
  | data id text =>
    simp only [step]
    split
    · exact h
    · rename_i loop hloop
      split
      · exact h
      · split
        · exact h.finish
        · exact Wired.emits _ _ (h.upsert (mem_of_loop? hloop) rfl rfl)
  | ended id =>
    simp only [step]
    split
    · exact h
    · exact h.finish
  | timer =>
    simp only [step]
    split
    · rename_i htimer
      have hzero : s.starting = 0 := by
        by_contra hs
        rw [(h.starting hs).2.2] at htimer
        cases htimer
      refine Wired.connect ?_ (h.timer htimer) rfl hzero
      exact { h with
        timer := fun ht => absurd ht Bool.false_ne_true
        starting := fun hs => absurd hzero hs
        stopping := fun hs => ⟨(h.stopping hs).1, rfl⟩ }
    · exact h

/-! ## Where the stream goes on -/

/-- While a `resetCursor` is the last call, up to the next ledger behind it, the service and its live
loops are where it has directed them. -/
structure Directed (s : State) : Prop where
  last : ∀ call cursor, s.lastCall = some (call, cursor) → ¬ s.Quiet ∨ s.expected = some cursor →
    s.starting = 0 ∧ s.cursor = some cursor ∧
      (call ∉ s.resetting → ∀ l ∈ s.loops, l.aborted = false → l.source = cursor)
  expected : ∀ cursor, s.expected = some cursor → s.Quiet ∧ ∃ call, s.lastCall = some (call, cursor)
  silent : ∀ e ∈ s.emitted, e.stopped = false
  resumed : ∀ e ∈ s.emitted, ∀ cursor ∈ e.expected, e.source = cursor

section Directed

variable {s s' : State}

/-- A step of the loops: none of them goes on from somewhere new. -/
theorem Directed.loops (h : Directed s) (hlast : s'.lastCall = s.lastCall)
    (hstarting : s'.starting = s.starting) (hresetting : s'.resetting = s.resetting)
    (hcursor : s'.cursor = s.cursor) (hexpected : s'.expected = s.expected)
    (hemitted : s'.emitted = s.emitted)
    (hloops : ∀ l' ∈ s'.loops, l'.aborted = false →
      (∃ l ∈ s.loops, l.aborted = false ∧ l.source = l'.source) ∨
        l'.source = s.cursor.getD "now") : Directed s' := by
  have hquiet : s'.Quiet ↔ s.Quiet := by rw [State.Quiet, hstarting, hresetting]; rfl
  refine ⟨fun call cursor hc hq => ?_, fun cursor hc => ?_, ?_, ?_⟩
  · rw [hlast] at hc
    rw [hquiet, hexpected] at hq
    rw [hstarting, hcursor, hresetting]
    obtain ⟨hzero, hat, hlive⟩ := h.last call cursor hc hq
    refine ⟨hzero, hat, fun hended l' hl' hl'live => ?_⟩
    rcases hloops l' hl' hl'live with ⟨l, hl, hlv, hsource⟩ | hsource
    · exact hsource ▸ hlive hended l hl hlv
    · rw [hsource, hat]
      rfl
  · rw [hexpected] at hc
    rw [hquiet, hlast]
    exact h.expected cursor hc
  · exact hemitted ▸ h.silent
  · exact hemitted ▸ h.resumed

theorem Directed.connect (h : Directed s) : Directed s.connect := by
  unfold State.connect
  split
  · exact h
  · refine h.loops rfl rfl rfl rfl rfl rfl fun l hl hlive => ?_
    rcases List.mem_cons.mp hl with rfl | hl
    · exact .inr rfl
    · exact .inl ⟨l, hl, hlive, rfl⟩

theorem Directed.disconnect (h : Directed s) : Directed s.disconnect := by
  refine h.loops rfl rfl rfl rfl rfl rfl fun l hl hlive => ?_
  obtain ⟨l₀, hl₀, rfl⟩ := List.mem_map.mp hl
  split at hlive
  · cases hlive
  · rename_i hne
    rw [if_neg hne]
    exact .inl ⟨l₀, hl₀, hlive, rfl⟩

theorem Directed.finish {loop : Loop} (h : Directed s) : Directed (s.finish loop) := by
  have hsub : ∀ l ∈ s.loops.filter (·.id ≠ loop.id), l.aborted = false →
      (∃ l' ∈ s.loops, l'.aborted = false ∧ l'.source = l.source) ∨ l.source = s.cursor.getD "now" :=
    fun l hl hlive => .inl ⟨l, List.mem_of_mem_filter hl, hlive, rfl⟩
  unfold State.finish
  dsimp only
  split
  · split
    · exact h.loops rfl rfl rfl rfl rfl rfl hsub
    · unfold State.scheduleReconnect
      split <;> exact h.loops rfl rfl rfl rfl rfl rfl hsub
  · exact h.loops rfl rfl rfl rfl rfl rfl hsub

/-- When the last call is no `resetCursor`, nothing is expected. -/
theorem Directed.other (h : Directed s) (hlast : s'.lastCall = none) (hexpected : s'.expected = none)
    (hemitted : s'.emitted = s.emitted) : Directed s' := by
  refine ⟨fun _ _ hc => ?_, fun _ hc => ?_, hemitted ▸ h.silent, hemitted ▸ h.resumed⟩
  · rw [hlast] at hc
    cases hc
  · rw [hexpected] at hc
    cases hc

theorem Directed.settle (h : Directed s)
    (hlast : ∀ call cursor, s.lastCall = some (call, cursor) → s.starting = 0 ∧
      s.cursor = some cursor ∧
        (call ∉ s.resetting → ∀ l ∈ s.loops, l.aborted = false → l.source = cursor)) :
    Directed s.settle := by
  unfold State.settle
  split
  · rename_i hquiet
    refine { h with last := fun call cursor hc _ => hlast call cursor hc, expected := fun cursor hc => ?_ }
    obtain ⟨⟨call, cursor'⟩, hcall, rfl⟩ := Option.map_eq_some_iff.mp hc
    exact ⟨hquiet, call, hcall⟩
  · exact h

theorem Directed.expected_none (h : Directed s) (hquiet : ¬ s.Quiet) : s.expected = none := by
  cases he : s.expected with
  | none => rfl
  | some cursor => exact absurd (h.expected cursor he).1 hquiet

theorem Directed.lastCall_none (h : Directed s) (hstarting : s.starting ≠ 0) : s.lastCall = none := by
  cases hc : s.lastCall with
  | none => rfl
  | some last =>
    have hquiet : ¬ s.Quiet := fun hq => hstarting hq.1
    exact absurd (h.last last.1 last.2 hc (.inl hquiet)).1 hstarting

theorem Directed.started {token : Option String} {lastIndexed : Option NumText} (h : Directed s)
    (hstarting : s.starting ≠ 0) : Directed (s.started token lastIndexed) := by
  have hnone := h.lastCall_none hstarting
  have hquiet : ¬ s.Quiet := fun hq => hstarting hq.1
  have hdirected : Directed { s with
      starting := s.starting - 1
      cursor := some (token.getD "now")
      lastLedgerSequence := lastIndexed } :=
    h.other hnone (h.expected_none hquiet) rfl
  refine hdirected.connect.settle fun call cursor hc => ?_
  unfold State.connect at hc
  split at hc
  all_goals
    rw [hnone] at hc
    cases hc

/-- A `resetCursor` ends: every live loop has been connected since it was called. -/
theorem Directed.reset (h : Directed s) (hquiet : ¬ s.Quiet)
    (hlast : s'.lastCall = s.lastCall) (hstarting : s'.starting = s.starting)
    (hcursor : s'.cursor = s.cursor) (hexpected : s'.expected = s.expected)
    (hemitted : s'.emitted = s.emitted)
    (hlive : ∀ l ∈ s'.loops, l.aborted = false → l.source = s.cursor.getD "now") :
    Directed s'.settle := by
  have hall : ∀ call cursor, s'.lastCall = some (call, cursor) → s'.starting = 0 ∧
      s'.cursor = some cursor ∧
        (call ∉ s'.resetting → ∀ l ∈ s'.loops, l.aborted = false → l.source = cursor) := by
    intro call cursor hc
    rw [hlast] at hc
    obtain ⟨hzero, hat, -⟩ := h.last call cursor hc (.inl hquiet)
    refine ⟨hstarting.trans hzero, hcursor.trans hat, fun _ l hl hl' => ?_⟩
    rw [hlive l hl hl', hat]
    rfl
  have hnone := h.expected_none hquiet
  refine Directed.settle ⟨fun call cursor hc _ => hall call cursor hc, fun cursor hc => ?_,
    hemitted ▸ h.silent, hemitted ▸ h.resumed⟩ hall
  rw [hexpected, hnone] at hc
  cases hc

theorem Directed.cursorReset {call : Nat} (h : Directed s) (hwired : Wired s)
    (hcall : call ∈ s.resetting) : Directed (s.cursorReset call) := by
  have hquiet : ¬ s.Quiet := fun hq => by
    rw [hq.2] at hcall
    cases hcall
  have hwired' : Wired { s with resetting := s.resetting.erase call } := { hwired with }
  unfold State.cursorReset
  dsimp only
  split
  · have habort := disconnect_aborted hwired'
    unfold State.connect
    split
    · refine h.reset hquiet rfl rfl rfl rfl rfl fun l hl hlive => ?_
      rw [habort l hl] at hlive
      cases hlive
    · refine h.reset hquiet rfl rfl rfl rfl rfl fun l hl hlive => ?_
      rcases List.mem_cons.mp hl with rfl | hl
      · rfl
      · rw [habort l hl] at hlive
        cases hlive
  · rename_i hcurrent
    refine h.reset hquiet rfl rfl rfl rfl rfl fun l hl hlive => ?_
    rw [hwired.live l hl hlive] at hcurrent
    exact absurd rfl hcurrent

theorem Directed.resetFailed {call : Nat} (h : Directed s) (hcall : call ∈ s.resetting) :
    Directed ({ s with
      resetting := s.resetting.erase call
      lastCall := s.lastCall.filter fun last => last.1 ≠ call }.settle) := by
  have hquiet : ¬ s.Quiet := fun hq => by
    rw [hq.2] at hcall
    cases hcall
  have hnone := h.expected_none hquiet
  have hkeep : ∀ c cursor, s.lastCall.filter (fun last => last.1 ≠ call) = some (c, cursor) →
      s.lastCall = some (c, cursor) ∧ c ≠ call := by
    intro c cursor hc
    obtain ⟨hlast, hne⟩ := Option.filter_eq_some_iff.mp hc
    exact ⟨hlast, of_decide_eq_true hne⟩
  have hall : ∀ c cursor, s.lastCall.filter (fun last => last.1 ≠ call) = some (c, cursor) →
      s.starting = 0 ∧ s.cursor = some cursor ∧
        (c ∉ s.resetting.erase call → ∀ l ∈ s.loops, l.aborted = false → l.source = cursor) := by
    intro c cursor hc
    obtain ⟨hlast, hne⟩ := hkeep c cursor hc
    obtain ⟨hzero, hat, hlive⟩ := h.last c cursor hlast (.inl hquiet)
    exact ⟨hzero, hat, fun hended => hlive fun hmem => hended ((List.mem_erase_of_ne hne).mpr hmem)⟩
  refine Directed.settle ⟨fun c cursor hc _ => hall c cursor hc, fun cursor hc => ?_, h.silent,
    h.resumed⟩ hall
  rw [hnone] at hc
  cases hc

/-- Ledgers arrive while no `resetCursor` is in flight. -/
theorem Directed.emits {source : String} (events : List LedgerCloseEvent) (h : Directed s)
    (hrunning : s.stopped = false) (hresetting : s.resetting = [])
    (hsource : ∀ cursor, s.expected = some cursor → source = cursor) :
    Directed (events.foldl (State.emit source) s) := by
  induction events generalizing s with
  | nil => exact h
  | cons event events ih =>
    refine ih ⟨fun call cursor hc hq => ?_, nofun, fun e he => ?_, fun e he => ?_⟩ hrunning
      hresetting nofun
    · rcases hq with hq | hq
      · exact absurd ⟨(h.last call cursor hc (.inl hq)).1, hresetting⟩ hq
      · cases hq
    · rcases List.mem_cons.mp he with rfl | he
      · exact hrunning
      · exact h.silent e he
    · rcases List.mem_cons.mp he with rfl | he
      · exact hsource
      · exact h.resumed e he

theorem Directed.received {parse : List Char → Option Json} {loop : Loop} {text : List Char}
    (h : Directed s) (hwired : Wired s) (hmem : loop ∈ s.loops) (hlive : loop.aborted = false)
    (hapart : s.resetting ≠ [] → ledgersOf parse loop.buffer text = []) :
    Directed (received parse s loop text) := by
  have hbuffer : Directed { s with
      loops := upsert Loop.id { loop with buffer := restOf loop.buffer text } s.loops } := by
    refine h.loops rfl rfl rfl rfl rfl rfl fun l hl hl' => .inl ?_
    rcases mem_upsert hl with rfl | hl
    · exact ⟨loop, hmem, hlive, rfl⟩
    · exact ⟨l, hl, hl', rfl⟩
  unfold HorizonStream.received
  by_cases hresetting : s.resetting = []
  · refine hbuffer.emits _ ?_ hresetting fun cursor hc => ?_
    · refine Bool.eq_false_iff.mpr fun hstopped => ?_
      have hcurrent := hwired.live loop hmem hlive
      rw [(hwired.stopping (hwired.stopped hstopped)).1] at hcurrent
      cases hcurrent
    · obtain ⟨-, call, hcall⟩ := h.expected cursor hc
      obtain ⟨-, -, hfrom⟩ := h.last call cursor hcall (.inr hc)
      exact hfrom (by simp [hresetting]) loop hmem hlive
  · rw [hapart hresetting]
    exact hbuffer

end Directed

theorem step_directed {parse : List Char → Option Json} (s : State) (a : Act) (hwired : Wired s)
    (h : Directed s) (hapart : Apart parse s a) : Directed (step parse s a) := by
  cases a with
  | start =>
    simp only [step, State.start]
    split <;> exact h.other rfl rfl rfl
  | started token lastIndexed =>
    simp only [step]
    split
    · exact h
    · exact h.started ‹_›
  | startFailed =>
    simp only [step]
    split
    · exact h
    · rename_i hs
      have hnone := h.lastCall_none hs
      have hdirected : Directed { s with starting := s.starting - 1 } :=
        h.other hnone (h.expected_none fun hq => hs hq.1) rfl
      refine hdirected.settle fun call cursor hc => ?_
      rw [hnone] at hc
      cases hc
  | stop => exact h.other rfl rfl rfl
  | resetCursor cursor =>
    refine ⟨fun call cursor' hc _ => ?_, nofun, h.silent, h.resumed⟩
    obtain ⟨rfl, rfl⟩ := Prod.mk.inj (Option.some.inj hc)
    exact ⟨hapart, rfl, fun hended => absurd (.head _) hended⟩
  | cursorReset call =>
    simp only [step]
    split
    · exact h.cursorReset hwired ‹_›
    · exact h
  | resetFailed call =>
    simp only [step]
    split
    · exact h.resetFailed ‹_›
    · exact h
  | responded id ok =>
    simp only [step]
    split
    · exact h
    · rename_i loop hloop
      split
      · exact h
      · split
        · rename_i hok
          refine h.loops rfl rfl rfl rfl rfl rfl fun l hl hl' => .inl ?_
          rcases mem_upsert hl with rfl | hl
          · exact ⟨loop, mem_of_loop? hloop, hl', rfl⟩
          · exact ⟨l, hl, hl', rfl⟩
        · exact h.finish
  | data id text =>
    simp only [step]
    split
    · exact h
    · rename_i loop hloop
      split
      · exact h
      · split
        · exact h.finish
        · rename_i hlive
          rw [Bool.not_eq_true] at hlive
          exact h.received hwired (mem_of_loop? hloop) hlive fun hr => hapart hr loop hloop hlive
  | ended id =>
    simp only [step]
    split
    · exact h
    · exact h.finish
  | timer =>
    simp only [step]
    split
    · have hdirected : Directed { s with reconnectTimer := false } :=
        h.loops rfl rfl rfl rfl rfl rfl fun l hl hl' => .inl ⟨l, hl, hl', rfl⟩
      exact hdirected.connect
    · exact h

/-! ## Every run -/

theorem Wired.one {s : State} (h : Wired s) :
    (s.loops.filter fun l => l.aborted = false).length ≤ 1 := by
  have hnodup : ((s.loops.filter fun l => l.aborted = false).map Loop.id).Nodup :=
    h.nodup.sublist (List.filter_sublist.map _)
  have hcurrent : ∀ l ∈ s.loops.filter fun l => l.aborted = false, s.currentController = some l.id := by
    intro l hl
    obtain ⟨hmem, hlive⟩ := List.mem_filter.mp hl
    exact h.live l hmem (of_decide_eq_true hlive)
  generalize (s.loops.filter fun l => l.aborted = false) = live at hnodup hcurrent ⊢
  match live with
  | [] => exact Nat.zero_le _
  | [_] => exact Nat.le_refl _
  | l :: l' :: rest =>
    have hl := hcurrent l (.head _)
    rw [hcurrent l' (.tail _ (.head _))] at hl
    exact absurd (Option.some.inj hl).symm (List.ne_of_not_mem_cons (List.nodup_cons.mp hnodup).1)

theorem sound_of {s : State} (hwired : Wired s) (h : Directed s) : Sound s := by
  refine ⟨hwired.one, fun ht l hl => ?_, h.silent, h.resumed⟩
  by_contra hlive
  have hcurrent := hwired.live l hl (Bool.not_eq_true _ ▸ hlive)
  rw [hwired.timer ht] at hcurrent
  cases hcurrent

theorem wired_init : Wired init where
  nodup := .nil
  fresh := List.forall_mem_nil _
  live := List.forall_mem_nil _
  timer := nofun
  starting := fun h => absurd rfl h
  stopping := nofun
  stopped := nofun

theorem directed_init : Directed init where
  last := nofun
  expected := nofun
  silent := List.forall_mem_nil _
  resumed := List.forall_mem_nil _

/-- **In every run in which the calls keep `Apart`, one loop at most is live and none beside a timer,
nothing is emitted while the service is stopped, and the ledger after a `resetCursor` comes from where it
has directed the stream.** -/
theorem stream_sound (parse : List Char → Option Json) {acts : List Act}
    (hapart : Along (step parse) (Apart parse) init acts) :
    Always (step parse) Sound init acts :=
  always_of_inv (I := fun s => Wired s ∧ Directed s) (fun _ h => sound_of h.1 h.2)
    (fun s a h ha => ⟨step_wired s a h.1 ha, step_directed s a h.1 h.2 ha⟩)
    ⟨wired_init, directed_init⟩ hapart

/-- A record as Horizon streams it. -/
def ledger (hash pagingToken : String) : Json :=
  .obj [("hash", .str hash), ("paging_token", .str pagingToken),
    ("sequence", .num ⟨['7'], by decide, List.forall_mem_singleton.mpr rfl⟩)]

def record : Json := ledger "aa" "101"

def later : Json := ledger "bb" "51"

/-- `JSON.parse` of the two records. -/
def parseRecords (text : List Char) : Option Json :=
  [record, later].find? fun value => render value = text

def line (value : Json) : List Char := "data: ".toList ++ render value ++ [lineFeed]

/-- A stream that is redirected, ends, is connected again and stopped. -/
def redirected : List Act :=
  [.start, .started (some "100") none, .responded 0 true, .data 0 (line record), .resetCursor "50",
    .cursorReset 0, .ended 0, .responded 1 true, .data 1 (line later), .ended 1, .timer,
    .responded 2 true, .data 2 (line record), .stop, .ended 2]

theorem redirected_sound :
    Along (step parseRecords) (Apart parseRecords) init redirected ∧
      Always (step parseRecords) Sound init redirected ∧
      (run (step parseRecords) init redirected).emitted =
        [⟨"51", none, false⟩, ⟨"50", some "50", false⟩, ⟨"100", none, false⟩] := by
  have hapart : Along (step parseRecords) (Apart parseRecords) init redirected := by decide +kernel
  exact ⟨hapart, stream_sound parseRecords hapart, by decide +kernel⟩

/-- Both calls pass the guard before either connects. -/
def startedTwice : List Act := [.start, .start, .started none none, .started none none]

/-- The first loop ends before the second call connects. -/
def timerAndLoop : List Act := [.start, .start, .started none none, .ended 0, .started none none]

def stoppedOne : List Act :=
  startedTwice ++ ([.responded 0 true, .stop, .data 0 (line record)] : List Act)

/-- A ledger arrives while the new cursor is stored. -/
def overwritten : List Act :=
  [.start, .started (some "100") none, .responded 0 true, .resetCursor "50", .data 0 (line record),
    .cursorReset 0, .responded 1 true, .data 1 (line later)]

theorem calls_overlap :
    ¬ Sound (run (step parseRecords) init startedTwice) ∧
      ¬ Sound (run (step parseRecords) init timerAndLoop) ∧
      ¬ Sound (run (step parseRecords) init stoppedOne) ∧
      ¬ Sound (run (step parseRecords) init overwritten) := by
  refine ⟨?_, ?_, ?_, ?_⟩ <;> decide +kernel

end HorizonStream
end Indexer
end TradeCore
