import TradeCore.Lib.StreamDecoder
import TradeCore.Indexer.HorizonStream

/-!
# TradeCore.Indexer.StreamChunks

The chunks of one connection of the ledger stream.

A loop decodes each chunk it reads, puts the text behind the line that is not complete yet, and handles
the lines this completes. `chunks_irrelevant` says that the ledgers, the cursor and the last sequence
depend on the bytes of the connection, not on where they are cut.
-/

namespace TradeCore
namespace Indexer
namespace HorizonStream

open Lib

/-- A `TextDecoder` that is called with `stream: true`. -/
abbrev TextDecoder := StreamDecoder UInt8 Char

/-- The reads of a loop: the text of each chunk. -/
def reads (decoder : TextDecoder) (id : Nat) (chunks : List (List UInt8)) : List Act :=
  (outputs decoder.decode decoder.initial chunks).map (.data id)

section Records

variable (parse : List Char → Option Json)

/-- The ledgers that a step emits. -/
def recordsOf (s : State) : Act → List LedgerCloseEvent
  | .data id text =>
    match loop? s id with
    | none => []
    | some loop => if loop.reading = true ∧ loop.aborted = false then ledgersOf parse loop.buffer text else []
  | _ => []

def records (s : State) : List Act → List LedgerCloseEvent
  | [] => []
  | a :: as => recordsOf parse s a ++ records (step parse s a) as

/-- The cursor behind some ledgers. -/
def cursorAfter (cursor : Option String) (events : List LedgerCloseEvent) : Option String :=
  events.foldl (fun _ event => some event.pagingToken) cursor

def sequenceAfter (sequence : Option NumText) (events : List LedgerCloseEvent) : Option NumText :=
  events.foldl (fun _ event => some event.sequence) sequence

variable {parse}

/-! ## One piece of text -/

theorem ledgersOf_append (buffer text more : List Char) :
    ledgersOf parse buffer (text ++ more) =
      ledgersOf parse buffer text ++ ledgersOf parse (restOf buffer text) more := by
  rw [ledgersOf, ← List.append_assoc, splitOn_append, List.dropLast_append_of_ne_nil (List.splitOn_ne_nil _ _),
    List.filterMap_append]
  rfl

theorem ledgersOf_restOf (buffer text : List Char) : ledgersOf parse (restOf buffer text) [] = [] := by
  have happend := @ledgersOf_append parse buffer text []
  rw [List.append_nil] at happend
  exact List.append_right_eq_self.mp happend.symm

theorem emits (source : String) (s : State) (events : List LedgerCloseEvent) :
    (events.foldl (State.emit source) s).loops = s.loops ∧
      (events.foldl (State.emit source) s).cursor = cursorAfter s.cursor events ∧
      (events.foldl (State.emit source) s).lastLedgerSequence =
        sequenceAfter s.lastLedgerSequence events := by
  induction events generalizing s with
  | nil => exact ⟨rfl, rfl, rfl⟩
  | cons event events ih => exact ih (State.emit source s event)

section Live

variable {s : State} {loop : Loop}

theorem step_data (hloop : loop? s loop.id = some loop) (hreading : loop.reading = true)
    (hlive : loop.aborted = false) (text : List Char) :
    recordsOf parse s (.data loop.id text) = ledgersOf parse loop.buffer text ∧
      loop? (step parse s (.data loop.id text)) loop.id =
        some { loop with buffer := restOf loop.buffer text } ∧
      (step parse s (.data loop.id text)).cursor =
        cursorAfter s.cursor (ledgersOf parse loop.buffer text) ∧
      (step parse s (.data loop.id text)).lastLedgerSequence =
        sequenceAfter s.lastLedgerSequence (ledgersOf parse loop.buffer text) := by
  have hstep : step parse s (.data loop.id text) = received parse s loop text := by
    simp [step, hloop, hreading, hlive]
  obtain ⟨hloops, hcursor, hsequence⟩ := emits loop.source
    { s with loops := upsert Loop.id { loop with buffer := restOf loop.buffer text } s.loops }
    (ledgersOf parse loop.buffer text)
  rw [hstep]
  refine ⟨by simp [recordsOf, hloop, hreading, hlive], ?_, hcursor, hsequence⟩
  rw [loop?, received, hloops, lookup_upsert, if_pos rfl]

theorem run_data (hloop : loop? s loop.id = some loop) (hreading : loop.reading = true)
    (hlive : loop.aborted = false) (hbuffer : ledgersOf parse loop.buffer [] = []) (texts : List (List Char)) :
    records parse s (texts.map (.data loop.id)) = ledgersOf parse loop.buffer texts.flatten ∧
      (run (step parse) s (texts.map (.data loop.id))).cursor =
        cursorAfter s.cursor (ledgersOf parse loop.buffer texts.flatten) ∧
      (run (step parse) s (texts.map (.data loop.id))).lastLedgerSequence =
        sequenceAfter s.lastLedgerSequence (ledgersOf parse loop.buffer texts.flatten) := by
  induction texts generalizing s loop with
  | nil =>
    rw [List.flatten_nil, hbuffer]
    exact ⟨rfl, rfl, rfl⟩
  | cons text texts ih =>
    obtain ⟨hrecords, hnext, hcursor, hsequence⟩ := @step_data parse s loop hloop hreading hlive text
    obtain ⟨hrecords', hcursor', hsequence'⟩ :=
      @ih _ { loop with buffer := restOf loop.buffer text } hnext hreading hlive
        (ledgersOf_restOf loop.buffer text)
    rw [List.map_cons, List.flatten_cons, ledgersOf_append, records, run, hrecords]
    refine ⟨?_, ?_, ?_⟩
    · rw [hrecords']
    · rw [hcursor', hcursor, cursorAfter, cursorAfter, cursorAfter, List.foldl_append]
    · rw [hsequence', hsequence, sequenceAfter, sequenceAfter, sequenceAfter, List.foldl_append]

theorem run_reads (decoder : TextDecoder) (hloop : loop? s loop.id = some loop)
    (hreading : loop.reading = true) (hlive : loop.aborted = false) (hbuffer : loop.buffer = [])
    (chunks : List (List UInt8)) :
    records parse s (reads decoder loop.id chunks) = ledgersOf parse [] (decoder.decoded chunks.flatten) ∧
      (run (step parse) s (reads decoder loop.id chunks)).cursor =
        cursorAfter s.cursor (ledgersOf parse [] (decoder.decoded chunks.flatten)) ∧
      (run (step parse) s (reads decoder loop.id chunks)).lastLedgerSequence =
        sequenceAfter s.lastLedgerSequence (ledgersOf parse [] (decoder.decoded chunks.flatten)) := by
  have hempty : ledgersOf parse loop.buffer [] = [] := by
    rw [hbuffer]
    rfl
  have hrun := run_data hloop hreading hlive hempty (outputs decoder.decode decoder.initial chunks)
  rw [decoder.yields chunks, hbuffer] at hrun
  exact hrun

theorem chunks_irrelevant (decoder : TextDecoder) (hloop : loop? s loop.id = some loop)
    (hreading : loop.reading = true) (hlive : loop.aborted = false) (hbuffer : loop.buffer = [])
    {chunks chunks' : List (List UInt8)} (h : chunks.flatten = chunks'.flatten) :
    records parse s (reads decoder loop.id chunks) = records parse s (reads decoder loop.id chunks') ∧
      (run (step parse) s (reads decoder loop.id chunks)).cursor =
        (run (step parse) s (reads decoder loop.id chunks')).cursor ∧
      (run (step parse) s (reads decoder loop.id chunks)).lastLedgerSequence =
        (run (step parse) s (reads decoder loop.id chunks')).lastLedgerSequence := by
  obtain ⟨hrecords, hcursor, hsequence⟩ :=
    @run_reads parse s loop decoder hloop hreading hlive hbuffer chunks
  obtain ⟨hrecords', hcursor', hsequence'⟩ :=
    @run_reads parse s loop decoder hloop hreading hlive hbuffer chunks'
  rw [hrecords, hcursor, hsequence, hrecords', hcursor', hsequence', h]
  exact ⟨rfl, rfl, rfl⟩

end Live

end Records

/-- A service whose stream has connected. -/
def connected : State :=
  { init with
    currentController := some 0
    connected := true
    loops := [⟨0, "now", false, true, []⟩]
    nextId := 1 }

/-- A comment with a character of two bytes, and the line of a ledger. -/
def streamed : List UInt8 :=
  [0x3A, 0xC3, 0xA9, 0x0D, 0x0A] ++ (line record).map fun c => c.toNat.toUInt8

/-- Cut inside the character, between `\r` and `\n`, and inside the ledger. -/
def cut : List (List UInt8) :=
  [streamed.take 2, (streamed.drop 2).take 2, (streamed.drop 4).take 9, streamed.drop 13]

theorem chunks_irrelevant_cut :
    records parseRecords connected (reads utf8 0 cut) = records parseRecords connected (reads utf8 0 [streamed]) ∧
      (run (step parseRecords) connected (reads utf8 0 cut)).cursor =
        (run (step parseRecords) connected (reads utf8 0 [streamed])).cursor ∧
      (run (step parseRecords) connected (reads utf8 0 cut)).lastLedgerSequence =
        (run (step parseRecords) connected (reads utf8 0 [streamed])).lastLedgerSequence :=
  @chunks_irrelevant parseRecords connected ⟨0, "now", false, true, []⟩ utf8 rfl rfl rfl rfl cut [streamed]
    (by decide +kernel)

end HorizonStream
end Indexer
end TradeCore
