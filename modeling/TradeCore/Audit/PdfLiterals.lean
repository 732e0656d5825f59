import TradeCore.Lib.LiteralString
import TradeCore.Audit.PdfReading

/-!
# TradeCore.Audit.PdfLiterals

Where the string literals of a PDF report end.

`pdfText` escapes the three special characters, and `latin1` keeps the low byte of every code unit. A code
unit from 0x100 on whose low byte is special is not escaped: it is a *stray*. `literals_end_iff` says that
the literals of a report end where they are meant to exactly when the strays of each line cancel out.
-/

namespace TradeCore
namespace Audit

open Lib.Layout Lib.LiteralString

/-- The parentheses and the backslash of a PDF string. -/
def pdfSymbols : Symbols UInt8 where
  opening := 0x28
  closing := 0x29
  escape := 0x5C
  closing_ne := by decide

def isSpecial (c : UInt16) : Bool := c = backslash || c = leftParen || c = rightParen

/-! ## The condition -/

/-- A special character stands behind its own backslash, so it is text; a stray backslash before the two
takes that one away. Any other code unit stands for its low byte. -/
def readUnit (blank : UInt16 → Bool) (s : State) (c : UInt16) : Option State :=
  if isSpecial c then
    if s.escaped then step pdfSymbols { s with escaped := false } c.toUInt8 else some s
  else if blank c then some { s with escaped := false }
  else step pdfSymbols s c.toUInt8

def readLine (blank : UInt16 → Bool) (s : State) (line : Text) : Option State :=
  line.foldlM (readUnit blank) s

/-- The strays of a line cancel out; the units of `blank` count as spaces. -/
def Cancels (blank : UInt16 → Bool) (line : Text) : Prop := readLine blank .initial line = some .initial

instance (blank : UInt16 → Bool) (line : Text) : Decidable (Cancels blank line) :=
  inferInstanceAs (Decidable (_ = _))

/-- White space counts as a space in the rows only: nothing else is collapsed. -/
structure StraysCancel (table : ReportTable) : Prop where
  title : Cancels (fun _ => false) table.title
  generatedAt : Cancels (fun _ => false) table.generatedAt
  columns : Cancels (fun _ => false) (join (ascii " | ") table.columns)
  rows : ∀ row ∈ table.rows, Cancels isSpace (join (ascii " | ") row)

/-! ## The literals -/

/-- What the content stream of a page holds before the text of line `k`. -/
def written (pageLines : List Text) (k : Nat) : Text :=
  concat [ascii "BT /F1 9 Tf 12 TL 40 800 Td\n",
    ((pageLines.take k).zipIdx.flatMap showLine),
    if k = 0 then ascii "(" else ascii "T* ("]

/-- The place in the file where the text of line `k` of page `i` begins, behind its parenthesis. -/
def literalStart (table : ReportTable) (i : Nat) (pageLines : List Text) (k : Nat) : Nat :=
  reportOffset table (5 + 2 * i) +
    (concat [decimal (5 + 2 * i), ascii " 0 obj\n<< /Length ", decimal (contentStream pageLines).length,
      ascii " >>\nstream\n", written pageLines k]).length

/-- The literal of a line begins at `pos`. -/
structure Written (table : ReportTable) (pos : Nat) (line : Text) : Prop where
  place : ∃ i pageLines k, (reportPages table)[i]? = some pageLines ∧ pageLines[k]? = some line ∧
    pos = literalStart table i pageLines k

/-- Every literal is closed by the parenthesis behind its text. -/
def LiteralsEnd (table : ReportTable) : Prop :=
  ∀ pos line, Written table pos line →
    closingAt pdfSymbols .initial ((toPdf table).drop pos) = some (pdfText line).length

theorem contentStream_split {pageLines : List Text} {k : Nat} {line : Text} (h : pageLines[k]? = some line) :
    ∃ after, contentStream pageLines = written pageLines k ++ (pdfText line ++ (ascii ")" ++ after)) := by
  obtain ⟨hk, hline⟩ := List.getElem?_eq_some_iff.mp h
  have hsplit : pageLines = pageLines.take k ++ line :: pageLines.drop (k + 1) := by
    rw [← hline, List.getElem_cons_drop, List.take_append_drop]
  have hlength : (pageLines.take k).length = k := List.length_take_of_le (Nat.le_of_lt hk)
  have hshow : showLine (line, k) =
      (if k = 0 then ascii "(" else ascii "T* (") ++ (pdfText line ++ (ascii ")" ++ ascii " Tj\n")) := by
    have hlast : ascii ") Tj\n" = ascii ")" ++ ascii " Tj\n" := by
      rw [← ascii_append]
      rfl
    rw [showLine]
    split <;> simp only [concat, List.flatten_cons, List.flatten_nil, List.append_nil, hlast]
  have hlines : pageLines.zipIdx.flatMap showLine =
      (pageLines.take k).zipIdx.flatMap showLine ++
        (showLine (line, k) ++ ((pageLines.drop (k + 1)).zipIdx (k + 1)).flatMap showLine) := by
    conv_lhs => rw [hsplit]
    rw [List.zipIdx_append, hlength, List.zipIdx_cons, List.flatMap_append, List.flatMap_cons, Nat.zero_add]
  refine ⟨ascii " Tj\n" ++ (((pageLines.drop (k + 1)).zipIdx (k + 1)).flatMap showLine ++ ascii "ET"), ?_⟩
  rw [contentStream_eq, hlines, hshow, written]
  simp only [concat, List.flatten_cons, List.flatten_nil, List.append_nil, List.append_assoc]

theorem literal_at {table : ReportTable} {pos : Nat} {line : Text} (h : Written table pos line) :
    ∃ after, (toPdf table).drop pos = latin1 (pdfText line) ++ pdfSymbols.closing :: after := by
  obtain ⟨i, pageLines, k, hpage, hline, rfl⟩ := h.place
  obtain ⟨hi, -⟩ := List.getElem?_eq_some_iff.mp hpage
  have hcount : objectCount table = 3 + 2 * (reportPages table).length := rfl
  obtain ⟨after, hsplit⟩ := contentStream_split hline
  have hat := object_at (n := 5 + 2 * i) (by omega) (by omega : _ ≤ objectCount table)
  have hfirst : ascii " 0 obj\n<< /Length " = ascii " 0 obj\n" ++ ascii "<< /Length " := by
    rw [← ascii_append]
    rfl
  have hobject : reportObject table (5 + 2 * i) =
      concat [decimal (5 + 2 * i), ascii " 0 obj\n<< /Length ", decimal (contentStream pageLines).length,
        ascii " >>\nstream\n", written pageLines k] ++
      (pdfText line ++ (ascii ")" ++ (after ++ (ascii "\nendstream" ++ ascii "\nendobj\n")))) := by
    rw [reportObject, indirectObject, (objectsOf_page hpage).2, contentObject, byteLength]
    simp only [concat, List.flatten_cons, List.flatten_nil, List.append_nil, hfirst, hsplit,
      List.append_assoc]
  rw [hobject, latin1_append, at_append, length_latin1] at hat
  obtain ⟨rest, hrest⟩ := hat.2
  rw [literalStart, ← hrest, latin1_append, latin1_append, List.append_assoc, List.append_assoc]
  exact ⟨_, rfl⟩

/-! ## Reading the units in place of the bytes -/

theorem readLine_append (blank : UInt16 → Bool) (s : State) (a b : Text) :
    readLine blank s (a ++ b) = (readLine blank s a).bind fun s => readLine blank s b :=
  List.foldlM_append

theorem readLine_cons (blank : UInt16 → Bool) (s : State) (c : UInt16) (cs : Text) :
    readLine blank s (c :: cs) = (readUnit blank s c).bind fun s => readLine blank s cs :=
  List.foldlM_cons ..

theorem pdfText_cons (c : UInt16) (cs : Text) :
    pdfText (c :: cs) = (if isSpecial c then [backslash, c] else [c]) ++ pdfText cs := by
  rw [pdfText, List.flatMap_cons, pdfText]
  simp only [isSpecial, Bool.or_eq_true, decide_eq_true_eq, or_assoc]

theorem run_unit (s : State) (c : UInt16) :
    run pdfSymbols s (latin1 (if isSpecial c then [backslash, c] else [c])) =
      readUnit (fun _ => false) s c := by
  have hbackslash : backslash.toUInt8 = pdfSymbols.escape := by decide
  obtain ⟨depth, escaped⟩ := s
  rw [readUnit]
  cases hspecial : isSpecial c with
  | false => simp [latin1, run]
  | true =>
    cases escaped <;> simp [latin1, run, hbackslash, step]

theorem run_pdfText (s : State) (line : Text) :
    run pdfSymbols s (latin1 (pdfText line)) = readLine (fun _ => false) s line := by
  induction line generalizing s with
  | nil => rfl
  | cons c cs ih =>
    rw [pdfText_cons, latin1_append, run_append, run_unit, readLine_cons]
    simp only [ih]

/-- A line without strays is harmless. -/
theorem cancels_of_no_stray {line : Text}
    (h : ∀ c ∈ line, isSpecial c = true ∨ c.toUInt8 ∉ [pdfSymbols.opening, pdfSymbols.closing, pdfSymbols.escape])
    (blank : UInt16 → Bool) : Cancels blank line := by
  induction line with
  | nil => rfl
  | cons c cs ih =>
    have hunit : readUnit blank .initial c = some .initial := by
      rw [readUnit]
      rcases h c (by simp) with hspecial | hbyte
      · rw [if_pos hspecial]
        rfl
      · simp only [List.mem_cons, List.not_mem_nil, or_false, not_or] at hbyte
        split
        · rfl
        · split
          · rfl
          · simp [step, State.initial, hbyte]
    rw [Cancels, readLine_cons, hunit]
    exact ih fun c hc => h c (by simp [hc])

/-! ## The lines -/

theorem not_special_of_isSpace {c : UInt16} (h : isSpace c = true) : isSpecial c = false := by
  cases hspecial : isSpecial c with
  | false => rfl
  | true =>
    simp only [isSpecial, Bool.or_eq_true, decide_eq_true_eq] at hspecial
    rcases hspecial with (rfl | rfl) | rfl <;> exact absurd h (by decide)

theorem readUnit_blank (s : State) {c : UInt16} (h : isSpace c = true) :
    readUnit isSpace s c = some { s with escaped := false } := by
  rw [readUnit, not_special_of_isSpace h]
  simp [h]

theorem readUnit_space (s : State) : readUnit (fun _ => false) s (unit ' ') = some { s with escaped := false } := by
  obtain ⟨depth, escaped⟩ := s
  cases escaped <;> rfl

theorem readUnit_of_not_isSpace (s : State) {c : UInt16} (h : isSpace c = false) :
    readUnit isSpace s c = readUnit (fun _ => false) s c := by
  rw [readUnit, readUnit]
  simp [h]

theorem readLine_collapse (spaced : Bool) (s : State) (hs : spaced = true → s.escaped = false) (cell : Text) :
    readLine (fun _ => false) s (collapse spaced cell) = readLine isSpace s cell := by
  induction cell generalizing spaced s with
  | nil => rfl
  | cons c cs ih =>
    rw [collapse, readLine_cons]
    cases hc : isSpace c with
    | false =>
      rw [if_neg Bool.false_ne_true, readLine_cons, readUnit_of_not_isSpace s hc]
      congr 1
      funext s'
      exact ih false s' fun h => absurd h Bool.false_ne_true
    | true =>
      rw [if_pos rfl, readUnit_blank s hc]
      cases spaced with
      | false =>
        rw [if_neg Bool.false_ne_true, readLine_cons, readUnit_space]
        exact ih true _ fun _ => rfl
      | true =>
        have hsame : ({ s with escaped := false } : State) = s := by
          obtain ⟨depth, escaped⟩ := s
          rw [State.mk.injEq]
          exact ⟨rfl, (hs rfl).symm⟩
        rw [if_pos rfl, hsame]
        exact ih true s hs

theorem readLine_separator (s : State) :
    readLine (fun _ => false) s (ascii " | ") = readLine isSpace s (ascii " | ") := by
  obtain ⟨depth, escaped⟩ := s
  cases escaped <;> rfl

theorem join_cons (separator first second : Text) (rest : List Text) :
    join separator (first :: second :: rest) = first ++ (separator ++ join separator (second :: rest)) := by
  simp [join]

theorem readLine_row (s : State) (row : List Text) :
    readLine (fun _ => false) s (rowLine row) = readLine isSpace s (join (ascii " | ") row) := by
  induction row generalizing s with
  | nil => rfl
  | cons cell row ih =>
    have hcell := fun s => readLine_collapse false s (fun h => absurd h Bool.false_ne_true) cell
    cases row with
    | nil => simpa [rowLine, join] using hcell s
    | cons next row =>
      have hrow : rowLine (cell :: next :: row) =
          collapse false cell ++ (ascii " | " ++ rowLine (next :: row)) := join_cons ..
      rw [hrow, join_cons, readLine_append, readLine_append, hcell]
      simp only [readLine_append, readLine_separator, ih]

theorem readLine_rule (count : Nat) (s : State) (hs : s.escaped = false) :
    readLine (fun _ => false) s (List.replicate count (unit '-')) = some s := by
  induction count with
  | zero => rfl
  | succ count ih =>
    have hdash : readUnit (fun _ => false) s (unit '-') = some s := by
      obtain ⟨depth, escaped⟩ := s
      cases hs
      rfl
    rw [List.replicate_succ, readLine_cons, hdash]
    exact ih

theorem lines_cancel_iff (table : ReportTable) :
    (∀ line ∈ textLines table, Cancels (fun _ => false) line) ↔ StraysCancel table := by
  have hgenerated : Cancels (fun _ => false) (ascii "Generated: " ++ table.generatedAt) ↔
      Cancels (fun _ => false) table.generatedAt := by
    have hlead : readLine (fun _ => false) .initial (ascii "Generated: ") = some .initial := by decide
    rw [Cancels, readLine_append, hlead]
    rfl
  have hempty : Cancels (fun _ => false) [] := rfl
  have hrule : ∀ count, Cancels (fun _ => false) (List.replicate count (unit '-')) :=
    fun count => readLine_rule count .initial rfl
  have hrows : (∀ row ∈ table.rows, Cancels (fun _ => false) (rowLine row)) ↔
      ∀ row ∈ table.rows, Cancels isSpace (join (ascii " | ") row) := by
    simp only [Cancels, readLine_row]
  simp only [textLines, List.mem_append, List.mem_cons, List.not_mem_nil, or_false, List.mem_map, or_imp,
    forall_and, forall_eq, forall_exists_index, and_imp, forall_apply_eq_imp_iff₂, hgenerated, hempty,
    hrule, hrows, and_true]
  constructor
  · rintro ⟨⟨⟨htitle, hgen⟩, hcolumns⟩, hrows⟩
    exact ⟨htitle, hgen, hcolumns, hrows⟩
  · rintro ⟨htitle, hgen, hcolumns, hrows⟩
    exact ⟨⟨⟨htitle, hgen⟩, hcolumns⟩, hrows⟩

/-! ## Every literal -/

theorem literal_end_iff {table : ReportTable} {pos : Nat} {line : Text} (h : Written table pos line) :
    closingAt pdfSymbols .initial ((toPdf table).drop pos) = some (pdfText line).length ↔
      Cancels (fun _ => false) line := by
  obtain ⟨after, hafter⟩ := literal_at h
  have hlength : (pdfText line).length = (latin1 (pdfText line)).length := (length_latin1 _).symm
  rw [hafter, hlength, closingAt_eq_length, run_pdfText, Cancels]

theorem exists_written {table : ReportTable} {line : Text} (h : line ∈ textLines table) :
    ∃ pos, Written table pos line := by
  have hflatten : (reportPages table).flatten = textLines table := slices_flatten (textLines table) 0
  rw [← hflatten, List.mem_flatten] at h
  obtain ⟨page, hpage, hline⟩ := h
  obtain ⟨i, hi⟩ := List.mem_iff_getElem?.mp hpage
  obtain ⟨k, hk⟩ := List.mem_iff_getElem?.mp hline
  exact ⟨_, ⟨i, page, k, hi, hk, rfl⟩⟩

theorem Written.mem {table : ReportTable} {pos : Nat} {line : Text} (h : Written table pos line) :
    line ∈ textLines table := by
  have hflatten : (reportPages table).flatten = textLines table := slices_flatten (textLines table) 0
  obtain ⟨i, page, k, hi, hk, -⟩ := h.place
  rw [← hflatten]
  exact List.mem_flatten.mpr ⟨page, List.mem_of_getElem? hi, List.mem_of_getElem? hk⟩

theorem literalsEnd_iff_lines (table : ReportTable) :
    LiteralsEnd table ↔ ∀ line ∈ textLines table, Cancels (fun _ => false) line := by
  constructor
  · intro h line hline
    obtain ⟨pos, hwritten⟩ := exists_written hline
    exact (literal_end_iff hwritten).mp (h pos line hwritten)
  · intro h pos line hwritten
    exact (literal_end_iff hwritten).mpr (h line hwritten.mem)

theorem literals_end_iff (table : ReportTable) : LiteralsEnd table ↔ StraysCancel table :=
  (literalsEnd_iff_lines table).trans (lines_cancel_iff table)

/-- The low byte of U+0129 is a closing parenthesis: what stands behind it in the cell is read as
operators. -/
theorem stray_parenthesis_closes :
    ¬ LiteralsEnd ⟨ascii "t", ascii "now", [ascii "a"], [[[0x0129] ++ ascii " Tj ET"]]⟩ := by
  rw [literalsEnd_iff_lines, lines_cancel_iff]
  intro h
  exact absurd (h.rows _ (List.mem_singleton_self _)) (by decide)

end Audit
end TradeCore
