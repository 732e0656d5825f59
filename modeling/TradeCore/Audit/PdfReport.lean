import Mathlib.Data.List.Induction
import TradeCore.Lib.DecimalText
import TradeCore.Lib.Layout
import TradeCore.Audit.ReportTable

/-!
# TradeCore.Audit.PdfReport

The PDF text of a compliance report.

`toPdf` numbers the objects of the file in one loop, fills them in a second and writes them behind each
other in a third, which also notes where each begins.
-/

namespace TradeCore
namespace Audit

open Lib.Layout

/-! ## Texts -/

/-- `${n}`. -/
def decimal (n : Nat) : Text := (Nat.toDigits 10 n).map unit

def concat (texts : List Text) : Text := texts.flatten

/-- `Buffer.byteLength(text, 'latin1')`: one byte for each code unit. -/
def byteLength (text : Text) : Nat := text.length

/-- `Buffer.from(text, 'latin1')`: the low byte of each code unit. -/
def latin1 (text : Text) : List UInt8 := text.map UInt16.toUInt8

/-- The class `\s`. -/
def isSpace (c : UInt16) : Bool :=
  c.toNat ∈ [0x09, 0x0A, 0x0B, 0x0C, 0x0D, 0x20, 0xA0, 0x1680, 0x2000, 0x2001, 0x2002, 0x2003,
    0x2004, 0x2005, 0x2006, 0x2007, 0x2008, 0x2009, 0x200A, 0x2028, 0x2029, 0x202F, 0x205F, 0x3000,
    0xFEFF]

/-- `replace(/\s+/g, ' ')`, behind a space that is written already when `spaced`. -/
def collapse (spaced : Bool) : Text → Text
  | [] => []
  | c :: cs =>
    if isSpace c then
      if spaced then collapse true cs else unit ' ' :: collapse true cs
    else c :: collapse false cs

def backslash : UInt16 := 0x5C

def leftParen : UInt16 := 0x28

def rightParen : UInt16 := 0x29

def pdfText (value : Text) : Text :=
  value.flatMap fun c => if c = backslash ∨ c = leftParen ∨ c = rightParen then [backslash, c] else [c]

/-! ## The lines of the report -/

def linesPerPage : Nat := 50

def rowLine (row : List Text) : Text := join (ascii " | ") (row.map (collapse false))

def textLines (table : ReportTable) : List Text :=
  let textLines := [table.title, ascii "Generated: " ++ table.generatedAt, []]
  let textLines := textLines ++ [join (ascii " | ") table.columns]
  let textLines := textLines ++
    [List.replicate (min 120 (join (ascii " | ") table.columns).length) (unit '-')]
  textLines ++ table.rows.map rowLine

/-- The loop over the first lines of the pages, from line `i` on. -/
def slices (textLines : List Text) (i : Nat) : List (List Text) :=
  if i < textLines.length then
    (textLines.drop i).take linesPerPage :: slices textLines (i + linesPerPage)
  else []
termination_by textLines.length - i
decreasing_by
  simp only [linesPerPage]
  omega

def pagesOf (textLines : List Text) : List (List Text) :=
  let pages := slices textLines 0
  if pages = [] then [[ascii "(no records)"]] else pages

theorem slices_flatten (textLines : List Text) (i : Nat) :
    (slices textLines i).flatten = textLines.drop i := by
  fun_induction slices textLines i with
  | case1 i h ih =>
    rw [List.flatten_cons, ih, ← List.drop_drop, List.take_append_drop]
  | case2 i h =>
    rw [List.flatten_nil]
    exact (List.drop_eq_nil_of_le (Nat.le_of_not_lt h)).symm

theorem length_le_of_mem_slices (textLines : List Text) (i : Nat) :
    ∀ page ∈ slices textLines i, page.length ≤ linesPerPage := by
  fun_induction slices textLines i with
  | case1 i h ih =>
    intro page hpage
    rcases List.mem_cons.mp hpage with rfl | hpage
    · exact List.length_take_le ..
    · exact ih page hpage
  | case2 i h => simp

/-- A report has a title, so the page for no records is never written. -/
theorem pagesOf_textLines (table : ReportTable) :
    pagesOf (textLines table) = slices (textLines table) 0 := by
  have hpos : 0 < (textLines table).length := by simp [textLines]
  have hne : slices (textLines table) 0 ≠ [] := by
    rw [slices, if_pos hpos]
    exact List.cons_ne_nil _ _
  rw [pagesOf]
  exact if_neg hne

/-! ## The objects -/

structure Numbering where
  pageObjNums : List Nat
  contentObjNums : List Nat
  nextObj : Nat

def Numbering.next (s : Numbering) : Numbering where
  pageObjNums := s.pageObjNums ++ [s.nextObj]
  contentObjNums := s.contentObjNums ++ [s.nextObj + 1]
  nextObj := s.nextObj + 2

def numbering (pages : List (List Text)) : Numbering :=
  pages.foldl (fun s _ => s.next) ⟨[], [], 4⟩

theorem numbering_eq (pages : List (List Text)) :
    numbering pages = {
      pageObjNums := (List.range pages.length).map (4 + 2 * ·)
      contentObjNums := (List.range pages.length).map (5 + 2 * ·)
      nextObj := 4 + 2 * pages.length } := by
  induction pages using List.reverseRecOn with
  | nil => rfl
  | append_singleton pages page ih =>
    have hnext : 4 + 2 * pages.length + 1 = 5 + 2 * pages.length := by omega
    have hlength : 4 + 2 * pages.length + 2 = 4 + 2 * (pages.length + 1) := by omega
    rw [numbering] at ih ⊢
    rw [List.foldl_append, ih, List.foldl_cons, List.foldl_nil, Numbering.next, List.length_append,
      List.length_singleton, List.range_succ, hnext, hlength]
    simp only [List.map_append, List.map_cons, List.map_nil]

/-- An array with holes, which print as they do in a template. -/
abbrev Objects := Nat → Text

def catalogObject : Text := ascii "<< /Type /Catalog /Pages 2 0 R >>"

def pagesObject (pageObjNums : List Nat) (count : Nat) : Text :=
  concat [ascii "<< /Type /Pages /Kids [",
    join (ascii " ") (pageObjNums.map fun n => decimal n ++ ascii " 0 R"),
    ascii "] /Count ", decimal count, ascii " >>"]

def fontObject : Text := ascii "<< /Type /Font /Subtype /Type1 /BaseFont /Helvetica >>"

def pageObject (contentNum : Nat) : Text :=
  concat [ascii "<< /Type /Page /Parent 2 0 R /MediaBox [0 0 595 842] ",
    ascii "/Resources << /Font << /F1 3 0 R >> >> /Contents ", decimal contentNum, ascii " 0 R >>"]

def showLine (line : Text × Nat) : Text :=
  let escaped := pdfText line.1
  if line.2 = 0 then concat [ascii "(", escaped, ascii ") Tj\n"]
  else concat [ascii "T* (", escaped, ascii ") Tj\n"]

/-- The font size, the leading and the corner are 9, 12, 40 and 800. -/
def contentStream (pageLines : List Text) : Text :=
  let stream := concat [ascii "BT /F1 ", decimal 9, ascii " Tf ", decimal 12, ascii " TL ", decimal 40,
    ascii " ", decimal 800, ascii " Td\n"]
  let stream := pageLines.zipIdx.foldl (fun stream line => stream ++ showLine line) stream
  stream ++ ascii "ET"

/-- The settings, then the operators that show the lines. -/
theorem contentStream_eq (pageLines : List Text) :
    contentStream pageLines = concat [ascii "BT /F1 9 Tf 12 TL 40 800 Td\n",
      pageLines.zipIdx.flatMap showLine, ascii "ET"] := by
  have hsettings : concat [ascii "BT /F1 ", decimal 9, ascii " Tf ", decimal 12, ascii " TL ", decimal 40,
      ascii " ", decimal 800, ascii " Td\n"] = ascii "BT /F1 9 Tf 12 TL 40 800 Td\n" := by
    have hnumbers : decimal 9 = ascii "9" ∧ decimal 12 = ascii "12" ∧ decimal 40 = ascii "40" ∧
        decimal 800 = ascii "800" := by decide
    simp only [concat, List.flatten_cons, List.flatten_nil, List.append_nil, hnumbers, ← ascii_append]
    rfl
  rw [contentStream, List.foldl_append_eq_append, hsettings, ← List.flatMap_def]
  simp only [concat, List.flatten_cons, List.flatten_nil, List.append_nil, List.append_assoc]

def contentObject (stream : Text) : Text :=
  concat [ascii "<< /Length ", decimal (byteLength stream), ascii " >>\nstream\n", stream,
    ascii "\nendstream"]

def writePage (numbers : Numbering) (objects : Objects) (page : List Text × Nat) : Objects :=
  let pageNum := numbers.pageObjNums.getD page.2 0
  let contentNum := numbers.contentObjNums.getD page.2 0
  let objects := Function.update objects pageNum (pageObject contentNum)
  Function.update objects contentNum (contentObject (contentStream page.1))

def objectsOf (pages : List (List Text)) : Objects :=
  let numbers := numbering pages
  let objects : Objects := fun _ => ascii "undefined"
  let objects := Function.update objects 1 catalogObject
  let objects := Function.update objects 2 (pagesObject numbers.pageObjNums pages.length)
  let objects := Function.update objects 3 fontObject
  pages.zipIdx.foldl (writePage numbers) objects

theorem writePage_eq {pages : List (List Text)} {i : Nat} (hi : i < pages.length) (objects : Objects)
    (lines : List Text) :
    writePage (numbering pages) objects (lines, i) =
      Function.update (Function.update objects (4 + 2 * i) (pageObject (5 + 2 * i))) (5 + 2 * i)
        (contentObject (contentStream lines)) := by
  have hpage : (numbering pages).pageObjNums.getD i 0 = 4 + 2 * i := by simp [numbering_eq, hi]
  have hcontent : (numbering pages).contentObjNums.getD i 0 = 5 + 2 * i := by simp [numbering_eq, hi]
  rw [writePage]
  simp only [hpage, hcontent]

/-- The pages `rest`, from number `i` on, fill their own objects and no others. -/
theorem writePages {pages rest : List (List Text)} {i : Nat} (hi : i + rest.length ≤ pages.length)
    (objects : Objects) :
    (∀ n, n < 4 + 2 * i → (rest.zipIdx i).foldl (writePage (numbering pages)) objects n = objects n) ∧
      ∀ j lines, rest[j]? = some lines →
        (rest.zipIdx i).foldl (writePage (numbering pages)) objects (4 + 2 * (i + j)) =
            pageObject (5 + 2 * (i + j)) ∧
          (rest.zipIdx i).foldl (writePage (numbering pages)) objects (5 + 2 * (i + j)) =
            contentObject (contentStream lines) := by
  induction rest generalizing i objects with
  | nil =>
    refine ⟨fun n _ => rfl, fun j lines h => ?_⟩
    rw [List.getElem?_nil] at h
    cases h
  | cons page rest ih =>
    rw [List.length_cons] at hi
    obtain ⟨hbefore, hpages⟩ := ih (i := i + 1) (by omega)
      (writePage (numbering pages) objects (page, i))
    have hwrite := @writePage_eq pages i (by omega) objects page
    rw [List.zipIdx_cons, List.foldl_cons]
    constructor
    · intro n hn
      rw [hbefore n (by omega), hwrite, Function.update_of_ne (by omega), Function.update_of_ne (by omega)]
    · intro j lines h
      cases j with
      | zero =>
        rw [List.getElem?_cons_zero, Option.some.injEq] at h
        subst h
        rw [Nat.add_zero, hbefore _ (by omega), hbefore _ (by omega), hwrite,
          Function.update_of_ne (by omega)]
        simp only [Nat.add_zero, Function.update_self, and_self]
      | succ j =>
        rw [List.getElem?_cons_succ] at h
        have hj := hpages j lines h
        rw [Nat.add_right_comm, Nat.add_assoc i j 1] at hj
        exact hj

theorem objectsOf_one (pages : List (List Text)) : objectsOf pages 1 = catalogObject := by
  rw [objectsOf, (writePages (Nat.le_of_eq (Nat.zero_add _)) _).1 1 (by omega)]
  rfl

theorem objectsOf_two (pages : List (List Text)) :
    objectsOf pages 2 = pagesObject ((List.range pages.length).map (4 + 2 * ·)) pages.length := by
  rw [objectsOf, (writePages (Nat.le_of_eq (Nat.zero_add _)) _).1 2 (by omega), numbering_eq]
  rfl

theorem objectsOf_three (pages : List (List Text)) : objectsOf pages 3 = fontObject := by
  rw [objectsOf, (writePages (Nat.le_of_eq (Nat.zero_add _)) _).1 3 (by omega)]
  rfl

theorem objectsOf_page {pages : List (List Text)} {i : Nat} {lines : List Text}
    (h : pages[i]? = some lines) :
    objectsOf pages (4 + 2 * i) = pageObject (5 + 2 * i) ∧
      objectsOf pages (5 + 2 * i) = contentObject (contentStream lines) := by
  rw [objectsOf]
  simpa only [Nat.zero_add] using (writePages (Nat.le_of_eq (Nat.zero_add pages.length)) _).2 i lines h

/-! ## The file -/

def header : Text := ascii "%PDF-1.4\n"

def indirectObject (objects : Objects) (n : Nat) : Text :=
  concat [decimal n, ascii " 0 obj\n", objects n, ascii "\nendobj\n"]

/-- The body and the offsets, object by object. -/
def assemble (objects : Objects) (totalObjs : Nat) : (Nat → Nat) × Text :=
  (List.range' 1 totalObjs).foldl
    (fun s n =>
      (Function.update s.1 n (byteLength (header ++ s.2)), s.2 ++ indirectObject objects n))
    (fun _ => 0, [])

def xrefEntry (offset : Nat) : Text :=
  concat [List.leftpad 10 (unit '0') (decimal offset), ascii " 00000 n \n"]

def xrefTable (offsets : Nat → Nat) (totalObjs : Nat) : Text :=
  (List.range' 1 totalObjs).foldl (fun xref n => xref ++ xrefEntry (offsets n))
    (concat [ascii "xref\n0 ", decimal (totalObjs + 1), ascii "\n0000000000 65535 f \n"])

def trailer (totalObjs xrefStart : Nat) : Text :=
  concat [ascii "trailer\n<< /Size ", decimal (totalObjs + 1), ascii " /Root 1 0 R >>\nstartxref\n",
    decimal xrefStart, ascii "\n%%EOF"]

theorem assemble_eq (objects : Objects) (totalObjs : Nat) :
    (assemble objects totalObjs).2 = blocks (indirectObject objects) 1 totalObjs ∧
      ∀ i, i < totalObjs → (assemble objects totalObjs).1 (1 + i) =
        header.length + (blocks (indirectObject objects) 1 i).length := by
  induction totalObjs with
  | zero => exact ⟨rfl, fun i hi => absurd hi (Nat.not_lt_zero i)⟩
  | succ count ih =>
    obtain ⟨hbody, hoffsets⟩ := ih
    rw [assemble] at hbody hoffsets ⊢
    rw [List.range'_concat, List.foldl_append, Nat.one_mul, List.foldl_cons, List.foldl_nil, hbody,
      blocks_succ]
    refine ⟨rfl, fun i hi => ?_⟩
    rcases Nat.lt_succ_iff_lt_or_eq.mp hi with hlt | rfl
    · rw [← hoffsets i hlt]
      exact Function.update_of_ne (by omega) _ _
    · rw [← List.length_append]
      exact Function.update_self ..

theorem xrefTable_eq (offsets : Nat → Nat) (totalObjs : Nat) :
    xrefTable offsets totalObjs =
      concat [ascii "xref\n0 ", decimal (totalObjs + 1), ascii "\n0000000000 65535 f \n"] ++
        blocks (fun n => xrefEntry (offsets n)) 1 totalObjs := by
  rw [xrefTable, List.foldl_append_eq_append]
  rfl

def toPdf (table : ReportTable) : List UInt8 :=
  let pages := pagesOf (textLines table)
  let objects := objectsOf pages
  let totalObjs := (numbering pages).nextObj - 1
  let (offsets, body) := assemble objects totalObjs
  let xrefStart := byteLength (header ++ body)
  latin1 (header ++ body ++ xrefTable offsets totalObjs ++ trailer totalObjs xrefStart)

end Audit
end TradeCore
