import TradeCore.Audit.PdfReport

/-!
# TradeCore.Audit.PdfReading

What a reader finds that follows the cross references of a PDF report.

A `Reading` of a file holds the numbers a reader takes from it and what stands at the places they lead
to. `toPdf_reading` says that every report of less than 10^10 bytes has one, whose pages show the lines of
the report.
-/

namespace TradeCore
namespace Audit

open Lib.Layout

def bytes (texts : List Text) : List UInt8 := latin1 (concat texts)

structure Page where
  number : Nat
  content : Nat
  lines : List Text

structure TenDigits (value : Nat) (digits : List Char) : Prop where
  length : digits.length = 10
  digit : ∀ c ∈ digits, c.isDigit = true
  value : Nat.ofDigitChars 10 digits 0 = value

/-- An operator that shows a line, where the text stands or on the next line. -/
inductive Shows : List UInt8 → Text → Prop
  | here (line : Text) : Shows (bytes [ascii "(", pdfText line, ascii ") Tj\n"]) line
  | next (line : Text) : Shows (bytes [ascii "T* (", pdfText line, ascii ") Tj\n"]) line

/-- The page object leads to its content, and the content has the length it gives and shows the lines. -/
structure Page.Stands (file : List UInt8) (offset : Nat → Nat) (page : Page) : Prop where
  object : At file (offset page.number) (bytes [decimal page.number,
    ascii " 0 obj\n<< /Type /Page /Parent 2 0 R /MediaBox [0 0 595 842] ",
    ascii "/Resources << /Font << /F1 3 0 R >> >> /Contents ", decimal page.content,
    ascii " 0 R >>\nendobj\n"])
  content : ∃ shows : List (List UInt8), List.Forall₂ Shows shows page.lines ∧
    ∃ stream, stream = bytes [ascii "BT /F1 9 Tf 12 TL 40 800 Td\n"] ++ shows.flatten ++ bytes [ascii "ET"] ∧
      At file (offset page.content) (bytes [decimal page.content, ascii " 0 obj\n<< /Length ",
        decimal stream.length, ascii " >>\nstream\n"] ++ stream ++ bytes [ascii "\nendstream\nendobj\n"])

structure Reading (file : List UInt8) where
  xrefStart : Nat
  size : Nat
  offset : Nat → Nat
  pages : List Page
  trailer : ∃ before, file = before ++ bytes [ascii "trailer\n<< /Size ", decimal size,
    ascii " /Root 1 0 R >>\nstartxref\n", decimal xrefStart, ascii "\n%%EOF"]
  xref : At file xrefStart (bytes [ascii "xref\n0 ", decimal size, ascii "\n0000000000 65535 f \n"])
  /-- The entries have twenty bytes each. -/
  entry : ∀ n, 0 < n → n < size → ∃ digits, TenDigits (offset n) digits ∧
    At file (xrefStart + (bytes [ascii "xref\n0 ", decimal size, ascii "\n"]).length + 20 * n)
      (bytes [digits.map unit, ascii " 00000 n \n"])
  object : ∀ n, 0 < n → n < size → At file (offset n) (bytes [decimal n, ascii " 0 obj\n"])
  catalog : At file (offset 1) (bytes [ascii "1 0 obj\n<< /Type /Catalog /Pages 2 0 R >>\nendobj\n"])
  tree : At file (offset 2) (bytes [ascii "2 0 obj\n<< /Type /Pages /Kids [",
    join (ascii " ") (pages.map fun page => decimal page.number ++ ascii " 0 R"), ascii "] /Count ",
    decimal pages.length, ascii " >>\nendobj\n"])
  numbers : ∀ page ∈ pages, 0 < page.number ∧ page.number < size ∧ 0 < page.content ∧ page.content < size
  kids_nodup : (pages.map Page.number).Nodup
  contents_nodup : (pages.map Page.content).Nodup
  kids : ∀ n, 0 < n → n < size →
    (n ∈ pages.map Page.number ↔ At file (offset n) (bytes [decimal n, ascii " 0 obj\n<< /Type /Page "]))
  streams : ∀ n, 0 < n → n < size →
    (n ∈ pages.map Page.content ↔ At file (offset n) (bytes [decimal n, ascii " 0 obj\n<< /Length "]))
  stands : ∀ page ∈ pages, page.Stands file offset

/-! ## Where the parts stand -/

theorem latin1_append (a b : Text) : latin1 (a ++ b) = latin1 a ++ latin1 b := List.map_append

theorem length_latin1 (text : Text) : (latin1 text).length = text.length := List.length_map _

section Layout

variable (table : ReportTable)

def reportPages : List (List Text) := slices (textLines table) 0

def objectCount : Nat := 3 + 2 * (reportPages table).length

/-- Object `n` of the file, from `1` on. -/
def reportObject (n : Nat) : Text := indirectObject (objectsOf (reportPages table)) n

def reportOffset (n : Nat) : Nat := header.length + (blocks (reportObject table) 1 (n - 1)).length

def reportBody : Text := blocks (reportObject table) 1 (objectCount table)

def reportXrefStart : Nat := (header ++ reportBody table).length

def xrefHead : Text :=
  concat [ascii "xref\n0 ", decimal (objectCount table + 1), ascii "\n0000000000 65535 f \n"]

def xrefEntries : Text := blocks (fun n => xrefEntry (reportOffset table n)) 1 (objectCount table)

def fileText : Text :=
  header ++ reportBody table ++ xrefHead table ++ xrefEntries table ++
    trailer (objectCount table) (reportXrefStart table)

theorem toPdf_eq : toPdf table = latin1 (fileText table) := by
  have hpages : pagesOf (textLines table) = reportPages table := pagesOf_textLines table
  have hcount : (numbering (reportPages table)).nextObj - 1 = objectCount table := by
    rw [numbering_eq]
    simp only [objectCount]
    omega
  obtain ⟨hbody, hoffsets⟩ := assemble_eq (objectsOf (reportPages table)) (objectCount table)
  have hentries : blocks (fun n => xrefEntry
        ((assemble (objectsOf (reportPages table)) (objectCount table)).1 n)) 1 (objectCount table) =
      xrefEntries table := by
    refine blocks_congr fun i hi => ?_
    rw [hoffsets i hi, reportOffset, Nat.add_sub_cancel_left]
    rfl
  have hxref := xrefTable_eq (assemble (objectsOf (reportPages table)) (objectCount table)).1
    (objectCount table)
  rw [hentries] at hxref
  rw [toPdf]
  simp only [hpages, hcount, hbody, hxref]
  rw [fileText, ← List.append_assoc]
  rfl

variable {table}

theorem at_toPdf {pos : Nat} {part : Text} (h : At (fileText table) pos part) :
    At (toPdf table) pos (latin1 part) := by
  rw [toPdf_eq]
  exact h.map UInt16.toUInt8

theorem object_at {n : Nat} (hpos : 0 < n) (hn : n ≤ objectCount table) :
    At (toPdf table) (reportOffset table n) (latin1 (reportObject table n)) := by
  have hat : At (header ++ reportBody table ++ (xrefHead table ++ xrefEntries table ++
        trailer (objectCount table) (reportXrefStart table)))
      (reportOffset table n) (reportObject table (1 + (n - 1))) :=
    at_block (by omega) header _
  rw [Nat.add_sub_cancel' hpos] at hat
  refine at_toPdf ?_
  simpa only [fileText, List.append_assoc] using hat

theorem xref_at : At (toPdf table) (reportXrefStart table) (latin1 (xrefHead table)) := by
  have hat : At (header ++ reportBody table ++ xrefHead table ++ (xrefEntries table ++
      trailer (objectCount table) (reportXrefStart table))) (reportXrefStart table) (xrefHead table) :=
    at_embed (header ++ reportBody table) (xrefHead table) _
  refine at_toPdf ?_
  simpa only [fileText, List.append_assoc] using hat

theorem length_xrefEntry {offset : Nat} (h : offset < 10 ^ 10) : (xrefEntry offset).length = 20 := by
  have hdigits : (decimal offset).length ≤ 10 := by
    rw [decimal, List.length_map]
    exact (Nat.length_toDigits_le_iff (by omega) (by omega)).mpr h
  have htail : (ascii " 00000 n \n").length = 10 := by decide
  simp only [xrefEntry, concat, List.flatten_cons, List.flatten_nil, List.append_nil,
    List.length_append, List.length_leftpad, htail]
  omega

theorem xrefEntry_digits {offset : Nat} (h : offset < 10 ^ 10) :
    ∃ digits, TenDigits offset digits ∧ xrefEntry offset = concat [digits.map unit, ascii " 00000 n \n"] := by
  have hlength : (Nat.toDigits 10 offset).length ≤ 10 :=
    (Nat.length_toDigits_le_iff (by omega) (by omega)).mpr h
  refine ⟨List.leftpad 10 '0' (Nat.toDigits 10 offset), ⟨?_, Lib.isDigit_frac 10 offset,
    Lib.ofDigitChars_frac 10 offset⟩, ?_⟩
  · rw [List.length_leftpad]
    exact max_eq_left hlength
  · simp only [xrefEntry, decimal, List.leftpad, List.map_append, List.map_replicate, List.length_map]

theorem reportOffset_lt (hsize : (toPdf table).length < 10 ^ 10) {n : Nat} (hpos : 0 < n)
    (hn : n ≤ objectCount table) : reportOffset table n < 10 ^ 10 := by
  have hne : latin1 (reportObject table n) ≠ [] := by
    simp [reportObject, indirectObject, concat, latin1, decimal, Nat.toDigits_ne_nil]
  exact (object_at hpos hn).pos_lt hne |>.trans hsize

theorem entry_at (hsize : (toPdf table).length < 10 ^ 10) {n : Nat} (hpos : 0 < n)
    (hn : n ≤ objectCount table) :
    At (toPdf table)
      (reportXrefStart table + (bytes [ascii "xref\n0 ", decimal (objectCount table + 1), ascii "\n"]).length +
        20 * n)
      (latin1 (xrefEntry (reportOffset table n))) := by
  have hbefore : (blocks (fun n => xrefEntry (reportOffset table n)) 1 (n - 1)).length = 20 * (n - 1) :=
    blocks_length fun i hi => length_xrefEntry (reportOffset_lt hsize (by omega) (by omega))
  have hat : At (header ++ reportBody table ++ xrefHead table ++ xrefEntries table ++
        trailer (objectCount table) (reportXrefStart table))
      ((header ++ reportBody table ++ xrefHead table).length +
        (blocks (fun n => xrefEntry (reportOffset table n)) 1 (n - 1)).length)
      (xrefEntry (reportOffset table (1 + (n - 1)))) :=
    at_block (by omega) (header ++ reportBody table ++ xrefHead table) _
  have hhead : (xrefHead table).length =
      (bytes [ascii "xref\n0 ", decimal (objectCount table + 1), ascii "\n"]).length + 20 := by
    rw [bytes, length_latin1, xrefHead]
    simp only [concat, List.flatten_cons, List.flatten_nil, List.append_nil, List.length_append]
    have hsplit : (ascii "\n0000000000 65535 f \n").length = (ascii "\n").length + 20 := by decide
    omega
  rw [Nat.add_sub_cancel' hpos, hbefore, List.length_append, hhead] at hat
  have hplace : reportXrefStart table +
        (bytes [ascii "xref\n0 ", decimal (objectCount table + 1), ascii "\n"]).length + 20 * n =
      (header ++ reportBody table).length +
        ((bytes [ascii "xref\n0 ", decimal (objectCount table + 1), ascii "\n"]).length + 20) +
          20 * (n - 1) := by
    rw [reportXrefStart]
    omega
  rw [hplace]
  exact at_toPdf hat

/-! ## What the objects are -/

theorem reportObject_bytes (n : Nat) :
    latin1 (reportObject table n) = bytes [decimal n, ascii " 0 obj\n"] ++
      (latin1 (objectsOf (reportPages table) n) ++ latin1 (ascii "\nendobj\n")) := by
  simp only [reportObject, indirectObject, bytes, concat, List.flatten_cons, List.flatten_nil,
    List.append_nil, latin1_append, List.append_assoc]

theorem header_at {n : Nat} (hpos : 0 < n) (hn : n ≤ objectCount table) :
    At (toPdf table) (reportOffset table n) (bytes [decimal n, ascii " 0 obj\n"]) := by
  have hat := object_at hpos hn
  rw [reportObject_bytes] at hat
  exact (at_append.mp hat).1

/-- How the dictionaries of the five kinds of objects begin. -/
def leads : List Text :=
  [ascii "<< /Type /Catalog", ascii "<< /Type /Pages", ascii "<< /Type /Font", ascii "<< /Type /Page ",
    ascii "<< /Length "]

theorem leads_apart : ∀ a ∈ leads, ∀ b ∈ leads, latin1 a <+: latin1 b → a = b := by decide

def LeadAt (table : ReportTable) (n : Nat) (lead : Text) : Prop :=
  At (toPdf table) (reportOffset table n) (bytes [decimal n, ascii " 0 obj\n"] ++ latin1 lead)

theorem LeadAt.unique {n : Nat} {a b : Text} (ha : LeadAt table n a) (hb : LeadAt table n b)
    (hamem : a ∈ leads) (hbmem : b ∈ leads) : a = b := by
  rcases ha.agree hb with h | h
  · exact leads_apart a hamem b hbmem h
  · exact (leads_apart b hbmem a hamem h).symm

theorem leadAt_of_eq {n : Nat} (hpos : 0 < n) (hn : n ≤ objectCount table) {lead rest : Text}
    (h : objectsOf (reportPages table) n = lead ++ rest) : LeadAt table n lead := by
  have hat := object_at hpos hn
  rw [reportObject_bytes, h, latin1_append, List.append_assoc, ← List.append_assoc] at hat
  exact (at_append.mp hat).1

def kidNumbers (table : ReportTable) : List Nat := (List.range (reportPages table).length).map (4 + 2 * ·)

def contentNumbers (table : ReportTable) : List Nat :=
  (List.range (reportPages table).length).map (5 + 2 * ·)

theorem mem_kidNumbers {n : Nat} :
    n ∈ kidNumbers table ↔ ∃ i < (reportPages table).length, 4 + 2 * i = n := by
  simp [kidNumbers]

theorem mem_contentNumbers {n : Nat} :
    n ∈ contentNumbers table ↔ ∃ i < (reportPages table).length, 5 + 2 * i = n := by
  simp [contentNumbers]

theorem object_kind_fixed {n : Nat} (hpos : 0 < n) (hlt : n < 4) (hn : n ≤ objectCount table) :
    ∃ lead ∈ leads, LeadAt table n lead ∧ lead ≠ ascii "<< /Type /Page " ∧ lead ≠ ascii "<< /Length " := by
  have hn123 : n = 1 ∨ n = 2 ∨ n = 3 := by omega
  have hrest : ∃ lead ∈ leads.take 3, ∃ rest, objectsOf (reportPages table) n = lead ++ rest := by
    rcases hn123 with rfl | rfl | rfl
    · refine ⟨ascii "<< /Type /Catalog", by simp [leads], ascii " /Pages 2 0 R >>", ?_⟩
      rw [objectsOf_one, ← ascii_append]
      rfl
    · have hfirst : ascii "<< /Type /Pages /Kids [" = ascii "<< /Type /Pages" ++ ascii " /Kids [" := by
        rw [← ascii_append]
        rfl
      refine ⟨ascii "<< /Type /Pages", by simp [leads], ?_⟩
      rw [objectsOf_two, pagesObject, concat, List.flatten_cons, hfirst, List.append_assoc]
      exact ⟨_, rfl⟩
    · refine ⟨ascii "<< /Type /Font", by simp [leads], ascii " /Subtype /Type1 /BaseFont /Helvetica >>", ?_⟩
      rw [objectsOf_three, ← ascii_append]
      rfl
  obtain ⟨lead, hlead, rest, h⟩ := hrest
  have hother : ∀ lead ∈ leads.take 3, lead ≠ ascii "<< /Type /Page " ∧ lead ≠ ascii "<< /Length " := by
    decide
  exact ⟨lead, List.mem_of_mem_take hlead, leadAt_of_eq hpos hn h, hother lead hlead⟩

theorem page_lead {i : Nat} (hi : i < (reportPages table).length) :
    LeadAt table (4 + 2 * i) (ascii "<< /Type /Page ") := by
  have hfirst : ascii "<< /Type /Page /Parent 2 0 R /MediaBox [0 0 595 842] " =
      ascii "<< /Type /Page " ++ ascii "/Parent 2 0 R /MediaBox [0 0 595 842] " := by
    rw [← ascii_append]
    rfl
  have h : ∃ rest, objectsOf (reportPages table) (4 + 2 * i) = ascii "<< /Type /Page " ++ rest := by
    rw [(objectsOf_page (List.getElem?_eq_getElem hi)).1, pageObject, concat, List.flatten_cons, hfirst,
      List.append_assoc]
    exact ⟨_, rfl⟩
  obtain ⟨rest, h⟩ := h
  have hcount : objectCount table = 3 + 2 * (reportPages table).length := rfl
  exact leadAt_of_eq (by omega) (by omega) h

theorem content_lead {i : Nat} (hi : i < (reportPages table).length) :
    LeadAt table (5 + 2 * i) (ascii "<< /Length ") := by
  have h : ∃ rest, objectsOf (reportPages table) (5 + 2 * i) = ascii "<< /Length " ++ rest := by
    rw [(objectsOf_page (List.getElem?_eq_getElem hi)).2, contentObject, concat, List.flatten_cons]
    exact ⟨_, rfl⟩
  obtain ⟨rest, h⟩ := h
  have hcount : objectCount table = 3 + 2 * (reportPages table).length := rfl
  exact leadAt_of_eq (by omega) (by omega) h

theorem object_kind {n : Nat} (hpos : 0 < n) (hn : n ≤ objectCount table) :
    ∃ lead ∈ leads, LeadAt table n lead ∧ (lead = ascii "<< /Type /Page " → n ∈ kidNumbers table) ∧
      (lead = ascii "<< /Length " → n ∈ contentNumbers table) := by
  have hcount : objectCount table = 3 + 2 * (reportPages table).length := rfl
  have hne : ascii "<< /Type /Page " ≠ ascii "<< /Length " := by decide
  rcases Nat.lt_or_ge n 4 with hlt | hge
  · obtain ⟨lead, hmem, hlead, hpage, hcontent⟩ := object_kind_fixed hpos hlt hn
    exact ⟨lead, hmem, hlead, fun h => absurd h hpage, fun h => absurd h hcontent⟩
  · obtain ⟨i, hi, rfl | rfl⟩ : ∃ i < (reportPages table).length, n = 4 + 2 * i ∨ n = 5 + 2 * i :=
      ⟨(n - 4) / 2, by omega, by omega⟩
    · exact ⟨_, by simp [leads], page_lead hi, fun _ => mem_kidNumbers.mpr ⟨i, hi, rfl⟩, fun h => absurd h hne⟩
    · exact ⟨_, by simp [leads], content_lead hi, fun h => absurd h.symm hne,
        fun _ => mem_contentNumbers.mpr ⟨i, hi, rfl⟩⟩

theorem mem_kidNumbers_iff {n : Nat} (hpos : 0 < n) (hn : n ≤ objectCount table) :
    n ∈ kidNumbers table ↔ LeadAt table n (ascii "<< /Type /Page ") := by
  constructor
  · rw [mem_kidNumbers]
    rintro ⟨i, hi, rfl⟩
    exact page_lead hi
  · intro h
    obtain ⟨lead, hmem, hlead, hpage, -⟩ := object_kind hpos hn
    exact hpage (hlead.unique h hmem (by simp [leads]))

theorem mem_contentNumbers_iff {n : Nat} (hpos : 0 < n) (hn : n ≤ objectCount table) :
    n ∈ contentNumbers table ↔ LeadAt table n (ascii "<< /Length ") := by
  constructor
  · rw [mem_contentNumbers]
    rintro ⟨i, hi, rfl⟩
    exact content_lead hi
  · intro h
    obtain ⟨lead, hmem, hlead, -, hcontent⟩ := object_kind hpos hn
    exact hcontent (hlead.unique h hmem (by simp [leads]))

theorem leadAt_iff {n : Nat} {lead : Text} :
    LeadAt table n lead ↔
      At (toPdf table) (reportOffset table n) (bytes [decimal n, ascii " 0 obj\n" ++ lead]) := by
  rw [LeadAt]
  simp only [bytes, concat, List.flatten_cons, List.flatten_nil, List.append_nil, latin1_append,
    List.append_assoc]

theorem kid_iff {n : Nat} (hpos : 0 < n) (hn : n ≤ objectCount table) :
    n ∈ kidNumbers table ↔
      At (toPdf table) (reportOffset table n) (bytes [decimal n, ascii " 0 obj\n<< /Type /Page "]) := by
  rw [mem_kidNumbers_iff hpos hn, leadAt_iff, ← ascii_append]
  rfl

theorem stream_iff {n : Nat} (hpos : 0 < n) (hn : n ≤ objectCount table) :
    n ∈ contentNumbers table ↔
      At (toPdf table) (reportOffset table n) (bytes [decimal n, ascii " 0 obj\n<< /Length "]) := by
  rw [mem_contentNumbers_iff hpos hn, leadAt_iff, ← ascii_append]
  rfl

/-! ## The pages -/

def readPages (table : ReportTable) : List Page :=
  (reportPages table).mapIdx fun i lines => ⟨4 + 2 * i, 5 + 2 * i, lines⟩

theorem mem_readPages {page : Page} :
    page ∈ readPages table ↔
      ∃ i lines, (reportPages table)[i]? = some lines ∧ page = ⟨4 + 2 * i, 5 + 2 * i, lines⟩ := by
  rw [readPages, List.mem_mapIdx]
  constructor
  · rintro ⟨i, hi, rfl⟩
    exact ⟨i, _, List.getElem?_eq_getElem hi, rfl⟩
  · rintro ⟨i, lines, h, rfl⟩
    obtain ⟨hi, rfl⟩ := List.getElem?_eq_some_iff.mp h
    exact ⟨i, hi, rfl⟩

theorem readPages_numbers : (readPages table).map Page.number = kidNumbers table :=
  List.ext_getElem (by simp [readPages, kidNumbers]) fun i _ _ => by simp [readPages, kidNumbers]

theorem readPages_contents : (readPages table).map Page.content = contentNumbers table :=
  List.ext_getElem (by simp [readPages, contentNumbers]) fun i _ _ => by simp [readPages, contentNumbers]

theorem readPages_lines : (readPages table).map Page.lines = reportPages table :=
  List.ext_getElem (by simp [readPages]) fun i _ _ => by simp [readPages]

theorem shows_lines (lines : List Text) (i : Nat) :
    List.Forall₂ Shows ((lines.zipIdx i).map fun line => latin1 (showLine line)) lines := by
  induction lines generalizing i with
  | nil => exact .nil
  | cons line lines ih =>
    rw [List.zipIdx_cons, List.map_cons]
    refine .cons ?_ (ih (i + 1))
    rw [showLine]
    split
    · exact .here line
    · exact .next line

theorem contentStream_bytes (lines : List Text) :
    latin1 (contentStream lines) = bytes [ascii "BT /F1 9 Tf 12 TL 40 800 Td\n"] ++
      (lines.zipIdx.map fun line => latin1 (showLine line)).flatten ++ bytes [ascii "ET"] := by
  have hshows : latin1 (lines.zipIdx.flatMap showLine) =
      (lines.zipIdx.map fun line => latin1 (showLine line)).flatten := by
    rw [latin1, List.map_flatMap]
    rfl
  rw [contentStream_eq]
  simp only [bytes, concat, List.flatten_cons, List.flatten_nil, List.append_nil, latin1_append, hshows,
    List.append_assoc]

theorem pageObject_bytes (n content : Nat) :
    bytes [decimal n, ascii " 0 obj\n"] ++ (latin1 (pageObject content) ++ latin1 (ascii "\nendobj\n")) =
      bytes [decimal n, ascii " 0 obj\n<< /Type /Page /Parent 2 0 R /MediaBox [0 0 595 842] ",
        ascii "/Resources << /Font << /F1 3 0 R >> >> /Contents ", decimal content,
        ascii " 0 R >>\nendobj\n"] := by
  have hfirst : ascii " 0 obj\n<< /Type /Page /Parent 2 0 R /MediaBox [0 0 595 842] " =
      ascii " 0 obj\n" ++ ascii "<< /Type /Page /Parent 2 0 R /MediaBox [0 0 595 842] " := by
    rw [← ascii_append]
    rfl
  have hlast : ascii " 0 R >>\nendobj\n" = ascii " 0 R >>" ++ ascii "\nendobj\n" := by
    rw [← ascii_append]
    rfl
  simp only [bytes, pageObject, concat, List.flatten_cons, List.flatten_nil, List.append_nil, hfirst, hlast,
    latin1_append, List.append_assoc]

theorem contentObject_bytes (n : Nat) (stream : Text) :
    bytes [decimal n, ascii " 0 obj\n"] ++ (latin1 (contentObject stream) ++ latin1 (ascii "\nendobj\n")) =
      bytes [decimal n, ascii " 0 obj\n<< /Length ", decimal (latin1 stream).length,
        ascii " >>\nstream\n"] ++ latin1 stream ++ bytes [ascii "\nendstream\nendobj\n"] := by
  have hfirst : ascii " 0 obj\n<< /Length " = ascii " 0 obj\n" ++ ascii "<< /Length " := by
    rw [← ascii_append]
    rfl
  have hlast : ascii "\nendstream\nendobj\n" = ascii "\nendstream" ++ ascii "\nendobj\n" := by
    rw [← ascii_append]
    rfl
  simp only [bytes, contentObject, byteLength, length_latin1, concat, List.flatten_cons, List.flatten_nil,
    List.append_nil, hfirst, hlast, latin1_append, List.append_assoc]

theorem readPages_stand {page : Page} (h : page ∈ readPages table) :
    page.Stands (toPdf table) (reportOffset table) := by
  obtain ⟨i, lines, hlines, rfl⟩ := mem_readPages.mp h
  obtain ⟨hi, -⟩ := List.getElem?_eq_some_iff.mp hlines
  have hcount : objectCount table = 3 + 2 * (reportPages table).length := rfl
  obtain ⟨hpage, hcontent⟩ := objectsOf_page hlines
  refine ⟨?_, _, shows_lines lines 0, _, rfl, ?_⟩
  · have hat := object_at (n := 4 + 2 * i) (by omega) (by omega : _ ≤ objectCount table)
    rw [reportObject_bytes, hpage, pageObject_bytes] at hat
    exact hat
  · have hat := object_at (n := 5 + 2 * i) (by omega) (by omega : _ ≤ objectCount table)
    rw [reportObject_bytes, hcontent, contentObject_bytes, contentStream_bytes] at hat
    exact hat

theorem catalog_bytes : latin1 (reportObject table 1) =
    bytes [ascii "1 0 obj\n<< /Type /Catalog /Pages 2 0 R >>\nendobj\n"] := by
  have hone : decimal 1 = ascii "1" := by decide
  rw [reportObject, indirectObject, objectsOf_one, bytes]
  simp only [catalogObject, concat, List.flatten_cons, List.flatten_nil, List.append_nil, hone,
    ← ascii_append]
  rfl

theorem tree_bytes : latin1 (reportObject table 2) =
    bytes [ascii "2 0 obj\n<< /Type /Pages /Kids [",
      join (ascii " ") ((readPages table).map fun page => decimal page.number ++ ascii " 0 R"),
      ascii "] /Count ", decimal (readPages table).length, ascii " >>\nendobj\n"] := by
  have hkids : (readPages table).map (fun page => decimal page.number ++ ascii " 0 R") =
      (kidNumbers table).map fun n => decimal n ++ ascii " 0 R" := by
    rw [← readPages_numbers, List.map_map]
    rfl
  have hcount : (readPages table).length = (reportPages table).length := List.length_mapIdx
  have hfirst : ascii "2 0 obj\n<< /Type /Pages /Kids [" =
      decimal 2 ++ (ascii " 0 obj\n" ++ ascii "<< /Type /Pages /Kids [") := by
    have htwo : decimal 2 = ascii "2" := by decide
    rw [htwo, ← ascii_append, ← ascii_append]
    rfl
  have hlast : ascii " >>\nendobj\n" = ascii " >>" ++ ascii "\nendobj\n" := by
    rw [← ascii_append]
    rfl
  rw [reportObject_bytes, objectsOf_two, hkids, hcount, hfirst, hlast]
  simp only [bytes, pagesObject, kidNumbers, concat, List.flatten_cons, List.flatten_nil, List.append_nil,
    latin1_append, List.append_assoc]

def reading (table : ReportTable) (hsize : (toPdf table).length < 10 ^ 10) : Reading (toPdf table) where
  xrefStart := reportXrefStart table
  size := objectCount table + 1
  offset := reportOffset table
  pages := readPages table
  trailer := by
    refine ⟨latin1 (header ++ reportBody table ++ xrefHead table ++ xrefEntries table), ?_⟩
    rw [toPdf_eq, fileText, latin1_append]
    rfl
  xref := xref_at
  entry := by
    intro n hpos hn
    obtain ⟨digits, hdigits, hentry⟩ :=
      xrefEntry_digits (reportOffset_lt hsize hpos (Nat.le_of_lt_succ hn))
    refine ⟨digits, hdigits, ?_⟩
    have hat := entry_at hsize hpos (Nat.le_of_lt_succ hn)
    rw [hentry] at hat
    exact hat
  object := fun n hpos hn => header_at hpos (Nat.le_of_lt_succ hn)
  catalog := by
    have hat := object_at (n := 1) (by omega) (by rw [objectCount]; omega : 1 ≤ objectCount table)
    rw [catalog_bytes] at hat
    exact hat
  tree := by
    have hat := object_at (n := 2) (by omega) (by rw [objectCount]; omega : 2 ≤ objectCount table)
    rw [tree_bytes] at hat
    exact hat
  numbers := by
    intro page hpage
    obtain ⟨i, lines, hlines, rfl⟩ := mem_readPages.mp hpage
    obtain ⟨hi, -⟩ := List.getElem?_eq_some_iff.mp hlines
    simp only [objectCount]
    omega
  kids_nodup := by
    rw [readPages_numbers]
    exact List.nodup_range.map fun i j h => by omega
  contents_nodup := by
    rw [readPages_contents]
    exact List.nodup_range.map fun i j h => by omega
  kids := by
    intro n hpos hn
    rw [readPages_numbers]
    exact kid_iff hpos (Nat.le_of_lt_succ hn)
  streams := by
    intro n hpos hn
    rw [readPages_contents]
    exact stream_iff hpos (Nat.le_of_lt_succ hn)
  stands := fun page hpage => readPages_stand hpage

end Layout

theorem toPdf_reading (table : ReportTable) (hsize : (toPdf table).length < 10 ^ 10) :
    ∃ r : Reading (toPdf table),
      r.pages.flatMap Page.lines = textLines table ∧ ∀ page ∈ r.pages, page.lines.length ≤ 50 := by
  refine ⟨reading table hsize, ?_, ?_⟩
  · have hlines : (readPages table).map Page.lines = reportPages table := readPages_lines
    rw [List.flatMap, reading, hlines, reportPages, slices_flatten, List.drop_zero]
  · intro page hpage
    have hmem : page.lines ∈ reportPages table := by
      rw [← readPages_lines]
      exact List.mem_map_of_mem hpage
    exact length_le_of_mem_slices (textLines table) 0 page.lines hmem

/-- A report of one row. -/
theorem toPdf_reading_row :
    ∃ r : Reading (toPdf ⟨ascii "t", ascii "now", [ascii "a"], [[ascii "(b)"]]⟩),
      r.pages.flatMap Page.lines = textLines ⟨ascii "t", ascii "now", [ascii "a"], [[ascii "(b)"]]⟩ ∧
        ∀ page ∈ r.pages, page.lines.length ≤ 50 :=
  toPdf_reading ⟨ascii "t", ascii "now", [ascii "a"], [[ascii "(b)"]]⟩ (by decide +kernel)

end Audit
end TradeCore
