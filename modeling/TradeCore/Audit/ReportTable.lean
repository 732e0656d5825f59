import TradeCore.Lib.Csv

/-!
# TradeCore.Audit.ReportTable

The table of a compliance report, and its CSV text.

A string is the list of its UTF-16 code units, which is what the regular expressions of the writers work
on. `toCsv_parses` says that the text has one reading in the grammar of the format, and that this is the
header and the rows.
-/

namespace TradeCore
namespace Audit

open Lib.Csv

abbrev Text := List UInt16

/-- The code unit of an ASCII character. -/
def unit (c : Char) : UInt16 := c.toNat.toUInt16

/-- A literal of the source, all in ASCII. -/
def ascii (s : String) : Text := s.toList.map unit

theorem ascii_append (s t : String) : ascii (s ++ t) = ascii s ++ ascii t := by
  simp [ascii]

structure ReportTable where
  title : Text
  generatedAt : Text
  columns : List Text
  rows : List (List Text)

def join (separator : Text) (texts : List Text) : Text := separator.intercalate texts

/-! ## The CSV writer -/

def quote : UInt16 := 0x22

def comma : UInt16 := 0x2C

def cr : UInt16 := 0x0D

def lf : UInt16 := 0x0A

/-- The class of `/[",\r\n]/`. -/
def needsQuotes (c : UInt16) : Bool := c = quote || c = comma || c = cr || c = lf

def csvField (value : Text) : Text :=
  if value.any needsQuotes then
    [quote] ++ value.flatMap (fun c => if c = quote then [quote, quote] else [c]) ++ [quote]
  else value

def toCsv (table : ReportTable) : Text :=
  let lines := [join [comma] (table.columns.map csvField)]
  let lines := lines ++ table.rows.map fun row => join [comma] (row.map csvField)
  join [cr, lf] lines

/-- The format the source names. -/
def rfc4180 : Dialect UInt16 where
  separator := comma
  quote := quote
  cr := cr
  lf := lf
  distinct := by decide

theorem csvField_eq (value : Text) : csvField value = encodeField rfc4180 value := by
  have hspecial : ∀ c, needsQuotes c = decide (c ∈ rfc4180.specials) := by
    intro c
    simp only [needsQuotes, Dialect.specials, rfc4180, List.mem_cons, List.not_mem_nil, or_false,
      Bool.decide_or]
    rw [Bool.or_comm (decide (c = quote)), Bool.or_assoc, Bool.or_assoc]
  rw [csvField, encodeField, funext hspecial]
  rfl

theorem toCsv_eq (table : ReportTable) : toCsv table = encode rfc4180 (table.columns :: table.rows) := by
  rw [toCsv, funext csvField_eq]
  rfl

theorem toCsv_parses (table : ReportTable) (hcolumns : table.columns ≠ [])
    (hrows : ∀ row ∈ table.rows, row.length = table.columns.length) (records : List (List Text)) :
    CsvText rfc4180 (toCsv table) records ↔ records = table.columns :: table.rows := by
  have hcells : ∀ record ∈ table.columns :: table.rows, record ≠ [] := by
    intro record hrecord
    rcases List.mem_cons.mp hrecord with rfl | hrow
    · exact hcolumns
    · have hlength := hrows record hrow
      have hpos := List.length_pos_of_ne_nil hcolumns
      exact List.ne_nil_of_length_pos (hlength ▸ hpos)
  rw [toCsv_eq]
  exact csvText_encode_iff (by simp) hcells

/-- A header that needs quotes, over an empty cell. -/
theorem toCsv_parses_quoted :
    CsvText rfc4180 (toCsv ⟨[], [], [ascii "say \"a\", b"], [[[]]]⟩) [[ascii "say \"a\", b"], [[]]] :=
  (toCsv_parses ⟨[], [], [ascii "say \"a\", b"], [[[]]]⟩ (by decide) (by decide) _).mpr rfl

end Audit
end TradeCore
