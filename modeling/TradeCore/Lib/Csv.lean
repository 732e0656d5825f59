import Mathlib.Data.List.Nodup

/-!
# TradeCore.Lib.Csv

Comma-separated values over any alphabet with four special symbols.

* `CsvText`  the grammar: records with line ends between them, fields with separators between them, a
  field plain or between quotes, a quote inside quotes doubled.
* `encode`   quotes the fields that have a special symbol in them, and no others.
* `scan`     reads a text in one pass.

`CsvText.scan_eq` says that `scan` finds the records of every text of the grammar, so a text has one
reading at most. `csvText_encode_iff` is the round trip.
-/

namespace Lib
namespace Csv

/-- The symbols, all different. A line ends with `cr` and `lf`. -/
structure Dialect (α : Type) where
  separator : α
  quote : α
  cr : α
  lf : α
  distinct : [separator, quote, cr, lf].Nodup

section Csv

variable {α : Type}

theorem Dialect.quote_ne (d : Dialect α) : d.quote ≠ d.separator ∧ d.quote ≠ d.cr := by
  have h := d.distinct
  simp only [List.nodup_cons, List.mem_cons, not_or] at h
  exact ⟨Ne.symm h.1.1, h.2.1.1⟩

theorem Dialect.cr_ne (d : Dialect α) : d.cr ≠ d.separator := by
  have h := d.distinct
  simp only [List.nodup_cons, List.mem_cons, not_or] at h
  exact Ne.symm h.1.2.1

variable (d : Dialect α)

def Dialect.specials : List α := [d.separator, d.quote, d.cr, d.lf]

/-! ## The grammar -/

/-- The text between two quotes, and what it stands for. -/
inductive QuotedText : List α → List α → Prop
  | nil : QuotedText [] []
  | other {c : α} {s v : List α} (hc : c ≠ d.quote) (h : QuotedText s v) : QuotedText (c :: s) (c :: v)
  | doubled {s v : List α} (h : QuotedText s v) : QuotedText (d.quote :: d.quote :: s) (d.quote :: v)

inductive FieldText : List α → List α → Prop
  | plain {s : List α} (h : ∀ c ∈ s, c ∉ d.specials) : FieldText s s
  | quoted {s v : List α} (h : QuotedText d s v) : FieldText (d.quote :: (s ++ [d.quote])) v

inductive RecordText : List α → List (List α) → Prop
  | last {s v : List α} (h : FieldText d s v) : RecordText s [v]
  | cons {s r v : List α} {vs : List (List α)} (h : FieldText d s v) (hr : RecordText r vs) :
      RecordText (s ++ d.separator :: r) (v :: vs)

/-- No line end stands behind the last record. -/
inductive CsvText : List α → List (List (List α)) → Prop
  | last {s : List α} {vs : List (List α)} (h : RecordText d s vs) : CsvText s [vs]
  | cons {s r : List α} {vs : List (List α)} {rs : List (List (List α))} (h : RecordText d s vs)
      (hr : CsvText r rs) : CsvText (s ++ d.cr :: d.lf :: r) (vs :: rs)

variable [DecidableEq α]

/-! ## Writing -/

def encodeField (v : List α) : List α :=
  if v.any (· ∈ d.specials) then
    d.quote :: (v.flatMap (fun c => if c = d.quote then [d.quote, d.quote] else [c]) ++ [d.quote])
  else v

def encodeRecord (vs : List (List α)) : List α := [d.separator].intercalate (vs.map (encodeField d))

def encode (rs : List (List (List α))) : List α := [d.cr, d.lf].intercalate (rs.map (encodeRecord d))

/-! ## Reading -/

/-- Where the scanner is: before a field, in a plain one, between quotes, behind a quote there, or
behind a `cr`. -/
inductive Mode where
  | start
  | plain
  | quoted
  | closing
  | lineEnd
  deriving DecidableEq

/-- What a symbol outside quotes leads to: the mode and the field behind it, or `none` where the symbol
may not stand. -/
def symbol (mode : Mode) (field : List α) (c : α) : Option (Mode × List α) :=
  match mode with
  | .start =>
    if c = d.quote then some (.quoted, field)
    else if c = d.lf then none
    else some (.plain, field ++ [c])
  | .plain => if c = d.quote ∨ c = d.lf then none else some (.plain, field ++ [c])
  | .quoted => some (if c = d.quote then .closing else .quoted, if c = d.quote then field else field ++ [c])
  | .closing => if c = d.quote then some (.quoted, field ++ [c]) else none
  | .lineEnd => none

def scan (mode : Mode) (field : List α) (record : List (List α)) :
    List α → Option (List (List (List α)))
  | [] => if mode = .quoted ∨ mode = .lineEnd then none else some [record ++ [field]]
  | c :: cs =>
    if mode = .lineEnd then
      if c = d.lf then (scan .start [] [] cs).map (record :: ·) else none
    else if c = d.separator ∧ mode ≠ .quoted then scan .start [] (record ++ [field]) cs
    else if c = d.cr ∧ mode ≠ .quoted then scan .lineEnd [] (record ++ [field]) cs
    else
      match symbol d mode field c with
      | none => none
      | some (mode, field) => scan mode field record cs

variable {d}

theorem scan_symbol {mode mode' : Mode} {field field' : List α} {c : α}
    (hmode : mode = .quoted ∨ mode ≠ .lineEnd ∧ c ≠ d.separator ∧ c ≠ d.cr)
    (h : symbol d mode field c = some (mode', field')) (record : List (List α)) (cs : List α) :
    scan d mode field record (c :: cs) = scan d mode' field' record cs := by
  rw [scan]
  rcases hmode with rfl | ⟨hend, hsep, hcr⟩
  · simp only [reduceCtorEq, ne_eq, not_true_eq_false, and_false, if_false, h]
  · simp only [if_neg hend, hsep, hcr, false_and, if_false, h]

/-- A symbol that is not special goes into the field. -/
theorem scan_plain {mode : Mode} (hmode : mode = .start ∨ mode = .plain) {c : α} (hc : c ∉ d.specials)
    (field : List α) (record : List (List α)) (cs : List α) :
    scan d mode field record (c :: cs) = scan d .plain (field ++ [c]) record cs := by
  simp only [Dialect.specials, List.mem_cons, not_or, List.not_mem_nil, not_false_eq_true, and_true] at hc
  obtain ⟨hsep, hquote, hcr, hlf⟩ := hc
  rcases hmode with rfl | rfl <;>
    exact scan_symbol (.inr ⟨by simp, hsep, hcr⟩) (by simp [symbol, hquote, hlf]) record cs

theorem scan_plains {s : List α} (h : ∀ c ∈ s, c ∉ d.specials) (field : List α)
    (record : List (List α)) (cs : List α) :
    scan d .plain field record (s ++ cs) = scan d .plain (field ++ s) record cs := by
  induction s generalizing field with
  | nil => simp
  | cons c s ih =>
    rw [List.cons_append, scan_plain (.inr rfl) (h c (by simp)), ih (fun x hx => h x (by simp [hx])),
      List.append_assoc]
    rfl

theorem scan_quoted {s v : List α} (h : QuotedText d s v) (field : List α) (record : List (List α))
    (cs : List α) :
    scan d .quoted field record (s ++ d.quote :: cs) = scan d .closing (field ++ v) record cs := by
  induction h generalizing field with
  | nil =>
    rw [List.append_nil]
    exact scan_symbol (.inl rfl) (by simp [symbol]) record cs
  | @other c s v hc _ ih =>
    have hin : symbol d .quoted field c = some (.quoted, field ++ [c]) := by simp [symbol, hc]
    rw [List.cons_append, scan_symbol (.inl rfl) hin, ih, List.append_assoc]
    rfl
  | @doubled s v _ ih =>
    have hfirst : symbol d .quoted field d.quote = some (.closing, field) := by simp [symbol]
    have hsecond : symbol d .closing field d.quote = some (.quoted, field ++ [d.quote]) := by
      simp [symbol]
    rw [List.cons_append, List.cons_append, scan_symbol (.inl rfl) hfirst,
      scan_symbol (.inr ⟨by simp, d.quote_ne⟩) hsecond, ih, List.append_assoc]
    rfl

/-- A field is read up to where the text goes on or ends. -/
theorem scan_field {s v : List α} (h : FieldText d s v) (record : List (List α)) (cs : List α) :
    ∃ mode, mode ∈ [Mode.start, .plain, .closing] ∧
      scan d .start [] record (s ++ cs) = scan d mode v record cs := by
  cases h with
  | plain hs =>
    cases s with
    | nil => exact ⟨.start, by simp, rfl⟩
    | cons c s =>
      refine ⟨.plain, by simp, ?_⟩
      rw [List.cons_append, scan_plain (.inl rfl) (hs c (by simp)),
        scan_plains fun x hx => hs x (by simp [hx])]
      rfl
  | quoted hq =>
    have hopen : symbol d .start [] d.quote = some (.quoted, []) := by simp [symbol]
    refine ⟨.closing, by simp, ?_⟩
    rw [List.cons_append, List.append_assoc, scan_symbol (.inr ⟨by simp, d.quote_ne⟩) hopen]
    exact scan_quoted hq [] record cs

theorem scan_separator {mode : Mode} (hmode : mode ∈ [Mode.start, .plain, .closing]) (field : List α)
    (record : List (List α)) (cs : List α) :
    scan d mode field record (d.separator :: cs) = scan d .start [] (record ++ [field]) cs := by
  simp only [List.mem_cons, List.not_mem_nil, or_false] at hmode
  rcases hmode with rfl | rfl | rfl <;> simp [scan]

theorem scan_lineEnd {mode : Mode} (hmode : mode ∈ [Mode.start, .plain, .closing]) (field : List α)
    (record : List (List α)) (cs : List α) :
    scan d mode field record (d.cr :: d.lf :: cs) =
      (scan d .start [] [] cs).map ((record ++ [field]) :: ·) := by
  have hne := d.cr_ne
  simp only [List.mem_cons, List.not_mem_nil, or_false] at hmode
  rcases hmode with rfl | rfl | rfl <;> simp [scan, hne]

theorem scan_end {mode : Mode} (hmode : mode ∈ [Mode.start, .plain, .closing]) (field : List α)
    (record : List (List α)) : scan d mode field record [] = some [record ++ [field]] := by
  simp only [List.mem_cons, List.not_mem_nil, or_false] at hmode
  rcases hmode with rfl | rfl | rfl <;> simp [scan]

/-- A record is read up to its line end, or to the end of the text. -/
theorem scan_record {s : List α} {vs : List (List α)} (h : RecordText d s vs) (record : List (List α)) :
    scan d .start [] record s = some [record ++ vs] ∧
      ∀ cs, scan d .start [] record (s ++ d.cr :: d.lf :: cs) =
        (scan d .start [] [] cs).map ((record ++ vs) :: ·) := by
  induction h generalizing record with
  | @last s v h =>
    constructor
    · obtain ⟨mode, hmode, hscan⟩ := scan_field h record []
      rw [List.append_nil] at hscan
      rw [hscan, scan_end hmode]
    · intro cs
      obtain ⟨mode, hmode, hscan⟩ := scan_field h record (d.cr :: d.lf :: cs)
      rw [hscan, scan_lineEnd hmode]
  | @cons s r v vs h hr ih =>
    obtain ⟨hend, hline⟩ := ih (record ++ [v])
    rw [List.append_assoc, List.singleton_append] at hend hline
    constructor
    · obtain ⟨mode, hmode, hscan⟩ := scan_field h record (d.separator :: r)
      rw [hscan, scan_separator hmode, hend]
    · intro cs
      obtain ⟨mode, hmode, hscan⟩ := scan_field h record (d.separator :: (r ++ d.cr :: d.lf :: cs))
      rw [List.append_assoc, List.cons_append, hscan, scan_separator hmode, hline]

theorem CsvText.scan_eq {s : List α} {rs : List (List (List α))} (h : CsvText d s rs) :
    scan d .start [] [] s = some rs := by
  induction h with
  | last h => exact (scan_record h []).1
  | cons h _ ih =>
    rw [(scan_record h []).2, ih]
    rfl

/-! ## The round trip -/

theorem quotedText_escaped (v : List α) :
    QuotedText d (v.flatMap fun c => if c = d.quote then [d.quote, d.quote] else [c]) v := by
  induction v with
  | nil => exact .nil
  | cons c v ih =>
    rw [List.flatMap_cons]
    split
    · rename_i h
      rw [h]
      exact .doubled ih
    · rename_i h
      exact .other h ih

theorem fieldText_encode (v : List α) : FieldText d (encodeField d v) v := by
  rw [encodeField]
  split
  · exact .quoted (quotedText_escaped v)
  · rename_i h
    simp only [List.any_eq_true, decide_eq_true_eq, not_exists, not_and] at h
    exact .plain h

theorem recordText_encode {vs : List (List α)} (h : vs ≠ []) : RecordText d (encodeRecord d vs) vs := by
  induction vs with
  | nil => exact absurd rfl h
  | cons v vs ih =>
    cases vs with
    | nil =>
      have hone : encodeRecord d [v] = encodeField d v := by simp [encodeRecord]
      rw [hone]
      exact .last (fieldText_encode v)
    | cons w ws =>
      have hcons : encodeRecord d (v :: w :: ws) =
          encodeField d v ++ d.separator :: encodeRecord d (w :: ws) := by simp [encodeRecord]
      rw [hcons]
      exact .cons (fieldText_encode v) (ih (by simp))

theorem csvText_encode {rs : List (List (List α))} (h : rs ≠ []) (hrs : ∀ vs ∈ rs, vs ≠ []) :
    CsvText d (encode d rs) rs := by
  induction rs with
  | nil => exact absurd rfl h
  | cons vs rs ih =>
    have hvs : RecordText d (encodeRecord d vs) vs := recordText_encode (hrs vs (by simp))
    cases rs with
    | nil =>
      have hone : encode d [vs] = encodeRecord d vs := by simp [encode]
      rw [hone]
      exact .last hvs
    | cons ws rest =>
      have hcons : encode d (vs :: ws :: rest) =
          encodeRecord d vs ++ d.cr :: d.lf :: encode d (ws :: rest) := by simp [encode]
      rw [hcons]
      exact .cons hvs (ih (by simp) fun us hus => hrs us (by simp [hus]))

/-- Records with at least one field each are the one reading of their text. -/
theorem csvText_encode_iff {rs : List (List (List α))} (h : rs ≠ []) (hrs : ∀ vs ∈ rs, vs ≠ [])
    {records : List (List (List α))} : CsvText d (encode d rs) records ↔ records = rs := by
  have hrs : CsvText d (encode d rs) rs := csvText_encode h hrs
  constructor
  · intro hrecords
    exact Option.some.inj (hrecords.scan_eq.symm.trans hrs.scan_eq)
  · rintro rfl
    exact hrs

end Csv

end Csv
end Lib
