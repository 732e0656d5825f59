import TradeCore.Lib.Glob

/-!
# TradeCore.RateLimit.PathPattern

`pathMatchesPattern`: an endpoint pattern is escaped into the source of a regular expression, and the
expression is tested on a path. Texts are lists of UTF-16 code units, which an expression without
flags matches one by one.

The escape spares `?`, which then quantifies what stands before it, or nothing, and `.` stops at the end
of a line. `pathMatchesPattern_glob_iff` says for which patterns and paths this is the glob language.
-/

namespace TradeCore
namespace RateLimit

open Lib

abbrev CodeUnit := UInt16

def asterisk : CodeUnit := 0x2A
def question : CodeUnit := 0x3F
def fullStop : CodeUnit := 0x2E
def backslash : CodeUnit := 0x5C

/-- The class `[.+^${}()|[\]\\]` of the escape. -/
def escapedUnits : List CodeUnit :=
  [fullStop, 0x2B, 0x5E, 0x24, 0x7B, 0x7D, 0x28, 0x29, 0x7C, 0x5B, 0x5D, backslash]

/-- LF, CR, LS and PS. -/
def isLineTerminator (c : CodeUnit) : Bool := c ∈ ([0x0A, 0x0D, 0x2028, 0x2029] : List CodeUnit)

/-- `.replace(/[.+^${}()|[\]\\]/g, '\\$&')`. -/
def escapeUnit (c : CodeUnit) : List CodeUnit := if c ∈ escapedUnits then [backslash, c] else [c]

/-- `.replace(/\*/g, '.*')`. -/
def expandUnit (c : CodeUnit) : List CodeUnit := if c = asterisk then [fullStop, asterisk] else [c]

def escaped (pattern : List CodeUnit) : List CodeUnit := (pattern.flatMap escapeUnit).flatMap expandUnit

/-! ## Regular expressions

What `new RegExp` makes of the source between `^` and `$`: atoms, each with at most one quantifier `*` or
`?` and a `?` after it that makes it lazy. The other syntax characters do not come unescaped here. Greedy
or lazy, `test` finds a match when there is one. -/

inductive Atom where
  | unit (c : CodeUnit)
  | any
  deriving DecidableEq, Repr

inductive Token where
  | atom (a : Atom)
  | star
  | question
  deriving DecidableEq, Repr

/-- `none` where the source has a syntax character that is not modelled. -/
def tokens : List CodeUnit → Option (List Token)
  | [] => some []
  | c :: cs =>
    if c = backslash then
      match cs with
      | [] => none
      | d :: ds => (tokens ds).map (.atom (.unit d) :: ·)
    else if c = fullStop then (tokens cs).map (.atom .any :: ·)
    else if c = asterisk then (tokens cs).map (.star :: ·)
    else if c = question then (tokens cs).map (.question :: ·)
    else if c ∈ escapedUnits then none
    else (tokens cs).map (.atom (.unit c) :: ·)

def Atom.test : Atom → CodeUnit → Bool
  | .unit c => fun d => decide (d = c)
  | .any => fun d => !isLineTerminator d

/-- What a token may follow: an atom without a quantifier, a quantifier that may become lazy, or
nothing that can be quantified. -/
inductive Parser where
  | closed
  | quantified
  | atom (a : Atom)
  deriving DecidableEq, Repr

/-- `none` is the `SyntaxError` "Nothing to repeat". -/
def parse : Parser → List Token → Option (List (Quantified CodeUnit))
  | .closed, [] => some []
  | .closed, .atom a :: ts => parse (.atom a) ts
  | .closed, .star :: _ => none
  | .closed, .question :: _ => none
  | .quantified, [] => some []
  | .quantified, .atom a :: ts => parse (.atom a) ts
  | .quantified, .star :: _ => none
  | .quantified, .question :: ts => parse .closed ts
  | .atom a, [] => some [⟨a.test, .one⟩]
  | .atom a, .atom b :: ts => (parse (.atom b) ts).map (⟨a.test, .one⟩ :: ·)
  | .atom a, .star :: ts => (parse .quantified ts).map (⟨a.test, .many⟩ :: ·)
  | .atom a, .question :: ts => (parse .quantified ts).map (⟨a.test, .optional⟩ :: ·)

/-- `new RegExp('^' + source + '$')`. -/
def regExp (source : List CodeUnit) : Option (List (Quantified CodeUnit)) :=
  (tokens source).bind (parse .closed)

/-- `none` is the `SyntaxError` of `RegExp`. -/
def pathMatchesPattern (path pattern : List CodeUnit) : Option Bool :=
  if pattern = [] then some false
  else (regExp (escaped pattern)).map fun regex => accepts regex path

/-! ## Patterns as glob patterns -/

/-- The path is in the glob language of the pattern: `*` stands for any string, and every other unit,
whatever it is, for itself. -/
def InGlob (pattern path : List CodeUnit) : Prop := Glob asterisk (fun _ => true) pattern path

def lineTerminators (s : List CodeUnit) : Nat := s.countP isLineTerminator

def tokensOf (c : CodeUnit) : List Token :=
  if c = asterisk then [.atom .any, .star]
  else if c = question then [.question]
  else [.atom (.unit c)]

theorem escaped_cons (c : CodeUnit) (pattern : List CodeUnit) :
    escaped (c :: pattern) = (escapeUnit c).flatMap expandUnit ++ escaped pattern := by
  simp [escaped]

theorem tokens_backslash (d : CodeUnit) (cs : List CodeUnit) :
    tokens (backslash :: d :: cs) = (tokens cs).map (.atom (.unit d) :: ·) := by
  rw [tokens, if_pos rfl]

theorem tokens_cons {c : CodeUnit} (h : c ≠ backslash) (cs : List CodeUnit) :
    tokens (c :: cs) =
      if c = fullStop then (tokens cs).map (.atom .any :: ·)
      else if c = asterisk then (tokens cs).map (.star :: ·)
      else if c = question then (tokens cs).map (.question :: ·)
      else if c ∈ escapedUnits then none
      else (tokens cs).map (.atom (.unit c) :: ·) := by
  cases cs <;> simp [tokens, h]

theorem tokens_escaped (pattern : List CodeUnit) :
    tokens (escaped pattern) = some (pattern.flatMap tokensOf) := by
  induction pattern with
  | nil => rfl
  | cons c pattern ih =>
    rw [escaped_cons, List.flatMap_cons]
    by_cases hstar : c = asterisk
    · subst hstar
      show tokens (fullStop :: asterisk :: escaped pattern) = _
      rw [tokens_cons (by decide), if_pos rfl, tokens_cons (by decide), if_neg (by decide), if_pos rfl, ih]
      rfl
    · by_cases hquestion : c = question
      · subst hquestion
        show tokens (question :: escaped pattern) = _
        rw [tokens_cons (by decide), if_neg (by decide), if_neg (by decide), if_pos rfl, ih]
        rfl
      · rw [tokensOf, if_neg hstar, if_neg hquestion]
        by_cases hspecial : c ∈ escapedUnits
        · have hunits : (escapeUnit c).flatMap expandUnit = [backslash, c] := by
            rw [escapeUnit, if_pos hspecial, List.flatMap_cons, List.flatMap_cons, expandUnit, expandUnit,
              if_neg (by decide), if_neg hstar]
            rfl
          rw [hunits]
          show tokens (backslash :: c :: escaped pattern) = _
          rw [tokens_backslash, ih]
          rfl
        · have hunits : (escapeUnit c).flatMap expandUnit = [c] := by
            rw [escapeUnit, if_neg hspecial, List.flatMap_cons, expandUnit, if_neg hstar]
            rfl
          have hback : c ≠ backslash := fun h => hspecial (h ▸ by decide)
          have hstop : c ≠ fullStop := fun h => hspecial (h ▸ by decide)
          rw [hunits]
          show tokens (c :: escaped pattern) = _
          rw [tokens_cons hback, if_neg hstop, if_neg hstar, if_neg hquestion, if_neg hspecial, ih]
          rfl

theorem parse_plain {pattern : List CodeUnit} (h : question ∉ pattern) :
    parse .closed (pattern.flatMap tokensOf) = some (pattern.map (globTerm asterisk Atom.any.test)) ∧
      parse .quantified (pattern.flatMap tokensOf) =
        some (pattern.map (globTerm asterisk Atom.any.test)) ∧
      ∀ a : Atom, parse (.atom a) (pattern.flatMap tokensOf) =
        some (⟨a.test, .one⟩ :: pattern.map (globTerm asterisk Atom.any.test)) := by
  induction pattern with
  | nil => exact ⟨rfl, rfl, fun _ => rfl⟩
  | cons c pattern ih =>
    obtain ⟨hc, hrest⟩ := not_or.mp fun hor => h (List.mem_cons.mpr hor)
    obtain ⟨hclosed, hquantified, hatom⟩ := ih hrest
    rw [List.flatMap_cons, List.map_cons]
    by_cases hstar : c = asterisk
    · simp [tokensOf, globTerm, hstar, parse, hquantified]
    · have hunit : (Atom.unit c).test = fun d => decide (d = c) := rfl
      simp [tokensOf, globTerm, hstar, Ne.symm hc, parse, hatom, hunit]

theorem regExp_plain {pattern : List CodeUnit} (h : question ∉ pattern) :
    regExp (escaped pattern) = some (pattern.map (globTerm asterisk Atom.any.test)) := by
  rw [regExp, tokens_escaped]
  exact (parse_plain h).1

theorem matches_plain {pattern : List CodeUnit} (hne : pattern ≠ []) (h : question ∉ pattern)
    (path : List CodeUnit) :
    pathMatchesPattern path pattern = some true ↔
      InGlob pattern path ∧ lineTerminators path ≤ lineTerminators pattern := by
  rw [pathMatchesPattern, if_neg hne, regExp_plain h, Option.map_some, Option.some.injEq,
    accepts_globTerms]
  exact glob_iff_count (by decide)

theorem accepts_unit (c : CodeUnit) (ts : List (Quantified CodeUnit)) (path : List CodeUnit) :
    accepts (⟨(Atom.unit c).test, .one⟩ :: ts) (c :: path) = accepts ts path := by
  simp [accepts, takeOne, Atom.test]

/-- The pattern without its wildcards and question marks. -/
def bare (pattern : List CodeUnit) : List CodeUnit :=
  pattern.filter fun c => decide (c ≠ asterisk ∧ c ≠ question)

/-- An expression accepts what is left of its pattern without the wildcards and question marks, after
the unit the parser holds. -/
theorem accepts_bare (pattern : List CodeUnit) :
    (∀ ts, parse .closed (pattern.flatMap tokensOf) = some ts → accepts ts (bare pattern) = true) ∧
      (∀ ts, parse .quantified (pattern.flatMap tokensOf) = some ts → accepts ts (bare pattern) = true) ∧
      ∀ c ts, parse (.atom (.unit c)) (pattern.flatMap tokensOf) = some ts →
        accepts ts (c :: bare pattern) = true := by
  induction pattern with
  | nil =>
    refine ⟨fun ts h => ?_, fun ts h => ?_, fun c ts h => ?_⟩
    · cases h
      rfl
    · cases h
      rfl
    · cases h
      rw [accepts_unit]
      rfl
  | cons c pattern ih =>
    obtain ⟨hclosed, hquantified, hatom⟩ := ih
    rw [List.flatMap_cons, tokensOf]
    by_cases hstar : c = asterisk
    · rw [if_pos hstar, show bare (c :: pattern) = bare pattern from List.filter_cons_of_neg (by simp [hstar])]
      have hwild : ∀ ts, parse (.atom .any) (.star :: pattern.flatMap tokensOf) = some ts →
          accepts ts (bare pattern) = true := by
        intro ts h
        obtain ⟨ts', hts, rfl⟩ := Option.map_eq_some_iff.mp h
        exact takeMany_of_rest (hquantified ts' hts)
      refine ⟨hwild, hwild, fun d ts h => ?_⟩
      obtain ⟨ts', hts, rfl⟩ := Option.map_eq_some_iff.mp h
      rw [accepts_unit]
      exact hwild ts' hts
    · rw [if_neg hstar]
      by_cases hquestion : c = question
      · rw [if_pos hquestion,
          show bare (c :: pattern) = bare pattern from List.filter_cons_of_neg (by simp [hquestion])]
        refine ⟨fun ts h => (by cases h), hclosed, fun d ts h => ?_⟩
        obtain ⟨ts', hts, rfl⟩ := Option.map_eq_some_iff.mp h
        rw [accepts]
        refine Bool.or_eq_true_iff.mpr (.inl (Bool.and_eq_true_iff.mpr ⟨decide_eq_true rfl, ?_⟩))
        exact hquantified ts' hts
      · rw [if_neg hquestion, show bare (c :: pattern) = c :: bare pattern from
          List.filter_cons_of_pos (by simp [hstar, hquestion])]
        refine ⟨hatom c, hatom c, fun d ts h => ?_⟩
        obtain ⟨ts', hts, rfl⟩ := Option.map_eq_some_iff.mp h
        rw [accepts_unit]
        exact hatom c ts' hts

theorem countP_filter_le {α : Type} (p q : α → Bool) (l : List α) : (l.filter p).countP q ≤ l.countP q :=
  List.filter_sublist.countP_le

/-- A `?` in the pattern is never matched as itself: some path in the pattern's language is not
accepted, or one outside it is. -/
theorem question_differs {pattern : List CodeUnit} (h : question ∈ pattern) :
    ∃ path, lineTerminators path ≤ lineTerminators pattern ∧
      ¬ (pathMatchesPattern path pattern = some true ↔ InGlob pattern path) := by
  have hne : pattern ≠ [] := List.ne_nil_of_mem h
  cases hregex : regExp (escaped pattern) with
  | none =>
    refine ⟨pattern.filter fun c => decide (c ≠ asterisk), countP_filter_le _ _ pattern, fun hiff => ?_⟩
    have haccepts := hiff.mpr (glob_filter asterisk (fun _ => true) pattern)
    rw [pathMatchesPattern, if_neg hne, hregex] at haccepts
    cases haccepts
  | some ts =>
    refine ⟨bare pattern, countP_filter_le _ _ pattern, fun hiff => ?_⟩
    have hparse := hregex
    rw [regExp, tokens_escaped] at hparse
    have haccepts : pathMatchesPattern (bare pattern) pattern = some true := by
      rw [pathMatchesPattern, if_neg hne, hregex, Option.map_some, (accepts_bare pattern).1 ts hparse]
    have hcount := (hiff.mp haccepts).countP_le (q := fun c => decide (c = question)) (by decide)
    have hnone : (bare pattern).countP (fun c => decide (c = question)) = 0 :=
      List.countP_eq_zero.mpr fun c hc => by
        have := (List.mem_filter.mp hc).2
        simp only [decide_eq_true_eq] at this ⊢
        exact this.2
    have hsome : 0 < pattern.countP fun c => decide (c = question) :=
      List.countP_pos_iff.mpr ⟨question, h, by decide⟩
    omega

/-- The paths of no more line terminators than the pattern are matched as the glob language says exactly
when the pattern is neither empty nor has a `?`; a path of more is never accepted by a pattern that has
none. -/
theorem pathMatchesPattern_glob_iff (pattern : List CodeUnit) :
    ((∀ path, lineTerminators path ≤ lineTerminators pattern →
        (pathMatchesPattern path pattern = some true ↔ InGlob pattern path)) ↔
      pattern ≠ [] ∧ question ∉ pattern) ∧
    (question ∉ pattern → ∀ path,
      ((pathMatchesPattern path pattern = some true ↔ InGlob pattern path) ↔
        (InGlob pattern path →
          pattern ≠ [] ∧ lineTerminators path ≤ lineTerminators pattern))) := by
  have hempty : ∀ path, pathMatchesPattern path [] ≠ some true := fun path h => by cases h
  refine ⟨⟨fun hall => ⟨?_, fun hmem => ?_⟩, ?_⟩, fun hquestion path => ?_⟩
  · rintro rfl
    exact hempty [] ((hall [] (Nat.le_refl _)).mpr .nil)
  · obtain ⟨path, hle, hdiffers⟩ := question_differs hmem
    exact hdiffers (hall path hle)
  · rintro ⟨hne, hquestion⟩ path hle
    rw [matches_plain hne hquestion]
    exact and_iff_left hle
  · by_cases hne : pattern = []
    · subst hne
      simp [hempty path]
    · rw [matches_plain hne hquestion]
      constructor
      · intro hiff hin
        exact ⟨hne, (hiff.mpr hin).2⟩
      · intro hle
        exact ⟨And.left, fun hin => ⟨hin, (hle hin).2⟩⟩

/-- `/api?`. -/
def optionalPattern : List CodeUnit := [0x2F, 0x61, 0x70, 0x69, question]

/-- `/api?` matches `/ap`, and not `/api?`. -/
theorem question_optional :
    pathMatchesPattern [0x2F, 0x61, 0x70] optionalPattern = some true ∧
      ¬ InGlob optionalPattern [0x2F, 0x61, 0x70] ∧
      pathMatchesPattern optionalPattern optionalPattern = some false ∧
      InGlob optionalPattern optionalPattern := by
  refine ⟨by decide, fun h => ?_, by decide, glob_filter asterisk _ optionalPattern⟩
  exact absurd (h.countP_le (q := fun c => decide (c = question)) (by decide)) (by decide)

/-! ## Texts -/

/-- The UTF-16 code units of a character. -/
def charUnits (c : Char) : List CodeUnit :=
  if c.toNat < 0x10000 then [c.toNat.toUInt16]
  else
    let rest := c.toNat - 0x10000
    [(0xD800 + rest / 0x400).toUInt16, (0xDC00 + rest % 0x400).toUInt16]

def codeUnits (s : String) : List CodeUnit := s.toList.flatMap charUnits

theorem question_not_mem_charUnits {c : Char} (h : c ≠ '?') : question ∉ charUnits c := by
  have hvalid : c.toNat < 0xD800 ∨ 0xDFFF < c.toNat ∧ c.toNat < 0x110000 := c.valid
  have hne : c.toNat ≠ 0x3F := fun heq => h (Char.toNat_inj.mp heq)
  have hunit : ∀ n, n < 0x10000 → n ≠ 0x3F → question ≠ n.toUInt16 := by
    intro n hn hne heq
    have hnat : (0x3F : Nat) = n % 2 ^ 16 := congrArg UInt16.toNat heq
    omega
  unfold charUnits
  split
  · rename_i hlt
    simpa using hunit _ hlt hne
  · simp only [List.mem_cons, List.not_mem_nil, or_false, not_or]
    exact ⟨hunit _ (by omega) (by omega), hunit _ (by omega) (by omega)⟩

theorem inGlob_append (units : List CodeUnit) {pattern path : List CodeUnit} (h : InGlob pattern path) :
    InGlob (units ++ pattern) (units ++ path) := by
  induction units with
  | nil => exact h
  | cons c units ih =>
    by_cases hc : c = asterisk
    · subst hc
      exact .wild (u := [asterisk]) (fun _ _ => rfl) ih
    · exact .symbol hc ih

/-- A pattern that matches the path `s`, and says the same of whatever `s` has but question marks. -/
def literalPattern (s : String) : String :=
  String.ofList (s.toList.map fun c => if c = '?' then '*' else c)

theorem matches_literalPattern {s : String} (hs : s ≠ "") :
    pathMatchesPattern (codeUnits s) (codeUnits (literalPattern s)) = some true := by
  have hchars : ∀ cs : List Char, let pattern := (cs.map fun c => if c = '?' then '*' else c).flatMap charUnits
      question ∉ pattern ∧ InGlob pattern (cs.flatMap charUnits) ∧
        lineTerminators (cs.flatMap charUnits) = lineTerminators pattern := by
    intro cs
    induction cs with
    | nil => exact ⟨List.not_mem_nil, .nil, rfl⟩
    | cons c cs ih =>
      obtain ⟨hquestion, hglob, hcount⟩ := ih
      simp only [List.map_cons, List.flatMap_cons, List.mem_append, not_or, lineTerminators,
        List.countP_append] at hquestion hglob hcount ⊢
      by_cases hc : c = '?'
      · subst hc
        rw [if_pos rfl]
        refine ⟨⟨by decide, hquestion⟩, .wild (u := [question]) (fun _ _ => rfl) hglob, ?_⟩
        rw [hcount]
        rfl
      · rw [if_neg hc]
        exact ⟨⟨question_not_mem_charUnits hc, hquestion⟩, inGlob_append _ hglob, by rw [hcount]⟩
  obtain ⟨hquestion, hglob, hcount⟩ := hchars s.toList
  have hpattern : codeUnits (literalPattern s) =
      (s.toList.map fun c => if c = '?' then '*' else c).flatMap charUnits := by
    rw [codeUnits, literalPattern, String.toList_ofList]
  rw [← hpattern] at hquestion hglob hcount
  refine (matches_plain (fun hnil => hs ?_) hquestion _).mpr ⟨hglob, Nat.le_of_eq hcount⟩
  have hunits : ∀ c, charUnits c ≠ [] := fun c => by
    unfold charUnits
    split <;> simp
  rw [hpattern] at hnil
  cases hl : s.toList with
  | nil => exact String.toList_inj.mp hl
  | cons c cs =>
    rw [hl, List.map_cons, List.flatMap_cons, List.append_eq_nil_iff] at hnil
    exact absurd hnil.1 (hunits _)

end RateLimit
end TradeCore
