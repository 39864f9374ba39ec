/- Quoted names mark their own end: whatever a name consists of, its quoted form is read back as the name, and
what follows stays as it is. So columns and selectors can be read back, and no two of them are written alike. -/
import NestedQuery.Proofs.Lexemes
import NestedQuery.Sql.Selector

namespace NestedQuery

namespace Text

theorem toList_quotedName (name : String) (rest : List Char) :
    (quotedName name).toList ++ rest = '"' :: (doubleQuotes name.toList ++ '"' :: rest) := by
  rw [quotedName, String.toList_ofList, List.append_assoc, List.cons_append]
  rfl

/-- A further quote continues the name. -/
theorem readQuotedRest_continued (name rest : List Char) :
    readQuotedRest (doubleQuotes name ++ '"' :: '"' :: rest) =
      (readQuotedRest rest).map fun r => (name ++ '"' :: r.1, r.2) := by
  induction name with
  | nil => rfl
  | cons c others ih =>
      by_cases quote : c = '"'
      · subst quote
        rw [doubleQuotes, if_pos rfl, List.cons_append, List.cons_append, readQuotedRest, ih,
          Option.map_map]
        rfl
      · rw [doubleQuotes, if_neg quote, List.cons_append, readQuotedRest, ih, Option.map_map]
        · rfl
        · exact fun _ same => absurd same quote
        · exact quote

/-- A name ends where it was ended, exactly if no further quote follows. -/
theorem readQuotedName_iff (name : String) (rest : List Char) :
    readQuotedName ((quotedName name).toList ++ rest) = some (name.toList, rest) ↔
      rest.head? ≠ some '"' := by
  rw [toList_quotedName, readQuotedName]
  constructor
  · rintro read further
    obtain ⟨later, rfl⟩ : ∃ later, rest = '"' :: later := by
      cases rest with
      | nil => cases further
      | cons c later => exact ⟨later, by rw [Option.some.inj further]⟩
    rw [readQuotedRest_continued] at read
    obtain ⟨r, -, same⟩ := Option.map_eq_some_iff.mp read
    have longer := congrArg (fun p : List Char × List Char => p.1.length) same
    simp only [List.length_append, List.length_cons] at longer
    omega
  · intro apart
    exact readQuotedRest_doubleQuotes name.toList fun c first same => apart (same ▸ first)

/-- A quoted name and what follows it. -/
def readName? (text : List Char) : Option (String × List Char) :=
  (readQuotedName text).map fun r => (String.ofList r.1, r.2)

theorem readName?_quotedName (name : String) {rest : List Char} (apart : rest.head? ≠ some '"') :
    readName? ((quotedName name).toList ++ rest) = some (name, rest) := by
  rw [readName?, (readQuotedName_iff name rest).mpr apart, Option.map_some, String.ofList_toList]

end Text

namespace Sql

open Text

/-- A column of a source and what follows it. -/
def Column.read? (text : List Char) : Option (Column × List Char) :=
  (readName? text).bind fun source =>
    match source.2 with
    | '.' :: rest => (readName? rest).map fun column => (⟨source.1, column.1⟩, column.2)
    | _ => none

theorem Column.toList_text (c : Column) :
    c.text.toList = (quotedName c.source).toList ++ '.' :: (quotedName c.column).toList := by
  simp [Column.text, Pieces.text, Column.pieces, Piece.text]

theorem Column.read?_text (c : Column) {rest : List Char} (apart : rest.head? ≠ some '"') :
    Column.read? (c.text.toList ++ rest) = some (c, rest) := by
  rw [toList_text, List.append_assoc, List.cons_append, read?,
    readName?_quotedName c.source (by simp), Option.bind_some]
  simp only [readName?_quotedName c.column apart, Option.map_some]

namespace Selector

/-- What renames a column, if something does, and what follows. -/
def readLabel? (s : Selector) : List Char → Option (Selector × List Char)
  | ' ' :: 'A' :: 'S' :: ' ' :: rest => (readName? rest).map fun label => (s.withLabel label.1, label.2)
  | rest => some (s, rest)

/-- A selector after its first name, and what follows it. -/
def readAfter? (first : String) : List Char → Option (Selector × List Char)
  | '.' :: '*' :: rest => some (all first, rest)
  | '.' :: rest =>
    (readName? rest).bind fun column =>
      readLabel? ((ofColumn column.1).withSource first) column.2
  | rest => readLabel? (ofColumn first) rest

/-- A selector and what follows it. -/
def read? : List Char → Option (Selector × List Char)
  | '*' :: rest => some (ofColumn "*", rest)
  | text => (readName? text).bind fun first => readAfter? first.1 first.2

/-- What does not go on with a selector: neither a name, nor a part of one, nor a new name. -/
def Ended (rest : List Char) : Prop :=
  rest.head? ≠ some '"' ∧ rest.head? ≠ some '.' ∧ ¬[' ', 'A', 'S', ' '] <+: rest

theorem readLabel?_of_ended (s : Selector) {rest : List Char} (ended : Ended rest) :
    readLabel? s rest = some (s, rest) := by
  unfold readLabel?
  split
  · next later => exact absurd (List.prefix_append [' ', 'A', 'S', ' '] later) ended.2.2
  · rfl

/-- The text of the part that renames a column. -/
def labelText : Option String → List Char
  | some label => [' ', 'A', 'S', ' '] ++ (quotedName label).toList
  | none => []

theorem readLabel?_labelText (s : Selector) (label : Option String) {rest : List Char}
    (ended : Ended rest) (plain : s.label = none) :
    readLabel? s (labelText label ++ rest) = some ({ s with label := label }, rest) := by
  cases label with
  | none =>
      rw [labelText, List.nil_append, readLabel?_of_ended s ended, ← plain]
  | some label =>
      rw [labelText, List.append_assoc, List.cons_append, List.cons_append, List.cons_append,
        List.cons_append, List.nil_append, readLabel?, readName?_quotedName label ended.1]
      rfl

theorem labelText_apart (label : Option String) {rest : List Char} (ended : Ended rest) :
    (labelText label ++ rest).head? ≠ some '"' ∧ (labelText label ++ rest).head? ≠ some '.' := by
  cases label with
  | none => exact ⟨ended.1, ended.2.1⟩
  | some label => constructor <;> exact fun same => absurd (Option.some.inj same) (by decide)

/-- How a selector is written: all columns, those of a source, a column, or a column of a source. -/
theorem text_cases {s : Selector} {text : String} (written : s.text = .ok text) :
    (s = ofColumn "*" ∧ text.toList = ['*']) ∨
    (∃ source, s = all source ∧ text.toList = (quotedName source).toList ++ ['.', '*']) ∨
    (s.source = none ∧ text.toList = (quotedName s.column).toList ++ labelText s.label) ∨
    ∃ source, s.source = some source ∧
      text.toList = (Column.text ⟨source, s.column⟩).toList ++ labelText s.label := by
  obtain ⟨source, column, label⟩ := s
  obtain ⟨pieces, given, rfl⟩ : ∃ pieces, Selector.pieces ⟨source, column, label⟩ = .ok pieces ∧
      pieces.text = text := by
    unfold Selector.text at written
    cases given : Selector.pieces ⟨source, column, label⟩ with
    | error fault => rw [given] at written; cases written
    | ok pieces => rw [given] at written; cases written; exact ⟨pieces, rfl, rfl⟩
  unfold Selector.pieces at given
  by_cases wild : column = "*"
  · subst wild
    rw [if_pos rfl] at given
    cases label with
    | some label => cases given
    | none =>
        cases source with
        | none => cases given; exact .inl ⟨rfl, rfl⟩
        | some source =>
            cases given
            refine .inr (.inl ⟨source, rfl, ?_⟩)
            simp [Pieces.text, Piece.text]
  · rw [if_neg wild] at given
    split at given
    · cases given
    · cases source with
      | none =>
          refine .inr (.inr (.inl ⟨rfl, ?_⟩))
          cases label <;> cases given <;> simp [Pieces.text, Piece.text, labelText]
      | some source =>
          refine .inr (.inr (.inr ⟨source, rfl, ?_⟩))
          cases label <;> cases given <;>
            simp [Column.text, Column.pieces, Pieces.text, Piece.text, labelText]

theorem read?_quotedName (name : String) {rest : List Char} (apart : rest.head? ≠ some '"') :
    read? ((quotedName name).toList ++ rest) = readAfter? name rest := by
  rw [toList_quotedName, read?, ← toList_quotedName, readName?_quotedName name apart, Option.bind_some]
  exact nofun

theorem readAfter?_column (source column : String) {rest : List Char} (apart : rest.head? ≠ some '"') :
    readAfter? source ('.' :: ((quotedName column).toList ++ rest)) =
      readLabel? ((ofColumn column).withSource source) rest := by
  rw [toList_quotedName, readAfter?, ← toList_quotedName, readName?_quotedName column apart,
    Option.bind_some]
  exact fun _ same => absurd (List.cons.inj same).1 (by decide)

theorem readAfter?_of_ne {name : String} {rest : List Char} (apart : rest.head? ≠ some '.') :
    readAfter? name rest = readLabel? (ofColumn name) rest := by
  rw [readAfter?]
  · rintro later rfl
    exact apart rfl
  · rintro later rfl
    exact apart rfl

/-- A selector is read back from its text, whatever follows that does not go on with it. -/
theorem read?_text {s : Selector} {text : String} (written : s.text = .ok text) {rest : List Char}
    (ended : Ended rest) : read? (text.toList ++ rest) = some (s, rest) := by
  have apart := labelText_apart s.label ended
  rcases text_cases written with ⟨rfl, spelled⟩ | ⟨source, rfl, spelled⟩ | ⟨bare, spelled⟩ |
    ⟨source, qualified, spelled⟩
  · rw [spelled]
    rfl
  · rw [spelled, List.append_assoc, read?_quotedName source (by simp)]
    rfl
  · rw [spelled, List.append_assoc, read?_quotedName s.column apart.1, readAfter?_of_ne apart.2,
      readLabel?_labelText _ s.label ended rfl, ofColumn, ← bare]
  · rw [spelled, Column.toList_text, List.append_assoc, List.append_assoc,
      read?_quotedName source (by simp), List.cons_append, readAfter?_column source s.column apart.1,
      readLabel?_labelText _ s.label ended rfl, ofColumn, withSource, ← qualified]

theorem ended_nil : Ended [] := ⟨nofun, nofun, by decide⟩

theorem text_inj {s t : Selector} {text : String} (first : s.text = .ok text)
    (second : t.text = .ok text) : s = t := by
  have same := (read?_text first ended_nil).symm.trans (read?_text second ended_nil)
  exact congrArg Prod.fst (Option.some.inj same)

end Selector

/-- Whatever a name consists of, its quoted form is read up to its end and no further, unless another quote
follows it. So a column and a selector are read back from their texts, and two different ones are never
written alike. -/
theorem quoted_read_back :
    (∀ (name : String) (rest : List Char),
      readQuotedName ((quotedName name).toList ++ rest) = some (name.toList, rest) ↔
        rest.head? ≠ some '"') ∧
    (∀ (c : Column) (rest : List Char), rest.head? ≠ some '"' →
      Column.read? (c.text.toList ++ rest) = some (c, rest)) ∧
    (∀ (s : Selector) (text : String) (rest : List Char), s.text = .ok text →
      Selector.Ended rest → Selector.read? (text.toList ++ rest) = some (s, rest)) ∧
    (∀ c d : Column, c.text = d.text → c = d) ∧
    ∀ (s t : Selector) (text : String), s.text = .ok text → t.text = .ok text → s = t := by
  refine ⟨readQuotedName_iff, fun c _ => c.read?_text,
    fun _ _ _ written ended => Selector.read?_text written ended, ?_,
    fun _ _ _ => Selector.text_inj⟩
  intro c d same
  have bare : ([] : List Char).head? ≠ some '"' := nofun
  have alike := (c.read?_text bare).symm.trans (same ▸ d.read?_text bare)
  exact congrArg Prod.fst (Option.some.inj alike)

/-- Names that begin and end with quotes, in a list of columns. -/
theorem quoted_read_back_quotes :
    let s : Selector := ⟨some "\"a", "we\"\"ird", some "x\""⟩
    let text := "\"\"\"a\".\"we\"\"\"\"ird\" AS \"x\"\"\""
    let rest := ", \"b\"".toList
    s.text = .ok text ∧ Selector.Ended rest ∧ Selector.read? (text.toList ++ rest) = some (s, rest) ∧
      rest.head? ≠ some '"' ∧ (Column.text ⟨"\"a", "b\""⟩) = "\"\"\"a\".\"b\"\"\"" ∧
      Column.read? ("\"\"\"a\".\"b\"\"\"".toList ++ rest) = some (⟨"\"a", "b\""⟩, rest) := by
  intro s text rest
  have written : s.text = .ok text := by decide +kernel
  have ended : Selector.Ended rest := ⟨by decide, by decide, by decide⟩
  have column : Column.text ⟨"\"a", "b\""⟩ = "\"\"\"a\".\"b\"\"\"" := by decide +kernel
  have columnRead := quoted_read_back.2.1 ⟨"\"a", "b\""⟩ rest ended.1
  rw [column] at columnRead
  exact ⟨written, ended, quoted_read_back.2.2.1 s text rest written ended, ended.1, column, columnRead⟩

end Sql
end NestedQuery
