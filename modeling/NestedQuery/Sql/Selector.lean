/- One projected column, optionally qualified and renamed, or all columns of a source. -/
import NestedQuery.Error
import NestedQuery.Sql.Text
import NestedQuery.Text.Escape

namespace NestedQuery.Sql

/-- The column `*` stands for all columns. -/
structure Selector where
  source : Option String
  column : String
  label : Option String
  deriving DecidableEq, Repr

namespace Selector

def ofColumn (column : String) : Selector := ⟨none, column, none⟩

def all (source : String) : Selector := ⟨some source, "*", none⟩

def withSource (s : Selector) (source : String) : Selector := { s with source := some source }

def withLabel (s : Selector) (label : String) : Selector := { s with label := some label }

/-- All columns cannot be renamed, and a column has a name. -/
def pieces (s : Selector) : Result Pieces :=
  if s.column = "*" then
    match s.label, s.source with
    | some _, _ => fail .wildcardLabel
    | none, some source => .ok [.name source, .words ".*"]
    | none, none => .ok [.words "*"]
  else if s.column = "" then fail .emptyColumn
  else
    let expression : Pieces := match s.source with
      | some source => Column.pieces ⟨source, s.column⟩
      | none => [.name s.column]
    match s.label with
    | some label => .ok (expression ++ [.words " AS ", .name label])
    | none => .ok expression

def text (s : Selector) : Result String := s.pieces.map Pieces.text

def optionText : Option String → String
  | some s => "Some(" ++ NestedQuery.Text.quotedForDisplay s ++ ")"
  | none => "None"

/-- The three parts with their names. -/
def display (s : Selector) : String :=
  "Selector \x7b source: " ++ optionText s.source
    ++ ", column: " ++ NestedQuery.Text.quotedForDisplay s.column
    ++ ", alias: " ++ optionText s.label ++ " \x7d"

end Selector
end NestedQuery.Sql
