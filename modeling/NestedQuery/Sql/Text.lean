/- Statement text in pieces: fixed words, quoted names, placeholders and casts. -/
import NestedQuery.Text.Quoted

namespace NestedQuery.Sql

inductive Piece where
  | words (text : String)
  | name (text : String)
  | placeholder (index : Nat)
  | cast (type : String)
  deriving DecidableEq, Repr

def Piece.text : Piece → String
  | .words s => s
  | .name s => NestedQuery.Text.quotedName s
  | .placeholder n => s!"${n}"
  | .cast type => s!"::{type}"

abbrev Pieces := List Piece

def Pieces.text (pieces : Pieces) : String := String.join (pieces.map Piece.text)

/-- The parts with a separator between them. -/
def Pieces.separated (separator : String) : List Pieces → Pieces
  | [] => []
  | [part] => part
  | part :: rest => part ++ .words separator :: separated separator rest

/-- A column of a source in scope. -/
structure Column where
  source : String
  column : String
  deriving DecidableEq, Repr

def Column.pieces (c : Column) : Pieces := [.name c.source, .words ".", .name c.column]

def Column.text (c : Column) : String := Pieces.text c.pieces

/-- A placeholder, cast to the declared type of the column it is compared with. -/
def parameter (index : Nat) (type : Option String) : Pieces :=
  match type with
  | some type => [.placeholder index, .cast type]
  | none => [.placeholder index]

end NestedQuery.Sql
