/- A part of a statement together with the values of its placeholders. -/
import NestedQuery.Sql.Text
import NestedQuery.Value.Equality

namespace NestedQuery.Sql

structure Fragment where
  pieces : Pieces
  params : List Value
  deriving Repr

namespace Fragment

def empty : Fragment := ⟨[], []⟩

def ofPieces (pieces : Pieces) : Fragment := ⟨pieces, []⟩

def text (f : Fragment) : String := Pieces.text f.pieces

def isEmpty (f : Fragment) : Bool := f.text.isEmpty

/-- The first placeholder after a fragment whose own ones start at `start`. -/
def next (f : Fragment) (start : Nat) : Nat := start + f.params.length

def push (f : Fragment) (words : String) : Fragment :=
  { f with pieces := f.pieces ++ [.words words] }

def append (f g : Fragment) : Fragment := ⟨f.pieces ++ g.pieces, f.params ++ g.params⟩

instance : Append Fragment := ⟨append⟩

end Fragment

/-- What is sent to the database: a text and the values of its placeholders, in their order. -/
structure Statement where
  pieces : Pieces
  params : List Value
  deriving Repr

def Statement.ofFragment (f : Fragment) : Statement := ⟨f.pieces, f.params⟩

def Statement.text (s : Statement) : String := Pieces.text s.pieces

end NestedQuery.Sql
