/- Documents as written, with all members in their places, and their compact text. -/
import NestedQuery.Json.Number
import NestedQuery.Text.Escape

namespace NestedQuery

/-- A number out of range and a text with half a character are kept as nothing: they matter only
where they are read. -/
inductive Document where
  | null
  | bool (value : Bool)
  | number (value : Option Json.Number)
  | text (value : Option String)
  | list (items : List Document)
  | object (members : List (Option String × Document))
  deriving Repr, Inhabited

namespace Document

def ofNumber (n : Json.Number) : Document := .number (some n)

def ofInt (i : Int) : Document := .number (some (.whole i))

def ofWord (n : UInt64) : Document := .ofInt (n.toNat : Int)

/-- A real number that is not finite is null. -/
def ofReal (x : Binary64) : Document :=
  if x.isFinite then .number (some (.real x)) else .null

def ofText (s : String) : Document := .text (some s)

def ofMembers (members : List (String × Document)) : Document :=
  .object (members.map fun m => (some m.1, m.2))

/-- A whole number below `limit`. -/
def natural? (limit : Nat) : Document → Option Nat
  | .number (some (.whole i)) => if 0 ≤ i ∧ i < limit then some i.toNat else none
  | _ => none

def word? (d : Document) : Option UInt64 := (d.natural? (2 ^ 64)).map UInt64.ofNat

def halfWord? (d : Document) : Option UInt32 := (d.natural? (2 ^ 32)).map UInt32.ofNat

/-- A whole number is read as the nearest real one. -/
def real? : Document → Option Binary64
  | .number (some (.whole i)) => some (.ofInt i)
  | .number (some (.real x)) => some x
  | _ => none

def flag? : Document → Option Bool
  | .bool b => some b
  | _ => none

def text? : Document → Option String
  | .text s => s
  | _ => none

def renderText : Option String → String
  | some s => Text.quotedForDocument s
  | none => "\"\""

mutual

/-- Without spaces between the tokens. -/
def render : Document → String
  | .null => "null"
  | .bool b => if b then "true" else "false"
  | .number (some n) => n.render
  | .number none => "null"
  | .text s => renderText s
  | .list items => "[" ++ renderItems items ++ "]"
  | .object members => "\x7b" ++ renderMembers members ++ "\x7d"

def renderItems : List Document → String
  | [] => ""
  | [item] => render item
  | item :: rest => render item ++ "," ++ renderItems rest

def renderMembers : List (Option String × Document) → String
  | [] => ""
  | [(name, value)] => renderText name ++ ":" ++ render value
  | (name, value) :: rest => renderText name ++ ":" ++ render value ++ "," ++ renderMembers rest

end

end Document
end NestedQuery
