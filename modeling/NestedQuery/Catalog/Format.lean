/- Record formats: named fields, each stored in a column of one table. -/
import NestedQuery.Text.Identifier

namespace NestedQuery

structure Field where
  name : String
  column : String
  /-- Values compared with the column are cast to this type. -/
  type : Option String
  deriving DecidableEq, Repr

structure Format where
  name : String
  table : String
  fields : List Field
  deriving DecidableEq, Repr

namespace Format

def field? (f : Format) (name : String) : Option Field := f.fields.find? (·.name == name)

def hasField (f : Format) (name : String) : Bool := f.fields.any (·.name == name)

def column? (f : Format) (field : String) : Option String := (f.field? field).map (·.column)

def type? (f : Format) (field : String) : Option String := (f.field? field).bind (·.type)

def requireColumn (f : Format) (field : String) : Result String :=
  match f.column? field with
  | some column => .ok column
  | none => refuse (.unknownField f.name field)

/-- Tells where in a format a name is refused. -/
def named (f : Format) (part : String) (check : Except NameFault Unit) : Result Unit :=
  check.mapError fun fault => .configuration (.formatName f.name part fault)

/-- Checks the fields in order, given the names of those before them. -/
def checkFields (f : Format) (before : List String) : List Field → Result Unit
  | [] => .ok ()
  | field :: rest => do
    f.named "field" (Text.checkIdentifier field.name)
    f.named "column" (Text.checkIdentifier field.column)
    match field.type with
    | some type =>
      (Text.checkColumnType type).mapError fun fault =>
        .configuration (.fieldType f.name field.name fault)
    | none => .ok ()
    if before.contains field.name then refuse (.repeatedField f.name field.name)
    f.checkFields (field.name :: before) rest

/-- All names are identifiers, there is a field, and no two fields share a name. -/
def check (f : Format) : Result Unit := do
  f.named "name" (Text.checkIdentifier f.name)
  f.named "table" (Text.checkIdentifier f.table)
  if f.fields.isEmpty then refuse (.noFields f.name)
  f.checkFields [] f.fields

end Format

/-- A field of a format, by their names. -/
structure FieldRef where
  format : String
  field : String
  deriving DecidableEq, Repr

namespace FieldRef

def text (r : FieldRef) : String := s!"{r.format}.{r.field}"

end FieldRef
end NestedQuery
