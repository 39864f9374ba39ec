/- A catalogue built from checked declarations. -/
import NestedQuery.Catalog.Relation

namespace NestedQuery

/-- One side of a relation under the name it has on its format. -/
structure NamedSide where
  owner : String
  name : String
  relation : Relation
  side : Side
  deriving DecidableEq, Repr

structure Schema where
  formats : List Format
  relations : List NamedSide
  deriving DecidableEq, Repr

namespace Schema

def empty : Schema := ⟨[], []⟩

def format? (s : Schema) (name : String) : Option Format := s.formats.find? (·.name == name)

def side? (s : Schema) (owner name : String) : Option NamedSide :=
  s.relations.find? fun r => r.owner == owner && r.name == name

def requireFormat (s : Schema) (name : String) : Result Format :=
  match s.format? name with
  | some format => .ok format
  | none => refuse (.unknownFormat name)

def addFormat (s : Schema) (format : Format) : Result Schema := do
  format.check
  if (s.format? format.name).isSome then refuse (.repeatedFormat format.name)
  return { s with formats := s.formats ++ [format] }

def checkEndpoint (s : Schema) (endpoint : FieldRef) : Result Unit := do
  let format ← s.requireFormat endpoint.format
  let _ ← format.requireColumn endpoint.field

def checkJunction (junction : Junction) : Result Unit := do
  for name in [junction.table, junction.leftColumn, junction.rightColumn] do
    (Text.checkIdentifier name).mapError fun fault => .configuration (.junctionName fault)
  if junction.leftColumn = junction.rightColumn then
    refuse (.junctionColumns junction.table junction.leftColumn)

/-- A relation's name is an identifier that is not yet taken on its format. -/
def checkRelationName (s : Schema) (owner name : String) : Result Unit := do
  (Text.checkIdentifier name).mapError fun fault => .configuration (.relationName owner fault)
  let format ← s.requireFormat owner
  if format.hasField name then refuse (.relationIsField owner name)
  if (s.side? owner name).isSome then refuse (.repeatedRelation owner name)

/-- The sides of a relation that have a name. -/
def namedSides (relation : Relation) (leftName rightName : Option String) : List NamedSide :=
  let named (side : Side) (name : Option String) : List NamedSide :=
    match name with
    | some name => [⟨(relation.endpoint side).format, name, relation, side⟩]
    | none => []
  named .left leftName ++ named .right rightName

/-- Adds a relation under its name on the left format, on the right one, or on both. -/
def relate (s : Schema) (relation : Relation) (leftName rightName : Option String) :
    Result Schema := do
  if leftName.isNone && rightName.isNone then
    refuse (.unnamedRelation relation.left.text relation.right.text)
  s.checkEndpoint relation.left
  s.checkEndpoint relation.right
  match relation.junction? with
  | some junction => checkJunction junction
  | none => .ok ()
  let sides := namedSides relation leftName rightName
  sides.forM fun side => s.checkRelationName side.owner side.name
  match leftName, rightName with
  | some l, some r =>
    if l = r ∧ relation.left.format = relation.right.format then
      refuse (.sameNameOnBothSides relation.left.format l)
  | _, _ => .ok ()
  return { s with relations := s.relations ++ sides }

/-- The names of a format's relations, sorted. -/
def relationNames (s : Schema) (format : String) : List String :=
  ((s.relations.filter (·.owner == format)).map (·.name)).mergeSort (· ≤ ·)

def resolveRelation (s : Schema) (format relation : String) : Result ResolvedRelation :=
  match s.side? format relation with
  | none => refuse (.unknownRelation format relation)
  | some r => do
    let foreign ← s.requireFormat (r.relation.endpoint r.side.opposite).format
    return ⟨r.relation, r.side, foreign⟩

def catalog (s : Schema) : Catalog := ⟨s.requireFormat, s.resolveRelation⟩

end Schema
end NestedQuery
