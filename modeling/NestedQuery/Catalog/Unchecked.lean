/- A catalogue of declarations that nobody checked. -/
import NestedQuery.Catalog.Schema

namespace NestedQuery

/-- The latest declaration comes first. -/
structure Declarations where
  formats : List Format
  relations : List NamedSide
  deriving DecidableEq, Repr

namespace Declarations

def empty : Declarations := ⟨[], []⟩

/-- A later format of one name takes the place of an earlier one. -/
def addFormat (d : Declarations) (format : Format) : Declarations :=
  { d with formats := format :: d.formats }

def relate (d : Declarations) (relation : Relation) (leftName rightName : Option String) :
    Declarations :=
  { d with relations := (Schema.namedSides relation leftName rightName).reverse ++ d.relations }

def resolveFormat (d : Declarations) (name : String) : Result Format :=
  match d.formats.find? (·.name == name) with
  | some format => .ok format
  | none => fail (.uncheckedFormat name)

def resolveRelation (d : Declarations) (format relation : String) : Result ResolvedRelation :=
  match d.relations.find? fun r => r.owner == format && r.name == relation with
  | none => fail (.uncheckedRelation format relation)
  | some r => do
    let foreign ← d.resolveFormat (r.relation.endpoint r.side.opposite).format
    return ⟨r.relation, r.side, foreign⟩

def catalog (d : Declarations) : Catalog := ⟨d.resolveFormat, d.resolveRelation⟩

end Declarations
end NestedQuery
