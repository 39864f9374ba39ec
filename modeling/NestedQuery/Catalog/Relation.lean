/- Relations between two fields, as declared and as seen from one of their sides. -/
import NestedQuery.Catalog.Format
import NestedQuery.Text.Blank

namespace NestedQuery

namespace FieldRef

/-- Reads `format.field`, cut at the first point, without the blanks around it. -/
def parse (s : String) : Result FieldRef :=
  let chars := (Text.trimBlank s).toList
  let format := chars.takeWhile (· != '.')
  let field := (chars.dropWhile (· != '.')).drop 1
  if format = [] ∨ field = [] then refuse (.fieldReference s)
  else .ok ⟨String.ofList format, String.ofList field⟩

end FieldRef

/-- The table between the two sides of a many-to-many relation. -/
structure Junction where
  table : String
  /-- Holds the value of the left side's field. -/
  leftColumn : String
  /-- Holds the value of the right side's field. -/
  rightColumn : String
  deriving DecidableEq, Repr

/-- A table named for both formats with columns named for both fields, kept apart if they agree. -/
def Junction.derive (left right : FieldRef) : Junction :=
  let table := s!"{left.format}_{right.format}"
  let leftColumn := s!"{left.format}_{left.field}"
  let rightColumn := s!"{right.format}_{right.field}"
  if leftColumn = rightColumn then ⟨table, s!"{leftColumn}_left", s!"{rightColumn}_right"⟩
  else ⟨table, leftColumn, rightColumn⟩

inductive Side where
  | left
  | right
  deriving DecidableEq, Repr

def Side.opposite : Side → Side
  | .left => .right
  | .right => .left

/-- Of one-to-many, the left side is the one and the right side the many. -/
inductive RelationKind where
  | oneToOne
  | oneToMany
  | manyToMany (junction : Junction)
  deriving DecidableEq, Repr

structure Relation where
  kind : RelationKind
  left : FieldRef
  right : FieldRef
  deriving DecidableEq, Repr

namespace Relation

def oneToOne (left right : FieldRef) : Relation := ⟨.oneToOne, left, right⟩

def oneToMany (one many : FieldRef) : Relation := ⟨.oneToMany, one, many⟩

def manyToMany (left right : FieldRef) : Relation :=
  ⟨.manyToMany (.derive left right), left, right⟩

/-- Replaces the junction of a relation that has one. -/
def withJunction (r : Relation) (junction : Junction) : Relation :=
  match r.kind with
  | .manyToMany _ => { r with kind := .manyToMany junction }
  | _ => r

def endpoint (r : Relation) : Side → FieldRef
  | .left => r.left
  | .right => r.right

def junction? (r : Relation) : Option Junction :=
  match r.kind with
  | .manyToMany junction => some junction
  | _ => none

/-- Whether there are many records on the side opposite to this one. -/
def pluralFrom (r : Relation) (side : Side) : Bool :=
  match r.kind with
  | .oneToOne => false
  | .oneToMany => side == .left
  | .manyToMany _ => true

end Relation

/-- The columns of a junction as seen from one side. -/
structure JunctionColumns where
  table : String
  near : String
  far : String
  deriving DecidableEq, Repr

/-- A relation as seen from one of its formats. -/
structure ResolvedRelation where
  relation : Relation
  side : Side
  foreignFormat : Format
  deriving DecidableEq, Repr

namespace ResolvedRelation

def plural (r : ResolvedRelation) : Bool := r.relation.pluralFrom r.side

def localField (r : ResolvedRelation) : FieldRef := r.relation.endpoint r.side

def foreignField (r : ResolvedRelation) : FieldRef := r.relation.endpoint r.side.opposite

def junctionColumns? (r : ResolvedRelation) : Option JunctionColumns :=
  r.relation.junction?.map fun j =>
    match r.side with
    | .left => ⟨j.table, j.leftColumn, j.rightColumn⟩
    | .right => ⟨j.table, j.rightColumn, j.leftColumn⟩

def isManyToMany (r : ResolvedRelation) : Bool := r.relation.junction?.isSome

end ResolvedRelation

/-- The look-ups that planning needs. -/
structure Catalog where
  format : String → Result Format
  relation : String → String → Result ResolvedRelation

end NestedQuery
