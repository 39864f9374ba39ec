/- The nodes of a plan: one for each requested record, root or related. -/
import NestedQuery.Catalog.Relation
import NestedQuery.Fields
import NestedQuery.Request.Basic
import NestedQuery.Sql.Text

namespace NestedQuery

/-- The fields selected for a node. -/
structure Selection where
  node : Nat
  /-- In the order of the format. -/
  selected : List Field
  /-- The names of the fields that are returned. -/
  returned : List String
  deriving DecidableEq, Repr

namespace Selection

def names (s : Selection) : List String := s.selected.map (·.name)

def kept (s : Selection) : List String := s.names.filter s.returned.contains

/-- Fields that are selected only so that parents and children can be matched, sorted. -/
def linkageOnly (s : Selection) : List String :=
  (Fields.ofList ((s.names.filter (!s.returned.contains ·)).map (·, ()))).names

def label (s : Selection) (field : String) : String := s!"{s.node}.{field}"

/-- The column labels by field. -/
def labels (s : Selection) : Fields String :=
  Fields.ofList (s.selected.map fun f => (f.name, s.label f.name))

def columns (s : Selection) : Fields Sql.Column :=
  Fields.ofList (s.selected.map fun f => (f.name, ⟨toString s.node, f.column⟩))

def requireLabel (s : Selection) (field : String) : Result String :=
  match Fields.find? field s.labels with
  | some label => .ok label
  | none => fail (.fieldNotSelected field)

def requireColumn (s : Selection) (field : String) : Result Sql.Column :=
  match Fields.find? field s.columns with
  | some column => .ok column
  | none => fail (.fieldNotSelected field)

end Selection

/-- How a node hangs off its parent. -/
structure Link where
  /-- As seen from the parent. -/
  relation : ResolvedRelation
  /-- The node's own field that is matched. -/
  field : String
  /-- The parent's field that it is matched with. -/
  parentField : String
  deriving DecidableEq, Repr

namespace Link

def ofRelation (relation : ResolvedRelation) : Link :=
  ⟨relation, relation.foreignField.field, relation.localField.field⟩

def isManyToMany (l : Link) : Bool := l.relation.isManyToMany

end Link

structure DataNode where
  id : Nat
  format : Format
  plural : Bool
  parent : Option Nat
  /-- By relation name, in the order of the request. -/
  children : List (String × Nat)
  /-- Only the root has none. -/
  link : Option Link
  request : Request
  selection : Selection
  /-- The relation names from the root on, with points between them. -/
  path : String
  deriving Repr

namespace DataNode

def label (n : DataNode) : String := toString n.id

def junctionLabel (n : DataNode) : String := s!"{n.id}_j"

/-- The label of the column with the parent's side of a junction. -/
def junctionNearLabel (n : DataNode) : String := s!"{n.id}.#local"

/-- The label of the column with the node's own side of a junction. -/
def junctionFarLabel (n : DataNode) : String := s!"{n.id}.#foreign"

/-- The label of the column that is matched with the parent's value. -/
def linkLabel (n : DataNode) : Result String :=
  match n.link with
  | some link =>
    if link.isManyToMany then .ok n.junctionNearLabel else n.selection.requireLabel link.field
  | none => fail .rootWithoutLink

def isRoot (n : DataNode) : Bool := n.parent.isNone

end DataNode
end NestedQuery
