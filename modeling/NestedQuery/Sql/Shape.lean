/- What the text of one statement depends on, apart from its query and its batch of linked values. -/
import NestedQuery.Plan.Basic
import NestedQuery.Sql.Predicate
import NestedQuery.Sql.Selector

namespace NestedQuery.Sql

/-- The label of the parent's table where each parent row has a page of its own. -/
def parentLabel : String := "_parent"

/-- The junction's columns inside a lateral subquery. -/
def nearColumn : String := "#local"

def farColumn : String := "#foreign"

/-- The parent of a node whose records are paged for each parent row. -/
structure LateralParent where
  node : DataNode
  key : Column
  deriving Repr

structure Shape where
  plan : Plan
  query : QueryNode
  root : DataNode
  lateral : Option LateralParent
  deriving Repr

namespace Shape

/-- A paged plural node below another node is paged for each parent row. -/
def lateralParent (plan : Plan) (root : DataNode) : Result (Option LateralParent) :=
  match root.parent, root.link with
  | some parent, some link => do
    if root.plural && root.request.query.isPaginated then
      let node ← plan.dataNode parent
      let column ← node.format.requireColumn link.parentField
      return some ⟨node, ⟨parentLabel, column⟩⟩
    else return none
  | _, _ => return none

def ofPlan (plan : Plan) (query : Nat) : Result Shape := do
  let query ← plan.query query
  let root ← plan.dataNode query.root
  let lateral ← lateralParent plan root
  return ⟨plan, query, root, lateral⟩

def isLateral (s : Shape) : Bool := s.lateral.isSome

def junction? (s : Shape) : Option JunctionColumns :=
  (s.root.link.filter (·.isManyToMany)).bind (·.relation.junctionColumns?)

/-- The column of the root's own link field. -/
def ownLinkColumn (s : Shape) : Result Column :=
  match s.root.link with
  | none => fail .rootStatementWithoutLink
  | some link => fieldColumn s.root.format s.root.label link.field

/-- The column that is compared with the linked values. -/
def linkedColumn (s : Shape) : Result Column :=
  match s.lateral, s.junction? with
  | some lateral, _ => .ok lateral.key
  | none, some junction => .ok ⟨s.root.junctionLabel, junction.near⟩
  | none, none => s.ownLinkColumn

/-- The declared type of the linked values: that of the parent's field they were read from, or else
that of the root's own field. -/
def linkedType (s : Shape) : Option String :=
  s.root.link.bind fun link =>
    let ofParent := (s.root.parent.bind (s.plan.data[·]?)).bind (·.format.type? link.parentField)
    ofParent.or (s.root.format.type? link.field)

/-- The root's table, joined to the junction if there is one. -/
def source (s : Shape) : Result Pieces := do
  let table : Pieces := [.name s.root.format.table, .words " AS ", .name s.root.label]
  match s.junction? with
  | none => return table
  | some junction =>
    let own ← s.ownLinkColumn
    return [.name junction.table, .words " AS ", .name s.root.junctionLabel, .words " JOIN "]
      ++ table ++ .words " ON " :: own.pieces ++ .words " = "
      :: Column.pieces ⟨s.root.junctionLabel, junction.far⟩

/-- The selected fields of one node of the statement. -/
def nodeProjection (node : DataNode) : Result (List Pieces) :=
  node.selection.names.mapM fun field => do
    let column ← node.format.requireColumn field
    let label ← node.selection.requireLabel field
    (((Selector.ofColumn column).withSource node.label).withLabel label).pieces

/-- The junction's two columns under the labels of the root. -/
def junctionProjection (s : Shape) : Result (List Pieces) :=
  match s.junction? with
  | none => .ok []
  | some junction => do
    let (source, near, far) :=
      if s.isLateral then (s.root.label, nearColumn, farColumn)
      else (s.root.junctionLabel, junction.near, junction.far)
    let near ← (((Selector.ofColumn near).withSource source).withLabel
      s.root.junctionNearLabel).pieces
    let far ← (((Selector.ofColumn far).withSource source).withLabel
      s.root.junctionFarLabel).pieces
    return [near, far]

def projection (s : Shape) : Result Pieces := do
  let fields ← s.query.members.mapM fun id => do nodeProjection (← s.plan.dataNode id)
  let junction ← s.junctionProjection
  return Pieces.separated ", " (fields.flatten ++ junction)

end Shape
end NestedQuery.Sql
