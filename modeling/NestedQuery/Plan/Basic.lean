/- The plan of a request: its nodes and the statements that they are grouped into. -/
import NestedQuery.Plan.Arena
import NestedQuery.Plan.Partition

namespace NestedQuery

structure Plan where
  data : List DataNode
  queries : List QueryNode
  /-- The statement that owns a node, by node. -/
  owner : List Nat
  deriving Repr

namespace Plan

def outline (n : DataNode) : Outline := ⟨n.parent, n.plural⟩

def ofNodes (data : List DataNode) : Plan :=
  let parts := Partition.ofOutlines (data.map outline)
  ⟨data, parts.queries, parts.owner⟩

/-- Plans a request for one or many records of a format. -/
def build (catalog : Catalog) (format : String) (plural : Bool) (request : Request) : Result Plan :=
  (rootArena catalog format plural request).map ofNodes

def dataNode (p : Plan) (id : Nat) : Result DataNode :=
  match p.data[id]? with
  | some node => .ok node
  | none => fail (.noDataNode id)

def query (p : Plan) (id : Nat) : Result QueryNode :=
  match p.queries[id]? with
  | some query => .ok query
  | none => fail (.noQueryNode id)

/-- The node that opened a statement. -/
def queryRoot (p : Plan) (id : Nat) : Result DataNode := do
  p.dataNode (← p.query id).root

def ownerOf (p : Plan) (id : Nat) : Option Nat := p.owner[id]?

/-- Whether a node is joined into the statement of its parent. -/
def isAbsorbed (p : Plan) (id : Nat) : Bool :=
  match p.data[id]?.bind (·.parent) with
  | some parent => p.ownerOf id == p.ownerOf parent
  | none => false

def levels (p : Plan) : List (List Nat) := levelsOf p.queries

end Plan

/-- One line for each statement, indented by its depth, with a caption for each of its nodes. -/
def outlineText (caption : Nat → String) (queries : List QueryNode) : String :=
  String.join <| queries.map fun q =>
    String.join (List.replicate q.depth "  ") ++ s!"- query {q.id}: "
      ++ ", ".intercalate (q.members.map caption) ++ "\n"

namespace Plan

def nodeCaption (path : String) (id : Nat) (format : String) : String := s!"{path}#{id} ({format})"

def captionOf (p : Plan) (id : Nat) : String :=
  match p.data[id]? with
  | some node => nodeCaption node.path node.id node.format.name
  | none => ""

/-- An outline of the statements and their nodes. -/
def summary (p : Plan) : String := outlineText p.captionOf p.queries

end Plan
end NestedQuery
