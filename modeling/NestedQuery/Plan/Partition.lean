/- Grouping the nodes of a plan into statements. -/

namespace NestedQuery

/-- One statement: the node that opened it and the single records joined into it. -/
structure QueryNode where
  id : Nat
  root : Nat
  /-- The nodes of the statement in increasing order, the root first. -/
  members : List Nat
  parent : Option Nat
  children : List Nat
  /-- How many statements there are above it. -/
  depth : Nat
  deriving DecidableEq, Repr

/-- The nodes of a statement that are joined to its root. -/
def QueryNode.absorbed (q : QueryNode) : List Nat := q.members.drop 1

/-- What the grouping of a node depends on. -/
structure Outline where
  parent : Option Nat
  plural : Bool
  deriving DecidableEq, Repr

/-- The statements, and for each node the one that owns it. -/
structure Partition where
  queries : List QueryNode
  owner : List Nat
  deriving DecidableEq, Repr

namespace Partition

def empty : Partition := ⟨[], []⟩

def depthOf (p : Partition) (query : Nat) : Nat :=
  match p.queries[query]? with
  | some q => q.depth
  | none => 0

/-- The next node opens a statement of its own. -/
def openQuery (p : Partition) (parent : Option Nat) : Partition :=
  let id := p.queries.length
  let query : QueryNode := {
    id := id
    root := p.owner.length
    members := [p.owner.length]
    parent := parent
    children := []
    depth := match parent with
      | some q => p.depthOf q + 1
      | none => 0 }
  let queries := match parent with
    | some q => p.queries.modify q fun above => { above with children := above.children ++ [id] }
    | none => p.queries
  ⟨queries ++ [query], p.owner ++ [id]⟩

/-- The next node is joined into its parent's statement. -/
def absorb (p : Partition) (query : Nat) : Partition :=
  let node := p.owner.length
  ⟨p.queries.modify query fun q => { q with members := q.members ++ [node] }, p.owner ++ [query]⟩

/-- Adds one more node: a root or plural node opens a statement, any other joins its parent. -/
def add (p : Partition) (node : Outline) : Partition :=
  match node.parent.bind (p.owner[·]?) with
  | none => p.openQuery none
  | some query => if node.plural then p.openQuery (some query) else p.absorb query

/-- Groups nodes whose parents come before them. -/
def ofOutlines (nodes : List Outline) : Partition := nodes.foldl add empty

end Partition

/-- Adds the id of a statement at its depth. -/
def addToLevel (levels : List (List Nat)) (depth id : Nat) : List (List Nat) :=
  let levels := levels ++ List.replicate (depth + 1 - levels.length) []
  levels.modify depth (· ++ [id])

/-- The statements by depth, each level in increasing order. -/
def levelsOf (queries : List QueryNode) : List (List Nat) :=
  queries.foldl (fun levels q => addToLevel levels q.depth q.id) []

end NestedQuery
