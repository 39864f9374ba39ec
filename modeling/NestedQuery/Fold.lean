/- The nested result of a plan, put together from the flat rows of its statements. -/
import NestedQuery.Plan.Basic
import NestedQuery.Tree

namespace NestedQuery

/-- Objects by the value that they are linked on, in the order of the rows. -/
abbrev Groups := List (Value × List Tree)

namespace Groups

def add (key : Value) (object : Tree) : Groups → Groups
  | [] => [(key, [object])]
  | (k, objects) :: rest =>
    if Value.sameKey k key then (k, objects ++ [object]) :: rest
    else (k, objects) :: add key object rest

def find (groups : Groups) (key : Value) : List Tree :=
  match groups.find? fun g => Value.sameKey g.1 key with
  | some g => g.2
  | none => []

end Groups

/-- The value of a column, if there is one and it is not null. -/
def Row.link? (row : Row) (label : String) : Option Value :=
  (Fields.find? label row).filter (!·.isNull)

namespace Plan

/-- The groups of the statements that are put together already, by statement. -/
abbrev Below := List (Nat × Groups)

/-- The selected fields of a node; a missing column is null. -/
def scalars (node : DataNode) (row : Row) : Result (Fields Tree) :=
  node.selection.names.foldlM (fun object field => do
    let label ← node.selection.requireLabel field
    return Fields.insert field (.scalar ((Fields.find? label row).getD .null)) object) []

/-- The parent's value that a child is linked on. -/
def parentKey (node child : DataNode) (row : Row) : Result (Option Value) :=
  match child.link with
  | none => fail (.nodeWithoutLink child.path)
  | some link => do
    let label ← node.selection.requireLabel link.parentField
    return Row.link? row label

/-- A joined record exists if its own link value equals the parent's. -/
def isPresent (child : DataNode) (row : Row) : Option Value → Result Bool
  | none => .ok false
  | some key => do
    let label ← child.linkLabel
    match Row.link? row label with
    | some own => return own == key
    | none => return false

/-- The group of a child that has a statement of its own. -/
def related (p : Plan) (below : Below) (child : DataNode) (key : Option Value) : Tree :=
  let matching := match key, (p.ownerOf child.id).bind (below.lookup ·) with
    | some key, some groups => groups.find key
    | _, _ => []
  if child.plural then .list matching else matching.headD .absent

/-- The object of a node in one row, with those of the nodes joined to it and the groups of all
others. Children come after their parents. -/
def object (p : Plan) (below : Below) (row : Row) (id : Nat) : Result Tree := do
  let node ← p.dataNode id
  let start ← scalars node row
  let fields ← node.children.foldlM (fun fields (name, childId) => do
    let child ← p.dataNode childId
    let key ← parentKey node child row
    let value ←
      if p.isAbsorbed childId then
        if ← isPresent child row key then
          if _h : id < childId ∧ childId < p.data.length then object p below row childId
          else fail (.noDataNode childId)
        else pure .absent
      else pure (p.related below child key)
    return Fields.insert name value fields) start
  return .object fields
termination_by p.data.length - id
decreasing_by omega

/-- The objects of a statement by the values they are linked on; rows without one are left out. -/
def groups (p : Plan) (below : Below) (root : DataNode) (rows : List Row) : Result Groups := do
  let label ← root.linkLabel
  rows.foldlM (fun groups row =>
    match Row.link? row label with
    | none => .ok groups
    | some key => do
      let object ← p.object below row root.id
      return groups.add key object) []

/-- The groups of some statements, of which each needs only those after it. -/
def groupsOf (p : Plan) (rows : List (List Row)) : List QueryNode → Result Below
  | [] => .ok []
  | query :: rest => do
    let below ← groupsOf p rows rest
    let root ← p.dataNode query.root
    let own ← p.groups below root ((rows[query.id]?).getD [])
    return (query.id, own) :: below

mutual

/-- Leaves out the fields that were selected only for matching, at all depths. -/
def prune (p : Plan) (id : Nat) : Tree → Tree
  | .list items => .list (pruneItems p id items)
  | .object fields =>
    match p.data[id]? with
    | none => .object fields
    | some node => .object (pruneFields p node fields)
  | .scalar value => .scalar value
  | .absent => .absent

def pruneItems (p : Plan) (id : Nat) : List Tree → List Tree
  | [] => []
  | item :: rest => prune p id item :: pruneItems p id rest

def pruneFields (p : Plan) (node : DataNode) : List (String × Tree) → List (String × Tree)
  | [] => []
  | (name, value) :: rest =>
    if node.selection.linkageOnly.contains name then pruneFields p node rest
    else
      match node.children.lookup name with
      | some child => (name, prune p child value) :: pruneFields p node rest
      | none => (name, value) :: pruneFields p node rest

end

/-- A list of objects for a plural root, else the first row's object if there is one. -/
def rootTree (plural : Bool) (objects : List Tree) : Tree :=
  if plural then .list objects else objects.headD .absent

/-- The nested result, given the rows of each statement by its id. -/
def fold (p : Plan) (rows : List (List Row)) : Result Tree := do
  if rows.length ≠ p.queries.length then fail (.rowSetCount rows.length p.queries.length)
  let below ← p.groupsOf rows (p.queries.drop 1)
  let root ← p.dataNode 0
  let objects ← (rows.headD []).mapM fun row => p.object below row root.id
  return p.prune root.id (rootTree root.plural objects)

end Plan
end NestedQuery
