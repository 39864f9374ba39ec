/- The clauses of a statement, each with its placeholders counted from a given start. -/
import NestedQuery.Sql.Shape

namespace NestedQuery.Sql.Clause

/-- The columns of a lateral subquery, and the column that is compared with the parent's key. -/
def lateralColumns (s : Shape) : Result (List Pieces × Column) := do
  let all ← (Selector.all s.root.label).pieces
  match s.junction? with
  | some junction =>
    let label := s.root.junctionLabel
    let near ← (((Selector.ofColumn junction.near).withSource label).withLabel nearColumn).pieces
    let far ← (((Selector.ofColumn junction.far).withSource label).withLabel farColumn).pieces
    return ([all, near, far], ⟨label, junction.near⟩)
  | none => return ([all], ← s.ownLinkColumn)

/-- Projection and source. For a lateral statement it opens the subquery of each parent row, whose
condition, order and page follow. -/
def head (s : Shape) : Result Fragment := do
  let projection ← s.projection
  match s.lateral with
  | none =>
    let source ← s.source
    return .ofPieces (.words "SELECT " :: projection ++ .words " FROM " :: source)
  | some lateral =>
    let (columns, link) ← lateralColumns s
    let source ← s.source
    return .ofPieces <|
      .words "SELECT " :: projection ++ [.words " FROM ", .name lateral.node.format.table,
        .words " AS ", .name parentLabel, .words " JOIN LATERAL (SELECT "]
      ++ Pieces.separated ", " columns ++ .words " FROM " :: source
      ++ .words " WHERE " :: link.pieces ++ .words " = " :: lateral.key.pieces

/-- Ends the subquery that the head of a lateral statement opens. -/
def lateralClose (s : Shape) : Fragment :=
  .ofPieces [.words ") AS ", .name s.root.label, .words " ON true"]

/-- Joins one absorbed node to its parent, under its own filter. -/
def join (s : Shape) (node : DataNode) (start : Nat) : Result Fragment :=
  match node.parent, node.link with
  | some parent, some link => do
    let parent ← s.plan.dataNode parent
    let own ← fieldColumn node.format node.label link.field
    let parentColumn ← parent.selection.requireColumn link.parentField
    let joined : Pieces := [.words " LEFT JOIN ", .name node.format.table, .words " AS ",
      .name node.label, .words " ON "] ++ own.pieces ++ .words " = " :: parentColumn.pieces
    match node.request.query.filter with
    | none => return .ofPieces joined
    | some filter =>
      let condition ← predicate node.format node.label start filter
      return ⟨joined ++ .words " AND (" :: condition.pieces ++ [.words ")"], condition.params⟩
  | _, _ => fail (.absorbedWithoutParent node.path)

/-- The joins of nodes in their order. -/
def joinsOf (s : Shape) (start : Nat) : List Nat → Result Fragment
  | [] => .ok .empty
  | id :: rest => do
    let node ← s.plan.dataNode id
    let first ← join s node start
    let others ← joinsOf s (first.next start) rest
    return first ++ others

def joins (s : Shape) (start : Nat) : Result Fragment := joinsOf s start s.query.absorbed

/-- The root's filter after the word that leads it, or nothing. -/
def condition (s : Shape) (lead : String) (filter : Option Filter) (start : Nat) :
    Result Fragment :=
  match filter with
  | none => .ok .empty
  | some filter => do
    let inner ← predicate s.root.format s.root.label start filter
    return ⟨.words (lead ++ " (") :: inner.pieces ++ [.words ")"], inner.params⟩

/-- Compares the linked column with one value, or with any of several. -/
def linkedKey (s : Shape) (lead : String) (batch : List Value) (start : Nat) :
    Result Fragment := do
  let column ← s.linkedColumn
  let type := s.linkedType
  match batch with
  | [] => fail (.emptyBatch s.root.path)
  | [one] =>
    return ⟨.words (lead ++ " ") :: column.pieces ++ .words " = " :: parameter start type, [one]⟩
  | many =>
    let rows := (parameters start many.length type).map fun p => .words "(" :: p ++ [.words ")"]
    return ⟨.words (lead ++ " ") :: column.pieces ++ .words " = ANY (VALUES "
      :: Pieces.separated "," rows ++ [.words ")"], many⟩

def orderBy (s : Shape) (sort : List SortKey) : Result Fragment := do
  let keys ← ordering s.root.format s.root.label sort
  return if keys.isEmpty then .empty else .ofPieces (.words " ORDER BY " :: keys)

/-- The rows of one page, or all of them. -/
def pagination (query : Query) (start : Nat) : Fragment :=
  match query.window with
  | none => .empty
  | some (limit, offset) =>
    ⟨[.words " LIMIT ", .placeholder start, .words " OFFSET ", .placeholder (start + 1)],
      [.ofUInt64 limit, .ofUInt64 offset]⟩

end NestedQuery.Sql.Clause
