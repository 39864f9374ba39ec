/- The statement of one query node, kept in segments of which only stale ones are rendered again. -/
import NestedQuery.Sql.Clause

namespace NestedQuery.Sql

inductive Segment where
  | head
  | joins
  | filter
  | linkedKey
  | orderBy
  | pagination
  | lateralClose
  deriving DecidableEq, Repr

namespace Segment

/-- The order of the segments. The last two of a lateral statement stand outside its subquery. -/
def orderFor (lateral isRoot : Bool) : List Segment :=
  if lateral then
    [.head, .filter, .orderBy, .pagination, .lateralClose, .joins, .linkedKey, .orderBy]
  else if isRoot then [.head, .joins, .filter, .orderBy, .pagination]
  else [.head, .joins, .filter, .linkedKey, .orderBy]

/-- The text of a segment. The head of a lateral statement has a condition already; elsewhere the
first condition follows `WHERE`. -/
def render (shape : Shape) (query : Query) (batch : List Value) (segment : Segment)
    (start : Nat) : Result Fragment :=
  match segment with
  | .head => Clause.head shape
  | .joins => Clause.joins shape start
  | .filter =>
    Clause.condition shape (if shape.isLateral then " AND" else " WHERE") query.filter start
  | .linkedKey =>
    let lead := if !shape.isLateral && query.filter.isSome then " AND" else " WHERE"
    Clause.linkedKey shape lead batch start
  | .orderBy => Clause.orderBy shape query.sort
  | .pagination => .ok (Clause.pagination query start)
  | .lateralClose => .ok (Clause.lateralClose shape)

end Segment

/-- A rendered segment and the placeholder that it was rendered at. -/
structure Kept where
  start : Nat
  fragment : Fragment
  deriving Repr

structure Slot where
  segment : Segment
  kept : Option Kept
  deriving Repr

namespace Slot

/-- What is kept can be used at `start`: it was rendered there, or it has no placeholders. -/
def usable? (s : Slot) (start : Nat) : Option Fragment :=
  match s.kept with
  | some kept => if kept.start = start ∨ kept.fragment.params.isEmpty then some kept.fragment else none
  | none => none

end Slot

/-- The slots after rendering, how many were rendered, and the whole text. -/
structure Refreshed where
  slots : List Slot
  renders : Nat
  result : Result Fragment

/-- Renders from left to right what cannot be used, up to the first failure. -/
def refresh (render : Segment → Nat → Result Fragment) (start : Nat) : List Slot → Refreshed
  | [] => ⟨[], 0, .ok .empty⟩
  | slot :: rest =>
    match slot.usable? start with
    | some fragment =>
      let after := refresh render (fragment.next start) rest
      ⟨slot :: after.slots, after.renders, after.result.map (fragment ++ ·)⟩
    | none =>
      match render slot.segment start with
      | .error error => ⟨slot :: rest, 0, .error error⟩
      | .ok fragment =>
        let after := refresh render (fragment.next start) rest
        ⟨⟨slot.segment, some ⟨start, fragment⟩⟩ :: after.slots, after.renders + 1,
          after.result.map (fragment ++ ·)⟩

structure Memo where
  plan : Plan
  query : Nat
  lateral : Bool
  /-- The filter, order and page of the statement's root. -/
  rootQuery : Query
  /-- The distinct values of the parent statement that are bound. -/
  batch : List Value
  slots : List Slot
  built : Option Statement
  /-- How many segments have been rendered so far. -/
  renders : Nat
  deriving Repr

namespace Memo

def ofPlan (plan : Plan) (query : Nat) : Result Memo := do
  let shape ← Shape.ofPlan plan query
  return {
    plan := plan
    query := query
    lateral := shape.isLateral
    rootQuery := shape.root.request.query
    batch := []
    slots := (Segment.orderFor shape.isLateral shape.root.isRoot).map (⟨·, none⟩)
    built := none
    renders := 0 }

/-- Forgets what was rendered of some segments, and with it the statement. -/
def invalidate (m : Memo) (stale : List Segment) : Memo :=
  { m with
    slots := m.slots.map fun s => if stale.contains s.segment then ⟨s.segment, none⟩ else s
    built := none }

/-- An equal batch leaves everything as it is. -/
def setBatch (m : Memo) (batch : List Value) : Memo :=
  if batch == m.batch then m else { m with batch := batch }.invalidate [.linkedKey]

/-- Replaces filter, order and page, if they fit the root; a lateral statement stays paged. -/
def setQuery (m : Memo) (query : Query) : Result Memo := do
  let root ← m.plan.queryRoot m.query
  query.check root.format root.plural root.path
  if m.lateral && !query.isPaginated then refuse (.mustStayPaginated root.path)
  return if query == m.rootQuery then m
    else { m with rootQuery := query }.invalidate [.filter, .orderBy, .pagination, .linkedKey]

def setFilter (m : Memo) (filter : Option Filter) : Result Memo :=
  m.setQuery { m.rootQuery with filter := filter }

/-- The current statement, and the memo with what was rendered for it. -/
def statement (m : Memo) : Result Statement × Memo :=
  match m.built with
  | some statement => (.ok statement, m)
  | none =>
    match Shape.ofPlan m.plan m.query with
    | .error error => (.error error, m)
    | .ok shape =>
      let fresh := refresh (Segment.render shape m.rootQuery m.batch) 1 m.slots
      let m := { m with slots := fresh.slots, renders := m.renders + fresh.renders }
      match fresh.result with
      | .error error => (.error error, m)
      | .ok fragment =>
        let statement := Statement.ofFragment fragment
        (.ok statement, { m with built := some statement })

end Memo
end NestedQuery.Sql
