/- The nodes of a request in pre-order: a node's id is its place, and parents come before children. -/
import NestedQuery.Plan.Node

namespace NestedQuery

/-- A link is given for every node but the root. -/
structure Position where
  id : Nat
  format : Format
  plural : Bool
  parent : Option Nat
  link : Option Link
  path : String
  deriving Repr

namespace Position

/-- The fields named by the request, which must exist, or all fields. -/
def returned (p : Position) : Option (List String) → Result (List String)
  | some names =>
    match names.find? (fun name => !p.format.hasField name) with
    | some name => refuse (.unknownRequestedField p.path p.format.name name)
    | none => .ok names
  | none => .ok (p.format.fields.map (·.name))

/-- Selects what is returned and what parents and children are matched by; a junction's columns
stand for the node's own field. -/
def selection (p : Position) (returned : List String) (children : List Link) : Selection :=
  let matched := children.map (·.parentField)
    ++ (p.link.filter (!·.isManyToMany)).toList.map (·.field)
  let wanted := returned ++ matched
  ⟨p.id, p.format.fields.filter fun f => wanted.contains f.name, returned⟩

/-- Tells at which relation of a request a look-up is refused. -/
def resolve (catalog : Catalog) (p : Position) (relation : String) : Result ResolvedRelation :=
  (catalog.relation p.format.name relation).mapError fun error =>
    match error with
    | .configuration fault => .configuration (.within s!"{p.path}.{relation}" fault)
    | other => other

end Position

/-- A child's name, id and link. -/
structure Child where
  name : String
  id : Nat
  link : Link
  deriving Repr

mutual

/-- The nodes of a request at a position, in pre-order. The request's own query is checked first,
then its relations in their order, then its fields. -/
def arena (catalog : Catalog) (p : Position) : Request → Result (List DataNode)
  | ⟨fields, relations, query⟩ => do
    query.check p.format p.plural p.path
    let (children, below) ← arenaOfRelations catalog p (p.id + 1) relations
    let returned ← p.returned fields
    let node : DataNode := {
      id := p.id
      format := p.format
      plural := p.plural
      parent := p.parent
      children := children.map fun c => (c.name, c.id)
      link := p.link
      request := ⟨fields, relations, query⟩
      selection := p.selection returned (children.map (·.link))
      path := p.path }
    return node :: below

/-- The children at a position and all nodes below it, with ids from `next` on. -/
def arenaOfRelations (catalog : Catalog) (p : Position) (next : Nat) :
    List (String × Request) → Result (List Child × List DataNode)
  | [] => .ok ([], [])
  | (name, request) :: rest => do
    let resolved ← p.resolve catalog name
    let link := Link.ofRelation resolved
    let position : Position :=
      ⟨next, resolved.foreignFormat, resolved.plural, some p.id, some link, s!"{p.path}.{name}"⟩
    let first ← arena catalog position request
    let (children, others) ← arenaOfRelations catalog p (next + first.length) rest
    return (⟨name, next, link⟩ :: children, first ++ others)

end

/-- The nodes of a request for records of the format with this name. -/
def rootArena (catalog : Catalog) (format : String) (plural : Bool) (request : Request) :
    Result (List DataNode) := do
  let root ← catalog.format format
  arena catalog ⟨0, root, plural, none, none, format⟩ request

end NestedQuery
