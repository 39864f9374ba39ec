/- The tree of a request: the fields of a record, its related records, and what to select of them. -/
import NestedQuery.Request.Query

namespace NestedQuery

structure Request where
  /-- All fields of the format if none are named. -/
  fields : Option (List String)
  /-- By relation name, in the order of the request, each name once. -/
  relations : List (String × Request)
  query : Query
  deriving Repr, Inhabited

namespace Request

def empty : Request := ⟨none, [], .empty⟩

/-- Replaces the request for a relation at its place, or adds it at the end. -/
def insertRelation (name : String) (request : Request) :
    List (String × Request) → List (String × Request)
  | [] => [(name, request)]
  | (n, r) :: rest =>
    if n = name then (name, request) :: rest else (n, r) :: insertRelation name request rest

mutual

def equal : Request → Request → Bool
  | ⟨f, rs, q⟩, ⟨g, ss, p⟩ => f == g && equalRelations rs ss && q == p

def equalRelations : List (String × Request) → List (String × Request) → Bool
  | [], [] => true
  | (m, r) :: rs, (n, s) :: ss => m == n && equal r s && equalRelations rs ss
  | _, _ => false

end

instance : BEq Request := ⟨equal⟩

mutual

/-- What is absent or empty is left out, but not an empty list of fields. -/
def toDocument : Request → Document
  | ⟨fields, relations, query⟩ => .ofMembers <|
    (fields.map fun fs => ("fields", Document.list (fs.map Document.ofText))).toList
      ++ (if relations.isEmpty then []
        else [("relations", Document.object (relationDocuments relations))])
      ++ query.members

def relationDocuments : List (String × Request) → List (Option String × Document)
  | [] => []
  | (name, r) :: rest => (some name, toDocument r) :: relationDocuments rest

end

def fieldsOf? (room : Nat) : Document → Option (List String)
  | .list items => if room = 0 then none else items.mapM Filter.textOf?
  | _ => none

/-- The requests by relation, which need room for an object. Of several requests for one relation the
last one counts, at the place of the first. -/
def relationsOf? (room : Nat) (read : Document → Option Request) :
    Option Document → Option (List (String × Request))
  | none => some []
  | some (.object members) =>
    if room = 0 then none
    else members.foldlM (fun done m => do
      let name ← m.1
      let request ← read m.2
      return insertRelation name request done) []
  | some _ => none

/-- Reads a request with room for `room` more lists and objects, and its relations as given. -/
def ofRecord? (room : Nat) (read : Document → Option Request) (d : Document) : Option Request := do
  let parts ← d.record? ["fields", "relations", "filter", "sort", "page", "pageSize"] true
  match parts with
  | [fields, relations, filter, sort, page, pageSize] =>
    let fields ← Query.optional? (fieldsOf? room) fields
    let relations ← relationsOf? room read relations
    let query ← Query.ofParts? room filter sort page pageSize
    return ⟨fields, relations, query⟩
  | _ => none

/-- Reads a request in which up to `room` lists and objects may be open at once. -/
def ofDocument? : Nat → Document → Option Request
  | 0, _ => none
  | 1, d => ofRecord? 0 (fun _ => none) d
  | inner + 2, d => ofRecord? (inner + 1) (ofDocument? inner) d

def render (r : Request) : String := r.toDocument.render

def parse (s : String) : Result Request :=
  match (Document.parse? s).bind (ofDocument? Document.depthLimit) with
  | some r => .ok r
  | none => .error .document

end Request
end NestedQuery
