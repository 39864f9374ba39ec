/- Documents as values: members in increasing order of their names, each name once. -/
import NestedQuery.Fields
import NestedQuery.Json.Reader

namespace NestedQuery

inductive Json where
  | null
  | bool (value : Bool)
  | number (value : Json.Number)
  | text (value : String)
  | list (items : List Json)
  | object (members : List (String × Json))
  deriving Repr, Inhabited

namespace Json

mutual

/-- Equality of documents; both zeros are equal. -/
def equal : Json → Json → Bool
  | .null, .null => true
  | .bool a, .bool b => a == b
  | .number a, .number b => a.equal b
  | .text a, .text b => a == b
  | .list a, .list b => equalItems a b
  | .object a, .object b => equalMembers a b
  | _, _ => false

def equalItems : List Json → List Json → Bool
  | [], [] => true
  | a :: as, b :: bs => equal a b && equalItems as bs
  | _, _ => false

def equalMembers : List (String × Json) → List (String × Json) → Bool
  | [], [] => true
  | (m, a) :: as, (n, b) :: bs => m == n && equal a b && equalMembers as bs
  | _, _ => false

end

mutual

def toDocument : Json → Document
  | .null => .null
  | .bool b => .bool b
  | .number n => .number (some n)
  | .text s => .text (some s)
  | .list items => .list (itemsToDocuments items)
  | .object members => .object (membersToDocuments members)

def itemsToDocuments : List Json → List Document
  | [] => []
  | item :: rest => toDocument item :: itemsToDocuments rest

def membersToDocuments : List (String × Json) → List (Option String × Document)
  | [] => []
  | (name, value) :: rest => (some name, toDocument value) :: membersToDocuments rest

end

mutual

/-- Reads a document in which up to `room` lists and objects may be open at once. Of several members
of one name the last one is kept. -/
def ofDocument? (room : Nat) : Document → Option Json
  | .null => some .null
  | .bool b => some (.bool b)
  | .number n => n.map .number
  | .text s => s.map .text
  | .list items => if room = 0 then none else (ofItems? (room - 1) items).map .list
  | .object members =>
    if room = 0 then none
    else (ofMembers? (room - 1) members).map fun entries => .object (Fields.ofList entries)

def ofItems? (room : Nat) : List Document → Option (List Json)
  | [] => some []
  | d :: rest => (ofDocument? room d).bind fun v => (ofItems? room rest).map (v :: ·)

def ofMembers? (room : Nat) : List (Option String × Document) → Option (List (String × Json))
  | [] => some []
  | (name, d) :: rest =>
    name.bind fun n => (ofDocument? room d).bind fun v => (ofMembers? room rest).map ((n, v) :: ·)

end

def render (j : Json) : String := j.toDocument.render

def parse? (s : String) : Option Json :=
  (Document.parse? s).bind (ofDocument? Document.depthLimit)

/-- A real number is written by its value if finite, and is null otherwise. -/
def ofReal (x : Binary64) : Json :=
  if x.isFinite then .number (.real x) else .null

end Json
end NestedQuery
