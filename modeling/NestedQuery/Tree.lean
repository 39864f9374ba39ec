/- The nested result of a query. -/
import NestedQuery.Value.Text

namespace NestedQuery

/-- `absent` stands for a related record that does not exist, other than one whose fields are all
null. -/
inductive Tree where
  | scalar (value : Value)
  | object (fields : List (String × Tree))
  | list (items : List Tree)
  | absent
  deriving Repr, Inhabited

namespace Tree

def isAbsent : Tree → Bool
  | .absent => true
  | _ => false

def asObject? : Tree → Option (Fields Tree)
  | .object fields => some fields
  | _ => none

def asList? : Tree → Option (List Tree)
  | .list items => some items
  | _ => none

def get? (name : String) (t : Tree) : Option Tree :=
  t.asObject?.bind (Fields.find? name)

mutual

def toJson : Tree → Json
  | .scalar v => v.toJson
  | .object fields => .object (fieldsToJson fields)
  | .list items => .list (itemsToJson items)
  | .absent => .null

def itemsToJson : List Tree → List Json
  | [] => []
  | item :: rest => toJson item :: itemsToJson rest

def fieldsToJson : List (String × Tree) → List (String × Json)
  | [] => []
  | (name, t) :: rest => (name, toJson t) :: fieldsToJson rest

end

mutual

/-- Written straight to its document form. -/
def toDocument : Tree → Document
  | .scalar v => v.toDocument
  | .object fields => .object (fieldsToDocuments fields)
  | .list items => .list (itemsToDocuments items)
  | .absent => .null

def itemsToDocuments : List Tree → List Document
  | [] => []
  | item :: rest => toDocument item :: itemsToDocuments rest

def fieldsToDocuments : List (String × Tree) → List (Option String × Document)
  | [] => []
  | (name, t) :: rest => (some name, toDocument t) :: fieldsToDocuments rest

end

end Tree
end NestedQuery
