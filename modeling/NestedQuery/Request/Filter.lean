/- Predicates over the fields of one record. -/
import NestedQuery.Catalog.Format
import NestedQuery.Value.Equality
import NestedQuery.Value.Text

namespace NestedQuery

inductive Comparison where
  | eq
  | ne
  | lt
  | lte
  | gt
  | gte
  deriving DecidableEq, Repr

inductive Filter where
  | compare (comparison : Comparison) (field : String) (value : Value)
  | isIn (field : String) (values : List Value)
  | isNull (field : String)
  | isNotNull (field : String)
  | like (field : String) (pattern : String)
  | all (filters : List Filter)
  | any (filters : List Filter)
  | not (filter : Filter)
  deriving Repr, Inhabited

namespace Filter

/-- Adds one more condition to those that all must hold. -/
def and (f g : Filter) : Filter :=
  match f with
  | .all filters => .all (filters ++ [g])
  | f => .all [f, g]

mutual

/-- The fields that a filter mentions, in their order, with repetitions. -/
def fields : Filter → List String
  | .compare _ field _ => [field]
  | .isIn field _ => [field]
  | .isNull field => [field]
  | .isNotNull field => [field]
  | .like field _ => [field]
  | .all filters => fieldsOfAll filters
  | .any filters => fieldsOfAll filters
  | .not filter => fields filter

def fieldsOfAll : List Filter → List String
  | [] => []
  | f :: rest => fields f ++ fieldsOfAll rest

end

mutual

/-- Equality up to the equality of the compared values. -/
def equal : Filter → Filter → Bool
  | .compare c f v, .compare d g w => c == d && f == g && v == w
  | .isIn f vs, .isIn g ws => f == g && vs == ws
  | .isNull f, .isNull g => f == g
  | .isNotNull f, .isNotNull g => f == g
  | .like f p, .like g q => f == g && p == q
  | .all fs, .all gs => equalAll fs gs
  | .any fs, .any gs => equalAll fs gs
  | .not f, .not g => equal f g
  | _, _ => false

def equalAll : List Filter → List Filter → Bool
  | [], [] => true
  | f :: fs, g :: gs => equal f g && equalAll fs gs
  | _, _ => false

end

instance : BEq Filter := ⟨equal⟩

/-- All fields that a filter mentions are fields of the format. -/
def check (f : Filter) (format : Format) (path : String) : Result Unit :=
  match f.fields.find? (fun field => !format.hasField field) with
  | some field => refuse (.unknownFilterField path field)
  | none => .ok ()

end Filter

namespace Comparison

def keyword : Comparison → String
  | .eq => "eq"
  | .ne => "ne"
  | .lt => "lt"
  | .lte => "lte"
  | .gt => "gt"
  | .gte => "gte"

def ofKeyword? : String → Option Comparison
  | "eq" => some .eq
  | "ne" => some .ne
  | "lt" => some .lt
  | "lte" => some .lte
  | "gt" => some .gt
  | "gte" => some .gte
  | _ => none

theorem ofKeyword?_keyword (c : Comparison) : ofKeyword? c.keyword = some c := by
  cases c <;> rfl

end Comparison

namespace Filter

mutual

/-- An object whose one member is named for the kind of the filter. -/
def toDocument : Filter → Document
  | .compare c field value =>
    .ofMembers [(c.keyword, .ofMembers [("field", .ofText field), ("value", value.toDocument)])]
  | .isIn field values =>
    .ofMembers [("in",
      .ofMembers [("field", .ofText field), ("values", .list (values.map Value.toDocument))])]
  | .isNull field => .ofMembers [("isNull", .ofMembers [("field", .ofText field)])]
  | .isNotNull field => .ofMembers [("isNotNull", .ofMembers [("field", .ofText field)])]
  | .like field pattern =>
    .ofMembers [("like", .ofMembers [("field", .ofText field), ("pattern", .ofText pattern)])]
  | .all filters => .ofMembers [("and", .list (toDocuments filters))]
  | .any filters => .ofMembers [("or", .list (toDocuments filters))]
  | .not filter => .ofMembers [("not", toDocument filter)]

def toDocuments : List Filter → List Document
  | [] => []
  | f :: rest => toDocument f :: toDocuments rest

end

def textOf? : Document → Option String
  | .text s => s
  | _ => none

/-- The body of a comparison: a field and what it is compared with. -/
def body? (name : String) (d : Document) : Option (String × Document) :=
  match d.record? ["field", name] false with
  | some [some field, some operand] => (textOf? field).map (·, operand)
  | _ => none

def bodyField? (d : Document) : Option String :=
  match d.record? ["field"] false with
  | some [some field] => textOf? field
  | _ => none

/-- A comparison whose body is one list or object, already opened. -/
def leafOf? (room : Nat) (kind : String) (body : Document) : Option Filter :=
  match kind with
  | "in" =>
    match body? "values" body, room with
    | some (field, .list values), inner + 1 =>
      (values.mapM (Value.ofDocument? inner)).map (.isIn field)
    | _, _ => none
  | "isNull" => (bodyField? body).map .isNull
  | "isNotNull" => (bodyField? body).map .isNotNull
  | "like" => (body? "pattern" body).bind fun b => (textOf? b.2).map (.like b.1)
  | kind => do
    let comparison ← Comparison.ofKeyword? kind
    let (field, operand) ← body? "value" body
    let value ← Value.ofDocument? room operand
    return .compare comparison field value

/-- Reads a filter in which up to `room` lists and objects may be open at once. -/
def ofDocument? : Nat → Document → Option Filter
  | room + 1, .object [(some kind, body)] =>
    match kind, body, room with
    | "and", .list filters, inner + 1 => (filters.mapM (ofDocument? inner)).map .all
    | "or", .list filters, inner + 1 => (filters.mapM (ofDocument? inner)).map .any
    | "not", filter, room => (ofDocument? room filter).map .not
    | kind, body, inner + 1 => leafOf? inner kind body
    | _, _, _ => none
  | _, _ => none

def render (f : Filter) : String := f.toDocument.render

def parse (s : String) : Result Filter :=
  match (Document.parse? s).bind (ofDocument? Document.depthLimit) with
  | some f => .ok f
  | none => .error .document

end Filter
end NestedQuery
