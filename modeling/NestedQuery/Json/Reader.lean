/- Reading the one document that a text holds, token by token. -/
import NestedQuery.Json.Document
import NestedQuery.Json.Token

namespace NestedQuery.Document

open Json (Token)

/-- An open list or object, with its finished parts in reverse. -/
inductive Frame where
  | list (done : List Document)
  | object (done : List (Option String × Document)) (name : Option String)
  deriving Repr

/-- What is expected next. -/
inductive Place where
  | value
  | member (done : List (Option String × Document))
  | colon (done : List (Option String × Document)) (name : Option String)
  | after (done : Document)
  deriving Repr

structure Builder where
  stack : List Frame
  place : Place
  deriving Repr

def Builder.value (stack : List Frame) : Token → Option Builder
  | .null => some ⟨stack, .after .null⟩
  | .bool b => some ⟨stack, .after (.bool b)⟩
  | .number n => some ⟨stack, .after (.number n)⟩
  | .text s => some ⟨stack, .after (.text s)⟩
  | .openList => some ⟨.list [] :: stack, .value⟩
  | .openObject => some ⟨stack, .member []⟩
  | .closeList =>
    match stack with
    | .list [] :: rest => some ⟨rest, .after (.list [])⟩
    | _ => none
  | _ => none

/-- Takes one more token. -/
def Builder.step (b : Builder) (t : Token) : Option Builder :=
  match b.place with
  | .value => Builder.value b.stack t
  | .member done =>
    match t with
    | .text name => some ⟨b.stack, .colon done name⟩
    | .closeObject => if done.isEmpty then some ⟨b.stack, .after (.object [])⟩ else none
    | _ => none
  | .colon done name =>
    match t with
    | .colon => some ⟨.object done name :: b.stack, .value⟩
    | _ => none
  | .after d =>
    match b.stack, t with
    | .list done :: rest, .comma => some ⟨.list (d :: done) :: rest, .value⟩
    | .list done :: rest, .closeList => some ⟨rest, .after (.list (d :: done).reverse)⟩
    | .object done name :: rest, .comma => some ⟨rest, .member ((name, d) :: done)⟩
    | .object done name :: rest, .closeObject =>
      some ⟨rest, .after (.object ((name, d) :: done).reverse)⟩
    | _, _ => none

def Builder.finish (b : Builder) : Option Document :=
  match b.stack, b.place with
  | [], .after d => some d
  | _, _ => none

def ofTokens? (ts : List Token) : Option Document :=
  (ts.foldlM Builder.step ⟨[], .value⟩).bind Builder.finish

/-- The document that a text holds; nothing if it holds none, or more than one. -/
def parse? (s : String) : Option Document :=
  (Token.ofChars? s.toList).bind ofTokens?

/-- How many lists and objects may be open at once. -/
def depthLimit : Nat := 127

/-- The parts of a record with the given fields, each present or not. A record is an object, in any
order and each field at most once, or a list in the order of the fields. A strict record has no
other members; a lenient one may have others, which are not looked at. -/
def record? (known : List String) (strict : Bool) : Document → Option (List (Option Document))
  | .object members => do
    let named ← members.mapM fun m => m.1.map (·, m.2)
    let names := (named.map (·.1)).filter known.contains
    if names.length ≠ named.length ∧ strict then none
    else if ¬ names.Nodup then none
    else some (known.map fun field => (named.find? (·.1 == field)).map (·.2))
  | .list items =>
    if known.length < items.length then none
    else some (items.map some ++ List.replicate (known.length - items.length) none)
  | _ => none

/-- The parts of a record of which none may be missing. Other members are not looked at. -/
def parts? (d : Document) (fields : List String) : Option (List Document) :=
  (d.record? fields false).bind fun parts => parts.mapM id

end NestedQuery.Document
