/- The filter, order and page of one node of a request. -/
import NestedQuery.Request.Filter

namespace NestedQuery

inductive Direction where
  | asc
  | desc
  deriving DecidableEq, Repr, Inhabited

structure SortKey where
  field : String
  direction : Direction
  deriving DecidableEq, Repr

structure Query where
  filter : Option Filter
  sort : List SortKey
  /-- Counted from 1; without it, the first page is meant. -/
  page : Option UInt64
  pageSize : Option UInt64
  deriving Repr, Inhabited

namespace Direction

def keyword : Direction → String
  | .asc => "asc"
  | .desc => "desc"

def ofKeyword? : String → Option Direction
  | "asc" => some .asc
  | "desc" => some .desc
  | _ => none

def toDocument (d : Direction) : Document := .ofText d.keyword

/-- A direction is named by a text, or by the one member of an object, which is null. -/
def ofDocument? (room : Nat) : Document → Option Direction
  | .text (some s) => ofKeyword? s
  | .object [(some s, .null)] => if room = 0 then none else ofKeyword? s
  | _ => none

end Direction

namespace SortKey

def toDocument (s : SortKey) : Document :=
  .ofMembers [("field", .ofText s.field), ("direction", s.direction.toDocument)]

/-- Without a direction the order is ascending. -/
def ofDocument? (room : Nat) (d : Document) : Option SortKey :=
  match room, d.record? ["field", "direction"] true with
  | room + 1, some [some field, direction] => do
    let field ← Filter.textOf? field
    match direction with
    | some d => (Direction.ofDocument? room d).map (⟨field, ·⟩)
    | none => some ⟨field, .asc⟩
  | _, _ => none

end SortKey

namespace Query

def empty : Query := ⟨none, [], none, none⟩

def equal (a b : Query) : Bool :=
  a.filter == b.filter && a.sort == b.sort && a.page == b.page && a.pageSize == b.pageSize

instance : BEq Query := ⟨equal⟩

def isPaginated (q : Query) : Bool := q.pageSize.isSome

/-- How many rows a page has, and how many come before it, up to the greatest 64-bit number. -/
def window (q : Query) : Option (UInt64 × UInt64) :=
  q.pageSize.map fun size =>
    let page := max (q.page.getD 1) 1
    (size, UInt64.ofNat (min ((page.toNat - 1) * size.toNat) (2 ^ 64 - 1)))

/-- Pages and their sizes start at 1, a page needs a size, and rows are counted below `2 ^ 63`. -/
def checkPage (q : Query) (path : String) : Result Unit :=
  match q.page, q.pageSize with
  | some _, none => refuse (.pageWithoutSize path)
  | some 0, _ => refuse (.pageZero path)
  | _, some 0 => refuse (.pageSizeZero path)
  | page, some size =>
    let page := page.getD 1
    if size.toNat < 2 ^ 63 ∧ (page.toNat - 1) * size.toNat < 2 ^ 63 then .ok ()
    else refuse (.pageOutOfRange path page.toNat size.toNat)
  | none, none => .ok ()

/-- A single record is neither sorted nor paged, and fields that are mentioned exist. -/
def check (q : Query) (format : Format) (plural : Bool) (path : String) : Result Unit := do
  if !plural && (!q.sort.isEmpty || q.page.isSome || q.pageSize.isSome) then
    refuse (.singleRecord path)
  q.checkPage path
  match q.sort.find? (fun s => !format.hasField s.field) with
  | some s => refuse (.unknownSortField path s.field)
  | none => .ok ()
  match q.filter with
  | some filter => filter.check format path
  | none => .ok ()

/-- What is absent or empty is left out. -/
def members (q : Query) : List (String × Document) :=
  (q.filter.map fun f => ("filter", f.toDocument)).toList
    ++ (if q.sort.isEmpty then [] else [("sort", Document.list (q.sort.map SortKey.toDocument))])
    ++ (q.page.map fun n => ("page", Document.ofWord n)).toList
    ++ (q.pageSize.map fun n => ("pageSize", Document.ofWord n)).toList

def toDocument (q : Query) : Document := .ofMembers q.members

/-- A part that may also be null. -/
def optional? (read : Document → Option α) : Option Document → Option (Option α)
  | none => some none
  | some .null => some none
  | some d => (read d).map some

def sortOf? (room : Nat) : Option Document → Option (List SortKey)
  | none => some []
  | some (.list items) =>
    match room with
    | 0 => none
    | inner + 1 => items.mapM (SortKey.ofDocument? inner)
  | some _ => none

/-- The four parts of a query, each present or not. -/
def ofParts? (room : Nat) (filter sort page pageSize : Option Document) : Option Query := do
  let filter ← optional? (Filter.ofDocument? room) filter
  let sort ← sortOf? room sort
  let page ← optional? Document.word? page
  let pageSize ← optional? Document.word? pageSize
  return ⟨filter, sort, page, pageSize⟩

def ofDocument? (room : Nat) (d : Document) : Option Query :=
  match room, d.record? ["filter", "sort", "page", "pageSize"] true with
  | room + 1, some [filter, sort, page, pageSize] => ofParts? room filter sort page pageSize
  | _, _ => none

def render (q : Query) : String := q.toDocument.render

def parse (s : String) : Result Query :=
  match (Document.parse? s).bind (ofDocument? Document.depthLimit) with
  | some q => .ok q
  | none => .error .document

end Query
end NestedQuery
