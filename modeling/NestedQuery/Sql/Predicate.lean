/- Filters and orders as statement text over the columns of one source. -/
import NestedQuery.Request.Query
import NestedQuery.Sql.Fragment

namespace NestedQuery.Sql

def Comparison.sign : Comparison → String
  | .eq => "="
  | .ne => "<>"
  | .lt => "<"
  | .lte => "<="
  | .gt => ">"
  | .gte => ">="

def Direction.word : Direction → String
  | .asc => "ASC"
  | .desc => "DESC"

/-- The column of a field under a label of its format's table. -/
def fieldColumn (format : Format) (label field : String) : Result Column := do
  let column ← format.requireColumn field
  return ⟨label, column⟩

def nullTest (column : Column) (isNull : Bool) : Fragment :=
  .ofPieces (column.pieces ++ [.words (if isNull then " IS NULL" else " IS NOT NULL")])

/-- The parameters from `start` on, each cast to the same type. -/
def parameters (start count : Nat) (type : Option String) : List Pieces :=
  (List.range count).map fun i => parameter (start + i) type

mutual

/-- The text of a filter with its placeholders counted from `start`. Equality with null is a test
for null, no condition is true, and no alternative is false. -/
def predicate (format : Format) (label : String) (start : Nat) : Filter → Result Fragment
  | .compare comparison field value => do
    let column ← fieldColumn format label field
    match comparison, value with
    | .eq, .null => return nullTest column true
    | .ne, .null => return nullTest column false
    | _, _ => return ⟨column.pieces ++ .words s!" {Comparison.sign comparison} "
        :: parameter start (format.type? field), [value]⟩
  | .isIn field values => do
    if values.isEmpty then return .ofPieces [.words "FALSE"]
    let column ← fieldColumn format label field
    let list := Pieces.separated ", " (parameters start values.length (format.type? field))
    return ⟨column.pieces ++ .words " IN (" :: list ++ [.words ")"], values⟩
  | .isNull field => do return nullTest (← fieldColumn format label field) true
  | .isNotNull field => do return nullTest (← fieldColumn format label field) false
  | .like field pattern => do
    let column ← fieldColumn format label field
    return ⟨column.pieces ++ .words " LIKE " :: parameter start none, [.text pattern]⟩
  | .all filters => do
    if filters.isEmpty then return .ofPieces [.words "TRUE"]
    let parts ← predicates format label start filters
    return ⟨.words "(" :: Pieces.separated " AND " (parts.map (·.pieces)) ++ [.words ")"],
      parts.flatMap (·.params)⟩
  | .any filters => do
    if filters.isEmpty then return .ofPieces [.words "FALSE"]
    let parts ← predicates format label start filters
    return ⟨.words "(" :: Pieces.separated " OR " (parts.map (·.pieces)) ++ [.words ")"],
      parts.flatMap (·.params)⟩
  | .not filter => do
    let inner ← predicate format label start filter
    return ⟨.words "NOT (" :: inner.pieces ++ [.words ")"], inner.params⟩

/-- Each filter's placeholders follow those of the filter before it. -/
def predicates (format : Format) (label : String) (start : Nat) :
    List Filter → Result (List Fragment)
  | [] => .ok []
  | filter :: rest => do
    let first ← predicate format label start filter
    let others ← predicates format label (first.next start) rest
    return first :: others

end

/-- The keys of an order, separated by commas; nothing if there are none. -/
def ordering (format : Format) (label : String) (sort : List SortKey) : Result Pieces := do
  let keys ← sort.mapM fun s => do
    let column ← fieldColumn format label s.field
    return column.pieces ++ [Piece.words s!" {Direction.word s.direction}"]
  return Pieces.separated ", " keys

end NestedQuery.Sql
