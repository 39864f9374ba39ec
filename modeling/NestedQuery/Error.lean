/- What can go wrong, by cause, and how it is told. -/

namespace NestedQuery

/-- Why a text is no identifier or column type. -/
inductive NameFault where
  | empty
  | identifier (text : String)
  | columnType (text : String)
  deriving DecidableEq, Repr

def NameFault.message : NameFault → String
  | .empty => "invalid identifier: empty"
  | .identifier text => s!"invalid identifier `{text}`"
  | .columnType text => s!"invalid column type `{text}`"

/-- Why a declaration or a request is refused. -/
inductive ConfigurationFault where
  | formatName (format part : String) (fault : NameFault)
  | noFields (format : String)
  | fieldType (format field : String) (fault : NameFault)
  | repeatedField (format field : String)
  | repeatedFormat (format : String)
  | fieldReference (text : String)
  | unnamedRelation (left right : String)
  | unknownFormat (format : String)
  | unknownField (format field : String)
  | junctionName (fault : NameFault)
  | junctionColumns (table column : String)
  | relationName (owner : String) (fault : NameFault)
  | relationIsField (owner relation : String)
  | repeatedRelation (owner relation : String)
  | sameNameOnBothSides (owner relation : String)
  | unknownRelation (format relation : String)
  | singleRecord (path : String)
  | pageWithoutSize (path : String)
  | pageZero (path : String)
  | pageSizeZero (path : String)
  | pageOutOfRange (path : String) (page size : Nat)
  | unknownSortField (path field : String)
  | unknownFilterField (path field : String)
  | unknownRequestedField (path format field : String)
  | mustStayPaginated (path : String)
  /-- A fault that was found at one place of a request. -/
  | within (path : String) (fault : ConfigurationFault)
  | reported (text : String)
  deriving DecidableEq, Repr

def ConfigurationFault.message : ConfigurationFault → String
  | .formatName format part fault => s!"format `{format}`: {part}: " ++ fault.message
  | .noFields format => s!"format `{format}` declares no fields"
  | .fieldType format field fault => s!"format `{format}`: field `{field}`: " ++ fault.message
  | .repeatedField format field => s!"format `{format}` declares field `{field}` twice"
  | .repeatedFormat format => s!"format `{format}` is already registered"
  | .fieldReference text => s!"invalid field reference `{text}`, expected `format.field`"
  | .unnamedRelation left right => s!"relation {left} -> {right} has no name on either side"
  | .unknownFormat format => s!"unknown format `{format}`"
  | .unknownField format field => s!"unknown field `{field}` on format `{format}`"
  | .junctionName fault => "junction: " ++ fault.message
  | .junctionColumns table column => s!"junction `{table}` uses `{column}` for both endpoints"
  | .relationName owner fault => s!"relation on `{owner}`: " ++ fault.message
  | .relationIsField owner relation => s!"relation `{relation}` clashes with a field of `{owner}`"
  | .repeatedRelation owner relation => s!"relation `{relation}` is already declared on `{owner}`"
  | .sameNameOnBothSides owner relation =>
    s!"relation `{relation}` on `{owner}` is named the same on both sides"
  | .unknownRelation format relation => s!"unknown relation `{relation}` on format `{format}`"
  | .singleRecord path => s!"`{path}` is a single record: only `filter` is allowed"
  | .pageWithoutSize path => s!"`{path}`: `page` requires `pageSize`"
  | .pageZero path => s!"`{path}`: pages start at 1"
  | .pageSizeZero path => s!"`{path}`: `pageSize` must be positive"
  | .pageOutOfRange path page size => s!"`{path}`: page {page} of size {size} is out of range"
  | .unknownSortField path field => s!"`{path}`: cannot sort by unknown field `{field}`"
  | .unknownFilterField path field => s!"`{path}`: cannot filter on unknown field `{field}`"
  | .unknownRequestedField path format field =>
    s!"`{path}`: unknown field `{field}` on format `{format}`"
  | .mustStayPaginated path => s!"`{path}` is planned per parent row and must stay paginated"
  | .within path fault => s!"`{path}`: " ++ fault.message
  | .reported text => text

/-- What does not happen to plans made over a checked schema. -/
inductive InternalFault where
  | wildcardLabel
  | emptyColumn
  | fieldNotSelected (field : String)
  | rootWithoutLink
  | rootStatementWithoutLink
  | noDataNode (id : Nat)
  | noQueryNode (id : Nat)
  | relationNotPlanned (relation : String)
  | absorbedWithoutParent (path : String)
  | emptyBatch (path : String)
  | statementCount (statements queries : Nat)
  | statementWithoutLink (query : Nat)
  | rowSetCount (rowSets statements : Nat)
  | nodeWithoutLink (path : String)
  | noStatements
  | uncheckedFormat (format : String)
  | uncheckedRelation (format relation : String)
  | undecodableColumn (name : String) (type : String)
  | unsupportedColumn (name : String) (type : String)
  | decimalColumn (name : String)
  | reported (text : String)
  deriving DecidableEq, Repr

def InternalFault.message : InternalFault → String
  | .wildcardLabel => "cannot alias a wildcard selector"
  | .emptyColumn => "empty column in selector"
  | .fieldNotSelected field => s!"field `{field}` is not selected"
  | .rootWithoutLink => "the root node has no link"
  | .rootStatementWithoutLink => "the root statement has no link"
  | .noDataNode id => s!"no data node {id}"
  | .noQueryNode id => s!"no query node {id}"
  | .relationNotPlanned relation => s!"request relation `{relation}` is not in the plan"
  | .absorbedWithoutParent path => s!"absorbed node `{path}` has no parent"
  | .emptyBatch path => s!"statement for `{path}` has no parent values to bind"
  | .statementCount statements queries =>
    s!"{statements} statements prepared for {queries} query nodes"
  | .statementWithoutLink query =>
    s!"statement {query} has a parent statement but its root has no link"
  | .rowSetCount rowSets statements => s!"{rowSets} row sets for {statements} statements"
  | .nodeWithoutLink path => s!"`{path}` has no link"
  | .noStatements => "plan has no statements"
  | .uncheckedFormat format => s!"raw catalogue has no format {format}"
  | .uncheckedRelation format relation => s!"raw catalogue has no relation {format}.{relation}"
  | .undecodableColumn name type => s!"column {name}: invalid {type} value"
  | .unsupportedColumn name type => s!"column {name}: Unsupported PostgreSQL type: {type}"
  | .decimalColumn name => s!"column {name}: cannot decode NUMERIC without a decimal type; "
      ++ "cast the column to FLOAT8 or TEXT"
  | .reported text => text

inductive QueryError where
  | configuration (fault : ConfigurationFault)
  | statement (query : Nat) (sql message : String)
  | database (text : String)
  | document
  | internal (fault : InternalFault)
  deriving DecidableEq, Repr

namespace QueryError

def message : QueryError → String
  | .configuration fault => "Configuration error: " ++ fault.message
  | .statement query sql text =>
    s!"Query execution error in statement {query}: {text}\n  sql: {sql}"
  | .database text => "Database error: " ++ text
  | .document => "Serialization error: not a document of the expected form"
  | .internal fault => "Internal error: " ++ fault.message

def isConfiguration : QueryError → Bool
  | .configuration _ => true
  | _ => false

end QueryError

abbrev Result (α : Type u) := Except QueryError α

/-- Refuses for a reason of configuration. -/
def refuse (fault : ConfigurationFault) : Result α := .error (.configuration fault)

def fail (fault : InternalFault) : Result α := .error (.internal fault)

end NestedQuery
