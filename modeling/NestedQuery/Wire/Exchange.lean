/- A database behind the binary protocol: what is sent to the server, and what is made of its answer. -/
import NestedQuery.Execution.Database
import NestedQuery.Fields
import NestedQuery.Wire.Cell

namespace NestedQuery.Wire

/-- What is sent for a statement. -/
inductive Message where
  /-- The text, with the numbers of the parameters' types. -/
  | parse (text : String) (types : List Nat)
  | bind (params : List (Option Bytes))
  /-- Asks for so many rows, or for all of them if 0. -/
  | execute (limit : Nat)
  deriving DecidableEq, Repr

/-- How the server answers: it refuses a statement's text, or sends rows of its columns. -/
inductive Reply where
  | refused (message : String)
  | rows (columns : List (String × ColumnType)) (rows : List (List (Option Bytes)))
  deriving Repr

/-- Of several columns with one name the last one counts. -/
def decodeRow (columns : List (String × ColumnType)) (cells : List (Option Bytes)) : Result Row :=
  (columns.zip cells).foldlM (fun row ((name, type), cell) => do
    return Fields.insert name (← decode name type cell) row) []

/-- The messages for a statement. A refused text is not followed by others. -/
def messages (s : Sql.Statement) (limit : Nat) (reply : Reply) : List Message :=
  let parse := Message.parse s.text (s.params.map typeNumber)
  match reply with
  | .refused _ => [parse]
  | .rows _ _ => [parse, .bind (s.params.map encode), .execute limit]

def refusal (message : String) : String := "error returned from database: " ++ message

def fetch (s : Sql.Statement) (reply : Reply) : List Message × Result (List Row) :=
  (messages s 0 reply, match reply with
    | .refused message => .error (.database (refusal message))
    | .rows columns rows => rows.mapM (decodeRow columns))

/-- Only the first row is read. -/
def fetchOne (s : Sql.Statement) (reply : Reply) : List Message × Result (Option Row) :=
  (messages s 1 reply, match reply with
    | .refused message => .error (.database (refusal message))
    | .rows columns rows => (rows.head?).mapM (decodeRow columns))

/-- The server as a database whose state is what it was sent, if it answers all statements alike. -/
def database (reply : Reply) : Database (List Message) where
  fetch s sent :=
    let (messages, result) := fetch s reply
    (result, sent ++ messages)
  fetchOne s sent :=
    let (messages, result) := fetchOne s reply
    (result, sent ++ messages)

/-- Asks for one row, whatever its values. -/
def checkHealth (reply : Reply) : List Message × Result Unit :=
  (messages ⟨[.words "SELECT 1"], []⟩ 1 reply, match reply with
    | .refused message => .error (.database ("Connection test failed: " ++ refusal message))
    | .rows _ [] => .error (.database "Connection test failed: no rows returned")
    | .rows _ _ => .ok ())

end NestedQuery.Wire
