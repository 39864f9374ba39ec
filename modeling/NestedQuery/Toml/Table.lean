/- The tables of a TOML document and the rules by which they are written in pieces. -/
import NestedQuery.Config.Setting
import NestedQuery.Toml.Moment

namespace NestedQuery.Toml

/-- How a table came about. -/
inductive Origin where
  /-- It is on the way to a table with a heading. -/
  | passed
  /-- It is on the way to a value with a dotted key. -/
  | dotted
  /-- It has a heading of its own. -/
  | stated
  /-- It stands between braces, where all of it is. -/
  | braces
  deriving DecidableEq, Repr

/-- Entries stand in the order in which they came about. -/
inductive Node where
  | value (setting : Setting)
  | moment (m : Moment)
  | list (items : List Node)
  | table (origin : Origin) (entries : List (String × Node))
  /-- A list of tables, the last one first. -/
  | tables (items : List (List (String × Node)))
  deriving Repr, Inhabited

abbrev Entries := List (String × Node)

namespace Entries

/-- Sets the value of a name, which keeps its place if it has one and else comes last. -/
def put (name : String) (node : Node) : Entries → Entries
  | [] => [(name, node)]
  | (n, old) :: rest => if n = name then (n, node) :: rest else (n, old) :: put name node rest

def without (name : String) (entries : Entries) : Entries := entries.filter (·.1 != name)

end Entries

namespace Node

/-- A table whose first name is this one stands for the date or time in its text. -/
def momentName : String := "$__toml_private_datetime"

def momentText? : Node → Option String
  | .value (.text s) => (Moment.ofText? s).map Moment.text
  | _ => none

mutual

/-- The setting that a value stands for. A date or time becomes its text. -/
def toSetting? : Node → Option Setting
  | .value s => some s
  | .moment m => some (.text m.text)
  | .list items => (itemsToSettings? items).map .list
  | .table _ entries => tableToSetting? entries
  | .tables items => (tablesToSettings? items).map fun settings => .list settings.reverse

def itemsToSettings? : List Node → Option (List Setting)
  | [] => some []
  | item :: rest => do return (← toSetting? item) :: (← itemsToSettings? rest)

def tableToSetting? : List (String × Node) → Option Setting
  | [] => some (.table [])
  | (name, node) :: rest =>
    if name = momentName then (momentText? node).map .text
    else do
      let first ← toSetting? node
      let others ← entriesToSettings? rest
      return .table (Fields.ofList ((name, first) :: others))

def entriesToSettings? : List (String × Node) → Option (List (String × Setting))
  | [] => some []
  | (name, node) :: rest => do return (name, ← toSetting? node) :: (← entriesToSettings? rest)

def tablesToSettings? : List (List (String × Node)) → Option (List Setting)
  | [] => some []
  | entries :: rest => do return (← tableToSetting? entries) :: (← tablesToSettings? rest)

end

end Node

/-- Changes the table at the end of a path. Tables on the way that do not exist come about; of a list
of tables the last one is meant. A dotted key does not lead through a table with a heading, and nothing
leads into braces. -/
def changeAt (dotted : Bool) (change : Origin → Entries → Option (Origin × Entries)) :
    List String → Origin → Entries → Option (Origin × Entries)
  | [], origin, entries => change origin entries
  | name :: path, origin, entries =>
    let fresh := Node.table (if dotted then .dotted else .passed) []
    match (Fields.find? name entries).getD fresh with
    | .value _ | .moment _ | .list _ | .tables [] => none
    | .tables (last :: earlier) =>
      (changeAt dotted change path .stated last).map fun changed =>
        (origin, Entries.put name (.tables (changed.2 :: earlier)) entries)
    | .table inner below =>
      if inner = .braces ∨ dotted ∧ inner = .stated then none
      else (changeAt dotted change path inner below).map fun changed =>
        (origin, Entries.put name (.table changed.1 changed.2) entries)

/-- Adds a value under a key that is a path and a last name. Only tables that dotted keys have made can
be extended by dotted keys. -/
def addValue (path : List String) (name : String) (value : Node) (origin : Origin)
    (entries : Entries) : Option (Origin × Entries) :=
  let add (origin : Origin) (entries : Entries) : Option (Origin × Entries) :=
    if (origin == .dotted) == path.isEmpty || (Fields.find? name entries).isSome then none
    else some (origin, Entries.put name value entries)
  changeAt true add path origin entries

/-- Begins a table with a heading. A table has at most one, and none if dotted keys have made it. With
its heading it comes last. -/
def openTable (name : String) (origin : Origin) (entries : Entries) : Option (Origin × Entries) :=
  match Fields.find? name entries with
  | none => some (origin, Entries.put name (.table .stated []) entries)
  | some (.table .passed below) =>
    some (origin, Entries.put name (.table .stated below) (Entries.without name entries))
  | some _ => none

/-- Begins the next table of a list of tables. -/
def openItem (name : String) (origin : Origin) (entries : Entries) : Option (Origin × Entries) :=
  match Fields.find? name entries with
  | none => some (origin, Entries.put name (.tables [[]]) entries)
  | some (.tables items) => some (origin, Entries.put name (.tables ([] :: items)) entries)
  | some _ => none

end NestedQuery.Toml
