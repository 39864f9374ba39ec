/- Settings in layers: the defaults, then a file, then the variables of the environment. -/
import NestedQuery.Toml.Reader

namespace NestedQuery

namespace Setting

/-- What is not a table has no entries. -/
def entries : Setting → Fields Setting
  | .table entries => entries
  | _ => []

/-- What is not a list has no items. -/
def items : Setting → List Setting
  | .list items => items
  | _ => []

end Setting

/-- A step on the way to a setting. -/
inductive Step where
  | name (name : String)
  | index (index : Int)
  deriving DecidableEq, Repr

/-- Settings as they are collected, with all names in lower case. -/
abbrev Layers := Fields Setting

namespace Layers

mutual

/-- The upper setting hides the lower one, except that tables are merged entry by entry. A table
without entries hides nothing. -/
def overlay (lower : Setting) : Setting → Setting
  | .table [] => lower
  | .table (entry :: rest) => .table (addAll lower.entries (entry :: rest))
  | s => s

def addAll (settings : Layers) : List (String × Setting) → Layers
  | [] => settings
  | (name, setting) :: rest =>
    let key := Text.lowerCase name
    let lower := (Fields.find? key settings).getD (.table [])
    addAll (Fields.insert key (overlay lower setting) settings) rest

end

/-- The items after making room for the one at an index, and the place of that one. A negative index
counts from the end. -/
def makeRoom (index : Int) (items : List Setting) : List Setting × Nat :=
  if 0 ≤ index then
    (items ++ List.replicate (index.toNat + 1 - items.length) .null, index.toNat)
  else if index.natAbs ≤ items.length then (items, items.length - index.natAbs)
  else (List.replicate (index.natAbs - items.length) .null ++ items, 0)

/-- Changes the setting at the end of a path. What is not a table or a list on the way gives way to
one. A table at the end of a path is merged under a name and takes the place under an index. -/
def change (new : Setting) : List Step → Setting → Setting
  | [], _ => new
  | [.name name], old => .table (addAll old.entries [(name, new)])
  | .name name :: path, old =>
    let key := Text.lowerCase name
    let below := (Fields.find? key old.entries).getD .null
    .table (Fields.insert key (change new path below) old.entries)
  | .index index :: path, old =>
    let (items, place) := makeRoom index old.items
    .list (items.set place (change new path ((items[place]?).getD .null)))

/-- An index with blanks around it, and what follows its closing bracket. -/
def index? (cs : List Char) : Option (Int × List Char) :=
  let cs := Toml.skipBlanks cs
  let (negative, rest) := match cs with
    | '-' :: rest => (true, rest)
    | cs => (false, cs)
  let digits := rest.takeWhile Json.Numeral.isDigit
  let n : Int := Nat.ofDigitChars 10 digits 0
  let index := if negative then -n else n
  match Toml.skipBlanks (rest.dropWhile Json.Numeral.isDigit) with
  | ']' :: rest =>
    if digits ≠ [] ∧ -2 ^ 63 ≤ index ∧ index < 2 ^ 63 then some (index, rest) else none
  | _ => none

def isNameChar (c : Char) : Bool := c.isAlphanum || c == ' ' || c == '_' || c == '-'

/-- The steps after the first one: a name after a point or an index in brackets. -/
def steps? : Nat → List Char → Option (List Step)
  | _, [] => some []
  | 0, _ => none
  | fuel + 1, '.' :: rest =>
    let name := rest.takeWhile isNameChar
    if name = [] then none
    else (steps? fuel (rest.dropWhile isNameChar)).map (.name (String.ofList name) :: ·)
  | fuel + 1, '[' :: rest => do
    let (index, rest) ← index? rest
    return .index index :: (← steps? fuel rest)
  | _, _ => none

/-- The path that a key stands for. If it is not the form of one, the key is one name. -/
def path (key : String) : List Step :=
  let cs := key.toList
  let name := cs.takeWhile isNameChar
  let steps := if name = [] then none else steps? cs.length (cs.dropWhile isNameChar)
  match steps with
  | some steps => .name (String.ofList name) :: steps
  | none => [.name key]

/-- Adds a layer of settings with their keys. -/
def add (settings : Layers) (layer : List (String × Setting)) : Layers :=
  layer.foldl (fun settings (key, setting) =>
    (change setting (path key) (.table settings)).entries) settings

end Layers

/-- The key of a variable; nothing if its name does not begin as a setting's does. -/
def settingKey? (name : String) : Option String :=
  ((Text.lowerCase name).dropPrefix? "weave__").map fun rest =>
    String.intercalate "." (rest.toString.splitOn "__")

/-- Variables give texts, whatever the type of the setting. -/
def environmentLayer (environment : List (String × String)) : List (String × Setting) :=
  environment.filterMap fun (name, value) => (settingKey? name).map (·, .text value)

/-- A file of settings; its form follows from its extension. -/
structure SettingsFile where
  name : String
  text : String
  deriving Repr

namespace SettingsFile

/-- What follows the last point of the name, if something stands before it. -/
def extension (f : SettingsFile) : String :=
  match (f.name.splitOn ".").reverse with
  | [_] => ""
  | [_, ""] => ""
  | last :: _ => last
  | [] => ""

def settings? (f : SettingsFile) : Option (Fields Setting) :=
  if f.extension = "toml" then Toml.parse? f.text
  else if f.extension = "json" then
    match Json.parse? f.text with
    | some (.object members) => some (Setting.ofMembers members)
    | _ => none
  else none

end SettingsFile

namespace Config

/-- The settings of a file, if there is one, and of the environment, over the defaults. Nothing if
the file cannot be read or a setting has a wrong type. -/
def load? (file : Option SettingsFile) (environment : List (String × String)) : Option Config := do
  let base := Layers.add [] standard.toSettings
  let withFile ← match file with
    | none => some base
    | some file => file.settings?.map base.add
  ofSetting? (.table (Layers.add withFile (environmentLayer environment)))

end Config
end NestedQuery
