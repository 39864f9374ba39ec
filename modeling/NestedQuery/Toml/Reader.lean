/- Reading a TOML document, line by line. -/
import NestedQuery.Toml.Scalar

namespace NestedQuery.Toml

/-- How many lists and inline tables may be open at once, and how many names a key may have. -/
def depthLimit : Nat := 79

def isBareChar (c : Char) : Bool := c.isAlphanum || c == '_' || c == '-'

def name? (cs : List Char) : Option (String × List Char) :=
  match shortText? cs with
  | some read => some read
  | none =>
    let name := cs.takeWhile isBareChar
    if name = [] then none else some (String.ofList name, cs.dropWhile isBareChar)

/-- Names with points between them, and blanks around each. -/
def names? : Nat → List Char → Option (List String × List Char)
  | 0, _ => none
  | room + 1, cs => do
    let (name, rest) ← name? (skipBlanks cs)
    match skipBlanks rest with
    | '.' :: rest => do
      let (names, rest) ← names? room rest
      return (name :: names, rest)
    | rest => return ([name], rest)

/-- A key: the names that lead to a table, and the last one. -/
def key? (cs : List Char) : Option ((List String × String) × List Char) := do
  let (names, rest) ← names? depthLimit cs
  return ((names.dropLast, ← names.getLast?), rest)

/-- What follows a comment. -/
def skipComment (cs : List Char) : List Char :=
  match cs with
  | '#' :: rest => rest.dropWhile isPlain
  | cs => cs

/-- Skips blanks, comments and ends of lines, of which there are at most `fuel`. -/
def skipLines : Nat → List Char → List Char
  | 0, cs => cs
  | fuel + 1, cs =>
    let rest := skipBlanks cs
    match afterLine? (skipComment rest) with
    | some next => skipLines fuel next
    | none => rest

mutual

/-- A value, of which each part takes some fuel. -/
def value? : Nat → Nat → List Char → Option (Node × List Char)
  | 0, _, _ => none
  | fuel + 1, room, cs =>
    match cs with
    | '[' :: rest =>
      if room = 0 then none
      else
        match skipLines rest.length rest with
        | ']' :: rest => some (.list [], rest)
        | rest => (items? fuel (room - 1) rest).map fun (items, rest) => (.list items, rest)
    | '\x7b' :: rest =>
      if room = 0 then none
      else
        match skipBlanks rest with
        | '\x7d' :: rest => some (.table .braces [], rest)
        | rest =>
          (members? fuel (room - 1) [] rest).map fun (entries, rest) =>
            (.table .braces entries, rest)
    | cs =>
      if cs.head? = some '"' ∨ cs.head? = some '\'' then
        (text? cs).map fun (text, rest) => (.value (.text text), rest)
      else scalar? cs

/-- The rest of a list that has a further item. A comma may also stand after the last one. -/
def items? : Nat → Nat → List Char → Option (List Node × List Char)
  | 0, _, _ => none
  | fuel + 1, room, cs => do
    let (item, rest) ← value? fuel room cs
    match skipLines rest.length rest with
    | ']' :: rest => some ([item], rest)
    | ',' :: rest =>
      match skipLines rest.length rest with
      | ']' :: rest => some ([item], rest)
      | rest => (items? fuel room rest).map fun (items, rest) => (item :: items, rest)
    | _ => none

/-- The rest of an inline table that has a further entry. -/
def members? : Nat → Nat → Entries → List Char → Option (Entries × List Char)
  | 0, _, _, _ => none
  | fuel + 1, room, entries, cs => do
    let ((path, name), rest) ← key? cs
    let rest ← Moment.mark? '=' rest
    let (value, rest) ← value? fuel room (skipBlanks rest)
    let (_, entries) ← addValue path name value .stated entries
    match skipBlanks rest with
    | '\x7d' :: rest => some (entries, rest)
    | ',' :: rest => members? fuel room entries rest
    | _ => none

end

/-- The tables so far, and the path of the one that values are added to. -/
structure Progress where
  entries : Entries
  here : List String
  deriving Repr

namespace Progress

def change (p : Progress) (path : List String) (here : List String)
    (act : Origin → Entries → Option (Origin × Entries)) : Option Progress :=
  (changeAt false act path .stated p.entries).map fun changed => ⟨changed.2, here⟩

/-- One heading or one value, up to what follows it in its line. -/
def statement? (p : Progress) (cs : List Char) : Option (Progress × List Char) :=
  match cs with
  | '[' :: '[' :: rest => do
    let ((path, name), rest) ← key? rest
    let rest ← Moment.mark? ']' (← Moment.mark? ']' rest)
    return (← p.change path (path ++ [name]) (openItem name), rest)
  | '[' :: rest => do
    let ((path, name), rest) ← key? rest
    let rest ← Moment.mark? ']' rest
    return (← p.change path (path ++ [name]) (openTable name), rest)
  | cs => do
    let ((path, name), rest) ← key? cs
    let rest ← Moment.mark? '=' rest
    let (value, rest) ← value? rest.length depthLimit (skipBlanks rest)
    return (← p.change p.here p.here (addValue path name value), rest)

/-- Reads lines, of which there are at most `fuel`. -/
def lines? : Nat → Progress → List Char → Option Progress
  | 0, _, _ => none
  | fuel + 1, p, cs => do
    let cs := skipBlanks cs
    let (p, rest) ←
      if cs = [] ∨ (skipComment cs).length < cs.length ∨ (afterLine? cs).isSome then some (p, cs)
      else p.statement? cs
    let rest := skipComment (skipBlanks rest)
    if rest = [] then some p else lines? fuel p (← afterLine? rest)

end Progress

/-- The settings of the document that a text holds. A mark of byte order may stand before it. -/
def parse? (s : String) : Option (Fields Setting) := do
  let cs := match s.toList with
    | '\ufeff' :: rest => rest
    | cs => cs
  let p ← Progress.lines? (cs.length + 1) ⟨[], []⟩ cs
  match ← (Node.table .stated p.entries).toSetting? with
  | .table entries => some entries
  | _ => none

end NestedQuery.Toml
