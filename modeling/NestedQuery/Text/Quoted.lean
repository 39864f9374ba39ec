/- Names in double quotes, with each quote inside written twice. -/

namespace NestedQuery.Text

/-- The characters between the outer quotes. -/
def doubleQuotes : List Char → List Char
  | [] => []
  | c :: rest => if c = '"' then '"' :: '"' :: doubleQuotes rest else c :: doubleQuotes rest

def quotedName (s : String) : String :=
  String.ofList ('"' :: doubleQuotes s.toList ++ ['"'])

/-- Reads up to the quote that ends a name: a doubled quote stands for one. -/
def readQuotedRest : List Char → Option (List Char × List Char)
  | [] => none
  | '"' :: '"' :: rest => (readQuotedRest rest).map fun r => ('"' :: r.1, r.2)
  | '"' :: rest => some ([], rest)
  | c :: rest => (readQuotedRest rest).map fun r => (c :: r.1, r.2)

/-- Reads a quoted name and what follows it. -/
def readQuotedName : List Char → Option (List Char × List Char)
  | '"' :: rest => readQuotedRest rest
  | _ => none

end NestedQuery.Text
