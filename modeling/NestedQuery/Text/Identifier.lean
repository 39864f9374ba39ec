/- The names and column types that declarations may use. -/
import NestedQuery.Error

namespace NestedQuery.Text

def isNameStart (c : Char) : Bool := c.isAlpha || c == '_'

def isNameChar (c : Char) : Bool := c.isAlphanum || c == '_'

/-- An ASCII letter or underscore, then ASCII letters, digits and underscores. -/
def isIdentifier (s : String) : Bool :=
  match s.toList with
  | [] => false
  | c :: rest => isNameStart c && rest.all isNameChar

mutual

/-- One or more identifiers, one space apart, and at most one pair of brackets at the end. -/
def isTypeWords : List Char → Bool
  | [] => false
  | c :: rest => isNameStart c && isTypeRest rest

def isTypeRest : List Char → Bool
  | [] => true
  | ['[', ']'] => true
  | ' ' :: rest => isTypeWords rest
  | c :: rest => isNameChar c && isTypeRest rest

end

def isColumnType (s : String) : Bool := isTypeWords s.toList

def checkIdentifier (s : String) : Except NameFault Unit :=
  if s = "" then .error .empty
  else if isIdentifier s then .ok ()
  else .error (.identifier s)

def checkColumnType (s : String) : Except NameFault Unit :=
  if isColumnType s then .ok () else .error (.columnType s)

end NestedQuery.Text
