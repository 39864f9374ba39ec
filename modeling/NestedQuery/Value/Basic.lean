/- The scalars of a result row and of a statement's parameters. -/
import NestedQuery.Json.Basic

namespace NestedQuery

inductive Value where
  | null
  | int (value : Int64)
  | float (value : Binary64)
  | text (value : String)
  | bool (value : Bool)
  | json (value : Json)
  deriving Repr, Inhabited

/-- One flat result row, by column label. -/
abbrev Row := Fields Value

/-- The 64-bit integer nearest to a whole number. -/
def saturate (i : Int) : Int64 :=
  Int64.ofInt (max (-2 ^ 63) (min (2 ^ 63 - 1) i))

namespace Value

def isNull : Value → Bool
  | .null => true
  | _ => false

def kind : Value → String
  | .null => "null"
  | .int _ => "int"
  | .float _ => "float"
  | .text _ => "text"
  | .bool _ => "bool"
  | .json _ => "json"

/-- An integer, or a float without fraction cut to the range of integers. -/
def asInt? : Value → Option Int64
  | .int i => some i
  | .float x => x.whole?.map saturate
  | _ => none

def asText? : Value → Option String
  | .text s => some s
  | _ => none

def asBool? : Value → Option Bool
  | .bool b => some b
  | _ => none

def toJson : Value → Json
  | .null => .null
  | .int i => .number (.whole i.toInt)
  | .float x => .ofReal x
  | .text s => .text s
  | .bool b => .bool b
  | .json j => j

/-- Scalars become values of their own kind, lists and objects stay documents. Whole numbers
beyond 64 signed bits become floats. -/
def ofJson : Json → Value
  | .null => .null
  | .bool b => .bool b
  | .number (.whole i) => if -2 ^ 63 ≤ i ∧ i < 2 ^ 63 then .int (Int64.ofInt i) else .float (.ofInt i)
  | .number (.real x) => .float x
  | .text s => .text s
  | other => .json other

/-- An unsigned integer; a float from `2 ^ 63` on. -/
def ofUInt64 (n : UInt64) : Value :=
  if n.toNat < 2 ^ 63 then .int (Int64.ofNat n.toNat) else .float (.ofNat n.toNat)

end Value
end NestedQuery
