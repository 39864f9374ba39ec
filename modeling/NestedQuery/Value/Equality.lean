/- When two values are equal, and what they are grouped by. -/
import NestedQuery.Value.Basic

namespace NestedQuery.Value

/-- The integer that a float without fraction counts as, if it lies between the ends of the range
of integers; the upper end stands for `2 ^ 63`. -/
def integral? (x : Binary64) : Option Int64 :=
  x.whole?.bind fun i => if -2 ^ 63 ≤ i ∧ i ≤ 2 ^ 63 then some (saturate i) else none

/-- Integers and floats are compared as numbers, all NaN are equal, and all else is equal only
within its kind. -/
def equal : Value → Value → Bool
  | .null, .null => true
  | .int a, .int b => a == b
  | .float a, .float b => a.equal b || (a.isNaN && b.isNaN)
  | .int a, .float b => integral? b == some a
  | .float a, .int b => integral? a == some b
  | .text a, .text b => a == b
  | .bool a, .bool b => a == b
  | .json a, .json b => a.equal b
  | _, _ => false

instance : BEq Value := ⟨equal⟩

/-- What a hash of a value is computed from. -/
inductive HashKey where
  | null
  | int (value : Int64)
  | float (value : Binary64)
  | text (value : String)
  | bool (value : Bool)
  | json (rendered : String)
  deriving DecidableEq, Repr

/-- What a hasher is given at once. -/
inductive Write where
  | byte (value : UInt8)
  | integer (value : Int64)
  | word (value : UInt64)
  | text (value : String)
  deriving DecidableEq, Repr

/-- All that a hasher is given, a byte for the kind of the key first. -/
def HashKey.writes : HashKey → List Write
  | .null => [.byte 0]
  | .int i => [.byte 1, .integer i]
  | .float x => [.byte 2, .word x.bits]
  | .text s => [.byte 3, .text s]
  | .bool b => [.byte 4, .byte (if b then 1 else 0)]
  | .json s => [.byte 5, .text s]

def hashKey : Value → HashKey
  | .null => .null
  | .int i => .int i
  | .float x =>
    match integral? x with
    | some i => .int i
    | none => .float (if x.isNaN then Binary64.nan else x)
  | .text s => .text s
  | .bool b => .bool b
  | .json j => .json j.render

/-- Whether a hashed collection takes two values for one key. -/
def sameKey (a b : Value) : Bool := a.hashKey == b.hashKey && a == b

/-- The values without repetitions, each at its first place. -/
def distinct (values : List Value) : List Value :=
  (values.foldl (fun seen v => if seen.any (sameKey v) then seen else v :: seen) []).reverse

end NestedQuery.Value
