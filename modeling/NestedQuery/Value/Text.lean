/- The two written forms of a value: as a document and for display. -/
import NestedQuery.Value.Basic

namespace NestedQuery.Value

/-- Written straight to its document form; floats that are not finite are null. -/
def toDocument : Value → Document
  | .null => .null
  | .int i => .ofInt i.toInt
  | .float x => .ofReal x
  | .text s => .ofText s
  | .bool b => .bool b
  | .json j => j.toDocument

/-- Reads a value in which up to `room` lists and objects may be open at once. -/
def ofDocument? (room : Nat) (d : Document) : Option Value :=
  (Json.ofDocument? room d).map ofJson

def parse? (s : String) : Option Value := (Json.parse? s).map ofJson

def display : Value → String
  | .null => "NULL"
  | .int i => toString i.toInt
  | .float x => DecimalStyle.displayText x
  | .text s => Text.quotedForDisplay s
  | .bool b => if b then "true" else "false"
  | .json j => j.render

end NestedQuery.Value
