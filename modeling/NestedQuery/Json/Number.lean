/- The numbers of a document. -/
import NestedQuery.Decimal.Style

namespace NestedQuery.Json

/-- Whole numbers from `-2 ^ 63` to `2 ^ 64 - 1` are kept as such; all others are rounded. -/
inductive Number where
  | whole (value : Int)
  | real (value : Binary64)
  deriving DecidableEq, Repr

namespace Number

/-- A whole number and a real one are different numbers, whatever their values. -/
def equal : Number → Number → Bool
  | .whole a, .whole b => a == b
  | .real a, .real b => a.equal b
  | _, _ => false

/-- A real number that is not finite has no text of its own. -/
def render : Number → String
  | .whole i => toString i
  | .real x => if x.isFinite then DecimalStyle.document.text x else "null"

end Number
end NestedQuery.Json
