/- Lengths of time in whole nanoseconds. -/
import NestedQuery.Decimal.Binary64

namespace NestedQuery

structure Duration where
  nanoseconds : Nat
  deriving DecidableEq, Repr

namespace Duration

def zero : Duration := ⟨0⟩

def ofMilliseconds (n : Nat) : Duration := ⟨n * 10 ^ 6⟩

def ofMicroseconds (n : Nat) : Duration := ⟨n * 10 ^ 3⟩

def milliseconds (d : Duration) : Nat := d.nanoseconds / 10 ^ 6

/-- The seconds, as the rounded sum of the rounded whole part and fraction. -/
def seconds (d : Duration) : Binary64 :=
  (Binary64.ofNat (d.nanoseconds / 10 ^ 9)).add
    ((Binary64.ofNat (d.nanoseconds % 10 ^ 9)).div (.ofNat (10 ^ 9)))

/-- The duration nearest to so many seconds, ties to even. There is none if the number is negative, not
finite, or not below `2 ^ 64`. -/
def ofSeconds? (x : Binary64) : Option Duration :=
  if ¬ x.isFinite ∨ (x.negative ∧ ¬ x.isZero) ∨ 2 ^ 64 * Binary64.unit ≤ x.units then none
  else some ⟨roundHalfEven (x.units * 10 ^ 9) Binary64.unit⟩

def scale? (d : Duration) (factor : Binary64) : Option Duration :=
  ofSeconds? (factor.mul d.seconds)

/-- A number of units, with the part of a further one that remains, without needless zeros. -/
def inUnits (d : Duration) (digits : Nat) (name : String) : String :=
  let rest := d.nanoseconds % 10 ^ digits
  let decimals := Nat.toDigits 10 rest
  let padded := List.replicate (digits - decimals.length) '0' ++ decimals
  let kept := (padded.reverse.dropWhile (· == '0')).reverse
  toString (d.nanoseconds / 10 ^ digits)
    ++ (if rest = 0 then "" else "." ++ String.ofList kept) ++ name

/-- In the largest unit up to a second of which there is a whole one. -/
def text (d : Duration) : String :=
  if 10 ^ 9 ≤ d.nanoseconds then d.inUnits 9 "s"
  else if 10 ^ 6 ≤ d.nanoseconds then d.inUnits 6 "ms"
  else if 10 ^ 3 ≤ d.nanoseconds then d.inUnits 3 "µs"
  else d.inUnits 0 "ns"

end Duration
end NestedQuery
