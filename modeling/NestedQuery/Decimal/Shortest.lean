/- The fewest decimal digits that read back as a given double-precision number. -/
import NestedQuery.Decimal.Binary64

namespace NestedQuery

/-- The number `coefficient * 10 ^ exponent`. -/
structure Decimal where
  coefficient : Nat
  exponent : Int
  deriving DecidableEq, Repr

/-- Which of two equally near decimals is taken. -/
inductive Tie where
  | even
  | up
  deriving DecidableEq, Repr

namespace Decimal

/-- Moves up to `n` trailing zeros from the coefficient to the exponent. -/
def stripZeros : Nat → Decimal → Decimal
  | 0, d => d
  | n + 1, d =>
    if d.coefficient % 10 = 0 then stripZeros n ⟨d.coefficient / 10, d.exponent + 1⟩ else d

end Decimal

namespace Binary64

/-- The reals that round to a finite positive number, in units of `2 ^ -1076`. -/
structure Interval where
  low : Nat
  middle : Nat
  high : Nat
  closed : Bool
  deriving Repr

/-- Halfway to each neighbour; the one below a power of two is twice as near. Both ends round to
the number itself when its significand is even. -/
def interval (x : Binary64) : Interval :=
  let gap := 2 ^ x.scale
  let below := if x.fraction = 0 ∧ 1 < x.exponentField then gap else 2 * gap
  let middle := 4 * x.units
  ⟨middle - below, middle, middle + 2 * gap, x.significand % 2 == 0⟩

def Interval.contains (i : Interval) (n d : Nat) : Bool :=
  if i.closed then i.low * d ≤ n * 2 ^ 1076 && n * 2 ^ 1076 ≤ i.high * d
  else i.low * d < n * 2 ^ 1076 && n * 2 ^ 1076 < i.high * d

/-- The multiple of `p / q` nearest to the middle among the two beside it that lie inside. -/
def Interval.nearest? (i : Interval) (tie : Tie) (p q : Nat) : Option Nat :=
  let c := i.middle * q / (2 ^ 1076 * p)
  match i.contains (c * p) q, i.contains ((c + 1) * p) q with
  | true, true =>
    let below := i.middle * q - c * p * 2 ^ 1076
    let above := (c + 1) * p * 2 ^ 1076 - i.middle * q
    if below < above then some c
    else if above < below then some (c + 1)
    else match tie with
      | .even => some (if c % 2 = 0 then c else c + 1)
      | .up => some (c + 1)
  | true, false => some c
  | false, true => some (c + 1)
  | false, false => none

/-- Tries ever finer powers of ten; 17 digits always suffice. -/
def Interval.shortest (i : Interval) (tie : Tie) : Nat → Int → Decimal
  | 0, e => ⟨i.middle * 10 ^ (-e).toNat / 2 ^ 1076, e⟩
  | n + 1, e =>
    let hit := if e < 0 then i.nearest? tie 1 (10 ^ (-e).toNat) else i.nearest? tie (10 ^ e.toNat) 1
    match hit with
    | some c => ⟨c, e⟩
    | none => i.shortest tie n (e - 1)

/-- A power of ten that is not below the finite positive number `x`, and at most 100 times it. -/
def leadingExponent (x : Binary64) : Int :=
  ((x.units.log2 : Int) - 1074) * 30103 / 100000 + 1

/-- The shortest decimal inside the interval of a finite number that is not zero, and the nearest
to it among those. -/
def shortest (x : Binary64) (tie : Tie) : Decimal :=
  (x.interval.shortest tie 20 x.leadingExponent).stripZeros 20

end Binary64
end NestedQuery
