/- Binary floating-point numbers of 64 bits, computed exactly over the integers and rounded once. -/

namespace NestedQuery

-- a power of numbers means the one of the core library here and wherever this is imported
attribute [default_instance 20000] instPowNat
attribute [instance (20000)] instPowNat

/-- A double-precision number, given by its bits: a sign, eleven bits of exponent, 52 of fraction. -/
structure Binary64 where
  bits : UInt64
  deriving DecidableEq, Repr, Inhabited

/-- The nearest whole number to `n / d`; a half goes to the even neighbour. -/
def roundHalfEven (n d : Nat) : Nat :=
  let q := n / d
  let twice := 2 * (n % d)
  if twice < d then q
  else if d < twice then q + 1
  else q + q % 2

namespace Binary64

def negative (x : Binary64) : Bool := 2 ^ 63 ≤ x.bits.toNat

def exponentField (x : Binary64) : Nat := x.bits.toNat / 2 ^ 52 % 2 ^ 11

def fraction (x : Binary64) : Nat := x.bits.toNat % 2 ^ 52

def isFinite (x : Binary64) : Bool := x.exponentField != 2047

def isInfinite (x : Binary64) : Bool := x.exponentField == 2047 && x.fraction == 0

def isNaN (x : Binary64) : Bool := x.exponentField == 2047 && x.fraction != 0

/-- The whole number that the power of two multiplies. -/
def significand (x : Binary64) : Nat :=
  if x.exponentField = 0 then x.fraction else 2 ^ 52 + x.fraction

/-- A finite number is `significand * 2 ^ scale / 2 ^ 1074`, up to its sign. -/
def scale (x : Binary64) : Nat := x.exponentField - 1

def isZero (x : Binary64) : Bool := x.exponentField == 0 && x.fraction == 0

/-- The magnitude of a finite number in units of `2 ^ -1074`, the smallest positive number. -/
def units (x : Binary64) : Nat := x.significand * 2 ^ x.scale

/-- The value of a finite number in units of `2 ^ -1074`. -/
def signedUnits (x : Binary64) : Int :=
  if x.negative then -(x.units : Int) else (x.units : Int)

def unit : Nat := 2 ^ 1074

def ofBits (negative : Bool) (magnitude : Nat) : Binary64 :=
  ⟨UInt64.ofNat (magnitude + if negative then 2 ^ 63 else 0)⟩

def zero : Binary64 := ofBits false 0
def infinity : Binary64 := ofBits false (2047 * 2 ^ 52)
def nan : Binary64 := ofBits false (2047 * 2 ^ 52 + 2 ^ 51)

def neg (x : Binary64) : Binary64 :=
  ofBits (!x.negative) (x.bits.toNat % 2 ^ 63)

/-- The exponent, at least `-1074`, at which `n / d` has 53 bits before the point. -/
def roundingExponent (n d : Nat) : Int :=
  let guess : Int := (n.log2 : Int) - (d.log2 : Int) - 52
  let fits := if guess < 0 then 2 ^ 52 * d ≤ n * 2 ^ (-guess).toNat
    else 2 ^ 52 * d * 2 ^ guess.toNat ≤ n
  max (if fits then guess else guess - 1) (-1074)

/-- The magnitude bits of the number nearest to `n / d`: a tie goes to the even neighbour, and
what lies beyond the largest finite number becomes infinity. -/
def magnitudeOfRatio (n d : Nat) : Nat :=
  if n = 0 then 0
  else
    let e := roundingExponent n d
    let q := if e < 0 then roundHalfEven (n * 2 ^ (-e).toNat) d
      else roundHalfEven n (d * 2 ^ e.toNat)
    min ((e + 1074).toNat * 2 ^ 52 + q) (2047 * 2 ^ 52)

/-- The number nearest to `± n / d`, for `d` not zero. -/
def ofRatio (negative : Bool) (n d : Nat) : Binary64 :=
  ofBits negative (magnitudeOfRatio n d)

def ofNat (n : Nat) : Binary64 := ofRatio false n 1

def ofInt (i : Int) : Binary64 := ofRatio (i < 0) i.natAbs 1

/-- The number nearest to `± n * 10 ^ e`. Powers that can only overflow or vanish are not taken:
`10 ^ 310` exceeds `2 ^ 1024`, and `n * 8 ^ e` bounds the product from above for negative `e`. -/
def ofDecimal (negative : Bool) (n : Nat) (e : Int) : Binary64 :=
  if n = 0 then ofBits negative 0
  else if 310 ≤ e then ofBits negative (2047 * 2 ^ 52)
  else if 0 ≤ e then ofRatio negative (n * 10 ^ e.toNat) 1
  else if (n.log2 : Int) + 1078 ≤ -3 * e then ofBits negative 0
  else ofRatio negative n (10 ^ (-e).toNat)

/-- Equality of numbers: both zeros are equal, and a NaN differs from everything. -/
def equal (x y : Binary64) : Bool :=
  !x.isNaN && !y.isNaN && (x == y || x.isZero && y.isZero)

def less (x y : Binary64) : Bool :=
  if x.isNaN || y.isNaN then false
  else
    let position (z : Binary64) : Int :=
      if z.negative then -((z.bits.toNat % 2 ^ 63 : Nat) : Int) else (z.bits.toNat % 2 ^ 63 : Nat)
    position x < position y

def mul (x y : Binary64) : Binary64 :=
  let sign := x.negative != y.negative
  if x.isNaN || y.isNaN then nan
  else if x.isInfinite || y.isInfinite then
    if x.isZero || y.isZero then nan else ofBits sign (2047 * 2 ^ 52)
  else ofRatio sign (x.units * y.units) (unit * unit)

def div (x y : Binary64) : Binary64 :=
  let sign := x.negative != y.negative
  if x.isNaN || y.isNaN then nan
  else if x.isInfinite then if y.isInfinite then nan else ofBits sign (2047 * 2 ^ 52)
  else if y.isInfinite then ofBits sign 0
  else if y.isZero then if x.isZero then nan else ofBits sign (2047 * 2 ^ 52)
  else ofRatio sign x.units y.units

/-- An exact sum of zero is negative only if both terms are. -/
def add (x y : Binary64) : Binary64 :=
  if x.isNaN || y.isNaN then nan
  else if x.isInfinite then if y.isInfinite && x.negative != y.negative then nan else x
  else if y.isInfinite then y
  else
    let total := x.signedUnits + y.signedUnits
    if total = 0 then ofBits (x.negative && y.negative) 0
    else ofRatio (total < 0) total.natAbs unit

/-- The whole number that the bits denote, if they denote one. -/
def whole? (x : Binary64) : Option Int :=
  if x.isFinite && x.units % unit == 0 then
    some (if x.negative then -((x.units / unit : Nat) : Int) else ((x.units / unit : Nat) : Int))
  else none

/-- The same number read from its single-precision bits: one sign, eight exponent, 23 fraction. -/
def ofBinary32 (bits : Nat) : Binary64 :=
  let sign : Bool := 2 ^ 31 ≤ bits
  let field := bits / 2 ^ 23 % 2 ^ 8
  let fraction := bits % 2 ^ 23
  if field = 255 then
    if fraction = 0 then ofBits sign (2047 * 2 ^ 52)
    else ofBits sign (2047 * 2 ^ 52 + fraction * 2 ^ 29)
  else if field = 0 then ofRatio sign fraction (2 ^ 149)
  else ofRatio sign ((2 ^ 23 + fraction) * 2 ^ (field - 1)) (2 ^ 149)

end Binary64
end NestedQuery
