/- How a double-precision number is written: where positional digits end, and what a whole number ends in. -/
import NestedQuery.Decimal.Shortest

namespace NestedQuery

/-- The choices of one written form of numbers. -/
structure DecimalStyle where
  tie : Tie
  /-- Numbers whose first digit stands at one of these powers of ten are written without exponent. -/
  positional : Int → Bool
  /-- Written after the digits of a whole number in positional form. -/
  wholeMark : String

namespace DecimalStyle

/-- A leading digit from `10 ^ -5` to `10 ^ 15` is positional, and whole numbers keep a point. -/
def document : DecimalStyle := ⟨.even, fun e => -5 ≤ e && e ≤ 15, ".0"⟩

/-- Every number is positional, and whole numbers look like integers. -/
def plain : DecimalStyle := ⟨.up, fun _ => true, ""⟩

def zeros (n : Nat) : String := String.ofList (List.replicate n '0')

def positionalText (s : DecimalStyle) (digits : List Char) (exponent : Int) : String :=
  let point := (digits.length : Int) + exponent
  if 0 ≤ exponent then String.ofList digits ++ zeros exponent.toNat ++ s.wholeMark
  else if 0 < point then
    String.ofList (digits.take point.toNat) ++ "." ++ String.ofList (digits.drop point.toNat)
  else "0." ++ zeros (-point).toNat ++ String.ofList digits

def scientificText (digits : List Char) (leading : Int) : String :=
  let fraction := match digits.drop 1 with
    | [] => ""
    | rest => "." ++ String.ofList rest
  String.ofList (digits.take 1) ++ fraction ++ "e" ++ (if leading < 0 then "-" else "+")
    ++ toString leading.natAbs

/-- The text of a finite number. -/
def text (s : DecimalStyle) (x : Binary64) : String :=
  let sign := if x.negative then "-" else ""
  if x.isZero then sign ++ "0" ++ s.wholeMark
  else
    let d := x.shortest s.tie
    let digits := Nat.toDigits 10 d.coefficient
    let leading := (digits.length : Int) + d.exponent - 1
    sign ++ if s.positional leading then s.positionalText digits d.exponent
      else scientificText digits leading

/-- The text of any number for display. -/
def displayText (x : Binary64) : String :=
  if x.isNaN then "NaN"
  else if x.isInfinite then (if x.negative then "-inf" else "inf")
  else plain.text x

end DecimalStyle
end NestedQuery
