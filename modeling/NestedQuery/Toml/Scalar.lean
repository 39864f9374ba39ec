/- The values of a TOML document that are one word: truth values, numbers, dates and times. -/
import NestedQuery.Toml.Table
import NestedQuery.Toml.Text

namespace NestedQuery.Toml

open Json.Numeral (isDigit)

/-- Digits, without the single underscores that may stand between two of them. -/
def ungrouped? (digit : Char → Bool) : List Char → Option (List Char)
  | [] => none
  | [c] => if digit c then some [c] else none
  | c :: '_' :: rest => if digit c then (ungrouped? digit rest).map (c :: ·) else none
  | c :: rest => if digit c then (ungrouped? digit rest).map (c :: ·) else none

def digitBelow (base : Nat) (c : Char) : Bool := ((Json.Token.hexValue? c).any (· < base))

def valueIn (base : Nat) (digits : List Char) : Nat :=
  digits.foldl (fun n c => n * base + (Json.Token.hexValue? c).getD 0) 0

/-- Digits without a needless leading zero. -/
def decimalDigits? (cs : List Char) : Option (List Char) :=
  (ungrouped? isDigit cs).filter fun digits => digits.head? != some '0' || digits.length == 1

def splitSign : List Char → Bool × List Char
  | '-' :: rest => (true, rest)
  | '+' :: rest => (false, rest)
  | cs => (false, cs)

/-- A whole number of 64 bits with a sign; one with another base has no sign. -/
def whole? (cs : List Char) : Option Int :=
  let based (base : Nat) (rest : List Char) : Option Int :=
    (ungrouped? (digitBelow base) rest).map fun digits => (valueIn base digits : Int)
  let read := match cs with
    | '0' :: 'x' :: rest => based 16 rest
    | '0' :: 'o' :: rest => based 8 rest
    | '0' :: 'b' :: rest => based 2 rest
    | cs =>
      let (negative, rest) := splitSign cs
      (decimalDigits? rest).map fun digits =>
        if negative then -(valueIn 10 digits : Int) else (valueIn 10 digits : Int)
  read.filter fun i => -2 ^ 63 ≤ i && i < 2 ^ 63

/-- The digits before an exponent, or all, and the exponent. -/
def splitExponent? (cs : List Char) : Option (List Char × Int) :=
  let mark (c : Char) : Bool := c == 'e' || c == 'E'
  match cs.dropWhile (!mark ·) with
  | [] => some (cs, 0)
  | _ :: rest =>
    let (negative, rest) := splitSign rest
    (ungrouped? isDigit rest).map fun digits =>
      (cs.takeWhile (!mark ·), if negative then -(valueIn 10 digits : Int) else valueIn 10 digits)

/-- A decimal number with a fraction, an exponent or both. One that is too large is refused. -/
def decimal? (cs : List Char) : Option Binary64 := do
  let (negative, cs) := splitSign cs
  if cs.all fun c => c ≠ '.' ∧ c ≠ 'e' ∧ c ≠ 'E' then none
  let (mantissa, e) ← splitExponent? cs
  let whole ← decimalDigits? (mantissa.takeWhile (· != '.'))
  let fraction ← match mantissa.dropWhile (· != '.') with
    | [] => some []
    | _ :: rest => ungrouped? isDigit rest
  let x := Binary64.ofDecimal negative (valueIn 10 (whole ++ fraction)) (e - fraction.length)
  if x = Binary64.infinity then none else some x

def real? (cs : List Char) : Option Binary64 :=
  let (negative, word) := splitSign cs
  if word = ['i', 'n', 'f'] then some (if negative then Binary64.infinity.neg else .infinity)
  else if word = ['n', 'a', 'n'] then some .nan
  else decimal? cs

def word? (cs : List Char) : Option Node :=
  if cs = ['t', 'r', 'u', 'e'] then some (.value (.flag true))
  else if cs = ['f', 'a', 'l', 's', 'e'] then some (.value (.flag false))
  else
    match Moment.ofChars? cs with
    | some m => some (.moment m)
    | none =>
      match whole? cs with
      | some i => some (.value (.whole i))
      | none => (real? cs).map fun x => .value (.real x)

def isWordChar (c : Char) : Bool := c.isAlphanum || "_+-.:".toList.contains c

/-- A value that is one word. A day and a time may also stand apart. -/
def scalar? (cs : List Char) : Option (Node × List Char) :=
  let first := cs.takeWhile isWordChar
  let rest := cs.dropWhile isWordChar
  let second := (rest.drop 1).takeWhile isWordChar
  let apart := match Moment.date? first, rest.head? with
    | some (_, []), some ' ' => if second = [] then none else Moment.ofChars? (first ++ ' ' :: second)
    | _, _ => none
  match apart with
  | some m => some (.moment m, (rest.drop 1).dropWhile isWordChar)
  | none => (word? first).map (·, rest)

end NestedQuery.Toml
