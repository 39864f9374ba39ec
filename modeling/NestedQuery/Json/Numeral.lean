/- Numbers as written in a document, and the numbers they are read as. -/
import NestedQuery.Json.Number

namespace NestedQuery.Json

/-- A written number, by its digits. -/
structure Numeral where
  negative : Bool
  whole : List Char
  fraction : Option (List Char)
  /-- The exponent's sign (true for a minus) and digits. -/
  exponent : Option (Bool × List Char)
  deriving DecidableEq, Repr

namespace Numeral

def isDigit (c : Char) : Bool := '0' ≤ c && c ≤ '9'

def digitValue (c : Char) : Nat := c.toNat - '0'.toNat

def exponentOfChars? : List Char → Option (Option (Bool × List Char))
  | [] => some none
  | mark :: rest =>
    if mark = 'e' ∨ mark = 'E' then
      let (minus, digits) := match rest with
        | '-' :: digits => (true, digits)
        | '+' :: digits => (false, digits)
        | digits => (false, digits)
      if digits ≠ [] ∧ digits.all isDigit then some (some (minus, digits)) else none
    else none

/-- An optional minus, digits without a needless leading zero, and optionally a fraction and an
exponent, each with at least one digit. -/
def ofChars? (cs : List Char) : Option Numeral :=
  let (negative, rest) := match cs with
    | '-' :: rest => (true, rest)
    | rest => (false, rest)
  let whole := rest.takeWhile isDigit
  if whole = [] ∨ (whole.head? = some '0' ∧ whole ≠ ['0']) then none
  else
    match rest.dropWhile isDigit with
    | '.' :: rest =>
      let fraction := rest.takeWhile isDigit
      if fraction = [] then none
      else (exponentOfChars? (rest.dropWhile isDigit)).map (⟨negative, whole, some fraction, ·⟩)
    | rest => (exponentOfChars? rest).map (⟨negative, whole, none, ·⟩)

/-- Reads digits into a number below `2 ^ 64` as long as they fit; the rest is left. -/
def accumulate (n : Nat) : List Char → Nat × List Char
  | [] => (n, [])
  | c :: rest =>
    let next := n * 10 + digitValue c
    if next < 2 ^ 64 then accumulate next rest else (n, c :: rest)

/-- `x * 10 ^ e` by one multiplication or division where the power is a finite number, after
dividing by `10 ^ 308` as often as needed. Nothing if the result is too large. -/
def scaled : Nat → Binary64 → Int → Option Binary64
  | 0, x, _ => some x
  | n + 1, x, e =>
    if e.natAbs ≤ 308 then
      if 0 ≤ e then
        let y := x.mul (.ofDecimal false 1 e)
        if y.isInfinite then none else some y
      else some (x.div (.ofDecimal false 1 (-e)))
    else if x.isZero then some x
    else if 0 ≤ e then none
    else scaled n (x.div (.ofDecimal false 1 308)) (e + 308)

def realOf (negative : Bool) (significand : Nat) (e : Int) : Option Number :=
  -- a number below `2 ^ 64` vanishes within three divisions by `10 ^ 308`
  (scaled 4 (.ofNat significand) e).map fun x => .real (if negative then x.neg else x)

/-- The exponent is a 32-bit number; beyond its range only zero and vanishing numbers are read. -/
def toReal? (n : Numeral) (significand : Nat) (e : Int) : Option Number :=
  match n.exponent with
  | none => realOf n.negative significand e
  | some (minus, digits) =>
    let written := digits.foldl (fun m c => m * 10 + digitValue c) 0
    if written < 2 ^ 31 then
      let total := if minus then e - written else e + written
      realOf n.negative significand (max (-2 ^ 31) (min (2 ^ 31 - 1) total))
    else if significand ≠ 0 ∧ ¬ minus then none
    else some (.real (.ofBits n.negative 0))

/-- The number that a numeral stands for. Without fraction and exponent it is whole if it fits 64
bits; all else is real and takes at most the digits that fit 64 bits. Nothing if out of range. -/
def toNumber? (n : Numeral) : Option Number :=
  let (significand, unread) := accumulate 0 n.whole
  match n.fraction with
  | some fraction =>
    let (significand, unreadFraction) := accumulate significand fraction
    n.toReal? significand ((unread.length : Int) - (fraction.length - unreadFraction.length : Nat))
  | none =>
    if unread ≠ [] ∨ n.exponent.isSome then n.toReal? significand unread.length
    else if ¬ n.negative then some (.whole significand)
    else if 0 < significand ∧ significand ≤ 2 ^ 63 then some (.whole (-(significand : Int)))
    else some (.real ((Binary64.ofNat significand).neg))

end Numeral
end NestedQuery.Json
