/- Days and times of the Gregorian calendar, which is extended to all years. -/
import NestedQuery.Text.Escape

namespace NestedQuery

namespace Text

/-- The decimal digits of `n`, padded with zeros to `width`. -/
def decimal (width n : Nat) : String :=
  let digits := Nat.toDigits 10 n
  String.ofList (List.replicate (width - digits.length) '0' ++ digits)

end Text

namespace Calendar

def isLeapYear (year : Nat) : Bool :=
  year % 4 == 0 && (year % 100 != 0 || year % 400 == 0)

def daysInMonth (year month : Nat) : Nat :=
  if month = 2 then if isLeapYear year then 29 else 28
  else if [4, 6, 9, 11].contains month then 30 else 31

structure Date where
  /-- The year before 1 is 0. -/
  year : Int
  month : Nat
  day : Nat
  deriving DecidableEq, Repr

/-- The date so many days after the first of January 2000. Years are counted from the first of March,
and by spans of 400 years, which have 146097 days each. -/
def Date.ofDays (days : Int) : Date :=
  let shifted := days + 730425
  let span := shifted.fdiv 146097
  let inSpan := (shifted.fmod 146097).toNat
  let yearOfSpan := (inSpan - inSpan / 1460 + inSpan / 36524 - inSpan / 146096) / 365
  let inYear := inSpan - (365 * yearOfSpan + yearOfSpan / 4 - yearOfSpan / 100)
  let monthFromMarch := (5 * inYear + 2) / 153
  let day := inYear - (153 * monthFromMarch + 2) / 5 + 1
  let month := if monthFromMarch < 10 then monthFromMarch + 3 else monthFromMarch - 9
  ⟨span * 400 + yearOfSpan + (if month ≤ 2 then 1 else 0), month, day⟩

/-- A year has four digits at least, and a sign outside of 0 to 9999. -/
def yearText (year : Int) : String :=
  let sign := if year < 0 then "-" else if 9999 < year then "+" else ""
  sign ++ Text.decimal 4 year.natAbs

def Date.text (d : Date) : String :=
  yearText d.year ++ "-" ++ Text.decimal 2 d.month ++ "-" ++ Text.decimal 2 d.day

/-- A time of the day, with the digits of its fraction in threes as far as needed. -/
def timeText (microseconds : Nat) : String :=
  let seconds := microseconds / 10 ^ 6
  let fraction := microseconds % 10 ^ 6
  let clock := Text.decimal 2 (seconds / 3600) ++ ":" ++ Text.decimal 2 (seconds / 60 % 60) ++ ":"
    ++ Text.decimal 2 (seconds % 60)
  if fraction = 0 then clock
  else if fraction % 1000 = 0 then clock ++ "." ++ Text.decimal 3 (fraction / 1000)
  else clock ++ "." ++ Text.decimal 6 fraction

/-- The microseconds of a day. -/
def dayLength : Nat := 86400 * 10 ^ 6

/-- The first and last years that dates are given for. -/
def firstYear : Int := -262143
def lastYear : Int := 262142

def date? (days : Int) : Option Date :=
  let d := Date.ofDays days
  if firstYear ≤ d.year ∧ d.year ≤ lastYear then some d else none

/-- The moment so many microseconds after the start of 2000, in universal time. -/
def momentText? (microseconds : Int) : Option String :=
  (date? (microseconds.fdiv dayLength)).map fun d =>
    d.text ++ "T" ++ timeText (microseconds.fmod dayLength).toNat ++ "Z"

end Calendar
end NestedQuery
