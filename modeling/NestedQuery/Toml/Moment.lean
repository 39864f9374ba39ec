/- The dates and times of a TOML document. -/
import NestedQuery.Calendar
import NestedQuery.Json.Numeral

namespace NestedQuery.Toml

open Json.Numeral (isDigit)

/-- A time of the day. The second of a leap second is 60. -/
structure Clock where
  hour : Nat
  minute : Nat
  second : Nat
  nanosecond : Nat
  deriving DecidableEq, Repr

/-- How far a time is ahead of universal time. -/
inductive Offset where
  | universal
  | minutes (ahead : Int)
  deriving DecidableEq, Repr

/-- A date, a time or both. -/
structure Moment where
  date : Option Calendar.Date
  clock : Option Clock
  offset : Option Offset
  deriving DecidableEq, Repr

namespace Clock

/-- To the nanosecond and without needless zeros. -/
def text (c : Clock) : String :=
  let digits := (Text.decimal 9 c.nanosecond).toList
  let kept := (digits.reverse.dropWhile (· == '0')).reverse
  Text.decimal 2 c.hour ++ ":" ++ Text.decimal 2 c.minute ++ ":" ++ Text.decimal 2 c.second
    ++ (if kept = [] then "" else "." ++ String.ofList kept)

end Clock

namespace Offset

def text : Offset → String
  | .universal => "Z"
  | .minutes ahead =>
    (if ahead < 0 then "-" else "+") ++ Text.decimal 2 (ahead.natAbs / 60) ++ ":"
      ++ Text.decimal 2 (ahead.natAbs % 60)

end Offset

namespace Moment

def text (m : Moment) : String :=
  (m.date.map Calendar.Date.text).getD ""
    ++ (if m.date.isSome && m.clock.isSome then "T" else "")
    ++ (m.clock.map Clock.text).getD "" ++ (m.offset.map Offset.text).getD ""

/-- A number of exactly so many digits, from `least` to `most`. -/
def field? (width least most : Nat) (cs : List Char) : Option (Nat × List Char) :=
  let digits := cs.take width
  let n := Nat.ofDigitChars 10 digits 0
  if digits.length = width ∧ digits.all isDigit ∧ least ≤ n ∧ n ≤ most then
    some (n, cs.drop width)
  else none

def mark? (c : Char) : List Char → Option (List Char)
  | d :: rest => if d = c then some rest else none
  | [] => none

/-- A day of the calendar, and the rest. -/
def date? (cs : List Char) : Option (Calendar.Date × List Char) := do
  let (year, rest) ← field? 4 0 9999 cs
  let (month, rest) ← field? 2 1 12 (← mark? '-' rest)
  let (day, rest) ← field? 2 1 (Calendar.daysInMonth year month) (← mark? '-' rest)
  return (⟨year, month, day⟩, rest)

/-- The nanoseconds of a fraction, of which digits after the ninth are left out, and the rest. -/
def fraction? : List Char → Option (Nat × List Char)
  | '.' :: rest =>
    let digits := (rest.takeWhile isDigit).take 9
    if digits = [] then none
    else some (Nat.ofDigitChars 10 digits 0 * 10 ^ (9 - digits.length), rest.dropWhile isDigit)
  | rest => some (0, rest)

/-- A time of the day whose hour is at most `lastHour`, and the rest. -/
def clock? (lastHour : Nat) (cs : List Char) : Option (Clock × List Char) := do
  let (hour, rest) ← field? 2 0 lastHour cs
  let (minute, rest) ← field? 2 0 59 (← mark? ':' rest)
  let (second, rest) ← field? 2 0 60 (← mark? ':' rest)
  let (nanosecond, rest) ← fraction? rest
  return (⟨hour, minute, second, nanosecond⟩, rest)

/-- An offset or nothing, up to the end. Hours and minutes have two digits each, up to the given ones,
and the offset is one day at most. -/
def offset? (lastHour lastMinute : Nat) : List Char → Option (Option Offset)
  | [] => some none
  | ['z'] => some (some .universal)
  | ['Z'] => some (some .universal)
  | sign :: cs => do
    if sign ≠ '+' ∧ sign ≠ '-' then none
    let (hours, rest) ← field? 2 0 lastHour cs
    let (minutes, rest) ← field? 2 0 lastMinute (← mark? ':' rest)
    let ahead : Int := hours * 60 + minutes
    if rest ≠ [] ∨ 24 * 60 < ahead then none
    some (some (.minutes (if sign = '-' then -ahead else ahead)))

def isDelimiter (c : Char) : Bool := c == 'T' || c == 't' || c == ' '

/-- A moment as it is written among the values of a document. Only a time with a date has an offset. -/
def ofChars? (cs : List Char) : Option Moment :=
  match date? cs with
  | some (date, []) => some ⟨some date, none, none⟩
  | some (date, delimiter :: rest) => do
    if ¬ isDelimiter delimiter then none
    let (clock, rest) ← clock? 23 rest
    return ⟨some date, some clock, ← offset? 23 59 rest⟩
  | none =>
    match clock? 23 cs with
    | some (clock, []) => some ⟨none, some clock, none⟩
    | _ => none

/-- A moment that a text holds. Here an hour may be 24, a date without a time may have an offset, and
the numbers of an offset are bounded only by the day. -/
def ofText? (s : String) : Option Moment :=
  match date? s.toList with
  | some (date, rest) => do
    let (clock, rest) ←
      if rest.head?.any isDelimiter then (clock? 24 (rest.drop 1)).map fun (c, rest) => (some c, rest)
      else some (none, rest)
    return ⟨some date, clock, ← offset? 99 99 rest⟩
  | none =>
    match clock? 24 s.toList with
    | some (clock, []) => some ⟨none, some clock, none⟩
    | _ => none

end Moment
end NestedQuery.Toml
