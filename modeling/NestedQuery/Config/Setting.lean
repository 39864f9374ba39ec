/- Untyped settings, as a file or a variable gives them, and what each is read as. -/
import NestedQuery.Config.Document
import NestedQuery.Fields
import NestedQuery.Json.Basic

namespace NestedQuery

inductive Setting where
  | null
  | flag (value : Bool)
  /-- From `-2 ^ 63` to `2 ^ 63 - 1`. -/
  | whole (value : Int)
  | real (value : Binary64)
  | text (value : String)
  | list (items : List Setting)
  | table (entries : List (String × Setting))
  deriving Repr, Inhabited

namespace Binary64

/-- The nearest whole number from 0 to `limit - 1`. A half goes away from zero, and no number is 0. -/
def clampedNatural (limit : Nat) (x : Binary64) : Nat :=
  if x.isNaN || x.negative then 0
  else if x.isInfinite then limit - 1
  else min ((2 * x.units + unit) / (2 * unit)) (limit - 1)

end Binary64

namespace Text

/-- The lower case of a letter that may stand in the name of a setting. Apart from the capital
letters only the Kelvin sign has such a letter for its lower case. -/
def lowerLetter (c : Char) : Char := if c = '\u212a' then 'k' else c.toLower

def lowerCase (s : String) : String := String.ofList (s.toList.map lowerLetter)

/-- Digits, perhaps after a plus. -/
def naturalOfChars? (cs : List Char) : Option Nat :=
  let digits := match cs with
    | '+' :: rest => rest
    | cs => cs
  if digits ≠ [] ∧ digits.all Json.Numeral.isDigit then some (Nat.ofDigitChars 10 digits 0) else none

/-- A power of ten: digits, perhaps after a sign, after a letter e. Nothing stands for 0. -/
def exponentOfChars? : List Char → Option Int
  | [] => some 0
  | mark :: rest =>
    if mark = 'e' ∨ mark = 'E' then
      match rest with
      | '-' :: '+' :: _ => none
      | '-' :: rest => (naturalOfChars? rest).map fun n => -(n : Int)
      | rest => (naturalOfChars? rest).map fun n => (n : Int)
    else none

/-- Digits with at most one point among them and perhaps an exponent. -/
def decimalOfChars? (negative : Bool) (cs : List Char) : Option Binary64 :=
  let whole := cs.takeWhile Json.Numeral.isDigit
  let rest := cs.dropWhile Json.Numeral.isDigit
  let (fraction, rest) := match rest with
    | '.' :: rest => (rest.takeWhile Json.Numeral.isDigit, rest.dropWhile Json.Numeral.isDigit)
    | rest => ([], rest)
  if whole = [] ∧ fraction = [] then none
  else (exponentOfChars? rest).map fun e =>
    .ofDecimal negative (Nat.ofDigitChars 10 (whole ++ fraction) 0) (e - fraction.length)

/-- The real number that a text stands for: a decimal number or a word, perhaps after a sign. -/
def real? (s : String) : Option Binary64 :=
  let (negative, cs) := match s.toList with
    | '-' :: rest => (true, rest)
    | '+' :: rest => (false, rest)
    | cs => (false, cs)
  let word := (String.ofList cs).toLower
  if word = "inf" ∨ word = "infinity" then
    some (if negative then Binary64.infinity.neg else .infinity)
  else if word = "nan" then some .nan
  else decimalOfChars? negative cs

/-- The words for yes and no. -/
def answer? (s : String) : Option Bool :=
  let word := lowerCase s
  if ["true", "on", "yes"].contains word then some true
  else if ["false", "off", "no"].contains word then some false
  else none

end Text

namespace Setting

/-- A whole number below `limit`, which is at most `2 ^ 64`. -/
def natural? (limit : Nat) (s : Setting) : Option Nat :=
  let read := match s with
    | .whole i => if 0 ≤ i then some i.toNat else none
    | .flag b => some b.toNat
    | .real x => some (x.clampedNatural (2 ^ 64))
    | .text s =>
      match Text.answer? s with
      | some b => some b.toNat
      | none => Text.naturalOfChars? s.toList
    | _ => none
  read.filter (· < limit)

def word? (s : Setting) : Option UInt64 := (s.natural? (2 ^ 64)).map UInt64.ofNat

def halfWord? (s : Setting) : Option UInt32 := (s.natural? (2 ^ 32)).map UInt32.ofNat

def real? : Setting → Option Binary64
  | .whole i => some (.ofInt i)
  | .real x => some x
  | .flag b => some (.ofNat b.toNat)
  | .text s =>
    match Text.answer? s with
    | some b => some (.ofNat b.toNat)
    | none => Text.real? s
  | _ => none

/-- A number stands for yes unless it is zero; as text only 0 and 1 do. -/
def flag? : Setting → Option Bool
  | .flag b => some b
  | .whole i => some (i != 0)
  | .real x => some !x.isZero
  | .text s => if s = "1" then some true else if s = "0" then some false else Text.answer? s
  | _ => none

def text? : Setting → Option String
  | .text s => some s
  | .flag b => some (if b then "true" else "false")
  | .whole i => some (toString i)
  | .real x => some (DecimalStyle.displayText x)
  | _ => none

/-- The parts of a record by their names, or in their order. None may be missing; others are not
looked at. -/
def parts? (s : Setting) (fields : List String) : Option (List Setting) :=
  match s with
  | .table entries => fields.mapM fun field => Fields.find? field entries
  | .list items => if items.length < fields.length then none else some (items.take fields.length)
  | _ => none

/-- A policy is named by a text or by the one entry of a table. -/
def policy? : Setting → Option FailurePolicy
  | .text s => FailurePolicy.ofKeyword? (Text.lowerCase s)
  | .table [(name, _)] => FailurePolicy.ofKeyword? (Text.lowerCase name)
  | _ => none

mutual

/-- A whole number that does not fit 64 bits with a sign is a real one. -/
def ofJson : Json → Setting
  | .null => .null
  | .bool b => .flag b
  | .number (.whole i) => if i < 2 ^ 63 then .whole i else .real (.ofInt i)
  | .number (.real x) => .real x
  | .text s => .text s
  | .list items => .list (ofItems items)
  | .object members => .table (ofMembers members)

def ofItems : List Json → List Setting
  | [] => []
  | item :: rest => ofJson item :: ofItems rest

def ofMembers : List (String × Json) → List (String × Setting)
  | [] => []
  | (name, value) :: rest => (name, ofJson value) :: ofMembers rest

end

end Setting

namespace BackoffConfig

def toSetting (c : BackoffConfig) : Setting := .table (Fields.ofList (fields.zip [
  .whole c.initialDelay.toNat, .whole c.maxDelay.toNat, .real c.multiplier,
  .whole c.jitter.toNat]))

def ofSetting? (s : Setting) : Option BackoffConfig := do
  match ← s.parts? fields with
  | [initial, longest, multiplier, jitter] =>
    return ⟨← initial.word?, ← longest.word?, ← multiplier.real?, ← jitter.word?⟩
  | _ => none

end BackoffConfig

namespace DatabaseConfig

def toSetting (c : DatabaseConfig) : Setting := .table (Fields.ofList (fields.zip [
  .text c.url, .whole c.maxConnections.toNat, .whole c.connectionTimeout.toNat,
  .whole c.idleTimeout.toNat, .whole c.connectAttempts.toNat, c.backoff.toSetting]))

def ofSetting? (s : Setting) : Option DatabaseConfig := do
  match ← s.parts? fields with
  | [url, connections, timeout, idle, attempts, backoff] =>
    return ⟨← url.text?, ← connections.halfWord?, ← timeout.word?, ← idle.word?,
      ← attempts.halfWord?, ← BackoffConfig.ofSetting? backoff⟩
  | _ => none

end DatabaseConfig

namespace ExecutionConfig

def toSetting (c : ExecutionConfig) : Setting := .table (Fields.ofList (fields.zip [
  .text c.failurePolicy.keyword, .whole c.maxConcurrency.toNat]))

def ofSetting? (s : Setting) : Option ExecutionConfig := do
  match ← s.parts? fields with
  | [policy, concurrency] => return ⟨← policy.policy?, ← concurrency.word?⟩
  | _ => none

end ExecutionConfig

namespace LoggingConfig

def toSetting (c : LoggingConfig) : Setting :=
  .table (Fields.ofList (fields.zip [.text c.level, .text c.format]))

def ofSetting? (s : Setting) : Option LoggingConfig := do
  match ← s.parts? fields with
  | [level, format] => return ⟨← level.text?, ← format.text?⟩
  | _ => none

end LoggingConfig

namespace MetricsConfig

def toSetting (c : MetricsConfig) : Setting :=
  .table (Fields.ofList (fields.zip [.flag c.enabled, .text c.bindAddress]))

def ofSetting? (s : Setting) : Option MetricsConfig := do
  match ← s.parts? fields with
  | [enabled, address] => return ⟨← enabled.flag?, ← address.text?⟩
  | _ => none

end MetricsConfig

namespace Config

/-- Its numbers must lie below `2 ^ 63`. -/
def toSettings (c : Config) : Fields Setting := Fields.ofList (fields.zip [
  c.database.toSetting,
  c.execution.toSetting,
  .table (Fields.ofList (plannerFields.zip [.flag c.cachePlans])),
  .table (Fields.ofList (observabilityFields.zip [c.logging.toSetting, c.metrics.toSetting]))])

def ofSetting? (s : Setting) : Option Config := do
  match ← s.parts? fields with
  | [database, execution, planner, observability] =>
    match ← planner.parts? plannerFields, ← observability.parts? observabilityFields with
    | [cache], [logging, metrics] =>
      return ⟨← DatabaseConfig.ofSetting? database, ← ExecutionConfig.ofSetting? execution,
        ← cache.flag?, ← LoggingConfig.ofSetting? logging, ← MetricsConfig.ofSetting? metrics⟩
    | _, _ => none
  | _ => none

end Config
end NestedQuery
