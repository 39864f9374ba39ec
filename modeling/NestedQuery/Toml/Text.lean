/- The texts of a TOML document: between double quotes with escapes, between single quotes without,
and either of them over several lines between three quotes. -/
import NestedQuery.Json.Token

namespace NestedQuery.Toml

def isBlank (c : Char) : Bool := c == ' ' || c == '\t'

def skipBlanks (cs : List Char) : List Char := cs.dropWhile isBlank

/-- The characters that may stand in a line: all but control characters other than the tab. -/
def isPlain (c : Char) : Bool := c == '\t' || 0x20 ≤ c.toNat && c != '\x7f'

/-- What follows the end of a line. -/
def afterLine? : List Char → Option (List Char)
  | '\n' :: rest => some rest
  | '\r' :: '\n' :: rest => some rest
  | _ => none

/-- What has been read of an escape sequence. -/
inductive Pending where
  | nothing
  | backslash
  /-- So many digits of a character's number are missing. -/
  | digits (missing number : Nat)
  /-- A backslash at the end of a line takes all blanks and further ends of lines with it. -/
  | fold (ended : Bool)
  deriving DecidableEq, Repr

def escapedChar? : Char → Option Char
  | 'b' => some '\x08'
  | 't' => some '\t'
  | 'n' => some '\n'
  | 'f' => some '\x0c'
  | 'r' => some '\r'
  | '"' => some '"'
  | '\\' => some '\\'
  | _ => none

/-- The character of a number that is not a surrogate. -/
def charOfNumber? (n : Nat) : Option Char := if n.isValidChar then some (Char.ofNat n) else none

/-- What comes after three closing quotes: up to two more quotes before them belong to the text. -/
def closeLong (quote : Char) (done rest : List Char) : List Char × List Char :=
  match rest with
  | a :: b :: after =>
    if a = quote then if b = quote then (b :: a :: done, after) else (a :: done, b :: after)
    else (done, rest)
  | [a] => if a = quote then (a :: done, []) else (done, rest)
  | [] => (done, [])

/-- Whether three quotes begin a text. -/
def startsLong (quote : Char) (cs : List Char) : Bool := [quote, quote, quote].isPrefixOf cs

/-- The rest of a text that opened with double quotes. The characters read so far stand in reverse. -/
def escapedText (long : Bool) (pending : Pending) (done : List Char) :
    List Char → Option (List Char × List Char)
  | [] => none
  | c :: rest =>
    match pending with
    | .digits missing number =>
      match Json.Token.hexValue? c with
      | none => none
      | some digit =>
        let number := number * 16 + digit
        if missing ≤ 1 then
          (charOfNumber? number).bind fun read => escapedText long .nothing (read :: done) rest
        else escapedText long (.digits (missing - 1) number) done rest
    | .backslash =>
      if c = 'u' then escapedText long (.digits 4 0) done rest
      else if c = 'U' then escapedText long (.digits 8 0) done rest
      else if long && isBlank c then escapedText long (.fold false) done rest
      else if long && c == '\n' then escapedText long (.fold true) done rest
      else if long && c == '\r' then
        if rest.head? = some '\n' then escapedText long .backslash done rest else none
      else (escapedChar? c).bind fun read => escapedText long .nothing (read :: done) rest
    | .fold ended =>
      if isBlank c then escapedText long (.fold ended) done rest
      else if c = '\n' then escapedText long (.fold true) done rest
      else if c = '\r' then
        if rest.head? = some '\n' then escapedText long (.fold ended) done rest else none
      else if ¬ ended then none
      else if c = '\\' then escapedText long .backslash done rest
      else if startsLong '"' (c :: rest) then some (closeLong '"' done (rest.drop 2))
      else if isPlain c then escapedText long .nothing (c :: done) rest
      else none
    | .nothing =>
      if c = '\\' then escapedText long .backslash done rest
      else if long then
        if startsLong '"' (c :: rest) then some (closeLong '"' done (rest.drop 2))
        else if c = '\r' then
          if rest.head? = some '\n' then escapedText long .nothing done rest else none
        else if c = '\n' || isPlain c then escapedText long .nothing (c :: done) rest
        else none
      else if c = '"' then some (done, rest)
      else if isPlain c then escapedText long .nothing (c :: done) rest
      else none

/-- The rest of a text that opened with single quotes. -/
def literalText (long : Bool) (done : List Char) : List Char → Option (List Char × List Char)
  | [] => none
  | c :: rest =>
    if long then
      if startsLong '\'' (c :: rest) then some (closeLong '\'' done (rest.drop 2))
      else if c = '\r' then
        if rest.head? = some '\n' then literalText long done rest else none
      else if c = '\n' || isPlain c then literalText long (c :: done) rest
      else none
    else if c = '\'' then some (done, rest)
    else if isPlain c then literalText long (c :: done) rest
    else none

def finished (read : Option (List Char × List Char)) : Option (String × List Char) :=
  read.map fun (done, rest) => (String.ofList done.reverse, rest)

/-- A text in one line. -/
def shortText? : List Char → Option (String × List Char)
  | '"' :: rest => finished (escapedText false .nothing [] rest)
  | '\'' :: rest => finished (literalText false [] rest)
  | _ => none

/-- Any text. One over several lines leaves out an end of line right after its opening quotes. -/
def text? (cs : List Char) : Option (String × List Char) :=
  let body := cs.drop 3
  let body := (afterLine? body).getD body
  if startsLong '"' cs then finished (escapedText true .nothing [] body)
  else if startsLong '\'' cs then finished (literalText true [] body)
  else shortText? cs

end NestedQuery.Toml
