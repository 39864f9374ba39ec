/- The tokens of a document's text. -/
import NestedQuery.Json.Numeral

namespace NestedQuery.Json

/-- A character of a quoted text, or a code unit given by four hexadecimal digits. -/
inductive TextUnit where
  | char (c : Char)
  | unit (code : Nat)
  deriving DecidableEq, Repr

/-- A text as written: escaped code units are not yet joined to characters. -/
abbrev RawText := List TextUnit

/-- Joins pairs of high and low surrogates; a surrogate on its own stands for no character. -/
def RawText.decode? : RawText → Option (List Char)
  | [] => some []
  | .char c :: rest => (decode? rest).map (c :: ·)
  | .unit high :: rest =>
    if 0xD800 ≤ high ∧ high < 0xDC00 then
      match rest with
      | .unit low :: rest =>
        if 0xDC00 ≤ low ∧ low < 0xE000 then
          (decode? rest).map
            (Char.ofNat (0x10000 + (high - 0xD800) * 0x400 + (low - 0xDC00)) :: ·)
        else none
      | _ => none
    else if 0xDC00 ≤ high ∧ high < 0xE000 then none
    else (decode? rest).map (Char.ofNat high :: ·)

def RawText.toString? (raw : RawText) : Option String :=
  raw.decode?.map String.ofList

inductive Token where
  | openList
  | closeList
  | openObject
  | closeObject
  | comma
  | colon
  | null
  | bool (value : Bool)
  | number (value : Option Number)
  | text (value : Option String)
  deriving DecidableEq, Repr

namespace Token

/-- What the reader of tokens is inside of. -/
inductive Place where
  | between
  /-- A word of letters, digits and signs, in reverse. -/
  | word (cs : List Char)
  | text (units : RawText)
  | escape (units : RawText)
  /-- The value of the hexadecimal digits read so far, and how many are missing. -/
  | unit (units : RawText) (code : Nat) (missing : Nat)
  deriving DecidableEq, Repr

/-- The tokens read so far, in reverse, and the place after them. -/
structure Lexer where
  tokens : List Token
  place : Place
  deriving Repr

def ofWord? (cs : List Char) : Option Token :=
  if cs = ['n', 'u', 'l', 'l'] then some .null
  else if cs = ['t', 'r', 'u', 'e'] then some (.bool true)
  else if cs = ['f', 'a', 'l', 's', 'e'] then some (.bool false)
  else (Numeral.ofChars? cs).map fun n => .number n.toNumber?

def isWordChar (c : Char) : Bool := c.isAlphanum || c == '+' || c == '-' || c == '.'

def isSpace (c : Char) : Bool := c == ' ' || c == '\n' || c == '\r' || c == '\t'

def ofPunctuation? (c : Char) : Option Token :=
  match c with
  | '[' => some .openList
  | ']' => some .closeList
  | '\x7b' => some .openObject
  | '\x7d' => some .closeObject
  | ',' => some .comma
  | ':' => some .colon
  | _ => none

def hexValue? (c : Char) : Option Nat :=
  if '0' ≤ c && c ≤ '9' then some (c.toNat - '0'.toNat)
  else if 'a' ≤ c && c ≤ 'f' then some (c.toNat - 'a'.toNat + 10)
  else if 'A' ≤ c && c ≤ 'F' then some (c.toNat - 'A'.toNat + 10)
  else none

def escapedChar? (c : Char) : Option Char :=
  match c with
  | '"' => some '"'
  | '\\' => some '\\'
  | '/' => some '/'
  | 'b' => some '\x08'
  | 'f' => some '\x0c'
  | 'n' => some '\n'
  | 'r' => some '\r'
  | 't' => some '\t'
  | _ => none

def Lexer.between (tokens : List Token) (c : Char) : Option Lexer :=
  if isSpace c then some ⟨tokens, .between⟩
  else if c = '"' then some ⟨tokens, .text []⟩
  else if isWordChar c then some ⟨tokens, .word [c]⟩
  else (ofPunctuation? c).map fun t => ⟨t :: tokens, .between⟩

/-- Reads one more character. -/
def Lexer.step (l : Lexer) (c : Char) : Option Lexer :=
  match l.place with
  | .between => Lexer.between l.tokens c
  | .word cs =>
    if isWordChar c then some ⟨l.tokens, .word (c :: cs)⟩
    else (ofWord? cs.reverse).bind fun t => Lexer.between (t :: l.tokens) c
  | .text units =>
    if c = '"' then some ⟨.text (RawText.toString? units.reverse) :: l.tokens, .between⟩
    else if c = '\\' then some ⟨l.tokens, .escape units⟩
    else if c.toNat < 0x20 then none
    else some ⟨l.tokens, .text (.char c :: units)⟩
  | .escape units =>
    if c = 'u' then some ⟨l.tokens, .unit units 0 4⟩
    else (escapedChar? c).map fun e => ⟨l.tokens, .text (.char e :: units)⟩
  | .unit units code missing =>
    (hexValue? c).map fun d =>
      if missing ≤ 1 then ⟨l.tokens, .text (.unit (code * 16 + d) :: units)⟩
      else ⟨l.tokens, .unit units (code * 16 + d) (missing - 1)⟩

def Lexer.finish (l : Lexer) : Option (List Token) :=
  match l.place with
  | .between => some l.tokens.reverse
  | .word cs => (ofWord? cs.reverse).map fun t => (t :: l.tokens).reverse
  | _ => none

/-- The tokens of a text; nothing if a character fits none. -/
def ofChars? (cs : List Char) : Option (List Token) :=
  (cs.foldlM Lexer.step ⟨[], .between⟩).bind Lexer.finish

end Token

end NestedQuery.Json
