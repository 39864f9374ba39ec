/- The two written forms of a text between double quotes: for documents and for display. -/
import NestedQuery.Text.Printable

namespace NestedQuery.Text

/-- The digits of `n` to base 16, padded with zeros to `width`. -/
def hex (width n : Nat) : String :=
  let digits := Nat.toDigits 16 n
  String.ofList (List.replicate (width - digits.length) '0' ++ digits)

def escapeForDocument (c : Char) : String :=
  match c with
  | '"' => "\\\""
  | '\\' => "\\\\"
  | '\x08' => "\\b"
  | '\x0c' => "\\f"
  | '\n' => "\\n"
  | '\r' => "\\r"
  | '\t' => "\\t"
  | c => if c.toNat < 0x20 then "\\u" ++ hex 4 c.toNat else String.singleton c

/-- Quotes, backslashes and the characters below the space are escaped, all others kept. -/
def quotedForDocument (s : String) : String :=
  "\"" ++ String.join (s.toList.map escapeForDocument) ++ "\""

def escapeForDisplay (c : Char) : String :=
  match c with
  | '"' => "\\\""
  | '\\' => "\\\\"
  | '\n' => "\\n"
  | '\r' => "\\r"
  | '\t' => "\\t"
  | '\x00' => "\\0"
  | c => if isPrintable c then String.singleton c else "\\u\x7b" ++ hex 1 c.toNat ++ "\x7d"

/-- Quotes, backslashes and all characters without a glyph are escaped. -/
def quotedForDisplay (s : String) : String :=
  "\"" ++ String.join (s.toList.map escapeForDisplay) ++ "\""

end NestedQuery.Text
