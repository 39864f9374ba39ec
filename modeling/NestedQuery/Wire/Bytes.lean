/- Numbers as bytes, the most significant one first. -/

namespace NestedQuery.Wire

abbrev Bytes := List UInt8

namespace Bytes

def unsigned (bytes : Bytes) : Nat := bytes.foldl (fun n b => n * 256 + b.toNat) 0

/-- In two's complement. -/
def signed (bytes : Bytes) : Int := Int.bmod bytes.unsigned (256 ^ bytes.length)

/-- The last `width` bytes of a number. -/
def ofNat (width n : Nat) : Bytes :=
  (List.range width).reverse.map fun i => UInt8.ofNat (n / 256 ^ i)

/-- The first `width` bytes, if there are so many. -/
def first? (bytes : Bytes) (width : Nat) : Option Bytes :=
  if bytes.length < width then none else some (bytes.take width)

def ofText (s : String) : Bytes := s.toUTF8.toList

/-- The text of which these are the bytes. -/
def text? (bytes : Bytes) : Option String := String.fromUTF8? ⟨bytes.toArray⟩

end Bytes
end NestedQuery.Wire
