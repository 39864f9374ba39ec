/- The values of columns and parameters in their binary forms. -/
import NestedQuery.Calendar
import NestedQuery.Error
import NestedQuery.Value.Text
import NestedQuery.Wire.Bytes
import NestedQuery.Wire.ColumnType

namespace NestedQuery.Wire

def int? (width : Nat) (bytes : Bytes) : Option Int := (bytes.first? width).map Bytes.signed

/-- In groups of 4, 2, 2, 2 and 6 bytes. -/
def uuidText? (bytes : Bytes) : Option String :=
  let digits (part : Bytes) : String := String.join (part.map fun b => Text.hex 2 b.toNat)
  if bytes.length = 16 then
    some ("-".intercalate [digits (bytes.take 4), digits ((bytes.drop 4).take 2),
      digits ((bytes.drop 6).take 2), digits ((bytes.drop 8).take 2), digits (bytes.drop 10)])
  else none

/-- Binary documents begin with the number of their version, which is 1. -/
def versioned? : Bytes → Option Bytes
  | 1 :: rest => some rest
  | _ => none

def document? (bytes : Bytes) : Option Value :=
  (bytes.text?.bind Json.parse?).map .json

def bytesText (bytes : Bytes) : String :=
  "\\x" ++ String.join (bytes.map fun b => Text.hex 2 b.toNat)

/-- The value of a column that is not null, if it has one. Times of the day go round the clock. -/
def decode? : ColumnType → Bytes → Option Value
  | .int8, bytes => (int? 8 bytes).map fun i => .int (.ofInt i)
  | .int4, bytes => (int? 4 bytes).map fun i => .int (.ofInt i)
  | .oid, bytes => (int? 4 bytes).map fun i => .int (.ofInt i)
  | .int2, bytes => (int? 2 bytes).map fun i => .int (.ofInt i)
  | .float8, bytes => (bytes.first? 8).map fun b => .float ⟨UInt64.ofNat b.unsigned⟩
  | .float4, bytes => (bytes.first? 4).map fun b => .float (.ofBinary32 b.unsigned)
  | .bool, bytes => bytes.head?.map fun b => .bool (b != 0)
  | .text, bytes => bytes.text?.map .text
  | .varchar, bytes => bytes.text?.map .text
  | .bpchar, bytes => bytes.text?.map .text
  | .name, bytes => bytes.text?.map .text
  | .uuid, bytes => (uuidText? bytes).map .text
  | .json, bytes => document? bytes
  | .jsonb, bytes => (versioned? bytes).bind document?
  | .timestamptz, bytes => ((int? 8 bytes).bind Calendar.momentText?).map .text
  | .timestamp, bytes => ((int? 8 bytes).bind Calendar.momentText?).map .text
  | .date, bytes => ((int? 4 bytes).bind Calendar.date?).map fun d => .text d.text
  | .time, bytes => (int? 8 bytes).map fun i =>
      .text (Calendar.timeText (i.fmod Calendar.dayLength).toNat)
  | .bytea, bytes => some (.text (bytesText bytes))
  | .numeric, _ => none
  | .unsupported _, _ => none

/-- Reads a column. A null needs no type. -/
def decode (column : String) (type : ColumnType) : Option Bytes → Result Value
  | none => .ok .null
  | some bytes =>
    match type with
    | .numeric => fail (.decimalColumn column)
    | .unsupported name => fail (.unsupportedColumn column name)
    | type =>
      match decode? type bytes with
      | some value => .ok value
      | none => fail (.undecodableColumn column type.label)

/-- The number of the type that a parameter is sent as. A null is sent as a text. -/
def typeNumber : Value → Nat
  | .null => 25
  | .int _ => 20
  | .float _ => 701
  | .text _ => 25
  | .bool _ => 16
  | .json _ => 3802

/-- The bytes of a parameter; nothing for null. -/
def encode : Value → Option Bytes
  | .null => none
  | .int i => some (Bytes.ofNat 8 i.toUInt64.toNat)
  | .float x => some (Bytes.ofNat 8 x.bits.toNat)
  | .text s => some (Bytes.ofText s)
  | .bool b => some [if b then 1 else 0]
  | .json j => some (1 :: Bytes.ofText j.render)

end NestedQuery.Wire
