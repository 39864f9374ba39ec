/- The types of columns and of parameters, by the numbers that the server knows them by. -/

namespace NestedQuery.Wire

inductive ColumnType where
  | bool
  | bytea
  | int2
  | int4
  | int8
  | oid
  | float4
  | float8
  | text
  | name
  | varchar
  | bpchar
  | json
  | jsonb
  | uuid
  | date
  | time
  | timestamp
  | timestamptz
  | numeric
  /-- A type whose values are not read. -/
  | unsupported (name : String)
  deriving DecidableEq, Repr

/-- The names of the types whose values are not read. -/
def unsupportedNames : List (Nat × String) := [
  (18, "\"CHAR\""), (199, "JSON[]"), (600, "POINT"), (601, "LSEG"), (602, "PATH"), (603, "BOX"),
  (604, "POLYGON"), (628, "LINE"), (629, "LINE[]"), (650, "CIDR"), (651, "CIDR[]"),
  (705, "UNKNOWN"), (718, "CIRCLE"), (719, "CIRCLE[]"), (774, "MACADDR8"), (775, "MACADDR8[]"),
  (790, "MONEY"), (791, "MONEY[]"), (829, "MACADDR"), (869, "INET"), (1000, "BOOL[]"),
  (1001, "BYTEA[]"), (1002, "\"CHAR\"[]"), (1003, "NAME[]"), (1005, "INT2[]"), (1007, "INT4[]"),
  (1009, "TEXT[]"), (1014, "CHAR[]"), (1015, "VARCHAR[]"), (1016, "INT8[]"), (1017, "POINT[]"),
  (1018, "LSEG[]"), (1019, "PATH[]"), (1020, "BOX[]"), (1021, "FLOAT4[]"), (1022, "FLOAT8[]"),
  (1027, "POLYGON[]"), (1028, "OID[]"), (1040, "MACADDR[]"), (1041, "INET[]"),
  (1115, "TIMESTAMP[]"), (1182, "DATE[]"), (1183, "TIME[]"), (1185, "TIMESTAMPTZ[]"),
  (1186, "INTERVAL"), (1187, "INTERVAL[]"), (1231, "NUMERIC[]"), (1266, "TIMETZ"),
  (1270, "TIMETZ[]"), (1560, "BIT"), (1561, "BIT[]"), (1562, "VARBIT"), (1563, "VARBIT[]"),
  (2249, "RECORD"), (2278, "VOID"), (2287, "RECORD[]"), (2951, "UUID[]"), (3807, "JSONB[]"),
  (3904, "INT4RANGE"), (3905, "INT4RANGE[]"), (3906, "NUMRANGE"), (3907, "NUMRANGE[]"),
  (3908, "TSRANGE"), (3909, "TSRANGE[]"), (3910, "TSTZRANGE"), (3911, "TSTZRANGE[]"),
  (3912, "DATERANGE"), (3913, "DATERANGE[]"), (3926, "INT8RANGE"), (3927, "INT8RANGE[]"),
  (4072, "JSONPATH"), (4073, "JSONPATH[]")]

namespace ColumnType

def ofNumber (n : Nat) : ColumnType :=
  match n with
  | 16 => .bool
  | 17 => .bytea
  | 19 => .name
  | 20 => .int8
  | 21 => .int2
  | 23 => .int4
  | 25 => .text
  | 26 => .oid
  | 114 => .json
  | 700 => .float4
  | 701 => .float8
  | 1042 => .bpchar
  | 1043 => .varchar
  | 1082 => .date
  | 1083 => .time
  | 1114 => .timestamp
  | 1184 => .timestamptz
  | 1700 => .numeric
  | 2950 => .uuid
  | 3802 => .jsonb
  | n => .unsupported ((unsupportedNames.lookup n).getD "?")

def label : ColumnType → String
  | .bool => "BOOL"
  | .bytea => "BYTEA"
  | .int2 => "INT2"
  | .int4 => "INT4"
  | .int8 => "INT8"
  | .oid => "OID"
  | .float4 => "FLOAT4"
  | .float8 => "FLOAT8"
  | .text => "TEXT"
  | .name => "NAME"
  | .varchar => "VARCHAR"
  | .bpchar => "CHAR"
  | .json => "JSON"
  | .jsonb => "JSONB"
  | .uuid => "UUID"
  | .date => "DATE"
  | .time => "TIME"
  | .timestamp => "TIMESTAMP"
  | .timestamptz => "TIMESTAMPTZ"
  | .numeric => "NUMERIC"
  | .unsupported label => label

end ColumnType
end NestedQuery.Wire
