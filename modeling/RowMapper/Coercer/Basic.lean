/-
Coercers: between one column type and one host type. A coercer binds a value as a parameter, reads
a stored value, null for null and never the default of its type, and reads the text of a null
sentinel.
-/
import RowMapper.Data.Cast
import RowMapper.Data.Stored
import RowMapper.Rows.OutParams
import RowMapper.Rows.RowSet

namespace RowMapper

/-- The coercers by the type they produce. The coercer `object` leaves values as they are. -/
inductive Coercer where
  | bool
  | i32
  | i64
  | f64
  | string
  | bytes
  | timestamp
  | object
  deriving DecidableEq, Repr

namespace Coercer

/-- The host type that a coercer produces. -/
def type : Coercer → DataType
  | .bool => .bool
  | .i32 => .i32
  | .i64 => .i64
  | .f64 => .f64
  | .string => .string
  | .bytes => .bytes
  | .timestamp => .timestamp
  | .object => .object

/-- All coercers. -/
def all : List Coercer := [.bool, .i32, .i64, .f64, .string, .bytes, .timestamp, .object]

/-- A stored value read as one of the host type, where null reads as the default of the type. -/
def readDefault (c : Coercer) (v : Value) : Except Error Value :=
  match c with
  | .bool => v.readBool.map .bool
  | .i32 => v.readI32.map .i32
  | .i64 => v.readI64.map .i64
  | .f64 => v.readF64.map .f64
  | .string => v.readString.map fun s => (s.map .string).getD .null
  | .bytes => v.readBytes.map fun b => (b.map .bytes).getD .null
  | .timestamp => v.readTimestamp.map fun t => (t.map .timestamp).getD .null
  | .object => .ok v

/-- A stored value as one of the host type; null stays null. -/
def ofStored (c : Coercer) (v : Value) : Except Error Value :=
  if v.isNull then .ok .null else c.readDefault v

/-- The value itself, which must already be of the host type. -/
def exact (c : Coercer) (v : Value) : Except Error Value :=
  match c with
  | .bool => v.asBool.map .bool
  | .i32 => v.asI32.map .i32
  | .i64 => v.asI64.map .i64
  | .f64 => v.asF64.map .f64
  | .string => v.asString.map .string
  | .bytes => v.asBytes.map .bytes
  | .timestamp => v.asTimestamp.map .timestamp
  | .object => .ok v

/-- Reads a column of the current row. -/
def readColumn (c : Coercer) (rs : RowSet) (column : Column) : Except Error Value × RowSet :=
  let (outcome, rs) := rs.read column
  (outcome.bind c.ofStored, rs)

/-- Reads an output parameter. -/
def readOutput (c : Coercer) (out : OutParams) (index : Nat) : Except Error Value × OutParams :=
  let (outcome, out) := out.read index
  (outcome.bind c.ofStored, out)

/-- Binds a value at a position. Null is bound with the SQL type it stands for. -/
def bind (c : Coercer) (params : Params) (index : Nat) (v : Value) (sqlType : Option String) :
    Except Error Params :=
  if v.isNull then .ok (params.setNull index sqlType)
  else (c.type.cast v).map (params.set index)

/-- Reads the text of a value, as null sentinels give it. -/
def valueOf (c : Coercer) (text : String) : Except Error Value :=
  match c with
  | .bool => (Value.string text).readBool.map .bool
  | .i32 =>
    ((Number.readInt32 (Text.trim text)).map .i32).mapError fun _ => .unreadable text .i32
  | .i64 =>
    ((Number.readInt64 (Text.trim text)).map .i64).mapError fun _ => .unreadable text .i64
  | .f64 =>
    ((Number.readBinary64 (Text.trim text)).map .f64).mapError fun _ => .unreadable text .f64
  | .string => .ok (.string text)
  | .bytes => .ok (.bytes text.toUTF8)
  | .timestamp =>
    ((Calendar.Timestamp.read Calendar.slashPattern text).map .timestamp).mapError
      fun _ => .unreadable text .nullDate
  | .object => .ok (.string text)

end Coercer

end RowMapper
