/-
Reading a value as a driver reports it: each scalar type is read from every stored form that can
stand for it. Null reads as the default of the type.
-/
import RowMapper.Calendar.Pattern
import RowMapper.Data.Value
import RowMapper.Text.Basic

namespace RowMapper.Value

/-- A truth value written as a text, as a digit or a word in any case. -/
def truthOfText? (text : String) : Option Bool :=
  if text = "1" ∨ Text.sameLabel text "true" then some true
  else if text = "0" ∨ Text.sameLabel text "false" then some false
  else none

def readBool : Value → Except Error Bool
  | .null => .ok false
  | .bool b => .ok b
  | .i32 n => .ok (n != 0)
  | .i64 n => .ok (n != 0)
  | .string s =>
    match truthOfText? (Text.trim s) with
    | some b => .ok b
    | none => .error (.unreadable s .boolean)
  | v => v.mismatch "bool"

def readI32 : Value → Except Error Int32
  | .null => .ok 0
  | .bool b => .ok (if b then 1 else 0)
  | .i32 n => .ok n
  | .i64 n =>
    match Number.narrow? n with
    | some small => .ok small
    | none => .error (.conversion .i64 "i32")
  | .f64 x => .ok x.toInt32
  | .string s => (Number.readInt32 (Text.trim s)).mapError fun fault => ⟨.integer fault, []⟩
  | v => v.mismatch "i32"

def readI64 : Value → Except Error Int64
  | .null => .ok 0
  | .bool b => .ok (if b then 1 else 0)
  | .i32 n => .ok (Number.widen n)
  | .i64 n => .ok n
  | .f64 x => .ok x.toInt64
  | .string s => (Number.readInt64 (Text.trim s)).mapError fun fault => ⟨.integer fault, []⟩
  | v => v.mismatch "i64"

def readF64 : Value → Except Error Number.Binary64
  | .null => .ok .zero
  | .i32 n => .ok (.ofInt n.toInt)
  | .i64 n => .ok (.ofInt n.toInt)
  | .f64 x => .ok x
  | .string s => (Number.readBinary64 (Text.trim s)).mapError fun fault => ⟨.decimal fault, []⟩
  | v => v.mismatch "f64"

def readString : Value → Except Error (Option String)
  | .null => .ok none
  | .string s => .ok (some s)
  | .bytes b =>
    match String.fromUTF8? b with
    | some s => .ok (some s)
    | none => .error (.conversion .bytes "String")
  | v =>
    match v.scalarText? with
    | some text => .ok (some text)
    | none => v.mismatch "String"

def readBytes : Value → Except Error (Option ByteArray)
  | .null => .ok none
  | .bytes b => .ok (some b)
  | .string s => .ok (some s.toUTF8)
  | v => v.mismatch "Vec<u8>"

/-- A timestamp, a number of seconds since 1970, or a text. -/
def readTimestamp : Value → Except Error (Option Calendar.Timestamp)
  | .null => .ok none
  | .timestamp t => .ok (some t)
  | .i64 n =>
    match Calendar.Timestamp.ofEpochSeconds n.toInt with
    | some t => .ok (some t)
    | none => .error (.conversion .i64 "NaiveDateTime")
  | .string s =>
    match Calendar.Timestamp.readStored s with
    | some t => .ok (some t)
    | none => .error (.unreadable s .timestamp)
  | v => v.mismatch "NaiveDateTime"

end RowMapper.Value
