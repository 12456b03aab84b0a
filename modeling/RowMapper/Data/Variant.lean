/-
The variants of a value, by the names that messages give them.
-/
namespace RowMapper

inductive Variant where
  | null
  | bool
  | i32
  | i64
  | f64
  | string
  | bytes
  | timestamp
  | list
  | set
  | record
  | object
  | lazy
  deriving DecidableEq, Repr

def Variant.name : Variant → String
  | .null => "Null"
  | .bool => "Bool"
  | .i32 => "I32"
  | .i64 => "I64"
  | .f64 => "F64"
  | .string => "String"
  | .bytes => "Bytes"
  | .timestamp => "Timestamp"
  | .list => "List"
  | .set => "Set"
  | .record => "Record"
  | .object => "Object"
  | .lazy => "Lazy"

end RowMapper
