/-
Making a value fit a declared type: casts for storing into a typed property, default values, and
the containers of collection properties.
-/
import RowMapper.Data.Store

namespace RowMapper.DataType

/-- The value as one of the type. Null is of every type, integers widen and narrow when they fit,
and numbers, truth values and timestamps become strings as their text. -/
def cast (type : DataType) (v : Value) : Except Error Value :=
  match v, type with
  | .null, _ => .ok .null
  | .bool b, .bool => .ok (.bool b)
  | .i32 n, .i32 => .ok (.i32 n)
  | .i64 n, .i64 => .ok (.i64 n)
  | .f64 x, .f64 => .ok (.f64 x)
  | .string s, .string => .ok (.string s)
  | .bytes b, .bytes => .ok (.bytes b)
  | .timestamp t, .timestamp => .ok (.timestamp t)
  | .i32 n, .i64 => .ok (.i64 (Number.widen n))
  | .i64 n, .i32 =>
    match Number.narrow? n with
    | some small => .ok (.i32 small)
    | none => .error (.conversion .i64 "i32")
  | .i32 n, .f64 => .ok (.f64 (.ofInt n.toInt))
  | .i64 n, .f64 => .ok (.f64 (.ofInt n.toInt))
  | v, .string =>
    match v.scalarText? with
    | some text => .ok (.string text)
    | none => .error (.conversion v.variant "String")
  | v, type =>
    if type.isScalar then .error (.conversion v.variant type.conversionName) else .ok v

/-- The data of a new object of the type, if its values are objects. -/
def newData? : DataType → Option ObjectData
  | .object | .map => some (.map [])
  | .bean name properties => some (.newBean ⟨name, properties⟩)
  | .dom => some (.dom (.element "result" []))
  | _ => none

/-- The empty collection or record of the type, if it is one. -/
def emptyCollection? : DataType → Option Value
  | .record => some (.record [])
  | .list | .collection | .domCollection => some (.list [])
  | .set => some (.set [])
  | _ => none

/-- A default value of the type. Scalars have none. -/
def instantiate (type : DataType) (s : Store) : Except Error (Value × Store) :=
  match type.newData? with
  | some data =>
    let (ref, s) := s.newObject data
    .ok (.object ref, s)
  | none =>
    match type.emptyCollection? with
    | some value => .ok (value, s)
    | none => .error (.configuration (.notInstantiable type.name))

/-- The empty container of a collection property that is declared as `type`, or not at all. -/
def newCollection (type : Option DataType) (property : String) : Except Error Value :=
  match type with
  | none | some .object => .ok (.list [])
  | some type =>
    match type.emptyCollection? with
    | some value => .ok value
    | none => .error (.configuration (.notACollection property))

end RowMapper.DataType
