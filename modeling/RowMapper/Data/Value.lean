/-
Host values: what a column is read as and what result maps build. Objects and lazy values are
references into a store, so that all holders of one see its changes.
-/
import RowMapper.Calendar.Timestamp
import RowMapper.Data.Variant
import RowMapper.Error.Chain
import RowMapper.Number.Shortest

namespace RowMapper

/-- A reference to an object of the store. -/
structure ObjectRef where
  index : Nat
  deriving DecidableEq, Repr

/-- A reference to a lazy value of the store. -/
structure LazyRef where
  index : Nat
  deriving DecidableEq, Repr

inductive Value where
  | null
  | bool (b : Bool)
  | i32 (n : Int32)
  | i64 (n : Int64)
  | f64 (x : Number.Binary64)
  | string (s : String)
  | bytes (b : ByteArray)
  | timestamp (t : Calendar.Timestamp)
  | list (items : List Value)
  /-- Distinct values in the order of their insertion. -/
  | set (items : List Value)
  /-- Values at fixed positions. -/
  | record (fields : List Value)
  | object (ref : ObjectRef)
  | lazy (ref : LazyRef)
  deriving Inhabited

namespace Value

def variant : Value → Variant
  | .null => .null
  | .bool _ => .bool
  | .i32 _ => .i32
  | .i64 _ => .i64
  | .f64 _ => .f64
  | .string _ => .string
  | .bytes _ => .bytes
  | .timestamp _ => .timestamp
  | .list _ => .list
  | .set _ => .set
  | .record _ => .record
  | .object _ => .object
  | .lazy _ => .lazy

def isNull : Value → Bool
  | .null => true
  | _ => false

def isObject : Value → Bool
  | .object _ => true
  | _ => false

def isLazy : Value → Bool
  | .lazy _ => true
  | _ => false

def isCollection : Value → Bool
  | .list _ | .set _ => true
  | _ => false

def object? : Value → Option ObjectRef
  | .object ref => some ref
  | _ => none

def string? : Value → Option String
  | .string s => some s
  | _ => none

def list? : Value → Option (List Value)
  | .list items => some items
  | _ => none

def set? : Value → Option (List Value)
  | .set items => some items
  | _ => none

/-- The elements of a list, a set or a record. -/
def elements? : Value → Option (List Value)
  | .list items | .set items | .record items => some items
  | _ => none

def length? (v : Value) : Option Nat := v.elements?.map List.length

/-! ## Text of scalars -/

def bytesText (b : ByteArray) : String :=
  "[" ++ String.intercalate ", " (b.toList.map fun byte => toString byte.toNat) ++ "]"

/-- The text of a number, a truth value or a timestamp. -/
def scalarText? : Value → Option String
  | .bool b => some (if b then "true" else "false")
  | .i32 n => some (toString n.toInt)
  | .i64 n => some (toString n.toInt)
  | .f64 x => some x.text
  | .timestamp t => some t.text
  | _ => none

/-! ## Exact reading -/

def mismatch {α : Type} (v : Value) (target : String) : Except Error α :=
  .error (.conversion v.variant target)

def asBool : Value → Except Error Bool
  | .bool b => .ok b
  | v => v.mismatch "bool"

def asI32 : Value → Except Error Int32
  | .i32 n => .ok n
  | v => v.mismatch "i32"

def asI64 : Value → Except Error Int64
  | .i64 n => .ok n
  | v => v.mismatch "i64"

def asF64 : Value → Except Error Number.Binary64
  | .f64 x => .ok x
  | v => v.mismatch "f64"

def asString : Value → Except Error String
  | .string s => .ok s
  | v => v.mismatch "String"

def asBytes : Value → Except Error ByteArray
  | .bytes b => .ok b
  | v => v.mismatch "Vec<u8>"

def asTimestamp : Value → Except Error Calendar.Timestamp
  | .timestamp t => .ok t
  | v => v.mismatch "NaiveDateTime"

end Value

end RowMapper
