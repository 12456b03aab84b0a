/-
Types of host values: what a property is declared as, what a result is built as, and what a
parameter is taken as. A bean type is a name and its typed properties, in order; two bean types
are the same when they agree on the name and on the type of every property.
-/
import RowMapper.Data.Table
import RowMapper.Text.Basic

namespace RowMapper

inductive DataType where
  | bool
  | i32
  | i64
  | f64
  | string
  | bytes
  | timestamp
  /-- Any value. -/
  | object
  | map
  | bean (name : String) (properties : List (String × DataType))
  | dom
  | domCollection
  | record
  | list
  | set
  /-- Some collection; a list when one has to be made. -/
  | collection

/-- A named record type with typed properties. -/
structure BeanType where
  name : String
  properties : List (String × DataType)

namespace DataType

def name : DataType → String
  | .bool => "bool"
  | .i32 => "i32"
  | .i64 => "i64"
  | .f64 => "f64"
  | .string => "string"
  | .bytes => "bytes"
  | .timestamp => "timestamp"
  | .object => "object"
  | .map => "map"
  | .bean name _ => name
  | .dom => "dom"
  | .domCollection => "dom-collection"
  | .record => "record"
  | .list => "list"
  | .set => "set"
  | .collection => "collection"

/-- The types that their names alone determine. -/
def plain : List DataType :=
  [.bool, .i32, .i64, .f64, .string, .bytes, .timestamp, .object, .map, .dom, .domCollection,
    .record, .list, .set, .collection]

/-- The plain type of a name. -/
def ofName? (name : String) : Option DataType := plain.find? fun type => type.name == name

/-- The name of the type in conversion errors. -/
def conversionName : DataType → String
  | .bool => "bool"
  | .i32 => "i32"
  | .i64 => "i64"
  | .f64 => "f64"
  | .string => "String"
  | .bytes => "Vec<u8>"
  | .timestamp => "NaiveDateTime"
  | _ => "object"

def isScalar : DataType → Bool
  | .bool | .i32 | .i64 | .f64 | .string | .bytes | .timestamp => true
  | _ => false

def isCollection : DataType → Bool
  | .list | .set | .collection | .domCollection => true
  | _ => false

def isDom : DataType → Bool
  | .dom | .domCollection => true
  | _ => false

def isBean : DataType → Bool
  | .bean _ _ => true
  | _ => false

/-! ## Equality -/

mutual

/-- Whether two types agree. -/
def agrees : DataType → DataType → Bool
  | .bool, .bool => true
  | .i32, .i32 => true
  | .i64, .i64 => true
  | .f64, .f64 => true
  | .string, .string => true
  | .bytes, .bytes => true
  | .timestamp, .timestamp => true
  | .object, .object => true
  | .map, .map => true
  | .bean n ps, .bean m qs =>
    n == m && (agreeInOrder ps qs || ps.length == qs.length && allIn ps qs)
  | .dom, .dom => true
  | .domCollection, .domCollection => true
  | .record, .record => true
  | .list, .list => true
  | .set, .set => true
  | .collection, .collection => true
  | _, _ => false

/-- Whether two lists of properties agree one by one. -/
def agreeInOrder : List (String × DataType) → List (String × DataType) → Bool
  | [], [] => true
  | (k, type) :: rest, (l, other) :: others =>
    k == l && agrees type other && agreeInOrder rest others
  | _, _ => false

/-- Whether every property of the first list has an agreeing type in the second. -/
def allIn : List (String × DataType) → List (String × DataType) → Bool
  | [], _ => true
  | (key, type) :: rest, others =>
    (match Table.get? key others with
      | some other => agrees type other
      | none => false) && allIn rest others

end

mutual

theorem agrees_self (a : DataType) : agrees a a = true := by
  cases a with
  | bean name properties => simp [agrees, agreeInOrder_self properties]
  | _ => simp [agrees]

theorem agreeInOrder_self (ps : List (String × DataType)) : agreeInOrder ps ps = true := by
  match ps with
  | [] => simp [agreeInOrder]
  | (key, type) :: rest => simp [agreeInOrder, agrees_self type, agreeInOrder_self rest]

end

/-- Whether two types are the same. Bean types with one list of properties between them are not
gone through. -/
def same : DataType → DataType → Bool
  | .bean n ps, .bean m qs =>
    n == m && withPtrEq ps qs
      (fun _ => agreeInOrder ps qs || ps.length == qs.length && allIn ps qs)
      (fun h => by subst h; simp [agreeInOrder_self])
  | a, b => agrees a b

theorem same_eq_agrees (a b : DataType) : same a b = agrees a b := by
  cases a <;> cases b <;> simp [same, agrees, withPtrEq]

instance : BEq DataType := ⟨same⟩

end DataType

namespace BeanType

/-- The bean type as a type. -/
def type (b : BeanType) : DataType := .bean b.name b.properties

instance : BEq BeanType := ⟨fun a b => a.type == b.type⟩

/-- The declared type of a property. -/
def propertyType? (b : BeanType) (property : String) : Option DataType :=
  Table.get? property b.properties

/-- The first property whose name is the label up to case. -/
def findProperty? (b : BeanType) (label : String) : Option String :=
  (b.properties.find? fun entry => Text.sameLabel entry.1 label).map (·.1)

end BeanType

end RowMapper
