/-
The top-level properties of an object. A map has every property, a bean those of its type, and a
document tree the elements at dotted paths.
-/
import RowMapper.Data.Cast
import RowMapper.Data.Content

namespace RowMapper.Store

/-! ## Content for document trees -/

/-- An element of a collection as a node; a document tree keeps its root. -/
def nodeOf (s : Store) (v : Value) : DomNode :=
  match v with
  | .object ref =>
    match s.data ref with
    | .dom node => node
    | _ => .text (s.text v)
  | v => .text (s.text v)

/-- A value as the content of an element: nothing for null, the children of a document element,
one node for each element of a list or set, and else a text. -/
def nodesOf (s : Store) (v : Value) : List DomNode :=
  match v with
  | .null => []
  | .object ref =>
    match s.data ref with
    | .dom (.element _ children) => children
    | _ => [.text (s.text v)]
  | .list items | .set items => items.map s.nodeOf
  | v => [.text (s.text v)]

/-! ## Reading and writing -/

/-- The position of a property of a bean. -/
def fieldIndex (type : BeanType) (property : String) : Except Error Nat :=
  match Table.indexOf? property type.properties with
  | some index => .ok index
  | none => .error (.configuration (.noProperty property type.name))

/-- Reads a property. What a map or a document tree does not hold is null. -/
def getProperty (s : Store) (ref : ObjectRef) (property : String) : Except Error Value :=
  match s.data ref with
  | .map entries => .ok ((Table.get? property entries).getD .null)
  | .bean type fields => do
    let index ← fieldIndex type property
    .ok (fields[index]?.getD .null)
  | .dom node =>
    .ok (match node.find? property with
      | some found => .string found.content
      | none => .null)

/-- Writes a property. A bean takes the value as one of the declared type. -/
def setProperty (s : Store) (ref : ObjectRef) (property : String) (v : Value) :
    Except Error Store :=
  match s.data ref with
  | .map entries => .ok (s.setData ref (.map (Table.put property v entries)))
  | .bean type fields => do
    let index ← fieldIndex type property
    let declared := (type.propertyType? property).getD .object
    let v ← declared.cast v
    .ok (s.setData ref (.bean type (fields.set index v)))
  | .dom node => .ok (s.setData ref (.dom (node.setContent property (s.nodesOf v))))

/-- The type that a value must have to be written to a property. -/
def setterType (s : Store) (ref : ObjectRef) (property : String) : Except Error DataType :=
  match s.data ref with
  | .bean type _ =>
    match type.propertyType? property with
    | some declared => .ok declared
    | none => .error (.configuration (.notWritable property type.name))
  | _ => .ok .object

end RowMapper.Store
