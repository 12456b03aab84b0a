/-
The store of shared data: objects, which are maps, beans or document trees, and lazy values, which
are queries put off until they are read. A reference made by the store stays good for ever; what a
dangling reference reads as is fixed but of no importance.
-/
import RowMapper.Data.DataType
import RowMapper.Data.Dom
import RowMapper.Data.Value

namespace RowMapper

/-- What an object holds. A bean has one field for every property of its type, in order. -/
inductive ObjectData where
  | map (entries : List (String × Value))
  | bean (type : BeanType) (fields : List Value)
  | dom (node : DomNode)

/-- A query put off: the statement to run in a session, and the type its result is wanted as. -/
structure DeferredQuery where
  session : Nat
  statement : String
  parameter : Value
  target : DataType

/-- A lazy value: its query, and its value once it is loaded. -/
structure LazyCell where
  query : DeferredQuery
  loaded : Option Value := none

structure Store where
  objects : Array ObjectData := #[]
  lazies : Array LazyCell := #[]

namespace ObjectData

def kind : ObjectData → AccessorKind
  | .map _ => .map
  | .bean _ _ => .bean
  | .dom _ => .dom

/-- The host type of an object. -/
def type : ObjectData → DataType
  | .map _ => .map
  | .bean type _ => type.type
  | .dom _ => .dom

/-- A bean with every property null. -/
def newBean (type : BeanType) : ObjectData :=
  .bean type (List.replicate type.properties.length .null)

end ObjectData

namespace Store

/-! ## Objects -/

def data (s : Store) (ref : ObjectRef) : ObjectData := s.objects[ref.index]?.getD (.map [])

def setData (s : Store) (ref : ObjectRef) (data : ObjectData) : Store :=
  { s with objects := s.objects.setIfInBounds ref.index data }

/-- A new object. -/
def newObject (s : Store) (data : ObjectData) : ObjectRef × Store :=
  (⟨s.objects.size⟩, { s with objects := s.objects.push data })

/-- The document tree that an object holds. -/
def node? (s : Store) (ref : ObjectRef) : Option DomNode :=
  match s.data ref with
  | .dom node => some node
  | _ => none

def kind (s : Store) (ref : ObjectRef) : AccessorKind := (s.data ref).kind

def type (s : Store) (ref : ObjectRef) : DataType := (s.data ref).type

/-! ## Lazy values -/

def lazyCell? (s : Store) (ref : LazyRef) : Option LazyCell := s.lazies[ref.index]?

/-- The loaded value, if there is one. -/
def loaded? (s : Store) (ref : LazyRef) : Option Value := (s.lazyCell? ref).bind (·.loaded)

/-- A new lazy value, not loaded. -/
def newLazy (s : Store) (query : DeferredQuery) : LazyRef × Store :=
  (⟨s.lazies.size⟩, { s with lazies := s.lazies.push { query } })

def setLoaded (s : Store) (ref : LazyRef) (value : Value) : Store :=
  match s.lazyCell? ref with
  | some cell =>
    { s with lazies := s.lazies.setIfInBounds ref.index { cell with loaded := some value } }
  | none => s

end Store

end RowMapper
