/-
Accessors: reading and writing the property at a dotted path of an object. A write makes the
objects that are missing on the way, as the declared types say or as maps; a document tree takes
the rest of a path itself.
-/
import RowMapper.Access.Edit
import RowMapper.Access.Object

namespace RowMapper

/-- An accessor takes objects of one kind, or of any kind. -/
inductive Accessor where
  | generic
  | only (kind : AccessorKind)
  deriving DecidableEq, Repr

/-- The place of a property: an entry of a map, a field of a bean, or the content of an element,
which reads as null and to which what is written is added. -/
inductive Slot where
  | entry (ref : ObjectRef) (key : String)
  | field (ref : ObjectRef) (index : Nat)
  | content (ref : ObjectRef) (path : String)
  deriving DecidableEq, Repr

namespace Store

/-! ## Walking -/

def objectAt (v : Value) (path : String) : Except Error ObjectRef :=
  match v with
  | .object ref => .ok ref
  | v => .error (.configuration (.notAnObject path v.variant))

/-- Follows the steps to the object that owns the last of them, and gives it with the steps that
are left. A null on the way ends the walk. -/
def walk (s : Store) : ObjectRef → List String → Except Error (Option (ObjectRef × List String))
  | ref, step :: next :: steps =>
    if s.kind ref = .dom then .ok (some (ref, step :: next :: steps))
    else do
      match ← s.getProperty ref step with
      | .object child => s.walk child (next :: steps)
      | .null => .ok none
      | v => .error (.configuration (.blockedPath (Text.path (next :: steps)) step v.variant))
  | ref, steps => .ok (some (ref, steps))

/-- Makes the object that is missing at a property. -/
def makeChild (ref : ObjectRef) (step : String) : Edit ObjectRef := do
  let declared ← Edit.read (·.setterType ref step)
  let type : DataType :=
    match declared with
    | .object => .map
    | type => type
  let child ← Edit.make type.instantiate
  Edit.change (·.setProperty ref step child)
  Edit.ofExcept (objectAt child step)

/-- Follows the steps as `walk` does, making what is missing. -/
def walkMaking : ObjectRef → List String → Edit (ObjectRef × List String)
  | ref, step :: next :: steps => do
    let s ← Edit.store
    if s.kind ref = .dom then return (ref, step :: next :: steps)
    match ← Edit.read (·.getProperty ref step) with
    | .object child => walkMaking child (next :: steps)
    | .null =>
      let child ← makeChild ref step
      walkMaking child (next :: steps)
    | v =>
      throw (.configuration (.blockedPath (Text.path (next :: steps)) step v.variant))
  | ref, steps => return (ref, steps)

/-! ## Slots -/

/-- What a slot holds. -/
def slotValue (s : Store) : Slot → Value
  | .entry ref key =>
    match s.data ref with
    | .map entries => (Table.get? key entries).getD .null
    | _ => .null
  | .field ref index =>
    match s.data ref with
    | .bean _ fields => fields[index]?.getD .null
    | _ => .null
  | .content _ _ => .null

/-- Puts a value into a slot as it is. -/
def fillSlot (s : Store) (slot : Slot) (v : Value) : Store :=
  match slot with
  | .entry ref key =>
    match s.data ref with
    | .map entries => s.setData ref (.map (Table.put key v entries))
    | _ => s
  | .field ref index =>
    match s.data ref with
    | .bean type fields => s.setData ref (.bean type (fields.set index v))
    | _ => s
  | .content ref path =>
    match s.data ref with
    | .dom node => s.setData ref (.dom (node.appendContent path (s.nodesOf v)))
    | _ => s

/-- The slot of a property of an object. -/
def slotOf (s : Store) (ref : ObjectRef) (property : String) : Except Error Slot :=
  match s.data ref with
  | .map _ => .ok (.entry ref property)
  | .bean type _ => (fieldIndex type property).map (.field ref)
  | .dom _ => .ok (.content ref property)

end Store

namespace Accessor

/-- The root object, if the accessor takes it. -/
def root (accessor : Accessor) (s : Store) (v : Value) (path : String) : Except Error ObjectRef :=
  match accessor with
  | .generic => Store.objectAt v ""
  | .only kind => do
    let ref ← Store.objectAt v path
    if s.kind ref = kind then .ok ref
    else .error (.configuration (.wrongAccessor path kind (s.type ref).name))

/-- The owner of the property at a path, if it is there, with the steps that are left to it. -/
def owner? (accessor : Accessor) (s : Store) (v : Value) (path : String) :
    Except Error (Option (ObjectRef × List String)) := do
  let root ← accessor.root s v path
  s.walk root (Text.steps path)

/-- The owner of the property at a path, made if it is missing, with the steps that are left. -/
def owner (accessor : Accessor) (v : Value) (path : String) : Edit (ObjectRef × List String) := do
  let root ← Edit.read (accessor.root · v path)
  Store.walkMaking root (Text.steps path)

/-- Reads the property at a path; null behind a missing object. -/
def get (accessor : Accessor) (s : Store) (v : Value) (path : String) : Except Error Value := do
  match ← accessor.owner? s v path with
  | some (owner, rest) => s.getProperty owner (Text.path rest)
  | none => .ok .null

/-- Writes the property at a path. -/
def set (accessor : Accessor) (v : Value) (path : String) (value : Value) : Edit Unit := do
  let (owner, rest) ← accessor.owner v path
  Edit.change (·.setProperty owner (Text.path rest) value)

/-- The type that a value must have to be written at a path. Behind a missing object it may be
any. -/
def setterType (accessor : Accessor) (s : Store) (v : Value) (path : String) :
    Except Error DataType := do
  match ← accessor.owner? s v path with
  | some (owner, rest) => s.setterType owner (Text.path rest)
  | none => .ok .object

/-- The slot of the property at a path. -/
def slot (accessor : Accessor) (v : Value) (path : String) : Edit Slot := do
  let (owner, rest) ← accessor.owner v path
  Edit.read (·.slotOf owner (Text.path rest))

/-- Changes a slot in place. `f` gives its new value and whether it failed; a map or a bean keeps the
new value in either case, an element only without failure. -/
def updateSlot (f : Store → Value → Value × Except Error Unit) (slot : Slot) : Edit Unit := do
  let s ← Edit.store
  let (value, outcome) := f s (s.slotValue slot)
  match slot, outcome with
  | .content _ _, .error e => throw e
  | slot, outcome =>
    Edit.change fun s => .ok (s.fillSlot slot value)
    Edit.ofExcept outcome

/-- Changes the property at a path in place. -/
def update (accessor : Accessor) (v : Value) (path : String)
    (f : Store → Value → Value × Except Error Unit) : Edit Unit := do
  let slot ← accessor.slot v path
  updateSlot f slot

end Accessor

end RowMapper
