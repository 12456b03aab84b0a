/-
From the values of a row to result objects. A row whose group key was met before in the request adds
its nested elements to the object built then and gives no new one. An object that is being assembled
is marked, so that nested result maps that come back to it stop there.
-/
import RowMapper.Engine.Reading

namespace RowMapper

/-- How the values of a row become an object of a nested map. -/
abbrev Build := ResultMap → List Value → Run Frame (Option Value)

/-! ## Collections -/

/-- A slot with its container in it, which is made for a slot that holds null. -/
def withContainer (type : DataType) (property : String) (slot : Value) : Except Error Value :=
  if slot.isNull then DataType.newCollection (some type) property else .ok slot

/-- Makes the container of a collection property. -/
def ensureContainer (type : DataType) (property : String) (_ : Store) (slot : Value) :
    Value × Except Error Unit :=
  match withContainer type property slot with
  | .ok container => (container, .ok ())
  | .error e => (slot, .error e)

/-- Adds an element to a collection property, making its container if need be. -/
def addElement (type : DataType) (property : String) (element : Value) (s : Store) (slot : Value) :
    Value × Except Error Unit :=
  match withContainer type property slot with
  | .ok container => s.grow container element
  | .error e => (slot, .error e)

/-! ## Nested elements -/

/-- An element that the current row holds for a nested mapping: its map, its values, and the type of
the collection that it goes into. -/
structure Element where
  map : ResultMap
  values : List Value
  collection : DataType

/-- The type of the collection of a nested mapping: as declared, or else that of the property. -/
def ResultMapping.collectionType (m : ResultMapping) (accessor : Accessor) (parent : Value) :
    Run Frame DataType :=
  match m.type with
  | some type => return type
  | none => Run.read fun frame => accessor.setterType frame.world.store parent m.property

/-- Reads the element that the current row holds for a nested mapping of a parent, if there is one.
The collection of the parent is there even when the row has no element for it. -/
def readElement (session : Session) (load : Load) (mapping : ResultMapping) (childId : String)
    (parent : Value) : Run Frame (Option Element) := do
  let accessor := session.catalog.accessor
  let child ← Run.ofExcept (session.catalog.resultMap childId)
  let type ← mapping.collectionType accessor parent
  Frame.edit (accessor.update parent mapping.property (ensureContainer type mapping.property))
  let values ← child.readRow session load
  let found ← Run.gets fun frame : Frame => frame.request.rowDataFound
  return if found then some { map := child, values, collection := type } else none

/-- Reads the element that the current row holds for a nested mapping, and adds it to the collection
of the parent. -/
def nestedElement (session : Session) (load : Load) (build : Build) (mapping : ResultMapping)
    (childId : String) (parent : Value) : Run Frame Unit := do
  match ← readElement session load mapping childId parent with
  | none => return ()
  | some element =>
    match ← build element.map element.values with
    | none => return ()
    | some v =>
      Frame.edit (session.catalog.accessor.update parent mapping.property
        (addElement element.collection mapping.property v))

/-- What a mapping adds to a parent: the nested element of the current row, if it nests a map. -/
def nestedMapping (session : Session) (load : Load) (build : Build) (parent : Value)
    (mapping : ResultMapping) : Run Frame Unit :=
  match mapping.route with
  | .nestedMap childId =>
    Run.mapError (fun _ e => e.remark (.nestedProperty mapping.property))
      (nestedElement session load build mapping childId parent)
  | _ => return ()

/-- Adds the nested elements of the current row to a parent, one mapping after the other. -/
def nestedElements (session : Session) (load : Load) (build : Build)
    (mappings : List ResultMapping) (parent : Value) : Run Frame Unit :=
  mappings.forM (nestedMapping session load build parent)

/-- Marks the object with a map and key as being assembled, if it has a key. -/
def Frame.mark (frame : Frame) (resultMap : String) (key : Option String) : Frame :=
  match key with
  | some key => { frame with request := frame.request.pushAssembling resultMap key }
  | none => frame

/-- Takes the newest mark away, which is that of an object with a key. -/
def Frame.unmark (frame : Frame) (key : Option String) : Frame :=
  if key.isSome then { frame with request := frame.request.popAssembling } else frame

/-- Adds the nested elements of the current row to a parent, which is marked by its map and key in
the meantime. -/
def assembleNested (session : Session) (load : Load) (build : Build) (m : ResultMap)
    (mappings : List ResultMapping) (parent : Value) (key : Option String) : Run Frame Unit :=
  if mappings.any ResultMapping.isNestedMap then do
    Run.modify (Frame.mark · m.id key)
    Run.andAfter (nestedElements session load build mappings parent) (Frame.unmark · key)
  else return ()

/-! ## Objects -/

/-- The object that the values of a row belong to. -/
structure Subject where
  object : Value
  key : Option String
  mappings : List ResultMapping
  /-- Whether it was built for these values. -/
  isNew : Bool

/-- Remembers an object by its map and key, if it has one. -/
def Frame.remember (resultMap : String) (key : Option String) (object : Value) : Run Frame Unit :=
  match key with
  | some key => Frame.modifyRequest fun r =>
    { r with identity := r.identity.insert resultMap key object }
  | none => return ()

/-- Makes a new object from the values of a row, or fills `target`, and remembers it by its key. -/
def ResultMap.buildNew (m : ResultMap) (session : Session) (mappings : List ResultMapping)
    (target : Option Value) (values : List Value) (key : Option String) : Run Frame Value := do
  let object ← Frame.edit
    (m.exchange.setData session.catalog.accessor m mappings target values)
  Frame.remember m.id key object
  return object

/-- The object that the values of the current row belong to: one built before with their key, or
else a new one. Nothing when it is being assembled. -/
def ResultMap.subject (m : ResultMap) (session : Session) (target : Option Value)
    (values : List Value) : Run Frame (Option Subject) := do
  let mappings ← Run.gets (Frame.mappings · m)
  let key ← Run.gets fun frame : Frame => m.uniqueKey frame.world.store mappings values
  let request ← Run.gets Frame.request
  if key.any (request.isAssembling m.id) then return none
  match key.bind fun key => request.identity.get? m.id key with
  | some object => return some { object, key, mappings, isNew := false }
  | none =>
    let object ← m.buildNew session mappings target values key
    return some { object, key, mappings, isNew := true }

/-- Turns the values of the current row into an object, or nothing when they belong to an object
built before. The first argument bounds the depth of nested maps. -/
def ResultMap.build (session : Session) (load : Load) :
    Nat → ResultMap → Option Value → List Value → Run Frame (Option Value)
  | 0, _, _, _ => throw .exhausted
  | depth + 1, m, target, values => do
    match ← m.subject session target values with
    | none => return none
    | some subject =>
      assembleNested session load (fun child values => build session load depth child none values) m
        subject.mappings subject.object subject.key
      return if subject.isNew then some subject.object else none

end RowMapper
