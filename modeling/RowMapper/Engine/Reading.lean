/-
Reading a row with a result map: its columns, its nested selects, and the discriminators that choose
the map. Nested result maps read as null here.
-/
import RowMapper.Engine.World

namespace RowMapper

/-- How the statement of a nested select is run: with a parameter, for a result of a type. -/
abbrev Load := String → Value → DataType → Run World Value

/-- Reads the column of a mapping. A null becomes the value of the mapping's sentinel. -/
def ResultMapping.readColumn (m : ResultMapping) : Run Frame Value := do
  match m.coercer with
  | none => Run.fail (.configuration (.noColumnCoercer m.property m.source.text))
  | some c =>
    let v ← Frame.readColumn c m.source
    match m.nullValue with
    | some text => if v.isNull then Run.ofExcept (c.valueOf text) else return v
    | none => return v

/-! ## Discriminators -/

/-- The text of the discriminating column in the current row. -/
def Discriminator.value (d : Discriminator) : Run Frame String := do
  let v ← d.mapping.readColumn
  Run.gets fun frame => frame.world.store.text v

/-- Follows discriminators from a map, never back to one of `passed`. The first argument bounds the
number of discriminators read. -/
def ResultMap.followDiscriminators (catalog : Catalog) :
    Nat → List String → ResultMap → Run Frame ResultMap
  | 0, _, m => return m
  | steps + 1, passed, m =>
    match m.discriminator with
    | none => return m
    | some d => do
      let value ← d.value
      match d.subMap? value with
      | none => return m
      | some id =>
        if id = m.id ∨ id ∈ passed then return m
        else
          let next ← Run.ofExcept (catalog.resultMap id)
          next.followDiscriminators catalog steps (m.id :: passed)

/-- The map that the current row is to be read with. No map of the catalog is passed twice. -/
def ResultMap.resolveSubMap (m : ResultMap) (catalog : Catalog) : Run Frame ResultMap :=
  m.followDiscriminators catalog (catalog.resultMaps.length + 1) []

/-! ## Parameters of nested selects -/

/-- The coercer for a type, or the one for any value. -/
def Catalog.coercerFor (c : Catalog) (type : DataType) : Coercer :=
  (c.registry.find? type none).getD Registry.unknown

/-- An object of the type with the properties read from the columns of the specifier, or the value
of a single column. -/
def ResultMapping.objectParameter (m : ResultMapping) (catalog : Catalog) (type : DataType) :
    Run Frame Value := do
  let parameter ← Frame.edit (Edit.make type.instantiate)
  match m.spec with
  | some (.composite pairs) =>
    pairs.forM fun (property, column) => do
      let declared ← Run.read fun frame : Frame =>
        catalog.accessor.setterType frame.world.store parameter property
      let v ← Frame.readColumn (catalog.coercerFor declared) (.name column)
      Frame.edit (catalog.accessor.set parameter property v)
    return parameter
  | _ => Frame.readColumn (catalog.coercerFor type) m.source

/-- A document with an element for each property of the specifier, or one element `value`. -/
def ResultMapping.domParameter (m : ResultMapping) (catalog : Catalog) : Run Frame Value := do
  let c := catalog.coercerFor .string
  let entries : List (String × Column) :=
    match m.spec with
    | some (.composite pairs) => pairs.map fun pair => (pair.1, .name pair.2)
    | _ => [("value", m.source)]
  let texts ← entries.mapM fun (property, column) => do
    let v ← Frame.readColumn c column
    let text ← Run.gets fun frame : Frame => frame.world.store.text v
    return (property, text)
  let document := texts.foldl
    (fun (node : DomNode) (entry : String × String) => node.setContent entry.1 [.text entry.2])
    (.element "parameter" [])
  Frame.edit (Edit.newObject (.dom document))

/-- The parameter of a nested select, as the parameter class of the statement wants it. -/
def ResultMapping.selectParameter (m : ResultMapping) (catalog : Catalog) (statement : Statement) :
    Run Frame Value :=
  match statement.parameterClass with
  | none => m.objectParameter catalog .map
  | some type =>
    if catalog.registry.handles type then Frame.readColumn (catalog.coercerFor type) m.source
    else if type.isDom then m.domParameter catalog
    else m.objectParameter catalog type

/-! ## Nested selects -/

/-- The type that the result of a nested select is wanted as. -/
def ResultMap.selectTarget (m : ResultMap) (mapping : ResultMapping) : Except Error DataType :=
  match m.resultClass, mapping.type with
  | none, _ => .error (.configuration (.noResultClass m.id))
  | some _, some type => .ok type
  | some .dom, none | some .domCollection, none => .ok .dom
  | some resultClass, none =>
    if resultClass.isBean then resultClass.atPath mapping.property else .ok .object

/-- A wanted type made a document type when the statement gives documents. -/
def adaptTarget (target : DataType) : Option DataType → DataType
  | some .domCollection => if target.isDom then target else .domCollection
  | some .dom => if target.isDom then target else .dom
  | _ => target

/-- Gets the result of a nested select: at once, as a lazy value, or the fixed value of the
loader. -/
def Session.loadResult (session : Session) (load : Load) (statement : String) (parameter : Value)
    (target : DataType) : Run World Value :=
  match session.catalog.loader with
  | .fixed value => do
    Run.modify fun w =>
      let parameter := w.store.content parameter
      { w with calls := w.calls ++ [{ statement, parameter, target }] }
    return value
  | .statements =>
    if session.catalog.settings.lazyLoading && target.isCollection then
      World.edit <| Edit.make fun s =>
        let (ref, s) := s.newLazy { session := session.number, statement, parameter, target }
        .ok (.lazy ref, s)
    else load statement parameter target

/-- The value of a nested select. A null parameter gives null without running the statement. -/
def ResultMap.readSelect (m : ResultMap) (session : Session) (load : Load)
    (mapping : ResultMapping) (statementId : String) : Run Frame Value := do
  let catalog := session.catalog
  let statement ← Run.ofExcept (catalog.statement statementId)
  let target ← Run.ofExcept (m.selectTarget mapping)
  let parameter ← mapping.selectParameter catalog statement
  if parameter.isNull then return .null
  let target := adaptTarget target (← Run.ofExcept (catalog.statementResultClass statement))
  let v ← Frame.onWorld (session.loadResult load statement.id parameter target)
  match mapping.nullValue with
  | some text =>
    match v.isNull, catalog.registry.find? target none with
    | true, some c => Run.ofExcept (c.valueOf text)
    | _, _ => return v
  | none => return v

/-! ## Rows -/

/-- The value of a mapping in the current row. -/
def ResultMap.readMapping (m : ResultMap) (session : Session) (load : Load)
    (mapping : ResultMapping) : Run Frame Value := do
  Frame.modifyContext fun cx => { cx with moreInfo := some mapping.hint }
  match mapping.route with
  | .nestedSelect statement => m.readSelect session load mapping statement
  | .nestedMap _ => return .null
  | .column => mapping.readColumn

/-- The values of the current row, one for each mapping. The request notes whether any is not
null. -/
def ResultMap.readRow (m : ResultMap) (session : Session) (load : Load) :
    Run Frame (List Value) := do
  Frame.modifyContext fun _ =>
    { resource := m.resource, activity := some "applying a result map", objectId := some m.id,
      moreInfo := some "Check the result map." }
  let mappings ← Run.gets (Frame.mappings · m)
  let values ← mappings.mapM (m.readMapping session load)
  Frame.modifyRequest fun r => { r with rowDataFound := values.any fun v => !v.isNull }
  return values

end RowMapper
