/-
Exchanges: moving mapped values into a result of one kind, and the values of parameter mappings out
of a parameter. Values of nested result maps are left out; they are assembled elsewhere.
-/
import RowMapper.Access.Accessor
import RowMapper.Mapping.ResultMap

namespace RowMapper

inductive Exchange where
  | map
  | bean
  | dom
  | record
  | scalar
  deriving DecidableEq, Repr

namespace Exchange

/-- The exchange for results of a type. Results without a type are maps. -/
def ofType : Option DataType → Exchange
  | none | some .object | some .map => .map
  | some (.bean _ _) => .bean
  | some .dom | some .domCollection => .dom
  | some .record | some .list | some .set | some .collection => .record
  | some _ => .scalar

/-- The exchange that reads the properties of a parameter. -/
def ofValue (s : Store) : Value → Exchange
  | .object ref =>
    match s.kind ref with
    | .map => .map
    | .bean => .bean
    | .dom => .dom
  | .record _ | .list _ => .record
  | _ => .scalar

/-- The mappings with their values, nested result maps left out. -/
def assignable (mappings : List ResultMapping) (values : List Value) :
    List (ResultMapping × Value) :=
  (mappings.zip values).filter fun pair => !pair.1.isNestedMap

/-! ## Results -/

/-- A new object for the results of a map. -/
def newTarget (exchange : Exchange) (resultMap : ResultMap) : Edit Value :=
  match exchange, resultMap.resultClass with
  | .bean, some (.bean name properties) => Edit.make (DataType.bean name properties).instantiate
  | .bean, _ => throw (.configuration (.noBeanClass resultMap.id))
  | .dom, _ => Edit.newObject (.dom (.element (resultMap.xmlName.getD "result") []))
  | _, _ => Edit.newObject (.map [])

/-- Writes the values into a map object by the properties as they are. -/
def fillMap (resultMap : ResultMap) (target : Value) (pairs : List (ResultMapping × Value)) :
    Edit Unit := do
  let s ← Edit.store
  let refused : Error := .configuration (.notAMap resultMap.id target.variant)
  match target with
  | .object ref =>
    if s.kind ref = .map then
      pairs.forM fun pair => Edit.change (·.setProperty ref pair.1.property pair.2)
    else throw refused
  | _ => throw refused

/-- Writes the values into an object: a map takes the properties as they are, and a document only
what is not null. -/
def fill (exchange : Exchange) (accessor : Accessor) (resultMap : ResultMap) (target : Value)
    (pairs : List (ResultMapping × Value)) : Edit Unit :=
  match exchange with
  | .bean => pairs.forM fun pair => accessor.set target pair.1.property pair.2
  | .dom =>
    pairs.forM fun pair =>
      if pair.2.isNull then pure () else accessor.set target pair.1.property pair.2
  | _ => fillMap resultMap target pairs

/-- Builds a result from the values of a row, or fills `target` with them. -/
def setData (exchange : Exchange) (accessor : Accessor) (resultMap : ResultMap)
    (mappings : List ResultMapping) (target : Option Value) (values : List Value) : Edit Value :=
  let pairs := assignable mappings values
  match exchange with
  | .record => pure (.record (pairs.map (·.2)))
  | .scalar => pure (values.head?.getD .null)
  | _ => do
    let target ← match target with
      | some target => pure target
      | none => exchange.newTarget resultMap
    exchange.fill accessor resultMap target pairs
    return target

/-! ## Parameters -/

/-- Reads the value of each property from a parameter. The elements of a record or list are taken
by position; a scalar is the value of every property. -/
def getData (exchange : Exchange) (accessor : Accessor) (s : Store) (properties : List String)
    (parameter : Value) : Except Error (List Value) :=
  match exchange with
  | .map | .bean | .dom => properties.mapM (accessor.get s parameter)
  | .record =>
    let items := match parameter with
      | .record fields => fields
      | .list items => items
      | _ => []
    .ok ((List.range properties.length).map fun index => items[index]?.getD .null)
  | .scalar => .ok (properties.map fun _ => parameter)

end Exchange

/-- The exchange of a result map, by its class. -/
def ResultMap.exchange (m : ResultMap) : Exchange := .ofType m.resultClass

end RowMapper
