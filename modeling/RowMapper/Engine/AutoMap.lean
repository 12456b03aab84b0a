/-
Mappings derived from the columns of a row set: for a bean the columns that name a property, for a
scalar the first column, else every column. A remapping map derives them for every request, the
others when they are first read with.
-/
import RowMapper.Engine.World

namespace RowMapper

/-- A mapping of each column that the class of the results has a place for. -/
def DataType.columnMappings (resultClass : Option DataType) (columns : List String) :
    List ColumnMapping :=
  let plain : List ColumnMapping := columns.map fun column =>
    { property := column, column }
  match resultClass with
  | some (.bean name properties) =>
    columns.filterMap fun column =>
      ((BeanType.mk name properties).findProperty? column).map fun property =>
        { property, column }
  | some type =>
    if type.isScalar then
      columns.head?.toList.map fun column =>
        { property := "value", column, type := some type }
    else plain
  | none => plain

/-- The resolved mappings for the columns of the rows of a request. -/
def ResultMap.derive (m : ResultMap) (catalog : Catalog) (r : Request) :
    Except Error (List ColumnMapping) := do
  let rows ← r.rowSet
  .ok ((DataType.columnMappings m.resultClass rows.columns).map
    (ColumnMapping.resolve catalog.registry m.resultClass))

/-- Makes sure that a map without mappings of its own has them for the rows of the request. -/
def ResultMap.prepareAuto (m : ResultMap) (catalog : Catalog) : Run Frame Unit := do
  match m.mappings with
  | .declared _ => return ()
  | .auto home =>
    let frame ← Run.gets fun frame : Frame => frame
    if m.remappable then
      let mappings ← Run.ofExcept (m.derive catalog frame.request)
      Frame.updateRequest (·.remap m (mappings.map ColumnMapping.mapping))
    else if !Table.contains (home, m.id) frame.world.derived then
      let mappings ← Run.ofExcept (m.derive catalog frame.request)
      Frame.onWorld <| Run.modify fun w =>
        { w with derived := Table.put (home, m.id) mappings w.derived }

end RowMapper
