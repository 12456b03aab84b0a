/-
Building a catalog: ids must be distinct, statements with a result class alone get a map derived
from their columns, references are qualified, mappings are resolved, and the whole is verified.
Result maps may nest each other in a cycle only if every map on it groups its rows.
-/
import RowMapper.Catalog.Cycle
import RowMapper.Catalog.Qualify

namespace RowMapper

/-- What a catalog is built from. -/
structure CatalogPlan where
  resultMaps : List ResultMap := []
  statements : List Statement := []
  registry : Registry := .builtin
  accessor : Accessor := .generic
  loader : Loader := .statements
  settings : Settings := {}

namespace Catalog

/-! ## Ids -/

/-- The items by their ids, which must be distinct. -/
def indexById {α : Type} (item : CatalogItem) (id : α → String) :
    List α → List (String × α) → Except Error (List (String × α))
  | [], indexed => .ok indexed
  | a :: rest, indexed =>
    if Table.contains (id a) indexed then .error (.configuration (.duplicate item (id a)))
    else indexById item id rest (indexed ++ [(id a, a)])

/-- The id of the map derived for a statement. -/
def autoMapId (statement : String) : String := statement ++ "-AutoResultMap"

/-- Gives a map to every statement that has a result class and no map. The new maps follow the
others. -/
def addAutoMaps : List (String × Statement) → List (String × ResultMap) →
    Except Error (List (String × Statement) × List (String × ResultMap))
  | [], maps => .ok ([], maps)
  | (key, s) :: rest, maps =>
    match s.resultMap, s.resultClass with
    | none, some resultClass =>
      let id := autoMapId s.id
      if Table.contains id maps then .error (.configuration (.duplicate .resultMap id))
      else do
        let auto := ResultMap.auto id resultClass s.remapResults
        let (statements, maps) ← addAutoMaps rest (maps ++ [(id, auto)])
        .ok ((key, { s with resultMap := some id }) :: statements, maps)
    | _, _ => do
      let (statements, maps) ← addAutoMaps rest maps
      .ok ((key, s) :: statements, maps)

/-! ## Resolving -/

def resolveMap (registry : Registry) (m : ResultMap) : Except Error ResultMap :=
  (m.modifyMappings (ResultMapping.resolve registry m.resultClass)).mapError
    (·.remark (.invalidResultMap m.id))

def resolveStatement (registry : Registry) (s : Statement) : Except Error Statement :=
  match s.parameterMap with
  | some parameterMap =>
    match parameterMap.resolve registry s.parameterClass with
    | .ok resolved => .ok { s with parameterMap := some resolved }
    | .error e => .error (e.remark (.invalidStatement s.id))
  | none => .ok s

/-! ## Verifying -/

/-- Whether the reference of a mapping names something. -/
def verifyRoute (c : Catalog) : Route → Except Error Unit
  | .column => .ok ()
  | .nestedMap id => (c.resultMap id).map fun _ => ()
  | .nestedSelect id => (c.statement id).map fun _ => ()

/-- Whether all references of a result map name something. -/
def verifyReferences (c : Catalog) (m : ResultMap) : Except Error Unit := do
  m.declared.forM fun mapping => c.verifyRoute mapping.route
  match m.discriminator with
  | some d => d.subMaps.forM fun sub => (c.resultMap sub.2).map fun _ => ()
  | none => .ok ()

/-- The position in the catalog of the map that a mapping nests. -/
def nestedPosition? (c : Catalog) (mapping : ResultMapping) : Option Nat :=
  match mapping.route with
  | .nestedMap id => Table.indexOf? id c.resultMaps
  | _ => none

/-- The graph of nested result maps, by position in the catalog. -/
def nestingEdges (c : Catalog) : Graph.Edges :=
  c.resultMaps.map fun entry => entry.2.declared.filterMap c.nestedPosition?

/-- Refuses a cycle of maps with one that does not group. -/
def verifyCycle (c : Catalog) (component : List Nat) : Except Error Unit :=
  let maps := component.filterMap (c.resultMaps[·]?)
  match maps.find? (·.2.groupBy.isEmpty) with
  | some (ungrouped, _) =>
    .error (.configuration (.ungroupedCycle (maps.map (·.1)) ungrouped))
  | none => .ok ()

def verify (c : Catalog) : Except Error Unit := do
  c.resultMaps.forM fun entry => c.verifyReferences entry.2
  c.statements.forM fun entry => (c.statementResultMap entry.2).map fun _ => ()
  (Graph.cycles c.nestingEdges).forM c.verifyCycle

/-! ## Building -/

/-- Applies a function to every value of a table. -/
def mapValues {α β : Type} (f : α → Except Error β) (table : List (String × α)) :
    Except Error (List (String × β)) :=
  table.mapM fun (key, a) => (f a).map (key, ·)

/-- The catalog of a plan, with its references qualified and its mappings resolved, not verified. -/
def assemble (plan : CatalogPlan) : Except Error Catalog := do
  let maps ← indexById .resultMap ResultMap.id plan.resultMaps []
  let statements ← indexById .statement Statement.id plan.statements []
  let (statements, maps) ← addAutoMaps statements maps
  let mapIds := maps.map (·.1)
  let statementIds := statements.map (·.1)
  let qualified := plan.settings.namespaces
  let maps :=
    if qualified then maps.map fun (id, m) => (id, m.qualify mapIds statementIds) else maps
  let statements :=
    if qualified then statements.map fun (id, s) => (id, s.qualify mapIds) else statements
  let maps ← mapValues (resolveMap plan.registry) maps
  let statements ← mapValues (resolveStatement plan.registry) statements
  .ok
    { resultMaps := maps, statements, registry := plan.registry, accessor := plan.accessor,
      loader := plan.loader, settings := plan.settings }

/-- Builds and verifies a catalog. -/
def build (plan : CatalogPlan) : Except Error Catalog := do
  let catalog ← assemble plan
  catalog.verify
  .ok catalog

end Catalog

end RowMapper
