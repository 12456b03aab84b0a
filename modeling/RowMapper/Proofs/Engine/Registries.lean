/-
Requests under another registry. A request asks the registry of its catalog for coercers of no SQL type,
and whether the parameter classes of nested selects are handled. A registry that answers this in the same
way (`Catalog.ServedBy`) leaves every request as it is, whatever the state that it starts in.
-/
import RowMapper.Engine.Query
import RowMapper.Proofs.Catalog.Registries
import RowMapper.Proofs.Engine.Keeps

namespace RowMapper

/-- A registry answers what the requests of a catalog ask for as the registry of the catalog does. -/
structure Catalog.ServedBy (c : Catalog) (r : Registry) : Prop where
  coercers : ∀ type, r.find? type none = c.registry.find? type none
  parameters : ∀ {id statement type}, c.statement id = .ok statement →
    statement.parameterClass = some type → r.handles type = c.registry.handles type

/-- The session under another registry. -/
def Session.withRegistry (session : Session) (r : Registry) : Session :=
  { session with catalog := session.catalog.withRegistry r }

variable {c : Catalog} {r : Registry} {session : Session} {load : Load} {statement : Statement}

/-! ## Rows -/

namespace Catalog.ServedBy

theorem coercerFor (h : c.ServedBy r) (type : DataType) :
    (c.withRegistry r).coercerFor type = c.coercerFor type := by
  unfold Catalog.coercerFor
  rw [show (c.withRegistry r).registry.find? type none = _ from h.coercers type]

theorem objectParameter (h : c.ServedBy r) (m : ResultMapping) (type : DataType) :
    m.objectParameter (c.withRegistry r) type = m.objectParameter c type := by
  unfold ResultMapping.objectParameter
  simp only [h.coercerFor]
  rfl

theorem domParameter (h : c.ServedBy r) (m : ResultMapping) :
    m.domParameter (c.withRegistry r) = m.domParameter c := by
  unfold ResultMapping.domParameter
  rw [h.coercerFor]

theorem selectParameter (h : c.ServedBy r) (m : ResultMapping) {id : String}
    (hs : c.statement id = .ok statement) :
    m.selectParameter (c.withRegistry r) statement = m.selectParameter c statement := by
  unfold ResultMapping.selectParameter
  split
  · exact h.objectParameter m .map
  · rename_i type htype
    rw [show (c.withRegistry r).registry.handles type = _ from h.parameters hs htype, h.coercerFor,
      h.domParameter, h.objectParameter]

end Catalog.ServedBy

namespace Session

theorem readSelect_withRegistry (h : session.catalog.ServedBy r) (m : ResultMap)
    (mapping : ResultMapping) (id : String) :
    m.readSelect (session.withRegistry r) load mapping id = m.readSelect session load mapping id := by
  have hfind : ∀ type, (session.withRegistry r).catalog.registry.find? type none =
      session.catalog.registry.find? type none := h.coercers
  unfold ResultMap.readSelect
  simp only [hfind]
  refine funext fun frame => run_bind_congr rfl fun statement _ hstatement => ?_
  have hs : session.catalog.statement id = .ok statement := (run_ofExcept_eq_ok.1 hstatement).1
  refine run_bind_congr rfl fun target _ _ => ?_
  exact run_bind_congr (congrFun (h.selectParameter mapping hs) _) fun _ _ _ => rfl

theorem readMapping_withRegistry (h : session.catalog.ServedBy r) (m : ResultMap) :
    m.readMapping (session.withRegistry r) load = m.readMapping session load := by
  funext mapping
  unfold ResultMap.readMapping
  cases mapping.route with
  | nestedSelect id => 
    simp only [readSelect_withRegistry h]
  | nestedMap id => rfl
  | column => rfl

theorem readRow_withRegistry (h : session.catalog.ServedBy r) (m : ResultMap) :
    m.readRow (session.withRegistry r) load = m.readRow session load := by
  unfold ResultMap.readRow
  rw [readMapping_withRegistry h]

theorem followDiscriminators_withRegistry : ∀ (steps : Nat) (passed : List String) (m : ResultMap),
    m.followDiscriminators (c.withRegistry r) steps passed = m.followDiscriminators c steps passed
  | 0, _, _ => rfl
  | steps + 1, passed, m => by
    unfold ResultMap.followDiscriminators
    simp only [followDiscriminators_withRegistry steps]
    rfl

theorem resolveSubMap_withRegistry (m : ResultMap) :
    m.resolveSubMap (c.withRegistry r) = m.resolveSubMap c :=
  followDiscriminators_withRegistry _ [] m

/-! ## Objects -/

theorem nestedElement_withRegistry (h : session.catalog.ServedBy r) (build : Build) :
    nestedElement (session.withRegistry r) load build = nestedElement session load build := by
  funext mapping childId parent
  unfold nestedElement readElement
  simp only [readRow_withRegistry h]
  rfl

theorem assembleNested_withRegistry (h : session.catalog.ServedBy r) (build : Build) :
    assembleNested (session.withRegistry r) load build = assembleNested session load build := by
  funext m mappings parent key
  unfold assembleNested nestedElements nestedMapping
  rw [nestedElement_withRegistry h]

theorem build_withRegistry (h : session.catalog.ServedBy r) :
    ∀ depth : Nat,
      ResultMap.build (session.withRegistry r) load depth = ResultMap.build session load depth
  | 0 => rfl
  | depth + 1 => by
    funext m target values
    unfold ResultMap.build
    rw [build_withRegistry h depth, assembleNested_withRegistry h]
    rfl

/-! ## Queries -/

theorem readObject_withRegistry (h : session.catalog.ServedBy r) :
    (session.withRegistry r).readObject load = session.readObject load := by
  funext m target receive
  unfold readObject readValues
  simp only [build_withRegistry h, readRow_withRegistry h]
  rw [show m.resolveSubMap (session.withRegistry r).catalog = _ from resolveSubMap_withRegistry m]

theorem derive_withRegistry (h : c.ServedBy r) (m : ResultMap) :
    m.derive (c.withRegistry r) = m.derive c := by
  funext request
  unfold ResultMap.derive ColumnMapping.resolve ResultMapping.findCoercer
  simp only [show ∀ type, (c.withRegistry r).registry.find? type none = _ from h.coercers]

theorem openRows_withRegistry (h : session.catalog.ServedBy r) :
    (session.withRegistry r).openRows = session.openRows := by
  funext m rows
  unfold openRows ResultMap.prepareAuto
  rw [show m.derive (session.withRegistry r).catalog = _ from derive_withRegistry h m]

theorem query_withRegistry (h : session.catalog.ServedBy r) :
    (session.withRegistry r).query = session.query := by
  funext load id parameter target window receive w
  unfold query runStatement readResponse
  rw [readObject_withRegistry h, openRows_withRegistry h]
  rfl

theorem collect_withRegistry (h : session.catalog.ServedBy r) :
    (session.withRegistry r).collect = session.collect := by
  funext load id parameter target window receive
  unfold collect
  rw [query_withRegistry h]

theorem load_withRegistry (h : session.catalog.ServedBy r) :
    ∀ depth : Nat, (session.withRegistry r).load depth = session.load depth
  | 0 => rfl
  | depth + 1 => by
    funext id parameter target
    unfold load
    rw [load_withRegistry h depth, collect_withRegistry h]

theorem loader_withRegistry (h : session.catalog.ServedBy r) :
    (session.withRegistry r).loader = session.loader := load_withRegistry h nestingBound

end Session

end RowMapper
