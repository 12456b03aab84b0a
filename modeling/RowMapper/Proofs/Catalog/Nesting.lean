/-
The check of a catalog for cycles of nested result maps. It is a check of a graph on the positions
of the maps; a path of that graph is a path of maps that nest each other (`Catalog.Nests`), so that
a catalog whose references all name something is refused exactly when a map without group-by comes
back to itself.
-/
import RowMapper.Proofs.Catalog.Index
import RowMapper.Proofs.Graph.Components

namespace RowMapper

open Relation

namespace Catalog

variable {c : Catalog}

/-! ## Nested maps -/

/-- The map with id `a` nests the map with id `b`. -/
def Nests (c : Catalog) (a b : String) : Prop :=
  ∃ m, c.resultMap a = .ok m ∧ ∃ mapping ∈ m.declared, mapping.route = .nestedMap b

/-- The reference of a mapping names something. -/
def Names (c : Catalog) : Route → Prop
  | .column => True
  | .nestedMap id => ∃ m, c.resultMap id = .ok m
  | .nestedSelect id => ∃ s, c.statement id = .ok s

/-- All references of a catalog name something. -/
structure Resolved (c : Catalog) : Prop where
  routes : ∀ entry ∈ c.resultMaps, ∀ mapping ∈ entry.2.declared, c.Names mapping.route
  subMaps : ∀ entry ∈ c.resultMaps, ∀ d, entry.2.discriminator = some d →
    ∀ sub ∈ d.subMaps, ∃ m, c.resultMap sub.2 = .ok m
  statements : ∀ entry ∈ c.statements, ∀ id, entry.2.resultMap = some id →
    ∃ m, c.resultMap id = .ok m

theorem resultMap_ok_iff {id : String} {m : ResultMap} :
    c.resultMap id = .ok m ↔ Table.get? id c.resultMaps = some m := by
  unfold resultMap
  cases Table.get? id c.resultMaps <;> simp

/-- A map of a catalog stands there under its own id. -/
theorem resultMap_id {id : String} {m : ResultMap} (hi : Table.Indexed ResultMap.id c.resultMaps)
    (h : c.resultMap id = .ok m) : m.id = id :=
  (hi.own _ (Table.mem_of_get? (resultMap_ok_iff.1 h))).symm

/-- The map that the rows of a statement are read with is one of the catalog. -/
theorem resultMap_of_statement {statement : Statement} {m : ResultMap}
    (h : c.statementResultMap statement = .ok (some m)) : ∃ id, c.resultMap id = .ok m := by
  unfold statementResultMap at h
  split at h
  · rename_i id _
    obtain ⟨n, hn, heq⟩ := Except.map_eq_ok_iff.1 h
    cases heq
    exact ⟨id, hn⟩
  · cases h

theorem statement_ok_iff {id : String} {statement : Statement} :
    c.statement id = .ok statement ↔ Table.get? id c.statements = some statement := by
  unfold Catalog.statement
  cases Table.get? id c.statements <;> simp

/-- A statement of a catalog stands there under its own id. -/
theorem statement_id {id : String} {statement : Statement}
    (hi : Table.Indexed Statement.id c.statements) (h : c.statement id = .ok statement) :
    statement.id = id :=
  (hi.own _ (Table.mem_of_get? (statement_ok_iff.1 h))).symm

theorem verifyRoute_ok_iff (route : Route) : c.verifyRoute route = .ok () ↔ c.Names route := by
  cases route with
  | column => exact ⟨fun _ => trivial, fun _ => rfl⟩
  | nestedMap id => exact Except.map_eq_ok_iff.trans ⟨fun ⟨m, h, _⟩ => ⟨m, h⟩, fun ⟨m, h⟩ => ⟨m, h, rfl⟩⟩
  | nestedSelect id => exact Except.map_eq_ok_iff.trans ⟨fun ⟨m, h, _⟩ => ⟨m, h⟩, fun ⟨m, h⟩ => ⟨m, h, rfl⟩⟩

/-- A catalog whose references all name something passes every check but that for cycles. -/
theorem Resolved.verify_eq (h : c.Resolved) :
    c.verify = (Graph.cycles c.nestingEdges).forM c.verifyCycle := by
  have hmaps : (c.resultMaps.forM fun entry => c.verifyReferences entry.2) = .ok () := by
    refine Except.forM_ok_iff.2 fun entry he => ?_
    unfold verifyReferences
    refine Except.bind_eq_ok_iff.2 ⟨(), ?_, ?_⟩
    · exact Except.forM_ok_iff.2 fun mapping hm => (verifyRoute_ok_iff _).2 (h.routes entry he mapping hm)
    · split
      · rename_i d hd
        refine Except.forM_ok_iff.2 fun sub hsub => ?_
        obtain ⟨m, hm⟩ := h.subMaps entry he d hd sub hsub
        exact Except.map_eq_ok_iff.2 ⟨m, hm, rfl⟩
      · rfl
  have hstatements :
      (c.statements.forM fun entry => (c.statementResultMap entry.2).map fun _ => ()) = .ok () := by
    refine Except.forM_ok_iff.2 fun entry he => ?_
    unfold statementResultMap
    cases hs : entry.2.resultMap with
    | none => rfl
    | some id =>
      obtain ⟨m, hm⟩ := h.statements entry he id hs
      simp only [hm]
      rfl
  unfold verify
  rw [hmaps]
  show (do c.statements.forM _; (Graph.cycles c.nestingEdges).forM c.verifyCycle) = _
  rw [hstatements]
  rfl

/-! ## Positions -/

/-- The id of the map at a position. -/
def idAt (c : Catalog) (i : Nat) : String := (c.resultMaps[i]?.map (·.1)).getD ""

/-- The position of the map with an id. -/
def position (c : Catalog) (id : String) : Nat := (Table.indexOf? id c.resultMaps).getD 0

section Positions

variable (hi : Table.Indexed ResultMap.id c.resultMaps)

theorem idAt_of_getElem? {i : Nat} {id : String} {m : ResultMap}
    (h : c.resultMaps[i]? = some (id, m)) : c.idAt i = id := by
  unfold idAt; rw [h]; rfl

theorem inRange_nestingEdges : Graph.InRange c.nestingEdges := by
  intro targets ht node hn
  obtain ⟨entry, -, rfl⟩ := List.mem_map.1 ht
  obtain ⟨mapping, -, hm⟩ := List.mem_filterMap.1 hn
  unfold nestedPosition? at hm
  have hlen : c.nestingEdges.length = c.resultMaps.length := List.length_map _
  rw [hlen]
  split at hm
  · exact (List.findIdx?_eq_some_iff_getElem.1 hm).1
  · cases hm

include hi

theorem edge_nesting_iff {i j : Nat} {id : String} {m : ResultMap}
    (hm : c.resultMaps[i]? = some (id, m)) :
    Graph.Edge c.nestingEdges i j ↔
      ∃ target n, c.resultMaps[j]? = some (target, n) ∧
        ∃ mapping ∈ m.declared, mapping.route = .nestedMap target := by
  have hs : Graph.successors c.nestingEdges i = m.declared.filterMap c.nestedPosition? := by
    unfold Graph.successors nestingEdges
    rw [List.getElem?_map, hm]
    rfl
  unfold Graph.Edge
  rw [hs, List.mem_filterMap]
  constructor
  · rintro ⟨mapping, hmem, h⟩
    unfold nestedPosition? at h
    split at h
    · rename_i target hroute
      obtain ⟨n, hn⟩ := (Table.indexOf?_eq_some_iff hi.nodup).1 h
      exact ⟨target, n, hn, mapping, hmem, hroute⟩
    · cases h
  · rintro ⟨target, n, hn, mapping, hmem, hroute⟩
    refine ⟨mapping, hmem, ?_⟩
    unfold nestedPosition?
    rw [hroute]
    exact (Table.indexOf?_eq_some_iff hi.nodup).2 ⟨n, hn⟩

/-- An edge leads from the map at a position to a map that it nests. -/
theorem nests_of_edge {i j : Nat} (h : Graph.Edge c.nestingEdges i j) :
    c.Nests (c.idAt i) (c.idAt j) := by
  cases hm : c.resultMaps[i]? with
  | none =>
    unfold Graph.Edge Graph.successors nestingEdges at h
    rw [List.getElem?_map, hm] at h
    cases h
  | some entry =>
    obtain ⟨id, m⟩ := entry
    obtain ⟨target, n, hn, mapping, hmem, hroute⟩ := (edge_nesting_iff hi hm).1 h
    rw [idAt_of_getElem? hm, idAt_of_getElem? hn]
    exact ⟨m, resultMap_ok_iff.2 (hi.get?_eq_some_iff.2 (List.mem_of_getElem? hm)), mapping, hmem, hroute⟩

theorem getElem?_position {id : String} {m : ResultMap} (h : c.resultMap id = .ok m) :
    c.resultMaps[c.position id]? = some (id, m) := by
  obtain ⟨i, hlt, he⟩ := List.mem_iff_getElem.1 (Table.mem_of_get? (resultMap_ok_iff.1 h))
  have hget : c.resultMaps[i]? = some (id, m) := List.getElem?_eq_some_iff.2 ⟨hlt, he⟩
  unfold position
  rw [(Table.indexOf?_eq_some_iff hi.nodup).2 ⟨m, hget⟩]
  exact hget

/-- There is an edge to the position of a map from that of a map that nests it. -/
theorem edge_of_nests (hr : c.Resolved) {a b : String} (h : c.Nests a b) :
    Graph.Edge c.nestingEdges (c.position a) (c.position b) := by
  obtain ⟨m, hm, mapping, hmem, hroute⟩ := h
  have hn := hr.routes _ (Table.mem_of_get? (resultMap_ok_iff.1 hm)) mapping hmem
  rw [hroute] at hn
  obtain ⟨n, hn⟩ := hn
  exact (edge_nesting_iff hi (getElem?_position hi hm)).2
    ⟨b, n, getElem?_position hi hn, mapping, hmem, hroute⟩

/-- A path of the graph is a path of maps that nest each other. -/
theorem cycle_iff_nests (hr : c.Resolved) {id : String} {m : ResultMap} (hm : c.resultMap id = .ok m) :
    TransGen (Graph.Edge c.nestingEdges) (c.position id) (c.position id) ↔ TransGen c.Nests id id := by
  constructor
  · intro h
    have : TransGen c.Nests (c.idAt (c.position id)) (c.idAt (c.position id)) :=
      h.lift c.idAt fun _ _ => nests_of_edge hi
    rwa [idAt_of_getElem? (getElem?_position hi hm)] at this
  · exact fun h => h.lift c.position fun _ _ => edge_of_nests hi hr

end Positions

/-! ## The check -/

/-- A cycle is refused exactly when a map on it has no group-by. -/
theorem verifyCycle_cases (component : List Nat) :
    (c.verifyCycle component = .ok () ∧
      ∀ i ∈ component, ∀ entry, c.resultMaps[i]? = some entry → entry.2.groupBy ≠ []) ∨
    (∃ cycle ungrouped,
      c.verifyCycle component = .error (.configuration (.ungroupedCycle cycle ungrouped))) ∧
      ∃ i ∈ component, ∃ entry, c.resultMaps[i]? = some entry ∧ entry.2.groupBy = [] := by
  unfold verifyCycle
  cases h : (component.filterMap (c.resultMaps[·]?)).find? (·.2.groupBy.isEmpty) with
  | none =>
    refine .inl ⟨by simp only [h], fun i hi entry he hg => ?_⟩
    have := List.find?_eq_none.1 h entry (List.mem_filterMap.2 ⟨i, hi, he⟩)
    simp [hg] at this
  | some entry =>
    obtain ⟨i, hi, he⟩ := List.mem_filterMap.1 (List.mem_of_find?_eq_some h)
    refine .inr ⟨⟨_, _, by simp only [h]; rfl⟩, i, hi, entry, he, ?_⟩
    simpa using List.find?_some h

/-- Some map without group-by comes back to itself. -/
def UngroupedCycle (c : Catalog) : Prop :=
  ∃ id m, c.resultMap id = .ok m ∧ m.groupBy = [] ∧ TransGen c.Nests id id

/-- A node of a cyclic component is the position of a map that comes back to itself, and every such
position is in one. -/
theorem ungrouped_iff (hi : Table.Indexed ResultMap.id c.resultMaps) (hr : c.Resolved) :
    c.UngroupedCycle ↔ ∃ component ∈ Graph.cycles c.nestingEdges, ∃ i ∈ component,
      ∃ entry, c.resultMaps[i]? = some entry ∧ entry.2.groupBy = [] := by
  obtain ⟨components, hc, -, hmem⟩ := Graph.components?_spec (inRange_nestingEdges (c := c))
  have hcycles : Graph.cycles c.nestingEdges = components := by
    unfold Graph.cycles; rw [hc]; rfl
  rw [hcycles]
  constructor
  · rintro ⟨id, m, hm, hg, ht⟩
    have hcycle := (cycle_iff_nests hi hr hm).2 ht
    obtain ⟨component, hcomp, hin⟩ := Graph.exists_component inRange_nestingEdges hcycle
    exact ⟨component, (hmem _).2 hcomp, _, hin, _, getElem?_position hi hm, hg⟩
  · rintro ⟨component, hcomp, i, hin, ⟨id, m⟩, he, hg⟩
    have hm : c.resultMap id = .ok m :=
      resultMap_ok_iff.2 (hi.get?_eq_some_iff.2 (List.mem_of_getElem? he))
    refine ⟨id, m, hm, hg, ?_⟩
    have : TransGen c.Nests (c.idAt i) (c.idAt i) :=
      (((hmem _).1 hcomp).cycle hin).lift c.idAt fun _ _ => nests_of_edge hi
    rwa [idAt_of_getElem? he] at this

/-- With all references named, a catalog passes the checks or is refused for a cycle, which it is
exactly when a map without group-by comes back to itself. -/
theorem verify_cases (hi : Table.Indexed ResultMap.id c.resultMaps) (hr : c.Resolved) :
    (c.verify = .ok () ∧ ¬ c.UngroupedCycle) ∨
    (∃ cycle ungrouped, c.verify = .error (.configuration (.ungroupedCycle cycle ungrouped))) ∧
      c.UngroupedCycle := by
  rw [hr.verify_eq, ungrouped_iff hi hr]
  cases hf : (Graph.cycles c.nestingEdges).forM c.verifyCycle with
  | ok =>
    refine .inl ⟨rfl, ?_⟩
    rintro ⟨component, hcomp, i, hin, entry, he, hg⟩
    have hok := Except.forM_ok_iff.1 hf component hcomp
    rcases verifyCycle_cases (c := c) component with ⟨-, hall⟩ | ⟨⟨_, _, herr⟩, -⟩
    · exact hall i hin entry he hg
    · rw [hok] at herr; cases herr
  | error e =>
    obtain ⟨component, hcomp, herr⟩ := Except.exists_of_forM_error hf
    rcases verifyCycle_cases (c := c) component with ⟨hok, -⟩ | ⟨⟨cycle, ungrouped, herr'⟩, hex⟩
    · rw [hok] at herr; cases herr
    · rw [herr'] at herr
      cases herr
      exact .inr ⟨⟨cycle, ungrouped, rfl⟩, component, hcomp, hex⟩

/-- The check for cycles is exact. On every graph the search for cyclic components comes to an end
with each of them once, in ascending order, and nothing else; a catalog whose references all name
something is refused, for a cycle, exactly when a map without group-by comes back to itself. -/
theorem cycle_check_exact :
    (∀ edges, Graph.InRange edges → ∃ components, Graph.components? edges = some components ∧
      components.Nodup ∧ ∀ nodes, nodes ∈ components ↔ Graph.CyclicComponent edges nodes) ∧
    ∀ plan c, assemble plan = .ok c → c.Resolved →
      ((∃ cycle ungrouped,
          build plan = .error (.configuration (.ungroupedCycle cycle ungrouped))) ↔
        ∃ id m, c.resultMap id = .ok m ∧ m.groupBy = [] ∧ TransGen c.Nests id id) ∧
      ((∃ cycle ungrouped,
          build plan = .error (.configuration (.ungroupedCycle cycle ungrouped))) ∨
        build plan = .ok c) := by
  refine ⟨fun edges => Graph.components?_spec, fun plan c ha hr => ?_⟩
  have hb : build plan = c.verify.bind fun _ => .ok c := by unfold build; rw [ha]; rfl
  rw [hb]
  rcases verify_cases (assemble_indexed ha).1 hr with ⟨hv, hno⟩ | ⟨⟨cycle, ungrouped, hv⟩, hex⟩
  · rw [hv]
    exact ⟨⟨nofun, fun h => absurd h hno⟩, .inr rfl⟩
  · rw [hv]
    exact ⟨⟨fun _ => hex, fun _ => ⟨cycle, ungrouped, rfl⟩⟩, .inl ⟨cycle, ungrouped, rfl⟩⟩

/-- Two maps that nest each other, the first of them without group-by. -/
theorem cycle_check_mutual :
    let a : ResultMap :=
      { id := "a", mappings := .declared
          [{ property := "b", route := .nestedMap "b", coercer := some .object }] }
    let b : ResultMap :=
      { id := "b", groupBy := ["k"], mappings := .declared
          [{ property := "k", coercer := some .object },
            { property := "a", route := .nestedMap "a", coercer := some .object }] }
    let plan : CatalogPlan := { resultMaps := [a, b] }
    let c : Catalog := { resultMaps := [("a", a), ("b", b)] }
    Graph.InRange [[1], [0, 2], [2]] ∧
    (∃ components, Graph.components? [[1], [0, 2], [2]] = some components ∧ components.Nodup ∧
      ∀ nodes, nodes ∈ components ↔ Graph.CyclicComponent [[1], [0, 2], [2]] nodes) ∧
    assemble plan = .ok c ∧ c.Resolved ∧
    ∃ cycle ungrouped,
      build plan = .error (.configuration (.ungroupedCycle cycle ungrouped)) := by
  intro a b plan c
  have hr : c.Resolved := by
    refine ⟨fun entry he mapping hm => ?_, fun entry he d hd => ?_, fun entry he => by cases he⟩
    · rcases List.mem_pair.1 he with rfl | rfl
      · rw [List.mem_singleton.1 hm]
        exact ⟨b, rfl⟩
      · rcases List.mem_pair.1 hm with rfl | rfl
        · trivial
        · exact ⟨a, rfl⟩
    · rcases List.mem_pair.1 he with rfl | rfl <;> cases hd
  have hab : c.Nests "a" "b" := ⟨a, rfl, _, List.mem_singleton_self _, rfl⟩
  have hba : c.Nests "b" "a" := ⟨b, rfl, _, .tail _ (.head _), rfl⟩
  exact ⟨by decide, cycle_check_exact.1 _ (by decide), rfl, hr,
    (cycle_check_exact.2 plan c rfl hr).1.2 ⟨"a", a, rfl, rfl, .head hab (.single hba)⟩⟩

end Catalog

end RowMapper
