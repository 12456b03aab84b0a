/-
Where the maps of a catalog are from. Each is the resolved form of a planned map, or of one that was
derived for a statement, and resolving leaves what a map is but gives its mappings their coercers
(`Catalog.coercer_of_build`). A statement that has a result class alone finds the map derived for it
(`Catalog.autoMap_of_build`).
-/
import RowMapper.Proofs.Catalog.Qualified
import RowMapper.Proofs.Catalog.Registries

namespace RowMapper

/-- An item of the second of two paired lists stands against one of the first. -/
theorem exists_of_forall₂ {α β : Type} {R : α → β → Prop} {xs : List α} {ys : List β}
    (h : List.Forall₂ R xs ys) {y : β} (hy : y ∈ ys) : ∃ x ∈ xs, R x y := by
  obtain ⟨i, hi, rfl⟩ := List.getElem_of_mem hy
  have hx : i < xs.length := h.length_eq ▸ hi
  exact ⟨xs[i], List.getElem_mem hx, h.get hx hi⟩

/-! ## Resolving one map -/

namespace ResultMap

variable {m n : ResultMap}

theorem resultClass_modifyMappings {f : ResultMapping → Except Error ResultMapping}
    (h : m.modifyMappings f = .ok n) : n.resultClass = m.resultClass := by
  unfold modifyMappings at h
  cases hm : m.mappings <;> cases hd : m.discriminator <;> simp only [hm, hd] at h
  all_goals
    obtain ⟨mappings, -, h⟩ := Except.bind_eq_ok_iff.1 h
    obtain ⟨discriminator, -, h⟩ := Except.bind_eq_ok_iff.1 h
    cases h
    rfl

end ResultMap

theorem Catalog.modifyMappings_of_resolveMap {registry : Registry} {m n : ResultMap}
    (h : resolveMap registry m = .ok n) :
    m.modifyMappings (ResultMapping.resolve registry m.resultClass) = .ok n := by
  unfold resolveMap at h
  cases hm : m.modifyMappings (ResultMapping.resolve registry m.resultClass) with
  | error e =>
    rw [hm] at h
    cases h
  | ok resolved =>
    rw [hm] at h
    cases h
    rfl

/-- A resolved mapping is the given one with its coercer, and perhaps its specifier. -/
theorem ResultMapping.resolve_eq_ok {registry : Registry} {owner : Option DataType}
    {mapping new : ResultMapping} (h : mapping.resolve registry owner = .ok new) :
    ∃ spec, new = { mapping with
      coercer := mapping.coercer.or
        (findCoercer registry mapping.type mapping.sqlType owner mapping.property)
      spec } := by
  unfold resolve at h
  dsimp only at h
  split at h
  · obtain ⟨spec, -, rfl⟩ := Except.map_eq_ok_iff.1 h
    exact ⟨some spec, rfl⟩
  · cases h
    exact ⟨mapping.spec, rfl⟩

/-! ## Maps of a catalog -/

/-- The coercer of a column mapping is the one that is inferred from the class of its map. -/
def ResultMapping.Inferred (registry : Registry) (owner : Option DataType) (mapping : ResultMapping) :
    Prop :=
  mapping.coercer = findCoercer registry none mapping.sqlType owner mapping.property

/-- The column mappings of a map name no coercers, and no types to find some by. -/
def ResultMap.NamesNoCoercers (m : ResultMap) : Prop :=
  ∀ mapping ∈ m.declared, mapping.route = .column → mapping.type = none ∧ mapping.coercer = none

theorem ResultMap.NamesNoCoercers.qualify {m : ResultMap} (h : m.NamesNoCoercers)
    (mapIds statementIds : List String) : (m.qualify mapIds statementIds).NamesNoCoercers := by
  intro mapping hmem hroute
  cases hm : m.mappings with
  | auto home =>
    simp only [declared, ResultMap.qualify, hm] at hmem
    cases hmem
  | declared mappings =>
    simp only [declared, ResultMap.qualify, hm] at hmem
    obtain ⟨before, hbefore, rfl⟩ := List.mem_map.1 hmem
    refine h before (by rwa [declared, hm]) ?_
    cases hr : before.route with
    | column => rfl
    | nestedSelect id | nestedMap id =>
      rw [hr] at hroute
      cases hroute

namespace Catalog

variable {plan : CatalogPlan} {c : Catalog}

/-- A map of a catalog is the resolved form of a planned map, or of one derived for a statement, perhaps
with its references qualified. -/
theorem resolved_of_build {P : ResultMap → Prop} (hplanned : ∀ m ∈ plan.resultMaps, P m)
    (hauto : ∀ id type remappable, P (.auto id type remappable))
    (hqualify : ∀ m mapIds statementIds, P m → P (m.qualify mapIds statementIds))
    (accepted : build plan = .ok c) :
    ∀ entry ∈ c.resultMaps, ∃ m, P m ∧ resolveMap plan.registry m = .ok entry.2 := by
  obtain ⟨maps, statements, statements', maps', hmaps, -, hadded, hresolved, -, -⟩ :=
    assemble_eq_ok (assemble_of_build accepted)
  have hgiven : ∀ entry ∈ maps', P entry.2 :=
    (forall_of_addAutoMaps (Q := fun _ => True) hauto (fun _ _ => id)
      (forall_of_indexById hplanned (List.forall_mem_nil _) hmaps) (fun _ _ => trivial) hadded).1
  intro entry hentry
  obtain ⟨referring, hmem, hresolve⟩ := Except.exists_of_mapM_ok hresolved hentry
  obtain ⟨m, hm, rfl⟩ := Except.map_eq_ok_iff.1 hresolve
  refine ⟨referring.2, ?_, hm⟩
  split at hmem
  · obtain ⟨unqualified, hbefore, rfl⟩ := List.mem_map.1 hmem
    exact hqualify _ _ _ (hgiven unqualified hbefore)
  · exact hgiven referring hmem

/-- The column mappings of a map that is planned without coercers have those that are inferred from the
class of the map. -/
theorem coercer_of_build (accepted : build plan = .ok c) {id : String} {m : ResultMap}
    (hm : c.resultMap id = .ok m)
    (hplanned : ∀ planned ∈ plan.resultMaps, planned.id = id → planned.NamesNoCoercers) :
    ∀ mapping ∈ m.declared, mapping.route = .column →
      mapping.Inferred plan.registry m.resultClass := by
  have hindexed := (assemble_indexed (assemble_of_build accepted)).1
  have hentry := Table.mem_of_get? (resultMap_ok_iff.1 hm)
  obtain ⟨n, hn, hresolve⟩ := resolved_of_build
    (P := fun n => n.id = id → n.NamesNoCoercers)
    hplanned (fun _ _ _ _ _ hmem => nomatch hmem) (fun _ _ _ h hid => (h hid).qualify _ _)
    accepted _ hentry
  have hid : n.id = id := by
    rw [← id_resolveMap hresolve]
    exact (hindexed.own _ hentry).symm
  have hmodify := modifyMappings_of_resolveMap hresolve
  obtain ⟨hmappings, -⟩ := ResultMap.modifyMappings_eq_ok hmodify
  intro mapping hmem hroute
  obtain ⟨before, hbefore, hnew⟩ := exists_of_forall₂ hmappings hmem
  obtain ⟨spec, rfl⟩ := ResultMapping.resolve_eq_ok hnew
  obtain ⟨htype, hcoercer⟩ := hn hid before hbefore hroute
  unfold ResultMapping.Inferred
  dsimp only
  rw [htype, hcoercer, ResultMap.resultClass_modifyMappings hmodify]
  rfl

/-- A statement that wants a map is given one of its own. -/
theorem mem_of_addAutoMaps : ∀ {statements new : List (String × Statement)}
    {maps table : List (String × ResultMap)}, addAutoMaps statements maps = .ok (new, table) →
      ∀ {key : String} {s : Statement} {type : DataType}, (key, s) ∈ statements →
        s.resultMap = none → s.resultClass = some type →
        (autoMapId s.id, .auto (autoMapId s.id) type s.remapResults) ∈ table
  | [], _, _, _, _, _, _, _, hmem, _, _ => nomatch hmem
  | (key', s') :: rest, new, maps, table, h, key, s, type, hmem, hmap, hclass => by
    unfold addAutoMaps at h
    rcases List.mem_cons.1 hmem with he | hmem
    · cases he
      rw [hmap, hclass] at h
      dsimp only at h
      split at h
      · cases h
      · obtain ⟨⟨statements, maps'⟩, hrest, h⟩ := Except.bind_eq_ok_iff.1 h
        cases h
        exact (addAutoMaps_eq hrest).2.subset (List.mem_append_right _ (List.mem_singleton.2 rfl))
    · split at h
      · dsimp only at h
        split at h
        · cases h
        · obtain ⟨⟨statements, maps'⟩, hrest, h⟩ := Except.bind_eq_ok_iff.1 h
          cases h
          exact mem_of_addAutoMaps hrest hmem hmap hclass
      · obtain ⟨⟨statements, maps'⟩, hrest, h⟩ := Except.bind_eq_ok_iff.1 h
        cases h
        exact mem_of_addAutoMaps hrest hmem hmap hclass

/-- The map that is derived for a statement stands in the catalog as it was made. -/
theorem autoMap_of_build (accepted : build plan = .ok c) {s : Statement} {type : DataType}
    (hs : s ∈ plan.statements) (hmap : s.resultMap = none) (hclass : s.resultClass = some type) :
    c.resultMap (autoMapId s.id) = .ok (.auto (autoMapId s.id) type s.remapResults) := by
  have hassemble := assemble_of_build accepted
  have hindexed := (assemble_indexed hassemble).1
  obtain ⟨maps, statements, statements', maps', -, hplanned, hadded, hresolved, -, -⟩ :=
    assemble_eq_ok hassemble
  have hstatement : (s.id, s) ∈ statements := by
    rw [indexById_eq hplanned, List.nil_append]
    exact List.mem_map_of_mem hs
  have hmem := mem_of_addAutoMaps hadded hstatement hmap hclass
  -- a map without mappings has nothing to qualify or to resolve
  have hgiven : (autoMapId s.id, .auto (autoMapId s.id) type s.remapResults) ∈
      if plan.settings.namespaces then
        maps'.map fun entry =>
          (entry.1, entry.2.qualify (maps'.map (·.1)) (statements'.map (·.1)))
      else maps' := by
    split
    · exact List.mem_map.2 ⟨_, hmem, rfl⟩
    · exact hmem
  obtain ⟨m, hm, hin⟩ := exists_of_mapValues hresolved hgiven
  cases hm
  exact resultMap_ok_iff.2 (hindexed.get?_eq_some_iff.2 hin)

end Catalog

end RowMapper
