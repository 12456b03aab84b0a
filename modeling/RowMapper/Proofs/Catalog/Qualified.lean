/-
References of an accepted catalog with namespaces. Each is the planned reference in its full form if that
is known (`Catalog.references_of_build`). The full form is tried before the reference itself, so a
reference that is an id already is left alone exactly when nothing is known by the owner's namespace in
front of it (`qualify_eq_self_iff`).
-/
import RowMapper.Proofs.Catalog.Nesting

namespace RowMapper

variable {owner reference : String} {known : List String}

/-- Lists that agree item by item under two views. -/
theorem map_eq_of_forall₂ {α β γ : Type} {R : α → β → Prop} {f : α → γ} {g : β → γ} {xs : List α}
    {ys : List β} (h : List.Forall₂ R xs ys) (hfg : ∀ x y, R x y → g y = f x) : ys.map g = xs.map f := by
  induction h with
  | nil => rfl
  | cons hxy _ ih => rw [List.map_cons, List.map_cons, hfg _ _ hxy, ih]

/-! ## One reference -/

/-- A reference is left alone when its full form is not known. -/
theorem qualify_eq_self_iff : qualify owner known reference = reference ↔
    ∀ ns, namespace? owner = some ns → ns ++ "." ++ reference ∉ known := by
  unfold qualify
  cases namespace? owner with
  | none => exact ⟨fun _ => nofun, fun _ => rfl⟩
  | some ns =>
    have hlonger : ns ++ "." ++ reference ≠ reference := by
      intro h
      have hlength := congrArg String.length h
      simp only [String.length_append, show ".".length = 1 from rfl] at hlength
      omega
    dsimp only
    split
    · rename_i hknown
      exact ⟨fun h => absurd h hlonger, fun h => absurd (List.contains_iff_mem.1 hknown) (h ns rfl)⟩
    · rename_i hunknown
      refine ⟨fun _ ns' hns hmem => hunknown ?_, fun _ => rfl⟩
      cases hns
      exact List.contains_iff_mem.2 hmem

/-- A qualified reference is left alone when no id has more than one dot. -/
theorem qualify_eq_self_of_flat (hflat : ∀ id ∈ known, id.toList.count '.' ≤ 1)
    (hqualified : '.' ∈ reference.toList) : qualify owner known reference = reference := by
  refine qualify_eq_self_iff.2 fun ns _ hmem => ?_
  have hle := hflat _ hmem
  have hdot := List.count_pos_iff.2 hqualified
  simp only [String.toList_append, List.count_append, show ".".toList = ['.'] from rfl,
    List.count_singleton_self] at hle
  omega

/-! ## The references of a map -/

/-- What a result map refers to: the maps and the statements that its mappings name, and the sub-maps of
its discriminator by their values. -/
structure References where
  nestedMaps : List String
  nestedSelects : List String
  subMaps : List (String × String)
  deriving DecidableEq

/-- The references of an owner in their full forms. -/
def References.qualify (r : References) (owner : String) (mapIds statementIds : List String) :
    References where
  nestedMaps := r.nestedMaps.map (RowMapper.qualify owner mapIds)
  nestedSelects := r.nestedSelects.map (RowMapper.qualify owner statementIds)
  subMaps := r.subMaps.map fun sub => (sub.1, RowMapper.qualify owner mapIds sub.2)

/-- The ids that are referred to. -/
def References.ids (r : References) : List String :=
  r.nestedMaps ++ r.nestedSelects ++ r.subMaps.map (·.2)

/-- Qualified references are left alone when no id has more than one dot. -/
theorem References.qualify_of_flat {r : References} (owner : String) {mapIds statementIds : List String}
    (hmapIds : ∀ id ∈ mapIds, id.toList.count '.' ≤ 1)
    (hstatementIds : ∀ id ∈ statementIds, id.toList.count '.' ≤ 1)
    (hqualified : ∀ reference ∈ r.ids, '.' ∈ reference.toList) :
    r.qualify owner mapIds statementIds = r := by
  have hmaps : ∀ reference ∈ r.ids, RowMapper.qualify owner mapIds reference = reference :=
    fun reference h => qualify_eq_self_of_flat hmapIds (hqualified reference h)
  have hstatements : ∀ reference ∈ r.ids, RowMapper.qualify owner statementIds reference = reference :=
    fun reference h => qualify_eq_self_of_flat hstatementIds (hqualified reference h)
  obtain ⟨nestedMaps, nestedSelects, subMaps⟩ := r
  simp only [ids, List.mem_append] at hmaps hstatements
  unfold qualify
  congr 1
  · exact (List.map_congr_left fun id h => hmaps id (.inl (.inl h))).trans (List.map_id _)
  · exact (List.map_congr_left fun id h => hstatements id (.inl (.inr h))).trans (List.map_id _)
  · refine (List.map_congr_left fun sub h => ?_).trans (List.map_id _)
    rw [hmaps sub.2 (.inr (List.mem_map_of_mem h))]
    rfl

def Route.nestedMap? : Route → Option String
  | .nestedMap id => some id
  | _ => none

def Route.nestedSelect? : Route → Option String
  | .nestedSelect id => some id
  | _ => none

def ResultMap.references (m : ResultMap) : References where
  nestedMaps := (m.declared.map ResultMapping.route).filterMap Route.nestedMap?
  nestedSelects := (m.declared.map ResultMapping.route).filterMap Route.nestedSelect?
  subMaps := (m.discriminator.map Discriminator.subMaps).getD []

namespace ResultMap

variable {m n : ResultMap} {mapIds statementIds : List String}

/-- References are read off the routes of the mappings and the sub-maps. -/
theorem references_congr (hroutes : n.declared.map ResultMapping.route = m.declared.map ResultMapping.route)
    (hsub : n.discriminator.map Discriminator.subMaps = m.discriminator.map Discriminator.subMaps) :
    n.references = m.references := by
  unfold references
  rw [hroutes, hsub]

theorem references_qualify (m : ResultMap) (mapIds statementIds : List String) :
    (m.qualify mapIds statementIds).references = m.references.qualify m.id mapIds statementIds := by
  have hroutes : (m.qualify mapIds statementIds).declared.map ResultMapping.route =
      (m.declared.map ResultMapping.route).map (Route.qualify m.id mapIds statementIds) := by
    unfold declared qualify
    cases m.mappings <;> simp
  unfold references References.qualify
  rw [hroutes]
  congr 1
  · rw [List.filterMap_map, List.map_filterMap]
    exact List.filterMap_congr fun route _ => by cases route <;> rfl
  · rw [List.filterMap_map, List.map_filterMap]
    exact List.filterMap_congr fun route _ => by cases route <;> rfl
  · unfold qualify
    cases m.discriminator <;> rfl

/-- Declared mappings are changed one by one, and the sub-maps of a discriminator stay. -/
theorem modifyMappings_eq_ok {f : ResultMapping → Except Error ResultMapping}
    (h : m.modifyMappings f = .ok n) :
    List.Forall₂ (fun mapping new => f mapping = .ok new) m.declared n.declared ∧
      n.discriminator.map Discriminator.subMaps = m.discriminator.map Discriminator.subMaps := by
  unfold modifyMappings at h
  unfold declared
  cases hm : m.mappings <;> cases hd : m.discriminator <;> simp only [hm, hd] at h <;>
    obtain ⟨mappings, hmappings, h⟩ := Except.bind_eq_ok_iff.1 h <;>
    obtain ⟨discriminator, hdiscriminator, h⟩ := Except.bind_eq_ok_iff.1 h <;> cases h
  case declared.none =>
    obtain ⟨new, hnew, rfl⟩ := Except.map_eq_ok_iff.1 hmappings
    cases hdiscriminator
    exact ⟨Except.forall₂_of_mapM_ok hnew, rfl⟩
  case declared.some =>
    obtain ⟨new, hnew, rfl⟩ := Except.map_eq_ok_iff.1 hmappings
    obtain ⟨mapping, -, rfl⟩ := Except.map_eq_ok_iff.1 hdiscriminator
    exact ⟨Except.forall₂_of_mapM_ok hnew, rfl⟩
  case auto.none =>
    cases hmappings
    cases hdiscriminator
    exact ⟨.nil, rfl⟩
  case auto.some =>
    cases hmappings
    obtain ⟨mapping, -, rfl⟩ := Except.map_eq_ok_iff.1 hdiscriminator
    exact ⟨.nil, rfl⟩

/-- What leaves routes alone leaves references alone. -/
theorem references_modifyMappings {f : ResultMapping → Except Error ResultMapping}
    (hf : ∀ mapping new, f mapping = .ok new → new.route = mapping.route)
    (h : m.modifyMappings f = .ok n) : n.references = m.references := by
  obtain ⟨hmappings, hsub⟩ := modifyMappings_eq_ok h
  exact references_congr (map_eq_of_forall₂ hmappings hf) hsub

end ResultMap

/-! ## The references of a catalog -/

/-- The statement with the map that is derived for it, if it wants one. -/
def Statement.withAutoMap (s : Statement) : Statement :=
  match s.resultMap, s.resultClass with
  | none, some _ => { s with resultMap := some (Catalog.autoMapId s.id) }
  | _, _ => s

@[simp] theorem Statement.id_withAutoMap (s : Statement) : s.withAutoMap.id = s.id := by
  unfold withAutoMap
  split <;> rfl

namespace Catalog

variable {plan : CatalogPlan} {c : Catalog}

/-- The ids of the result maps. -/
def mapIds (c : Catalog) : List String := c.resultMaps.map (·.1)

/-- The ids of the statements. -/
def statementIds (c : Catalog) : List String := c.statements.map (·.1)

theorem indexById_eq {α : Type} {item : CatalogItem} {id : α → String} :
    ∀ {items : List α} {indexed table : List (String × α)},
      indexById item id items indexed = .ok table → table = indexed ++ items.map fun a => (id a, a)
  | [], indexed, table, h => by
    cases h
    rw [List.map_nil, List.append_nil]
  | a :: rest, indexed, table, h => by
    unfold indexById at h
    split at h
    · cases h
    · rw [indexById_eq h, List.append_assoc, List.map_cons, List.singleton_append]

/-- Derived maps come behind the others, and the statements that want one name it. -/
theorem addAutoMaps_eq : ∀ {statements new : List (String × Statement)}
    {maps table : List (String × ResultMap)}, addAutoMaps statements maps = .ok (new, table) →
      new = statements.map (fun entry => (entry.1, entry.2.withAutoMap)) ∧ maps <+: table
  | [], _, _, _, h => by
    cases h
    exact ⟨rfl, List.prefix_rfl⟩
  | (key, s) :: rest, new, maps, table, h => by
    unfold addAutoMaps at h
    split at h
    · rename_i hmap hclass
      dsimp only at h
      split at h
      · cases h
      · obtain ⟨⟨statements, maps'⟩, hrest, h⟩ := Except.bind_eq_ok_iff.1 h
        cases h
        obtain ⟨rfl, hprefix⟩ := addAutoMaps_eq hrest
        have hauto : s.withAutoMap = { s with resultMap := some (autoMapId s.id) } := by
          simp only [Statement.withAutoMap, hmap, hclass]
        exact ⟨by rw [List.map_cons, hauto], (List.prefix_append ..).trans hprefix⟩
    · rename_i hno
      obtain ⟨⟨statements, maps'⟩, hrest, h⟩ := Except.bind_eq_ok_iff.1 h
      cases h
      obtain ⟨rfl, hprefix⟩ := addAutoMaps_eq hrest
      have hsame : s.withAutoMap = s := by
        unfold Statement.withAutoMap
        split
        · rename_i hmap hclass
          exact (hno _ hmap hclass).elim
        · rfl
      exact ⟨by rw [List.map_cons, hsame], hprefix⟩

theorem keys_of_mapValues {α β : Type} {f : α → Except Error β} {table : List (String × α)}
    {new : List (String × β)} (h : mapValues f table = .ok new) : new.map (·.1) = table.map (·.1) := by
  refine map_eq_of_forall₂ (Except.forall₂_of_mapM_ok h) fun x y hxy => ?_
  obtain ⟨b, -, rfl⟩ := Except.map_eq_ok_iff.1 hxy
  rfl

theorem exists_of_mapValues {α β : Type} {f : α → Except Error β} {table : List (String × α)}
    {new : List (String × β)} (h : mapValues f table = .ok new) {key : String} {a : α}
    (hmem : (key, a) ∈ table) : ∃ b, f a = .ok b ∧ (key, b) ∈ new := by
  have hpairs := Except.forall₂_of_mapM_ok h
  clear h
  induction hpairs with
  | nil => cases hmem
  | cons hxy _ ih =>
    rcases List.mem_cons.1 hmem with rfl | hmem
    · obtain ⟨b, hb, rfl⟩ := Except.map_eq_ok_iff.1 hxy
      exact ⟨b, hb, List.mem_cons_self ..⟩
    · obtain ⟨b, hb, hin⟩ := ih hmem
      exact ⟨b, hb, List.mem_cons_of_mem _ hin⟩

/-- Resolving leaves references alone. -/
theorem references_resolveMap {registry : Registry} {m n : ResultMap}
    (h : resolveMap registry m = .ok n) : n.references = m.references := by
  unfold resolveMap at h
  cases hm : m.modifyMappings (ResultMapping.resolve registry m.resultClass) with
  | error e => rw [hm] at h; cases h
  | ok resolved =>
    rw [hm] at h
    cases h
    refine ResultMap.references_modifyMappings (fun mapping new hnew => ?_) hm
    unfold ResultMapping.resolve at hnew
    dsimp only at hnew
    split at hnew
    · obtain ⟨spec, -, rfl⟩ := Except.map_eq_ok_iff.1 hnew
      rfl
    · cases hnew
      rfl

theorem resultMap_resolveStatement {registry : Registry} {s t : Statement}
    (h : resolveStatement registry s = .ok t) : t.resultMap = s.resultMap := by
  unfold resolveStatement at h
  split at h
  · split at h <;> cases h
    rfl
  · cases h
    rfl

/-- With namespaces every planned item is qualified by the ids of the catalog and then resolved. -/
theorem qualified_of_assemble (h : assemble plan = .ok c) (namespaces : plan.settings.namespaces = true) :
    (∀ m ∈ plan.resultMaps, ∃ built,
      resolveMap plan.registry (m.qualify c.mapIds c.statementIds) = .ok built ∧
        (m.id, built) ∈ c.resultMaps) ∧
    ∀ s ∈ plan.statements, ∃ built,
      resolveStatement plan.registry (s.withAutoMap.qualify c.mapIds) = .ok built ∧
        (s.id, built) ∈ c.statements := by
  obtain ⟨maps, statements, statements', maps', hplanned, hplanned', hauto, hresolved, hresolved', -⟩ :=
    assemble_eq_ok h
  obtain ⟨rfl, hprefix⟩ := addAutoMaps_eq hauto
  rw [if_pos namespaces] at hresolved hresolved'
  -- ids stay through qualifying and resolving, so the known ids are those of the built catalog
  have hmapIds : c.mapIds = maps'.map (·.1) := by
    unfold mapIds
    rw [keys_of_mapValues hresolved, List.map_map]
    rfl
  have hstatementIds : c.statementIds = statements.map (·.1) := by
    unfold statementIds
    rw [keys_of_mapValues hresolved', List.map_map, List.map_map]
    rfl
  have hids : (statements.map fun entry => (entry.1, entry.2.withAutoMap)).map (·.1) =
      statements.map (·.1) := List.map_map
  rw [hids] at hresolved
  rw [hmapIds, hstatementIds]
  refine ⟨fun m hm => ?_, fun s hs => ?_⟩
  · have hmem : (m.id, m) ∈ maps' := by
      refine hprefix.subset ?_
      rw [indexById_eq hplanned, List.nil_append]
      exact List.mem_map_of_mem hm
    exact exists_of_mapValues hresolved (List.mem_map_of_mem hmem)
  · have hmem : (s.id, s) ∈ statements := by
      rw [indexById_eq hplanned', List.nil_append]
      exact List.mem_map_of_mem hs
    exact exists_of_mapValues hresolved' (List.mem_map_of_mem (List.mem_map_of_mem hmem))

/-- With namespaces the references of a catalog are those of its plan in their full forms, whether given
or derived: those of every result map, and the result map of every statement. -/
theorem references_of_build (accepted : build plan = .ok c) (namespaces : plan.settings.namespaces = true) :
    (∀ m ∈ plan.resultMaps, ∃ built, c.resultMap m.id = .ok built ∧
      built.references = m.references.qualify m.id c.mapIds c.statementIds) ∧
    ∀ s ∈ plan.statements, ∃ built, c.statement s.id = .ok built ∧
      built.resultMap = s.withAutoMap.resultMap.map (qualify s.id c.mapIds) := by
  have hassemble := assemble_of_build accepted
  obtain ⟨hindexed, hindexed'⟩ := assemble_indexed hassemble
  obtain ⟨hmaps, hstatements⟩ := qualified_of_assemble hassemble namespaces
  refine ⟨fun m hm => ?_, fun s hs => ?_⟩
  · obtain ⟨built, hbuilt, hin⟩ := hmaps m hm
    refine ⟨built, resultMap_ok_iff.2 (hindexed.get?_eq_some_iff.2 hin), ?_⟩
    rw [references_resolveMap hbuilt, ResultMap.references_qualify]
  · obtain ⟨built, hbuilt, hin⟩ := hstatements s hs
    refine ⟨built, statement_ok_iff.2 (hindexed'.get?_eq_some_iff.2 hin), ?_⟩
    rw [resultMap_resolveStatement hbuilt]
    show s.withAutoMap.resultMap.map (qualify s.withAutoMap.id _) = _
    rw [Statement.id_withAutoMap]

/-- When no id has more than one dot, a map all of whose references are qualified keeps them. -/
theorem references_stay (accepted : build plan = .ok c) (namespaces : plan.settings.namespaces = true)
    (hmapIds : ∀ id ∈ c.mapIds, id.toList.count '.' ≤ 1)
    (hstatementIds : ∀ id ∈ c.statementIds, id.toList.count '.' ≤ 1) {m : ResultMap}
    (hm : m ∈ plan.resultMaps) (hqualified : ∀ reference ∈ m.references.ids, '.' ∈ reference.toList) :
    ∃ built, c.resultMap m.id = .ok built ∧ built.references = m.references := by
  obtain ⟨built, hbuilt, hreferences⟩ := (references_of_build accepted namespaces).1 m hm
  exact ⟨built, hbuilt,
    hreferences.trans (References.qualify_of_flat m.id hmapIds hstatementIds hqualified)⟩

/-- A namespace within a namespace of the same name, whose map is not the one that the nested map names. -/
def namesakes : CatalogPlan where
  resultMaps :=
    [{ id := "a.m", resultClass := some .map, mappings := .declared
        [{ property := "kids", route := .nestedMap "a.b", type := some .list }] },
      { id := "a.b", mappings := .declared [{ property := "x" }] },
      { id := "a.a.b", mappings := .declared [{ property := "y" }] }]
  statements :=
    [{ id := "a.s", kind := .select, sql := "q", resultClass := some .map },
      { id := "a.a.s", kind := .select, sql := "q", resultClass := some .map }]
  settings := { namespaces := true }

/-- The nested map, and the map that is derived for a statement, are those of the inner namespace, although
both references are ids of maps. -/
theorem references_move_namesakes : ∃ c m s, build namesakes = .ok c ∧
    c.resultMap "a.m" = .ok m ∧ c.statement "a.s" = .ok s ∧
    "a.b" ∈ c.mapIds ∧ m.references.nestedMaps = ["a.a.b"] ∧
    "a.s-AutoResultMap" ∈ c.mapIds ∧ s.resultMap = some "a.a.s-AutoResultMap" :=
  ⟨_, _, _, rfl, rfl, rfl, by decide, by decide, by decide, by decide⟩

end Catalog

end RowMapper
