/-
Catalogs under another registry. A registry that gives the same coercers to all but those who ask for a
SQL type resolves a catalog in which nothing asks for it to the same mappings, so that the catalog is
built from the plan under the one exactly when it is under the other (`Catalog.build_agreesBut`).
-/
import RowMapper.Proofs.Catalog.Index
import RowMapper.Proofs.Coercer.Registry

namespace RowMapper

/-! ## Resolving -/

namespace Registry.AgreesBut

variable {r r' : Registry} {label : String}

theorem findCoercer (h : AgreesBut label r r') {sqlType : Option String} (ha : Avoids label sqlType)
    (type owner : Option DataType) (property : String) :
    ResultMapping.findCoercer r' type sqlType owner property =
      ResultMapping.findCoercer r type sqlType owner property := by
  have hfind : ∀ type, r'.find? type sqlType = r.find? type sqlType := fun type => h type sqlType ha
  unfold ResultMapping.findCoercer
  simp only [hfind]

theorem resolve (h : AgreesBut label r r') {m : ResultMapping} (ha : Avoids label m.sqlType)
    (resultClass : Option DataType) : m.resolve r' resultClass = m.resolve r resultClass := by
  unfold ResultMapping.resolve
  rw [h.findCoercer ha]

theorem resolveParameter (h : AgreesBut label r r') {m : ParameterMapping} (ha : Avoids label m.sqlType)
    (parameterClass : Option DataType) : m.resolve r' parameterClass = m.resolve r parameterClass := by
  have hfind : ∀ type, r'.find? type m.sqlType = r.find? type m.sqlType := fun type => h type _ ha
  unfold ParameterMapping.resolve
  simp only [hfind, h.findCoercer ha]

end Registry.AgreesBut

/-! ## Maps and statements -/

/-- No mapping of a map asks for a SQL type, that of its discriminator included. -/
structure ResultMap.Avoids (label : String) (m : ResultMap) : Prop where
  declared : ∀ mapping ∈ m.declared, Registry.Avoids label mapping.sqlType
  discriminator : ∀ d, m.discriminator = some d → Registry.Avoids label d.mapping.sqlType

/-- No parameter of a statement asks for a SQL type. -/
def Statement.Avoids (label : String) (s : Statement) : Prop :=
  ∀ parameterMap, s.parameterMap = some parameterMap →
    ∀ mapping ∈ parameterMap.mappings, Registry.Avoids label mapping.sqlType

section

variable {label : String} {m : ResultMap} {s : Statement} {r r' : Registry}

theorem ResultMap.Avoids.auto (label id : String) (resultClass : DataType) (remappable : Bool) :
    (ResultMap.auto id resultClass remappable).Avoids label where
  declared _ h := nomatch h
  discriminator _ h := nomatch h

theorem ResultMap.Avoids.qualify (h : m.Avoids label) (mapIds statementIds : List String) :
    (m.qualify mapIds statementIds).Avoids label := by
  constructor
  · intro mapping hmem
    cases hm : m.mappings with
    | declared mappings =>
      simp only [ResultMap.declared, ResultMap.qualify, hm] at hmem
      obtain ⟨mapping, hmem, rfl⟩ := List.mem_map.1 hmem
      exact h.declared mapping (by rwa [ResultMap.declared, hm])
    | auto home =>
      simp only [ResultMap.declared, ResultMap.qualify, hm] at hmem
      cases hmem
  · intro _ hqualified
    obtain ⟨d, hd, rfl⟩ := Option.map_eq_some_iff.1 hqualified
    exact h.discriminator d hd

theorem ResultMap.Avoids.modifyMappings (h : m.Avoids label)
    {f g : ResultMapping → Except Error ResultMapping}
    (hfg : ∀ mapping, Registry.Avoids label mapping.sqlType → f mapping = g mapping) :
    m.modifyMappings f = m.modifyMappings g := by
  have hmappings : m.declared.mapM f = m.declared.mapM g :=
    Except.mapM_congr fun mapping hmem => hfg mapping (h.declared mapping hmem)
  have hdiscriminator : ∀ d, m.discriminator = some d → f d.mapping = g d.mapping :=
    fun d hd => hfg d.mapping (h.discriminator d hd)
  unfold ResultMap.declared at hmappings
  unfold ResultMap.modifyMappings
  cases hm : m.mappings <;> cases hd : m.discriminator <;> simp only [hm] at hmappings ⊢
  case declared.none => rw [hmappings]
  case declared.some d => rw [hmappings, hdiscriminator d hd]
  case auto.some d => rw [hdiscriminator d hd]

namespace Registry.AgreesBut

theorem resolveMap (h : AgreesBut label r r') (ha : m.Avoids label) :
    Catalog.resolveMap r' m = Catalog.resolveMap r m := by
  unfold Catalog.resolveMap
  rw [ha.modifyMappings fun mapping hmapping => h.resolve hmapping m.resultClass]

theorem resolveStatement (h : AgreesBut label r r') (ha : s.Avoids label) :
    Catalog.resolveStatement r' s = Catalog.resolveStatement r s := by
  unfold Catalog.resolveStatement
  cases hp : s.parameterMap with
  | none => rfl
  | some parameterMap =>
    have hresolve : parameterMap.resolve r' s.parameterClass = parameterMap.resolve r s.parameterClass :=
      congrArg (Except.map _) (Except.mapM_congr fun mapping hmem =>
        h.resolveParameter (ha parameterMap hp mapping hmem) s.parameterClass)
    dsimp only
    rw [hresolve]

end Registry.AgreesBut

end

/-- Nothing in a plan asks for a SQL type. -/
structure CatalogPlan.Avoids (label : String) (plan : CatalogPlan) : Prop where
  maps : ∀ m ∈ plan.resultMaps, m.Avoids label
  statements : ∀ s ∈ plan.statements, s.Avoids label

/-- A plan without any SQL type asks for none. -/
theorem CatalogPlan.Avoids.of_none {plan : CatalogPlan} (label : String)
    (hmaps : ∀ m ∈ plan.resultMaps,
      m.discriminator = none ∧ ∀ mapping ∈ m.declared, mapping.sqlType = none)
    (hstatements : ∀ s ∈ plan.statements, ∀ parameterMap, s.parameterMap = some parameterMap →
      ∀ mapping ∈ parameterMap.mappings, mapping.sqlType = none) : plan.Avoids label where
  maps m hm :=
    { declared mapping hmem := (hmaps m hm).2 mapping hmem ▸ Registry.avoids_none label
      discriminator d hd := by
        rw [(hmaps m hm).1] at hd
        cases hd }
  statements s hs parameterMap hp mapping hmem :=
    hstatements s hs parameterMap hp mapping hmem ▸ Registry.avoids_none label

/-! ## Building -/

namespace Catalog

/-- The catalog under another registry. -/
def withRegistry (c : Catalog) (r : Registry) : Catalog := { c with registry := r }

section

variable {α : Type} {item : CatalogItem} {id : α → String} {P : ResultMap → Prop} {Q : Statement → Prop}

theorem forall_of_indexById {R : α → Prop} : ∀ {items : List α} {indexed table : List (String × α)},
    (∀ a ∈ items, R a) → (∀ entry ∈ indexed, R entry.2) →
      indexById item id items indexed = .ok table → ∀ entry ∈ table, R entry.2
  | [], _, _, _, hindexed, h => by
    cases h
    exact hindexed
  | a :: rest, indexed, table, hitems, hindexed, h => by
    rw [List.forall_mem_cons] at hitems
    unfold indexById at h
    split at h
    · cases h
    · exact forall_of_indexById hitems.2
        (List.forall_mem_append.2 ⟨hindexed, List.forall_mem_singleton.2 hitems.1⟩) h

/-- Derived maps are like the others, and a statement that is given one stays as it is. -/
theorem forall_of_addAutoMaps (hauto : ∀ id type remappable, P (.auto id type remappable))
    (hmap : ∀ s id, Q s → Q { s with resultMap := id }) :
    ∀ {statements new : List (String × Statement)} {maps table : List (String × ResultMap)},
      (∀ entry ∈ maps, P entry.2) → (∀ entry ∈ statements, Q entry.2) →
        addAutoMaps statements maps = .ok (new, table) →
        (∀ entry ∈ table, P entry.2) ∧ ∀ entry ∈ new, Q entry.2
  | [], _, _, _, hmaps, _, h => by
    cases h
    exact ⟨hmaps, fun _ he => nomatch he⟩
  | (key, s) :: rest, new, maps, table, hmaps, hstatements, h => by
    rw [List.forall_mem_cons] at hstatements
    unfold addAutoMaps at h
    split at h
    · dsimp only at h
      split at h
      · cases h
      · obtain ⟨⟨statements, maps'⟩, hrest, h⟩ := Except.bind_eq_ok_iff.1 h
        cases h
        obtain ⟨htable, hnew⟩ := forall_of_addAutoMaps hauto hmap
          (List.forall_mem_append.2 ⟨hmaps, List.forall_mem_singleton.2 (hauto _ _ _)⟩)
          hstatements.2 hrest
        exact ⟨htable, List.forall_mem_cons.2 ⟨hmap s _ hstatements.1, hnew⟩⟩
    · obtain ⟨⟨statements, maps'⟩, hrest, h⟩ := Except.bind_eq_ok_iff.1 h
      cases h
      obtain ⟨htable, hnew⟩ := forall_of_addAutoMaps hauto hmap hmaps hstatements.2 hrest
      exact ⟨htable, List.forall_mem_cons.2 ⟨hstatements.1, hnew⟩⟩

theorem mapValues_congr {β : Type} {f g : α → Except Error β} {table : List (String × α)}
    (h : ∀ entry ∈ table, f entry.2 = g entry.2) : mapValues f table = mapValues g table :=
  Except.mapM_congr fun entry he => congrArg (Except.map _) (h entry he)

end

variable {plan : CatalogPlan} {c : Catalog} {label : String} {r : Registry}

/-- Maps and statements that do not ask for a SQL type are resolved to the same. -/
theorem resolve_agreesBut {maps : List (String × ResultMap)} {statements : List (String × Statement)}
    (h : plan.registry.AgreesBut label r) (hmaps : ∀ entry ∈ maps, entry.2.Avoids label)
    (hstatements : ∀ entry ∈ statements, entry.2.Avoids label) :
    (do
      let maps ← mapValues (resolveMap r) maps
      let statements ← mapValues (resolveStatement r) statements
      .ok { resultMaps := maps, statements, registry := r, accessor := plan.accessor,
            loader := plan.loader, settings := plan.settings } : Except Error Catalog) =
      (do
        let maps ← mapValues (resolveMap plan.registry) maps
        let statements ← mapValues (resolveStatement plan.registry) statements
        .ok { resultMaps := maps, statements, registry := plan.registry, accessor := plan.accessor,
              loader := plan.loader, settings := plan.settings } : Except Error Catalog).map
        (·.withRegistry r) := by
  have hm : mapValues (resolveMap r) maps = mapValues (resolveMap plan.registry) maps :=
    mapValues_congr fun entry he => h.resolveMap (hmaps entry he)
  have hs : mapValues (resolveStatement r) statements =
      mapValues (resolveStatement plan.registry) statements :=
    mapValues_congr fun entry he => h.resolveStatement (hstatements entry he)
  rw [hm, Except.map_bind]
  refine Except.bind_congr fun _ _ => ?_
  rw [hs, Except.map_bind]
  rfl

/-- A plan that does not ask for a SQL type is assembled in the same way under a registry that differs
only for those who do. -/
theorem assemble_agreesBut (h : plan.registry.AgreesBut label r) (ha : plan.Avoids label) :
    assemble { plan with registry := r } = (assemble plan).map (·.withRegistry r) := by
  unfold assemble
  rw [Except.map_bind]
  refine Except.bind_congr fun maps hmaps => ?_
  rw [Except.map_bind]
  refine Except.bind_congr fun statements hstatements => ?_
  rw [Except.map_bind]
  refine Except.bind_congr fun ⟨statements', maps'⟩ hauto => ?_
  -- derived maps declare no mappings, and references have no SQL types
  obtain ⟨havoids, hparameters⟩ :
      (∀ entry ∈ maps', entry.2.Avoids label) ∧ ∀ entry ∈ statements', entry.2.Avoids label :=
    forall_of_addAutoMaps (.auto label) (fun _ _ => id)
      (forall_of_indexById ha.maps (List.forall_mem_nil _) hmaps)
      (forall_of_indexById ha.statements (List.forall_mem_nil _) hstatements) hauto
  have hqualified : ∀ entry ∈ maps'.map fun entry =>
      (entry.1, entry.2.qualify (maps'.map (·.1)) (statements'.map (·.1))), entry.2.Avoids label :=
    List.forall_mem_map.2 fun entry he => (havoids entry he).qualify _ _
  have hreferring : ∀ entry ∈ statements'.map fun entry => (entry.1, entry.2.qualify (maps'.map (·.1))),
      entry.2.Avoids label := List.forall_mem_map.2 hparameters
  dsimp only
  split
  · exact resolve_agreesBut h hqualified hreferring
  · exact resolve_agreesBut h havoids hparameters

theorem verify_withRegistry : (c.withRegistry r).verify = c.verify := rfl

/-- A plan that does not ask for a SQL type is built in the same way under a registry that differs only
for those who do. -/
theorem build_agreesBut (h : plan.registry.AgreesBut label r) (ha : plan.Avoids label) :
    build { plan with registry := r } = (build plan).map (·.withRegistry r) := by
  unfold build
  rw [assemble_agreesBut h ha]
  cases assemble plan with
  | error e => rfl
  | ok c =>
    show (do (c.withRegistry r).verify; .ok (c.withRegistry r)) = Except.map _ (do c.verify; .ok c)
    rw [verify_withRegistry, Except.map_bind]
    rfl

theorem registry_of_build (h : build plan = .ok c) : c.registry = plan.registry := by
  obtain ⟨-, -, -, -, -, -, -, -, -, hregistry⟩ := assemble_eq_ok (assemble_of_build h)
  exact hregistry

theorem parameterClass_resolveStatement {s t : Statement} (h : resolveStatement r s = .ok t) :
    t.parameterClass = s.parameterClass := by
  unfold resolveStatement at h
  split at h
  · split at h <;> cases h
    rfl
  · cases h
    rfl

/-- The parameter classes of a catalog are those of its plan. -/
theorem parameterClass_of_build (h : build plan = .ok c) :
    ∀ entry ∈ c.statements, ∃ s ∈ plan.statements, entry.2.parameterClass = s.parameterClass := by
  obtain ⟨maps, statements, statements', maps', -, hstatements, hauto, -, hresolved, -⟩ :=
    assemble_eq_ok (assemble_of_build h)
  have hindexed : ∀ entry ∈ statements, entry.2 ∈ plan.statements :=
    forall_of_indexById (fun _ => id) (List.forall_mem_nil _) hstatements
  have hclasses : ∀ entry ∈ statements', ∃ s ∈ plan.statements,
      entry.2.parameterClass = s.parameterClass :=
    (forall_of_addAutoMaps (P := fun _ => True)
      (Q := fun t => ∃ s ∈ plan.statements, t.parameterClass = s.parameterClass) (fun _ _ _ => trivial)
      (fun _ _ => id) (fun _ _ => trivial) (fun entry he => ⟨_, hindexed entry he, rfl⟩) hauto).2
  intro entry hentry
  obtain ⟨referring, hmem, hresolve⟩ := Except.exists_of_mapM_ok hresolved hentry
  obtain ⟨s, hs, rfl⟩ := Except.map_eq_ok_iff.1 hresolve
  have hclass : s.parameterClass = referring.2.parameterClass := parameterClass_resolveStatement hs
  dsimp only
  rw [hclass]
  split at hmem
  · obtain ⟨unqualified, hbefore, rfl⟩ := List.mem_map.1 hmem
    exact hclasses unqualified hbefore
  · exact hclasses referring hmem

end Catalog

end RowMapper
