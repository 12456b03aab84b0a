/-
Inferred coercers and the types of beans. A column mapping that names no coercer and no type reads its
column by the coercer for the declared type of its property, and what that coercer reads the property
takes as it is. So a bean is always filled with the values of such mappings, and gives them back
(`ResultMap.fill_inferred`).
-/
import RowMapper.Proofs.Catalog.Resolved
import RowMapper.Proofs.Engine.Columns
import RowMapper.Proofs.Engine.Derived
import RowMapper.Proofs.Engine.Termination
import RowMapper.Proofs.Objects.Stored

namespace RowMapper

variable {session : Session} {load : Load} {m : ResultMap} {f g : Frame} {values : List Value}
  {mapping : ResultMapping} {type : BeanType} {declared : DataType}

/-! ## Properties of one step -/

namespace Text

/-- Two properties that are no paths are apart when they are different. -/
theorem apart_of_no_dot {p q : String} (hp : '.' ∉ p.toList) (hq : '.' ∉ q.toList) (hne : p ≠ q) :
    Apart p q := by
  unfold Apart
  rw [steps_of_no_dot hp, steps_of_no_dot hq]
  constructor
  · intro hstart
    exact hne (List.cons.inj (hstart.eq_of_length rfl)).1
  · intro hstart
    exact hne (List.cons.inj (hstart.eq_of_length rfl)).1.symm

end Text

/-- A property of a bean that is no path is found in the bean itself. -/
theorem BeanType.atPath_of_no_dot {property : String} (hdot : '.' ∉ property.toList)
    (h : type.propertyType? property = some declared) : type.type.atPath property = .ok declared := by
  unfold DataType.atPath BeanType.type
  rw [Text.steps_of_no_dot hdot]
  unfold DataType.atSteps
  unfold BeanType.propertyType? at h
  rw [h]
  rfl

theorem BeanType.undocumented_of_no_dot {property : String} (hdot : '.' ∉ property.toList) :
    type.type.Undocumented property := by
  intro steps hstart hne
  rw [Text.steps_of_no_dot hdot] at hstart hne
  rcases List.prefix_cons_iff.1 hstart with rfl | ⟨rest, rfl, hrest⟩
  · exact nofun
  · exact absurd (congrArg _ (List.prefix_nil.1 hrest)) hne

/-! ## Filling beans -/

/-- A mapping whose property is one of a bean, is no path, and takes a value as it is. -/
structure BeanType.Accepts (type : BeanType) (pair : ResultMapping × Value) : Prop where
  single : '.' ∉ pair.1.property.toList
  fits : ∃ declared, type.propertyType? pair.1.property = some declared ∧
    declared.cast pair.2 = .ok pair.2

/-- Writing a property of a bean that takes the value never fails. -/
theorem Accessor.run_set_bean {accessor : Accessor} (haccessor : accessor.Takes .bean) {s : Store}
    {r : ObjectRef} {fields : List Value} (hdata : s.data r = .bean type fields)
    {pair : ResultMapping × Value} (hpair : type.Accepts pair) :
    ∃ fields', (accessor.set (.object r) pair.1.property pair.2).run s =
      (.ok (), s.setData r (.bean type fields')) := by
  obtain ⟨declared, hdeclared, hcast⟩ := hpair.fits
  have hkind : s.kind r = .bean := by
    unfold Store.kind
    rw [hdata]
    rfl
  have hroot : accessor.root s (.object r) pair.1.property = .ok r :=
    (hkind ▸ haccessor : accessor.Takes (s.kind r)).root _
  obtain ⟨i, hi⟩ := Table.exists_indexOf?_of_get? hdeclared
  have hset : s.setProperty r pair.1.property pair.2 =
      .ok (s.setData r (.bean type (fields.set i pair.2))) := by
    simp [Store.setProperty, hdata, Store.fieldIndex, hi, hdeclared, hcast, bind, Except.bind]
  refine ⟨fields.set i pair.2, ?_⟩
  rw [run_set_root (Text.steps_of_no_dot hpair.single) hroot]
  exact run_change_ok hset

/-- Writing properties of a bean that take their values never fails. -/
theorem Accessor.run_sets_bean {accessor : Accessor} (haccessor : accessor.Takes .bean) {r : ObjectRef} :
    ∀ {pairs : List (ResultMapping × Value)} {s : Store} {fields : List Value},
      r.index < s.objects.size → s.data r = .bean type fields → (∀ pair ∈ pairs, type.Accepts pair) →
        ∃ t, (pairs.forM fun pair => accessor.set (.object r) pair.1.property pair.2).run s = (.ok (), t)
  | [], s, _, _, _, _ => ⟨s, rfl⟩
  | pair :: pairs, s, fields, hlt, hdata, hpairs => by
    rw [List.forall_mem_cons] at hpairs
    obtain ⟨fields', hset⟩ := run_set_bean haccessor hdata hpairs.1
    have hsize : r.index < (s.setData r (.bean type fields')).objects.size := by
      rwa [Store.size_setData]
    obtain ⟨t, hrest⟩ := run_sets_bean haccessor hsize (Store.data_setData_self hlt) hpairs.2
    refine ⟨t, ?_⟩
    show (accessor.set (.object r) pair.1.property pair.2 >>= fun _ =>
      pairs.forM fun pair => accessor.set (.object r) pair.1.property pair.2).run s = _
    rw [run_bind_ok hset, hrest]

/-- A new bean is filled with values that its properties take, and gives them back. -/
theorem ResultMap.setData_accepted {accessor : Accessor} (haccessor : accessor.Takes .bean)
    (hclass : m.resultClass = some type.type) {pairs : List (ResultMapping × Value)}
    (hflat : ∀ pair ∈ pairs, pair.1.isNestedMap = false)
    (hdistinct : (pairs.map (·.1.property)).Nodup) (hpairs : ∀ pair ∈ pairs, type.Accepts pair)
    (s : Store) :
    ∃ object t, (m.exchange.setData accessor m (pairs.map (·.1)) none (pairs.map (·.2))).run s =
        (.ok object, t) ∧
      Exchange.ofValue t object = .bean ∧
      ∀ pair ∈ pairs, accessor.get t object pair.1.property = .ok pair.2 := by
  have hexchange : m.exchange = .bean := by
    unfold exchange
    rw [hclass]
    rfl
  have hblank : m.blank? = some (.newBean type) := by
    unfold blank?
    rw [hexchange, hclass]
    rfl
  have hzip : (pairs.map (·.1)).zip (pairs.map (·.2)) = pairs := (List.zip_of_prod rfl rfl).symm
  have hcolumns : ∀ mapping ∈ pairs.map (·.1), mapping.isNestedMap = false := List.forall_mem_map.2 hflat
  have hlt : (s.newObject (.newBean type)).1.index < (s.newObject (.newBean type)).2.objects.size := by
    rw [Store.size_newObject]
    exact Nat.lt_succ_self _
  obtain ⟨t, hfill⟩ := Accessor.run_sets_bean haccessor hlt (Store.data_newObject_self s _) hpairs
  have hrun : (m.exchange.setData accessor m (pairs.map (·.1)) none (pairs.map (·.2))).run s =
      (.ok (.object (s.newObject (.newBean type)).1), t) := by
    rw [run_setData hblank, assignable_eq_zip hcolumns, hzip, hexchange]
    exact run_bind_ok hfill
  have hapart : ((pairs.map (·.1)).map (·.property)).Pairwise Text.Apart := by
    rw [List.map_map]
    refine hdistinct.imp_of_mem ?_
    intro p q hp hq hne
    obtain ⟨pair, hpair, rfl⟩ := List.mem_map.1 hp
    obtain ⟨other, hother, rfl⟩ := List.mem_map.1 hq
    exact Text.apart_of_no_dot (hpairs pair hpair).single (hpairs other hother).single hne
  have hundocumented : ∀ mapping ∈ pairs.map (·.1), type.type.Undocumented mapping.property :=
    List.forall_mem_map.2 fun pair hpair => BeanType.undocumented_of_no_dot (hpairs pair hpair).single
  obtain ⟨hbean, hget⟩ :=
    get_of_setData_bean hcolumns hapart (fillable_none m _ s) type hclass hundocumented hrun
  rw [hzip] at hget
  refine ⟨_, t, hrun, hbean, fun pair hmem => ?_⟩
  -- what is found at the property is the value cast to its type, which is the value
  obtain ⟨declared, w, hdeclared, hcast, hread⟩ := hget pair hmem
  obtain ⟨declared', hproperty, htakes⟩ := (hpairs pair hmem).fits
  rw [BeanType.atPath_of_no_dot (hpairs pair hmem).single hproperty] at hdeclared
  cases hdeclared
  rw [htakes] at hcast
  cases hcast
  exact hread

/-! ## Rows for beans -/

/-- The mappings that a bean map derives from columns have inferred coercers. -/
theorem ResultMap.inferred_of_derivedFrom {registry : Registry} (hclass : m.resultClass = some type.type)
    {columns : List String}
    (h : mapping ∈ (m.derivedFrom registry columns).map ColumnMapping.mapping) :
    mapping.Inferred registry m.resultClass := by
  obtain ⟨column, hcolumn, rfl⟩ := List.mem_map.1 h
  obtain ⟨plain, hplain, rfl⟩ := List.mem_map.1 hcolumn
  have htype : plain.type = none := by
    unfold DataType.columnMappings at hplain
    rw [hclass] at hplain
    obtain ⟨label, -, hfound⟩ := List.mem_filterMap.1 hplain
    obtain ⟨property, -, rfl⟩ := Option.map_eq_some_iff.1 hfound
    rfl
  show ResultMapping.findCoercer registry plain.type none m.resultClass plain.property = _
  rw [htype]
  rfl

/-- The column mappings that a request reads a bean map with have inferred coercers, if the map was
planned without coercers. -/
theorem ResultMap.inferred_of_build {plan : CatalogPlan} {c : Catalog} {w : World}
    (accepted : Catalog.build plan = .ok c)
    (hm : (w.openSession c).1.catalog.resultMap m.id = .ok m) (hclass : m.resultClass = some type.type)
    (hplanned : ∀ planned ∈ plan.resultMaps, planned.id = m.id → planned.NamesNoCoercers)
    (hf : f.Derived (w.openSession c).1) :
    ∀ mapping ∈ f.mappings m, mapping.route = .column → mapping.Inferred c.registry m.resultClass := by
  intro mapping hmem hroute
  rcases hf.mappings_eq hm with ⟨-, hdeclared⟩ | ⟨columns, hderived⟩
  · obtain ⟨n, hn, he⟩ := resultMap_openSession_ok w hm
    rw [hdeclared, he, declared_atHome] at hmem
    rw [he, resultClass_atHome, Catalog.registry_of_build accepted]
    exact Catalog.coercer_of_build accepted hn hplanned mapping hmem hroute
  · rw [hderived] at hmem
    exact inferred_of_derivedFrom hclass hmem

/-- What a column mapping with an inferred coercer reads for a property of a bean the property takes as
it is. -/
theorem ResultMap.accepts_of_readRow {registry : Registry} (hregistry : registry = .builtin)
    (hclass : m.resultClass = some type.type)
    (hinferred : ∀ mapping ∈ f.mappings m, mapping.route = .column →
      mapping.Inferred registry m.resultClass)
    (hproperties : ∀ mapping ∈ f.mappings m, mapping.route = .column →
      '.' ∉ mapping.property.toList ∧ ∃ declared, type.propertyType? mapping.property = some declared)
    (hread : (m.readRow session load).run f = (.ok values, g)) :
    ∀ pair ∈ (f.mappings m).zip values, pair.1.route = .column → type.Accepts pair := by
  intro pair hmem hroute
  have hmapping := (List.of_mem_zip hmem).1
  obtain ⟨hdot, declared, hdeclared⟩ := hproperties pair.1 hmapping hroute
  obtain ⟨c, stored, hc, -, hconvert⟩ := List.forall₂_zip (readRow_cells hread) hmem hroute
  refine ⟨hdot, declared, hdeclared, ?_⟩
  have hfound := hinferred pair.1 hmapping hroute
  unfold ResultMapping.Inferred at hfound
  rw [hc, hclass, hregistry] at hfound
  exact ResultMapping.cast_of_findCoercer rfl (BeanType.atPath_of_no_dot hdot hdeclared) hfound.symm
    (Coercer.cast_of_convert hconvert)

/-- A map for beans names no coercers and no types for its columns, whose properties are distinct ones
of the bean itself. Whenever a row is read with it in a catalog with the built-in coercers, whose
accessor takes beans, a new bean is filled with the values of the columns, and each property gives back
the value that was read. -/
theorem ResultMap.fill_inferred {plan : CatalogPlan} {c : Catalog} (w : World)
    (accepted : Catalog.build plan = .ok c) (hregistry : c.registry = .builtin)
    (haccessor : c.accessor.Takes .bean)
    (hm : (w.openSession c).1.catalog.resultMap m.id = .ok m) (hclass : m.resultClass = some type.type)
    (hplanned : ∀ planned ∈ plan.resultMaps, planned.id = m.id → planned.NamesNoCoercers)
    (hf : f.Derived (w.openSession c).1)
    (hproperties : ∀ mapping ∈ f.mappings m, mapping.route = .column →
      '.' ∉ mapping.property.toList ∧ ∃ declared, type.propertyType? mapping.property = some declared)
    (hdistinct : (((f.mappings m).filter (·.route = .column)).map (·.property)).Nodup)
    (hread : (m.readRow (w.openSession c).1 load).run f = (.ok values, g)) (s : Store) :
    let pairs := ((f.mappings m).zip values).filter (·.1.route = .column)
    ∃ object t, (m.exchange.setData c.accessor m (pairs.map (·.1)) none (pairs.map (·.2))).run s =
        (.ok object, t) ∧
      Exchange.ofValue t object = .bean ∧
      ∀ pair ∈ pairs, c.accessor.get t object pair.1.property = .ok pair.2 := by
  intro pairs
  have hinferred := inferred_of_build accepted hm hclass hplanned hf
  have haccepts := accepts_of_readRow hregistry hclass hinferred hproperties hread
  have hcolumn : ∀ pair ∈ pairs, pair ∈ (f.mappings m).zip values ∧ pair.1.route = .column := by
    intro pair hmem
    obtain ⟨hzip, hroute⟩ := List.mem_filter.1 hmem
    exact ⟨hzip, by simpa using hroute⟩
  have hflat : ∀ pair ∈ pairs, pair.1.isNestedMap = false := by
    intro pair hmem
    unfold ResultMapping.isNestedMap
    rw [(hcolumn pair hmem).2]
  have hmappings : pairs.map (·.1) = (f.mappings m).filter (·.route = .column) := by
    have hlength := (readRow_cells hread).length_eq
    conv_rhs => rw [← List.map_fst_zip (Nat.le_of_eq hlength), List.filter_map]
    rfl
  have hproperty : (pairs.map (·.1.property)).Nodup := by
    rw [← hmappings, List.map_map] at hdistinct
    exact hdistinct
  exact setData_accepted haccessor hclass hflat hproperty
    (fun pair hmem => haccepts pair (hcolumn pair hmem).1 (hcolumn pair hmem).2) s

/-- A map for beans with a number and a text, for which a text stands in when the column is null. -/
def ResultMap.labelled (number text : Option Coercer) : ResultMap where
  id := "P"
  resultClass := some (.bean "P" [("k", .i32), ("x", .string)])
  mappings := .declared
    [{ property := "k", coercer := number }, { property := "x", nullValue := some "none", coercer := text }]

/-- The plan of a catalog with that map, which leaves its coercers to be found. -/
def CatalogPlan.labelled (accessor : Accessor) : CatalogPlan :=
  { resultMaps := [.labelled none none], accessor }

/-- The catalog that is built from it. -/
def Catalog.labelled (accessor : Accessor) : Catalog :=
  { resultMaps := [("P", .labelled (some .i32) (some .string))], accessor }

theorem Catalog.build_labelled (accessor : Accessor) :
    build (.labelled accessor) = .ok (.labelled accessor) := rfl

theorem ResultMap.fill_inferred_labelled :
    let session := (({} : World).openSession (.labelled (.only .bean))).1
    let m := ResultMap.labelled (some .i32) (some .string)
    let f := rowFrame {} (.string "5") .null
    ∃ g, (m.readRow session session.loader).run f = (.ok [.i32 5, .string "none"], g) ∧
      ∀ s, ∃ object t,
        (m.exchange.setData (.only .bean) m m.declared none [.i32 5, .string "none"]).run s =
          (.ok object, t) ∧
        Accessor.get (.only .bean) t object "k" = .ok (.i32 5) ∧
        Accessor.get (.only .bean) t object "x" = .ok (.string "none") := by
  intro session m f
  obtain ⟨g, hread⟩ : ∃ g, (m.readRow session session.loader).run f =
    (.ok [.i32 5, .string "none"], g) := ⟨_, rfl⟩
  have hproperties : ∀ mapping ∈ f.mappings m, mapping.route = .column → '.' ∉ mapping.property.toList ∧
      ∃ declared, BeanType.propertyType? ⟨"P", [("k", .i32), ("x", .string)]⟩ mapping.property =
        some declared := by
    intro mapping hmem _
    rcases List.mem_cons.1 hmem with rfl | hmem
    · exact ⟨by decide, .i32, rfl⟩
    · obtain rfl := List.mem_singleton.1 hmem
      exact ⟨by decide, .string, rfl⟩
  have hplanned : ∀ planned ∈ (CatalogPlan.labelled (.only .bean)).resultMaps, planned.id = m.id →
      planned.NamesNoCoercers := by
    intro planned hmem _ mapping hmapping _
    obtain rfl := List.mem_singleton.1 hmem
    rcases List.mem_cons.1 hmapping with rfl | hmapping
    · exact ⟨rfl, rfl⟩
    · obtain rfl := List.mem_singleton.1 hmapping
      exact ⟨rfl, rfl⟩
  have hderived : f.Derived session := (Frame.Derived.inner (World.derived_of_nil rfl session)).next rfl
    (Std.Refl.refl _)
  refine ⟨g, hread, fun s => ?_⟩
  obtain ⟨object, t, hrun, -, hget⟩ := ResultMap.fill_inferred {} (Catalog.build_labelled (.only .bean)) rfl
    (.inr rfl) rfl rfl hplanned hderived hproperties (by decide) hread s
  exact ⟨object, t, hrun, hget _ (List.mem_cons_self ..),
    hget _ (List.mem_cons_of_mem _ (List.mem_cons_self ..))⟩

/-- An accessor for maps refuses the bean. -/
theorem ResultMap.labelled_refused :
    let session := (({} : World).openSession (.labelled (.only .map))).1
    let m := ResultMap.labelled (some .i32) (some .string)
    let f := rowFrame {} (.string "5") .null
    ∃ g, Catalog.build (.labelled (.only .map)) = .ok (.labelled (.only .map)) ∧
      session.catalog.resultMap "P" = .ok m ∧
      (m.readRow session session.loader).run f = (.ok [.i32 5, .string "none"], g) ∧
      ((m.exchange.setData session.catalog.accessor m m.declared none [.i32 5, .string "none"]).run {}).1 =
        .error (.configuration (.wrongAccessor "k" .map "P")) :=
  ⟨_, rfl, rfl, rfl, rfl⟩

end RowMapper
