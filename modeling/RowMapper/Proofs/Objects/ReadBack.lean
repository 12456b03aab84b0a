/-
What a result map writes, a parameter map reads back. An object that a map without nested maps and
selects makes from a row is given to a parameter map of inputs for the same properties. These bind, one
after the other, what the object stores: a bean the values of the row as they are declared, and a map
the values themselves, but null for a property that is a path.
-/
import RowMapper.Proofs.Engine.Key
import RowMapper.Proofs.Objects.Stored
import RowMapper.Proofs.Statement.Binding

namespace RowMapper

variable {session : Session} {load : Load} {f g h : Frame} {m : ResultMap} {values : List Value}

/-- The mappings that were derived so far are the same. -/
abbrev World.SameDerived (w w' : World) : Prop := w'.derived = w.derived

instance : World.Lasts World.SameDerived where
  refl _ := rfl
  trans _ _ _ h h' := h'.trans h
  store _ _ := rfl
  calls _ _ := rfl

/-- The mappings of a map depend on nothing but what was derived, and what the request has. -/
theorem Frame.SteadyAlong.mappings_eq (h : Frame.SteadyAlong World.SameDerived f g) (m : ResultMap) :
    g.mappings m = f.mappings m := by
  unfold Frame.mappings World.declaredMappings
  rw [h.mappings, h.world]

/-! ## Rows of columns -/

/-- Reading columns derives no mappings. -/
theorem ResultMap.readRow_columns (session : Session) (load : Load)
    (hcolumns : ∀ mapping ∈ f.mappings m, mapping.route = .column) :
    Frame.SteadyAlong World.SameDerived f ((m.readRow session load).run f).2 := by
  have hone : ∀ mapping ∈ f.mappings m,
      OnRow World.SameDerived True (m.readMapping session load mapping) := by
    intro mapping hmem
    unfold readMapping
    rw [hcolumns mapping hmem]
    exact OnRow.bind (OnRow.modifyContext _) fun _ => OnRow.readColumn mapping
  have hrest : OnRow World.SameDerived True (do
      let values ← (f.mappings m).mapM (m.readMapping session load)
      Frame.modifyRequest fun r => { r with rowDataFound := values.any fun v => !v.isNull }
      return values) :=
    OnRow.bind (Keeps.mapM hone).always fun _ =>
      OnRow.bind (OnRow.modifyRequest fun _ => ⟨rfl, rfl, rfl, rfl⟩) fun _ => .pure
  unfold readRow
  rw [run_bind_ok (x := Frame.modifyContext _) rfl, run_gets_bind]
  refine IsTrans.trans _ _ _ ?_ (hrest _ trivial).2.1
  exact ⟨rfl, rfl, rfl, rfl, rfl⟩

/-- A row of columns has a value for each mapping, and the map is read with the same mappings behind. -/
theorem Session.readValues_columns {effective : ResultMap}
    (hcolumns : ∀ mapping ∈ f.mappings effective, mapping.route = .column)
    (hrun : (session.readValues load m).run f = (.ok (some (effective, values)), g)) :
    g.mappings effective = f.mappings effective ∧ (f.mappings effective).length = values.length := by
  obtain ⟨reached, f₁, hresolve, hrun⟩ := run_bind_eq_ok.1 hrun
  obtain ⟨row, f₂, hrow, hrun⟩ := run_bind_eq_ok.1 hrun
  obtain ⟨found, f₃, hfound, hrun⟩ := run_bind_eq_ok.1 hrun
  cases hfound
  obtain ⟨rfl, rfl, rfl⟩ : reached = effective ∧ row = values ∧ f₂ = g := by
    split at hrun <;> cases hrun
    exact ⟨rfl, rfl, rfl⟩
  have hbefore : Frame.SteadyAlong World.SameDerived f f₁ := by
    have hsteady := (OnRow.resolveSubMap (R := World.SameDerived) (x := True) m session.catalog f trivial).2.1
    rwa [hresolve] at hsteady
  have hsame := hbefore.mappings_eq reached
  have hrest := ResultMap.readRow_columns session load (hsame ▸ hcolumns)
  rw [hrow] at hrest
  exact ⟨(hrest.mappings_eq reached).trans hsame, hsame ▸ (readRow_values hrow).length_eq⟩

/-- The object that is made from a row without nested elements is the one that the values were put
into, and nothing is done to it behind. -/
theorem ResultMap.build_flat {depth : Nat} {target : Option Value} {object : Value}
    (hflat : ∀ mapping ∈ g.mappings m, mapping.isNestedMap = false)
    (hrun : (ResultMap.build session load depth m target values).run g = (.ok (some object), h)) :
    (m.exchange.setData session.catalog.accessor m (g.mappings m) target values).run g.world.store =
      (.ok object, h.world.store) := by
  cases depth with
  | zero => cases hrun
  | succ depth =>
    rcases Call.run_eq_ok (c := ⟨m, target, values, g⟩) hrun with ⟨-, hnone⟩ | ⟨subject, k, hsubject, hnested, hout⟩
    · cases hnone
    · obtain ⟨-, hmappings, hobject⟩ := Call.subject_eq_some hsubject
      have hnew : subject.isNew = true := by
        by_contra hnew
        rw [if_neg hnew] at hout
        cases hout
      rw [if_pos hnew, Option.some.injEq] at hout
      subst hout
      rcases hobject with ⟨hold, -⟩ | ⟨-, -, hbuild⟩
      · rw [hnew] at hold
        cases hold
      · have hnone : subject.mappings.any ResultMapping.isNestedMap = false := by
          rw [hmappings, List.any_eq_false]
          exact fun mapping hmem => by simp [hflat mapping hmem]
        obtain rfl : h = k := by
          rcases assembleNested_eq_ok hnested with ⟨-, rfl⟩ | ⟨hsome, -⟩
          · rfl
          · rw [hnone] at hsome
            cases hsome
        unfold ResultMap.buildNew at hbuild
        obtain ⟨v, u, hset, hbuild⟩ := run_bind_eq_ok.1 hbuild
        obtain ⟨_, u', hremember, hbuild⟩ := run_bind_eq_ok.1 hbuild
        cases hbuild
        obtain ⟨s, hdata, rfl⟩ := run_edit_eq_ok.1 hset
        rw [hmappings] at hdata
        unfold Frame.remember at hremember
        split at hremember <;> cases hremember <;> exact hdata

/-! ## Parameters -/

/-- The coercer that the parameter class leads to for an input without a type of its own takes what a map
stores: it takes any value, or the class is that of the map and the coercer is for the declared type. -/
def ResultMap.Suits (m : ResultMap) (registry : Registry) (parameterClass : Option DataType)
    (mapping : ParameterMapping) : Prop :=
  ∀ owner type c, parameterClass = some owner → owner.isBean = true →
    owner.atPath mapping.property = .ok type → registry.find? type mapping.sqlType = some c →
    c = .object ∨ m.resultClass = some owner ∧ c.type = type

theorem ResultMap.Suits.cast {registry : Registry} {parameterClass : Option DataType}
    {mapping : ParameterMapping} (h : m.Suits registry parameterClass mapping) {v w : Value}
    (hstores : m.Stores mapping.property v w) :
    ∃ c, ResultMapping.findCoercer registry none mapping.sqlType parameterClass mapping.property = some c ∧
      c.type.cast w = .ok w := by
  refine ⟨_, rfl, ?_⟩
  cases hfound : (do
      let owner ← parameterClass
      if owner.isBean then registry.find? (← (owner.atPath mapping.property).toOption) mapping.sqlType
      else none) with
  | none => exact DataType.cast_object w
  | some c =>
    obtain ⟨owner, howner, hfound⟩ := Option.bind_eq_some_iff.1 hfound
    split at hfound
    · rename_i hbean
      obtain ⟨type, htype, hfind⟩ := Option.bind_eq_some_iff.1 hfound
      have hdeclared : owner.atPath mapping.property = .ok type := by
        cases hp : owner.atPath mapping.property <;> rw [hp] at htype <;> cases htype
        rfl
      rcases h owner type c howner hbean hdeclared hfind with rfl | ⟨hclass, hc⟩
      · exact DataType.cast_object w
      · cases owner with
        | bean name properties =>
          unfold ResultMap.Stores at hstores
          rw [hclass] at hstores
          obtain ⟨declared, hd, hcast⟩ := hstores
          cases hd.symm.trans hdeclared
          exact hc ▸ DataType.cast_cast hcast
        | _ => cases hbean
    · cases hfound

/-- An object that is made from a row of columns, whose properties do not lead into each other, gives at
each of them what it stores there. -/
theorem ResultMap.get_of_build {effective : ResultMap} {depth : Nat} {target : Option Value}
    {object : Value} (hread : (session.readValues load m).run f = (.ok (some (effective, values)), g))
    (hbuild : (ResultMap.build session load depth effective target values).run g = (.ok (some object), h))
    (hclass : effective.exchange = .map ∨ effective.exchange = .bean)
    (hcolumns : ∀ mapping ∈ f.mappings effective, mapping.route = .column)
    (hapart : ((f.mappings effective).map (·.property)).Pairwise Text.Apart)
    (hdom : ∀ type, effective.resultClass = some type →
      ∀ mapping ∈ f.mappings effective, type.Undocumented mapping.property)
    (htarget : effective.Fillable (f.mappings effective) g.world.store target)
    (haccessor : effective.exchange = .map → session.catalog.accessor.Takes .map) :
    Exchange.ofValue h.world.store object = effective.exchange ∧
      ∀ property ∈ (f.mappings effective).map (·.property), ∃ bound,
        session.catalog.accessor.get h.world.store object property = .ok bound ∧
          ∃ pair ∈ (f.mappings effective).zip values, pair.1.property = property ∧
            effective.Stores property pair.2 bound := by
  obtain ⟨hsame, hlength⟩ := Session.readValues_columns hcolumns hread
  have hflat : ∀ mapping ∈ f.mappings effective, mapping.isNestedMap = false := fun mapping hmem => by
    unfold ResultMapping.isNestedMap
    rw [hcolumns mapping hmem]
  have hdata := build_flat (hsame ▸ hflat) hbuild
  rw [hsame] at hdata
  obtain ⟨hvalue, hstored⟩ := get_of_setData hflat hapart htarget hclass hdom haccessor hdata
  refine ⟨hvalue, fun property hmem => ?_⟩
  rw [← List.map_fst_zip (Nat.le_of_eq hlength), List.map_map] at hmem
  obtain ⟨pair, hpair, rfl⟩ := List.mem_map.1 hmem
  obtain ⟨bound, hstores, hget⟩ := hstored pair hpair
  exact ⟨bound, hget, pair, hpair, rfl, hstores⟩

/-- An object that is made from a row of columns, whose properties do not lead into each other, gives a
parameter map of inputs with these properties, one after the other, what it stores there. -/
theorem ResultMap.bind_of_build {effective : ResultMap} {depth : Nat} {target : Option Value}
    {object : Value} {pm resolved : ParameterMap} {parameterClass : Option DataType}
    (hread : (session.readValues load m).run f = (.ok (some (effective, values)), g))
    (hbuild : (ResultMap.build session load depth effective target values).run g = (.ok (some object), h))
    (hclass : effective.exchange = .map ∨ effective.exchange = .bean)
    (hcolumns : ∀ mapping ∈ f.mappings effective, mapping.route = .column)
    (hapart : ((f.mappings effective).map (·.property)).Pairwise Text.Apart)
    (hdom : ∀ type, effective.resultClass = some type →
      ∀ mapping ∈ f.mappings effective, type.Undocumented mapping.property)
    (htarget : effective.Fillable (f.mappings effective) g.world.store target)
    (haccessor : effective.exchange = .map → session.catalog.accessor.Takes .map)
    (hbare : ∀ mapping ∈ pm.mappings, mapping.Bare)
    (hproperties : ∀ mapping ∈ pm.mappings, mapping.property ∈ (f.mappings effective).map (·.property))
    (hsuits : ∀ mapping ∈ pm.mappings, effective.Suits session.catalog.registry parameterClass mapping)
    (hresolve : pm.resolve session.catalog.registry parameterClass = .ok resolved) :
    ∃ params, resolved.bind session.catalog.accessor h.world.store object = .ok params ∧
      List.Forall₂ (fun mapping bound => ∃ pair ∈ (f.mappings effective).zip values,
        pair.1.property = mapping.property ∧ effective.Stores mapping.property pair.2 bound)
        pm.mappings params.values := by
  obtain ⟨hvalue, hstored⟩ :=
    get_of_build hread hbuild hclass hcolumns hapart hdom htarget haccessor
  -- every input reads what the object stores at its property
  have hinput := fun mapping hmem => hstored mapping.property (hproperties mapping hmem)
  choose! bound hget hstores using hinput
  -- and its coercer takes that
  have hhands : List.Forall₂ (fun mapping result =>
      session.catalog.accessor.get h.world.store object result.property = .ok (bound mapping) ∧
        result.Hands (bound mapping)) pm.mappings resolved.mappings := by
    refine ((List.forall₂_and_left _ _).2 ⟨fun _ hmem => hmem, ParameterMap.resolve_bare hbare hresolve⟩).imp ?_
    rintro mapping result ⟨hmem, hproperty, hmode, hnull, hcoercer⟩
    obtain ⟨pair, -, -, hstored⟩ := hstores mapping hmem
    obtain ⟨c, hfound, hcast⟩ := (hsuits mapping hmem).cast hstored
    exact ⟨hproperty ▸ hget mapping hmem, hmode, hnull, c, hcoercer.trans hfound, hcast⟩
  have hobject : Exchange.ofValue h.world.store object = .map ∨
      Exchange.ofValue h.world.store object = .bean := hvalue ▸ hclass
  obtain ⟨params, hbind, hparams⟩ :=
    ParameterMap.bind_values hobject (List.forall₂_map_right_iff.2 hhands.flip)
  refine ⟨params, hbind, ?_⟩
  rw [hparams]
  exact List.forall₂_map_right_iff.2 (List.forall₂_same.2 hstores)

/-- A request on a row of two columns, with what is stored already. -/
def Frame.onRow (row : List Value) (store : Store) : Frame where
  world := { store }
  request := { phase := .executing, rows := some { columns := ["A", "B"], rows := [row], current := some row } }

/-- A map with a property for each of the two columns. -/
def ResultMap.ofColumns (resultClass : Option DataType) (properties : List String) : ResultMap where
  id := "m"
  resultClass := resultClass
  mappings := .declared <| (properties.zip ["A", "B"]).map fun (property, column) =>
    { property, column := some column, coercer := some .object }

/-- The inputs for properties. -/
def ParameterMap.ofProperties (properties : List String) : ParameterMap where
  id := "p"
  mappings := properties.map fun property => { property }

/-- A bean type with another in it. -/
def DataType.order : DataType := .bean "Order" [("id", .i32), ("shop", .bean "Shop" [("name", .string)])]

theorem ResultMap.bind_of_build_order :
    let session : Session := { number := 0, catalog := {} }
    let m := ResultMap.ofColumns (some .order) ["shop.name", "id"]
    let f := Frame.onRow [.i32 5, .i64 7] {}
    ∃ g h object resolved params,
      (session.readValues session.loader m).run f = (.ok (some (m, [.i32 5, .i64 7])), g) ∧
      (ResultMap.build session session.loader 1 m none [.i32 5, .i64 7]).run g = (.ok (some object), h) ∧
      (ParameterMap.ofProperties ["id", "shop.name"]).resolve .builtin (some .order) = .ok resolved ∧
      resolved.bind .generic h.world.store object = .ok params ∧
      List.Forall₂ (fun mapping bound => ∃ pair ∈ (f.mappings m).zip [.i32 5, .i64 7],
        pair.1.property = mapping.property ∧ m.Stores mapping.property pair.2 bound)
        (ParameterMap.ofProperties ["id", "shop.name"]).mappings params.values := by
  intro session m f
  let context : ErrorContext :=
    { activity := some "applying a result map"
      objectId := some "m"
      moreInfo := some "Check the result mapping for the 'id' property." }
  let g : Frame := { f with request := { f.request with context, rowDataFound := true } }
  have hread : (session.readValues session.loader m).run f = (.ok (some (m, [.i32 5, .i64 7])), g) := rfl
  obtain ⟨h, hbuild⟩ : ∃ h, (ResultMap.build session session.loader 1 m none [.i32 5, .i64 7]).run g =
    (.ok (some (.object ⟨0⟩)), h) := ⟨_, rfl⟩
  obtain ⟨resolved, hresolve⟩ : ∃ resolved,
    (ParameterMap.ofProperties ["id", "shop.name"]).resolve .builtin (some .order) = .ok resolved := ⟨_, rfl⟩
  have hsuits : ∀ mapping ∈ (ParameterMap.ofProperties ["id", "shop.name"]).mappings,
      m.Suits .builtin (some .order) mapping := by
    intro mapping hmem owner type c howner _ htype hfind
    cases howner
    obtain ⟨property, hproperty, rfl⟩ := List.mem_map.1 hmem
    simp only [List.mem_cons, List.not_mem_nil, or_false] at hproperty
    rcases hproperty with rfl | rfl <;> cases htype <;> cases hfind <;> exact .inr ⟨rfl, rfl⟩
  have hproperties : (f.mappings m).map (·.property) = ["shop.name", "id"] := rfl
  have hapart : ((f.mappings m).map (·.property)).Pairwise Text.Apart := by
    rw [hproperties]
    decide
  have hpaths : ∀ property ∈ ["shop.name", "id"], DataType.order.Undocumented property := by decide
  have hdom : ∀ type, m.resultClass = some type →
      ∀ mapping ∈ f.mappings m, type.Undocumented mapping.property := by
    intro type htype mapping hmem
    cases htype
    exact hpaths _ (hproperties ▸ List.mem_map_of_mem hmem)
  have hcolumns : ∀ mapping ∈ f.mappings m, mapping.route = .column := by
    intro mapping hmem
    obtain ⟨_, -, rfl⟩ := List.mem_map.1 hmem
    rfl
  have hbare : ∀ mapping ∈ (ParameterMap.ofProperties ["id", "shop.name"]).mappings, mapping.Bare := by
    intro mapping hmem
    obtain ⟨_, -, rfl⟩ := List.mem_map.1 hmem
    exact ⟨rfl, rfl, rfl, rfl⟩
  have hinputs : ∀ mapping ∈ (ParameterMap.ofProperties ["id", "shop.name"]).mappings,
      mapping.property ∈ (f.mappings m).map (·.property) := by
    rw [hproperties]
    decide
  obtain ⟨params, hbind, hbound⟩ := bind_of_build hread hbuild (.inr rfl) hcolumns hapart hdom
    (fillable_none _ _ _) nofun hbare hinputs hsuits hresolve
  exact ⟨g, h, _, resolved, params, hread, hbuild, hresolve, hbind, hbound⟩

/-- The values that inputs bind of the object that a map makes from a row. -/
def ResultMap.readBack (m : ResultMap) (catalog : Catalog) (f : Frame) (target : Option Value)
    (pm : ParameterMap) (parameterClass : Option DataType) : Option (List Value) :=
  let session : Session := { number := 0, catalog }
  match (session.readValues session.loader m).run f with
  | (.ok (some (effective, values)), g) =>
    match (ResultMap.build session session.loader nestingBound effective target values).run g with
    | (.ok (some object), h) =>
      match (pm.resolve catalog.registry parameterClass).bind
        (·.bind catalog.accessor h.world.store object) with
      | .ok params => some params.values
      | .error _ => none
    | _ => none
  | _ => none

/-- What is bound is not what the row holds, as it is declared: at a path in a map; behind a document;
when the parameter class is not that of the map, or has a coercer of another type; when the accessor takes
no maps; and when an object was given whose parts are shared or not of the declared types, or a map with
something at the path already. -/
theorem ResultMap.readBack_differs :
    let shared : Store := { objects := #[
      .bean ⟨"Q", [("n", .i32)]⟩ [.null],
      .bean ⟨"P", [("a", .bean "Q" [("n", .i32)]), ("b", .bean "Q" [("n", .i32)])]⟩ [.object ⟨0⟩, .object ⟨0⟩]] }
    let loose : Store := { objects := #[.map [], .bean ⟨"P", [("a", .bean "Q" [("n", .string)])]⟩ [.object ⟨0⟩]] }
    let other : Store := { objects := #[.bean ⟨"Q", [("n", .i32)]⟩ [.null]] }
    let filled : Store := { objects := #[.map [("b", .i32 9)], .map [("a", .object ⟨0⟩)]] }
    (ofColumns (some .map) ["a.b"]).readBack {} (.onRow [.string "x"] {}) none (.ofProperties ["a.b"]) none =
      some [.null] ∧
    (ofColumns (some (.bean "P" [("d", .dom)])) ["d.n"]).readBack {} (.onRow [.i32 5] {}) none
      (.ofProperties ["d.n"]) none = some [.string "5"] ∧
    (ofColumns (some .map) ["n"]).readBack {} (.onRow [.i32 5] {}) none (.ofProperties ["n"])
      (some (.bean "Q" [("n", .string)])) = some [.string "5"] ∧
    (ofColumns (some (.bean "P" [("n", .i32)])) ["n"]).readBack
      { registry := Registry.builtin.register .i32 none .string } (.onRow [.i32 5] {}) none (.ofProperties ["n"])
      (some (.bean "P" [("n", .i32)])) = some [.string "5"] ∧
    (ofColumns (some .map) ["n"]).readBack { accessor := .only .bean } (.onRow [.i32 5] {}) none
      (.ofProperties ["n"]) none = none ∧
    (ofColumns (some (.bean "P" [("a", .bean "Q" [("n", .i32)]), ("b", .bean "Q" [("n", .i32)])]))
      ["a.n", "b.n"]).readBack {} (.onRow [.i32 1, .i32 2] shared) (some (.object ⟨1⟩))
      (.ofProperties ["a.n", "b.n"]) none = some [.i32 2, .i32 2] ∧
    (ofColumns (some (.bean "P" [("a", .bean "Q" [("n", .string)])])) ["a.n"]).readBack {}
      (.onRow [.i32 5] loose) (some (.object ⟨1⟩)) (.ofProperties ["a.n"]) none = some [.i32 5] ∧
    (ofColumns (some (.bean "P" [("n", .string)])) ["n"]).readBack {} (.onRow [.i32 5] other)
      (some (.object ⟨0⟩)) (.ofProperties ["n"]) none = some [.i32 5] ∧
    (ofColumns (some .map) ["a.b"]).readBack {} (.onRow [.string "x"] filled) (some (.object ⟨1⟩))
      (.ofProperties ["a.b"]) none = some [.i32 9] :=
  ⟨rfl, rfl, rfl, rfl, rfl, rfl, rfl, rfl, rfl⟩

end RowMapper
