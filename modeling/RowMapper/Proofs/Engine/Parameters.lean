/-
Parameters of nested selects. An object that is filled by the pairs of a specifier has at the place of
each pair what the pair plants there, and nothing else, so that the order of the pairs does not matter
(`ResultMapping.objectParameter_perm`) as long as no two of them meet: in a document, which keeps the
order in which it got its elements, or in an inner bean that a pair writes to, whose properties tell how
a column is read only when it is there.
-/
import RowMapper.Proofs.Access.Alike
import RowMapper.Proofs.Engine.Pairs

namespace RowMapper

open Store

/-! ## Inner beans apart -/

/-- The type that a column is read as when no pair makes the object that another pair writes to. -/
def DataType.askedAt (type : DataType) (path : String) : Except Error DataType :=
  if (Text.steps path).length = 1 then type.atPath path else .ok .object

/-- The accessor takes objects of the type, and a path asks for a type whatever was written before. -/
structure Catalog.AsksAlone (catalog : Catalog) (type : DataType) (path : String) (declared : DataType) :
    Prop where
  takes : ∀ d : ObjectData, d.Of type → catalog.accessor.Takes d.kind
  asked : type.askedAt path = .ok declared

namespace Filled

variable {catalog : Catalog} {f₀ f g : Frame} {root : ObjectRef} {type declared : DataType}
  {paths : List String} {parts : List (List String × Planted)} {pairs : List (String × String)}
  {pair : String × String} {place : List String × Planted}

/-- The object that holds the last step of a path is a map, or it is the root, or it is missing. -/
theorem asks_alone (hf : f₀.Complete) (h : Filled f₀ f root type parts)
    (hp : Pending type paths parts (pair :: pairs)) (hown : type.OwnBeans paths)
    (htakes : catalog.accessor.Takes (f.world.store.kind root)) :
    catalog.accessor.setterType f.world.store (.object root) pair.1 = type.askedAt pair.1 ∨
    (∃ e, catalog.accessor.setterType f.world.store (.object root) pair.1 = .error e) ∧
      ∀ τ place, ¬catalog.PlantsAs f₀ type τ pair place := by
  unfold DataType.askedAt
  rcases asks hf h hp htakes with ⟨a, last, hsteps, ha, htype⟩ | ⟨hlength, htype⟩ | hnone
  · refine .inl (htype.trans ?_)
    by_cases hnil : a = []
    · subst hnil
      rw [if_pos (by rw [hsteps]; rfl)]
    obtain ⟨x, σ, hx⟩ := h.layout.object ha
    have hmap : σ.isBean = false := by
      cases σ with
      -- a bean here was made by another pair that goes into it, which is ruled out
      | bean name properties =>
        obtain ⟨place, hplace, hle, -⟩ := ha.resolve_left hnil
        obtain ⟨q, hq, hof, hne⟩ := hp.others place hplace
        have hpair := List.mem_cons_self (a := pair) (l := pairs)
        have hapart := hown pair.1 (hp.among pair hpair) q hq (hne pair hpair).symm
        rw [hsteps, List.dropLast_concat, DataType.beanAt, hx.declared] at hapart
        exact absurd (hle.trans hof.isPrefix) (hapart hnil rfl)
      | _ => rfl
    have hlength : (Text.steps pair.1).length ≠ 1 := by
      rw [hsteps, List.length_append, List.length_singleton]
      exact fun he => hnil (List.eq_nil_of_length_eq_zero (Nat.succ.inj he))
    rw [if_neg hlength, DataType.atPath, hsteps, DataType.atSteps_append, hx.declared]
    exact DataType.atSteps_single hmap last
  · rw [if_neg (by omega)]
    exact .inl htype
  · exact .inr hnone

/-- Pairs of which each plants something fill an object to the end. -/
theorem run_total (hf : f₀.Complete) (hown : type.OwnBeans paths) :
    ∀ {pairs f parts}, Filled f₀ f root type parts → Pending type paths parts pairs →
      (∀ pair ∈ pairs, ∃ place, catalog.Plants f₀ type (catalog.AsksAlone type) pair place) →
      ∃ g, (pairs.forM (catalog.writePair (.object root))).run f = (.ok (), g)
  | [], f, _, _, _, _ => ⟨f, rfl⟩
  | pair :: pairs, f, parts, h, hp, hall => by
    obtain ⟨⟨place, declared, hasked, hplants⟩, hall⟩ := List.forall_mem_cons.1 hall
    have htakes : catalog.accessor.Takes (f.world.store.kind root) :=
      hasked.takes _ (h.layout.inner_root (.inl rfl)).of
    have hdeclared : catalog.accessor.setterType f.world.store (.object root) pair.1 = .ok declared :=
      ((asks_alone hf h hp hown htakes).resolve_right fun hnone => hnone.2 _ _ hplants).trans hasked.asked
    have hstep := step hf h hp hdeclared
    obtain ⟨u, hone⟩ := hstep.2 place hplants
    obtain ⟨place', ⟨_, _, _, _, hplant⟩, hu⟩ := hstep.1 u hone
    obtain ⟨g, hrest⟩ := run_total hf hown hu (hp.tail (DataType.place_of_plant hplant)) hall
    exact ⟨g, run_bind_eq_ok.2 ⟨(), u, hone, hrest⟩⟩

/-- What pairs leave does not depend on what they are asked in between, when each of them plants one
thing alone. -/
theorem alike (hf : f₀.Complete) {asked : String → DataType → Prop} {pairs' : List (String × String)}
    {places places' : List (List String × Planted)} (hg : Filled f₀ f root type places)
    (hg' : Filled f₀ g root type places') (hall : catalog.PlantsAll f₀ type asked pairs [] places)
    (hall' : catalog.PlantsAll f₀ type asked pairs' [] places') (hmem : ∀ pair, pair ∈ pairs ↔ pair ∈ pairs')
    (hunique : ∀ pair ∈ pairs, ∀ place place', catalog.Plants f₀ type asked pair place →
      catalog.Plants f₀ type asked pair place' → place = place') :
    f.world.store.Alike g.world.store (.object root) (.object root) := by
  -- both orders fill the same places, since each pair plants one thing in either
  have hplaces : ∀ place, place ∈ places' ↔ place ∈ places := by
    intro place
    constructor
    · intro hplace
      obtain ⟨pair, hpair, hplants⟩ := (hall'.new place hplace).resolve_left List.not_mem_nil
      obtain ⟨place', hplace', hplants'⟩ := hall.all pair ((hmem pair).2 hpair)
      rwa [hunique pair ((hmem pair).2 hpair) place place' hplants hplants']
    · intro hplace
      obtain ⟨pair, hpair, hplants⟩ := (hall.new place hplace).resolve_left List.not_mem_nil
      obtain ⟨place', hplace', hplants'⟩ := hall'.all pair ((hmem pair).1 hpair)
      rwa [hunique pair hpair place place' hplants hplants']
  refine hg.layout.alike (hg'.layout.congr (fun a => ?_) fun d planted => hplaces _) hf.store (.inl rfl)
    fun d v hv => ?_
  · simp [InnerOf, hplaces]
  · obtain ⟨pair, hpair, τ, -, stored, w, hstored, hw, hplant⟩ :=
      (hall.new _ hv).resolve_left List.not_mem_nil
    obtain ⟨σ, hcast⟩ := DataType.cast_of_plant hplant
    rcases DataType.cast_eq_or_plain hcast with rfl | hplain
    · exact (hf.cells _ _ hstored).ofStored hw
    · exact .of_plain hplain

end Filled

/-! ## What one pair plants -/

namespace Catalog

variable {catalog : Catalog} {f₀ : Frame} {type : DataType} {paths : List String}
  {pair : String × String} {place place' : List String × Planted}

/-- The type that is declared at the end of a path has a coercer of its own, or values are read as they
are; and so they are where any type will do. -/
structure ReadsAsDeclared (catalog : Catalog) (type : DataType) (paths : List String) : Prop where
  any : catalog.coercerFor .object = .object
  own : ∀ p ∈ paths, ∀ declared, type.atPath p = .ok declared →
    catalog.coercerFor declared = .object ∨ (catalog.coercerFor declared).type = declared

/-- The built-in coercers do so, where no bean is read that has the name of a scalar type. -/
theorem readsAsDeclared_of_builtin (hregistry : catalog.registry = .builtin)
    (hbeans : ∀ p ∈ paths, ∀ declared, type.atPath p = .ok declared → declared.isBean = false) :
    catalog.ReadsAsDeclared type paths := by
  have hfind : ∀ declared, catalog.coercerFor declared =
      (Coercer.all.find? fun c => c.type.name == declared.name).getD .object := by
    intro declared
    rw [coercerFor, hregistry, Registry.find?_builtin]
    rfl
  have hall : ∀ c ∈ Coercer.all, (Coercer.all.find? fun c' => c'.type.name == c.type.name) = some c := by
    decide
  have hself : ∀ c : Coercer, catalog.coercerFor c.type = c := by
    intro c
    rw [hfind, hall c (by cases c <;> decide)]
    rfl
  refine ⟨hself .object, fun p hp declared hdeclared => ?_⟩
  have hbean := hbeans p hp declared hdeclared
  cases declared with
  | bean name properties => cases hbean
  | bool => exact .inr (congrArg _ (hself .bool))
  | i32 => exact .inr (congrArg _ (hself .i32))
  | i64 => exact .inr (congrArg _ (hself .i64))
  | f64 => exact .inr (congrArg _ (hself .f64))
  | string => exact .inr (congrArg _ (hself .string))
  | bytes => exact .inr (congrArg _ (hself .bytes))
  | timestamp => exact .inr (congrArg _ (hself .timestamp))
  | _ => exact .inl ((hfind _).trans (by decide))

theorem plants_alone_unique (h : catalog.Plants f₀ type (catalog.AsksAlone type) pair place)
    (h' : catalog.Plants f₀ type (catalog.AsksAlone type) pair place') : place = place' := by
  obtain ⟨declared, hasked, stored, v, hstored, hv, hplant⟩ := h
  obtain ⟨declared', hasked', stored', v', hstored', hv', hplant'⟩ := h'
  cases hasked.asked.symm.trans hasked'.asked
  cases hstored.symm.trans hstored'
  cases hv.symm.trans hv'
  exact Option.some.inj (hplant.symm.trans hplant')

/-- A value that is read as it is and one that is read as declared come to the same when they are
written. -/
theorem plants_declared_unique (hreads : catalog.ReadsAsDeclared type paths) (hp : pair.1 ∈ paths)
    (h : catalog.Plants f₀ type (fun p τ => τ = .object ∨ type.atPath p = .ok τ) pair place)
    (h' : catalog.Plants f₀ type (fun p τ => τ = .object ∨ type.atPath p = .ok τ) pair place') :
    place = place' := by
  obtain ⟨declared, hasked, stored, v, hstored, hv, hplant⟩ := h
  obtain ⟨declared', hasked', stored', v', hstored', hv', hplant'⟩ := h'
  cases hstored.symm.trans hstored'
  have hobject : ∀ {v}, Coercer.object.ofStored stored = .ok v → v = stored := by
    intro v hv
    cases stored <;> exact (Except.ok.inj hv).symm
  have hany : ∀ {v}, (catalog.coercerFor .object).ofStored stored = .ok v → v = stored :=
    fun hv => hobject (hreads.any ▸ hv)
  -- either value is the stored one, or what the coercer of the declared type reads
  have hcases : ∀ {τ σ v}, (τ = .object ∨ type.atPath pair.1 = .ok τ) → type.atPath pair.1 = .ok σ →
      (catalog.coercerFor τ).ofStored stored = .ok v → v = stored ∨
        (catalog.coercerFor σ).type = σ ∧ (catalog.coercerFor σ).ofStored stored = .ok v := by
    intro τ σ v hτ hσ hv
    rcases hτ with rfl | hτ
    · exact .inl (hany hv)
    cases hτ.symm.trans hσ
    rcases hreads.own pair.1 hp τ hσ with hc | hc
    · exact .inl (hobject (hc ▸ hv))
    · exact .inr ⟨hc, hv⟩
  have hplaces := DataType.plant_unique hplant hplant' (fun σ w w' hσ hw hw' => ?_) fun hσ => ?_
  · exact Prod.ext hplaces.1 hplaces.2
  · rcases hcases hasked hσ hv with rfl | ⟨hc, hread⟩ <;>
      rcases hcases hasked' hσ hv' with rfl | ⟨hc', hread'⟩
    · exact Except.ok.inj (hw.symm.trans hw')
    · rw [← hc'] at hw hw'
      rw [Coercer.cast_stored hread' hw]
      exact Except.ok.inj ((Coercer.cast_of_ofStored hread').symm.trans hw')
    · rw [← hc] at hw hw'
      rw [Coercer.cast_stored hread hw']
      exact Except.ok.inj (hw.symm.trans (Coercer.cast_of_ofStored hread))
    · cases hread.symm.trans hread'
      exact Except.ok.inj (hw.symm.trans hw')
  · have hobjects : ∀ {τ}, (τ = .object ∨ type.atPath pair.1 = .ok τ) → τ = .object :=
      fun hτ => hτ.elim id fun hτ => Except.ok.inj (hτ.symm.trans hσ)
    rw [hobjects hasked] at hv
    rw [hobjects hasked'] at hv'
    rw [hany hv, hany hv']

end Catalog

/-! ## Orders of pairs -/

namespace Filled

variable {catalog : Catalog} {f₀ f g : Frame} {root : ObjectRef} {type declared : DataType}
  {paths : List String} {parts : List (List String × Planted)} {pairs pairs' : List (String × String)}
  {pair : String × String}

/-- A new map or bean has nothing planted in it. -/
theorem start (f : Frame) (htype : type = .map ∨ type.isBean = true) : ∃ root g,
    (Frame.edit (Edit.make type.instantiate)).run f = (.ok (.object root), g) ∧
      Filled f g root type [] := by
  obtain ⟨d, hd, hmade, hof⟩ : ∃ d, type.newData? = some d ∧ (madeType type).newData? = some d ∧
      d.Of type := by
    cases type with
    | map => exact ⟨_, rfl, rfl, rfl⟩
    | bean name properties => exact ⟨_, rfl, rfl, .newBean ⟨name, properties⟩⟩
    | _ => rcases htype with h | h <;> cases h
  have hmake : type.instantiate f.world.store =
      .ok (.object (f.world.store.newObject d).1, (f.world.store.newObject d).2) := by
    unfold DataType.instantiate
    rw [hd]
  refine ⟨(f.world.store.newObject d).1,
    { f with world := { f.world with store := (f.world.store.newObject d).2 } }, ?_, rfl, ?_⟩
  · exact run_edit_eq_ok.2 ⟨_, run_make_ok hmake, rfl⟩
  · exact (Layout.new hmade hof).congr (by simp [InnerOf]) (by simp)

variable (hf : f₀.Complete) (h : Filled f₀ f root type parts)
  (hp : Pending type paths parts (pair :: pairs))
  (hdeclared : catalog.accessor.setterType f.world.store (.object root) pair.1 = .ok declared)

include hf h hp hdeclared

theorem asks_declared : declared = .object ∨ type.atPath pair.1 = .ok declared := by
  rcases asks hf h hp (Accessor.takes_of_setterType hdeclared) with
    ⟨-, -, -, -, htype⟩ | ⟨-, htype⟩ | ⟨⟨e, htype⟩, -⟩
  · exact .inr (htype.symm.trans hdeclared)
  · exact .inl (Except.ok.inj (hdeclared.symm.trans htype))
  · cases htype.symm.trans hdeclared

theorem asksAlone (hown : type.OwnBeans paths) : catalog.AsksAlone type pair.1 declared where
  takes d hd := by
    have htakes := Accessor.takes_of_setterType hdeclared
    unfold Store.kind at htakes
    rwa [(h.layout.inner_root (.inl rfl)).of.kind_eq hd] at htakes
  asked := by
    rcases asks_alone hf h hp hown (Accessor.takes_of_setterType hdeclared) with htype | ⟨⟨e, htype⟩, -⟩
    · exact htype.symm.trans hdeclared
    · cases htype.symm.trans hdeclared

omit hf h hp hdeclared

/-- One order of the pairs fills an object to the end when another one does. -/
theorem ok_of_ok (hf : f₀.Complete) (hown : type.OwnBeans paths) (h : Filled f₀ f root type [])
    (hp : Pending type paths [] pairs) (hp' : Pending type paths [] pairs')
    (hsub : ∀ pair ∈ pairs', pair ∈ pairs)
    (hrun : (pairs.forM (catalog.writePair (.object root))).run f = (.ok (), g)) :
    ∃ g', (pairs'.forM (catalog.writePair (.object root))).run f = (.ok (), g') := by
  obtain ⟨places, -, hall⟩ := run_ok hf
    (fun h hp hdeclared => h.asksAlone hf hp hdeclared hown) h hp hrun
  refine run_total hf hown h hp' fun pair hpair => ?_
  obtain ⟨place, -, hplants⟩ := hall.all pair (hsub pair hpair)
  exact ⟨place, hplants⟩

/-- Two orders of the pairs that both fill an object leave alike ones, when each pair plants one thing
alone. -/
theorem alike_of_ok {g' : Frame} {asked : String → DataType → Prop} (hf : f₀.Complete)
    (hasked : ∀ {f parts pair pairs declared}, Filled f₀ f root type parts →
      Pending type paths parts (pair :: pairs) →
      catalog.accessor.setterType f.world.store (.object root) pair.1 = .ok declared →
      asked pair.1 declared)
    (hunique : ∀ pair ∈ pairs, ∀ place place', catalog.Plants f₀ type asked pair place →
      catalog.Plants f₀ type asked pair place' → place = place')
    (h : Filled f₀ f root type []) (hp : Pending type paths [] pairs)
    (hp' : Pending type paths [] pairs') (hmem : ∀ pair, pair ∈ pairs ↔ pair ∈ pairs')
    (hrun : (pairs.forM (catalog.writePair (.object root))).run f = (.ok (), g))
    (hrun' : (pairs'.forM (catalog.writePair (.object root))).run f = (.ok (), g')) :
    g.world.store.Alike g'.world.store (.object root) (.object root) := by
  obtain ⟨places, hg, hall⟩ := run_ok hf hasked h hp hrun
  obtain ⟨places', hg', hall'⟩ := run_ok hf hasked h hp' hrun'
  exact alike hf hg hg' hall hall' hmem hunique

end Filled

namespace ResultMapping

variable {m m' : ResultMapping} {catalog : Catalog} {type : DataType}
  {pairs pairs' : List (String × String)} {f g h : Frame} {outcome outcome' : Except Stop Value}

/-- A parameter is given when its pairs are all written. -/
theorem run_objectParameter (hspec : m.spec = some (.composite pairs)) {v : Value} {f' : Frame}
    (hstart : (Frame.edit (Edit.make type.instantiate)).run f = (.ok v, f')) :
    (m.objectParameter catalog type).run f =
      (((pairs.forM (catalog.writePair v)).run f').1.map fun _ => v,
        ((pairs.forM (catalog.writePair v)).run f').2) := by
  rw [objectParameter_composite hspec, run_bind_ok hstart]
  rcases hrun : (pairs.forM (catalog.writePair v)).run f' with ⟨e | _, g⟩
  · rw [run_bind_error hrun]
    rfl
  · rw [run_bind_ok hrun]
    rfl

/-- The order of the pairs of a specifier does not matter, as long as no two paths go into one document.
Where no path ends in an inner bean that another one goes into, the parameters of two orders look alike
or both orders fail. Where columns are read as the properties are declared, or as they are, the
parameters look alike whenever both orders give one. -/
theorem objectParameter_perm (hspec : m.spec = some (.composite pairs))
    (hspec' : m'.spec = some (.composite pairs')) (hperm : pairs.Perm pairs')
    (htype : type = .map ∨ type.isBean = true) (hspreads : type.Spreads (pairs.map (·.1)))
    (hf : f.Complete) (hrun : (m.objectParameter catalog type).run f = (outcome, g))
    (hrun' : (m'.objectParameter catalog type).run f = (outcome', h)) :
    (type.OwnBeans (pairs.map (·.1)) →
      (∃ v w, outcome = .ok v ∧ outcome' = .ok w ∧ g.world.store.Alike h.world.store v w) ∨
        ∃ stop stop', outcome = .error stop ∧ outcome' = .error stop') ∧
    (catalog.ReadsAsDeclared type (pairs.map (·.1)) → ∀ v w, outcome = .ok v → outcome' = .ok w →
      g.world.store.Alike h.world.store v w) := by
  obtain ⟨root, f', hstart, hfilled⟩ := Filled.start f htype
  rw [run_objectParameter hspec hstart] at hrun
  rw [run_objectParameter hspec' hstart] at hrun'
  have hmem : ∀ pair, pair ∈ pairs ↔ pair ∈ pairs' := fun pair => hperm.mem_iff
  have hpending : ∀ {ps : List (String × String)}, ps.Perm pairs →
      Pending type (pairs.map (·.1)) [] ps := by
    intro ps hps
    refine ⟨hspreads, fun pair hpair => List.mem_map_of_mem (hps.mem_iff.1 hpair), ?_, nofun⟩
    exact (hps.map _).nodup_iff.2 (hspreads.apart.imp Text.Apart.ne)
  have hp := hpending (.refl pairs)
  have hp' := hpending hperm.symm
  -- either order writes all of its pairs or stops at one
  rcases hwrite : (pairs.forM (catalog.writePair (.object root))).run f' with ⟨stop | _, u⟩ <;>
    rcases hwrite' : (pairs'.forM (catalog.writePair (.object root))).run f' with ⟨stop' | _, u'⟩ <;>
    rw [hwrite] at hrun <;> rw [hwrite'] at hrun' <;> cases hrun <;> cases hrun'
  · exact ⟨fun _ => .inr ⟨_, _, rfl, rfl⟩, nofun⟩
  · refine ⟨fun hown => ?_, nofun⟩
    obtain ⟨_, hok⟩ := Filled.ok_of_ok hf hown hfilled hp' hp (fun pair => (hmem pair).1) hwrite'
    cases hwrite.symm.trans hok
  · refine ⟨fun hown => ?_, nofun⟩
    obtain ⟨_, hok⟩ := Filled.ok_of_ok hf hown hfilled hp hp' (fun pair => (hmem pair).2) hwrite
    cases hwrite'.symm.trans hok
  · refine ⟨fun hown => .inl ⟨_, _, rfl, rfl, ?_⟩, ?_⟩
    · exact Filled.alike_of_ok hf (fun h hp hdeclared => h.asksAlone hf hp hdeclared hown)
        (fun _ _ _ _ => Catalog.plants_alone_unique) hfilled hp hp' hmem hwrite hwrite'
    · rintro hreads _ _ ⟨⟩ ⟨⟩
      exact Filled.alike_of_ok hf (fun h hp hdeclared => h.asks_declared hf hp hdeclared)
        (fun pair hpair _ _ => Catalog.plants_declared_unique hreads (List.mem_map_of_mem hpair))
        hfilled hp hp' hmem hwrite hwrite'

/-- A mapping whose specifier has some pairs. -/
def ofPairs (pairs : List (String × String)) : ResultMapping :=
  { property := "p", spec := some (.composite pairs) }

/-- A row of plain values refers to nothing that is missing. -/
theorem rowFrame_complete {k x : Value} (hk : k.Plain) (hx : x.Plain) : (rowFrame {} k x).Complete where
  store := ⟨nofun, nofun⟩
  cells column v hv := by
    have hplain : v.Plain := by
      rcases RowSet.value_mem hv with rfl | hmem
      · exact ⟨rfl, rfl⟩
      · rcases List.mem_pair.1 hmem with rfl | rfl
        · exact hk
        · exact hx
    exact .of_plain hplain

/-- A bean with a number and another bean in it, filled in two orders. -/
theorem objectParameter_perm_nested :
    let type : DataType := .bean "B" [("n", .i64), ("a", .bean "A" [("b", .i32)])]
    let pairs := [("n", "k"), ("a.b", "x")]
    let f := rowFrame {} (.string "5") (.i32 1)
    let run := ((ofPairs pairs).objectParameter {} type).run f
    let run' := ((ofPairs pairs.reverse).objectParameter {} type).run f
    type.Spreads (pairs.map (·.1)) ∧ type.OwnBeans (pairs.map (·.1)) ∧
      ({} : Catalog).ReadsAsDeclared type (pairs.map (·.1)) ∧ f.Complete ∧
      run.1 = .ok (.object ⟨0⟩) ∧ run'.1 = .ok (.object ⟨0⟩) ∧
      run.2.world.store.Alike run'.2.world.store (.object ⟨0⟩) (.object ⟨0⟩) := by
  intro type pairs f run run'
  have hspreads : type.Spreads (pairs.map (·.1)) := by decide
  have hown : type.OwnBeans (pairs.map (·.1)) := by decide
  have hreads : ({} : Catalog).ReadsAsDeclared type (pairs.map (·.1)) := by
    refine Catalog.readsAsDeclared_of_builtin rfl fun p hp declared hdeclared => ?_
    rcases List.mem_pair.1 hp with rfl | rfl <;> cases hdeclared <;> rfl
  have hf : f.Complete := rowFrame_complete ⟨rfl, rfl⟩ ⟨rfl, rfl⟩
  have hrun : run = (.ok (.object ⟨0⟩), run.2) := rfl
  have hrun' : run' = (.ok (.object ⟨0⟩), run'.2) := rfl
  have hok : run.1 = .ok (.object ⟨0⟩) := rfl
  have hok' : run'.1 = .ok (.object ⟨0⟩) := rfl
  have hperm := objectParameter_perm rfl rfl (List.reverse_perm pairs).symm (.inr rfl) hspreads hf hrun hrun'
  exact ⟨hspreads, hown, hreads, hf, hok, hok', hperm.2 hreads _ _ rfl rfl⟩

/-- The order of the pairs is seen where they meet. Whether a column fits a property of an inner bean is
asked only when the bean is there, and so is what a coercer registered for its type makes of it; the
elements of a document stay in the order in which they were written. -/
theorem objectParameter_order :
    let run (catalog : Catalog) (type : DataType) (k : String) (pairs : List (String × String)) :=
      ((ofPairs pairs).objectParameter catalog type).run (rowFrame {} (.string k) (.i32 1))
    let inner (b : DataType) : DataType := .bean "B" [("a", .bean "A" [("b", b), ("c", .i32)])]
    let document : DataType := .bean "B" [("d", .dom)]
    let flags : Catalog := { registry := Registry.builtin.register .string none .bool }
    let early := [("a.b", "k"), ("a.c", "x")]
    let late := [("a.c", "x"), ("a.b", "k")]
    let elements := [("d.x", "k"), ("d.y", "x")]
    let elements' := [("d.y", "x"), ("d.x", "k")]
    Text.Apart "a.b" "a.c" ∧ Text.Apart "d.x" "d.y" ∧
      (run {} (inner .i32) "5" early).1 = .error (.failed (.conversion .string "i32")) ∧
      (run {} (inner .i32) "5" late).1 = .ok (.object ⟨0⟩) ∧
      (run flags (inner .string) "1" early).1 = .ok (.object ⟨0⟩) ∧
      (run flags (inner .string) "1" late).1 = .ok (.object ⟨0⟩) ∧
      ¬(run flags (inner .string) "1" early).2.world.store.Alike
        (run flags (inner .string) "1" late).2.world.store (.object ⟨0⟩) (.object ⟨0⟩) ∧
      (run {} document "5" elements).1 = .ok (.object ⟨0⟩) ∧
      (run {} document "5" elements').1 = .ok (.object ⟨0⟩) ∧
      ¬(run {} document "5" elements).2.world.store.Alike
        (run {} document "5" elements').2.world.store (.object ⟨0⟩) (.object ⟨0⟩) := by
  intro run inner document flags early late elements elements'
  refine ⟨by decide, by decide, rfl, rfl, rfl, rfl, fun halike => ?_, rfl, rfl, fun halike => ?_⟩
  · have hb : Option.Rel (Store.Matches _ _) (some (.string "1")) (some (.string "true")) :=
      halike ["a", "b"]
    cases hb with
    | some h => exact absurd (Content.string.inj h) (by decide)
  · have hd : Option.Rel (Store.Matches _ _) (some (.object ⟨1⟩)) (some (.object ⟨1⟩)) := halike ["d"]
    cases hd with
    | some h => cases h

end ResultMapping

end RowMapper
