/-
Binding with a parameter map and without one. Inputs that are declared with a property alone bind what
a list, a record or a scalar binds without them (`ParameterMap.bind_agrees`). A set is taken for a
scalar: the whole of it is bound at each position, where without a parameter map its items are.
-/
import RowMapper.Proofs.Statement.Binding

namespace RowMapper

namespace Value

variable {v : Value} {items : List Value}

/-- The values that a parameter without properties gives to so many positions: the items of a record or
of a list, with nulls behind them, and anything else at every position. -/
def atPositions (n : Nat) : Value → List Value
  | .record items | .list items => (List.range n).map fun i => items[i]?.getD .null
  | v => List.replicate n v

theorem length_atPositions (n : Nat) (v : Value) : (v.atPositions n).length = n := by
  cases v <;> simp [atPositions]

/-- At as many positions as there are items they all have one. -/
theorem atPositions_items (items : List Value) :
    (List.range items.length).map (fun i => items[i]?.getD Value.null) = items := by
  refine List.ext_getElem (by simp) fun i hi hi' => ?_
  simp [List.getElem?_eq_getElem hi']

/-- No set is an item of its own. -/
theorem ne_set_of_mem (h : v ∈ items) : v ≠ .set items := by
  rintro rfl
  have hlt := List.sizeOf_lt_of_mem h
  rw [set.sizeOf_spec] at hlt
  omega

/-- A parameter that is no object gives as many values as a statement binds for it by itself, and the
same ones, unless it is a set with something in it. -/
theorem atPositions_bindImplicit (hobject : v.isObject = false) :
    v.atPositions (bindImplicit v).length = (bindImplicit v).values ↔ ∀ items, v = .set items → items = [] := by
  cases v with
  | object r => cases hobject
  | null | lazy => simp [atPositions, bindImplicit, Params.values]
  | bool | i32 | i64 | f64 | string | bytes | timestamp =>
    simp [atPositions, bindImplicit, Params.ofValues, Params.values]
  | record items | list items =>
    simp [atPositions, bindImplicit, Params.ofValues, Params.values, Function.comp_def, atPositions_items]
  | set items =>
    have hvalues : (bindImplicit (.set items)).values = items := by
      simp [bindImplicit, Params.ofValues, Params.values, Function.comp_def]
    have hlength : (bindImplicit (.set items)).length = items.length := List.length_map _
    rw [hvalues, hlength]
    simp only [set.injEq, forall_eq']
    constructor
    · intro h
      cases items with
      | nil => rfl
      | cons w rest =>
        have hw : Value.set (w :: rest) = w := (List.cons.inj h).1
        exact absurd hw.symm (ne_set_of_mem (List.mem_cons_self ..))
    · rintro rfl
      rfl

end Value

namespace ParameterMap

variable {m resolved : ParameterMap} {registry : Registry} {parameterClass : Option DataType} {v : Value}

/-- The exchange of a parameter that is no object reads no properties of it. -/
theorem getData_atPositions (hobject : v.isObject = false) (accessor : Accessor) (s : Store)
    (properties : List String) :
    (Exchange.ofValue s v).getData accessor s properties v = .ok (v.atPositions properties.length) := by
  cases v with
  | object r => cases hobject
  | record items | list items => rfl
  | _ => exact congrArg Except.ok (List.map_const' ..)

/-- Inputs that are declared with a property alone bind the values of a parameter that is no object as
they are, if no bean class gives their properties types. -/
theorem bind_atPositions (hbare : ∀ mapping ∈ m.mappings, mapping.Bare)
    (hclass : ∀ type, parameterClass = some type → type.isBean = false)
    (hresolved : m.resolve registry parameterClass = .ok resolved) (hobject : v.isObject = false)
    (accessor : Accessor) (s : Store) :
    ∃ params, resolved.bind accessor s v = .ok params ∧
      params.values = v.atPositions m.mappings.length := by
  have hall := resolve_bare hbare hresolved
  have hlength : resolved.mappings.length = m.mappings.length := hall.length_eq.symm
  refine bind_of_getData ?_ ?_
  · rw [getData_atPositions hobject, List.length_map, hlength]
  · refine List.forall₂_iff_get.2 ⟨by rw [hlength, Value.length_atPositions], fun i hi hi' => ?_⟩
    obtain ⟨-, hmode, hnull, hcoercer⟩ := hall.get (hlength ▸ hi) hi
    refine ⟨hmode, hnull, .object, hcoercer.trans ?_, DataType.cast_of_isScalar rfl _⟩
    unfold ResultMapping.findCoercer
    cases parameterClass with
    | none => rfl
    | some type => simp [hclass type rfl, Registry.unknown]

/-- A parameter map with an input for each value that a statement binds by itself binds these values, in
their order, unless the parameter is a set that is not empty. -/
theorem bind_agrees (hbare : ∀ mapping ∈ m.mappings, mapping.Bare)
    (hclass : ∀ type, parameterClass = some type → type.isBean = false)
    (hresolved : m.resolve registry parameterClass = .ok resolved) (hobject : v.isObject = false)
    (hlength : m.mappings.length = (bindImplicit v).length) (accessor : Accessor) (s : Store) :
    ∃ params, resolved.bind accessor s v = .ok params ∧
      (params.values = (bindImplicit v).values ↔ ∀ items, v = .set items → items = []) := by
  obtain ⟨params, hbind, hvalues⟩ := bind_atPositions hbare hclass hresolved hobject accessor s
  refine ⟨params, hbind, ?_⟩
  rw [hvalues, hlength]
  exact Value.atPositions_bindImplicit hobject

example :
    let items := [Value.i32 1, .i32 2]
    let m : ParameterMap := { id := "u", mappings := [{ property := "p" }, { property := "q" }] }
    ((m.resolve .builtin none).bind fun m => (m.bind .generic {} (.set items)).map (·.values)) =
        .ok [.set items, .set items] ∧
      (bindImplicit (.set items)).values = items :=
  ⟨rfl, rfl⟩

end ParameterMap

end RowMapper
