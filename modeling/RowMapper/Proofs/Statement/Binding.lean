/-
Binding parameters. A coercer binds a value of its own type as it is, so that a parameter map of inputs
without types, coercers and null sentinels hands over the values it reads from a parameter, one at each
position.
-/
import RowMapper.Proofs.Catalog.Index
import RowMapper.Statement.Basic

namespace RowMapper

variable {registry : Registry} {params : Params} {index : Nat} {v w : Value}

/-- A loop each of whose steps succeeds gives the results of the steps. -/
theorem Except.mapM_ok_of_forall₂ {ε α β : Type} {f : α → Except ε β} {xs : List α} {ys : List β}
    (h : List.Forall₂ (fun x y => f x = .ok y) xs ys) : xs.mapM f = .ok ys := by
  induction h with
  | nil => rfl
  | cons hx _ ih =>
    rw [List.mapM_cons, hx, ih]
    rfl

/-- A type that is no scalar takes any value. -/
theorem DataType.cast_of_isScalar {type : DataType} (h : type.isScalar = false) (v : Value) :
    type.cast v = .ok v := by
  cases type <;> first | (cases v <;> rfl) | cases h

/-- A value that was fitted to a type is of that type. -/
theorem DataType.cast_cast {type : DataType} (h : type.cast v = .ok w) : type.cast w = .ok w := by
  unfold cast at h
  split at h <;> first | (cases h; rfl) | skip
  · split at h <;> cases h
    rfl
  · split at h <;> cases h
    rfl
  · split at h <;> cases h
    rename_i hscalar
    exact cast_of_isScalar (Bool.not_eq_true _ ▸ hscalar) v

theorem setAt_length {α : Type} (filler item : α) (items : List α) :
    setAt filler items.length item items = items ++ [item] := by
  simp [setAt]

/-- A value of the type of a coercer is bound as it is. -/
theorem Coercer.bind_next {c : Coercer} (h : c.type.cast v = .ok v) (params : Params)
    (sqlType : Option String) :
    ∃ next, c.bind params params.length v sqlType = .ok next ∧ next.values = params.values ++ [v] := by
  unfold bind
  cases hv : v.isNull with
  | true =>
    cases v <;> cases hv
    exact ⟨_, rfl, by simp [Params.setNull, Params.values, setAt_length]⟩
  | false =>
    refine ⟨params.set params.length v, ?_, by simp [Params.set, Params.values, setAt_length]⟩
    simp [h, Except.map]

namespace ParameterMapping

theorem requireCoercer_eq_ok {m : ParameterMapping} {c : Coercer} :
    m.requireCoercer = .ok c ↔ m.coercer = some c := by
  unfold requireCoercer
  cases m.coercer <;> simp

/-- An input as it is declared with a property alone, and the SQL type that a null stands for. -/
structure Bare (m : ParameterMapping) : Prop where
  mode : m.mode = .input
  type : m.type = none
  nullValue : m.nullValue = none
  coercer : m.coercer = none

/-- An input that binds a value as it is. -/
structure Hands (m : ParameterMapping) (v : Value) : Prop where
  mode : m.mode = .input
  nullValue : m.nullValue = none
  coercer : ∃ c, m.coercer = some c ∧ c.type.cast v = .ok v

theorem Hands.bind_next {m : ParameterMapping} (h : m.Hands v) (s : Store) (params : Params) :
    ∃ next, m.bind s params params.length v = .ok next ∧ next.values = params.values ++ [v] := by
  obtain ⟨c, hc, hcast⟩ := h.coercer
  obtain ⟨next, hnext, hvalues⟩ := Coercer.bind_next hcast params m.sqlType
  refine ⟨next, ?_, hvalues⟩
  unfold bind
  rw [h.mode, h.nullValue, requireCoercer_eq_ok.2 hc]
  exact hnext

end ParameterMapping

namespace ParameterMap

/-- Inputs that bind their values as they are bind them one behind the other. -/
theorem bindFrom_values (s : Store) {pairs : List (ParameterMapping × Value)}
    (h : ∀ pair ∈ pairs, pair.1.Hands pair.2) (params : Params) :
    ∃ bound, bindFrom s params.length pairs params = .ok bound ∧
      bound.values = params.values ++ pairs.map (·.2) := by
  induction pairs generalizing params with
  | nil => exact ⟨params, rfl, (List.append_nil _).symm⟩
  | cons pair pairs ih =>
    obtain ⟨hpair, h⟩ := List.forall_mem_cons.1 h
    obtain ⟨next, hnext, hvalues⟩ := hpair.bind_next s params
    have hlength : next.length = params.length + 1 := by
      have := congrArg List.length hvalues
      simpa [Params.values] using this
    obtain ⟨bound, hbound, hall⟩ := ih h next
    refine ⟨bound, ?_, by simp [hall, hvalues]⟩
    unfold bindFrom
    rw [hnext]
    exact hlength ▸ hbound

/-- Inputs that bind what is read from a parameter as it is bind these values. -/
theorem bind_of_getData {m : ParameterMap} {accessor : Accessor} {s : Store} {parameter : Value}
    {values : List Value}
    (hdata : (Exchange.ofValue s parameter).getData accessor s (m.mappings.map (·.property)) parameter =
      .ok values)
    (h : List.Forall₂ ParameterMapping.Hands m.mappings values) :
    ∃ params, m.bind accessor s parameter = .ok params ∧ params.values = values := by
  have hpairs : ∀ pair ∈ m.mappings.zip values, pair.1.Hands pair.2 := fun pair hmem =>
    List.forall₂_zip h hmem
  obtain ⟨params, hbound, hvalues⟩ := bindFrom_values s hpairs []
  refine ⟨params, ?_, ?_⟩
  · show (Exchange.ofValue s parameter).getData accessor s (m.mappings.map (·.property)) parameter >>=
      (fun values => bindFrom s 0 (m.mappings.zip values) []) = _
    rw [hdata]
    exact hbound
  · rw [hvalues]
    exact List.map_snd_zip (Nat.le_of_eq h.length_eq.symm)

/-- A parameter map whose inputs bind what is read for them binds these values. -/
theorem bind_values {m : ParameterMap} {accessor : Accessor} {s : Store} {parameter : Value}
    (hobject : Exchange.ofValue s parameter = .map ∨ Exchange.ofValue s parameter = .bean)
    {values : List Value}
    (h : List.Forall₂ (fun mapping v => accessor.get s parameter mapping.property = .ok v ∧
      mapping.Hands v) m.mappings values) :
    ∃ params, m.bind accessor s parameter = .ok params ∧ params.values = values := by
  refine bind_of_getData ?_ (h.imp fun _ _ => And.right)
  have hread : (m.mappings.map (·.property)).mapM (accessor.get s parameter) = .ok values :=
    Except.mapM_ok_of_forall₂ (List.forall₂_map_left_iff.2 (h.imp fun _ _ => And.left))
  rcases hobject with he | he <;> rw [he] <;> exact hread

/-- Inputs that are declared with a property alone are resolved to inputs with the coercer for the type of
the property in the parameter class, or the one for any value. -/
theorem resolve_bare {m resolved : ParameterMap} {parameterClass : Option DataType}
    (hbare : ∀ mapping ∈ m.mappings, mapping.Bare)
    (h : m.resolve registry parameterClass = .ok resolved) :
    List.Forall₂ (fun mapping result => result.property = mapping.property ∧ result.mode = .input ∧
      result.nullValue = none ∧ result.coercer = ResultMapping.findCoercer registry none mapping.sqlType
        parameterClass mapping.property) m.mappings resolved.mappings := by
  obtain ⟨mappings, hmappings, rfl⟩ := Except.map_eq_ok_iff.1 h
  have hresolved := (List.forall₂_and_left _ _).2 ⟨hbare, Except.forall₂_of_mapM_ok hmappings⟩
  refine hresolved.imp fun mapping result ⟨hbare, hresolve⟩ => ?_
  unfold ParameterMapping.resolve at hresolve
  rw [hbare.coercer, hbare.type] at hresolve
  cases hresolve
  exact ⟨rfl, hbare.mode, hbare.nullValue, rfl⟩

end ParameterMap

end RowMapper
