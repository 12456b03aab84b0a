/-
What a parameter map binds for a parameter with null sentinels (`ParameterMap.bind_sentinels`). A sentinel
is compared with the value that is read from the parameter, before that is fitted to the type of the
coercer. So a value of that type is bound as null when it is the sentinel, and one of another type gets past
it, even if fitting it makes the sentinel of it (`ParameterMap.sentinels_miss_other_types`).
-/
import RowMapper.Proofs.Statement.Binding

namespace RowMapper

variable {s : Store} {v : Value} {p : Param} {accessor : Accessor}

/-- The parameter that a coercer makes of a value. -/
def Coercer.param (c : Coercer) (sqlType : Option String) (v : Value) : Except Error Param :=
  if v.isNull then .ok { sqlType } else (c.type.cast v).map fun value => { value }

theorem Coercer.bind_eq_setAt (c : Coercer) (params : Params) (index : Nat) (v : Value)
    (sqlType : Option String) :
    c.bind params index v sqlType = (c.param sqlType v).map fun p => setAt {} index p params := by
  unfold bind param
  cases v.isNull with
  | true => rfl
  | false =>
    rw [if_neg Bool.false_ne_true, if_neg Bool.false_ne_true]
    cases c.type.cast v <;> rfl

namespace ParameterMapping

variable {m : ParameterMapping} {text : String}

/-- The value that a mapping hands to its coercer, null for the null sentinel. -/
def unmarked (m : ParameterMapping) (s : Store) (c : Coercer) (v : Value) : Except Error Value :=
  match m.nullValue with
  | some text => (c.valueOf text).map fun sentinel => if s.same sentinel v then .null else v
  | none => .ok v

/-- The parameter that a mapping makes of a value. -/
def param (m : ParameterMapping) (s : Store) (v : Value) : Except Error Param :=
  match m.mode with
  | .output => .ok { sqlType := m.sqlType }
  | _ => m.requireCoercer >>= fun c => m.unmarked s c v >>= c.param m.sqlType

theorem bind_eq_setAt (m : ParameterMapping) (s : Store) (params : Params) (index : Nat) (v : Value) :
    m.bind s params index v = (m.param s v).map fun p => setAt {} index p params := by
  have hinput : (m.requireCoercer >>= fun c => m.unmarked s c v >>= fun v =>
      c.bind params index v m.sqlType) =
        (m.requireCoercer >>= fun c => m.unmarked s c v >>= c.param m.sqlType).map fun p =>
          setAt {} index p params := by
    rw [Except.map_bind]
    refine Except.bind_congr fun c _ => ?_
    rw [Except.map_bind]
    exact Except.bind_congr fun v _ => c.bind_eq_setAt params index v m.sqlType
  unfold bind param
  cases m.mode with
  | output => rfl
  | input | both =>
    refine Eq.trans (Except.bind_congr fun c _ => ?_) hinput
    unfold unmarked
    cases m.nullValue <;> rfl

/-- The mapping takes a value from the parameter, by a coercer that reads the text of its null sentinel. -/
structure Marked (m : ParameterMapping) (c : Coercer) (sentinel : Value) : Prop where
  mode : m.mode ≠ .output
  coercer : m.coercer = some c
  sentinel : ∃ text, m.nullValue = some text ∧ c.valueOf text = .ok sentinel

theorem Marked.param_eq {c : Coercer} {sentinel : Value} (h : m.Marked c sentinel) (s : Store) (v : Value) :
    m.param s v = if s.same sentinel v then .ok { sqlType := m.sqlType } else c.param m.sqlType v := by
  obtain ⟨text, hnull, htext⟩ := h.sentinel
  have hunmarked : m.unmarked s c v = .ok (if s.same sentinel v then .null else v) := by
    simp [unmarked, hnull, htext, Except.map]
  have hparam : m.param s v = (m.requireCoercer >>= fun c => m.unmarked s c v >>= c.param m.sqlType) := by
    unfold param
    cases hmode : m.mode with
    | output => exact absurd hmode h.mode
    | input | both => rfl
  rw [hparam, requireCoercer_eq_ok.2 h.coercer]
  show m.unmarked s c v >>= c.param m.sqlType = _
  rw [hunmarked]
  show c.param m.sqlType (if s.same sentinel v then .null else v) = _
  split <;> rfl

/-- A mapping that makes a parameter could read its null sentinel. -/
theorem exists_marked_of_param (hmode : m.mode ≠ .output) (hnull : m.nullValue = some text)
    (h : m.param s v = .ok p) : ∃ c sentinel, m.Marked c sentinel := by
  unfold param at h
  split at h
  · exact absurd ‹_› hmode
  obtain ⟨c, hrequired, h⟩ := Except.bind_eq_ok_iff.1 h
  obtain ⟨w, hw, -⟩ := Except.bind_eq_ok_iff.1 h
  unfold unmarked at hw
  rw [hnull] at hw
  obtain ⟨sentinel, hsentinel, -⟩ := Except.map_eq_ok_iff.1 hw
  exact ⟨c, sentinel, hmode, requireCoercer_eq_ok.1 hrequired, text, hnull, hsentinel⟩

/-- The sentinel itself is bound as null, whatever the type of the coercer. -/
theorem Marked.null_of_same {c : Coercer} {sentinel : Value} (h : m.Marked c sentinel)
    (hsame : s.same sentinel v = true) (hp : m.param s v = .ok p) : p.value = .null := by
  rw [h.param_eq, if_pos hsame] at hp
  cases hp
  rfl

/-- Any other value is bound as it is fitted to the type of the coercer. -/
theorem Marked.cast_of_other {c : Coercer} {sentinel : Value} (h : m.Marked c sentinel)
    (hother : ¬s.same sentinel v = true) (hv : v ≠ .null) (hp : m.param s v = .ok p) :
    c.type.cast v = .ok p.value := by
  have hpresent : v.isNull = false := by
    cases v <;> first | rfl | exact absurd rfl hv
  rw [h.param_eq, if_neg hother, Coercer.param, hpresent, if_neg Bool.false_ne_true] at hp
  obtain ⟨bound, hcast, rfl⟩ := Except.map_eq_ok_iff.1 hp
  exact hcast

/-- What a mapping with a null sentinel binds for a value. -/
structure Unmarks (m : ParameterMapping) (s : Store) (v bound : Value) : Prop where
  /-- The null sentinel could be read. -/
  exists_marked : ∃ c sentinel, m.Marked c sentinel
  null_of_same : ∀ c sentinel, m.Marked c sentinel → s.same sentinel v = true → bound = .null
  /-- A value of the type of the coercer is never bound as the sentinel. -/
  null_of_cast : ∀ c sentinel, m.Marked c sentinel → c.type.cast v = .ok v →
    s.same sentinel bound = true → bound = .null

theorem unmarks_of_param (hmode : m.mode ≠ .output) (hnull : m.nullValue = some text)
    (h : m.param s v = .ok p) : m.Unmarks s v p.value where
  exists_marked := exists_marked_of_param hmode hnull h
  null_of_same _ _ hmarked hsame := hmarked.null_of_same hsame h
  null_of_cast c sentinel hmarked hcast hbound := by
    by_cases hsame : s.same sentinel v = true
    · exact hmarked.null_of_same hsame h
    by_cases hv : v = .null
    · subst hv
      rw [hmarked.param_eq, if_neg hsame] at h
      cases h
      rfl
    · -- the value is bound as it is, and it is not the sentinel
      have hp : p.value = v := Except.ok.inj ((hmarked.cast_of_other hsame hv h).symm.trans hcast)
      exact absurd (hp ▸ hbound) hsame

end ParameterMapping

namespace ParameterMap

/-- A parameter map makes one parameter of each value, and puts it behind those before. -/
theorem forall₂_of_bindFrom {pairs : List (ParameterMapping × Value)} {params bound : Params}
    (h : bindFrom s params.length pairs params = .ok bound) :
    ∃ made, bound = params ++ made ∧
      List.Forall₂ (fun pair p => pair.1.param s pair.2 = .ok p) pairs made := by
  induction pairs generalizing params with
  | nil =>
    cases h
    exact ⟨[], (List.append_nil _).symm, .nil⟩
  | cons pair pairs ih =>
    obtain ⟨mapping, v⟩ := pair
    obtain ⟨next, hnext, hrest⟩ := Except.bind_eq_ok_iff.1 h
    rw [mapping.bind_eq_setAt] at hnext
    obtain ⟨p, hp, rfl⟩ := Except.map_eq_ok_iff.1 hnext
    have hrest : bindFrom s (params ++ [p]).length pairs (params ++ [p]) = .ok bound := by
      rw [List.length_append]
      exact setAt_length {} p params ▸ hrest
    obtain ⟨made, rfl, hmade⟩ := ih hrest
    exact ⟨p :: made, List.append_assoc .., .cons hp hmade⟩

/-- What a parameter map binds: a value is read for each mapping, and bound at its position. A value that is
the null sentinel of its mapping is bound as null, and a value of the type of the coercer is not bound as
the sentinel. -/
theorem bind_sentinels {m : ParameterMap} {parameter : Value} {params : Params}
    (h : m.bind accessor s parameter = .ok params) :
    ∃ values, (Exchange.ofValue s parameter).getData accessor s (m.mappings.map (·.property)) parameter =
        .ok values ∧
      List.Forall₂ (fun pair p => ∀ text, pair.1.mode ≠ .output → pair.1.nullValue = some text →
        pair.1.Unmarks s pair.2 p.value) (m.mappings.zip values) params := by
  obtain ⟨values, hvalues, hbound⟩ := Except.bind_eq_ok_iff.1 h
  have hbound : bindFrom s ([] : Params).length (m.mappings.zip values) [] = .ok params := hbound
  obtain ⟨made, rfl, hmade⟩ := forall₂_of_bindFrom hbound
  exact ⟨values, hvalues, hmade.imp fun _ _ hp _ hmode hnull =>
    ParameterMapping.unmarks_of_param hmode hnull hp⟩

/-- An input of 64 bits with a null sentinel. -/
def numbered : ParameterMap where
  id := "s"
  mappings := [{ property := "n", coercer := some .i64, nullValue := some "-1" }]

/-- As a number of 64 bits the sentinel is bound as null, but as one of 32 bits it gets past the mapping,
and is bound as the number of 64 bits then. -/
theorem sentinels_miss_other_types (accessor : Accessor) :
    Coercer.i64.valueOf "-1" = .ok (.i64 (-1)) ∧
      (numbered.bind accessor {} (.i64 (-1))).map Params.values = .ok [.null] ∧
      (numbered.bind accessor {} (.i32 (-1))).map Params.values = .ok [.i64 (-1)] :=
  ⟨rfl, rfl, rfl⟩

end ParameterMap

end RowMapper
