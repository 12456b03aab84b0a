/-
What coercers read. A stored value reads as null when it is null and at no other time, a null sentinel
never does, and whatever a coercer reads is of its own type. So the coercer that is inferred for a
property from its declared type reads what the property takes as it is.
-/
import RowMapper.Mapping.ResultMapping
import RowMapper.Proofs.Statement.Binding

namespace RowMapper

namespace Value

variable {v : Value}

theorem isNull_iff : v.isNull = true ↔ v = .null := by
  cases v <;> simp [isNull]

/-! ## Only null reads as nothing -/

theorem isSome_of_readString {o : Option String} (hv : v.isNull = false) (h : v.readString = .ok o) :
    o.isSome = true := by
  unfold readString at h
  split at h
  case h_1 => cases hv
  case h_2 => cases h; rfl
  all_goals
    split at h <;> cases h
    rfl

theorem isSome_of_readBytes {o : Option ByteArray} (hv : v.isNull = false) (h : v.readBytes = .ok o) :
    o.isSome = true := by
  unfold readBytes at h
  split at h
  case h_1 => cases hv
  all_goals cases h
  all_goals rfl

theorem isSome_of_readTimestamp {o : Option Calendar.Timestamp} (hv : v.isNull = false)
    (h : v.readTimestamp = .ok o) : o.isSome = true := by
  unfold readTimestamp at h
  split at h
  case h_1 => cases hv
  case h_2 => cases h; rfl
  case h_5 => cases h
  all_goals
    split at h <;> cases h
    rfl

end Value

namespace Coercer

variable {c : Coercer} {v w : Value} {text : String}

/-! ## Stored values -/

/-- What is not null reads as a value of the type of the coercer that is not null either. -/
theorem readDefault_eq_ok (hv : v.isNull = false) (h : c.readDefault v = .ok w) :
    w.isNull = false ∧ c.type.cast w = .ok w := by
  cases c with
  | object =>
    cases h
    exact ⟨hv, DataType.cast_of_isScalar rfl v⟩
  | bool | i32 | i64 | f64 =>
    obtain ⟨a, -, rfl⟩ := Except.map_eq_ok_iff.1 h
    exact ⟨rfl, rfl⟩
  | string =>
    obtain ⟨a, ha, rfl⟩ := Except.map_eq_ok_iff.1 h
    obtain ⟨s, rfl⟩ := Option.isSome_iff_exists.1 (Value.isSome_of_readString hv ha)
    exact ⟨rfl, rfl⟩
  | bytes =>
    obtain ⟨a, ha, rfl⟩ := Except.map_eq_ok_iff.1 h
    obtain ⟨b, rfl⟩ := Option.isSome_iff_exists.1 (Value.isSome_of_readBytes hv ha)
    exact ⟨rfl, rfl⟩
  | timestamp =>
    obtain ⟨a, ha, rfl⟩ := Except.map_eq_ok_iff.1 h
    obtain ⟨t, rfl⟩ := Option.isSome_iff_exists.1 (Value.isSome_of_readTimestamp hv ha)
    exact ⟨rfl, rfl⟩

/-- A stored value reads as null exactly when it is null. -/
theorem isNull_of_ofStored (h : c.ofStored v = .ok w) : w.isNull = v.isNull := by
  unfold ofStored at h
  split at h
  · next hv =>
    cases h
    exact hv.symm
  · next hv =>
    rw [Bool.not_eq_true] at hv
    rw [hv, (readDefault_eq_ok hv h).1]

/-- What is read from a stored value is of the type of the coercer. -/
theorem cast_of_ofStored (h : c.ofStored v = .ok w) : c.type.cast w = .ok w := by
  unfold ofStored at h
  split at h
  · cases h
    rfl
  · next hv => exact (readDefault_eq_ok (Bool.eq_false_iff.2 hv) h).2

/-- What a stored value reads as is what it is fitted to the type of the coercer, where it can be. -/
theorem cast_stored {stored : Value} (hv : c.ofStored stored = .ok v)
    (hw : c.type.cast stored = .ok w) : w = v := by
  cases c with
  | object | bool | bytes | timestamp | i64 | f64 | string =>
    cases stored <;> cases hw <;> exact Except.ok.inj hv
  | i32 =>
    cases stored with
    | i64 n =>
      cases hn : Number.narrow? n with
      | none => simp [type, DataType.cast, hn] at hw
      | some small =>
        simp only [ofStored, Value.isNull, Bool.false_eq_true, if_false, readDefault, Value.readI32, hn] at hv
        simp only [type, DataType.cast, hn] at hw
        exact Except.ok.inj (hw.symm.trans hv)
    | _ => cases hw <;> exact Except.ok.inj hv

/-- Reading a column and asking the row set behind it whether the column was null is reading the stored
value, since the row set remembers that of the last column that was read. -/
theorem readColumn_eq_wasNull (c : Coercer) (rs : RowSet) (column : Column) :
    c.readColumn rs column =
      ((rs.read column).1.bind fun v => if (rs.read column).2.wasNull then .ok .null else c.readDefault v,
        (rs.read column).2) := by
  unfold readColumn RowSet.read ofStored
  cases rs.value column <;> rfl

/-! ## Null sentinels -/

/-- The value of a sentinel is not null, and is of the type of the coercer. -/
theorem valueOf_eq_ok (h : c.valueOf text = .ok w) : w.isNull = false ∧ c.type.cast w = .ok w := by
  unfold valueOf at h
  cases c with
  | bool =>
    obtain ⟨a, -, rfl⟩ := Except.map_eq_ok_iff.1 h
    exact ⟨rfl, rfl⟩
  | i32 | i64 | f64 | timestamp =>
    obtain ⟨a, -, rfl⟩ := Except.map_eq_ok_iff.1 (Except.mapError_eq_ok_iff.1 h)
    exact ⟨rfl, rfl⟩
  | string | bytes | object =>
    cases h
    exact ⟨rfl, rfl⟩

/-- What a coercer makes of a stored value when a text may stand for null. -/
def convert (c : Coercer) (nullValue : Option String) (stored : Value) : Except Error Value :=
  match nullValue with
  | some text => if stored.isNull then c.valueOf text else c.readDefault stored
  | none => c.ofStored stored

variable {nullValue : Option String}

/-- Null comes of null alone, and of that only where no text stands for it. -/
theorem isNull_of_convert (h : c.convert nullValue v = .ok w) :
    w = .null ↔ v.isNull = true ∧ nullValue = none := by
  rw [← Value.isNull_iff]
  unfold convert at h
  cases nullValue with
  | none => simp [isNull_of_ofStored h]
  | some text =>
    dsimp only at h
    split at h
    · simp [(valueOf_eq_ok h).1]
    · next hv => simp [(readDefault_eq_ok (Bool.eq_false_iff.2 hv) h).1]

/-- What comes of a stored value is of the type of the coercer. -/
theorem cast_of_convert (h : c.convert nullValue v = .ok w) : c.type.cast w = .ok w := by
  unfold convert at h
  cases nullValue with
  | none => exact cast_of_ofStored h
  | some text =>
    dsimp only at h
    split at h
    · exact (valueOf_eq_ok h).2
    · next hv => exact (readDefault_eq_ok (Bool.eq_false_iff.2 hv) h).2

end Coercer

/-! ## Inferred coercers -/

namespace Registry

variable {type : DataType} {sqlType : Option String}

/-- A built-in coercer is found by the name of its type, whatever SQL type is asked for. -/
theorem find?_builtin (type : DataType) (sqlType : Option String) :
    builtin.find? type sqlType = Coercer.all.find? fun c => c.type.name == type.name := by
  have htable : builtin.coercers = Coercer.all.map fun c => (c.type.name, [(none, c)]) := by
    decide
  have hget : ∀ cs : List Coercer,
      Table.get? type.name (cs.map fun c => (c.type.name, [((none : Option String), c)])) =
        (cs.find? fun c => c.type.name == type.name).map fun c => [(none, c)] := by
    intro cs
    induction cs with
    | nil => rfl
    | cons c cs ih =>
      cases hname : c.type.name == type.name <;>
        simp [Table.get?, hname, ih]
  unfold find?
  rw [htable, hget]
  cases hc : Coercer.all.find? fun c => c.type.name == type.name with
  | none => rfl
  | some c => cases sqlType <;> rfl

/-- A declared type takes what the coercer that is built in for it reads. -/
theorem cast_of_builtin {c : Coercer} {w : Value} (h : builtin.find? type sqlType = some c)
    (hw : c.type.cast w = .ok w) : type.cast w = .ok w := by
  cases hscalar : type.isScalar with
  | false => exact DataType.cast_of_isScalar hscalar w
  | true =>
    rw [find?_builtin] at h
    have hname := List.find?_some h
    -- a scalar type has its name for itself among the types of coercers
    suffices htype : c.type = type from htype ▸ hw
    cases type with
    | bool | i32 | i64 | f64 | string | bytes | timestamp =>
      cases c <;> first | rfl | exact absurd hname (by decide)
    | _ => cases hscalar

/-- A type without a coercer of its own takes anything. -/
theorem cast_of_not_builtin (h : builtin.find? type sqlType = none) (w : Value) :
    type.cast w = .ok w := by
  refine DataType.cast_of_isScalar ?_ w
  rw [find?_builtin] at h
  cases type <;> first | rfl | exact absurd h (by decide)

end Registry

/-- The coercer that is inferred for a property of a bean reads what the property takes. -/
theorem ResultMapping.cast_of_findCoercer {owner declared : DataType} {sqlType : Option String}
    {property : String} {c : Coercer} {w : Value} (hbean : owner.isBean = true)
    (hdeclared : owner.atPath property = .ok declared)
    (h : findCoercer .builtin none sqlType (some owner) property = some c)
    (hw : c.type.cast w = .ok w) : declared.cast w = .ok w := by
  have hfound : (Registry.builtin.find? declared sqlType).getD Registry.unknown = c := by
    simpa [findCoercer, hbean, hdeclared, Except.toOption] using h
  cases hfind : Registry.builtin.find? declared sqlType with
  | none => exact Registry.cast_of_not_builtin hfind w
  | some found =>
    obtain rfl : found = c := by rwa [hfind, Option.getD_some] at hfound
    exact Registry.cast_of_builtin hfind hw

end RowMapper
