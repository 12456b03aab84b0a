/-
What a registration for a SQL type changes. It is found only by those who ask for its own SQL type
(`Registry.find?_register`). What else changes is whether the host type is handled at all
(`Registry.handles_register`), which takes no SQL type into account.
-/
import RowMapper.Coercer.Registry

namespace RowMapper

namespace Registry

/-- A declaration asks for no SQL type, or for another one than that with a name. The case of a name is
of no matter. -/
def Avoids (label : String) (sqlType : Option String) : Prop :=
  sqlType.map Text.upperLabel ≠ some (Text.upperLabel label)

variable {r : Registry} {host type : DataType} {label : String} {sqlType : Option String} {c : Coercer}

theorem avoids_none (label : String) : Avoids label none := (Option.some_ne_none _).symm

/-- A registration for a SQL type is not found by those who do not ask for it. -/
theorem find?_register (h : Avoids label sqlType) :
    (r.register host (some label) c).find? type sqlType = r.find? type sqlType := by
  have hexact : ∀ table : List (Option String × Coercer),
      (sqlType.bind fun l => Table.get? (some (Text.upperLabel l))
          (Table.put (some (Text.upperLabel label)) c table)) =
        sqlType.bind fun l => Table.get? (some (Text.upperLabel l)) table := fun table => by
    cases sqlType with
    | none => rfl
    | some l => exact Table.get?_put_of_ne h c table
  have hany : ∀ table : List (Option String × Coercer),
      Table.get? none (Table.put (some (Text.upperLabel label)) c table) = Table.get? none table :=
    Table.get?_put_of_ne (avoids_none label) c
  unfold find? register
  -- a table that the registration is the first of holds nothing that is looked for
  by_cases htype : type.name = host.name
  · rw [htype, Table.get?_put_self]
    cases Table.get? host.name r.coercers with
    | some bySqlType =>
      show (Option.bind _ _).or _ = (Option.bind _ _).or _
      rw [Option.map_some, Option.getD_some, hexact, hany]
    | none =>
      show (Option.bind _ _).or _ = none
      rw [Option.map_some, Option.getD_none, hexact, hany]
      cases sqlType <;> rfl
  · rw [Table.get?_put_of_ne htype]

/-- The host type of a registration is handled, for whatever SQL type it is. -/
theorem handles_register :
    (r.register host sqlType c).handles type = (type.name == host.name || r.handles type) := by
  unfold handles Table.contains register
  by_cases htype : type.name = host.name
  · rw [htype, Table.get?_put_self, beq_self_eq_true]
    rfl
  · rw [Table.get?_put_of_ne htype, beq_false_of_ne htype]
    rfl

/-- Every scalar type has a coercer, for some SQL type. -/
def HandlesScalars (r : Registry) : Prop := ∀ type : DataType, type.isScalar = true → r.handles type = true

theorem handlesScalars_builtin : builtin.HandlesScalars := by
  intro type h
  cases type <;> first | rfl | cases h

/-- Registries that give the same coercers to those who do not ask for a SQL type. -/
def AgreesBut (label : String) (r r' : Registry) : Prop :=
  ∀ type sqlType, Avoids label sqlType → r'.find? type sqlType = r.find? type sqlType

theorem agreesBut_register : AgreesBut label r (r.register host (some label) c) :=
  fun _ _ => find?_register

end Registry

end RowMapper
