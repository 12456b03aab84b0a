/-
The registry of coercers by host type and SQL type. A registration for a SQL type goes before the
one for the host type alone, and a later registration for a pair replaces an earlier one.
-/
import RowMapper.Coercer.Basic

namespace RowMapper

/-- For each type name the coercers by SQL type in upper case, `none` for any. -/
structure Registry where
  coercers : List (String × List (Option String × Coercer)) := []

namespace Registry

def register (r : Registry) (type : DataType) (sqlType : Option String) (c : Coercer) :
    Registry :=
  let known := (Table.get? type.name r.coercers).getD []
  let bySqlType := Table.put (sqlType.map Text.upperLabel) c known
  { coercers := Table.put type.name bySqlType r.coercers }

/-- The built-in coercers, each for its own type. -/
def builtin : Registry :=
  Coercer.all.foldl (fun r c => r.register c.type none c) {}

/-- The coercer for a host type and a SQL type. -/
def find? (r : Registry) (type : DataType) (sqlType : Option String) : Option Coercer := do
  let bySqlType ← Table.get? type.name r.coercers
  let exact := sqlType.bind fun label => Table.get? (some (Text.upperLabel label)) bySqlType
  exact.or (Table.get? none bySqlType)

/-- Whether any coercer is registered for the type. -/
def handles (r : Registry) (type : DataType) : Bool := Table.contains type.name r.coercers

/-- The coercer used when nothing more specific is registered. -/
def unknown : Coercer := .object

end Registry

end RowMapper
