/-
The parameters of an operation by position: values, and for nulls the SQL type they stand for.
Setting a position beyond the end fills the gap with nulls.
-/
import RowMapper.Data.Value

namespace RowMapper

structure Param where
  value : Value := .null
  sqlType : Option String := none

abbrev Params := List Param

/-- The list with the item at a position set, filled up to there. -/
def setAt {α : Type} (filler : α) (index : Nat) (item : α) (items : List α) : List α :=
  (items ++ List.replicate (index + 1 - items.length) filler).set index item

namespace Params

def ofValues (values : List Value) : Params := values.map fun value => { value }

def values (params : Params) : List Value := params.map (·.value)

def set (params : Params) (index : Nat) (value : Value) : Params :=
  setAt {} index { value } params

def setNull (params : Params) (index : Nat) (sqlType : Option String) : Params :=
  setAt {} index { sqlType } params

end Params

end RowMapper
