/-
Row sets: the rows of a query result under a cursor that starts before the first row. Reading a
column notes whether it was null.
-/
import RowMapper.Data.Value
import RowMapper.Text.Basic

namespace RowMapper

/-- A column by its label, up to case, or by its position. -/
inductive Column where
  | name (label : String)
  | index (position : Nat)
  deriving DecidableEq, Repr

def Column.text : Column → String
  | .name label => label
  | .index position => s!"#{position}"

structure RowSet where
  columns : List String
  rows : List (List Value) := []
  /-- The row under the cursor, unless it is before the first row or after the last. -/
  current : Option (List Value) := none
  /-- The rows behind the cursor. -/
  ahead : List (List Value) := rows
  wasNull : Bool := false

namespace RowSet

def length (rs : RowSet) : Nat := rs.rows.length

def isEmpty (rs : RowSet) : Bool := rs.rows.isEmpty

/-- The same rows before the first. -/
def rewind (rs : RowSet) : RowSet := { columns := rs.columns, rows := rs.rows }

/-- Moves to the next row, if there is one. -/
def next (rs : RowSet) : Bool × RowSet :=
  match rs.ahead with
  | [] => (false, { rs with current := none })
  | row :: ahead => (true, { rs with current := some row, ahead })

/-- The position of a column. -/
def columnIndex (rs : RowSet) : Column → Except Error Nat
  | .name label =>
    match rs.columns.findIdx? fun column => Text.sameLabel column label with
    | some position => .ok position
    | none => .error (.database (.noColumn label))
  | .index position =>
    if position < rs.columns.length then .ok position
    else .error (.database (.columnOutOfRange position rs.columns.length))

/-- The value of a column in the current row, as the database reported it. -/
def value (rs : RowSet) (column : Column) : Except Error Value := do
  let position ← rs.columnIndex column
  match rs.current with
  | some row => .ok (row[position]?.getD .null)
  | none => .error (.database .noCurrentRow)

/-- Reads a column and notes whether it was null. -/
def read (rs : RowSet) (column : Column) : Except Error Value × RowSet :=
  match rs.value column with
  | .ok v => (.ok v, { rs with wasNull := v.isNull })
  | .error e => (.error e, rs)

end RowSet

end RowMapper
