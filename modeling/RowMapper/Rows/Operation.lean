/-
What a database is asked to do and what it answers.
-/
import RowMapper.Data.DataType
import RowMapper.Rows.OutParams
import RowMapper.Rows.RowSet

namespace RowMapper

/-- The kinds of operation. A call names the positions and types of its output parameters. -/
inductive OperationKind where
  | call (outputs : List (Nat × DataType))
  | exec
  | query

def OperationKind.name : OperationKind → String
  | .call _ => "call"
  | .exec => "exec"
  | .query => "query"

/-- The output parameters that a call names. -/
def OperationKind.outputs? : OperationKind → Option (List (Nat × DataType))
  | .call outputs => some outputs
  | .exec | .query => none

structure Operation where
  kind : OperationKind
  sql : String
  params : Params

/-- A count of changed rows, or rows. -/
inductive ResponseRows where
  | count (count : Nat)
  | rows (rows : RowSet)

structure Response where
  rows : ResponseRows
  outputs : Option OutParams := none

/-- The rows of a response that is no count. -/
def ResponseRows.rows? : ResponseRows → Option RowSet
  | .count _ => none
  | .rows rs => some rs

/-- The count of a response; zero for rows. -/
def ResponseRows.total : ResponseRows → Nat
  | .count n => n
  | .rows _ => 0

end RowMapper
