/-
Values in SQLite's storage classes: how a value is bound as a parameter and how a stored value reads
back, with the answers of a database that only hands values back or keeps pairs of them in a table.
Dates are kept as text; a NaN is kept as null.
-/
import RowMapper.Rows.Operation

namespace RowMapper

/-- A value in one of SQLite's storage classes. -/
inductive SqliteValue where
  | null
  | integer (n : Int64)
  | real (x : Number.Binary64)
  | text (s : String)
  | blob (b : ByteArray)

namespace SqliteValue

/-- The storage form of a value. Collections, objects and lazy values have none. -/
def ofValue : Value → Except Error SqliteValue
  | .null => .ok .null
  | .bool b => .ok (.integer (if b then 1 else 0))
  | .i32 n => .ok (.integer (Number.widen n))
  | .i64 n => .ok (.integer n)
  | .f64 x => .ok (.real x)
  | .string s => .ok (.text s)
  | .bytes b => .ok (.blob b)
  | .timestamp t => .ok (.text t.text)
  | v => .error (.database (.notBindable v.variant))

/-- A stored value as it is read. Making it one of a host type is left to the coercers. -/
def toValue : SqliteValue → Value
  | .null => .null
  | .integer n => .i64 n
  | .real x => .f64 x
  | .text s => .string s
  | .blob b => .bytes b

/-- What the database keeps of a bound value. -/
def kept : SqliteValue → SqliteValue
  | .real x => if x.isNaN then .null else .real x
  | v => v

/-- What is read back of a value that is bound as a parameter. -/
def handBack (v : Value) : Except Error Value := (ofValue v).map fun stored => stored.kept.toValue

end SqliteValue

namespace Sqlite

/-- The answer to a query for its own parameters, in columns `c0`, `c1` and so on. -/
def selectParameters (values : List Value) : Except Error Response := do
  let row ← values.mapM SqliteValue.handBack
  let columns := (List.range values.length).map fun index => s!"c{index}"
  .ok { rows := .rows { columns, rows := [row] } }

/-- A table of two columns without types. -/
abbrev PairTable := List (Value × Value)

/-- Adds a row. -/
def insert (table : PairTable) (first second : Value) : Except Error Response × PairTable :=
  let row := do .ok (← SqliteValue.handBack first, ← SqliteValue.handBack second)
  match row with
  | .ok row => (.ok { rows := .count 1 }, table ++ [row])
  | .error e => (.error e, table)

/-- Adds the rows one after the other, and gives the answer to each. -/
def insertAll : PairTable → PairTable → List (Except Error Response) × PairTable
  | table, [] => ([], table)
  | table, (first, second) :: rows =>
    let (outcome, table) := insert table first second
    let (outcomes, table) := insertAll table rows
    (outcome :: outcomes, table)

/-- All rows, in the order in which they were added. -/
def selectAll (table : PairTable) : Response :=
  { rows := .rows { columns := ["a", "b"], rows := table.map fun row => [row.1, row.2] } }

/-- Removes all rows. -/
def deleteAll (table : PairTable) : Response × PairTable := ({ rows := .count table.length }, [])

/-- There are no procedures to call. -/
def call (sql : String) : Except Error Response := .error (.protocol (.noProcedures sql))

end Sqlite

end RowMapper
