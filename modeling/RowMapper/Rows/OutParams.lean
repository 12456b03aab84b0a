/-
The output parameters of a procedure call by position. Reading one notes whether it was null; a
position that the call did not reach cannot be read.
-/
import RowMapper.Rows.Params

namespace RowMapper

structure OutParams where
  values : List Value := []
  wasNull : Bool := false

namespace OutParams

def length (out : OutParams) : Nat := out.values.length

def isEmpty (out : OutParams) : Bool := out.values.isEmpty

/-- Sets a position; the positions before it that hold nothing become null. -/
def set (out : OutParams) (index : Nat) (value : Value) : OutParams :=
  { out with values := setAt .null index value out.values }

/-- The value at a position. -/
def value (out : OutParams) (index : Nat) : Except Error Value :=
  match out.values[index]? with
  | some v => .ok v
  | none => .error (.database (.noOutput index))

/-- Reads a position and notes whether it was null. -/
def read (out : OutParams) (index : Nat) : Except Error Value × OutParams :=
  match out.value index with
  | .ok v => (.ok v, { out with wasNull := v.isNull })
  | .error e => (.error e, out)

end OutParams

end RowMapper
