/-
Mapped statements: SQL by name, with descriptions of its parameter and its results.
-/
import RowMapper.Statement.ParameterMap

namespace RowMapper

structure Statement where
  id : String
  kind : StatementKind
  sql : String
  resource : Option String := none
  parameterClass : Option DataType := none
  parameterMap : Option ParameterMap := none
  /-- The id of the result map that rows are read with. -/
  resultMap : Option String := none
  /-- The class of results that are mapped from the columns. -/
  resultClass : Option DataType := none
  /-- Whether the mappings of such results are derived anew by every request. -/
  remapResults : Bool := false

namespace Statement

/-- Only selects and procedures give objects. -/
def requireQuery (s : Statement) : Except Error Unit :=
  if s.kind.isQuery then .ok () else .error (.protocol (.notAQuery s.kind))

/-- Binds a parameter, by the parameter map if there is one. -/
def bind (statement : Statement) (accessor : Accessor) (s : Store) (parameter : Value) :
    Except Error Params :=
  match statement.parameterMap with
  | some parameterMap => parameterMap.bind accessor s parameter
  | none => .ok (bindImplicit parameter)

/-- The operation that runs the statement as a call. -/
def callOperation (s : Statement) (params : Params) : Operation :=
  { kind := .call ((s.parameterMap.map (·.outputs)).getD []), sql := s.sql, params }

end Statement

end RowMapper
