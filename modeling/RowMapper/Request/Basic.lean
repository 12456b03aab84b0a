/-
Requests: what one execution of a statement keeps while it reads rows. A request is bound to a
statement, then given rows, and may be reset to a new one at any time.
-/
import RowMapper.Request.Identity
import RowMapper.Statement.Basic

namespace RowMapper

structure Request where
  phase : Phase := .fresh
  statement : Option Statement := none
  sql : Option String := none
  resultMap : Option ResultMap := none
  rows : Option RowSet := none
  identity : IdentityTable := {}
  context : ErrorContext := {}
  /-- Whether the last row read held anything but nulls; true before any is read. -/
  rowDataFound : Bool := true
  /-- The mappings that remappable maps are read with in this request. -/
  mappings : List (String × List ResultMapping) := []
  /-- The map and key of each object whose nested elements are being gathered, newest first. -/
  assembling : List (String × String) := []

namespace Request

/-- Assigns the statement about to run. -/
def bind (r : Request) (statement : Statement) (resultMap : Option ResultMap) : Request :=
  { r with statement := some statement, sql := some statement.sql, resultMap, phase := .bound }

/-- Hands over the rows of the bound statement. -/
def start (r : Request) (rows : RowSet) : Except Error Request :=
  if r.phase = .bound then .ok { r with rows := some rows, phase := .executing }
  else .error (.protocol (.notBound r.phase))

/-- The rows of a request that is reading them. -/
def rowSet (r : Request) : Except Error RowSet :=
  match r.rows, r.phase with
  | some rows, .executing => .ok rows
  | _, phase => .error (.protocol (.notExecuting phase))

/-- The rows, in order to read them. -/
def rowSetToRead (r : Request) : Except Error RowSet :=
  match r.phase, r.rows with
  | .executing, some rows => .ok rows
  | .executing, none => .error (.protocol .noRows)
  | phase, _ => .error (.protocol (.notExecuting phase))

/-- Installs mappings for a map, remappable or not. -/
def setMappings (r : Request) (resultMap : String) (mappings : List ResultMapping) : Request :=
  { r with mappings := Table.put resultMap mappings r.mappings }

/-- Installs mappings for a remappable map. -/
def remap (r : Request) (m : ResultMap) (mappings : List ResultMapping) : Except Error Request :=
  if m.remappable then .ok (r.setMappings m.id mappings)
  else .error (.configuration (.notRemappable m.id))

/-- Whether the object with this map and key is being assembled. -/
def isAssembling (r : Request) (resultMap key : String) : Bool :=
  r.assembling.contains (resultMap, key)

def pushAssembling (r : Request) (resultMap key : String) : Request :=
  { r with assembling := (resultMap, key) :: r.assembling }

def popAssembling (r : Request) : Request := { r with assembling := r.assembling.tail }

/-- Forgets the statement, the rows, and all that was noted while they were read. -/
def reset (r : Request) : Request where
  phase := .fresh
  statement := none
  sql := none
  resultMap := none
  rows := none
  identity := r.identity.clear
  context := r.context.reset
  rowDataFound := true
  mappings := []
  assembling := []

end Request

end RowMapper
