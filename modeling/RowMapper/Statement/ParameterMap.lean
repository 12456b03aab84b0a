/-
Parameter maps: which property of a parameter goes to which place of a statement, and back for the
output parameters of a procedure.
-/
import RowMapper.Mapping.Exchange
import RowMapper.Rows.Operation

namespace RowMapper

/-- The direction of a parameter. -/
inductive ParameterMode where
  | input
  | output
  | both
  deriving DecidableEq, Repr

def ParameterMode.name : ParameterMode → String
  | .input => "in"
  | .output => "out"
  | .both => "inout"

def ParameterMode.isOutput : ParameterMode → Bool
  | .input => false
  | .output | .both => true

structure ParameterMapping where
  property : String
  type : Option DataType := none
  sqlType : Option String := none
  mode : ParameterMode := .input
  /-- The text whose value is bound as null. -/
  nullValue : Option String := none
  coercer : Option Coercer := none

structure ParameterMap where
  id : String
  mappings : List ParameterMapping := []

namespace ParameterMapping

/-- The coercer, without which the parameter cannot be used. -/
def requireCoercer (m : ParameterMapping) : Except Error Coercer :=
  match m.coercer with
  | some c => .ok c
  | none => .error (.configuration (.noParameterCoercer m.property))

/-- Picks the coercer, unless one is given. -/
def resolve (registry : Registry) (parameterClass : Option DataType) (m : ParameterMapping) :
    Except Error ParameterMapping :=
  match m.coercer, m.type with
  | some _, _ => .ok m
  | none, some type =>
    match registry.find? type m.sqlType with
    | some c => .ok { m with coercer := some c }
    | none => .error (.configuration (.noCoercerOfType m.property type.name))
  | none, none =>
    .ok { m with
      coercer := ResultMapping.findCoercer registry none m.sqlType parameterClass m.property }

/-- Binds a value at a position: null for an output, and for the value of the null sentinel. -/
def bind (m : ParameterMapping) (s : Store) (params : Params) (index : Nat) (v : Value) :
    Except Error Params :=
  match m.mode with
  | .output => .ok (params.setNull index m.sqlType)
  | _ => do
    let c ← m.requireCoercer
    let v ← match m.nullValue with
      | some text => (c.valueOf text).map fun sentinel => if s.same sentinel v then .null else v
      | none => .ok v
    c.bind params index v m.sqlType

end ParameterMapping

namespace ParameterMap

/-- The positions and types of the output parameters. -/
def outputs (m : ParameterMap) : List (Nat × DataType) :=
  m.mappings.zipIdx.filterMap fun (mapping, index) =>
    if mapping.mode.isOutput then some (index, mapping.type.getD .object) else none

def resolve (registry : Registry) (parameterClass : Option DataType) (m : ParameterMap) :
    Except Error ParameterMap :=
  (m.mappings.mapM (ParameterMapping.resolve registry parameterClass)).map fun mappings =>
    { m with mappings }

/-- Binds the values of the mappings one after the other, from a position on. -/
def bindFrom (s : Store) : Nat → List (ParameterMapping × Value) → Params → Except Error Params
  | _, [], params => .ok params
  | index, (mapping, v) :: rest, params => do
    let params ← mapping.bind s params index v
    bindFrom s (index + 1) rest params

/-- Reads each mapped property of a parameter and binds it. -/
def bind (m : ParameterMap) (accessor : Accessor) (s : Store) (parameter : Value) :
    Except Error Params := do
  let exchange := Exchange.ofValue s parameter
  let values ← exchange.getData accessor s (m.mappings.map (·.property)) parameter
  bindFrom s 0 (m.mappings.zip values) []

/-- Writes the output parameters of a call into an object. Other parameters take none. -/
def writeOutputs (m : ParameterMap) (accessor : Accessor) (parameter : Value) (out : OutParams) :
    Edit Unit :=
  if parameter.isObject then
    m.mappings.zipIdx.forM fun (mapping, index) =>
      if mapping.mode.isOutput then do
        let c ← Edit.ofExcept mapping.requireCoercer
        let v ← Edit.ofExcept (c.readOutput out index).1
        accessor.set parameter mapping.property v
      else pure ()
  else pure ()

end ParameterMap

/-- Binds a parameter without a parameter map: a scalar alone, the elements of a collection, and
nothing for null, an object or a lazy value. -/
def bindImplicit : Value → Params
  | .null | .object _ | .lazy _ => []
  | .record items | .list items | .set items => .ofValues items
  | scalar => .ofValues [scalar]

end RowMapper
