/-
Result mappings: where the value of one property comes from, which is a column, another statement,
or another result map on the same rows. Resolving a mapping picks its coercer.
-/
import RowMapper.Coercer.Registry
import RowMapper.Mapping.ColumnSpec

namespace RowMapper

/-- Where the value of a mapping comes from. -/
inductive Route where
  | column
  | nestedSelect (statement : String)
  | nestedMap (resultMap : String)
  deriving DecidableEq, Repr

structure ResultMapping where
  property : String
  column : Option String := none
  columnIndex : Option Nat := none
  sqlType : Option String := none
  type : Option DataType := none
  /-- The text whose value stands for a null column. -/
  nullValue : Option String := none
  coercer : Option Coercer := none
  route : Route := .column
  /-- The specifier that the column text of a nested select was parsed to. -/
  spec : Option ColumnSpec := none

/-- The declared type of the property at a dotted path of a type. What is not a bean can hold
anything. -/
def DataType.atSteps : DataType → List String → Except Error DataType
  | type, [] => .ok type
  | .bean name properties, step :: steps =>
    match Table.get? step properties with
    | some type => type.atSteps steps
    | none => .error (.configuration (.notWritable step name))
  | _, _ :: steps => DataType.object.atSteps steps

def DataType.atPath (type : DataType) (path : String) : Except Error DataType :=
  type.atSteps (Text.steps path)

namespace ResultMapping

/-- The hint that goes with a failure of the mapping. -/
def hint (m : ResultMapping) : String :=
  s!"Check the result mapping for the '{m.property}' property."

def isNestedMap (m : ResultMapping) : Bool :=
  match m.route with
  | .nestedMap _ => true
  | _ => false

/-- The column to read: by label if there is one, else by position, else by the property. -/
def source (m : ResultMapping) : Column :=
  match m.column, m.columnIndex with
  | some label, _ => .name label
  | none, some position => .index position
  | none, none => .name m.property

/-- The coercer that a declaration leads to: by the declared type, or else by the type of the
property in a bean class, or else the one for any value. -/
def findCoercer (registry : Registry) (type : Option DataType) (sqlType : Option String)
    (owner : Option DataType) (property : String) : Option Coercer :=
  match type with
  | some type => registry.find? type sqlType
  | none =>
    let fromOwner := do
      let owner ← owner
      if owner.isBean then registry.find? (← (owner.atPath property).toOption) sqlType else none
    some (fromOwner.getD Registry.unknown)

/-- Picks the coercer, unless one is given, and parses the column text of a nested select. -/
def resolve (registry : Registry) (resultClass : Option DataType) (m : ResultMapping) :
    Except Error ResultMapping :=
  let coercer :=
    m.coercer.or (findCoercer registry m.type m.sqlType resultClass m.property)
  match m.route, m.column with
  | .nestedSelect _, some column =>
    (ColumnSpec.parse column).map fun spec => { m with coercer, spec := some spec }
  | _, _ => .ok { m with coercer }

end ResultMapping

/-- A mapping derived from a column. -/
structure ColumnMapping where
  property : String
  column : String
  type : Option DataType := none
  coercer : Option Coercer := none

namespace ColumnMapping

def resolve (registry : Registry) (resultClass : Option DataType) (m : ColumnMapping) :
    ColumnMapping :=
  { m with coercer := ResultMapping.findCoercer registry m.type none resultClass m.property }

def mapping (m : ColumnMapping) : ResultMapping :=
  { property := m.property, column := some m.column, type := m.type, coercer := m.coercer }

end ColumnMapping

end RowMapper
