/-
Result maps: how rows become objects of one shape. A map has declared mappings, or none of its own
and takes those derived from the columns of the first rows read with it; a discriminator may choose
another map by the value of a column; rows with the same group key belong to one object.
-/
import RowMapper.Data.Content
import RowMapper.Mapping.ResultMapping

namespace RowMapper

/-- The choice of another map by the text of a column's value. -/
structure Discriminator where
  mapping : ResultMapping
  subMaps : List (String × String) := []

/-- The id of the map for a value. -/
def Discriminator.subMap? (d : Discriminator) (value : String) : Option String :=
  Table.get? value d.subMaps

/-- Declared mappings, or mappings derived from columns, which are kept where the catalog of the map
keeps them: at the number `home`. -/
inductive Mappings where
  | declared (mappings : List ResultMapping)
  | auto (home : Nat)

structure ResultMap where
  id : String
  resource : Option String := none
  resultClass : Option DataType := none
  /-- The name of the root element of document results. -/
  xmlName : Option String := none
  mappings : Mappings := .declared []
  /-- Whether a request may read the map with mappings of its own. -/
  remappable : Bool := false
  discriminator : Option Discriminator := none
  /-- The properties whose values group the rows, distinct and in order. -/
  groupBy : List String := []

namespace ResultMap

/-- The map derived from columns of results of a class. -/
def auto (id : String) (resultClass : DataType) (remappable : Bool) : ResultMap :=
  { id, resultClass := some resultClass, mappings := .auto 0, remappable }

def isAuto (m : ResultMap) : Bool :=
  match m.mappings with
  | .auto _ => true
  | .declared _ => false

/-- The map with a place where its derived mappings are kept. -/
def atHome (m : ResultMap) (home : Nat) : ResultMap :=
  match m.mappings with
  | .auto _ => { m with mappings := .auto home }
  | .declared _ => m

/-- The mappings that were declared with the map. -/
def declared (m : ResultMap) : List ResultMapping :=
  match m.mappings with
  | .declared mappings => mappings
  | .auto _ => []

/-- The map with a discriminator, of which it may have one. -/
def withDiscriminator (m : ResultMap) (d : Discriminator) : Except Error ResultMap :=
  match m.discriminator with
  | none => .ok { m with discriminator := some d }
  | some _ => .error (.configuration .secondDiscriminator)

/-- Changes every declared mapping and that of the discriminator. -/
def modifyMappings (m : ResultMap) (f : ResultMapping → Except Error ResultMapping) :
    Except Error ResultMap := do
  let mappings ← match m.mappings with
    | .declared mappings => (mappings.mapM f).map .declared
    | .auto home => .ok (.auto home)
  let discriminator ← match m.discriminator with
    | some d => (f d.mapping).map fun mapping => some { d with mapping }
    | none => .ok none
  .ok { m with mappings, discriminator }

/-- What a value adds to the key: the text of a group-by value with a dash behind it. -/
def keyPart (m : ResultMap) (s : Store) (pair : ResultMapping × Value) : Option String :=
  if m.groupBy.contains pair.1.property then some (s.text pair.2 ++ "-") else none

/-- The parts of the group-by values, in the order of the mappings. Nothing for a map without
group-by or with none of its properties mapped. -/
def uniqueKey (m : ResultMap) (s : Store) (mappings : List ResultMapping) (values : List Value) :
    Option String :=
  if m.groupBy.isEmpty then none
  else
    let parts := (mappings.zip values).filterMap (m.keyPart s)
    if parts.isEmpty then none else some (String.join parts)

end ResultMap

end RowMapper
