/-
Namespaces: an id up to its last dot. A reference to an id of the referrer's own namespace may leave
the namespace out, and is rewritten to the full id.
-/
import RowMapper.Catalog.Basic

namespace RowMapper

/-- The namespace of an id, if it has one. -/
def namespace? (id : String) : Option String :=
  match (Text.steps id).dropLast with
  | [] => none
  | step :: steps => some (Text.path (step :: steps))

/-- The reference in its full form if that is known, else as it is. -/
def qualify (owner : String) (known : List String) (reference : String) : String :=
  match namespace? owner with
  | some ns =>
    let full := ns ++ "." ++ reference
    if known.contains full then full else reference
  | none => reference

/-- Qualifies the route of a mapping. -/
def Route.qualify (owner : String) (mapIds statementIds : List String) : Route → Route
  | .column => .column
  | .nestedSelect id => .nestedSelect (RowMapper.qualify owner statementIds id)
  | .nestedMap id => .nestedMap (RowMapper.qualify owner mapIds id)

namespace ResultMap

/-- Qualifies the routes of the mappings and the sub-maps of the discriminator. -/
def qualify (m : ResultMap) (mapIds statementIds : List String) : ResultMap :=
  let mapping (r : ResultMapping) : ResultMapping :=
    { r with route := r.route.qualify m.id mapIds statementIds }
  let mappings := match m.mappings with
    | .declared mappings => .declared (mappings.map mapping)
    | .auto home => .auto home
  let discriminator := m.discriminator.map fun d =>
    { mapping := mapping d.mapping
      subMaps := d.subMaps.map fun sub => (sub.1, RowMapper.qualify m.id mapIds sub.2) }
  { m with mappings, discriminator }

end ResultMap

/-- Qualifies the result map of a statement. -/
def Statement.qualify (s : Statement) (mapIds : List String) : Statement :=
  { s with resultMap := s.resultMap.map (RowMapper.qualify s.id mapIds) }

end RowMapper
