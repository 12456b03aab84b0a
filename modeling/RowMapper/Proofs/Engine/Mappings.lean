/-
The mappings that a map is read with: its declared ones or, if it declares none, those derived from
columns of results. A request may have mappings of its own for a map. Mappings that nest maps or
selects are declared ones.
-/
import RowMapper.Engine.AutoMap
import RowMapper.Proofs.Catalog.Index

namespace RowMapper

variable {w : World} {f : Frame} {m : ResultMap} {mapping : ResultMapping}

namespace ResultMap

theorem isAuto_of_mappings {home : Nat} (h : m.mappings = .auto home) : m.isAuto = true := by
  unfold isAuto
  rw [h]

theorem mappings_of_isAuto (h : m.isAuto = false) : m.mappings = .declared m.declared := by
  cases hm : m.mappings with
  | declared mappings =>
    unfold declared
    rw [hm]
  | auto home =>
    rw [isAuto_of_mappings hm] at h
    cases h

theorem isAuto_of_mem_declared (h : mapping ∈ m.declared) : m.isAuto = false := by
  unfold declared at h
  unfold isAuto
  cases hm : m.mappings with
  | declared mappings => rfl
  | auto home =>
    rw [hm] at h
    cases h

/-! ## Mappings for columns -/

/-- The mappings of a map for columns. -/
def derivedFrom (m : ResultMap) (registry : Registry) (columns : List String) : List ColumnMapping :=
  (DataType.columnMappings m.resultClass columns).map (ColumnMapping.resolve registry m.resultClass)

theorem derivedFrom_nil (m : ResultMap) (registry : Registry) : m.derivedFrom registry [] = [] := by
  have hnone : DataType.columnMappings m.resultClass [] = [] := by
    unfold DataType.columnMappings
    split
    · rfl
    · split <;> rfl
    · rfl
  unfold derivedFrom
  rw [hnone]
  rfl

theorem derive_eq_ok {catalog : Catalog} {r : Request} {mappings : List ColumnMapping}
    (h : m.derive catalog r = .ok mappings) :
    ∃ rows, r.rowSet = .ok rows ∧ mappings = m.derivedFrom catalog.registry rows.columns := by
  obtain ⟨rows, hrows, h⟩ := Except.bind_eq_ok_iff.1 h
  cases h
  exact ⟨rows, hrows, rfl⟩

end ResultMap

/-! ## Known mappings -/

theorem World.declaredMappings_eq (w : World) (h : m.isAuto = false) :
    w.declaredMappings m = m.declared := by
  unfold declaredMappings
  rw [ResultMap.mappings_of_isAuto h]

/-- The known mappings of a map are declared, or kept for it with the columns that they are from. -/
theorem World.mem_declaredMappings (h : mapping ∈ w.declaredMappings m) :
    mapping ∈ m.declared ∨ ∃ home columns column, m.mappings = .auto home ∧
      Table.get? (home, m.id) w.derived = some columns ∧ column ∈ columns ∧
      column.mapping = mapping := by
  cases hm : m.mappings with
  | declared mappings =>
    have hauto : m.isAuto = false := by
      unfold ResultMap.isAuto
      rw [hm]
    exact .inl (w.declaredMappings_eq hauto ▸ h)
  | auto home =>
    unfold declaredMappings at h
    rw [hm] at h
    obtain ⟨column, hcolumn, rfl⟩ := List.mem_map.1 h
    cases hd : Table.get? (home, m.id) w.derived with
    | none =>
      rw [hd] at hcolumn
      cases hcolumn
    | some columns =>
      rw [hd] at hcolumn
      exact .inr ⟨home, columns, column, rfl, hd, hcolumn, rfl⟩

theorem mem_declared_of_known (h : mapping ∈ w.declaredMappings m) (hr : mapping.route ≠ .column) :
    mapping ∈ m.declared := by
  rcases World.mem_declaredMappings h with hmem | ⟨_, _, _, -, -, -, rfl⟩
  · exact hmem
  · exact absurd rfl hr

/-! ## Mappings of a request -/

namespace Frame

theorem mappings_of_fixed (f : Frame) (h : m.remappable = false) :
    f.mappings m = f.world.declaredMappings m := by
  unfold mappings
  rw [h]
  rfl

/-- A request that has no mappings of its own for a map reads it with the known ones. -/
theorem mappings_of_none (h : Table.get? m.id f.request.mappings = none) :
    f.mappings m = f.world.declaredMappings m := by
  unfold mappings
  rw [h]
  exact ite_self _

theorem mem_mappings (h : mapping ∈ f.mappings m) :
    mapping ∈ f.world.declaredMappings m ∨
      ∃ installed, Table.get? m.id f.request.mappings = some installed ∧ mapping ∈ installed := by
  unfold mappings at h
  split at h
  · cases hg : Table.get? m.id f.request.mappings with
    | none =>
      rw [hg] at h
      exact .inl h
    | some installed =>
      rw [hg] at h
      exact .inr ⟨installed, rfl, h⟩
  · exact .inl h

end Frame

/-- A mapping of a map in use that does not read a column was declared. -/
theorem mem_declared_of_route
    (hf : ∀ mappings, Table.get? m.id f.request.mappings = some mappings →
      ∀ mapping ∈ mappings, mapping.route = .column)
    (hm : mapping ∈ f.mappings m) (hr : mapping.route ≠ .column) : mapping ∈ m.declared := by
  rcases Frame.mem_mappings hm with hknown | ⟨installed, hg, hmem⟩
  · exact mem_declared_of_known hknown hr
  · exact absurd (hf installed hg mapping hmem) hr

/-- The mappings that are installed in a request are from columns. -/
def Frame.TakesColumns (f : Frame) : Prop :=
  ∀ id mappings, Table.get? id f.request.mappings = some mappings →
    ∀ mapping ∈ mappings, mapping.route = .column

/-- Where only mappings of columns are installed, none but them are when those of a map are put there. -/
theorem route_of_installed {table : List (String × List ResultMapping)} {id : String}
    (h : ∀ mappings, Table.get? id table = some mappings → ∀ mapping ∈ mappings, mapping.route = .column)
    (key : String) (columns : List ColumnMapping) :
    ∀ mappings, Table.get? id (Table.put key (columns.map ColumnMapping.mapping) table) = some mappings →
      ∀ mapping ∈ mappings, mapping.route = .column := by
  intro mappings hget mapping hmem
  by_cases hid : id = key
  · rw [hid, Table.get?_put_self] at hget
    cases hget
    obtain ⟨_, -, rfl⟩ := List.mem_map.1 hmem
    rfl
  · rw [Table.get?_put_of_ne hid] at hget
    exact h mappings hget mapping hmem

end RowMapper
