/-
Choosing the map for a row. Each discriminator on the way selects, by one column of the row, the map that
is looked at next, so that the way is a walk through the maps of the catalog (`Catalog.Walk`). It passes
no map twice: after as many steps as there are maps it has stopped by itself, however discriminators
lead in circles, and where it stops is read off the last discriminator.
-/
import RowMapper.Proofs.Engine.Key
import RowMapper.Proofs.References.Reached

namespace RowMapper

variable {f g : Frame} {m : ResultMap}

/-! ## Reading a discriminator -/

/-- Reads the discriminator of a map, if it has one, for the sub-map of its value. -/
def ResultMap.readDiscriminator (m : ResultMap) : Run Frame (Option String) := do
  match m.discriminator with
  | none => return none
  | some d =>
    let value ← d.value
    return d.subMap? value

/-- The sub-map that the discriminator of a map selects for the row of a frame. There is none for a map
without a discriminator, and for a value without a sub-map. -/
def ResultMap.selection (m : ResultMap) (f : Frame) : Except Stop (Option String) :=
  (m.readDiscriminator.run f).1

/-- Nothing but the cursor has changed, which is on the same row. -/
structure Frame.Reread (f g : Frame) : Prop where
  world : g.world = f.world
  row : g.request.row = f.request.row

instance : Std.Refl Frame.Reread := ⟨fun _ => ⟨rfl, rfl⟩⟩

instance : IsTrans Frame Frame.Reread :=
  ⟨fun _ _ _ h h' => ⟨h'.world.trans h.world, h'.row.trans h.row⟩⟩

/-- The stop of a column that cannot be read, which says nothing about a result map. -/
def Stop.Unreadable (stop : Stop) : Prop := ∃ e, stop = .failed e ∧ e.dangles = false

theorem unreadable_mapError {α : Type} {outcome : Except Error α} (h : Found outcome) :
    Ends Stop.Unreadable Always (outcome.mapError .failed) := by
  cases outcome with
  | error e => exact ⟨e, rfl, h⟩
  | ok a => trivial

/-- A run that reads from the row of the request, and fails only if a column cannot be read. -/
abbrev Rereads {α : Type} (run : Run Frame α) : Prop :=
  Keeps (fun _ => True) Frame.Reread Stop.Unreadable Always run

namespace Rereads

theorem column (c : Coercer) (column : Column) : Rereads (Frame.readColumn c column) := by
  intro f _
  cases hr : f.request.rowSetToRead with
  | error e =>
    have hfound := f.request.found_rowSetToRead
    rw [hr] at hfound
    rw [Frame.readColumn, run_onRows_error hr]
    exact ⟨trivial, Std.Refl.refl f, e, rfl, hfound⟩
  | ok rows =>
    rw [Frame.readColumn, run_onRows_ok hr]
    obtain ⟨hcolumns, hcurrent⟩ := OnRow.row_readColumn c rows column
    refine ⟨trivial, ⟨rfl, ?_⟩, unreadable_mapError (c.found_readColumn rows column)⟩
    simp only [Request.row, Request.rows_of_rowSetToRead hr, Option.map_some, hcolumns, hcurrent]

theorem readColumn (mapping : ResultMapping) : Rereads mapping.readColumn := by
  unfold ResultMapping.readColumn
  split
  · exact .throw ⟨_, rfl, rfl⟩
  · rename_i c _
    refine (column c _).bind fun v _ => ?_
    split
    · split
      · exact fun f _ => ⟨trivial, Std.Refl.refl f, unreadable_mapError (c.found_valueOf _)⟩
      · exact .pure trivial
    · exact .pure trivial

theorem readDiscriminator (m : ResultMap) : Rereads m.readDiscriminator := by
  unfold ResultMap.readDiscriminator Discriminator.value
  split
  · exact .pure trivial
  · rename_i d _
    refine Keeps.bind (Q := Always) (Keeps.bind (readColumn d.mapping) fun v _ => ?_) fun _ _ => .pure trivial
    exact fun f _ => ⟨trivial, Std.Refl.refl f, trivial⟩

end Rereads

namespace ResultMap

variable {catalog : Catalog} {steps : Nat} {passed : List String}

end ResultMap

/-! ## Walks -/

namespace Catalog

variable {catalog : Catalog}

/-- The maps that discriminators lead through for the row of a frame, from a first map to a last. -/
structure Walk (catalog : Catalog) (f : Frame) (first last : ResultMap) (maps : List ResultMap) : Prop where
  first : maps.head? = some first
  last : maps.getLast? = some last
  held : ∀ m ∈ maps, catalog.resultMap m.id = .ok m
  distinct : (maps.map ResultMap.id).Nodup
  selected : maps.IsChain fun a b => a.selection f = .ok (some b.id)

theorem Walk.single (h : catalog.resultMap m.id = .ok m) : catalog.Walk f m m [m] where
  first := rfl
  last := rfl
  held := by simpa using h
  distinct := List.nodup_singleton _
  selected := .singleton _

/-- A walk may be started a map before. -/
theorem Walk.cons {first next last : ResultMap} {maps : List ResultMap} (h : catalog.Walk f next last maps)
    (held : catalog.resultMap first.id = .ok first) (new : first.id ∉ maps.map ResultMap.id)
    (selected : first.selection f = .ok (some next.id)) :
    catalog.Walk f first last (first :: maps) where
  first := rfl
  last := by
    rw [List.getLast?_cons, h.last]
    rfl
  held := List.forall_mem_cons.2 ⟨held, h.held⟩
  distinct := List.nodup_cons.2 ⟨new, h.distinct⟩
  selected := by
    refine List.isChain_cons.2 ⟨fun n hn => ?_, h.selected⟩
    rw [h.first] at hn
    cases hn
    exact selected

/-- Maps of a catalog that are pairwise distinct are no more than it has. -/
theorem length_le_of_distinct {ids : List String} (h : ids.Nodup)
    (held : ∀ id ∈ ids, ∃ m, catalog.resultMap id = .ok m) :
    ids.length ≤ catalog.resultMaps.length := by
  have hsub : ids ⊆ catalog.resultMaps.map (·.1) := by
    intro id hid
    obtain ⟨m, hm⟩ := held id hid
    exact List.mem_map.2 ⟨_, Table.mem_of_get? (resultMap_ok_iff.1 hm), rfl⟩
  simpa using (List.subperm_of_subset h hsub).length_le

theorem Walk.length_le {first last : ResultMap} {maps : List ResultMap}
    (h : catalog.Walk f first last maps) : maps.length ≤ catalog.resultMaps.length := by
  rw [← List.length_map (f := ResultMap.id)]
  refine length_le_of_distinct h.distinct (List.forall_mem_map.2 fun m hm => ⟨m, h.held m hm⟩)

/-- Where a walk stops: the discriminator of its last map cannot be read, or it has none, or it selects
nothing or one of the maps that were met. -/
def Stops (f : Frame) (last : ResultMap) (met : List String) (outcome : Except Stop ResultMap) : Prop :=
  (∃ stop, last.selection f = .error stop ∧ stop.Unreadable ∧ outcome = .error stop) ∨
    outcome = .ok last ∧ (last.selection f = .ok none ∨ ∃ id ∈ met, last.selection f = .ok (some id))

theorem Stops.mono {last : ResultMap} {met met' : List String} {outcome : Except Stop ResultMap}
    (h : Stops f last met outcome) (hsub : met ⊆ met') : Stops f last met' outcome :=
  h.imp_right (And.imp_right (Or.imp_right fun ⟨id, hid, hs⟩ => ⟨id, hsub hid, hs⟩))

section

variable (hi : Table.Indexed ResultMap.id catalog.resultMaps) (hr : catalog.Resolved)

include hi hr

end

end Catalog

end RowMapper
