/-
The group key of a map while one row is read again and again: reading a column depends on the row
alone, so that a key whose values come from columns and refer to nothing is the same every time.
-/
import RowMapper.Proofs.Data.Value
import RowMapper.Proofs.Engine.Call
import RowMapper.Proofs.Engine.Mappings

namespace RowMapper

variable {session : Session} {load : Load} {m : ResultMap} {f g : Frame}

/-! ## Columns -/

/-- On one row requests either refuse to read it, or read row sets that show the same. -/
theorem rowSetToRead_congr {r r' : Request} (h : r.row = r'.row) :
    (∃ e, r.rowSetToRead = .error e ∧ r'.rowSetToRead = .error e) ∨
      ∃ rows rows', r.rowSetToRead = .ok rows ∧ r'.rowSetToRead = .ok rows' ∧
        rows.columns = rows'.columns ∧ rows.current = rows'.current := by
  obtain ⟨hphase, hrows⟩ := Prod.mk.inj h
  unfold Request.rowSetToRead
  rw [hphase]
  cases hr : r.rows with
  | none =>
    rw [hr, Option.map_none, eq_comm, Option.map_eq_none_iff] at hrows
    rw [hrows]
    cases r'.phase <;> exact .inl ⟨_, rfl, rfl⟩
  | some rows =>
    rw [hr, Option.map_some, eq_comm, Option.map_eq_some_iff] at hrows
    obtain ⟨rows', hr', heq⟩ := hrows
    obtain ⟨hcolumns, hcurrent⟩ := Prod.mk.inj heq
    rw [hr']
    cases r'.phase with
    | executing => exact .inr ⟨rows, rows', rfl, rfl, hcolumns.symm, hcurrent.symm⟩
    | fresh => exact .inl ⟨_, rfl, rfl⟩
    | bound => exact .inl ⟨_, rfl, rfl⟩

theorem column_congr (h : f.request.row = g.request.row) (c : Coercer) (column : Column) :
    ((Frame.readColumn c column).run f).1 = ((Frame.readColumn c column).run g).1 := by
  unfold Frame.readColumn
  rcases rowSetToRead_congr h with ⟨e, hf, hg⟩ | ⟨rows, rows', hf, hg, hcolumns, hcurrent⟩
  · rw [run_onRows_error hf, run_onRows_error hg]
  · have hvalue : rows.value column = rows'.value column := by
      unfold RowSet.value RowSet.columnIndex
      rw [hcolumns, hcurrent]
    rw [run_onRows_ok hf, run_onRows_ok hg]
    simp only [Coercer.readColumn, RowSet.read, hvalue]
    cases rows'.value column <;> rfl

/-- What a mapping reads from its column depends on the row alone. -/
theorem readColumn_congr (h : f.request.row = g.request.row) (mapping : ResultMapping) :
    (mapping.readColumn.run f).1 = (mapping.readColumn.run g).1 := by
  unfold ResultMapping.readColumn
  split
  · rfl
  · rename_i c _
    have hc := column_congr h c mapping.source
    cases hf : (Frame.readColumn c mapping.source).run f with
    | mk outcome f' =>
      cases hg : (Frame.readColumn c mapping.source).run g with
      | mk outcome' g' =>
        rw [hf, hg] at hc
        cases hc
        cases outcome with
        | error e => rw [run_bind_error hf, run_bind_error hg]
        | ok v =>
          rw [run_bind_ok hf, run_bind_ok hg]
          split
          · split <;> rfl
          · rfl

/-! ## Rows -/

/-- The declared mappings of a map are those that it is read with, unless it is remapped. -/
theorem mappings_eq_declared {mapping : ResultMapping} (h : m.remappable = false)
    (hmem : mapping ∈ m.declared) (f : Frame) : f.mappings m = m.declared := by
  rw [f.mappings_of_fixed h, f.world.declaredMappings_eq (ResultMap.isAuto_of_mem_declared hmem)]

/-- The values of a row are what its mappings read, one after the other, from that row. -/
theorem readRow_values {values : List Value} (h : (m.readRow session load).run f = (.ok values, g)) :
    List.Forall₂ (fun mapping v => ∃ f' g', f'.request.row = f.request.row ∧
      (m.readMapping session load mapping).run f' = (.ok v, g')) (f.mappings m) values := by
  unfold ResultMap.readRow at h
  obtain ⟨_, f₁, h₁, h⟩ := run_bind_eq_ok.1 h
  obtain ⟨mappings, f₂, h₂, h⟩ := run_bind_eq_ok.1 h
  obtain ⟨values', f₃, h₃, h⟩ := run_bind_eq_ok.1 h
  obtain ⟨_, f₄, h₄, h⟩ := run_bind_eq_ok.1 h
  cases h; cases h₁; cases h₂
  have hsteady : ∀ (mapping : ResultMapping) (f : Frame),
      Frame.Steady f ((m.readMapping session load mapping).run f).2 := fun mapping f =>
    (OnRow.readMapping (x := True) (fun _ _ _ => bounded_true _) m mapping f trivial).2.1
  exact (forall₂_of_mapM hsteady h₃).imp fun mapping v ⟨f', g', hs, hrun⟩ => ⟨f', g', hs.row, hrun⟩

/-- A mapping of a column reads what its column holds. -/
theorem readMapping_column {mapping : ResultMapping} {v : Value} (hr : mapping.route = .column)
    (h : (m.readMapping session load mapping).run f = (.ok v, g)) :
    (mapping.readColumn.run f).1 = .ok v := by
  unfold ResultMap.readMapping at h
  obtain ⟨_, f₁, h₁, h⟩ := run_bind_eq_ok.1 h
  rw [hr] at h
  have hrow : f.request.row = f₁.request.row := by cases h₁; rfl
  rw [readColumn_congr hrow, h]

/-! ## Keys -/

/-- Keys agree when the texts of the group-by values do. -/
theorem uniqueKey_congr {P : ResultMapping → Value → Prop} {s t : Store} (mappings : List ResultMapping)
    {values values' : List Value} (hv : List.Forall₂ P mappings values)
    (hv' : List.Forall₂ P mappings values')
    (ht : ∀ mapping ∈ mappings, mapping.property ∈ m.groupBy → ∀ v v', P mapping v → P mapping v' →
      s.text v = t.text v') :
    m.uniqueKey s mappings values = m.uniqueKey t mappings values' := by
  have hparts : (mappings.zip values).filterMap (m.keyPart s) =
      (mappings.zip values').filterMap (m.keyPart t) := by
    induction hv generalizing values' with
    | nil => cases hv'; rfl
    | @cons mapping v mappings _ hp _ ih =>
      cases hv' with
      | @cons _ v' _ _ hp' hrest' =>
        have hpart : m.keyPart s (mapping, v) = m.keyPart t (mapping, v') := by
          unfold ResultMap.keyPart
          split
          · rename_i hg
            rw [ht _ (List.mem_cons_self ..) (List.contains_iff_mem.1 hg) v v' hp hp']
          · rfl
        have hrest := ih hrest' fun mapping hm => ht mapping (List.mem_cons_of_mem _ hm)
        rw [List.zip_cons_cons, List.zip_cons_cons, List.filterMap_cons, List.filterMap_cons, hpart,
          hrest]
  unfold ResultMap.uniqueKey
  rw [hparts]

/-- A map with a mapped group-by property has a key for every row. -/
theorem uniqueKey_isSome {s : Store} {mappings : List ResultMapping} {values : List Value}
    (hlen : mappings.length = values.length)
    (hex : ∃ mapping ∈ mappings, mapping.property ∈ m.groupBy) :
    (m.uniqueKey s mappings values).isSome := by
  obtain ⟨mapping, hm, hg⟩ := hex
  have hfst : (mappings.zip values).map Prod.fst = mappings := List.map_fst_zip (Nat.le_of_eq hlen)
  rw [← hfst] at hm
  obtain ⟨pair, hpair, rfl⟩ := List.mem_map.1 hm
  have hpart : s.text pair.2 ++ "-" ∈ (mappings.zip values).filterMap (m.keyPart s) :=
    List.mem_filterMap.2 ⟨pair, hpair, by simp [ResultMap.keyPart, hg]⟩
  unfold ResultMap.uniqueKey
  rw [if_neg (by simpa using List.ne_nil_of_mem hg)]
  dsimp only
  rw [if_neg (by rw [List.isEmpty_iff]; exact List.ne_nil_of_mem hpart)]
  rfl

end RowMapper
