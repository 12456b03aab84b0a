/-
The values of a row, one by one. A mapping of a column reads what its coercer makes of the value that
the row has there, whatever was read before it on the same row.
-/
import RowMapper.Proofs.Coercer.Reading
import RowMapper.Proofs.Engine.Correspondence
import RowMapper.Proofs.Engine.Key

namespace RowMapper

variable {session : Session} {load : Load} {m : ResultMap} {f g : Frame} {mapping : ResultMapping}
  {v : Value}

/-- The value of a column in the row that a request is on. -/
def Frame.cell (f : Frame) (column : Column) : Except Error Value := do
  (← f.request.rowSetToRead).value column

theorem Frame.cell_congr (h : f.request.row = g.request.row) (column : Column) :
    f.cell column = g.cell column := by
  unfold Frame.cell
  rcases rowSetToRead_congr h with ⟨e, hf, hg⟩ | ⟨rows, rows', hf, hg, hcolumns, hcurrent⟩
  · rw [hf, hg]
  · rw [hf, hg]
    show rows.value column = rows'.value column
    unfold RowSet.value RowSet.columnIndex
    rw [hcolumns, hcurrent]

/-- The cell of a label is in the first column that is called so, up to case. -/
theorem Frame.cell_name {rows : RowSet} {row : List Value} (hrows : f.request.rowSetToRead = .ok rows)
    (hcurrent : rows.current = some row) {label : String} :
    f.cell (.name label) =
      match rows.columns.findIdx? (Text.sameLabel · label) with
      | some position => .ok (row[position]?.getD .null)
      | none => .error (.database (.noColumn label)) := by
  unfold Frame.cell
  rw [hrows]
  show rows.value (.name label) = _
  unfold RowSet.value RowSet.columnIndex
  dsimp only
  cases rows.columns.findIdx? (Text.sameLabel · label) with
  | none => rfl
  | some position =>
    rw [hcurrent]
    rfl

/-- Reading a column by a coercer is reading its cell. -/
theorem Frame.run_readColumn (c : Coercer) (column : Column) (f : Frame) :
    ((Frame.readColumn c column).run f).1 = ((f.cell column).bind c.ofStored).mapError .failed := by
  unfold Frame.readColumn Frame.cell
  cases hr : f.request.rowSetToRead with
  | error e =>
    rw [run_onRows_error hr]
    rfl
  | ok rows =>
    rw [run_onRows_ok hr]
    show ((rows.read column).1.bind c.ofStored).mapError _ = ((rows.value column).bind _).mapError _
    unfold RowSet.read
    cases rows.value column <;> rfl

/-- What a mapping reads is what its coercer makes of the cell. -/
theorem ResultMapping.readColumn_eq_ok (h : (mapping.readColumn.run f).1 = .ok v) :
    ∃ c stored, mapping.coercer = some c ∧ f.cell mapping.source = .ok stored ∧
      c.convert mapping.nullValue stored = .ok v := by
  rcases hrun : mapping.readColumn.run f with ⟨outcome, g⟩
  rw [hrun] at h
  obtain rfl : outcome = .ok v := h
  unfold ResultMapping.readColumn at hrun
  split at hrun
  · cases hrun
  · next c hc =>
    obtain ⟨w, f', hread, hrun⟩ := run_bind_eq_ok.1 hrun
    have hcell := Frame.run_readColumn c mapping.source f
    rw [hread, eq_comm] at hcell
    obtain ⟨stored, hstored, hw⟩ := Except.bind_eq_ok_iff.1 (Except.mapError_eq_ok_iff.1 hcell)
    refine ⟨c, stored, hc, hstored, ?_⟩
    have hnull := Coercer.isNull_of_ofStored hw
    unfold Coercer.convert
    cases htext : mapping.nullValue with
    | none =>
      rw [htext] at hrun
      cases hrun
      exact hw
    | some text =>
      rw [htext] at hrun
      dsimp only at hrun ⊢
      rw [hnull] at hrun
      cases hs : stored.isNull with
      | true =>
        rw [hs, if_pos rfl] at hrun
        exact (run_ofExcept_eq_ok.1 hrun).1
      | false =>
        rw [hs, if_neg nofun] at hrun
        cases hrun
        unfold Coercer.ofStored at hw
        rwa [hs] at hw

/-- A row that was read has one value for each mapping. That of a column is what the coercer of the
mapping makes of the cell, and the row holds data when one of the values is not null. -/
theorem readRow_cells {values : List Value} (h : (m.readRow session load).run f = (.ok values, g)) :
    List.Forall₂ (fun mapping v => mapping.route = .column → ∃ c stored, mapping.coercer = some c ∧
      f.cell mapping.source = .ok stored ∧ c.convert mapping.nullValue stored = .ok v)
      (f.mappings m) values := by
  refine (readRow_values h).imp ?_
  rintro mapping v ⟨f', g', hrow, hread⟩ hroute
  obtain ⟨c, stored, hc, hcell, hconvert⟩ :=
    ResultMapping.readColumn_eq_ok (readMapping_column hroute hread)
  exact ⟨c, stored, hc, (Frame.cell_congr hrow _).symm.trans hcell, hconvert⟩

end RowMapper
