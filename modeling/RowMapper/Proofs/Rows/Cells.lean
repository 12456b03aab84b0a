/-
The values in rows and replies. Reading a column gives one of them, or a value that refers to
nothing; moving the cursor and answering an operation bring in no others.
-/
import RowMapper.Database.Script
import RowMapper.Proofs.Catalog.Index
import RowMapper.Proofs.Data.Value

namespace RowMapper

/-- The values in the rows that are being read, and in those still to be read. -/
def RowSet.cells (rows : RowSet) : List Value :=
  rows.rows.flatten ++ rows.current.getD [] ++ rows.ahead.flatten

/-- The values that a database answers with. -/
def Response.cells (response : Response) : List Value :=
  (response.rows.rows?.map RowSet.cells).getD [] ++ (response.outputs.map OutParams.values).getD []

/-- The values that a reply holds. -/
def Reply.cells : Reply → List Value
  | .rows rs => rs.cells
  | .call rs outputs => (rs.map RowSet.cells).getD [] ++ outputs.values
  | .count _ | .error _ => []

theorem Response.mem_cells_of_rows {response : Response} {rows : RowSet} {v : Value}
    (h : response.rows = .rows rows) (hv : v ∈ rows.cells) : v ∈ response.cells := by
  refine List.mem_append_left _ ?_
  rw [h]
  exact hv

theorem Response.mem_cells_of_outputs {response : Response} {out : OutParams} {v : Value}
    (h : response.outputs = some out) (hv : v ∈ out.values) : v ∈ response.cells := by
  refine List.mem_append_right _ ?_
  rw [h]
  exact hv

namespace RowSet

variable {rows : RowSet} {v : Value}

theorem mem_cells : v ∈ rows.cells ↔
    v ∈ rows.rows.flatten ∨ v ∈ rows.current.getD [] ∨ v ∈ rows.ahead.flatten := by
  simp only [cells, List.mem_append, or_assoc]

/-- Going back to the start brings in no values. -/
theorem mem_cells_of_rewind (h : v ∈ rows.rewind.cells) : v ∈ rows.cells := by
  rw [mem_cells] at h ⊢
  rcases h with h | h | h
  · exact .inl h
  · cases h
  · exact .inl h

theorem mem_cells_of_next (h : v ∈ rows.next.2.cells) : v ∈ rows.cells := by
  unfold next at h
  split at h
  · rw [mem_cells] at h ⊢
    rcases h with h | h | h
    · exact .inl h
    · cases h
    · exact .inr (.inr h)
  · rename_i row ahead ha
    rw [mem_cells] at h ⊢
    rw [ha]
    rcases h with h | h | h
    · exact .inl h
    · exact .inr (.inr (List.mem_append_left _ h))
    · exact .inr (.inr (List.mem_append_right _ h))

/-- The value of a column is null or stands in the current row. -/
theorem value_mem {column : Column} (h : rows.value column = .ok v) : v = .null ∨ v ∈ rows.cells := by
  obtain ⟨position, -, h⟩ := Except.bind_eq_ok_iff.1 h
  cases hc : rows.current with
  | none => rw [hc] at h; cases h
  | some row =>
    rw [hc] at h
    have hv : row[position]?.getD .null = v := by injection h
    cases hg : row[position]? with
    | none => rw [hg] at hv; exact .inl hv.symm
    | some w =>
      rw [hg] at hv
      refine .inr (mem_cells.2 (.inr (.inl ?_)))
      rw [hc, ← hv]
      exact List.mem_of_getElem? hg

end RowSet

namespace Coercer

variable {c : Coercer} {rows : RowSet} {column : Column} {v : Value}

/-- Reading a column leaves the rows as they are. -/
theorem readColumn_rows (c : Coercer) (rows : RowSet) (column : Column) :
    (c.readColumn rows column).2 = { rows with wasNull := (c.readColumn rows column).2.wasNull } := by
  unfold readColumn RowSet.read
  cases rows.value column <;> rfl

theorem readColumn_cells (c : Coercer) (rows : RowSet) (column : Column) :
    (c.readColumn rows column).2.cells = rows.cells := by
  rw [readColumn_rows]
  rfl

/-- What is read from a column is one of the values of the rows, or refers to nothing. -/
theorem readColumn_mem_or_plain (h : (c.readColumn rows column).1 = .ok v) :
    v ∈ rows.cells ∨ v.Plain := by
  unfold readColumn RowSet.read at h
  cases hv : rows.value column with
  | error e => rw [hv] at h; cases h
  | ok w =>
    rw [hv] at h
    rcases ofStored_eq_or_plain h with rfl | hplain
    · exact (RowSet.value_mem hv).elim (fun hn => .inr (hn ▸ ⟨rfl, rfl⟩)) .inl
    · exact .inr hplain

/-- What is read from an output is one of the values of the outputs, or refers to nothing. -/
theorem readOutput_mem_or_plain {out : OutParams} {index : Nat}
    (h : (c.readOutput out index).1 = .ok v) : v ∈ out.values ∨ v.Plain := by
  unfold readOutput OutParams.read OutParams.value at h
  cases hv : out.values[index]? with
  | none => rw [hv] at h; cases h
  | some w =>
    rw [hv] at h
    rcases ofStored_eq_or_plain h with rfl | hplain
    · exact .inl (List.mem_of_getElem? hv)
    · exact .inr hplain

end Coercer

/-! ## Replies -/

namespace Script

variable {d : Script} {v : Value}

/-- An answer brings in no values that are not in the reply. -/
theorem mem_cells_of_respond {sql : String} {kind : OperationKind} {reply : Reply}
    {response : Response} (h : respond sql kind reply = .ok response) (hv : v ∈ response.cells) :
    v ∈ reply.cells := by
  cases reply with
  | error message => cases h
  | count count => cases h; cases hv
  | rows rs =>
    cases h
    rcases List.mem_append.1 hv with hv | hv
    · exact RowSet.mem_cells_of_rewind hv
    · cases hv
  | call rs outputs =>
    cases kind with
    | exec => cases h
    | query => cases h
    | call outs =>
      cases h
      refine List.mem_append.2 ((List.mem_append.1 hv).imp_left fun hv => ?_)
      cases rs with
      | none => cases hv
      | some rs => exact RowSet.mem_cells_of_rewind hv

/-- What a database answers stands in one of the replies that are registered for the text. -/
theorem mem_cells_of_execute {s : Store} {op : Operation} {response : Response}
    (h : (d.execute s op).1 = .ok response) (hv : v ∈ response.cells) :
    ∃ r ∈ d.registrations, r.sql = Text.squeeze op.sql ∧ v ∈ r.reply.cells := by
  unfold execute at h
  cases hr : d.reply? s (Text.squeeze op.sql) (Params.values op.params) with
  | none => simp [hr] at h
  | some reply =>
    simp only [hr] at h
    have hcell := mem_cells_of_respond h hv
    obtain ⟨r, hor, rfl⟩ := Option.map_eq_some_iff.1 hr
    have hmem : r ∈ d.registrations.filter (·.sql == Text.squeeze op.sql) := by
      rcases Option.or_eq_some_iff.1 hor with hfind | ⟨-, hfind⟩ <;> exact List.mem_of_find?_eq_some hfind
    obtain ⟨hregistered, hsql⟩ := List.mem_filter.1 hmem
    exact ⟨r, hregistered, eq_of_beq hsql, hcell⟩

end Script

end RowMapper
