/-
Nulls, and rows that are discarded. The value of a column is null when its cell is and at no other time,
unless a text stands for null, so that a row holds data when one of its values is not null. A row without
data gives nothing, and nothing is remembered for it; its nested selects may have run, and write into the
objects that the rows and the replies lead to (`Session.discarded_row_writes`), but into no others
(`ResultMap.readRow_nulls`).
-/
import RowMapper.Proofs.Delivery.Query
import RowMapper.Proofs.Engine.Columns
import RowMapper.Proofs.Engine.Rows
import RowMapper.Proofs.Engine.Sparing
import RowMapper.Proofs.Engine.Termination

namespace RowMapper

variable {session : Session} {load : Load} {m : ResultMap} {f g : Frame} {mapping : ResultMapping}
  {v : Value} {values : List Value}

/-- What a mapping of a column gives for a cell: null if the cell is null and no text stands for that,
and the value of the text if there is one. -/
structure ResultMapping.Gives (mapping : ResultMapping) (c : Coercer) (stored v : Value) : Prop where
  null_iff : v = .null ↔ stored = .null ∧ mapping.nullValue = none
  sentinel : ∀ text, stored = .null → mapping.nullValue = some text → c.valueOf text = .ok v

theorem ResultMapping.gives_of_convert {c : Coercer} {stored : Value}
    (h : c.convert mapping.nullValue stored = .ok v) : mapping.Gives c stored v where
  null_iff := by rw [Coercer.isNull_of_convert h, Value.isNull_iff]
  sentinel text hnull htext := by
    subst hnull
    rw [htext] at h
    exact h

/-- A row that was read holds data when one of its values is not null. -/
theorem ResultMap.found_iff (h : (m.readRow session load).run f = (.ok values, g)) :
    g.request.rowDataFound = true ↔ ∃ v ∈ values, v ≠ .null := by
  rw [readRow_found h, List.any_eq_true]
  simp only [Bool.not_eq_true', ← Bool.not_eq_true, Value.isNull_iff, ne_eq]

/-- A row without data gives no object, and the request goes on behind what was read of it. -/
theorem Session.run_readObject_discarded {top : ResultMap} {f₀ : Frame}
    (hmap : (top.resolveSubMap session.catalog).run f₀ = (.ok m, f))
    (h : (m.readRow session load).run f = (.ok values, g)) (hfound : g.request.rowDataFound = false)
    (target : Option Value) (receive : Receiver) :
    (session.readValues load top).run f₀ = (.ok none, g) ∧
      (session.readObject load top target receive).run f₀ = (.ok (), g) := by
  have hvalues : (session.readValues load top).run f₀ = (.ok none, g) := by
    unfold readValues
    rw [run_bind_ok hmap, run_bind_ok h, run_gets_bind, hfound]
    rfl
  refine ⟨hvalues, ?_⟩
  unfold readObject
  rw [run_bind_ok hvalues]
  rfl

/-- Reading a row leaves a region as it is to which nothing leads that a request comes by. -/
theorem Session.data_of_readValues {R : Region} {depth : Nat}
    {outcome : Except Stop (Option (ResultMap × List Value))}
    (hf : f.Spares session R False) (h : (session.readValues (session.load depth) m).run f = (outcome, g))
    {r : ObjectRef} (hr : R r) : g.world.store.data r = f.world.store.data r := by
  have hscans : (R.onRequest session False).Scans session (session.load depth) (session.load depth) :=
    (Region.onRequest.reads_load R (Sphere.closed_all _) False depth).scans
  have hstep := hscans.readValues (m := m) (fun _ _ _ _ => trivial) trivial ⟨rfl, hf⟩
  obtain ⟨-, hlater, -⟩ := hstep.leaves (fun _ => id) h
  exact hlater.2 r hr

/-- A row has one value for each mapping. That of a column is null exactly when its cell is null and no
text stands for null, and what the text stands for if there is one. The row holds data when one of its
values is not null, and always where a text stands for null in a column. When a row of the top holds none,
it gives nothing and nothing is remembered for it, and all objects stay as they are to which neither
the rows nor the replies nor the loader lead. -/
theorem ResultMap.readRow_nulls {depth : Nat}
    (h : (m.readRow session (session.load depth)).run f = (.ok values, g)) :
    values.length = (f.mappings m).length ∧
    (∀ (i : Nat) (mapping : ResultMapping) (v : Value), (f.mappings m)[i]? = some mapping →
      values[i]? = some v → mapping.route = .column →
        ∃ c stored, mapping.coercer = some c ∧ f.cell mapping.source = .ok stored ∧
          mapping.Gives c stored v) ∧
    (g.request.rowDataFound = true ↔ ∃ v ∈ values, v ≠ .null) ∧
    ((∃ mapping ∈ f.mappings m, mapping.route = .column ∧ mapping.nullValue ≠ none) →
      g.request.rowDataFound = true) ∧
    ∀ (top : ResultMap) (f₀ : Frame), (top.resolveSubMap session.catalog).run f₀ = (.ok m, f) →
      g.request.rowDataFound = false → ∀ (target : Option Value) (receive : Receiver),
        (session.readObject (session.load depth) top target receive).run f₀ = (.ok (), g) ∧
        g.emitted = f₀.emitted ∧ g.request.identity = f₀.request.identity ∧
        ∀ R : Region, f₀.Spares session R False → ∀ r, R r → g.world.store.data r = f₀.world.store.data r := by
  have hcells := readRow_cells h
  have hfound := found_iff h
  have hgives : ∀ (i : Nat) (mapping : ResultMapping) (v : Value), (f.mappings m)[i]? = some mapping →
      values[i]? = some v → mapping.route = .column →
        ∃ c stored, mapping.coercer = some c ∧ f.cell mapping.source = .ok stored ∧
          mapping.Gives c stored v := by
    intro i mapping v hmapping hv hroute
    obtain ⟨hi, rfl⟩ := List.getElem?_eq_some_iff.1 hmapping
    obtain ⟨hi', rfl⟩ := List.getElem?_eq_some_iff.1 hv
    obtain ⟨c, stored, hc, hcell, hconvert⟩ := hcells.get hi hi' hroute
    exact ⟨c, stored, hc, hcell, ResultMapping.gives_of_convert hconvert⟩
  refine ⟨hcells.length_eq.symm, hgives, hfound, ?_, ?_⟩
  · rintro ⟨mapping, hmem, hroute, hnull⟩
    obtain ⟨i, hi, hmapping⟩ := List.getElem_of_mem hmem
    have hi' : i < values.length := hcells.length_eq ▸ hi
    obtain ⟨c, stored, -, -, hgives⟩ := hgives i mapping values[i]
      (List.getElem?_eq_some_iff.2 ⟨hi, hmapping⟩) (List.getElem?_eq_getElem hi') hroute
    exact hfound.2 ⟨values[i], List.getElem_mem hi', fun hv => hnull (hgives.null_iff.1 hv).2⟩
  · intro top f₀ hmap hnone target receive
    obtain ⟨hvalues, hobject⟩ := Session.run_readObject_discarded hmap h hnone target receive
    have hstill : Trail.still.growth.later f₀ g :=
      Trail.later_readValues (Trail.reads_load session depth).scans hvalues
    refine ⟨hobject, hstill.2.2, hstill.2.1, fun R hspares r hr => ?_⟩
    exact Session.data_of_readValues hspares hvalues hr

/-! ## Rows that call a procedure -/

/-- A map with a column, and with what a procedure gives for a parameter that is made of another. -/
def ResultMap.calling (spec : Option ColumnSpec) : ResultMap where
  id := "M"
  resultClass := some .map
  mappings := .declared
    [{ property := "k", column := some "k", coercer := some .object },
      { property := "x", column := some "x", route := .nestedSelect "p", spec }]

/-- A session with a select for the map. The procedure gives no rows, and puts a number at the property
`n` of its parameter. -/
def Session.calling (spec : Option ColumnSpec) (rows : List (List Value)) : Session × World :=
  let replies : List Registration :=
    [{ sql := "q", reply := .rows { columns := ["k", "x"], rows } },
      { sql := "d", reply := .call (some { columns := ["N"] }) { values := [.i32 7] } }]
  let maps : List ResultMap := [.calling spec, .keyed "N" ["N"] []]
  let statements : List Statement :=
    [{ id := "s", kind := .select, sql := "q", resultMap := some "M" },
      { id := "p", kind := .procedure, sql := "d", resultMap := some "N", parameterClass := some .map
        parameterMap := some
          { id := "p", mappings := [{ property := "n", mode := .output, coercer := some .i32 }] } }]
  World.openSession
    { store := { objects := #[.map []] }, database := { registrations := replies } }
    { resultMaps := maps.map fun m => (m.id, m), statements := statements.map fun s => (s.id, s) }

/-- The number at the property `n` of the first object. -/
def World.number? (w : World) : Option Int32 :=
  ((w.store.data ⟨0⟩).slot? "n").bind fun v => v.asI32.toOption

/-- A row that is discarded may write into an object that was built for a row before it: its nested
select calls a procedure for an object that the row leads to. -/
theorem Session.discarded_row_writes :
    let x := calling none [[.i32 1, .null], [.null, .object ⟨0⟩]]
    let query (window : Window) := x.1.query x.1.loader "s" .null (some (.object ⟨0⟩)) window .any x.2
    (query { max := some 1 }).1.emitted.length = 1 ∧ (query { max := some 1 }).2.number? = none ∧
      (query {}).1.result.isOk = true ∧ (query {}).1.emitted.length = 1 ∧
      (query {}).2.number? = some 7 := by
  decide +kernel

/-- What a procedure writes into a parameter of its own is not seen by the objects that are there. -/
theorem ResultMap.readRow_nulls_calling :
    let x := Session.calling (some (.composite [("k", "x")])) []
    let m := ResultMap.calling (some (.composite [("k", "x")]))
    let f := rowFrame x.2 .null (.i32 2)
    ∃ values g, (m.readRow x.1 x.1.loader).run f = (.ok values, g) ∧ g.request.rowDataFound = false ∧
      values.length = 2 ∧ (x.1.readObject x.1.loader m none .any).run f = (.ok (), g) ∧
      g.world.store.data ⟨0⟩ = f.world.store.data ⟨0⟩ := by
  intro x m f
  have hok : ((m.readRow x.1 x.1.loader).run f).1.isOk = true := by decide +kernel
  have hnone : ((m.readRow x.1 x.1.loader).run f).2.request.rowDataFound = false := by decide +kernel
  rcases hrun : (m.readRow x.1 x.1.loader).run f with ⟨stop | values, g⟩ <;> rw [hrun] at hok hnone
  · cases hok
  obtain ⟨hlength, -, -, -, htop⟩ := ResultMap.readRow_nulls hrun
  obtain ⟨hobject, -, -, hspared⟩ := htop m f rfl hnone none .any
  -- the row and the reply hold numbers only, so nothing leads to the object that is there
  have hnumber : ∀ {s : Store} n, (Value.i32 n).Outside (Region.below 1) s := fun _ => nofun
  have hnull : Value.null.Outside (Region.below 1) x.2.store := nofun
  have hspares : f.Spares x.1 (Region.below 1) False := by
    refine ⟨x.2.store.shuts_below, ?_, nofun, ?_, nofun, nofun, .inl Sphere.whole_all⟩
    · simp [f, x, rowFrame, Session.calling, World.openSession, World.join, Catalog.atHome,
        Reply.cells, RowSet.cells, hnumber]
    · rintro _ ⟨⟩
      simp [f, rowFrame, RowSet.cells, hnumber, hnull]
  exact ⟨values, g, rfl, hnone, hlength, hobject, hspared _ hspares ⟨0⟩ Nat.zero_lt_one⟩

end RowMapper
