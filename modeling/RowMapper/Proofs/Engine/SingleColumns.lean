/-
Nested selects by one column. The parameter is what the column holds, read by the coercer for the
parameter class (`ResultMapping.selectParameter_value`), or a document with the text of it
(`ResultMapping.selectParameter_document`). So a null column skips the statement unless its parameters
are documents: the text of null is no null (`ResultMap.readSelect_null`). The column that is read is the
text of the mapping as it is written, not the specifier that was parsed from it
(`Catalog.selectParameter_of_build`).
-/
import RowMapper.Proofs.Catalog.Resolved
import RowMapper.Proofs.Data.Additions
import RowMapper.Proofs.Engine.Loads
import RowMapper.Proofs.Engine.Pairs
import RowMapper.Proofs.Engine.Termination

namespace RowMapper

variable {f g : Frame} {catalog : Catalog} {statement : Statement} {m : ResultMapping} {label : String}

/-! ## What looking at a row leaves -/

/-- The row is the same, and all that is new in the shared state are objects in the store. -/
structure Frame.Looked (f g : Frame) : Prop where
  row : g.request.row = f.request.row
  store : f.world.store.Extends g.world.store
  world : g.world = { f.world with store := g.world.store }

instance : Std.Refl Frame.Looked := ⟨fun _ => ⟨rfl, Std.Refl.refl _, rfl⟩⟩

instance : IsTrans Frame Frame.Looked where
  trans f g h hfg hgh := by
    refine ⟨hgh.row.trans hfg.row, IsTrans.trans _ _ _ hfg.store hgh.store, hgh.world.trans ?_⟩
    rw [hfg.world]

theorem Frame.Reread.looked (h : f.Reread g) : f.Looked g where
  row := h.row
  store := h.world ▸ Std.Refl.refl _
  world := by rw [h.world]

/-- An edit that leaves the objects that were there. -/
theorem Frame.looked_edit {α : Type} {edit : Edit α} {f : Frame}
    (h : f.world.store.Extends (edit.run f.world.store).2) : f.Looked ((Frame.edit edit).run f).2 :=
  ⟨rfl, h, rfl⟩

theorem Frame.looked_readColumn (c : Coercer) (column : Column) (f : Frame) :
    f.Looked ((Frame.readColumn c column).run f).2 :=
  (Rereads.column c column f trivial).2.1.looked

/-! ## Reading the column -/

namespace Catalog

/-- The parameters of a statement are documents: its parameter class is one of documents, and has no
coercer of its own. -/
def asksDocument (c : Catalog) (s : Statement) : Bool :=
  s.parameterClass.any fun type => !c.registry.handles type && type.isDom

/-- The coercer that a single column is read with for a statement. -/
def columnCoercer (c : Catalog) (s : Statement) : Coercer :=
  c.coercerFor (if c.asksDocument s then .string else s.parameterClass.getD .map)

/-- What is read from a single column for a statement. -/
def columnValue (c : Catalog) (s : Statement) (f : Frame) (column : Column) : Except Error Value :=
  (f.cell column).bind (c.columnCoercer s).ofStored

/-- A null column is read as null, whatever it is read for. -/
theorem columnValue_null {column : Column} (h : f.cell column = .ok .null) :
    catalog.columnValue statement f column = .ok .null := by
  unfold columnValue
  rw [h]
  rfl

end Catalog

/-- The document that a text is handed over in. -/
def DomNode.parameter (text : String) : DomNode := .element "parameter" [.textElement "value" text]

theorem DomNode.setContent_parameter (text : String) :
    (DomNode.element "parameter" []).setContent "value" [.text text] = .parameter text := by
  unfold setContent
  rw [Text.steps_of_no_dot (by decide)]
  rfl

namespace ResultMapping

/-- The instance that is made for a single column is not used: the column alone is the parameter. -/
theorem run_objectParameter_single (h : m.spec = some (.single label)) {type : DataType}
    (hmade : ∃ made, type.instantiate f.world.store = .ok made) :
    ((m.objectParameter catalog type).run f).1 =
        ((f.cell m.source).bind (catalog.coercerFor type).ofStored).mapError .failed ∧
      f.Looked ((m.objectParameter catalog type).run f).2 := by
  obtain ⟨⟨v, s⟩, hmade⟩ := hmade
  have hedit : (Frame.edit (Edit.make type.instantiate)).run f =
      (.ok v, { f with world := { f.world with store := s } }) := by
    rw [run_edit, run_make_ok hmade]
    rfl
  have hlooked : f.Looked { f with world := { f.world with store := s } } := by
    rcases Store.instantiate_cases type f.world.store with ⟨e, hcase⟩ | ⟨d, -, hcase⟩ | ⟨w, -, hcase⟩ <;>
      cases hmade.symm.trans hcase
    · exact ⟨rfl, .newObject _ d, rfl⟩
    · exact Std.Refl.refl f
  have hrun : (m.objectParameter catalog type).run f =
      (Frame.readColumn (catalog.coercerFor type) m.source).run
        { f with world := { f.world with store := s } } := by
    unfold objectParameter
    rw [run_bind_ok hedit, h]
  rw [hrun, Frame.run_readColumn, Frame.cell_congr (f := { f with world := _ }) (g := f) rfl]
  exact ⟨rfl, IsTrans.trans _ _ _ hlooked (Frame.looked_readColumn ..)⟩

/-- Unless documents are asked for, the parameter is what is read from the column. -/
theorem selectParameter_value (h : m.spec = some (.single label))
    (hscalars : catalog.registry.HandlesScalars) (hdocument : catalog.asksDocument statement = false) :
    ((m.selectParameter catalog statement).run f).1 =
        (catalog.columnValue statement f m.source).mapError .failed ∧
      f.Looked ((m.selectParameter catalog statement).run f).2 := by
  unfold Catalog.columnValue Catalog.columnCoercer
  rw [hdocument, if_neg Bool.false_ne_true]
  unfold Catalog.asksDocument at hdocument
  unfold selectParameter
  cases hclass : statement.parameterClass with
  | none => exact run_objectParameter_single h ⟨_, rfl⟩
  | some type =>
    rw [hclass, Option.any_some] at hdocument
    dsimp only [Option.getD_some]
    cases hhandled : catalog.registry.handles type with
    | true =>
      rw [if_pos rfl]
      exact ⟨Frame.run_readColumn .., Frame.looked_readColumn ..⟩
    | false =>
      rw [hhandled] at hdocument
      have hdom : type.isDom = false := hdocument
      rw [if_neg Bool.false_ne_true, hdom, if_neg Bool.false_ne_true]
      refine run_objectParameter_single h ?_
      -- what cannot be made of nothing is a scalar or a document
      cases type with
      | bool | i32 | i64 | f64 | string | bytes | timestamp =>
        rw [hscalars _ rfl] at hhandled
        cases hhandled
      | dom | domCollection => cases hdom
      | _ => exact ⟨_, rfl⟩

/-- The text of the column is read, and then put into a new document. -/
theorem run_domParameter_single (h : m.spec = some (.single label)) :
    m.domParameter catalog = (do
      let v ← Frame.readColumn (catalog.coercerFor .string) m.source
      let text ← Run.gets fun frame : Frame => frame.world.store.text v
      Frame.edit (Edit.newObject (.dom (.parameter text)))) := by
  unfold domParameter
  rw [h]
  simp only [List.mapM_cons, List.mapM_nil, bind_assoc, pure_bind, List.foldl_cons, List.foldl_nil,
    DomNode.setContent_parameter]

/-- Where documents are asked for, the parameter is a new one with the text of what is read from the
column. -/
theorem selectParameter_document (h : m.spec = some (.single label))
    (hdocument : catalog.asksDocument statement = true) :
    ((m.selectParameter catalog statement).run f).1 =
        ((catalog.columnValue statement f m.source).map fun _ =>
          Value.object ⟨f.world.store.objects.size⟩).mapError .failed ∧
      f.Looked ((m.selectParameter catalog statement).run f).2 ∧
      ∀ v, catalog.columnValue statement f m.source = .ok v →
        ((m.selectParameter catalog statement).run f).2.world.store.data ⟨f.world.store.objects.size⟩ =
          .dom (.parameter (f.world.store.text v)) := by
  have hselect : m.selectParameter catalog statement = m.domParameter catalog := by
    unfold Catalog.asksDocument at hdocument
    unfold selectParameter
    cases hclass : statement.parameterClass with
    | none =>
      rw [hclass] at hdocument
      cases hdocument
    | some type =>
      rw [hclass, Option.any_some, Bool.and_eq_true, Bool.not_eq_true'] at hdocument
      dsimp only
      rw [hdocument.1, if_neg Bool.false_ne_true, hdocument.2, if_pos rfl]
  unfold Catalog.columnValue Catalog.columnCoercer
  rw [hselect, run_domParameter_single h, hdocument, if_pos rfl]
  have hcell := Frame.run_readColumn (catalog.coercerFor .string) m.source f
  have hreread := (Rereads.column (catalog.coercerFor .string) m.source f trivial).2.1
  rcases hread : (Frame.readColumn (catalog.coercerFor .string) m.source).run f with ⟨stop | v, g⟩ <;>
    rw [hread] at hcell hreread
  · rw [run_bind_error hread]
    cases hv : (f.cell m.source).bind (catalog.coercerFor .string).ofStored <;> rw [hv] at hcell <;> cases hcell
    exact ⟨rfl, hreread.looked, nofun⟩
  · rw [run_bind_ok hread, run_gets_bind]
    cases hv : (f.cell m.source).bind (catalog.coercerFor .string).ofStored <;> rw [hv] at hcell <;> cases hcell
    rw [← hreread.world]
    refine ⟨rfl, IsTrans.trans _ _ _ hreread.looked (Frame.looked_edit (.newObject ..)), ?_⟩
    rintro _ ⟨⟩
    exact Store.data_newObject_self ..

end ResultMapping

/-- A parameter stands for a value: it is the value, or a new document with the text of it where
documents are asked for. -/
structure Catalog.HandsOver (catalog : Catalog) (statement : Statement) (f g : Frame)
    (v parameter : Value) : Prop where
  itself : catalog.asksDocument statement = false → parameter = v
  document : catalog.asksDocument statement = true →
    parameter = .object ⟨f.world.store.objects.size⟩ ∧
      g.world.store.data ⟨f.world.store.objects.size⟩ = .dom (.parameter (f.world.store.text v))

/-- The parameter stands for what is read from the column, and fails to be made when that is not read. -/
theorem ResultMapping.selectParameter_single (h : m.spec = some (.single label))
    (hscalars : catalog.registry.HandlesScalars) (statement : Statement) :
    ∃ outcome g, (m.selectParameter catalog statement).run f = (outcome, g) ∧ f.Looked g ∧
      Outcomes (catalog.HandsOver statement f g)
        ((catalog.columnValue statement f m.source).mapError .failed) outcome := by
  rcases hrun : (m.selectParameter catalog statement).run f with ⟨outcome, g⟩
  refine ⟨outcome, g, rfl, ?_⟩
  cases hdocument : catalog.asksDocument statement with
  | false =>
    obtain ⟨hvalue, hlooked⟩ := selectParameter_value (f := f) h hscalars hdocument
    rw [hrun] at hvalue hlooked
    obtain rfl : outcome = _ := hvalue
    exact ⟨hlooked, .same fun v _ => ⟨fun _ => rfl, fun hd => (nomatch hdocument.symm.trans hd)⟩⟩
  | true =>
    obtain ⟨hvalue, hlooked, hdata⟩ := selectParameter_document (f := f) h hdocument
    rw [hrun] at hvalue hlooked hdata
    obtain rfl : outcome = _ := hvalue
    refine ⟨hlooked, ?_⟩
    cases hread : catalog.columnValue statement f m.source with
    | error e => exact rfl
    | ok v => exact ⟨fun hd => (nomatch hdocument.symm.trans hd), fun _ => ⟨rfl, hdata v hread⟩⟩

/-! ## Null columns -/

theorem Store.text_null (s : Store) : s.text .null = "null" := Value.Plain.text_eq ⟨rfl, rfl⟩ s {}

/-- A null column skips the statement unless its parameters are documents: nothing has changed but that
there may be a new object. The text of null is a text, so that a document is handed over to the statement
all the same. -/
theorem ResultMap.readSelect_null {session : Session} {load : Load} {m : ResultMap} {id : String}
    {mapping : ResultMapping} {target : DataType} (hspec : mapping.spec = some (.single label))
    (hscalars : session.catalog.registry.HandlesScalars)
    (hstatement : session.catalog.statement id = .ok statement)
    (htarget : m.selectTarget mapping = .ok target) (hnull : f.cell mapping.source = .ok .null) :
    (session.catalog.asksDocument statement = false →
      ∃ g, (m.readSelect session load mapping id).run f = (.ok .null, g) ∧ f.Looked g) ∧
    (session.catalog.asksDocument statement = true →
      ∃ g r, f.Looked g ∧ g.world.store.data r = .dom (.parameter "null") ∧
        ∀ type, session.catalog.statementResultClass statement = .ok type →
          ((m.readSelect session load mapping id).run f).2.world =
            ((session.loadResult load statement.id (.object r) (adaptTarget target type)).run g.world).2) := by
  obtain ⟨outcome, g, hrun, hlooked, hands⟩ :=
    mapping.selectParameter_single (f := f) hspec hscalars statement
  rw [Catalog.columnValue_null hnull] at hands
  obtain ⟨parameter, rfl⟩ : ∃ parameter, outcome = .ok parameter := by
    cases outcome with
    | error stop => exact hands.elim
    | ok parameter => exact ⟨parameter, rfl⟩
  unfold readSelect
  rw [run_bind_ok (run_ofExcept_eq_ok.2 ⟨hstatement, rfl⟩),
    run_bind_ok (run_ofExcept_eq_ok.2 ⟨htarget, rfl⟩), run_bind_ok hrun]
  constructor
  · intro hdocument
    obtain rfl := hands.itself hdocument
    exact ⟨g, rfl, hlooked⟩
  · intro hdocument
    obtain ⟨rfl, hdata⟩ := hands.document hdocument
    rw [Store.text_null] at hdata
    refine ⟨g, _, hlooked, hdata, fun type htype => ?_⟩
    rw [if_neg nofun, run_bind_ok (run_ofExcept_eq_ok.2 ⟨htype, rfl⟩)]
    have hload := Frame.run_onWorld (session.loadResult load statement.id
      (.object ⟨f.world.store.objects.size⟩) (adaptTarget target type)) g
    rcases hresult : (Frame.onWorld (session.loadResult load statement.id
      (.object ⟨f.world.store.objects.size⟩) (adaptTarget target type))).run g with ⟨stop | v, h⟩
    · rw [run_bind_error hresult, ← (Prod.mk.inj (hload.symm.trans hresult)).2]
    · rw [run_bind_ok hresult, show h = _ from (Prod.mk.inj (hload.symm.trans hresult)).2.symm]
      -- a sentinel for a null result is looked up in the catalog
      split
      · split <;> rfl
      · rfl

/-- A map with a select of the statement `p` by a column. -/
def ResultMap.selecting (column : String) : ResultMap where
  id := "M"
  resultClass := some .map
  mappings := .declared [{ property := "p", column := some column, route := .nestedSelect "p" }]

/-- A plan with the map, and with the statement for parameters of a class, which is answered by a fixed
value. -/
def CatalogPlan.selecting (column : String) (type : DataType) : CatalogPlan where
  resultMaps := [.selecting column]
  statements := [{ id := "p", kind := .select, sql := "d", parameterClass := some type }]
  loader := .fixed (.string "unused")

/-- A null column for a statement that takes documents: the statement is asked for all the same. -/
theorem ResultMap.readSelect_null_document :
    ∃ catalog m mapping, Catalog.build (.selecting "k" .dom) = .ok catalog ∧
      catalog.resultMap "M" = .ok m ∧ m.declared = [mapping] ∧ mapping.spec = some (.single "k") ∧
      let session := (({} : World).openSession catalog).1
      let f := rowFrame {} .null .null
      let run := (m.readSelect session session.loader mapping "p").run f
      f.cell mapping.source = .ok .null ∧ run.1 = .ok (.string "unused") ∧
        run.2.world.calls.map (·.statement) = ["p"] := by
  exact ⟨_, _, _, rfl, rfl, rfl, rfl, rfl, rfl, rfl⟩

/-! ## The column that is read -/

theorem ColumnSpec.parse_eq_single {text : String} :
    parse text = .ok (.single label) ↔ isComposite text = false ∧ Text.trim text = label := by
  unfold parse
  cases isComposite text with
  | true =>
    rw [if_pos rfl]
    cases pairUp (Text.tokens isDelimiter text) <;> simp
  | false => simp

namespace Catalog

variable {plan : CatalogPlan} {c : Catalog} {id target text : String} {m : ResultMap}
  {mapping : ResultMapping}

/-- The specifier of a nested select in a catalog is that of its column text, which stays as it is. -/
theorem spec_of_build (accepted : build plan = .ok c) (hm : c.resultMap id = .ok m)
    (hmem : mapping ∈ m.declared) (hroute : mapping.route = .nestedSelect target)
    (hcolumn : mapping.column = some text) :
    ∃ spec, ColumnSpec.parse text = .ok spec ∧ mapping.spec = some spec := by
  obtain ⟨n, -, hresolve⟩ := resolved_of_build (P := fun _ => True) (fun _ _ => trivial)
    (fun _ _ _ => trivial) (fun _ _ _ _ => trivial) accepted _ (Table.mem_of_get? (resultMap_ok_iff.1 hm))
  obtain ⟨hmappings, -⟩ := ResultMap.modifyMappings_eq_ok (modifyMappings_of_resolveMap hresolve)
  obtain ⟨before, -, hnew⟩ := exists_of_forall₂ hmappings hmem
  unfold ResultMapping.resolve at hnew
  dsimp only at hnew
  split at hnew
  · next hold hbefore =>
    obtain ⟨spec, hspec, rfl⟩ := Except.map_eq_ok_iff.1 hnew
    rw [hbefore] at hcolumn
    cases hcolumn
    exact ⟨spec, hspec, rfl⟩
  · next hnone =>
    cases hnew
    exact absurd hcolumn (hnone _ _ hroute)

/-- A nested select by a single column reads the column that is called what the text of the mapping is,
up to case, and fails for the lack of such a column alone, whatever it was parsed to. -/
theorem selectParameter_of_build (accepted : build plan = .ok c) (hm : c.resultMap id = .ok m)
    (hmem : mapping ∈ m.declared) (hroute : mapping.route = .nestedSelect target)
    (hcolumn : mapping.column = some text) (hspec : ColumnSpec.parse text = .ok (.single label))
    (hscalars : c.registry.HandlesScalars) {rows : RowSet} {row : List Value}
    (hrows : f.request.rowSetToRead = .ok rows) (hcurrent : rows.current = some row)
    (statement : Statement) :
    mapping.spec = some (.single label) ∧
    ∃ outcome g, (mapping.selectParameter c statement).run f = (outcome, g) ∧ f.Looked g ∧
      match rows.columns.findIdx? (Text.sameLabel · text) with
      | some i => Outcomes (c.HandsOver statement f g)
          (((c.columnCoercer statement).ofStored (row[i]?.getD .null)).mapError .failed) outcome
      | none => outcome = .error (.failed (.database (.noColumn text))) := by
  obtain ⟨spec, hparse, hmapping⟩ := spec_of_build accepted hm hmem hroute hcolumn
  cases hspec.symm.trans hparse
  refine ⟨hmapping, ?_⟩
  obtain ⟨outcome, g, hrun, hlooked, hands⟩ :=
    mapping.selectParameter_single (f := f) hmapping hscalars statement
  refine ⟨outcome, g, hrun, hlooked, ?_⟩
  have hsource : mapping.source = .name text := by
    unfold ResultMapping.source
    rw [hcolumn]
  unfold columnValue at hands
  rw [hsource, Frame.cell_name hrows hcurrent] at hands
  cases hfind : rows.columns.findIdx? (Text.sameLabel · text) with
  | none =>
    rw [hfind] at hands
    cases outcome with
    | error stop => exact congrArg Except.error (Eq.symm hands)
    | ok v => exact hands.elim
  | some i =>
    rw [hfind] at hands
    exact hands

/-- With no white space around the text, the column with the label that was parsed is read whenever the
rows have one. -/
theorem selectParameter_trimmed (accepted : build plan = .ok c) (hm : c.resultMap id = .ok m)
    (hmem : mapping ∈ m.declared) (hroute : mapping.route = .nestedSelect target)
    (hcolumn : mapping.column = some text) (hspec : ColumnSpec.parse text = .ok (.single label))
    (htrim : Text.trim text = text) (hscalars : c.registry.HandlesScalars) {rows : RowSet}
    {row : List Value} (hrows : f.request.rowSetToRead = .ok rows) (hcurrent : rows.current = some row)
    (hlabel : ∃ column ∈ rows.columns, Text.sameLabel column label = true) (statement : Statement) :
    ∃ i outcome g, rows.columns.findIdx? (Text.sameLabel · label) = some i ∧
      (mapping.selectParameter c statement).run f = (outcome, g) ∧ f.Looked g ∧
      Outcomes (c.HandsOver statement f g)
        (((c.columnCoercer statement).ofStored (row[i]?.getD .null)).mapError .failed) outcome := by
  obtain rfl : text = label := htrim.symm.trans (ColumnSpec.parse_eq_single.1 hspec).2
  obtain ⟨i, hi⟩ : ∃ i, rows.columns.findIdx? (Text.sameLabel · text) = some i :=
    Option.isSome_iff_exists.1 (List.findIdx?_isSome.trans (List.any_eq_true.2 hlabel))
  obtain ⟨-, outcome, g, hrun, hlooked, hread⟩ :=
    selectParameter_of_build accepted hm hmem hroute hcolumn hspec hscalars hrows hcurrent statement
  rw [hi] at hread
  exact ⟨i, outcome, g, hi, hrun, hlooked, hread⟩

/-- A text with white space around the label of a column: the specifier is the label, but no column is
called what the text is, whatever the statement takes as its parameter. -/
theorem selectParameter_padded :
    ∃ catalog m mapping, build (.selecting " k " .map) = .ok catalog ∧ catalog.resultMap "M" = .ok m ∧
      mapping ∈ m.declared ∧ mapping.spec = some (.single "k") ∧
      let f := rowFrame {} (.i32 7) .null
      f.cell (.name "k") = .ok (.i32 7) ∧ ∀ statement,
        ((mapping.selectParameter catalog statement).run f).1 =
          .error (.failed (.database (.noColumn " k "))) := by
  obtain ⟨catalog, m, mapping, accepted, hm, hmem, hroute, hcolumn, hregistry⟩ :
      ∃ catalog m mapping, build (.selecting " k " .map) = .ok catalog ∧ catalog.resultMap "M" = .ok m ∧
        mapping ∈ m.declared ∧ mapping.route = .nestedSelect "p" ∧ mapping.column = some " k " ∧
        catalog.registry = .builtin :=
    ⟨_, _, _, rfl, rfl, List.mem_singleton_self _, rfl, rfl, rfl⟩
  have hread := selectParameter_of_build (f := rowFrame {} (.i32 7) .null) accepted hm hmem hroute
    hcolumn rfl (hregistry ▸ Registry.handlesScalars_builtin) rfl rfl
  refine ⟨catalog, m, mapping, accepted, hm, hmem, (hread { id := "", kind := .select, sql := "" }).1, rfl,
    fun statement => ?_⟩
  obtain ⟨-, outcome, g, hrun, -, hnone⟩ := hread statement
  rw [hrun]
  exact hnone

end Catalog

end RowMapper
