/-
Records of columns. A statement that wants records and has no map gives the rows of its window as
records, one after the other, with a field for each label that its map was derived for: the labels of
the rows themselves when the map is derived for every request or has not been read with before, and
otherwise those that were kept for the catalog then, in whichever session on it. A field is the value of
the first column with its label (`Session.query_records`).
-/
import RowMapper.Proofs.Catalog.Resolved
import RowMapper.Proofs.Delivery.Windows
import RowMapper.Proofs.Engine.Columns
import RowMapper.Proofs.Engine.Derived
import RowMapper.Proofs.Engine.Termination
import RowMapper.Proofs.Objects.ReadBack

namespace RowMapper

variable {session : Session} {load : Load} {m : ResultMap} {f g : Frame} {rows : RowSet}
  {columns labels : List String} {row values : List Value} {receive : Receiver}

/-! ## Records of rows -/

/-- The values that a row holds in the first columns of some labels. -/
def RowSet.fields? (columns : List String) (row : List Value) (labels : List String) : Option (List Value) :=
  labels.mapM fun label =>
    (columns.findIdx? (Text.sameLabel · label)).map fun position => row[position]?.getD .null

/-- The record of a row, if it holds all labels and not only nulls. -/
def RowSet.record? (columns labels : List String) (row : List Value) : Option (List Value) :=
  (fields? columns row labels).filter (·.any fun v => !v.isNull)

/-- A loop that gives a result for each item, or nothing. -/
theorem mapM_eq_some_iff {α β : Type} {f : α → Option β} {xs : List α} {ys : List β} :
    xs.mapM f = some ys ↔ List.Forall₂ (fun x y => f x = some y) xs ys := by
  induction xs generalizing ys with
  | nil =>
    rw [List.forall₂_nil_left_iff]
    exact ⟨fun h => (Option.some.inj h).symm, fun h => congrArg some h.symm⟩
  | cons x xs ih =>
    simp only [List.mapM_cons, List.forall₂_cons_left_iff, ← ih, Option.bind_eq_bind,
      Option.bind_eq_some_iff, Option.pure_def, Option.some.injEq]
    constructor
    · rintro ⟨y, hy, rest, hrest, rfl⟩
      exact ⟨y, rest, hy, hrest, rfl⟩
    · rintro ⟨y, rest, hy, hrest, rfl⟩
      exact ⟨y, hy, rest, hrest, rfl⟩

/-- A record has a field for each label, which is the value in the first column with the label. -/
theorem RowSet.record?_fields {fields : List Value} (h : record? columns labels row = some fields) :
    fields.length = labels.length ∧
      ∀ (i j : Nat) (label column : String), labels[i]? = some label → columns[j]? = some column →
        Text.sameLabel column label = true →
        (∀ k < j, ∀ other, columns[k]? = some other → Text.sameLabel other label = false) →
        fields[i]? = some (row[j]?.getD .null) := by
  have hfields := mapM_eq_some_iff.1 (Option.filter_eq_some_iff.1 h).1
  refine ⟨hfields.length_eq.symm, fun i j label column hlabel hcolumn hsame hfirst => ?_⟩
  obtain ⟨hi, rfl⟩ := List.getElem?_eq_some_iff.1 hlabel
  obtain ⟨hj, rfl⟩ := List.getElem?_eq_some_iff.1 hcolumn
  have hi' : i < fields.length := hfields.length_eq ▸ hi
  have hposition : columns.findIdx? (Text.sameLabel · labels[i]) = some j := by
    refine List.findIdx?_eq_some_iff_getElem.2 ⟨hj, hsame, fun k hk => ?_⟩
    rw [hfirst k hk _ (List.getElem?_eq_getElem _)]
    exact nofun
  have hfield := hfields.get hi hi'
  simp only [List.get_eq_getElem] at hfield
  rw [hposition] at hfield
  rw [List.getElem?_eq_getElem hi', ← Option.some.inj hfield]

/-- The objects that were given so far. -/
def Frame.objects (f : Frame) : List Value := f.emitted.toList.map (·.object)

/-- A map that makes records of whatever columns there are. -/
structure ResultMap.Recording (m : ResultMap) : Prop where
  resultClass : m.resultClass = some .record
  groupBy : m.groupBy = []
  discriminator : m.discriminator = none

/-- The mapping of a column by its label. -/
def ResultMapping.ofLabel (label : String) : ResultMapping :=
  { property := label, column := some label, coercer := some .object }

theorem ResultMap.Recording.derivedFrom (hm : m.Recording) (registry : Registry) (columns : List String) :
    (m.derivedFrom registry columns).map (·.column) = columns ∧
      (m.derivedFrom registry columns).map ColumnMapping.mapping =
        columns.map ResultMapping.ofLabel := by
  have hplain : DataType.columnMappings m.resultClass columns =
      columns.map fun column => { property := column, column } := by
    rw [hm.resultClass]
    rfl
  unfold ResultMap.derivedFrom
  rw [hplain]
  simp only [hm.resultClass, List.map_map]
  exact ⟨(List.map_congr_left fun _ _ => rfl).trans (List.map_id columns), List.map_congr_left fun _ _ => rfl⟩

/-! ## Reading a row -/

/-- Where a request is in its rows: what is under the cursor, and what is ahead. -/
def Request.cursor (r : Request) : Phase × Option (List String × Option (List Value) × List (List Value)) :=
  (r.phase, r.rows.map fun rows => (rows.columns, rows.current, rows.ahead))

/-- The request reads the same maps with the same mappings on the same row, in the same shared state. -/
structure Frame.OnSameRow (f g : Frame) : Prop where
  world : g.world = f.world
  mappings : g.request.mappings = f.request.mappings
  cursor : g.request.cursor = f.request.cursor

/-- Only the notes of a request have changed. -/
structure Frame.Scanned (f g : Frame) : Prop extends Frame.OnSameRow f g where
  emitted : g.emitted = f.emitted

instance : Std.Refl Frame.Scanned := ⟨fun _ => ⟨⟨rfl, rfl, rfl⟩, rfl⟩⟩

instance : IsTrans Frame Frame.Scanned :=
  ⟨fun _ _ _ h h' => ⟨⟨h'.world.trans h.world, h'.mappings.trans h.mappings, h'.cursor.trans h.cursor⟩,
    h'.emitted.trans h.emitted⟩⟩

theorem Frame.OnSameRow.mappings_eq (h : f.OnSameRow g) (m : ResultMap) : g.mappings m = f.mappings m := by
  unfold Frame.mappings
  rw [h.mappings, h.world]

theorem Frame.OnSameRow.rowSetToRead (h : f.OnSameRow g) (hf : f.request.rowSetToRead = .ok rows) :
    ∃ left, g.request.rowSetToRead = .ok left ∧ left.columns = rows.columns ∧
      left.ahead = rows.ahead := by
  obtain ⟨hphase, hrows⟩ := Request.rowSetToRead_eq_ok.1 hf
  have hcursor := h.cursor
  unfold Request.cursor at hcursor
  rw [hphase, hrows, Prod.mk.injEq] at hcursor
  obtain ⟨left, hleft, he⟩ := Option.map_eq_some_iff.1 hcursor.2
  simp only [Prod.mk.injEq] at he
  exact ⟨left, Request.rowSetToRead_eq_ok.2 ⟨hcursor.1, hleft⟩, he.1, he.2.2⟩

theorem Frame.Scanned.objects_eq (h : f.Scanned g) : g.objects = f.objects := by
  unfold Frame.objects
  rw [h.emitted]

/-- A run that changes no more than the notes of a request. -/
abbrev Scans {α : Type} (run : Run Frame α) : Prop :=
  Keeps (fun _ => True) Frame.Scanned (Stop.Allowed True) Always run

namespace Scans

theorem column (c : Coercer) (column : Column) : Scans (Frame.readColumn c column) := by
  intro f _
  refine ⟨trivial, ?_, .allowed _⟩
  unfold Frame.readColumn
  cases hr : f.request.rowSetToRead with
  | error e =>
    rw [run_onRows_error hr]
    exact Std.Refl.refl f
  | ok rows =>
    rw [run_onRows_ok hr, Coercer.readColumn_rows]
    refine ⟨⟨rfl, rfl, ?_⟩, rfl⟩
    unfold Request.cursor
    rw [Request.rows_of_rowSetToRead hr]
    rfl

theorem modifyRequest {f : Request → Request}
    (h : ∀ r, (f r).mappings = r.mappings ∧ (f r).cursor = r.cursor) : Scans (Frame.modifyRequest f) :=
  .modify fun frame _ => ⟨trivial, ⟨rfl, (h frame.request).1, (h frame.request).2⟩, rfl⟩

theorem modifyContext (f : ErrorContext → ErrorContext) : Scans (Frame.modifyContext f) :=
  modifyRequest fun _ => ⟨rfl, rfl⟩

/-- Reading columns changes no more than the notes of the request. -/
theorem readRow (h : f.mappings m = labels.map .ofLabel) :
    f.Scanned ((m.readRow session load).run f).2 := by
  have hmapping : ∀ mapping ∈ labels.map ResultMapping.ofLabel,
      Scans (m.readMapping session load mapping) := by
    intro mapping hmem
    obtain ⟨label, -, rfl⟩ := List.mem_map.1 hmem
    unfold ResultMap.readMapping
    exact Keeps.bind (modifyContext _) fun _ _ => ResultMapping.keeps_readColumn _ column
  have hrest : Scans (do
      let values ← (labels.map ResultMapping.ofLabel).mapM (m.readMapping session load)
      Frame.modifyRequest fun r => { r with rowDataFound := values.any fun v => !v.isNull }
      return values) :=
    Keeps.bind (Keeps.mapM hmapping).always fun _ _ =>
      Keeps.bind (modifyRequest fun _ => ⟨rfl, rfl⟩) fun _ _ => .pure trivial
  unfold ResultMap.readRow
  rw [run_bind_ok (x := Frame.modifyContext _) rfl, run_gets_bind]
  refine IsTrans.trans _ _ _ ?_ (h ▸ (hrest _ trivial).2.1)
  exact ⟨⟨rfl, rfl, rfl⟩, rfl⟩

end Scans

/-- The values that are read from a row for labels are those in the first columns of the labels. -/
theorem fields?_of_readRow (h : f.mappings m = labels.map .ofLabel)
    (hrows : f.request.rowSetToRead = .ok rows) (hrow : rows.current = some row)
    (hread : (m.readRow session load).run f = (.ok values, g)) :
    RowSet.fields? rows.columns row labels = some values := by
  have hcells := readRow_cells hread
  rw [h] at hcells
  refine mapM_eq_some_iff.2 ((List.forall₂_map_left_iff.1 hcells).imp fun label v hv => ?_)
  obtain ⟨c, stored, hc, hcell, hconvert⟩ := hv rfl
  cases hc
  obtain ⟨position, hfound, rfl⟩ : ∃ position,
      rows.columns.findIdx? (Text.sameLabel · label) = some position ∧ row[position]?.getD .null = stored := by
    rw [show ResultMapping.source (.ofLabel label) = .name label from rfl,
      Frame.cell_name hrows hrow] at hcell
    split at hcell <;> cases hcell
    exact ⟨_, ‹_›, rfl⟩
  rw [hfound]
  have hsame : ∀ v, Coercer.object.convert none v = .ok v := by
    intro v
    cases v <;> rfl
  exact congrArg some (Except.ok.inj ((hsame _).symm.trans hconvert))

/-! ## Giving a record -/

/-- A row of columns makes a record of its values, whatever object is given to be filled. -/
theorem ResultMap.run_build_record (hm : m.Recording) (hf : f.mappings m = labels.map .ofLabel)
    (hlength : labels.length = values.length) (target : Option Value) :
    (ResultMap.build session load nestingBound m target values).run f = (.ok (some (.record values)), f) := by
  obtain ⟨depth, hdepth⟩ := Nat.exists_eq_succ_of_ne_zero (by decide : nestingBound ≠ 0)
  have hflat : ∀ mapping ∈ f.mappings m, mapping.isNestedMap = false := by
    intro mapping hmem
    rw [hf] at hmem
    obtain ⟨_, -, rfl⟩ := List.mem_map.1 hmem
    rfl
  have hvalues : (Exchange.assignable (f.mappings m) values).map (·.2) = values := by
    rw [assignable_eq_zip hflat]
    refine List.map_snd_zip (Nat.le_of_eq ?_)
    rw [hf, List.length_map, hlength]
  have hexchange : m.exchange = .record := by
    unfold exchange
    rw [hm.resultClass]
    rfl
  have hkey := Correspondence.uniqueKey_none hm.groupBy f.world.store (f.mappings m) values
  have hsubject : (m.subject session target values).run f =
      (.ok (some ⟨.record values, none, f.mappings m, true⟩), f) := by
    unfold subject
    rw [run_gets_bind, run_gets_bind, run_gets_bind, hkey]
    unfold buildNew Exchange.setData
    rw [hexchange]
    dsimp only
    rw [hvalues]
    rfl
  have hnested : (f.mappings m).any ResultMapping.isNestedMap = false := by
    rw [List.any_eq_false]
    intro mapping hmem
    rw [hflat mapping hmem]
    exact nofun
  rw [hdepth]
  unfold ResultMap.build
  rw [run_bind_ok hsubject]
  unfold assembleNested
  dsimp only
  rw [hnested]
  rfl

/-- A row gives its record, if it has one, and the request stays on the row. -/
theorem Session.readObject_record (hm : m.Recording) {target : Option Value}
    (hf : f.mappings m = labels.map .ofLabel) (hrows : f.request.rowSetToRead = .ok rows)
    (hrow : rows.current = some row) {outcome : Except Stop Unit}
    (hrun : (session.readObject load m target receive).run f = (outcome, g)) :
    f.OnSameRow g ∧ ∃ given, g.objects = f.objects ++ given ∧
      given <+: ((RowSet.record? rows.columns labels row).map Value.record).toList ∧
      (outcome = .ok () → given = ((RowSet.record? rows.columns labels row).map Value.record).toList) := by
  have hresolve : (m.resolveSubMap session.catalog).run f = (.ok m, f) := by
    unfold ResultMap.resolveSubMap ResultMap.followDiscriminators
    rw [hm.discriminator]
    rfl
  have hscanned : f.Scanned ((m.readRow session load).run f).2 := Scans.readRow hf
  rcases hread : (m.readRow session load).run f with ⟨e | values, h⟩ <;> rw [hread] at hscanned
  · have hvalues : (session.readValues load m).run f = (.error e, h) := by
      unfold readValues
      rw [run_bind_ok hresolve, run_bind_error hread]
    unfold readObject at hrun
    rw [run_bind_error hvalues] at hrun
    cases hrun
    refine ⟨hscanned.toOnSameRow, [], by rw [hscanned.objects_eq, List.append_nil], List.nil_prefix, ?_⟩
    intro hok
    cases hok
  · have hvalues : (session.readValues load m).run f =
        (.ok (if values.any fun v => !v.isNull then some (m, values) else none), h) := by
      unfold readValues
      rw [run_bind_ok hresolve, run_bind_ok hread, run_gets_bind, readRow_found hread]
      rfl
    unfold readObject at hrun
    rw [run_bind_ok hvalues] at hrun
    have hfields := fields?_of_readRow hf hrows hrow hread
    unfold RowSet.record?
    rw [hfields]
    -- a row of nulls is discarded, and nothing else keeps a row from giving its record
    cases hfound : values.any fun v => !v.isNull with
    | false =>
      rw [hfound] at hrun
      cases hrun
      refine ⟨hscanned.toOnSameRow, [], by rw [hscanned.objects_eq, List.append_nil], List.nil_prefix, ?_⟩
      intro _
      simp [Option.filter, hfound]
    | true =>
      have hmappings := (hscanned.mappings_eq m).trans hf
      have hlength : labels.length = values.length := by
        simpa [hf] using (readRow_cells hread).length_eq
      rw [hfound, if_pos rfl] at hrun
      dsimp only at hrun
      rw [run_bind_ok (ResultMap.run_build_record hm hmappings hlength target)] at hrun
      cases hrun
      have hone : ((some values).filter fun fields => fields.any fun v => !v.isNull) = some values := by
        simp [Option.filter, hfound]
      rw [hone]
      refine ⟨⟨hscanned.world, hscanned.mappings, hscanned.cursor⟩, [.record values], ?_,
        List.prefix_rfl, fun _ => rfl⟩
      rw [← hscanned.objects_eq]
      show (h.emitted.push _).toList.map _ = _
      rw [Array.toList_push, List.map_append]
      rfl

/-! ## Reading the rows of a window -/

/-- Reading a row gives what can be told from it alone, in the frames with a property, and leaves the
rows behind it to be read. -/
def Session.GivesRow (read : Run Frame Unit) (P : Frame → Prop) (columns : List String)
    (shows : List Value → Option Value) : Prop :=
  ∀ ⦃f g rows row outcome⦄, P f → f.request.rowSetToRead = .ok rows → rows.columns = columns →
    rows.current = some row → read.run f = (outcome, g) →
      P g ∧ (∃ left, g.request.rowSetToRead = .ok left ∧ left.columns = columns ∧ left.ahead = rows.ahead) ∧
      ∃ given, g.objects = f.objects ++ given ∧ given <+: (shows row).toList ∧
        (outcome = .ok () → given = (shows row).toList)

/-- What reading rows one by one gives, when each row gives what can be told from it alone. -/
theorem Session.readRows_gives {read : Run Frame Unit} {P : Frame → Prop} {shows : List Value → Option Value}
    (hread : GivesRow read P columns shows) (hcursor : ∀ {f rows}, P f → P (f.withRows rows)) :
    ∀ (bound skip : Nat) (max : Option Nat) {rows : RowSet} {f g : Frame} {outcome : Except Stop Unit},
      P f → f.request.rowSetToRead = .ok rows → rows.columns = columns → rows.ahead.length < bound →
      (readRows read bound skip max).run f = (outcome, g) →
      P g ∧ ∃ given, g.objects = f.objects ++ given ∧
        given <+: (Window.slice { skip, max } rows.ahead).filterMap shows ∧
        (outcome = .ok () → given = (Window.slice { skip, max } rows.ahead).filterMap shows)
  | 0, _, _, _, _, _, _, _, _, _, h, _ => absurd h (Nat.not_lt_zero _)
  | bound + 1, skip, max, rows, f, g, outcome, hP, hrows, hcolumns, hbound, hrun => by
    unfold readRows at hrun
    by_cases hmax : max = some 0
    · rw [if_pos hmax] at hrun
      cases hrun
      rw [hmax, Window.slice_zero]
      exact ⟨hP, [], (List.append_nil _).symm, List.nil_prefix, fun _ => rfl⟩
    rw [if_neg hmax, run_bind_ok (run_nextRow hrows)] at hrun
    cases hahead : rows.ahead with
    | nil =>
      have hnext : rows.next = (false, { rows with current := none }) := by
        unfold RowSet.next
        rw [hahead]
      rw [hnext] at hrun
      cases hrun
      rw [Window.slice_nil]
      exact ⟨hcursor hP, [], (List.append_nil _).symm, List.nil_prefix, fun _ => rfl⟩
    | cons row ahead =>
      have hnext : rows.next = (true, { rows with current := some row, ahead }) := by
        unfold RowSet.next
        rw [hahead]
      rw [hnext] at hrun
      have hmoved := rowSetToRead_withRows hrows { rows with current := some row, ahead }
      rw [hahead, List.length_cons] at hbound
      have hbound : ahead.length < bound := by omega
      cases skip with
      | succ skip =>
        -- the row is passed over, and nothing is given for it
        rw [Window.slice_skip]
        exact readRows_gives hread hcursor bound skip max (hcursor hP) hmoved hcolumns hbound hrun
      | zero =>
        have hcons : ∀ rest, (row :: rest).filterMap shows = (shows row).toList ++ rest.filterMap shows := by
          intro rest
          simp only [List.filterMap_eq_flatMap_toList, List.flatMap_cons]
        rw [Window.slice_first hmax, hcons]
        replace hrun : (read >>= fun _ => readRows read bound 0 (max.map (· - 1))).run
          (f.withRows { rows with current := some row, ahead }) = (outcome, g) := hrun
        rcases hone : read.run (f.withRows { rows with current := some row, ahead }) with ⟨e | _, h⟩
        · rw [run_bind_error hone] at hrun
          cases hrun
          obtain ⟨hP', -, given, hgiven, hinitial, -⟩ := hread (hcursor hP) hmoved hcolumns rfl hone
          refine ⟨hP', given, hgiven, hinitial.trans (List.prefix_append _ _), fun hok => ?_⟩
          cases hok
        · rw [run_bind_ok hone] at hrun
          obtain ⟨hP', ⟨left, hleft, hcolumns', hahead'⟩, given, hgiven, -, hall⟩ :=
            hread (hcursor hP) hmoved hcolumns rfl hone
          obtain ⟨hP'', more, hmore, hinitial, hall'⟩ :=
            readRows_gives hread hcursor bound 0 (max.map (· - 1)) hP' hleft hcolumns' (hahead' ▸ hbound) hrun
          rw [hahead'] at hinitial hall'
          have hdone : given = (shows row).toList := hall rfl
          refine ⟨hP'', given ++ more, ?_, ?_, fun hok => ?_⟩
          · rw [hmore, hgiven, List.append_assoc]
            rfl
          · rw [hdone]
            exact List.prefix_append_right_inj _ |>.2 hinitial
          · rw [hdone, hall' hok]

/-! ## Whole queries -/

section

variable {statement : Statement} {parameter : Value} {outputs : Option OutParams}

/-- Output parameters are written without giving objects or deriving mappings. -/
theorem Session.writeOutputs_objects (f : Frame) :
    ((session.writeOutputs statement parameter outputs).run f).2.objects = f.objects ∧
      ((session.writeOutputs statement parameter outputs).run f).2.world.derived = f.world.derived := by
  unfold writeOutputs
  split <;> exact ⟨rfl, rfl⟩

end

/-- The labels that a map without mappings of its own is read by when rows are opened: those that are
kept for it, or else those of the rows. -/
def World.labelsFor (w : World) (home : Nat) (m : ResultMap) (columns : List String) : List String :=
  if m.remappable then columns
  else ((Table.get? (home, m.id) w.derived).map fun kept => kept.map (·.column)).getD columns

/-- A map for records is read by its labels, and they are kept unless it is derived for every request. -/
theorem Frame.mappings_opened (hm : m.Recording) {home : Nat} (hhome : m.mappings = .auto home)
    (hregistered : session.catalog.resultMap m.id = .ok m) (hf : f.world.Derived session)
    (rows : RowSet) :
    let opened := f.opened session.catalog.registry m rows
    opened.mappings m = (f.world.labelsFor home m rows.columns).map .ofLabel ∧
      (m.remappable = false → (Table.get? (home, m.id) opened.world.derived).map
        (fun kept => kept.map (·.column)) = some (f.world.labelsFor home m rows.columns)) := by
  have hderived := hm.derivedFrom session.catalog.registry
  intro opened
  -- a map that is derived for every request is kept in the request, any other in the shared state
  cases hremap : m.remappable with
  | true =>
    refine ⟨?_, Bool.noConfusion⟩
    have hopened : Table.get? m.id opened.request.mappings =
        some ((m.derivedFrom session.catalog.registry rows.columns).map ColumnMapping.mapping) := by
      simp only [opened, Frame.opened, hhome, hremap, if_true]
      exact Table.get?_put_self _ _ _
    unfold Frame.mappings World.labelsFor
    rw [hremap, if_pos rfl, if_pos rfl, hopened]
    exact (hderived rows.columns).2
  | false =>
    have hkept : ∃ columns, f.world.labelsFor home m rows.columns = columns ∧
        Table.get? (home, m.id) opened.world.derived =
          some (m.derivedFrom session.catalog.registry columns) := by
      unfold World.labelsFor
      rw [hremap, if_neg Bool.false_ne_true]
      cases hget : Table.get? (home, m.id) f.world.derived with
      | none =>
        refine ⟨rows.columns, rfl, ?_⟩
        simp only [opened, Frame.opened, hhome, hremap, Table.contains, hget]
        exact Table.get?_put_self _ _ _
      | some kept =>
        obtain ⟨columns, rfl⟩ := hf m home kept hregistered hhome hget
        refine ⟨columns, (hderived columns).1, ?_⟩
        simp only [opened, Frame.opened, hhome, hremap, Table.contains, hget]
        exact hget
    obtain ⟨columns, hlabels, hget⟩ := hkept
    rw [hlabels]
    refine ⟨?_, fun _ => ?_⟩
    · rw [opened.mappings_of_fixed hremap]
      unfold World.declaredMappings
      rw [hhome]
      dsimp only
      rw [hget]
      exact (hderived columns).2
    · rw [hget]
      exact congrArg some (hderived columns).1

/-- A statement that is read with a map for records gives the records of the rows in its window. -/
theorem Session.runStatement_records (hm : m.Recording) {home : Nat} (hhome : m.mappings = .auto home)
    (hregistered : session.catalog.resultMap m.id = .ok m) {w : World} (hw : w.Derived session)
    {statement : Statement} {parameter : Value} {target : Option Value} {window : Window}
    {response : Response} {outcome : Except Stop Unit}
    (hsubmit : (session.submit statement parameter).run { world := w } = (.ok (some m, response), f))
    (hrows : response.rows = .rows rows)
    (hrun : (session.runStatement load statement parameter target window receive).run { world := w } =
      (outcome, g)) :
    let labels := w.labelsFor home m rows.columns
    let records := ((window.slice rows.rows).filterMap (RowSet.record? rows.columns labels)).map Value.record
    g.objects <+: records ∧ (outcome = .ok () → g.objects = records) ∧
      (m.remappable = false → (Table.get? (home, m.id) g.world.derived).map
        (fun kept => kept.map (·.column)) = some labels) := by
  intro labels records
  have hrewound := rewound_of_submit hsubmit hrows
  obtain ⟨-, database, context, -, hf⟩ := submit_eq_ok hsubmit
  have hderived : f.world.derived = w.derived := by
    rw [hf]
  have hfw : f.world.Derived session := by
    unfold World.Derived
    rwa [hderived]
  have hlabels : f.world.labelsFor home m rows.columns = labels := by
    unfold World.labelsFor
    rw [hderived]
    rfl
  obtain ⟨hmappings, hkept⟩ := Frame.mappings_opened hm hhome hregistered hfw rows
  rw [hlabels] at hmappings hkept
  have hopen : (session.openRows m rows).run f =
      (.ok (), f.opened session.catalog.registry m rows) := run_openRows (by rw [hf]; rfl) m rows
  have hnothing : (f.opened session.catalog.registry m rows).objects = [] := by
    unfold Frame.objects
    rw [Frame.emitted_opened, hf]
    rfl
  have hread := f.rowSetToRead_opened session.catalog.registry m rows
  generalize f.opened session.catalog.registry m rows = opened at hmappings hkept hopen hnothing hread
  unfold runStatement at hrun
  rw [run_bind_ok hsubmit] at hrun
  replace hrun : (session.readResponse load (some m) response target window receive >>= fun _ =>
    session.writeOutputs statement parameter response.outputs).run f = (outcome, g) := hrun
  unfold readResponse at hrun
  rw [hrows] at hrun
  replace hrun : (session.openRows m rows >>= fun _ =>
      readRows (session.readObject load m target receive) (rows.length + 1) window.skip window.max >>=
        fun _ => session.writeOutputs statement parameter response.outputs).run f = (outcome, g) := by
    rw [← bind_assoc]
    exact hrun
  rw [run_bind_ok hopen] at hrun
  have hrow : GivesRow (session.readObject load m target receive)
      (fun f => f.mappings m = labels.map .ofLabel ∧ f.world = opened.world) rows.columns
      (fun row => (RowSet.record? rows.columns labels row).map .record) := by
    intro f g left row outcome hf hleft hcolumns hcurrent hone
    obtain ⟨hsame, hgiven⟩ := readObject_record hm hf.1 hleft hcurrent hone
    obtain ⟨rest, hrest, hcolumns', hahead⟩ := hsame.rowSetToRead hleft
    rw [hcolumns] at hgiven
    exact ⟨⟨(hsame.mappings_eq m).trans hf.1, hsame.world.trans hf.2⟩,
      ⟨rest, hrest, hcolumns'.trans hcolumns, hahead⟩, hgiven⟩
  -- what the rows give is settled before the output parameters are written
  have hrecords : ∀ {u : Frame} {result : Except Stop Unit},
      (readRows (session.readObject load m target receive) (rows.length + 1) window.skip window.max).run
        opened = (result, u) →
      u.world = opened.world ∧ u.objects <+: records ∧ (result = .ok () → u.objects = records) := by
    intro u result hrun
    obtain ⟨⟨-, hworld⟩, given, hgiven, hinitial, hall⟩ := readRows_gives hrow id (rows.length + 1)
      window.skip window.max ⟨hmappings, rfl⟩ hread rfl
      (by rw [hrewound]; exact Nat.lt_succ_self _) hrun
    rw [hnothing, List.nil_append] at hgiven
    rw [hrewound, ← List.map_filterMap] at hinitial hall
    subst hgiven
    exact ⟨hworld, hinitial, hall⟩
  rcases hrows : (readRows (session.readObject load m target receive) (rows.length + 1) window.skip
    window.max).run opened with ⟨e | _, u⟩
  · rw [run_bind_error hrows] at hrun
    cases hrun
    obtain ⟨hworld, hinitial, -⟩ := hrecords hrows
    exact ⟨hinitial, nofun, fun hremap => by rw [hworld]; exact hkept hremap⟩
  · rw [run_bind_ok hrows] at hrun
    obtain ⟨hworld, -, hall⟩ := hrecords hrows
    have hwritten := @writeOutputs_objects session statement parameter response.outputs u
    rw [hrun] at hwritten
    have hobjects : g.objects = records := hwritten.1.trans (hall rfl)
    refine ⟨hobjects ▸ List.prefix_rfl, fun _ => hobjects, fun hremap => ?_⟩
    rw [hwritten.2, hworld]
    exact hkept hremap

/-- A statement that wants records, has no map, and is read with the map derived for it gives the records
of the rows in its window, in order, and all of them if it succeeds. A record has a field for each label,
which is the value in the first column with the label. The labels are those of the rows if the statement
derives its map for every request, or has not been read before in any session on the catalog; else those
that were kept for the catalog then, which stay whatever is done in whichever sessions. -/
theorem Session.query_records {plan : CatalogPlan} {c : Catalog} (accepted : Catalog.build plan = .ok c)
    {home : Nat} (hcatalog : session.catalog = c.atHome home) {s statement : Statement}
    (hs : s ∈ plan.statements) (hnone : s.resultMap = none) (hclass : s.resultClass = some .record)
    (hstatement : c.statement s.id = .ok statement)
    (hown : statement.resultMap = some (Catalog.autoMapId s.id)) {w : World} (hw : w.Derived session)
    (load : Load) (parameter : Value) (target : Option Value) (window : Window) (receive : Receiver)
    {resultMap : Option ResultMap} {response : Response}
    (hsubmit : (session.submit statement parameter).run { world := w } = (.ok (resultMap, response), f))
    (hrows : response.rows = .rows rows) {outcome : QueryOutcome} {w' : World}
    (hquery : session.query load s.id parameter target window receive w = (outcome, w')) :
    let kept (w : World) := (Table.get? (home, Catalog.autoMapId s.id) w.derived).map
      fun mappings => mappings.map (·.column)
    let labels := if s.remapResults then rows.columns else (kept w).getD rows.columns
    let records := (window.slice rows.rows).filterMap (RowSet.record? rows.columns labels)
    outcome.emitted.map (·.object) <+: records.map .record ∧
      (outcome.result = .ok () → outcome.emitted.map (·.object) = records.map .record) ∧
      (∀ fields ∈ records, ∃ row ∈ window.slice rows.rows, fields.length = labels.length ∧
        ∀ (i j : Nat) (label column : String), labels[i]? = some label → rows.columns[j]? = some column →
          Text.sameLabel column label = true →
          (∀ k < j, ∀ other, rows.columns[k]? = some other → Text.sameLabel other label = false) →
          fields[i]? = some (row[j]?.getD .null)) ∧
      (s.remapResults = false → ∀ w'', w'.History w'' → kept w'' = some labels) := by
  intro kept labels records
  let m : ResultMap := (ResultMap.auto (Catalog.autoMapId s.id) .record s.remapResults).atHome home
  have hm : m.Recording := ⟨rfl, rfl, rfl⟩
  have hregistered : session.catalog.resultMap m.id = .ok m := by
    show session.catalog.resultMap (Catalog.autoMapId s.id) = _
    rw [hcatalog, Catalog.resultMap_atHome, Catalog.autoMap_of_build accepted hs hnone hclass]
    rfl
  obtain rfl : resultMap = some m := by
    have hfound := (submit_eq_ok hsubmit).1
    unfold Catalog.statementResultMap at hfound
    rw [hown] at hfound
    obtain ⟨found, hm', rfl⟩ := Except.map_eq_ok_iff.1 hfound
    exact congrArg some (Except.ok.inj (hm'.symm.trans hregistered))
  rcases hrun : (session.runStatement load statement parameter target window receive).run
    { world := w } with ⟨ended, g⟩
  obtain ⟨hinitial, hall, hkept⟩ := runStatement_records hm rfl hregistered hw hsubmit hrows hrun
  unfold query at hquery
  rw [show session.catalog.statement s.id = .ok statement by rw [hcatalog]; exact hstatement] at hquery
  dsimp only at hquery
  rw [run_mapError, hrun] at hquery
  cases hquery
  refine ⟨hinitial, fun hok => hall (Except.mapError_eq_ok_iff.1 hok), fun fields hmem => ?_,
    fun hremap w'' hhistory => ?_⟩
  · obtain ⟨row, hrow, hrecord⟩ := List.mem_filterMap.1 hmem
    exact ⟨row, hrow, RowSet.record?_fields hrecord⟩
  · obtain ⟨mappings, hget, hlabels⟩ := Option.map_eq_some_iff.1 (hkept hremap)
    have hstays := hhistory.remembers _ _ hget
    show (Table.get? (home, m.id) w''.derived).map _ = _
    rw [hstays]
    exact congrArg some hlabels

/-! ## Records of numbers -/

/-- A catalog with a select that wants records. -/
def CatalogPlan.recording : CatalogPlan :=
  { statements := [{ id := "s", kind := .select, sql := "q", resultClass := some .record }] }

/-- The statement with the map that is derived for it. -/
def Statement.recording : Statement where
  id := "s"
  kind := .select
  sql := "q"
  resultMap := some "s-AutoResultMap"
  resultClass := some .record

/-- The catalog that is built from the plan. -/
def Catalog.recording : Catalog where
  resultMaps := [("s-AutoResultMap", .auto "s-AutoResultMap" .record false)]
  statements := [("s", .recording)]

theorem Catalog.build_recording : build .recording = .ok .recording := rfl

/-- The session of the catalog, with the rows that the statement gives for the numbers from one. -/
def Session.recording (replies : List RowSet) : Session × World :=
  let registrations := replies.zipIdx.map fun (rows, i) =>
    { sql := "q", params := some [.i32 (Int32.ofNat (i + 1))], reply := .rows rows }
  World.openSession { database := { registrations } } .recording

/-- The numbers in records, if there is nothing else. -/
def Value.numbers? (records : List Value) : Option (List (List Int32)) :=
  records.mapM fun
    | .record fields => fields.mapM fun v => v.asI32.toOption
    | _ => none

/-- The labels that were kept stay when a later row set has its columns in another order, in the session
that read the first one and in any other on the catalog, and the fields are then in the order of the first
row set; where two columns have one label, both fields are the value of the first of them. -/
theorem Session.records_differ :
    let x := recording [{ columns := ["A", "B"], rows := [[.i32 1, .i32 2]] },
      { columns := ["B", "A"], rows := [[.i32 3, .i32 4]] },
      { columns := ["ID", "id"], rows := [[.i32 5, .i32 6]] }]
    let y := x.2.join x.1.catalog
    let ask (session : Session) (n : Int32) := session.queryEach "s" (.i32 n) .any
    let records (outcome : QueryOutcome) := Value.numbers? (outcome.emitted.map (·.object))
    records (ask x.1 1 y.2).1 = some [[1, 2]] ∧ records (ask x.1 2 y.2).1 = some [[3, 4]] ∧
      records (ask x.1 2 (ask x.1 1 y.2).2).1 = some [[4, 3]] ∧
      records (ask y.1 2 (ask x.1 1 y.2).2).1 = some [[4, 3]] ∧
      records (ask x.1 3 y.2).1 = some [[5, 5]] := by
  decide +kernel

/-- A second session on a catalog reads with the labels that were kept for the first. -/
theorem Session.query_records_kept :
    let rows : RowSet := { columns := ["B", "A"], rows := [[.i32 3, .i32 4]] }
    let x := recording [rows]
    let y := x.2.join x.1.catalog
    let m := (ResultMap.auto "s-AutoResultMap" .record false).atHome 0
    let w :=
      { y.2 with derived := Table.put (0, m.id) (m.derivedFrom .builtin ["A", "B"]) y.2.derived }
    let outcome := (y.1.query y.1.loader "s" (.i32 1) none {} .any w).1
    outcome.result = .ok () ∧ Value.numbers? (outcome.emitted.map (·.object)) = some [[4, 3]] := by
  intro rows x y m w
  have hkeeps : World.KeepsDerived y.1 y.2 w := World.keepsDerived_put (m := m) rfl ["A", "B"]
  have hw : w.Derived y.1 := hkeeps (World.derived_of_nil rfl y.1)
  obtain ⟨resultMap, f, hsubmit⟩ : ∃ resultMap f, (y.1.submit .recording (.i32 1)).run { world := w } =
    (.ok (resultMap, { rows := .rows rows }), f) := ⟨_, _, rfl⟩
  have hok : (y.1.query y.1.loader "s" (.i32 1) none {} .any w).1.result = .ok () := by decide +kernel
  rcases hquery : y.1.query y.1.loader "s" (.i32 1) none {} .any w with ⟨outcome, w'⟩
  rw [hquery] at hok
  have hcatalog : y.1.catalog = Catalog.recording.atHome 0 := rfl
  obtain ⟨-, hall, -⟩ := query_records Catalog.build_recording hcatalog (List.mem_singleton.2 rfl)
    rfl rfl rfl rfl hw y.1.loader (.i32 1) none {} .any hsubmit rfl hquery
  refine ⟨hok, ?_⟩
  show Value.numbers? (outcome.emitted.map (·.object)) = _
  rw [hall hok]
  decide +kernel

end RowMapper
