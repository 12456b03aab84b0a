/-
Queries under other names. The replies are the same, so a statement that is run on stores with other
names asks the same of the database, reads the same rows, and gives the same objects, up to the names
(`Renaming.answers`).
-/
import Mathlib.Data.List.Find
import RowMapper.Proofs.Engine.Renamed

namespace RowMapper

namespace Script

variable {φ : Renaming} {s t : Store} {d d' : Script}

/-- The parameters that a reply is for are looked up under their new names. -/
theorem reply?_rename (h : φ.Copies s t) (hr : d'.registrations = d.registrations)
    (hparams : ∀ r ∈ d.registrations, ∀ params, r.params = some params →
      ∀ v ∈ params, v.rename φ = v) (sql : String) (values : List Value) :
    d'.reply? t sql (values.map (·.rename φ)) = d.reply? s sql values := by
  unfold reply?
  dsimp only
  rw [hr]
  congr 2
  refine List.find?_congr fun r hmem => ?_
  cases hp : r.params with
  | none => rfl
  | some registered =>
    have hfixed : registered.map (·.rename φ) = registered :=
      (List.map_congr_left (hparams r (List.mem_filter.1 hmem).1 registered hp)).trans
        (List.map_id registered)
    have hsame := h.same (.list registered) (.list values)
    simp only [Value.rename, Value.renameAll_eq_map, hfixed] at hsame
    exact hsame

end Script

def Operation.rename (φ : Renaming) (op : Operation) : Operation :=
  { op with params := op.params.rename φ }

namespace Renaming

variable {φ : Renaming} {x : Scope} {session : Session} {load load' : Load} {f g : Frame}
  {m : ResultMap}

/-! ## Asking the database -/

theorem execute_inStep (hx : x.Closed φ session) (op : Operation) (hp : φ.Frames x f g) :
    (φ.onRequest x session).InStep
      (fun u a b => a = b ∧ (φ.onRequest x session).Fixed u a.cells)
      (Session.execute op) (Session.execute (op.rename φ)) f g := by
  unfold Session.execute
  refine (context_inStep _ hp).bind fun u u' _ _ _ hp _ => ?_
  have hreply : u'.world.database.reply? u'.world.store (Text.squeeze op.sql)
      (Params.values (op.params.rename φ)) =
      u.world.database.reply? u.world.store (Text.squeeze op.sql) (Params.values op.params) := by
    rw [Params.values_rename]
    refine Script.reply?_rename hp.copies (hp.registrations'.trans hp.registrations.symm)
      (fun r hr params hps v hv => ?_) _ _
    refine hx.replies r (hp.registrations ▸ hr) v (List.mem_append_right _ ?_)
    rw [hps]
    exact hv
  have houtcome : (u'.world.database.execute u'.world.store (op.rename φ)).1 =
      (u.world.database.execute u.world.store op).1 := by
    unfold Script.execute Operation.rename
    simp only [hreply]
  refine .inr ⟨{ hp with
    registrations := hp.registrations
    registrations' := hp.registrations' }, trivial, ?_⟩
  have ho : Outcomes (fun a b => a = b ∧ ∀ v ∈ a.cells, v = v.rename φ ∧ True)
      (u.world.database.execute u.world.store op).1
      (u'.world.database.execute u'.world.store (op.rename φ)).1 := by
    rw [houtcome]
    refine .same fun response hr => ⟨rfl, fun v hv => ?_⟩
    obtain ⟨r, hmem, -, hcell⟩ := Script.mem_cells_of_execute hr hv
    exact ⟨(hx.replies r (hp.registrations ▸ hmem) v (List.mem_append_left _ hcell)).symm, trivial⟩
  exact ho.mapError Stop.failed

/-- A change of the request that brings in rows of the same cells, or leaves the rows. -/
theorem bind_inStep (hw : x.Whole) (statement : Statement) (resultMap : Option ResultMap)
    (hp : φ.Frames x f g) :
    (φ.onRequest x session).InStep Pairing.Any
      (Frame.modifyRequest (·.bind statement resultMap))
      (Frame.modifyRequest (·.bind statement resultMap)) f g := by
  refine .modify { hp with row := ?_, stays := fun _ hrow => nomatch hw.row.symm.trans hrow } trivial
  have hrows := congrArg Prod.snd hp.row
  exact congrArg (Prod.mk Phase.bound) hrows

theorem bindParameter_inStep (statement : Statement) (v : Value) (hp : φ.Frames x f g) :
    (φ.onRequest x session).InStep (fun _ a b => b = Params.rename φ a)
      (session.bindParameter statement v) (session.bindParameter statement (v.rename φ)) f g := by
  unfold Session.bindParameter
  refine (context_inStep _ hp).bind fun u u' _ _ _ hp _ => ?_
  refine .inr ⟨hp, trivial, ?_⟩
  show Outcomes _ ((statement.bind session.catalog.accessor u.world.store v).mapError Stop.failed)
    ((statement.bind session.catalog.accessor u'.world.store (v.rename φ)).mapError Stop.failed)
  rw [hp.copies.bind]
  cases statement.bind session.catalog.accessor u.world.store v <;> exact rfl

section Laws

variable (hx : x.Closed φ session)

include hx

theorem submit {statement : Statement} (hw : x.Whole) (v : Value) (hp : φ.Frames x f g)
    (hs : x.statements statement) :
    (φ.onRequest x session).InStep
      (fun u a b => a = b ∧ (∀ m, a.1 = some m → x.reading m) ∧
        (φ.onRequest x session).Fixed u a.2.cells)
      (session.submit statement v) (session.submit statement (v.rename φ)) f g := by
  unfold Session.submit
  refine (Pairing.InStep.ofExcept (R := Pairing.Same) hp fun _ _ => rfl).bind fun s t _ _ _ hp _ => ?_
  refine (Pairing.InStep.ofExcept (R := fun _ a b => a = b ∧ ∀ m, a = some m → x.reading m) hp ?_).bind ?_
  · rintro resultMap hr
    refine ⟨rfl, fun m hm => ?_⟩
    subst hm
    exact hw.reading m (hx.own hs hr)
  rintro s t resultMap _ _ hp ⟨rfl, hmaps⟩
  refine (bind_inStep hw statement resultMap hp).bind fun s t _ _ _ hp _ => ?_
  refine (bindParameter_inStep statement v hp).bind ?_
  rintro s t params _ _ hp rfl
  refine Pairing.InStep.bind (Q := fun u a b => a = b ∧ (φ.onRequest x session).Fixed u a.cells) ?_ ?_
  · cases statement.kind <;> exact execute_inStep hx _ hp
  · rintro s t response _ _ hp ⟨rfl, hfixed⟩
    exact .pure hp ⟨rfl, hmaps, hfixed⟩

omit hx in
/-- Mappings that both requests install for a map, as they are derived from columns. -/
theorem install_frames (m : ResultMap) (mappings : List ColumnMapping) (hp : φ.Frames x f g) :
    φ.Frames x
      { f with request := f.request.setMappings m.id (mappings.map ColumnMapping.mapping) }
      { g with request := g.request.setMappings m.id (mappings.map ColumnMapping.mapping) } := by
  refine { hp with mappings := fun n hn => ?_, installed := fun n hn installed hget mapping hmem => ?_ }
  · by_cases hid : n.id = m.id
    · simp [Request.setMappings, hid, Table.get?_put_self]
    · simp [Request.setMappings, Table.get?_put_of_ne hid, hp.mappings n hn]
  · exact route_of_installed (hp.installed n hn) m.id mappings installed hget mapping hmem

omit hx in
/-- Mappings that both worlds keep for a map. -/
theorem keep_frames (key : Nat × String) (mappings : List ColumnMapping) (hp : φ.Frames x f g) :
    φ.Frames x
      { f with world := { f.world with derived := Table.put key mappings f.world.derived } }
      { g with world := { g.world with derived := Table.put key mappings g.world.derived } } := by
  refine { hp with derived := fun n home hn hauto => ?_ }
  by_cases hkey : (home, n.id) = key
  · simp [hkey, Table.get?_put_self]
  · simp [Table.get?_put_of_ne hkey, hp.derived n home hn hauto]

omit hx in
theorem prepareAuto (hw : x.Whole) (hp : φ.Frames x f g) (hm : x.maps m) :
    (φ.onRequest x session).InStep Pairing.Any (m.prepareAuto session.catalog)
      (m.prepareAuto session.catalog) f g := by
  have hderive : m.derive session.catalog g.request = m.derive session.catalog f.request := by
    unfold ResultMap.derive Request.rowSet
    rw [(hp.whole hw.row).1, show g.request.phase = f.request.phase from congrArg Prod.fst hp.row]
  unfold ResultMap.prepareAuto
  split
  · exact .pure hp trivial
  · rename_i home hauto
    refine .gets_bind ?_
    rw [hderive]
    split
    · rename_i hremap
      refine (Pairing.InStep.ofExcept (R := Pairing.Same) hp fun _ _ => rfl).bind ?_
      rintro s t mappings _ _ hp rfl
      refine .inr ?_
      rw [run_updateRequest_ok (·.remap m (mappings.map ColumnMapping.mapping)) s (if_pos hremap),
        run_updateRequest_ok (·.remap m (mappings.map ColumnMapping.mapping)) t (if_pos hremap)]
      exact ⟨install_frames m mappings hp, trivial, trivial⟩
    · have hknown : Table.contains (home, m.id) g.world.derived =
          Table.contains (home, m.id) f.world.derived := by
        unfold Table.contains
        rw [hp.derived m home hm hauto]
      rw [hknown]
      split
      · refine (Pairing.InStep.ofExcept (R := Pairing.Same) hp fun _ _ => rfl).bind ?_
        rintro s t mappings _ _ hp rfl
        exact .inr ⟨keep_frames (home, m.id) mappings hp, trivial, trivial⟩
      · exact .pure hp trivial

omit hx in
theorem openRows {rows : RowSet} (hw : x.Whole) (hp : φ.Frames x f g) (hm : x.maps m)
    (hcells : (φ.onRequest x session).Fixed f rows.cells) :
    (φ.onRequest x session).InStep Pairing.Any (session.openRows m rows)
      (session.openRows m rows) f g := by
  unfold Session.openRows
  refine Pairing.InStep.bind (Q := Pairing.Any) ?_ fun s t _ _ _ hp _ => prepareAuto hw hp hm
  have hphase : g.request.phase = f.request.phase := congrArg Prod.fst hp.row
  by_cases hb : f.request.phase = .bound
  · refine .inr ?_
    rw [run_updateRequest_ok (·.start rows) f (if_pos hb),
      run_updateRequest_ok (·.start rows) g (if_pos (hphase.trans hb))]
    refine ⟨{ hp with
      row := rfl
      stays := fun _ hrow => nomatch hw.row.symm.trans hrow
      cells := ?_
      whole := fun hw => ⟨rfl, (hp.whole hw).2⟩ }, trivial, trivial⟩
    intro read hread v hv
    cases hread
    exact (hcells v hv).1.symm
  · refine .inr ?_
    have hb' : g.request.phase ≠ .bound := fun h => hb (hphase.symm.trans h)
    rw [run_updateRequest_error (·.start rows) f (if_neg hb),
      run_updateRequest_error (·.start rows) g (if_neg hb')]
    exact ⟨hp, trivial, by rw [hphase]; rfl⟩

omit hx in
theorem nextRow (hw : x.Whole) (hp : φ.Frames x f g) :
    (φ.onRequest x session).InStep Pairing.Same Frame.nextRow Frame.nextRow f g := by
  have hrows := (hp.whole hw.row).1
  have hphase : g.request.phase = f.request.phase := congrArg Prod.fst hp.row
  have hread : g.request.rowSetToRead = f.request.rowSetToRead := by
    unfold Request.rowSetToRead
    rw [hrows, hphase]
  unfold Frame.nextRow
  refine .inr ?_
  cases hr : f.request.rowSetToRead with
  | error e =>
    rw [run_onRows_error hr, run_onRows_error (hread.trans hr)]
    exact ⟨hp, trivial, rfl⟩
  | ok rows =>
    rw [run_onRows_ok hr, run_onRows_ok (hread.trans hr)]
    refine ⟨{ hp with
      row := ?_
      stays := fun _ hrow => nomatch hw.row.symm.trans hrow
      cells := ?_
      whole := fun hw => ⟨rfl, (hp.whole hw).2⟩ }, trivial, rfl⟩
    · exact congrArg (·, some (rows.next.2.columns, rows.next.2.current)) hphase
    · intro next hnext v hv
      cases hnext
      exact hp.cells rows (Request.rows_of_rowSetToRead hr) v (RowSet.mem_cells_of_next hv)

omit hx in
/-- What is given shows the same under both names. -/
theorem emit (hw : x.Whole) (receive : Receiver) (v : Value) (hp : φ.Frames x f g) :
    (φ.onRequest x session).InStep Pairing.Any (Session.emit receive v)
      (Session.emit receive (v.rename φ)) f g := by
  obtain ⟨hrows, hcontext, hemitted⟩ := hp.whole hw.row
  have hsize : g.emitted.size = f.emitted.size := by rw [hemitted, Array.size_map]
  have hpush : (φ.onRequest x session).InStep
      (fun u _ _ => u.emitted.size = f.emitted.size + 1)
      (Run.modify fun frame : Frame =>
        { frame with emitted := frame.emitted.push ⟨v, frame.world.store.content v⟩ })
      (Run.modify fun frame : Frame =>
        { frame with emitted :=
          frame.emitted.push ⟨v.rename φ, frame.world.store.content (v.rename φ)⟩ }) f g := by
    refine .inr ⟨{ hp with whole := fun _ => ⟨hrows, hcontext, ?_⟩ }, trivial, Array.size_push _⟩
    show g.emitted.push _ = (f.emitted.push _).map _
    rw [hp.copies.content, hemitted, Array.map_push]
    rfl
  unfold Session.emit
  refine hpush.bind fun s t _ _ _ hp _ => ?_
  refine .read hp ?_ fun _ _ => trivial
  show receive s.emitted.size = receive t.emitted.size
  rw [(hp.whole hw.row).2.2, Array.size_map]

omit hx in
theorem writeOutputs (statement : Statement) (outputs : Option OutParams) (v : Value)
    (hp : φ.Frames x f g)
    (hout : ∀ out, outputs = some out → (φ.onRequest x session).Fixed f out.values) :
    (φ.onRequest x session).InStep Pairing.Any (session.writeOutputs statement v outputs)
      (session.writeOutputs statement (v.rename φ) outputs) f g := by
  unfold Session.writeOutputs
  split
  · rename_i out parameterMap _
    refine (context_inStep _ hp).bind fun s t _ _ _ hp _ => ?_
    refine edit_inStep hp (S := Pairing.Any) ?_ fun _ _ _ _ => trivial
    refine φ.writes.writeOutputs parameterMap session.catalog.accessor hp.copies rfl ?_
    rintro a (hmem | hplain)
    · exact (hout out rfl a hmem).1
    · exact hplain.rename.symm
  · exact .pure hp trivial

/-- Whole queries are the same up to the names, if reading rows is. -/
theorem answers (hw : x.Whole) (hreads : (φ.onRequest x session).Scans session load load') :
    (φ.onRequest x session).Answers session load load' where
  toAssembles := assembles hx hreads
  follows hm hd hs hn := hw.reading _ (hx.subMap (hx.reading hm) hd hs hn)
  submit := by
    rintro f g v w statement hp hs rfl
    exact submit hx hw v hp hs
  openRows hp hm hcells := openRows hw hp (hx.reading hm) hcells
  nextRow hp := nextRow hw hp
  emit := by
    rintro f g v w receive hp rfl
    exact emit hw receive v hp
  writeOutputs := by
    rintro f g v w statement outputs hp rfl hout
    exact writeOutputs statement outputs v hp hout

end Laws

/-! ## Nested selects -/

/-- The scope of the requests that nested selects make. -/
def Scope.inside (x : Scope) : Scope :=
  { x with reading := x.maps, keys := fun _ _ => True, row := none }

theorem Scope.whole_inside (x : Scope) : x.inside.Whole := ⟨rfl, fun _ => id⟩

theorem Scope.Closed.inside (hx : x.Closed φ session) : x.inside.Closed φ session :=
  { hx with reading := id, nestedReading := hx.nestedMap }

theorem nests (hp : φ.Frames x f g) :
    (φ.onRequest x session).Nests (φ.onRequest x.inside session) f g where
  enter := { hp with
    row := rfl
    stays := fun _ h => nomatch h
    cells := nofun
    mappings := fun _ _ => rfl
    installed := fun _ _ _ h => nomatch h
    identity := fun _ _ _ => rfl
    assembling := fun _ _ _ _ => Iff.rfl
    whole := fun _ => ⟨rfl, rfl, Array.map_empty.symm⟩ }
  parameter h := h
  leave _ hst := ⟨{ hp with
    copies := hst.copies
    registrations := hst.registrations
    registrations' := hst.registrations'
    derived := hst.derived }, trivial⟩
  results := by
    rintro s t - hst
    rw [(hst.whole rfl).2.2, Array.toList_map, List.map_map]
    have hvalues : List.Forall₂ ((φ.onRequest x session).values { f with world := s.world })
        (s.emitted.toList.map (·.object)) ((s.emitted.toList.map (·.object)).map (·.rename φ)) :=
      forall₂_values _ _
    rw [List.map_map] at hvalues
    exact hvalues
  context hst := (hst.whole rfl).2.1.symm
  loose := id

section Laws

variable (hx : x.Closed φ session)

include hx

theorem defers : (φ.onRequest x session).Defers session where
  list := by
    intro f items items' h
    rw [values_eq_map h]
    exact congrArg Value.list (Value.renameAll_eq_map items).symm
  set := by
    intro f g items items' hp h
    rw [values_eq_map h, hp.copies.distinct]
    exact congrArg Value.set (Value.renameAll_eq_map _).symm
  null := rfl
  fixed _ h := (hx.loader _ h).symm
  call := by
    rintro f g v w statement target hp rfl
    exact .inr ⟨{ hp with copies := hp.copies }, trivial, trivial⟩
  lazy := by
    rintro f g v w statement target hp rfl
    have hcopies := hp.copies.newLazy { session := session.number, statement, parameter := v, target }
    refine .inr ⟨{ hp with copies := hcopies }, trivial, ?_⟩
    exact congrArg Value.lazy (hp.copies.nextLazy 0).symm

theorem loadResult {depth : Nat} {statement : Statement}
    (h : ∀ d, depth = d + 1 →
      (φ.onRequest x.inside session).Answers session (session.load d) (session.load d))
    (hs : x.statements statement) (target : DataType) (v : Value) (hp : φ.Frames x f g) :
    (φ.onRequest x session).InStep (φ.onRequest x session).values
      (Frame.onWorld (session.loadResult (session.load depth) statement.id v target))
      (Frame.onWorld (session.loadResult (session.load depth) statement.id (v.rename φ) target)) f g := by
  refine Correspondence.loadResult (defers hx) statement.id target hp rfl ?_
  cases depth with
  | zero => exact .inr ⟨hp, trivial, rfl⟩
  | succ d =>
    exact Correspondence.runLoad (defers hx) (fun _ => hx.again hs) hp (nests hp) (h d rfl) target rfl

omit hx in
/-- The queries of nested selects, however deep, are the same up to the names. -/
theorem answers_inside (hx : x.Closed φ session) : ∀ depth : Nat,
    (φ.onRequest x.inside session).Answers session (session.load depth) (session.load depth)
  | 0 => answers hx.inside x.whole_inside
    (reads hx.inside (fun _ _ _ _ _ => trivial) fun statement target v hp hs =>
      loadResult hx.inside (fun _ hd => Nat.noConfusion hd) hs target v hp).scans
  | depth + 1 => answers hx.inside x.whole_inside
    (reads hx.inside (fun _ _ _ _ _ => trivial) fun statement target v hp hs =>
      loadResult hx.inside (fun d hd => by
        obtain rfl : depth = d := Nat.succ.inj hd
        exact answers_inside hx depth) hs target v hp).scans

/-- Reading a row is the same up to the names, whatever its nested selects do. -/
theorem reads_load (depth : Nat)
    (hkeys : ∀ {f g h m values}, x.reading m → φ.Frames x f g →
      (m.readRow session (session.load depth)).run f = (.ok values, h) →
      ∀ key, m.uniqueKey h.world.store (h.mappings m) values = some key → x.keys m.id key) :
    (φ.onRequest x session).Reads session (session.load depth) (session.load depth) :=
  reads hx hkeys fun _ target v hp hs =>
    loadResult hx (fun d _ => answers_inside hx d) hs target v hp

end Laws

end Renaming

end RowMapper
