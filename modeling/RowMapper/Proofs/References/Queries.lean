/-
Queries on a catalog whose references all name something: reading and assembling rows, whole requests,
and the selects nested in them to any depth look nothing up in vain (`Session.query_finds`,
`Session.loads_load`, `Session.update_finds`).
-/
import RowMapper.Proofs.References.Runs

namespace RowMapper.Session

variable {x : Prop} {session : Session} {load : Load} {m : ResultMap} {w : World}

namespace Finds

variable (hc : session.catalog.Sound)
  (hload : ∀ (id : String) (parameter : Value) (target : DataType),
    session.catalog.Names (.nestedSelect id) → session.Loads x (load id parameter target))

/-! ## Rows -/

include hc hload

theorem readElement (mapping : ResultMapping) {child : String} (parent : Value)
    (hchild : session.catalog.Names (.nestedMap child)) :
    session.Finds x (fun found => ∀ element, found = some element → session.catalog.Holds element.map)
      (readElement session load mapping child parent) := by
  obtain ⟨m, hm⟩ := hchild
  unfold RowMapper.readElement
  dsimp only
  rw [hm]
  have hread : session.Finds x (· = m) (Run.ofExcept (.ok m)) := ofExcept rfl
  have htype : session.Finds x Always (mapping.collectionType session.catalog.accessor parent) := by
    unfold ResultMapping.collectionType
    split
    · exact .pure trivial
    · exact read fun f => Accessor.found_setterType _ _ _ _
  refine hread.bind fun n hn => htype.bind fun type _ => ?_
  subst hn
  have hcontainer : ∀ s v, Found (ensureContainer type mapping.property s v).2 := by
    intro s v
    have hnew := DataType.found_newCollection (some type) mapping.property
    unfold ensureContainer withContainer
    split
    · trivial
    · rename_i e he
      split at he
      · rw [he] at hnew
        exact hnew
      · cases he
  refine (edit (.update _ hcontainer _ _)).bind fun _ _ => ?_
  refine (readRow hc hload ⟨child, hm⟩).bind fun values _ => ?_
  refine Keeps.bind (gets fun _ _ => trivial) fun found (_ : Always found) => .pure fun element helement => ?_
  split at helement
  · cases helement
    exact ⟨child, hm⟩
  · cases helement

theorem nestedElement {build : Build} (hbuild : ∀ m values, session.catalog.Holds m →
      session.Finds x Always (build m values)) (mapping : ResultMapping) {child : String} (parent : Value)
    (hchild : session.catalog.Names (.nestedMap child)) :
    session.Finds x Always (nestedElement session load build mapping child parent) := by
  unfold RowMapper.nestedElement
  refine (readElement hc hload mapping parent hchild).bind fun found hfound => ?_
  split
  · exact .pure trivial
  · rename_i element
    refine (hbuild _ _ (hfound element rfl)).bind fun built _ => ?_
    split
    · exact .pure trivial
    · rename_i v
      refine edit (.update _ (fun s slot => ?_) _ _)
      have hnew := DataType.found_newCollection (some element.collection) mapping.property
      unfold addElement withContainer
      split
      · exact s.found_grow _ _
      · rename_i e he
        split at he
        · rw [he] at hnew
          exact hnew
        · cases he

theorem nestedElements {build : Build} (hbuild : ∀ m values, session.catalog.Holds m →
      session.Finds x Always (build m values)) {mappings : List ResultMapping} (parent : Value)
    (hnames : session.catalog.NamesAll mappings) :
    session.Finds x Always (nestedElements session load build mappings parent) := by
  refine .forM fun mapping hmem => ?_
  have hroute := hnames mapping hmem
  unfold nestedMapping
  split
  · rename_i child hnested
    rw [hnested] at hroute
    exact mapError (nestedElement hc hload hbuild mapping parent hroute) fun _ e => e.dangles_remark _
  · exact .pure trivial

theorem assembleNested {build : Build} (hbuild : ∀ m values, session.catalog.Holds m →
      session.Finds x Always (build m values)) (m : ResultMap) {mappings : List ResultMapping}
    (parent : Value) (key : Option String)
    (hnames : session.catalog.NamesAll mappings) :
    session.Finds x Always (assembleNested session load build m mappings parent key) := by
  unfold RowMapper.assembleNested
  split
  · have hmark : session.Finds x Always (Run.modify (Frame.mark · m.id key)) := by
      cases key <;> exact modify (fun _ => rfl) fun _ => rfl
    refine hmark.bind fun _ _ f hf => ?_
    obtain ⟨hs, -, ho⟩ := nestedElements hc hload hbuild parent hnames f hf
    refine ⟨?_, trivial, ho⟩
    cases key
    · exact hs
    · exact ⟨hs.world, hs.columns⟩
  · exact .pure trivial

omit hload in
theorem subject (hm : session.catalog.Holds m) (target : Option Value) (values : List Value) :
    session.Finds x (fun found => ∀ subject, found = some subject →
        session.catalog.NamesAll subject.mappings)
      (m.subject session target values) := by
  unfold ResultMap.subject
  refine (gets fun f hf => names_of_mappings hc hm hf).bind fun mappings hnames => ?_
  refine Keeps.bind (gets fun _ _ => trivial) fun key (_ : Always key) => ?_
  refine Keeps.bind (gets fun _ _ => trivial) fun request (_ : Always request) => ?_
  split
  · exact .pure nofun
  · split
    · refine .pure fun subject hsubject => ?_
      cases hsubject
      exact hnames
    · have hnew : session.Finds x Always (m.buildNew session mappings target values key) := by
        unfold ResultMap.buildNew
        refine (edit (.setData _ _ _ _ _ _)).bind fun object _ => ?_
        unfold Frame.remember
        split
        · exact Keeps.bind (modifyRequest fun _ => rfl) fun _ (_ : True) => .pure trivial
        · exact Keeps.bind (.pure trivial) fun _ (_ : True) => .pure trivial
      refine hnew.bind fun object _ => .pure fun subject hsubject => ?_
      cases hsubject
      exact hnames

theorem build : ∀ (depth : Nat) (m : ResultMap) (target : Option Value) (values : List Value),
    session.catalog.Holds m → session.Finds x Always (ResultMap.build session load depth m target values)
  | 0, _, _, _, _ => .throw trivial
  | depth + 1, m, target, values, hm => by
    unfold ResultMap.build
    refine (subject hc hm target values).bind fun found hnames => ?_
    split
    · exact .pure trivial
    · rename_i subject
      refine (assembleNested hc hload (fun child values hchild => build depth child none values hchild)
        m subject.object subject.key (hnames subject rfl)).bind fun _ _ => ?_
      exact .pure trivial

theorem readObject (hm : session.catalog.Holds m) (target : Option Value) {receive : Receiver}
    (hreceive : receive.Found x) :
    session.Finds x Always (session.readObject load m target receive) := by
  have hvalues : session.Finds x (fun found => ∀ read, found = some read → session.catalog.Holds read.1)
      (session.readValues load m) := by
    unfold readValues
    refine (followDiscriminators hc _ _ m hm).bind fun effective heffective => ?_
    refine (readRow hc hload heffective).bind fun values _ => ?_
    refine Keeps.bind (gets fun _ _ => trivial) fun found (_ : Always found) => .pure fun read hread => ?_
    split at hread
    · cases hread
      exact heffective
    · cases hread
  unfold Session.readObject
  refine hvalues.bind fun found hfound => ?_
  split
  · exact .pure trivial
  · rename_i effective values
    refine (build hc hload _ effective target values (hfound _ rfl)).bind fun built _ => ?_
    split
    · unfold emit
      exact Keeps.bind (modify (fun _ => rfl) fun _ => rfl) fun _ (_ : True) =>
        refused fun f e he => hreceive f.emitted.size e he
    · exact .pure trivial

omit hc hload in
theorem readRows {read : Run Frame Unit} (hread : session.Finds x Always read) :
    ∀ (rows skip : Nat) (left : Option Nat), session.Finds x Always (Session.readRows read rows skip left)
  | 0, _, _ => .pure trivial
  | rows + 1, skip, left => by
    unfold Session.readRows
    split
    · exact .pure trivial
    · refine nextRow.bind fun more _ => ?_
      split
      · split
        · exact readRows hread rows _ left
        · exact hread.bind fun _ _ => readRows hread rows 0 _
      · exact .pure trivial

/-! ## Requests -/

omit hc hload

/-- Only mappings of columns are ever installed in a request. -/
theorem openRows (m : ResultMap) (rows : RowSet) : session.Finds x Always (session.openRows m rows) := by
  have hstart : session.Finds x Always (Frame.updateRequest (·.start rows)) := by
    refine updateRequest fun f hf => ?_
    have hfound := f.request.found_start rows
    unfold Request.start at hfound ⊢
    split
    · exact ⟨hf.world, hf.columns⟩
    · rfl
  unfold Session.openRows
  refine hstart.bind fun _ _ => ?_
  unfold ResultMap.prepareAuto
  split
  · exact .pure trivial
  · refine Keeps.bind (gets fun _ _ => trivial) fun frame (_ : Always frame) => ?_
    have hderive : session.Finds x Always (Run.ofExcept (m.derive session.catalog frame.request)) :=
      ofExcept (frame.request.found_derive m _)
    split
    · rename_i hremap
      refine hderive.bind fun mappings _ => updateRequest fun f hf => ?_
      unfold Request.remap
      rw [if_pos hremap]
      exact ⟨hf.world, fun id => route_of_installed (hf.columns id) m.id mappings⟩
    · split
      · refine hderive.bind fun mappings _ => onWorld fun w hw => ?_
        exact ⟨⟨⟨hw.catalogs, hw.lazies⟩, hw.opened⟩, trivial, trivial⟩
      · exact .pure trivial

theorem bindParameter (statement : Statement) (parameter : Value) :
    session.Finds x Always (session.bindParameter statement parameter) := by
  unfold Session.bindParameter
  exact (modifyContext _).bind fun _ _ => read fun f => statement.found_bind _ _ _

theorem execute (op : Operation) : session.Finds x Always (execute op) := by
  unfold Session.execute
  refine (modifyContext _).bind fun _ _ => onWorld fun w hw => ?_
  refine ⟨⟨⟨hw.catalogs, hw.lazies⟩, hw.opened⟩, trivial, ?_⟩
  exact found_failed (w.database.found_execute w.store op)

theorem writeOutputs (statement : Statement) (parameter : Value) (outputs : Option OutParams) :
    session.Finds x Always (session.writeOutputs statement parameter outputs) := by
  unfold Session.writeOutputs
  split
  · exact (modifyContext _).bind fun _ _ => edit (.writeOutputs _ _ _ _)
  · exact .pure trivial

include hc hload in
theorem runStatement {statement : Statement} {id : String}
    (hid : session.catalog.statement id = .ok statement) (parameter : Value) (target : Option Value)
    (window : Window) {receive : Receiver} (hreceive : receive.Found x) :
    session.Finds x Always
      (session.runStatement load statement parameter target window receive) := by
  have hsubmit : session.Finds x (fun sent => ∀ m, sent.1 = some m → session.catalog.Holds m)
      (session.submit statement parameter) := by
    unfold submit
    refine (ofExcept statement.found_requireQuery).bind fun _ _ => ?_
    refine (ofExcept (found_statementResultMap hc hid)).bind fun found hfound => ?_
    refine Keeps.bind (modifyRequest fun _ => rfl) fun _ (_ : True) => ?_
    refine (bindParameter statement parameter).bind fun params _ => ?_
    exact (execute _).bind fun response _ => .pure hfound
  unfold Session.runStatement
  refine hsubmit.bind fun sent hsent => ?_
  refine Keeps.bind ?_ fun _ (_ : True) => writeOutputs _ _ _
  unfold readResponse
  split
  · rename_i rows m hrows hm
    refine (openRows m rows).bind fun _ _ => readRows ?_ _ _ _
    exact readObject hc hload (hsent m hm) target hreceive
  · exact .pure trivial

theorem runUpdate (statement : Statement) (parameter : Value) :
    session.Finds x Always (session.runUpdate statement parameter) := by
  unfold Session.runUpdate
  refine Keeps.bind (modifyRequest fun _ => rfl) fun _ (_ : True) => ?_
  refine (bindParameter statement parameter).bind fun params _ => ?_
  refine (execute _).bind fun response _ => ?_
  exact (writeOutputs _ _ _).bind fun _ _ => .pure trivial

end Finds

/-! ## Whole requests -/

/-- A query of a statement of the catalog looks nothing up in vain. -/
theorem query_finds (hc : session.catalog.Sound)
    (hload : ∀ (id : String) (parameter : Value) (target : DataType),
      session.catalog.Names (.nestedSelect id) → session.Loads x (load id parameter target))
    (hw : w.Serves session) {id : String} (hid : session.catalog.Names (.nestedSelect id))
    (parameter : Value) (target : Option Value) (window : Window) {receive : Receiver}
    (hreceive : receive.Found x) :
    (session.query load id parameter target window receive w).2.Serves session ∧
      Ends (Stop.Found x) Always (session.query load id parameter target window receive w).1.result := by
  obtain ⟨statement, hstatement⟩ := hid
  have hrun : session.Finds x Always (Run.mapError Frame.explain
      (session.runStatement load statement parameter target window receive)) :=
    .mapError (.runStatement hc hload hstatement parameter target window hreceive) Frame.dangles_explain
  obtain ⟨hs, -, ho⟩ := hrun { world := w } ⟨hw, nofun⟩
  unfold query
  rw [hstatement]
  exact ⟨hs.world, ho⟩

theorem collect_loads (hc : session.catalog.Sound)
    (hload : ∀ (id : String) (parameter : Value) (target : DataType),
      session.catalog.Names (.nestedSelect id) → session.Loads x (load id parameter target))
    {id : String} (hid : session.catalog.Names (.nestedSelect id)) (parameter : Value)
    (target : Option Value) (window : Window) {receive : Receiver}
    (hreceive : receive.Found x) :
    session.Loads x (session.collect load id parameter target window receive) := by
  intro w hw
  obtain ⟨hs, ho⟩ := query_finds hc hload hw hid parameter target window hreceive
  refine ⟨hs, trivial, ?_⟩
  show Ends (Stop.Found x) Always ((session.query load id parameter target window receive w).1.result.map _)
  cases hresult : (session.query load id parameter target window receive w).1.result with
  | error stop =>
    rw [hresult] at ho
    exact ho
  | ok _ => trivial

/-- Nested selects of any depth look nothing up in vain. -/
theorem load_loads (hc : session.catalog.Sound) : ∀ (depth : Nat) (id : String) (parameter : Value)
    (target : DataType), session.catalog.Names (.nestedSelect id) →
      session.Loads x (session.load depth id parameter target)
  | 0, _, _, _, _ => .throw trivial
  | depth + 1, id, parameter, target, hid => by
    have hcollect : ∀ receive : Receiver, receive.Found x →
        session.Loads x (session.collect (session.load depth) id parameter none {} receive) :=
      fun receive hreceive => collect_loads hc (load_loads hc depth) hid parameter none {} hreceive
    unfold load
    dsimp only
    split
    · refine (hcollect .any Receiver.found_any).bind fun items _ => ?_
      split
      · exact Loads.gets _
      · exact .pure trivial
    · exact (hcollect .single Receiver.found_single).bind fun items _ => .pure trivial

/-- An update of a statement of the catalog looks nothing up in vain. -/
theorem update_loads {id : String} (hid : session.catalog.Names (.nestedSelect id))
    (parameter : Value) : session.Loads x (session.update id parameter) := by
  obtain ⟨statement, hstatement⟩ := hid
  have hrun : session.Finds x Always
      (Run.mapError Frame.explain (session.runUpdate statement parameter)) :=
    .mapError (.runUpdate statement parameter) Frame.dangles_explain
  intro w hw
  obtain ⟨hs, -, ho⟩ := hrun { world := w } ⟨hw, nofun⟩
  unfold update
  rw [run_step, hstatement]
  exact ⟨hs.world, trivial, ho⟩

end RowMapper.Session
