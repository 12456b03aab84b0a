/-
Runs on a catalog whose references all name something. Of a session of such a catalog every look-up
that the engine makes succeeds: those of sub-maps, nested maps and nested selects, of the maps and
result classes of statements, and of statements that were put off, since a lazy value names a statement
of its session (`World.Sound`).
-/
import RowMapper.Proofs.Catalog.Nesting
import RowMapper.Proofs.Engine.Mappings
import RowMapper.Proofs.Engine.Row
import RowMapper.Proofs.References.Edits

namespace RowMapper

variable {α β σ : Type} {x : Prop}

/-- A stop that tells of a failed look-up only if `x` holds. -/
def Stop.Found (x : Prop) : Stop → Prop
  | .failed e => e.dangles = true → x
  | .exhausted => True

theorem Stop.found_failed {e : Error} (h : e.dangles = false) : Stop.Found x (.failed e) := by
  intro hd
  cases h.symm.trans hd

/-- The errors of a receiver tell of a failed look-up only if `x` holds. -/
def Receiver.Found (receive : Receiver) (x : Prop) : Prop :=
  ∀ count e, receive count = .error e → e.dangles = true → x

theorem Receiver.found_any : Receiver.any.Found x := nofun

theorem Receiver.found_single : Receiver.single.Found x := by
  intro count e he
  unfold Receiver.single at he
  split at he
  · cases he
    exact nofun
  · cases he

/-! ## Invariants -/

/-- A catalog by id whose references all name something. -/
structure Catalog.Sound (c : Catalog) : Prop where
  resolved : c.Resolved
  indexed : Table.Indexed Statement.id c.statements

/-- The map is one of the catalog. -/
def Catalog.Holds (c : Catalog) (m : ResultMap) : Prop := ∃ id, c.resultMap id = .ok m

/-- What the mappings refer to is in the catalog. -/
def Catalog.NamesAll (c : Catalog) (mappings : List ResultMapping) : Prop :=
  ∀ mapping ∈ mappings, c.Names mapping.route

/-- The catalogs of all sessions are sound, and a lazy value is of a statement of its session. -/
structure World.Sound (w : World) : Prop where
  catalogs : ∀ c ∈ w.catalogs, c.Sound
  lazies : ∀ cell ∈ w.store.lazies, ∃ session, w.session? cell.query.session = some session ∧
    session.catalog.Names (.nestedSelect cell.query.statement)

/-- A session of a sound state. -/
structure World.Serves (w : World) (session : Session) : Prop extends w.Sound where
  opened : w.session? session.number = some session

/-- A request of a session, in which no mappings but those of columns are installed. -/
structure Frame.Serves (f : Frame) (session : Session) : Prop where
  world : f.world.Serves session
  columns : ∀ id mappings, Table.get? id f.request.mappings = some mappings →
    ∀ mapping ∈ mappings, mapping.route = .column

theorem World.Sound.session {w : World} (h : w.Sound) {number : Nat} {session : Session}
    (hs : w.session? number = some session) : session.number = number ∧ session.catalog.Sound := by
  unfold World.session? at hs
  obtain ⟨catalog, hc, rfl⟩ := Option.map_eq_some_iff.1 hs
  exact ⟨rfl, h.catalogs _ (List.mem_of_getElem? hc)⟩

/-- A run on the shared state that looks something up in vain only if `x` holds. -/
abbrev Session.Loads (session : Session) (x : Prop) (run : Run World α) : Prop :=
  Keeps (World.Serves · session) Anyhow (Stop.Found x) Always run

/-- A run of a request that looks something up in vain only if `x` holds, and what it gives. -/
abbrev Session.Finds (session : Session) (x : Prop) (Q : α → Prop) (run : Run Frame α) : Prop :=
  Keeps (Frame.Serves · session) Anyhow (Stop.Found x) Q run

theorem found_failed {Q : α → Prop} {outcome : Except Error α}
    (h : Ends (fun e => e.dangles = false) Q outcome) : Ends (Stop.Found x) Q (outcome.mapError .failed) := by
  cases outcome with
  | error e => exact Stop.found_failed h
  | ok a => exact h

namespace Session

variable {session : Session} {load : Load} {m : ResultMap} {f : Frame} {Q : α → Prop}

/-- The shared state may change as long as catalogs stay and lazy values are of statements. -/
theorem serves_store {w : World} (h : w.Serves session) {store : Store}
    (hl : w.store.SameLazies store) : World.Serves { w with store } session where
  catalogs := h.catalogs
  lazies cell hcell := h.lazies cell (hl ▸ hcell)
  opened := h.opened

namespace Loads

theorem edit {edit : Edit α} (h : edit.Finds) : session.Loads x (World.edit edit) := by
  intro w hw
  obtain ⟨-, hl, ho⟩ := h w.store trivial
  exact ⟨serves_store hw hl, trivial, found_failed ho⟩

theorem gets (g : World → α) : session.Loads x (Run.gets g) := fun _ hw => ⟨hw, trivial, trivial⟩

theorem calls {g : World → List LoaderCall} :
    session.Loads x (Run.modify fun w => { w with calls := g w }) :=
  fun _ hw => ⟨⟨⟨hw.catalogs, hw.lazies⟩, hw.opened⟩, trivial, trivial⟩

/-- A lazy value is made for a statement of the session. -/
theorem newLazy {id : String} (hid : session.catalog.Names (.nestedSelect id)) (parameter : Value)
    (target : DataType) :
    session.Loads x (World.edit (Edit.make fun s =>
      .ok (Value.lazy (s.newLazy { session := session.number, statement := id, parameter, target }).1,
        (s.newLazy { session := session.number, statement := id, parameter, target }).2))) := by
  intro w hw
  refine ⟨⟨⟨hw.catalogs, fun cell hcell => ?_⟩, hw.opened⟩, trivial, trivial⟩
  replace hcell : cell ∈ w.store.lazies.push
    { query := { session := session.number, statement := id, parameter, target } } := hcell
  rcases Array.mem_push.1 hcell with hold | rfl
  · exact hw.lazies cell hold
  · exact ⟨session, hw.opened, hid⟩

end Loads

namespace Finds

/-! ### Steps -/

theorem ofExcept {outcome : Except Error α} (h : Ends (fun e => e.dangles = false) Q outcome) :
    session.Finds x Q (Run.ofExcept outcome) := fun _ hf => ⟨hf, trivial, found_failed h⟩

theorem gets {g : Frame → α} (h : ∀ f : Frame, f.Serves session → Q (g f)) :
    session.Finds x Q (Run.gets g) := fun f hf => ⟨hf, trivial, h f hf⟩

theorem read {g : Frame → Except Error α} (h : ∀ f, Found (g f)) :
    session.Finds x Always (Run.read g) := fun f hf => ⟨hf, trivial, found_failed (h f)⟩

/-- A step that may look something up in vain if `x` holds. -/
theorem refused {g : Frame → Except Error α}
    (h : ∀ f e, g f = .error e → e.dangles = true → x) : session.Finds x Always (Run.read g) := by
  intro f hf
  refine ⟨hf, trivial, ?_⟩
  show Ends (Stop.Found x) Always ((g f).mapError .failed)
  cases hg : g f with
  | error e => exact h f e hg
  | ok a => trivial

theorem modify {g : Frame → Frame} (hw : ∀ f, (g f).world = f.world)
    (hm : ∀ f, (g f).request.mappings = f.request.mappings) : session.Finds x Always (Run.modify g) := by
  intro f hf
  refine ⟨⟨?_, ?_⟩, trivial, trivial⟩
  · show (g f).world.Serves session
    rw [hw]
    exact hf.world
  · show ∀ id mappings, Table.get? id (g f).request.mappings = some mappings → _
    rw [hm]
    exact hf.columns

theorem modifyRequest {g : Request → Request} (hm : ∀ r, (g r).mappings = r.mappings) :
    session.Finds x Always (Frame.modifyRequest g) := modify (fun _ => rfl) fun f => hm f.request

theorem modifyContext (g : ErrorContext → ErrorContext) :
    session.Finds x Always (Frame.modifyContext g) := modifyRequest fun _ => rfl

theorem onWorld {run : Run World α} (h : session.Loads x run) :
    session.Finds x Always (Frame.onWorld run) := by
  intro f hf
  obtain ⟨hw, -, ho⟩ := h f.world hf.world
  exact ⟨⟨hw, hf.columns⟩, trivial, ho⟩

theorem edit {edit : Edit α} (h : edit.Finds) : session.Finds x Always (Frame.edit edit) :=
  onWorld (.edit h)

theorem updateRequest {g : Request → Except Error Request} (h : ∀ f : Frame, f.Serves session →
      Ends (fun e => e.dangles = false) (fun r => ({ f with request := r } : Frame).Serves session)
        (g f.request)) : session.Finds x Always (Frame.updateRequest g) := by
  intro f hf
  have hg := h f hf
  cases hr : g f.request with
  | error e =>
    rw [hr] at hg
    rw [run_updateRequest_error g f hr]
    exact ⟨hf, trivial, Stop.found_failed hg⟩
  | ok r =>
    rw [hr] at hg
    rw [run_updateRequest_ok g f hr]
    exact ⟨hg, trivial, trivial⟩

theorem onRows {g : RowSet → Except Error α × RowSet} (h : ∀ rows, Found (g rows).1) :
    session.Finds x Always (Frame.onRows g) := by
  intro f hf
  cases hr : f.request.rowSetToRead with
  | error e =>
    have hfound := f.request.found_rowSetToRead
    rw [hr] at hfound
    rw [run_onRows_error hr]
    exact ⟨hf, trivial, Stop.found_failed hfound⟩
  | ok rows =>
    rw [run_onRows_ok hr]
    exact ⟨⟨hf.world, hf.columns⟩, trivial, found_failed (h rows)⟩

theorem column (c : Coercer) (column : Column) : session.Finds x Always (Frame.readColumn c column) :=
  onRows fun rows => c.found_readColumn rows column

theorem nextRow : session.Finds x Always Frame.nextRow := onRows fun _ => trivial

theorem mapError {g : Frame → Error → Error} {run : Run Frame α} (h : session.Finds x Q run)
    (hg : ∀ f e, (g f e).dangles = e.dangles) : session.Finds x Q (Run.mapError g run) := by
  intro f hf
  obtain ⟨hs, -, ho⟩ := h f hf
  rw [run_mapError]
  refine ⟨hs, trivial, ?_⟩
  rcases hrun : (run.run f).1 with (e | _) | a <;> rw [hrun] at ho
  · exact fun hd => ho ((hg _ e).symm.trans hd)
  · trivial
  · exact ho

/-! ### Columns -/

theorem readColumn (mapping : ResultMapping) : session.Finds x Always mapping.readColumn := by
  unfold ResultMapping.readColumn
  split
  · exact .throw nofun
  · rename_i c _
    refine (column c _).bind fun v _ => ?_
    split
    · split
      · exact ofExcept (c.found_valueOf _)
      · exact .pure trivial
    · exact .pure trivial

variable (hc : session.catalog.Sound)

include hc in
/-- A discriminator leads to maps of the catalog. -/
theorem followDiscriminators : ∀ (steps : Nat) (passed : List String) (m : ResultMap),
    session.catalog.Holds m →
      session.Finds x session.catalog.Holds (m.followDiscriminators session.catalog steps passed)
  | 0, _, _, hm => .pure hm
  | steps + 1, passed, m, hm => by
    unfold ResultMap.followDiscriminators
    split
    · exact .pure hm
    · rename_i d hd
      have hvalue : session.Finds x Always d.value :=
        (readColumn d.mapping).bind fun v _ => gets fun _ _ => trivial
      refine hvalue.bind fun value _ => ?_
      split
      · exact .pure hm
      · rename_i id hid
        split
        · exact .pure hm
        · obtain ⟨own, hown⟩ := hm
          obtain ⟨next, hnext⟩ := hc.resolved.subMaps _
            (Table.mem_of_get? (Catalog.resultMap_ok_iff.1 hown)) d hd _ (Table.mem_of_get? hid)
          have hheld : Ends (fun e => e.dangles = false) session.catalog.Holds
              (session.catalog.resultMap id) := by
            rw [hnext]
            exact ⟨id, hnext⟩
          exact (ofExcept hheld).bind fun next hheld => followDiscriminators steps _ next hheld

/-! ### Nested selects -/

theorem objectParameter (mapping : ResultMapping) (catalog : Catalog) (type : DataType) :
    session.Finds x Always (mapping.objectParameter catalog type) := by
  unfold ResultMapping.objectParameter
  refine (edit (.instantiate type)).bind fun parameter _ => ?_
  split
  · refine Keeps.bind (.forM fun pair _ => ?_) fun _ _ => .pure trivial
    refine (read fun f => catalog.accessor.found_setterType _ parameter _).bind fun declared _ => ?_
    exact (column _ _).bind fun v _ => edit (.set _ _ _ _)
  · exact column _ _

theorem domParameter (mapping : ResultMapping) (catalog : Catalog) :
    session.Finds x Always (mapping.domParameter catalog) := by
  unfold ResultMapping.domParameter
  refine (Keeps.mapM fun entry _ => ?_).bind fun texts (_ : ∀ text ∈ texts, Always text) =>
    edit (.newObject _)
  exact (column _ _).bind fun v _ => Keeps.bind (gets fun _ _ => trivial) fun text (_ : Always text) =>
    .pure trivial

theorem selectParameter (mapping : ResultMapping) (catalog : Catalog) (statement : Statement) :
    session.Finds x Always (mapping.selectParameter catalog statement) := by
  unfold ResultMapping.selectParameter
  split
  · exact objectParameter _ _ _
  · split
    · exact column _ _
    · split
      · exact domParameter _ _
      · exact objectParameter _ _ _

/-! ### Rows -/

include hc in
/-- The mappings that a map of the catalog is read with refer to what is there. -/
theorem names_of_mappings (hm : session.catalog.Holds m) (hf : f.Serves session) :
    session.catalog.NamesAll (f.mappings m) := by
  intro mapping hmem
  rcases Frame.mem_mappings hmem with hknown | ⟨installed, hg, hinstalled⟩
  · rcases World.mem_declaredMappings hknown with hdeclared | ⟨_, _, _, -, -, -, rfl⟩
    · obtain ⟨id, hid⟩ := hm
      exact hc.resolved.routes _ (Table.mem_of_get? (Catalog.resultMap_ok_iff.1 hid)) mapping hdeclared
    · trivial
  · rw [hf.columns _ _ hg _ hinstalled]
    trivial

include hc in
theorem found_statementResultMap {statement : Statement} {id : String}
    (hid : session.catalog.statement id = .ok statement) :
    Ends (fun e => e.dangles = false) (fun found => ∀ m, found = some m → session.catalog.Holds m)
      (session.catalog.statementResultMap statement) := by
  unfold Catalog.statementResultMap
  split
  · rename_i map hmap
    obtain ⟨m, hm⟩ := hc.resolved.statements _
      (Table.mem_of_get? (Catalog.statement_ok_iff.1 hid)) map hmap
    rw [hm]
    intro n hn
    cases hn
    exact ⟨map, hm⟩
  · intro n hn
    cases hn

section Loading

variable (hload : ∀ (id : String) (parameter : Value) (target : DataType),
  session.catalog.Names (.nestedSelect id) → session.Loads x (load id parameter target))

include hload in
theorem loadResult {id : String} (hid : session.catalog.Names (.nestedSelect id)) (parameter : Value)
    (target : DataType) : session.Loads x (session.loadResult load id parameter target) := by
  unfold Session.loadResult
  split
  · exact Loads.calls.bind fun _ _ => .pure trivial
  · split
    · exact .newLazy hid parameter target
    · exact hload id parameter target hid

include hc hload

/-- The statement of a nested select is there, and so is the map of its rows. -/
theorem readSelect (m : ResultMap) (mapping : ResultMapping) {id : String}
    (hid : session.catalog.Names (.nestedSelect id)) :
    session.Finds x Always (m.readSelect session load mapping id) := by
  obtain ⟨statement, hstatement⟩ := hid
  have hown : statement.id = id := Catalog.statement_id hc.indexed hstatement
  have hclass : Found (session.catalog.statementResultClass statement) := by
    have hmap := found_statementResultMap hc hstatement
    unfold Catalog.statementResultClass
    cases hfound : session.catalog.statementResultMap statement with
    | error e =>
      rw [hfound] at hmap
      exact hmap
    | ok found => cases found <;> trivial
  unfold ResultMap.readSelect
  dsimp only
  rw [hstatement]
  have hread : session.Finds x (· = statement) (Run.ofExcept (.ok statement)) := ofExcept rfl
  refine hread.bind fun s hs => ?_
  subst hs
  refine (ofExcept (m.found_selectTarget mapping)).bind fun target _ => ?_
  refine (selectParameter _ _ _).bind fun parameter _ => ?_
  split
  · exact .pure trivial
  · refine (ofExcept hclass).bind fun type _ => ?_
    refine (onWorld (loadResult hload ⟨s, hown ▸ hstatement⟩ _ _)).bind fun v _ => ?_
    split
    · split
      · exact ofExcept (Coercer.found_valueOf _ _)
      · exact .pure trivial
    · exact .pure trivial

theorem readMapping (m : ResultMap) {mapping : ResultMapping}
    (hroute : session.catalog.Names mapping.route) :
    session.Finds x Always (m.readMapping session load mapping) := by
  unfold ResultMap.readMapping
  refine (modifyContext _).bind fun _ _ => ?_
  split
  · rename_i id hselect
    rw [hselect] at hroute
    exact readSelect hc hload m mapping hroute
  · exact .pure trivial
  · exact readColumn mapping

theorem readRow (hm : session.catalog.Holds m) :
    session.Finds x Always (m.readRow session load) := by
  unfold ResultMap.readRow
  refine (modifyContext _).bind fun _ _ => (gets fun f hf => names_of_mappings hc hm hf).bind
    fun mappings hnames => ?_
  have hvalues : session.Finds x (fun values => ∀ v ∈ values, Always v)
      (mappings.mapM (m.readMapping session load)) :=
    .mapM fun mapping hmem => readMapping hc hload m (hnames mapping hmem)
  refine hvalues.bind fun values _ => ?_
  exact Keeps.bind (modifyRequest fun _ => rfl) fun _ (_ : True) => .pure trivial

end Loading

end Finds

end Session

end RowMapper
