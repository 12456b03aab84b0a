/-
What stays while one row is read and assembled: the rows, the mappings that are installed in the
request, and between two steps the marks of the objects that are being assembled (`Frame.Steady`). Only
the cursor leaves a row, and a mark that is set for the nested elements of an object is taken away behind
them, whether they fail or not.
-/
import RowMapper.Engine.Assembly
import RowMapper.Proofs.Engine.Keeps
import RowMapper.Proofs.Rows.Cells

namespace RowMapper

variable {α : Type} {x : Prop}

/-- The row that a request is on, as far as reading it goes. -/
def Request.row (r : Request) : Phase × Option (List String × Option (List Value)) :=
  (r.phase, r.rows.map fun rows => (rows.columns, rows.current))

/-- What goes on, from one state to the next, while objects are changed and loaders called. -/
class World.Lasts (R : World → World → Prop) : Prop extends Std.Refl R, IsTrans World R where
  store : ∀ (w : World) (store : Store), R w { w with store }
  calls : ∀ (w : World) (calls : List LoaderCall), R w { w with calls }

/-- Any two states. -/
abbrev World.Any (_ _ : World) : Prop := True

instance : World.Lasts World.Any where
  refl _ := trivial
  trans _ _ _ _ _ := trivial
  store _ _ := trivial
  calls _ _ := trivial

/-- The rows, the marks and the installed mappings are the same, and the shared state went along a
relation. -/
structure Frame.SteadyAlong (R : World → World → Prop) (f g : Frame) : Prop where
  row : g.request.row = f.request.row
  cells : g.request.rows.map RowSet.cells = f.request.rows.map RowSet.cells
  marks : g.request.assembling = f.request.assembling
  mappings : g.request.mappings = f.request.mappings
  world : R f.world g.world

/-- The rows, the marks and the installed mappings are the same. -/
abbrev Frame.Steady : Frame → Frame → Prop := Frame.SteadyAlong World.Any

section

variable {R : World → World → Prop} [World.Lasts R]

instance : Std.Refl (Frame.SteadyAlong R) := ⟨fun f => ⟨rfl, rfl, rfl, rfl, Std.Refl.refl f.world⟩⟩

instance : IsTrans Frame (Frame.SteadyAlong R) :=
  ⟨fun _ _ _ h h' => ⟨h'.row.trans h.row, h'.cells.trans h.cells, h'.marks.trans h.marks,
    h'.mappings.trans h.mappings, IsTrans.trans _ _ _ h.world h'.world⟩⟩

end

/-- A run that keeps the row, the marks and the installed mappings, takes the shared state along a
relation, and runs out of a bound only if `x` holds. -/
abbrev OnRow (R : World → World → Prop) (x : Prop) (run : Run Frame α) : Prop :=
  Keeps (fun _ => True) (Frame.SteadyAlong R) (Stop.Allowed x) Always run

/-- A run on the shared state, along a relation, that runs out of a bound only if `x` holds. -/
abbrev Bounded (R : World → World → Prop) (x : Prop) (run : Run World α) : Prop :=
  Keeps (fun _ => True) R (Stop.Allowed x) Always run

theorem bounded_true (run : Run World α) : Bounded World.Any True run := by
  intro w _
  refine ⟨trivial, trivial, ?_⟩
  rcases (run.run w).1 with (e | _) | a <;> trivial

theorem run_onRows_ok {f : RowSet → Except Error α × RowSet} {frame : Frame} {rows : RowSet}
    (h : frame.request.rowSetToRead = .ok rows) :
    (Frame.onRows f).run frame = ((f rows).1.mapError .failed,
      { frame with request := { frame.request with rows := some (f rows).2 } }) := by
  rw [Frame.onRows, run_step, h]

theorem run_onRows_error {f : RowSet → Except Error α × RowSet} {frame : Frame} {e : Error}
    (h : frame.request.rowSetToRead = .error e) :
    (Frame.onRows f).run frame = (.error (.failed e), frame) := by
  rw [Frame.onRows, run_step, h]

theorem run_edit (edit : Edit α) (f : Frame) : (Frame.edit edit).run f =
    ((edit.run f.world.store).1.mapError .failed,
      { f with world := { f.world with store := (edit.run f.world.store).2 } }) := rfl

theorem run_edit_eq_ok {edit : Edit α} {f g : Frame} {a : α} :
    (Frame.edit edit).run f = (.ok a, g) ↔ ∃ s, edit.run f.world.store = (.ok a, s) ∧
      g = { f with world := { f.world with store := s } } := by
  rw [run_edit]
  rcases edit.run f.world.store with ⟨e | b, s⟩
  · exact ⟨nofun, nofun⟩
  · refine ⟨fun h => ?_, fun ⟨t, h, hg⟩ => ?_⟩
    · cases h; exact ⟨s, rfl, rfl⟩
    · cases h; rw [hg]; rfl

theorem run_updateRequest_ok (f : Request → Except Error Request) (frame : Frame) {r : Request}
    (h : f frame.request = .ok r) :
    (Frame.updateRequest f).run frame = (.ok (), { frame with request := r }) := by
  rw [Frame.updateRequest, run_step, h]

theorem run_updateRequest_error (f : Request → Except Error Request) (frame : Frame) {e : Error}
    (h : f frame.request = .error e) :
    (Frame.updateRequest f).run frame = (.error (.failed e), frame) := by
  rw [Frame.updateRequest, run_step, h]

theorem run_updateRequest_eq_ok {f : Request → Except Error Request} {frame g : Frame}
    (h : (Frame.updateRequest f).run frame = (.ok (), g)) :
    ∃ r, f frame.request = .ok r ∧ g = { frame with request := r } := by
  cases hr : f frame.request with
  | error e =>
    rw [run_updateRequest_error f frame hr] at h
    cases h
  | ok r =>
    rw [run_updateRequest_ok f frame hr] at h
    cases h
    exact ⟨r, rfl, rfl⟩

theorem Request.rows_of_rowSetToRead {r : Request} {rows : RowSet}
    (h : r.rowSetToRead = .ok rows) : r.rows = some rows := by
  unfold Request.rowSetToRead at h
  split at h <;> cases h
  assumption

/-! ## Columns -/

section Columns

variable {I : Frame → Prop} {S : Frame → Frame → Prop} [Std.Refl S] [IsTrans Frame S]

/-- What reading a column keeps. -/
theorem ResultMapping.keeps_readColumn (mapping : ResultMapping)
    (hcolumn : ∀ c column, Keeps I S (Stop.Allowed x) Always (Frame.readColumn c column)) :
    Keeps I S (Stop.Allowed x) Always mapping.readColumn := by
  unfold readColumn
  split
  · exact .throw trivial
  · refine (hcolumn _ _).bind fun v _ => ?_
    split
    · split
      · exact .ofExcept fun _ _ => trivial
      · exact .pure trivial
    · exact .pure trivial

/-- What reading columns keeps, choosing the map for a row keeps. -/
theorem ResultMap.keeps_followDiscriminators
    (hcolumn : ∀ c column, Keeps I S (Stop.Allowed x) Always (Frame.readColumn c column))
    (catalog : Catalog) : ∀ (steps : Nat) (passed : List String) (m : ResultMap),
      Keeps I S (Stop.Allowed x) Always (m.followDiscriminators catalog steps passed)
  | 0, _, _ => .pure trivial
  | steps + 1, passed, m => by
    unfold followDiscriminators
    split
    · exact .pure trivial
    · rename_i d _
      unfold Discriminator.value
      refine Keeps.bind (Keeps.bind (d.mapping.keeps_readColumn hcolumn) fun v _ =>
        Keeps.gets (f := fun frame : Frame => frame.world.store.text v) fun _ _ => trivial)
        fun value (_ : Always value) => ?_
      split
      · exact .pure trivial
      · split
        · exact .pure trivial
        · refine (Keeps.ofExcept (Q := Always) fun _ _ => trivial).bind fun next _ => ?_
          exact keeps_followDiscriminators hcolumn catalog steps _ next

theorem ResultMap.keeps_resolveSubMap (m : ResultMap)
    (hcolumn : ∀ c column, Keeps I S (Stop.Allowed x) Always (Frame.readColumn c column))
    (catalog : Catalog) : Keeps I S (Stop.Allowed x) Always (m.resolveSubMap catalog) :=
  keeps_followDiscriminators hcolumn catalog _ _ m

end Columns

namespace OnRow

variable {R : World → World → Prop} [World.Lasts R]

/-! ## Steps -/

omit [World.Lasts R] in
theorem onWorld {run : Run World α} (h : Bounded R x run) : OnRow R x (Frame.onWorld run) :=
  h.within (fun _ _ => trivial) fun _ _ _ _ hr => ⟨trivial, rfl, rfl, rfl, rfl, hr⟩

theorem bounded_edit (edit : Edit α) : Bounded R x (World.edit edit) := by
  refine Keeps.edit (J := fun _ => True) (S := fun _ _ => True) (fun s _ => ?_)
    (fun _ _ => trivial) fun w store _ _ _ => ⟨trivial, World.Lasts.store w store⟩
  refine ⟨trivial, trivial, ?_⟩
  rcases (edit.run s).1 with e | a <;> trivial

theorem edit (edit : Edit α) : OnRow R x (Frame.edit edit) := onWorld (bounded_edit edit)

theorem modifyRequest {f : Request → Request}
    (h : ∀ r, (f r).row = r.row ∧ (f r).rows = r.rows ∧ (f r).assembling = r.assembling ∧
      (f r).mappings = r.mappings) : OnRow R x (Frame.modifyRequest f) :=
  .modify fun f _ => ⟨trivial, (h _).1, congrArg _ (h _).2.1, (h _).2.2.1, (h _).2.2.2,
    Std.Refl.refl f.world⟩

theorem modifyContext (f : ErrorContext → ErrorContext) : OnRow R x (Frame.modifyContext f) :=
  modifyRequest fun _ => ⟨rfl, rfl, rfl, rfl⟩

/-- Reading a column leaves the cursor where it is. -/
theorem row_readColumn (c : Coercer) (rows : RowSet) (column : Column) :
    (c.readColumn rows column).2.columns = rows.columns ∧
      (c.readColumn rows column).2.current = rows.current := by
  unfold Coercer.readColumn RowSet.read
  cases rows.value column <;> exact ⟨rfl, rfl⟩

theorem column (c : Coercer) (column : Column) : OnRow R x (Frame.readColumn c column) := by
  intro f _
  cases hr : f.request.rowSetToRead with
  | error e => rw [Frame.readColumn, run_onRows_error hr]; exact ⟨trivial, Std.Refl.refl f, trivial⟩
  | ok rows =>
    rw [Frame.readColumn, run_onRows_ok hr]
    have hrows := Request.rows_of_rowSetToRead hr
    obtain ⟨h1, h2⟩ := row_readColumn c rows column
    refine ⟨trivial, ⟨?_, ?_, rfl, rfl, Std.Refl.refl f.world⟩, .mapError fun _ _ => trivial⟩
    · simp only [Request.row, hrows, Option.map_some, h1, h2]
    · rw [hrows]
      exact congrArg some (Coercer.readColumn_cells c rows column)

/-! ## Steps in sequence -/

theorem pure {a : α} : OnRow R x (Pure.pure a) := Keeps.pure trivial

theorem bind {β : Type} {run : Run Frame α} {f : α → Run Frame β} (h : OnRow R x run)
    (hf : ∀ a, OnRow R x (f a)) : OnRow R x (run >>= f) := Keeps.bind h fun a _ => hf a

theorem mapM {β : Type} {xs : List α} {f : α → Run Frame β} (h : ∀ a, OnRow R x (f a)) :
    OnRow R x (xs.mapM f) := (Keeps.mapM fun a _ => h a).always

theorem ofExcept {outcome : Except Error α} : OnRow R x (Run.ofExcept outcome) :=
  Keeps.ofExcept fun _ _ => trivial

theorem gets {f : Frame → α} : OnRow R x (Run.gets f) := Keeps.gets fun _ _ => trivial

theorem read {f : Frame → Except Error α} : OnRow R x (Run.read f) :=
  Keeps.read fun _ _ _ _ => trivial

/-! ## Reading -/

theorem readColumn (mapping : ResultMapping) : OnRow R x mapping.readColumn :=
  mapping.keeps_readColumn column

theorem objectParameter (mapping : ResultMapping) (catalog : Catalog) (type : DataType) :
    OnRow R x (mapping.objectParameter catalog type) := by
  unfold ResultMapping.objectParameter
  refine bind (edit _) fun parameter => ?_
  split
  · refine bind (.forM fun pair _ => ?_) fun _ => pure
    exact bind read fun declared => bind (column _ _) fun v => edit _
  · exact column _ _

theorem domParameter (mapping : ResultMapping) (catalog : Catalog) :
    OnRow R x (mapping.domParameter catalog) := by
  unfold ResultMapping.domParameter
  refine bind (mapM fun entry => ?_) fun texts => edit _
  exact bind (column _ _) fun v => bind gets fun text => pure

theorem selectParameter (mapping : ResultMapping) (catalog : Catalog) (statement : Statement) :
    OnRow R x (mapping.selectParameter catalog statement) := by
  unfold ResultMapping.selectParameter
  split
  · exact objectParameter _ _ _
  · split
    · exact column _ _
    · split
      · exact domParameter _ _
      · exact objectParameter _ _ _

theorem collectionType (mapping : ResultMapping) (accessor : Accessor) (parent : Value) :
    OnRow R x (mapping.collectionType accessor parent) := by
  unfold ResultMapping.collectionType
  split
  · exact pure
  · exact read

theorem resolveSubMap (m : ResultMap) (catalog : Catalog) : OnRow R x (m.resolveSubMap catalog) :=
  m.keeps_resolveSubMap column catalog

variable {session : Session} {load : Load}

theorem bounded_loadResult (hload : ∀ id parameter target, Bounded R x (load id parameter target))
    (statement : String) (parameter : Value) (target : DataType) :
    Bounded R x (session.loadResult load statement parameter target) := by
  unfold Session.loadResult
  split
  · exact Keeps.bind (.modify fun w _ => ⟨trivial, World.Lasts.calls w _⟩) fun _ _ => .pure trivial
  · split
    · exact bounded_edit _
    · exact hload _ _ _

section Reading

variable (hload : ∀ id parameter target, Bounded R x (load id parameter target))

include hload

theorem readSelect (m : ResultMap) (mapping : ResultMapping) (statement : String) :
    OnRow R x (m.readSelect session load mapping statement) := by
  unfold ResultMap.readSelect
  refine bind ofExcept fun statement => bind ofExcept fun target => ?_
  refine bind (selectParameter _ _ _) fun parameter => ?_
  split
  · exact pure
  · refine bind ofExcept fun type => ?_
    refine bind (onWorld (bounded_loadResult hload _ _ _)) fun v => ?_
    split
    · split
      · exact ofExcept
      · exact pure
    · exact pure

theorem readMapping (m : ResultMap) (mapping : ResultMapping) :
    OnRow R x (m.readMapping session load mapping) := by
  unfold ResultMap.readMapping
  refine bind (modifyContext _) fun _ => ?_
  split
  · exact readSelect hload _ _ _
  · exact pure
  · exact readColumn _

theorem readRow (m : ResultMap) : OnRow R x (m.readRow session load) := by
  unfold ResultMap.readRow
  refine bind (modifyContext _) fun _ => bind gets fun mappings => ?_
  refine bind (mapM fun mapping => readMapping hload m mapping) fun values => ?_
  exact bind (modifyRequest fun _ => ⟨rfl, rfl, rfl, rfl⟩) fun _ => pure

theorem readElement (mapping : ResultMapping) (childId : String) (parent : Value) :
    OnRow R x (readElement session load mapping childId parent) := by
  unfold RowMapper.readElement
  refine bind ofExcept fun child => bind (collectionType _ _ _) fun type => ?_
  exact bind (edit _) fun _ => bind (readRow hload child) fun values => bind gets fun found => pure

end Reading

/-! ## Assembling -/

theorem remember (resultMap : String) (key : Option String) (object : Value) :
    OnRow R x (Frame.remember resultMap key object) := by
  unfold Frame.remember
  split
  · exact modifyRequest fun _ => ⟨rfl, rfl, rfl, rfl⟩
  · exact pure

theorem buildNew (m : ResultMap) (mappings : List ResultMapping) (target : Option Value)
    (values : List Value) (key : Option String) :
    OnRow R x (m.buildNew session mappings target values key) := by
  unfold ResultMap.buildNew
  exact bind (edit _) fun object => bind (remember _ _ _) fun _ => pure

theorem subject (m : ResultMap) (target : Option Value) (values : List Value) :
    OnRow R x (m.subject session target values) := by
  unfold ResultMap.subject
  refine bind gets fun mappings => bind gets fun key => bind gets fun request => ?_
  split
  · exact pure
  · split
    · exact pure
    · exact bind (buildNew _ _ _ _ _) fun object => pure

/-- A nested element is built on the row, if the nested map is. -/
theorem nestedElement {build : Build} (hload : ∀ id parameter target, Bounded R x (load id parameter target))
    (hb : ∀ m values, OnRow R x (build m values)) (mapping : ResultMapping) (childId : String)
    (parent : Value) : OnRow R x (nestedElement session load build mapping childId parent) := by
  unfold RowMapper.nestedElement
  refine bind (readElement hload _ _ _) fun element => ?_
  split
  · exact pure
  · refine bind (hb _ _) fun v => ?_
    split
    · exact pure
    · exact edit _

theorem nestedElements {build : Build} (hload : ∀ id parameter target, Bounded R x (load id parameter target))
    (hb : ∀ m values, OnRow R x (build m values)) (mappings : List ResultMapping)
    (parent : Value) : OnRow R x (nestedElements session load build mappings parent) := by
  refine .forM fun mapping _ => ?_
  unfold nestedMapping
  split
  · exact .mapError (nestedElement hload hb _ _ _)
  · exact pure

/-- Behind the nested elements of an object its mark is taken away, whether they fail or not. -/
theorem assembleNested {build : Build} (hload : ∀ id parameter target, Bounded R x (load id parameter target))
    (hb : ∀ m values, OnRow R x (build m values)) (m : ResultMap) (mappings : List ResultMapping)
    (parent : Value) (key : Option String) :
    OnRow R x (assembleNested session load build m mappings parent key) := by
  unfold RowMapper.assembleNested
  split
  · intro f _
    have h : OnRow R x (RowMapper.nestedElements session load build mappings parent) :=
      nestedElements hload hb mappings parent
    obtain ⟨-, hs, ho⟩ := h (f.mark m.id key) trivial
    refine ⟨trivial, ⟨?_, ?_, ?_, ?_, ?_⟩, ho⟩
    · cases key
      · exact hs.row
      · exact hs.row
    · cases key
      · exact hs.cells
      · exact hs.cells
    · cases key with
      | none => exact hs.marks
      | some key => exact congrArg List.tail hs.marks
    · cases key
      · exact hs.mappings
      · exact hs.mappings
    · cases key
      · exact hs.world
      · exact hs.world
  · exact pure

theorem build (hload : ∀ id parameter target, Bounded R True (load id parameter target)) :
    ∀ (depth : Nat) (m : ResultMap) (target : Option Value) (values : List Value),
      OnRow R True (ResultMap.build session load depth m target values)
  | 0, _, _, _ => .throw trivial
  | depth + 1, m, target, values => by
    unfold ResultMap.build
    refine bind (subject m target values) fun subject => ?_
    split
    · exact pure
    · refine bind (assembleNested hload (fun child values => ?_) _ _ _ _) fun _ => pure
      exact build hload depth child none values

end OnRow

end RowMapper
