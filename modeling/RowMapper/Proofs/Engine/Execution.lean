/-
The calls of a query. A query reads the rows of its window one after the other, with one call for
each row that holds any data; the marks of one row are gone before the next is read.
-/
import RowMapper.Proofs.Engine.Call
import RowMapper.Proofs.Engine.Mappings
import RowMapper.Proofs.Request.Phases

namespace RowMapper

/-- A statement that is run as a query, with all that it is run with. -/
structure Execution where
  session : Session
  load : Load
  statement : Statement
  parameter : Value
  target : Option Value := none
  window : Window := {}
  receive : Receiver := .any
  world : World

/-- Reading the rows from a frame on reads a row at another frame. -/
inductive ReadsRow (read : Run Frame Unit) : Nat → Nat → Option Nat → Frame → Frame → Prop
  | here {rows : Nat} {left : Option Nat} {f g : Frame} (more : left ≠ some 0)
      (next : Frame.nextRow.run f = (.ok true, g)) : ReadsRow read (rows + 1) 0 left f g
  | skipped {rows skip : Nat} {left : Option Nat} {f g h : Frame} (more : left ≠ some 0)
      (next : Frame.nextRow.run f = (.ok true, g)) (reads : ReadsRow read rows skip left g h) :
      ReadsRow read (rows + 1) (skip + 1) left f h
  | later {rows : Nat} {left : Option Nat} {f g g' h : Frame} (more : left ≠ some 0)
      (next : Frame.nextRow.run f = (.ok true, g)) (row : read.run g = (.ok (), g'))
      (reads : ReadsRow read rows 0 (left.map (· - 1)) g' h) : ReadsRow read (rows + 1) 0 left f h

namespace Execution

def run (x : Execution) : Except Stop Unit × Frame :=
  (x.session.runStatement x.load x.statement x.parameter x.target x.window x.receive).run
    { world := x.world }

/-- Reading one row with the map of the statement. -/
abbrev readObject (x : Execution) (m : ResultMap) : Run Frame Unit :=
  x.session.readObject x.load m x.target x.receive

/-- The rows of a query are read with a map from a frame on. -/
structure Opens (x : Execution) (m : ResultMap) (rows : RowSet) (f : Frame) : Prop where
  opens : ∃ response g,
    (x.session.submit x.statement x.parameter).run { world := x.world } =
      (.ok (some m, response), g) ∧
    response.rows = .rows rows ∧ (x.session.openRows m rows).run g = (.ok (), f)

/-- The calls that a query makes for its rows, and those that they make. -/
inductive Calls (x : Execution) : Call → Prop
  | row {m effective : ResultMap} {rows : RowSet} {values : List Value} {f g h : Frame}
      (opens : x.Opens m rows f)
      (reads : ReadsRow (x.readObject m) (rows.length + 1) x.window.skip x.window.max f g)
      (found : (x.session.readValues x.load m).run g = (.ok (some (effective, values)), h)) :
      x.Calls { map := effective, target := x.target, values, frame := h }
  | nested {c d : Call} (call : x.Calls c) (makes : Call.Makes x.session x.load c d) : x.Calls d

end Execution

/-! ## Marks and shared state -/

/-- What goes on, from one state to the next, also while operations are recorded. -/
class World.Records (R : World → World → Prop) : Prop extends World.Lasts R where
  log : ∀ (w : World) (log : List Operation), R w { w with database := { w.database with log } }

instance : World.Records World.Any where
  log _ _ := trivial

/-- What goes on also when the mappings for columns are kept for a map that none were kept for. A
remappable map keeps none. -/
def World.Derives (R : World → World → Prop) (registry : Registry) (m : ResultMap) : Prop :=
  m.remappable = false → ∀ (w : World) (home : Nat) (columns : List String), m.mappings = .auto home →
    Table.contains (home, m.id) w.derived = false →
      R w { w with derived := Table.put (home, m.id) (m.derivedFrom registry columns) w.derived }

theorem World.derives_any (registry : Registry) (m : ResultMap) : World.Derives World.Any registry m :=
  fun _ _ _ _ _ _ => trivial

/-- The marks are the same, and the shared state went along a relation. -/
structure Frame.MarkedAlong (R : World → World → Prop) (f g : Frame) : Prop where
  marks : g.request.assembling = f.request.assembling
  world : R f.world g.world

section

variable {R : World → World → Prop} [World.Records R]

instance : Std.Refl (Frame.MarkedAlong R) := ⟨fun f => ⟨rfl, Std.Refl.refl f.world⟩⟩

instance : IsTrans Frame (Frame.MarkedAlong R) :=
  ⟨fun _ _ _ h h' => ⟨Eq.trans h'.marks h.marks, IsTrans.trans _ _ _ h.world h'.world⟩⟩

end

namespace OnRow

variable {R : World → World → Prop} [World.Lasts R] {session : Session} {load : Load}
  (hload : ∀ id parameter target, Bounded R True (load id parameter target))

include hload

theorem readValues (m : ResultMap) : OnRow R True (session.readValues load m) := by
  unfold Session.readValues
  refine bind (resolveSubMap _ _) fun effective => ?_
  refine bind (readRow hload _) fun values => ?_
  exact bind gets fun found => pure

/-- An object is read and given on its row. -/
theorem readObject (m : ResultMap) (target : Option Value) (receive : Receiver) :
    OnRow R True (session.readObject load m target receive) := by
  unfold Session.readObject
  refine bind (readValues hload m) fun found => ?_
  split
  · exact pure
  · refine bind (build hload _ _ _ _) fun object => ?_
    split
    · unfold Session.emit
      exact bind (.modify fun f _ => ⟨trivial, rfl, rfl, rfl, rfl, Std.Refl.refl f.world⟩) fun _ => read
    · exact pure

end OnRow

/-- A run that keeps the marks, however it ends, and takes the shared state along a relation. -/
abbrev KeepsMarks {α : Type} (R : World → World → Prop) (run : Run Frame α) : Prop :=
  Keeps (fun _ => True) (Frame.MarkedAlong R) (Stop.Allowed True) Always run

namespace KeepsMarks

variable {α β : Type} {R : World → World → Prop} [World.Records R] {session : Session} {load : Load}
  {m : ResultMap}

omit [World.Records R] in
theorem ofRow {run : Run Frame α} (h : OnRow R True run) : KeepsMarks R run :=
  h.weaken fun _ _ hs => ⟨hs.marks, hs.world⟩

theorem bind {run : Run Frame α} {f : α → Run Frame β} (h : KeepsMarks R run)
    (hf : ∀ a, KeepsMarks R (f a)) : KeepsMarks R (run >>= f) := Keeps.bind h fun a _ => hf a

theorem nextRow : KeepsMarks R Frame.nextRow := by
  intro f _
  cases hr : f.request.rowSetToRead with
  | error e => rw [Frame.nextRow, run_onRows_error hr]; exact ⟨trivial, Std.Refl.refl f, trivial⟩
  | ok rows =>
    rw [Frame.nextRow, run_onRows_ok hr]
    exact ⟨trivial, ⟨rfl, Std.Refl.refl f.world⟩, trivial⟩

theorem bindParameter (session : Session) (statement : Statement) (parameter : Value) :
    KeepsMarks R (session.bindParameter statement parameter) :=
  bind (ofRow (.modifyContext _)) fun _ => ofRow .read

theorem execute (op : Operation) : KeepsMarks R (Session.execute op) := by
  unfold Session.execute
  refine bind (ofRow (.modifyContext _)) fun _ => ofRow (.onWorld fun w _ => ?_)
  refine ⟨trivial, World.Records.log w _, ?_⟩
  show Ends _ _ ((w.database.execute w.store op).1.mapError Stop.failed)
  exact .mapError fun _ _ => trivial

/-- A statement is submitted for the rows of a map of the catalog. -/
theorem submit (session : Session) (statement : Statement) (parameter : Value) :
    Keeps (fun _ => True) (Frame.MarkedAlong R) (Stop.Allowed True)
      (fun a => session.catalog.statementResultMap statement = .ok a.1)
      (session.submit statement parameter) := by
  unfold Session.submit
  refine Keeps.bind (Q := Always) (ofRow .ofExcept) fun _ _ => ?_
  refine Keeps.bind (Keeps.ofExcept fun _ h => h) fun resultMap hmap => ?_
  refine Keeps.bind (Q := Always) (.modify fun f _ => ⟨trivial, rfl, Std.Refl.refl f.world⟩) fun _ _ => ?_
  refine Keeps.bind (bindParameter session statement parameter) fun params _ => ?_
  exact Keeps.bind (execute _) fun response _ => Keeps.pure hmap

theorem updateRequest {f : Request → Except Error Request}
    (h : ∀ r r', f r = .ok r' → r'.assembling = r.assembling) :
    KeepsMarks R (Frame.updateRequest f) := by
  intro frame _
  cases hf : f frame.request with
  | ok r' =>
    rw [run_updateRequest_ok _ _ hf]
    exact ⟨trivial, ⟨h _ _ hf, Std.Refl.refl frame.world⟩, trivial⟩
  | error e => rw [run_updateRequest_error _ _ hf]; exact ⟨trivial, Std.Refl.refl frame, trivial⟩

theorem prepareAuto {catalog : Catalog} (hm : World.Derives R catalog.registry m) :
    KeepsMarks R (m.prepareAuto catalog) := by
  unfold ResultMap.prepareAuto
  split
  · exact ofRow .pure
  · next home hhome =>
    intro f _
    have hget : (Run.gets fun frame : Frame => frame).run f = (.ok f, f) := rfl
    rw [run_bind_ok hget]
    split
    · refine bind (ofRow .ofExcept) (fun mappings => updateRequest fun r r' h => ?_) f trivial
      rw [Request.remap_eq_ok h]
      rfl
    · next hremap =>
      split
      · next hnew =>
        cases hderive : m.derive catalog f.request with
        | error e => exact ⟨trivial, Std.Refl.refl f, trivial⟩
        | ok mappings =>
          obtain ⟨rows, -, rfl⟩ := ResultMap.derive_eq_ok hderive
          refine ⟨trivial, ⟨rfl, ?_⟩, trivial⟩
          exact hm (Bool.eq_false_iff.2 hremap) f.world home rows.columns hhome (by simpa using hnew)
      · exact ⟨trivial, Std.Refl.refl f, trivial⟩

theorem openRows {session : Session} (hm : World.Derives R session.catalog.registry m) (rows : RowSet) :
    KeepsMarks R (session.openRows m rows) := by
  unfold Session.openRows
  refine bind (updateRequest fun r r' h => ?_) fun _ => prepareAuto (R := R) hm
  obtain ⟨-, rfl⟩ := Request.start_eq_ok h
  rfl

section Rows

variable (hload : ∀ id parameter target, Bounded R True (load id parameter target))

include hload

theorem readValues (m : ResultMap) : KeepsMarks R (session.readValues load m) :=
  ofRow (.readValues hload m)

theorem readObject (m : ResultMap) (target : Option Value) (receive : Receiver) :
    KeepsMarks R (session.readObject load m target receive) :=
  ofRow (.readObject hload m target receive)

end Rows

end KeepsMarks

/-- Going on to the next row leaves the mappings of the request. -/
theorem installed_of_nextRow {f g : Frame} {outcome : Except Stop Bool}
    (h : Frame.nextRow.run f = (outcome, g)) : g.request.mappings = f.request.mappings := by
  obtain rfl := congrArg Prod.snd h
  unfold Frame.nextRow
  cases hr : f.request.rowSetToRead with
  | error e => rw [run_onRows_error hr]
  | ok rows => rw [run_onRows_ok hr]

/-- What going on to the next row and reading any row keep holds at every row. -/
theorem ReadsRow.keeps_at {P At : Frame → Prop} {read : Run Frame Unit}
    (hnext : ∀ {f g : Frame} {more : Bool}, P f → Frame.nextRow.run f = (.ok more, g) → P g)
    (hread : ∀ {f g : Frame}, At f → P f → read.run f = (.ok (), g) → P g) {rows skip : Nat}
    {left : Option Nat} {f g : Frame} (h : ReadsRow read rows skip left f g)
    (hat : ∀ k, ReadsRow read rows skip left f k → At k) (hf : P f) : P g := by
  induction h with
  | here _ next => exact hnext hf next
  | skipped more next _ ih => exact ih (fun k hk => hat k (.skipped more next hk)) (hnext hf next)
  | later more next row _ ih =>
    have hrow := hread (hat _ (.here more next)) (hnext hf next) row
    exact ih (fun k hk => hat k (.later more next row hk)) hrow

theorem ReadsRow.keeps {P : Frame → Prop} {read : Run Frame Unit}
    (hnext : ∀ {f g : Frame} {more : Bool}, P f → Frame.nextRow.run f = (.ok more, g) → P g)
    (hread : ∀ {f g : Frame}, P f → read.run f = (.ok (), g) → P g) {rows skip : Nat}
    {left : Option Nat} {f g : Frame} (h : ReadsRow read rows skip left f g) (hf : P f) : P g :=
  h.keeps_at hnext (fun (_ : True) => hread) (fun _ _ => trivial) hf

/-- What going on to the next row and reading a row leave alone is as it was before the rows. -/
theorem ReadsRow.view_eq {β : Type} (view : Frame → β) {read : Run Frame Unit}
    (hnext : ∀ {f g : Frame} {more : Bool}, Frame.nextRow.run f = (.ok more, g) → view g = view f)
    (hread : ∀ {f g : Frame}, read.run f = (.ok (), g) → view g = view f) {rows skip : Nat}
    {left : Option Nat} {f g : Frame} (h : ReadsRow read rows skip left f g) : view g = view f := by
  exact h.keeps (P := fun g => view g = view f) (fun hf next => Eq.trans (hnext next) hf)
    (fun hf row => Eq.trans (hread row) hf) rfl

/-- The mappings of the request stay through its rows. -/
theorem ReadsRow.mappings {session : Session} {load : Load} {m : ResultMap} {target : Option Value}
    {receive : Receiver} {rows skip : Nat} {left : Option Nat} {f g : Frame}
    (h : ReadsRow (session.readObject load m target receive) rows skip left f g) :
    g.request.mappings = f.request.mappings := by
  refine h.view_eq (·.request.mappings) installed_of_nextRow fun {f g} hrun => ?_
  have hobject : OnRow World.Any True (session.readObject load m target receive) :=
    .readObject (fun _ _ _ => bounded_true _) m target receive
  have hsteady := (hobject f trivial).2.1.mappings
  rwa [hrun] at hsteady

/-- Before a row is read no object is marked. -/
theorem ReadsRow.marks {read : Run Frame Unit} (hread : KeepsMarks World.Any read) {rows skip : Nat}
    {left : Option Nat} {f g : Frame} (h : ReadsRow read rows skip left f g) :
    g.request.assembling = f.request.assembling := by
  refine h.view_eq (·.request.assembling) ?_ ?_
  · intro f g more hrun
    have := (KeepsMarks.nextRow (R := World.Any) f trivial).2.1.marks
    rwa [hrun] at this
  · intro f g hrow
    have := (hread f trivial).2.1.marks
    rwa [hrow] at this

namespace Execution

variable {x : Execution}

theorem Opens.marks {m : ResultMap} {rows : RowSet} {f : Frame} (h : x.Opens m rows f) :
    f.request.assembling = [] := by
  obtain ⟨response, g, hsubmit, -, hopen⟩ := h.opens
  have hs := (KeepsMarks.submit (R := World.Any) x.session x.statement x.parameter
    { world := x.world } trivial).2.1.marks
  have hkeeps : KeepsMarks World.Any (x.session.openRows m rows) := .openRows (World.derives_any _ m) rows
  have ho := (hkeeps g trivial).2.1.marks
  rw [hsubmit] at hs
  rw [hopen] at ho
  exact Eq.trans ho hs

/-- The call for a row is entered without marks. -/
theorem marks_of_row {m effective : ResultMap} {rows : RowSet} {values : List Value} {f g h : Frame}
    (opens : x.Opens m rows f)
    (reads : ReadsRow (x.readObject m) (rows.length + 1) x.window.skip x.window.max f g)
    (found : (x.session.readValues x.load m).run g = (.ok (some (effective, values)), h)) :
    h.request.assembling = [] := by
  have hr := reads.marks (KeepsMarks.readObject (fun _ _ _ => bounded_true _) m x.target x.receive)
  have hvalues : KeepsMarks World.Any (x.session.readValues x.load m) :=
    .readValues (fun _ _ _ => bounded_true _) m
  have hv := (hvalues g trivial).2.1.marks
  rw [found] at hv
  exact Eq.trans hv (Eq.trans hr opens.marks)

/-- A call of a query is entered with pairwise distinct marks. -/
theorem Calls.nodup {c : Call} (h : x.Calls c) : c.frame.request.assembling.Nodup := by
  induction h with
  | @row m _ _ _ f g h opens reads found =>
    show h.request.assembling.Nodup
    rw [marks_of_row opens reads found]
    exact List.nodup_nil
  | nested _ makes ih =>
    obtain ⟨n, rfl⟩ := makes
    exact n.nodup ih

end Execution

end RowMapper
