/-
The state that sessions share: the store, the database, the catalogs of the sessions, the mappings
derived for maps that have none of their own, and the calls of loaders that give a fixed value. A
catalog has one place for the mappings derived for its maps, which all sessions on it share.
-/
import RowMapper.Catalog.Basic
import RowMapper.Database.Script
import RowMapper.Engine.Run
import RowMapper.Request.Basic

namespace RowMapper

/-- A nested select answered by a fixed value, with the content of its parameter at that moment. -/
structure LoaderCall where
  statement : String
  parameter : Content
  target : DataType

structure World where
  store : Store := {}
  database : Script := {}
  /-- The catalog of each session, by its number. -/
  catalogs : List Catalog := []
  /-- The mappings derived so far, by the place that the catalog of the map has, and the id of the
  map. -/
  derived : List ((Nat × String) × List ColumnMapping) := []
  /-- Newest last. -/
  calls : List LoaderCall := []

/-- A session: its number, and the catalog it runs statements from. -/
structure Session where
  number : Nat
  catalog : Catalog

namespace World

/-- Opens a session on a catalog that has a place for derived mappings, which it shares with the
other sessions on the catalog. -/
def join (w : World) (catalog : Catalog) : Session × World :=
  ({ number := w.catalogs.length, catalog }, { w with catalogs := w.catalogs ++ [catalog] })

/-- Opens the first session on a catalog. The catalog gets a place of its own for derived mappings,
by the number of that session. -/
def openSession (w : World) (catalog : Catalog) : Session × World :=
  w.join (catalog.atHome w.catalogs.length)

/-- The session with a number. -/
def session? (w : World) (number : Nat) : Option Session :=
  w.catalogs[number]?.map fun catalog => { number, catalog }

/-- The mappings of a map as far as they are known. -/
def declaredMappings (w : World) (m : ResultMap) : List ResultMapping :=
  match m.mappings with
  | .declared mappings => mappings
  | .auto home => ((Table.get? (home, m.id) w.derived).getD []).map ColumnMapping.mapping

/-- Runs an edit on the store. -/
def edit {α : Type} (edit : Edit α) : Run World α :=
  Run.edit World.store (fun w store => { w with store }) edit

/-- Has the database execute an operation. -/
def execute (op : Operation) : Run World Response :=
  Run.step fun w =>
    let (outcome, database) := w.database.execute w.store op
    (outcome.mapError .failed, { w with database })

end World

/-- An object that a query gave, with its content at that moment. -/
structure Emitted where
  object : Value
  content : Content

/-- The state of one execution: the shared state, its request, and the objects given so far. -/
structure Frame where
  world : World
  request : Request := {}
  emitted : Array Emitted := #[]

namespace Frame

/-- Runs on the shared state. -/
def onWorld {α : Type} (run : Run World α) : Run Frame α :=
  Run.within Frame.world (fun f world => { f with world }) run

/-- Runs an edit on the store. -/
def edit {α : Type} (edit : Edit α) : Run Frame α := onWorld (World.edit edit)

def modifyRequest (f : Request → Request) : Run Frame Unit :=
  Run.modify fun frame => { frame with request := f frame.request }

/-- Changes the request, or fails and leaves it. -/
def updateRequest (f : Request → Except Error Request) : Run Frame Unit :=
  Run.step fun frame =>
    match f frame.request with
    | .ok request => (.ok (), { frame with request })
    | .error e => (.error (.failed e), frame)

def modifyContext (f : ErrorContext → ErrorContext) : Run Frame Unit :=
  modifyRequest fun r => { r with context := f r.context }

/-- The mappings that a map is read with: those installed in the request for a remappable map, else
its own. -/
def mappings (frame : Frame) (m : ResultMap) : List ResultMapping :=
  if m.remappable then
    (Table.get? m.id frame.request.mappings).getD (frame.world.declaredMappings m)
  else frame.world.declaredMappings m

/-- Runs on the rows of the request. -/
def onRows {α : Type} (f : RowSet → Except Error α × RowSet) : Run Frame α :=
  Run.step fun frame =>
    match frame.request.rowSetToRead with
    | .ok rows =>
      let (outcome, rows) := f rows
      (outcome.mapError .failed,
        { frame with request := { frame.request with rows := some rows } })
    | .error e => (.error (.failed e), frame)

/-- Reads a column of the current row. -/
def readColumn (c : Coercer) (column : Column) : Run Frame Value :=
  onRows fun rows => c.readColumn rows column

/-- Moves to the next row, if there is one. -/
def nextRow : Run Frame Bool := onRows fun rows => (.ok rows.next.1, rows.next.2)

end Frame

end RowMapper
