/-
Running statements: queries, which give objects row by row, and updates, which give a count. An
error that leaves a request carries what the request was doing.
-/
import RowMapper.Engine.Assembly
import RowMapper.Engine.AutoMap

namespace RowMapper

/-- Which rows of a result are read: some are skipped, then at most `max` are read. -/
structure Window where
  skip : Nat := 0
  max : Option Nat := none
  deriving DecidableEq, Repr

/-- Bound on the depth of nested result maps on one row, and of nested selects in each other. No
catalog bounds them: a key may hold an object that nested elements are added to, so that a map comes
back to itself with another key. -/
def nestingBound : Nat := Nat.pow 2 14

/-- What is done with the objects that a query gives, as each is given. It is told the number of the
object, counted from 1, and may change the object and all else that is shared. The query ends when it
fails. -/
structure Handler where
  take : Nat → Value → Run World Unit

/-- A handler that changes nothing: whether to go on after the object with a number was given. -/
abbrev Receiver := Nat → Except Error Unit

instance : Coe Receiver Handler where
  coe receive := { take := fun count _ => Run.ofExcept (receive count) }

namespace Receiver

def any : Receiver := fun _ => .ok ()

/-- Takes one object. -/
def single : Receiver := fun count =>
  if 1 < count then .error ⟨.tooManyResults count, []⟩ else .ok ()

end Receiver

abbrev Handler.any : Handler := Receiver.any

abbrev Handler.single : Handler := Receiver.single

/-- Puts what the request was doing in front of an error, unless nothing is known of it. -/
def Frame.explain (frame : Frame) (e : Error) : Error :=
  if frame.request.context.isEmpty then e else e.context ⟨.request frame.request.context, []⟩

namespace Session

/-! ## Statements -/

/-- Binds the parameter of a statement. -/
def bindParameter (session : Session) (statement : Statement) (parameter : Value) :
    Run Frame Params := do
  Frame.modifyContext fun _ =>
    { resource := statement.resource
      activity := some "preparing the mapped statement for execution"
      objectId := some statement.id
      moreInfo := some "Check the parameter map." }
  Run.read fun frame => statement.bind session.catalog.accessor frame.world.store parameter

def execute (op : Operation) : Run Frame Response := do
  Frame.modifyContext fun cx => { cx with activity := some "executing the mapped statement" }
  Frame.onWorld (World.execute op)

/-- Writes the output parameters of a call into its parameter. -/
def writeOutputs (session : Session) (statement : Statement) (parameter : Value)
    (outputs : Option OutParams) : Run Frame Unit :=
  match outputs, statement.parameterMap with
  | some outputs, some parameterMap => do
    Frame.modifyContext fun cx =>
      { cx with
        activity := some "retrieving output parameters"
        moreInfo := some "Check the output parameters." }
    Frame.edit (parameterMap.writeOutputs session.catalog.accessor parameter outputs)
  | _, _ => return ()

/-! ## Rows -/

/-- Gives an object to the handler. -/
def emit (handler : Handler) (object : Value) : Run Frame Unit := do
  Run.modify fun frame =>
    let content := frame.world.store.content object
    { frame with emitted := frame.emitted.push { object, content } }
  let count ← Run.gets fun frame : Frame => frame.emitted.size
  Frame.onWorld (handler.take count object)

/-- The map that the current row is to be read with, and the values that it reads there, if the row
holds any data for it. -/
def readValues (session : Session) (load : Load) (m : ResultMap) :
    Run Frame (Option (ResultMap × List Value)) := do
  let effective ← m.resolveSubMap session.catalog
  let values ← effective.readRow session load
  let found ← Run.gets fun frame : Frame => frame.request.rowDataFound
  return if found then some (effective, values) else none

/-- Reads the current row and gives the object that it makes, if any. -/
def readObject (session : Session) (load : Load) (m : ResultMap)
    (target : Option Value) (handler : Handler) : Run Frame Unit := do
  match ← session.readValues load m with
  | none => return ()
  | some (effective, values) =>
    match ← ResultMap.build session load nestingBound effective target values with
    | some object => emit handler object
    | none => return ()

/-- Reads the rows of a window. The first argument bounds the number of rows. -/
def readRows (readObject : Run Frame Unit) : Nat → Nat → Option Nat → Run Frame Unit
  | 0, _, _ => return ()
  | rows + 1, skip, left => do
    if left = some 0 then return ()
    let more ← Frame.nextRow
    if more then
      match skip with
      | skip + 1 => readRows readObject rows skip left
      | 0 =>
        readObject
        readRows readObject rows 0 (left.map (· - 1))

/-- Hands over the rows of a response to be read with a result map. -/
def openRows (session : Session) (m : ResultMap) (rows : RowSet) : Run Frame Unit := do
  Frame.updateRequest (·.start rows)
  m.prepareAuto session.catalog

/-- Reads the rows of a response, if it has any, with a result map, if there is one. -/
def readResponse (session : Session) (load : Load) (resultMap : Option ResultMap)
    (response : Response) (target : Option Value) (window : Window) (handler : Handler) :
    Run Frame Unit :=
  match response.rows, resultMap with
  | .rows rows, some m => do
    session.openRows m rows
    readRows (session.readObject load m target handler) (rows.length + 1) window.skip window.max
  | _, _ => return ()

/-! ## Requests -/

/-- Has the database execute a statement as a query, whose rows are for the result map. -/
def submit (session : Session) (statement : Statement) (parameter : Value) :
    Run Frame (Option ResultMap × Response) := do
  Run.ofExcept statement.requireQuery
  let resultMap ← Run.ofExcept (session.catalog.statementResultMap statement)
  Frame.modifyRequest (·.bind statement resultMap)
  let params ← session.bindParameter statement parameter
  let response ← execute <|
    match statement.kind with
    | .procedure => statement.callOperation params
    | _ => { kind := .query, sql := statement.sql, params }
  return (resultMap, response)

/-- Runs a statement as a query. -/
def runStatement (session : Session) (load : Load) (statement : Statement)
    (parameter : Value) (target : Option Value) (window : Window) (handler : Handler) :
    Run Frame Unit := do
  let (resultMap, response) ← session.submit statement parameter
  session.readResponse load resultMap response target window handler
  session.writeOutputs statement parameter response.outputs

/-- What a query gave, and how it ended. -/
structure QueryOutcome where
  emitted : List Emitted
  result : Except Stop Unit

/-- Runs a query as a request of its own. -/
def query (session : Session) (load : Load) (id : String) (parameter : Value)
    (target : Option Value) (window : Window) (handler : Handler) (w : World) :
    QueryOutcome × World :=
  match session.catalog.statement id with
  | .error e => ({ emitted := [], result := .error (.failed e) }, w)
  | .ok statement =>
    let run := Run.mapError Frame.explain
      (session.runStatement load statement parameter target window handler)
    let (result, frame) := run.run { world := w }
    ({ emitted := frame.emitted.toList, result }, frame.world)

/-- The objects of a query that succeeds. -/
def collect (session : Session) (load : Load) (id : String) (parameter : Value)
    (target : Option Value) (window : Window) (handler : Handler) : Run World (List Value) :=
  Run.step fun w =>
    let (outcome, w) := session.query load id parameter target window handler w
    (outcome.result.map fun _ => outcome.emitted.map (·.object), w)

/-! ## Nested selects -/

/-- Runs the statement of a nested select for a result of a type: all objects for a collection, else
the only one, or null. The first argument bounds the depth of nested selects. -/
def load (session : Session) : Nat → Load
  | 0, _, _, _ => throw .exhausted
  | depth + 1, statement, parameter, target => do
    let nested := session.load depth
    if target.isCollection then
      let items ← session.collect nested statement parameter none {} .any
      match target with
      | .set => Run.gets fun w : World => .set (w.store.distinct items)
      | _ => return .list items
    else
      let items ← session.collect nested statement parameter none {} .single
      return items.head?.getD .null

/-! ## Public operations -/

/-- The loader for the selects nested in a statement. -/
def loader (session : Session) : Load := session.load nestingBound

/-- Runs a query and keeps what it gave even when it fails. -/
def queryEach (session : Session) (id : String) (parameter : Value) (handler : Handler) :
    World → QueryOutcome × World :=
  session.query session.loader id parameter none {} handler

/-- The objects of a statement whose rows lie in a window. -/
def queryForList (session : Session) (id : String) (parameter : Value) (window : Window := {}) :
    Run World (List Value) :=
  session.collect session.loader id parameter none window .any

/-- The only object of a statement, if there is one, put into `target` if that is given. -/
def queryForObject (session : Session) (id : String) (parameter : Value)
    (target : Option Value := none) : Run World (Option Value) := do
  let items ← session.collect session.loader id parameter target {} .single
  return items.head?

/-- Calls a procedure: its objects, and its output parameters in the parameter. -/
def call (session : Session) (id : String) (parameter : Value) : Run World (List Value) := do
  let statement ← Run.ofExcept (session.catalog.statement id)
  if statement.kind = .procedure then session.queryForList id parameter
  else Run.fail (.protocol (.notAProcedure statement.kind))

/-- Runs a statement for its count of rows. -/
def runUpdate (session : Session) (statement : Statement) (parameter : Value) : Run Frame Nat := do
  Frame.modifyRequest (·.bind statement none)
  let params ← session.bindParameter statement parameter
  let response ← execute <|
    match statement.kind with
    | .procedure => statement.callOperation params
    | _ => { kind := .exec, sql := statement.sql, params }
  session.writeOutputs statement parameter response.outputs
  return response.rows.total

/-- The number of rows that a statement changed. -/
def update (session : Session) (id : String) (parameter : Value) : Run World Nat :=
  Run.step fun w =>
    match session.catalog.statement id with
    | .error e => (.error (.failed e), w)
    | .ok statement =>
      let run := Run.mapError Frame.explain (session.runUpdate statement parameter)
      let (outcome, frame) := run.run { world := w }
      (outcome, frame.world)

end Session

/-! ## Lazy values -/

/-- The value of a lazy value, which is loaded when it is first read. A load that fails is tried
again the next time. -/
def World.force (ref : LazyRef) : Run World Value := do
  let w ← Run.gets fun w : World => w
  match w.store.lazyCell? ref with
  | none => return .null
  | some cell =>
    match cell.loaded, w.session? cell.query.session with
    | some v, _ => return v
    | none, none => return .null
    | none, some session =>
      let v ← session.loader cell.query.statement cell.query.parameter cell.query.target
      Run.modify fun w => { w with store := w.store.setLoaded ref v }
      return v

end RowMapper
