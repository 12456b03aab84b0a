/-
Scripted databases: each answers an SQL text, up to white space, with a reply registered before, and
records every operation. A reply registered for given parameters goes before one for any.
-/
import RowMapper.Data.Content
import RowMapper.Rows.Operation
import RowMapper.Text.Basic

namespace RowMapper

inductive Reply where
  | rows (rows : RowSet)
  | count (count : Nat)
  | call (rows : Option RowSet) (outputs : OutParams)
  | error (message : String)

/-- A reply to an SQL text, for given parameters or for any. -/
structure Registration where
  sql : String
  params : Option (List Value) := none
  reply : Reply

structure Script where
  registrations : List Registration := []
  /-- The operations received, in order. -/
  log : List Operation := []

namespace Script

def url : String := "memory:"

def register (d : Script) (sql : String) (params : Option (List Value)) (reply : Reply) : Script :=
  { d with registrations := d.registrations ++ [{ sql := Text.squeeze sql, params, reply }] }

/-- The reply to an SQL text with parameters. -/
def reply? (d : Script) (s : Store) (sql : String) (params : List Value) : Option Reply :=
  let forSql := d.registrations.filter (·.sql == sql)
  let exact := forSql.find? fun r =>
    match r.params with
    | some registered => s.same (.list registered) (.list params)
    | none => false
  (exact.or (forSql.find? (·.params.isNone))).map (·.reply)

/-- What a reply answers to an operation. -/
def respond (sql : String) (kind : OperationKind) : Reply → Except Error Response
  | .error message => .error (.database (.reported message []))
  | .rows rows => .ok { rows := .rows rows.rewind }
  | .count count => .ok { rows := .count count }
  | .call rows outputs =>
    match kind with
    | .call _ =>
      .ok { rows := (rows.map fun rs => .rows rs.rewind).getD (.count 0), outputs := some outputs }
    | _ => .error (.database (.registeredAsCall sql))

/-- Records an operation and answers it. -/
def execute (d : Script) (s : Store) (op : Operation) : Except Error Response × Script :=
  let sql := Text.squeeze op.sql
  let outcome :=
    match d.reply? s sql (Params.values op.params) with
    | some reply => respond sql op.kind reply
    | none => .error (.database (.noReply sql))
  (outcome, { d with log := d.log ++ [op] })

/-! ## The log -/

/-- The operations whose SQL contains a text. -/
def mentioning (d : Script) (needle : String) : List Operation :=
  d.log.filter fun op => Text.holds needle.toList op.sql.toList

def hasQuery (d : Script) : Bool :=
  d.log.any fun op => match op.kind with
    | .query => true
    | _ => false

def hasExec (d : Script) : Bool :=
  d.log.any fun op => match op.kind with
    | .exec => true
    | _ => false

def hasCall (d : Script) : Bool :=
  d.log.any fun op => match op.kind with
    | .call _ => true
    | _ => false

/-- The first operation of the log, taken out. -/
def takeFirst (d : Script) : Option Operation × Script :=
  match d.log with
  | [] => (none, d)
  | op :: rest => (some op, { d with log := rest })

def clearLog (d : Script) : Script := { d with log := [] }

end Script

end RowMapper
