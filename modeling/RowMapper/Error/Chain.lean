/-
Errors as chains of faults, the newest first: putting an error in front of another, the text of a
chain, the kinds of fault in it, and the errors met by following sources.

Putting `c` in front of `e` keeps the fault of `c` when `c` is a single fault that nothing else
holds; otherwise only the text of `c` goes in front.
-/
import RowMapper.Error.Fault

namespace RowMapper

/-- An error: the newest fault, and the faults that it was put in front of, newest first. -/
structure Error where
  fault : Fault
  causes : List Fault := []
  deriving DecidableEq, Repr

namespace Error

def chain (e : Error) : List Fault := e.fault :: e.causes

/-- The messages of the chain, newest first. -/
def message (e : Error) : String := String.intercalate ": " (e.chain.map Fault.message)

/-- Puts `c` in front of `e`. `shared` says that `c` is also held elsewhere. -/
def context (e c : Error) (shared : Bool := false) : Error :=
  if !shared && c.causes.isEmpty then ⟨c.fault, e.chain⟩
  else ⟨.note (.free c.message), e.chain⟩

/-- Puts a remark in front of an error. -/
def remark (e : Error) (note : Note) : Error := e.context ⟨.note note, []⟩

/-! ## Kinds -/

/-- The kinds of fault that a caller can ask for. -/
inductive Kind where
  | configuration
  | protocol
  | database
  | unreadable
  | conversion
  | tooManyResults
  deriving DecidableEq, Repr

def Kind.all : List Kind :=
  [.configuration, .protocol, .database, .unreadable, .conversion, .tooManyResults]

def Kind.name : Kind → String
  | .configuration => "configuration"
  | .protocol => "protocol"
  | .database => "database"
  | .unreadable => "parse"
  | .conversion => "type_conversion"
  | .tooManyResults => "too_many_results"

def Kind.holds : Kind → Fault → Bool
  | .configuration, .configuration _ => true
  | .protocol, .protocol _ => true
  | .database, .database _ => true
  | .unreadable, .unreadable _ _ => true
  | .conversion, .conversion _ _ => true
  | .tooManyResults, .tooManyResults _ => true
  | _, _ => false

/-- Whether a fault of the kind is anywhere in the chain. -/
def has (e : Error) (kind : Kind) : Bool := e.chain.any kind.holds

/-- The kinds that an error has. -/
def kinds (e : Error) : List Kind := Kind.all.filter e.has

/-- The names of the kinds that an error has, or `other`. -/
def kindNames (e : Error) : String :=
  match e.kinds with
  | [] => "other"
  | kinds => String.intercalate "+" (kinds.map Kind.name)

/-- The newest request context in the chain. -/
def requestContext (e : Error) : Option ErrorContext :=
  e.chain.findSome? fun
    | .request context => some context
    | _ => none

/-! ## Sources -/

/-- The texts of the errors behind the faults of a chain. A database fault leads to the error that
the database reported, a fault handed in or met while reading a text to the error inside it, and
neither leads on to its cause; any other fault leads to its cause. -/
def sourcesOf : List Fault → List String
  | [] => []
  | .database fault :: _ => fault.text :: fault.layers
  | .integer fault :: _ => [fault.message]
  | .decimal fault :: _ => [fault.message]
  | .pattern fault :: _ => [fault.message]
  | .foreign text :: _ => [text]
  | _ :: rest =>
    match rest with
    | [] => []
    | fault :: causes => message ⟨fault, causes⟩ :: sourcesOf rest

def sources (e : Error) : List String := sourcesOf e.chain

/-! ## Constructors -/

def configuration (fault : ConfigurationFault) : Error := ⟨.configuration fault, []⟩

def protocol (fault : ProtocolFault) : Error := ⟨.protocol fault, []⟩

def database (fault : DatabaseFault) : Error := ⟨.database fault, []⟩

def unreadable (input : String) (expected : Expected) : Error := ⟨.unreadable input expected, []⟩

def conversion (variant : Variant) (target : String) : Error := ⟨.conversion variant target, []⟩

end Error

end RowMapper
