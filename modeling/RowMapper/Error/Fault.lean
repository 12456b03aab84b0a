/-
The causes of errors and their wording. Every text that a failure shows is written here, or beside
the type of the cause that it tells of.
-/
import RowMapper.Calendar.Pattern
import RowMapper.Data.Variant
import RowMapper.Error.Context
import RowMapper.Number.Decimal
import RowMapper.Number.Integer

namespace RowMapper

/-! ## Configuration -/

/-- The kinds of object that an accessor is made for. -/
inductive AccessorKind where
  | map
  | bean
  | dom
  deriving DecidableEq, Repr

def AccessorKind.title : AccessorKind → String
  | .map => "map"
  | .bean => "bean"
  | .dom => "DOM"

/-- The two kinds of item that a catalog holds by id. -/
inductive CatalogItem where
  | resultMap
  | statement
  deriving DecidableEq, Repr

def CatalogItem.title : CatalogItem → String
  | .resultMap => "result map"
  | .statement => "statement"

/-- What is wrong with a mapping, a catalog or the use of an object. -/
inductive ConfigurationFault where
  | notGrowable (variant : Variant)
  | noProperty (property bean : String)
  | notWritable (property bean : String)
  | notInstantiable (type : String)
  | notACollection (property : String)
  | notAnObject (path : String) (variant : Variant)
  | blockedPath (rest step : String) (variant : Variant)
  | wrongAccessor (path : String) (accessor : AccessorKind) (type : String)
  | missing (item : CatalogItem) (id : String)
  | duplicate (item : CatalogItem) (id : String)
  | ungroupedCycle (cycle : List String) (ungrouped : String)
  | secondDiscriminator
  | oddSpecifier (text : String)
  | noColumnCoercer (property column : String)
  | noParameterCoercer (property : String)
  | noCoercerOfType (property type : String)
  | notRemappable (resultMap : String)
  | noBeanClass (resultMap : String)
  | notAMap (resultMap : String) (variant : Variant)
  | noResultClass (resultMap : String)
  | invalidSettings
  | foreignScheme (url : String)
  | other (text : String)
  deriving DecidableEq, Repr

def ConfigurationFault.text : ConfigurationFault → String
  | .notGrowable variant => s!"cannot add an element to a {variant.name} value"
  | .noProperty property bean =>
    s!"There is no property named '{property}' in bean type '{bean}'"
  | .notWritable property bean =>
    s!"There is no WRITEABLE property named '{property}' in bean type '{bean}'"
  | .notInstantiable type => s!"cannot instantiate an object of type {type}"
  | .notACollection property =>
    s!"Error instantiating collection property for mapping '{property}'. " ++
      "The declared type is not a collection."
  | .notAnObject path variant => s!"cannot access property '{path}' on a {variant.name} value"
  | .blockedPath rest step variant =>
    s!"cannot access property '{rest}' through '{step}', which holds a {variant.name} value"
  | .wrongAccessor path accessor type =>
    s!"cannot access '{path}' with a {accessor.title} accessor; the object is a {type}"
  | .missing item id => s!"There is no {item.title} named {id} in this SqlMap."
  | .duplicate item id => s!"There is already a {item.title} named {id} in this SqlMap."
  | .ungroupedCycle cycle ungrouped =>
    "the nested result maps " ++ String.intercalate ", " cycle ++
      s!" form a cycle, and {ungrouped} has no group-by; " ++
      "every result map on a nested cycle must group its rows"
  | .secondDiscriminator => "A discriminator may only be set once per result map."
  | .oddSpecifier text =>
    "the composite column specifier \x60" ++ text ++
      "\x60 has an odd number of tokens; expected property=column pairs"
  | .noColumnCoercer property column =>
    s!"No type handler could be found to map the property '{property}' to the column '{column}'." ++
      "  One or both of the types, or the combination of types is not supported."
  | .noParameterCoercer property =>
    s!"No type handler could be found for the parameter '{property}'."
  | .noCoercerOfType property type =>
    s!"No type handler could be found for the parameter '{property}' of type {type}."
  | .notRemappable resultMap => s!"result map {resultMap} is not remappable"
  | .noBeanClass resultMap => s!"result map {resultMap} has no bean result class"
  | .notAMap resultMap variant =>
    s!"result map {resultMap} produces maps, but the result object is a {variant.name}"
  | .noResultClass resultMap =>
    s!"The result class was null when trying to get results for ResultMap named {resultMap}."
  | .invalidSettings => "invalid settings"
  | .foreignScheme url => "connection URL does not have a \x60sqlite\x60 scheme; url=" ++ url
  | .other text => text

/-! ## Protocol -/

/-- The kinds of a mapped statement. -/
inductive StatementKind where
  | select
  | insert
  | update
  | delete
  | procedure
  deriving DecidableEq, Repr

namespace StatementKind

/-- Whether statements of this kind produce rows. -/
def isQuery : StatementKind → Bool
  | .select | .procedure => true
  | .insert | .update | .delete => false

def name : StatementKind → String
  | .select => "Select"
  | .insert => "Insert"
  | .update => "Update"
  | .delete => "Delete"
  | .procedure => "Procedure"

end StatementKind

/-- The phases of a request: created or reset, bound to a statement, reading rows. -/
inductive Phase where
  | fresh
  | bound
  | executing
  deriving DecidableEq, Repr

def Phase.name : Phase → String
  | .fresh => "Fresh"
  | .bound => "Bound"
  | .executing => "Executing"

/-- What was asked of a statement, a request or a database that does not offer it. -/
inductive ProtocolFault where
  | notAQuery (kind : StatementKind)
  | notAProcedure (kind : StatementKind)
  | notBound (phase : Phase)
  | notExecuting (phase : Phase)
  | noRows
  | noProcedures (sql : String)
  | other (text : String)
  deriving DecidableEq, Repr

def ProtocolFault.text : ProtocolFault → String
  | .notAQuery kind => s!"{kind.name} statements cannot be executed as a query."
  | .notAProcedure kind => s!"{kind.name} statements cannot be called as a procedure."
  | .notBound phase =>
    s!"a request must be bound to a statement before rows are assigned; state={phase.name}"
  | .notExecuting phase =>
    s!"rows can only be read while the request is executing; state={phase.name}"
  | .noRows => "the request has no rows assigned"
  | .noProcedures sql => "SQLite has no stored procedures; cannot run \x60" ++ sql ++ "\x60"
  | .other text => text

/-! ## Database -/

/-- Why a text is not a URL. -/
inductive UrlFault where
  | noScheme
  | emptyHost
  | badPort
  | badHostCharacter
  | badDomain
  | badIpv4
  | badIpv6
  deriving DecidableEq, Repr

def UrlFault.message : UrlFault → String
  | .noScheme => "relative URL without a base"
  | .emptyHost => "empty host"
  | .badPort => "invalid port number"
  | .badHostCharacter => "invalid domain character"
  | .badDomain => "invalid international domain name"
  | .badIpv4 => "invalid IPv4 address"
  | .badIpv6 => "invalid IPv6 address"

/-- What a database or its row set reports. -/
inductive DatabaseFault where
  | noCurrentRow
  | noColumn (name : String)
  | columnOutOfRange (index columns : Nat)
  | noOutput (index : Nat)
  | noReply (sql : String)
  | registeredAsCall (sql : String)
  | notBindable (variant : Variant)
  | url (fault : UrlFault)
  /-- A reported error with the errors behind it, outermost first. -/
  | reported (first : String) (behind : List String)
  deriving DecidableEq, Repr

/-- The texts of the error and of the errors behind it. An error of a parameter binding repeats
its cause. -/
def DatabaseFault.layers : DatabaseFault → List String
  | .noCurrentRow => ["the result set has no current row"]
  | .noColumn name => [s!"column '{name}' not found in result set"]
  | .columnOutOfRange index columns =>
    [s!"column index {index} out of range; result set has {columns} columns"]
  | .noOutput index => [s!"no output parameter at position {index}"]
  | .noReply sql => ["no reply registered for \x60" ++ sql ++ "\x60"]
  | .registeredAsCall sql => ["\x60" ++ sql ++ "\x60 is registered as a procedure call"]
  | .notBindable variant =>
    let text := s!"{variant.name} values cannot be bound as a SQLite parameter"
    [text, text]
  | .url fault => [fault.message]
  | .reported first behind => first :: behind

def DatabaseFault.text (f : DatabaseFault) : String := String.intercalate ": " f.layers

/-! ## All faults -/

/-- What a text was expected to be. -/
inductive Expected where
  | boolean
  | i32
  | i64
  | f64
  | timestamp
  | nullDate
  | other (text : String)
  deriving DecidableEq, Repr

def Expected.text : Expected → String
  | .boolean => "a boolean"
  | .i32 => "an i32"
  | .i64 => "an i64"
  | .f64 => "an f64"
  | .timestamp => "a timestamp"
  | .nullDate => "a default null value date; the format must be 'yyyy/MM/dd hh:mm:ss'"
  | .other text => text

/-- A remark that is put in front of an error. -/
inductive Note where
  | nestedProperty (property : String)
  | invalidResultMap (id : String)
  | invalidStatement (id : String)
  | free (text : String)
  deriving DecidableEq, Repr

def Note.message : Note → String
  | .nestedProperty property => s!"Error getting nested result map values for '{property}'"
  | .invalidResultMap id => s!"invalid result map {id}"
  | .invalidStatement id => s!"invalid statement {id}"
  | .free text => text

/-- An error without what it was caused by. -/
inductive Fault where
  | configuration (fault : ConfigurationFault)
  | protocol (fault : ProtocolFault)
  | database (fault : DatabaseFault)
  | unreadable (input : String) (expected : Expected)
  | conversion (variant : Variant) (target : String)
  | tooManyResults (count : Nat)
  | request (context : ErrorContext)
  | note (note : Note)
  | integer (fault : Number.IntegerFault)
  | decimal (fault : Number.DecimalFault)
  | pattern (fault : Calendar.PatternFault)
  /-- An error of another kind that was handed in. -/
  | foreign (text : String)
  deriving DecidableEq, Repr

def Fault.message : Fault → String
  | .configuration f => "configuration error: " ++ f.text
  | .protocol f => "protocol error: " ++ f.text
  | .database f => f.text
  | .unreadable input expected => "cannot parse \x60" ++ input ++ "\x60 as " ++ expected.text
  | .conversion variant target => s!"cannot convert {variant.name} to {target}"
  | .tooManyResults count => s!"query for object returned too many results (at least {count})"
  | .request c => c.text
  | .note n => n.message
  | .integer f => f.message
  | .decimal f => f.message
  | .pattern f => f.message
  | .foreign text => text

end RowMapper
