/-
The switches of a catalog, and reading them from a JSON text: an object of switches by name, where
unknown names are skipped and no switch is given twice, or an array of the switches in order, the
last ones left out as one likes.
-/
import RowMapper.Error.Chain
import RowMapper.Text.Json

namespace RowMapper

structure Settings where
  /-- Nested selects into collections give a lazy value, which runs the statement when it is
  read. -/
  lazyLoading : Bool := false
  /-- Ids of the same namespace may be given without it. -/
  namespaces : Bool := false
  deriving DecidableEq, Repr

namespace Settings

/-- The switches met so far in an object. -/
structure Switches where
  lazyLoading : Option Bool := none
  namespaces : Option Bool := none

def Switches.settings (s : Switches) : Settings :=
  { lazyLoading := s.lazyLoading.getD false, namespaces := s.namespaces.getD false }

/-- Takes the members of an object one after the other. -/
def readMembers : List (Option String × Text.Json) → Switches → Option Switches
  | [], switches => some switches
  | (none, _) :: _, _ => none
  | (some key, value) :: rest, switches =>
    if key = "lazy_loading_enabled" then
      match value, switches.lazyLoading with
      | .bool b, none => readMembers rest { switches with lazyLoading := some b }
      | _, _ => none
    else if key = "use_statement_namespaces" then
      match value, switches.namespaces with
      | .bool b, none => readMembers rest { switches with namespaces := some b }
      | _, _ => none
    else readMembers rest switches

def ofJson? : Text.Json → Option Settings
  | .object members => (readMembers members {}).map (·.settings)
  | .array [] => some {}
  | .array [.bool lazyLoading] => some { lazyLoading }
  | .array [.bool lazyLoading, .bool namespaces] => some { lazyLoading, namespaces }
  | _ => none

/-- Reads the settings of a JSON text. -/
def read (text : String) : Except Error Settings :=
  match (Text.Json.read text).bind ofJson? with
  | some settings => .ok settings
  | none => .error (.configuration .invalidSettings)

end Settings

end RowMapper
