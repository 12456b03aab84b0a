/-
Column specifiers of nested selects: one column, or pairs of a property and a column. A text with
an equals sign or a comma is a list of pairs; braces, equals signs, commas and white space only
delimit its tokens.
-/
import RowMapper.Error.Chain
import RowMapper.Text.Basic

namespace RowMapper

inductive ColumnSpec where
  | single (column : String)
  | composite (pairs : List (String × String))
  deriving DecidableEq, Repr

namespace ColumnSpec

def isComposite (text : String) : Bool := text.toList.any fun c => c == '=' || c == ','

/-- Whether a character delimits the tokens of a composite specifier. -/
def isDelimiter (c : Char) : Bool :=
  c == '\x7b' || c == '\x7d' || c == '=' || c == ',' || Text.isBlank c

/-- The tokens two by two; nothing for an odd number of them. -/
def pairUp : List String → Option (List (String × String))
  | [] => some []
  | [_] => none
  | property :: column :: rest => (pairUp rest).map ((property, column) :: ·)

def parse (text : String) : Except Error ColumnSpec :=
  if isComposite text then
    match pairUp (Text.tokens isDelimiter text) with
    | some pairs => .ok (.composite pairs)
    | none => .error (.configuration (.oddSpecifier text))
  else .ok (.single (Text.trim text))

end ColumnSpec

end RowMapper
