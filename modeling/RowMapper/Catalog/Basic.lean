/-
Catalogs: all result maps and statements by id, in the order of their declaration, and what they
run with. Once built a catalog does not change.
-/
import RowMapper.Settings
import RowMapper.Statement.Basic

namespace RowMapper

/-- How a nested select gets its value: by running the statement, or a fixed value. -/
inductive Loader where
  | statements
  | fixed (value : Value)

structure Catalog where
  resultMaps : List (String × ResultMap) := []
  statements : List (String × Statement) := []
  registry : Registry := .builtin
  accessor : Accessor := .generic
  loader : Loader := .statements
  settings : Settings := {}

namespace Catalog

def resultMap (c : Catalog) (id : String) : Except Error ResultMap :=
  match Table.get? id c.resultMaps with
  | some m => .ok m
  | none => .error (.configuration (.missing .resultMap id))

def statement (c : Catalog) (id : String) : Except Error Statement :=
  match Table.get? id c.statements with
  | some s => .ok s
  | none => .error (.configuration (.missing .statement id))

/-- The result map that the rows of a statement are read with, if any. -/
def statementResultMap (c : Catalog) (s : Statement) : Except Error (Option ResultMap) :=
  match s.resultMap with
  | some id => (c.resultMap id).map some
  | none => .ok none

/-- The type of the objects that a statement gives. -/
def statementResultClass (c : Catalog) (s : Statement) : Except Error (Option DataType) := do
  match ← c.statementResultMap s with
  | some m => .ok m.resultClass
  | none => .ok s.resultClass

/-- The catalog with a place where the mappings derived for its maps are kept. -/
def atHome (c : Catalog) (home : Nat) : Catalog :=
  { c with resultMaps := c.resultMaps.map fun entry => (entry.1, entry.2.atHome home) }

/-- One line on the catalog, with the URL of the database that it is run on. -/
def summary (c : Catalog) (url : String) : String :=
  "SqlMap \x7b driver: \"" ++ url ++ "\", result_maps: " ++ toString c.resultMaps.length ++
    ", statements: " ++ toString c.statements.length ++ " \x7d"

end Catalog

end RowMapper
