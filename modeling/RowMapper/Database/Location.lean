/-
Where a SQLite database is: in memory, or in a file that a URL or a path names. Of a URL only the
path matters once its scheme is known.
-/
import RowMapper.Error.Chain
import RowMapper.Url.Basic

namespace RowMapper

inductive SqliteLocation where
  | memory
  | file (path : String)
  deriving DecidableEq, Repr

namespace SqliteLocation

/-- The location that a URL names. -/
def ofUrl (url : String) : Except Error SqliteLocation :=
  match Url.read url with
  | .error fault => .error (.database (.url fault))
  | .ok (.plain "sqlite" path) => .ok (if path = ":memory:" then .memory else .file path)
  | .ok _ => .error (.configuration (.foreignScheme url))

/-- The location that a path names. -/
def ofPath (path : String) : SqliteLocation := .file path

def url : SqliteLocation → String
  | .memory => "sqlite::memory:"
  | .file path => "sqlite:" ++ path

end SqliteLocation

end RowMapper
