/-
Edits: computations on the store that may fail. What an edit changed before it failed stays
changed.
-/
import RowMapper.Data.Store

namespace RowMapper

abbrev Edit (α : Type) := ExceptT Error (StateM Store) α

namespace Edit

/-- The store as it is now. -/
def store : Edit Store := ExceptT.lift get

/-- An outcome that does not depend on the store. -/
def ofExcept {α : Type} (outcome : Except Error α) : Edit α := ExceptT.mk (pure outcome)

/-- Reads from the store. -/
def read {α : Type} (f : Store → Except Error α) : Edit α :=
  ExceptT.mk fun s => (f s, s)

/-- Changes the store, or fails and leaves it. -/
def change (f : Store → Except Error Store) : Edit Unit :=
  ExceptT.mk fun s =>
    match f s with
    | .ok s => (.ok (), s)
    | .error e => (.error e, s)

/-- Makes a value in the store, or fails and leaves the store. -/
def make {α : Type} (f : Store → Except Error (α × Store)) : Edit α :=
  ExceptT.mk fun s =>
    match f s with
    | .ok (a, s) => (.ok a, s)
    | .error e => (.error e, s)

/-- A new object. -/
def newObject (data : ObjectData) : Edit Value :=
  make fun s => .ok (.object (s.newObject data).1, (s.newObject data).2)

/-- The outcome and the final store. -/
def runOn {α : Type} (edit : Edit α) (s : Store) : Except Error α × Store := edit.run s

end Edit

end RowMapper
