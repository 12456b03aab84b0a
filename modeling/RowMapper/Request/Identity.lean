/-
The objects already built in a request, by result map and group key. A table for a map is made when
its first object is remembered.
-/
import RowMapper.Data.Table
import RowMapper.Data.Value

namespace RowMapper

structure IdentityTable where
  tables : List (String × List (String × Value)) := []

namespace IdentityTable

def get? (t : IdentityTable) (resultMap key : String) : Option Value :=
  (Table.get? resultMap t.tables).bind (Table.get? key)

/-- Remembers an object, in place of one with the same map and key. -/
def insert (t : IdentityTable) (resultMap key : String) (object : Value) : IdentityTable :=
  let table := (Table.get? resultMap t.tables).getD []
  { tables := Table.put resultMap (Table.put key object table) t.tables }

/-- The number of objects remembered for a map. -/
def size (t : IdentityTable) (resultMap : String) : Nat :=
  ((Table.get? resultMap t.tables).map List.length).getD 0

def hasTable (t : IdentityTable) (resultMap : String) : Bool := Table.contains resultMap t.tables

def isEmpty (t : IdentityTable) : Bool := t.tables.all fun entry => entry.2.isEmpty

def clear (_ : IdentityTable) : IdentityTable := {}

end IdentityTable

end RowMapper
