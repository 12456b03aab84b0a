/-
The table of remembered objects: remembering an object under a map and a key changes what is known
there, and nothing else.
-/
import RowMapper.Proofs.Catalog.Index
import RowMapper.Request.Identity

namespace RowMapper

namespace IdentityTable

theorem get?_insert_self (t : IdentityTable) (id key : String) (v : Value) :
    (t.insert id key v).get? id key = some v := by
  unfold insert get?
  rw [Table.get?_put_self]
  exact Table.get?_put_self ..

/-- Remembering an object leaves what is known by another map or key. -/
theorem get?_insert_of_ne {id id' key key' : String} (h : id' ≠ id ∨ key' ≠ key)
    (t : IdentityTable) (v : Value) : (t.insert id key v).get? id' key' = t.get? id' key' := by
  unfold insert get?
  by_cases hid : id' = id
  · subst hid
    rw [Table.get?_put_self]
    show Table.get? key' (Table.put key v _) = _
    rw [Table.get?_put_of_ne (h.resolve_left fun hn => hn rfl)]
    cases Table.get? id' t.tables <;> rfl
  · rw [Table.get?_put_of_ne hid]

/-- What is known behind remembering an object was known before, or is the object. -/
theorem get?_insert {id id' key key' : String} {t : IdentityTable} {v w : Value}
    (h : (t.insert id key v).get? id' key' = some w) :
    id' = id ∧ key' = key ∧ w = v ∨ t.get? id' key' = some w := by
  by_cases hk : id' = id ∧ key' = key
  · obtain ⟨rfl, rfl⟩ := hk
    rw [get?_insert_self] at h
    cases h
    exact .inl ⟨rfl, rfl, rfl⟩
  · rw [get?_insert_of_ne (by by_cases hid : id' = id <;> simp_all)] at h
    exact .inr h

/-- What a request remembers when it remembers an object by a map and a key, if there is one. -/
def remember (t : IdentityTable) (resultMap : String) (key : Option String)
    (object : Value) : IdentityTable :=
  match key with
  | some key => t.insert resultMap key object
  | none => t

/-- What is known then was known before, or is the object. -/
theorem get?_remember {id id' key' : String} {key : Option String} {t : IdentityTable} {v w : Value}
    (h : (t.remember id key v).get? id' key' = some w) : w = v ∨ t.get? id' key' = some w := by
  cases key with
  | none => exact .inr h
  | some key => exact (get?_insert h).imp_left fun h => h.2.2

end IdentityTable

end RowMapper
