/-
Reading the store behind its changes: an object that is made stands behind those that are there, and
a change of one object leaves the others as they are.
-/
import RowMapper.Data.Store

namespace RowMapper

/-- The values that an object holds. -/
def ObjectData.values : ObjectData → List Value
  | .map entries => entries.map (·.2)
  | .bean _ fields => fields
  | .dom _ => []

namespace Store

variable {s : Store} {ref other : ObjectRef} {data : ObjectData}

@[simp] theorem size_newObject (s : Store) (data : ObjectData) :
    (s.newObject data).2.objects.size = s.objects.size + 1 := Array.size_push ..

@[simp] theorem size_setData (s : Store) (ref : ObjectRef) (data : ObjectData) :
    (s.setData ref data).objects.size = s.objects.size := Array.size_setIfInBounds ..

theorem data_newObject_self (s : Store) (data : ObjectData) :
    (s.newObject data).2.data (s.newObject data).1 = data := by
  simp [newObject, Store.data]

theorem data_newObject_of_ne (h : other.index ≠ s.objects.size) :
    (s.newObject data).2.data other = s.data other := by
  unfold newObject Store.data
  rw [Array.getElem?_push, if_neg h]

theorem data_setData_self (h : ref.index < s.objects.size) : (s.setData ref data).data ref = data := by
  simp [setData, Store.data, h]

theorem data_setData_of_ne (h : other ≠ ref) : (s.setData ref data).data other = s.data other := by
  have hi : ref.index ≠ other.index := fun he => h (by
    cases ref
    cases other
    exact congrArg ObjectRef.mk he.symm)
  simp [setData, Store.data, hi]

/-- What is not in the store reads as an empty map. -/
theorem data_of_size_le (h : s.objects.size ≤ ref.index) : s.data ref = .map [] := by
  simp [Store.data, Array.getElem?_eq_none h]

/-- A change of an object that is not in the store changes nothing. -/
theorem setData_of_size_le (h : s.objects.size ≤ ref.index) : s.setData ref data = s := by
  simp [setData, Array.setIfInBounds, Nat.not_lt.2 h]

end Store

end RowMapper
