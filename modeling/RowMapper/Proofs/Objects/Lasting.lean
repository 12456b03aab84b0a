/-
Objects last. What the engine does to a store makes objects and puts values at their properties, so that
an object that is there stays there and stays of its type, whatever is asked of the engine
(`Catalog.upholds_has`).
-/
import RowMapper.Proofs.Objects.Stability

namespace RowMapper

namespace Store

variable {s : Store} {r q : ObjectRef} {type : DataType} {d : ObjectData}

/-- An object is in the store, and of a type. -/
structure Has (s : Store) (r : ObjectRef) (type : DataType) : Prop where
  there : r.index < s.objects.size
  type_eq : s.type r = type

/-- What is of the type of maps is a map. -/
theorem Has.entries (h : s.Has r .map) : ∃ entries, s.data r = .map entries := by
  have htype := h.type_eq
  unfold Store.type at htype
  cases hd : s.data r with
  | map entries => exact ⟨entries, rfl⟩
  | bean type fields =>
    rw [hd] at htype
    cases htype
  | dom node =>
    rw [hd] at htype
    cases htype

theorem Has.newObject (h : s.Has r type) (d : ObjectData) : (s.newObject d).2.Has r type := by
  refine ⟨?_, ?_⟩
  · rw [size_newObject]
    exact Nat.lt_succ_of_lt h.there
  · unfold Store.type
    rw [data_newObject_of_ne (Nat.ne_of_lt h.there)]
    exact h.type_eq

/-- An object keeps its type when a value is put at a property of it. -/
theorem Has.setData {property : String} {v : Value} (h : s.Has r type)
    (hd : (s.data q).Written property v d) : (s.setData q d).Has r type := by
  refine ⟨(size_setData s q d).symm ▸ h.there, ?_⟩
  unfold Store.type
  by_cases hq : r = q
  · subst hq
    rw [data_setData_self h.there, hd.type_eq]
    exact h.type_eq
  · rw [data_setData_of_ne hq]
    exact h.type_eq

theorem stable_has (r : ObjectRef) (type : DataType) : Stable fun s => s.Has r type where
  newObject _ h := h.newObject _
  setProperty hset h := by
    obtain ⟨d, rfl, hd⟩ := setProperty_eq_ok hset
    exact h.setData hd

/-- Changing a value in place is putting one at a property. -/
theorem Has.update (h : s.Has r type) (accessor : Accessor) (v : Value) (path : String)
    (change : Store → Value → Value × Except Error Unit) :
    ((accessor.update v path change).run s).2.Has r type := by
  have howner := (stable_has r type).owner accessor v path h
  unfold Accessor.update Accessor.slot
  rw [bind_assoc]
  rcases hrun : (accessor.owner v path).run s with ⟨e | ⟨x, left⟩, t⟩ <;> rw [hrun] at howner
  · rw [run_bind_error hrun]
    exact howner
  · rw [run_bind_ok hrun]
    rcases Accessor.run_updateProperty change x (Text.path left) t with ⟨e, he⟩ | ⟨slot, hslot, hdone⟩
    · exact he ▸ howner
    · obtain ⟨d, hfill, hd, -⟩ := fillSlot_eq (v := (change t (t.slotValue slot)).1) hslot
      rw [hdone, hfill]
      exact howner.setData hd

end Store

/-- All that the engine does with a catalog leaves the objects in the store, each of its type. -/
theorem Catalog.upholds_has (c : Catalog) (r : ObjectRef) (type : DataType) :
    c.Upholds fun s => s.Has r type :=
  (Store.stable_has r type).upholds (fun _ h => ⟨h.there, h.type_eq⟩)
    fun parent _ _ _ _ h => h.update c.accessor parent _ _

end RowMapper
