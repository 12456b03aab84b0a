/-
The properties of one object: what a write changes in the object that it writes to. Both ways of
writing, with a cast to the declared type and in place, put one value at one property and leave the
other properties, the kind and the type of the object as they are.
-/
import RowMapper.Access.Accessor
import RowMapper.Proofs.Catalog.Index
import RowMapper.Proofs.Data.Store
import RowMapper.Proofs.Data.Value
import RowMapper.Proofs.Engine.Pairing

namespace RowMapper

namespace Table

variable {κ α : Type} [BEq κ] {key other : κ} {value : α} {table : List (κ × α)}

/-- A value in a table behind putting one was there before, unless it is the one. -/
theorem mem_values_put {v : α} (h : v ∈ (put key value table).map (·.2)) :
    v = value ∨ v ∈ table.map (·.2) := by
  induction table with
  | nil => simpa [put] using h
  | cons entry rest ih =>
    unfold put at h
    split at h
    · simp only [List.map_cons, List.mem_cons] at h ⊢
      rcases h with h | h
      · exact .inl h
      · exact .inr (.inr h)
    · simp only [List.map_cons, List.mem_cons] at h ⊢
      rcases h with h | h
      · exact .inr (.inl h)
      · exact (ih h).imp_right .inr

/-- A value that is found in a table is one of its values. -/
theorem mem_values_of_get? {v : α} (h : get? key table = some v) : v ∈ table.map (·.2) := by
  induction table with
  | nil => cases h
  | cons entry rest ih =>
    unfold get? at h
    split at h
    · cases h
      exact List.mem_cons_self ..
    · exact List.mem_cons_of_mem _ (ih h)

/-- Two keys with one position are the same. -/
theorem indexOf?_inj [LawfulBEq κ] {i : Nat} (h : indexOf? key table = some i)
    (h' : indexOf? other table = some i) : key = other := by
  obtain ⟨_, hi, -⟩ := List.findIdx?_eq_some_iff_getElem.1 h
  obtain ⟨_, hi', -⟩ := List.findIdx?_eq_some_iff_getElem.1 h'
  rw [beq_iff_eq] at hi hi'
  exact hi.symm.trans hi'

end Table

namespace ObjectData

/-- The value at a property, if a map or a bean has a place for it. -/
def slot? (d : ObjectData) (property : String) : Option Value :=
  match d with
  | .map entries => some ((Table.get? property entries).getD .null)
  | .bean type fields => (Table.indexOf? property type.properties).bind (fields[·]?)
  | .dom _ => none

theorem slot?_map (entries : List (String × Value)) (property : String) :
    slot? (.map entries) property = some ((Table.get? property entries).getD .null) := rfl

theorem slot?_bean (type : BeanType) (fields : List Value) (property : String) :
    slot? (.bean type fields) property =
      (Table.indexOf? property type.properties).bind (fields[·]?) := rfl

/-- From one object to the next a value was put at a property. -/
structure Written (property : String) (v : Value) (d d' : ObjectData) : Prop where
  kind_eq : d'.kind = d.kind
  type_eq : d'.type = d.type
  objects : ∀ r, .object r ∈ d'.values → .object r ∈ d.values ∨ v = .object r
  others : ∀ other, other ≠ property → d'.slot? other = d.slot? other

variable {d : ObjectData}

end ObjectData

namespace Store

variable {s t : Store} {r : ObjectRef} {property : String} {v : Value}

/-- What is read from an object is null, a text, or one of its values. -/
theorem getProperty_object {q : ObjectRef} (h : s.getProperty r property = .ok (.object q)) :
    .object q ∈ (s.data r).values := by
  unfold getProperty at h
  split at h
  · rename_i entries hd
    cases hg : Table.get? property entries with
    | none => simp [hg] at h
    | some w =>
      simp [hg] at h
      subst h
      rw [hd]
      exact Table.mem_values_of_get? hg
  · rename_i type fields hd
    cases hi : fieldIndex type property with
    | error e => rw [hi] at h; cases h
    | ok i =>
      rw [hi] at h
      have h : fields[i]?.getD .null = .object q := by injection h
      cases hf : fields[i]? with
      | none => rw [hf] at h; cases h
      | some w =>
        rw [hf] at h
        cases h
        rw [hd]
        exact List.mem_of_getElem? hf
  · split at h <;> cases h

theorem written_bean {type : BeanType} {fields : List Value} {i : Nat} {w : Value}
    (hi : Table.indexOf? property type.properties = some i) (hw : ∀ r, w = .object r → v = .object r) :
    ObjectData.Written property v (.bean type fields) (.bean type (fields.set i w)) := by
  refine ⟨rfl, rfl, fun r hr => ?_, fun other hne => ?_⟩
  · exact (List.mem_or_eq_of_mem_set hr).imp_right fun h => hw r h.symm
  · rw [ObjectData.slot?_bean, ObjectData.slot?_bean]
    cases ho : Table.indexOf? other type.properties with
    | none => rfl
    | some j =>
      have hij : i ≠ j := by
        rintro rfl
        exact hne (Table.indexOf?_inj ho hi)
      exact List.getElem?_set_ne hij

theorem written_map {entries : List (String × Value)} :
    ObjectData.Written property v (.map entries) (.map (Table.put property v entries)) := by
  refine ⟨rfl, rfl, fun r hr => ?_, fun other hne => ?_⟩
  · exact (Table.mem_values_put hr).symm.imp_right Eq.symm
  · rw [ObjectData.slot?_map, ObjectData.slot?_map, Table.get?_put_of_ne hne]

/-- Writing a property puts its value, cast to the declared type, into the object. -/
theorem setProperty_eq_ok (h : s.setProperty r property v = .ok t) :
    ∃ d, t = s.setData r d ∧ ObjectData.Written property v (s.data r) d := by
  unfold setProperty at h
  split at h
  · rename_i entries hd
    cases h
    exact ⟨_, rfl, hd ▸ written_map⟩
  · rename_i type fields hd
    cases hi : Table.indexOf? property type.properties with
    | none => simp [fieldIndex, hi, bind, Except.bind] at h
    | some i =>
      cases hc : ((type.propertyType? property).getD .object).cast v with
      | error e => simp [fieldIndex, hi, hc, bind, Except.bind] at h
      | ok w =>
        simp [fieldIndex, hi, hc, bind, Except.bind] at h
        refine ⟨_, h.symm, hd ▸ written_bean hi ?_⟩
        rintro r rfl
        exact ((DataType.cast_eq_or_plain hc).resolve_right fun hw => hw.ne_object r rfl).symm
  · rename_i node hd
    cases h
    exact ⟨_, rfl, hd ▸ ⟨rfl, rfl, nofun, fun _ _ => rfl⟩⟩

/-- Filling a slot puts a value into the object as it is. -/
theorem fillSlot_eq {slot : Slot} (h : s.slotOf r property = .ok slot) :
    ∃ d, s.fillSlot slot v = s.setData r d ∧ ObjectData.Written property v (s.data r) d ∧
      (∀ w, (s.data r).slot? property = some w → d.slot? property = some v ∧ s.slotValue slot = w) ∧
      (s.kind r ≠ .dom → (s.data r).slot? property = none → d.slot? property = none) := by
  unfold slotOf at h
  split at h
  · rename_i entries hd
    cases h
    refine ⟨.map (Table.put property v entries), ?_, hd ▸ written_map, fun w hw => ?_, fun _ hn => ?_⟩
    · simp only [fillSlot, hd]
    · rw [hd] at hw
      refine ⟨?_, ?_⟩
      · rw [ObjectData.slot?_map, Table.get?_put_self]
        rfl
      · simp only [slotValue, hd]
        injection hw
    · rw [hd] at hn
      cases hn
  · rename_i type fields hd
    cases hi : Table.indexOf? property type.properties with
    | none => simp [fieldIndex, hi, Except.map] at h
    | some i =>
      simp [fieldIndex, hi, Except.map] at h
      subst h
      refine ⟨.bean type (fields.set i v), ?_, hd ▸ written_bean hi fun _ => id, fun w hw => ?_,
        fun _ hn => ?_⟩
      · simp only [fillSlot, hd]
      · rw [hd] at hw
        obtain ⟨j, hj, hf⟩ := Option.bind_eq_some_iff.1 hw
        rw [hi] at hj
        cases hj
        obtain ⟨hlt, -⟩ := List.getElem?_eq_some_iff.1 hf
        refine ⟨?_, ?_⟩
        · rw [ObjectData.slot?_bean, hi]
          exact List.getElem?_set_self hlt
        · simp only [slotValue, hd, hf, Option.getD_some]
      · rw [hd, ObjectData.slot?_bean, hi, Option.bind_some, List.getElem?_eq_none_iff] at hn
        rw [ObjectData.slot?_bean, hi, Option.bind_some, List.getElem?_eq_none_iff, List.length_set]
        exact hn
  · rename_i node hd
    cases h
    refine ⟨.dom (node.appendContent property (s.nodesOf v)), ?_, hd ▸ ⟨rfl, rfl, nofun, fun _ _ => rfl⟩,
      ?_, fun _ _ => rfl⟩
    · simp only [fillSlot, hd]
    · intro w hw
      rw [hd] at hw
      cases hw

/-- An object in a slot of an object is one of its values. -/
theorem slotValue_object {slot : Slot} {q : ObjectRef} (h : s.slotOf r property = .ok slot)
    (hv : s.slotValue slot = .object q) : .object q ∈ (s.data r).values := by
  unfold slotOf at h
  split at h
  · rename_i entries hd
    cases h
    simp only [slotValue, hd] at hv
    rw [hd]
    cases hg : Table.get? property entries with
    | none => simp [hg] at hv
    | some w =>
      simp [hg] at hv
      subst hv
      exact Table.mem_values_of_get? hg
  · rename_i type fields hd
    cases hi : fieldIndex type property with
    | error e => simp [hi, Except.map] at h
    | ok i =>
      simp [hi, Except.map] at h
      subst h
      simp only [slotValue, hd] at hv
      rw [hd]
      cases hf : fields[i]? with
      | none => simp [hf] at hv
      | some w =>
        simp [hf] at hv
        subst hv
        exact List.mem_of_getElem? hf
  · cases h
    cases hv

end Store

/-! ## Changes in place -/

namespace Accessor

variable {s : Store} {f : Store → Value → Value × Except Error Unit}

/-- A slot is left as it is, with an error, or it takes the new value. -/
theorem run_updateSlot (f : Store → Value → Value × Except Error Unit) (slot : Slot) (s : Store) :
    (∃ e, (updateSlot f slot).run s = (.error e, s)) ∨
      (updateSlot f slot).run s =
        ((f s (s.slotValue slot)).2, s.fillSlot slot (f s (s.slotValue slot)).1) := by
  unfold updateSlot
  rw [run_bind_ok (x := Edit.store) (a := s) (t := s) rfl]
  generalize f s (s.slotValue slot) = changed
  obtain ⟨value, outcome⟩ := changed
  dsimp only
  split
  · exact .inl ⟨_, rfl⟩
  · exact .inr rfl

/-- A property of an object is left as it is, with an error, or its slot takes the new value. -/
theorem run_updateProperty (f : Store → Value → Value × Except Error Unit) (r : ObjectRef)
    (property : String) (s : Store) :
    (∃ e, (Edit.read (·.slotOf r property) >>= updateSlot f).run s = (.error e, s)) ∨
      ∃ slot, s.slotOf r property = .ok slot ∧
        (Edit.read (·.slotOf r property) >>= updateSlot f).run s =
          ((f s (s.slotValue slot)).2, s.fillSlot slot (f s (s.slotValue slot)).1) := by
  have hread : (Edit.read (·.slotOf r property)).run s = (s.slotOf r property, s) := rfl
  cases hs : s.slotOf r property with
  | error e => exact .inl ⟨e, run_bind_error (hread.trans (by rw [hs]))⟩
  | ok slot =>
    rw [run_bind_ok (hread.trans (by rw [hs]))]
    exact (run_updateSlot f slot s).imp id fun h => ⟨slot, rfl, h⟩

/-- The object itself is what the accessor gives for it, if it takes objects of its kind. -/
theorem root_object (accessor : Accessor) (s : Store) (r : ObjectRef) (path : String) :
    accessor.root s (.object r) path = .ok r ∨ ∃ e, accessor.root s (.object r) path = .error e := by
  cases accessor with
  | generic => exact .inl rfl
  | only kind =>
    by_cases h : s.kind r = kind
    · exact .inl (by simp [root, Store.objectAt, h, bind, Except.bind])
    · exact .inr ⟨_, by simp [root, Store.objectAt, h, bind, Except.bind]; rfl⟩

/-- An accessor takes objects alone. -/
theorem eq_object_of_root {accessor : Accessor} {v : Value} {path : String} {r : ObjectRef}
    (h : accessor.root s v path = .ok r) : v = .object r := by
  have hat : ∀ {path}, Store.objectAt v path = .ok r → v = .object r := by
    intro path h
    unfold Store.objectAt at h
    split at h <;> cases h
    rfl
  cases accessor with
  | generic => exact hat h
  | only kind =>
    obtain ⟨q, hq, h⟩ := Except.bind_eq_ok_iff.1 h
    split at h <;> cases h
    exact hat hq

/-- The type that a property of the object itself takes. -/
theorem setterType_single {property : String} {r : ObjectRef} {type : DataType}
    (hp : Text.steps property = [property])
    {accessor : Accessor} (h : accessor.setterType s (.object r) property = .ok type) :
    s.setterType r property = .ok type := by
  obtain ⟨owner, hroot, h⟩ := Except.bind_eq_ok_iff.1 h
  obtain ⟨r', hr, hwalk⟩ := Except.bind_eq_ok_iff.1 hroot
  rw [hp] at hwalk
  cases hwalk
  have heq : r' = r := by
    rcases root_object accessor s r property with hroot | ⟨e, hroot⟩ <;> rw [hroot] at hr <;> cases hr
    rfl
  rw [← heq]
  have hpath : s.setterType r' (Text.path [property]) = .ok type := h
  rwa [Text.path_singleton] at hpath

/-- A property of the object itself is changed in its slot. -/
theorem run_update_single {property : String} (hp : Text.steps property = [property])
    (accessor : Accessor) (f : Store → Value → Value × Except Error Unit) (r : ObjectRef) (s : Store) :
    (∃ e, (accessor.update (.object r) property f).run s = (.error e, s)) ∨
      ∃ slot, s.slotOf r property = .ok slot ∧
        (accessor.update (.object r) property f).run s =
          ((f s (s.slotValue slot)).2, s.fillSlot slot (f s (s.slotValue slot)).1) := by
  have hread : ∀ {α : Type} (g : Store → Except Error α), (Edit.read g).run s = (g s, s) := fun _ => rfl
  unfold update slot
  rw [bind_assoc]
  rcases root_object accessor s r property with hroot | ⟨e, hroot⟩
  · have howner : (accessor.owner (.object r) property).run s = (.ok (r, [property]), s) := by
      unfold owner
      rw [run_bind_ok (by rw [hread, hroot]), hp]
      rfl
    rw [run_bind_ok howner]
    show _ ∨ ∃ slot, _ ∧ (Edit.read (·.slotOf r (Text.path [property])) >>= updateSlot f).run s = _
    rw [Text.path_singleton]
    exact run_updateProperty f r property s
  · refine .inl ⟨e, ?_⟩
    unfold owner
    exact run_bind_error (run_bind_error (by rw [hread, hroot]))

/-- A property of an object that the accessor takes is written there. -/
theorem run_set_root {property : String} (hp : Text.steps property = [property]) {accessor : Accessor}
    {r : ObjectRef} {s : Store} (hroot : accessor.root s (.object r) property = .ok r) (v : Value) :
    (accessor.set (.object r) property v).run s =
      (Edit.change (·.setProperty r property v)).run s := by
  have hread : (Edit.read (accessor.root · (.object r) property)).run s =
    (accessor.root s (.object r) property, s) := rfl
  unfold Accessor.set Accessor.owner
  rw [bind_assoc, hp, run_bind_ok (hread.trans (by rw [hroot]))]
  show (Edit.change (·.setProperty r (Text.path [property]) v)).run s = _
  rw [Text.path_singleton]

/-- A property of the object itself is written there, if the accessor takes the object. -/
theorem run_set_cases {property : String} (hp : Text.steps property = [property])
    (accessor : Accessor) (r : ObjectRef) (v : Value) (s : Store) :
    (∃ e, (accessor.set (.object r) property v).run s = (.error e, s)) ∨
      (accessor.set (.object r) property v).run s =
        (Edit.change (·.setProperty r property v)).run s := by
  have hread : (Edit.read (accessor.root · (.object r) property)).run s =
    (accessor.root s (.object r) property, s) := rfl
  rcases root_object accessor s r property with hroot | ⟨e, hroot⟩
  · exact .inr (run_set_root hp hroot v)
  · refine .inl ⟨e, ?_⟩
    unfold Accessor.set Accessor.owner
    rw [bind_assoc]
    exact run_bind_error (hread.trans (by rw [hroot]))

end Accessor

end RowMapper
