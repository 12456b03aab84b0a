/-
The collections that nested elements go into. For a type whose collections are lists, a property that
holds a list or nothing gets a list, and an element comes behind those that are there.
-/
import RowMapper.Engine.Assembly
import RowMapper.Proofs.Access.Watch

namespace RowMapper

/-- The types whose collections are lists. -/
def DataType.IsListKind (type : DataType) : Prop :=
  type = .object ∨ type = .list ∨ type = .collection ∨ type = .domCollection

variable {type : DataType} {property : String} {s : Store} {slot element : Value}

theorem newCollection_list (h : type.IsListKind) (property : String) :
    DataType.newCollection (some type) property = .ok (.list []) := by
  rcases h with rfl | rfl | rfl | rfl <;> rfl

/-- The elements of a list. -/
def Value.listItems : Value → List Value
  | .list items => items
  | _ => []

theorem ListGrows.items (h : ListGrows .null slot) : ListGrows slot (.list slot.listItems) := by
  cases h with
  | same => exact .made []
  | made items => exact .same _

theorem withContainer_list (h : type.IsListKind) (hv : ListGrows .null slot) (property : String) :
    withContainer type property slot = .ok (.list slot.listItems) := by
  cases hv with
  | same => exact newCollection_list h property
  | made items => rfl

/-- Making a container leaves a list as it is. -/
theorem ensureContainer_list (h : type.IsListKind) (hv : ListGrows .null slot) (property : String)
    (s : Store) : ensureContainer type property s slot = (.list slot.listItems, .ok ()) := by
  unfold ensureContainer
  rw [withContainer_list h hv]

/-- An element is added behind those that are there. -/
theorem addElement_list (h : type.IsListKind) (hv : ListGrows .null slot) (property : String)
    (element : Value) (s : Store) :
    addElement type property element s slot = (.list (slot.listItems ++ [element]), .ok ()) := by
  unfold addElement
  rw [withContainer_list h hv]
  rfl

/-! ## What is not a collection stays -/

theorem withContainer_object {r : ObjectRef} (h : withContainer type property slot = .ok (.object r)) :
    slot = .object r := by
  unfold withContainer at h
  split at h
  · unfold DataType.newCollection at h
    split at h
    · cases h
    · cases h
    · unfold DataType.emptyCollection? at h
      split at h
      · rename_i hv
        split at hv <;> cases hv <;> cases h
      · cases h
  · exact Except.ok.inj h

theorem ensureContainer_object {r : ObjectRef}
    (h : (ensureContainer type property s slot).1 = .object r) : slot = .object r := by
  unfold ensureContainer at h
  split at h
  · rename_i hc
    exact withContainer_object (hc.trans (congrArg Except.ok h))
  · exact h

theorem addElement_object {r : ObjectRef}
    (h : (addElement type property element s slot).1 = .object r) : slot = .object r := by
  unfold addElement at h
  split at h
  · rename_i container hc
    have hcontainer : container = .object r := by
      unfold Store.grow Store.push at h
      cases container <;> first | exact h | cases h
    rw [hcontainer] at hc
    exact withContainer_object hc
  · exact h

/-! ## Collections of any kind -/

/-- What becomes of a value when elements come behind those that it has, or when a collection is made
where there was none. -/
def Value.Extends (v w : Value) : Prop :=
  w = v ∨ (v.isNull = true ∨ w.variant = v.variant) ∧
    ∃ more, w.elements? = some (v.elements?.getD [] ++ more)

theorem Value.elements?_of_isNull {v : Value} (h : v.isNull = true) : v.elements? = none := by
  cases v <;> first | rfl | cases h

namespace Value.Extends

variable {u v w : Value}

theorem refl (v : Value) : v.Extends v := .inl rfl

theorem trans (h : u.Extends v) (h' : v.Extends w) : u.Extends w := by
  rcases h with rfl | ⟨hu, more, hv⟩
  · exact h'
  rcases h' with rfl | ⟨hw, more', hw'⟩
  · exact .inr ⟨hu, more, hv⟩
  have hnull : v.isNull ≠ true := by
    intro hn
    rw [elements?_of_isNull hn] at hv
    cases hv
  refine .inr ⟨hu.imp_right (hw.resolve_left hnull).trans, more ++ more', ?_⟩
  rw [hw', hv, Option.getD_some, List.append_assoc]

/-- Only null is extended to null. -/
theorem eq_of_isNull (h : v.Extends w) (hw : w.isNull = true) : w = v := by
  rcases h with h | ⟨-, more, helements⟩
  · exact h
  · rw [elements?_of_isNull hw] at helements
    cases helements

/-- An object is extended to nothing but itself. -/
theorem of_object {r : ObjectRef} (h : (Value.object r).Extends w) : w = .object r := by
  rcases h with h | ⟨hvariant, more, helements⟩
  · exact h
  · have hw := hvariant.resolve_left nofun
    cases w <;> cases hw
    cases helements

/-- A list is extended to lists that have its elements in front. -/
theorem of_list {items : List Value} (h : (Value.list items).Extends w) :
    ∃ more, w = .list (items ++ more) := by
  rcases h with h | ⟨hvariant, more, helements⟩
  · exact ⟨[], by rw [h, List.append_nil]⟩
  · have hw := hvariant.resolve_left nofun
    cases w <;> cases hw
    exact ⟨more, congrArg Value.list (Option.some.inj helements)⟩

end Value.Extends

theorem withContainer_extends {v : Value} (h : withContainer type property slot = .ok v) :
    slot.Extends v := by
  unfold withContainer at h
  split at h
  · rename_i hnull
    refine .inr ⟨.inl hnull, [], ?_⟩
    rw [Value.elements?_of_isNull hnull]
    unfold DataType.newCollection DataType.emptyCollection? at h
    split at h
    · contradiction
    · cases h
      rfl
    · split at h
      · rename_i hv
        split at hv <;> cases hv <;> cases h <;> rfl
      · cases h
  · cases h
    exact .refl _

/-- Making a container extends what is there. -/
theorem ensureContainer_extends (s : Store) (slot : Value) :
    slot.Extends (ensureContainer type property s slot).1 := by
  unfold ensureContainer
  split
  · rename_i hc
    exact withContainer_extends hc
  · exact .refl _

theorem push_extends {container v : Value} (h : s.push container element = .ok v) :
    container.Extends v := by
  unfold Store.push at h
  split at h
  · cases h
    exact .inr ⟨.inr rfl, [element], rfl⟩
  · rename_i members
    cases h
    unfold Store.addMember
    split
    · exact .refl _
    · exact .inr ⟨.inr rfl, [element], rfl⟩
  · cases h
    exact .inr ⟨.inr rfl, [element], rfl⟩
  · cases h

/-- Adding an element extends what is there. -/
theorem addElement_extends (element : Value) (s : Store) (slot : Value) :
    slot.Extends (addElement type property element s slot).1 := by
  unfold addElement
  split
  · rename_i container hc
    have hslot := withContainer_extends hc
    unfold Store.grow
    split
    · rename_i hpush
      exact hslot.trans (push_extends hpush)
    · exact hslot
  · exact .refl _

end RowMapper
