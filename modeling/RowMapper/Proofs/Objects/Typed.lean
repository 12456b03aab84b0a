/-
Typed objects. What is written to a property of a bean is cast to its declared type, so that a property
of a scalar type holds null or a value of exactly that type (`Value.IsOf`). The collections of nested
elements are changed in place, without a cast: at a property where elements are gathered a collection may
stand against the declared type (`Store.Typed`).
-/
import RowMapper.Proofs.Objects.Stability

namespace RowMapper

/-! ## Values of a type -/

/-- The variant of the values of a scalar type. -/
def DataType.variant? : DataType → Option Variant
  | .bool => some .bool
  | .i32 => some .i32
  | .i64 => some .i64
  | .f64 => some .f64
  | .string => some .string
  | .bytes => some .bytes
  | .timestamp => some .timestamp
  | _ => none

theorem DataType.isScalar_eq (type : DataType) : type.isScalar = type.variant?.isSome := by
  cases type <;> rfl

/-- Null is of every type, any value is of a type that is not scalar, and of a scalar type are its own
values alone. -/
def Value.IsOf (v : Value) (type : DataType) : Prop :=
  ∀ variant, type.variant? = some variant → v.variant = .null ∨ v.variant = variant

namespace Value

variable {v w : Value} {type : DataType}

theorem isOf_null (type : DataType) : Value.null.IsOf type := fun _ _ => .inl rfl

/-- What is cast to a type is of that type. -/
theorem isOf_cast (h : type.cast v = .ok w) : w.IsOf type := by
  unfold DataType.cast at h
  split at h
  case h_1 =>
    cases h
    exact isOf_null _
  case h_10 =>
    split at h <;> cases h
    rintro _ ⟨⟩
    exact .inr rfl
  case h_13 =>
    split at h <;> cases h
    rintro _ ⟨⟩
    exact .inr rfl
  case h_14 =>
    -- no case before is for a type that is not scalar
    split at h <;> cases h
    rename_i hscalar
    intro variant hvariant
    rw [DataType.isScalar_eq, hvariant] at hscalar
    exact absurd rfl hscalar
  all_goals
    cases h
    rintro _ ⟨⟩
    exact .inr rfl

end Value

/-- A value that may stand at a property of a type: one of the type or, where elements are gathered, any
collection. -/
def DataType.Admits (type : DataType) (gathers : Prop) (v : Value) : Prop :=
  v.IsOf type ∨ gathers ∧ v.elements?.isSome = true

namespace DataType.Admits

variable {type : DataType} {gathers : Prop} {v w : Value}

/-- A property at which elements are gathered goes on to be one that admits what it holds: only null is
replaced, by a collection, and only a collection gets elements. -/
theorem grown (h : type.Admits gathers v) (hg : gathers) (hvw : v.Extends w) :
    type.Admits gathers w := by
  rcases hvw with rfl | ⟨-, more, hw⟩
  · exact h
  · exact .inr ⟨hg, by rw [hw]; rfl⟩

end DataType.Admits

/-! ## Typed objects -/

namespace ObjectData

/-- The type that a bean declares for a property. -/
def propertyType? : ObjectData → String → Option DataType
  | .bean type _, property => type.propertyType? property
  | _, _ => none

/-- Every property of the object holds a value that its declared type admits. -/
def Typed (gathers : String → Prop) (d : ObjectData) : Prop :=
  ∀ property declared v, d.propertyType? property = some declared → d.slot? property = some v →
    declared.Admits (gathers property) v

variable {gathers : String → Prop} {d d' : ObjectData} {property : String} {v : Value}

theorem kind_of_propertyType? {declared : DataType} (h : d.propertyType? property = some declared) :
    d.kind = .bean := by
  cases d with
  | bean => rfl
  | map | dom => cases h

theorem propertyType?_eq_of_type_eq (h : d'.type = d.type) (property : String) :
    d'.propertyType? property = d.propertyType? property := by
  cases d <;> cases d' <;> first | rfl | exact DataType.noConfusion h | skip
  obtain ⟨-, hproperties⟩ := DataType.bean.inj h
  exact congrArg (Table.get? property) hproperties

theorem mem_values_of_slot? (hd : d.kind = .bean) (h : d.slot? property = some v) : v ∈ d.values := by
  cases d with
  | bean type fields =>
    obtain ⟨i, -, hv⟩ := Option.bind_eq_some_iff.1 h
    exact List.mem_of_getElem? hv
  | map | dom => cases hd

/-- An object without values is typed. -/
theorem typed_of_null (h : ∀ v ∈ d.values, v = .null) : d.Typed gathers := by
  intro property declared v hdeclared hv
  rw [h v (mem_values_of_slot? (kind_of_propertyType? hdeclared) hv)]
  exact .inl (Value.isOf_null declared)

/-- A typed object stays typed when a value is put at a property that is admitted there. -/
theorem Typed.written (h : d.Typed gathers) (hw : d.Written property v d')
    (hv : ∀ declared w, d.propertyType? property = some declared → d'.slot? property = some w →
      declared.Admits (gathers property) w) : d'.Typed gathers := by
  intro other declared w hdeclared hslot
  rw [propertyType?_eq_of_type_eq hw.type_eq] at hdeclared
  by_cases ho : other = property
  · subst ho
    exact hv declared w hdeclared hslot
  · exact h other declared w hdeclared (hw.others other ho ▸ hslot)

end ObjectData

/-- All objects of the store are typed. Elements may be gathered at some properties. -/
def Store.Typed (gathers : String → Prop) (s : Store) : Prop := ∀ r, (s.data r).Typed gathers

namespace Store

variable {gathers : String → Prop} {s t : Store} {r : ObjectRef} {property : String} {v : Value}
  {d : ObjectData}

theorem Typed.newObject (h : s.Typed gathers) (hd : d.Typed gathers) :
    (s.newObject d).2.Typed gathers := by
  intro q
  by_cases hq : q = (s.newObject d).1
  · rw [hq, data_newObject_self]
    exact hd
  · rw [data_newObject_of_ne fun hi => hq (by cases q; exact congrArg ObjectRef.mk hi)]
    exact h q

theorem Typed.setData (h : s.Typed gathers) (hd : d.Typed gathers) : (s.setData r d).Typed gathers := by
  intro q
  by_cases hq : q = r
  · subst hq
    by_cases hlt : q.index < s.objects.size
    · rw [data_setData_self hlt]
      exact hd
    · rw [setData_of_size_le (Nat.not_lt.1 hlt)]
      exact h q
  · rw [data_setData_of_ne hq]
    exact h q

/-- What is at a property of a bean that was written is the value, cast to the declared type. -/
theorem slot?_of_setProperty (h : s.setProperty r property v = .ok t) :
    ∃ d, t = s.setData r d ∧ (s.data r).Written property v d ∧
      ∀ declared w, (s.data r).propertyType? property = some declared → d.slot? property = some w →
        declared.cast v = .ok w := by
  cases hd : s.data r with
  | map entries =>
    obtain ⟨d, rfl, hw⟩ := setProperty_eq_ok h
    exact ⟨d, rfl, hd ▸ hw, nofun⟩
  | dom node =>
    obtain ⟨d, rfl, hw⟩ := setProperty_eq_ok h
    exact ⟨d, rfl, hd ▸ hw, nofun⟩
  | bean type fields =>
    simp only [setProperty, hd] at h
    obtain ⟨i, hi, h⟩ := Except.bind_eq_ok_iff.1 h
    obtain ⟨w, hw, h⟩ := Except.bind_eq_ok_iff.1 h
    cases h
    have hindex : Table.indexOf? property type.properties = some i := by
      unfold fieldIndex at hi
      split at hi <;> cases hi
      assumption
    refine ⟨_, rfl, written_bean hindex ?_, fun declared w' hdeclared hslot => ?_⟩
    · rintro q rfl
      exact ((DataType.cast_eq_or_plain hw).resolve_right fun hp => hp.ne_object q rfl).symm
    · rw [ObjectData.slot?_bean, hindex, Option.bind_some] at hslot
      have hlt : i < fields.length := by
        have hlt := (List.getElem?_eq_some_iff.1 hslot).1
        rwa [List.length_set] at hlt
      rw [List.getElem?_set_self hlt, Option.some.injEq] at hslot
      rw [show type.propertyType? property = some declared from hdeclared] at hw
      exact hslot ▸ hw

/-- Writing with a cast keeps the objects typed, at whatever property and with whatever value. -/
theorem Typed.setProperty (h : s.Typed gathers) (hset : s.setProperty r property v = .ok t) :
    t.Typed gathers := by
  obtain ⟨d, rfl, hw, hcast⟩ := slot?_of_setProperty hset
  exact h.setData ((h r).written hw fun declared w hdeclared hslot =>
    .inl (Value.isOf_cast (hcast declared w hdeclared hslot)))

/-- Changing a value in place keeps the objects typed where elements are gathered, as long as no value is
taken away. -/
theorem Typed.fillSlot (h : s.Typed gathers) {slot : Slot} (hslot : s.slotOf r property = .ok slot)
    (hg : s.kind r = .bean → gathers property) (hv : (s.slotValue slot).Extends v) :
    (s.fillSlot slot v).Typed gathers := by
  obtain ⟨d, hfill, hw, hput, hnone⟩ := fillSlot_eq (v := v) hslot
  rw [hfill]
  refine h.setData ((h r).written hw fun declared w hdeclared hthere => ?_)
  have hkind := ObjectData.kind_of_propertyType? hdeclared
  cases hold : (s.data r).slot? property with
  | none =>
    have hgone := hnone (by rw [Store.kind, hkind]; exact nofun) hold
    rw [hgone] at hthere
    cases hthere
  | some old =>
    obtain ⟨hnew, hvalue⟩ := hput old hold
    obtain rfl : v = w := Option.some.inj (hnew.symm.trans hthere)
    exact (h r property declared old hdeclared hold).grown (hg hkind) (hvalue ▸ hv)

theorem stable_typed (gathers : String → Prop) : Stable (Typed gathers) where
  newObject hnull h := h.newObject (ObjectData.typed_of_null hnull)
  setProperty hset h := h.setProperty hset

end Store

/-! ## Changes in place -/

/-- The last step of a path. -/
def Text.lastStep (path : String) : String := (steps path).getLast (steps_ne_nil path)

/-- A walk leaves the last step of its path, unless a document tree takes the rest. -/
theorem Store.walkMaking_left {last : String} {x : ObjectRef} {left : List String} {t : Store} :
    ∀ {steps : List String} {r : ObjectRef} {s : Store}, steps.getLast? = some last →
      (walkMaking r steps).run s = (.ok (x, left), t) → left = [last] ∨ t.kind x = .dom
  | [], _, _, hlast, _ => by cases hlast
  | [_], _, _, hlast, hrun => by
    cases hlast
    cases hrun
    exact .inl rfl
  | step :: next :: steps, r, s, hlast, hrun => by
    rw [List.getLast?_cons_cons] at hlast
    unfold walkMaking at hrun
    rw [run_bind_ok (x := Edit.store) rfl] at hrun
    split at hrun
    · rename_i hdom
      cases hrun
      exact .inr hdom
    · obtain ⟨v, u, -, hrun⟩ := run_bind_eq_ok.1 hrun
      split at hrun
      · exact walkMaking_left hlast hrun
      · obtain ⟨child, w, -, hrun⟩ := run_bind_eq_ok.1 hrun
        exact walkMaking_left hlast hrun
      · cases hrun

/-- Changing a property in place keeps the objects typed, if elements are gathered at the last step of
its path and the change takes no value away. -/
theorem Store.Typed.update {gathers : String → Prop} {s : Store} (h : s.Typed gathers)
    (accessor : Accessor) (v : Value) {path : String} (hg : gathers (Text.lastStep path))
    {change : Store → Value → Value × Except Error Unit}
    (hchange : ∀ s w, Value.Extends w (change s w).1) :
    ((accessor.update v path change).run s).2.Typed gathers := by
  have howner := (stable_typed gathers).owner accessor v path h
  unfold Accessor.update Accessor.slot
  rw [bind_assoc]
  rcases hrun : (accessor.owner v path).run s with ⟨e | ⟨x, left⟩, t⟩ <;> rw [hrun] at howner
  · rw [run_bind_error hrun]
    exact howner
  · rw [run_bind_ok hrun]
    obtain ⟨root, u, -, hwalk⟩ := run_bind_eq_ok.1 hrun
    have hleft := walkMaking_left (List.getLast?_eq_some_getLast (Text.steps_ne_nil path)) hwalk
    rcases Accessor.run_updateProperty change x (Text.path left) t with ⟨e, he⟩ | ⟨slot, hslot, hdone⟩
    · exact he ▸ howner
    · rw [hdone]
      refine howner.fillSlot hslot (fun hbean => ?_) (hchange t _)
      -- a bean takes no more than the last step
      obtain rfl := hleft.resolve_right fun hdom => nomatch hbean.symm.trans hdom
      rw [Text.path_singleton]
      exact hg

end RowMapper
