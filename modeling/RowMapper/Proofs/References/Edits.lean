/-
Writing to objects looks nothing up in a catalog and puts off no query: an error of a write is no
failed look-up, and the lazy values of the store stay as they are (`Edit.Finds`).
-/
import RowMapper.Proofs.Engine.Pairing
import RowMapper.Proofs.References.Faults

namespace RowMapper

variable {α : Type}

/-- The lazy values are the same. -/
def Store.SameLazies (s t : Store) : Prop := t.lazies = s.lazies

instance : Std.Refl Store.SameLazies := ⟨fun _ => rfl⟩

instance : IsTrans Store Store.SameLazies := ⟨fun _ _ _ h h' => Eq.trans h' h⟩

/-- An edit that looks nothing up in vain and leaves the lazy values as they are. -/
abbrev Edit.Finds (edit : Edit α) : Prop :=
  Keeps (fun _ => True) Store.SameLazies (fun e => e.dangles = false) Always edit

namespace Edit.Finds

theorem ofExcept {outcome : Except Error α} (h : Found outcome) : Finds (Edit.ofExcept outcome) :=
  fun _ _ => ⟨trivial, rfl, h⟩

theorem read {f : Store → Except Error α} (h : ∀ s, Found (f s)) : Finds (Edit.read f) :=
  fun s _ => ⟨trivial, rfl, h s⟩

theorem store : Finds Edit.store := fun _ _ => ⟨trivial, rfl, trivial⟩

theorem change {f : Store → Except Error Store}
    (h : ∀ s, Ends (fun e => e.dangles = false) (s.SameLazies ·) (f s)) : Finds (Edit.change f) := by
  intro s _
  have hs := h s
  show True ∧ s.SameLazies ((Edit.change f).run s).2 ∧ Found ((Edit.change f).run s).1
  cases hf : f s with
  | error e =>
    rw [hf] at hs
    rw [run_change_error hf]
    exact ⟨trivial, rfl, hs⟩
  | ok t =>
    rw [hf] at hs
    rw [run_change_ok hf]
    exact ⟨trivial, hs, trivial⟩

theorem make {f : Store → Except Error (α × Store)}
    (h : ∀ s, Ends (fun e => e.dangles = false) (fun made => s.SameLazies made.2) (f s)) :
    Finds (Edit.make f) := by
  intro s _
  have hs := h s
  show True ∧ s.SameLazies ((Edit.make f).run s).2 ∧ Found ((Edit.make f).run s).1
  cases hf : f s with
  | error e =>
    rw [hf] at hs
    rw [run_make_error hf]
    exact ⟨trivial, rfl, hs⟩
  | ok made =>
    rw [hf] at hs
    rw [run_make_ok hf]
    exact ⟨trivial, hs, trivial⟩

theorem newObject (data : ObjectData) : Finds (Edit.newObject data) := make fun _ => rfl

theorem instantiate (type : DataType) : Finds (Edit.make type.instantiate) := by
  refine make fun s => ?_
  unfold DataType.instantiate
  split
  · exact rfl
  · split
    · exact rfl
    · exact rfl

theorem setProperty (ref : ObjectRef) (property : String) (v : Value) :
    Finds (Edit.change (·.setProperty ref property v)) := by
  refine change fun s => ?_
  unfold Store.setProperty
  split
  · exact rfl
  · rename_i type fields _
    cases hi : Store.fieldIndex type property with
    | error e =>
      have hfound := Store.found_fieldIndex type property
      rw [hi] at hfound
      exact hfound
    | ok index =>
      have hfound := ((type.propertyType? property).getD .object).found_cast v
      show Ends _ _ (((type.propertyType? property).getD .object).cast v >>= _)
      cases hc : ((type.propertyType? property).getD .object).cast v with
      | error e =>
        rw [hc] at hfound
        exact hfound
      | ok v => exact rfl
  · exact rfl

/-! ## Paths -/

theorem makeChild (ref : ObjectRef) (step : String) : Finds (Store.makeChild ref step) := by
  unfold Store.makeChild
  refine (read fun s => s.found_setterType ref step).bind fun declared _ => ?_
  refine (instantiate _).bind fun child _ => ?_
  exact (setProperty ref step child).bind fun _ _ => ofExcept (Store.found_objectAt child step)

theorem walkMaking : ∀ (steps : List String) (ref : ObjectRef), Finds (Store.walkMaking ref steps)
  | [], _ => .pure trivial
  | [_], _ => .pure trivial
  | step :: next :: steps, ref => by
    unfold Store.walkMaking
    refine store.bind fun s _ => ?_
    split
    · exact .pure trivial
    · refine (read fun s => s.found_getProperty ref step).bind fun v _ => ?_
      split
      · exact walkMaking (next :: steps) _
      · exact (makeChild ref step).bind fun child _ => walkMaking (next :: steps) child
      · exact .throw rfl

variable (accessor : Accessor)

theorem owner (v : Value) (path : String) : Finds (accessor.owner v path) :=
  (read fun s => accessor.found_root s v path).bind fun root _ => walkMaking _ root

theorem set (v : Value) (path : String) (value : Value) : Finds (accessor.set v path value) :=
  (owner accessor v path).bind fun _ _ => setProperty _ _ value

theorem fillSlot (s : Store) (slot : Slot) (v : Value) : s.SameLazies (s.fillSlot slot v) := by
  unfold Store.fillSlot
  split <;> split <;> rfl

/-- Changing a property in place fails as its new value does. -/
theorem update {f : Store → Value → Value × Except Error Unit} (hf : ∀ s v, Found (f s v).2)
    (v : Value) (path : String) : Finds (accessor.update v path f) := by
  have hslot : Finds (accessor.slot v path) :=
    (owner accessor v path).bind fun owner _ => read fun s => s.found_slotOf owner.1 _
  have hfill : ∀ (slot : Slot) (value : Value),
      Finds (Edit.change fun s => .ok (s.fillSlot slot value)) :=
    fun slot value => change fun s => fillSlot s slot value
  refine hslot.bind fun slot _ => ?_
  unfold Accessor.updateSlot
  refine store.bind fun s _ => ?_
  have houtcome := hf s (s.slotValue slot)
  dsimp only
  split
  · rename_i e he
    rw [he] at houtcome
    exact .throw houtcome
  · exact (hfill _ _).bind fun _ _ => ofExcept houtcome

/-! ## Results -/

theorem newTarget (exchange : Exchange) (m : ResultMap) : Finds (exchange.newTarget m) := by
  unfold Exchange.newTarget
  split
  · exact instantiate _
  · exact .throw rfl
  · exact newObject _
  · exact newObject _

theorem fillMap (m : ResultMap) (target : Value) (pairs : List (ResultMapping × Value)) :
    Finds (Exchange.fillMap m target pairs) := by
  unfold Exchange.fillMap
  refine store.bind fun s _ => ?_
  split
  · split
    · exact .forM fun pair _ => setProperty _ _ _
    · exact .throw rfl
  · exact .throw rfl

theorem fill (exchange : Exchange) (m : ResultMap) (target : Value)
    (pairs : List (ResultMapping × Value)) : Finds (exchange.fill accessor m target pairs) := by
  unfold Exchange.fill
  split
  · exact .forM fun pair _ => set accessor _ _ _
  · refine .forM fun pair _ => ?_
    split
    · exact .pure trivial
    · exact set accessor _ _ _
  · exact fillMap _ _ _

theorem setData (exchange : Exchange) (m : ResultMap) (mappings : List ResultMapping)
    (target : Option Value) (values : List Value) :
    Finds (exchange.setData accessor m mappings target values) := by
  unfold Exchange.setData
  dsimp only
  split
  · exact .pure trivial
  · exact .pure trivial
  · have htarget : ∀ v : Value, Finds (do
        exchange.fill accessor m v (Exchange.assignable mappings values)
        return v) := fun v => (fill accessor exchange m v _).bind fun _ _ => .pure trivial
    split
    · exact htarget _
    · exact (newTarget exchange m).bind fun v _ => htarget v

theorem writeOutputs (m : ParameterMap) (parameter : Value) (out : OutParams) :
    Finds (m.writeOutputs accessor parameter out) := by
  unfold ParameterMap.writeOutputs
  split
  · refine .forM fun pair _ => ?_
    dsimp only
    split
    · refine (ofExcept pair.1.found_requireCoercer).bind fun c _ => ?_
      exact (ofExcept (c.found_readOutput out _)).bind fun v _ => set accessor _ _ _
    · exact .pure trivial
  · exact .pure trivial

end Edit.Finds

end RowMapper
