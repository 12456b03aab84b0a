/-
Reading and writing under other names. In two stores of which one holds the objects of the other under
new names, whatever is read from corresponding objects corresponds, and writing corresponding values
to them keeps the stores so.
-/
import RowMapper.Proofs.Access.Writing
import RowMapper.Proofs.Data.Renaming
import RowMapper.Statement.Basic

namespace RowMapper

namespace Table

variable {α β : Type} {f : α → β}

theorem get?_map_values (key : String) (table : List (String × α)) :
    get? key (table.map fun entry => (entry.1, f entry.2)) = (get? key table).map f := by
  induction table with
  | nil => rfl
  | cons entry rest ih =>
    obtain ⟨k, v⟩ := entry
    by_cases h : k = key <;> simp [get?, h, ih]

theorem put_map_values (key : String) (value : α) (table : List (String × α)) :
    put key (f value) (table.map fun entry => (entry.1, f entry.2)) =
      (put key value table).map fun entry => (entry.1, f entry.2) := by
  induction table with
  | nil => rfl
  | cons entry rest ih =>
    obtain ⟨k, v⟩ := entry
    by_cases h : k = key <;> simp [put, h, ih]

end Table

def Slot.rename (φ : Renaming) : Slot → Slot
  | .entry ref key => .entry (φ.object ref) key
  | .field ref index => .field (φ.object ref) index
  | .content ref path => .content (φ.object ref) path

namespace Renaming.Copies

variable {φ : Renaming} {s t : Store} (h : φ.Copies s t)

include h

theorem kind (ref : ObjectRef) : t.kind (φ.object ref) = s.kind ref := by
  simp [Store.kind, h.data]

theorem type (ref : ObjectRef) : t.type (φ.object ref) = s.type ref := by
  simp [Store.type, h.data]

theorem nodeOf (v : Value) : t.nodeOf (v.rename φ) = s.nodeOf v := by
  cases v <;> try exact congrArg DomNode.text (h.text _)
  rename_i ref
  have htext : t.text (.object (φ.object ref)) = s.text (.object ref) := h.text (.object ref)
  simp only [Store.nodeOf, Value.rename, h.data, htext]
  cases s.data ref <;> rfl

theorem nodesOf (v : Value) : t.nodesOf (v.rename φ) = s.nodesOf v := by
  cases v <;> try exact congrArg (fun text => [DomNode.text text]) (h.text _)
  · rfl
  · simp [Store.nodesOf, Value.rename, Value.renameAll_eq_map, Function.comp_def, h.nodeOf]
  · simp [Store.nodesOf, Value.rename, Value.renameAll_eq_map, Function.comp_def, h.nodeOf]
  · rename_i ref
    have htext : t.text (.object (φ.object ref)) = s.text (.object ref) := h.text (.object ref)
    simp only [Store.nodesOf, Value.rename, h.data, htext]
    cases s.data ref with
    | dom node => cases node <;> rfl
    | _ => rfl

theorem getProperty (ref : ObjectRef) (property : String) :
    t.getProperty (φ.object ref) property = (s.getProperty ref property).map (·.rename φ) := by
  unfold Store.getProperty
  rw [h.data]
  cases s.data ref with
  | map entries =>
    simp only [ObjectData.rename, Table.get?_map_values]
    cases Table.get? property entries <;> rfl
  | bean type fields =>
    simp only [ObjectData.rename]
    cases Store.fieldIndex type property with
    | error e => rfl
    | ok i =>
      have hi : (fields.map (·.rename φ))[i]?.getD .null = (fields[i]?.getD .null).rename φ := by
        rw [List.getElem?_map]
        cases fields[i]? <;> rfl
      exact congrArg Except.ok hi
  | dom node =>
    simp only [ObjectData.rename]
    cases node.find? property <;> rfl

theorem setterType (ref : ObjectRef) (property : String) :
    t.setterType (φ.object ref) property = s.setterType ref property := by
  unfold Store.setterType
  rw [h.data]
  cases s.data ref <;> rfl

theorem setProperty (ref : ObjectRef) (property : String) (v : Value) :
    (∃ e, s.setProperty ref property v = .error e ∧
      t.setProperty (φ.object ref) property (v.rename φ) = .error e) ∨
    ∃ s' t', s.setProperty ref property v = .ok s' ∧
      t.setProperty (φ.object ref) property (v.rename φ) = .ok t' ∧ φ.Copies s' t' := by
  unfold Store.setProperty
  rw [h.data]
  cases s.data ref with
  | map entries =>
    refine .inr ⟨_, _, rfl, rfl, ?_⟩
    rw [Table.put_map_values]
    exact h.setData ref (.map (Table.put property v entries))
  | bean type fields =>
    simp only [ObjectData.rename, DataType.cast_rename]
    cases Store.fieldIndex type property with
    | error e => exact .inl ⟨e, rfl, rfl⟩
    | ok i =>
      cases ((type.propertyType? property).getD .object).cast v with
      | error e => exact .inl ⟨e, rfl, rfl⟩
      | ok w =>
        refine .inr ⟨_, _, rfl, rfl, ?_⟩
        rw [← List.map_set]
        exact h.setData ref (.bean type (fields.set i w))
  | dom node =>
    refine .inr ⟨_, _, rfl, rfl, ?_⟩
    rw [h.nodesOf]
    exact h.setData ref (.dom _)

theorem slotOf (ref : ObjectRef) (property : String) :
    t.slotOf (φ.object ref) property = (s.slotOf ref property).map (·.rename φ) := by
  unfold Store.slotOf
  rw [h.data]
  cases s.data ref with
  | map entries => rfl
  | bean type fields =>
    simp only [ObjectData.rename]
    cases Store.fieldIndex type property <;> rfl
  | dom node => rfl

theorem slotValue (slot : Slot) : t.slotValue (slot.rename φ) = (s.slotValue slot).rename φ := by
  cases slot with
  | entry ref key =>
    simp only [Slot.rename, Store.slotValue, h.data]
    cases s.data ref with
    | map entries =>
      simp only [ObjectData.rename, Table.get?_map_values]
      cases Table.get? key entries <;> rfl
    | bean type fields => rfl
    | dom node => rfl
  | field ref index =>
    simp only [Slot.rename, Store.slotValue, h.data]
    cases s.data ref with
    | map entries => rfl
    | bean type fields =>
      simp only [ObjectData.rename, List.getElem?_map]
      cases fields[index]? <;> rfl
    | dom node => rfl
  | content ref path => rfl

theorem fillSlot (slot : Slot) (v : Value) :
    φ.Copies (s.fillSlot slot v) (t.fillSlot (slot.rename φ) (v.rename φ)) := by
  cases slot with
  | entry ref key =>
    simp only [Slot.rename, Store.fillSlot, h.data]
    cases s.data ref with
    | map entries =>
      simp only [ObjectData.rename, Table.put_map_values]
      exact h.setData ref (.map (Table.put key v entries))
    | bean type fields => exact h
    | dom node => exact h
  | field ref index =>
    simp only [Slot.rename, Store.fillSlot, h.data]
    cases s.data ref with
    | map entries => exact h
    | bean type fields =>
      simp only [ObjectData.rename, ← List.map_set]
      exact h.setData ref (.bean type (fields.set index v))
    | dom node => exact h
  | content ref path =>
    simp only [Slot.rename, Store.fillSlot, h.data, h.nodesOf]
    cases s.data ref with
    | map entries => exact h
    | bean type fields => exact h
    | dom node => exact h.setData ref (.dom _)

end Renaming.Copies

/-- Stores that hold the same objects under two sets of names. -/
def Renaming.onStore (φ : Renaming) : StoreCorrespondence where
  paired := φ.Copies
  later _ _ := True
  refl _ := trivial
  trans _ _ := trivial
  values _ v w := w = v.rename φ
  owners _ r r' _ := r' = φ.object r
  values_later _ := id
  owners_later _ := id

namespace Renaming

variable {φ : Renaming} {s t : Store}

theorem writes (φ : Renaming) : φ.onStore.Writes where
  null := rfl
  variant := by
    rintro s v w rfl
    exact (Value.variant_rename v).symm
  object := by
    rintro s r w rfl
    exact ⟨φ.object r, rfl, fun _ => rfl⟩
  kind := by
    rintro s t r r' step h rfl
    exact (h.kind r).symm
  type := by
    rintro s t r r' step h rfl
    exact (h.type r).symm
  setterType := by
    rintro s t r r' step property h rfl
    exact (h.setterType r property).symm
  getProperty := by
    rintro s t r r' step h rfl
    rw [h.getProperty]
    cases s.getProperty r step <;> exact rfl
  setProperty := by
    rintro s t r r' step a b rest h rfl - rfl
    refine .inr ?_
    rcases h.setProperty r (Text.path (step :: rest)) a with ⟨e, hs, ht⟩ | ⟨s', t', hs, ht, h'⟩
    · rw [run_change_error hs, run_change_error ht]
      exact ⟨h, trivial, rfl⟩
    · rw [run_change_ok hs, run_change_ok ht]
      exact ⟨h', trivial, trivial⟩
  newObject := by
    rintro s t data h hnull
    have hnew := h.newObject data
    rw [ObjectData.rename_eq_self hnull] at hnew
    exact .inr ⟨hnew, trivial, congrArg Value.object (h.nextObject 0).symm⟩
  empty := by
    intro s v type he
    unfold DataType.emptyCollection? at he
    split at he <;> cases he <;> rfl

theorem record_values {fields fields' : List Value}
    (h : List.Forall₂ (φ.onStore.values s) fields fields') :
    φ.onStore.values s (.record fields) (.record fields') := by
  have hmap : fields' = fields.map (·.rename φ) := by
    induction h with
    | nil => rfl
    | cons hv _ ih => rw [hv, ih]; rfl
  show Value.record fields' = .record (Value.renameAll φ fields)
  rw [hmap, Value.renameAll_eq_map]

theorem updateSlot {f f' : Store → Value → Value × Except Error Unit} (slot : Slot)
    (hf : ∀ v, f' t (v.rename φ) = ((f s v).1.rename φ, (f s v).2)) (h : φ.Copies s t) :
    φ.onStore.InStep Pairing.Any (Accessor.updateSlot f slot)
      (Accessor.updateSlot f' (slot.rename φ)) s t := by
  unfold Accessor.updateSlot
  refine .store_bind ?_
  rw [h.slotValue, hf]
  rcases f s (s.slotValue slot) with ⟨value, outcome⟩
  have hfill : ∀ slot : Slot, φ.onStore.InStep Pairing.Any
      (Edit.change (fun s => .ok (s.fillSlot slot value)) >>= fun _ => Edit.ofExcept outcome)
      (Edit.change (fun s => .ok (s.fillSlot (slot.rename φ) (value.rename φ))) >>= fun _ =>
        Edit.ofExcept outcome) s t := by
    intro slot
    have hstep : φ.onStore.InStep Pairing.Any (Edit.change fun s => .ok (s.fillSlot slot value))
        (Edit.change fun s => .ok (s.fillSlot (slot.rename φ) (value.rename φ))) s t :=
      .inr ⟨h.fillSlot slot value, trivial, trivial⟩
    exact hstep.bind fun _ _ _ _ _ hp _ => .editOf hp fun _ _ => trivial
  cases slot with
  | content ref path =>
    cases outcome with
    | error e => exact .throw h
    | ok _ => exact hfill (.content ref path)
  | entry ref key => exact hfill (.entry ref key)
  | field ref index => exact hfill (.field ref index)

/-- Changing a property in place keeps the stores as they are to each other. -/
theorem update (accessor : Accessor) (path : String) (v : Value)
    {f f' : Store → Value → Value × Except Error Unit}
    (hf : ∀ {s t : Store} (v : Value), φ.Copies s t →
      f' t (v.rename φ) = ((f s v).1.rename φ, (f s v).2)) (h : φ.Copies s t) :
    φ.onStore.InStep Pairing.Any (accessor.update v path f)
      (accessor.update (v.rename φ) path f') s t := by
  refine φ.writes.update accessor path h (fun step rest _ => φ.writes.roots step rfl) ?_
  rintro s₁ t₁ r r' step rest - hp rfl -
  have hslot : φ.onStore.InStep (fun _ a b => b = a.rename φ)
      (Edit.read (·.slotOf r (Text.path (step :: rest))))
      (Edit.read (·.slotOf (φ.object r) (Text.path (step :: rest)))) s₁ t₁ := by
    refine .inr ⟨hp, trivial, ?_⟩
    show Outcomes _ (s₁.slotOf r _) (t₁.slotOf (φ.object r) _)
    rw [hp.slotOf]
    cases s₁.slotOf r (Text.path (step :: rest)) <;> exact rfl
  refine hslot.bind ?_
  rintro s₂ t₂ slot _ - hp rfl
  exact updateSlot slot (fun v => hf v hp) hp

end Renaming

/-! ## Parameters -/

/-- Outcomes that correspond by a function are the outcomes of the function. -/
theorem Outcomes.eq_map {ε α β : Type} {f : α → β} {x : Except ε α} {y : Except ε β}
    (h : Outcomes (fun a b => b = f a) x y) : y = x.map f := by
  cases x <;> cases y
  · exact congrArg Except.error h.symm
  · exact h.elim
  · exact h.elim
  · exact congrArg Except.ok h

def Param.rename (φ : Renaming) (param : Param) : Param :=
  { param with value := param.value.rename φ }

def Params.rename (φ : Renaming) (params : Params) : Params := params.map (Param.rename φ)

section

variable {φ : Renaming} {s t : Store}

theorem Params.set_rename (params : Params) (index : Nat) (v : Value) :
    (params.rename φ).set index (v.rename φ) = (params.set index v).rename φ := by
  simp [Params.rename, Params.set, setAt, List.map_set, Param.rename, Value.rename]

theorem Params.setNull_rename (params : Params) (index : Nat) (sqlType : Option String) :
    (params.rename φ).setNull index sqlType = (params.setNull index sqlType).rename φ := by
  simp [Params.rename, Params.setNull, setAt, List.map_set, Param.rename, Value.rename]

theorem Params.values_rename (params : Params) :
    Params.values (params.rename φ) = (Params.values params).map (·.rename φ) := by
  simp [Params.rename, Params.values, Param.rename, Function.comp_def]

theorem Params.ofValues_rename (values : List Value) :
    Params.ofValues (values.map (·.rename φ)) = (Params.ofValues values).rename φ := by
  simp [Params.rename, Params.ofValues, Param.rename, Function.comp_def]

theorem bindImplicit_rename (v : Value) : bindImplicit (v.rename φ) = (bindImplicit v).rename φ := by
  cases v <;> first
    | rfl
    | (simp only [Value.rename, bindImplicit, Value.renameAll_eq_map]
       exact Params.ofValues_rename _)

theorem Coercer.bind_rename (c : Coercer) (params : Params) (index : Nat) (v : Value)
    (sqlType : Option String) :
    c.bind (params.rename φ) index (v.rename φ) sqlType =
      (c.bind params index v sqlType).map (Params.rename φ) := by
  unfold Coercer.bind
  rw [Value.isNull_rename]
  split
  · exact congrArg Except.ok (Params.setNull_rename params index sqlType)
  · rw [DataType.cast_rename]
    cases c.type.cast v with
    | error e => rfl
    | ok w => exact congrArg Except.ok (Params.set_rename params index w)

namespace Renaming.Copies

variable (h : φ.Copies s t)

include h

theorem get (accessor : Accessor) (v : Value) (path : String) :
    accessor.get t (v.rename φ) path = (accessor.get s v path).map (·.rename φ) :=
  (φ.writes.get accessor path h (fun step _ _ => φ.writes.roots step rfl)
    fun _ ho _ => φ.writes.getProperty _ h ho).eq_map

theorem getData (exchange : Exchange) (accessor : Accessor) (properties : List String) (v : Value) :
    exchange.getData accessor t properties (v.rename φ) =
      (exchange.getData accessor s properties v).map (List.map (·.rename φ)) := by
  have hmap : properties.mapM (accessor.get t (v.rename φ)) =
      (properties.mapM (accessor.get s v)).map (List.map (·.rename φ)) := by
    induction properties with
    | nil => rfl
    | cons property properties ih =>
      rw [List.mapM_cons, List.mapM_cons, ih, h.get]
      cases accessor.get s v property with
      | error e => rfl
      | ok w => cases properties.mapM (accessor.get s v) <;> rfl
  cases exchange with
  | map => exact hmap
  | bean => exact hmap
  | dom => exact hmap
  | scalar => exact congrArg Except.ok (by simp)
  | record =>
    have hitem : ∀ (items : List Value) (i : Nat),
        ((items.map (·.rename φ))[i]?).getD .null = (items[i]?.getD .null).rename φ := by
      intro items i
      rw [List.getElem?_map]
      cases items[i]? <;> rfl
    refine congrArg Except.ok ?_
    rw [List.map_map]
    refine List.map_congr_left fun i _ => ?_
    cases v <;> simp only [Value.rename, Value.renameAll_eq_map, Function.comp_def, hitem] <;> rfl

theorem ofValue (v : Value) : Exchange.ofValue t (v.rename φ) = Exchange.ofValue s v := by
  cases v <;> try rfl
  rename_i ref
  simp only [Value.rename, Exchange.ofValue, h.kind]

theorem bindMapping (m : ParameterMapping) (params : Params) (index : Nat) (v : Value) :
    m.bind t (params.rename φ) index (v.rename φ) =
      (m.bind s params index v).map (Params.rename φ) := by
  unfold ParameterMapping.bind
  split
  · exact congrArg Except.ok (Params.setNull_rename params index m.sqlType)
  cases m.requireCoercer with
  | error e => rfl
  | ok c =>
    cases m.nullValue with
    | none => exact c.bind_rename params index v m.sqlType
    | some text =>
      cases hv : c.valueOf text with
      | error e => simp [hv, Except.map, Bind.bind, Except.bind]
      | ok sentinel =>
        -- a sentinel refers to nothing, so it has the same equals in both stores
        have hsame := h.same sentinel v
        rw [(Coercer.valueOf_plain sentinel hv).rename] at hsame
        simp only [hv, Except.map, Bind.bind, Except.bind, hsame]
        split
        · exact c.bind_rename params index .null m.sqlType
        · exact c.bind_rename params index v m.sqlType

theorem bindFrom (index : Nat) (pairs : List (ParameterMapping × Value)) (params : Params) :
    ParameterMap.bindFrom t index (pairs.map fun pair => (pair.1, pair.2.rename φ)) (params.rename φ) =
      (ParameterMap.bindFrom s index pairs params).map (Params.rename φ) := by
  induction pairs generalizing index params with
  | nil => rfl
  | cons pair pairs ih =>
    obtain ⟨mapping, v⟩ := pair
    show (mapping.bind t (params.rename φ) index (v.rename φ) >>= fun params =>
        ParameterMap.bindFrom t (index + 1) (pairs.map fun pair => (pair.1, pair.2.rename φ)) params) =
      (mapping.bind s params index v >>= ParameterMap.bindFrom s (index + 1) pairs).map _
    rw [h.bindMapping]
    cases mapping.bind s params index v with
    | error e => rfl
    | ok params' => exact ih (index + 1) params'

/-- What is bound of a renamed parameter is renamed. -/
theorem bind (statement : Statement) (accessor : Accessor) (v : Value) :
    statement.bind accessor t (v.rename φ) = (statement.bind accessor s v).map (Params.rename φ) := by
  unfold Statement.bind
  cases statement.parameterMap with
  | none => exact congrArg Except.ok (bindImplicit_rename v)
  | some m =>
    dsimp only
    unfold ParameterMap.bind
    rw [h.ofValue]
    dsimp only
    rw [h.getData]
    cases (Exchange.ofValue s v).getData accessor s (m.mappings.map (·.property)) v with
    | error e => rfl
    | ok values =>
      have hzip : m.mappings.zip (values.map (·.rename φ)) =
          (m.mappings.zip values).map fun pair => (pair.1, pair.2.rename φ) := by
        rw [List.zip_map_right]
        rfl
      show ParameterMap.bindFrom t 0 (m.mappings.zip (values.map (·.rename φ))) [] = _
      rw [hzip]
      exact h.bindFrom 0 (m.mappings.zip values) []

end Renaming.Copies

end

end RowMapper
