/-
What a new object of a map holds. The values of a row are put, cast to the declared types, at the
properties that they are for, and as long as no two mappings have the same property each stays there.
-/
import RowMapper.Proofs.Engine.Watch

namespace RowMapper

variable {m : ResultMap} {watched : String → Prop} {property : String} {v : Value} {s t : Store}
  {r : ObjectRef}

theorem DataType.cast_object (v : Value) : DataType.object.cast v = .ok v := by cases v <;> rfl

/-- The objects of a map that are maps take values of any type. -/
theorem ObjectData.Fits.propertyType_map {entries : List (String × Value)}
    (h : ObjectData.Fits m watched (.map entries)) (property : String) :
    m.propertyType property = .object := by
  unfold ResultMap.propertyType
  rcases h.shape with ⟨-, he⟩ | ⟨hk, -⟩
  · rcases ResultMap.exchange_map he with hc | hc | hc <;> rw [hc]
  · cases hk

theorem ObjectData.Fits.resultClass_bean {type : BeanType} {fields : List Value}
    (h : ObjectData.Fits m watched (.bean type fields)) :
    m.resultClass = some (.bean type.name type.properties) := by
  rcases h.shape with ⟨hk, -⟩ | ⟨-, hc⟩
  · cases hk
  · exact hc

/-- What is written at a property of an object of a map is there, cast to the declared type. -/
theorem Store.setProperty_slot? (h : (s.data r).Fits m watched) (hlt : r.index < s.objects.size)
    (hslot : m.HasPlace property → ((s.data r).slot? property).isSome)
    (hset : s.setProperty r property v = .ok t) :
    ∃ w, (m.propertyType property).cast v = .ok w ∧ (t.data r).slot? property = some w := by
  unfold setProperty at hset
  cases hd : s.data r with
  | map entries =>
    rw [hd] at h hset
    cases hset
    refine ⟨v, by rw [h.propertyType_map, DataType.cast_object], ?_⟩
    rw [data_setData_self hlt, ObjectData.slot?_map, Table.get?_put_self]
    rfl
  | bean type fields =>
    rw [hd] at h hset hslot
    obtain ⟨i, hi, hset⟩ := Except.bind_eq_ok_iff.1 hset
    obtain ⟨w, hw, hset⟩ := Except.bind_eq_ok_iff.1 hset
    cases hset
    have hindex : Table.indexOf? property type.properties = some i := by
      unfold fieldIndex at hi
      split at hi <;> cases hi
      assumption
    have hplace : m.HasPlace property := by
      intro name properties hc hnone
      rw [h.resultClass_bean] at hc
      cases hc
      rw [hnone] at hindex
      cases hindex
    refine ⟨w, ?_, ?_⟩
    · unfold ResultMap.propertyType
      rw [h.resultClass_bean]
      exact hw
    · have hold := hslot hplace
      rw [ObjectData.slot?_bean, hindex, Option.bind_some] at hold
      obtain ⟨u, hu⟩ := Option.isSome_iff_exists.1 hold
      rw [data_setData_self hlt, ObjectData.slot?_bean, hindex]
      exact List.getElem?_set_self (List.getElem?_eq_some_iff.1 hu).1
  | dom node =>
    rw [hd] at h
    rcases h.shape with ⟨hk, -⟩ | ⟨hk, -⟩ <;> cases hk

/-- Values that are written at distinct properties one after the other are all there behind. -/
theorem Store.setProperties_slot? {write : ResultMapping × Value → Edit Unit} :
    ∀ {pairs : List (ResultMapping × Value)} {s t : Store},
      (∀ pair ∈ pairs, ∀ u u', (write pair).run u = (.ok (), u') →
        u.setProperty r pair.1.property pair.2 = .ok u') →
      (pairs.map (·.1.property)).Nodup → (s.data r).Fits m (fun _ => False) →
      r.index < s.objects.size →
      (∀ property, m.HasPlace property → ((s.data r).slot? property).isSome) →
      (pairs.forM write).run s = (.ok (), t) →
      (∀ property, property ∉ pairs.map (·.1.property) →
        (t.data r).slot? property = (s.data r).slot? property) ∧
      ∀ pair ∈ pairs, ∃ w, (m.propertyType pair.1.property).cast pair.2 = .ok w ∧
        (t.data r).slot? pair.1.property = some w
  | [], s, t, _, _, _, _, _, hrun => by
    cases hrun
    exact ⟨fun _ _ => rfl, fun _ hp => absurd hp List.not_mem_nil⟩
  | pair :: pairs, s, t, hwrite, hnodup, hfits, hlt, hplace, hrun => by
    obtain ⟨_, u, hone, hrest⟩ := run_bind_eq_ok.1 hrun
    have hset := hwrite pair (List.mem_cons_self ..) s u hone
    obtain ⟨w, hw, hslot⟩ := setProperty_slot? hfits hlt (hplace pair.1.property) hset
    obtain ⟨d, rfl, hd⟩ := setProperty_eq_ok hset
    rw [data_setData_self hlt] at hslot
    obtain ⟨hfirst, hnodup⟩ := List.nodup_cons.1 hnodup
    -- the first value is written before the others, which leave it
    have hgrows : (s.data r).Grows (fun _ => False) True d := hd.grows id
    have hplace' : ∀ property, m.HasPlace property → (d.slot? property).isSome := by
      intro property hp
      by_cases he : property = pair.1.property
      · rw [he, hslot]
        rfl
      · rw [hd.others property he]
        exact hplace property hp
    obtain ⟨hothers, hthere⟩ := setProperties_slot?
      (fun p hp => hwrite p (List.mem_cons_of_mem _ hp)) hnodup
      (by rw [data_setData_self hlt]; exact hfits.grows hgrows) (by rwa [size_setData])
      (by rwa [data_setData_self hlt]) hrest
    refine ⟨fun property hp => ?_, fun p hp => ?_⟩
    · rw [List.map_cons, List.mem_cons, not_or] at hp
      rw [hothers property hp.2, data_setData_self hlt, hd.others property hp.1]
    · rcases List.mem_cons.1 hp with rfl | hp
      · exact ⟨w, hw, by rw [hothers _ hfirst, data_setData_self hlt, hslot]⟩
      · exact hthere p hp

theorem run_change_eq_ok {f : Store → Except Error Store} (h : (Edit.change f).run s = (.ok (), t)) :
    f s = .ok t := by
  cases hf : f s with
  | error e =>
    rw [run_change_error hf] at h
    cases h
  | ok u =>
    rw [run_change_ok hf] at h
    cases h
    rfl

/-- Writing a property of the object itself is writing it there. -/
theorem Accessor.run_set_single (hp : Text.steps property = [property]) {accessor : Accessor}
    (h : (accessor.set (.object r) property v).run s = (.ok (), t)) :
    s.setProperty r property v = .ok t := by
  rcases run_set_cases hp accessor r v s with ⟨e, he⟩ | hset
  · rw [he] at h
    cases h
  · exact run_change_eq_ok (hset.symm.trans h)

/-- A map object is filled property by property. -/
theorem Exchange.run_fillMap (h : s.kind r = .map) (m : ResultMap)
    (pairs : List (ResultMapping × Value)) :
    (fillMap m (.object r) pairs).run s =
      (pairs.forM fun pair => Edit.change (·.setProperty r pair.1.property pair.2)).run s := by
  unfold fillMap
  rw [run_bind_ok (x := Edit.store) rfl]
  dsimp only
  rw [if_pos h]

/-- The values of a row that go into a new object of a map are at their properties behind. -/
theorem ResultMap.setData_slot? (hm : m.exchange = .map ∨ m.exchange = .bean) {accessor : Accessor}
    {mappings : List ResultMapping} {values : List Value} {object : Value}
    (hlen : mappings.length ≤ values.length) (hnodup : (mappings.map (·.property)).Nodup)
    (hsingle : ∀ mapping ∈ mappings, '.' ∉ mapping.property.toList)
    (hrun : (m.exchange.setData accessor m mappings none values).run s = (.ok object, t)) :
    ∀ pair ∈ mappings.zip values, pair.1.isNestedMap = false →
      ∃ w, (m.propertyType pair.1.property).cast pair.2 = .ok w ∧
        (t.data ⟨s.objects.size⟩).slot? pair.1.property = some w := by
  obtain ⟨d, hblank⟩ := exists_blank hm
  rw [run_setData hblank] at hrun
  obtain ⟨_, u, hfill, hret⟩ := run_bind_eq_ok.1 hrun
  cases hret
  have hself : (s.newObject d).2.data ⟨s.objects.size⟩ = d := Store.data_newObject_self s d
  have hfits : ((s.newObject d).2.data ⟨s.objects.size⟩).Fits m (fun _ => False) :=
    hself.symm ▸ (ObjectData.empty_blank hblank).fits
  have hplace : ∀ property, m.HasPlace property →
      (((s.newObject d).2.data ⟨s.objects.size⟩).slot? property).isSome := by
    intro property hp
    rw [hself, ObjectData.blank_slot? hblank hp]
    rfl
  have hlt : (⟨s.objects.size⟩ : ObjectRef).index < (s.newObject d).2.objects.size := by
    rw [Store.size_newObject]
    exact Nat.lt_succ_self _
  have hpairs : ((Exchange.assignable mappings values).map (·.1.property)).Nodup := by
    have hsub : ((Exchange.assignable mappings values).map Prod.fst).Sublist mappings := by
      have hfst := (List.filter_sublist (p := fun pair => !pair.1.isNestedMap)
        (l := mappings.zip values)).map Prod.fst
      rwa [List.map_fst_zip hlen] at hfst
    have hmap := (hsub.map (·.property)).nodup hnodup
    rwa [List.map_map] at hmap
  have hsteps : ∀ pair ∈ Exchange.assignable mappings values,
      Text.steps pair.1.property = [pair.1.property] := fun pair hmem =>
    Text.steps_of_no_dot (hsingle _ (List.of_mem_zip (List.mem_filter.1 hmem).1).1)
  have hall := fun pair (hmem : pair ∈ mappings.zip values) (hno : pair.1.isNestedMap = false) =>
    (List.mem_filter.2 ⟨hmem, by simp [hno]⟩ : pair ∈ Exchange.assignable mappings values)
  rcases blank?_eq_some hblank with ⟨he, rfl⟩ | ⟨he, type, hc, rfl⟩
  · rw [he] at hfill
    have hkind : (s.newObject (.map [])).2.kind ⟨s.objects.size⟩ = .map := by
      unfold Store.kind
      rw [hself]
      rfl
    have hforM : ((Exchange.assignable mappings values).forM fun pair =>
        Edit.change (·.setProperty ⟨s.objects.size⟩ pair.1.property pair.2)).run
          (s.newObject (.map [])).2 = (.ok (), t) :=
      (Exchange.run_fillMap hkind m _).symm.trans hfill
    have hwritten := (Store.setProperties_slot? (fun pair _ u u' => run_change_eq_ok) hpairs hfits
      hlt hplace hforM).2
    exact fun pair hmem hno => hwritten pair (hall pair hmem hno)
  · rw [he] at hfill
    have hforM : ((Exchange.assignable mappings values).forM fun pair =>
        accessor.set (.object ⟨s.objects.size⟩) pair.1.property pair.2).run
          (s.newObject (.newBean type)).2 = (.ok (), t) := hfill
    have hwritten := (Store.setProperties_slot? (fun pair hmem u u' =>
      Accessor.run_set_single (hsteps pair hmem)) hpairs hfits hlt hplace hforM).2
    exact fun pair hmem hno => hwritten pair (hall pair hmem hno)

end RowMapper
