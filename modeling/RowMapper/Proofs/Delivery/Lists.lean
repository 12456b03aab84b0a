/-
Lists of nested elements. An object that a request remembers by a map holds, at a property for nested
elements, what the events of the request added there, one after the other, and nothing else.
-/
import RowMapper.Proofs.Delivery.Calls
import RowMapper.Proofs.Engine.WatchQuery

namespace RowMapper

/-- The elements of the list at a property of an object, if it holds one. -/
def ObjectData.items (d : ObjectData) (property : String) : List Value :=
  ((d.slot? property).map Value.listItems).getD []

/-- The object that was added at a property of a parent. -/
def Event.addedTo? (parent : ObjectRef) (property : String) : Event → Option Value
  | .added _ (.object r) p object _ _ => if r = parent ∧ p = property then some object else none
  | _ => none

/-- What is added at one place is handed over. -/
theorem Event.sublist_addedTo (parent : ObjectRef) (property : String) (events : List Event) :
    (events.filterMap (addedTo? parent property)).Sublist (events.filterMap delivered?) := by
  induction events with
  | nil => exact .slnil
  | cons e events ih =>
    rw [List.filterMap_cons, List.filterMap_cons]
    cases hadded : e.addedTo? parent property with
    | none =>
      cases e.delivered? with
      | none => exact ih
      | some object => exact ih.cons object
    | some object =>
      have hdelivered : e.delivered? = some object := by
        unfold addedTo? at hadded
        split at hadded
        · split at hadded
          · exact hadded
          · cases hadded
        · cases hadded
      rw [hdelivered]
      exact ih.cons_cons object

/-- Watching the list at a property of an object, which may be fixed. -/
def Watch.list (r : ObjectRef) (property : String) (fixed : Prop) : Watch :=
  { ref := r, watched := (· = property), fixed }

variable {r : ObjectRef} {property : String} {m : ResultMap} {session : Session} {load : Load}
  {f g h : Frame}

theorem ObjectData.items_of_slot? {d : ObjectData} {v : Value} (hv : d.slot? property = some v) :
    d.items property = v.listItems := by
  unfold items
  rw [hv]
  rfl

theorem ObjectData.Fits.items_eq {d d' : ObjectData} (h : d.Fits m (· = property))
    (hn : m.Nested property) (hg : d.Grows (· = property) True d') :
    d'.items property = d.items property := by
  by_cases hplace : m.HasPlace property
  · obtain ⟨v, hv, -⟩ := h.slot property rfl hn hplace
    obtain ⟨w, hw, -, hsame⟩ := hg.slot property v rfl hv
    rw [items_of_slot? hw, items_of_slot? hv, hsame trivial]
  · unfold items
    rw [h.slot?_eq_none hplace, (h.grows hg).slot?_eq_none hplace]

theorem ObjectData.Empty.items_eq {d : ObjectData} {watched : String → Prop} (h : d.Empty m watched)
    (hp : watched property) (hn : m.Nested property) : d.items property = [] := by
  by_cases hplace : m.HasPlace property
  · exact items_of_slot? (h.slot property hp hn hplace)
  · unfold items
    rw [h.fits.slot?_eq_none hplace]
    rfl

/-- An object that is not made yet holds nothing. -/
theorem Store.items_of_size_le {s : Store} (h : s.objects.size ≤ r.index) :
    (s.data r).items property = [] := by
  rw [Store.data_of_size_le h]
  rfl

/-! ## What events leave in a list -/

/-- Behind some events the list holds what it held and what they added to it, unless the object is
not one that is remembered by the map. -/
def Records (r : ObjectRef) (property : String) (m : ResultMap) (f : Frame) (events : List Event)
    (g : Frame) : Prop :=
  (Watch.list r property False).Free (.own m) g ∨
    (g.world.store.data r).items property =
      (f.world.store.data r).items property ++ events.filterMap (Event.addedTo? r property)

namespace Records

variable {events events' : List Event}

theorem refl (f : Frame) : Records r property m f [] f := .inr (List.append_nil _).symm

theorem append (h₁ : Records r property m f events g) (h₂ : Records r property m g events' h)
    (hfree : (Watch.list r property False).Free (.own m) g →
      (Watch.list r property False).Free (.own m) h) :
    Records r property m f (events ++ events') h := by
  rcases h₁ with h₁ | h₁
  · exact .inl (hfree h₁)
  · refine h₂.imp_right fun h₂ => ?_
    rw [h₂, h₁, List.filterMap_append, List.append_assoc]

/-- Events that add nothing to the list may stand before. -/
theorem cons {e : Event} (h : Records r property m f events g)
    (he : e.addedTo? r property = none) : Records r property m f (e :: events) g :=
  h.imp_right fun h => by rw [h, List.filterMap_cons_none he]

end Records

/-! ## Requests that only add to the list -/

/-- The request that makes the object by the map, and only adds to its list, which may be fixed. -/
abbrev Listing (r : ObjectRef) (property : String) (m : ResultMap) (session : Session)
    (fixed : Prop) : Correspondence :=
  (Watch.list r property fixed).onRequest (.own m) session

theorem Watch.Sound.fixed {a b : Prop} (hx : (Watch.list r property a).Sound (.own m) session) :
    (Watch.list r property b).Sound (.own m) session := ⟨hx.own, hx.place, hx.indexed⟩

theorem Listing.paired {a b : Prop} (hp : (Listing r property m session a).paired f g) :
    (Listing r property m session b).paired f g :=
  ⟨hp.1, hp.2.1, hp.2.2.imp id fun hg => ⟨hg.store, hg.loader, hg.replies, hg.rows, hg.emitted,
    hg.identity, hg.made, hg.fits⟩⟩

/-- What keeps the list fixed only adds to it. -/
theorem Listing.later (h : (Listing r property m session True).later f g) :
    (Listing r property m session False).later f g :=
  ⟨h.1, h.2.1, h.2.2.1, fun hh => (h.2.2.2 hh).loosen⟩

namespace Records

variable {α : Type} {Q : Frame → α → α → Prop}

/-- A run that leaves the list of the object, and what is remembered, adds nothing. -/
theorem of_later (hn : m.Nested property) (hp : (Listing r property m session False).paired f f)
    (hl : (Listing r property m session True).later f g)
    (hheld : (Watch.list r property False).Held (.own m) g →
      (Watch.list r property False).Held (.own m) f) :
    Records r property m f [] g := by
  rw [Records, List.filterMap_nil, List.append_nil]
  by_cases hh : (Watch.list r property False).Held (.own m) f
  · have hg := hp.2.2.resolve_left fun hf => hf.2 hh
    exact .inr ((hg.fits m rfl hh).items_eq hn (hl.2.2.2 hh))
  · by_cases hsize : r.index < g.world.store.objects.size
    · exact .inl ⟨hsize, fun h => hh (hheld h)⟩
    · have hsize := Nat.not_lt.1 hsize
      rw [Store.items_of_size_le hsize, Store.items_of_size_le (Nat.le_trans hl.1 hsize)]
      exact .inr rfl

theorem of_inStep (hn : m.Nested property) (hp : (Listing r property m session False).paired f f)
    {run : Run Frame α} {a : α} (h : (Listing r property m session True).InStep Q run run f f)
    (hrun : run.run f = (.ok a, g)) (hid : g.request.identity = f.request.identity) :
    Records r property m f [] g := by
  refine of_later hn hp (Watch.inStep_ok h hrun).2.1 ?_
  rintro ⟨key, hk⟩
  exact ⟨key, hid ▸ hk⟩

end Records

section Laws

variable (hx : (Watch.list r property False).Sound (.own m) session) (hn : m.Nested property)

include hx hn

/-! ## Objects -/

theorem Records.buildNew {own : ResultMap} {values : List Value} {key : Option String} {v : Value}
    (hp : (Listing r property m session False).paired f f)
    (hm : session.catalog.resultMap own.id = .ok own)
    (hv : List.Forall₂ ((Listing r property m session False).values f) values values)
    (hnew : (key.bind fun key => f.request.identity.get? own.id key) = none)
    (hrun : (own.buildNew session (f.mappings own) none values key).run f = (.ok v, g)) :
    Records r property m f [] g := by
  obtain ⟨s, hset, hsize, hs, hid, -⟩ := buildNew_eq_ok hrun
  have hheld : v ≠ .object r → (Watch.list r property False).Held (.own m) g →
      (Watch.list r property False).Held (.own m) f := by
    rintro hne ⟨k, hk⟩
    rw [hid] at hk
    exact ⟨k, (IdentityTable.get?_remember hk).resolve_left fun he => hne he.symm⟩
  by_cases hown : ∃ k, key = some k ∧ m = own
  · obtain ⟨k, rfl, rfl⟩ := hown
    rw [Watch.mappings_own hx rfl hp] at hrun
    obtain ⟨-, hl, -, hempty⟩ := Watch.inStep_ok
      (Watch.buildNew_own hx.fixed rfl (Listing.paired (b := True) hp) hv hnew) hrun
    by_cases hobject : v = .object r
    · -- the object is a new one, and empty
      subst hobject
      obtain ⟨hindex, -⟩ := setData_object (hx.own m rfl).exchange hset
      have hfresh : f.world.store.objects.size ≤ r.index :=
        Nat.le_of_eq (congrArg ObjectRef.index (Value.object.inj hindex)).symm
      refine .inr ?_
      have hitems : (g.world.store.data r).items property = [] := (hempty rfl).2.items_eq rfl hn
      rw [Store.items_of_size_le hfresh, hitems]
      rfl
    · exact of_later hn hp hl (hheld hobject)
  · have hother : key = none ∨ Watch.Scope.own m ≠ .own own := by
      cases key with
      | none => exact .inl rfl
      | some k => exact .inr fun he => hown ⟨k, rfl, Watch.Scope.own.inj he⟩
    obtain ⟨-, hl, -, hfree⟩ := Watch.inStep_ok
      (Watch.buildNew_other hx.fixed (f.mappings own) hother (Listing.paired (b := True) hp) hm hv
        hnew) hrun
    by_cases hobject : v = .object r
    · exact .inl (hfree hobject)
    · exact of_later hn hp hl (hheld hobject)

/-! ## Nested elements -/

/-- The list of the object is changed in place. -/
theorem Records.update {parent : Value} {own : ResultMap} {mapping : ResultMapping}
    {mappings : List ResultMapping} {change : Store → Value → Value × Except Error Unit}
    {more : List Value} (hp : (Listing r property m session False).paired f f)
    (hvw : (Listing r property m session False).parents f own mappings parent parent)
    (hmem : mapping ∈ mappings) (hnested : mapping.isNestedMap = true)
    (hobject : ∀ s v q, (change s v).1 = .object q → v = .object q)
    (hlist : parent = .object r → ¬(Watch.list r property False).Free (.own m) f →
      mapping.property = property → ∀ s v, ListGrows .null v →
        change s v = (.list (v.listItems ++ more), .ok ()))
    (hrun : (Frame.edit (session.catalog.accessor.update parent mapping.property change)).run f =
      (.ok (), g)) :
    (Watch.list r property False).Free (.own m) g ∨
      (parent = .object r ∧ mapping.property = property ∧
        (g.world.store.data r).items property = (f.world.store.data r).items property ++ more) ∨
      ¬(parent = .object r ∧ mapping.property = property) ∧ Records r property m f [] g := by
  by_cases hown : parent = .object r ∧ ¬(Watch.list r property False).Free (.own m) f ∧
      mapping.property = property
  · obtain ⟨rfl, hfree, rfl⟩ := hown
    obtain ⟨hheld, hparent⟩ := (hvw.2 rfl).resolve_left hfree
    obtain ⟨hs, rfl⟩ := hparent.resolve_right fun hno => hno _ rfl
    cases hs
    have hsize := (hp.2.2.resolve_left hfree).made hheld
    obtain ⟨s, hs, rfl⟩ := run_edit_eq_ok.1 hrun
    rcases Watch.run_updateOwn hx rfl hmem hnested rfl hp hheld change with
      ⟨e, he⟩ | ⟨v, d, hv, hnull, hdone, -, hd⟩
    · exact absurd (congrArg Prod.fst (hs.symm.trans he)) nofun
    · obtain rfl : s = f.world.store.setData r d := congrArg Prod.snd (hs.symm.trans hdone)
      rw [hlist rfl hfree rfl _ v hnull] at hd
      refine .inr (.inl ⟨rfl, rfl, ?_⟩)
      show ((f.world.store.setData r d).data r).items mapping.property = _
      have hdata : (f.world.store.setData r d).data r = d := Store.data_setData_self hsize
      have hitems : (f.world.store.data r).items mapping.property = v.listItems :=
        ObjectData.items_of_slot? hv
      rw [hdata, ObjectData.items_of_slot? hd, hitems]
      rfl
  · have hother : parent = .object r → (Watch.list r property True).Free (.own m) f ∨
        ¬(Watch.list r property True).watched mapping.property := by
      intro he
      by_cases hf : (Watch.list r property False).Free (.own m) f
      · exact .inl hf
      · exact .inr fun hw => hown ⟨he, hf, hw⟩
    have hstep := Watch.updateOther hx.fixed (Listing.paired (b := True) hp) hvw hmem hnested hobject hother
    have hid : g.request.identity = f.request.identity := by
      obtain ⟨s, -, rfl⟩ := run_edit_eq_ok.1 hrun
      rfl
    have hsame := Records.of_inStep hn hp hstep hrun hid
    by_cases hat : parent = .object r ∧ mapping.property = property
    · refine .inl ?_
      have hf : (Watch.list r property False).Free (.own m) f := by
        by_contra hf
        exact hown ⟨hat.1, hf, hat.2⟩
      exact (Watch.inStep_ok hstep hrun).2.1.2.2.1 hf
    · exact .inr (.inr ⟨hat, hsame⟩)

/-- An element is added to a parent. -/
theorem Records.add {owner : String} {parent object before after : Value} {own : ResultMap}
    {mapping : ResultMapping} {mappings : List ResultMapping} {type : DataType}
    (hp : (Listing r property m session False).paired f f)
    (hvw : (Listing r property m session False).parents f own mappings parent parent)
    (hmem : mapping ∈ mappings) (hnested : mapping.isNestedMap = true)
    (htype : (Listing r property m session False).collections f parent mapping type)
    (hrun : (Frame.edit (session.catalog.accessor.update parent mapping.property
      (addElement type mapping.property object))).run f = (.ok (), g)) :
    Records r property m f [.added owner parent mapping.property object before after] g := by
  have hlist : parent = .object r → ¬(Watch.list r property False).Free (.own m) f →
      mapping.property = property → ∀ s v, ListGrows .null v →
        addElement type mapping.property object s v = (.list (v.listItems ++ [object]), .ok ()) :=
    fun he hfree hproperty s v hv =>
      addElement_list ((htype he).resolve_left hfree hproperty) hv _ object s
  rcases Records.update hx hn hp hvw hmem hnested (fun _ _ _ => addElement_object) hlist hrun with
    hfree | ⟨rfl, rfl, hitems⟩ | ⟨hother, hsame⟩
  · exact .inl hfree
  · refine .inr (hitems.trans ?_)
    simp [Event.addedTo?]
  · refine Records.cons hsame ?_
    unfold Event.addedTo?
    split
    · rename_i heq
      cases heq
      exact if_neg fun h => hother ⟨congrArg _ h.1, h.2⟩
    · rfl

theorem Records.readElement {parent : Value} {own : ResultMap} {mapping : ResultMapping}
    {mappings : List ResultMapping} {child : String} {found : Option Element}
    (hassembles : (Listing r property m session False).Assembles session load load)
    (hreads : (Listing r property m session True).Scans session load load)
    (hstill : Trail.still.growth.Scans session load load)
    (hp : (Listing r property m session False).paired f f)
    (hvw : (Listing r property m session False).parents f own mappings parent parent)
    (hmem : mapping ∈ mappings) (hnested : mapping.isNestedMap = true)
    (hrun : (readElement session load mapping child parent).run f = (.ok found, g)) :
    Records r property m f [] g := by
  obtain ⟨own', type, f₃, values, hchild, h₂, h₃, h₄, -⟩ := readElement_steps hrun
  obtain ⟨-, -, -, htype⟩ := Watch.inStep_ok (hassembles.collectionType hp hvw hmem hnested) h₂
  have hensure : Records r property m f [] f₃ := by
    have hlist : parent = .object r → ¬(Watch.list r property False).Free (.own m) f →
        mapping.property = property → ∀ s v, ListGrows .null v →
          ensureContainer type mapping.property s v = (.list (v.listItems ++ []), .ok ()) := by
      intro he hfree hproperty s v hv
      rw [List.append_nil]
      exact ensureContainer_list ((htype he).resolve_left hfree hproperty) hv _ s
    rcases Records.update hx hn hp hvw hmem hnested (fun _ _ _ => ensureContainer_object) hlist h₃ with
      hfree | ⟨-, -, hitems⟩ | ⟨-, hsame⟩
    · exact .inl hfree
    · exact .inr hitems
    · exact hsame
  obtain ⟨hp₃, -, -⟩ := Watch.inStep_ok (hassembles.ensure hp hvw hmem hnested htype) h₃
  have hread := hreads.readRow (Watch.resultMap_registered hx hchild) (Listing.paired hp₃)
  have hid := (Trail.later (hstill.readRow (m := own') trivial rfl) h₄).2.1
  refine hensure.append (Records.of_inStep hn hp₃ hread h₄ hid) ?_
  exact (Watch.inStep_ok hread h₄).2.1.2.2.1

/-- What a mapping adds is what its events say. -/
theorem Records.mapping {depth : Nat} {parent : Subject} {own : ResultMap} {mapping : ResultMapping}
    {mappings : List ResultMapping}
    (hassembles : (Listing r property m session False).Assembles session load load)
    (hreads : (Listing r property m session True).Scans session load load)
    (hstill : Trail.still.growth.Scans session load load)
    (hcall : ∀ (c : Call) (out : Option Value) (left : Frame), c.target = none →
      (Listing r property m session False).paired c.frame c.frame →
      (Listing r property m session False).maps c.map →
      List.Forall₂ ((Listing r property m session False).values c.frame) c.values c.values →
      c.run session load depth = (.ok out, left) →
      Records r property m c.frame (c.events session load depth) left)
    (hp : (Listing r property m session False).paired f f)
    (hvw : (Listing r property m session False).parents f own mappings parent.object parent.object)
    (hmem : mapping ∈ mappings)
    (hrun : (nestedMapping session load (Call.builds session load depth) parent.object mapping).run f =
      (.ok (), g)) :
    Records r property m f
      (Call.mappingEvents session load depth (Call.events session load depth) own.id parent mapping f)
        g := by
  rcases nestedMapping_eq_ok hrun with ⟨hno, rfl⟩ | ⟨child, hroute, hrun⟩
  · rw [Call.mappingEvents_eq_nil session load hno]
    exact .refl g
  unfold Call.mappingEvents
  rw [hroute]
  dsimp only
  have hnested := ResultMapping.isNestedMap_of_route hroute
  rcases nestedElement_eq_ok hrun with hnone | ⟨element, entered, hsome, hbuilt⟩
  · rw [hnone]
    exact Records.readElement hx hn hassembles hreads hstill hp hvw hmem hnested hnone
  have hread := Records.readElement hx hn hassembles hreads hstill hp hvw hmem hnested hsome
  obtain ⟨hp₁, hl₁, helement⟩ :=
    Watch.inStep_ok (hassembles.readElement hp hvw hmem hroute) hsome
  rw [hsome]
  dsimp only
  cases helement with | some he => ?_
  let call : Call := { map := element.map, values := element.values, frame := entered }
  unfold Call.elementEvents
  rcases hbuilt with hbuilt | ⟨object, left, hbuilt, hadd⟩
  · have hrun : call.run session load depth = (.ok none, g) := hbuilt
    have hcalled := hcall call none g rfl hp₁ he.maps he.values hrun
    have hl₂ := (Watch.inStep_ok (hassembles.build (.inl rfl) he.maps hp₁ he.values he.readings) hbuilt).2.1
    simp only [call, hrun, List.append_nil]
    exact hread.append (hcalled.cons rfl) hl₂.2.2.1
  · have hrun : call.run session load depth = (.ok (some object), left) := hbuilt
    have hcalled := hcall call (some object) left rfl hp₁ he.maps he.values hrun
    obtain ⟨hp₂, hl₂, hobject⟩ :=
      Watch.inStep_ok (hassembles.build (.inl rfl) he.maps hp₁ he.values he.readings) hbuilt
    cases hobject with | some hobject => ?_
    have hvw₂ := (Listing r property m session False).parents_later
      ((Listing r property m session False).trans hl₁ hl₂) hvw
    have htype := (Listing r property m session False).collections_later hl₂ he.collection
    have hl₃ := (Watch.inStep_ok (hassembles.add hp₂ hvw₂ hmem hnested htype hobject) hadd).2.1
    simp only [call, hrun, hadd]
    refine hread.append ((hcalled.cons rfl).append ?_ hl₃.2.2.1) ?_
    · exact Records.add hx hn hp₂ hvw₂ hmem hnested htype hadd
    exact fun hf => hl₃.2.2.1 (hl₂.2.2.1 hf)

theorem Records.gather {depth : Nat} {parent : Subject} {own : ResultMap}
    {mappings : List ResultMapping}
    (hassembles : (Listing r property m session False).Assembles session load load)
    (hreads : (Listing r property m session True).Scans session load load)
    (hstill : Trail.still.growth.Scans session load load)
    (hcall : ∀ (c : Call) (out : Option Value) (left : Frame), c.target = none →
      (Listing r property m session False).paired c.frame c.frame →
      (Listing r property m session False).maps c.map →
      List.Forall₂ ((Listing r property m session False).values c.frame) c.values c.values →
      c.run session load depth = (.ok out, left) →
      Records r property m c.frame (c.events session load depth) left) :
    ∀ (after : List ResultMapping) {f : Frame}, (∀ mapping ∈ after, mapping ∈ mappings) →
      (Listing r property m session False).paired f f →
      (Listing r property m session False).parents f own mappings parent.object parent.object →
      (Call.gather session load depth after parent.object).run f = (.ok (), g) →
      Records r property m f
        (Call.gatherEvents session load depth (Call.events session load depth) own.id parent after f) g
  | [], _, _, _, _, hrun => by
    cases hrun
    exact .refl _
  | mapping :: after, f, hmem, hp, hvw, hrun => by
    rw [Call.gather_cons] at hrun
    obtain ⟨_, k, hone, hrest⟩ := run_bind_eq_ok.1 hrun
    have hmapping := hmem mapping (List.mem_cons_self ..)
    have hfirst := Records.mapping hx hn hassembles hreads hstill hcall hp hvw hmapping hone
    obtain ⟨hp₁, hl₁, -⟩ :=
      Watch.inStep_ok (hassembles.nestedMapping (hassembles.build (.inl rfl)) hp hvw hmapping) hone
    have hvw₁ := (Listing r property m session False).parents_later hl₁ hvw
    have hafter := fun a ha => hmem a (List.mem_cons_of_mem _ ha)
    have hlater := Records.gather hassembles hreads hstill hcall after hafter hp₁ hvw₁ hrest
    unfold Call.gatherEvents
    rw [hone]
    refine hfirst.append hlater ?_
    exact (Watch.inStep_ok
      (hassembles.nestedElements (hassembles.build (.inl rfl)) hafter hp₁ hvw₁) hrest).2.1.2.2.1

/-- A call that succeeds leaves in the list what its events say. -/
theorem Records.call
    (hassembles : (Listing r property m session False).Assembles session load load)
    (hreads : (Listing r property m session True).Scans session load load)
    (hstill : Trail.still.growth.Scans session load load) :
    ∀ (depth : Nat) (c : Call) (out : Option Value) (left : Frame), c.target = none →
      (Listing r property m session False).paired c.frame c.frame →
      (Listing r property m session False).maps c.map →
      List.Forall₂ ((Listing r property m session False).values c.frame) c.values c.values →
      c.run session load depth = (.ok out, left) →
      Records r property m c.frame (c.events session load depth) left
  | 0, _, _, _, _, _, _, _, hrun => by cases hrun
  | depth + 1, c, out, left, ht, hp, hm, hv, hrun => by
    unfold Call.events Call.ownEvents Call.elementsEvents
    rcases Call.run_eq_ok hrun with ⟨hnone, -⟩ | ⟨subject, f, hsome, hnested, -⟩
    · obtain ⟨rfl, -⟩ := Call.subject_eq_none hnone
      rw [hnone]
      exact .refl _
    have hstep := hassembles.subject hm hp hv trivial (hassembles.fills_none _)
    rw [← ht] at hstep
    obtain ⟨hp₁, hl₁, hsubject⟩ := Watch.inStep_ok hstep hsome
    cases hsubject with | some hs => ?_
    have hown : Records r property m c.frame
        (if subject.isNew then [.built c.map.id subject.key subject.object] else []) f := by
      obtain ⟨hkey, hmappings, ⟨hnew, rfl, -⟩ | ⟨hnew, hunknown, hbuild⟩⟩ := Call.subject_eq_some hsome
      · rw [hnew]
        exact .refl _
      · rw [hnew, if_pos rfl]
        rw [ht, hmappings] at hbuild
        rw [← hkey] at hunknown
        exact (Records.buildNew hx hn hp hm hv hunknown hbuild).cons rfl
    rw [hsome]
    dsimp only
    rcases assembleNested_eq_ok hnested with ⟨hno, rfl⟩ | ⟨hany, k, hgather, rfl⟩
    · simp only [hno, Bool.false_eq_true, if_false, List.append_nil]
      exact hown
    · simp only [hany, if_true]
      obtain ⟨hp₂, hl₂⟩ := hassembles.mark hp₁ hm hs.key_none
      have hvw := (Listing r property m session False).parents_later hl₂ hs.parents
      have hrest := Records.gather hx hn hassembles hreads hstill
        (Records.call hassembles hreads hstill depth) subject.mappings (fun _ => id) hp₂ hvw hgather
      obtain ⟨hp₃, hl₃, -⟩ := Watch.inStep_ok
        (hassembles.nestedElements (hassembles.build (.inl rfl)) (fun _ => id) hp₂ hvw) hgather
      have hunmark : (k.unmark subject.key).world = k.world := by
        cases subject.key <;> rfl
      have hmark : (f.mark c.map.id subject.key).world = f.world := by
        cases subject.key <;> rfl
      have hl₄ := (hassembles.unmark hp₃ hm hs.key_none).2
      refine hown.append ?_ fun hf => hl₄.2.2.1 (hl₃.2.2.1 (hl₂.2.2.1 hf))
      refine hrest.imp hl₄.2.2.1 fun hitems => ?_
      rw [hunmark, hitems, hmark]

end Laws

end RowMapper
