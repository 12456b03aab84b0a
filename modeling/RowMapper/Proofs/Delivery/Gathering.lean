/-
What one call adds to its object. A map that groups rows gathers the elements of a row into the lists
of its object, one mapping after the other. Each mapping finds the list as the rows before left it, and
adds the element that its map makes of the row alone, if it makes any.
-/
import Mathlib.Data.List.Nodup
import RowMapper.Proofs.Delivery.Elements
import RowMapper.Proofs.Delivery.Lists

namespace RowMapper

open Relation

/-- A map that groups rows: by the properties of its own mappings, whose elements are gathered in
lists, by maps from which no grouped map is reachable. -/
structure ResultMap.Groups (m : ResultMap) (catalog : Catalog) : Prop extends m.Owns catalog where
  plain : m.discriminator = none
  keyed : ∃ mapping ∈ m.declared, mapping.property ∈ m.groupBy
  distinct : (m.declared.map (·.property)).Nodup
  single : ∀ mapping ∈ m.declared, '.' ∉ mapping.property.toList
  lists : ∀ mapping ∈ m.declared, mapping.isNestedMap = true →
    (mapping.type.getD (m.propertyType mapping.property)).IsListKind
  loners : ∀ id child, TransGen catalog.Nests m.id id → catalog.resultMap id = .ok child →
    child.groupBy = []

/-- The map gathers elements at the property. -/
def ResultMap.Gathers (m : ResultMap) (property : String) : Prop :=
  ∃ mapping ∈ m.declared, mapping.isNestedMap = true ∧ mapping.property = property

/-- Elements were added to the list at a property, and nothing else was changed. -/
structure ObjectData.Gains (property : String) (more : List Value) (d d' : ObjectData) : Prop where
  kind_eq : d'.kind = d.kind
  type_eq : d'.type = d.type
  slot : d'.slot? property = some (.list (d.items property ++ more))
  others : ∀ other, other ≠ property → d'.slot? other = d.slot? other

/-- The request is at an object of a map, which is apart and has lists, or nothing yet, for its
elements. -/
structure Frame.Parent (f : Frame) (session : Session) (m : ResultMap) (r : ObjectRef) : Prop where
  mappings : f.request.mappings = []
  closed : f.Closed session
  apart : f.Apart session True r
  fits : (f.world.store.data r).Fits m m.Gathers

variable {session : Session} {m : ResultMap} {f g : Frame} {r : ObjectRef} {mapping : ResultMapping}
  {n depth : Nat} {property : String} {more : List Value}

namespace ResultMap

theorem Groups.nested {catalog : Catalog} (hm : m.Groups catalog) (hmem : mapping ∈ m.declared)
    (hnested : mapping.isNestedMap = true) : m.Nested mapping.property := by
  intro other hother heq
  rwa [List.inj_on_of_nodup_map hm.distinct hother hmem heq]

theorem Groups.loner {catalog : Catalog} {id : String} {child : ResultMap}
    (hi : Table.Indexed ResultMap.id catalog.resultMaps) (hm : m.Groups catalog)
    (hmem : mapping ∈ m.declared) (hroute : mapping.route = .nestedMap id)
    (hchild : catalog.resultMap id = .ok child) : child.Loner catalog := by
  obtain rfl := Catalog.resultMap_id hi hchild
  have hnests : catalog.Nests m.id child.id := ⟨m, hm.registered, mapping, hmem, hroute⟩
  exact ⟨hchild, fun id' child' hreach => hm.loners id' child' (.head' hnests hreach)⟩

end ResultMap

namespace ObjectData

variable {d d' d'' : ObjectData} {watched : String → Prop}

theorem Gains.items_eq (h : d.Gains property more d') : d'.items property = d.items property ++ more :=
  items_of_slot? h.slot

theorem Gains.trans {more' : List Value} (h : d.Gains property more d')
    (h' : d'.Gains property more' d'') : d.Gains property (more ++ more') d'' where
  kind_eq := h'.kind_eq.trans h.kind_eq
  type_eq := h'.type_eq.trans h.type_eq
  slot := by rw [h'.slot, h.items_eq, List.append_assoc]
  others other ho := (h'.others other ho).trans (h.others other ho)

theorem Fits.gains (h : d.Fits m watched) (hg : d.Gains property more d') : d'.Fits m watched := by
  refine ⟨?_, fun p hp hn hplace => ?_⟩
  · rw [hg.kind_eq, hg.type_eq]
    exact h.shape
  · by_cases he : p = property
    · exact ⟨_, he ▸ hg.slot, .made _⟩
    · obtain ⟨v, hv, hnull⟩ := h.slot p hp hn hplace
      exact ⟨v, (hg.others p he).trans hv, hnull⟩

/-- The type of the collection at a property of an object of a map is the declared one. -/
theorem Fits.collectionType {accessor : Accessor} {type : DataType}
    (h : (f.world.store.data r).Fits m watched) (hsingle : '.' ∉ mapping.property.toList)
    (hrun : (mapping.collectionType accessor (.object r)).run f = (.ok type, g)) :
    type = mapping.type.getD (m.propertyType mapping.property) := by
  unfold ResultMapping.collectionType at hrun
  split at hrun
  · rename_i declared ht
    cases hrun
    rw [ht]
    rfl
  · rename_i ht
    have htype : accessor.setterType f.world.store (.object r) mapping.property = .ok type := by
      obtain ⟨hread, -⟩ := Prod.mk.inj hrun
      dsimp only at hread
      cases hs : accessor.setterType f.world.store (.object r) mapping.property with
      | error e =>
        rw [hs] at hread
        cases hread
      | ok found =>
        rw [hs] at hread
        cases hread
        rfl
    rw [ht]
    exact h.setterType_eq (Accessor.setterType_single (Text.steps_of_no_dot hsingle) htype)

end ObjectData

/-! ## One mapping -/

/-- The steps in which an element is gathered: its map reads the row when the collection is there,
and what it builds is added to the collection. -/
theorem nestedElement_steps {load : Load} {build : Build} {id : String} {parent : Value}
    (h : (nestedElement session load build mapping id parent).run f = (.ok (), g)) :
    ∃ child type u values entered, session.catalog.resultMap id = .ok child ∧
      (mapping.collectionType session.catalog.accessor parent).run f = (.ok type, f) ∧
      (Frame.edit (session.catalog.accessor.update parent mapping.property
        (ensureContainer type mapping.property))).run f = (.ok (), u) ∧
      (child.readRow session load).run u = (.ok values, entered) ∧
      (entered.request.rowDataFound = false ∧ g = entered ∨
        entered.request.rowDataFound = true ∧ ∃ out left,
          (build child values).run entered = (.ok out, left) ∧
          match out with
          | none => g = left
          | some object => (Frame.edit (session.catalog.accessor.update parent mapping.property
              (addElement type mapping.property object))).run left = (.ok (), g)) := by
  rcases nestedElement_eq_ok h with hread | ⟨element, entered, hread, hbuilt⟩
  · obtain ⟨child, type, u, values, hchild, htype, hensure, hvalues, hfound⟩ := readElement_steps hread
    refine ⟨child, type, u, values, g, hchild, htype, hensure, hvalues, .inl ⟨?_, rfl⟩⟩
    by_contra hno
    rw [if_pos (Bool.eq_true_of_not_eq_false hno)] at hfound
    cases hfound
  · obtain ⟨child, type, u, values, hchild, htype, hensure, hvalues, hfound⟩ := readElement_steps hread
    split at hfound
    · rename_i hdata
      cases hfound
      refine ⟨child, type, u, values, entered, hchild, htype, hensure, hvalues, .inr ⟨hdata, ?_⟩⟩
      rcases hbuilt with hnone | ⟨object, left, hsome, hadd⟩
      · exact ⟨none, g, hnone, rfl⟩
      · exact ⟨some object, left, hsome, hadd⟩
    · cases hfound

section Laws

variable (hi : Table.Indexed ResultMap.id session.catalog.resultMaps) (hm : m.Groups session.catalog)

namespace Frame

/-- The object stays as it is where objects that are apart are left. -/
theorem Parent.leaves {P : ObjectRef → Prop} (hp : f.Parent session m r) (h : f.Leaves session P g)
    (hr : P r) : g.Parent session m r ∧ g.world.store.data r = f.world.store.data r := by
  obtain ⟨hapart, hdata⟩ := h.apart r hp.apart hr
  exact ⟨⟨h.mappings, h.closed hp.closed, hapart, hdata ▸ hp.fits⟩, hdata⟩

theorem Parent.has (hp : f.Parent session m r) : f.Has (.object r) := by
  intro q hq
  cases hq
  exact hp.apart.made trivial

include hi hm

/-- The list of the object is changed by something that adds to lists. -/
theorem Parent.gain {change : Store → Value → Value × Except Error Unit} (hp : f.Parent session m r)
    (more : List Value) (hmem : mapping ∈ m.declared) (hnested : mapping.isNestedMap = true)
    (hobject : ∀ s v r, (change s v).1 = .object r → v = .object r)
    (hlist : ∀ s v, ListGrows .null v → change s v = (.list (v.listItems ++ more), .ok ()))
    (hrun : (Frame.edit (session.catalog.accessor.update (.object r) mapping.property change)).run f =
      (.ok (), g)) :
    g.Parent session m r ∧
      (f.world.store.data r).Gains mapping.property more (g.world.store.data r) := by
  have hpasses := update_passes hi hp.mappings hp.has hnested hobject hrun
  have hapart := update_self hi hp.mappings hp.apart hnested hobject hrun
  suffices hgains : (f.world.store.data r).Gains mapping.property more (g.world.store.data r) from
    ⟨⟨hpasses.mappings, hpasses.closed hp.closed, hapart, hp.fits.gains hgains⟩, hgains⟩
  obtain ⟨s, hs, rfl⟩ := run_edit_eq_ok.1 hrun
  rcases hp.fits.run_update ⟨mapping, hmem, hnested, rfl⟩ (hm.nested hmem hnested)
    (hm.single mapping hmem) session.catalog.accessor change with
    ⟨e, he⟩ | ⟨v, d, hv, hnull, hdone, hwritten, hd⟩
  · exact absurd (congrArg Prod.fst (hs.symm.trans he)) nofun
  · obtain rfl : s = f.world.store.setData r d := congrArg Prod.snd (hs.symm.trans hdone)
    rw [hlist _ v hnull] at hd hwritten
    have hdata : (f.world.store.setData r d).data r = d :=
      Store.data_setData_self (hp.apart.made trivial)
    show (f.world.store.data r).Gains mapping.property more ((f.world.store.setData r d).data r)
    rw [hdata]
    exact ⟨hwritten.kind_eq, hwritten.type_eq, by rw [hd, ObjectData.items_of_slot? hv],
      hwritten.others⟩

/-- A mapping adds to the list of the object the element that its map makes of the row alone, if it
makes any. -/
theorem Parent.nestedElement {id : String} (hp : f.Parent session m r) (hmem : mapping ∈ m.declared)
    (hroute : mapping.route = .nestedMap id)
    (hrun : (nestedElement session (session.load n) (Call.builds session (session.load n) depth)
      mapping id (.object r)).run f = (.ok (), g)) :
    ∃ child type u out, session.catalog.resultMap id = .ok child ∧
      (mapping.collectionType session.catalog.accessor (.object r)).run f = (.ok type, f) ∧
      (Frame.edit (session.catalog.accessor.update (.object r) mapping.property
        (ensureContainer type mapping.property))).run f = (.ok (), u) ∧
      child.FromRow session (session.load n) depth (g.Settled session f.world.store.objects.size) u out ∧
      g.Parent session m r ∧
      (f.world.store.data r).Gains mapping.property out.toList (g.world.store.data r) := by
  have hnested := ResultMapping.isNestedMap_of_route hroute
  obtain ⟨child, type, u, values, entered, hchild, htype, hensure, hvalues, hrest⟩ :=
    nestedElement_steps hrun
  have hkind : type.IsListKind := by
    rw [hp.fits.collectionType (hm.single mapping hmem) htype]
    exact hm.lists mapping hmem hnested
  have hloner := hm.loner hi hmem hroute hchild
  obtain ⟨hu, hensured⟩ := hp.gain hi hm [] hmem hnested (fun _ _ _ => ensureContainer_object)
    (fun s v hv => by rw [List.append_nil]; exact ensureContainer_list hkind hv _ s) hensure
  have hsize := (update_passes hi hp.mappings hp.has hnested
    (fun _ _ _ => ensureContainer_object) hensure).size
  obtain ⟨hpasses, hhas, hne⟩ := readRow_passes hi hu.mappings hloner.1 hvalues
  obtain ⟨hentered, hdata⟩ := hu.leaves hpasses.toLeaves trivial
  refine ⟨child, type, u, ?_⟩
  rcases hrest with ⟨hempty, rfl⟩ | ⟨hfound, out, left, hbuild, hadd⟩
  · exact ⟨none, hchild, htype, hensure, ResultMap.fromRow_none hu.mappings hvalues hempty, hentered,
      hdata ▸ hensured⟩
  obtain ⟨object, rfl, hfrom⟩ :=
    ResultMap.fromRow_some hi hloner hu.mappings hu.closed hvalues hfound hbuild
  have hbuilds := build_passes hi hentered.mappings hloner (hhas hu.closed) hbuild
  obtain ⟨hleft, hdata'⟩ := hentered.leaves hbuilds.toLeaves (hne r hu.apart)
  obtain ⟨hg, hadded⟩ := hleft.gain hi hm [object] hmem hnested (fun _ _ _ => addElement_object)
    (fun s v hv => addElement_list hkind hv _ object s) hadd
  have hadds := update_passes hi hleft.mappings hleft.has hnested (fun _ _ _ => addElement_object) hadd
  refine ⟨some object, hchild, htype, hensure, hfrom.mono fun q d hq => ?_, hg, ?_⟩
  · have hfresh := Nat.le_trans hsize hq.fresh
    obtain ⟨hapart, hsame⟩ := hadds.apart q hq.apart (hp.has.ne_unmade q hfresh)
    exact ⟨hapart, hsame.trans hq.data, hfresh⟩
  · rw [hdata', hdata] at hadded
    exact hensured.trans hadded

end Frame

/-! ## All mappings -/

namespace Call

/-- A call comes to one of the mappings that it gathers elements for: it is done with those before,
and the collection is there. -/
inductive ComesTo (session : Session) (load : Load) (depth : Nat) (c : Call) (mapping : ResultMapping)
    (f : Frame) : Prop
  | mk {subject : Subject} {opened u : Frame} {before after : List ResultMapping} {type : DataType}
      (gathers : c.Gathers session subject opened)
      (mappings_eq : subject.mappings = before ++ mapping :: after)
      (reaches : (gather session load depth before subject.object).run opened = (.ok (), u))
      (collects : (mapping.collectionType session.catalog.accessor subject.object).run u = (.ok type, u))
      (ensures : (Frame.edit (session.catalog.accessor.update subject.object mapping.property
        (ensureContainer type mapping.property))).run u = (.ok (), f)) :
      ComesTo session load depth c mapping f

/-- For a mapping that nests a map a call adds the element that this map makes of the row of the call
alone, if it makes any. -/
def Adds (session : Session) (load : Load) (depth : Nat) (keeps : ObjectRef → ObjectData → Prop)
    (c : Call) (mapping : ResultMapping) (out : Option Value) : Prop :=
  ∃ id child f, mapping.route = .nestedMap id ∧ session.catalog.resultMap id = .ok child ∧
    c.ComesTo session load depth mapping f ∧ f.request.row = c.frame.request.row ∧
    child.FromRow session load depth keeps f out

/-- Elements were added to the lists of some mappings, and nothing else was changed. -/
structure Added (session : Session) (load : Load) (depth : Nat) (keeps : ObjectRef → ObjectData → Prop)
    (c : Call) (mappings : List ResultMapping) (d d' : ObjectData) : Prop where
  elements : ∀ mapping ∈ mappings, mapping.isNestedMap = true →
    ∃ out, c.Adds session load depth keeps mapping out ∧
      d'.slot? mapping.property = some (.list (d.items mapping.property ++ out.toList))
  others : ∀ property, (∀ mapping ∈ mappings, mapping.isNestedMap = true →
    mapping.property ≠ property) → d'.slot? property = d.slot? property

variable {load : Load} {keeps keeps' : ObjectRef → ObjectData → Prop} {c : Call} {out : Option Value}
  {subject : Subject} {opened : Frame}

theorem ComesTo.row (h : c.ComesTo session load depth mapping f) :
    f.request.row = c.frame.request.row := by
  obtain @⟨subject, opened, _, before, _, _, gathers, -, hreach, -, hensure⟩ := h
  obtain ⟨s, -, rfl⟩ := run_edit_eq_ok.1 hensure
  have hgathered := gather_steady session load depth before subject.object opened
  rw [hreach] at hgathered
  exact hgathered.row.trans gathers.row

theorem Adds.mono (h : c.Adds session load depth keeps mapping out)
    (hk : ∀ q d, keeps q d → keeps' q d) : c.Adds session load depth keeps' mapping out := by
  obtain ⟨id, child, f, hroute, hchild, hcomes, hrow, hfrom⟩ := h
  exact ⟨id, child, f, hroute, hchild, hcomes, hrow, hfrom.mono hk⟩

theorem Added.mono {mappings : List ResultMapping} {d d' : ObjectData}
    (h : c.Added session load depth keeps mappings d d') (hk : ∀ q d, keeps q d → keeps' q d) :
    c.Added session load depth keeps' mappings d d' := by
  refine ⟨fun mapping hmem hnested => ?_, h.others⟩
  obtain ⟨out, hadds, hslot⟩ := h.elements mapping hmem hnested
  exact ⟨out, hadds.mono hk, hslot⟩

include hi hm

/-- A call adds to its object, mapping after mapping, the elements that are made of its row. -/
theorem Gathers.added (hg : c.Gathers session subject opened) (hobject : subject.object = .object r)
    (hmap : subject.mappings = m.declared) :
    ∀ (after before : List ResultMapping) {f : Frame}, m.declared = before ++ after →
      (gather session (session.load n) depth before (.object r)).run opened = (.ok (), f) →
      f.Parent session m r →
      (gather session (session.load n) depth after (.object r)).run f = (.ok (), g) →
      g.Parent session m r ∧
        c.Added session (session.load n) depth (g.Settled session f.world.store.objects.size) after
          (f.world.store.data r) (g.world.store.data r)
  | [], _, f, _, _, hp, hrun => by
    cases hrun
    exact ⟨hp, fun _ hmem => absurd hmem List.not_mem_nil, fun _ _ => rfl⟩
  | mapping :: after, before, f, hsplit, hreach, hp, hrun => by
    rw [gather_cons] at hrun
    obtain ⟨_, k, hone, hrest⟩ := run_bind_eq_ok.1 hrun
    have hmem : mapping ∈ m.declared := by
      rw [hsplit]
      exact List.mem_append_right _ (List.mem_cons_self ..)
    have hafter : m.declared = (before ++ [mapping]) ++ after := by simp [hsplit]
    have hreached := gather_append_ok hreach hone
    rcases nestedMapping_eq_ok hone with ⟨hno, rfl⟩ | ⟨id, hroute, helement⟩
    · obtain ⟨hg', hadded⟩ := Gathers.added hg hobject hmap after _ hafter hreached hp hrest
      refine ⟨hg', fun other hother hnested => ?_, fun property hproperty =>
        hadded.others property fun other hother => hproperty other (List.mem_cons_of_mem _ hother)⟩
      rcases List.mem_cons.1 hother with rfl | hother
      · rw [hno] at hnested
        cases hnested
      · exact hadded.elements other hother hnested
    obtain ⟨child, type, u, out, hchild, htype, hensure, hfrom, hk, hgains⟩ :=
      hp.nestedElement hi hm hmem hroute helement
    have hloner : ∀ other ∈ mapping :: after, ∀ id child, other.route = .nestedMap id →
        session.catalog.resultMap id = .ok child → child.Loner session.catalog :=
      fun other hother id child =>
        hm.loner hi (by rw [hsplit]; exact List.mem_append_right _ hother)
    have hfirst := Frame.gather_passes hi hp.mappings hp.has
      (fun other hother => hloner other (List.mem_singleton.1 hother ▸ List.mem_cons_self ..))
      (gather_singleton hone)
    have hpasses := Frame.gather_passes hi hk.mappings hk.has
      (fun other hother => hloner other (List.mem_cons_of_mem _ hother)) hrest
    obtain ⟨hg', hadded⟩ := Gathers.added hg hobject hmap after _ hafter hreached hk hrest
    have hcomes : c.ComesTo session (session.load n) depth mapping u :=
      .mk hg (hmap.trans hsplit) (hobject ▸ hreach) (hobject ▸ htype) (hobject ▸ hensure)
    -- no other mapping is for the property
    have hne : ∀ other ∈ after, other.property ≠ mapping.property := by
      have hdistinct := hm.distinct
      rw [hsplit, List.map_append, List.map_cons] at hdistinct
      have hnot := (List.nodup_cons.1 hdistinct.of_append_right).1
      exact fun other hother he => hnot (List.mem_map.2 ⟨other, hother, he⟩)
    refine ⟨hg', fun other hother hnested => ?_, fun property hproperty => ?_⟩
    · rcases List.mem_cons.1 hother with rfl | hother
      · refine ⟨out, ⟨id, child, u, hroute, hchild, hcomes, hcomes.row, hfrom.mono fun q d hq => ?_⟩, ?_⟩
        · obtain ⟨hapart, hsame⟩ := hpasses.apart q hq.apart (hp.has.ne_unmade q hq.fresh)
          exact ⟨hapart, hsame.trans hq.data, hq.fresh⟩
        · rw [hadded.others _ fun other hother _ => hne other hother, hgains.slot]
      · obtain ⟨out', hadds, hslot⟩ := hadded.elements other hother hnested
        refine ⟨out', hadds.mono fun q d hq => ⟨hq.apart, hq.data, ?_⟩, ?_⟩
        · exact Nat.le_trans hfirst.size hq.fresh
        · rw [hslot]
          unfold ObjectData.items
          rw [hgains.others _ (hne other hother)]
    · rw [hadded.others property fun other hother => hproperty other (List.mem_cons_of_mem _ hother)]
      refine hgains.others property fun he => ?_
      exact hproperty mapping (List.mem_cons_self ..) (ResultMapping.isNestedMap_of_route hroute) he.symm

end Call

end Laws

end RowMapper
