/-
Watching an object through a request. The request may be the one that makes the object, by a map
whose objects it remembers (`Watch.Scope.own`), or one that is nested in it (`Watch.Scope.outer`).
While the object is remembered, nothing but collections and the table of the request refers to it,
and the list at the watched property is only added to.
-/
import RowMapper.Proofs.Access.Filling
import RowMapper.Proofs.Catalog.Nesting
import RowMapper.Proofs.Engine.Answers
import RowMapper.Proofs.Engine.Collections
import RowMapper.Proofs.Engine.Row

namespace RowMapper

/-- The declared type of a property of the objects of a map. -/
def ResultMap.propertyType (m : ResultMap) (property : String) : DataType :=
  match m.resultClass with
  | some (.bean _ properties) => (Table.get? property properties).getD .object
  | _ => .object

/-- All mappings of a map at a property nest maps. -/
def ResultMap.Nested (m : ResultMap) (property : String) : Prop :=
  ∀ mapping ∈ m.declared, mapping.property = property → mapping.isNestedMap = true

/-- No mapping of a map at a property nests a map. -/
def ResultMap.Flat (m : ResultMap) (property : String) : Prop :=
  ∀ mapping ∈ m.declared, mapping.property = property → mapping.isNestedMap = false

/-- A map of a catalog with declared mappings, which gives maps or beans. -/
structure ResultMap.Owns (m : ResultMap) (catalog : Catalog) : Prop where
  registered : catalog.resultMap m.id = .ok m
  declared : m.isAuto = false
  exchange : m.exchange = .map ∨ m.exchange = .bean

/-- A property of the objects of a map that holds values, or the list of nested elements. -/
structure ResultMap.Place (m : ResultMap) (property : String) : Prop where
  single : '.' ∉ property.toList
  /-- No mapping goes through the property to another one. The values of a row are put into a map by
  their properties as they are, which goes through none. -/
  direct : ∀ mapping ∈ m.declared, (Text.steps mapping.property).head? = some property →
    mapping.property = property ∨ m.exchange = .map ∧ mapping.isNestedMap = false
  uniform : m.Nested property ∨ m.Flat property
  list : ∀ mapping ∈ m.declared, mapping.property = property → mapping.isNestedMap = true →
    (mapping.type.getD (m.propertyType property)).IsListKind

/-- The objects of a map have a place for a property, unless they are beans without it. -/
def ResultMap.HasPlace (m : ResultMap) (property : String) : Prop :=
  ∀ name properties, m.resultClass = some (.bean name properties) →
    Table.indexOf? property properties ≠ none

/-- An object of a map, with a list, or nothing yet, at the watched properties that are for nested
elements. -/
structure ObjectData.Fits (m : ResultMap) (watched : String → Prop) (d : ObjectData) : Prop where
  shape : d.kind = .map ∧ m.exchange = .map ∨ d.kind = .bean ∧ m.resultClass = some d.type
  slot : ∀ property, watched property → m.Nested property → m.HasPlace property →
    ∃ v, d.slot? property = some v ∧ ListGrows .null v

section Fits

variable {m : ResultMap} {watched : String → Prop} {property : String} {d d' : ObjectData}
  {s : Store} {r : ObjectRef}

theorem ObjectData.Fits.grows {fixed : Prop} (h : d.Fits m watched)
    (hg : d.Grows watched fixed d') : d'.Fits m watched := by
  refine ⟨?_, fun p hp hn hplace => ?_⟩
  · rw [hg.kind_eq, hg.type_eq]
    exact h.shape
  · obtain ⟨v, hv, hnull⟩ := h.slot p hp hn hplace
    obtain ⟨w, hw, hvw, -⟩ := hg.slot p v hp hv
    exact ⟨w, hw, hnull.trans hvw⟩

/-- An object of a map with nothing at the watched properties that are for nested elements. -/
structure ObjectData.Empty (m : ResultMap) (watched : String → Prop) (d : ObjectData) : Prop where
  shape : d.kind = .map ∧ m.exchange = .map ∨ d.kind = .bean ∧ m.resultClass = some d.type
  slot : ∀ property, watched property → m.Nested property → m.HasPlace property →
    d.slot? property = some .null

theorem ObjectData.Empty.fits (h : d.Empty m watched) : d.Fits m watched :=
  ⟨h.shape, fun p hp hn hplace => ⟨.null, h.slot p hp hn hplace, .same _⟩⟩

/-- An object that is empty stays so as long as its lists are fixed. -/
theorem ObjectData.Empty.fixed (h : d.Empty m watched)
    (hg : d.Grows (fun p => watched p ∧ m.Nested p) True d') : d'.Empty m watched := by
  refine ⟨?_, fun p hp hn hplace => ?_⟩
  · rw [hg.kind_eq, hg.type_eq]
    exact h.shape
  · obtain ⟨w, hw, -, hsame⟩ := hg.slot p _ ⟨hp, hn⟩ (h.slot p hp hn hplace)
    rw [hw, hsame trivial]

/-- A new object of a map has nothing at any property. -/
theorem ObjectData.blank_slot? (h : m.blank? = some d) (hplace : m.HasPlace property) :
    d.slot? property = some .null := by
  rcases ResultMap.blank?_eq_some h with ⟨-, rfl⟩ | ⟨-, type, hc, rfl⟩
  · rfl
  · obtain ⟨i, hi⟩ := Option.ne_none_iff_exists'.1 (hplace type.name type.properties hc)
    obtain ⟨hlt, -⟩ := List.findIdx?_eq_some_iff_getElem.1 hi
    unfold ObjectData.newBean
    rw [ObjectData.slot?_bean, hi]
    exact List.getElem?_replicate_of_lt hlt

theorem ObjectData.empty_blank (h : m.blank? = some d) : d.Empty m watched := by
  refine ⟨?_, fun _ _ _ hplace => blank_slot? h hplace⟩
  rcases ResultMap.blank?_eq_some h with ⟨he, rfl⟩ | ⟨-, type, hc, rfl⟩
  · exact .inl ⟨rfl, he⟩
  · exact .inr ⟨rfl, hc⟩

/-- An object of a map without a place for a property holds nothing there. -/
theorem ObjectData.Fits.slot?_eq_none (h : d.Fits m watched) (hplace : ¬m.HasPlace property) :
    d.slot? property = none := by
  unfold ResultMap.HasPlace at hplace
  push Not at hplace
  obtain ⟨name, properties, hc, hnone⟩ := hplace
  rcases h.shape with ⟨-, he⟩ | ⟨hk, hclass⟩
  · rcases ResultMap.exchange_map he with hc' | hc' | hc' <;> rw [hc'] at hc <;> cases hc
  · cases d with
    | map entries => cases hk
    | dom node => cases hk
    | bean T fields =>
      rw [hc] at hclass
      have heq : DataType.bean name properties = T.type := Option.some.inj hclass
      obtain ⟨-, rfl⟩ := DataType.bean.inj heq
      rw [slot?_bean, hnone]
      rfl

/-- The type that a property of an object of a map takes is the declared one. -/
theorem ObjectData.Fits.setterType_eq {type : DataType} (h : (s.data r).Fits m watched)
    (hs : s.setterType r property = .ok type) : type = m.propertyType property := by
  unfold Store.setterType at hs
  unfold ResultMap.propertyType
  split at hs
  · rename_i T fields hd
    have hclass : m.resultClass = some (.bean T.name T.properties) := by
      rcases h.shape with ⟨hk, -⟩ | ⟨-, hc⟩
      · rw [hd] at hk; cases hk
      · rw [hd] at hc; exact hc
    rw [hclass]
    show type = (T.propertyType? property).getD .object
    split at hs <;> cases hs
    rename_i hp
    rw [hp]
    rfl
  · rename_i hno
    cases hs
    rcases h.shape with ⟨-, he⟩ | ⟨hk, -⟩
    · rcases ResultMap.exchange_map he with hc | hc | hc <;> rw [hc]
    · cases hd : s.data r with
      | map entries => rw [hd] at hk; cases hk
      | bean T fields => exact absurd hd (hno T fields)
      | dom node => rw [hd] at hk; cases hk

/-- An object of a map with a slot for a property has a place for it. -/
theorem ObjectData.Fits.hasPlace {slot : Slot} (h : (s.data r).Fits m watched)
    (hs : s.slotOf r property = .ok slot) : m.HasPlace property := by
  intro name properties hc hnone
  rcases h.shape with ⟨-, he⟩ | ⟨hk, hclass⟩
  · rcases ResultMap.exchange_map he with hc' | hc' | hc' <;> rw [hc'] at hc <;> cases hc
  · cases hd : s.data r with
    | map entries => rw [hd] at hk; cases hk
    | dom node => rw [hd] at hk; cases hk
    | bean T fields =>
      rw [hc, hd] at hclass
      have heq : DataType.bean name properties = T.type := Option.some.inj hclass
      obtain ⟨-, rfl⟩ := DataType.bean.inj heq
      simp [Store.slotOf, hd, Store.fieldIndex, hnone, Except.map] at hs

/-- The list of an object of a map is changed in place. -/
theorem ObjectData.Fits.run_update (h : (s.data r).Fits m watched) (hp : watched property)
    (hn : m.Nested property)    (hdot : '.' ∉ property.toList)
    (accessor : Accessor) (change : Store → Value → Value × Except Error Unit) :
    (∃ e, (accessor.update (.object r) property change).run s = (.error e, s)) ∨
      ∃ v d, (s.data r).slot? property = some v ∧ ListGrows .null v ∧
        (accessor.update (.object r) property change).run s =
          ((change s v).2, s.setData r d) ∧
        (s.data r).Written property (change s v).1 d ∧
        d.slot? property = some (change s v).1 := by
  have hrun := Accessor.run_update_single (Text.steps_of_no_dot hdot) accessor change r s
  refine hrun.imp id ?_
  rintro ⟨slot, hslot, hrun⟩
  obtain ⟨v, hv, hnull⟩ := h.slot property hp hn (h.hasPlace hslot)
  obtain ⟨d, hfill, hwritten, hvalue⟩ :=
    Store.fillSlot_eq (v := (change s (s.slotValue slot)).1) hslot
  obtain ⟨hd, rfl⟩ := hvalue.1 v hv
  rw [hfill] at hrun
  exact ⟨_, d, hv, hnull, hrun, hwritten, hd⟩

end Fits

namespace Watch

/-- How a request stands to the object: it makes it by a map, or it is nested in a request that may
hold it. -/
inductive Scope where
  | own (m : ResultMap)
  | outer (held : Prop)

variable {x : Watch} {scope : Scope} {session : Session} {f g : Frame} {α : Type}

/-- Whether the object is one that is remembered. -/
def Held (x : Watch) (scope : Scope) (f : Frame) : Prop :=
  match scope with
  | .own m => ∃ key, f.request.identity.get? m.id key = some (.object x.ref)
  | .outer held => held

/-- Whether the object was made, but as one that is not remembered. -/
def Free (x : Watch) (scope : Scope) (f : Frame) : Prop :=
  x.ref.index < f.world.store.objects.size ∧ ¬x.Held scope f

/-- Nothing but collections and the table of the request refers to the object. -/
structure Guarded (x : Watch) (scope : Scope) (session : Session) (f : Frame) : Prop where
  store : x.Alone f.world.store
  loader : ∀ v, session.catalog.loader = .fixed v → v ≠ .object x.ref
  replies : ∀ r ∈ f.world.database.registrations, .object x.ref ∉ r.reply.cells
  rows : ∀ rows, f.request.rows = some rows → .object x.ref ∉ rows.cells
  emitted : ∀ held, scope = .outer held → ∀ e ∈ f.emitted, e.object ≠ .object x.ref
  identity : ∀ id key, f.request.identity.get? id key = some (.object x.ref) →
    ∃ m, scope = .own m ∧ id = m.id
  made : x.Held scope f → x.ref.index < f.world.store.objects.size
  fits : ∀ m, scope = .own m → x.Held scope f →
    (f.world.store.data x.ref).Fits m x.watched

/-- The map of the request gives maps or beans with places for the watched properties. -/
structure Sound (x : Watch) (scope : Scope) (session : Session) : Prop where
  own : ∀ m, scope = .own m → m.Owns session.catalog
  place : ∀ m, scope = .own m → ∀ property, x.watched property → m.Place property
  indexed : Table.Indexed ResultMap.id session.catalog.resultMaps

theorem Held.later (h : x.Held scope f)
    (hid : ∀ id key v, f.request.identity.get? id key = some v →
      g.request.identity.get? id key = some v) : x.Held scope g := by
  cases scope with
  | own m => exact h.imp fun key hkey => hid _ _ _ hkey
  | outer held => exact h

/-- The invariant of a request around which an object is watched, and what it keeps. -/
def onRequest (x : Watch) (scope : Scope) (session : Session) : Correspondence where
  paired f g := f = g ∧
    (∀ m, scope = .own m → Table.get? m.id f.request.mappings = none) ∧
    (x.Free scope f ∨ x.Guarded scope session f)
  later f g := f.world.store.objects.size ≤ g.world.store.objects.size ∧
    (∀ id key v, f.request.identity.get? id key = some v →
      g.request.identity.get? id key = some v) ∧
    (x.Free scope f → x.Free scope g) ∧
    (x.Held scope f →
      (f.world.store.data x.ref).Grows x.watched x.fixed (g.world.store.data x.ref))
  refl _ := ⟨Nat.le_refl _, fun _ _ _ => id, id, fun _ => .refl _⟩
  trans h h' := ⟨Nat.le_trans h.1 h'.1, fun id key v hv => h'.2.1 id key v (h.2.1 id key v hv),
    fun hf => h'.2.2.1 (h.2.2.1 hf),
    fun hh => (h.2.2.2 hh).trans (h'.2.2.2 (hh.later h.2.1))⟩
  values f v w := v = w ∧ (v = .object x.ref → x.Free scope f)
  objects f v w := v = w ∧ ((∃ m, scope = .own m) ∨
    (v = .object x.ref → x.Free scope f))
  parents f m mappings v w := v = w ∧ (v = .object x.ref → x.Free scope f ∨
    x.Held scope f ∧ ((scope = .own m ∧ mappings = m.declared) ∨ ∀ property, ¬x.watched property))
  collections f v mapping type := v = .object x.ref → x.Free scope f ∨
    (x.watched mapping.property → type.IsListKind)
  maps m := session.catalog.resultMap m.id = .ok m
  values_later h hv := ⟨hv.1, fun hr => h.2.2.1 (hv.2 hr)⟩
  objects_later h hv := ⟨hv.1, hv.2.imp_right fun hx hr => h.2.2.1 (hx hr)⟩
  parents_later h hv := ⟨hv.1, fun hr => (hv.2 hr).imp (h.2.2.1 ·) fun hh => ⟨hh.1.later h.2.1, hh.2⟩⟩
  collections_later h hv hr := (hv hr).imp_left (h.2.2.1 ·)

/-- A run that succeeds, as one in step with itself. -/
theorem inStep_ok {Q : Frame → α → α → Prop} {run : Run Frame α} {a : α}
    (h : (x.onRequest scope session).InStep Q run run f f) (hrun : run.run f = (.ok a, g)) :
    (x.onRequest scope session).paired g g ∧ (x.onRequest scope session).later f g ∧ Q g a a := by
  have hdone := h.resolve_left fun ⟨_, he, _⟩ => he
  rw [hrun] at hdone
  exact hdone

/-! ## Steps on the store -/

open Classical in
/-- The size of the store from which on the object counts as made: from the start if it is free. -/
noncomputable def since (x : Watch) (scope : Scope) (f : Frame) : Nat :=
  if x.Free scope f then 0 else f.world.store.objects.size

theorem madeSince_since {s : Store}
    (h : x.MadeSince (x.since scope f) s) : x.ref.index < s.objects.size ∧
      (x.Free scope f ∨ f.world.store.objects.size ≤ x.ref.index) := by
  refine ⟨h.2, ?_⟩
  have hn := h.1
  unfold since at hn
  split at hn
  · rename_i hf
    exact .inl hf
  · exact .inr hn

theorem since_of_free (h : x.Free scope f) : x.MadeSince (x.since scope f) f.world.store := by
  refine ⟨?_, h.1⟩
  unfold since
  rw [if_pos h]
  exact Nat.zero_le _

theorem onStore_paired (hp : (x.onRequest scope session).paired f f) :
    (x.onStore (x.since scope f)).paired f.world.store f.world.store := by
  refine ⟨rfl, ?_, ?_⟩
  · unfold since
    split
    · exact Nat.zero_le _
    · exact Nat.le_refl _
  · exact hp.2.2.imp since_of_free fun hg => hg.store

theorem onStore_values {v w : Value} (hv : (x.onRequest scope session).values f v w) :
    (x.onStore (x.since scope f)).values f.world.store v w :=
  ⟨hv.1, fun hr => since_of_free (hv.2 hr)⟩

/-- A frame with a store that came from its own by passing the object by. -/
theorem paired_store {s : Store} (hp : (x.onRequest scope session).paired f f)
    (hs : (x.onStore (x.since scope f)).paired s s)
    (hl : (x.onStore (x.since scope f)).later f.world.store s) :
    (x.onRequest scope session).paired { f with world := { f.world with store := s } }
        { f with world := { f.world with store := s } } ∧
      (x.onRequest scope session).later f { f with world := { f.world with store := s } } := by
  have hfree : x.Free scope f → x.Free scope { f with world := { f.world with store := s } } :=
    fun hf => ⟨Nat.lt_of_lt_of_le hf.1 hl.1, hf.2⟩
  have hgrows : x.Held scope f → (f.world.store.data x.ref).Grows x.watched x.fixed (s.data x.ref) := by
    intro hh
    refine hl.2 ?_
    unfold since
    rw [if_neg fun hf => hf.2 hh]
    exact (hp.2.2.resolve_left fun hf => hf.2 hh).made hh
  refine ⟨⟨rfl, hp.2.1, ?_⟩, hl.1, fun _ _ _ => id, hfree, hgrows⟩
  by_cases hf : x.Free scope f
  · exact .inl (hfree hf)
  have hg := hp.2.2.resolve_left hf
  rcases hs.2.2 with hm | ha
  · obtain ⟨hlt, hmade⟩ := madeSince_since hm
    refine .inl ⟨hlt, fun hh => ?_⟩
    have := hg.made hh
    have := hmade.resolve_left hf
    omega
  · refine .inr ⟨ha, hg.loader, hg.replies, hg.rows, hg.emitted, hg.identity, ?_, ?_⟩
    · exact fun hh => Nat.lt_of_lt_of_le (hg.made hh) hl.1
    · exact fun m hs hh => (hg.fits m hs hh).grows (hgrows hh)

section Laws

variable (hx : x.Sound scope session)

include hx

omit hx in
theorem edit_inStep {edit edit' : Edit α} {S : Store → α → α → Prop} {Q : Frame → α → α → Prop}
    (hp : (x.onRequest scope session).paired f f)
    (h : (x.onStore (x.since scope f)).InStep S edit edit' f.world.store f.world.store)
    (hq : ∀ s a b, (x.onRequest scope session).later f { f with world := { f.world with store := s } } →
      S s a b → Q { f with world := { f.world with store := s } } a b) :
    (x.onRequest scope session).InStep Q (Frame.edit edit) (Frame.edit edit') f f := by
  rcases h with ⟨e, he, -⟩ | ⟨hpair, hlater, ho⟩
  · exact absurd he ((x.onStore _).strict e)
  have hstate : (edit'.run f.world.store).2 = (edit.run f.world.store).2 := hpair.1.symm
  rw [hstate] at hpair
  obtain ⟨hpaired, hl⟩ := paired_store hp hpair hlater
  refine .inr ?_
  rw [run_edit, run_edit, hstate]
  exact ⟨hpaired, hl, (ho.mapError Stop.failed).imp fun a b => hq _ a b hl⟩

omit hx in
/-- An object that was made since by an edit is not remembered. -/
theorem values_store {s : Store} {v w : Value} (hp : (x.onRequest scope session).paired f f)
    (hv : (x.onStore (x.since scope f)).values s v w) :
    (x.onRequest scope session).values { f with world := { f.world with store := s } } v w := by
  refine ⟨hv.1, fun hr => ?_⟩
  obtain ⟨hlt, hmade⟩ := madeSince_since (hv.2 hr)
  refine ⟨hlt, fun hh => ?_⟩
  rcases hmade with hf | hle
  · exact hf.2 hh
  · by_cases hf : x.Free scope f
    · exact hf.2 hh
    · have := (hp.2.2.resolve_left hf).made hh
      omega

/-! ## Steps on the request -/

omit hx in
/-- A request with the same objects and mappings is guarded as well, if its rows do not hold the
object. -/
theorem modifyRequest_inStep (change : Request → Request)
    (hp : (x.onRequest scope session).paired f f)
    (hrows : ∀ rows, (change f.request).rows = some rows → .object x.ref ∈ rows.cells →
      x.Free scope f ∨ ∃ rows', f.request.rows = some rows' ∧ .object x.ref ∈ rows'.cells)
    (hid : (change f.request).identity = f.request.identity)
    (hmappings : ∀ m, scope = .own m →
      Table.get? m.id (change f.request).mappings = Table.get? m.id f.request.mappings) :
    (x.onRequest scope session).paired { f with request := change f.request }
        { f with request := change f.request } ∧
      (x.onRequest scope session).later f { f with request := change f.request } := by
  have hheld : x.Held scope { f with request := change f.request } ↔ x.Held scope f := by
    cases scope with
    | own m =>
      show (∃ key, (change f.request).identity.get? m.id key = _) ↔ _
      rw [hid]
      exact Iff.rfl
    | outer held => exact Iff.rfl
  have hfree : x.Free scope f → x.Free scope { f with request := change f.request } :=
    fun hf => ⟨hf.1, fun hh => hf.2 (hheld.1 hh)⟩
  refine ⟨⟨rfl, fun m hs => ?_, ?_⟩, Nat.le_refl _, ?_, hfree, fun _ => .refl _⟩
  · exact (hmappings m hs).trans (hp.2.1 m hs)
  · by_cases hf : x.Free scope f
    · exact .inl (hfree hf)
    have hg := hp.2.2.resolve_left hf
    refine .inr ⟨hg.store, hg.loader, hg.replies, fun rows hr hmem => ?_, hg.emitted, ?_, ?_, ?_⟩
    · obtain ⟨rows', hr', hmem'⟩ := (hrows rows hr hmem).resolve_left hf
      exact hg.rows rows' hr' hmem'
    · intro id key h
      rw [hid] at h
      exact hg.identity id key h
    · exact fun hh => hg.made (hheld.1 hh)
    · exact fun m hs hh => hg.fits m hs (hheld.1 hh)
  · intro id key v h
    show (change f.request).identity.get? id key = some v
    rw [hid]
    exact h

omit hx in
theorem modify_inStep {change : Request → Request} (hp : (x.onRequest scope session).paired f g)
    (hrows : (change f.request).rows = f.request.rows)
    (hid : (change f.request).identity = f.request.identity)
    (hmappings : (change f.request).mappings = f.request.mappings) :
    (x.onRequest scope session).InStep Pairing.Any (Frame.modifyRequest change)
      (Frame.modifyRequest change) f g := by
  obtain rfl := hp.1
  obtain ⟨hpaired, hl⟩ := modifyRequest_inStep change hp
    (fun rows hr hmem => .inr ⟨rows, hrows ▸ hr, hmem⟩) hid fun _ _ => by rw [hmappings]
  exact .modify hpaired hl

/-! ## Reading rows -/

omit hx in
/-- Reading from the rows of a request, which leaves their cells as they are. -/
theorem onRows_inStep {read : RowSet → Except Error α × RowSet} {Q : Frame → α → α → Prop}
    (hp : (x.onRequest scope session).paired f g)
    (hcells : ∀ rows, ∀ v ∈ (read rows).2.cells, v ∈ rows.cells)
    (hq : ∀ rows a, f.request.rows = some rows → (read rows).1 = .ok a →
      ∀ g, (x.onRequest scope session).later f g → Q g a a) :
    (x.onRequest scope session).InStep Q (Frame.onRows read) (Frame.onRows read) f g := by
  obtain rfl := hp.1
  cases hr : f.request.rowSetToRead with
  | error e =>
    refine .inr ?_
    rw [run_onRows_error hr]
    exact ⟨hp, (x.onRequest scope session).refl f, rfl⟩
  | ok rows =>
    have hrows : f.request.rows = some rows := Request.rows_of_rowSetToRead hr
    obtain ⟨hpaired, hl⟩ := modifyRequest_inStep (fun r => { r with rows := some (read rows).2 })
      hp (fun rows' hr' hmem => by cases hr'; exact .inr ⟨rows, hrows, hcells rows _ hmem⟩) rfl
      fun _ _ => rfl
    refine .inr ?_
    rw [run_onRows_ok hr]
    refine ⟨hpaired, hl, ?_⟩
    have ho : Outcomes (Q { f with request := { f.request with rows := some (read rows).2 } })
        (read rows).1 (read rows).1 := .same fun a ha => hq rows a hrows ha _ hl
    exact ho.mapError Stop.failed

omit hx in
/-- What the rows of a request hold is not the object, unless it is free. -/
theorem values_cell {rows : RowSet} {v : Value} (hp : (x.onRequest scope session).paired f f)
    (hr : f.request.rows = some rows) (hv : v ∈ rows.cells)
    (hl : (x.onRequest scope session).later f g) : (x.onRequest scope session).values g v v := by
  refine ⟨rfl, ?_⟩
  rintro rfl
  exact hl.2.2.1 (hp.2.2.resolve_right fun hg => hg.rows rows hr hv)

omit hx in
theorem values_plain {v : Value} (hv : v.Plain) : (x.onRequest scope session).values f v v :=
  ⟨rfl, fun h => absurd h (hv.ne_object _)⟩

omit hx in
theorem column_inStep (c : Coercer) (column : Column)
    (hp : (x.onRequest scope session).paired f g) :
    (x.onRequest scope session).InStep (x.onRequest scope session).values
      (Frame.readColumn c column) (Frame.readColumn c column) f g := by
  obtain rfl := hp.1
  refine onRows_inStep hp (fun rows v hv => ?_) fun rows a hr ha g hl => ?_
  · rwa [Coercer.readColumn_cells] at hv
  · rcases Coercer.readColumn_mem_or_plain ha with hmem | hplain
    · exact values_cell hp hr hmem hl
    · exact values_plain hplain

/-! ## The steps of reading -/

theorem resultMap_registered {id : String} {m : ResultMap} (h : session.catalog.resultMap id = .ok m) :
    (x.onRequest scope session).maps m := by
  show session.catalog.resultMap _ = _
  rwa [Catalog.resultMap_id hx.indexed h]

theorem follows : (x.onRequest scope session).Follows session :=
  fun _ _ _ h => resultMap_registered hx h

omit hx in
theorem reads {load : Load} (hload : ∀ {f g v w} (id : String) (target : DataType),
      (x.onRequest scope session).paired f g → (x.onRequest scope session).values f v w →
      (x.onRequest scope session).InStep (x.onRequest scope session).values
        (Frame.onWorld (session.loadResult load id v target))
        (Frame.onWorld (session.loadResult load id w target)) f g) :
    (x.onRequest scope session).Reads session load load where
  isNull h := h.1 ▸ rfl
  null := values_plain ⟨rfl, rfl⟩
  literal h := values_plain (Coercer.valueOf_plain _ h)
  text h hv := h.1 ▸ hv.1 ▸ rfl
  mappings h _ := h.1 ▸ rfl
  context _ hp := modify_inStep hp rfl rfl rfl
  found _ hp := modify_inStep hp rfl rfl rfl
  column c column hp := column_inStep c column hp
  instantiate type hp := by
    obtain rfl := hp.1
    exact edit_inStep hp ((x.writes _).instantiate type (onStore_paired hp))
      fun s a b _ => values_store hp
  document node hp := by
    obtain rfl := hp.1
    exact edit_inStep hp ((x.writes _).newObject _ (onStore_paired hp) nofun)
      fun s a b _ => values_store hp
  setterType _ h hv := h.1 ▸ hv.1 ▸ rfl
  set path hp hvw hab := by
    obtain rfl := hp.1
    refine edit_inStep hp ((x.writes _).set _ path (onStore_paired hp) ?_ (onStore_values hab))
      fun _ _ _ _ => id
    exact fun step _ _ => (x.writes _).roots step (onStore_values hvw)
  load statement target hp _ hvw := hload statement.id target hp hvw

end Laws

end Watch

end RowMapper
