/-
Assembling the objects of rows makes the objects of a region only grow. What rows, replies and the
loader hold is outside of the region, so that nothing is written into its objects but nested elements,
which go into those that the request remembers (`Frame.Guards`).
-/
import RowMapper.Proofs.Objects.Growing

namespace RowMapper

variable {α : Type} {session : Session} {load : Load} {f g : Frame} {m : ResultMap}
  {mapping : ResultMapping} {mappings : List ResultMapping} {s t : Store} {v : Value}

/-! ## Stores -/

/-- The objects of a region, which may grow where they collect nested elements. Those that open may
get anything for null besides. -/
structure Growth where
  region : Region
  collects : ObjectRef → String → Prop
  opens : Prop

namespace Growth

/-- The objects of a region may grow wherever they are. -/
def anyhow (R : Region) : Growth := ⟨R, fun _ _ => True, True⟩

/-- Whether objects may grow wherever they are. -/
structure Free (G : Growth) : Prop where
  opens : G.opens
  collects : ∀ r property, G.collects r property

theorem free_anyhow (R : Region) : (anyhow R).Free := ⟨trivial, fun _ _ => trivial⟩

/-- From one store to the next the objects of the region only grow. -/
structure Allows (G : Growth) (s t : Store) : Prop where
  size : s.objects.size ≤ t.objects.size
  grows : ∀ r, G.region r → (s.data r).OnlyGrows (G.collects r) (t.data r) G.opens

/-- A value that is there, and an object of the region only if it collects where some mappings nest
maps, at properties that are no paths. -/
structure Feeds (G : Growth) (mappings : List ResultMapping) (s : Store) (v : Value) : Prop where
  made : ∀ r, v = .object r → r.index < s.objects.size
  collects : ∀ r, v = .object r → G.region r → ∀ mapping ∈ mappings, mapping.isNestedMap = true →
    '.' ∉ mapping.property.toList ∧ G.collects r mapping.property

variable {G : Growth}

namespace Allows

theorem refl (s : Store) : G.Allows s s := ⟨Nat.le_refl _, fun _ _ => .refl _⟩

theorem trans {u : Store} (h : G.Allows s t) (h' : G.Allows t u) : G.Allows s u :=
  ⟨Nat.le_trans h.size h'.size, fun r hr => (h.grows r hr).trans (h'.grows r hr)⟩

/-- Objects that stay as they are do not grow. -/
theorem of_later (h : G.region.onStore.later s t) : G.Allows s t := by
  refine ⟨h.1, fun r hr => ?_⟩
  rw [h.2 r hr]
  exact .refl _

end Allows

theorem Feeds.later (h : G.Feeds mappings s v) (hle : s.objects.size ≤ t.objects.size) :
    G.Feeds mappings t v := ⟨fun r hr => Nat.lt_of_lt_of_le (h.made r hr) hle, h.collects⟩

theorem Feeds.of_outside (h : v.Outside G.region s) : G.Feeds mappings s v :=
  ⟨fun r hr => (h r hr).1, fun r hr hin => absurd hin (h r hr).2⟩

/-- Changing the property of a mapping in place makes the region only grow, when it extends what is
there. -/
theorem update (hv : G.Free ∨ G.Feeds mappings s v) (hmem : mapping ∈ mappings)
    (hnested : mapping.isNestedMap = true) {change : Store → Value → Value × Except Error Unit}
    (hchange : ∀ s w, Value.Extends w (change s w).1) (hs : s.Shuts G.region) (accessor : Accessor) :
    ((accessor.update v mapping.property change).run s).2.Shuts G.region ∧
      G.Allows s ((accessor.update v mapping.property change).run s).2 := by
  refine ⟨accessor.shuts_update v _ hchange hs, ?_⟩
  have hsize := Store.growth.size_le (Store.growth.update accessor mapping.property v change s)
  rcases hv with hfree | hfeeds
  · refine ⟨hsize, fun r hr => ?_⟩
    exact (accessor.update_grows v _ hchange s (hs.made r hr)).mono
      (fun property _ => hfree.collects r property) fun _ => hfree.opens
  by_cases hin : ∃ q, v = .object q ∧ G.region q
  · obtain ⟨q, rfl, hq⟩ := hin
    obtain ⟨hdot, hcollects⟩ := hfeeds.collects q rfl hq mapping hmem hnested
    rcases Accessor.run_update_single (Text.steps_of_no_dot hdot) accessor change q s with
      ⟨e, he⟩ | ⟨slot, hslot, hrun⟩
    · rw [he]
      exact .refl s
    · obtain ⟨d, hfill, hwritten, hvalue, -⟩ :=
        Store.fillSlot_eq (v := (change s (s.slotValue slot)).1) hslot
      rw [hrun, hfill]
      refine ⟨Nat.le_of_eq (Store.size_setData ..).symm, fun r _ => ?_⟩
      rcases Store.data_setData_cases s q r d with he | ⟨rfl, he⟩ <;> rw [he]
      · exact .refl _
      · refine hwritten.onlyGrows hcollects fun w hw => ?_
        obtain ⟨hnew, hold⟩ := hvalue w hw
        exact ⟨hnew, .inl (hold ▸ hchange s _)⟩
  · have hout : v.Outside G.region s := fun q hq =>
      ⟨hfeeds.made q hq, fun hr => hin ⟨q, hq, hr⟩⟩
    exact .of_later (Region.later_of_inStep (Region.update accessor _ hchange hs hout))

end Growth

/-! ## Requests -/

/-- A request that spares a region, but for what it remembers: there nested elements go in, where the
objects of the region may grow. -/
structure Frame.Guards (f : Frame) (session : Session) (G : Growth) (S : Sphere := .all) : Prop
    extends f.Spares session G.region False S where
  feeds : G.Free ∨
    f.TakesColumns ∧ ∀ id m key v, session.catalog.resultMap id = .ok m →
      f.request.identity.get? m.id key = some v → G.Feeds m.declared f.world.store v

variable {G : Growth} {R : Region} {S : Sphere}

namespace Frame.Guards

/-- Where objects may grow wherever they are, sparing all else is enough. -/
theorem of_spares (h : f.Spares session R False S) : f.Guards session (.anyhow R) S :=
  ⟨h, .inl (Growth.free_anyhow R)⟩

theorem next (h : f.Guards session G S) (hspares : g.Spares session G.region False S)
    (hsize : f.world.store.objects.size ≤ g.world.store.objects.size)
    (hmappings : g.request.mappings = f.request.mappings)
    (hidentity : g.request.identity = f.request.identity) : g.Guards session G S := by
  refine ⟨hspares, h.feeds.imp_right fun ⟨hinstalled, hfeeds⟩ => ?_⟩
  have hcolumns : g.TakesColumns := fun id mappings hget => hinstalled id mappings (hmappings ▸ hget)
  exact ⟨hcolumns, fun id m key v hm hv => (hfeeds id m key v hm (hidentity ▸ hv)).later hsize⟩

/-- A request with the same rows and replies, and another store. -/
theorem withStore (h : f.Guards session G S) (hshuts : s.Shuts G.region)
    (hsize : f.world.store.objects.size ≤ s.objects.size) :
    Frame.Guards { f with world := { f.world with store := s } } session G S :=
  h.next (h.toSpares.next hshuts hsize rfl (fun rows hr => ⟨rows, hr, fun _ => id⟩) rfl rfl rfl) hsize rfl rfl

/-- What is remembered for a map collects by the mappings that the map is read with. -/
theorem known (h : f.Guards session G S) {id key : String} (hm : session.catalog.resultMap id = .ok m)
    (hv : f.request.identity.get? m.id key = some v) :
    G.Free ∨ G.Feeds (f.mappings m) f.world.store v := by
  refine h.feeds.imp_right fun ⟨hinstalled, hfeeds⟩ => ?_
  obtain ⟨hmade, hcollects⟩ := hfeeds id m key v hm hv
  refine ⟨hmade, fun r hr hin mapping hmem hnested => hcollects r hr hin mapping ?_ hnested⟩
  -- a mapping that nests a map is none for a column
  refine mem_declared_of_route (hinstalled m.id) hmem fun hroute => ?_
  unfold ResultMapping.isNestedMap at hnested
  rw [hroute] at hnested
  cases hnested

end Frame.Guards

/-- A request on its own, which makes the objects of a region only grow. -/
def Growth.onRequest (G : Growth) (session : Session) (S : Sphere := .all) : Correspondence where
  paired f g := f = g ∧ f.Guards session G S
  later f g := G.Allows f.world.store g.world.store
  refl f := .refl f.world.store
  trans := .trans
  values f v w := v = w ∧ v.Outside G.region f.world.store
  objects f v w := v = w ∧ v.Outside G.region f.world.store
  parents f m mappings v w := v = w ∧ (G.Free ∨ G.Feeds mappings f.world.store v) ∧ S.Reads m mappings
  collections _ _ _ _ := True
  maps m := S.maps m ∧ ∃ id, session.catalog.resultMap id = .ok m
  statements := S.statements
  values_later h hv := ⟨hv.1, hv.2.later h.size⟩
  objects_later h hv := ⟨hv.1, hv.2.later h.size⟩
  parents_later h hv := ⟨hv.1, hv.2.1.imp_right fun hfeeds => hfeeds.later h.size, hv.2.2⟩
  collections_later _ := id

namespace Growth.onRequest

theorem step {Q : Frame → α → α → Prop} {run : Run Frame α} (hf : (run.run f).2.Guards session G S)
    (hl : G.Allows f.world.store (run.run f).2.world.store)
    (hq : ∀ a, (run.run f).1 = .ok a → Q (run.run f).2 a a) :
    (G.onRequest session S).InStep Q run run f f := .inr ⟨⟨rfl, hf⟩, hl, .same hq⟩

/-- What leaves a region as it is, with what the request remembers and its mappings. -/
theorem of_spares {Q : Frame → α → α → Prop} {run : Run Frame α} (hf : f.Guards session G S)
    (h : (G.region.onRequest session False S).InStep Q run run f f)
    (hidentity : (run.run f).2.request.identity = f.request.identity)
    (hmappings : (run.run f).2.request.mappings = f.request.mappings) :
    (G.onRequest session S).InStep Q run run f f := by
  obtain ⟨⟨-, hspares⟩, hlater, ho⟩ := h.resolve_left fun ⟨_, he, _⟩ => he
  exact .inr ⟨⟨rfl, hf.next hspares hlater.1 hmappings hidentity⟩, .of_later hlater, ho⟩

theorem modify {change : Request → Request} (hf : f.Guards session G S)
    (hrows : (change f.request).rows = f.request.rows)
    (hidentity : (change f.request).identity = f.request.identity)
    (hmappings : (change f.request).mappings = f.request.mappings) :
    (G.onRequest session S).InStep Pairing.Any (Frame.modifyRequest change) (Frame.modifyRequest change)
      f f :=
  of_spares hf (Region.onRequest.modify hf.toSpares hrows hmappings hidentity) hidentity hmappings

/-- Nested elements go into what is remembered. -/
theorem collection (hf : f.Guards session G S) (hv : G.Free ∨ G.Feeds mappings f.world.store v)
    (hmem : mapping ∈ mappings) (hnested : mapping.isNestedMap = true)
    {change : Store → Value → Value × Except Error Unit}
    (hchange : ∀ s w, Value.Extends w (change s w).1) :
    (G.onRequest session S).InStep Pairing.Any
      (Frame.edit (session.catalog.accessor.update v mapping.property change))
      (Frame.edit (session.catalog.accessor.update v mapping.property change)) f f := by
  obtain ⟨hshuts, hallows⟩ := Growth.update hv hmem hnested hchange hf.shuts session.catalog.accessor
  exact step (hf.withStore hshuts hallows.size) hallows fun _ _ => trivial

theorem remember (hf : f.Guards session G S) (key : Option String) (hv : v.Outside G.region f.world.store) :
    (G.onRequest session S).InStep Pairing.Any (Frame.remember m.id key v)
      (Frame.remember m.id key v) f f := by
  cases key with
  | none => exact .pure ⟨rfl, hf⟩ trivial
  | some key =>
    have hspares := (Region.onRequest.remember (m := m) hf.toSpares (some key) hv).resolve_left
      fun ⟨_, he, _⟩ => he
    refine step ⟨hspares.1.2, hf.feeds.imp_right fun ⟨hinstalled, hfeeds⟩ =>
      ⟨hinstalled, fun id n key' w hn hw => ?_⟩⟩ (.refl _) fun _ _ => trivial
    rcases IdentityTable.get?_insert hw with ⟨-, -, rfl⟩ | hold
    · exact .of_outside hv
    · exact hfeeds id n key' w hn hold

theorem buildNew {values : List Value} (key : Option String) (hf : f.Guards session G S)
    (hvalues : ∀ v ∈ values, v.Outside G.region f.world.store) :
    (G.onRequest session S).InStep (G.onRequest session S).objects
      (m.buildNew session mappings none values key) (m.buildNew session mappings none values key) f f := by
  have hset := (Region.writes G.region).setData m.exchange session.catalog.accessor m mappings
    ⟨rfl, hf.shuts⟩ .none (List.forall₂_same.2 fun v hv => ⟨rfl, hvalues v hv⟩)
    fun h => ⟨congrArg Value.record (Region.onRequest.values_eq h).1, nofun⟩
  unfold ResultMap.buildNew
  refine Pairing.InStep.bind (Q := (G.onRequest session S).objects)
    (of_spares hf (Region.onRequest.edit hf.toSpares hset fun _ _ _ => id) rfl rfl) ?_
  rintro s _ object _ - ⟨rfl, hs⟩ ⟨rfl, hobject⟩
  refine (remember hs key hobject).bind fun t t' _ _ hl hp _ => ?_
  exact .pure hp ⟨rfl, hobject.later hl.size⟩

/-! ## Rows -/

/-- Reading a row leaves the region as it is. -/
theorem scans (G : Growth) (hS : S.Closed session.catalog) (depth : Nat) :
    (G.onRequest session S).Scans session (session.load depth) (session.load depth) :=
  have hreads : (G.region.onRequest session False S).Scans session (session.load depth) (session.load depth) :=
    (Region.onRequest.reads_load G.region hS False depth).scans
  have hstill : Trail.still.growth.Scans session (session.load depth) (session.load depth) :=
    Trail.scans_still session depth
  { isNull := fun h => congrArg Value.isNull h.1
    null := ⟨rfl, nofun⟩
    text := fun h hv => h.1 ▸ hv.1 ▸ rfl
    mappings := fun h _ => h.1 ▸ rfl
    context := fun _ h => h.1 ▸ modify h.2 rfl rfl rfl
    found := fun _ h => h.1 ▸ modify h.2 rfl rfl rfl
    readColumn := by
      rintro f _ mapping ⟨rfl, hf⟩
      exact of_spares hf (hreads.readColumn mapping ⟨rfl, hf.toSpares⟩)
        (Trail.later (hstill.readColumn mapping rfl) rfl).2.1
        (OnRow.readColumn (R := World.Any) (x := True) mapping f trivial).2.1.mappings
    nestedSelect := fun h hm hmem hroute hfound => (h.2.reads hm.1).nestedSelect hS hmem hroute hfound
    readSelect := by
      rintro f _ id m mapping ⟨rfl, hf⟩ hs
      exact of_spares hf (hreads.readSelect m mapping ⟨rfl, hf.toSpares⟩ hs)
        (Trail.later (hstill.readSelect m mapping rfl fun _ _ => trivial) rfl).2.1
        (OnRow.readSelect (R := World.Any) (fun _ _ _ => bounded_true _) m mapping id f trivial).2.1.mappings }

/-- Assembling objects makes the region only grow. -/
theorem assembles (G : Growth) (hS : S.Closed session.catalog) (depth : Nat) :
    (G.onRequest session S).Assembles session (session.load depth) (session.load depth) where
  toScans := scans G hS depth
  nestedMap hv hmem hroute hfound := ⟨hv.2.2.nestedMap hS hmem hroute hfound, _, hfound⟩
  isAssembling h _ _ _ _ := h.1 ▸ rfl
  known := by
    rintro f _ m values key ⟨rfl, hf⟩ ⟨hsphere, id, hm⟩ - - -
    exact optionRel_same fun v hget => ⟨rfl, hf.known hm hget, hf.reads hsphere⟩
  buildNew := by
    rintro f _ m values values' key ⟨rfl, hf⟩ hm - hv -
    obtain ⟨rfl, hvalues⟩ := Region.onRequest.values_eq hv
    exact (buildNew key hf hvalues).imp fun _ _ _ _ h => ⟨h, h.1, .inr (.of_outside h.2), hf.reads hm.1⟩
  collectionType := by
    rintro f _ m mappings v _ mapping hp ⟨rfl, -⟩ - -
    unfold ResultMapping.collectionType
    split
    · exact .pure hp ⟨rfl, trivial⟩
    · exact .read hp (hp.1 ▸ rfl) fun _ _ => ⟨rfl, trivial⟩
  ensure := by
    rintro f _ m mappings v _ type mapping ⟨rfl, hf⟩ ⟨rfl, hv, -⟩ hmem hnested -
    exact collection hf hv hmem hnested ensureContainer_extends
  add := by
    rintro f _ m mappings v _ type a _ mapping ⟨rfl, hf⟩ ⟨rfl, hv, -⟩ hmem hnested - ⟨rfl, -⟩
    exact collection hf hv hmem hnested (addElement_extends a)
  mark := by
    rintro f _ m key ⟨rfl, hf⟩ - -
    cases key with
    | none => exact ⟨⟨rfl, hf⟩, .refl _⟩
    | some key =>
      have hspares : (f.mark m.id (some key)).Spares session G.region False S :=
        hf.toSpares.next hf.shuts (Nat.le_refl _) rfl (fun rows hr => ⟨rows, hr, fun _ => id⟩) rfl rfl rfl
      exact ⟨⟨rfl, hf.next hspares (Nat.le_refl _) rfl rfl⟩, .refl _⟩
  unmark := by
    rintro f _ m key ⟨rfl, hf⟩ - -
    cases key with
    | none => exact ⟨⟨rfl, hf⟩, .refl _⟩
    | some key =>
      have hspares : (f.unmark (some key)).Spares session G.region False S :=
        hf.toSpares.next hf.shuts (Nat.le_refl _) rfl (fun rows hr => ⟨rows, hr, fun _ => id⟩) rfl rfl rfl
      exact ⟨⟨rfl, hf.next hspares (Nat.le_refl _) rfl rfl⟩, .refl _⟩

theorem follows (hS : S.Closed session.catalog) : (G.onRequest session S).Follows session :=
  fun hm hd hsub hfound => ⟨hS.subMap hm.1 hd hsub hfound, _, hfound⟩

theorem nextRow (hf : f.Guards session G S) :
    (G.onRequest session S).InStep Pairing.Same Frame.nextRow Frame.nextRow f f := by
  exact of_spares hf (Region.onRequest.onRows hf.toSpares (fun _ _ => RowSet.mem_cells_of_next)
    fun _ _ _ _ _ _ => rfl) (IsQuiet.nextRow f trivial).2.1.identity (installed_of_nextRow rfl)

theorem emit (receive : Receiver) (hf : f.Guards session G S) (hv : v.Outside G.region f.world.store) :
    (G.onRequest session S).InStep Pairing.Any (Session.emit receive v) (Session.emit receive v) f f :=
  of_spares hf (Region.onRequest.emit receive hf.toSpares hv) rfl rfl

/-- Reading a row makes the region only grow, whether it succeeds or fails. -/
theorem readObject (G : Growth) (hS : S.Closed session.catalog) (depth : Nat) {id : String}
    (hsphere : S.maps m) (hm : session.catalog.resultMap id = .ok m) (receive : Receiver)
    (hf : f.Guards session G S) :
    (G.onRequest session S).InStep Pairing.Any (session.readObject (session.load depth) m none receive)
      (session.readObject (session.load depth) m none receive) f f := by
  refine (assembles G hS depth).readObject (follows hS) ?_ ⟨hsphere, id, hm⟩ ⟨rfl, hf⟩
  rintro f _ v _ ⟨rfl, hf⟩ ⟨rfl, hv⟩
  exact emit receive hf hv

end Growth.onRequest

end RowMapper
