/-
Assembling objects around one that is watched. The request adds to a list at a watched property by its
own mappings alone, and the object is remembered with nothing but a list, or nothing yet, at the
properties for nested elements.
-/
import RowMapper.Proofs.Engine.Mappings
import RowMapper.Proofs.Engine.Watch
import RowMapper.Proofs.Request.Identity

namespace RowMapper

namespace Watch

variable {x : Watch} {scope : Scope} {session : Session} {f g : Frame} {m : ResultMap}
  {mapping : ResultMapping}

/-- A map of the catalog with the id of the request's own is that map. -/
theorem Sound.eq_own (hx : x.Sound scope session) {own : ResultMap} (hs : scope = .own own)
    (hm : session.catalog.resultMap m.id = .ok m) (hid : m.id = own.id) : m = own := by
  have hown := (hx.own own hs).registered
  rw [← hid, hm] at hown
  cases hown
  rfl

/-- The map of the request is read with its declared mappings. -/
theorem mappings_own (hx : x.Sound scope session) (hs : scope = .own m)
    (hp : (x.onRequest scope session).paired f f) : f.mappings m = m.declared := by
  rw [Frame.mappings_of_none (hp.2.1 m hs), f.world.declaredMappings_eq (hx.own m hs).declared]

section Laws

variable (hx : x.Sound scope session)

include hx

theorem known (key : String) (hp : (x.onRequest scope session).paired f g)
    (hm : session.catalog.resultMap m.id = .ok m) :
    Option.Rel ((x.onRequest scope session).parents f m (f.mappings m))
      (f.request.identity.get? m.id key) (g.request.identity.get? m.id key) := by
  obtain rfl := hp.1
  cases hk : f.request.identity.get? m.id key with
  | none => exact .none
  | some object =>
    refine .some ⟨rfl, ?_⟩
    rintro rfl
    refine hp.2.2.imp_right fun hg => ?_
    obtain ⟨own, hs, hid⟩ := hg.identity _ _ hk
    obtain rfl := hx.eq_own hs hm hid
    subst hs
    exact ⟨⟨key, hk⟩, .inl ⟨rfl, mappings_own hx rfl hp⟩⟩

/-! ## Remembering -/

omit hx in
/-- Remembering an object that was not known leaves what is known. -/
theorem get?_remember {key : String} {v w : Value} {id' key' : String}
    (hnew : f.request.identity.get? m.id key = none)
    (h : f.request.identity.get? id' key' = some w) :
    (f.request.identity.insert m.id key v).get? id' key' = some w := by
  rw [IdentityTable.get?_insert_of_ne ?_]
  · exact h
  · by_contra hno
    obtain ⟨rfl, rfl⟩ : id' = m.id ∧ key' = key := by simpa using hno
    rw [hnew] at h
    cases h

/-- Another object than the watched one is remembered, or one that is free by another map. -/
theorem remember_other {key : String} {v : Value} (hp : (x.onRequest scope session).paired f f)
    (hm : session.catalog.resultMap m.id = .ok m)
    (hnew : f.request.identity.get? m.id key = none)
    (hv : v ≠ .object x.ref ∨ x.Free scope f ∧ scope ≠ .own m) :
    (x.onRequest scope session).InStep Pairing.Any (Frame.remember m.id (some key) v)
      (Frame.remember m.id (some key) v) f f := by
  let g : Frame := { f with request := { f.request with identity := f.request.identity.insert m.id key v } }
  have hheld : x.Held scope g → x.Held scope f := by
    cases scope with
    | outer held => exact id
    | own own =>
      rintro ⟨k, hk⟩
      rcases IdentityTable.get?_insert hk with ⟨hid, rfl, hobject⟩ | hold
      · rcases hv with hne | ⟨-, hno⟩
        · exact absurd hobject.symm hne
        · obtain rfl := hx.eq_own rfl hm hid.symm
          exact absurd rfl hno
      · exact ⟨k, hold⟩
  have hfree : x.Free scope f → x.Free scope g := fun hf => ⟨hf.1, fun hh => hf.2 (hheld hh)⟩
  have hpaired : (x.onRequest scope session).paired g g := by
    refine ⟨rfl, hp.2.1, ?_⟩
    by_cases hf : x.Free scope f
    · exact .inl (hfree hf)
    have hg := hp.2.2.resolve_left hf
    refine .inr ⟨hg.store, hg.loader, hg.replies, hg.rows, hg.emitted, fun id k h => ?_, ?_, ?_⟩
    · rcases IdentityTable.get?_insert h with ⟨-, -, hobject⟩ | hold
      · rcases hv with hne | ⟨hf', -⟩
        · exact absurd hobject.symm hne
        · exact absurd hf' hf
      · exact hg.identity id k hold
    · exact fun hh => hg.made (hheld hh)
    · exact fun m hs hh => hg.fits m hs (hheld hh)
  have hlater : (x.onRequest scope session).later f g :=
    ⟨Nat.le_refl _, fun _ _ _ h => get?_remember hnew h, hfree, fun _ => .refl _⟩
  exact .modify hpaired hlater

/-- The watched object is remembered by the map of the request. -/
theorem remember_own (key : String) (hs : scope = .own m)
    (hmappings : ∀ m, scope = .own m →
      Table.get? m.id f.request.mappings = none) (hg : x.Alone f.world.store)
    (hsize : x.ref.index < f.world.store.objects.size)
    (hfits : (f.world.store.data x.ref).Fits m x.watched)
    (hloader : ∀ v, session.catalog.loader = .fixed v → v ≠ .object x.ref)
    (hreplies : ∀ r ∈ f.world.database.registrations, .object x.ref ∉ r.reply.cells)
    (hrows : ∀ rows, f.request.rows = some rows → .object x.ref ∉ rows.cells)
    (hid : ∀ id key, f.request.identity.get? id key ≠ some (.object x.ref)) :
    let g : Frame :=
      { f with request :=
        { f.request with identity := f.request.identity.insert m.id key (.object x.ref) } }
    (x.onRequest scope session).paired g g ∧ x.Held scope g := by
  intro g
  subst hs
  have hheld : x.Held (.own m) g := ⟨key, IdentityTable.get?_insert_self ..⟩
  refine ⟨⟨rfl, hmappings, .inr ⟨hg, hloader, hreplies, hrows, nofun, fun id k h => ?_, fun _ => hsize, ?_⟩⟩, hheld⟩
  · rcases IdentityTable.get?_insert h with ⟨rfl, -, -⟩ | hold
    · exact ⟨m, rfl, rfl⟩
    · exact absurd hold (hid id k)
  · rintro m' hs -
    cases hs
    exact hfits

/-! ## New objects -/

/-- The watched object is filled when it is made, and nothing comes to its lists. -/
theorem run_setData_own (hs : scope = .own m) {s : Store} (ha : x.Alone s)
    (hindex : x.ref.index = s.objects.size) {values : List Value}
    (hv : ∀ v ∈ values, v ≠ .object x.ref) {outcome : Except Error Value} {t : Store}
    (hrun : (m.exchange.setData session.catalog.accessor m m.declared none values).run s =
      (outcome, t)) :
    x.ref.index < t.objects.size ∧ x.Alone t ∧ (t.data x.ref).Empty m x.watched ∧
      ∀ v, outcome = .ok v → v = .object x.ref := by
  obtain ⟨d, hblank⟩ := ResultMap.exists_blank (hx.own m hs).exchange
  -- nothing is written at a property where all mappings nest maps
  let lists : Watch :=
    { ref := x.ref, watched := fun p => x.watched p ∧ m.Nested p, fixed := True }
  have hpass : ∀ mapping ∈ m.declared, mapping.isNestedMap = false →
      lists.Passes m.exchange mapping := by
    intro mapping hmem hno
    have hproperty : ∀ p, x.watched p ∧ m.Nested p → mapping.property ≠ p := by
      rintro p ⟨-, hn⟩ he
      rw [hn mapping hmem he] at hno
      cases hno
    refine ⟨fun hp => hproperty _ hp rfl, fun hmap step hstep hp => ?_⟩
    have hdirect := (hx.place m hs step hp.1).direct mapping hmem hstep
    exact hproperty _ hp (hdirect.resolve_right fun h => hmap h.1)
  obtain ⟨hlt, halone, hgrows, hvalue⟩ :=
    lists.setData_passes session.catalog.accessor hblank ha hindex hpass hv hrun
  exact ⟨hlt, halone, (ObjectData.empty_blank hblank).fixed hgrows, hvalue⟩

/-- The object of the request's own map and a key is made and remembered. -/
theorem buildNew_own {values : List Value} {key : String} (hs : scope = .own m)
    (hp : (x.onRequest scope session).paired f f)
    (hv : List.Forall₂ ((x.onRequest scope session).values f) values values)
    (hnew : f.request.identity.get? m.id key = none) :
    (x.onRequest scope session).InStep
      (fun u v w => v = w ∧ (v = .object x.ref → x.Held scope u ∧
        (u.world.store.data x.ref).Empty m x.watched))
      (m.buildNew session m.declared none values (some key))
      (m.buildNew session m.declared none values (some key)) f f := by
  have hexchange := (hx.own m hs).exchange
  unfold ResultMap.buildNew
  by_cases hfresh : ¬x.Free scope f ∧ x.ref.index = f.world.store.objects.size
  · obtain ⟨hfree, hindex⟩ := hfresh
    have hg := hp.2.2.resolve_left hfree
    have hheld : ¬x.Held scope f := fun hh => by
      have := hg.made hh
      omega
    have hvalues : ∀ v ∈ values, v ≠ .object x.ref := fun v hmem he =>
      hfree ((List.forall₂_same.1 hv v hmem).2 he)
    obtain ⟨outcome, t, hrun⟩ : ∃ outcome t, (m.exchange.setData session.catalog.accessor m
        m.declared none values).run f.world.store = (outcome, t) := ⟨_, _, rfl⟩
    obtain ⟨hlt, halone, hempty, hvalue⟩ := run_setData_own hx hs hg.store hindex hvalues hrun
    have hedit : (Frame.edit (m.exchange.setData session.catalog.accessor m m.declared none
        values)).run f = (outcome.mapError .failed,
          { f with world := { f.world with store := t } }) := by
      rw [run_edit, hrun]
    cases outcome with
    | error e =>
      refine .inr ?_
      rw [run_bind_error hedit]
      refine ⟨⟨rfl, hp.2.1, .inl ⟨hlt, hheld⟩⟩, ⟨?_, fun _ _ _ => id, fun hf => absurd hf hfree,
        fun hh => absurd hh hheld⟩, rfl⟩
      exact Nat.le_of_lt (hindex ▸ hlt)
    | ok v =>
      obtain rfl := hvalue v rfl
      refine .inr ?_
      rw [run_bind_ok hedit]
      have hid : ∀ id k, f.request.identity.get? id k ≠ some (.object x.ref) := by
        intro id k hk
        obtain ⟨own, hs', rfl⟩ := hg.identity id k hk
        subst hs
        cases hs'
        exact hheld ⟨k, hk⟩
      obtain ⟨hpaired, hheld'⟩ := remember_own hx key
        (f := { f with world := { f.world with store := t } }) hs hp.2.1 halone hlt hempty.fits hg.loader hg.replies
        hg.rows hid
      exact ⟨hpaired, ⟨Nat.le_of_lt (hindex ▸ hlt), fun id k v hk => get?_remember hnew hk,
        fun hf => absurd hf hfree, fun hh => absurd hh hheld⟩, rfl, fun _ => ⟨hheld', hempty⟩⟩
  · -- the new object is another one
    have hother : ∀ v t, (m.exchange.setData session.catalog.accessor m m.declared none values).run
        f.world.store = (.ok v, t) → v ≠ .object x.ref := by
      rintro v t hrun rfl
      obtain ⟨d, hblank⟩ := ResultMap.exists_blank hexchange
      rw [ResultMap.run_setData hblank] at hrun
      obtain ⟨_, _, -, hret⟩ := run_bind_eq_ok.1 hrun
      have href := Value.object.inj (Except.ok.inj (Prod.mk.inj hret).1)
      have hindex : x.ref.index = f.world.store.objects.size := href ▸ rfl
      exact hfresh ⟨fun hf => absurd hf.1 (hindex ▸ Nat.lt_irrefl _), hindex⟩
    have hset := ((x.writes _).setData m.exchange session.catalog.accessor m m.declared
      (onStore_paired hp) .none (hv.imp fun _ _ => onStore_values) record_values).and_ok hother
    refine Pairing.InStep.bind (Q := fun u v w => v = w ∧ v ≠ .object x.ref ∧
      u.request.identity.get? m.id key = none) ?_ ?_
    · exact edit_inStep hp hset fun t v w _ hvw => ⟨hvw.1.1, hvw.2, hnew⟩
    · rintro u u' v _ - hp' ⟨rfl, hne, hnew'⟩
      obtain rfl := hp'.1
      have hremember := remember_other hx hp' (hx.own m hs).registered hnew' (.inl hne)
      refine hremember.bind fun u u' _ _ _ hp _ => ?_
      exact .pure hp ⟨rfl, fun he => absurd he hne⟩

/-- An object of another map, or one without a key, is made and remembered. -/
theorem buildNew_other {values : List Value} {key : Option String} (mappings : List ResultMapping)
    (hother : key = none ∨ scope ≠ .own m)
    (hp : (x.onRequest scope session).paired f f)
    (hm : session.catalog.resultMap m.id = .ok m)
    (hv : List.Forall₂ ((x.onRequest scope session).values f) values values)
    (hnew : (key.bind fun key => f.request.identity.get? m.id key) = none) :
    (x.onRequest scope session).InStep (x.onRequest scope session).values
      (m.buildNew session mappings none values key)
      (m.buildNew session mappings none values key) f f := by
  have hset := (x.writes _).setData m.exchange session.catalog.accessor m mappings
    (onStore_paired hp) .none (hv.imp fun _ _ => onStore_values) record_values
  unfold ResultMap.buildNew
  refine Pairing.InStep.bind (Q := fun u v w => (x.onRequest scope session).values u v w ∧
    (key.bind fun key => u.request.identity.get? m.id key) = none) ?_ ?_
  · exact edit_inStep hp hset fun t v w _ hvw => ⟨values_store hp hvw, hnew⟩
  · rintro u u' v _ - hp' ⟨⟨rfl, hfree⟩, hnew'⟩
    obtain rfl := hp'.1
    have hremember : (x.onRequest scope session).InStep Pairing.Any (Frame.remember m.id key v)
        (Frame.remember m.id key v) u u := by
      cases key with
      | none => exact .pure hp' trivial
      | some key =>
        refine remember_other hx hp' hm hnew' ?_
        by_cases he : v = .object x.ref
        · exact .inr ⟨hfree he, hother.resolve_left nofun⟩
        · exact .inl he
    refine hremember.bind fun u₁ u₂ _ _ hl hp _ => ?_
    exact .pure hp ⟨rfl, fun he => hl.2.2.1 (hfree he)⟩

theorem buildNew {values values' : List Value} (key : Option String)
    (hp : (x.onRequest scope session).paired f g)
    (hm : session.catalog.resultMap m.id = .ok m)
    (hv : List.Forall₂ ((x.onRequest scope session).values f) values values')
    (hnew : (key.bind fun key => f.request.identity.get? m.id key) = none) :
    (x.onRequest scope session).InStep
      (fun u v w => (x.onRequest scope session).objects u v w ∧
        (x.onRequest scope session).parents u m (f.mappings m) v w)
      (m.buildNew session (f.mappings m) none values key)
      (m.buildNew session (f.mappings m) none values' key) f g := by
  obtain rfl := hp.1
  have heq := hv.imp fun _ _ h => h.1
  rw [List.forall₂_eq_eq_eq] at heq
  subst heq
  by_cases hown : ∃ k, key = some k ∧ scope = .own m
  · obtain ⟨k, rfl, hs⟩ := hown
    rw [mappings_own hx hs hp]
    refine (buildNew_own hx hs hp hv hnew).imp fun u v w _ hvw => ?_
    exact ⟨⟨hvw.1, .inl ⟨m, hs⟩⟩, hvw.1, fun he => .inr ⟨(hvw.2 he).1, .inl ⟨hs, rfl⟩⟩⟩
  · have hother : key = none ∨ scope ≠ .own m := by
      cases key with
      | none => exact .inl rfl
      | some k => exact .inr fun hs => hown ⟨k, rfl, hs⟩
    refine (buildNew_other hx (f.mappings m) hother hp hm hv hnew).imp fun u v w _ hvw => ?_
    exact ⟨⟨hvw.1, .inr hvw.2⟩, hvw.1, fun he => .inl (hvw.2 he)⟩

/-! ## Nested elements -/

theorem collectionType {mappings : List ResultMapping} {v w : Value}
    (hp : (x.onRequest scope session).paired f g)
    (hvw : (x.onRequest scope session).parents f m mappings v w) (hmem : mapping ∈ mappings)
    (hnested : mapping.isNestedMap = true) :
    (x.onRequest scope session).InStep
      (fun u type type' => type = type' ∧ (x.onRequest scope session).collections u v mapping type)
      (mapping.collectionType session.catalog.accessor v)
      (mapping.collectionType session.catalog.accessor w) f g := by
  obtain rfl := hp.1
  obtain ⟨rfl, hparent⟩ := hvw
  unfold ResultMapping.collectionType
  split
  · rename_i type ht
    refine .pure hp ⟨rfl, fun he => (hparent he).imp_right ?_⟩
    rintro ⟨-, ⟨hs, rfl⟩ | hno⟩ hw
    · have hlist := (hx.place m hs _ hw).list mapping hmem rfl hnested
      rwa [ht] at hlist
    · exact absurd hw (hno _)
  · rename_i ht
    refine Pairing.InStep.read (R := fun u type type' => type = type' ∧
      (x.onRequest scope session).collections u v mapping type) hp rfl fun type htype => ⟨rfl, ?_⟩
    rintro rfl
    refine (hparent rfl).imp_right ?_
    rintro ⟨hheld, ⟨hs, rfl⟩ | hno⟩ hw
    · have hplace := hx.place m hs _ hw
      have hlist := hplace.list mapping hmem rfl hnested
      have hfits := (hp.2.2.resolve_left fun hf => hf.2 hheld).fits m hs hheld
      have hsetter := Accessor.setterType_single (Text.steps_of_no_dot hplace.single) htype
      rw [ht] at hlist
      exact hfits.setterType_eq hsetter ▸ hlist
    · exact absurd hw (hno _)

/-- A watched property is not where a change starts, unless it is made by a mapping for it. -/
theorem starts {mappings : List ResultMapping} {v w : Value}
    (hp : (x.onRequest scope session).paired f f)
    (hvw : (x.onRequest scope session).parents f m mappings v w) (hmem : mapping ∈ mappings)
    (hnested : mapping.isNestedMap = true)
    (hother : v = .object x.ref → x.Free scope f ∨ ¬x.watched mapping.property) :
    (x.onStore (x.since scope f)).Starts f.world.store v w mapping.property := by
  obtain ⟨rfl, hparent⟩ := hvw
  rintro step rest hsteps
  refine ⟨rfl, ?_⟩
  rintro r rfl
  refine ⟨r, rfl, rfl, ?_⟩
  rintro rfl
  by_cases hf : x.Free scope f
  · exact .inl (since_of_free hf)
  obtain ⟨hheld, hown⟩ := (hparent rfl).resolve_left hf
  have hg := hp.2.2.resolve_left hf
  have hmade : x.ref.index < x.since scope f := by
    unfold since
    rw [if_neg hf]
    exact hg.made hheld
  rcases hown with ⟨hs, rfl⟩ | hno
  swap
  · exact .inr ⟨hmade, hno _, fun _ => hno⟩
  refine .inr ⟨hmade, fun hw => ?_, fun hdom => ?_⟩
  · have hdirect := (hx.place m hs step hw).direct mapping hmem (by rw [hsteps]; rfl)
    have hproperty := hdirect.resolve_right fun h => by rw [hnested] at h; cases h.2
    exact (hother rfl).resolve_left hf (hproperty ▸ hw)
  · unfold Store.kind at hdom
    rcases (hg.fits m hs hheld).shape with ⟨hk, -⟩ | ⟨hk, -⟩ <;> rw [hk] at hdom <;> cases hdom

/-- A watched list is changed in place. -/
theorem run_updateOwn (hs : scope = .own m) (hmem : mapping ∈ m.declared)
    (hnested : mapping.isNestedMap = true) (hw : x.watched mapping.property)
    (hp : (x.onRequest scope session).paired f f) (hheld : x.Held scope f)
    (change : Store → Value → Value × Except Error Unit) :
    (∃ e, (session.catalog.accessor.update (.object x.ref) mapping.property change).run
        f.world.store = (.error e, f.world.store)) ∨
      ∃ v d, (f.world.store.data x.ref).slot? mapping.property = some v ∧ ListGrows .null v ∧
        (session.catalog.accessor.update (.object x.ref) mapping.property change).run f.world.store =
          ((change f.world.store v).2, f.world.store.setData x.ref d) ∧
        (f.world.store.data x.ref).Written mapping.property (change f.world.store v).1 d ∧
        d.slot? mapping.property = some (change f.world.store v).1 := by
  have hplace := hx.place m hs _ hw
  have hnest : m.Nested mapping.property := hplace.uniform.resolve_right fun hflat => by
    rw [hflat mapping hmem rfl] at hnested
    cases hnested
  have hg := hp.2.2.resolve_left fun hf => hf.2 hheld
  exact (hg.fits m hs hheld).run_update hw hnest hplace.single session.catalog.accessor change

/-- A watched list is changed in place by something that only adds to it. -/
theorem updateOwn {change : Store → Value → Value × Except Error Unit} (hs : scope = .own m)
    (hmem : mapping ∈ m.declared) (hnested : mapping.isNestedMap = true)
    (hw : x.watched mapping.property) (hfixed : ¬x.fixed)
    (hp : (x.onRequest scope session).paired f f) (hheld : x.Held scope f)
    (hgrows : ∀ s v, ListGrows .null v → ∃ items, (change s v).1 = .list items ∧
      ListGrows v (.list items)) :
    (x.onRequest scope session).InStep Pairing.Any
      (Frame.edit (session.catalog.accessor.update (.object x.ref) mapping.property change))
      (Frame.edit (session.catalog.accessor.update (.object x.ref) mapping.property change)) f f := by
  have hfree : ¬x.Free scope f := fun hf => hf.2 hheld
  have hg := hp.2.2.resolve_left hfree
  have hsize := hg.made hheld
  rcases run_updateOwn hx hs hmem hnested hw hp hheld change with
    ⟨e, he⟩ | ⟨v, d, hv, hnull, hrun, hwritten, hd⟩
  · refine .inr ?_
    rw [run_edit, he]
    exact ⟨hp, (x.onRequest scope session).refl f, rfl⟩
  obtain ⟨items, hitems, hadded⟩ := hgrows f.world.store v hnull
  rw [hitems] at hwritten hd
  have hgrow : (f.world.store.data x.ref).Grows x.watched x.fixed d := by
    refine ⟨hwritten.kind_eq, hwritten.type_eq, fun p w hp hslot => ?_, fun _ hf => absurd hf hfixed⟩
    by_cases hproperty : p = mapping.property
    · subst hproperty
      rw [hv] at hslot
      cases hslot
      exact ⟨_, hd, hadded, fun hf => absurd hf hfixed⟩
    · exact ⟨w, by rw [hwritten.others p hproperty, hslot], .same w, fun _ => rfl⟩
  have hdata : (f.world.store.setData x.ref d).data x.ref = d := Store.data_setData_self hsize
  have halone : x.Alone (f.world.store.setData x.ref d) := by
    intro q hq
    by_cases hqr : q = x.ref
    · rw [hqr, hdata] at hq
      exact (hwritten.objects _ hq).elim (hg.store _) nofun
    · rw [Store.data_setData_of_ne hqr] at hq
      exact hg.store q hq
  refine .inr ?_
  rw [run_edit, hrun]
  refine ⟨⟨rfl, hp.2.1, .inr ⟨halone, hg.loader, hg.replies, hg.rows, hg.emitted, hg.identity, ?_, ?_⟩⟩,
    ⟨?_, fun _ _ _ => id, fun hf => absurd hf hfree, fun _ => ?_⟩, ?_⟩
  · exact fun _ => by simpa using hsize
  · intro own hs' _
    show ((f.world.store.setData x.ref d).data x.ref).Fits own x.watched
    rw [hdata]
    exact (hg.fits own hs' hheld).grows hgrow
  · simp
  · show (f.world.store.data x.ref).Grows x.watched x.fixed
      ((f.world.store.setData x.ref d).data x.ref)
    rw [hdata]
    exact hgrow
  · exact Outcomes.same fun _ _ => trivial

/-- A collection that is not a watched one is changed in place by something that puts no object
anywhere. -/
theorem updateOther {mappings : List ResultMapping} {v w : Value}
    {change : Store → Value → Value × Except Error Unit}
    (hp : (x.onRequest scope session).paired f g)
    (hvw : (x.onRequest scope session).parents f m mappings v w) (hmem : mapping ∈ mappings)
    (hnested : mapping.isNestedMap = true)
    (hobject : ∀ s v r, (change s v).1 = .object r → v = .object r)
    (hother : v = .object x.ref → x.Free scope f ∨ ¬x.watched mapping.property) :
    (x.onRequest scope session).InStep Pairing.Any
      (Frame.edit (session.catalog.accessor.update v mapping.property change))
      (Frame.edit (session.catalog.accessor.update w mapping.property change)) f g := by
  obtain rfl := hp.1
  exact edit_inStep hp (update_inStep session.catalog.accessor mapping.property hobject
    (onStore_paired hp) (starts hx hp hvw hmem hnested hother)) fun _ _ _ _ => id

/-- A collection is changed in place by something that puts no object anywhere and only adds to
lists, unless the watched lists are fixed. -/
theorem updateCollection {mappings : List ResultMapping} {v w : Value} {type : DataType}
    {change : Store → Value → Value × Except Error Unit}
    (hgrow : x.fixed → ∀ m, scope = .own m → ∀ p, x.watched p → m.Flat p)
    (hp : (x.onRequest scope session).paired f g)
    (hvw : (x.onRequest scope session).parents f m mappings v w) (hmem : mapping ∈ mappings)
    (hnested : mapping.isNestedMap = true)
    (htype : (x.onRequest scope session).collections f v mapping type)
    (hobject : ∀ s v r, (change s v).1 = .object r → v = .object r)
    (hgrows : type.IsListKind → ∀ s v, ListGrows .null v → ∃ items, (change s v).1 = .list items ∧
      ListGrows v (.list items)) :
    (x.onRequest scope session).InStep Pairing.Any
      (Frame.edit (session.catalog.accessor.update v mapping.property change))
      (Frame.edit (session.catalog.accessor.update w mapping.property change)) f g := by
  by_cases hown : v = .object x.ref ∧ ¬x.Free scope f ∧ x.watched mapping.property
  · obtain ⟨rfl, hfree, hw⟩ := hown
    obtain rfl := hp.1
    obtain ⟨rfl, hparent⟩ := hvw
    obtain ⟨hheld, hown⟩ := (hparent rfl).resolve_left hfree
    obtain ⟨hs, rfl⟩ := hown.resolve_right fun hno => hno _ hw
    have hfixed : ¬x.fixed := fun hf => by
      rw [hgrow hf m hs _ hw mapping hmem rfl] at hnested
      cases hnested
    exact updateOwn hx hs hmem hnested hw hfixed hp hheld
      (hgrows ((htype rfl).resolve_left hfree hw))
  · refine updateOther hx hp hvw hmem hnested hobject fun he => ?_
    by_cases hf : x.Free scope f
    · exact .inl hf
    · exact .inr fun hw => hown ⟨he, hf, hw⟩

/-- Assembling keeps what is watched, if no list of nested elements is fixed. -/
theorem assembles {load : Load} (hreads : (x.onRequest scope session).Reads session load load)
    (hgrow : x.fixed → ∀ m, scope = .own m → ∀ p, x.watched p → m.Flat p) :
    (x.onRequest scope session).Assembles session load load where
  toScans := hreads.scans
  nestedMap _ _ _ h := resultMap_registered hx h
  isAssembling hp _ _ _ _ := hp.1 ▸ rfl
  known hp hm _ _ _ := known hx _ hp hm
  buildNew key hp hm _ hv hnew := buildNew hx key hp hm hv hnew
  collectionType hp hvw hmem hnested := collectionType hx hp hvw hmem hnested
  ensure hp hvw hmem hnested htype := updateCollection hx hgrow hp hvw hmem hnested htype
    (fun _ _ _ => ensureContainer_object) fun hlist s v hv =>
      ⟨_, congrArg Prod.fst (ensureContainer_list hlist hv _ s), hv.items⟩
  add hp hvw hmem hnested htype hab := by
    refine hab.1 ▸ updateCollection hx hgrow hp hvw hmem hnested htype
      (fun _ _ _ => addElement_object) ?_
    exact fun hlist s v hv =>
      ⟨_, congrArg Prod.fst (addElement_list hlist hv _ _ s), hv.items.trans (.added _ _)⟩
  mark := by
    intro f g m key hp _ _
    obtain rfl := hp.1
    cases key with
    | none => exact ⟨hp, (x.onRequest scope session).refl f⟩
    | some key =>
      exact modifyRequest_inStep (fun r => r.pushAssembling m.id key) hp
        (fun rows hr hmem => .inr ⟨rows, hr, hmem⟩) rfl fun _ _ => rfl
  unmark := by
    intro f g m key hp _ _
    obtain rfl := hp.1
    cases key with
    | none => exact ⟨hp, (x.onRequest scope session).refl f⟩
    | some key =>
      exact modifyRequest_inStep (fun r => r.popAssembling) hp
        (fun rows hr hmem => .inr ⟨rows, hr, hmem⟩) rfl fun _ _ => rfl

end Laws

end Watch

end RowMapper
