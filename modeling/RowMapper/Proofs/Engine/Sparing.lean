/-
Regions that a request leaves as they are. A request writes into objects that it comes by: those of its
rows, of replies and of its loader, those that it makes, and what these refer to. The objects of a region
to which none of them refers stay as they are (`Frame.Spares`), however deep nested selects go and
whatever their procedures write.
-/
import RowMapper.Proofs.Access.Region
import RowMapper.Proofs.Engine.Collections
import RowMapper.Proofs.Engine.Derived
import RowMapper.Proofs.Request.Identity

namespace RowMapper

variable {session : Session} {load : Load} {R : Region} {whole : Prop} {S : Sphere} {f g : Frame}
  {m : ResultMap} {mappings : List ResultMapping} {mapping : ResultMapping} {v : Value} {s : Store}

/-! ## Changes in place -/

/-- An object that a value is extended to is that value. -/
theorem Value.Extends.eq_of_object {r : ObjectRef} (h : v.Extends (.object r)) : v = .object r := by
  rcases h with h | ⟨-, more, helements⟩
  · exact h.symm
  · cases helements

/-- Changing a property in place leaves a region as it is, when it extends what is there. -/
theorem Region.update (accessor : Accessor) (path : String)
    {change : Store → Value → Value × Except Error Unit}
    (hchange : ∀ s w, Value.Extends w (change s w).1) (hs : s.Shuts R) (hv : v.Outside R s) :
    R.onStore.InStep Pairing.Any (accessor.update v path change) (accessor.update v path change) s s := by
  refine (Region.writes R).update accessor path ⟨rfl, hs⟩
    (fun step _ _ => (Region.writes R).roots step ⟨rfl, hv⟩) ?_
  rintro t _ r _ step rest - ⟨rfl, ht⟩ ⟨rfl, hr⟩ -
  refine .inr ?_
  rcases Accessor.run_updateProperty change r (Text.path (step :: rest)) t with ⟨e, he⟩ | ⟨slot, hslot, hrun⟩
  · rw [he]
    exact ⟨⟨rfl, ht⟩, R.onStore.refl t, rfl⟩
  · obtain ⟨d, hfill, hwritten, -⟩ := Store.fillSlot_eq (v := (change t (t.slotValue slot)).1) hslot
    -- an object that the change leaves is one that stood there before, in an object outside of the region
    have hout : (change t (t.slotValue slot)).1.Outside R t := by
      intro q hq
      have hold : t.slotValue slot = .object q := (hq ▸ hchange t (t.slotValue slot)).eq_of_object
      exact ht.closed r q hr (Store.slotValue_object hslot hold)
    rw [hrun, hfill]
    refine ⟨⟨rfl, ht.setData hwritten fun _ => hout⟩, ⟨Nat.le_of_eq (Store.size_setData ..).symm, ?_⟩,
      .same fun _ _ => trivial⟩
    exact fun q hq => Store.data_setData_of_ne fun he => hr (he ▸ hq)

/-! ## What a request may ask for -/

/-- Result maps that rows may be read with, statements that may be run, and the texts that the database
may get for them. -/
structure Sphere where
  maps : ResultMap → Prop
  statements : Statement → Prop
  texts : String → Prop

namespace Sphere

/-- All there is. -/
def all : Sphere := ⟨fun _ => True, fun _ => True, fun _ => True⟩

/-- What the maps and statements of a sphere lead to by a catalog is in it. -/
structure Closed (S : Sphere) (c : Catalog) : Prop where
  text : ∀ {statement}, S.statements statement → S.texts (Text.squeeze statement.sql)
  again : ∀ {statement other}, S.statements statement → c.statement statement.id = .ok other →
    S.statements other
  own : ∀ {statement m}, S.statements statement → c.statementResultMap statement = .ok (some m) → S.maps m
  subMap : ∀ {m d value id n}, S.maps m → m.discriminator = some d → d.subMap? value = some id →
    c.resultMap id = .ok n → S.maps n
  nestedMap : ∀ {m mapping id n}, S.maps m → mapping ∈ m.declared → mapping.route = .nestedMap id →
    c.resultMap id = .ok n → S.maps n
  nestedSelect : ∀ {m mapping id statement}, S.maps m → mapping ∈ m.declared →
    mapping.route = .nestedSelect id → c.statement id = .ok statement → S.statements statement

/-- No map and no statement is outside. -/
structure Whole (S : Sphere) : Prop where
  maps : ∀ m, S.maps m
  statements : ∀ statement, S.statements statement

theorem closed_all (c : Catalog) : all.Closed c := by
  constructor <;> intros <;> trivial

theorem whole_all : all.Whole := ⟨fun _ => trivial, fun _ => trivial⟩

/-- A map with mappings that lead into the sphere: they are its own, or from columns. -/
def Reads (S : Sphere) (m : ResultMap) (mappings : List ResultMapping) : Prop :=
  S.Whole ∨ S.maps m ∧ ∀ mapping ∈ mappings, mapping.route ≠ .column → mapping ∈ m.declared

theorem Reads.nestedMap {c : Catalog} {id : String} {n : ResultMap} (h : S.Reads m mappings)
    (hS : S.Closed c) (hmem : mapping ∈ mappings) (hroute : mapping.route = .nestedMap id)
    (hn : c.resultMap id = .ok n) : S.maps n := by
  rcases h with hwhole | ⟨hm, hdeclared⟩
  · exact hwhole.maps n
  · exact hS.nestedMap hm (hdeclared mapping hmem (by rw [hroute]; nofun)) hroute hn

theorem Reads.nestedSelect {c : Catalog} {id : String} {statement : Statement} (h : S.Reads m mappings)
    (hS : S.Closed c) (hmem : mapping ∈ mappings) (hroute : mapping.route = .nestedSelect id)
    (hn : c.statement id = .ok statement) : S.statements statement := by
  rcases h with hwhole | ⟨hm, hdeclared⟩
  · exact hwhole.statements statement
  · exact hS.nestedSelect hm (hdeclared mapping hmem (by rw [hroute]; nofun)) hroute hn

end Sphere

/-! ## Requests -/

/-- A region that is shut, and to which no value belongs that a request comes by: one of its rows, of the
replies to the texts of a sphere, or of its loader, and for a whole request also none that it remembers or
gave. -/
structure Frame.Spares (f : Frame) (session : Session) (R : Region) (whole : Prop) (S : Sphere := .all) :
    Prop where
  shuts : f.world.store.Shuts R
  replies : ∀ registration ∈ f.world.database.registrations, S.texts registration.sql →
    ∀ v ∈ registration.reply.cells, v.Outside R f.world.store
  loader : ∀ v, session.catalog.loader = .fixed v → v.Outside R f.world.store
  rows : ∀ rows, f.request.rows = some rows → ∀ v ∈ rows.cells, v.Outside R f.world.store
  remembered : whole → ∀ id key v, f.request.identity.get? id key = some v → v.Outside R f.world.store
  emitted : whole → ∀ emitted ∈ f.emitted.toList, emitted.object.Outside R f.world.store
  /-- The mappings of the request lead into the sphere. -/
  columns : S.Whole ∨ f.TakesColumns

namespace Frame.Spares

/-- A request that goes on with the same replies, and comes by no other values. -/
theorem next (h : f.Spares session R whole S) (hshuts : g.world.store.Shuts R)
    (hsize : f.world.store.objects.size ≤ g.world.store.objects.size)
    (hreplies : g.world.database.registrations = f.world.database.registrations)
    (hrows : ∀ rows, g.request.rows = some rows →
      ∃ rows', f.request.rows = some rows' ∧ ∀ v ∈ rows.cells, v ∈ rows'.cells)
    (hmappings : g.request.mappings = f.request.mappings)
    (hidentity : g.request.identity = f.request.identity) (hemitted : g.emitted = f.emitted) :
    g.Spares session R whole S where
  shuts := hshuts
  replies r hr htext v hv := (h.replies r (hreplies ▸ hr) htext v hv).later hsize
  loader v hv := (h.loader v hv).later hsize
  rows rows hr v hv := by
    obtain ⟨rows', hr', hcells⟩ := hrows rows hr
    exact (h.rows rows' hr' v (hcells v hv)).later hsize
  remembered hwhole id key v hv := (h.remembered hwhole id key v (hidentity ▸ hv)).later hsize
  emitted hwhole e he := (h.emitted hwhole e (hemitted ▸ he)).later hsize
  columns := h.columns.imp_right fun hcolumns id mappings hget => hcolumns id mappings (hmappings ▸ hget)

/-- The same request in a state with the same objects and replies. -/
theorem congr (h : f.Spares session R whole S) (hstore : g.world.store.objects = f.world.store.objects)
    (hreplies : g.world.database.registrations = f.world.database.registrations)
    (hrequest : g.request = f.request) (hemitted : g.emitted = f.emitted) :
    g.Spares session R whole S := by
  have hdata : g.world.store.data = f.world.store.data := by
    funext r
    unfold Store.data
    rw [hstore]
  have hshuts : g.world.store.Shuts R := by
    refine ⟨fun r hr => ?_, fun q r hq hr => ?_⟩
    · rw [hstore]
      exact h.shuts.made r hr
    · rw [hstore]
      exact h.shuts.closed q r hq (hdata ▸ hr)
  refine h.next hshuts (Nat.le_of_eq (by rw [hstore])) hreplies (fun rows hr => ?_) ?_ ?_ hemitted
  · exact ⟨rows, hrequest ▸ hr, fun _ => id⟩
  · rw [hrequest]
  · rw [hrequest]

/-- A request of its own that begins in the same state. -/
theorem inner (h : f.Spares session R whole S) : Frame.Spares { world := f.world } session R True S where
  shuts := h.shuts
  replies := h.replies
  loader := h.loader
  rows _ hr := nomatch hr
  remembered _ id key v hv := by cases hv
  emitted _ _ he := nomatch he
  columns := .inr fun _ _ hget => by cases hget

/-- A map of the sphere is read with mappings that lead into it. -/
theorem reads (h : f.Spares session R whole S) (hm : S.maps m) : S.Reads m (f.mappings m) :=
  h.columns.imp_right fun hcolumns => ⟨hm, fun _ hmem => mem_declared_of_route (hcolumns m.id) hmem⟩

end Frame.Spares

/-- A request on its own, and a region that it leaves as it is. -/
def Region.onRequest (R : Region) (session : Session) (whole : Prop) (S : Sphere := .all) :
    Correspondence where
  paired f g := f = g ∧ f.Spares session R whole S
  later f g := R.onStore.later f.world.store g.world.store
  refl f := R.onStore.refl f.world.store
  trans := R.onStore.trans
  values f v w := v = w ∧ v.Outside R f.world.store
  objects f v w := v = w ∧ v.Outside R f.world.store
  parents f m mappings v w := v = w ∧ v.Outside R f.world.store ∧ S.Reads m mappings
  collections _ _ _ _ := True
  maps := S.maps
  statements := S.statements
  values_later h hv := ⟨hv.1, hv.2.later h.1⟩
  objects_later h hv := ⟨hv.1, hv.2.later h.1⟩
  parents_later h hv := ⟨hv.1, hv.2.1.later h.1, hv.2.2⟩
  collections_later _ := id

namespace Region.onRequest

variable {α : Type}

/-- Values that correspond are the same ones, all outside of the region. -/
theorem values_eq {values values' : List Value}
    (h : List.Forall₂ (fun v w => v = w ∧ v.Outside R s) values values') :
    values = values' ∧ ∀ v ∈ values, v.Outside R s := by
  induction h with
  | nil => exact ⟨rfl, nofun⟩
  | cons hvw _ ih =>
    obtain ⟨rfl, hv⟩ := hvw
    obtain ⟨rfl, hvalues⟩ := ih
    exact ⟨rfl, List.forall_mem_cons.2 ⟨hv, hvalues⟩⟩

/-! ## Steps -/

theorem step {Q : Frame → α → α → Prop} {run : Run Frame α} (hf : (run.run f).2.Spares session R whole S)
    (hl : R.onStore.later f.world.store (run.run f).2.world.store)
    (hq : ∀ a, (run.run f).1 = .ok a → Q (run.run f).2 a a) :
    (R.onRequest session whole S).InStep Q run run f f := .inr ⟨⟨rfl, hf⟩, hl, .same hq⟩

theorem edit {Q : Frame → α → α → Prop} {E : Store → α → α → Prop} {edit : Edit α}
    (hf : f.Spares session R whole S) (h : R.onStore.InStep E edit edit f.world.store f.world.store)
    (hq : ∀ u a b, E u.world.store a b → Q u a b) :
    (R.onRequest session whole S).InStep Q (Frame.edit edit) (Frame.edit edit) f f := by
  obtain ⟨⟨-, hshuts⟩, hlater, ho⟩ := h.resolve_left fun ⟨_, he, _⟩ => he
  refine .inr ?_
  rw [run_edit]
  refine ⟨⟨rfl, hf.next hshuts hlater.1 rfl (fun rows hr => ⟨rows, hr, fun _ => id⟩) rfl rfl rfl⟩, hlater, ?_⟩
  exact (ho.mapError Stop.failed).imp fun a b => hq _ a b

/-- Changing what a request is about, but not its rows nor what it remembers. -/
theorem modify {change : Request → Request} (hf : f.Spares session R whole S)
    (hrows : (change f.request).rows = f.request.rows)
    (hmappings : (change f.request).mappings = f.request.mappings)
    (hidentity : (change f.request).identity = f.request.identity) :
    (R.onRequest session whole S).InStep Pairing.Any (Frame.modifyRequest change)
      (Frame.modifyRequest change) f f :=
  step (hf.next hf.shuts (Nat.le_refl _) rfl (fun rows hr => ⟨rows, hrows ▸ hr, fun _ => id⟩) hmappings
    hidentity rfl)
    (R.onStore.refl _) fun _ _ => trivial

theorem onRows {Q : Frame → α → α → Prop} {read : RowSet → Except Error α × RowSet}
    (hf : f.Spares session R whole S) (hcells : ∀ rows, ∀ v ∈ (read rows).2.cells, v ∈ rows.cells)
    (hq : ∀ rows a u, f.request.rows = some rows → (read rows).1 = .ok a →
      u.world = f.world → Q u a a) :
    (R.onRequest session whole S).InStep Q (Frame.onRows read) (Frame.onRows read) f f := by
  cases hr : f.request.rowSetToRead with
  | error e =>
    have hrun : (Frame.onRows read).run f = (.error (.failed e), f) := run_onRows_error hr
    refine step ?_ ?_ fun a ha => ?_
    · rw [hrun]
      exact hf
    · rw [hrun]
      exact R.onStore.refl _
    · rw [hrun] at ha
      cases ha
  | ok rows =>
    have hrows := Request.rows_of_rowSetToRead hr
    have hrun := run_onRows_ok (f := read) hr
    refine step ?_ ?_ fun a ha => ?_
    · rw [hrun]
      refine hf.next hf.shuts (Nat.le_refl _) rfl ?_ rfl rfl rfl
      rintro _ ⟨⟩
      exact ⟨rows, hrows, hcells rows⟩
    · rw [hrun]
      exact R.onStore.refl _
    · rw [hrun] at ha ⊢
      exact hq rows a _ hrows (Except.mapError_eq_ok_iff.1 ha) rfl

theorem column (c : Coercer) (column : Column) (hf : f.Spares session R whole S) :
    (R.onRequest session whole S).InStep (R.onRequest session whole S).values (Frame.readColumn c column)
      (Frame.readColumn c column) f f := by
  refine onRows hf (fun rows v hv => ?_) fun rows a u hrows ha hu => ?_
  · rwa [Coercer.readColumn_cells] at hv
  · refine ⟨rfl, ?_⟩
    rw [hu]
    rcases Coercer.readColumn_mem_or_plain ha with hmem | hplain
    · exact hf.rows rows hrows a hmem
    · exact hplain.outside

/-! ## Rows -/

theorem reads (hS : S.Closed session.catalog)
    (hload : ∀ {f : Frame} {v : Value} {statement : Statement} (target : DataType),
      S.statements statement → f.Spares session R whole S → v.Outside R f.world.store →
      (R.onRequest session whole S).InStep (R.onRequest session whole S).values
        (Frame.onWorld (session.loadResult load statement.id v target))
        (Frame.onWorld (session.loadResult load statement.id v target)) f f) :
    (R.onRequest session whole S).Reads session load load where
  isNull h := congrArg Value.isNull h.1
  null := ⟨rfl, nofun⟩
  literal h := ⟨rfl, (Coercer.valueOf_plain _ h).outside⟩
  text h hv := h.1 ▸ hv.1 ▸ rfl
  mappings h _ := h.1 ▸ rfl
  context _ h := h.1 ▸ modify h.2 rfl rfl rfl
  found _ h := h.1 ▸ modify h.2 rfl rfl rfl
  column c label h := h.1 ▸ column c label h.2
  instantiate type h :=
    h.1 ▸ edit h.2 ((Region.writes R).instantiate type ⟨rfl, h.2.shuts⟩) fun _ _ _ => id
  document node h :=
    h.1 ▸ edit h.2 ((Region.writes R).newObject _ ⟨rfl, h.2.shuts⟩ nofun) fun _ _ _ => id
  setterType _ h hv := h.1 ▸ hv.1 ▸ rfl
  set := by
    rintro f _ v _ a _ path ⟨rfl, hf⟩ ⟨rfl, hv⟩ ⟨rfl, ha⟩
    exact edit hf ((Region.writes R).set _ path ⟨rfl, hf.shuts⟩
      (fun step _ _ => (Region.writes R).roots step ⟨rfl, hv⟩) ⟨rfl, ha⟩) fun _ _ _ _ => trivial
  nestedSelect h hm hmem hroute hfound := (h.2.reads hm).nestedSelect hS hmem hroute hfound
  load := by
    rintro f _ v _ statement target ⟨rfl, hf⟩ hstatement ⟨rfl, hv⟩
    exact hload target hstatement hf hv

/-! ## Objects -/

theorem remember (hf : f.Spares session R whole S) (key : Option String) (hv : v.Outside R f.world.store) :
    (R.onRequest session whole S).InStep Pairing.Any (Frame.remember m.id key v)
      (Frame.remember m.id key v) f f := by
  cases key with
  | none => exact .pure ⟨rfl, hf⟩ trivial
  | some key =>
    refine step ⟨hf.shuts, hf.replies, hf.loader, hf.rows, fun hwhole id' key' w hw => ?_, hf.emitted,
      hf.columns⟩ (R.onStore.refl _) fun _ _ => trivial
    rcases IdentityTable.get?_insert hw with ⟨-, -, rfl⟩ | hold
    · exact hv
    · exact hf.remembered hwhole id' key' w hold

theorem buildNew {target : Option Value} {values : List Value}
    (key : Option String) (hf : f.Spares session R whole S)
    (htarget : ∀ v, target = some v → v.Outside R f.world.store)
    (hvalues : ∀ v ∈ values, v.Outside R f.world.store) :
    (R.onRequest session whole S).InStep (R.onRequest session whole S).objects
      (m.buildNew session mappings target values key) (m.buildNew session mappings target values key)
      f f := by
  have hset := (Region.writes R).setData m.exchange session.catalog.accessor m mappings
    ⟨rfl, hf.shuts⟩ (optionRel_same fun v hv => ⟨rfl, htarget v hv⟩)
    (List.forall₂_same.2 fun v hv => ⟨rfl, hvalues v hv⟩)
    fun h => ⟨congrArg Value.record (values_eq h).1, nofun⟩
  unfold ResultMap.buildNew
  refine (edit (Q := (R.onRequest session whole S).objects) hf hset fun _ _ _ => id).bind ?_
  rintro s _ object _ - ⟨rfl, hs⟩ ⟨rfl, hobject⟩
  refine (remember hs key hobject).bind fun t t' _ _ hl hp _ => ?_
  exact .pure hp ⟨rfl, hobject.later hl.1⟩

/-- A target outside of the region is filled outside of it. -/
theorem fills {target : Option Value} (htarget : ∀ v, target = some v → v.Outside R f.world.store) :
    (R.onRequest session whole S).Fills session target f := by
  rintro u _ m values values' key hl ⟨rfl, hu⟩ hm - hv -
  obtain ⟨rfl, hvalues⟩ := values_eq hv
  have hstep : (R.onRequest session whole S).InStep (R.onRequest session whole S).objects
      (m.buildNew session (u.mappings m) target values key)
      (m.buildNew session (u.mappings m) target values key) u u :=
    buildNew key hu (fun v hv => (htarget v hv).later hl.1) hvalues
  exact hstep.imp fun _ _ _ _ h => ⟨h, h.1, h.2, hu.reads hm⟩

theorem collection {change : Store → Value → Value × Except Error Unit}
    (hchange : ∀ s w, Value.Extends w (change s w).1) (hf : f.Spares session R whole S)
    (hv : v.Outside R f.world.store) :
    (R.onRequest session whole S).InStep Pairing.Any
      (Frame.edit (session.catalog.accessor.update v mapping.property change))
      (Frame.edit (session.catalog.accessor.update v mapping.property change)) f f :=
  edit hf (Region.update _ _ hchange hf.shuts hv) fun _ _ _ _ => trivial

/-- A request that is a whole one assembles objects outside of the region. -/
theorem assembles (hS : S.Closed session.catalog)
    (hreads : (R.onRequest session True S).Reads session load load) :
    (R.onRequest session True S).Assembles session load load where
  toScans := hreads.scans
  nestedMap hv hmem hroute hfound := hv.2.2.nestedMap hS hmem hroute hfound
  isAssembling h _ _ _ _ := h.1 ▸ rfl
  known := by
    rintro f _ m values key ⟨rfl, hf⟩ hm - - -
    exact optionRel_same fun v hget => ⟨rfl, hf.remembered trivial _ _ v hget, hf.reads hm⟩
  buildNew {f _ _ _ _} key :=
    fills (fun _ h => by cases h) key ((R.onRequest session True S).refl f)
  collectionType := by
    rintro f _ m mappings v _ mapping hp ⟨rfl, -⟩ - -
    unfold ResultMapping.collectionType
    split
    · exact .pure hp ⟨rfl, trivial⟩
    · exact .read hp (hp.1 ▸ rfl) fun _ _ => ⟨rfl, trivial⟩
  ensure := by
    rintro f _ m mappings v _ type mapping ⟨rfl, hf⟩ ⟨rfl, hv, -⟩ - - -
    exact collection ensureContainer_extends hf hv
  add := by
    rintro f _ m mappings v _ type a _ mapping ⟨rfl, hf⟩ ⟨rfl, hv, -⟩ - - - ⟨rfl, -⟩
    exact collection (addElement_extends a) hf hv
  mark := by
    rintro f _ m key ⟨rfl, hf⟩ - -
    cases key with
    | none => exact ⟨⟨rfl, hf⟩, R.onStore.refl _⟩
    | some key => exact ⟨⟨rfl, hf.shuts, hf.replies, hf.loader, hf.rows, hf.remembered, hf.emitted,
        hf.columns⟩, R.onStore.refl _⟩
  unmark := by
    rintro f _ m key ⟨rfl, hf⟩ - -
    cases key with
    | none => exact ⟨⟨rfl, hf⟩, R.onStore.refl _⟩
    | some key => exact ⟨⟨rfl, hf.shuts, hf.replies, hf.loader, hf.rows, hf.remembered, hf.emitted,
        hf.columns⟩, R.onStore.refl _⟩

/-! ## Statements -/

theorem submit (hS : S.Closed session.catalog) (statement : Statement)
    (hstatement : S.statements statement) (parameter : Value) (hf : f.Spares session R whole S) :
    (R.onRequest session whole S).InStep
      (fun u a b => a = b ∧ (∀ m, a.1 = some m → S.maps m) ∧ (R.onRequest session whole S).Fixed u a.2.cells)
      (session.submit statement parameter) (session.submit statement parameter) f f := by
  obtain ⟨-, hasked, ho⟩ :=
    session.submit_keeps statement parameter f.world.database.registrations f rfl
  have hstore := hasked.store
  refine step ?_ ?_ fun sent hsent => ⟨rfl, fun m hm => ?_, fun v hv => ⟨⟨rfl, ?_⟩, trivial⟩⟩
  · refine hf.next (hstore ▸ hf.shuts) (Nat.le_of_eq (by rw [hstore])) hasked.registrations ?_
      hasked.mappings hasked.identity hasked.emitted
    exact fun rows hr => ⟨rows, hasked.rows ▸ hr, fun _ => id⟩
  · rw [hstore]
    exact R.onStore.refl _
  · rw [hsent] at ho
    exact hS.own hstatement (hm ▸ ho.1)
  · rw [hsent] at ho
    obtain ⟨registration, hmem, hsql, hcell⟩ := ho.2 v hv
    rw [hstore]
    exact hf.replies registration hmem (hsql ▸ hS.text hstatement) v hcell

theorem openRows (m : ResultMap) {rows : RowSet} (hf : f.Spares session R whole S)
    (hrows : ∀ v ∈ rows.cells, v.Outside R f.world.store) :
    (R.onRequest session whole S).InStep Pairing.Any (session.openRows m rows) (session.openRows m rows)
      f f := by
  by_cases hbound : f.request.phase = .bound
  -- the rows come from a reply; the maps derived for them hold no objects
  · have hcolumns : S.Whole ∨ (f.opened session.catalog.registry m rows).TakesColumns :=
      hf.columns.imp_right fun h => h.opened _ m rows
    obtain ⟨mappings, derived, hopened⟩ := f.exists_opened session.catalog.registry m rows
    have hrun : (session.openRows m rows).run f = (.ok (), f.opened session.catalog.registry m rows) :=
      Session.run_openRows hbound m rows
    rw [hopened] at hrun hcolumns
    refine step ?_ ?_ fun _ _ => trivial
    · rw [hrun]
      refine ⟨hf.shuts, hf.replies, hf.loader, ?_, hf.remembered, hf.emitted, hcolumns⟩
      rintro _ ⟨⟩
      exact hrows
    · rw [hrun]
      exact R.onStore.refl _
  · have hrun : (session.openRows m rows).run f = _ :=
      run_bind_error (run_updateRequest_error (·.start rows) f (if_neg hbound))
    refine step ?_ ?_ fun _ _ => trivial
    · rw [hrun]
      exact hf
    · rw [hrun]
      exact R.onStore.refl _

theorem emit (receive : Receiver) (hf : f.Spares session R whole S) (hv : v.Outside R f.world.store) :
    (R.onRequest session whole S).InStep Pairing.Any (Session.emit receive v) (Session.emit receive v)
      f f := by
  refine step ⟨hf.shuts, hf.replies, hf.loader, hf.rows, hf.remembered, fun hwhole emitted he => ?_,
    hf.columns⟩ (R.onStore.refl _) fun _ _ => trivial
  rcases List.mem_append.1 (Array.toList_push ▸ he) with he | he
  · exact hf.emitted hwhole emitted he
  · obtain rfl := List.mem_singleton.1 he
    exact hv

theorem writeOutputs (statement : Statement) {outputs : Option OutParams}
    (hf : f.Spares session R whole S) (hv : v.Outside R f.world.store)
    (hout : ∀ out, outputs = some out → ∀ a ∈ out.values, a.Outside R f.world.store) :
    (R.onRequest session whole S).InStep Pairing.Any (session.writeOutputs statement v outputs)
      (session.writeOutputs statement v outputs) f f := by
  unfold Session.writeOutputs
  split
  · rename_i out parameterMap _
    refine (modify hf rfl rfl rfl).bind ?_
    rintro s _ _ _ hl ⟨rfl, hs⟩ -
    refine edit hs ((Region.writes R).writeOutputs parameterMap _ ⟨rfl, hs.shuts⟩
      ⟨rfl, hv.later hl.1⟩ fun a ha => ⟨rfl, ?_⟩) fun _ _ _ _ => trivial
    rcases ha with hmem | hplain
    · exact (hout out rfl a hmem).later hl.1
    · exact hplain.outside
  · exact .pure ⟨rfl, hf⟩ trivial

theorem answers (hS : S.Closed session.catalog)
    (hreads : (R.onRequest session True S).Reads session load load) :
    (R.onRequest session True S).Answers session load load where
  toAssembles := assembles hS hreads
  follows := hS.subMap
  submit := by
    rintro f _ v _ statement ⟨rfl, hf⟩ hstatement ⟨rfl, -⟩
    exact submit hS statement hstatement v hf
  openRows := by
    rintro f _ m rows ⟨rfl, hf⟩ - hrows
    exact openRows m hf fun v hv => (hrows v hv).1.2
  nextRow h := h.1 ▸ onRows h.2 (fun _ _ => RowSet.mem_cells_of_next) fun _ _ _ _ _ _ => rfl
  emit := by
    rintro f _ v _ receive ⟨rfl, hf⟩ ⟨rfl, hv⟩
    exact emit receive hf hv
  writeOutputs := by
    rintro f _ v _ statement outputs ⟨rfl, hf⟩ ⟨rfl, hv⟩ hout
    exact writeOutputs statement hf hv fun out ho a ha => (hout out ho a ha).1.2

/-! ## Nested selects -/

theorem nests (hf : f.Spares session R whole S) :
    (R.onRequest session whole S).Nests (R.onRequest session True S) f f where
  enter := ⟨rfl, hf.inner⟩
  parameter h := h
  leave := by
    rintro s _ hl ⟨rfl, hs⟩
    refine ⟨⟨rfl, hs.shuts, hs.replies, hs.loader, fun rows hr v hv => ?_, fun hwhole id key v hv => ?_,
      fun hwhole emitted he => ?_, hf.columns⟩, hl⟩
    · exact (hf.rows rows hr v hv).later hl.1
    · exact (hf.remembered hwhole id key v hv).later hl.1
    · exact (hf.emitted hwhole emitted he).later hl.1
  results := by
    rintro s _ - ⟨rfl, hs⟩
    refine List.forall₂_same.2 fun v hv => ?_
    obtain ⟨emitted, he, rfl⟩ := List.mem_map.1 hv
    exact ⟨rfl, hs.emitted trivial emitted he⟩
  context h := h.1 ▸ rfl
  loose h := h

theorem defers : (R.onRequest session whole S).Defers session where
  list h := ⟨congrArg Value.list (values_eq h).1, nofun⟩
  set := by
    rintro f _ items items' ⟨rfl, -⟩ h
    obtain ⟨rfl, -⟩ := values_eq h
    exact ⟨rfl, nofun⟩
  null := ⟨rfl, nofun⟩
  fixed h hloader := ⟨rfl, h.2.loader _ hloader⟩
  call := by
    rintro f _ v _ statement target ⟨rfl, hf⟩ ⟨rfl, -⟩
    exact step (hf.congr rfl rfl rfl rfl) (R.onStore.refl _) fun _ _ => trivial
  lazy := by
    rintro f _ v _ statement target ⟨rfl, hf⟩ ⟨rfl, -⟩
    refine step (hf.congr rfl rfl rfl rfl) ⟨Nat.le_refl _, fun _ _ => rfl⟩ fun a ha => ⟨rfl, ?_⟩
    cases ha
    exact nofun

/-- The result of a nested select is one of a request whose own nested selects are one deeper. -/
theorem loadResult {depth : Nat} (hS : S.Closed session.catalog)
    (h : ∀ d, depth = d + 1 → (R.onRequest session True S).Answers session (session.load d) (session.load d))
    {statement : Statement} (target : DataType) (hstatement : S.statements statement)
    (hf : f.Spares session R whole S) (hv : v.Outside R f.world.store) :
    (R.onRequest session whole S).InStep (R.onRequest session whole S).values
      (Frame.onWorld (session.loadResult (session.load depth) statement.id v target))
      (Frame.onWorld (session.loadResult (session.load depth) statement.id v target)) f f := by
  refine Correspondence.loadResult defers statement.id target ⟨rfl, hf⟩ ⟨rfl, hv⟩ ?_
  cases depth with
  | zero => exact .inr ⟨⟨rfl, hf⟩, R.onStore.refl _, rfl⟩
  | succ d =>
    exact Correspondence.runLoad defers (fun _ => hS.again hstatement) ⟨rfl, hf⟩ (nests hf) (h d rfl) target
      ⟨rfl, hv⟩

/-- Whole requests answer outside of the region, by induction on how deep nested selects may go. -/
theorem answers_load (R : Region) (hS : S.Closed session.catalog) : ∀ depth : Nat,
    (R.onRequest session True S).Answers session (session.load depth) (session.load depth)
  | 0 => answers hS <| reads hS fun target hstatement hf hv =>
    loadResult hS (fun _ hd => Nat.noConfusion hd) target hstatement hf hv
  | depth + 1 => answers hS <| reads hS fun target hstatement hf hv =>
    loadResult hS (fun d hd => by
      obtain rfl : depth = d := Nat.succ.inj hd
      exact answers_load R hS depth) target hstatement hf hv

/-- Reading a row leaves the region as it is, whatever its nested selects do. -/
theorem reads_load (R : Region) (hS : S.Closed session.catalog) (whole : Prop) (depth : Nat) :
    (R.onRequest session whole S).Reads session (session.load depth) (session.load depth) :=
  reads hS fun target hstatement hf hv =>
    loadResult hS (fun d _ => answers_load R hS d) target hstatement hf hv

end Region.onRequest

end RowMapper
