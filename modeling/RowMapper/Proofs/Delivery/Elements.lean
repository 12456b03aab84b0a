/-
What elements are built of. When no grouped map is reachable from a map, then what a call by the map
builds, its own object and those of the calls that it makes, is apart behind the call: nothing but
collections refers to it, so that nothing comes to it any more.
-/
import RowMapper.Proofs.Delivery.Events
import RowMapper.Proofs.Engine.Apart

namespace RowMapper

variable {session : Session} {f g : Frame} {n depth : Nat}

/-- Results of the map are objects that it makes, if they are objects at all. -/
def Session.Shapes (session : Session) (id : String) : Prop :=
  ∀ m, session.catalog.resultMap id = .ok m → m.exchange ≠ .scalar

namespace Call

/-- The object of a call without a key is built for it. -/
theorem subject_ungrouped {c : Call} {found : Option Subject} (ht : c.target = none)
    (hm : c.map.groupBy = [])
    (h : (c.map.subject session c.target c.values).run c.frame = (.ok found, f)) :
    ∃ object s, found = some ⟨object, none, c.frame.mappings c.map, true⟩ ∧
      (c.map.exchange.setData session.catalog.accessor c.map (c.frame.mappings c.map) none c.values).run
        c.frame.world.store = (.ok object, s) ∧
      f = { c.frame with world := { c.frame.world with store := s } } := by
  have hkey : c.key = none := Correspondence.uniqueKey_none hm _ _ _
  rw [run_subject, hkey, ht] at h
  obtain ⟨object, u, hbuild, h⟩ := run_bind_eq_ok.1 h
  cases h
  obtain ⟨v, u', hset, hbuild⟩ := run_bind_eq_ok.1 hbuild
  obtain ⟨_, u'', hremember, hbuild⟩ := run_bind_eq_ok.1 hbuild
  cases hremember
  cases hbuild
  obtain ⟨s, hrun, rfl⟩ := run_edit_eq_ok.1 hset
  exact ⟨object, s, rfl, hrun, rfl⟩

/-- What the events say was built is apart, and was not there before. -/
def BuiltApart (session : Session) (events : List Event) (f g : Frame) : Prop :=
  ∀ id key r, .built id key (.object r) ∈ events → session.Shapes id →
    g.Apart session True r ∧ f.world.store.objects.size ≤ r.index

/-- A call that can be entered where nothing is remembered: by a map from which no grouped map is
reachable, with values that are there. -/
structure Lone (session : Session) (c : Call) : Prop where
  target : c.target = none
  loner : c.map.Loner session.catalog
  mappings : c.frame.request.mappings = []
  closed : c.frame.Closed session
  values : ∀ v ∈ c.values, c.frame.Has v

/-- The object of a call is apart when it was made, and the store has it. -/
theorem Lone.subject {c : Call} (hc : c.Lone session) {found : Option Subject}
    (h : (c.map.subject session c.target c.values).run c.frame = (.ok found, f)) :
    ∃ object, found = some ⟨object, none, c.frame.mappings c.map, true⟩ ∧
      f.request = c.frame.request ∧ f.Closed session ∧ f.Has object ∧
      c.frame.world.store.objects.size ≤ f.world.store.objects.size ∧
      ∀ r, object = .object r → session.Shapes c.map.id →
        f.Apart session True r ∧ c.frame.world.store.objects.size ≤ r.index := by
  obtain ⟨object, s, hfound, hset, rfl⟩ := subject_ungrouped hc.target hc.loner.groupBy h
  obtain ⟨hpasses, hobject⟩ :=
    Frame.setData_passes hc.mappings hc.values (run_edit_eq_ok.2 ⟨s, hset, rfl⟩)
  refine ⟨object, hfound, rfl, hpasses.closed hc.closed, hobject hc.closed, hpasses.size,
    fun r hr hs => ?_⟩
  subst hr
  let e : ObjectRef := ⟨c.frame.world.store.objects.size⟩
  have he : c.frame.Apart session False e := hc.closed e (Nat.le_refl _)
  obtain ⟨rfl, halone, hlt⟩ := Watch.setData_alone (x := Watch.bare e) _ (fun _ => id) he.store rfl
    (hs _ hc.loner.1) (fun v hv => (hc.values v hv).ne_unmade e (Nat.le_refl _)) hset
  exact ⟨⟨halone, he.loader, he.replies, he.rows, fun _ => hlt⟩, Nat.le_refl _⟩

/-- A call of a map without keys gives an object. -/
theorem Lone.exists_object {c : Call} (hc : c.Lone session) {load : Load} {out : Option Value}
    (h : c.run session load depth = (.ok out, g)) : ∃ object, out = some object := by
  cases depth with
  | zero => cases h
  | succ depth =>
    rcases run_eq_ok h with ⟨hnone, -⟩ | ⟨subject, f, hsome, -, rfl⟩
    · obtain ⟨object, hfound, -⟩ := hc.subject hnone
      cases hfound
    · obtain ⟨object, hfound, -⟩ := hc.subject hsome
      cases hfound
      exact ⟨object, rfl⟩

section Laws

variable (hi : Table.Indexed ResultMap.id session.catalog.resultMaps)

include hi

/-- Elements of the object of a call are by maps from which no grouped map is reachable. -/
theorem Lone.nested {c : Call} (hc : c.Lone session) {mapping : ResultMapping}
    (hmem : mapping ∈ c.frame.mappings c.map) (id : String) (child : ResultMap)
    (hroute : mapping.route = .nestedMap id) (hchild : session.catalog.resultMap id = .ok child) :
    child.Loner session.catalog :=
  hc.loner.nested hi (mem_declared hc.mappings hmem hroute) hroute hchild

/-- A call passes by what is apart, but for the objects that it was given as values. -/
theorem Lone.passes {c : Call} (hc : c.Lone session) {out : Option Value} {left : Frame}
    (h : c.run session (session.load n) depth = (.ok out, left)) :
    c.frame.Passes session (fun r => ∀ v ∈ c.values, v ≠ .object r) left := by
  unfold run at h
  rw [hc.target] at h
  exact Frame.build_passes hi hc.mappings hc.loner hc.values h

/-- What the call for an element builds is apart behind it, also when the element was added. -/
theorem apart_mapping
    (hcall : ∀ (d : Call) (out : Option Value) (left : Frame), d.Lone session →
      d.run session (session.load n) depth = (.ok out, left) →
      BuiltApart session (events session (session.load n) depth d) d.frame left)
    {owner : String} {parent : Subject} {mapping : ResultMapping} (hf : f.request.mappings = [])
    (hclosed : f.Closed session) (hparent : f.Has parent.object)
    (hloner : ∀ id child, mapping.route = .nestedMap id → session.catalog.resultMap id = .ok child →
      child.Loner session.catalog)
    (hrun : (nestedMapping session (session.load n) (builds session (session.load n) depth)
      parent.object mapping).run f = (.ok (), g)) :
    BuiltApart session (mappingEvents session (session.load n) depth
      (events session (session.load n) depth) owner parent mapping f) f g := by
  intro id key r hmem hs
  rcases nestedMapping_eq_ok hrun with ⟨hno, rfl⟩ | ⟨child, hroute, hrun⟩
  · rw [mappingEvents_eq_nil session _ hno] at hmem
    cases hmem
  have hnested := ResultMapping.isNestedMap_of_route hroute
  unfold mappingEvents at hmem
  rw [hroute] at hmem
  dsimp only at hmem
  rcases nestedElement_eq_ok hrun with hnone | ⟨element, entered, hsome, hbuilt⟩
  · rw [hnone] at hmem
    cases hmem
  rw [hsome] at hmem
  obtain ⟨hread, helement⟩ := Frame.readElement_passes hi hf hparent hnested hsome
  obtain ⟨hmap, hvalues⟩ := helement element rfl
  let call : Call := { map := element.map, values := element.values, frame := entered }
  have hlone : call.Lone session :=
    ⟨rfl, hloner _ _ hroute hmap, hread.mappings, hread.closed hclosed, hvalues hclosed⟩
  have hbuild : .built id key (.object r) ∈ events session (session.load n) depth call := by
    unfold elementEvents at hmem
    rcases List.mem_append.1 ((List.mem_cons.1 hmem).resolve_left nofun) with hmem | hmem
    · exact hmem
    · split at hmem
      · split at hmem
        · cases List.mem_singleton.1 hmem
        · cases hmem
      · cases hmem
  rcases hbuilt with hbuilt | ⟨object, left, hbuilt, hadd⟩
  · obtain ⟨ha, hr⟩ := hcall call none g hlone hbuilt id key r hbuild hs
    exact ⟨ha, Nat.le_trans hread.size hr⟩
  · obtain ⟨ha, hr⟩ := hcall call (some object) left hlone hbuilt id key r hbuild hs
    have hle : f.world.store.objects.size ≤ r.index := Nat.le_trans hread.size hr
    have hpasses := hlone.passes hi hbuilt
    have hadded := Frame.update_passes hi hpasses.mappings
      (hparent.later (Nat.le_trans hread.size hpasses.size)) hnested (fun _ _ _ => addElement_object) hadd
    exact ⟨(hadded.apart r ha (hparent.ne_unmade r hle)).1, hle⟩

/-- What the calls for elements build stays apart while other elements are gathered. -/
theorem apart_gather
    (hcall : ∀ (d : Call) (out : Option Value) (left : Frame), d.Lone session →
      d.run session (session.load n) depth = (.ok out, left) →
      BuiltApart session (events session (session.load n) depth d) d.frame left)
    {owner : String} {parent : Subject} :
    ∀ (mappings : List ResultMapping) {f : Frame}, f.request.mappings = [] → f.Closed session →
      f.Has parent.object →
      (∀ mapping ∈ mappings, ∀ id child, mapping.route = .nestedMap id →
        session.catalog.resultMap id = .ok child → child.Loner session.catalog) →
      (gather session (session.load n) depth mappings parent.object).run f = (.ok (), g) →
      BuiltApart session (gatherEvents session (session.load n) depth
        (events session (session.load n) depth) owner parent mappings f) f g
  | [], _, _, _, _, _, _ => fun _ _ _ hmem => absurd hmem List.not_mem_nil
  | mapping :: mappings, f, hf, hclosed, hparent, hloner, hrun => by
    intro id key r hmem hs
    rw [gather_cons] at hrun
    obtain ⟨_, k, hone, hrest⟩ := run_bind_eq_ok.1 hrun
    have hfirst := hloner mapping (List.mem_cons_self ..)
    have hafter := fun m hm => hloner m (List.mem_cons_of_mem _ hm)
    have hk := Frame.gather_passes hi hf hparent (fun m hm => List.mem_singleton.1 hm ▸ hfirst)
      (gather_singleton hone)
    have hparent' := hparent.later hk.size
    have hpasses := Frame.gather_passes hi hk.mappings hparent' hafter hrest
    unfold gatherEvents at hmem
    rw [hone] at hmem
    rcases List.mem_append.1 hmem with hmem | hmem
    · obtain ⟨ha, hr⟩ := apart_mapping hi hcall hf hclosed hparent hfirst hone id key r hmem hs
      exact ⟨(hpasses.apart r ha (hparent.ne_unmade r hr)).1, hr⟩
    · obtain ⟨ha, hr⟩ := apart_gather hcall mappings hk.mappings (hk.closed hclosed) hparent' hafter
        hrest id key r hmem hs
      exact ⟨ha, Nat.le_trans hk.size hr⟩

/-- What a call builds is apart behind it, if no grouped map is reachable from its map. -/
theorem Lone.builtApart : ∀ (depth : Nat) (c : Call) (out : Option Value) (left : Frame),
    c.Lone session → c.run session (session.load n) depth = (.ok out, left) →
    BuiltApart session (events session (session.load n) depth c) c.frame left
  | 0, _, _, _, _, h => by cases h
  | depth + 1, c, out, left, hc, h => by
    intro id key r hmem hs
    unfold events ownEvents elementsEvents at hmem
    rcases run_eq_ok h with ⟨hnone, -⟩ | ⟨subject, f, hsome, hnested, -⟩
    · obtain ⟨object, hfound, -⟩ := hc.subject hnone
      cases hfound
    obtain ⟨object, hfound, hrequest, hclosed, hobject, hsize, hapart⟩ := hc.subject hsome
    cases hfound
    rw [hsome] at hmem
    have hf : f.request.mappings = [] := hrequest ▸ hc.mappings
    have hown : .built id key (.object r) ∈ [Event.built c.map.id none object] →
        f.Apart session True r ∧ c.frame.world.store.objects.size ≤ r.index ∧ object = .object r := by
      intro he
      cases List.mem_singleton.1 he
      obtain ⟨ha, hr⟩ := hapart r rfl hs
      exact ⟨ha, hr, rfl⟩
    rcases assembleNested_eq_ok hnested with ⟨hno, rfl⟩ | ⟨hany, k, hgather, rfl⟩
    · simp only [hno, if_true, Bool.false_eq_true, if_false, List.append_nil] at hmem
      obtain ⟨ha, hr, -⟩ := hown hmem
      exact ⟨ha, hr⟩
    · simp only [hany, if_true] at hmem
      rcases List.mem_append.1 hmem with hmem | hmem
      · obtain ⟨ha, hr, rfl⟩ := hown hmem
        exact ⟨Frame.gather_self hi hf ha (fun _ hm => hc.nested hi hm) hgather, hr⟩
      · obtain ⟨ha, hr⟩ := apart_gather hi (builtApart depth) _ hf hclosed hobject
          (fun _ hm => hc.nested hi hm) hgather id key r hmem hs
        exact ⟨ha, Nat.le_trans hsize hr⟩

end Laws

end Call

/-! ## The elements of a row -/

/-- What a map makes of the row of a frame alone: nothing, if it finds no data there, and else an
object that is built where nothing is remembered. `keeps` holds of all that is built for the object
and what is in it then. -/
inductive ResultMap.FromRow (m : ResultMap) (session : Session) (load : Load) (depth : Nat)
    (keeps : ObjectRef → ObjectData → Prop) (f : Frame) : Option Value → Prop
  | none {values : List Value} {g : Frame} (reads : (m.readRow session load).run f.forget = (.ok values, g))
      (empty : g.request.rowDataFound = false) : FromRow m session load depth keeps f none
  | some {values : List Value} {object : Value} {g left : Frame}
      (reads : (m.readRow session load).run f.forget = (.ok values, g))
      (found : g.request.rowDataFound = true)
      (builds : Call.run session load depth { map := m, values, frame := g } = (.ok (some object), left))
      (kept : ∀ id key q,
        .built id key (.object q) ∈ Call.events session load depth { map := m, values, frame := g } →
        session.Shapes id → keeps q (left.world.store.data q)) :
      FromRow m session load depth keeps f (some object)

/-- The object is apart, holds some data, and was not there when the store had a size. -/
structure Frame.Settled (f : Frame) (session : Session) (n : Nat) (r : ObjectRef) (d : ObjectData) :
    Prop where
  apart : f.Apart session True r
  data : f.world.store.data r = d
  fresh : n ≤ r.index

namespace ResultMap

variable {m : ResultMap} {load : Load} {keeps keeps' : ObjectRef → ObjectData → Prop}
  {out : Option Value} {values : List Value}

theorem FromRow.mono (h : m.FromRow session load depth keeps f out)
    (hk : ∀ q d, keeps q d → keeps' q d) : m.FromRow session load depth keeps' f out := by
  cases h with
  | none reads empty => exact .none reads empty
  | some reads found builds kept =>
    exact .some reads found builds fun id key q hq hs => hk _ _ (kept id key q hq hs)

/-- A row in which a map finds no data, wherever it is read. -/
theorem fromRow_none (hf : f.request.mappings = [])
    (hread : (m.readRow session load).run f = (.ok values, g))
    (hempty : g.request.rowDataFound = false) : m.FromRow session load depth keeps f none := by
  obtain ⟨values', k, hk, hgk, -⟩ :=
    ((Correspondence.memory.reads session load).scans.readRow (m := m) trivial
      (paired_memory hf)).ok hread
  exact .none hk (Correspondence.memory.rowDataFound hgk ▸ hempty)

/-- An object that a map from which no grouped map is reachable makes of a row, wherever it does, is
the one that it makes of the row alone. -/
theorem fromRow_some (hi : Table.Indexed ResultMap.id session.catalog.resultMaps) {left : Frame}
    (hm : m.Loner session.catalog) (hf : f.request.mappings = []) (hclosed : f.Closed session)
    (hread : (m.readRow session (session.load n)).run f = (.ok values, g))
    (hfound : g.request.rowDataFound = true)
    (hrun : (ResultMap.build session (session.load n) depth m none values).run g = (.ok out, left)) :
    ∃ object, out = some object ∧
      m.FromRow session (session.load n) depth (left.Settled session f.world.store.objects.size) f
        (some object) := by
  have hreads := Correspondence.memory.reads session (session.load n)
  obtain ⟨hpasses, hvalues, -⟩ := Frame.readRow_passes hi hf hm.1 hread
  obtain ⟨values', k, hk, hgk, -, hsame, -⟩ :=
    (hreads.scans.readRow (m := m) trivial (paired_memory hf)).ok hread
  obtain rfl : values = values' := List.forall₂_eq_eq_eq ▸ hsame
  have hworld : g.world = k.world := Correspondence.memory.world_eq hgk
  let call : Call := { map := m, values, frame := k }
  have hlone : call.Lone session := by
    refine ⟨rfl, hm, ?_, fun r hr => ?_, fun v hv => ?_⟩
    · rw [← hgk.2]
      exact Correspondence.memory.view_eq (fun f => f.request.mappings) (fun _ => rfl) hgk ▸ rfl
    · refine (hpasses.closed hclosed r ?_).congr hgk.1
      rwa [hworld]
    · have hthere := hvalues hclosed v hv
      unfold Frame.Has at hthere ⊢
      rwa [hworld] at hthere
  obtain ⟨out', left', hrun', hleft, -, rfl⟩ :=
    (Correspondence.memory.build hi depth values hm hgk).ok hrun
  have hcall : call.run session (session.load n) depth = (.ok out, left') := hrun'
  obtain ⟨object, rfl⟩ := hlone.exists_object hcall
  refine ⟨object, rfl, .some hk (Correspondence.memory.rowDataFound hgk ▸ hfound) hcall fun id key q hq hs => ?_⟩
  obtain ⟨ha, hfresh⟩ := hlone.builtApart hi depth call _ left' hcall id key q hq hs
  have hsize : g.world.store.objects.size ≤ q.index := hworld ▸ hfresh
  exact ⟨ha.congr hleft.1.symm, Correspondence.memory.world_eq hleft ▸ rfl,
    Nat.le_trans hpasses.size hsize⟩

end ResultMap

end RowMapper
