/-
The call for a row of a map that groups rows. It finds the object of its group, or builds it with the
values of the row and empty lists, and adds the elements of the row to it. All other objects that are
apart stay as they are.
-/
import RowMapper.Proofs.Delivery.Gathering
import RowMapper.Proofs.Engine.ApartQuery
import RowMapper.Proofs.Engine.Filled

namespace RowMapper

variable {session : Session} {m : ResultMap} {f g : Frame} {r : ObjectRef} {n depth bound : Nat}

/-! ## Frames that differ in what is forgotten -/

namespace Frame

variable {P : ObjectRef → Prop}

theorem Leaves.of_forget (hf : f.request.mappings = []) (hfg : f.forget = g.forget) :
    f.Leaves session P g where
  mappings := by
    have hmappings : f.forget.request.mappings = g.forget.request.mappings :=
      congrArg (·.request.mappings) hfg
    exact hmappings ▸ hf
  size := by
    have hworld : f.forget.world = g.forget.world := congrArg Frame.world hfg
    exact Nat.le_of_eq (congrArg (·.store.objects.size) hworld)
  apart r ha _ := by
    have hworld : f.forget.world = g.forget.world := congrArg Frame.world hfg
    exact ⟨ha.congr hfg, congrArg (·.store.data r) hworld.symm⟩
  closed hc := hc.congr hfg

theorem Parent.congr (hp : f.Parent session m r) (hfg : f.forget = g.forget) : g.Parent session m r :=
  (hp.leaves (P := fun _ => True) (.of_forget hp.mappings hfg) trivial).1

theorem Settled.leaves {d : ObjectData} (hs : f.Settled session n r d) (h : f.Leaves session P g)
    (hr : P r) : g.Settled session n r d := by
  obtain ⟨hapart, hdata⟩ := h.apart r hs.apart hr
  exact ⟨hapart, hdata.trans hs.data, hs.fresh⟩

/-- Marking an object changes the marks alone. -/
theorem mark_eq (f : Frame) (id : String) (key : Option String) :
    ∃ assembling, f.mark id key = { f with request := { f.request with assembling } } := by
  cases key <;> exact ⟨_, rfl⟩

theorem unmark_eq (f : Frame) (key : Option String) :
    ∃ assembling, f.unmark key = { f with request := { f.request with assembling } } := by
  cases key <;> exact ⟨_, rfl⟩

theorem mappings_of_declared (hf : f.request.mappings = []) (hm : m.isAuto = false) :
    f.mappings m = m.declared := by
  have hnone : Table.get? m.id f.request.mappings = none := by rw [hf]; rfl
  rw [mappings_of_none hnone, f.world.declaredMappings_eq hm]

end Frame

/-! ## The object of a group -/

/-- A new object of a map that groups rows holds the values of its row, and no elements. -/
theorem ResultMap.Groups.setData_parent (hm : m.Groups session.catalog) {values : List Value}
    {object : Value} (hf : f.request.mappings = []) (hc : f.Closed session)
    (hlen : m.declared.length ≤ values.length) (hvalues : ∀ v ∈ values, f.Has v)
    (hrun : (Frame.edit (m.exchange.setData session.catalog.accessor m m.declared none values)).run f =
      (.ok object, g)) :
    let r : ObjectRef := ⟨f.world.store.objects.size⟩
    object = .object r ∧ g.Parent session m r ∧
      (∀ property, m.Gathers property → (g.world.store.data r).items property = []) ∧
      ∀ pair ∈ m.declared.zip values, pair.1.isNestedMap = false →
        ∃ w, (m.propertyType pair.1.property).cast pair.2 = .ok w ∧
          (g.world.store.data r).slot? pair.1.property = some w := by
  obtain ⟨hpasses, -⟩ := Frame.setData_passes hf hvalues hrun
  obtain ⟨s, hset, rfl⟩ := run_edit_eq_ok.1 hrun
  obtain ⟨d, hblank⟩ := ResultMap.exists_blank hm.exchange
  let r : ObjectRef := ⟨f.world.store.objects.size⟩
  have hr : f.Apart session False r := hc r (Nat.le_refl _)
  have hflat : ∀ mapping ∈ m.declared, mapping.isNestedMap = false → ¬m.Gathers mapping.property := by
    rintro mapping hmem hno ⟨other, hother, hnested, heq⟩
    rw [hm.nested hother hnested mapping hmem heq.symm] at hno
    cases hno
  -- the values of the row go past the lists
  obtain ⟨hlt, halone, hgrows, hobject⟩ := Watch.setData_passes
    (x := { ref := r, watched := fun p => m.Gathers p ∧ m.Nested p, fixed := True })
    session.catalog.accessor hblank hr.store rfl
    (fun mapping hmem hno => ⟨fun h => hflat mapping hmem hno h.1, fun _ step hstep => by
      rw [Text.steps_of_no_dot (hm.single mapping hmem), List.head?_cons] at hstep
      cases hstep
      exact fun h => hflat mapping hmem hno h.1⟩)
    (fun v hv => (hvalues v hv).ne_unmade r (Nat.le_refl _)) hset
  have hempty : (s.data r).Empty m m.Gathers :=
    (ObjectData.empty_blank hblank).fixed hgrows
  refine ⟨hobject object rfl, ⟨hpasses.mappings, hpasses.closed hc, ?_, hempty.fits⟩, ?_, ?_⟩
  · exact ⟨halone, hr.loader, hr.replies, hr.rows, fun _ => hlt⟩
  · rintro property ⟨mapping, hmem, hnested, rfl⟩
    exact hempty.items_eq ⟨mapping, hmem, hnested, rfl⟩ (hm.nested hmem hnested)
  · exact ResultMap.setData_slot? hm.exchange hlen hm.distinct hm.single hset

namespace Call

variable {c : Call} {subject : Subject} {out : Option Value} {key : String}

section Laws

variable (hi : Table.Indexed ResultMap.id session.catalog.resultMaps) (hm : m.Groups session.catalog)

include hi hm

/-- Gathering the elements of a row adds them to the object of the call, and passes the rest by. -/
theorem assembleNested_added
    (hsubject : (c.map.subject session c.target c.values).run c.frame = (.ok (some subject), f))
    (hobject : subject.object = .object r) (hmappings : subject.mappings = m.declared)
    (hp : f.Parent session m r)
    (hrun : (assembleNested session (session.load n) (builds session (session.load n) depth) c.map
      subject.mappings subject.object subject.key).run f = (.ok (), g)) :
    g.Parent session m r ∧
      c.Added session (session.load n) depth (g.Settled session f.world.store.objects.size) m.declared
        (f.world.store.data r) (g.world.store.data r) ∧
      f.Leaves session (r ≠ ·) g ∧ g.request.identity = f.request.identity ∧ g.emitted = f.emitted := by
  rcases assembleNested_eq_ok hrun with ⟨hno, rfl⟩ | ⟨hany, k, hgather, rfl⟩
  · refine ⟨hp, ⟨fun mapping hmem hnested => ?_, fun _ _ => rfl⟩, .of_forget hp.mappings rfl, rfl, rfl⟩
    rw [hmappings, List.any_eq_false] at hno
    exact absurd hnested (hno mapping hmem)
  have hg : c.Gathers session subject (f.mark c.map.id subject.key) := ⟨⟨f, hsubject, rfl⟩, hany⟩
  obtain ⟨marks, hmark⟩ := f.mark_eq c.map.id subject.key
  obtain ⟨marks', hunmark⟩ := k.unmark_eq subject.key
  rw [hmark] at hg hgather
  rw [hmappings, hobject] at hgather
  rw [hunmark]
  let opened : Frame := { f with request := { f.request with assembling := marks } }
  let closed : Frame := { k with request := { k.request with assembling := marks' } }
  have hp' : opened.Parent session m r := hp.congr rfl
  obtain ⟨hk, hadded⟩ := Gathers.added hi hm hg hobject hmappings m.declared [] rfl rfl hp' hgather
  have hpasses := Frame.gather_passes hi hp'.mappings hp'.has
    (fun mapping hmem id child => hm.loner hi hmem) hgather
  have hopen : f.Leaves session (r ≠ ·) opened := .of_forget hp.mappings rfl
  have hclose : k.Leaves session (r ≠ ·) closed := .of_forget hk.mappings rfl
  have hgathered : opened.Leaves session (r ≠ ·) k :=
    hpasses.toLeaves.mono fun _ hr he => hr (Value.object.inj he)
  exact ⟨hk.congr rfl, hadded.mono fun q d hq =>
    hq.leaves (P := fun _ => True) (.of_forget hk.mappings rfl) trivial, (hopen.trans hgathered).trans hclose,
    hpasses.identity, hpasses.emitted⟩

/-- The call for a row of a group that is known adds elements to the object of the group. -/
theorem known_added (hbound : bound ≠ 0) (hmap : c.map = m) (hmarks : c.frame.request.assembling = [])
    (hkey : c.key = some key) (hknown : c.frame.request.identity.get? m.id key = some (.object r))
    (hp : c.frame.Parent session m r) (hrun : c.run session (session.load n) bound = (.ok out, g)) :
    out = none ∧ g.Parent session m r ∧
      c.Added session (session.load n) (bound - 1)
        (g.Settled session c.frame.world.store.objects.size) m.declared
        (c.frame.world.store.data r) (g.world.store.data r) ∧
      c.frame.Leaves session (r ≠ ·) g ∧ g.request.identity = c.frame.request.identity ∧
      g.emitted = c.frame.emitted := by
  obtain ⟨depth, rfl⟩ := Nat.exists_eq_succ_of_ne_zero hbound
  subst hmap
  rcases run_eq_ok hrun with ⟨hnone, -⟩ | ⟨subject, f, hsome, hnested, rfl⟩
  · obtain ⟨-, key, -, hmarked⟩ := subject_eq_none hnone
    simp [Request.isAssembling, hmarks] at hmarked
  obtain ⟨-, hmappings, ⟨hnew, rfl, key', hkey', hobject⟩ | ⟨-, hunknown, -⟩⟩ := subject_eq_some hsome
  · cases hkey.symm.trans hkey'
    have hsubject : subject.object = .object r := Option.some.inj (hobject.symm.trans hknown)
    have hdeclared := hmappings.trans (Frame.mappings_of_declared hp.mappings hm.declared)
    rw [hnew]
    exact ⟨rfl, assembleNested_added hi hm hsome hsubject hdeclared hp hnested⟩
  · rw [hkey, Option.bind_some, hknown] at hunknown
    cases hunknown

/-- The call for a row of a new group builds the object of the group, and adds elements to it. -/
theorem new_added (hbound : bound ≠ 0) (hmap : c.map = m) (ht : c.target = none)
    (hmarks : c.frame.request.assembling = []) (hkey : c.key = some key)
    (hunknown : c.frame.request.identity.get? m.id key = none) (hf : c.frame.request.mappings = [])
    (hc : c.frame.Closed session) (hlen : m.declared.length ≤ c.values.length)
    (hvalues : ∀ v ∈ c.values, c.frame.Has v)
    (hrun : c.run session (session.load n) bound = (.ok out, g)) :
    let r : ObjectRef := ⟨c.frame.world.store.objects.size⟩
    out = some (.object r) ∧ g.Parent session m r ∧
      (∃ d, (∀ property, m.Gathers property → d.items property = []) ∧
        (∀ pair ∈ m.declared.zip c.values, pair.1.isNestedMap = false →
          ∃ w, (m.propertyType pair.1.property).cast pair.2 = .ok w ∧
            d.slot? pair.1.property = some w) ∧
        c.Added session (session.load n) (bound - 1)
          (g.Settled session (c.frame.world.store.objects.size + 1)) m.declared d
            (g.world.store.data r)) ∧
      c.frame.Leaves session (fun q => (∀ v ∈ c.values, v ≠ .object q) ∧ r ≠ q) g ∧
      g.request.identity = c.frame.request.identity.insert m.id key (.object r) ∧
      g.emitted = c.frame.emitted := by
  intro r
  obtain ⟨depth, rfl⟩ := Nat.exists_eq_succ_of_ne_zero hbound
  subst hmap
  rcases run_eq_ok hrun with ⟨hnone, -⟩ | ⟨subject, f, hsome, hnested, rfl⟩
  · obtain ⟨-, key, -, hmarked⟩ := subject_eq_none hnone
    simp [Request.isAssembling, hmarks] at hmarked
  obtain ⟨hkey', hmappings, ⟨-, -, key', hkey'', hobject⟩ | ⟨hnew, -, hbuild⟩⟩ := subject_eq_some hsome
  · cases hkey.symm.trans hkey''
    rw [hunknown] at hobject
    cases hobject
  have hdeclared := hmappings.trans (Frame.mappings_of_declared hf hm.declared)
  rw [hdeclared, ht, hkey', hkey] at hbuild
  obtain ⟨object, u, hset, hbuild⟩ := run_bind_eq_ok.1 hbuild
  obtain ⟨_, u', hremember, hbuild⟩ := run_bind_eq_ok.1 hbuild
  cases hremember
  cases hbuild
  obtain ⟨hobject, hu, hempty, hslots⟩ := hm.setData_parent hf hc hlen hvalues hset
  have hpasses := (Frame.setData_passes hf hvalues hset).1
  let known : Frame := { u with request := { u.request with
    identity := u.request.identity.insert c.map.id key subject.object } }
  have hknown : known.Parent session c.map r := hu.congr rfl
  obtain ⟨hg, hadded, hleaves, hidentity, hemitted⟩ :=
    assembleNested_added hi hm hsome hobject hdeclared hknown hnested
  have hmade : r.index < u.world.store.objects.size := hu.apart.made trivial
  rw [hnew, if_pos rfl, hobject]
  refine ⟨rfl, hg, ⟨u.world.store.data r, hempty, hslots, hadded.mono fun q d hq =>
    ⟨hq.apart, hq.data, Nat.le_trans hmade hq.fresh⟩⟩, ?_, ?_, hemitted.trans hpasses.emitted⟩
  · have hremembered : u.Leaves session (fun q => (∀ v ∈ c.values, v ≠ .object q) ∧ r ≠ q) known :=
      .of_forget hu.mappings rfl
    exact ((hpasses.mono fun q hq => hq.1).trans hremembered).trans (hleaves.mono fun q hq => hq.2)
  · rw [hidentity, ← hobject]
    exact congrArg (·.insert c.map.id key subject.object) hpasses.identity

end Laws

end Call

end RowMapper
