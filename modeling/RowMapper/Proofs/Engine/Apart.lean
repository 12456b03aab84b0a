/-
Objects that are apart: nothing but collections, and the table of a request, refers to them. What
builds the objects of maps from which no grouped map is reachable neither looks at the table nor
changes it, and it leaves the objects that are apart as they are (`Frame.Passes`), but for the parent
whose collections it changes.
-/
import RowMapper.Proofs.Engine.Alone
import RowMapper.Proofs.Engine.WatchQuery

namespace RowMapper

/-- Watching all of an object. -/
def Watch.whole (r : ObjectRef) : Watch := { ref := r, watched := fun _ => True, fixed := True }

/-- Watching what refers to an object, but nothing of what it holds. -/
def Watch.bare (r : ObjectRef) : Watch := { ref := r, watched := fun _ => False, fixed := True }

/-- Nothing but collections, and what the request remembers and gave, refers to the object. It is in
the store if `made` holds. -/
structure Frame.Apart (f : Frame) (session : Session) (made : Prop) (r : ObjectRef) : Prop where
  store : ∀ q, .object r ∉ (f.world.store.data q).values
  loader : ∀ v, session.catalog.loader = .fixed v → v ≠ .object r
  replies : ∀ registration ∈ f.world.database.registrations, .object r ∉ registration.reply.cells
  rows : ∀ rows, f.request.rows = some rows → .object r ∉ rows.cells
  made : made → r.index < f.world.store.objects.size

/-- Nothing refers to an object that is not in the store. -/
def Frame.Closed (f : Frame) (session : Session) : Prop :=
  ∀ r, f.world.store.objects.size ≤ r.index → f.Apart session False r

/-- The store holds the object that a value is, if it is one. -/
def Frame.Has (f : Frame) (v : Value) : Prop := ∀ r, v = .object r → r.index < f.world.store.objects.size

/-- From one frame to the next objects that are apart stay as they are, if `P` holds for them. -/
structure Frame.Leaves (session : Session) (P : ObjectRef → Prop) (f g : Frame) : Prop where
  mappings : g.request.mappings = []
  size : f.world.store.objects.size ≤ g.world.store.objects.size
  apart : ∀ r, f.Apart session True r → P r →
    g.Apart session True r ∧ g.world.store.data r = f.world.store.data r
  closed : f.Closed session → g.Closed session

/-- The request remembers and gives nothing either. -/
structure Frame.Passes (session : Session) (P : ObjectRef → Prop) (f g : Frame) : Prop
    extends f.Leaves session P g where
  identity : g.request.identity = f.request.identity
  emitted : g.emitted = f.emitted

namespace Frame

variable {session : Session} {f g h : Frame} {r : ObjectRef} {made : Prop} {v : Value} {α : Type}
  {P P' : ObjectRef → Prop}

theorem Apart.forget (ha : f.Apart session made r) : f.forget.Apart session made r :=
  ⟨ha.store, ha.loader, ha.replies, ha.rows, ha.made⟩

theorem Apart.congr (ha : f.Apart session made r) (hfg : f.forget = g.forget) :
    g.Apart session made r := by
  have hg : g.forget.Apart session made r := hfg ▸ ha.forget
  exact ⟨hg.store, hg.loader, hg.replies, hg.rows, hg.made⟩

/-- A request that remembers nothing guards an object that is apart. -/
theorem Apart.guarded {x : Watch} (ha : f.Apart session made x.ref) :
    x.Guarded (.outer made) session f.forget where
  store := ha.store
  loader := ha.loader
  replies := ha.replies
  rows := ha.rows
  emitted _ _ e he := absurd he (Array.not_mem_empty e)
  identity _ _ hi := by cases hi
  made := ha.made
  fits _ hs := absurd hs Watch.Scope.outer_ne_own

theorem apart_of_guarded {x : Watch} {scope : Watch.Scope} (hg : x.Guarded scope session f)
    (hm : made → x.Held scope f) : f.Apart session made x.ref :=
  ⟨hg.store, hg.loader, hg.replies, hg.rows, fun h => hg.made (hm h)⟩

theorem Has.later (hv : f.Has v) (hsize : f.world.store.objects.size ≤ g.world.store.objects.size) :
    g.Has v := fun r hr => Nat.lt_of_lt_of_le (hv r hr) hsize

theorem Has.ne_unmade (hv : f.Has v) (r : ObjectRef)
    (hr : f.world.store.objects.size ≤ r.index) : v ≠ .object r :=
  fun he => absurd (hv r he) (Nat.not_lt.2 hr)

/-- What is not an object but a free one may be written anywhere. -/
theorem free_of_ne {v : Value} {x : Watch} {made : Prop}
    (h : v ≠ .object x.ref ∨ x.Free (.outer made) f) (he : v = .object x.ref) :
    x.Free (.outer made) f := h.resolve_left fun hne => hne he

theorem Leaves.trans (h₁ : f.Leaves session P g) (h₂ : g.Leaves session P h) :
    f.Leaves session P h where
  mappings := h₂.mappings
  size := Nat.le_trans h₁.size h₂.size
  apart r ha hr :=
    have hg := h₁.apart r ha hr
    have hh := h₂.apart r hg.1 hr
    ⟨hh.1, hh.2.trans hg.2⟩
  closed hc := h₂.closed (h₁.closed hc)

theorem Leaves.mono (h : f.Leaves session P g) (hP : ∀ r, P' r → P r) : f.Leaves session P' g :=
  ⟨h.mappings, h.size, fun r ha hr => h.apart r ha (hP r hr), h.closed⟩

/-! ## Runs in step -/

/-- Watching objects in a request that remembers nothing. -/
theorem paired_forget {x : Watch} (h : x.Free (.outer made) f.forget ∨ f.Apart session made x.ref) :
    (x.onRequest (.outer made) session).paired f.forget f.forget :=
  ⟨rfl, fun _ hs => absurd hs Watch.Scope.outer_ne_own, h.imp_right Apart.guarded⟩

/-- An object that is apart stays so in a run that does not look at what the request remembers, and
keeps the object guarded. -/
theorem apart_of_inStep {x : Watch} {run : Run Frame α} {Q : Frame → α → α → Prop} {a : α}
    (hm : Correspondence.memory.InStep Q run run f f.forget)
    (hw : (x.onRequest (.outer True) session).InStep Pairing.Any run run f.forget f.forget)
    (hrun : run.run f = (.ok a, g)) :
    g.Apart session True x.ref ∧
      (f.world.store.data x.ref).Grows x.watched x.fixed (g.world.store.data x.ref) := by
  obtain ⟨b, k, hk, hfk, -⟩ := hm.ok hrun
  have hworld : k.world = g.world := (congrArg Frame.world hfk.1).symm
  obtain ⟨hp, hl, -⟩ := Watch.inStep_ok hw hk
  have hg := hp.2.2.resolve_left fun hf => hf.2 trivial
  exact ⟨(apart_of_guarded hg fun _ => trivial).congr hfk.1.symm, hworld ▸ hl.2.2.2 trivial⟩

/-- Behind a run that does not look at what the request remembers nothing refers to objects that it
does not make. -/
theorem closed_of_inStep {run : Run Frame α} {Q : Frame → α → α → Prop} {a : α}
    (hm : Correspondence.memory.InStep Q run run f f.forget)
    (hw : ∀ r, ((Watch.whole r).onRequest (.outer False) session).paired f.forget f.forget →
      ((Watch.whole r).onRequest (.outer False) session).InStep Pairing.Any run run f.forget f.forget)
    (hrun : run.run f = (.ok a, g)) :
    f.world.store.objects.size ≤ g.world.store.objects.size ∧ (f.Closed session → g.Closed session) := by
  obtain ⟨b, k, hk, hfk, -⟩ := hm.ok hrun
  have hworld : k.world = g.world := (congrArg Frame.world hfk.1).symm
  have hsize : f.world.store.objects.size ≤ g.world.store.objects.size := by
    rw [← hworld]
    by_cases h0 : f.world.store.objects.size = 0
    · rw [h0]
      exact Nat.zero_le _
    · -- an object that is in the store, but not held, is watched
      have hfree : (Watch.whole ⟨0⟩).Free (.outer False) f.forget := ⟨Nat.pos_of_ne_zero h0, id⟩
      exact (Watch.inStep_ok (hw ⟨0⟩ (paired_forget (.inl hfree))) hk).2.1.1
  refine ⟨hsize, fun hc r hr => ?_⟩
  obtain ⟨hp, -, -⟩ :=
    Watch.inStep_ok (hw r (paired_forget (.inr (hc r (Nat.le_trans hsize hr))))) hk
  have hg := hp.2.2.resolve_left fun hfree => absurd hfree.1 (by
    rw [hworld]
    exact Nat.not_lt.2 hr)
  exact (apart_of_guarded (x := Watch.whole r) hg (fun h : False => h.elim)).congr hfk.1.symm

/-- A run that neither looks at what the request remembers nor writes to objects that are apart. -/
theorem passes_of_inStep {run : Run Frame α} {Q : Frame → α → α → Prop} {a : α}
    (hP : ∀ r, f.world.store.objects.size ≤ r.index → P r)
    (hm : Correspondence.memory.InStep Q run run f f.forget)
    (hw : ∀ r made, P r ∨ (Watch.whole r).Free (.outer made) f.forget →
      ((Watch.whole r).onRequest (.outer made) session).paired f.forget f.forget →
      ((Watch.whole r).onRequest (.outer made) session).InStep Pairing.Any run run f.forget f.forget)
    (hrun : run.run f = (.ok a, g)) : f.Passes session P g := by
  have hunmade : ∀ r, P r ∨ (Watch.whole r).Free (.outer False) f.forget := by
    intro r
    by_cases hlt : r.index < f.world.store.objects.size
    · exact .inr ⟨hlt, id⟩
    · exact .inl (hP r (Nat.not_lt.1 hlt))
  obtain ⟨hsize, hclosed⟩ := closed_of_inStep hm (fun r => hw r False (hunmade r)) hrun
  obtain ⟨b, k, hk, hfk, hlater, -⟩ := hm.ok hrun
  refine ⟨⟨hfk.2, hsize, fun r ha hr => ?_, hclosed⟩, hlater.2, hlater.1⟩
  have hstep := hw r True (.inl hr) (paired_forget (.inr ha))
  obtain ⟨hg, hgrows⟩ := apart_of_inStep (x := Watch.whole r) hm hstep hrun
  exact ⟨hg, hgrows.same (fun _ => trivial) trivial⟩

/-- A value is there behind a run that frees the objects that it gives and that were not made. -/
theorem has_of_free (hc : f.Closed session)
    (hsize : f.world.store.objects.size ≤ g.world.store.objects.size)
    (h : ∀ r, ((Watch.whole r).onRequest (.outer False) session).paired f.forget f.forget →
      v = .object r → (Watch.whole r).Free (.outer False) g) : g.Has v := by
  intro r hr
  by_cases hlt : r.index < f.world.store.objects.size
  · exact Nat.lt_of_lt_of_le hlt hsize
  · exact (h r (paired_forget (.inr (hc r (Nat.not_lt.1 hlt)))) hr).1

end Frame

/-! ## Building objects -/

section Laws

variable {session : Session} {f g : Frame} {m child : ResultMap} {n depth : Nat} {parent : Value}
  {mapping : ResultMapping} (hi : Table.Indexed ResultMap.id session.catalog.resultMaps)

theorem paired_memory (hf : f.request.mappings = []) :
    Correspondence.memory.paired f f.forget := ⟨rfl, hf⟩

include hi

theorem Watch.sound_outer (x : Watch) (made : Prop) : x.Sound (.outer made) session :=
  ⟨fun _ hs => absurd hs Scope.outer_ne_own, fun _ hs => absurd hs Scope.outer_ne_own, hi⟩

theorem Watch.answers_forget (x : Watch) (made : Prop) (n : Nat) :
    (x.onRequest (.outer made) session).Answers session (session.load n) (session.load n) :=
  answers_outer (sound_outer hi x made) n made

namespace Frame

/-- The values of a row are read without a look at what is remembered, and none is an object that was
apart. -/
theorem readRow_passes {values : List Value} (hf : f.request.mappings = [])
    (hm : session.catalog.resultMap m.id = .ok m)
    (hrun : (m.readRow session (session.load n)).run f = (.ok values, g)) :
    f.Passes session (fun _ => True) g ∧ (f.Closed session → ∀ v ∈ values, g.Has v) ∧
      ∀ r, f.Apart session True r → ∀ v ∈ values, v ≠ .object r := by
  have hmemory := (Correspondence.memory.reads session (session.load n)).scans.readRow (m := m) trivial
    (paired_memory hf)
  have hstep := fun r made (hp : ((Watch.whole r).onRequest (.outer made) session).paired f.forget
    f.forget) => (Watch.answers_forget hi (Watch.whole r) made n).readRow hm hp
  have hpasses := passes_of_inStep (P := fun _ => True) (fun _ _ => trivial) hmemory
    (fun r made _ hp => (hstep r made hp).any) hrun
  obtain ⟨values', k, hk, hfk, -, hsame, -⟩ := hmemory.ok hrun
  obtain rfl : values = values' := List.forall₂_eq_eq_eq ▸ hsame
  have hworld : k.world = g.world := (congrArg Frame.world hfk.1).symm
  have hvalues : ∀ r made,
      ((Watch.whole r).onRequest (.outer made) session).paired f.forget f.forget →
      ∀ v ∈ values, v = .object r → (Watch.whole r).Free (.outer made) g := by
    intro r made hp v hv he
    obtain ⟨hmade, hheld⟩ :=
      ((List.forall₂_same.1 (Watch.inStep_ok (hstep r made hp) hk).2.2.1) v hv).2 he
    exact ⟨hworld ▸ hmade, hheld⟩
  refine ⟨hpasses, fun hc v hv => ?_, fun r ha v hv he => ?_⟩
  · exact has_of_free hc hpasses.size fun r hp => hvalues r False hp v hv
  · exact (hvalues r True (paired_forget (.inr ha)) v hv he).2 trivial

omit hi in
/-- Values that are there are put into a new object. -/
theorem setData_passes {exchange : Exchange} {mappings : List ResultMapping} {values : List Value}
    {object : Value} (hf : f.request.mappings = []) (hvalues : ∀ v ∈ values, f.Has v)
    (hrun : (Frame.edit (exchange.setData session.catalog.accessor m mappings none values)).run f =
      (.ok object, g)) :
    f.Passes session (fun r => ∀ v ∈ values, v ≠ .object r) g ∧ (f.Closed session → g.Has object) := by
  have hstep : ∀ r made,
      (∀ v ∈ values, v ≠ .object r) ∨ (Watch.whole r).Free (.outer made) f.forget →
      ((Watch.whole r).onRequest (.outer made) session).paired f.forget f.forget → _ :=
    fun r made hfree hp => Watch.edit_inStep hp
      (((Watch.whole r).writes _).setData exchange session.catalog.accessor m mappings
        (Watch.onStore_paired hp) .none (List.forall₂_same.2 fun v hv => ⟨rfl, fun he =>
          Watch.since_of_free (hfree.resolve_left fun hne => hne v hv he)⟩) Watch.record_values)
      fun _ _ _ _ => Watch.values_store hp
  have hunmade : ∀ r, f.world.store.objects.size ≤ r.index → ∀ v ∈ values, v ≠ .object r :=
    fun r hr v hv => (hvalues v hv).ne_unmade r hr
  have hmemory := Correspondence.memory.onWorld (World.edit
    (exchange.setData session.catalog.accessor m mappings none values)) (paired_memory hf)
  have hpasses := passes_of_inStep hunmade hmemory
    (fun r made hfree hp => (hstep r made hfree hp).any) hrun
  refine ⟨hpasses, fun hc => has_of_free hc hpasses.size fun r hp he => ?_⟩
  obtain ⟨_, k, hk, hfk, -, rfl⟩ := hmemory.ok hrun
  have hfree : (∀ v ∈ values, v ≠ .object r) ∨ (Watch.whole r).Free (.outer False) f.forget := by
    by_cases hlt : r.index < f.world.store.objects.size
    · exact .inr ⟨hlt, id⟩
    · exact .inl (hunmade r (Nat.not_lt.1 hlt))
  obtain ⟨hmade, hheld⟩ := (Watch.inStep_ok (hstep r False hfree hp) hk).2.2.2 he
  have hworld : k.world = g.world := (congrArg Frame.world hfk.1).symm
  exact ⟨hworld ▸ hmade, hheld⟩

/-- A collection of a parent is changed by something that puts no object anywhere. -/
theorem update_passes {change : Store → Value → Value × Except Error Unit}
    (hf : f.request.mappings = []) (hparent : f.Has parent) (hnested : mapping.isNestedMap = true)
    (hobject : ∀ s v r, (change s v).1 = .object r → v = .object r)
    (hrun : (Frame.edit (session.catalog.accessor.update parent mapping.property change)).run f =
      (.ok (), g)) : f.Passes session (parent ≠ .object ·) g :=
  passes_of_inStep hparent.ne_unmade (Correspondence.memory.onWorld _ (paired_memory hf))
    (fun _ made hfree hp => Watch.updateOther (m := { id := "" }) (Watch.sound_outer hi _ made) hp
      ⟨rfl, fun he => .inl (free_of_ne hfree he)⟩ (List.mem_singleton_self mapping) hnested hobject
      fun he => .inl (free_of_ne hfree he)) hrun

/-- While a collection of an object is changed nothing but collections comes to refer to it. -/
theorem update_self {change : Store → Value → Value × Except Error Unit} {r : ObjectRef}
    (hf : f.request.mappings = []) (ha : f.Apart session True r) (hnested : mapping.isNestedMap = true)
    (hobject : ∀ s v r, (change s v).1 = .object r → v = .object r)
    (hrun : (Frame.edit (session.catalog.accessor.update (.object r) mapping.property change)).run f =
      (.ok (), g)) : g.Apart session True r :=
  (apart_of_inStep (x := Watch.bare r) (Correspondence.memory.onWorld _ (paired_memory hf))
    (Watch.updateOther (m := { id := "" }) (Watch.sound_outer hi _ True) (paired_forget (.inr ha))
      ⟨rfl, fun _ => .inr ⟨trivial, .inr fun _ => id⟩⟩ (List.mem_singleton_self mapping) hnested
      hobject fun _ => .inr id) hrun).1

/-- An element is read without a look at what is remembered. -/
theorem readElement_passes {id : String} {found : Option Element} (hf : f.request.mappings = [])
    (hparent : f.Has parent) (hnested : mapping.isNestedMap = true)
    (hrun : (readElement session (session.load n) mapping id parent).run f = (.ok found, g)) :
    f.Passes session (parent ≠ .object ·) g ∧ ∀ element, found = some element →
      session.catalog.resultMap id = .ok element.map ∧
      (f.Closed session → ∀ v ∈ element.values, g.Has v) := by
  obtain ⟨child, type, u, values, hchild, -, hensure, hread, rfl⟩ := readElement_steps hrun
  have hensured := update_passes hi hf hparent hnested (fun _ _ _ => ensureContainer_object) hensure
  obtain ⟨hpasses, hvalues, -⟩ :=
    readRow_passes hi hensured.mappings (Catalog.resultMap_id hi hchild ▸ hchild) hread
  refine ⟨⟨hensured.toLeaves.trans (hpasses.mono fun _ _ => trivial),
    hpasses.identity.trans hensured.identity, hpasses.emitted.trans hensured.emitted⟩, ?_⟩
  intro element he
  split at he
  · cases he
    exact ⟨hchild, fun hc => hvalues (hensured.closed hc)⟩
  · cases he

/-- What builds elements by maps from which no grouped map is reachable passes the rest by. -/
theorem gather_passes {mappings : List ResultMapping} (hf : f.request.mappings = [])
    (hparent : f.Has parent)
    (hloner : ∀ mapping ∈ mappings, ∀ id child, mapping.route = .nestedMap id →
      session.catalog.resultMap id = .ok child → child.Loner session.catalog)
    (hrun : (Call.gather session (session.load n) depth mappings parent).run f = (.ok (), g)) :
    f.Passes session (parent ≠ .object ·) g := by
  refine passes_of_inStep hparent.ne_unmade
    (Correspondence.memory.gather hi hloner (paired_memory hf)) (fun r made hfree hp => ?_) hrun
  have hanswers := Watch.answers_forget hi (Watch.whole r) made n
  exact hanswers.nestedElements (m := { id := "" }) (hanswers.build (.inl rfl)) (fun _ => id) hp
    ⟨rfl, fun he => .inl (free_of_ne hfree he)⟩

/-- While the elements of an object are gathered nothing but collections comes to refer to it. -/
theorem gather_self {mappings : List ResultMapping} {r : ObjectRef} (hf : f.request.mappings = [])
    (ha : f.Apart session True r)
    (hloner : ∀ mapping ∈ mappings, ∀ id child, mapping.route = .nestedMap id →
      session.catalog.resultMap id = .ok child → child.Loner session.catalog)
    (hrun : (Call.gather session (session.load n) depth mappings (.object r)).run f = (.ok (), g)) :
    g.Apart session True r := by
  have hanswers := Watch.answers_forget hi (Watch.bare r) True n
  have hbuilds : ((Watch.bare r).onRequest (.outer True) session).Builds
      (Call.builds session (session.load n) depth) (Call.builds session (session.load n) depth) :=
    hanswers.build (.inl rfl)
  have hsome : ∀ mapping ∈ mappings, mapping ∈ mappings := fun _ => id
  have hstep := hanswers.nestedElements (m := { id := "" }) hbuilds hsome
    (paired_forget (.inr ha)) (v := .object r) ⟨rfl, fun _ => .inr ⟨trivial, .inr fun _ => id⟩⟩
  exact (apart_of_inStep (x := Watch.bare r)
    (Correspondence.memory.gather hi hloner (paired_memory hf)) hstep hrun).1

/-- Building by a map from which no grouped map is reachable passes the rest by. -/
theorem build_passes {values : List Value} {out : Option Value} (hf : f.request.mappings = [])
    (hm : m.Loner session.catalog) (hvalues : ∀ v ∈ values, f.Has v)
    (hrun : (ResultMap.build session (session.load n) depth m none values).run f = (.ok out, g)) :
    f.Passes session (fun r => ∀ v ∈ values, v ≠ .object r) g := by
  refine passes_of_inStep (fun r hr v hv => (hvalues v hv).ne_unmade r hr)
    (Correspondence.memory.build hi depth values hm (paired_memory hf)) (fun r made hfree hp => ?_) hrun
  refine ((Watch.answers_forget hi (Watch.whole r) made n).build (.inl rfl) hm.1 hp ?_ trivial).any
  refine List.forall₂_same.2 fun v hv => ⟨rfl, fun he => ?_⟩
  exact hfree.resolve_left fun hne => hne v hv he

end Frame

end Laws

end RowMapper
