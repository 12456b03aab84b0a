/-
Queries around an object that is watched. A request neither reads nor is given a reference to an
object that is remembered, and a request that is nested in another leaves the object to it.
-/
import RowMapper.Proofs.Engine.Loads
import RowMapper.Proofs.Engine.WatchAssembly

namespace RowMapper

namespace Watch

variable {x : Watch} {scope : Scope} {session : Session} {f g : Frame} {m : ResultMap}

/-! ## Steps on the shared state -/

/-- Shared state with the same objects and the same replies. -/
theorem world_inStep {w : World} (hp : (x.onRequest scope session).paired f f)
    (hstore : w.store.objects = f.world.store.objects)
    (hdatabase : w.database.registrations = f.world.database.registrations) :
    (x.onRequest scope session).paired { f with world := w } { f with world := w } ∧
      (x.onRequest scope session).later f { f with world := w } := by
  have hdata : ∀ r, w.store.data r = f.world.store.data r := fun r => by
    unfold Store.data
    rw [hstore]
  have hfree : x.Free scope f → x.Free scope { f with world := w } := by
    rintro ⟨hlt, hheld⟩
    refine ⟨?_, hheld⟩
    show x.ref.index < w.store.objects.size
    rwa [hstore]
  refine ⟨⟨rfl, hp.2.1, hp.2.2.imp hfree fun hg => ⟨?_, hg.loader, ?_, hg.rows, hg.emitted, hg.identity, ?_, ?_⟩⟩,
    ?_, fun _ _ _ => id, hfree, fun _ => ?_⟩
  · intro r
    show _ ∉ (w.store.data r).values
    rw [hdata]
    exact hg.store r
  · show ∀ r ∈ w.database.registrations, _
    rw [hdatabase]
    exact hg.replies
  · intro hh
    show x.ref.index < w.store.objects.size
    rw [hstore]
    exact hg.made hh
  · intro m hs hh
    show (w.store.data x.ref).Fits m x.watched
    rw [hdata]
    exact hg.fits m hs hh
  · show f.world.store.objects.size ≤ w.store.objects.size
    rw [hstore]
  · show (f.world.store.data x.ref).Grows x.watched x.fixed (w.store.data x.ref)
    rw [hdata]
    exact .refl _

theorem execute_inStep (op : Operation) (hp : (x.onRequest scope session).paired f g) :
    (x.onRequest scope session).InStep
      (fun u a b => a = b ∧ (x.onRequest scope session).Fixed u a.cells)
      (Session.execute op) (Session.execute op) f g := by
  obtain rfl := hp.1
  unfold Session.execute
  refine (modify_inStep hp rfl rfl rfl).bind fun u u' _ _ _ hp _ => ?_
  obtain rfl := hp.1
  have hworld := world_inStep (w := { u.world with database := (u.world.database.execute u.world.store
    op).2 }) hp rfl rfl
  refine .inr ⟨hworld.1, hworld.2, ?_⟩
  have ho : Outcomes (fun a b => a = b ∧ (x.onRequest scope session).Fixed
      { u with world := { u.world with database := (u.world.database.execute u.world.store op).2 } }
      a.cells) (u.world.database.execute u.world.store op).1
      (u.world.database.execute u.world.store op).1 := by
    refine .same fun response hr => ⟨rfl, fun v hv => ⟨⟨rfl, ?_⟩, trivial⟩⟩
    rintro rfl
    obtain ⟨r, hmem, -, hcell⟩ := Script.mem_cells_of_execute hr hv
    exact hworld.2.2.2.1 (hp.2.2.resolve_right fun hg => hg.replies r hmem hcell)
  exact ho.mapError Stop.failed

/-! ## The steps of a query -/

section Laws

variable (hx : x.Sound scope session)

include hx

theorem submit (statement : Statement) {v w : Value} (hp : (x.onRequest scope session).paired f g)
    (hvw : (x.onRequest scope session).values f v w) :
    (x.onRequest scope session).InStep
      (fun u a b => a = b ∧ (∀ m, a.1 = some m → (x.onRequest scope session).maps m) ∧
        (x.onRequest scope session).Fixed u a.2.cells)
      (session.submit statement v) (session.submit statement w) f g := by
  obtain rfl := hvw.1
  unfold Session.submit
  refine (Pairing.InStep.ofExcept (R := Pairing.Same) hp fun _ _ => rfl).bind fun s t _ _ _ hp _ => ?_
  refine (Pairing.InStep.ofExcept (R := fun _ a b => a = b ∧ ∀ m, a = some m →
    (x.onRequest scope session).maps m) hp ?_).bind ?_
  · refine fun resultMap hr => ⟨rfl, fun m hm => ?_⟩
    subst hm
    obtain ⟨id, hid⟩ := Catalog.resultMap_of_statement hr
    exact resultMap_registered hx hid
  rintro s t resultMap _ _ hp ⟨rfl, hmaps⟩
  refine (modify_inStep hp rfl rfl rfl).bind fun s t _ _ _ hp _ => ?_
  unfold Session.bindParameter
  refine Pairing.InStep.bind (Q := Pairing.Same) ?_ ?_
  · refine (modify_inStep hp rfl rfl rfl).bind fun s t _ _ _ hp _ => ?_
    exact .read hp (hp.1 ▸ rfl) fun _ _ => rfl
  rintro s t params _ _ hp rfl
  refine (execute_inStep _ hp).bind ?_
  rintro s t response _ _ hp ⟨rfl, hfixed⟩
  exact .pure hp ⟨rfl, hmaps, hfixed⟩

theorem prepareAuto (hp : (x.onRequest scope session).paired f g)
    (hm : session.catalog.resultMap m.id = .ok m) :
    (x.onRequest scope session).InStep Pairing.Any (m.prepareAuto session.catalog)
      (m.prepareAuto session.catalog) f g := by
  obtain rfl := hp.1
  unfold ResultMap.prepareAuto
  split
  · exact .pure hp trivial
  · rename_i home hauto
    refine .gets_bind ?_
    split
    · rename_i hremap
      refine (Pairing.InStep.ofExcept (R := Pairing.Same) hp fun _ _ => rfl).bind ?_
      rintro s t mappings _ _ hp rfl
      obtain rfl := hp.1
      -- the request's own map has mappings, so that the one that is remapped is another
      have hstep := modifyRequest_inStep (fun r => r.setMappings m.id
        (mappings.map ColumnMapping.mapping)) hp (fun rows hr hmem => .inr ⟨rows, hr, hmem⟩) rfl <| by
          intro own hs
          have hid : own.id ≠ m.id := by
            intro hid
            have hown := hx.eq_own hs hm hid.symm
            have hdeclared := (hx.own own hs).declared
            rw [← hown, ResultMap.isAuto, hauto] at hdeclared
            cases hdeclared
          exact Table.get?_put_of_ne hid _ _
      have hrun := run_updateRequest_ok (·.remap m (mappings.map ColumnMapping.mapping)) s
        (if_pos hremap)
      refine .inr ?_
      rw [hrun]
      exact ⟨hstep.1, hstep.2, trivial⟩
    · split
      · refine (Pairing.InStep.ofExcept (R := Pairing.Same) hp fun _ _ => rfl).bind ?_
        rintro s t mappings _ _ hp rfl
        obtain rfl := hp.1
        have hworld := world_inStep (w := { s.world with
          derived := Table.put (home, m.id) mappings s.world.derived }) hp rfl rfl
        exact .inr ⟨hworld.1, hworld.2, trivial⟩
      · exact .pure hp trivial

theorem openRows {rows : RowSet} (hp : (x.onRequest scope session).paired f g)
    (hm : session.catalog.resultMap m.id = .ok m)
    (hfixed : (x.onRequest scope session).Fixed f rows.cells) :
    (x.onRequest scope session).InStep Pairing.Any (session.openRows m rows)
      (session.openRows m rows) f g := by
  obtain rfl := hp.1
  unfold Session.openRows
  refine Pairing.InStep.bind (Q := Pairing.Any) ?_ fun s t _ _ _ hp _ => prepareAuto hx hp hm
  have hstep := modifyRequest_inStep
    (fun r => { r with rows := some rows, phase := .executing }) hp
    (fun rows' hr hmem => by
      cases hr
      exact .inl ((hfixed _ hmem).1.2 rfl)) rfl fun _ _ => rfl
  by_cases hb : f.request.phase = .bound
  · have hrun := run_updateRequest_ok (·.start rows) f (if_pos hb)
    refine .inr ?_
    rw [hrun]
    exact ⟨hstep.1, hstep.2, trivial⟩
  · have hrun := run_updateRequest_error (·.start rows) f (if_neg hb)
    refine .inr ?_
    rw [hrun]
    exact ⟨hp, (x.onRequest scope session).refl f, rfl⟩

omit hx in
/-- An object is added to what a request gave. -/
theorem push_inStep {e : Emitted} (hp : (x.onRequest scope session).paired f f)
    (he : (x.onRequest scope session).objects f e.object e.object) :
    (x.onRequest scope session).paired { f with emitted := f.emitted.push e }
        { f with emitted := f.emitted.push e } ∧
      (x.onRequest scope session).later f { f with emitted := f.emitted.push e } := by
  refine ⟨⟨rfl, hp.2.1, ?_⟩, Nat.le_refl _, fun _ _ _ => id, id, fun _ => .refl _⟩
  by_cases hf : x.Free scope f
  · exact .inl hf
  have hg := hp.2.2.resolve_left hf
  refine .inr ⟨hg.store, hg.loader, hg.replies, hg.rows, ?_, hg.identity, hg.made, hg.fits⟩
  intro held hs e' hmem
  rcases Array.mem_push.1 hmem with hmem | rfl
  · exact hg.emitted held hs e' hmem
  · subst hs
    have hfree := he.2.resolve_left (by rintro ⟨m, hs⟩; cases hs)
    exact fun hv => hf (hfree hv)

omit hx in
theorem emit (receive : Receiver) {v w : Value} (hp : (x.onRequest scope session).paired f g)
    (hvw : (x.onRequest scope session).objects f v w) :
    (x.onRequest scope session).InStep Pairing.Any (Session.emit receive v)
      (Session.emit receive w) f g := by
  obtain rfl := hp.1
  obtain rfl := hvw.1
  obtain ⟨hpaired, hl⟩ := push_inStep (e := ⟨v, f.world.store.content v⟩) hp hvw
  have hpush : (x.onRequest scope session).InStep Pairing.Any
      (Run.modify fun frame : Frame =>
        { frame with emitted := frame.emitted.push ⟨v, frame.world.store.content v⟩ })
      (Run.modify fun frame : Frame =>
        { frame with emitted := frame.emitted.push ⟨v, frame.world.store.content v⟩ }) f f :=
    .inr ⟨hpaired, hl, trivial⟩
  unfold Session.emit
  refine hpush.bind fun s t _ _ _ hp _ => ?_
  exact .read hp (hp.1 ▸ rfl) fun _ _ => trivial

omit hx in
theorem writeOutputs (statement : Statement) (outputs : Option OutParams) {v w : Value}
    (hp : (x.onRequest scope session).paired f g) (hvw : (x.onRequest scope session).values f v w)
    (hout : ∀ out, outputs = some out → (x.onRequest scope session).Fixed f out.values) :
    (x.onRequest scope session).InStep Pairing.Any (session.writeOutputs statement v outputs)
      (session.writeOutputs statement w outputs) f g := by
  unfold Session.writeOutputs
  split
  · rename_i out parameterMap _
    refine (modify_inStep hp rfl rfl rfl).bind fun s t _ _ hl hp _ => ?_
    obtain rfl := hp.1
    have hvw := onStore_values ((x.onRequest scope session).values_later hl hvw)
    obtain rfl := hvw.1
    refine edit_inStep hp (S := Pairing.Any) ?_ fun _ _ _ _ _ => trivial
    refine (x.writes _).writeOutputs parameterMap session.catalog.accessor (onStore_paired hp) hvw ?_
    rintro a (hmem | hplain)
    · exact onStore_values ((hout out rfl).later hl a hmem).1
    · exact ⟨rfl, fun he => absurd he (hplain.ne_object _)⟩
  · exact .pure hp trivial

theorem answers {load : Load} (hreads : (x.onRequest scope session).Reads session load load)
    (hgrow : x.fixed → ∀ m, scope = .own m → ∀ p, x.watched p → m.Flat p) :
    (x.onRequest scope session).Answers session load load where
  toAssembles := assembles hx hreads hgrow
  follows := follows hx
  submit statement hp _ hvw := submit hx statement hp hvw
  openRows hp hm hfixed := openRows hx hp hm hfixed
  nextRow hp := onRows_inStep hp (fun _ _ => RowSet.mem_cells_of_next) fun _ _ _ _ _ _ => rfl
  emit receive hp hvw := emit receive hp hvw
  writeOutputs statement outputs hp hvw hout := writeOutputs statement outputs hp hvw hout

end Laws

/-! ## Nested selects -/

theorem Scope.outer_ne_own {held : Prop} : Scope.outer held ≠ .own m := by
  intro h
  cases h

/-- A request that is nested in another does not make the object. -/
theorem Sound.outer (hx : x.Sound scope session) (held : Prop) : x.Sound (.outer held) session :=
  ⟨fun _ h => absurd h Scope.outer_ne_own, fun _ h => absurd h Scope.outer_ne_own, hx.indexed⟩

theorem Free.inner (h : x.Free scope f) :
    x.Free (.outer (x.Held scope f)) (Correspondence.inner f) := ⟨h.1, h.2⟩

theorem Guarded.inner (h : x.Guarded scope session f) :
    x.Guarded (.outer (x.Held scope f)) session (Correspondence.inner f) where
  store := h.store
  loader := h.loader
  replies := h.replies
  rows _ hr := by cases hr
  emitted _ _ e he := absurd he (Array.not_mem_empty e)
  identity _ _ hi := by cases hi
  made := h.made
  fits _ hs := absurd hs Scope.outer_ne_own

/-- The objects of a nested request are kept in the one around it. -/
theorem leave {s : Frame} (hp : (x.onRequest scope session).paired f f)
    (hl : (x.onRequest (.outer (x.Held scope f)) session).later (Correspondence.inner f) s)
    (hs : (x.onRequest (.outer (x.Held scope f)) session).paired s s) :
    (x.onRequest scope session).paired { f with world := s.world } { f with world := s.world } ∧
      (x.onRequest scope session).later f { f with world := s.world } := by
  obtain ⟨hsize, -, -, hgrows⟩ := hl
  have hfree : x.Free scope f → x.Free scope { f with world := s.world } :=
    fun hf => ⟨Nat.lt_of_lt_of_le hf.1 hsize, hf.2⟩
  refine ⟨⟨rfl, hp.2.1, ?_⟩, hsize, fun _ _ _ => id, hfree, hgrows⟩
  by_cases hf : x.Free scope f
  · exact .inl (hfree hf)
  have hg := hp.2.2.resolve_left hf
  rcases hs.2.2 with hs | hs
  · exact .inl ⟨hs.1, hs.2⟩
  · refine .inr ⟨hs.store, hs.loader, hs.replies, hg.rows, hg.emitted, hg.identity, fun hh => ?_, fun m hm hh => ?_⟩
    · exact Nat.lt_of_lt_of_le (hg.made hh) hsize
    · exact (hg.fits m hm hh).grows (hgrows hh)

theorem nests (hp : (x.onRequest scope session).paired f f) :
    (x.onRequest scope session).Nests (x.onRequest (.outer (x.Held scope f)) session) f f where
  enter := ⟨rfl, fun _ h => absurd h Scope.outer_ne_own, hp.2.2.imp Free.inner Guarded.inner⟩
  parameter h := ⟨h.1, fun hr => (h.2 hr).inner⟩
  leave hl hs := hs.1 ▸ leave hp hl (hs.1 ▸ hs)
  results := by
    rintro s t - hs
    obtain rfl := hs.1
    refine List.forall₂_same.2 fun v hv => ⟨rfl, ?_⟩
    rintro rfl
    obtain ⟨e, he, hobject⟩ := List.mem_map.1 hv
    have hfree := hs.2.2.resolve_right fun hg =>
      hg.emitted _ rfl e (Array.mem_toList_iff.1 he) hobject
    exact ⟨hfree.1, hfree.2⟩
  context h := h.1 ▸ rfl
  loose h := h

theorem defers : (x.onRequest scope session).Defers session where
  list h := by
    have heq := h.imp fun _ _ hv => hv.1
    exact ⟨congrArg Value.list (List.forall₂_eq_eq_eq ▸ heq), nofun⟩
  set := by
    intro f g items items' hp h
    obtain rfl := hp.1
    have heq := h.imp fun _ _ hv => hv.1
    rw [List.forall₂_eq_eq_eq] at heq
    exact ⟨heq ▸ rfl, nofun⟩
  null := ⟨rfl, nofun⟩
  fixed hp h := ⟨rfl, fun he => hp.2.2.resolve_right fun hg => hg.loader _ h he⟩
  call := by
    intro f g v w statement target hp hvw
    obtain rfl := hp.1
    obtain rfl := hvw.1
    have hworld := world_inStep hp
      (w := { f.world with calls := f.world.calls ++ [⟨statement, f.world.store.content v, target⟩] })
      rfl rfl
    exact .inr ⟨hworld.1, hworld.2, trivial⟩
  lazy := by
    intro f g v w statement target hp hvw
    obtain rfl := hp.1
    obtain rfl := hvw.1
    have hworld := world_inStep hp (w := { f.world with
      store := (f.world.store.newLazy
        { session := session.number, statement, parameter := v, target }).2 }) rfl rfl
    exact .inr ⟨hworld.1, hworld.2, rfl, nofun⟩

/-- The result of a nested select is one of a request whose own nested selects are one deeper. -/
theorem loadResult {depth : Nat}
    (h : ∀ held d, depth = d + 1 →
      (x.onRequest (.outer held) session).Answers session (session.load d) (session.load d))
    (id : String) (target : DataType) {v w : Value} (hp : (x.onRequest scope session).paired f g)
    (hvw : (x.onRequest scope session).values f v w) :
    (x.onRequest scope session).InStep (x.onRequest scope session).values
      (Frame.onWorld (session.loadResult (session.load depth) id v target))
      (Frame.onWorld (session.loadResult (session.load depth) id w target)) f g := by
  obtain rfl := hp.1
  refine Correspondence.loadResult defers id target hp hvw ?_
  cases depth with
  | zero => exact .inr ⟨hp, (x.onRequest scope session).refl f, rfl⟩
  | succ d => exact Correspondence.runLoad defers (fun _ _ => trivial) hp (nests hp) (h _ d rfl) target hvw

theorem answers_outer (hx : x.Sound scope session) : ∀ (depth : Nat) (held : Prop),
    (x.onRequest (.outer held) session).Answers session (session.load depth) (session.load depth)
  | 0, held => answers (hx.outer held)
    (reads fun id target =>
      loadResult (fun _ _ hd => Nat.noConfusion hd) id target)
    fun _ _ h => absurd h Scope.outer_ne_own
  | depth + 1, held => answers (hx.outer held)
    (reads fun id target => loadResult (fun held d hd => by
      obtain rfl : depth = d := Nat.succ.inj hd
      exact answers_outer hx depth held) id target)
    fun _ _ h => absurd h Scope.outer_ne_own

/-- Reading a row keeps what is watched, whatever its nested selects do. -/
theorem reads_load (hx : x.Sound scope session) (depth : Nat) :
    (x.onRequest scope session).Reads session (session.load depth) (session.load depth) :=
  reads fun id target => loadResult (fun held d _ => answers_outer hx d held) id target

end Watch

end RowMapper
