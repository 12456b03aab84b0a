/-
Nothing is taken away: whatever a request does, the objects of the store stay. What else it may do
goes from one frame to the next along a relation (`Trail`), so that reading a row, assembling its
objects, and running a query are each followed by as much as they can change.
-/
import RowMapper.Proofs.Access.Object
import RowMapper.Proofs.Access.Writing
import RowMapper.Proofs.Engine.Loads
import RowMapper.Proofs.Engine.Row
import RowMapper.Proofs.Request.Phases

namespace RowMapper

/-! ## Stores -/

/-- A store on its own, which only grows. -/
def Store.growth : StoreCorrespondence where
  paired s t := s = t
  later s t := s.objects.size ≤ t.objects.size
  refl _ := Nat.le_refl _
  trans := Nat.le_trans
  values _ v w := v = w
  owners _ r r' _ := r = r'
  values_later _ := id
  owners_later _ := id

namespace Store.growth

variable {s t : Store}

theorem writes : Store.growth.Writes where
  null := rfl
  variant h := congrArg _ h
  object h := ⟨_, h.symm, fun _ => rfl⟩
  kind h ho := h ▸ ho ▸ rfl
  type h ho := h ▸ ho ▸ rfl
  setterType _ h ho := h ▸ ho ▸ rfl
  getProperty _ h ho := h ▸ ho ▸ .same fun _ _ => rfl
  setProperty := by
    rintro s t r r' step a b rest rfl rfl - rfl
    refine .inr ?_
    cases hset : s.setProperty r (Text.path (step :: rest)) a with
    | error e =>
      rw [run_change_error hset]
      exact ⟨rfl, Nat.le_refl _, rfl⟩
    | ok t =>
      obtain ⟨d, rfl, -⟩ := Store.setProperty_eq_ok hset
      rw [run_change_ok hset]
      exact ⟨rfl, Nat.le_of_eq (Store.size_setData ..).symm, trivial⟩
  newObject := by
    rintro s t data rfl -
    have hsize : s.objects.size ≤ (s.newObject data).2.objects.size := by simp
    exact .inr ⟨rfl, hsize, rfl⟩
  empty _ := rfl

/-- Changes in place leave the number of objects as it is. -/
theorem update (accessor : Accessor) (path : String) (v : Value)
    (f : Store → Value → Value × Except Error Unit) (s : Store) :
    Store.growth.InStep Pairing.Any (accessor.update v path f) (accessor.update v path f) s s := by
  refine writes.update accessor path rfl (fun _ _ _ => writes.roots _ rfl) ?_
  rintro s₁ t₁ r r' step rest - rfl rfl -
  refine .inr ?_
  rcases Accessor.run_updateProperty f r (Text.path (step :: rest)) s₁ with ⟨e, he⟩ | ⟨slot, hs, hdone⟩
  · rw [he]
    exact ⟨rfl, Nat.le_refl _, rfl⟩
  · obtain ⟨d, hfill, -⟩ := Store.fillSlot_eq (v := (f s₁ (s₁.slotValue slot)).1) hs
    rw [hdone, hfill]
    exact ⟨rfl, Nat.le_of_eq (Store.size_setData ..).symm, .same fun _ _ => trivial⟩

theorem fill (exchange : Exchange) (accessor : Accessor) (m : ResultMap) (v : Value)
    (pairs : List (ResultMapping × Value)) (s : Store) :
    Store.growth.InStep Pairing.Any (exchange.fill accessor m v pairs)
      (exchange.fill accessor m v pairs) s s := by
  refine writes.fill exchange accessor m rfl rfl (fun r hr => ⟨r, hr, rfl⟩) ?_
  exact List.forall₂_same.2 fun pair _ => ⟨rfl, rfl, fun _ _ _ _ => writes.roots _ rfl,
    writes.roots _ rfl⟩

theorem setData (exchange : Exchange) (accessor : Accessor) (m : ResultMap)
    (mappings : List ResultMapping) (target : Option Value) (values : List Value) (s : Store) :
    Store.growth.InStep Store.growth.values (exchange.setData accessor m mappings target values)
      (exchange.setData accessor m mappings target values) s s :=
  writes.setData exchange accessor m mappings rfl (optionRel_same fun _ _ => rfl)
    (List.forall₂_same.2 fun v (_ : v ∈ values) => rfl)
    fun h => congrArg Value.record (List.forall₂_eq_eq_eq ▸ h)

theorem size_le {α : Type} {S : Store → α → α → Prop} {edit : Edit α} {s : Store}
    (h : Store.growth.InStep S edit edit s s) : s.objects.size ≤ (edit.run s).2.objects.size :=
  (h.resolve_left fun ⟨_, he, _⟩ => he).2.1

end Store.growth

/-! ## Requests -/

/-- Which frames may come after which, besides that their stores grow. Reading leaves the objects
that a request remembers and gave as they are. -/
structure Trail where
  after : Frame → Frame → Prop
  trans : ∀ {f g h}, after f g → after g h → after f h
  reading : ∀ {f g}, g.request.identity = f.request.identity → g.emitted = f.emitted → after f g

namespace Trail

variable {τ : Trail} {deeper : Prop} {session : Session} {load load' : Load} {f g : Frame} {α : Type}

/-- A request on its own, along a trail. When the second of two runs may go deeper, they are the same
unless the first runs out of its bound. -/
def growth (τ : Trail) (deeper : Prop := False) : Correspondence where
  paired f g := f = g
  loose e := deeper ∧ e = .exhausted
  later f g := f.world.store.objects.size ≤ g.world.store.objects.size ∧ τ.after f g
  refl _ := ⟨Nat.le_refl _, τ.reading rfl rfl⟩
  trans h h' := ⟨Nat.le_trans h.1 h'.1, τ.trans h.2 h'.2⟩
  values _ v w := v = w
  objects _ v w := v = w
  parents _ _ _ v w := v = w
  collections _ _ _ _ := True
  maps _ := True
  loose_exhausted _ h := h.2
  values_later _ := id
  objects_later _ := id
  parents_later _ := id
  collections_later _ := id

/-- A run that only goes on along the trail. -/
theorem inStep {Q : Frame → α → α → Prop} {run : Run Frame α}
    (h : (τ.growth deeper).later f (run.run f).2) (hq : ∀ a, Q (run.run f).2 a a) :
    (τ.growth deeper).InStep Q run run f f := .inr ⟨rfl, h, .same fun a _ => hq a⟩

theorem later {β : Type} {Q : Frame → α → β → Prop} {run : Run Frame α} {run' : Run Frame β}
    {h : Frame} {outcome : Except Stop α} (hstep : τ.growth.InStep Q run run' f g)
    (hrun : run.run f = (outcome, h)) : τ.growth.later f h := by
  have hl := (hstep.resolve_left fun ⟨_, he, _⟩ => he.1).2.1
  rwa [hrun] at hl

theorem edit_inStep {edit : Edit α} {S : Store → α → α → Prop}
    {Q : Frame → α → α → Prop}
    (h : Store.growth.InStep S edit edit f.world.store f.world.store) (hq : ∀ u a, Q u a a) :
    (τ.growth deeper).InStep Q (Frame.edit edit) (Frame.edit edit) f f :=
  inStep ⟨Store.growth.size_le h, τ.reading rfl rfl⟩ (hq _)

theorem onRows_inStep {read : RowSet → Except Error α × RowSet} {Q : Frame → α → α → Prop}
    (hq : ∀ u a, Q u a a) :
    (τ.growth deeper).InStep Q (Frame.onRows read) (Frame.onRows read) f f := by
  refine inStep ?_ (hq _)
  cases hr : f.request.rowSetToRead with
  | error e => rw [run_onRows_error hr]; exact (τ.growth deeper).refl f
  | ok rows => rw [run_onRows_ok hr]; exact ⟨Nat.le_refl _, τ.reading rfl rfl⟩

theorem reads (hload : ∀ {f : Frame} {v : Value} (id : String) (target : DataType),
      (τ.growth deeper).InStep (τ.growth deeper).values (Frame.onWorld (session.loadResult load id v target))
        (Frame.onWorld (session.loadResult load' id v target)) f f) :
    (τ.growth deeper).Reads session load load' where
  isNull h := congrArg _ h
  null := rfl
  literal _ := rfl
  text h hv := h ▸ hv ▸ rfl
  mappings h _ := h ▸ rfl
  context _ h := h ▸ inStep ⟨Nat.le_refl _, τ.reading rfl rfl⟩ fun _ => trivial
  found _ h := h ▸ inStep ⟨Nat.le_refl _, τ.reading rfl rfl⟩ fun _ => trivial
  column _ _ h := h ▸ onRows_inStep fun _ _ => rfl
  instantiate type h := h ▸ edit_inStep (Store.growth.writes.instantiate type rfl) fun _ _ => rfl
  document _ h := h ▸ edit_inStep (Store.growth.writes.newObject _ rfl nofun) fun _ _ => rfl
  setterType _ h hv := h ▸ hv ▸ rfl
  set path h hv hab := h ▸ hv ▸ hab ▸
    edit_inStep (Store.growth.writes.set _ path rfl (fun _ _ _ => Store.growth.writes.roots _ rfl) rfl)
      fun _ _ => trivial
  load statement target h _ hv := h ▸ hv ▸ hload statement.id target

/-- Filling a target goes along a trail that remembering goes along. -/
theorem fills (hremember : ∀ (f : Frame) (r : Request), τ.after f { f with request := r })
    (target : Option Value) (f : Frame) : (τ.growth deeper).Fills session target f := by
  rintro u _ m values values' key - rfl - - hv -
  obtain rfl : values = values' := List.forall₂_eq_eq_eq ▸ hv
  have hset := Store.growth.setData m.exchange session.catalog.accessor m (u.mappings m) target values
    u.world.store
  unfold ResultMap.buildNew
  refine (edit_inStep (Q := Pairing.Same) hset fun _ _ => rfl).bind ?_
  rintro s t v _ - rfl rfl
  have hstep : (τ.growth deeper).InStep Pairing.Any (Frame.remember m.id key v)
      (Frame.remember m.id key v) s s := by
    cases key with
    | none => exact .pure rfl trivial
    | some key => exact inStep ⟨Nat.le_refl _, hremember _ _⟩ fun _ => trivial
  exact hstep.bind fun u u' _ _ _ hp _ => .pure hp ⟨rfl, rfl⟩

theorem assembles (hreads : (τ.growth deeper).Reads session load load')
    (hremember : ∀ (f : Frame) (r : Request), τ.after f { f with request := r }) :
    (τ.growth deeper).Assembles session load load' where
  toScans := hreads.scans
  nestedMap _ _ _ _ := trivial
  isAssembling h _ _ _ _ := h ▸ rfl
  known := by
    rintro f g m values key rfl - - - -
    exact optionRel_same fun _ _ => rfl
  buildNew key hp hm hnone hv hid := fills hremember none _ key ((τ.growth deeper).refl _) hp hm hnone hv hid
  collectionType := by
    rintro f g m mappings v w mapping rfl rfl - -
    unfold ResultMapping.collectionType
    split
    · exact .pure rfl ⟨rfl, trivial⟩
    · exact .read rfl rfl fun _ _ => ⟨rfl, trivial⟩
  ensure h hv _ _ _ := h ▸ hv ▸ edit_inStep (Store.growth.update ..) fun _ _ => trivial
  add h hv _ _ _ hab := h ▸ hv ▸ hab ▸ edit_inStep (Store.growth.update ..) fun _ _ => trivial
  mark := by
    rintro f g m key rfl - -
    refine ⟨rfl, ?_⟩
    cases key with
    | none => exact (τ.growth deeper).refl f
    | some key => exact ⟨Nat.le_refl _, hremember _ _⟩
  unmark := by
    rintro f g m key rfl - -
    refine ⟨rfl, ?_⟩
    cases key with
    | none => exact (τ.growth deeper).refl f
    | some key => exact ⟨Nat.le_refl _, hremember _ _⟩

end Trail

/-! ## Queries -/

/-- The objects, and what the request remembers and gave, are the same. -/
structure Frame.Quiet (f g : Frame) : Prop where
  store : g.world.store = f.world.store
  identity : g.request.identity = f.request.identity
  emitted : g.emitted = f.emitted

instance : Std.Refl Frame.Quiet := ⟨fun _ => ⟨rfl, rfl, rfl⟩⟩

instance : IsTrans Frame Frame.Quiet :=
  ⟨fun _ _ _ h h' => ⟨h'.store.trans h.store, h'.identity.trans h.identity, h'.emitted.trans h.emitted⟩⟩

/-- Nothing is changed but what the database logs, and what the request is asked for. -/
structure Frame.Asked (f g : Frame) : Prop extends Frame.Quiet f g where
  registrations : g.world.database.registrations = f.world.database.registrations
  derived : g.world.derived = f.world.derived
  mappings : g.request.mappings = f.request.mappings
  rows : g.request.rows = f.request.rows

instance : Std.Refl Frame.Asked := ⟨fun _ => ⟨⟨rfl, rfl, rfl⟩, rfl, rfl, rfl, rfl⟩⟩

instance : IsTrans Frame Frame.Asked :=
  ⟨fun _ _ _ h h' => ⟨IsTrans.trans _ _ _ h.toQuiet h'.toQuiet, h'.registrations.trans h.registrations,
    h'.derived.trans h.derived, h'.mappings.trans h.mappings, h'.rows.trans h.rows⟩⟩

/-- A statement is submitted for a map of the catalog, and its response holds nothing but what the
replies to its text hold. -/
theorem Session.submit_keeps (session : Session) (statement : Statement) (parameter : Value)
    (registrations : List Registration) :
    Keeps (fun f : Frame => f.world.database.registrations = registrations) Frame.Asked
      (Stop.Allowed True)
      (fun a => session.catalog.statementResultMap statement = .ok a.1 ∧
        ∀ v ∈ a.2.cells, ∃ r ∈ registrations, r.sql = Text.squeeze statement.sql ∧ v ∈ r.reply.cells)
      (session.submit statement parameter) := by
  have hmodify : ∀ change : Request → Request, (∀ r, (change r).identity = r.identity) →
      (∀ r, (change r).mappings = r.mappings) → (∀ r, (change r).rows = r.rows) →
      Keeps (fun f : Frame => f.world.database.registrations = registrations) Frame.Asked
        (Stop.Allowed True) Always (Frame.modifyRequest change) := fun change hi hm hr =>
    .modify fun f hf => ⟨hf, ⟨rfl, hi _, rfl⟩, rfl, rfl, hm _, hr _⟩
  unfold Session.submit Session.bindParameter Session.execute
  refine Keeps.bind (Q := Always) (.ofExcept fun _ _ => trivial) fun _ _ => ?_
  refine Keeps.bind (Keeps.ofExcept fun _ h => h) fun resultMap hmap => ?_
  refine Keeps.bind (hmodify _ (fun _ => rfl) (fun _ => rfl) fun _ => rfl) fun _ _ => ?_
  refine Keeps.bind (Q := Always) (Keeps.bind (hmodify _ (fun _ => rfl) (fun _ => rfl) fun _ => rfl)
    fun _ _ => .read fun _ _ _ _ => trivial) fun params _ => ?_
  refine Keeps.bind (Keeps.bind (hmodify _ (fun _ => rfl) (fun _ => rfl) fun _ => rfl) fun _ _ => ?_)
    fun response hresponse => Keeps.pure ⟨hmap, hresponse⟩
  intro f hf
  refine ⟨hf, ⟨⟨rfl, rfl, rfl⟩, rfl, rfl, rfl, rfl⟩, .mapError fun response hr v hv => ?_⟩
  obtain ⟨r, hmem, hsql, hcell⟩ := Script.mem_cells_of_execute hr hv
  refine ⟨r, hf ▸ hmem, hsql.trans (congrArg Text.squeeze ?_), hcell⟩
  cases statement.kind <;> rfl

/-- A run that makes no objects, and remembers and gives none. -/
abbrev IsQuiet {α : Type} (run : Run Frame α) : Prop :=
  Keeps (fun _ => True) Frame.Quiet (Stop.Allowed True) Always run

namespace IsQuiet

variable {α β : Type} {f g : Frame}

theorem quiet {run : Run Frame α} {outcome : Except Stop α} (h : IsQuiet run)
    (hrun : run.run f = (outcome, g)) : f.Quiet g := by
  have hq := (h f trivial).2.1
  rwa [hrun] at hq

theorem bind {run : Run Frame α} {k : α → Run Frame β} (h : IsQuiet run) (hk : ∀ a, IsQuiet (k a)) :
    IsQuiet (run >>= k) := Keeps.bind h fun a _ => hk a

theorem updateRequest {change : Request → Except Error Request}
    (h : ∀ r r', change r = .ok r' → r'.identity = r.identity) : IsQuiet (Frame.updateRequest change) := by
  intro frame _
  cases hr : change frame.request with
  | ok r => rw [run_updateRequest_ok _ _ hr]; exact ⟨trivial, ⟨rfl, h _ _ hr, rfl⟩, trivial⟩
  | error e => rw [run_updateRequest_error _ _ hr]; exact ⟨trivial, Std.Refl.refl _, trivial⟩

theorem onRows (read : RowSet → Except Error α × RowSet) : IsQuiet (Frame.onRows read) := by
  intro f _
  cases hr : f.request.rowSetToRead with
  | error e => rw [run_onRows_error hr]; exact ⟨trivial, Std.Refl.refl f, trivial⟩
  | ok rows => rw [run_onRows_ok hr]; exact ⟨trivial, ⟨rfl, rfl, rfl⟩, .mapError fun _ _ => trivial⟩

theorem nextRow : IsQuiet Frame.nextRow := onRows _

theorem submit (session : Session) (statement : Statement) (parameter : Value) :
    IsQuiet (session.submit statement parameter) := by
  intro f _
  obtain ⟨-, hasked, -⟩ := session.submit_keeps statement parameter f.world.database.registrations f rfl
  exact ⟨trivial, hasked.toQuiet, .allowed _⟩

theorem openRows (session : Session) (m : ResultMap) (rows : RowSet) :
    IsQuiet (session.openRows m rows) := by
  unfold Session.openRows ResultMap.prepareAuto
  refine bind (updateRequest fun r r' h => ?_) fun _ => ?_
  · obtain ⟨-, rfl⟩ := Request.start_eq_ok h
    rfl
  · split
    · exact .pure trivial
    · refine bind (.gets fun _ _ => trivial) fun frame => ?_
      split
      · refine bind (.ofExcept fun _ _ => trivial) fun mappings => updateRequest fun r r' h => ?_
        rw [Request.remap_eq_ok h]
        rfl
      · split
        · refine bind (.ofExcept fun _ _ => trivial) fun mappings => ?_
          exact fun f _ => ⟨trivial, ⟨rfl, rfl, rfl⟩, trivial⟩
        · exact .pure trivial

end IsQuiet

namespace Trail

variable {τ : Trail} {deeper : Prop} {session : Session} {load load' : Load} {f g : Frame} {α : Type}

theorem later_of_quiet (h : f.Quiet g) : (τ.growth deeper).later f g :=
  ⟨Nat.le_of_eq (by rw [h.store]), τ.reading h.identity h.emitted⟩

theorem writeOutputs (statement : Statement) (parameter : Value) (outputs : Option OutParams)
    (f : Frame) :
    (τ.growth deeper).InStep Pairing.Any (session.writeOutputs statement parameter outputs)
      (session.writeOutputs statement parameter outputs) f f := by
  unfold Session.writeOutputs
  split
  · refine (inStep ⟨Nat.le_refl _, τ.reading rfl rfl⟩ fun _ => trivial).bind (Q := Pairing.Any) ?_
    rintro s t _ _ - rfl -
    refine edit_inStep (S := Pairing.Any) ?_ fun _ _ => trivial
    exact Store.growth.writes.writeOutputs _ _ rfl rfl fun _ _ => rfl
  · exact .pure rfl trivial

/-- The trail that asks nothing. -/
def any : Trail where
  after _ _ := True
  trans _ _ := trivial
  reading _ _ := trivial

theorem answers (hreads : (any.growth deeper).Reads session load load') :
    (any.growth deeper).Answers session load load' where
  toAssembles := assembles hreads fun _ _ => trivial
  follows _ _ _ _ := trivial
  submit := by
    rintro f g v w statement rfl - rfl
    exact inStep (later_of_quiet (IsQuiet.submit session statement v f trivial).2.1)
      fun a => ⟨rfl, fun _ _ => trivial, fun _ _ => ⟨rfl, trivial⟩⟩
  openRows := by
    rintro f g m rows rfl - -
    exact inStep (later_of_quiet (IsQuiet.openRows session m rows f trivial).2.1) fun _ => trivial
  nextRow h := h ▸ onRows_inStep fun _ _ => rfl
  emit := by
    rintro f g v w receive rfl rfl
    exact inStep ⟨Nat.le_refl _, trivial⟩ fun _ => trivial
  writeOutputs := by
    rintro f g v w statement outputs rfl rfl -
    exact writeOutputs statement v outputs f

/-! ## Nested selects -/

theorem nests (f : Frame) : (τ.growth deeper).Nests (any.growth deeper) f f where
  enter := rfl
  parameter h := h
  leave := by
    rintro s t ⟨hsize, -⟩ rfl
    exact ⟨rfl, hsize, τ.reading rfl rfl⟩
  results := by
    rintro s t - rfl
    exact List.forall₂_same.2 fun _ _ => rfl
  context h := h ▸ rfl
  loose h := h

theorem defers : (τ.growth deeper).Defers session where
  list h := congrArg Value.list (List.forall₂_eq_eq_eq ▸ h)
  set := by
    rintro f g items items' rfl h
    obtain rfl : items = items' := List.forall₂_eq_eq_eq ▸ h
    rfl
  null := rfl
  fixed _ _ := rfl
  call := by
    rintro f g v w statement target rfl rfl
    exact inStep ⟨Nat.le_refl _, τ.reading rfl rfl⟩ fun _ => trivial
  lazy := by
    rintro f g v w statement target rfl rfl
    exact inStep ⟨Nat.le_refl _, τ.reading rfl rfl⟩ fun _ => rfl

/-- The result of a nested select is one of a request whose own nested selects are one deeper. -/
theorem loadResult_inStep {depth depth' : Nat} (hd : (any.growth deeper).Depths depth depth')
    (h : ∀ d d', depth = d + 1 → (any.growth deeper).Depths d d' →
      (any.growth deeper).Answers session (session.load d) (session.load d'))
    (v : Value) (id : String) (target : DataType) (f : Frame) :
    (τ.growth deeper).InStep (τ.growth deeper).values
      (Frame.onWorld (session.loadResult (session.load depth) id v target))
      (Frame.onWorld (session.loadResult (session.load depth') id v target)) f f := by
  refine Correspondence.loadResult defers id target rfl rfl ?_
  cases depth with
  | zero =>
    rcases hd with rfl | ⟨hloose, -⟩
    · exact inStep ⟨Nat.le_refl _, τ.reading rfl rfl⟩ fun _ => rfl
    · exact .inl ⟨_, hloose, rfl⟩
  | succ d =>
    obtain ⟨d', rfl, hd'⟩ := Correspondence.Depths.of_succ hd
    exact Correspondence.runLoad defers (fun _ _ => trivial) rfl (nests f) (h d d' rfl hd') target rfl

theorem answers_load (session : Session) : ∀ {depth depth' : Nat},
    (any.growth deeper).Depths depth depth' →
    (any.growth deeper).Answers session (session.load depth) (session.load depth')
  | 0, _, hd => answers <| reads fun id target =>
    loadResult_inStep hd (fun _ _ hd => Nat.noConfusion hd) _ id target _
  | depth + 1, _, hd => answers <| reads fun id target =>
    loadResult_inStep hd (fun d d' hd hdepths => by
      obtain rfl : depth = d := Nat.succ.inj hd
      exact answers_load session hdepths) _ id target _

/-- Reading a row goes along any trail, whatever its nested selects do. -/
theorem reads_load (session : Session) (depth : Nat) :
    τ.growth.Reads session (session.load depth) (session.load depth) :=
  reads fun id target =>
    loadResult_inStep (.inl rfl) (fun _ _ _ hd => answers_load session hd) _ id target _

/-- A run that gives a value gives it also when it may go deeper. -/
theorem eq_deeper {run run' : Run Frame α} {a : α}
    (hstep : (any.growth True).InStep Pairing.Same run run' f f) (h : run.run f = (.ok a, g)) :
    run'.run f = (.ok a, g) := by
  obtain ⟨b, t, hrun, hg, -, hb⟩ := hstep.ok h
  rw [hrun, ← hg, ← hb]

/-- The trail on which nothing is remembered or given. -/
def still : Trail where
  after f g := g.request.identity = f.request.identity ∧ g.emitted = f.emitted
  trans h h' := ⟨h'.1.trans h.1, h'.2.trans h.2⟩
  reading h h' := ⟨h, h'⟩

/-- Reading a row remembers and gives nothing. -/
theorem scans_still (session : Session) (depth : Nat) :
    still.growth.Scans session (session.load depth) (session.load depth) :=
  (reads_load session depth : Correspondence.Reads _ _ _ _).scans

/-- The trail on which nothing is given. -/
def silent : Trail where
  after f g := g.emitted = f.emitted
  trans h h' := h'.trans h
  reading _ h := h

/-- Building gives nothing to the receiver. -/
theorem emitted_build {depth bound : Nat} {m : ResultMap} {target : Option Value} {values : List Value}
    {outcome : Except Stop (Option Value)}
    (h : (ResultMap.build session (session.load depth) bound m target values).run f = (outcome, g)) :
    g.emitted = f.emitted := by
  have hreads : silent.growth.Reads session (session.load depth) (session.load depth) :=
    reads_load session depth
  have hstep : silent.growth.InStep (fun u => Option.Rel (silent.growth.objects u))
      (ResultMap.build session (session.load depth) bound m target values)
      (ResultMap.build session (session.load depth) bound m target values) f f :=
    (assembles hreads fun _ _ => rfl).buildInto bound (fills (fun _ _ => rfl) target f) trivial rfl
      (List.forall₂_same.2 fun v _ => rfl) trivial
  exact (later hstep h).2

end Trail

end RowMapper
