/-
What single changes of the store keep, whole requests keep. The engine changes objects in few ways, all
of them with the accessor of its catalog (`Catalog.Upholds`): it makes objects, writes properties, moves
the values of rows into objects, changes the collections of nested elements in place, and puts queries
off. A property of the store that each of these keeps is kept by every query, update and reading of a
lazy value, however deep the nested maps and selects go and however the run ends. None of these looks at
the catalogs of other sessions on its way (`Frame.Blind`).
-/
import RowMapper.Proofs.Engine.Collections
import RowMapper.Proofs.Access.Filling
import RowMapper.Proofs.Catalog.Nesting
import RowMapper.Proofs.Engine.Growth
import RowMapper.Proofs.Engine.Mappings
import RowMapper.Proofs.References.Runs
import RowMapper.Proofs.Request.Phases

namespace RowMapper

/-- A property of stores that is kept by all that the engine does to a store with a catalog. -/
structure Catalog.Upholds (c : Catalog) (I : Store → Prop) : Prop where
  lazies : ∀ {s : Store} (lazies : Array LazyCell), I s → I { s with lazies }
  instantiate : ∀ {s : Store} (type : DataType), I s → I ((Edit.make type.instantiate).run s).2
  document : ∀ {s : Store} (node : DomNode), I s → I ((Edit.newObject (.dom node)).run s).2
  set : ∀ {s : Store} (v : Value) (path : String) (a : Value), I s →
    I ((c.accessor.set v path a).run s).2
  exchange : ∀ {s : Store} (m : ResultMap) (mappings : List ResultMapping) (target : Option Value)
    (values : List Value), I s → I ((m.exchange.setData c.accessor m mappings target values).run s).2
  gather : ∀ {s : Store} {m : ResultMap} {mapping : ResultMapping}
    {change : Store → Value → Value × Except Error Unit} (parent : Value), c.Holds m →
    mapping ∈ m.declared → mapping.isNestedMap = true → (∀ s w, Value.Extends w (change s w).1) →
    I s → I ((c.accessor.update parent mapping.property change).run s).2
  outputs : ∀ {s : Store} (parameterMap : ParameterMap) (v : Value) (out : OutParams), I s →
    I ((parameterMap.writeOutputs c.accessor v out).run s).2

/-- A frame whose store has a property, and in whose request no mappings but those of columns are
installed. -/
structure Frame.Sound (f : Frame) (I : Store → Prop) : Prop where
  store : I f.world.store
  columns : ∀ id mappings, Table.get? id f.request.mappings = some mappings →
    ∀ mapping ∈ mappings, mapping.route = .column

/-! ## Other catalogs -/

/-- The state with other catalogs of its sessions. -/
def World.withCatalogs (w : World) (cs : List Catalog) : World := { w with catalogs := cs }

def Frame.withCatalogs (f : Frame) (cs : List Catalog) : Frame :=
  { f with world := f.world.withCatalogs cs }

/-- A run that does not look at the catalogs of the sessions. -/
def Frame.Blind {α : Type} (run : Run Frame α) : Prop :=
  ∀ f cs, run.run (f.withCatalogs cs) = ((run.run f).1, (run.run f).2.withCatalogs cs)

namespace Frame.Blind

variable {α β : Type}

theorem pure {a : α} : Blind (pure a : Run Frame α) := fun _ _ => rfl

theorem ofExcept (outcome : Except Error α) : Blind (Run.ofExcept outcome) := fun _ _ => rfl

theorem modifyRequest (change : Request → Request) : Blind (Frame.modifyRequest change) := fun _ _ => rfl

theorem bind {run : Run Frame α} {k : α → Run Frame β} (h : Blind run) (hk : ∀ a, Blind (k a)) :
    Blind (run >>= k) := by
  intro f cs
  have hrun := h f cs
  rcases hf : run.run f with ⟨e | a, g⟩ <;> rw [hf] at hrun
  · rw [run_bind_error hf, run_bind_error hrun]
  · rw [run_bind_ok hf, run_bind_ok hrun]
    exact hk a g cs

theorem updateRequest (change : Request → Except Error Request) :
    Blind (Frame.updateRequest change) := by
  intro f cs
  cases hr : change f.request with
  | error e =>
    rw [run_updateRequest_error change f hr, run_updateRequest_error change (f.withCatalogs cs) hr]
  | ok r =>
    rw [run_updateRequest_ok change f hr, run_updateRequest_ok change (f.withCatalogs cs) hr]
    rfl

theorem onRows (read : RowSet → Except Error α × RowSet) : Blind (Frame.onRows read) := by
  intro f cs
  cases hr : f.request.rowSetToRead with
  | error e =>
    have hr' : (f.withCatalogs cs).request.rowSetToRead = .error e := hr
    rw [run_onRows_error hr, run_onRows_error hr']
  | ok rows =>
    have hr' : (f.withCatalogs cs).request.rowSetToRead = .ok rows := hr
    rw [run_onRows_ok hr, run_onRows_ok hr']
    rfl

theorem submit (session : Session) (statement : Statement) (parameter : Value) :
    Blind (session.submit statement parameter) := by
  unfold Session.submit Session.bindParameter Session.execute
  refine bind (ofExcept _) fun _ => bind (ofExcept _) fun resultMap => bind (modifyRequest _) fun _ => ?_
  refine bind (bind (modifyRequest _) fun _ _ _ => rfl) fun params => ?_
  exact bind (bind (modifyRequest _) fun _ _ _ => rfl) fun response => pure

theorem openRows (session : Session) (m : ResultMap) (rows : RowSet) :
    Blind (session.openRows m rows) := by
  unfold Session.openRows ResultMap.prepareAuto
  refine bind (updateRequest _) fun _ => ?_
  split
  · exact pure
  · intro f cs
    rw [run_gets_bind, run_gets_bind]
    -- the whole frame is read, but what is done with it is up to its request and the derived mappings
    refine (show Blind _ from ?_) f cs
    split
    · exact bind (ofExcept _) fun _ => updateRequest _
    · split
      · exact bind (ofExcept _) fun _ _ _ => rfl
      · exact pure

end Frame.Blind

/-! ## Requests -/

/-- A request, and the same request in a state with other catalogs, with a property of its store that it
never loses. -/
def Session.upkeep (session : Session) (I : Store → Prop) (cs : List Catalog) : Correspondence where
  paired f g := g = f.withCatalogs cs ∧ f.Sound I
  later f g := f.Sound I → g.Sound I
  refl _ := id
  trans h h' hf := h' (h hf)
  values _ v w := v = w
  objects _ v w := v = w
  parents _ _ mappings v w := v = w ∧ ∀ mapping ∈ mappings, mapping.isNestedMap = true →
    ∃ m, session.catalog.Holds m ∧ mapping ∈ m.declared
  collections _ _ _ _ := True
  maps := session.catalog.Holds
  values_later _ := id
  objects_later _ := id
  parents_later _ := id
  collections_later _ := id

/-- A run of a request keeps a property of the store, and does the same in a state with other catalogs. -/
abbrev Session.Upkeeps {α : Type} (session : Session) (I : Store → Prop) (cs : List Catalog)
    (Q : Frame → α → α → Prop) (run : Run Frame α) (f : Frame) : Prop :=
  (session.upkeep I cs).InStep Q run run f (f.withCatalogs cs)

namespace Session.upkeep

variable {α : Type} {session : Session} {I : Store → Prop} {cs : List Catalog} {load : Load}
  {f g : Frame} {m : ResultMap}

/-! ## Steps -/

theorem step {run : Run Frame α} (hblind : Frame.Blind run) (h : (run.run f).2.Sound I) :
    session.Upkeeps I cs Pairing.Same run f := by
  unfold Session.Upkeeps Pairing.InStep
  rw [hblind f cs]
  exact .inr ⟨⟨rfl, h⟩, fun _ => h, .same fun _ _ => rfl⟩

theorem gets_bind {β : Type} {Q : Frame → α → α → Prop} {read : Frame → β} {k : β → Run Frame α}
    (hread : read (f.withCatalogs cs) = read f)
    (h : session.Upkeeps I cs Q (k (read f)) f) :
    session.Upkeeps I cs Q (Run.gets read >>= k) f :=
  .gets_bind (hread ▸ h)

theorem edit {edit : Edit α} (hf : f.Sound I) (h : I (edit.run f.world.store).2) :
    session.Upkeeps I cs Pairing.Same (Frame.edit edit) f :=
  step (fun _ _ => rfl) ⟨h, hf.columns⟩

theorem modify {change : Request → Request} (hf : f.Sound I)
    (h : (change f.request).mappings = f.request.mappings) :
    session.Upkeeps I cs Pairing.Same (Frame.modifyRequest change) f :=
  step (.modifyRequest change) ⟨hf.store, fun id mappings => h ▸ hf.columns id mappings⟩

theorem onRows {read : RowSet → Except Error α × RowSet} (hf : f.Sound I) :
    session.Upkeeps I cs Pairing.Same (Frame.onRows read) f := by
  refine step (.onRows read) ?_
  cases hr : f.request.rowSetToRead with
  | error e =>
    rw [run_onRows_error hr]
    exact hf
  | ok rows =>
    rw [run_onRows_ok hr]
    exact ⟨hf.store, hf.columns⟩

/-! ## Rows -/

theorem reads (hc : session.catalog.Upholds I)
    (hload : ∀ {f : Frame} (id : String) (v : Value) (target : DataType), f.Sound I →
      session.Upkeeps I cs Pairing.Same (Frame.onWorld (session.loadResult load id v target)) f) :
    (session.upkeep I cs).Reads session load load where
  isNull h := congrArg _ h
  null := rfl
  literal _ := rfl
  text h hv := h.1 ▸ hv ▸ rfl
  mappings h _ := h.1 ▸ rfl
  context _ h := h.1 ▸ (modify h.2 rfl).any
  found _ h := h.1 ▸ (modify h.2 rfl).any
  column _ _ h := h.1 ▸ onRows h.2
  instantiate type h := h.1 ▸ edit h.2 (hc.instantiate type h.2.store)
  document node h := h.1 ▸ edit h.2 (hc.document node h.2.store)
  setterType _ h hv := h.1 ▸ hv ▸ rfl
  set path h hv hab := h.1 ▸ hv ▸ hab ▸ (edit h.2 (hc.set _ path _ h.2.store)).any
  load statement target h _ hv := h.1 ▸ hv ▸ hload statement.id _ target h.2

/-- The mappings that a map of the catalog is read with are declared where they nest maps. -/
theorem parents (hm : session.catalog.Holds m) (hf : f.Sound I) (v : Value) :
    (session.upkeep I cs).parents g m (f.mappings m) v v := by
  refine ⟨rfl, fun mapping hmem hnested => ⟨m, hm, ?_⟩⟩
  refine mem_declared_of_route (hf.columns m.id) hmem fun hroute => ?_
  unfold ResultMapping.isNestedMap at hnested
  rw [hroute] at hnested
  cases hnested

theorem buildNew (hc : session.catalog.Upholds I) (hf : f.Sound I) (mappings : List ResultMapping)
    (target : Option Value) (values : List Value) (key : Option String) :
    session.Upkeeps I cs Pairing.Same (m.buildNew session mappings target values key) f := by
  unfold ResultMap.buildNew
  refine (edit hf (hc.exchange m mappings target values hf.store)).bind ?_
  rintro s t v _ - ⟨rfl, hs⟩ rfl
  have hstep : session.Upkeeps I cs Pairing.Any (Frame.remember m.id key v) s := by
    cases key with
    | none => exact .pure ⟨rfl, hs⟩ trivial
    | some key => exact (modify hs rfl).any
  exact hstep.bind fun u u' _ _ _ hp _ => .pure hp rfl

theorem assembles (hc : session.catalog.Upholds I)
    (hreads : (session.upkeep I cs).Reads session load load) :
    (session.upkeep I cs).Assembles session load load where
  toScans := hreads.scans
  nestedMap {_ _ _ _ _ _ id _} _ _ _ hchild := ⟨id, hchild⟩
  isAssembling h _ _ _ _ := h.1 ▸ rfl
  known := by
    rintro f _ m values key ⟨rfl, hf⟩ hm - - -
    exact optionRel_same fun v _ => parents hm hf v
  buildNew := by
    rintro f _ m values values' key ⟨rfl, hf⟩ hm - hv -
    obtain rfl : values = values' := List.forall₂_eq_eq_eq ▸ hv
    refine (buildNew hc hf _ none values key).imp ?_
    rintro u v _ - rfl
    exact ⟨rfl, parents hm hf v⟩
  collectionType := by
    rintro f _ m mappings v _ mapping hp ⟨rfl, -⟩ - -
    unfold ResultMapping.collectionType
    split
    · exact .pure hp ⟨rfl, trivial⟩
    · exact .read hp (hp.1 ▸ rfl) fun _ _ => ⟨rfl, trivial⟩
  ensure := by
    rintro f _ m mappings v _ type mapping ⟨rfl, hf⟩ ⟨rfl, hdeclared⟩ hmem hnested -
    obtain ⟨home, hhome, hmem⟩ := hdeclared mapping hmem hnested
    exact (edit hf (hc.gather v hhome hmem hnested ensureContainer_extends hf.store)).any
  add := by
    rintro f _ m mappings v _ type a _ mapping ⟨rfl, hf⟩ ⟨rfl, hdeclared⟩ hmem hnested - rfl
    obtain ⟨home, hhome, hmem⟩ := hdeclared mapping hmem hnested
    exact (edit hf (hc.gather v hhome hmem hnested (addElement_extends a) hf.store)).any
  mark := by
    rintro f _ m key ⟨rfl, hf⟩ - -
    cases key <;> exact ⟨⟨rfl, hf.store, hf.columns⟩, fun hs => ⟨hs.store, hs.columns⟩⟩
  unmark := by
    rintro f _ m key ⟨rfl, hf⟩ - -
    cases key <;> exact ⟨⟨rfl, hf.store, hf.columns⟩, fun hs => ⟨hs.store, hs.columns⟩⟩

/-! ## Statements -/

theorem submit (statement : Statement) (parameter : Value) (hf : f.Sound I) :
    session.Upkeeps I cs
      (fun u a b => a = b ∧ (∀ m, a.1 = some m → session.catalog.Holds m) ∧
        (session.upkeep I cs).Fixed u a.2.cells)
      (session.submit statement parameter) f := by
  obtain ⟨-, hasked, ho⟩ :=
    session.submit_keeps statement parameter f.world.database.registrations f rfl
  have hsound : ((session.submit statement parameter).run f).2.Sound I :=
    ⟨hasked.store ▸ hf.store, hasked.mappings ▸ hf.columns⟩
  unfold Session.Upkeeps Pairing.InStep
  rw [Frame.Blind.submit session statement parameter f cs]
  refine .inr ⟨⟨rfl, hsound⟩, fun _ => hsound, .same fun sent hsent => ?_⟩
  refine ⟨rfl, fun m hm => ?_, fun _ _ => ⟨rfl, trivial⟩⟩
  rw [hsent] at ho
  exact Catalog.resultMap_of_statement (hm ▸ ho.1)

theorem keeps_updateRequest {change : Request → Except Error Request}
    (h : ∀ f : Frame, f.Sound I → ∀ r, change f.request = .ok r →
      ({ f with request := r } : Frame).Sound I) :
    Keeps (Frame.Sound · I) Anyhow (Stop.Allowed True) Always (Frame.updateRequest change) := by
  intro f hf
  cases hr : change f.request with
  | error e =>
    rw [run_updateRequest_error change f hr]
    exact ⟨hf, trivial, trivial⟩
  | ok r =>
    rw [run_updateRequest_ok change f hr]
    exact ⟨h f hf r hr, trivial, trivial⟩

/-- Rows are opened with mappings of their columns at most. -/
theorem openRows (m : ResultMap) (rows : RowSet) (hf : f.Sound I) :
    session.Upkeeps I cs Pairing.Any (session.openRows m rows) f := by
  have hkeeps : Keeps (Frame.Sound · I) Anyhow (Stop.Allowed True) Always (session.openRows m rows) := by
    unfold Session.openRows ResultMap.prepareAuto
    refine Keeps.bind (keeps_updateRequest fun f hf r hr => ?_) fun _ _ => ?_
    · obtain ⟨-, rfl⟩ := Request.start_eq_ok hr
      exact ⟨hf.store, hf.columns⟩
    · split
      · exact .pure trivial
      · refine Keeps.bind (Q := Always) (.gets fun _ _ => trivial) fun frame _ => ?_
        split
        · -- a remappable map has its mappings installed in the request
          refine Keeps.bind (Q := Always) (.ofExcept fun _ _ => trivial) fun mappings _ => ?_
          refine keeps_updateRequest fun f hf r hr => ?_
          rw [Request.remap_eq_ok hr]
          exact ⟨hf.store, fun id => route_of_installed (hf.columns id) m.id mappings⟩
        · -- the others are kept with the session
          split
          · refine Keeps.bind (Q := Always) (.ofExcept fun _ _ => trivial) fun mappings _ => ?_
            exact fun f hf => ⟨⟨hf.store, hf.columns⟩, trivial, trivial⟩
          · exact .pure trivial
  exact (step (.openRows session m rows) (hkeeps f hf).1).any

theorem writeOutputs (hc : session.catalog.Upholds I) (statement : Statement) (parameter : Value)
    (outputs : Option OutParams) (hf : f.Sound I) :
    session.Upkeeps I cs Pairing.Any (session.writeOutputs statement parameter outputs) f := by
  unfold Session.writeOutputs
  split
  · refine (modify hf rfl).bind ?_
    rintro s t _ _ - ⟨rfl, hs⟩ -
    exact (edit hs (hc.outputs _ parameter _ hs.store)).any
  · exact .pure ⟨rfl, hf⟩ trivial

theorem answers (hc : session.catalog.Upholds I)
    (hreads : (session.upkeep I cs).Reads session load load) :
    (session.upkeep I cs).Answers session load load where
  toAssembles := assembles hc hreads
  follows := fun _ _ _ hnext => ⟨_, hnext⟩
  submit := by
    rintro f _ v _ statement ⟨rfl, hf⟩ - rfl
    exact submit statement v hf
  openRows := by
    rintro f _ m rows ⟨rfl, hf⟩ - -
    exact openRows m rows hf
  nextRow h := h.1 ▸ onRows h.2
  emit := by
    rintro f _ v _ receive ⟨rfl, hf⟩ rfl
    refine Pairing.InStep.any (step (fun _ _ => rfl) ?_)
    exact ⟨hf.store, hf.columns⟩
  writeOutputs := by
    rintro f _ v _ statement outputs ⟨rfl, hf⟩ rfl -
    exact writeOutputs hc statement v outputs hf

/-! ## Nested selects -/

theorem nests (hf : f.Sound I) :
    (session.upkeep I cs).Nests (session.upkeep I cs) f (f.withCatalogs cs) where
  enter := ⟨rfl, hf.store, nofun⟩
  parameter h := h
  leave := by
    rintro s _ - ⟨rfl, hs⟩
    exact ⟨⟨rfl, hs.store, hf.columns⟩, fun _ => ⟨hs.store, hf.columns⟩⟩
  results := by
    rintro s _ - ⟨rfl, -⟩
    exact List.forall₂_same.2 fun _ _ => rfl
  context h := h.1 ▸ rfl
  loose h := h

theorem defers (hc : session.catalog.Upholds I) : (session.upkeep I cs).Defers session where
  list h := congrArg Value.list (List.forall₂_eq_eq_eq ▸ h)
  set := by
    rintro f _ items items' ⟨rfl, -⟩ h
    obtain rfl : items = items' := List.forall₂_eq_eq_eq ▸ h
    rfl
  null := rfl
  fixed _ _ := rfl
  call := by
    rintro f _ v _ statement target ⟨rfl, hf⟩ rfl
    refine Pairing.InStep.any (step (fun _ _ => rfl) ?_)
    exact ⟨hf.store, hf.columns⟩
  lazy := by
    rintro f _ v _ statement target ⟨rfl, hf⟩ rfl
    exact step (fun _ _ => rfl) ⟨hc.lazies _ hf.store, hf.columns⟩

/-- The statements of nested selects are run in step, if those below them are. -/
theorem runLoad (hc : session.catalog.Upholds I) {depth : Nat}
    (h : ∀ d, depth = d + 1 → (session.upkeep I cs).Answers session (session.load d) (session.load d))
    (hf : f.Sound I) (id : String) (v : Value) (target : DataType) :
    session.Upkeeps I cs Pairing.Same (Frame.onWorld (session.load depth id v target)) f := by
  cases depth with
  | zero => exact step (fun _ _ => rfl) hf
  | succ d =>
    have hd : (session.upkeep I cs).Answers session (session.load d) (session.load d) := h d rfl
    exact Correspondence.runLoad (defers hc) (fun _ _ => trivial) ⟨rfl, hf⟩ (nests hf) hd target rfl

/-- Nested selects of any depth keep what single changes keep. -/
theorem answers_load (hc : session.catalog.Upholds I) : ∀ depth : Nat,
    (session.upkeep I cs).Answers session (session.load depth) (session.load depth)
  | 0 => answers hc (reads hc fun id v target hf =>
    Correspondence.loadResult (defers hc) id target ⟨rfl, hf⟩ rfl
      (runLoad hc (fun _ hd => Nat.noConfusion hd) hf id v target))
  | depth + 1 => answers hc (reads hc fun id v target hf =>
    Correspondence.loadResult (defers hc) id target ⟨rfl, hf⟩ rfl (runLoad hc (fun d hd => by
      obtain rfl : depth = d := Nat.succ.inj hd
      exact answers_load hc depth) hf id v target))

theorem loads (hc : session.catalog.Upholds I) (hf : f.Sound I) (depth : Nat) (id : String) (v : Value)
    (target : DataType) :
    session.Upkeeps I cs Pairing.Same (Frame.onWorld (session.load depth id v target)) f :=
  runLoad hc (fun d _ => answers_load hc d) hf id v target

/-! ## Result objects

A request may be given an object to fill, which is that of its rows but not of nested elements. -/

theorem subject (hc : session.catalog.Upholds I) (hm : session.catalog.Holds m) (hf : f.Sound I)
    (target : Option Value) (values : List Value) :
    session.Upkeeps I cs
      (fun u a b => a = b ∧ ∀ subject, a = some subject →
        (session.upkeep I cs).parents u m subject.mappings subject.object subject.object ∧
          (m.groupBy = [] → subject.key = none))
      (m.subject session target values) f := by
  unfold ResultMap.subject
  refine gets_bind rfl (gets_bind rfl (gets_bind rfl ?_))
  have hkey : m.groupBy = [] → m.uniqueKey f.world.store (f.mappings m) values = none :=
    fun hg => Correspondence.uniqueKey_none hg _ _ _
  split
  · exact .pure ⟨rfl, hf⟩ ⟨rfl, nofun⟩
  · split
    · refine .pure ⟨rfl, hf⟩ ⟨rfl, fun subject hsubject => ?_⟩
      cases hsubject
      exact ⟨parents hm hf _, hkey⟩
    · refine (buildNew hc hf _ target values _).bind ?_
      rintro s _ v _ - ⟨rfl, hs⟩ rfl
      refine .pure ⟨rfl, hs⟩ ⟨rfl, fun subject hsubject => ?_⟩
      cases hsubject
      exact ⟨parents hm hf v, hkey⟩

section

variable (hc : session.catalog.Upholds I) (hload : (session.upkeep I cs).Answers session load load)

include hc hload

theorem build (hm : session.catalog.Holds m) (hf : f.Sound I) (depth : Nat) (target : Option Value)
    (values : List Value) :
    session.Upkeeps I cs Pairing.Same (ResultMap.build session load depth m target values) f := by
  cases depth with
  | zero => exact .throw ⟨rfl, hf⟩
  | succ depth =>
    unfold ResultMap.build
    refine (subject hc hm hf target values).bind ?_
    rintro s _ found _ - ⟨rfl, hs⟩ ⟨rfl, hfound⟩
    split
    · exact .pure ⟨rfl, hs⟩ rfl
    · rename_i subject
      obtain ⟨hparents, hkey⟩ := hfound subject rfl
      have hbuild : (session.upkeep I cs).Builds
          (fun m values => ResultMap.build session load depth m none values)
          (fun m values => ResultMap.build session load depth m none values) := hload.build (.inl rfl)
      exact (hload.assembleNested hbuild hm hkey ⟨rfl, hs⟩ hparents).bind
        fun _ _ _ _ _ hp _ => .pure hp rfl

theorem readObject (hm : session.catalog.Holds m) (hf : f.Sound I) (target : Option Value)
    (receive : Receiver) :
    session.Upkeeps I cs Pairing.Any (session.readObject load m target receive) f := by
  unfold Session.readObject
  refine (hload.readValues hload.follows hm ⟨rfl, hf⟩).bind fun s t found found' _ hp hfound => ?_
  cases hfound with
  | none => exact .pure hp trivial
  | @some a b hab =>
    obtain ⟨effective, values⟩ := a
    obtain ⟨effective', values'⟩ := b
    obtain ⟨hmap, heq, hv, -⟩ := hab
    obtain rfl : effective = effective' := heq
    obtain rfl : values = values' := List.forall₂_eq_eq_eq ▸ hv
    obtain ⟨rfl, hs⟩ := hp
    refine (build hc hload hmap hs _ target values).bind ?_
    rintro u _ object _ - hp rfl
    cases object with
    | none => exact .pure hp trivial
    | some v => exact hload.emit receive hp rfl

theorem readRows (hm : session.catalog.Holds m) (target : Option Value) (receive : Receiver) :
    ∀ (rows skip : Nat) (left : Option Nat) {f : Frame}, f.Sound I →
      session.Upkeeps I cs Pairing.Any
        (Session.readRows (session.readObject load m target receive) rows skip left) f
  | 0, _, _, _, hf => .pure ⟨rfl, hf⟩ trivial
  | rows + 1, skip, left, f, hf => by
    unfold Session.readRows
    split
    · exact .pure ⟨rfl, hf⟩ trivial
    · refine (hload.nextRow ⟨rfl, hf⟩).bind ?_
      rintro s _ more _ - ⟨rfl, hs⟩ rfl
      split
      · split
        · exact readRows hm target receive rows _ left hs
        · refine (readObject hc hload hm hs target receive).bind ?_
          rintro u _ _ _ - ⟨rfl, hu⟩ -
          exact readRows hm target receive rows 0 _ hu
      · exact .pure ⟨rfl, hs⟩ trivial

/-- Reading the rows of a response keeps what single changes keep. -/
theorem readResponse {resultMap : Option ResultMap}
    (hm : ∀ m, resultMap = some m → session.catalog.Holds m) (hf : f.Sound I) (response : Response)
    (target : Option Value) (window : Window) (receive : Receiver) :
    session.Upkeeps I cs Pairing.Any
      (session.readResponse load resultMap response target window receive) f := by
  unfold Session.readResponse
  split
  · rename_i m _
    refine (openRows m _ hf).bind ?_
    rintro u _ _ _ - ⟨rfl, hu⟩ -
    exact readRows hc hload (hm m rfl) target receive _ _ _ hu
  · exact .pure ⟨rfl, hf⟩ trivial

/-- A statement keeps what single changes keep, also when it is given an object to fill. -/
theorem runStatement (hf : f.Sound I) (statement : Statement) (parameter : Value) (target : Option Value)
    (window : Window) (receive : Receiver) :
    session.Upkeeps I cs Pairing.Same
      (session.runStatement load statement parameter target window receive) f := by
  unfold Session.runStatement
  refine (submit statement parameter hf).bind ?_
  rintro s _ ⟨resultMap, response⟩ _ - ⟨rfl, hs⟩ ⟨rfl, hm, -⟩
  refine (readResponse hc hload hm hs response target window receive).bind ?_
  rintro u _ _ _ - ⟨rfl, hu⟩ -
  exact (writeOutputs hc statement parameter _ hu).imp fun _ _ _ _ _ => rfl

end

theorem runUpdate (hc : session.catalog.Upholds I) (hf : f.Sound I) (statement : Statement)
    (parameter : Value) :
    session.Upkeeps I cs Pairing.Same (session.runUpdate statement parameter) f := by
  unfold Session.runUpdate Session.bindParameter Session.execute
  refine (modify hf rfl).bind ?_
  rintro f _ _ _ - ⟨rfl, hf⟩ -
  refine ((modify hf rfl).bind (R := Pairing.Same) ?_).bind ?_
  · rintro f _ _ _ - hp -
    exact .read hp (hp.1 ▸ rfl) fun _ _ => rfl
  rintro f _ params _ - ⟨rfl, hf⟩ rfl
  refine ((modify hf rfl).bind (R := Pairing.Same) ?_).bind ?_
  · rintro f _ _ _ - ⟨rfl, hf⟩ -
    exact step (fun _ _ => rfl) ⟨hf.store, hf.columns⟩
  rintro f _ response _ - ⟨rfl, hf⟩ rfl
  exact (writeOutputs hc statement parameter _ hf).bind fun _ _ _ _ _ hp _ => .pure hp rfl

/-! ## What is known behind a run -/

theorem sound {run : Run Frame α} {Q : Frame → α → α → Prop}
    (h : ∀ cs, session.Upkeeps I cs Q run f) : (run.run f).2.Sound I :=
  ((h []).resolve_left fun ⟨_, he, _⟩ => he).1.2

/-- The run does not look at the catalogs of the sessions. -/
theorem blind {run : Run Frame α}
    (h : session.Upkeeps I cs Pairing.Same run f) :
    run.run (f.withCatalogs cs) = ((run.run f).1, (run.run f).2.withCatalogs cs) := by
  obtain ⟨⟨hstate, -⟩, -, ho⟩ := h.resolve_left fun ⟨_, he, _⟩ => he
  exact Prod.ext ho.eq.symm hstate

theorem explain {run : Run Frame α}
    (h : session.Upkeeps I cs Pairing.Same run f) :
    session.Upkeeps I cs Pairing.Same (Run.mapError Frame.explain run) f :=
  h.mapError (fun _ he => he.elim) fun _ _ _ hp => hp.1 ▸ rfl

end Session.upkeep

/-! ## Whole requests -/

/-- Reading a lazy value runs its query at most, and keeps the result in its cell. -/
theorem World.force_keeps {P : World → Prop} {w : World} (ref : LazyRef) (hw : P w)
    (h : ∀ cell session, w.store.lazyCell? ref = some cell →
      w.session? cell.query.session = some session →
        P ((session.loader cell.query.statement cell.query.parameter cell.query.target).run w).2 ∧
          ∀ w v, P w → P { w with store := w.store.setLoaded ref v }) :
    P ((force ref).run w).2 := by
  unfold force
  rw [run_gets_bind]
  cases hcell : w.store.lazyCell? ref with
  | none => exact hw
  | some cell =>
    dsimp only
    cases hloaded : cell.loaded with
    | some v => exact hw
    | none =>
      cases hs : w.session? cell.query.session with
      | none => exact hw
      | some session =>
        obtain ⟨hload, hset⟩ := h cell session hcell hs
        dsimp only
        rcases hrun : (session.loader cell.query.statement cell.query.parameter
          cell.query.target).run w with ⟨stop | v, w'⟩ <;> rw [hrun] at hload
        · rw [run_bind_error hrun]
          exact hload
        · rw [run_bind_ok hrun]
          exact hset w' v hload

namespace Catalog.Upholds

variable {session : Session} {I : Store → Prop} {w : World}

/-- A query keeps what single changes keep. -/
theorem query (hc : session.catalog.Upholds I) (hw : I w.store) (depth : Nat) (id : String)
    (parameter : Value) (target : Option Value) (window : Window) (receive : Receiver) :
    I (session.query (session.load depth) id parameter target window receive w).2.store := by
  have hf : Frame.Sound { world := w } I := ⟨hw, nofun⟩
  unfold Session.query
  cases session.catalog.statement id with
  | error e => exact hw
  | ok statement =>
    exact (Session.upkeep.sound fun _ => Session.upkeep.runStatement hc
      (Session.upkeep.answers_load hc depth) hf statement parameter target window receive).store

/-- An update keeps what single changes keep. -/
theorem update (hc : session.catalog.Upholds I) (hw : I w.store) (id : String) (parameter : Value) :
    I ((session.update id parameter).run w).2.store := by
  have hf : Frame.Sound { world := w } I := ⟨hw, nofun⟩
  unfold Session.update
  rw [run_step]
  cases session.catalog.statement id with
  | error e => exact hw
  | ok statement =>
    exact (Session.upkeep.sound fun _ => Session.upkeep.runUpdate hc hf statement parameter).store

/-- A nested select keeps what single changes keep. -/
theorem load (hc : session.catalog.Upholds I) (hw : I w.store) (depth : Nat) (id : String) (v : Value)
    (target : DataType) : I ((session.load depth id v target).run w).2.store := by
  have hf : Frame.Sound { world := w } I := ⟨hw, nofun⟩
  exact (Session.upkeep.sound fun _ => Session.upkeep.loads hc hf depth id v target).store

/-- Reading a lazy value keeps what single changes keep, if its session does. -/
theorem force (hw : I w.store) {ref : LazyRef}
    (hc : ∀ cell session, w.store.lazyCell? ref = some cell →
      w.session? cell.query.session = some session → session.catalog.Upholds I) :
    I ((World.force ref).run w).2.store := by
  refine World.force_keeps (P := fun w => I w.store) ref hw fun cell session hcell hs => ?_
  have hupholds : session.catalog.Upholds I := hc cell session hcell hs
  refine ⟨hupholds.load hw _ _ _ _, fun w v hw => ?_⟩
  show I (w.store.setLoaded ref v)
  unfold Store.setLoaded
  split
  · exact hupholds.lazies _ hw
  · exact hw

end Catalog.Upholds

end RowMapper
