/-
Correspondences of two runs of the engine: how the frames of the runs are paired, and which values,
objects and parents correspond in them. When the steps that touch the state keep a correspondence
(`Correspondence.Reads`, or `Correspondence.Scans` for nested selects as a whole, and
`Correspondence.Assembles`), then so does every function that reads a row or
assembles objects from it, whatever the state holds.
-/
import RowMapper.Engine.Assembly
import RowMapper.Proofs.Engine.Pairing

namespace RowMapper

theorem ResultMapping.isNestedMap_of_route {mapping : ResultMapping} {child : String}
    (h : mapping.route = .nestedMap child) : mapping.isNestedMap = true := by
  unfold isNestedMap
  rw [h]

theorem Stop.exhausted_of_false (stop : Stop) (h : False) : stop = .exhausted := h.elim

/-- A row that was read holds data when any of its values is not null. -/
theorem readRow_found {session : Session} {load : Load} {m : ResultMap} {f g : Frame}
    {values : List Value} (h : (m.readRow session load).run f = (.ok values, g)) :
    g.request.rowDataFound = values.any fun v => !v.isNull := by
  unfold ResultMap.readRow at h
  obtain ⟨_, _, -, h⟩ := run_bind_eq_ok.1 h
  obtain ⟨_, _, -, h⟩ := run_bind_eq_ok.1 h
  obtain ⟨_, _, -, h⟩ := run_bind_eq_ok.1 h
  obtain ⟨_, _, hfound, h⟩ := run_bind_eq_ok.1 h
  cases hfound
  cases h
  rfl

structure Correspondence extends Pairing Stop Frame Frame where
  /-- Values that were read. -/
  values : Frame → Value → Value → Prop
  /-- Objects that a map gave. -/
  objects : Frame → Value → Value → Prop
  /-- Objects whose nested elements a map gathers with some mappings. -/
  parents : Frame → ResultMap → List ResultMapping → Value → Value → Prop
  /-- The types of the collections that the elements of a mapping of a parent go into. -/
  collections : Frame → Value → ResultMapping → DataType → Prop
  /-- The maps that rows are read with. -/
  maps : ResultMap → Prop
  /-- The statements that nested selects run. -/
  statements : Statement → Prop := fun _ => True
  /-- The values that rows are read as by maps. -/
  readings : Frame → ResultMap → List Value → Prop := fun _ _ _ => True
  /-- The values that replies hold. -/
  answers : Value → Prop := fun _ => True
  loose_exhausted : ∀ e, loose e → e = .exhausted := by exact Stop.exhausted_of_false
  values_later : ∀ {f g v w}, later f g → values f v w → values g v w
  objects_later : ∀ {f g v w}, later f g → objects f v w → objects g v w
  parents_later : ∀ {f g m mappings v w}, later f g → parents f m mappings v w →
    parents g m mappings v w
  collections_later : ∀ {f g v mapping type}, later f g → collections f v mapping type →
    collections g v mapping type

namespace Correspondence

variable {K : Correspondence} {session : Session} {load load' : Load} {f g : Frame}

/-- Bounds on the depth of the two runs. -/
def Depths (K : Correspondence) (depth depth' : Nat) : Prop :=
  depth = depth' ∨ K.loose .exhausted ∧ depth ≤ depth'

theorem Depths.of_succ {depth depth' : Nat} (h : K.Depths (depth + 1) depth') :
    ∃ d, depth' = d + 1 ∧ K.Depths depth d := by
  rcases h with rfl | ⟨hloose, hle⟩
  · exact ⟨depth, rfl, .inl rfl⟩
  · exact ⟨depth' - 1, by omega, .inr ⟨hloose, by omega⟩⟩

/-- Elements that the current row holds. -/
structure Elements (K : Correspondence) (f : Frame) (parent : Value) (mapping : ResultMapping)
    (a b : Element) : Prop where
  maps : K.maps a.map
  map_eq : a.map = b.map
  values : List.Forall₂ (K.values f) a.values b.values
  readings : K.readings f a.map a.values
  collection_eq : a.collection = b.collection
  collection : K.collections f parent mapping a.collection

/-- The objects that the values of the current row belong to by a map. -/
structure Subjects (K : Correspondence) (m : ResultMap) (f : Frame) (a b : Subject) : Prop where
  parents : K.parents f m a.mappings a.object b.object
  mappings_eq : a.mappings = b.mappings
  key_eq : a.key = b.key
  isNew_eq : a.isNew = b.isNew
  key_none : m.groupBy = [] → a.key = none
  objects : a.isNew = true → K.objects f a.object b.object

/-- Two ways to build objects of nested maps stay in step. -/
def Builds (K : Correspondence) (build build' : Build) : Prop :=
  ∀ {f g : Frame} {m : ResultMap} {values values' : List Value}, K.maps m → K.paired f g →
    List.Forall₂ (K.values f) values values' → K.readings f m values →
    K.InStep (fun u => Option.Rel (K.objects u)) (build m values) (build' m values') f g

/-- Whatever goes on from a frame fills a target in step, if there is one, and else makes new objects in
step. -/
def Fills (K : Correspondence) (session : Session) (target : Option Value) (f : Frame) : Prop :=
  ∀ {u u' : Frame} {m : ResultMap} {values values' : List Value} (key : Option String), K.later f u →
    K.paired u u' → K.maps m → (m.groupBy = [] → key = none) → List.Forall₂ (K.values u) values values' →
    (key.bind fun key => u.request.identity.get? m.id key) = none →
    K.InStep (fun t v w => K.objects t v w ∧ K.parents t m (u.mappings m) v w)
      (m.buildNew session (u.mappings m) target values key)
      (m.buildNew session (u.mappings m) target values' key) u u'

/-- Discriminators lead from the maps that rows are read with to no others. -/
def Follows (K : Correspondence) (session : Session) : Prop :=
  ∀ {m d value id n}, K.maps m → m.discriminator = some d → d.subMap? value = some id →
    session.catalog.resultMap id = .ok n → K.maps n

/-! ## The steps that touch the state -/

/-- Reading columns and nested selects keeps a correspondence. -/
structure Scans (K : Correspondence) (session : Session) (load load' : Load) : Prop where
  isNull : ∀ {f v w}, K.values f v w → v.isNull = w.isNull
  null : ∀ {f}, K.values f .null .null
  text : ∀ {f g v w}, K.paired f g → K.values f v w →
    f.world.store.text v = g.world.store.text w
  mappings : ∀ {f g m}, K.paired f g → K.maps m → f.mappings m = g.mappings m
  context : ∀ {f g} (change : ErrorContext → ErrorContext), K.paired f g →
    K.InStep Pairing.Any (Frame.modifyContext change) (Frame.modifyContext change) f g
  found : ∀ {f g} (b : Bool), K.paired f g →
    K.InStep Pairing.Any (Frame.modifyRequest fun r => { r with rowDataFound := b })
      (Frame.modifyRequest fun r => { r with rowDataFound := b }) f g
  readColumn : ∀ {f g} (mapping : ResultMapping), K.paired f g →
    K.InStep K.values mapping.readColumn mapping.readColumn f g
  nestedSelect : ∀ {f g m mapping id statement}, K.paired f g → K.maps m → mapping ∈ f.mappings m →
    mapping.route = .nestedSelect id → session.catalog.statement id = .ok statement →
    K.statements statement := by intros; trivial
  readSelect : ∀ {f g id} (m : ResultMap) (mapping : ResultMapping), K.paired f g →
    (∀ statement, session.catalog.statement id = .ok statement → K.statements statement) →
    K.InStep K.values (m.readSelect session load mapping id)
      (m.readSelect session load' mapping id) f g
  readings : ∀ {f g h m values}, K.maps m → K.paired f g →
    (m.readRow session load).run f = (.ok values, h) → K.readings h m values := by intros; trivial

/-- Reading columns keeps a correspondence. -/
structure Columns (K : Correspondence) : Prop where
  isNull : ∀ {f v w}, K.values f v w → v.isNull = w.isNull
  literal : ∀ {f} {c : Coercer} {text v}, c.valueOf text = .ok v → K.values f v v
  column : ∀ {f g} (c : Coercer) (column : Column), K.paired f g →
    K.InStep K.values (Frame.readColumn c column) (Frame.readColumn c column) f g

/-- The steps of making the parameter of a nested select keep a correspondence. -/
structure Parameters (K : Correspondence) (session : Session) : Prop extends Columns K where
  text : ∀ {f g v w}, K.paired f g → K.values f v w →
    f.world.store.text v = g.world.store.text w
  instantiate : ∀ {f g} (type : DataType), K.paired f g →
    K.InStep K.values (Frame.edit (Edit.make type.instantiate))
      (Frame.edit (Edit.make type.instantiate)) f g
  document : ∀ {f g} (node : DomNode), K.paired f g →
    K.InStep K.values (Frame.edit (Edit.newObject (.dom node)))
      (Frame.edit (Edit.newObject (.dom node))) f g
  setterType : ∀ {f g v w} (path : String), K.paired f g → K.values f v w →
    session.catalog.accessor.setterType f.world.store v path =
      session.catalog.accessor.setterType g.world.store w path
  set : ∀ {f g v w a b} (path : String), K.paired f g → K.values f v w → K.values f a b →
    K.InStep Pairing.Any (Frame.edit (session.catalog.accessor.set v path a))
      (Frame.edit (session.catalog.accessor.set w path b)) f g

/-- The steps of reading a row keep a correspondence. -/
structure Reads (K : Correspondence) (session : Session) (load load' : Load) : Prop
    extends Parameters K session where
  null : ∀ {f}, K.values f .null .null
  mappings : ∀ {f g m}, K.paired f g → K.maps m → f.mappings m = g.mappings m
  context : ∀ {f g} (change : ErrorContext → ErrorContext), K.paired f g →
    K.InStep Pairing.Any (Frame.modifyContext change) (Frame.modifyContext change) f g
  found : ∀ {f g} (b : Bool), K.paired f g →
    K.InStep Pairing.Any (Frame.modifyRequest fun r => { r with rowDataFound := b })
      (Frame.modifyRequest fun r => { r with rowDataFound := b }) f g
  nestedSelect : ∀ {f g m mapping id statement}, K.paired f g → K.maps m → mapping ∈ f.mappings m →
    mapping.route = .nestedSelect id → session.catalog.statement id = .ok statement →
    K.statements statement := by intros; trivial
  readings : ∀ {f g h m values}, K.maps m → K.paired f g →
    (m.readRow session load).run f = (.ok values, h) → K.readings h m values := by intros; trivial
  load : ∀ {f g v w} (statement : Statement) (target : DataType), K.paired f g →
    K.statements statement → K.values f v w →
    K.InStep K.values (Frame.onWorld (session.loadResult load statement.id v target))
      (Frame.onWorld (session.loadResult load' statement.id w target)) f g

/-- The steps of assembling objects keep a correspondence. -/
structure Assembles (K : Correspondence) (session : Session) (load load' : Load) : Prop
    extends Scans K session load load' where
  nestedMap : ∀ {f m mappings v w mapping id child}, K.parents f m mappings v w →
    mapping ∈ mappings → mapping.route = .nestedMap id → session.catalog.resultMap id = .ok child →
    K.maps child
  isAssembling : ∀ {f g m values key}, K.paired f g → K.maps m → m.groupBy ≠ [] →
    K.readings f m values → m.uniqueKey f.world.store (f.mappings m) values = some key →
    f.request.isAssembling m.id key = g.request.isAssembling m.id key
  known : ∀ {f g m values key}, K.paired f g → K.maps m → m.groupBy ≠ [] →
    K.readings f m values → m.uniqueKey f.world.store (f.mappings m) values = some key →
    Option.Rel (K.parents f m (f.mappings m)) (f.request.identity.get? m.id key)
      (g.request.identity.get? m.id key)
  buildNew : ∀ {f g m values values'} (key : Option String), K.paired f g → K.maps m →
    (m.groupBy = [] → key = none) → List.Forall₂ (K.values f) values values' →
    (key.bind fun key => f.request.identity.get? m.id key) = none →
    K.InStep (fun u v w => K.objects u v w ∧ K.parents u m (f.mappings m) v w)
      (m.buildNew session (f.mappings m) none values key)
      (m.buildNew session (f.mappings m) none values' key) f g
  collectionType : ∀ {f g m mappings v w} {mapping : ResultMapping}, K.paired f g →
    K.parents f m mappings v w → mapping ∈ mappings → mapping.isNestedMap = true →
    K.InStep (fun u type type' => type = type' ∧ K.collections u v mapping type)
      (mapping.collectionType session.catalog.accessor v)
      (mapping.collectionType session.catalog.accessor w) f g
  ensure : ∀ {f g m mappings v w type} {mapping : ResultMapping}, K.paired f g →
    K.parents f m mappings v w → mapping ∈ mappings → mapping.isNestedMap = true →
    K.collections f v mapping type →
    K.InStep Pairing.Any
      (Frame.edit (session.catalog.accessor.update v mapping.property
        (ensureContainer type mapping.property)))
      (Frame.edit (session.catalog.accessor.update w mapping.property
        (ensureContainer type mapping.property))) f g
  add : ∀ {f g m mappings v w type a b} {mapping : ResultMapping}, K.paired f g →
    K.parents f m mappings v w → mapping ∈ mappings → mapping.isNestedMap = true →
    K.collections f v mapping type → K.objects f a b →
    K.InStep Pairing.Any
      (Frame.edit (session.catalog.accessor.update v mapping.property
        (addElement type mapping.property a)))
      (Frame.edit (session.catalog.accessor.update w mapping.property
        (addElement type mapping.property b))) f g
  mark : ∀ {f g m} {key : Option String}, K.paired f g → K.maps m →
    (m.groupBy = [] → key = none) →
    K.paired (f.mark m.id key) (g.mark m.id key) ∧ K.later f (f.mark m.id key)
  unmark : ∀ {f g m} {key : Option String}, K.paired f g → K.maps m →
    (m.groupBy = [] → key = none) →
    K.paired (f.unmark key) (g.unmark key) ∧ K.later f (f.unmark key)

/-! ## Reading -/

theorem Columns.readColumn (h : K.Columns) (mapping : ResultMapping) (hp : K.paired f g) :
    K.InStep K.values mapping.readColumn mapping.readColumn f g := by
  unfold ResultMapping.readColumn
  split
  · exact .throw hp
  · refine (h.column _ _ hp).bind fun u u' v w _ hp hvw => ?_
    split
    · rw [h.isNull hvw]
      split
      · exact .ofExcept hp fun a ha => h.literal ha
      · exact .pure hp hvw
    · exact .pure hp hvw

namespace Parameters

variable (h : Parameters K session)

include h

theorem objectParameter (mapping : ResultMapping) (type : DataType) (hp : K.paired f g) :
    K.InStep K.values (mapping.objectParameter session.catalog type)
      (mapping.objectParameter session.catalog type) f g := by
  unfold ResultMapping.objectParameter
  refine (h.instantiate type hp).bind fun u u' v w _ hp hvw => ?_
  split
  · -- the parameter corresponds at each round, since it did when it was made
    refine (Pairing.InStep.forM hp fun pair _ s t hl hp => ?_).bind fun s t _ _ hl hp _ => ?_
    · have hs := h.setterType pair.1 hp (K.values_later hl hvw)
      refine (Pairing.InStep.read (R := Pairing.Same) hp hs fun _ _ => rfl).bind ?_
      rintro s' t' declared _ hl' hp rfl
      refine (h.column _ _ hp).bind fun s'' t'' a b hl'' hp hab => ?_
      exact h.set pair.1 hp (K.values_later (K.trans hl (K.trans hl' hl'')) hvw) hab
    · exact .pure hp (K.values_later hl hvw)
  · exact h.column _ _ hp

theorem domParameter (mapping : ResultMapping) (hp : K.paired f g) :
    K.InStep K.values (mapping.domParameter session.catalog)
      (mapping.domParameter session.catalog) f g := by
  unfold ResultMapping.domParameter
  refine (Pairing.InStep.mapM (Q := Pairing.Same) hp (fun _ _ _ _ _ => id) ?_).bind ?_
  · intro entry _ s t _ hp
    refine (h.column _ _ hp).bind fun s' t' v w _ hp hvw => ?_
    refine (Pairing.InStep.gets (Q := Pairing.Same) hp (h.text hp hvw)).bind ?_
    rintro s'' t'' text _ _ hp rfl
    exact .pure hp rfl
  · intro s t texts texts' _ hp heq
    obtain rfl : texts = texts' := List.forall₂_eq_eq_eq ▸ heq
    exact h.document _ hp

theorem selectParameter (mapping : ResultMapping) (statement : Statement) (hp : K.paired f g) :
    K.InStep K.values (mapping.selectParameter session.catalog statement)
      (mapping.selectParameter session.catalog statement) f g := by
  unfold ResultMapping.selectParameter
  split
  · exact h.objectParameter mapping _ hp
  · split
    · exact h.column _ _ hp
    · split
      · exact h.domParameter mapping hp
      · exact h.objectParameter mapping _ hp

end Parameters

namespace Reads

variable (h : Reads K session load load')

include h

theorem readSelect {id : String} (m : ResultMap) (mapping : ResultMapping) (hp : K.paired f g)
    (hs : ∀ statement, session.catalog.statement id = .ok statement → K.statements statement) :
    K.InStep K.values (m.readSelect session load mapping id)
      (m.readSelect session load' mapping id) f g := by
  unfold ResultMap.readSelect
  refine (Pairing.InStep.ofExcept (R := fun _ a b => a = b ∧ K.statements a) hp
    fun a ha => ⟨rfl, hs a ha⟩).bind ?_
  rintro s t statement _ _ hp ⟨rfl, hs⟩
  refine (Pairing.InStep.ofExcept (R := Pairing.Same) hp fun _ _ => rfl).bind ?_
  rintro s t target _ _ hp rfl
  refine (h.toParameters.selectParameter mapping statement hp).bind fun s t v w _ hp hvw => ?_
  rw [h.isNull hvw]
  split
  · exact .pure hp h.null
  · refine (Pairing.InStep.ofExcept (R := Pairing.Same) hp fun _ _ => rfl).bind ?_
    rintro s t type _ hl hp rfl
    refine (h.load _ _ hp hs (K.values_later hl hvw)).bind fun s t a b _ hp hab => ?_
    split
    · rw [h.isNull hab]
      split
      · exact .ofExcept hp fun _ ha => h.literal ha
      · exact .pure hp hab
    · exact .pure hp hab

theorem scans : K.Scans session load load' where
  isNull := h.isNull
  null := h.null
  text := h.text
  mappings := h.mappings
  context := h.context
  found := h.found
  readColumn := h.toColumns.readColumn
  nestedSelect := h.nestedSelect
  readSelect := h.readSelect
  readings := h.readings

end Reads

namespace Scans

variable (h : Scans K session load load')

include h

theorem readMapping (m : ResultMap) (mapping : ResultMapping) (hp : K.paired f g)
    (hs : ∀ id statement, mapping.route = .nestedSelect id →
      session.catalog.statement id = .ok statement → K.statements statement) :
    K.InStep K.values (m.readMapping session load mapping)
      (m.readMapping session load' mapping) f g := by
  unfold ResultMap.readMapping
  refine (h.context _ hp).bind fun s t _ _ _ hp _ => ?_
  split
  · rename_i id hroute
    exact h.readSelect m mapping hp fun statement => hs id statement hroute
  · exact .pure hp h.null
  · exact h.readColumn mapping hp

theorem any_found {values values' : List Value} (hv : List.Forall₂ (K.values f) values values') :
    (values.any fun v => !v.isNull) = values'.any fun v => !v.isNull := by
  induction hv with
  | nil => rfl
  | cons hab _ ih => rw [List.any_cons, List.any_cons, h.isNull hab, ih]

/-- A row is read in step by the maps that rows are read with. -/
theorem readRow {m : ResultMap} (hm : K.maps m) (hp : K.paired f g) :
    K.InStep (fun u a b => List.Forall₂ (K.values u) a b ∧ K.readings u m a) (m.readRow session load)
      (m.readRow session load') f g := by
  refine Pairing.InStep.and_run (P := fun u => List.Forall₂ (K.values u)) ?_
    fun values u hrun => h.readings hm hp hrun
  unfold ResultMap.readRow
  refine (h.context _ hp).bind fun s t _ _ _ hp _ => ?_
  refine .gets_bind ?_
  rw [← h.mappings hp hm]
  refine (Pairing.InStep.mapM (Q := K.values) hp (fun _ _ _ _ => K.values_later) ?_).bind ?_
  · exact fun mapping hmem s' t' _ hp' => h.readMapping m mapping hp' fun id statement =>
      h.nestedSelect hp hm hmem
  · intro s t values values' _ hp hv
    rw [h.any_found hv]
    refine (h.found _ hp).bind fun s t _ _ hl hp _ => ?_
    exact .pure hp (hv.imp fun _ _ => K.values_later hl)

theorem followDiscriminators (hsub : K.Follows session) :
    ∀ (steps : Nat) (passed : List String) {m : ResultMap} {f g : Frame},
    K.maps m → K.paired f g →
    K.InStep (fun _ a b => a = b ∧ K.maps a) (m.followDiscriminators session.catalog steps passed)
      (m.followDiscriminators session.catalog steps passed) f g
  | 0, _, _, _, _, hm, hp => .pure hp ⟨rfl, hm⟩
  | steps + 1, passed, m, f, g, hm, hp => by
    unfold ResultMap.followDiscriminators
    split
    · exact .pure hp ⟨rfl, hm⟩
    · rename_i d hd
      unfold Discriminator.value
      refine Pairing.InStep.bind (Q := Pairing.Same) ?_ ?_
      · refine (h.readColumn _ hp).bind fun s t v w _ hp hvw => ?_
        exact .gets hp (h.text hp hvw)
      · rintro s t value _ _ hp rfl
        split
        · exact .pure hp ⟨rfl, hm⟩
        · rename_i id hid
          split
          · exact .pure hp ⟨rfl, hm⟩
          · refine (Pairing.InStep.ofExcept (R := fun _ a b => a = b ∧ K.maps a) hp ?_).bind ?_
            · exact fun next hnext => ⟨rfl, hsub hm hd hid hnext⟩
            · rintro s t next _ _ hp ⟨rfl, hnext⟩
              exact followDiscriminators hsub steps _ hnext hp

theorem resolveSubMap {m : ResultMap} (hsub : K.Follows session) (hm : K.maps m) (hp : K.paired f g) :
    K.InStep (fun _ a b => a = b ∧ K.maps a) (m.resolveSubMap session.catalog)
      (m.resolveSubMap session.catalog) f g := h.followDiscriminators hsub _ _ hm hp

/-- The key of the values of a row is the same in both runs. -/
theorem uniqueKey {m : ResultMap} (mappings : List ResultMapping) {values values' : List Value}
    (hp : K.paired f g) (hv : List.Forall₂ (K.values f) values values') :
    m.uniqueKey f.world.store mappings values = m.uniqueKey g.world.store mappings values' := by
  have hparts : (mappings.zip values).filterMap (m.keyPart f.world.store) =
      (mappings.zip values').filterMap (m.keyPart g.world.store) := by
    induction hv generalizing mappings with
    | nil => simp
    | cons hab _ ih =>
      cases mappings with
      | nil => rfl
      | cons mapping mappings =>
        have hpart : ∀ {s t : Store} {a b : Value}, s.text a = t.text b →
            m.keyPart s (mapping, a) = m.keyPart t (mapping, b) := by
          intro s t a b htext
          simp only [ResultMap.keyPart, htext]
        simp only [List.zip_cons_cons, List.filterMap_cons, hpart (h.text hp hab), ih]
  unfold ResultMap.uniqueKey
  rw [hparts]

end Scans

/-! ## Assembling -/

theorem uniqueKey_none {m : ResultMap} (hm : m.groupBy = []) (s : Store)
    (mappings : List ResultMapping) (values : List Value) : m.uniqueKey s mappings values = none := by
  unfold ResultMap.uniqueKey
  rw [hm]
  rfl

namespace Assembles

variable (h : Assembles K session load load')

include h

theorem readElement {m : ResultMap} {mappings : List ResultMapping} {v w : Value}
    {mapping : ResultMapping} {childId : String} (hp : K.paired f g)
    (hvw : K.parents f m mappings v w) (hmem : mapping ∈ mappings)
    (hroute : mapping.route = .nestedMap childId) :
    K.InStep (fun u => Option.Rel (K.Elements u v mapping))
      (readElement session load mapping childId v)
      (RowMapper.readElement session load' mapping childId w) f g := by
  have hnested := ResultMapping.isNestedMap_of_route hroute
  unfold RowMapper.readElement
  refine (Pairing.InStep.ofExcept (R := fun _ a b => a = b ∧ K.maps a) hp ?_).bind ?_
  · exact fun child hchild => ⟨rfl, h.nestedMap hvw hmem hroute hchild⟩
  rintro s t child _ hl hp ⟨rfl, hchild⟩
  refine (h.collectionType hp (K.parents_later hl hvw) hmem hnested).bind ?_
  rintro s₁ t₁ type _ hl₁ hp ⟨rfl, htype⟩
  have hvw₁ := K.parents_later (K.trans hl hl₁) hvw
  refine (h.ensure hp hvw₁ hmem hnested htype).bind fun s₂ t₂ _ _ hl₂ hp _ => ?_
  refine (h.readRow hchild hp).bind_run fun s₃ t₃ values values' hrun hrun' hl₃ hp hvalues => ?_
  refine .gets_bind ?_
  rw [readRow_found hrun, readRow_found hrun', h.any_found hvalues.1]
  split
  · exact .pure hp (.some ⟨hchild, rfl, hvalues.1, hvalues.2, rfl,
      K.collections_later (K.trans hl₂ hl₃) htype⟩)
  · exact .pure hp .none

theorem subject {m : ResultMap} {values values' : List Value} {target : Option Value} (hm : K.maps m)
    (hp : K.paired f g) (hv : List.Forall₂ (K.values f) values values') (hreadings : K.readings f m values)
    (hfills : K.Fills session target f) :
    K.InStep (fun u => Option.Rel (K.Subjects m u)) (m.subject session target values)
      (m.subject session target values') f g := by
  unfold ResultMap.subject
  refine .gets_bind (.gets_bind (.gets_bind ?_))
  rw [← h.mappings hp hm, ← h.uniqueKey (f.mappings m) hp hv]
  have hnone : m.groupBy = [] → m.uniqueKey f.world.store (f.mappings m) values = none :=
    fun hg => uniqueKey_none hg _ _ _
  generalize hkey : m.uniqueKey f.world.store (f.mappings m) values = key at hnone
  have hnew : (key.bind fun key => f.request.identity.get? m.id key) = none →
      K.InStep (fun u => Option.Rel (K.Subjects m u))
        (do
          let object ← m.buildNew session (f.mappings m) target values key
          return some { object, key, mappings := f.mappings m, isNew := true })
        (do
          let object ← m.buildNew session (f.mappings m) target values' key
          return some { object, key, mappings := f.mappings m, isNew := true }) f g := by
    intro hid
    refine (hfills key (K.refl f) hp hm hnone hv hid).bind fun s t v w _ hp hvw => ?_
    exact .pure hp (.some ⟨hvw.2, rfl, rfl, rfl, hnone, fun _ => hvw.1⟩)
  cases key with
  | none => exact hnew rfl
  | some key =>
    have hgroup : m.groupBy ≠ [] := fun hg => by cases hnone hg
    have hknown := h.known hp hm hgroup hreadings hkey
    simp only [Option.any_some, Option.bind_some, ← h.isAssembling hp hm hgroup hreadings hkey]
    split
    · exact .pure hp .none
    · cases hf : f.request.identity.get? m.id key with
      | none =>
        rw [hf] at hknown
        cases hg : g.request.identity.get? m.id key with
        | none => exact hnew hf
        | some object' => rw [hg] at hknown; cases hknown
      | some object =>
        rw [hf] at hknown
        cases hg : g.request.identity.get? m.id key with
        | none => rw [hg] at hknown; cases hknown
        | some object' =>
          rw [hg] at hknown
          cases hknown with
          | some hparents => exact .pure hp (.some ⟨hparents, rfl, rfl, rfl, hnone, nofun⟩)

/-- A nested element is added in step, if nested maps build in step. -/
theorem nestedElement {m : ResultMap} {mappings : List ResultMapping} {v w : Value}
    {mapping : ResultMapping} {build build' : Build} {childId : String}
    (hb : K.Builds build build')
    (hp : K.paired f g) (hvw : K.parents f m mappings v w) (hmem : mapping ∈ mappings)
    (hroute : mapping.route = .nestedMap childId) :
    K.InStep Pairing.Any (nestedElement session load build mapping childId v)
      (RowMapper.nestedElement session load' build' mapping childId w) f g := by
  have hnested := ResultMapping.isNestedMap_of_route hroute
  unfold RowMapper.nestedElement
  refine (h.readElement hp hvw hmem hroute).bind fun s t found found' hl hp hfound => ?_
  cases hfound with
  | none => exact .pure hp trivial
  | @some element element' he =>
    have hmap := he.map_eq
    have htype := he.collection_eq
    show K.InStep Pairing.Any
      (build element.map element.values >>= _) (build' element'.map element'.values >>= _) s t
    rw [← hmap]
    refine (hb he.maps hp he.values he.readings).bind fun s₁ t₁ object object' hl₁ hp hobject => ?_
    cases hobject with
    | none => exact .pure hp trivial
    | some hab =>
      show K.InStep Pairing.Any
        (Frame.edit (session.catalog.accessor.update v mapping.property
          (addElement element.collection mapping.property _)))
        (Frame.edit (session.catalog.accessor.update w mapping.property
          (addElement element'.collection mapping.property _))) s₁ t₁
      rw [← htype]
      exact h.add hp (K.parents_later (K.trans hl hl₁) hvw) hmem hnested
        (K.collections_later hl₁ he.collection) hab

theorem nestedMapping {m : ResultMap} {mappings : List ResultMapping} {v w : Value}
    {mapping : ResultMapping} {build build' : Build} (hb : K.Builds build build')
    (hp : K.paired f g) (hvw : K.parents f m mappings v w) (hmem : mapping ∈ mappings) :
    K.InStep Pairing.Any (nestedMapping session load build v mapping)
      (RowMapper.nestedMapping session load' build' w mapping) f g := by
  unfold RowMapper.nestedMapping
  cases hroute : mapping.route with
  | nestedMap childId =>
    refine .mapError ?_ K.loose_exhausted fun _ _ _ _ => rfl
    exact h.nestedElement hb hp hvw hmem hroute
  | column => exact .pure hp trivial
  | nestedSelect _ => exact .pure hp trivial

theorem nestedElements {m : ResultMap} {mappings : List ResultMapping} {v w : Value}
    {build build' : Build} (hb : K.Builds build build')
    {some : List ResultMapping} (hsome : ∀ mapping ∈ some, mapping ∈ mappings)
    (hp : K.paired f g) (hvw : K.parents f m mappings v w) :
    K.InStep Pairing.Any (nestedElements session load build some v)
      (RowMapper.nestedElements session load' build' some w) f g :=
  .forM hp fun mapping hmem _ _ hl hp =>
    h.nestedMapping hb hp (K.parents_later hl hvw) (hsome mapping hmem)

theorem assembleNested {m : ResultMap} {mappings : List ResultMapping} {v w : Value}
    {build build' : Build} {key : Option String}
    (hb : K.Builds build build')
    (hm : K.maps m) (hkey : m.groupBy = [] → key = none) (hp : K.paired f g)
    (hvw : K.parents f m mappings v w) :
    K.InStep Pairing.Any (assembleNested session load build m mappings v key)
      (RowMapper.assembleNested session load' build' m mappings w key) f g := by
  unfold RowMapper.assembleNested
  split
  · obtain ⟨hmarked, hl⟩ := h.mark hp hm hkey
    refine (Pairing.InStep.modify hmarked hl).bind fun s t _ _ hl hp _ => ?_
    refine (h.nestedElements hb (fun _ => id) hp (K.parents_later hl hvw)).andAfter ?_ ?_
    · exact fun s t hp => h.unmark hp hm hkey
    · exact fun _ _ _ => id
  · exact .pure hp trivial

theorem fills_none (f : Frame) : K.Fills session none f := fun key _ => h.buildNew key

/-- An object is built in step, or a target filled, if nested maps build in step. -/
theorem build_succ {m : ResultMap} {values values' : List Value} {target : Option Value} {depth depth' : Nat}
    (hb : K.Builds (fun m values => ResultMap.build session load depth m none values)
      (fun m values => ResultMap.build session load' depth' m none values))
    (hfills : K.Fills session target f) (hm : K.maps m) (hp : K.paired f g)
    (hv : List.Forall₂ (K.values f) values values') (hreadings : K.readings f m values) :
    K.InStep (fun u => Option.Rel (K.objects u)) (ResultMap.build session load (depth + 1) m target values)
      (ResultMap.build session load' (depth' + 1) m target values') f g := by
  unfold ResultMap.build
  refine (h.subject hm hp hv hreadings hfills).bind fun s t subject subject' _ hp hsubject => ?_
  cases hsubject with
  | none => exact .pure hp .none
  | @some subject subject' hs =>
    obtain ⟨object', key', mappings', isNew'⟩ := subject'
    obtain ⟨hparents, hmappings, hkey, hnew, hnone, hobject⟩ := hs
    obtain ⟨object, key, mappings, isNew⟩ := subject
    obtain rfl : mappings = mappings' := hmappings
    obtain rfl : key = key' := hkey
    obtain rfl : isNew = isNew' := hnew
    refine (h.assembleNested hb hm hnone hp hparents).bind fun s t _ _ hl hp _ => ?_
    cases isNew with
    | false => exact .pure hp .none
    | true => exact .pure hp (.some (K.objects_later hl (hobject rfl)))

/-- Objects are built in step by the maps that rows are read with. -/
theorem build : ∀ {depth depth' : Nat}, K.Depths depth depth' →
    K.Builds (fun m values => ResultMap.build session load depth m none values)
      (fun m values => ResultMap.build session load' depth' m none values) := by
  intro depth
  induction depth with
  | zero =>
    intro depth' hd f g m values values' _ hp _ _
    rcases hd with rfl | ⟨hloose, -⟩
    · exact .throw hp
    · exact .inl ⟨_, hloose, rfl⟩
  | succ depth ih =>
    intro depth' hd f g m values values' hm hp hv hreadings
    obtain ⟨depth', rfl, hd'⟩ := hd.of_succ
    exact h.build_succ (ih hd') (h.fills_none f) hm hp hv hreadings

/-- An object is built in step, or a target filled. -/
theorem buildInto {m : ResultMap} {values values' : List Value} {target : Option Value} (depth : Nat)
    (hfills : K.Fills session target f) (hm : K.maps m) (hp : K.paired f g)
    (hv : List.Forall₂ (K.values f) values values') (hreadings : K.readings f m values) :
    K.InStep (fun u => Option.Rel (K.objects u)) (ResultMap.build session load depth m target values)
      (ResultMap.build session load' depth m target values') f g := by
  cases depth with
  | zero => exact .throw hp
  | succ depth => exact h.build_succ (h.build (.inl rfl)) hfills hm hp hv hreadings

end Assembles

end Correspondence

end RowMapper
