/-
Calls that succeed, taken apart. A call that gives a value found or built its object and gathered its
nested elements one after the other; each of these is nothing, or a call of its own whose object, if
it gave one, was added to the collection of the parent.
-/
import RowMapper.Proofs.Access.Filling
import RowMapper.Proofs.Engine.Chain
import RowMapper.Proofs.Engine.Depth
import RowMapper.Proofs.Engine.Growth
import RowMapper.Proofs.Engine.Mappings
import RowMapper.Proofs.Request.Identity

namespace RowMapper

variable {session : Session} {load : Load} {f g : Frame}

theorem run_mapError_eq_ok {σ α : Type} {explain : σ → Error → Error} {run : Run σ α} {s t : σ} {a : α} :
    (Run.mapError explain run).run s = (.ok a, t) ↔ run.run s = (.ok a, t) := by
  rw [run_mapError]
  rcases run.run s with ⟨e | b, u⟩
  · exact ⟨nofun, nofun⟩
  · exact Iff.rfl

/-! ## Nested elements -/

/-- A nested element that was gathered: the row held none, or its call gave no object, or the object
was added to the collection of the parent. -/
theorem nestedElement_eq_ok {build : Build} {mapping : ResultMapping} {child : String} {parent : Value}
    (h : (nestedElement session load build mapping child parent).run f = (.ok (), g)) :
    (readElement session load mapping child parent).run f = (.ok none, g) ∨
    ∃ element entered,
      (readElement session load mapping child parent).run f = (.ok (some element), entered) ∧
      ((build element.map element.values).run entered = (.ok none, g) ∨
        ∃ object left, (build element.map element.values).run entered = (.ok (some object), left) ∧
          (Frame.edit (session.catalog.accessor.update parent mapping.property
            (addElement element.collection mapping.property object))).run left = (.ok (), g)) := by
  unfold nestedElement at h
  obtain ⟨element, entered, hread, h⟩ := run_bind_eq_ok.1 h
  cases element with
  | none =>
    cases h
    exact .inl hread
  | some element =>
    obtain ⟨object, left, hbuild, h⟩ := run_bind_eq_ok.1 h
    refine .inr ⟨element, entered, hread, ?_⟩
    cases object with
    | none =>
      cases h
      exact .inl hbuild
    | some object => exact .inr ⟨object, left, hbuild, h⟩

theorem nestedMapping_eq_ok {build : Build} {mapping : ResultMapping} {parent : Value}
    (h : (nestedMapping session load build parent mapping).run f = (.ok (), g)) :
    mapping.isNestedMap = false ∧ g = f ∨
    ∃ child, mapping.route = .nestedMap child ∧
      (nestedElement session load build mapping child parent).run f = (.ok (), g) := by
  unfold nestedMapping at h
  unfold ResultMapping.isNestedMap
  cases hr : mapping.route with
  | nestedMap child =>
    rw [hr] at h
    exact .inr ⟨child, rfl, run_mapError_eq_ok.1 h⟩
  | column =>
    rw [hr] at h
    cases h
    exact .inl ⟨rfl, rfl⟩
  | nestedSelect statement =>
    rw [hr] at h
    cases h
    exact .inl ⟨rfl, rfl⟩

theorem assembleNested_eq_ok {build : Build} {m : ResultMap} {mappings : List ResultMapping}
    {parent : Value} {key : Option String}
    (h : (assembleNested session load build m mappings parent key).run f = (.ok (), g)) :
    mappings.any ResultMapping.isNestedMap = false ∧ g = f ∨
    mappings.any ResultMapping.isNestedMap = true ∧
      ∃ k, (nestedElements session load build mappings parent).run (f.mark m.id key) = (.ok (), k) ∧
        g = k.unmark key := by
  cases hn : mappings.any ResultMapping.isNestedMap with
  | false =>
    unfold assembleNested at h
    rw [hn] at h
    cases h
    exact .inl ⟨rfl, rfl⟩
  | true =>
    rw [Call.run_assembleNested hn] at h
    obtain ⟨ho, rfl⟩ := Prod.mk.inj h
    exact .inr ⟨rfl, _, Prod.ext ho rfl, rfl⟩

/-! ## Objects -/

/-- An object that was built is remembered, if it has a key. -/
theorem buildNew_eq_ok {m : ResultMap} {mappings : List ResultMapping} {target : Option Value}
    {values : List Value} {key : Option String} {object : Value}
    (h : (m.buildNew session mappings target values key).run f = (.ok object, g)) :
    ∃ s, (m.exchange.setData session.catalog.accessor m mappings target values).run f.world.store =
        (.ok object, s) ∧ f.world.store.objects.size ≤ s.objects.size ∧
      g.world.store = s ∧ g.request.identity = f.request.identity.remember m.id key object ∧
      g.emitted = f.emitted := by
  unfold ResultMap.buildNew at h
  obtain ⟨v, u, hset, h⟩ := run_bind_eq_ok.1 h
  obtain ⟨_, u', hremember, h⟩ := run_bind_eq_ok.1 h
  cases h
  obtain ⟨s, hrun, rfl⟩ := run_edit_eq_ok.1 hset
  have hsize := Store.growth.size_le (Store.growth.setData m.exchange session.catalog.accessor m
    mappings target values f.world.store)
  rw [hrun] at hsize
  refine ⟨s, hrun, hsize, ?_⟩
  unfold Frame.remember at hremember
  unfold IdentityTable.remember
  split at hremember <;> cases hremember <;> exact ⟨rfl, rfl, rfl⟩

/-- An object that a map or bean exchange made is a new one behind all others. -/
theorem setData_object {m : ResultMap} (hm : m.exchange = .map ∨ m.exchange = .bean)
    {accessor : Accessor} {mappings : List ResultMapping} {values : List Value} {object : Value}
    {s t : Store} (h : (m.exchange.setData accessor m mappings none values).run s = (.ok object, t)) :
    object = .object ⟨s.objects.size⟩ ∧ s.objects.size < t.objects.size := by
  obtain ⟨d, hblank⟩ := ResultMap.exists_blank hm
  rw [ResultMap.run_setData hblank] at h
  obtain ⟨_, t, hfill, hret⟩ := run_bind_eq_ok.1 h
  cases hret
  have hsize := Store.growth.size_le (Store.growth.fill m.exchange accessor m
    (.object (s.newObject d).1) (Exchange.assignable mappings values) (s.newObject d).2)
  rw [hfill, Store.size_newObject] at hsize
  exact ⟨rfl, hsize⟩

/-- How a call comes to its object, with what it reads from its frame. -/
theorem Call.run_subject (session : Session) (c : Call) :
    (c.map.subject session c.target c.values).run c.frame =
      (if c.key.any (c.frame.request.isAssembling c.map.id) then pure none
      else match c.key.bind fun key => c.frame.request.identity.get? c.map.id key with
        | some object => pure (some ⟨object, c.key, c.frame.mappings c.map, false⟩)
        | none => do
          let object ← c.map.buildNew session (c.frame.mappings c.map) c.target c.values c.key
          pure (some ⟨object, c.key, c.frame.mappings c.map, true⟩) :
        Run Frame (Option Subject)).run c.frame := by
  unfold ResultMap.subject
  rw [run_gets_bind, run_gets_bind, run_gets_bind]
  rfl

/-- The object of a call is one that was known by its key, or it is built now. -/
theorem Call.subject_eq_some {c : Call} {subject : Subject}
    (h : (c.map.subject session c.target c.values).run c.frame = (.ok (some subject), f)) :
    subject.key = c.key ∧ subject.mappings = c.frame.mappings c.map ∧
    ((subject.isNew = false ∧ f = c.frame ∧
        ∃ key, c.key = some key ∧ c.frame.request.identity.get? c.map.id key = some subject.object) ∨
      subject.isNew = true ∧
        (c.key.bind fun key => c.frame.request.identity.get? c.map.id key) = none ∧
        (c.map.buildNew session subject.mappings c.target c.values subject.key).run c.frame =
          (.ok subject.object, f)) := by
  rw [Call.run_subject] at h
  split at h
  · cases h
  · split at h
    · rename_i object hknown
      cases h
      obtain ⟨key, hk, hget⟩ := Option.bind_eq_some_iff.1 hknown
      exact ⟨rfl, rfl, .inl ⟨rfl, rfl, key, hk, hget⟩⟩
    · rename_i hknown
      obtain ⟨object, u, hbuild, h⟩ := run_bind_eq_ok.1 h
      cases h
      exact ⟨rfl, rfl, .inr ⟨rfl, hknown, hbuild⟩⟩

/-- A call without an object is one for an object that is being assembled. -/
theorem Call.subject_eq_none {c : Call}
    (h : (c.map.subject session c.target c.values).run c.frame = (.ok none, f)) :
    f = c.frame ∧ ∃ key, c.key = some key ∧ c.frame.request.isAssembling c.map.id key = true := by
  rw [Call.run_subject] at h
  split at h
  · rename_i hmarked
    cases h
    exact ⟨rfl, (Option.any_eq_true _ _).1 hmarked⟩
  · split at h
    · cases h
    · obtain ⟨object, u, hbuild, h⟩ := run_bind_eq_ok.1 h
      cases h

/-- A call that succeeds gathers the nested elements of its object, if it has one, and gives the
object if it was built now. -/
theorem Call.run_eq_ok {c : Call} {depth : Nat} {out : Option Value}
    (h : c.run session load (depth + 1) = (.ok out, g)) :
    (c.map.subject session c.target c.values).run c.frame = (.ok none, g) ∧ out = none ∨
    ∃ subject f, (c.map.subject session c.target c.values).run c.frame = (.ok (some subject), f) ∧
      (assembleNested session load (Call.builds session load depth) c.map subject.mappings
        subject.object subject.key).run f = (.ok (), g) ∧
      out = if subject.isNew then some subject.object else none := by
  unfold Call.run ResultMap.build at h
  obtain ⟨subject, f, hsubject, h⟩ := run_bind_eq_ok.1 h
  cases subject with
  | none =>
    cases h
    exact .inl ⟨hsubject, rfl⟩
  | some subject =>
    obtain ⟨_, k, hnested, h⟩ := run_bind_eq_ok.1 h
    cases h
    exact .inr ⟨subject, f, hsubject, hnested, rfl⟩

/-! ## Opening rows -/

variable {m : ResultMap} {rows : RowSet}

/-- The request that reads rows with a map. -/
def Frame.opened (f : Frame) (registry : Registry) (m : ResultMap) (rows : RowSet) : Frame :=
  let mappings := m.derivedFrom registry rows.columns
  let f := { f with request := { f.request with rows := some rows, phase := .executing } }
  match m.mappings with
  | .declared _ => f
  | .auto home =>
    if m.remappable then
      { f with request := f.request.setMappings m.id (mappings.map ColumnMapping.mapping) }
    else if Table.contains (home, m.id) f.world.derived then f
    else { f with world := { f.world with derived := Table.put (home, m.id) mappings f.world.derived } }

/-- Only the rows, the phase and the mappings of a request are others then, and the mappings that are
kept for the maps. -/
theorem Frame.exists_opened (f : Frame) (registry : Registry) (m : ResultMap) (rows : RowSet) :
    ∃ mappings derived, f.opened registry m rows =
      { f with
        request := { f.request with rows := some rows, phase := .executing, mappings }
        world := { f.world with derived } } := by
  unfold opened
  cases m.mappings with
  | declared mappings => exact ⟨_, _, rfl⟩
  | auto home =>
    dsimp only
    split
    · exact ⟨_, _, rfl⟩
    · split <;> exact ⟨_, _, rfl⟩

@[simp] theorem Frame.emitted_opened (f : Frame) (registry : Registry) (m : ResultMap) (rows : RowSet) :
    (f.opened registry m rows).emitted = f.emitted := by
  obtain ⟨_, _, h⟩ := f.exists_opened registry m rows
  rw [h]

theorem Frame.rowSetToRead_opened (f : Frame) (registry : Registry) (m : ResultMap) (rows : RowSet) :
    (f.opened registry m rows).request.rowSetToRead = .ok rows := by
  obtain ⟨_, _, h⟩ := f.exists_opened registry m rows
  rw [h]
  rfl

/-- Rows are opened with mappings from columns. -/
theorem Frame.TakesColumns.opened (h : f.TakesColumns) (registry : Registry) (m : ResultMap)
    (rows : RowSet) : (f.opened registry m rows).TakesColumns := by
  unfold Frame.opened
  cases m.mappings with
  | declared mappings => exact h
  | auto home =>
    dsimp only
    split
    · exact fun id => route_of_installed (h id) m.id _
    · split <;> exact h

/-- Opening rows never fails once a statement is bound, since mappings can be derived for any columns. -/
theorem Session.run_openRows (hbound : f.request.phase = .bound) (m : ResultMap) (rows : RowSet) :
    (session.openRows m rows).run f = (.ok (), f.opened session.catalog.registry m rows) := by
  unfold openRows
  rw [run_bind_ok (run_updateRequest_ok (·.start rows) f (if_pos hbound))]
  unfold ResultMap.prepareAuto Frame.opened
  cases hmappings : m.mappings with
  | declared mappings => rfl
  | auto home =>
    cases hremap : m.remappable with
    | true => exact run_updateRequest_ok (·.remap m _) _ (if_pos hremap)
    | false =>
      cases hknown : Table.contains (home, m.id) f.world.derived with
      | true =>
        simp [run_gets_bind, hknown]
        rfl
      | false =>
        simp [run_gets_bind, hknown]
        rfl

theorem Session.openRows_eq_opened (h : (session.openRows m rows).run f = (.ok (), g)) :
    g = f.opened session.catalog.registry m rows := by
  have hbound : f.request.phase = .bound := by
    obtain ⟨_, s, hstart, -⟩ := run_bind_eq_ok.1 h
    obtain ⟨r, hr, -⟩ := run_updateRequest_eq_ok hstart
    exact (Request.start_eq_ok hr).1
  rw [run_openRows hbound] at h
  cases h
  rfl

/-! ## Queries -/

namespace Session

variable {statement : Statement} {parameter : Value} {resultMap : Option ResultMap}
  {response : Response}

/-- A statement that was submitted is bound to the request, and nothing else has changed that a query
goes by. -/
theorem submit_eq_ok (h : (session.submit statement parameter).run f = (.ok (resultMap, response), g)) :
    session.catalog.statementResultMap statement = .ok resultMap ∧
      ∃ database context, database.registrations = f.world.database.registrations ∧
        g = { f with
          world := { f.world with database }
          request := { f.request.bind statement resultMap with context } } := by
  obtain ⟨_, s, hkind, h⟩ := run_bind_eq_ok.1 h
  obtain ⟨found, t, hmap, h⟩ := run_bind_eq_ok.1 h
  obtain ⟨_, bound, hbind, h⟩ := run_bind_eq_ok.1 h
  obtain ⟨params, ready, hparams, h⟩ := run_bind_eq_ok.1 h
  obtain ⟨answer, done, hexecute, hdone⟩ := run_bind_eq_ok.1 h
  obtain ⟨-, rfl⟩ := run_ofExcept_eq_ok.1 hkind
  obtain ⟨hfound, rfl⟩ := run_ofExcept_eq_ok.1 hmap
  cases hbind
  cases hdone
  obtain ⟨_, _, hpreparing, hread⟩ := run_bind_eq_ok.1 hparams
  obtain ⟨_, _, hexecuting, hanswer⟩ := run_bind_eq_ok.1 hexecute
  cases hpreparing
  obtain rfl := congrArg Prod.snd hread
  cases hexecuting
  obtain rfl := congrArg Prod.snd hanswer
  refine ⟨hfound, _, _, ?_, rfl⟩
  rfl

/-- The rows of a declared map are opened as they are. -/
theorem openRows_eq_ok (hm : m.isAuto = false)
    (h : (session.openRows m rows).run f = (.ok (), g)) :
    g = { f with request := { f.request with rows := some rows, phase := .executing } } := by
  rw [openRows_eq_opened h, Frame.opened, ResultMap.mappings_of_isAuto hm]

end Session

end RowMapper
