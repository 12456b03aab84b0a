/-
Rows on their own. Maps from which no grouped map is reachable make objects without a look at what
the request remembers, so the object that such a map makes of a row is the one that it makes in a
request that knows nothing but the row (`Frame.forget`).
-/
import RowMapper.Proofs.Catalog.Nesting
import RowMapper.Proofs.Engine.Growth
import RowMapper.Proofs.Engine.Key
import RowMapper.Proofs.Engine.Success

namespace RowMapper

open Relation

/-- The frame of a request that remembers no objects, assembles none, and gave none. -/
def Frame.forget (f : Frame) : Frame :=
  { f with request := { f.request with identity := {}, assembling := [] }, emitted := #[] }

/-- No grouped map is reachable from the map. -/
def ResultMap.Loner (m : ResultMap) (catalog : Catalog) : Prop :=
  catalog.resultMap m.id = .ok m ∧ ∀ id child, ReflTransGen catalog.Nests m.id id →
    catalog.resultMap id = .ok child → child.groupBy = []

theorem ResultMap.Loner.groupBy {m : ResultMap} {catalog : Catalog} (h : m.Loner catalog) :
    m.groupBy = [] := h.2 m.id m .refl h.1

theorem ResultMap.Loner.nested {m child : ResultMap} {catalog : Catalog} {id : String}
    {mapping : ResultMapping} (hi : Table.Indexed ResultMap.id catalog.resultMaps)
    (h : m.Loner catalog) (hmem : mapping ∈ m.declared) (hroute : mapping.route = .nestedMap id)
    (hchild : catalog.resultMap id = .ok child) : child.Loner catalog := by
  obtain rfl := Catalog.resultMap_id hi hchild
  have hnests : catalog.Nests m.id child.id := ⟨m, h.1, mapping, hmem, hroute⟩
  exact ⟨hchild, fun id' child' hreach => h.2 id' child' (.head hnests hreach)⟩

/-- A request without mappings of its own reads nested maps by the declared mappings alone. -/
theorem mem_declared {f : Frame} {m : ResultMap} {mapping : ResultMapping} {child : String}
    (hf : f.request.mappings = []) (hmem : mapping ∈ f.mappings m)
    (hroute : mapping.route = .nestedMap child) : mapping ∈ m.declared := by
  refine mem_declared_of_route (f := f) (fun mappings hg => ?_) hmem (by rw [hroute]; nofun)
  rw [hf] at hg
  cases hg

/-- Requests that differ in nothing but what they remember, assemble and gave, which stays. -/
def Correspondence.memory : Correspondence where
  paired f g := f.forget = g.forget ∧ f.request.mappings = []
  later f g := g.emitted = f.emitted ∧ g.request.identity = f.request.identity
  refl _ := ⟨rfl, rfl⟩
  trans h h' := ⟨h'.1.trans h.1, h'.2.trans h.2⟩
  values _ v w := v = w
  objects _ v w := v = w
  parents _ _ _ v w := v = w
  collections _ _ _ _ := True
  maps _ := True
  values_later _ := id
  objects_later _ := id
  parents_later _ := id
  collections_later _ := id

namespace Correspondence.memory

variable {session : Session} {load : Load} {f g : Frame} {m : ResultMap} {α : Type}

/-- What does not depend on what is forgotten is the same. -/
theorem view_eq {β : Type} (view : Frame → β) (hview : ∀ f : Frame, view f.forget = view f)
    (h : memory.paired f g) : view f = view g := by
  rw [← hview f, h.1, hview]

theorem world_eq (h : memory.paired f g) : f.world = g.world := view_eq Frame.world (fun _ => rfl) h

theorem onWorld (run : Run World α) (h : memory.paired f g) :
    memory.InStep Pairing.Same (Frame.onWorld run) (Frame.onWorld run) f g := by
  have hworld := world_eq h
  refine .inr ⟨⟨?_, h.2⟩, ⟨rfl, rfl⟩, ?_⟩
  · show { f.forget with world := (run.run f.world).2 } = { g.forget with world := (run.run g.world).2 }
    rw [h.1, hworld]
  · show Outcomes Eq (run.run f.world).1 (run.run g.world).1
    rw [hworld]
    exact .same fun _ _ => rfl

/-- A change of the request that neither looks at what is forgotten nor makes mappings. -/
theorem modify (change : Request → Request)
    (hc : ∀ r, { change r with identity := {}, assembling := [] } =
      change { r with identity := {}, assembling := [] })
    (hm : ∀ r, (change r).mappings = r.mappings) (h : memory.paired f g) :
    memory.paired { f with request := change f.request } { g with request := change g.request } := by
  refine ⟨?_, (hm _).trans h.2⟩
  show { f.forget with request := { change f.request with identity := {}, assembling := [] } } =
    { g.forget with request := { change g.request with identity := {}, assembling := [] } }
  rw [hc, hc]
  exact congrArg (fun frame : Frame => { frame with request := change frame.request }) h.1

theorem onRows (read : RowSet → Except Error α × RowSet) (h : memory.paired f g) :
    memory.InStep Pairing.Same (Frame.onRows read) (Frame.onRows read) f g := by
  have hrows := view_eq (fun f => f.request.rowSetToRead) (fun _ => rfl) h
  refine .inr ?_
  cases hr : f.request.rowSetToRead with
  | error e =>
    rw [run_onRows_error hr, run_onRows_error (hrows ▸ hr)]
    exact ⟨h, ⟨rfl, rfl⟩, rfl⟩
  | ok rows =>
    rw [run_onRows_ok hr, run_onRows_ok (hrows ▸ hr)]
    refine ⟨modify (fun r => { r with rows := some (read rows).2 }) (fun _ => rfl) (fun _ => rfl) h,
      ⟨rfl, rfl⟩, ?_⟩
    have ho : Outcomes Eq (read rows).1 (read rows).1 := .same fun _ _ => rfl
    exact ho.mapError Stop.failed

theorem rowDataFound (h : memory.paired f g) : f.request.rowDataFound = g.request.rowDataFound :=
  view_eq (fun f => f.request.rowDataFound) (fun _ => rfl) h

/-- Reading a row does not depend on what is remembered. -/
theorem reads (session : Session) (load : Load) : memory.Reads session load load where
  isNull h := congrArg _ h
  null := rfl
  literal _ := rfl
  text h hv := world_eq h ▸ hv ▸ rfl
  mappings h _ := view_eq (Frame.mappings · _) (fun _ => rfl) h
  context change h :=
    .modify (modify (fun r => { r with context := change r.context }) (fun _ => rfl) (fun _ => rfl) h)
      ⟨rfl, rfl⟩
  found b h :=
    .modify (modify (fun r => { r with rowDataFound := b }) (fun _ => rfl) (fun _ => rfl) h) ⟨rfl, rfl⟩
  column _ _ h := onRows _ h
  instantiate _ h := onWorld _ h
  document _ h := onWorld _ h
  setterType _ h hv := world_eq h ▸ hv ▸ rfl
  set _ h hv hab := hv ▸ hab ▸ (onWorld _ h).any
  load _ _ h _ hv := hv ▸ onWorld _ h

/-! ## Assembling -/

/-- A map that has no key makes a new object. -/
theorem subject (hm : m.groupBy = []) (values : List Value) (h : memory.paired f g) :
    memory.InStep (fun _ a b => a = b ∧ ∃ object, a = some ⟨object, none, f.mappings m, true⟩)
      (m.subject session none values) (m.subject session none values) f g := by
  have hmappings := view_eq (Frame.mappings · m) (fun _ => rfl) h
  unfold ResultMap.subject
  refine .gets_bind (.gets_bind (.gets_bind ?_))
  rw [← hmappings, uniqueKey_none hm, uniqueKey_none hm]
  unfold ResultMap.buildNew
  refine Pairing.InStep.bind (Q := Pairing.Same) ?_ ?_
  · refine (onWorld _ h).bind ?_
    rintro s t object _ - hp rfl
    exact .pure hp rfl
  · rintro s t object _ - hp rfl
    exact .pure hp ⟨rfl, object, rfl⟩

theorem readElement (mapping : ResultMapping) (child : String) (parent : Value)
    (h : memory.paired f g) :
    memory.InStep
      (fun _ a b => a = b ∧ ∀ element, a = some element →
        session.catalog.resultMap child = .ok element.map)
      (readElement session load mapping child parent)
      (RowMapper.readElement session load mapping child parent) f g := by
  unfold RowMapper.readElement
  refine (Pairing.InStep.ofExcept (R := fun _ a b => a = b ∧ session.catalog.resultMap child = .ok a)
    h fun _ hm => ⟨rfl, hm⟩).bind ?_
  rintro s t m _ - hp ⟨rfl, hm⟩
  refine Pairing.InStep.bind (Q := Pairing.Same) ?_ ?_
  · unfold ResultMapping.collectionType
    split
    · exact .pure hp rfl
    · exact .read hp (world_eq hp ▸ rfl) fun _ _ => rfl
  rintro s t type _ - hp rfl
  refine (onWorld _ hp).bind fun s t _ _ _ hp _ => ?_
  refine ((reads session load).scans.readRow (m := m) trivial hp).bind
    fun s t values values' _ hp hv => ?_
  obtain rfl : values = values' := List.forall₂_eq_eq_eq ▸ hv.1
  refine (Pairing.InStep.gets (Q := Pairing.Same) hp (rowDataFound hp)).bind ?_
  rintro s t found _ - hp rfl
  split
  · exact .pure hp ⟨rfl, fun element he => by cases he; exact hm⟩
  · exact .pure hp ⟨rfl, fun _ he => by cases he⟩

/-- A nested element is added without a look at what is remembered, if its object is made so. -/
theorem nestedMapping {mapping : ResultMapping} {build : Build} {parent : Value}
    (hb : ∀ id child, mapping.route = .nestedMap id → session.catalog.resultMap id = .ok child →
      ∀ {f g : Frame} (values : List Value), memory.paired f g →
        memory.InStep Pairing.Same (build child values) (build child values) f g)
    (h : memory.paired f g) :
    memory.InStep Pairing.Any (nestedMapping session load build parent mapping)
      (RowMapper.nestedMapping session load build parent mapping) f g := by
  unfold RowMapper.nestedMapping
  cases hroute : mapping.route with
  | nestedMap child =>
    refine .mapError ?_ (fun _ => False.elim) fun _ _ _ _ => rfl
    unfold nestedElement
    refine (readElement mapping child parent h).bind ?_
    rintro s t element _ - hp ⟨rfl, helement⟩
    cases element with
    | none => exact .pure hp trivial
    | some element =>
      refine (hb child element.map hroute (helement element rfl) element.values hp).bind ?_
      rintro s t out _ - hp rfl
      cases out with
      | none => exact .pure hp trivial
      | some v => exact (onWorld _ hp).any
  | column => exact .pure h trivial
  | nestedSelect _ => exact .pure h trivial

/-- Objects are made without a look at what is remembered, if no grouped map is reachable. -/
theorem build (hi : Table.Indexed ResultMap.id session.catalog.resultMaps) :
    ∀ (depth : Nat) {f g : Frame} {m : ResultMap} (values : List Value),
      m.Loner session.catalog → memory.paired f g →
      memory.InStep Pairing.Same (ResultMap.build session load depth m none values)
        (ResultMap.build session load depth m none values) f g
  | 0, _, _, _, _, _, h => .throw h
  | depth + 1, f, g, m, values, hm, h => by
    show memory.InStep _ (ResultMap.build session load (depth + 1) m none values)
      (ResultMap.build session load (depth + 1) m none values) f g
    unfold ResultMap.build
    refine (subject hm.groupBy values h).bind ?_
    rintro s t _ _ - hp ⟨rfl, object, rfl⟩
    refine Pairing.InStep.bind (Q := Pairing.Any) ?_ fun s t _ _ _ hp _ => .pure hp rfl
    unfold assembleNested
    split
    · refine (Pairing.InStep.modify (f := id) (g := id) hp ⟨rfl, rfl⟩).bind fun s t _ _ _ hp _ => ?_
      refine Pairing.InStep.andAfter (P := Pairing.Any) (.forM hp fun mapping hmem s t _ hp => ?_)
        (fun s t hp => ⟨hp, rfl, rfl⟩) fun _ _ _ => id
      refine nestedMapping (fun id child hroute hchild f g values hp => ?_) hp
      exact build hi depth values (hm.nested hi (mem_declared h.2 hmem hroute) hroute hchild) hp
    · exact .pure hp trivial

/-- Elements are gathered without a look at what is remembered, if no grouped map is reachable. -/
theorem gather {depth : Nat} {mappings : List ResultMapping} {parent : Value}
    (hi : Table.Indexed ResultMap.id session.catalog.resultMaps)
    (hloner : ∀ mapping ∈ mappings, ∀ id child, mapping.route = .nestedMap id →
      session.catalog.resultMap id = .ok child → child.Loner session.catalog)
    (h : memory.paired f g) :
    memory.InStep Pairing.Any (Call.gather session load depth mappings parent)
      (Call.gather session load depth mappings parent) f g := by
  refine .forM h fun mapping hmem s t _ hp => ?_
  refine nestedMapping (fun id child hroute hchild f g values hp => ?_) hp
  exact build hi depth values (hloner mapping hmem id child hroute hchild) hp

end Correspondence.memory

end RowMapper
