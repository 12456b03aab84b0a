/-
How deep the calls for one row go. A call that makes further ones marks its object; if a later call
of the chain has the same map then the map is on a cycle of nested maps, so that it has the same key
and the later call finds its object marked and makes none. Hence no map occurs twice but for the
last call, and a chain is at most one longer than the catalog.
-/
import RowMapper.Proofs.Catalog.Nesting
import RowMapper.Proofs.Engine.Key

namespace RowMapper

open Relation

/-! ## Catalogs -/

/-- Every map on a cycle of nested maps has a group key, which it reads from columns. -/
def Catalog.KeyedCycles (c : Catalog) : Prop :=
  ∀ id m, c.resultMap id = .ok m → TransGen c.Nests id id →
    (∃ mapping ∈ m.declared, mapping.property ∈ m.groupBy) ∧
      ∀ mapping ∈ m.declared, mapping.property ∈ m.groupBy → mapping.route = .column

/-- No map is read with mappings of a request. -/
def Catalog.Fixed (c : Catalog) : Prop :=
  ∀ id m, c.resultMap id = .ok m → m.remappable = false

/-- What maps on cycles of nested maps read for their group-by properties from the row of a frame
refers to no object and to no lazy value. -/
def Catalog.PlainKeys (c : Catalog) (f : Frame) : Prop :=
  ∀ id m, c.resultMap id = .ok m → TransGen c.Nests id id → ∀ mapping ∈ m.declared,
    mapping.property ∈ m.groupBy → ∀ v, (mapping.readColumn.run f).1 = .ok v → v.Plain

/-- A catalog whose items stand under their ids, without remapped maps, and with a key for every map
on a cycle. -/
structure Catalog.Keyed (c : Catalog) : Prop where
  indexed : Table.Indexed ResultMap.id c.resultMaps
  fixed : c.Fixed
  cycles : c.KeyedCycles

namespace Call

variable {session : Session} {load : Load} {c d e : Call} {f g : Frame}

/-- A call for the row of a frame by a map of the catalog, with the values that it reads there. -/
structure ForRow (session : Session) (load : Load) (f : Frame) (c : Call) : Prop where
  map : session.catalog.resultMap c.map.id = .ok c.map
  values : ∃ g, g.request.row = f.request.row ∧
    (c.map.readRow session load).run g = (.ok c.values, c.frame)

theorem ForRow.row (h : c.ForRow session load f) : c.frame.request.row = f.request.row := by
  obtain ⟨g, hg, hrun⟩ := h.values
  have hs : g.Steady ((c.map.readRow session load).run g).2 :=
    (OnRow.readRow (x := True) (fun _ _ _ => bounded_true _) c.map g trivial).2.1
  rw [hrun] at hs
  exact hs.row.trans hg

/-! ## Keys -/

/-- The key of a call. -/
def key (c : Call) : Option String :=
  c.map.uniqueKey c.frame.world.store (c.frame.mappings c.map) c.values

section Keys

variable (hk : session.catalog.Keyed)

include hk

theorem ForRow.mappings (h : c.ForRow session load f)
    (hc : TransGen session.catalog.Nests c.map.id c.map.id) (g : Frame) :
    g.mappings c.map = c.map.declared := by
  obtain ⟨mapping, hm, -⟩ := (hk.cycles _ _ h.map hc).1
  exact mappings_eq_declared (hk.fixed _ _ h.map) hm g

/-- On a cycle each declared mapping has the value of its column, if it is a group-by mapping. -/
theorem ForRow.reads (h : c.ForRow session load f)
    (hc : TransGen session.catalog.Nests c.map.id c.map.id) :
    List.Forall₂ (fun mapping v => mapping ∈ c.map.declared → mapping.property ∈ c.map.groupBy →
      (mapping.readColumn.run f).1 = .ok v) c.map.declared c.values := by
  obtain ⟨g, hg, hrun⟩ := h.values
  have hv := readRow_values hrun
  rw [h.mappings hk hc] at hv
  refine hv.imp fun mapping v ⟨f', g', hrow, hread⟩ hmem hgroup => ?_
  have hroute := (hk.cycles _ _ h.map hc).2 mapping hmem hgroup
  rw [readColumn_congr (hg.symm.trans hrow.symm), readMapping_column hroute hread]

/-- A map on a cycle has a key, which is the same whenever the row is read. -/
theorem ForRow.key_eq (h : c.ForRow session load f) (h' : d.ForRow session load f)
    (hplain : session.catalog.PlainKeys f) (heq : d.map = c.map)
    (hc : TransGen session.catalog.Nests c.map.id c.map.id) :
    d.key = c.key ∧ c.key.isSome := by
  have hv := h.reads hk hc
  have hv' := h'.reads hk (heq ▸ hc)
  unfold key
  rw [h.mappings hk hc, h'.mappings hk (heq ▸ hc)]
  rw [heq] at hv' ⊢
  refine ⟨uniqueKey_congr _ hv' hv fun mapping hm hg v v' hp hp' => ?_,
    uniqueKey_isSome hv.length_eq (hk.cycles _ _ h.map hc).1⟩
  have hveq : v = v' := Except.ok.inj ((hp hm hg).symm.trans (hp' hm hg))
  rw [← hveq]
  exact (hplain _ _ h.map hc mapping hm hg v (hp hm hg)).text_eq _ _

end Keys

end Call

/-! ## Nested calls -/

/-- The steps in which an element is read: the map that the mapping names reads the row when the
collection of the parent is there. -/
theorem readElement_steps {session : Session} {load : Load} {mapping : ResultMapping} {child : String}
    {parent : Value} {f g : Frame} {found : Option Element}
    (h : (readElement session load mapping child parent).run f = (.ok found, g)) :
    ∃ m type u values, session.catalog.resultMap child = .ok m ∧
      (mapping.collectionType session.catalog.accessor parent).run f = (.ok type, f) ∧
      (Frame.edit (session.catalog.accessor.update parent mapping.property
        (ensureContainer type mapping.property))).run f = (.ok (), u) ∧
      (m.readRow session load).run u = (.ok values, g) ∧
      found = if g.request.rowDataFound then some ⟨m, values, type⟩ else none := by
  unfold readElement at h
  obtain ⟨m, f₁, h₁, k₁⟩ := run_bind_eq_ok.1 h
  obtain ⟨hm, rfl⟩ := run_ofExcept_eq_ok.1 h₁
  obtain ⟨type, f₂, h₂, k₂⟩ := run_bind_eq_ok.1 k₁
  obtain ⟨_, f₃, h₃, k₃⟩ := run_bind_eq_ok.1 k₂
  obtain ⟨values, f₄, h₄, k₄⟩ := run_bind_eq_ok.1 k₃
  obtain ⟨found', f₅, h₅, k₅⟩ := run_bind_eq_ok.1 k₄
  cases h₅
  cases k₅
  have hsame : f₂ = f₁ := by
    unfold ResultMapping.collectionType at h₂
    split at h₂
    · cases h₂
      rfl
    · exact (congrArg Prod.snd h₂).symm
  subst hsame
  exact ⟨m, type, f₃, values, hm, h₂, h₃, h₄, rfl⟩

/-- An element is read by the map that the mapping names, from the same row. -/
theorem readElement_eq_ok {session : Session} {load : Load} {mapping : ResultMapping}
    {child : String} {parent : Value} {f g : Frame} {element : Element}
    (h : (readElement session load mapping child parent).run f = (.ok (some element), g)) :
    session.catalog.resultMap child = .ok element.map ∧
      ∃ f', f'.request.row = f.request.row ∧
        (element.map.readRow session load).run f' = (.ok element.values, g) := by
  obtain ⟨m, type, u, values, hm, -, hensure, hread, hfound⟩ := readElement_steps h
  have hsteady := (OnRow.edit (R := World.Any) (x := True) (session.catalog.accessor.update parent mapping.property
    (ensureContainer type mapping.property)) f trivial).2.1
  rw [hensure] at hsteady
  split at hfound
  · cases hfound
    exact ⟨hm, u, hsteady.row, hread⟩
  · cases hfound

namespace Call

variable {session : Session} {load : Load} {c d e : Call} {f : Frame}

section Chains

variable (hk : session.catalog.Keyed)

include hk

omit hk

/-- A call that makes others has its own mark and those from before set for them. -/
theorem Makes.marks (hm : Makes session load c d) :
    (∀ key, c.key = some key → (c.map.id, key) ∈ d.frame.request.assembling) ∧
      ∀ mark ∈ c.frame.request.assembling, mark ∈ d.frame.request.assembling := by
  obtain ⟨n, rfl⟩ := hm
  obtain ⟨_, hsubject, -⟩ := n.gathers.comes
  have hmarks : n.call.frame.request.assembling = _ := n.marks
  rw [hmarks, (subject_eq hsubject).2.1]
  refine ⟨fun key hkey => ?_, fun mark h => List.mem_append_right _ h⟩
  have hkey' : c.map.uniqueKey c.frame.world.store (c.frame.mappings c.map) c.values = some key := hkey
  rw [hkey']
  exact List.mem_append_left _ (List.mem_singleton_self _)

include hk

end Chains

end Call

end RowMapper
