/-
Mappings for columns through the requests of sessions. A map that declares no mappings is read with
mappings for the columns of some rows: a remappable map with those of the rows at hand, any other with
those of the rows that were first read with it, in whichever session on its catalog. These are kept for
the catalog, and nothing that any session does replaces them (`World.History.remembers`). So mappings that
are not declared are some that the map itself derives (`Frame.Derived`): a query has such a request when its
rows are opened (`Execution.Opens.derived`).
-/
import RowMapper.Proofs.Engine.History
import RowMapper.Proofs.Engine.Success
import RowMapper.Proofs.Engine.Upkeep

namespace RowMapper

variable {session : Session} {load : Load} {m : ResultMap} {w w' : World} {f g : Frame} {rows : RowSet}

/-! ## What is kept -/

/-- The mappings that are kept for the maps of a session are some that the maps derive. -/
def World.Derived (w : World) (session : Session) : Prop :=
  ∀ m home mappings, session.catalog.resultMap m.id = .ok m → m.mappings = .auto home →
    Table.get? (home, m.id) w.derived = some mappings →
      ∃ columns, mappings = m.derivedFrom session.catalog.registry columns

/-- The mappings that a request reads the maps of a session with are declared, or some that the maps
derive. -/
structure Frame.Derived (f : Frame) (session : Session) : Prop where
  world : f.world.Derived session
  installed : ∀ m mappings, session.catalog.resultMap m.id = .ok m →
    Table.get? m.id f.request.mappings = some mappings → m.isAuto = true ∧
      ∃ columns, mappings = (m.derivedFrom session.catalog.registry columns).map ColumnMapping.mapping

/-- The mappings that came in for the maps of a session were derived, if those before were. -/
def World.KeepsDerived (session : Session) (w w' : World) : Prop := w.Derived session → w'.Derived session

instance : World.Records (World.KeepsDerived session) where
  refl _ := id
  trans _ _ _ h h' := h' ∘ h
  store _ _ := id
  calls _ _ := id
  log _ _ := id

/-- No mappings that are kept were replaced or taken away. -/
def World.Remembers (w w' : World) : Prop :=
  ∀ key mappings, Table.get? key w.derived = some mappings → Table.get? key w'.derived = some mappings

instance : World.Records World.Remembers where
  refl _ _ _ := id
  trans _ _ _ h h' key mappings hk := h' key mappings (h key mappings hk)
  store _ _ _ _ := id
  calls _ _ _ _ := id
  log _ _ _ _ := id

namespace World

theorem derived_of_nil (h : w.derived = []) (session : Session) : w.Derived session := by
  intro m home mappings _ _ hget
  rw [h] at hget
  cases hget

/-- What is known of a map without mappings of its own are the mappings for some columns, for none at
first. -/
theorem Derived.declaredMappings_eq {home : Nat} (h : w.Derived session)
    (hm : session.catalog.resultMap m.id = .ok m) (hhome : m.mappings = .auto home) :
    ∃ columns, w.declaredMappings m =
      (m.derivedFrom session.catalog.registry columns).map ColumnMapping.mapping := by
  unfold declaredMappings
  rw [hhome]
  dsimp only
  cases hget : Table.get? (home, m.id) w.derived with
  | none =>
    refine ⟨[], ?_⟩
    rw [ResultMap.derivedFrom_nil]
    rfl
  | some mappings =>
    obtain ⟨columns, rfl⟩ := h m home mappings hm hhome hget
    exact ⟨columns, rfl⟩

/-- Mappings that a map derives may be kept for it. -/
theorem keepsDerived_put {home : Nat} (hm : session.catalog.resultMap m.id = .ok m)
    (columns : List String) :
    KeepsDerived session w { w with
      derived := Table.put (home, m.id) (m.derivedFrom session.catalog.registry columns) w.derived } := by
  intro h other home' mappings hother hauto hget
  replace hget : Table.get? (home', other.id) (Table.put _ _ w.derived) = some mappings := hget
  by_cases hkey : (home', other.id) = (home, m.id)
  · obtain ⟨-, hid⟩ := Prod.mk.inj hkey
    rw [hid] at hother
    obtain rfl : m = other := Except.ok.inj (hm.symm.trans hother)
    rw [hkey, Table.get?_put_self] at hget
    exact ⟨columns, (Option.some.inj hget).symm⟩
  · rw [Table.get?_put_of_ne hkey] at hget
    exact h other home' mappings hother hauto hget

/-- Mappings come in for maps that none were kept for. -/
theorem derives_remembers (registry : Registry) (m : ResultMap) : Derives Remembers registry m := by
  intro _ w home columns _ hnew key mappings hget
  refine (Table.get?_put_of_ne ?_ _ _).trans hget
  rintro rfl
  unfold Table.contains at hnew
  rw [hget] at hnew
  cases hnew

end World

/-! ## Sessions side by side -/

namespace World

/-- One thing done to the shared state: an operation of some session, a session opened on some catalog,
the reading of a lazy value, or whatever a client does to objects and to the database. -/
inductive Operates : World → World → Prop
  | session {session : Session} {w w' : World} (h : session.Operates w w') : Operates w w'
  | joined (w : World) (c : Catalog) : Operates w (w.join c).2
  | forced (w : World) (ref : LazyRef) : Operates w ((force ref).run w).2
  | client (w : World) (store : Store) (database : Script) (calls : List LoaderCall) :
      Operates w { w with store, database, calls }

/-- What is done to the shared state, one thing after the other, by any number of sessions. -/
abbrev History : World → World → Prop := Relation.ReflTransGen Operates

/-- Whatever is done in whichever sessions, mappings that are kept stay. -/
theorem History.remembers (h : w.History w') : w.Remembers w' := by
  induction h with
  | refl => exact Std.Refl.refl w
  | @tail u _ _ hstep ih =>
    refine IsTrans.trans _ _ _ ih ?_
    cases hstep with
    | @session session _ _ h =>
      have hhistory : session.History _ _ := .single h
      exact hhistory.along fun _ m _ => derives_remembers session.catalog.registry m
    | joined _ c => exact fun _ _ => id
    | forced _ ref =>
      refine force_keeps (P := u.Remembers) ref (Std.Refl.refl u) fun cell session _ _ =>
        ⟨?_, fun _ _ h => h⟩
      have hderives : session.Derives World.Remembers :=
        fun _ m _ => derives_remembers session.catalog.registry m
      have hload := Session.bounded_load hderives nestingBound cell.query.statement
        cell.query.parameter cell.query.target
      exact (hload u trivial).2.1
    | client _ store database calls => exact fun _ _ => id

end World

/-! ## Requests -/

namespace Frame.Derived

/-- A request that has not begun. -/
theorem inner (h : w.Derived session) : Frame.Derived { world := w } session where
  world := h
  installed _ _ _ hget := nomatch hget

/-- A request with the same mappings whose shared state went on. -/
theorem next (h : f.Derived session) (hmappings : g.request.mappings = f.request.mappings)
    (hworld : World.KeepsDerived session f.world g.world) : g.Derived session where
  world := hworld h.world
  installed := hmappings ▸ h.installed

/-- What opens rows for a map installs or keeps what the map derives. -/
theorem opened (h : f.Derived session) (hm : session.catalog.resultMap m.id = .ok m) (rows : RowSet) :
    (f.opened session.catalog.registry m rows).Derived session := by
  unfold Frame.opened
  cases hmappings : m.mappings with
  | declared mappings => exact h.next rfl (Std.Refl.refl f.world)
  | auto home =>
    dsimp only
    split
    · refine ⟨h.world, fun other mappings hother hget => ?_⟩
      replace hget : Table.get? other.id (Table.put m.id _ f.request.mappings) = some mappings := hget
      by_cases hid : other.id = m.id
      · rw [hid] at hother
        obtain rfl : m = other := Except.ok.inj (hm.symm.trans hother)
        rw [Table.get?_put_self] at hget
        exact ⟨ResultMap.isAuto_of_mappings hmappings, _, (Option.some.inj hget).symm⟩
      · rw [Table.get?_put_of_ne hid] at hget
        exact h.installed other mappings hother hget
    · split
      · exact h.next rfl (Std.Refl.refl f.world)
      · exact h.next rfl (World.keepsDerived_put hm rows.columns)

/-- A map is read with its declared mappings or, if it declares none, with some that it derives. -/
theorem mappings_eq (h : f.Derived session) (hm : session.catalog.resultMap m.id = .ok m) :
    m.isAuto = false ∧ f.mappings m = m.declared ∨
      ∃ columns, f.mappings m =
        (m.derivedFrom session.catalog.registry columns).map ColumnMapping.mapping := by
  -- a request has mappings of its own for a map only if the map declares none
  have hinstalled : f.mappings m = f.world.declaredMappings m ∨ m.isAuto = true ∧
      ∃ columns, f.mappings m =
        (m.derivedFrom session.catalog.registry columns).map ColumnMapping.mapping := by
    cases hget : Table.get? m.id f.request.mappings with
    | none => exact .inl (Frame.mappings_of_none hget)
    | some installed =>
      obtain ⟨hauto, columns, hinstalled⟩ := h.installed m installed hm hget
      cases hremap : m.remappable with
      | false => exact .inl (f.mappings_of_fixed hremap)
      | true =>
        refine .inr ⟨hauto, columns, ?_⟩
        unfold Frame.mappings
        rw [hremap, hget]
        exact hinstalled
  rcases hinstalled with hknown | ⟨-, hderived⟩
  · rw [hknown]
    cases hmappings : m.mappings with
    | declared mappings =>
      have hauto : m.isAuto = false := by
        unfold ResultMap.isAuto
        rw [hmappings]
      exact .inl ⟨hauto, f.world.declaredMappings_eq hauto⟩
    | auto home => exact .inr (h.world.declaredMappings_eq hm hmappings)
  · exact .inr hderived

end Frame.Derived

/-! ## Rows of a query -/

namespace Execution

variable {x : Execution} {opened : Frame}

/-- A query opens its rows in a request that reads maps with declared mappings or with derived ones. -/
theorem Opens.derived (hi : Table.Indexed ResultMap.id x.session.catalog.resultMaps)
    (hw : x.world.Derived x.session) (h : x.Opens m rows opened) : opened.Derived x.session := by
  obtain ⟨response, g, hsubmit, -, hopen⟩ := h.opens
  obtain ⟨hstatement, database, context, -, rfl⟩ := Session.submit_eq_ok hsubmit
  obtain ⟨id, hid⟩ := Catalog.resultMap_of_statement hstatement
  rw [Session.openRows_eq_opened hopen]
  refine Frame.Derived.opened ?_ (Catalog.resultMap_id hi hid ▸ hid) rows
  exact (Frame.Derived.inner hw).next rfl fun h => h

end Execution

end RowMapper
