/-
Objects stay typed. Whatever is done with the sessions of whatever catalogs, a property of a bean whose
declared type is scalar holds null or a value of exactly that type, unless some catalog gathers nested
elements at a property of that name: there a collection may stand (`World.Worked.typed`).
-/
import RowMapper.Proofs.Engine.Catalogs
import RowMapper.Proofs.Objects.Typed

namespace RowMapper

/-- Some map of the catalog gathers nested elements at a property of this name. -/
def Catalog.GathersAt (c : Catalog) (property : String) : Prop :=
  ∃ m, c.Holds m ∧ ∃ mapping ∈ m.declared,
    mapping.isNestedMap = true ∧ Text.lastStep mapping.property = property

/-- All that the engine does to a store with a catalog keeps its objects typed. -/
theorem Catalog.upholds_typed {c : Catalog} {gathers : String → Prop}
    (hg : ∀ property, c.GathersAt property → gathers property) : c.Upholds (Store.Typed gathers) := by
  refine (Store.stable_typed gathers).upholds (fun _ h => h) ?_
  intro _ m mapping _ parent hm hmem hnested hchange h
  exact h.update c.accessor parent (hg _ ⟨m, hm, mapping, hmem, hnested, rfl⟩) hchange

theorem Store.typed_empty (gathers : String → Prop) : ({} : Store).Typed gathers := by
  intro r
  rw [data_of_size_le (Nat.zero_le _)]
  exact ObjectData.typed_of_null nofun

theorem Store.Typed.mono {gathers gathers' : String → Prop} {s : Store} (h : s.Typed gathers)
    (hg : ∀ property, gathers property → gathers' property) : s.Typed gathers' :=
  fun r property declared v hdeclared hv =>
    (h r property declared v hdeclared hv).imp_right fun hw => ⟨hg property hw.1, hw.2⟩

/-! ## Histories -/

namespace World

variable {w : World} {session : Session} {property : String}

/-- Some session gathers nested elements at a property of this name. -/
def GathersAt (w : World) (property : String) : Prop := ∃ c ∈ w.catalogs, c.GathersAt property

theorem upholds_typed {number : Nat} (opened : w.session? number = some session) :
    session.catalog.Upholds (Store.Typed w.GathersAt) := by
  obtain ⟨catalog, hc, rfl⟩ := Option.map_eq_some_iff.1 opened
  exact Catalog.upholds_typed fun _ hg => ⟨catalog, List.mem_of_getElem? hc, hg⟩

/-- The states that come about from typed objects when sessions are opened, their statements are run,
lazy values are read, and a client changes the database and objects, but leaves them typed. A receiver
may stop a query behind any of its objects. -/
inductive Worked : World → Prop
  | start {w : World} (typed : w.store.Typed w.GathersAt) : Worked w
  | opened {w : World} (before : Worked w) (c : Catalog) : Worked (w.openSession c).2
  | joined {w : World} (before : Worked w) (c : Catalog) : Worked (w.join c).2
  | queried {w : World} {session : Session} (before : Worked w)
      (opened : w.session? session.number = some session) (id : String) (parameter : Value)
      (target : Option Value) (window : Window) (receive : Receiver) :
      Worked (session.query session.loader id parameter target window receive w).2
  | updated {w : World} {session : Session} (before : Worked w)
      (opened : w.session? session.number = some session) (id : String) (parameter : Value) :
      Worked ((session.update id parameter).run w).2
  | forced {w : World} (before : Worked w) (ref : LazyRef) : Worked ((force ref).run w).2
  | changed {w w' : World} (before : Worked w) (catalogs : w'.catalogs = w.catalogs)
      (typed : w'.store.Typed w.GathersAt) : Worked w'

theorem gathersAt_of_catalogs_eq {w' : World} (h : w'.catalogs = w.catalogs) :
    w'.GathersAt = w.GathersAt := by
  unfold GathersAt
  rw [h]

namespace Worked

/-- Whatever is done, all objects stay typed. -/
theorem typed (h : w.Worked) : w.store.Typed w.GathersAt := by
  induction h with
  | start typed => exact typed
  | opened _ c ih | joined _ c ih =>
    exact ih.mono fun property ⟨d, hd, hg⟩ => ⟨d, List.mem_append_left _ hd, hg⟩
  | @queried w session _ opened id parameter target window receive ih =>
    have hcatalogs : (session.query session.loader id parameter target window receive w).2.catalogs =
        w.catalogs := (session.blind_query nestingBound id parameter target window receive).catalogs w
    rw [gathersAt_of_catalogs_eq hcatalogs]
    exact (upholds_typed opened).query ih nestingBound id parameter target window receive
  | updated _ opened id parameter ih =>
    rw [gathersAt_of_catalogs_eq ((Session.blind_update _ id parameter).catalogs _)]
    exact (upholds_typed opened).update ih id parameter
  | forced _ ref ih =>
    rw [gathersAt_of_catalogs_eq (catalogs_force ref)]
    exact Catalog.Upholds.force ih fun _ _ _ opened => upholds_typed opened
  | changed _ catalogs typed _ =>
    rw [gathersAt_of_catalogs_eq catalogs]
    exact typed

/-- Where no session gathers nested elements, a property of a scalar type holds null or a value of
exactly that type. -/
theorem isOf (h : w.Worked) {r : ObjectRef} {declared : DataType} {v : Value}
    (hdeclared : (w.store.data r).propertyType? property = some declared)
    (hv : (w.store.data r).slot? property = some v) (hg : ¬w.GathersAt property) : v.IsOf declared :=
  (h.typed r property declared v hdeclared hv).resolve_right fun hgathered => hg hgathered.1

/-- Parents with a number where they are to have a list of children. -/
def mistaken : CatalogPlan where
  resultMaps :=
    [{ id := "P", resultClass := some (.bean "P" [("id", .i32), ("kids", .i32)]), mappings := .declared
        [{ property := "id", column := some "n" },
          { property := "kids", route := .nestedMap "C", type := some .list }] },
      { id := "C", resultClass := some .map,
        mappings := .declared [{ property := "n", column := some "n" }] }]
  statements := [{ id := "s", kind := .select, sql := "q", resultMap := some "P" }]

/-- The state of a session of that catalog behind a query of one row. -/
def mistakenRun (c : Catalog) : World :=
  let rows : RowSet := { columns := ["n"], rows := [[.i32 5]] }
  let database : Script := { registrations := [{ sql := "q", reply := .rows rows }] }
  let opened := ({ database } : World).openSession c
  ((opened.1.queryForList "s" .null).run opened.2).2

/-- Where elements are gathered, the list of them may stand against the declared type: the catalog is
accepted, and the query puts a list into the number. -/
theorem gathered_list_at_number : ∃ (c : Catalog) (r : ObjectRef),
    Catalog.build mistaken = .ok c ∧ (mistakenRun c).Worked ∧ c.GathersAt "kids" ∧
      (((mistakenRun c).store.data r).propertyType? "kids").bind DataType.variant? = some .i32 ∧
      (((mistakenRun c).store.data r).slot? "kids").map Value.variant = some .list := by
  obtain ⟨c, m, mapping, hc, hm, hmem, hnested, hstep, htype, hlist⟩ :
      ∃ c m mapping, Catalog.build mistaken = .ok c ∧ c.resultMap "P" = .ok m ∧
        mapping ∈ m.declared ∧ mapping.isNestedMap = true ∧ Text.lastStep mapping.property = "kids" ∧
        (((mistakenRun c).store.data ⟨0⟩).propertyType? "kids").bind DataType.variant? = some .i32 ∧
        (((mistakenRun c).store.data ⟨0⟩).slot? "kids").map Value.variant = some .list :=
    ⟨_, _, _, rfl, rfl, .tail _ (.head _), rfl, by decide, by decide +kernel, by decide +kernel⟩
  refine ⟨c, ⟨0⟩, hc, ?_, ⟨m, ⟨"P", hm⟩, mapping, hmem, hnested, hstep⟩, htype, hlist⟩
  exact .queried (.opened (.start (Store.typed_empty _)) c) rfl "s" .null none {} .any

end Worked

end World

end RowMapper
