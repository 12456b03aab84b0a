/-
Queries do not depend on what a session did before. A query reaches statements and result maps; when
none of these maps keeps mappings for its catalog, and what the replies refer to is as it was, the
query gives the same in the used session as in a fresh one, objects under other names.
-/
import RowMapper.Proofs.Engine.History
import RowMapper.Proofs.Engine.RenamedQuery
import RowMapper.Proofs.Engine.Rows

namespace RowMapper

/-! ## What a query reaches -/

namespace Catalog

mutual

/-- The statements that a query of a statement may run. -/
inductive ReachesStatement (c : Catalog) (id : String) : Statement → Prop
  | query {statement : Statement} (h : c.statement id = .ok statement) : c.ReachesStatement id statement
  | nestedSelect {m : ResultMap} {mapping : ResultMapping} {select : String} {statement : Statement}
      (m_reached : c.ReachesMap id m) (declared : mapping ∈ m.declared)
      (route : mapping.route = .nestedSelect select) (found : c.statement select = .ok statement) :
      c.ReachesStatement id statement

/-- The maps that a query of a statement may read rows with. -/
inductive ReachesMap (c : Catalog) (id : String) : ResultMap → Prop
  | own {statement : Statement} {m : ResultMap} (reached : c.ReachesStatement id statement)
      (own : c.statementResultMap statement = .ok (some m)) : c.ReachesMap id m
  | subMap {m n : ResultMap} {d : Discriminator} {value sub : String} (reached : c.ReachesMap id m)
      (discriminator : m.discriminator = some d) (subMap : d.subMap? value = some sub)
      (found : c.resultMap sub = .ok n) : c.ReachesMap id n
  | nestedMap {m n : ResultMap} {mapping : ResultMapping} {child : String}
      (reached : c.ReachesMap id m) (declared : mapping ∈ m.declared)
      (route : mapping.route = .nestedMap child) (found : c.resultMap child = .ok n) :
      c.ReachesMap id n

end

variable {c : Catalog} {id : String} {m : ResultMap} {statement : Statement}

theorem ReachesMap.found (h : c.ReachesMap id m) : ∃ key, c.resultMap key = .ok m := by
  cases h with
  | own _ h => exact resultMap_of_statement h
  | subMap _ _ _ h => exact ⟨_, h⟩
  | nestedMap _ _ _ h => exact ⟨_, h⟩

theorem ReachesMap.registered (hi : Table.Indexed ResultMap.id c.resultMaps) (h : c.ReachesMap id m) :
    c.resultMap m.id = .ok m := by
  obtain ⟨key, hkey⟩ := h.found
  exact resultMap_id hi hkey ▸ hkey

theorem ReachesStatement.again (hi : Table.Indexed Statement.id c.statements)
    (h : c.ReachesStatement id statement) : c.statement statement.id = .ok statement := by
  cases h with
  | query h => exact statement_id hi h ▸ h
  | nestedSelect _ _ _ h => exact statement_id hi h ▸ h

/-- A query is the same in what it reaches, as a whole. -/
def reached (c : Catalog) (id : String) (registrations : List Registration) : Renaming.Scope where
  maps := c.ReachesMap id
  reading := c.ReachesMap id
  statements := c.ReachesStatement id
  keys _ _ := True
  registrations := registrations
  row := none

theorem reached_closed {φ : Renaming} {session : Session}
    (hs : Table.Indexed Statement.id session.catalog.statements)
    (hloader : ∀ v, session.catalog.loader = .fixed v → v.rename φ = v)
    {registrations : List Registration}
    (hreplies : ∀ r ∈ registrations, ∀ v ∈ r.values, v.rename φ = v) :
    (session.catalog.reached id registrations).Closed φ session where
  reading h := h
  nestedReading := .nestedMap
  own := .own
  subMap := .subMap
  nestedMap := .nestedMap
  nestedSelect := .nestedSelect
  again h hother := by
    rw [ReachesStatement.again hs h] at hother
    cases hother
    exact h
  loader := hloader
  replies := hreplies

end Catalog

/-! ## Two sessions -/

namespace Session

variable {session : Session} {w used : World} {store : Store} {φ : Renaming} {id : String}

/-- A request in the used session starts as one in the fresh session, under other names. -/
theorem frames_of_history (hmaps : Table.Indexed ResultMap.id session.catalog.resultMaps)
    (hauto : ∀ m, session.catalog.ReachesMap id m → m.isAuto = true → m.remappable = true)
    (hhistory : session.History w used) (hcopies : φ.Copies store used.store) :
    φ.Frames (session.catalog.reached id w.database.registrations) { world := { w with store } }
      { world := used } where
  copies := hcopies
  registrations := rfl
  registrations' := (hhistory.kept hmaps).registrations
  derived m home hm hd :=
    have hremap : m.remappable = true := hauto m hm (by rw [ResultMap.isAuto, hd])
    (hhistory.kept hmaps).derived m home (hm.registered hmaps) hremap
  row := rfl
  stays _ h := nomatch h
  cells := nofun
  mappings _ _ := rfl
  installed _ _ _ h := nomatch h
  identity _ _ _ := rfl
  assembling _ _ _ _ := Iff.rfl
  whole _ := ⟨rfl, rfl, Array.map_empty.symm⟩

/-- What a session did before is of no matter for a query, if the maps that it reaches keep no mappings
for its catalog, and if what the replies refer to is as it was: it gives the objects that it gives in
the fresh session, which show the same under their other names, or stops in the same way. -/
theorem queryForList_after {parameter : Value} {window : Window}
    (hmaps : Table.Indexed ResultMap.id session.catalog.resultMaps)
    (hstatements : Table.Indexed Statement.id session.catalog.statements)
    (hauto : ∀ m, session.catalog.ReachesMap id m → m.isAuto = true → m.remappable = true)
    (hhistory : session.History w used) (hcopies : φ.Copies store used.store)
    (hreplies : ∀ r ∈ w.database.registrations, ∀ v ∈ r.values, v.rename φ = v)
    (hloader : ∀ v, session.catalog.loader = .fixed v → v.rename φ = v) :
    let fresh := (session.queryForList id parameter window).run { w with store }
    let again := (session.queryForList id (parameter.rename φ) window).run used
    Outcomes (fun items items' => items'.map again.2.store.content =
      items.map fun v => (fresh.2.store.content v).rename φ.object φ.lazy) fresh.1 again.1 := by
  intro fresh again
  have hclosed : (session.catalog.reached id w.database.registrations).Closed φ session :=
    Catalog.reached_closed hstatements hloader hreplies
  have hframes := frames_of_history hmaps hauto hhistory hcopies
  have hcollect := Correspondence.collect
    (K := φ.onRequest (session.catalog.reached id w.database.registrations) session) (v := parameter) window .any (fun _ => Catalog.ReachesStatement.query) hframes
    (Renaming.nests hframes) (Renaming.answers_inside hclosed nestingBound) rfl
  obtain ⟨hfinal, -, ho⟩ := hcollect.resolve_left fun ⟨_, hloose, _⟩ => hloose
  rw [Frame.run_onWorld, Frame.run_onWorld] at ho hfinal
  refine ho.imp fun items items' hv => ?_
  rw [Renaming.values_eq_map hv, List.map_map]
  exact List.map_congr_left fun v _ => hfinal.copies.content v

/-! ## Outputs that are shared -/

/-- A session with a select that calls the procedure `deep` for each row, and with the procedure
`flat`. The calls give `out` and a number, which go to the property `a` of their parameter, and to a
property of what is there then. -/
def procedures (out : Value) : Session × World :=
  let outputs : OutParams := { values := [out, .i32 1] }
  let replies : List Registration :=
    [{ sql := "top", reply := .rows { columns := ["ID"], rows := [[.i32 1]] } },
      { sql := "deep", reply := .call (some { columns := ["N"], rows := [[.i32 7]] }) outputs },
      { sql := "flat", reply := .call (some { columns := ["N"] }) outputs }]
  let procedure (id path : String) : Statement :=
    { id, kind := .procedure, sql := id, resultMap := some "N", parameterClass := some .map
      parameterMap := some
        { id, mappings := ["a", path].map fun property =>
          { property, mode := .output, coercer := some .object } } }
  let maps : List ResultMap :=
    [{ id := "M", resultClass := some .map, mappings := .declared
        [{ property := "id", column := some "ID", coercer := some .object },
          { property := "r", route := .nestedSelect "deep", type := some .object
            spec := some (.composite [("x", "ID")]) }] },
      .keyed "N" ["N"] []]
  let statements : List Statement :=
    [{ id := "top", kind := .select, sql := "top", resultMap := some "M" },
      procedure "deep" "a.b.c", procedure "flat" "a.b"]
  World.openSession
    { store := { objects := #[.map [], .map []] }, database := { registrations := replies } }
    { resultMaps := maps.map fun m => (m.id, m), statements := statements.map fun s => (s.id, s) }

variable {out : Value}

theorem indexed_procedures :
    Table.Indexed ResultMap.id (procedures out).1.catalog.resultMaps ∧
      Table.Indexed Statement.id (procedures out).1.catalog.statements := by
  refine ⟨⟨by simp [procedures, World.openSession, World.join, Catalog.atHome, ResultMap.keyed], ?_⟩,
    ⟨by simp [procedures, World.openSession, World.join, Catalog.atHome], ?_⟩⟩
  · simp [procedures, World.openSession, World.join, Catalog.atHome, ResultMap.atHome, ResultMap.keyed]
  · simp [procedures, World.openSession, World.join, Catalog.atHome]

theorem declared_procedures {m : ResultMap} (h : (procedures out).1.catalog.ReachesMap id m) :
    m.isAuto = false := by
  obtain ⟨key, hkey⟩ := h.found
  have hmem := Table.mem_of_get? (Catalog.resultMap_ok_iff.1 hkey)
  rcases List.mem_pair.1 hmem with h | h <;> cases h <;> rfl

theorem rename_procedures (hout : out.Plain) :
    ∀ r ∈ (procedures out).2.database.registrations, ∀ v ∈ r.values, v.rename φ = v := by
  simp [procedures, World.openSession, World.join, Catalog.atHome, Registration.values, Reply.cells,
    RowSet.cells, Value.rename, hout.rename]

/-- What a call gives as an output is shared: a later call writes into it, and a query that could go
through it before cannot any more. -/
theorem outputs_remember :
    let x := procedures (.object ⟨0⟩)
    let used := ((x.1.queryForList "flat" (.object ⟨1⟩)).run x.2).2
    x.1.catalog.settings.lazyLoading = false ∧
      (∀ r ∈ x.2.database.registrations, ∀ rows outputs,
        r.reply = .rows rows ∨ r.reply = .call (some rows) outputs → ∀ v ∈ rows.cells, v.Plain) ∧
      (∀ m, x.1.catalog.ReachesMap "top" m → m.isAuto = false) ∧ x.1.History x.2 used ∧
      ((x.1.queryForList "top" .null).run x.2).1.isOk = true ∧
      ((x.1.queryForList "top" .null).run used).1.isOk = false := by
  refine ⟨rfl, ?_, fun m => declared_procedures, history_list _ _ _ _, by decide +kernel,
    by decide +kernel⟩
  have hnumber : ∀ n, (Value.i32 n).Plain := fun _ => ⟨rfl, rfl⟩
  intro r hr rows outputs hrows
  simp only [procedures, World.openSession, World.join, Catalog.atHome, List.mem_cons,
    List.not_mem_nil, or_false] at hr
  rcases hr with rfl | rfl | rfl <;> rcases hrows with h | h <;> cases h <;>
    simp [RowSet.cells, hnumber]

theorem queryForList_after_flat :
    let x := procedures .null
    let used := ((x.1.queryForList "flat" (.object ⟨1⟩)).run x.2).2
    let φ := Renaming.behind used.store
    let fresh := (x.1.queryForList "top" .null).run { x.2 with store := {} }
    let again := (x.1.queryForList "top" (Value.null.rename φ)).run used
    fresh.1.isOk = true ∧ Outcomes (fun items items' => items'.map again.2.store.content =
      items.map fun v => (fresh.2.store.content v).rename φ.object φ.lazy) fresh.1 again.1 := by
  intro x used φ
  have hindexed : Table.Indexed ResultMap.id x.1.catalog.resultMaps ∧
    Table.Indexed Statement.id x.1.catalog.statements := indexed_procedures
  have hmaps : ∀ m, x.1.catalog.ReachesMap "top" m → m.isAuto = true → m.remappable = true :=
    fun m h ha => by rw [declared_procedures h] at ha; cases ha
  have hhistory : x.1.History x.2 used := history_list _ _ _ _
  have hreplies : ∀ r ∈ x.2.database.registrations, ∀ v ∈ r.values, v.rename φ = v :=
    rename_procedures ⟨rfl, rfl⟩
  have hloader : ∀ v, x.1.catalog.loader = .fixed v → v.rename φ = v := nofun
  have hcopies : φ.Copies {} used.store := Renaming.behind_copies used.store
  have hok : ((x.1.queryForList "top" .null).run { x.2 with store := {} }).1.isOk = true := by
    decide +kernel
  clear_value used φ x
  exact ⟨hok, queryForList_after hindexed.1 hindexed.2 hmaps hhistory hcopies hreplies hloader⟩

end Session

end RowMapper
