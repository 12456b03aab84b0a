/-
Registrations for SQL types that nothing asks for. Two states in which the same is done, but for a
registration more behind the catalogs of the second (`World.Beside`), stay alike: the second catalogs are
accepted when the first are, and every query, update and reading of a lazy value has the same outcome in
both (`World.Beside.outcomes`). The host type must be handled without the registration, or be the
parameter class of no statement: else nested selects read their parameters in another way
(`World.Beside.unhandled`).
-/
import RowMapper.Proofs.Engine.Catalogs
import RowMapper.Proofs.Engine.Registries

namespace RowMapper

variable {α : Type} {c c' : Catalog} {r : Registry} {session : Session} {w w' : World}
  {plan : CatalogPlan} {host : DataType} {label : String} {k : Coercer}

/-! ## Plans -/

/-- The plan with a registration for a SQL type. -/
def CatalogPlan.register (plan : CatalogPlan) (host : DataType) (label : String) (k : Coercer) :
    CatalogPlan :=
  { plan with registry := plan.registry.register host (some label) k }

/-- The parameter classes of a plan that a type stands for are handled. -/
def CatalogPlan.Handles (plan : CatalogPlan) (host : DataType) : Prop :=
  ∀ s ∈ plan.statements, ∀ type, s.parameterClass = some type → type.name = host.name →
    plan.registry.handles host = true

namespace Catalog

/-- A registration for a SQL type that a plan does not ask for changes nothing of the catalog but the
registry, nor whether it is accepted. -/
theorem build_register (h : plan.Avoids label) : build (plan.register host label k) =
    (build plan).map (·.withRegistry (plan.registry.register host (some label) k)) :=
  build_agreesBut Registry.agreesBut_register h

theorem servedBy_register (hplan : plan.Handles host) (h : build plan = .ok c) :
    c.ServedBy (plan.registry.register host (some label) k) where
  coercers type := registry_of_build h ▸ Registry.find?_register (Registry.avoids_none label)
  parameters {id statement type} hs htype := by
    obtain ⟨s, hmem, hclass⟩ :=
      parameterClass_of_build h _ (Table.mem_of_get? (statement_ok_iff.1 hs))
    rw [registry_of_build h, Registry.handles_register]
    by_cases hname : type.name = host.name
    · have hhost : plan.registry.handles host = true := hplan s hmem type (hclass ▸ htype) hname
      have htype : plan.registry.handles type = true := by
        unfold Registry.handles at hhost ⊢
        rwa [hname]
      rw [htype, Bool.or_true]
    · rw [beq_false_of_ne hname, Bool.false_or]

/-- Catalogs that differ in nothing but the registry, which serves the one as that of the other does. -/
def Alike (c c' : Catalog) : Prop := ∃ r, c' = c.withRegistry r ∧ c.ServedBy r

end Catalog

/-! ## Steps -/

namespace World

/-- States that differ in nothing but the registries of the catalogs of their sessions. -/
def Alike (w w' : World) : Prop :=
  ∃ cs, List.Forall₂ Catalog.Alike w.catalogs cs ∧ w' = w.withCatalogs cs

namespace Alike

theorem session? (h : w.Alike w') {number : Nat} (hs : w.session? number = some session) :
    ∃ r, session.catalog.ServedBy r ∧ w'.session? number = some (session.withRegistry r) := by
  obtain ⟨cs, hcs, rfl⟩ := h
  obtain ⟨c, hc, rfl⟩ := Option.map_eq_some_iff.1 hs
  obtain ⟨hlt, rfl⟩ := List.getElem?_eq_some_iff.1 hc
  have hlt' : number < cs.length := hcs.length_eq ▸ hlt
  obtain ⟨r, hr, hserved⟩ := hcs.get hlt hlt'
  refine ⟨r, hserved, ?_⟩
  show cs[number]?.map _ = _
  rw [List.getElem?_eq_getElem hlt']
  exact congrArg (fun c => some (Session.mk number c)) hr

theorem session?_none (h : w.Alike w') {number : Nat} (hs : w.session? number = none) :
    w'.session? number = none := by
  obtain ⟨cs, hcs, rfl⟩ := h
  have hlength : w.catalogs.length ≤ number := List.getElem?_eq_none_iff.1 (Option.map_eq_none_iff.1 hs)
  exact Option.map_eq_none_iff.2 (List.getElem?_eq_none_iff.2 (hcs.length_eq ▸ hlength))

theorem join (h : w.Alike w') (hc : c.Alike c') : (w.join c).2.Alike (w'.join c').2 := by
  obtain ⟨cs, hcs, rfl⟩ := h
  exact ⟨_, List.rel_append hcs (.cons hc .nil), rfl⟩

theorem openSession (h : w.Alike w') (hc : c.Alike c') :
    (w.openSession c).2.Alike (w'.openSession c').2 := by
  have hhome : w'.catalogs.length = w.catalogs.length := by
    obtain ⟨cs, hcs, rfl⟩ := h
    exact hcs.length_eq.symm
  obtain ⟨r, rfl, hr⟩ := hc
  unfold World.openSession
  rw [hhome]
  exact h.join ⟨r, rfl, hr.coercers, hr.parameters⟩

/-- What looks at no catalog has the same outcome in states that are alike, which stay so. -/
theorem run {run : World → α × World} (hrun : Blind run) (h : w.Alike w') :
    (run w').1 = (run w).1 ∧ (run w).2.Alike (run w').2 := by
  obtain ⟨cs, hcs, rfl⟩ := h
  rw [hrun w cs]
  exact ⟨rfl, cs, (hrun.catalogs w).symm ▸ hcs, rfl⟩

theorem query (h : w.Alike w') (hr : session.catalog.ServedBy r) (id : String) (parameter : Value)
    (target : Option Value) (window : Window) (receive : Receiver) :
    let done := session.query session.loader id parameter target window receive w
    let done' := (session.withRegistry r).query (session.withRegistry r).loader id parameter target
      window receive w'
    done'.1 = done.1 ∧ done.2.Alike done'.2 := by
  intro done done'
  have hdone' : done' = session.query session.loader id parameter target window receive w' := by
    rw [← Session.loader_withRegistry hr, ← Session.query_withRegistry hr]
  rw [hdone']
  exact h.run (session.blind_query nestingBound id parameter target window receive)

theorem update (h : w.Alike w') (id : String) (parameter : Value) :
    let done := (session.update id parameter).run w
    let done' := ((session.withRegistry r).update id parameter).run w'
    done'.1 = done.1 ∧ done.2.Alike done'.2 :=
  h.run (session.blind_update id parameter)

theorem force (h : w.Alike w') (ref : LazyRef) :
    let done := (World.force ref).run w
    let done' := (World.force ref).run w'
    done'.1 = done.1 ∧ done.2.Alike done'.2 := by
  dsimp only
  have hcells : w'.store = w.store := by obtain ⟨cs, -, rfl⟩ := h; rfl
  unfold World.force
  rw [run_gets_bind, run_gets_bind, hcells]
  cases w.store.lazyCell? ref with
  | none => exact ⟨rfl, h⟩
  | some cell =>
    dsimp only
    cases cell.loaded with
    | some v => exact ⟨rfl, h⟩
    | none =>
      cases hs : w.session? cell.query.session with
      | none =>
        rw [h.session?_none hs]
        exact ⟨rfl, h⟩
      | some session =>
        -- the second session loads as the first does, and neither looks at the other catalogs
        obtain ⟨r, hr, hs'⟩ := h.session? hs
        rw [hs']
        dsimp only
        rw [Session.loader_withRegistry hr]
        exact h.run (session.blind_settle ref cell.query)

theorem refl (w : World) : w.Alike w :=
  ⟨w.catalogs, List.forall₂_same.2 fun c _ => ⟨c.registry, rfl, fun _ => rfl, fun _ _ => rfl⟩, rfl⟩

end Alike

/-! ## Histories -/

/-- Two states in which the same was done, but that the catalogs of the second were built with a
registration more, for a SQL type that nothing in them asks for. -/
inductive Beside (host : DataType) (label : String) (k : Coercer) : World → World → Prop
  | start (w : World) : Beside host label k w w
  | opened {w w' : World} {plan : CatalogPlan} {c c' : Catalog} (before : Beside host label k w w')
      (avoids : plan.Avoids label) (handles : plan.Handles host) (built : Catalog.build plan = .ok c)
      (built' : Catalog.build (plan.register host label k) = .ok c') :
      Beside host label k (w.openSession c).2 (w'.openSession c').2
  | joined {w w' : World} {number : Nat} {session session' : Session}
      (before : Beside host label k w w') (opened : w.session? number = some session)
      (opened' : w'.session? number = some session') :
      Beside host label k (w.join session.catalog).2 (w'.join session'.catalog).2
  | queried {w w' : World} {number : Nat} {session session' : Session}
      (before : Beside host label k w w') (opened : w.session? number = some session)
      (opened' : w'.session? number = some session')
      (id : String) (parameter : Value) (target : Option Value) (window : Window) (receive : Receiver) :
      Beside host label k (session.query session.loader id parameter target window receive w).2
        (session'.query session'.loader id parameter target window receive w').2
  | updated {w w' : World} {number : Nat} {session session' : Session}
      (before : Beside host label k w w') (opened : w.session? number = some session)
      (opened' : w'.session? number = some session')
      (id : String) (parameter : Value) :
      Beside host label k ((session.update id parameter).run w).2
        ((session'.update id parameter).run w').2
  | forced {w w' : World} (before : Beside host label k w w') (ref : LazyRef) :
      Beside host label k ((force ref).run w).2 ((force ref).run w').2
  | changed {w w' : World} (before : Beside host label k w w') (x : World) :
      Beside host label k (x.withCatalogs w.catalogs) (x.withCatalogs w'.catalogs)

namespace Beside

/-- Whatever is done, the states stay alike. -/
theorem alike (h : Beside host label k w w') : w.Alike w' := by
  induction h with
  | start w => exact .refl w
  | @opened _ _ plan c c' _ avoids handles built built' ih =>
    -- a plan that builds has only one catalog with the registration
    rw [Catalog.build_register avoids, built] at built'
    cases built'
    exact ih.openSession ⟨_, rfl, Catalog.servedBy_register handles built⟩
  | joined _ opened opened' ih =>
    obtain ⟨r, hr, hs⟩ := ih.session? opened
    cases opened'.symm.trans hs
    exact ih.join ⟨r, rfl, hr⟩
  | queried _ opened opened' id parameter target window receive ih =>
    obtain ⟨r, hr, hs⟩ := ih.session? opened
    cases opened'.symm.trans hs
    exact (ih.query hr id parameter target window receive).2
  | updated _ opened opened' id parameter ih =>
    obtain ⟨r, -, hs⟩ := ih.session? opened
    cases opened'.symm.trans hs
    exact (ih.update id parameter).2
  | forced _ ref ih => exact (ih.force ref).2
  | changed _ x ih =>
    obtain ⟨cs, hcs, rfl⟩ := ih
    exact ⟨cs, hcs, rfl⟩

/-- The sessions of the two states answer every query and update alike, and lazy values read alike. -/
theorem outcomes (h : Beside host label k w w') :
    (∀ number session, w.session? number = some session →
      ∃ session', w'.session? number = some session' ∧
        (∀ id parameter target window (receive : Receiver),
          (session'.query session'.loader id parameter target window receive w').1 =
            (session.query session.loader id parameter target window receive w).1) ∧
        ∀ id parameter,
          ((session'.update id parameter).run w').1 = ((session.update id parameter).run w).1) ∧
    ∀ ref, ((force ref).run w').1 = ((force ref).run w).1 := by
  refine ⟨fun number session hs => ?_, fun ref => (h.alike.force ref).1⟩
  obtain ⟨r, hr, hs'⟩ := h.alike.session? hs
  refine ⟨_, hs', fun id parameter target window receive => ?_, fun id parameter => ?_⟩
  · exact (h.alike.query hr id parameter target window receive).1
  · exact (h.alike.update id parameter).1

/-- A nested select for each row, whose parameter is a map of a column. -/
def mapped : CatalogPlan where
  resultMaps :=
    [{ id := "P", resultClass := some .map, mappings := .declared
        [{ property := "kids", route := .nestedSelect "k", column := some "\x7bid=ID\x7d",
           type := some .list }] },
      { id := "K", resultClass := some .map,
        mappings := .declared [{ property := "n", column := some "N" }] }]
  statements :=
    [{ id := "s", kind := .select, sql := "q", resultMap := some "P" },
      { id := "k", kind := .select, sql := "k", resultMap := some "K", parameterClass := some .map,
        parameterMap := some { id := "k", mappings := [{ property := "id" }] } }]

/-- Whether a session of a catalog gives the list of its objects for one row. -/
def mappedRun (c : Catalog) : Bool :=
  let database : Script :=
    { registrations :=
        [{ sql := "q", reply := .rows { columns := ["ID"], rows := [[.i32 1]] } },
          { sql := "k", reply := .rows { columns := ["N"], rows := [[.string "a"]] } }] }
  let opened := ({ database } : World).openSession c
  ((opened.1.queryForList "s" .null).run opened.2).1.isOk

/-- A host type that is not handled without the registration is taken for one that is read from a single
column, which a nested select looks for under the whole specifier of its parameter. -/
theorem unhandled : ∃ c c' : Catalog, mapped.Avoids "JSON" ∧ Catalog.build mapped = .ok c ∧
    Catalog.build (mapped.register .map "JSON" .object) = .ok c' ∧
    mappedRun c = true ∧ mappedRun c' = false := by
  have havoids : mapped.Avoids "JSON" := by
    refine .of_none "JSON" ?_ ?_
    · simp [mapped, ResultMap.declared]
    · simp [mapped]
  exact ⟨_, _, havoids, rfl, rfl, by decide +kernel, by decide +kernel⟩

end Beside

end World

end RowMapper
