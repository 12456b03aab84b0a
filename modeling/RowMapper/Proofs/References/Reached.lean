/-
No dangling references. The catalogs that are accepted are those whose references all name something,
so whatever is done with the sessions of such catalogs, and in whatever order, no look-up of a result
map or statement fails but that of a statement that the caller asks for (`World.Reached.no_dangling`).
-/
import RowMapper.Proofs.Engine.Termination
import RowMapper.Proofs.References.Queries

namespace RowMapper

/-! ## Accepted catalogs -/

namespace Catalog

variable {c : Catalog}

/-- The check of a catalog goes through all of its references. -/
theorem resolved_of_verify (h : c.verify = .ok ()) : c.Resolved := by
  obtain ⟨_, hmaps, h⟩ := Except.bind_eq_ok_iff.1 h
  obtain ⟨_, hstatements, -⟩ := Except.bind_eq_ok_iff.1 h
  have hreferences : ∀ entry ∈ c.resultMaps, c.verifyReferences entry.2 = .ok () :=
    Except.forM_ok_iff.1 hmaps
  refine ⟨fun entry he mapping hm => ?_, fun entry he d hd sub hsub => ?_, fun entry he id hid => ?_⟩
  · obtain ⟨_, hroutes, -⟩ := Except.bind_eq_ok_iff.1 (hreferences entry he)
    exact (verifyRoute_ok_iff _).1 (Except.forM_ok_iff.1 hroutes mapping hm)
  · obtain ⟨_, -, hsubs⟩ := Except.bind_eq_ok_iff.1 (hreferences entry he)
    rw [hd] at hsubs
    obtain ⟨m, hm, -⟩ := Except.map_eq_ok_iff.1 (Except.forM_ok_iff.1 hsubs sub hsub)
    exact ⟨m, hm⟩
  · obtain ⟨found, hfound, -⟩ := Except.map_eq_ok_iff.1 (Except.forM_ok_iff.1 hstatements entry he)
    unfold statementResultMap at hfound
    rw [hid] at hfound
    obtain ⟨m, hm, -⟩ := Except.map_eq_ok_iff.1 hfound
    exact ⟨m, hm⟩

theorem sound_of_build {plan : CatalogPlan} (h : build plan = .ok c) : c.Sound := by
  refine ⟨?_, (assemble_indexed (assemble_of_build h)).2⟩
  obtain ⟨c', -, h⟩ := Except.bind_eq_ok_iff.1 h
  obtain ⟨_, hverify, h⟩ := Except.bind_eq_ok_iff.1 h
  cases h
  exact resolved_of_verify hverify

/-- The catalog of a session refers to what the catalog that it was opened on does. -/
theorem Sound.openSession (h : c.Sound) (w : World) : (w.openSession c).1.catalog.Sound := by
  have hmap : ∀ {id : String}, (∃ m, c.resultMap id = .ok m) →
      ∃ m, (w.openSession c).1.catalog.resultMap id = .ok m := by
    rintro id ⟨m, hm⟩
    exact ⟨_, by rw [resultMap_openSession, hm]; rfl⟩
  refine ⟨⟨fun entry he mapping hmem => ?_, fun entry he d hd sub hsub => ?_,
    fun entry he id hid => hmap (h.resolved.statements entry he id hid)⟩, h.indexed⟩
  · obtain ⟨entry, hentry, rfl⟩ := List.mem_map.1 he
    rw [ResultMap.declared_atHome] at hmem
    have hnames := h.resolved.routes entry hentry mapping hmem
    unfold Names at hnames ⊢
    split
    · trivial
    · rename_i hroute
      rw [hroute] at hnames
      exact hmap hnames
    · rename_i hroute
      rw [hroute] at hnames
      exact hnames
  · obtain ⟨entry, hentry, rfl⟩ := List.mem_map.1 he
    have hdiscriminator : (entry.2.atHome w.catalogs.length).discriminator = entry.2.discriminator := by
      unfold ResultMap.atHome
      cases entry.2.mappings <;> rfl
    exact hmap (h.resolved.subMaps entry hentry d (hdiscriminator ▸ hd) sub hsub)

end Catalog

/-! ## Histories -/

namespace World

/-- The states that come about when sessions are opened on accepted catalogs, one or more on each, their
statements are run, lazy values are read, and a client changes objects and the database in the
meantime. -/
inductive Reached : World → Prop
  | start {w : World} (catalogs : w.catalogs = []) (lazies : w.store.lazies = #[]) : Reached w
  | opened {w : World} {plan : CatalogPlan} {c : Catalog} (before : Reached w)
      (accepted : Catalog.build plan = .ok c) : Reached (w.openSession c).2
  | joined {w : World} {session : Session} (before : Reached w)
      (opened : w.session? session.number = some session) : Reached (w.join session.catalog).2
  | queried {w : World} {session : Session} (before : Reached w)
      (opened : w.session? session.number = some session) (id : String) (parameter : Value)
      (target : Option Value) (window : Window) (receive : Receiver) :
      Reached (session.query session.loader id parameter target window receive w).2
  | updated {w : World} {session : Session} (before : Reached w)
      (opened : w.session? session.number = some session) (id : String) (parameter : Value) :
      Reached ((session.update id parameter).run w).2
  | forced {w : World} (before : Reached w) (ref : LazyRef) : Reached ((force ref).run w).2
  | changed {w w' : World} (before : Reached w) (catalogs : w'.catalogs = w.catalogs)
      (lazies : ∀ cell ∈ w'.store.lazies, ∃ known ∈ w.store.lazies, cell.query = known.query) :
      Reached w'

variable {w : World} {session : Session} {x : Prop}

theorem session?_join {c : Catalog} {number : Nat} (h : w.session? number = some session) :
    (w.join c).2.session? number = some session := by
  unfold session? at h ⊢
  obtain ⟨catalog, hc, rfl⟩ := Option.map_eq_some_iff.1 h
  have hlt : number < w.catalogs.length := (List.getElem?_eq_some_iff.1 hc).1
  show (w.catalogs ++ [_])[number]?.map _ = _
  rw [List.getElem?_append_left hlt, hc]
  rfl

theorem Sound.join (h : w.Sound) {c : Catalog} (hc : c.Sound) : (w.join c).2.Sound where
  catalogs := by
    intro d hd
    rcases List.mem_append.1 (show d ∈ w.catalogs ++ [c] from hd) with hd | hd
    · exact h.catalogs d hd
    · rw [List.mem_singleton.1 hd]
      exact hc
  lazies := by
    intro cell hcell
    obtain ⟨session, hs, hid⟩ := h.lazies cell hcell
    exact ⟨session, session?_join hs, hid⟩

/-- Catalogs that stay, and lazy values with queries that were there, stay sound. -/
theorem Sound.changed {w' : World} (h : w.Sound) (hcatalogs : w'.catalogs = w.catalogs)
    (hlazies : ∀ cell ∈ w'.store.lazies, ∃ known ∈ w.store.lazies, cell.query = known.query) :
    w'.Sound where
  catalogs c hc := h.catalogs c (hcatalogs ▸ hc)
  lazies := by
    intro cell hcell
    obtain ⟨known, hknown, hquery⟩ := hlazies cell hcell
    obtain ⟨session, hs, hid⟩ := h.lazies known hknown
    unfold session? at hs ⊢
    rw [hcatalogs, hquery]
    exact ⟨session, hs, hid⟩

theorem query_of_mem_setLoaded {s : Store} {ref : LazyRef} {v : Value} {cell : LazyCell}
    (h : cell ∈ (s.setLoaded ref v).lazies) : ∃ known ∈ s.lazies, cell.query = known.query := by
  unfold Store.setLoaded at h
  split at h
  · rename_i known hknown
    rcases Array.mem_or_eq_of_mem_setIfInBounds h with hold | rfl
    · exact ⟨cell, hold, rfl⟩
    · exact ⟨known, Array.mem_of_getElem? hknown, rfl⟩
  · exact ⟨cell, h, rfl⟩

/-- Reading a lazy value looks nothing up in vain. -/
theorem Sound.force (h : w.Sound) (ref : LazyRef) :
    ((World.force ref).run w).2.Sound ∧ Ends (Stop.Found x) Always ((World.force ref).run w).1 := by
  unfold World.force
  rw [run_gets_bind]
  cases hcell : w.store.lazyCell? ref with
  | none => exact ⟨h, trivial⟩
  | some cell =>
    obtain ⟨session, hs, hid⟩ := h.lazies cell (Array.mem_of_getElem? hcell)
    obtain ⟨hnumber, hc⟩ := h.session hs
    dsimp only
    cases hloaded : cell.loaded with
    | some v => exact ⟨h, trivial⟩
    | none =>
      rw [hs]
      have hstored : ∀ v, session.Loads x (Run.modify fun w => { w with store := w.store.setLoaded ref v }) :=
        fun v w hw => ⟨⟨hw.toSound.changed rfl fun _ => query_of_mem_setLoaded, hw.opened⟩, trivial, trivial⟩
      have hrun : session.Loads x (do
          let v ← session.loader cell.query.statement cell.query.parameter cell.query.target
          Run.modify fun w => { w with store := w.store.setLoaded ref v }
          return v) :=
        (Session.load_loads hc nestingBound _ _ _ hid).bind fun v _ =>
          (hstored v).bind fun _ _ => .pure trivial
      obtain ⟨hw, -, ho⟩ := hrun w ⟨h, hnumber ▸ hs⟩
      exact ⟨hw.toSound, ho⟩

end World

namespace Session

variable {session : Session} {w : World} {α : Type}

/-- The only failed look-up that an outcome tells of is that of a statement with this id. -/
def MissesOnly (session : Session) (id : String) (outcome : Except Stop α) : Prop :=
  ∀ e, outcome = .error (.failed e) → e.dangles = true → session.catalog.statement id = .error e

/-- A query leaves a sound state sound. Only its statement may be looked up in vain, unless that is what
the receiver says. -/
theorem query_missesOnly (hw : w.Serves session) (id : String) (parameter : Value)
    (target : Option Value) (window : Window) (receive : Receiver) :
    (session.query session.loader id parameter target window receive w).2.Serves session ∧
      ((∀ count, Found (receive count)) → session.MissesOnly id
        (session.query session.loader id parameter target window receive w).1.result) := by
  obtain ⟨-, hc⟩ := hw.toSound.session hw.opened
  cases hid : session.catalog.statement id with
  | error e =>
    unfold query
    rw [hid]
    refine ⟨hw, fun _ e' he _ => ?_⟩
    cases he
    exact hid
  | ok statement =>
    have hnames : session.catalog.Names (.nestedSelect id) := ⟨statement, hid⟩
    have hload := load_loads (x := ∃ count e, receive count = .error e ∧ e.dangles = true) hc nestingBound
    obtain ⟨hs, ho⟩ := query_finds hc hload hw hnames parameter target window
      fun count e he hd => ⟨count, e, he, hd⟩
    refine ⟨hs, fun hreceive e he hd => ?_⟩
    unfold loader at he
    rw [he] at ho
    obtain ⟨count, e', he', hd'⟩ := ho hd
    have hfound := hreceive count
    rw [he'] at hfound
    cases (show e'.dangles = false from hfound).symm.trans hd'

theorem MissesOnly.map {β : Type} {id : String} {outcome : Except Stop α} {f : α → β}
    (h : session.MissesOnly id outcome) : session.MissesOnly id (outcome.map f) := by
  intro e he
  cases outcome with
  | error stop =>
    cases he
    exact h e rfl
  | ok a => cases he

theorem queryForList_missesOnly (hw : w.Serves session) (id : String) (parameter : Value)
    (window : Window) : session.MissesOnly id ((session.queryForList id parameter window).run w).1 :=
  MissesOnly.map ((query_missesOnly hw id parameter none window .any).2 fun _ => trivial)

theorem queryForObject_missesOnly (hw : w.Serves session) (id : String) (parameter : Value)
    (target : Option Value) :
    session.MissesOnly id ((session.queryForObject id parameter target).run w).1 := by
  have hfound : ∀ count, Found (Receiver.single count) := by
    intro count
    unfold Receiver.single
    split <;> trivial
  have hcollect : session.MissesOnly id
      ((session.collect session.loader id parameter target {} .single).run w).1 :=
    MissesOnly.map ((query_missesOnly hw id parameter target {} .single).2 hfound)
  unfold queryForObject
  rcases hrun : (session.collect session.loader id parameter target {} .single).run w with ⟨stop | items, v⟩
  · rw [hrun] at hcollect
    rw [run_bind_error hrun]
    intro e he
    cases he
    exact hcollect e rfl
  · rw [run_bind_ok hrun]
    exact nofun

theorem call_missesOnly (hw : w.Serves session) (id : String) (parameter : Value) :
    session.MissesOnly id ((session.call id parameter).run w).1 := by
  unfold call
  cases hid : session.catalog.statement id with
  | error e =>
    intro e' he _
    cases he
    exact hid
  | ok statement =>
    have hstart : (Run.ofExcept (.ok statement) : Run World Statement).run w = (.ok statement, w) := rfl
    rw [run_bind_ok hstart]
    split
    · exact queryForList_missesOnly hw id parameter {}
    · intro e he hd
      cases he
      cases hd

theorem update_missesOnly (hw : w.Serves session) (id : String) (parameter : Value) :
    ((session.update id parameter).run w).2.Serves session ∧
      session.MissesOnly id ((session.update id parameter).run w).1 := by
  cases hid : session.catalog.statement id with
  | error e =>
    have hrun : (session.update id parameter).run w = (.error (.failed e), w) := by
      unfold update
      rw [run_step, hid]
    rw [hrun]
    refine ⟨hw, fun e' he _ => ?_⟩
    cases he
    exact hid
  | ok statement =>
    obtain ⟨hs, -, ho⟩ := update_loads (x := False) ⟨statement, hid⟩ parameter w hw
    refine ⟨hs, fun e he hd => ?_⟩
    rw [he] at ho
    exact (ho hd).elim

end Session

namespace World.Reached

variable {w : World} {session : Session}

/-- What is done with the sessions of accepted catalogs keeps the state sound. -/
theorem sound (h : w.Reached) : w.Sound := by
  induction h with
  | start catalogs lazies =>
    refine ⟨fun c hc => ?_, fun cell hcell => ?_⟩
    · rw [catalogs] at hc
      cases hc
    · rw [lazies] at hcell
      cases hcell with
      | mk hin => cases hin
  | opened _ accepted ih => exact ih.join ((Catalog.sound_of_build accepted).openSession _)
  | joined _ opened ih => exact ih.join (ih.session opened).2
  | queried _ opened id parameter target window receive ih =>
    exact (Session.query_missesOnly ⟨ih, opened⟩ id parameter target window receive).1.toSound
  | updated _ opened id parameter ih =>
    exact (Session.update_missesOnly ⟨ih, opened⟩ id parameter).1.toSound
  | forced _ ref ih => exact (ih.force (x := True) ref).1
  | changed _ catalogs lazies ih => exact ih.changed catalogs lazies

/-- No reference of an accepted catalog dangles. Whatever was done before with the sessions of accepted
catalogs, an error of running a statement in one of them tells of a failed look-up only if it is that of
the statement asked for, which is not in the catalog, and an error of reading a lazy value never does. -/
theorem no_dangling (h : w.Reached) (opened : w.session? session.number = some session) :
    (∀ id parameter target window (receive : Receiver), (∀ count, Found (receive count)) →
      session.MissesOnly id
      (session.query session.loader id parameter target window receive w).1.result) ∧
    (∀ id parameter window,
      session.MissesOnly id ((session.queryForList id parameter window).run w).1) ∧
    (∀ id parameter target,
      session.MissesOnly id ((session.queryForObject id parameter target).run w).1) ∧
    (∀ id parameter, session.MissesOnly id ((session.call id parameter).run w).1) ∧
    (∀ id parameter, session.MissesOnly id ((session.update id parameter).run w).1) ∧
    ∀ ref e, ((World.force ref).run w).1 = .error (.failed e) → e.dangles = false := by
  have hw : w.Serves session := ⟨h.sound, opened⟩
  refine ⟨fun id parameter target window receive =>
      (Session.query_missesOnly hw id parameter target window receive).2,
    Session.queryForList_missesOnly hw, Session.queryForObject_missesOnly hw,
    Session.call_missesOnly hw, fun id parameter => (Session.update_missesOnly hw id parameter).2,
    fun ref e he => ?_⟩
  have hforce := (h.sound.force (x := False) ref).2
  rw [he] at hforce
  exact Bool.eq_false_iff.2 hforce

/-- Orders with their items and their buyer, referred to without their namespace. The rows of buyers are
read with a map that is derived from their columns. -/
def shop : CatalogPlan where
  resultMaps :=
    [{ id := "shop.Order", resultClass := some .map, mappings := .declared
        [{ property := "items", route := .nestedMap "Item", type := some .list },
          { property := "buyer", column := some "buyer", route := .nestedSelect "buyer" }] },
      { id := "shop.Item", mappings := .declared [{ property := "name" }] }]
  statements :=
    [{ id := "shop.orders", kind := .select, sql := "orders", resultMap := some "Order" },
      { id := "shop.buyer", kind := .select, sql := "buyer", resultClass := some .map }]
  settings := { namespaces := true, lazyLoading := true }

theorem no_dangling_shop : ∃ (session : Session) (w : World), w.Reached ∧
    w.session? session.number = some session ∧
    session.MissesOnly "shop.orders" ((session.queryForList "shop.orders" .null).run w).1 ∧
    session.MissesOnly "orders" ((session.queryForList "orders" .null).run w).1 ∧
    ∃ e, ((session.queryForList "orders" .null).run w).1 = .error (.failed e) ∧ e.dangles = true := by
  obtain ⟨c, hc, hmissing⟩ : ∃ c, Catalog.build shop = .ok c ∧
      ∃ e, (({} : World).openSession c).1.catalog.statement "orders" = .error e := ⟨_, rfl, _, rfl⟩
  obtain ⟨e, he⟩ := hmissing
  have hreached : (({} : World).openSession c).2.Reached := .opened (.start rfl rfl) hc
  have hopened : (({} : World).openSession c).2.session? (({} : World).openSession c).1.number =
      some (({} : World).openSession c).1 := rfl
  have hlists := (no_dangling hreached hopened).2.1
  refine ⟨_, _, hreached, hopened, hlists "shop.orders" .null {}, hlists "orders" .null {}, e, ?_,
    Catalog.dangles_of_statement he⟩
  unfold Session.queryForList Session.collect Session.query
  rw [run_step, he]
  rfl

end World.Reached

end RowMapper
