/-
Where reading a row fails. The error of a query that fails while a map reads its row tells of that map
and of the first of its mappings whose value failed, whatever was read before, and behind that of the
properties that the map is nested at, the outermost first (`Execution.query_failsReading`).
-/
import RowMapper.Proofs.Delivery.Selected
import RowMapper.Proofs.Engine.Rows

namespace RowMapper

variable {α β : Type} {session : Session} {load : Load} {m : ResultMap} {mapping : ResultMapping}
  {f g : Frame} {e : Error}

/-- A loop that gives a list fails where the first of its items does. -/
theorem run_mapM_eq_error {ε σ : Type} {step : α → ExceptT ε (StateM σ) β} {xs : List α} {s t : σ}
    {stop : ε} : (xs.mapM step).run s = (.error stop, t) ↔
      ∃ before x after ys u, xs = before ++ x :: after ∧ (before.mapM step).run s = (.ok ys, u) ∧
        (step x).run u = (.error stop, t) := by
  induction xs generalizing s with
  | nil => exact ⟨nofun, fun ⟨before, x, after, ys, u, h, _⟩ => by simp at h⟩
  | cons first rest ih =>
    rw [List.mapM_cons]
    rcases hfirst : (step first).run s with ⟨stop' | y, u⟩
    · rw [run_bind_error hfirst]
      constructor
      · intro h
        cases h
        exact ⟨[], first, rest, [], s, rfl, rfl, hfirst⟩
      · rintro ⟨before, x, after, ys, v, heq, hbefore, hx⟩
        cases before with
        | nil =>
          cases heq
          cases hbefore
          cases hfirst.symm.trans hx
          rfl
        | cons b before =>
          cases heq
          rw [List.mapM_cons, run_bind_error hfirst] at hbefore
          cases hbefore
    · rw [run_bind_ok hfirst]
      constructor
      · intro h
        rcases hrest : (rest.mapM step).run u with ⟨stop' | ys, v⟩
        · rw [run_bind_error hrest] at h
          cases h
          obtain ⟨before, x, after, ys, w, rfl, hbefore, hx⟩ := ih.1 hrest
          refine ⟨first :: before, x, after, y :: ys, w, rfl, ?_, hx⟩
          rw [List.mapM_cons, run_bind_ok hfirst, run_bind_ok hbefore]
          rfl
        · rw [run_bind_ok hrest] at h
          cases h
      · rintro ⟨before, x, after, ys, v, heq, hbefore, hx⟩
        refine run_bind_error (ih.2 ?_)
        cases before with
        | nil =>
          cases heq
          cases hbefore
          cases hfirst.symm.trans hx
        | cons b before =>
          cases heq
          rw [List.mapM_cons, run_bind_ok hfirst] at hbefore
          obtain ⟨zs, w, hzs, hbefore⟩ := run_bind_eq_ok.1 hbefore
          cases hbefore
          exact ⟨before, x, after, zs, _, rfl, hzs, hx⟩

/-! ## What a request is doing -/

/-- A run that leaves it as it is what the request is doing, however it ends. -/
abbrev KeepsContext (run : Run Frame α) : Prop :=
  Keeps (fun _ => True) (fun f g => g.request.context = f.request.context) (Stop.Allowed True) Always run

namespace KeepsContext

instance : Std.Refl fun f g : Frame => g.request.context = f.request.context := ⟨fun _ => rfl⟩

instance : IsTrans Frame fun f g => g.request.context = f.request.context :=
  ⟨fun _ _ _ h h' => h'.trans h⟩

theorem bind {run : Run Frame α} {k : α → Run Frame β} (h : KeepsContext run)
    (hk : ∀ a, KeepsContext (k a)) : KeepsContext (run >>= k) := Keeps.bind h fun a _ => hk a

theorem mapM {xs : List α} {run : α → Run Frame β} (h : ∀ a, KeepsContext (run a)) :
    KeepsContext (xs.mapM run) := (Keeps.mapM fun a _ => h a).always

theorem context {run : Run Frame α} {outcome : Except Stop α} (h : KeepsContext run)
    (hrun : run.run f = (outcome, g)) : g.request.context = f.request.context := by
  have hc := (h f trivial).2.1
  rwa [hrun] at hc

theorem onWorld (run : Run World α) : KeepsContext (Frame.onWorld run) := by
  intro f _
  refine ⟨trivial, rfl, ?_⟩
  rw [Frame.run_onWorld]
  rcases (run.run f.world).1 with (e | _) | a <;> trivial

theorem onRows (read : RowSet → Except Error α × RowSet) : KeepsContext (Frame.onRows read) := by
  intro f _
  cases hr : f.request.rowSetToRead with
  | error e => rw [run_onRows_error hr]; exact ⟨trivial, rfl, trivial⟩
  | ok rows => rw [run_onRows_ok hr]; exact ⟨trivial, rfl, .mapError fun _ _ => trivial⟩

theorem ofExcept (outcome : Except Error α) : KeepsContext (Run.ofExcept outcome : Run Frame α) :=
  Keeps.ofExcept fun _ _ => trivial

/-! ### Values of mappings -/

theorem objectParameter (mapping : ResultMapping) (catalog : Catalog) (type : DataType) :
    KeepsContext (mapping.objectParameter catalog type) := by
  unfold ResultMapping.objectParameter
  refine bind (onWorld _) fun parameter => ?_
  split
  · refine bind (.forM fun pair _ => ?_) fun _ => .pure trivial
    refine bind (.read fun _ _ _ _ => trivial) fun declared => ?_
    exact bind (onRows _) fun v => onWorld _
  · exact onRows _

theorem domParameter (mapping : ResultMapping) (catalog : Catalog) :
    KeepsContext (mapping.domParameter catalog) := by
  unfold ResultMapping.domParameter
  refine bind (mapM fun entry => ?_) fun texts => onWorld _
  exact bind (onRows _) fun v => bind (.gets fun _ _ => trivial) fun text => .pure trivial

theorem selectParameter (mapping : ResultMapping) (catalog : Catalog) (statement : Statement) :
    KeepsContext (mapping.selectParameter catalog statement) := by
  unfold ResultMapping.selectParameter
  split
  · exact objectParameter _ _ _
  · split
    · exact onRows _
    · split
      · exact domParameter _ _
      · exact objectParameter _ _ _

/-- A nested select runs in a request of its own. -/
theorem readSelect (m : ResultMap) (mapping : ResultMapping) (statement : String) :
    KeepsContext (m.readSelect session load mapping statement) := by
  unfold ResultMap.readSelect
  refine bind (ofExcept _) fun statement => bind (ofExcept _) fun target => ?_
  refine bind (selectParameter _ _ _) fun parameter => ?_
  split
  · exact .pure trivial
  · refine bind (ofExcept _) fun type => bind (onWorld _) fun v => ?_
    split
    · split
      · exact ofExcept _
      · exact .pure trivial
    · exact .pure trivial

end KeepsContext

namespace ResultMap

/-- What a request is doing while a map reads a row, with a hint at where it is. -/
def readingContext (m : ResultMap) (hint : String) : ErrorContext :=
  { resource := m.resource, activity := some "applying a result map", objectId := some m.id
    moreInfo := some hint }

/-- The frame in which a map begins to read a row. -/
def beginReading (m : ResultMap) (f : Frame) : Frame :=
  { f with request := { f.request with context := m.readingContext "Check the result map." } }

/-- While a mapping is read, and behind it, the request tells of that mapping. -/
theorem context_readMapping {hint : String} {outcome : Except Stop Value}
    (hf : f.request.context = m.readingContext hint)
    (hrun : (m.readMapping session load mapping).run f = (outcome, g)) :
    g.request.context = m.readingContext mapping.hint := by
  -- the context is set first, and kept by whatever gives the value
  have hkept : ∀ {value : Run Frame Value}, KeepsContext value →
      value.run { f with request := { f.request with context :=
        { f.request.context with moreInfo := some mapping.hint } } } = (outcome, g) →
      g.request.context = m.readingContext mapping.hint := by
    intro value hvalue hrun
    rw [hvalue.context hrun, hf]
    rfl
  unfold readMapping at hrun
  cases hroute : mapping.route with
  | nestedSelect statement =>
    rw [hroute] at hrun
    exact hkept (KeepsContext.readSelect m mapping statement) hrun
  | nestedMap child =>
    rw [hroute] at hrun
    exact hkept (.pure trivial) hrun
  | column =>
    rw [hroute] at hrun
    exact hkept (mapping.keeps_readColumn fun _ _ => KeepsContext.onRows _) hrun

/-- Behind mappings that were read the request tells of the map. -/
theorem context_mapM {mappings : List ResultMapping} {hint : String} {values : List Value}
    (hf : f.request.context = m.readingContext hint)
    (hrun : (mappings.mapM (m.readMapping session load)).run f = (.ok values, g)) :
    ∃ hint', g.request.context = m.readingContext hint' := by
  induction mappings generalizing f values hint with
  | nil =>
    cases hrun
    exact ⟨hint, hf⟩
  | cons mapping mappings ih =>
    rw [List.mapM_cons] at hrun
    obtain ⟨v, s, hv, hrun⟩ := run_bind_eq_ok.1 hrun
    obtain ⟨rest, t, hrest, hrun⟩ := run_bind_eq_ok.1 hrun
    cases hrun
    exact ih (context_readMapping hf hv) hrest

/-! ## Rows that cannot be read -/

/-- A map reads the current row up to a mapping, the first whose value fails. -/
structure FailsAt (m : ResultMap) (session : Session) (load : Load) (f : Frame)
    (mapping : ResultMapping) (e : Error) (g : Frame) : Prop where
  fails : ∃ before after values s, f.mappings m = before ++ mapping :: after ∧
    (before.mapM (m.readMapping session load)).run (m.beginReading f) = (.ok values, s) ∧
    (m.readMapping session load mapping).run s = (.error (.failed e), g)

/-- Reading a row fails if and only if the value of a mapping does. -/
theorem readRow_eq_error : (m.readRow session load).run f = (.error (.failed e), g) ↔
    ∃ mapping, m.FailsAt session load f mapping e g := by
  have hrun : (m.readRow session load).run f =
      ((f.mappings m).mapM (m.readMapping session load) >>= fun values => do
        Frame.modifyRequest fun r => { r with rowDataFound := values.any fun v => !v.isNull }
        return values).run (m.beginReading f) := rfl
  rw [hrun]
  constructor
  · intro herror
    rcases hvalues : ((f.mappings m).mapM (m.readMapping session load)).run (m.beginReading f) with
      ⟨stop | values, s⟩
    · rw [run_bind_error hvalues] at herror
      cases herror
      obtain ⟨before, mapping, after, values, s, hmappings, hbefore, hfails⟩ :=
        run_mapM_eq_error.1 hvalues
      exact ⟨mapping, before, after, values, s, hmappings, hbefore, hfails⟩
    · rw [run_bind_ok hvalues] at herror
      cases herror
  · rintro ⟨mapping, before, after, values, s, hmappings, hbefore, hfails⟩
    exact run_bind_error (run_mapM_eq_error.2 ⟨before, mapping, after, values, s, hmappings, hbefore, hfails⟩)

theorem FailsAt.context (h : m.FailsAt session load f mapping e g) :
    g.request.context = m.readingContext mapping.hint := by
  obtain ⟨before, after, values, s, -, hbefore, hfails⟩ := h.fails
  obtain ⟨hint, hs⟩ := context_mapM (f := m.beginReading f) rfl hbefore
  exact context_readMapping hs hfails

end ResultMap

/-! ## Nested maps -/

/-- The error of an element, told of by the properties that it is nested at, the outermost first. -/
def Error.nestedAt (e : Error) (path : List String) : Error :=
  path.foldr (fun property e => e.remark (.nestedProperty property)) e

theorem Error.chain_nestedAt (e : Error) (path : List String) :
    (e.nestedAt path).chain = path.map (fun property => .note (.nestedProperty property)) ++ e.chain := by
  induction path with
  | nil => rfl
  | cons property path ih => exact congrArg (List.cons _) ih

namespace Call

/-- Reading the current row with a map that is nested in that of a call fails: the properties on the
way, the map, the mapping whose value failed, and the error of that value. -/
inductive FailsReading (session : Session) (load : Load) :
    Nat → Call → List String → ResultMap → ResultMapping → Error → Prop
  | element {depth : Nat} {c : Call} {subject : Subject} {opened reached entered left : Frame}
      {before after : List ResultMapping} {mapping failing : ResultMapping} {child : String}
      {m : ResultMap} {type : DataType} {e : Error} (gathers : c.Gathers session subject opened)
      (mappings_eq : subject.mappings = before ++ mapping :: after)
      (route : mapping.route = .nestedMap child)
      (reaches : (gather session load depth before subject.object).run opened = (.ok (), reached))
      (found : session.catalog.resultMap child = .ok m)
      (opens : (mapping.openCollection session.catalog.accessor subject.object).run reached =
        (.ok type, entered))
      (fails : m.FailsAt session load entered failing e left) :
      FailsReading session load (depth + 1) c [mapping.property] m failing e
  | nested {c : Call} {path : List String} {m : ResultMap} {failing : ResultMapping} {e : Error}
      (n : NestedCall session load c) (fails : FailsReading session load n.depth n.call path m failing e) :
      FailsReading session load (n.depth + 1) c (n.mapping.property :: path) m failing e

/-- When gathering fails at a mapping, so does the call, with what the request was doing then. -/
theorem run_eq_error {depth : Nat} {c : Call} {subject : Subject} {opened reached left : Frame}
    {before after : List ResultMapping} {child : String}
    (gathers : c.Gathers session subject opened)
    (mappings_eq : subject.mappings = before ++ mapping :: after)
    (route : mapping.route = .nestedMap child)
    (reaches : (gather session load depth before subject.object).run opened = (.ok (), reached))
    (fails : (nestedElement session load (builds session load depth) mapping child subject.object).run
      reached = (.error (.failed e), left)) :
    ∃ g, c.run session load (depth + 1) = (.error (.failed (e.nestedAt [mapping.property])), g) ∧
      g.request.context = left.request.context := by
  obtain ⟨⟨f, hsubject, rfl⟩, hnested⟩ := gathers
  have hmapping : (nestedMapping session load (builds session load depth) subject.object mapping).run
      reached = (.error (.failed (e.nestedAt [mapping.property])), left) := by
    unfold nestedMapping
    rw [route]
    dsimp only
    rw [run_mapError, fails]
    rfl
  have hgather : (gather session load depth subject.mappings subject.object).run
      (f.mark c.map.id subject.key) = (.error (.failed (e.nestedAt [mapping.property])), left) := by
    have happ : gather session load depth (before ++ mapping :: after) subject.object =
        gather session load depth before subject.object >>= fun _ =>
          gather session load depth (mapping :: after) subject.object := List.forM_append
    rw [mappings_eq, happ, run_bind_ok reaches, gather_cons]
    exact run_bind_error hmapping
  refine ⟨left.unmark subject.key, ?_, by cases subject.key <;> rfl⟩
  unfold run ResultMap.build
  rw [run_bind_ok hsubject]
  refine run_bind_error ?_
  rw [run_assembleNested hnested, hgather]

/-- A call in which a nested map fails to read the row fails with the error of the value, behind the
properties on the way, while the request tells of the map and of the mapping. -/
theorem FailsReading.run {depth : Nat} {c : Call} {path : List String} {m : ResultMap}
    {failing : ResultMapping} {e : Error} (h : FailsReading session load depth c path m failing e) :
    ∃ g, c.run session load depth = (.error (.failed (e.nestedAt path)), g) ∧
      g.request.context = m.readingContext failing.hint := by
  induction h with
  | element gathers mappings_eq route reaches found opens fails =>
    rw [← fails.context]
    refine run_eq_error gathers mappings_eq route reaches ?_
    rw [nestedElement_eq, run_bind_ok (run_ofExcept_eq_ok.2 ⟨found, rfl⟩), run_bind_ok opens]
    exact run_bind_error (run_bind_error (ResultMap.readRow_eq_error.2 ⟨_, fails⟩))
  | nested n _ ih =>
    obtain ⟨left, hrun, hcontext⟩ := ih
    obtain ⟨g, hg, hleft⟩ := run_eq_error n.gathers n.mappings_eq n.route n.reaches (by
      unfold nestedElement
      rw [run_bind_ok n.reads]
      exact run_bind_error hrun)
    exact ⟨g, hg, hleft.trans hcontext⟩

end Call

/-! ## Queries -/

theorem ReadsRow.run_eq {read : Run Frame Unit} {rows skip : Nat} {left : Option Nat}
    (h : ReadsRow read rows skip left f g) :
    ∃ rows' left', (Session.readRows read rows skip left).run f =
      (read >>= fun _ => Session.readRows read rows' 0 left').run g := by
  induction h with
  | @here rows left f g more next =>
    refine ⟨rows, left.map (· - 1), ?_⟩
    rw [Session.readRows, if_neg more]
    exact run_bind_ok next
  | @skipped rows skip left f g h more next _ ih =>
    obtain ⟨rows', left', ih⟩ := ih
    refine ⟨rows', left', ?_⟩
    rw [← ih, Session.readRows, if_neg more]
    exact run_bind_ok next
  | @later rows left f g g' h more next row _ ih =>
    obtain ⟨rows', left', ih⟩ := ih
    refine ⟨rows', left', ?_⟩
    rw [← ih, Session.readRows, if_neg more]
    exact (run_bind_ok next).trans (run_bind_ok row)

namespace Execution

/-- A query fails while it reads a row, with the map for the row or with one that is nested in it at
some properties. -/
inductive FailsReading (x : Execution) : List String → ResultMap → ResultMapping → Error → Prop
  | row {m effective : ResultMap} {rows : RowSet} {f g h left : Frame} {mapping : ResultMapping}
      {e : Error} (opens : x.Opens m rows f)
      (reads : ReadsRow (x.readObject m) (rows.length + 1) x.window.skip x.window.max f g)
      (resolves : (m.resolveSubMap x.session.catalog).run g = (.ok effective, h))
      (fails : effective.FailsAt x.session x.load h mapping e left) :
      x.FailsReading [] effective mapping e
  | nested {m effective child : ResultMap} {rows : RowSet} {values : List Value} {f g h : Frame}
      {path : List String} {mapping : ResultMapping} {e : Error} (opens : x.Opens m rows f)
      (reads : ReadsRow (x.readObject m) (rows.length + 1) x.window.skip x.window.max f g)
      (found : (x.session.readValues x.load m).run g = (.ok (some (effective, values)), h))
      (fails : Call.FailsReading x.session x.load nestingBound
        { map := effective, target := x.target, values, frame := h } path child mapping e) :
      x.FailsReading path child mapping e

variable {x : Execution} {path : List String}

/-- When reading a row and giving its object fails, so does the query. -/
theorem run_eq_error {rows : RowSet} {stop : Stop} {left : Frame} (opens : x.Opens m rows f)
    (reads : ReadsRow (x.readObject m) (rows.length + 1) x.window.skip x.window.max f g)
    (fails : (x.readObject m).run g = (.error stop, left)) : x.run = (.error stop, left) := by
  obtain ⟨response, submitted, hsubmit, hrows, hopen⟩ := opens.opens
  obtain ⟨rows', left', hreads⟩ := reads.run_eq
  unfold run Session.runStatement
  rw [run_bind_ok hsubmit]
  refine run_bind_error ?_
  unfold Session.readResponse
  rw [hrows]
  exact (run_bind_ok hopen).trans (hreads.trans (run_bind_error fails))

theorem FailsReading.run (h : x.FailsReading path m mapping e) :
    ∃ g, x.run = (.error (.failed (e.nestedAt path)), g) ∧
      g.request.context = m.readingContext mapping.hint := by
  cases h with
  | row opens reads resolves fails =>
    refine ⟨_, run_eq_error opens reads (run_bind_error ?_), fails.context⟩
    unfold Session.readValues
    rw [run_bind_ok resolves]
    exact run_bind_error (ResultMap.readRow_eq_error.2 ⟨_, fails⟩)
  | nested opens reads found fails =>
    obtain ⟨left, hrun, hcontext⟩ := fails.run
    refine ⟨left, run_eq_error opens reads ?_, hcontext⟩
    unfold readObject Session.readObject
    rw [run_bind_ok found]
    exact run_bind_error hrun

/-- The error of a query that fails while a map reads a row begins with what the request was doing,
which names that map and the first of its mappings whose value failed; then come the properties that
the map is nested at, each once and the outermost first, and then the error of the value. -/
theorem query_failsReading {id : String} (hstatement : x.session.catalog.statement id = .ok x.statement)
    (h : x.FailsReading path m mapping e) :
    ∃ error : Error,
      (x.session.query x.load id x.parameter x.target x.window x.receive x.world).1.result =
        .error (.failed error) ∧
      error.requestContext = some
        { resource := m.resource, activity := some "applying a result map", objectId := some m.id
          moreInfo := some s!"Check the result mapping for the '{mapping.property}' property." } ∧
      error.chain = .request (m.readingContext mapping.hint) ::
        path.map (fun property => .note (.nestedProperty property)) ++ e.chain := by
  obtain ⟨g, hrun, hcontext⟩ := h.run
  refine ⟨⟨.request (m.readingContext mapping.hint), (e.nestedAt path).chain⟩, ?_, rfl, ?_⟩
  · have hexplain : g.explain (e.nestedAt path) =
        ⟨.request (m.readingContext mapping.hint), (e.nestedAt path).chain⟩ := by
      unfold Frame.explain
      rw [hcontext]
      have hset : (m.readingContext mapping.hint).isEmpty = false := by
        simp [ErrorContext.isEmpty, ResultMap.readingContext]
      rw [hset]
      rfl
    unfold Session.query
    rw [hstatement]
    dsimp only
    rw [run_mapError]
    unfold run at hrun
    rw [hrun, ← hexplain]
    rfl
  · exact congrArg (List.cons _) (Error.chain_nestedAt e path)

def weightMapping : ResultMapping := { property := "weight", coercer := some .i32 }

def idMapping : ResultMapping := { property := "id", coercer := some .i32 }

def partMap : ResultMap :=
  { id := "Part", resource := some "parts.xml", mappings := .declared [weightMapping] }

def partsMapping : ResultMapping :=
  { property := "parts", route := .nestedMap "Part", type := some .list }

def wholeMap : ResultMap := { id := "Whole", mappings := .declared [idMapping, partsMapping] }

def wholeStatement : Statement :=
  { id := "s", kind := .select, sql := "q", resultMap := some "Whole" }

/-- A query of a whole with a part whose weight is no number. -/
def unweighed : Execution :=
  let rows : RowSet := { columns := ["id", "weight"], rows := [[.i32 1, .string "x"]] }
  let (session, world) :=
    World.openSession { database := { registrations := [{ sql := "q", reply := .rows rows }] } }
      { resultMaps := [("Whole", wholeMap), ("Part", partMap)]
        statements := [("s", wholeStatement)] }
  { session, load := session.loader, statement := wholeStatement, parameter := .null, world }

/-- The run of the query up to where the part is read, which fails. -/
theorem unweighed_reachesPart : ∃ f,
    (∀ {mapping e g}, (partMap.atHome 0).FailsAt unweighed.session unweighed.load f mapping e g →
      unweighed.FailsReading ["parts"] (partMap.atHome 0) mapping e) ∧
    (match (((partMap.atHome 0).readRow unweighed.session unweighed.load).run f).1 with
      | .error (.failed _) => true
      | _ => false) = true :=
  ⟨_, fun h => .nested ⟨_, _, rfl, rfl, rfl⟩ (.here nofun rfl) rfl
    (show Call.FailsReading _ _ (nestingBound - 1 + 1) _ [partsMapping.property] _ _ _ from
      .element ⟨⟨_, rfl, rfl⟩, rfl⟩ (show _ = [idMapping] ++ partsMapping :: [] from rfl)
        rfl rfl rfl rfl h),
    by decide +kernel⟩

theorem query_failsReading_unweighed :
    ∃ (mapping : ResultMapping) (e error : Error),
      unweighed.FailsReading ["parts"] (partMap.atHome 0) mapping e ∧
      (unweighed.session.query unweighed.load "s" unweighed.parameter unweighed.target
        unweighed.window unweighed.receive unweighed.world).1.result = .error (.failed error) ∧
      error.requestContext = some
        { resource := some "parts.xml", activity := some "applying a result map"
          objectId := some "Part"
          moreInfo := some s!"Check the result mapping for the '{mapping.property}' property." } ∧
      error.chain = .request ((partMap.atHome 0).readingContext mapping.hint) ::
        .note (.nestedProperty "parts") :: e.chain := by
  obtain ⟨f, hpath, hfails⟩ := unweighed_reachesPart
  rcases hread : ((partMap.atHome 0).readRow unweighed.session unweighed.load).run f with
    ⟨(e | _) | _, g⟩ <;> rw [hread] at hfails
  · have hstatement : unweighed.session.catalog.statement "s" = .ok unweighed.statement := rfl
    obtain ⟨mapping, hmapping⟩ := ResultMap.readRow_eq_error.1 hread
    obtain ⟨error, hresult, hcontext, hchain⟩ := query_failsReading hstatement (hpath hmapping)
    exact ⟨mapping, e, error, hpath hmapping, hresult, hcontext, hchain⟩
  · cases hfails
  · cases hfails

end Execution

end RowMapper
