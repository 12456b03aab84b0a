/-
Calls that write back. A call maps the rows of its response, and then writes its outputs into its
parameter: a map has each output then at its property, and beyond that it is what the rows left
(`Session.call_writesBack`). That is what it was before the call unless the replies of the database or
the loader lead to it: objects are shared, and rows are mapped into those that they hold
(`Session.call_maps_into_parameter`).
-/
import RowMapper.Proofs.Delivery.Discards
import RowMapper.Proofs.Delivery.GroupedQuery
import RowMapper.Proofs.Objects.Lasting
import RowMapper.Proofs.Statement.Outputs

namespace RowMapper

namespace Session

variable {session : Session} {statement : Statement} {parameters : ParameterMap} {id : String}
  {parameter : Value} {resultMap : Option ResultMap} {response : Response} {out : OutParams}
  {w w' : World} {f g : Frame} {objects : List Value}

/-- What follows when a statement was executed: the rows of the response are read, and then its outputs
are written. -/
def answer (session : Session) (statement : Statement) (parameter : Value)
    (resultMap : Option ResultMap) (response : Response) : Run Frame Unit := do
  session.readResponse session.loader resultMap response none {} .any
  session.writeOutputs statement parameter response.outputs

/-- A call that succeeds has its statement executed and the response read, and has written the outputs
then. -/
theorem call_eq_ok (hstatement : session.catalog.statement id = .ok statement)
    (hparameters : statement.parameterMap = some parameters)
    (hsubmit : (session.submit statement parameter).run { world := w } = (.ok (resultMap, response), f))
    (houtputs : response.outputs = some out)
    (hcall : (session.call id parameter).run w = (.ok objects, w')) :
    ∃ g, (session.readResponse session.loader resultMap response none {} .any).run f = (.ok (), g) ∧
      (parameters.writeOutputs session.catalog.accessor parameter out).run g.world.store =
        (.ok (), w'.store) := by
  unfold call at hcall
  rw [run_bind_ok (run_ofExcept_eq_ok.2 ⟨hstatement, rfl⟩)] at hcall
  split at hcall
  · obtain ⟨h, hrun, -, rfl⟩ := queryForList_eq_ok hstatement hcall
    have hanswer : (session.answer statement parameter resultMap response).run f = (.ok (), h) :=
      (run_bind_ok hsubmit).symm.trans hrun
    obtain ⟨_, g, hread, hwrite⟩ := run_bind_eq_ok.1 hanswer
    refine ⟨g, hread, ?_⟩
    unfold writeOutputs at hwrite
    rw [houtputs, hparameters] at hwrite
    obtain ⟨_, g', hcontext, hedit⟩ := run_bind_eq_ok.1 hwrite
    cases hcontext
    obtain ⟨t, hput, rfl⟩ := run_edit_eq_ok.1 hedit
    exact hput
  · cases hcall

/-- An object that is there is of its type when the rows of a response have been read. -/
theorem has_of_readResponse {r : ObjectRef} {type : DataType}
    (hsubmit : (session.submit statement parameter).run { world := w } = (.ok (resultMap, response), f))
    (hread : (session.readResponse session.loader resultMap response none {} .any).run f = (.ok (), g))
    (h : w.store.Has r type) : g.world.store.Has r type := by
  have hc := session.catalog.upholds_has r type
  have hstart : Frame.Sound { world := w } fun s => s.Has r type := ⟨h, nofun⟩
  have hasked : session.Upkeeps (fun s => s.Has r type) [] _ (session.submit statement parameter) _ :=
    upkeep.submit statement parameter hstart
  obtain ⟨sent, _, -, ⟨-, hf⟩, -, rfl, hm, -⟩ := hasked.ok hsubmit
  have hrows : ∀ cs, session.Upkeeps (fun s => s.Has r type) cs Pairing.Any
      (session.readResponse session.loader resultMap response none {} .any) f :=
    fun cs => upkeep.readResponse hc (upkeep.answers_load hc nestingBound) hm hf response none {} .any
  have hsound := upkeep.sound hrows
  rw [hread] at hsound
  exact hsound.store

/-- Reading the rows of a response leaves a region as it is to which nothing leads that the call comes
by. -/
theorem data_of_readResponse {R : Region}
    (hsubmit : (session.submit statement parameter).run { world := w } = (.ok (resultMap, response), f))
    (hread : (session.readResponse session.loader resultMap response none {} .any).run f = (.ok (), g))
    (hspares : Frame.Spares { world := w } session R True) {q : ObjectRef} (hq : R q) :
    g.world.store.data q = w.store.data q := by
  have hS : Sphere.all.Closed session.catalog := Sphere.closed_all _
  have hanswers := Region.onRequest.answers_load R hS nestingBound
  have hasked := Region.onRequest.submit hS statement trivial parameter hspares
  obtain ⟨sent, _, hsent, ⟨rfl, hf⟩, hlater, rfl, hm, hcells⟩ := hasked.ok hsubmit
  have hrows := hanswers.readResponse {} .any hm ⟨rfl, hf⟩ hcells
  obtain ⟨_, _, _, -, hlater', -⟩ := hrows.ok hread
  exact (hlater'.2 q hq).trans (hlater.2 q hq)

/-- A call that succeeds, with distinct properties that are no paths: a map parameter holds at each output
what its coercer reads at the position of its mapping, and elsewhere what it held when the rows had been
mapped; no other object is written to then, and none at all for a parameter that is no object. What the
rows were mapped into are objects to which the replies or the loader lead, so that elsewhere a map holds
what it held before the call. The positions of the inputs are not looked at. -/
theorem call_writesBack (hstatement : session.catalog.statement id = .ok statement)
    (hparameters : statement.parameterMap = some parameters)
    (hdistinct : (parameters.mappings.map (·.property)).Nodup)
    (hdotless : ∀ mapping ∈ parameters.mappings, '.' ∉ mapping.property.toList)
    (hsubmit : (session.submit statement parameter).run { world := w } = (.ok (resultMap, response), f))
    (houtputs : response.outputs = some out)
    (hcall : (session.call id parameter).run w = (.ok objects, w')) :
    ∃ g, (session.readResponse session.loader resultMap response none {} .any).run f = (.ok (), g) ∧
      (∀ r before, parameter = .object r → r.index < w.store.objects.size →
        w.store.data r = .map before → ∃ entries entries', g.world.store.data r = .map entries ∧
          w'.store.data r = .map entries' ∧ parameters.Wrote out entries entries' ∧
          ∀ R, Frame.Spares { world := w } session R True → R r → entries = before) ∧
      (parameter.isObject = false → w'.store = g.world.store) ∧
      (∀ q, parameter ≠ .object q → w'.store.data q = g.world.store.data q) ∧
      (∀ R, Frame.Spares { world := w } session R True →
        ∀ q, R q → g.world.store.data q = w.store.data q) ∧
      ∀ out', (∀ i mapping, parameters.mappings[i]? = some mapping → mapping.mode.isOutput = true →
          out'.value i = out.value i) →
        (session.answer statement parameter resultMap { response with outputs := some out' }).run f =
          (session.answer statement parameter resultMap response).run f := by
  obtain ⟨g, hread, hwrite⟩ := call_eq_ok hstatement hparameters hsubmit houtputs hcall
  have hspared : ∀ R, Frame.Spares { world := w } session R True →
      ∀ q, R q → g.world.store.data q = w.store.data q :=
    fun R hspares q hq => data_of_readResponse hsubmit hread hspares hq
  have hvalue : parameter.isObject = false → w'.store = g.world.store := by
    intro hobject
    rw [ParameterMap.writeOutputs_of_isObject hobject] at hwrite
    exact (Prod.mk.inj hwrite).2.symm
  refine ⟨g, hread, ?_, hvalue, ?_, hspared, ?_⟩
  · rintro r before rfl hr hbefore
    have hmap : w.store.Has r .map := ⟨hr, by rw [Store.type, hbefore]; rfl⟩
    have hthere := has_of_readResponse hsubmit hread hmap
    obtain ⟨entries, hentries⟩ := hthere.entries
    obtain ⟨entries', hentries', hwrote⟩ :=
      ParameterMap.writeOutputs_map hdistinct hdotless hthere.there hentries hwrite
    refine ⟨entries, entries', hentries, hentries', hwrote, fun R hspares hR => ?_⟩
    exact ObjectData.map.inj (hentries.symm.trans ((hspared R hspares r hR).trans hbefore))
  · intro q hq
    cases hobject : parameter.isObject with
    | false => rw [hvalue hobject]
    | true =>
      obtain ⟨r, rfl⟩ : ∃ r, parameter = .object r := by
        cases parameter <;> first | exact ⟨_, rfl⟩ | cases hobject
      have hothers := parameters.writeOutputs_others hdotless session.catalog.accessor out
        (fun he => hq (congrArg Value.object he.symm)) g.world.store
      rwa [hwrite] at hothers
  · intro out' hsame
    refine run_bind_congr rfl fun _ t _ => ?_
    unfold writeOutputs
    rw [houtputs, hparameters]
    dsimp only
    rw [ParameterMap.writeOutputs_congr hsame]

/-- A number that goes in and one that comes out. -/
def inAndOut : ParameterMap where
  id := "s"
  mappings :=
    [{ property := "n", coercer := some .object },
      { property := "out", mode := .output, coercer := some .object }]

def procedureCall : Statement :=
  { id := "s", kind := .procedure, sql := "c", resultMap := some "M", parameterMap := some inAndOut }

/-- A session with a procedure that gives a number, and a row with a value in one column and a number for
the property `n` of that value in another. The object that is there is a map with a number. -/
def procedure (value : Value) : Session × World :=
  let reply : Reply := .call (some { columns := ["A", "X"], rows := [[value, .i32 5]] })
    { values := [.null, .i64 42] }
  let m : ResultMap :=
    { id := "M", resultClass := some (.bean "P" [("a", .object)])
      mappings := .declared
        [{ property := "a", column := some "A", coercer := some .object },
          { property := "a.n", column := some "X", coercer := some .object }] }
  World.openSession
    { store := { objects := #[.map [("n", .i32 1)]] }
      database := { registrations := [{ sql := "c", reply }] } }
    { resultMaps := [("M", m)], statements := [("s", procedureCall)] }

/-- With no object in the row, all that the call changes in its parameter is the output. -/
theorem call_writesBack_procedure :
    let x := procedure .null
    ∃ objects w' entries, (x.1.call "s" (.object ⟨0⟩)).run x.2 = (.ok objects, w') ∧
      w'.store.data ⟨0⟩ = .map entries ∧ Table.get? "out" entries = some (.i64 42) ∧
      Table.get? "n" entries = some (.i32 1) := by
  intro x
  have hok : ((x.1.call "s" (.object ⟨0⟩)).run x.2).1.isOk = true := by decide +kernel
  rcases hcall : (x.1.call "s" (.object ⟨0⟩)).run x.2 with ⟨stop | objects, w'⟩ <;> rw [hcall] at hok
  · cases hok
  obtain ⟨resultMap, response, f, hsubmit, houtputs⟩ : ∃ resultMap response f,
      (x.1.submit procedureCall (.object ⟨0⟩)).run { world := x.2 } = (.ok (resultMap, response), f) ∧
        response.outputs = some { values := [.null, .i64 42] } := ⟨_, _, _, rfl, rfl⟩
  have hdotless : ∀ mapping ∈ inAndOut.mappings, '.' ∉ mapping.property.toList := by
    simp [inAndOut]
  have hdistinct : (inAndOut.mappings.map (·.property)).Nodup := by decide
  obtain ⟨g, -, hmap, -⟩ := call_writesBack rfl rfl hdistinct hdotless hsubmit houtputs hcall
  obtain ⟨entries, entries', -, hentries', hwrote, hframe⟩ := hmap ⟨0⟩ [("n", .i32 1)] rfl Nat.zero_lt_one rfl
  refine ⟨objects, w', entries', rfl, hentries', ?_, ?_⟩
  · obtain ⟨v, ⟨c, hc, hread⟩, hv⟩ := hwrote.outputs 1 _ rfl rfl
    cases hc
    cases hread
    exact hv
  · -- the row and the reply hold numbers only, so nothing leads to the parameter
    have hspares : Frame.Spares { world := x.2 } x.1 (Region.below 1) True := by
      refine ⟨x.2.store.shuts_below, ?_, nofun, nofun, nofun, nofun, .inl Sphere.whole_all⟩
      have hcells : ∀ registration ∈ x.2.database.registrations, ∀ v ∈ registration.reply.cells,
          v.isObject = false := by decide
      rintro registration hmem - v hv r rfl
      exact nomatch hcells registration hmem _ hv
    obtain rfl := hframe _ hspares Nat.zero_lt_one
    exact (hwrote.inputs _ (List.mem_cons_self ..) rfl).trans rfl

/-- Rows are mapped into the objects that they hold, and the parameter of the call may be one of them: an
input holds something else afterwards, and so does an object in a list that is the parameter. -/
theorem call_maps_into_parameter :
    let x := procedure (.object ⟨0⟩)
    let call (parameter : Value) := (x.1.call "s" parameter).run x.2
    x.2.number? = some 1 ∧
      (call (.object ⟨0⟩)).1.isOk = true ∧ (call (.object ⟨0⟩)).2.number? = some 5 ∧
      (call (.list [.object ⟨0⟩])).1.isOk = true ∧ (call (.list [.object ⟨0⟩])).2.number? = some 5 := by
  decide +kernel

end Session

end RowMapper
