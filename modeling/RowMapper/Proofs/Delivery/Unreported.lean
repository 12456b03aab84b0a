/-
Outputs that a call does not report. The outputs of a call are written into an object one after the other,
and that fails at the first of them whose position the database did not report; the outputs before it stay
written (`ParameterMap.writeOutputs_unreported`). So a call that succeeds had all its outputs reported
(`Session.reported_of_call`), and one that misses an output fails with what it was doing
(`Session.call_unreported`).
-/
import RowMapper.Proofs.Delivery.WriteBack
import RowMapper.Proofs.Rows.OutParams

namespace RowMapper

variable {accessor : Accessor} {out : OutParams} {r : ObjectRef} {s t : Store} {c : Coercer}
  {mapping : ParameterMapping} {index : Nat}

/-! ## One mapping -/

theorem Coercer.readOutput_unreported (c : Coercer) (h : out.length ≤ index) :
    (c.readOutput out index).1 = .error (.database (.noOutput index)) := by
  unfold readOutput OutParams.read
  rw [OutParams.value_of_length_le out h]
  rfl

namespace ParameterMapping

/-- An output that was not reported is not written. -/
theorem run_writeOutput_unreported (hout : mapping.mode.isOutput = true) (hc : mapping.coercer = some c)
    (h : out.length ≤ index) (parameter : Value) (s : Store) :
    (writeOutput accessor parameter out (mapping, index)).run s =
      (.error (.database (.noOutput index)), s) := by
  have hrequired : (Edit.ofExcept mapping.requireCoercer).run s = (.ok c, s) := by
    rw [requireCoercer_eq_ok.2 hc]
    rfl
  have hread : (Edit.ofExcept (c.readOutput out index).1).run s =
      (.error (.database (.noOutput index)), s) := by
    rw [c.readOutput_unreported h]
    rfl
  unfold writeOutput
  rw [if_pos hout, run_bind_ok hrequired]
  exact run_bind_error hread

/-- An output that is written was reported. -/
theorem reported_of_writeOutput {parameter : Value} (hout : mapping.mode.isOutput = true)
    (h : (writeOutput accessor parameter out (mapping, index)).run s = (.ok (), t)) :
    index < out.length := by
  obtain ⟨v, ⟨c, -, hread⟩, -⟩ := reads_of_writeOutput hout h
  refine Nat.lt_of_not_le fun hunreported => ?_
  exact nomatch (c.readOutput_unreported hunreported).symm.trans hread

end ParameterMapping

/-! ## All of them -/

namespace ParameterMap

open ParameterMapping

variable {m : ParameterMap}

/-- The mappings before a position. -/
def before (m : ParameterMap) (index : Nat) : ParameterMap :=
  { m with mappings := m.mappings.take index }

/-- The mappings before a position are done first, as if there were no others, then the one there, and
then those behind it. -/
theorem writeOutputs_split (hm : m.mappings[index]? = some mapping) :
    m.writeOutputs accessor (.object r) out = (do
      (m.before index).writeOutputs accessor (.object r) out
      writeOutput accessor (.object r) out (mapping, index)
      ((m.mappings.drop (index + 1)).zipIdx (index + 1)).forM (writeOutput accessor (.object r) out)) := by
  have hloop : ∀ m : ParameterMap, m.writeOutputs accessor (.object r) out =
      m.mappings.zipIdx.forM (writeOutput accessor (.object r) out) := fun _ => rfl
  obtain ⟨hlt, rfl⟩ := List.getElem?_eq_some_iff.1 hm
  have hpairs : m.mappings.zipIdx = (m.mappings.take index).zipIdx ++
      (m.mappings[index], index) :: (m.mappings.drop (index + 1)).zipIdx (index + 1) := by
    conv_lhs => rw [← List.take_append_drop index m.mappings, List.drop_eq_getElem_cons hlt]
    rw [List.zipIdx_append, List.zipIdx_cons, List.length_take, Nat.min_eq_left (Nat.le_of_lt hlt),
      Nat.zero_add]
  rw [hloop, hloop, hpairs]
  exact List.forM_append

/-- With an output that was not reported, writing the outputs into an object fails there, when those
before it could be written. These stay written, and none behind it is looked at. -/
theorem writeOutputs_unreported (hm : m.mappings[index]? = some mapping)
    (hout : mapping.mode.isOutput = true) (hc : mapping.coercer = some c) (h : out.length ≤ index)
    (hbefore : ((m.before index).writeOutputs accessor (.object r) out).run s = (.ok (), t)) :
    (m.writeOutputs accessor (.object r) out).run s = (.error (.database (.noOutput index)), t) := by
  rw [writeOutputs_split hm, run_bind_ok hbefore]
  exact run_bind_error (run_writeOutput_unreported hout hc h _ t)

/-- Outputs that could be written into an object were all reported. -/
theorem reported_of_writeOutputs (hrun : (m.writeOutputs accessor (.object r) out).run s = (.ok (), t))
    (hm : m.mappings[index]? = some mapping) (hout : mapping.mode.isOutput = true) :
    index < out.length := by
  rw [writeOutputs_split hm] at hrun
  obtain ⟨_, u, -, hrun⟩ := run_bind_eq_ok.1 hrun
  obtain ⟨_, u', hwrite, -⟩ := run_bind_eq_ok.1 hrun
  exact reported_of_writeOutput hout hwrite

end ParameterMap

/-! ## Calls -/

namespace Session

variable {session : Session} {statement : Statement} {parameters : ParameterMap} {id : String}
  {resultMap : Option ResultMap} {response : Response} {w w' : World} {f g : Frame} {objects : List Value}

/-- A call with an object that succeeds had all its outputs reported. -/
theorem reported_of_call (hstatement : session.catalog.statement id = .ok statement)
    (hparameters : statement.parameterMap = some parameters)
    (hsubmit : (session.submit statement (.object r)).run { world := w } = (.ok (resultMap, response), f))
    (houtputs : response.outputs = some out)
    (hcall : (session.call id (.object r)).run w = (.ok objects, w'))
    (hm : parameters.mappings[index]? = some mapping) (hout : mapping.mode.isOutput = true) :
    index < out.length := by
  obtain ⟨g, -, hwrite⟩ := call_eq_ok hstatement hparameters hsubmit houtputs hcall
  exact ParameterMap.reported_of_writeOutputs hwrite hm hout

/-- A call with an object fails at the first output that was not reported, when the rows of the response
could be read and the outputs before it written. The object has those outputs then. -/
theorem call_unreported (hstatement : session.catalog.statement id = .ok statement)
    (hkind : statement.kind = .procedure) (hparameters : statement.parameterMap = some parameters)
    (hsubmit : (session.submit statement (.object r)).run { world := w } = (.ok (resultMap, response), f))
    (hread : (session.readResponse session.loader resultMap response none {} .any).run f = (.ok (), g))
    (houtputs : response.outputs = some out) (hm : parameters.mappings[index]? = some mapping)
    (hout : mapping.mode.isOutput = true) (hc : mapping.coercer = some c) (h : out.length ≤ index)
    (hbefore : ((parameters.before index).writeOutputs session.catalog.accessor (.object r) out).run
      g.world.store = (.ok (), t)) :
    (session.call id (.object r)).run w =
      (.error (.failed ((Error.database (.noOutput index)).context
        ⟨.request { g.request.context with
          activity := some "retrieving output parameters"
          moreInfo := some "Check the output parameters." }, []⟩)),
        { g.world with store := t }) := by
  let told : ErrorContext := { g.request.context with
    activity := some "retrieving output parameters"
    moreInfo := some "Check the output parameters." }
  let left : Frame :=
    { g with request := { g.request with context := told }, world := { g.world with store := t } }
  have hwrite : (session.writeOutputs statement (.object r) (some out)).run g =
      (.error (.failed (.database (.noOutput index))), left) := by
    unfold writeOutputs
    rw [hparameters]
    refine (run_bind_ok rfl).trans ?_
    rw [run_edit, ParameterMap.writeOutputs_unreported hm hout hc h hbefore]
    rfl
  have hrun : (session.listing statement (.object r) {} w).run =
      (.error (.failed (.database (.noOutput index))), left) := by
    unfold Execution.run runStatement
    refine (run_bind_ok hsubmit).trans ?_
    exact (run_bind_ok hread).trans (houtputs ▸ hwrite)
  have htold : left.request.context.isEmpty = false := by
    simp [left, told, ErrorContext.isEmpty]
  unfold call
  rw [run_bind_ok (run_ofExcept_eq_ok.2 ⟨hstatement, rfl⟩), if_pos hkind,
    queryForList_eq_error hstatement hrun, Frame.explain, htold, if_neg Bool.false_ne_true]

/-- A procedure with a number that goes in and comes out and one that comes out, in a session with a
database that reports some values for them. The object that is there is a map with the one that goes in. -/
def reporting (values : List Value) : Session × World :=
  let parameters : ParameterMap :=
    { id := "s"
      mappings :=
        [{ property := "n", mode := .both, coercer := some .i32 },
          { property := "out", mode := .output, coercer := some .i32 }] }
  World.openSession
    { store := { objects := #[.map [("n", .i32 9)]] }
      database := { registrations := [{ sql := "c", reply := .call none { values } }] } }
    { statements :=
        [("s", { id := "s", kind := .procedure, sql := "c", parameterMap := some parameters })] }

/-- Null is written where null was reported. Where nothing was, the call fails, and the object has the
outputs before that. -/
theorem call_reports_in_part :
    let entries (w : World) := match w.store.data ⟨0⟩ with
      | .map entries => entries
      | _ => []
    let call (values : List Value) := ((reporting values).1.call "s" (.object ⟨0⟩)).run (reporting values).2
    (call [.i32 1, .null]).1.isOk = true ∧
      entries (call [.i32 1, .null]).2 = [("n", .i32 1), ("out", .null)] ∧
      (call [.i32 1]).1 = .error (.failed ⟨.request
        { activity := some "retrieving output parameters", objectId := some "s"
          moreInfo := some "Check the output parameters." }, [.database (.noOutput 1)]⟩) ∧
      entries (call [.i32 1]).2 = [("n", .i32 1)] :=
  ⟨rfl, rfl, rfl, rfl⟩

end Session

end RowMapper
