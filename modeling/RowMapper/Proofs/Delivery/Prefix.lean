/-
Queries that stop at a row. What a query gave until it failed at a row is what it gives when the rows
end before that row, and when the handler refused the object of the row also that object, with their
contents at the moments when they were given (`Session.queryEach_stopped`). The handler may change the
objects that it gets and all else that is shared.
-/
import RowMapper.Proofs.Delivery.Selected
import RowMapper.Proofs.Engine.Rows

namespace RowMapper

variable {session : Session} {load : Load} {m : ResultMap} {f g h : Frame} {rows : RowSet}

/-! ## Coming to a row -/

/-- Behind some rows, each read without failure, a request comes to one more. -/
inductive ReachesRow (read : Run Frame Unit) : Nat → Frame → Frame → Prop
  | next {f g : Frame} (next : Frame.nextRow.run f = (.ok true, g)) : ReachesRow read 0 f g
  | row {before : Nat} {f g g' h : Frame} (next : Frame.nextRow.run f = (.ok true, g))
      (row : read.run g = (.ok (), g')) (reaches : ReachesRow read before g' h) :
      ReachesRow read (before + 1) f h

/-- With a handler, a query comes to a row of its response, behind some others. -/
structure Execution.ComesTo (x : Execution) (handler : Handler) (m : ResultMap) (before : Nat)
    (f : Frame) : Prop where
  comes : ∃ rows opened, x.Opens m rows opened ∧
    ReachesRow (x.session.readObject x.load m x.target handler) before opened f

/-- A row that is moved to was ahead. -/
theorem ahead_of_nextRow (hf : f.request.rowSetToRead = .ok rows)
    (hnext : Frame.nextRow.run f = (.ok true, g)) :
    ∃ row left, rows.ahead = row :: left.ahead ∧ g.request.rowSetToRead = .ok left := by
  rw [run_nextRow hf] at hnext
  obtain ⟨hmore, rfl⟩ := Prod.mk.inj hnext
  unfold RowSet.next at hmore ⊢
  cases hahead : rows.ahead with
  | nil =>
    rw [hahead] at hmore
    cases hmore
  | cons row ahead => exact ⟨row, _, rfl, rowSetToRead_withRows hf _⟩

namespace Session

theorem ahead_of_readObject {handler : Handler} (hf : f.request.rowSetToRead = .ok rows)
    (hread : (session.readObject load m none handler).run f = (.ok (), g)) :
    ∃ left, g.request.rowSetToRead = .ok left ∧ left.ahead = rows.ahead := by
  obtain ⟨-, -, left, -, hleft, -, -, hahead⟩ := readObject_unread m handler rfl hf hf rfl rfl hread hread
  exact ⟨left, hleft, hahead⟩

/-- On the way to a row the rows before it are read and no others, and a reading of all rows goes on
from there. -/
theorem readRows_of_reaches {handler : Handler} {before : Nat}
    (hreach : ReachesRow (session.readObject load m none handler) before f g) :
    ∀ {bound : Nat} {rows : RowSet}, f.request.rowSetToRead = .ok rows → rows.ahead.length < bound →
      ∃ last bound',
        (readRows (session.readObject load m none handler) bound 0 (some before)).run f =
            (.ok (), last) ∧
          Frame.nextRow.run last = (.ok true, g) ∧
          (readRows (session.readObject load m none handler) bound 0 none).run f =
            (session.readObject load m none handler >>= fun _ =>
              readRows (session.readObject load m none handler) bound' 0 none).run g := by
  induction hreach with
  | @next f g hnext =>
    intro bound rows _ hbound
    obtain ⟨bound, rfl⟩ : ∃ b, bound = b + 1 := ⟨bound - 1, by omega⟩
    exact ⟨f, bound, rfl, hnext, run_bind_ok hnext⟩
  | @row before f g g' h hnext hrow _ ih =>
    intro bound rows hf hbound
    obtain ⟨bound, rfl⟩ : ∃ b, bound = b + 1 := ⟨bound - 1, by omega⟩
    obtain ⟨row, left, hahead, hg⟩ := ahead_of_nextRow hf hnext
    obtain ⟨left', hg', hahead'⟩ := ahead_of_readObject hg hrow
    have hless : left'.ahead.length < bound := by
      rw [hahead, List.length_cons] at hbound
      rw [hahead']
      omega
    obtain ⟨last, bound', hsome, hlast, hall⟩ := ih hg' hless
    refine ⟨last, bound', ?_, hlast, ?_⟩
    · rw [← hsome]
      exact (run_bind_ok hnext).trans (run_bind_ok hrow)
    · rw [← hall]
      exact (run_bind_ok hnext).trans (run_bind_ok hrow)

/-! ## The object of a row -/

/-- The object that the current row makes, if it makes one. -/
def rowObject (session : Session) (load : Load) (m : ResultMap) : Run Frame (Option Value) := do
  let effective ← m.resolveSubMap session.catalog
  effective.read session load (Call.builds session load nestingBound)

theorem readObject_eq_rowObject (m : ResultMap) (handler : Handler) :
    session.readObject load m none handler = (do
      match ← session.rowObject load m with
      | some object => emit handler object
      | none => return ()) := by
  rw [readObject_eq]
  unfold rowObject
  exact (bind_assoc ..).symm

/-- An object is given before the handler takes it. -/
theorem run_emit (handler : Handler) (object : Value) (f : Frame) :
    (emit handler object).run f =
      (Frame.onWorld (handler.take (f.emitted.size + 1) object)).run (f.give (some object)) := by
  have hsize : (f.give (some object)).emitted.size = f.emitted.size + 1 := Array.size_push ..
  rw [← hsize]
  rfl

/-- Making the object of a row gives nothing to the handler. -/
theorem emitted_rowObject {depth : Nat} {outcome : Except Stop (Option Value)}
    (h : (session.rowObject (session.load depth) m).run f = (outcome, g)) :
    g.emitted = f.emitted := by
  have hreads : Trail.silent.growth.Reads session (session.load depth) (session.load depth) :=
    Trail.reads_load session depth
  have hresolve : ∀ outcome t, (m.resolveSubMap session.catalog).run f = (outcome, t) →
      t.emitted = f.emitted := fun _ _ hrun =>
    (Trail.later (hreads.scans.resolveSubMap (fun _ _ _ _ => trivial) trivial rfl) hrun).2
  unfold rowObject at h
  rcases hrun : (m.resolveSubMap session.catalog).run f with ⟨e | effective, t⟩
  · rw [run_bind_error hrun] at h
    cases h
    exact hresolve _ _ hrun
  · rw [run_bind_ok hrun] at h
    exact (ResultMap.emitted_read h).trans (hresolve _ _ hrun)

/-! ## Queries -/

section

variable {id : String} {statement : Statement} {parameter : Value} {handler : Handler} {w : World}
  {before : Nat}

/-- The query of a statement, run from its parameter to its output parameters. -/
abbrev asked (session : Session) (statement : Statement) (parameter : Value) (w : World) : Execution :=
  { session, load := session.loader, statement, parameter, world := w }

theorem query_of_run (hstatement : session.catalog.statement id = .ok statement) {window : Window}
    {outcome : Except Stop Unit}
    (hrun : (session.runStatement load statement parameter none window handler).run { world := w } =
      (outcome, g)) :
    (session.query load id parameter none window handler w).1 =
      ⟨g.emitted.toList, outcome.mapError (Stop.mapError g.explain)⟩ := by
  unfold query
  rw [hstatement]
  dsimp only
  rw [run_mapError, hrun]

/-- What a query that comes to a row gave before it is what it gives when the rows end there; and when
reading that row or giving its object fails, so does the query. -/
theorem query_comesTo (hstatement : session.catalog.statement id = .ok statement)
    (hcomes : (session.asked statement parameter w).ComesTo handler m before f) :
    (session.queryAnswered session.loader (·.within { max := some before }) id parameter none {} handler
        w).1.emitted = f.emitted.toList ∧
      ∀ {stop : Stop} {g : Frame},
        (session.readObject session.loader m none handler).run f = (.error stop, g) →
        (session.queryEach id parameter handler w).1 =
          ⟨g.emitted.toList, .error (stop.mapError g.explain)⟩ := by
  obtain ⟨rows, opened, ⟨response, submitted, hsubmit, hrows, hopen⟩, hreach⟩ := hcomes.comes
  have hahead : rows.ahead = rows.rows := rewound_of_submit hsubmit hrows
  have hopened : opened.request.rowSetToRead = .ok rows := by
    rcases Pairing.rows.openRows session m rows rows rfl submitted with
      ⟨e, ho, -⟩ | ⟨s, t, ho, -, -, hs, -⟩
    · cases ho.symm.trans hopen
    · cases ho.symm.trans hopen
      exact hs
  have hbound : rows.ahead.length < rows.length + 1 := by
    rw [hahead]
    exact Nat.lt_succ_self _
  obtain ⟨last, bound, hsome, hlast, hall⟩ := readRows_of_reaches hreach hopened hbound
  have hresponse : ∀ window : Window,
      (session.readResponse session.loader (some m) response none window handler).run submitted =
        (readRows (session.readObject session.loader m none handler) (rows.length + 1) window.skip
          window.max).run opened := by
    intro window
    unfold readResponse
    rw [hrows]
    exact run_bind_ok hopen
  constructor
  · rw [← query_within]
    rcases houtputs : (session.writeOutputs statement parameter response.outputs).run last with
      ⟨outcome, left⟩
    have hleft : left.emitted = last.emitted :=
      (Trail.later (τ := Trail.silent) (Trail.writeOutputs _ _ _ last) houtputs).2
    have hrun : (session.runStatement session.loader statement parameter none { max := some before }
        handler).run { world := w } = (outcome, left) := by
      unfold runStatement
      rw [run_bind_ok hsubmit]
      dsimp only
      rw [run_bind_ok ((hresponse { max := some before }).trans hsome), houtputs]
    rw [query_of_run hstatement hrun, hleft]
    exact congrArg Array.toList (IsQuiet.nextRow.quiet hlast).emitted.symm
  · intro stop g hstop
    have hrun : (session.runStatement session.loader statement parameter none {} handler).run
        { world := w } = (.error stop, g) := by
      unfold runStatement
      rw [run_bind_ok hsubmit]
      exact run_bind_error ((hresponse {}).trans (hall.trans (run_bind_error hstop)))
    exact query_of_run hstatement hrun

/-- A query that fails at a row gave what it gives when the rows end before that row; if it was the
handler that failed there, it was given the object of that row besides, and that was the last. The
contents are those at the moments when the objects were given, whatever the handler changed. -/
theorem queryEach_stopped (hstatement : session.catalog.statement id = .ok statement)
    (hcomes : (session.asked statement parameter w).ComesTo handler m before f) :
    let ended := (session.queryAnswered session.loader (·.within { max := some before }) id parameter
      none {} handler w).1
    let stopped := (session.queryEach id parameter handler w).1
    (∀ stop g, (session.rowObject session.loader m).run f = (.error stop, g) →
      stopped.emitted = ended.emitted ∧ stopped.result = .error (stop.mapError g.explain)) ∧
    ∀ object g stop, (session.rowObject session.loader m).run f = (.ok (some object), g) →
      ((handler.take (ended.emitted.length + 1) object).run g.world).1 = .error stop →
      stopped.emitted = ended.emitted ++ [⟨object, g.world.store.content object⟩] ∧
        stopped.result = .error (stop.mapError g.explain) := by
  intro ended stopped
  obtain ⟨hended, hstopped⟩ := query_comesTo hstatement hcomes
  have hended : ended.emitted = f.emitted.toList := hended
  constructor
  · intro stop g hmake
    have hread : (session.readObject session.loader m none handler).run f = (.error stop, g) := by
      rw [readObject_eq_rowObject]
      exact run_bind_error hmake
    have hgiven : stopped = ⟨g.emitted.toList, .error (stop.mapError g.explain)⟩ := hstopped hread
    rw [hgiven, hended, emitted_rowObject hmake]
    exact ⟨rfl, rfl⟩
  · intro object g stop hmake hrefused
    have hcount : g.emitted.size + 1 = ended.emitted.length + 1 := by
      rw [hended, ← emitted_rowObject hmake, Array.length_toList]
    rcases htake : (handler.take (g.emitted.size + 1) object).run g.world with ⟨outcome, world⟩
    rw [← hcount, htake] at hrefused
    -- the handler is told of the object when that is given, and what it changes is no part of that
    have hread : (session.readObject session.loader m none handler).run f =
        (.error stop, { g.give (some object) with world }) := by
      rw [readObject_eq_rowObject, run_bind_ok hmake]
      show (emit handler object).run g = _
      rw [run_emit, Frame.run_onWorld]
      have htook : (handler.take (g.emitted.size + 1) object).run (g.give (some object)).world =
          (.error stop, world) := htake.trans (congrArg (·, world) hrefused)
      rw [htook]
    have hgiven := hstopped hread
    change stopped = ⟨(g.give (some object)).emitted.toList, .error (stop.mapError g.explain)⟩ at hgiven
    rw [hgiven, hended, ← emitted_rowObject hmake]
    exact ⟨Array.toList_push, rfl⟩

end

def numberStatement : Statement := { id := "s", kind := .select, sql := "q", resultMap := some "M" }

/-- A query of numbers in two rows. -/
def numbers (first second : Value) : Session × World :=
  let rows : RowSet := { columns := ["n"], rows := [[first], [second]] }
  World.openSession { database := { registrations := [{ sql := "q", reply := .rows rows }] } }
    { resultMaps :=
        [("M", { id := "M", mappings := .declared [{ property := "n", coercer := some .i32 }] })]
      statements := [("s", numberStatement)] }

/-- The second row holds no number. -/
def oneNumber : Session × World := numbers (.i32 1) (.string "x")

def twoNumbers : Session × World := numbers (.i32 5) (.i32 7)

/-- A handler that writes its number into each object, and takes one. -/
def numbering : Handler where
  take count object := do
    if let .object r := object then
      Run.modify fun w => { w with
        store := w.store.setData r (.map [("n", .i32 (.ofNat count))]) }
    Run.ofExcept (Receiver.single count)

theorem queryEach_stopped_numbers :
    let one := (oneNumber.1.queryEach "s" .null .any oneNumber.2).1
    let two := (twoNumbers.1.queryEach "s" .null numbering twoNumbers.2).1
    let first := fun (x : Session × World) (handler : Handler) => (x.1.queryAnswered x.1.loader
      (·.within { max := some 1 }) "s" .null none {} handler x.2).1.emitted
    (one.emitted = first oneNumber .any ∧ one.emitted.length = 1 ∧ one.result.isOk = false) ∧
      (∃ given, two.emitted = first twoNumbers numbering ++ [given]) ∧ two.emitted.length = 2 ∧
        two.result.isOk = false := by
  intro one two first
  constructor
  · obtain ⟨m, f, hcomes, hfails⟩ :
        ∃ m f, (oneNumber.1.asked numberStatement .null oneNumber.2).ComesTo .any m 1 f ∧
          ((oneNumber.1.rowObject oneNumber.1.loader m).run f).1.isOk = false :=
      ⟨_, _, ⟨_, _, ⟨_, _, rfl, rfl, rfl⟩, .row rfl rfl (.next rfl)⟩, by decide +kernel⟩
    rcases hmake : (oneNumber.1.rowObject oneNumber.1.loader m).run f with ⟨stop | out, g⟩ <;>
      rw [hmake] at hfails
    · have hstatement : oneNumber.1.catalog.statement "s" = .ok numberStatement := rfl
      obtain ⟨hemitted, -⟩ := (queryEach_stopped hstatement hcomes).1 stop g hmake
      exact ⟨hemitted, by decide +kernel, by decide +kernel⟩
    · cases hfails
  · -- the handler takes one object and refuses the second
    obtain ⟨m, f, hcomes, hmakes⟩ :
        ∃ m f, (twoNumbers.1.asked numberStatement .null twoNumbers.2).ComesTo numbering m 1 f ∧
          ((twoNumbers.1.rowObject twoNumbers.1.loader m).run f).1.toOption.join.isSome = true :=
      ⟨_, _, ⟨_, _, ⟨_, _, rfl, rfl, rfl⟩, .row rfl rfl (.next rfl)⟩, by decide +kernel⟩
    rcases hmake : (twoNumbers.1.rowObject twoNumbers.1.loader m).run f with ⟨_ | _ | object, g⟩ <;>
      rw [hmake] at hmakes
    · cases hmakes
    · cases hmakes
    · have hstatement : twoNumbers.1.catalog.statement "s" = .ok numberStatement := rfl
      have hcount : (first twoNumbers numbering).length = 1 := by decide +kernel
      have hrefused : ((numbering.take ((first twoNumbers numbering).length + 1) object).run g.world).1 =
          .error (.failed ⟨.tooManyResults 2, []⟩) := by
        rw [hcount]
        cases object <;> rfl
      obtain ⟨hemitted, -⟩ := (queryEach_stopped hstatement hcomes).2 object g _ hmake hrefused
      exact ⟨⟨_, hemitted⟩, by decide +kernel, by decide +kernel⟩

end Session

end RowMapper
