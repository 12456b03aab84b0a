/-
The rows of a query that succeeds. Each row that holds any data makes one call (`Execution.calls`),
whose object is given to the receiver if the call built it. What reading, calling and giving keep is
kept by the whole query (`Execution.Keeps`).
-/
import RowMapper.Proofs.Catalog.Nesting
import RowMapper.Proofs.Engine.Execution
import RowMapper.Proofs.Engine.Success

namespace RowMapper

/-- A frame behind the outcome of a call for a row: an object is given, if there is one. -/
def Frame.give (f : Frame) : Option Value → Frame
  | some object => { f with emitted := f.emitted.push ⟨object, f.world.store.content object⟩ }
  | none => f

/-- A map that gives maps, keyed by its first column, with properties named as their columns and
lists of the objects of other maps. -/
def ResultMap.keyed (id : String) (columns : List String)
    (children : List (String × String)) : ResultMap :=
  { id, resultClass := some .map, groupBy := columns.take 1
    mappings := .declared <|
      columns.map (fun column => { property := column, coercer := some .object }) ++
        children.map fun child => { property := child.1, route := .nestedMap child.2 } }

theorem ResultMap.mem_declared_keyed {id : String} {columns : List String} {children : List (String × String)}
    {mapping : ResultMapping} (h : mapping ∈ (ResultMap.keyed id columns children).declared) :
    mapping.type = none ∧ (mapping.route = .column ∨
      ∃ child ∈ children, mapping.route = .nestedMap child.2) := by
  rcases List.mem_append.1 h with h | h <;> obtain ⟨entry, hentry, rfl⟩ := List.mem_map.1 h
  · exact ⟨rfl, .inl rfl⟩
  · exact ⟨rfl, .inr ⟨entry, hentry, rfl⟩⟩

namespace Execution

variable {x : Execution} {m : ResultMap} {f g : Frame}

/-! ## The calls for the rows -/

/-- The call for the row of a frame, if the row holds any data. -/
def rowCall? (x : Execution) (m : ResultMap) (f : Frame) : Option Call :=
  match (x.session.readValues x.load m).run f with
  | (.ok (some (effective, values)), entered) =>
    some { map := effective, target := x.target, values, frame := entered }
  | _ => none

/-- The calls for the rows of a window, from a frame on. -/
def rowCalls (x : Execution) (m : ResultMap) : Nat → Nat → Option Nat → Frame → List Call
  | 0, _, _, _ => []
  | rows + 1, skip, left, f =>
    if left = some 0 then []
    else
      match Frame.nextRow.run f with
      | (.ok true, g) =>
        match skip with
        | skip + 1 => rowCalls x m rows skip left g
        | 0 =>
          (x.rowCall? m g).toList ++
            match (x.readObject m).run g with
            | (.ok (), h) => rowCalls x m rows 0 (left.map (· - 1)) h
            | _ => []
      | _ => []

/-- The calls for the rows of a response, if it has any and there is a result map. -/
def responseCalls (x : Execution) (resultMap : Option ResultMap) (response : Response) (f : Frame) :
    List Call :=
  match response.rows, resultMap with
  | .rows rows, some m =>
    match (x.session.openRows m rows).run f with
    | (.ok (), g) => x.rowCalls m (rows.length + 1) x.window.skip x.window.max g
    | _ => []
  | _, _ => []

/-- The calls that a query makes for its rows, in their order. -/
def calls (x : Execution) : List Call :=
  match (x.session.submit x.statement x.parameter).run { world := x.world } with
  | (.ok (resultMap, response), f) => x.responseCalls resultMap response f
  | _ => []

/-! ## The maps of the calls -/

/-- Discriminators lead to the map itself or to maps of the catalog. -/
theorem followDiscriminators_map {catalog : Catalog} {P : ResultMap → Prop}
    (hP : ∀ id m, catalog.resultMap id = .ok m → P m) :
    ∀ (steps : Nat) (passed : List String) {m n : ResultMap} {f g : Frame}, P m →
      (m.followDiscriminators catalog steps passed).run f = (.ok n, g) → P n
  | 0, _, _, _, _, _, hm, h => by
    cases h
    exact hm
  | steps + 1, passed, m, n, f, g, hm, h => by
    unfold ResultMap.followDiscriminators at h
    split at h
    · cases h
      exact hm
    · obtain ⟨value, f₁, -, h⟩ := run_bind_eq_ok.1 h
      split at h
      · cases h
        exact hm
      · split at h
        · cases h
          exact hm
        · obtain ⟨next, f₂, hnext, h⟩ := run_bind_eq_ok.1 h
          exact followDiscriminators_map hP steps _ (hP _ _ (run_ofExcept_eq_ok.1 hnext).1) h

theorem resultMap_of_submit {resultMap : Option ResultMap} {response : Response}
    (h : (x.session.submit x.statement x.parameter).run f = (.ok (resultMap, response), g)) :
    x.session.catalog.statementResultMap x.statement = .ok resultMap :=
  (Session.submit_eq_ok h).1

/-- Every call of a query is by a map of the catalog. -/
theorem Calls.registered {c : Call} (h : x.Calls c) : ∃ id, x.session.catalog.resultMap id = .ok c.map := by
  cases h with
  | row opens reads found =>
    obtain ⟨response, _, hsubmit, -⟩ := opens.opens
    obtain ⟨effective, _, hresolve, found⟩ := run_bind_eq_ok.1 found
    obtain ⟨values, _, -, found⟩ := run_bind_eq_ok.1 found
    obtain ⟨data, _, -, found⟩ := run_bind_eq_ok.1 found
    have hmap := followDiscriminators_map (P := fun m => ∃ id, x.session.catalog.resultMap id = .ok m)
      (fun id m hm => ⟨id, hm⟩) _ _ (Catalog.resultMap_of_statement (resultMap_of_submit hsubmit)) hresolve
    split at found <;> cases found
    exact hmap
  | nested _ makes =>
    obtain ⟨n, rfl⟩ := makes
    exact ⟨n.child, (readElement_eq_ok n.reads).1⟩

/-! ## What a query keeps -/

/-- The statement of a query is submitted, and gets a response. -/
def Submits (x : Execution) (resultMap : Option ResultMap) (response : Response) (f : Frame) : Prop :=
  (x.session.submit x.statement x.parameter).run { world := x.world } =
    (.ok (resultMap, response), f)

/-- What holds of the calls so far and the frame, at every row of a query. -/
structure RowInvariant (x : Execution) (P : List Call → Frame → Prop) : Prop where
  next : ∀ {calls f g} (more : Bool), P calls f → Frame.nextRow.run f = (.ok more, g) → P calls g
  /-- A row without data. -/
  empty : ∀ {calls f g m}, P calls f → x.session.catalog.statementResultMap x.statement = .ok (some m) →
    (x.session.readValues x.load m).run f = (.ok none, g) → P calls g
  /-- A row with data, which makes a call. -/
  row : ∀ {calls f m left out} (c : Call), P calls f →
    x.session.catalog.statementResultMap x.statement = .ok (some m) →
    (x.session.readValues x.load m).run f = (.ok (some (c.map, c.values)), c.frame) →
    c.target = x.target → c.frame.request.assembling = [] → x.Calls c →
    c.run x.session x.load nestingBound = (.ok out, left) →
    P (calls ++ [c]) (left.give out)

/-- What holds from the response to the end of a query, at its rows also of the calls so far. -/
structure Invariant (x : Execution) (P : List Call → Frame → Prop) : Prop extends x.RowInvariant P where
  submitted : ∀ {resultMap response f}, x.Submits resultMap response f → P [] f
  /-- The rows of the response are opened. -/
  opened : ∀ {m response rows f g}, x.Submits (some m) response f → response.rows = .rows rows →
    P [] f → (x.session.openRows m rows).run f = (.ok (), g) → P [] g
  outputs : ∀ {calls f g resultMap response f₀}, x.Submits resultMap response f₀ → P calls f →
    (x.session.writeOutputs x.statement x.parameter response.outputs).run f = (.ok (), g) →
    P calls g

theorem readObject_eq_ok (h : (x.readObject m).run f = (.ok (), g)) :
    (x.session.readValues x.load m).run f = (.ok none, g) ∨
    ∃ c : Call, (x.session.readValues x.load m).run f = (.ok (some (c.map, c.values)), c.frame) ∧
      c.target = x.target ∧ ∃ out left, c.run x.session x.load nestingBound = (.ok out, left) ∧
        g = left.give out := by
  unfold readObject Session.readObject at h
  obtain ⟨found, entered, hvalues, h⟩ := run_bind_eq_ok.1 h
  cases found with
  | none =>
    cases h
    exact .inl hvalues
  | some found =>
    obtain ⟨effective, values⟩ := found
    obtain ⟨out, left, hbuild, h⟩ := run_bind_eq_ok.1 h
    refine .inr ⟨{ map := effective, target := x.target, values, frame := entered }, hvalues, rfl,
      out, left, hbuild, ?_⟩
    cases out with
    | none =>
      cases h
      rfl
    | some object =>
      obtain ⟨_, u, hpush, h⟩ := run_bind_eq_ok.1 h
      cases hpush
      exact (congrArg Prod.snd h).symm

theorem rowCall?_eq {c : Call} (ht : c.target = x.target)
    (h : (x.session.readValues x.load m).run f = (.ok (some (c.map, c.values)), c.frame)) :
    x.rowCall? m f = some c := by
  unfold rowCall?
  rw [h]
  cases c
  cases ht
  rfl

/-- A row that is read makes the call for it. -/
theorem call_of_row {c : Call} (hcall : x.rowCall? m f = some c)
    (hrow : (x.readObject m).run f = (.ok (), g)) :
    (x.session.readValues x.load m).run f = (.ok (some (c.map, c.values)), c.frame) ∧
      c.target = x.target ∧ ∃ out left, c.run x.session x.load nestingBound = (.ok out, left) ∧
        g = left.give out := by
  rcases readObject_eq_ok hrow with hnone | ⟨d, hread, htarget, hrun⟩
  · unfold rowCall? at hcall
    rw [hnone] at hcall
    cases hcall
  · obtain rfl : d = c := Option.some.inj ((rowCall?_eq htarget hread).symm.trans hcall)
    exact ⟨hread, htarget, hrun⟩

/-- What a query keeps at each row holds behind its rows. -/
theorem RowInvariant.rows {P : List Call → Frame → Prop} (hP : x.RowInvariant P) {opened : Frame}
    {set : RowSet} (hm : x.session.catalog.statementResultMap x.statement = .ok (some m))
    (hopen : x.Opens m set opened) :
    ∀ (rows skip : Nat) (left : Option Nat) {calls : List Call} {f g : Frame}, P calls f →
      (∀ h, ReadsRow (x.readObject m) rows skip left f h →
        ReadsRow (x.readObject m) (set.length + 1) x.window.skip x.window.max opened h) →
      (Session.readRows (x.readObject m) rows skip left).run f = (.ok (), g) →
      P (calls ++ x.rowCalls m rows skip left f) g
  | 0, _, _, calls, f, g, hp, _, h => by
    cases h
    rwa [rowCalls, List.append_nil]
  | rows + 1, skip, left, calls, f, g, hp, hreads, h => by
    unfold Session.readRows at h
    unfold rowCalls
    by_cases hleft : left = some 0
    · rw [if_pos hleft] at h ⊢
      cases h
      rwa [List.append_nil]
    rw [if_neg hleft] at h ⊢
    obtain ⟨more, f₁, hnext, h⟩ := run_bind_eq_ok.1 h
    have hp₁ := hP.next more hp hnext
    rw [hnext]
    cases more with
    | false =>
      cases h
      rwa [List.append_nil]
    | true =>
      cases skip with
      | succ skip =>
        exact hP.rows hm hopen rows skip left hp₁ (fun h hr => hreads h (.skipped hleft hnext hr)) h
      | zero =>
        obtain ⟨_, f₂, hobject, hrest⟩ := run_bind_eq_ok.1 h
        have hlater : ∀ calls, P calls f₂ → _ → _ → P (calls ++ x.rowCalls m rows 0 (left.map (· - 1)) f₂) g :=
          fun calls => hP.rows hm hopen rows 0 (left.map (· - 1))
        have hreads₂ : ∀ h, ReadsRow (x.readObject m) rows 0 (left.map (· - 1)) f₂ h →
            ReadsRow (x.readObject m) (set.length + 1) x.window.skip x.window.max opened h :=
          fun h hr => hreads h (.later hleft hnext hobject hr)
        simp only [hobject]
        rw [← List.append_assoc]
        rcases readObject_eq_ok hobject with hnone | ⟨c, hsome, ht, out, left', hrun, rfl⟩
        · have hcall : x.rowCall? m f₁ = none := by
            unfold rowCall?
            rw [hnone]
          rw [hcall, Option.toList_none, List.append_nil]
          exact hlater _ (hP.empty hp₁ hm hnone) hreads₂ hrest
        · rw [rowCall?_eq ht hsome, Option.toList_some]
          have hmarks := marks_of_row hopen (hreads f₁ (.here hleft hnext)) hsome
          refine hlater _ (hP.row c hp₁ hm hsome ht hmarks ?_ hrun) hreads₂ hrest
          have hcalls : x.Calls { map := c.map, target := x.target, values := c.values, frame := c.frame } :=
            .row hopen (hreads f₁ (.here hleft hnext)) hsome
          rwa [← ht] at hcalls

/-- A query that succeeds gets a response, reads its rows if there are any, and writes the outputs. -/
theorem run_eq_ok (h : x.run = (.ok (), g)) :
    ∃ resultMap response f k, x.Submits resultMap response f ∧
      (x.session.writeOutputs x.statement x.parameter response.outputs).run k = (.ok (), g) ∧
      (x.calls = [] ∧ k = f ∨ ∃ m rows opened, resultMap = some m ∧ response.rows = .rows rows ∧
        (x.session.openRows m rows).run f = (.ok (), opened) ∧
        ∀ P, x.RowInvariant P → P [] opened → P x.calls k) := by
  unfold Execution.run Session.runStatement at h
  obtain ⟨⟨resultMap, response⟩, f, hsubmit, h⟩ := run_bind_eq_ok.1 h
  obtain ⟨_, k, hread, houtputs⟩ := run_bind_eq_ok.1 h
  refine ⟨resultMap, response, f, k, hsubmit, houtputs, ?_⟩
  have hcalls : x.calls = x.responseCalls resultMap response f := by
    unfold calls
    rw [hsubmit]
  rw [hcalls]
  unfold responseCalls
  unfold Session.readResponse at hread
  cases hrows : response.rows with
  | count n =>
    rw [hrows] at hread
    cases hread
    exact .inl ⟨rfl, rfl⟩
  | rows rows =>
    cases resultMap with
    | none =>
      rw [hrows] at hread
      cases hread
      exact .inl ⟨rfl, rfl⟩
    | some m =>
      rw [hrows] at hread
      obtain ⟨_, opened, hopen, hread⟩ := run_bind_eq_ok.1 hread
      refine .inr ⟨m, rows, opened, rfl, rfl, hopen, fun P hP hopened => ?_⟩
      dsimp only
      rw [hopen]
      exact hP.rows (resultMap_of_submit hsubmit) ⟨response, f, hsubmit, hrows, hopen⟩ _ _ _ hopened
        (fun _ => id) hread

/-- What a query keeps at each row holds at its end. -/
theorem Invariant.run {P : List Call → Frame → Prop} (hP : x.Invariant P)
    (h : x.run = (.ok (), g)) : P x.calls g := by
  obtain ⟨resultMap, response, f, k, hsubmit, houtputs,
    ⟨hcalls, rfl⟩ | ⟨m, rows, opened, rfl, hrows, hopen, hread⟩⟩ := run_eq_ok h
  · rw [hcalls]
    exact hP.outputs hsubmit (hP.submitted hsubmit) houtputs
  · have hopened := hP.opened hsubmit hrows (hP.submitted hsubmit) hopen
    exact hP.outputs hsubmit (hread P hP.toRowInvariant hopened) houtputs

/-! ## Queries on given rows -/

/-- A query without parameter on rows that are given, read with the first of some maps. -/
def select (maps : List ResultMap) (columns : List String) (rows : List (List Value)) : Execution :=
  let database : Script := { registrations := [{ sql := "q", reply := .rows { columns, rows } }] }
  let catalog : Catalog := { resultMaps := maps.map fun m => (m.id, m) }
  let opened := World.openSession { database } catalog
  { session := opened.1, load := opened.1.loader, world := opened.2, parameter := .null
    statement := { id := "s", kind := .select, sql := "q", resultMap := maps.head?.map (·.id) } }

theorem map_of_select {maps : List ResultMap} {columns : List String} {rows : List (List Value)}
    {c : Call} (h : (select maps columns rows).Calls c) : ∃ m ∈ maps, c.map = m.atHome 0 := by
  obtain ⟨id, hid⟩ := h.registered
  obtain ⟨entry, hmem, heq⟩ := List.mem_map.1 (Table.mem_of_get? (Catalog.resultMap_ok_iff.1 hid))
  obtain ⟨m, hm, rfl⟩ := List.mem_map.1 hmem
  exact ⟨m, hm, (Prod.mk.inj heq).2.symm⟩

theorem run_of_isOk {x : Execution} (h : x.run.1.isOk = true) : x.run = (.ok (), x.run.2) := by
  rcases hx : x.run with ⟨e | _, g⟩
  · rw [hx] at h
    cases h
  · rfl

end Execution

end RowMapper
