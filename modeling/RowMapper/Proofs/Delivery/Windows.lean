/-
Windows on rows. Reading a row depends on that row alone, not on the rows around it, so reading the
rows of a window is reading those rows one after the other (`Session.readRows_eq_readEach`), and a
query with a window does what a query without does when the database answers with the rows of the
window and no others.
-/
import RowMapper.Proofs.Engine.Answers
import RowMapper.Proofs.Engine.Key
import RowMapper.Proofs.Engine.Loads
import RowMapper.Proofs.Request.Phases

namespace RowMapper

variable {session : Session} {load : Load} {f g : Frame} {α : Type}

/-! ## Windows -/

/-- The items of a list that lie in a window. -/
def Window.slice (window : Window) (items : List α) : List α :=
  match window.max with
  | none => items.drop window.skip
  | some max => (items.drop window.skip).take max

@[simp] theorem Window.slice_nil (window : Window) : window.slice ([] : List α) = [] := by
  unfold slice
  split <;> simp

theorem Window.slice_zero (skip : Nat) (items : List α) :
    Window.slice { skip, max := some 0 } items = [] := by
  simp [slice]

theorem Window.slice_skip (skip : Nat) (max : Option Nat) (item : α) (items : List α) :
    Window.slice { skip := skip + 1, max } (item :: items) = Window.slice { skip, max } items := rfl

theorem Window.slice_first {max : Option Nat} (h : max ≠ some 0) (item : α) (items : List α) :
    Window.slice { max } (item :: items) = item :: Window.slice { max := max.map (· - 1) } items := by
  rcases max with _ | _ | max
  · rfl
  · exact absurd rfl h
  · rfl

/-- A row set before the first of the rows that lie in a window. -/
def RowSet.within (rows : RowSet) (window : Window) : RowSet :=
  { columns := rows.columns, rows := window.slice rows.rows }

/-- A response of whose rows those in a window are left. -/
def Response.within (response : Response) (window : Window) : Response :=
  match response.rows with
  | .rows rows => { response with rows := .rows (rows.within window) }
  | .count _ => response

/-! ## Rows -/

/-- The frame of a request without its rows. -/
def Frame.unread (f : Frame) : Frame := { f with request := { f.request with rows := none } }

/-- What does not depend on the rows is the same. -/
theorem Frame.view_eq {β : Type} (view : Frame → β) (hview : ∀ f : Frame, view f.unread = view f)
    (h : f.unread = g.unread) : view f = view g := by
  rw [← hview f, h, hview]

/-- The frame of a request with other rows. -/
def Frame.withRows (f : Frame) (rows : RowSet) : Frame :=
  { f with request := { f.request with rows := some rows } }

@[simp] theorem Frame.unread_withRows (f : Frame) (rows : RowSet) :
    (f.withRows rows).unread = f.unread := rfl

theorem Request.row_eq {r : Request} {columns : List String} {current : Option (List Value)} :
    r.row = (.executing, some (columns, current)) ↔
      ∃ rows, r.rowSetToRead = .ok rows ∧ rows.columns = columns ∧ rows.current = current := by
  simp only [Request.row, Prod.mk.injEq, Option.map_eq_some_iff, Request.rowSetToRead_eq_ok]
  constructor
  · rintro ⟨hphase, rows, hrows, hcolumns, hcurrent⟩
    exact ⟨rows, ⟨hphase, hrows⟩, hcolumns, hcurrent⟩
  · rintro ⟨rows, ⟨hphase, hrows⟩, hcolumns, hcurrent⟩
    exact ⟨hphase, rows, hrows, hcolumns, hcurrent⟩

/-- Moves to a row. -/
def Frame.moveTo (row : List Value) : Run Frame Unit :=
  Frame.modifyRequest fun r => { r with rows := r.rows.map fun rows => { rows with current := some row } }

/-- Reads rows one after the other. -/
def Session.readEach (read : Run Frame Unit) (rows : List (List Value)) : Run Frame Unit :=
  rows.forM fun row => do
    Frame.moveTo row
    read

/-- Requests on one row that differ in nothing but the rows around it, of which the first has some
left. -/
def Correspondence.onRow (row : Phase × Option (List String × Option (List Value)))
    (ahead : List (List Value)) : Correspondence where
  paired f g := f.unread = g.unread ∧ f.request.row = row ∧ g.request.row = row ∧
    f.request.rows.map RowSet.ahead = some ahead
  later _ _ := True
  refl _ := trivial
  trans _ _ := trivial
  values _ v w := v = w
  objects _ v w := v = w
  parents _ _ _ v w := v = w
  collections _ _ _ _ := True
  maps _ := True
  values_later _ := id
  objects_later _ := id
  parents_later _ := id
  collections_later _ := id

namespace Correspondence.onRow

variable {row : Phase × Option (List String × Option (List Value))} {ahead : List (List Value)}

theorem world_eq (h : (onRow row ahead).paired f g) : f.world = g.world :=
  Frame.view_eq Frame.world (fun _ => rfl) h.1

theorem onWorld (run : Run World α) (h : (onRow row ahead).paired f g) :
    (onRow row ahead).InStep Pairing.Same (Frame.onWorld run) (Frame.onWorld run) f g := by
  have hworld := world_eq h
  refine .inr ⟨⟨?_, h.2⟩, trivial, ?_⟩
  · show { f.unread with world := (run.run f.world).2 } = { g.unread with world := (run.run g.world).2 }
    rw [h.1, hworld]
  · show Outcomes Eq (run.run f.world).1 (run.run g.world).1
    rw [hworld]
    exact .same fun _ _ => rfl

/-- A change of the request that neither looks at the rows nor changes them. -/
theorem modify (change : Request → Request)
    (hc : ∀ r : Request, { change r with rows := none } = change { r with rows := none })
    (hr : ∀ r, (change r).rows = r.rows ∧ (change r).phase = r.phase) (h : (onRow row ahead).paired f g) :
    (onRow row ahead).paired { f with request := change f.request } { g with request := change g.request } := by
  have hrow : ∀ r, (change r).row = r.row := by
    intro r
    unfold Request.row
    rw [(hr r).1, (hr r).2]
  obtain ⟨hunread, hf, hg, hahead⟩ := h
  refine ⟨?_, (hrow _).trans hf, (hrow _).trans hg, ?_⟩
  · show { f.unread with request := { change f.request with rows := none } } =
      { g.unread with request := { change g.request with rows := none } }
    rw [hc, hc]
    exact congrArg (fun frame : Frame => { frame with request := change frame.request }) hunread
  · show (change f.request).rows.map _ = _
    rw [(hr _).1, hahead]

theorem column (c : Coercer) (column : Column) (h : (onRow row ahead).paired f g) :
    (onRow row ahead).InStep Pairing.Same (Frame.readColumn c column) (Frame.readColumn c column) f g := by
  obtain ⟨hunread, hf, hg, hahead⟩ := h
  have houtcome := column_congr (hf.trans hg.symm) c column
  have hsame : ∀ f : Frame, ((Frame.readColumn c column).run f).2.unread = f.unread ∧
      ((Frame.readColumn c column).run f).2.request.rows.map RowSet.ahead =
        f.request.rows.map RowSet.ahead := by
    intro f
    unfold Frame.readColumn
    cases hr : f.request.rowSetToRead with
    | error e => rw [run_onRows_error hr]; exact ⟨rfl, rfl⟩
    | ok rows =>
      rw [run_onRows_ok hr, Coercer.readColumn_rows, Request.rows_of_rowSetToRead hr]
      exact ⟨rfl, rfl⟩
  have hsteady : ∀ f : Frame, ((Frame.readColumn c column).run f).2.request.row = f.request.row :=
    fun f => (OnRow.column (R := World.Any) (x := True) c column f trivial).2.1.row
  refine .inr ⟨⟨?_, (hsteady f).trans hf, (hsteady g).trans hg, ?_⟩, trivial, ?_⟩
  · rw [(hsame f).1, (hsame g).1, hunread]
  · rw [(hsame f).2, hahead]
  · rw [houtcome]
    exact .same fun _ _ => rfl

/-- Reading a row does not depend on the rows around it. -/
theorem reads (session : Session) (load : Load) : (onRow row ahead).Reads session load load where
  isNull h := congrArg _ h
  null := rfl
  literal _ := rfl
  text h hv := world_eq h ▸ hv ▸ rfl
  mappings h _ := Frame.view_eq (Frame.mappings · _) (fun _ => rfl) h.1
  context change h := .modify (modify (fun r => { r with context := change r.context }) (fun _ => rfl)
    (fun _ => ⟨rfl, rfl⟩) h) trivial
  found b h := .modify (modify (fun r => { r with rowDataFound := b }) (fun _ => rfl)
    (fun _ => ⟨rfl, rfl⟩) h) trivial
  column _ _ h := column _ _ h
  instantiate _ h := onWorld _ h
  document _ h := onWorld _ h
  setterType _ h hv := world_eq h ▸ hv ▸ rfl
  set _ h hv hab := hv ▸ hab ▸ (onWorld _ h).any
  load _ _ h _ hv := hv ▸ onWorld _ h

/-- Assembling objects does not depend on the rows around the row that is read. -/
theorem assembles (session : Session) (load : Load) : (onRow row ahead).Assembles session load load where
  toScans := (reads session load).scans
  nestedMap _ _ _ _ := trivial
  isAssembling h _ _ _ _ := Frame.view_eq (fun f => f.request.isAssembling _ _) (fun _ => rfl) h.1
  known := by
    intro f g m values key h _ _ _ _
    rw [Frame.view_eq (fun f => f.request.identity.get? m.id key) (fun _ => rfl) h.1]
    cases g.request.identity.get? m.id key with
    | none => exact .none
    | some object => exact .some rfl
  buildNew := by
    intro f g m values values' key h _ _ hv _
    obtain rfl : values = values' := List.forall₂_eq_eq_eq ▸ hv
    have hmappings : f.mappings m = g.mappings m := Frame.view_eq (Frame.mappings · m) (fun _ => rfl) h.1
    unfold ResultMap.buildNew
    refine (onWorld _ h).bind ?_
    rintro s t object _ - hp rfl
    refine Pairing.InStep.bind (Q := Pairing.Any) ?_ fun s t _ _ _ hp _ => .pure hp ⟨rfl, rfl⟩
    unfold Frame.remember
    cases key with
    | some key =>
      exact .modify (modify (fun r => { r with identity := r.identity.insert m.id key object })
        (fun _ => rfl) (fun _ => ⟨rfl, rfl⟩) hp) trivial
    | none => exact .pure hp trivial
  collectionType := by
    rintro f g m mappings v _ mapping h rfl - -
    unfold ResultMapping.collectionType
    split
    · exact .pure h ⟨rfl, trivial⟩
    · exact .read h (world_eq h ▸ rfl) fun _ _ => ⟨rfl, trivial⟩
  ensure h hv _ _ _ := hv ▸ (onWorld _ h).any
  add h hv _ _ _ hab := hv ▸ hab ▸ (onWorld _ h).any
  mark := by
    intro f g m key h _ _
    refine ⟨?_, trivial⟩
    cases key with
    | none => exact h
    | some key => exact modify (·.pushAssembling m.id key) (fun _ => rfl) (fun _ => ⟨rfl, rfl⟩) h
  unmark := by
    intro f g m key h _ _
    refine ⟨?_, trivial⟩
    cases key with
    | none => exact h
    | some key => exact modify (·.popAssembling) (fun _ => rfl) (fun _ => ⟨rfl, rfl⟩) h

theorem emit (handler : Handler) {v w : Value} (h : (onRow row ahead).paired f g) (hv : v = w) :
    (onRow row ahead).InStep Pairing.Any (Session.emit handler v) (Session.emit handler w) f g := by
  subst hv
  unfold Session.emit
  refine Pairing.InStep.bind (Q := Pairing.Any) ?_ fun s t _ _ _ hp _ => ?_
  · refine .modify ⟨?_, h.2⟩ trivial
    exact congrArg (fun f : Frame => { f with
      emitted := f.emitted.push { object := v, content := f.world.store.content v } }) h.1
  · have hcount : s.emitted.size = t.emitted.size := Frame.view_eq (·.emitted.size) (fun _ => rfl) hp.1
    refine .gets_bind ?_
    rw [hcount]
    exact (onWorld _ hp).any

/-- Reading a row and giving its object does not depend on the rows around it. -/
theorem readObject (m : ResultMap) (handler : Handler) (h : (onRow row ahead).paired f g) :
    (onRow row ahead).InStep Pairing.Any (session.readObject load m none handler)
      (session.readObject load m none handler) f g :=
  (assembles session load).readObject (fun _ _ _ _ => trivial) (emit handler) trivial h

end Correspondence.onRow

/-! ## Reading the rows of a window -/

/-- The outcome of a run on a request with what it leaves but the rows. -/
abbrev unreadResult {β : Type} (result : Except Stop β × Frame) : Except Stop β × Frame :=
  (result.1, result.2.unread)

theorem unreadResult_bind {α β : Type} {x y : Run Frame α} {k k' : α → Run Frame β}
    (h : unreadResult (x.run f) = unreadResult (y.run g))
    (hk : ∀ a s t, s.unread = t.unread → unreadResult ((k a).run s) = unreadResult ((k' a).run t)) :
    unreadResult ((x >>= k).run f) = unreadResult ((y >>= k').run g) := by
  rcases hx : x.run f with ⟨e | a, s⟩ <;> rcases hy : y.run g with ⟨e' | a', t⟩ <;> rw [hx, hy] at h
  · rw [run_bind_error hx, run_bind_error hy]
    obtain ⟨he, hst⟩ := Prod.mk.inj h
    cases he
    exact congrArg (Prod.mk _) hst
  · cases (Prod.mk.inj h).1
  · cases (Prod.mk.inj h).1
  · rw [run_bind_ok hx, run_bind_ok hy]
    obtain ⟨ha, hst⟩ := Prod.mk.inj h
    cases ha
    exact hk a s t hst

theorem run_nextRow {rows : RowSet} (h : f.request.rowSetToRead = .ok rows) :
    Frame.nextRow.run f = (.ok rows.next.1, f.withRows rows.next.2) := by
  rw [Frame.nextRow, run_onRows_ok h]
  rfl

theorem run_moveTo {rows : RowSet} (h : f.request.rowSetToRead = .ok rows) (row : List Value) :
    (Frame.moveTo row).run f = (.ok (), f.withRows { rows with current := some row }) := by
  show (_, ({ f with request := { f.request with rows := f.request.rows.map _ } } : Frame)) = _
  rw [Request.rows_of_rowSetToRead h]
  rfl

theorem rowSetToRead_withRows {rows : RowSet} (h : f.request.rowSetToRead = .ok rows)
    (rows' : RowSet) : (f.withRows rows').request.rowSetToRead = .ok rows' :=
  Request.rowSetToRead_eq_ok.2 ⟨(Request.rowSetToRead_eq_ok.1 h).1, rfl⟩

namespace Session

/-- Reading a row and giving its object leaves the rows ahead, and what it does besides does not
depend on them. -/
theorem readObject_unread (m : ResultMap) (handler : Handler) {rows rows' : RowSet}
    (hfg : f.unread = g.unread) (hf : f.request.rowSetToRead = .ok rows)
    (hg : g.request.rowSetToRead = .ok rows') (hcolumns : rows.columns = rows'.columns)
    (hcurrent : rows.current = rows'.current) {outcome outcome' : Except Stop Unit} {s t : Frame}
    (hs : (session.readObject load m none handler).run f = (outcome, s))
    (ht : (session.readObject load m none handler).run g = (outcome', t)) :
    outcome = outcome' ∧ s.unread = t.unread ∧
      ∃ left left', s.request.rowSetToRead = .ok left ∧ t.request.rowSetToRead = .ok left' ∧
        left.columns = left'.columns ∧ left.ahead = rows.ahead := by
  have hpaired : (Correspondence.onRow (.executing, some (rows.columns, rows.current))
      rows.ahead).paired f g := by
    refine ⟨hfg, Request.row_eq.2 ⟨rows, hf, rfl, rfl⟩, ?_, ?_⟩
    · exact Request.row_eq.2 ⟨rows', hg, hcolumns.symm, hcurrent.symm⟩
    · rw [Request.rows_of_rowSetToRead hf]
      rfl
  have hstep := @Correspondence.onRow.readObject session load _ _ _ _ m handler hpaired
  unfold Pairing.InStep at hstep
  rw [hs, ht] at hstep
  obtain ⟨e, hloose, -⟩ | ⟨⟨hunread, hleft, hleft', hahead⟩, -, houtcome⟩ := hstep
  · exact hloose.elim
  obtain ⟨left, hleft, hc, -⟩ := Request.row_eq.1 hleft
  obtain ⟨left', hleft', hc', -⟩ := Request.row_eq.1 hleft'
  refine ⟨(houtcome.imp fun _ _ _ => rfl).eq, hunread, left, left', hleft, hleft', hc.trans hc'.symm, ?_⟩
  rw [Request.rows_of_rowSetToRead hleft] at hahead
  exact Option.some.inj hahead

/-- Reading the rows of a window is reading them one after the other. -/
theorem readRows_eq_readEach (m : ResultMap) (handler : Handler) :
    ∀ (bound skip : Nat) (max : Option Nat) {rows rows' : RowSet} {f g : Frame},
      f.unread = g.unread → f.request.rowSetToRead = .ok rows → g.request.rowSetToRead = .ok rows' →
      rows.columns = rows'.columns → rows.ahead.length < bound →
      unreadResult ((readRows (session.readObject load m none handler) bound skip max).run f) =
        unreadResult ((readEach (session.readObject load m none handler)
          (Window.slice { skip, max } rows.ahead)).run g)
  | 0, _, _, _, _, _, _, _, _, _, _, h => absurd h (Nat.not_lt_zero _)
  | bound + 1, skip, max, rows, rows', f, g, hfg, hf, hg, hcolumns, hbound => by
    unfold readRows
    by_cases hmax : max = some 0
    · rw [if_pos hmax, hmax, Window.slice_zero]
      exact congrArg (Prod.mk _) hfg
    rw [if_neg hmax, run_bind_ok (run_nextRow hf)]
    cases hahead : rows.ahead with
    | nil =>
      have hnext : rows.next = (false, { rows with current := none }) := by
        unfold RowSet.next
        rw [hahead]
      rw [Window.slice_nil, hnext]
      exact congrArg (Prod.mk _) hfg
    | cons row ahead =>
      have hnext : rows.next = (true, { rows with current := some row, ahead }) := by
        unfold RowSet.next
        rw [hahead]
      have hf₁ := rowSetToRead_withRows hf { rows with current := some row, ahead }
      have hfg₁ : (f.withRows { rows with current := some row, ahead }).unread = g.unread := hfg
      rw [hahead, List.length_cons] at hbound
      have hbound : ahead.length < bound := by omega
      rw [hnext]
      cases skip with
      | succ skip =>
        -- the row is passed over, and only the cursor moves
        rw [Window.slice_skip]
        exact readRows_eq_readEach m handler bound skip max hfg₁ hf₁ hg hcolumns hbound
      | zero =>
        have hg₁ := rowSetToRead_withRows hg { rows' with current := some row }
        have hfg₂ : (f.withRows { rows with current := some row, ahead }).unread =
            (g.withRows { rows' with current := some row }).unread := hfg
        rw [Window.slice_first hmax]
        show unreadResult ((session.readObject load m none handler >>= fun _ =>
            readRows (session.readObject load m none handler) bound 0 (max.map (· - 1))).run _) =
          unreadResult (((Frame.moveTo row >>= fun _ => session.readObject load m none handler) >>=
            fun _ => readEach (session.readObject load m none handler) _).run g)
        rw [bind_assoc, run_bind_ok (run_moveTo hg row)]
        rcases hs : (session.readObject load m none handler).run
          (f.withRows { rows with current := some row, ahead }) with ⟨outcome, s⟩
        rcases ht : (session.readObject load m none handler).run
          (g.withRows { rows' with current := some row }) with ⟨outcome', t⟩
        obtain ⟨rfl, hst, left, left', hleft, hleft', hcolumns', hahead'⟩ :=
          readObject_unread m handler hfg₂ hf₁ hg₁ hcolumns rfl hs ht
        cases outcome with
        | error e =>
          rw [run_bind_error hs, run_bind_error ht]
          exact congrArg (Prod.mk _) hst
        | ok _ =>
          rw [run_bind_ok hs, run_bind_ok ht]
          have hrest := readRows_eq_readEach m handler bound 0 (max.map (· - 1)) hst hleft hleft'
            hcolumns' (hahead' ▸ hbound)
          rwa [hahead'] at hrest

end Session

/-! ## Responses -/

/-- Requests that differ in nothing but their rows, which have the same columns. -/
def Pairing.rows (rows rows' : RowSet) : Pairing Stop Frame Frame where
  paired f g := f.unread = g.unread ∧ f.request.rowSetToRead = .ok rows ∧
    g.request.rowSetToRead = .ok rows'
  later _ _ := True
  refl _ := trivial
  trans _ _ := trivial

namespace Pairing.rows

variable {rows rows' : RowSet} {m : ResultMap}

theorem derive_eq {catalog : Catalog} {r : Request} (h : r.rowSetToRead = .ok rows) :
    m.derive catalog r = .ok ((DataType.columnMappings m.resultClass rows.columns).map
      (ColumnMapping.resolve catalog.registry m.resultClass)) := by
  obtain ⟨hphase, hrows⟩ := Request.rowSetToRead_eq_ok.1 h
  unfold ResultMap.derive Request.rowSet
  rw [hphase, hrows]
  rfl

/-- A map gets its mappings from the columns, whatever the rows are. -/
theorem prepareAuto (catalog : Catalog) (hcolumns : rows.columns = rows'.columns)
    (hp : (Pairing.rows rows rows').paired f g) :
    ∃ s t, (m.prepareAuto catalog).run f = (.ok (), s) ∧ (m.prepareAuto catalog).run g = (.ok (), t) ∧
      (Pairing.rows rows rows').paired s t := by
  unfold ResultMap.prepareAuto
  split
  · exact ⟨f, g, rfl, rfl, hp⟩
  · rename_i home _
    have hworld : f.world = g.world := Frame.view_eq Frame.world (fun _ => rfl) hp.1
    rw [run_gets_bind, run_gets_bind, derive_eq hp.2.1, derive_eq hp.2.2, ← hcolumns, ← hworld]
    generalize (DataType.columnMappings m.resultClass rows.columns).map
      (ColumnMapping.resolve catalog.registry m.resultClass) = mappings
    split
    · rename_i hremap
      have hset : ∀ f : Frame, (Frame.updateRequest
          (·.remap m (mappings.map ColumnMapping.mapping))).run f = (.ok (), { f with
            request := f.request.setMappings m.id (mappings.map ColumnMapping.mapping) }) :=
        fun f => run_updateRequest_ok _ f (if_pos hremap)
      refine ⟨_, _, hset f, hset g, ?_, hp.2⟩
      exact congrArg (fun f : Frame => { f with
        request := f.request.setMappings m.id (mappings.map ColumnMapping.mapping) }) hp.1
    · split
      · refine ⟨_, _, rfl, rfl, ?_, hp.2⟩
        exact congrArg (fun f : Frame => { f with world := { f.world with
          derived := Table.put (home, m.id) mappings f.world.derived } }) hp.1
      · exact ⟨f, g, rfl, rfl, hp⟩

/-- Opening rows depends on nothing but their columns. -/
theorem openRows (session : Session) (m : ResultMap) (rows rows' : RowSet)
    (hcolumns : rows.columns = rows'.columns) (f : Frame) :
    (∃ e, (session.openRows m rows).run f = (.error e, f) ∧
      (session.openRows m rows').run f = (.error e, f)) ∨
    ∃ s t, (session.openRows m rows).run f = (.ok (), s) ∧
      (session.openRows m rows').run f = (.ok (), t) ∧ (Pairing.rows rows rows').paired s t := by
  unfold Session.openRows
  by_cases hbound : f.request.phase = .bound
  · have hstart : ∀ rows, (Frame.updateRequest (·.start rows)).run f = (.ok (), { f with
        request := { f.request with rows := some rows, phase := .executing } }) :=
      fun rows => run_updateRequest_ok _ f (if_pos hbound)
    rw [run_bind_ok (hstart rows), run_bind_ok (hstart rows')]
    refine .inr (prepareAuto session.catalog hcolumns ?_)
    exact ⟨rfl, rfl, rfl⟩
  · have hstart : ∀ rows, (Frame.updateRequest (·.start rows)).run f =
        (.error (.failed (.protocol (.notBound f.request.phase))), f) :=
      fun rows => run_updateRequest_error _ f (if_neg hbound)
    exact .inl ⟨_, run_bind_error (hstart rows), run_bind_error (hstart rows')⟩

end Pairing.rows

namespace Session

/-- Reading the rows of a response in a window is reading those of the window in all. -/
theorem readResponse_within (resultMap : Option ResultMap) {response : Response}
    (hrewound : ∀ rows, response.rows = .rows rows → rows.ahead = rows.rows)
    (window : Window) (handler : Handler) (f : Frame) :
    unreadResult ((session.readResponse load resultMap response none window handler).run f) =
      unreadResult ((session.readResponse load resultMap (response.within window) none {} handler).run f) := by
  unfold readResponse Response.within
  cases hrows : response.rows with
  | count n => rw [hrows]
  | rows rows =>
    cases resultMap with
    | none => rfl
    | some m =>
      have hahead := hrewound rows hrows
      show unreadResult (((session.openRows m rows) >>= fun _ =>
          readRows (session.readObject load m none handler) (rows.length + 1) window.skip window.max).run f) =
        unreadResult (((session.openRows m (rows.within window)) >>= fun _ =>
          readRows (session.readObject load m none handler) ((rows.within window).length + 1) 0 none).run f)
      rcases Pairing.rows.openRows session m rows (rows.within window) rfl f with
        ⟨e, ho, ho'⟩ | ⟨s, t, ho, ho', hst, hs, ht⟩
      · exact (congrArg unreadResult (run_bind_error ho)).trans
          (congrArg unreadResult (run_bind_error ho')).symm
      · rw [run_bind_ok ho, run_bind_ok ho']
        have hlength : rows.ahead.length < rows.length + 1 := by
          rw [hahead]
          exact Nat.lt_succ_self _
        have hall := @readRows_eq_readEach session load m handler
          ((rows.within window).length + 1) 0 none _ _ t t rfl ht ht rfl (Nat.lt_succ_self _)
        rw [readRows_eq_readEach m handler _ _ _ hst hs ht rfl hlength, hahead]
        exact hall.symm

/-! ## Queries -/

/-- Runs a statement as a query when the database answers with another response. -/
def runAnswered (session : Session) (load : Load) (answer : Response → Response)
    (statement : Statement) (parameter : Value) (target : Option Value) (window : Window)
    (handler : Handler) : Run Frame Unit := do
  let (resultMap, response) ← session.submit statement parameter
  let response := answer response
  session.readResponse load resultMap response target window handler
  session.writeOutputs statement parameter response.outputs

/-- Runs a query when the database answers its statement with another response. -/
def queryAnswered (session : Session) (load : Load) (answer : Response → Response) (id : String)
    (parameter : Value) (target : Option Value) (window : Window) (handler : Handler) (w : World) :
    QueryOutcome × World :=
  match session.catalog.statement id with
  | .error e => ({ emitted := [], result := .error (.failed e) }, w)
  | .ok statement =>
    let run := Run.mapError Frame.explain
      (session.runAnswered load answer statement parameter target window handler)
    let (result, frame) := run.run { world := w }
    ({ emitted := frame.emitted.toList, result }, frame.world)

/-- The objects of a statement when the database answers it with another response. -/
def listAnswered (session : Session) (answer : Response → Response) (id : String)
    (parameter : Value) : Run World (List Value) :=
  Run.step fun w =>
    let (outcome, w) :=
      session.queryAnswered session.loader answer id parameter none {} .any w
    (outcome.result.map fun _ => outcome.emitted.map (·.object), w)

/-- The rows of a response are before the first. -/
theorem rewound_of_respond {sql : String} {kind : OperationKind} {reply : Reply}
    {response : Response} {rows : RowSet} (h : Script.respond sql kind reply = .ok response)
    (hrows : response.rows = .rows rows) : rows.ahead = rows.rows := by
  cases reply with
  | error message => cases h
  | count count => cases h; cases hrows
  | rows rs => cases h; cases hrows; rfl
  | call rs outputs =>
    cases kind with
    | exec => cases h
    | query => cases h
    | call outs =>
      cases h
      cases rs with
      | none => cases hrows
      | some rs => cases hrows; rfl

theorem rewound_of_execute {d : Script} {s : Store} {op : Operation} {response : Response}
    {rows : RowSet} (h : (d.execute s op).1 = .ok response) (hrows : response.rows = .rows rows) :
    rows.ahead = rows.rows := by
  unfold Script.execute at h
  cases hr : d.reply? s (Text.squeeze op.sql) (Params.values op.params) with
  | none => simp [hr] at h
  | some reply =>
    simp only [hr] at h
    exact rewound_of_respond h hrows

theorem rewound_of_submit {statement : Statement} {parameter : Value} {resultMap : Option ResultMap}
    {response : Response} {rows : RowSet}
    (h : (session.submit statement parameter).run f = (.ok (resultMap, response), g))
    (hrows : response.rows = .rows rows) : rows.ahead = rows.rows := by
  obtain ⟨_, _, -, h⟩ := run_bind_eq_ok.1 h
  obtain ⟨_, _, -, h⟩ := run_bind_eq_ok.1 h
  obtain ⟨_, _, -, h⟩ := run_bind_eq_ok.1 h
  obtain ⟨params, _, -, h⟩ := run_bind_eq_ok.1 h
  obtain ⟨response', _, hexecute, h⟩ := run_bind_eq_ok.1 h
  cases h
  obtain ⟨_, s, -, hexecute⟩ := run_bind_eq_ok.1 hexecute
  have hresponse := congrArg Prod.fst hexecute
  change Except.mapError Stop.failed (Script.execute s.world.database s.world.store _).1 = _ at hresponse
  rcases hanswer : (Script.execute s.world.database s.world.store _).1 with e | answer
  · rw [hanswer] at hresponse
    cases hresponse
  · rw [hanswer] at hresponse
    cases hresponse
    exact rewound_of_execute hanswer hrows

/-- Output parameters are written without a look at the rows. -/
theorem writeOutputs_unread (statement : Statement) (parameter : Value) (outputs : Option OutParams)
    (h : f.unread = g.unread) :
    unreadResult ((session.writeOutputs statement parameter outputs).run f) =
      unreadResult ((session.writeOutputs statement parameter outputs).run g) := by
  refine Frame.view_eq (fun f => unreadResult ((session.writeOutputs statement parameter outputs).run f))
    (fun f => ?_) h
  unfold writeOutputs
  split <;> rfl

/-- A statement with a window is run as one without whose response holds the rows of the window. -/
theorem runStatement_within (statement : Statement) (parameter : Value) (window : Window)
    (handler : Handler) (f : Frame) :
    unreadResult ((session.runStatement load statement parameter none window handler).run f) =
      unreadResult ((session.runAnswered load (·.within window) statement parameter none {}
        handler).run f) := by
  unfold runStatement runAnswered
  rcases hsubmit : (session.submit statement parameter).run f with ⟨e | ⟨resultMap, response⟩, s⟩
  · rw [run_bind_error hsubmit, run_bind_error hsubmit]
  rw [run_bind_ok hsubmit, run_bind_ok hsubmit]
  have houtputs : (response.within window).outputs = response.outputs := by
    unfold Response.within
    split <;> rfl
  dsimp only
  rw [houtputs]
  exact unreadResult_bind
    (readResponse_within resultMap (fun _ => rewound_of_submit hsubmit) window handler s)
    fun _ s t hst => writeOutputs_unread statement parameter response.outputs hst

/-- A query with a window is one without whose response holds the rows of the window. -/
theorem query_within (id : String) (parameter : Value) (window : Window) (handler : Handler)
    (w : World) :
    session.query load id parameter none window handler w =
      session.queryAnswered load (·.within window) id parameter none {} handler w := by
  unfold query queryAnswered
  cases session.catalog.statement id with
  | error e => rfl
  | ok statement =>
    have h := @runStatement_within session load statement parameter window handler { world := w }
    rcases hf : (session.runStatement load statement parameter none window handler).run
      { world := w } with ⟨outcome, s⟩
    rcases hg : (session.runAnswered load (·.within window) statement parameter none {} handler).run
      { world := w } with ⟨outcome', t⟩
    rw [hf, hg] at h
    obtain ⟨rfl, hst⟩ := Prod.mk.inj h
    have hworld : s.world = t.world := Frame.view_eq Frame.world (fun _ => rfl) hst
    have hemitted : s.emitted = t.emitted := Frame.view_eq Frame.emitted (fun _ => rfl) hst
    have hexplain : s.explain = t.explain := Frame.view_eq Frame.explain (fun _ => rfl) hst
    dsimp only
    rw [run_mapError, run_mapError, hf, hg]
    dsimp only
    rw [hworld, hemitted, hexplain]

/-- The objects of a statement whose rows lie in a window, or how the query fails, are those of the
statement when the database answers this one execution with the rows of the window and no others. -/
theorem queryForList_within (session : Session) (id : String) (parameter : Value) (window : Window) :
    session.queryForList id parameter window =
      session.listAnswered (·.within window) id parameter := by
  unfold queryForList collect listAnswered
  simp only [query_within]

end Session

end RowMapper
