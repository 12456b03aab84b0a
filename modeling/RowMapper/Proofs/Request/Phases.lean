/-
The life of a request. Whatever is done to a new request, and in whatever order: one that executes
has a statement and rows, rows are accepted in one phase and given in one phase, and a request that
was reset cannot be told from a new one.
-/
import RowMapper.Request.Basic

namespace RowMapper

namespace Request

/-! ## What can be done to a request -/

/-- The operations on a request. -/
inductive Action where
  | bind (statement : Statement) (resultMap : Option ResultMap)
  | start (rows : RowSet)
  /-- Uses the rows, such as to move to the next or to read a column. -/
  | useRows (use : RowSet → Except Error Value × RowSet)
  | reset
  | changeIdentity (change : IdentityTable → IdentityTable)
  | changeContext (change : ErrorContext → ErrorContext)
  | noteFound (found : Bool)
  | install (resultMap : String) (mappings : List ResultMapping)
  | remap (m : ResultMap) (mappings : List ResultMapping)
  | pushAssembling (resultMap key : String)
  | popAssembling

/-- Puts a request in place of one, or fails and leaves it. -/
def attempt (r : Request) (outcome : Except Error Request) : Except Error (Option Value) × Request :=
  match outcome with
  | .ok r' => (.ok none, r')
  | .error e => (.error e, r)

/-- Uses the rows, if they can be read, and keeps what became of them. -/
def useRows (r : Request) (use : RowSet → Except Error Value × RowSet) :
    Except Error (Option Value) × Request :=
  match r.rowSetToRead with
  | .ok rows => ((use rows).1.map some, { r with rows := some (use rows).2 })
  | .error e => (.error e, r)

/-- What an operation answers, and the request behind it. Only the use of rows answers a value. -/
def perform (r : Request) : Action → Except Error (Option Value) × Request
  | .bind statement resultMap => (.ok none, r.bind statement resultMap)
  | .start rows => r.attempt (r.start rows)
  | .useRows use => r.useRows use
  | .reset => (.ok none, r.reset)
  | .changeIdentity change => (.ok none, { r with identity := change r.identity })
  | .changeContext change => (.ok none, { r with context := change r.context })
  | .noteFound found => (.ok none, { r with rowDataFound := found })
  | .install resultMap mappings => (.ok none, r.setMappings resultMap mappings)
  | .remap m mappings => r.attempt (r.remap m mappings)
  | .pushAssembling resultMap key => (.ok none, r.pushAssembling resultMap key)
  | .popAssembling => (.ok none, r.popAssembling)

/-- The request behind a list of operations, failed ones included. -/
def after (r : Request) (actions : List Action) : Request :=
  actions.foldl (fun r action => (r.perform action).2) r

/-! ## What can be seen of a request -/

/-- All that a request shows. -/
structure View where
  phase : Phase
  statement : Option Statement
  sql : Option String
  resultMap : Option ResultMap
  rowSet : Except Error RowSet
  rowSetToRead : Except Error RowSet
  identity : IdentityTable
  context : ErrorContext
  rowDataFound : Bool
  mappings : String → Option (List ResultMapping)
  isAssembling : String → String → Bool

def view (r : Request) : View where
  phase := r.phase
  statement := r.statement
  sql := r.sql
  resultMap := r.resultMap
  rowSet := r.rowSet
  rowSetToRead := r.rowSetToRead
  identity := r.identity
  context := r.context
  rowDataFound := r.rowDataFound
  mappings resultMap := Table.get? resultMap r.mappings
  isAssembling := r.isAssembling

/-- What each operation of a list answers, with what the request shows behind it. -/
def watch (r : Request) : List Action → List (Except Error (Option Value) × View)
  | [] => []
  | action :: actions =>
    ((r.perform action).1, (r.perform action).2.view) :: (r.perform action).2.watch actions

/-- Two requests that no operations tell apart. -/
def Alike (r s : Request) : Prop := r.view = s.view ∧ ∀ actions, r.watch actions = s.watch actions

theorem Alike.refl (r : Request) : r.Alike r := ⟨rfl, fun _ => rfl⟩

/-- Operations lead requests that nothing tells apart to such requests. -/
theorem Alike.after {r s : Request} (h : r.Alike s) (actions : List Action) :
    (r.after actions).Alike (s.after actions) := by
  induction actions generalizing r s with
  | nil => exact h
  | cons action actions ih =>
    have step := h.2 [action]
    have later := fun more => h.2 (action :: more)
    simp only [watch, List.cons.injEq, Prod.mk.injEq, and_true] at step later
    exact ih ⟨step.2, fun more => (later more).2⟩

/-! ## The phases -/

/-- What the phase of a request says of its parts. -/
structure Steady (r : Request) : Prop where
  statement : r.phase ≠ .fresh ↔ r.statement.isSome
  sql : r.sql = r.statement.map (·.sql)
  /-- A request that was bound again still has the rows from before. -/
  rows : r.phase = .executing → r.rows.isSome

theorem Steady.fresh : Steady {} := ⟨by decide, rfl, by decide⟩

theorem start_eq_ok {r r' : Request} {rows : RowSet} (h : r.start rows = .ok r') :
    r.phase = .bound ∧ r' = { r with rows := some rows, phase := .executing } := by
  unfold start at h
  split at h
  · exact ⟨‹_›, (Except.ok.inj h).symm⟩
  · cases h

theorem remap_eq_ok {r r' : Request} {m : ResultMap} {mappings : List ResultMapping}
    (h : r.remap m mappings = .ok r') : r' = r.setMappings m.id mappings := by
  unfold remap at h
  split at h
  · exact (Except.ok.inj h).symm
  · cases h

theorem rowSetToRead_eq_ok {r : Request} {rows : RowSet} :
    r.rowSetToRead = .ok rows ↔ r.phase = .executing ∧ r.rows = some rows := by
  unfold rowSetToRead
  cases r.phase <;> cases r.rows <;> simp

/-- Rows are given to look at exactly when they are given to read. -/
theorem rowSet_eq_ok {r : Request} {rows : RowSet} :
    r.rowSet = .ok rows ↔ r.rowSetToRead = .ok rows := by
  rw [rowSetToRead_eq_ok]
  unfold rowSet
  cases r.phase <;> cases r.rows <;> simp

/-- What an attempt keeps, if its outcome does. -/
theorem attempt_keeps {r : Request} {outcome : Except Error Request} {P : Request → Prop} (h : P r)
    (ok : ∀ r', outcome = .ok r' → P r') : P (r.attempt outcome).2 := by
  cases outcome with
  | ok r' => exact ok r' rfl
  | error _ => exact h

/-- Every operation, failed or not, leaves a request steady. -/
theorem Steady.perform {r : Request} (h : r.Steady) (action : Action) :
    (r.perform action).2.Steady := by
  cases action with
  | bind statement resultMap =>
    exact ⟨by simp [Request.perform, Request.bind], rfl, fun hp => by cases hp⟩
  | start rows =>
    refine attempt_keeps h fun r' hr => ?_
    obtain ⟨hphase, rfl⟩ := start_eq_ok hr
    have hbound : r.phase ≠ .fresh := by rw [hphase]; decide
    exact ⟨⟨fun _ => h.statement.mp hbound, fun _ hp => by cases hp⟩, h.sql, fun _ => rfl⟩
  | useRows use =>
    show (r.useRows use).2.Steady
    unfold Request.useRows
    split
    · exact ⟨h.statement, h.sql, fun _ => rfl⟩
    · exact h
  | reset => exact .fresh
  | remap m mappings =>
    refine attempt_keeps h fun r' hr => ?_
    rw [remap_eq_ok hr]
    exact ⟨h.statement, h.sql, h.rows⟩
  | changeIdentity _ | changeContext _ | noteFound _ | install _ _ | pushAssembling _ _
  | popAssembling => exact ⟨h.statement, h.sql, h.rows⟩

theorem Steady.after {r : Request} (h : r.Steady) (actions : List Action) :
    (r.after actions).Steady := by
  induction actions generalizing r with
  | nil => exact h
  | cons action actions ih => exact ih (h.perform action)

/-- A steady request that executes gives its rows. -/
theorem Steady.rows_given {r : Request} (h : r.Steady) :
    (∃ rows, r.rowSetToRead = .ok rows) ↔ r.phase = .executing := by
  simp only [rowSetToRead_eq_ok, exists_and_left, and_iff_left_iff_imp]
  exact fun hphase => Option.isSome_iff_exists.mp (h.rows hphase)

theorem Steady.rows_found {r : Request} (h : r.Steady) :
    r.rowSetToRead ≠ .error (.protocol .noRows) := by
  unfold rowSetToRead
  split
  · simp
  · next hphase hrows => simpa [hrows] using h.rows hphase
  · exact nofun

theorem start_isOk {r : Request} {rows : RowSet} :
    (∃ r', r.start rows = .ok r') ↔ r.phase = .bound := by
  unfold start
  split <;> simp [*]

/-- A request that is bound takes rows, executes from then on, and gives these rows. -/
theorem start_of_bound {r : Request} (h : r.phase = .bound) (rows : RowSet) :
    ∃ r', r.start rows = .ok r' ∧ r'.phase = .executing ∧ r'.rowSet = .ok rows ∧
      r'.rowSetToRead = .ok rows ∧ r'.statement = r.statement := by
  obtain ⟨r', hr⟩ := start_isOk.mpr h
  obtain ⟨-, rfl⟩ := start_eq_ok hr
  have hread : rowSetToRead { r with rows := some rows, phase := .executing } = .ok rows :=
    rowSetToRead_eq_ok.mpr ⟨rfl, rfl⟩
  exact ⟨_, hr, rfl, rowSet_eq_ok.mpr hread, hread, rfl⟩

/-- A request comes to execute by taking rows while it is bound, and in no other way. -/
theorem perform_executing {r : Request} {action : Action}
    (h : (r.perform action).2.phase = .executing) :
    r.phase = .executing ∨ ∃ rows, action = .start rows ∧ r.phase = .bound := by
  cases action with
  | bind _ _ => cases h
  | reset => cases h
  | start rows =>
    by_cases hbound : r.phase = .bound
    · exact .inr ⟨rows, rfl, hbound⟩
    · simp only [perform, start, if_neg hbound] at h
      exact .inl h
  | useRows use =>
    refine .inl ?_
    change (r.useRows use).2.phase = .executing at h
    unfold useRows at h
    split at h <;> exact h
  | remap m mappings =>
    refine .inl ?_
    change (r.attempt (r.remap m mappings)).2.phase = .executing at h
    cases hr : r.remap m mappings with
    | ok r' =>
      rw [hr, remap_eq_ok hr] at h
      exact h
    | error _ =>
      rw [hr] at h
      exact h
  | changeIdentity _ | changeContext _ | noteFound _ | install _ _ | pushAssembling _ _
  | popAssembling => exact .inl h

/-- Whatever was done to a request before, binding it makes it bound to that statement, and rows that
are handed over then are the rows that it gives while it executes. -/
theorem bound_then_executing (actions : List Action) (statement : Statement)
    (resultMap : Option ResultMap) (rows : RowSet) :
    let bound := ({} : Request).after (actions ++ [.bind statement resultMap])
    let started := ({} : Request).after (actions ++ [.bind statement resultMap, .start rows])
    (bound.phase = .bound ∧ bound.statement = some statement ∧ bound.sql = some statement.sql ∧
      bound.resultMap = resultMap) ∧
    started.phase = .executing ∧ started.statement = some statement ∧ started.rowSet = .ok rows ∧
      started.rowSetToRead = .ok rows := by
  intro bound started
  have hbound : bound = (({} : Request).after actions).bind statement resultMap := by
    simp [bound, after, perform]
  obtain ⟨r', hr, hphase, hgiven, hread, hstatement⟩ :=
    start_of_bound (r := bound) (by rw [hbound]; rfl) rows
  have hstarted : started = r' := by
    have hlast : started = (bound.perform (.start rows)).2 := by
      simp [started, bound, after]
    rw [hlast]
    simp only [perform, hr, attempt]
  rw [hstarted]
  refine ⟨by rw [hbound]; exact ⟨rfl, rfl, rfl, rfl⟩, hphase, ?_, hgiven, hread⟩
  rw [hstatement, hbound]
  rfl

/-- A request that refuses rows stays as it is. -/
theorem perform_start_error {r : Request} {rows : RowSet} {e : Error}
    (h : (r.perform (.start rows)).1 = .error e) : (r.perform (.start rows)).2 = r := by
  simp only [perform] at h ⊢
  cases hr : r.start rows with
  | ok r' => simp [attempt, hr] at h
  | error _ => rfl

/-! ## A request that was reset -/

/-- A reset forgets everything, whatever was done before. -/
theorem reset_eq_new (r : Request) : r.reset = {} := rfl

/-- The life of a request, from its creation through any operations. While it executes it has a
statement and rows, which then are not found missing; rows are given exactly while it executes and
accepted exactly when it is bound, and refusing them changes nothing that any later operations
could show; and after a reset it cannot be told from a new one. -/
theorem life (actions : List Action) :
    let r := ({} : Request).after actions
    (r.phase = .executing → r.statement.isSome ∧ r.rows.isSome) ∧
    r.rowSetToRead ≠ .error (.protocol .noRows) ∧
    ((∃ rows, r.rowSet = .ok rows) ↔ r.phase = .executing) ∧
    ((∃ rows, r.rowSetToRead = .ok rows) ↔ r.phase = .executing) ∧
    (∀ rows, (∃ r', r.start rows = .ok r') ↔ r.phase = .bound) ∧
    (∀ rows e, (r.perform (.start rows)).1 = .error e → (r.perform (.start rows)).2.Alike r) ∧
    (({} : Request).after (actions ++ [.reset])).Alike {} := by
  intro r
  have steady : r.Steady := Steady.fresh.after actions
  refine ⟨fun hphase => ⟨steady.statement.mp ?_, steady.rows hphase⟩, steady.rows_found, ?_,
    steady.rows_given, fun _ => start_isOk, fun rows e he => ?_, ?_⟩
  · rw [hphase]
    decide
  · simp only [rowSet_eq_ok]
    exact steady.rows_given
  · rw [perform_start_error he]
    exact .refl r
  · have hreset : ({} : Request).after (actions ++ [.reset]) = r.reset := by
      simp [r, after, perform]
    rw [hreset, reset_eq_new]
    exact .refl _

end Request

end RowMapper
