/-
Runs: computations that change a state and may stop early, by an error or because a bound on their
depth is used up. What a run changed before it stopped stays changed.
-/
import RowMapper.Access.Edit

namespace RowMapper

/-- Why a run stopped early. A run that is `exhausted` says nothing about its outcome with a larger
bound. -/
inductive Stop where
  | failed (error : Error)
  | exhausted
  deriving DecidableEq, Repr

/-- The stop with its error changed, if it has one. -/
def Stop.mapError (f : Error → Error) : Stop → Stop
  | .failed e => .failed (f e)
  | .exhausted => .exhausted

abbrev Run (σ α : Type) := ExceptT Stop (StateM σ) α

namespace Run

variable {σ τ α : Type}

/-- An outcome with a state transition. -/
def step (f : σ → Except Stop α × σ) : Run σ α := ExceptT.mk f

def fail (e : Error) : Run σ α := throw (.failed e)

def ofExcept (outcome : Except Error α) : Run σ α :=
  step fun s => (outcome.mapError .failed, s)

/-- A value read from the state. -/
def gets (f : σ → α) : Run σ α := step fun s => (.ok (f s), s)

/-- A value read from the state, or an error. -/
def read (f : σ → Except Error α) : Run σ α := step fun s => ((f s).mapError .failed, s)

def modify (f : σ → σ) : Run σ Unit := step fun s => (.ok (), f s)

/-- Runs on a part of the state. -/
def within (view : σ → τ) (put : σ → τ → σ) (run : Run τ α) : Run σ α :=
  step fun s =>
    let (outcome, t) := run.run (view s)
    (outcome, put s t)

/-- Runs an edit on the store of the state. -/
def edit (view : σ → Store) (put : σ → Store → σ) (edit : Edit α) : Run σ α :=
  step fun s =>
    let (outcome, store) := edit.runOn (view s)
    (outcome.mapError .failed, put s store)

/-- Changes the error of a run that fails. -/
def mapError (f : σ → Error → Error) (run : Run σ α) : Run σ α :=
  step fun s =>
    let (outcome, s) := run.run s
    (outcome.mapError (Stop.mapError (f s)), s)

/-- Changes the state after a run, however it ends. -/
def andAfter (run : Run σ α) (f : σ → σ) : Run σ α :=
  step fun s =>
    let (outcome, s) := run.run s
    (outcome, f s)

end Run

end RowMapper
