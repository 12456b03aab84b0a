/-
The catalogs of sessions. A query, an update and a nested select look at the catalog of their own session
alone: in a state with other catalogs they do the same (`World.Blind`). None of them changes a catalog.
-/
import RowMapper.Proofs.Engine.Upkeep

namespace RowMapper

variable {α : Type} {w : World}

/-- A run on the state that does not look at the catalogs of the sessions. -/
def World.Blind (run : World → α × World) : Prop :=
  ∀ w cs, run (w.withCatalogs cs) = ((run w).1, (run w).2.withCatalogs cs)

/-- What does not look at catalogs does not change them. -/
theorem World.Blind.catalogs {run : World → α × World} (h : Blind run) (w : World) :
    (run w).2.catalogs = w.catalogs :=
  congrArg (·.2.catalogs) (h w w.catalogs)

theorem Catalog.upholds_true (c : Catalog) : c.Upholds fun _ => True := by
  constructor <;> intros <;> trivial

namespace Session

variable (session : Session) (depth : Nat) (id : String) (parameter : Value)

theorem sound_true (w : World) : Frame.Sound { world := w } fun _ => True := ⟨trivial, nofun⟩

theorem blind_query (target : Option Value) (window : Window) (receive : Receiver) :
    World.Blind (session.query (session.load depth) id parameter target window receive) := by
  intro w cs
  unfold query
  cases session.catalog.statement id with
  | error e => rfl
  | ok statement =>
    have hrun : (Run.mapError Frame.explain
        (session.runStatement (session.load depth) statement parameter target window receive)).run
          (Frame.withCatalogs { world := w } cs) = _ :=
      upkeep.blind (upkeep.explain (upkeep.runStatement session.catalog.upholds_true
        (upkeep.answers_load session.catalog.upholds_true depth) (sound_true w) statement parameter
        target window receive))
    unfold Frame.withCatalogs at hrun
    dsimp only at hrun ⊢
    rw [hrun]
    rfl

theorem blind_update : World.Blind (session.update id parameter).run := by
  intro w cs
  unfold update
  rw [run_step, run_step]
  cases session.catalog.statement id with
  | error e => rfl
  | ok statement =>
    have hrun : (Run.mapError Frame.explain (session.runUpdate statement parameter)).run
        (Frame.withCatalogs { world := w } cs) = _ :=
      upkeep.blind (upkeep.explain (upkeep.runUpdate session.catalog.upholds_true (sound_true w)
        statement parameter))
    unfold Frame.withCatalogs at hrun
    dsimp only at hrun ⊢
    rw [hrun]
    rfl

theorem blind_load (target : DataType) : World.Blind (session.load depth id parameter target).run := by
  intro w cs
  have hrun : (Frame.onWorld (session.load depth id parameter target)).run
      (Frame.withCatalogs { world := w } cs) = _ :=
    upkeep.blind (upkeep.loads session.catalog.upholds_true (sound_true w) depth id parameter target)
  rw [Frame.run_onWorld, Frame.run_onWorld] at hrun
  exact Prod.ext (congrArg (·.1) hrun) (congrArg (·.2.world) hrun)

theorem blind_loader (target : DataType) : World.Blind (session.loader id parameter target).run :=
  session.blind_load nestingBound id parameter target

/-- The query of a lazy value is run, and its result kept. -/
def settle (ref : LazyRef) (query : DeferredQuery) : Run World Value := do
  let v ← session.loader query.statement query.parameter query.target
  Run.modify fun w => { w with store := w.store.setLoaded ref v }
  return v

theorem blind_settle (ref : LazyRef) (query : DeferredQuery) :
    World.Blind (session.settle ref query).run := by
  intro w cs
  have hload := session.blind_loader query.statement query.parameter query.target w cs
  unfold settle
  rcases hrun : (session.loader query.statement query.parameter query.target).run w with
    ⟨stop | v, u⟩ <;> rw [hrun] at hload
  · rw [run_bind_error hrun, run_bind_error hload]
  · rw [run_bind_ok hrun, run_bind_ok hload]
    rfl

end Session

/-- Reading a lazy value changes no catalog. -/
theorem World.catalogs_force (ref : LazyRef) : ((force ref).run w).2.catalogs = w.catalogs :=
  force_keeps (P := fun v => v.catalogs = w.catalogs) ref rfl fun cell session _ _ =>
    ⟨(session.blind_loader _ _ cell.query.target).catalogs w, fun _ _ h => h⟩

end RowMapper
