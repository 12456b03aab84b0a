/-
What the earlier operations of a session leave (`Session.History`). Whatever they do to objects, and
however they end, the replies that are registered and the mappings of remappable maps stay as they were
(`World.Kept`).
-/
import RowMapper.Proofs.Catalog.Nesting
import RowMapper.Proofs.Engine.Execution
import Mathlib.Logic.Relation

namespace RowMapper

open Relation

/-- What goes on also when mappings are kept for the maps of statements. -/
def Session.Derives (session : Session) (R : World → World → Prop) : Prop :=
  ∀ statement m, session.catalog.statementResultMap statement = .ok (some m) →
    World.Derives R session.catalog.registry m

/-! ## Whole requests -/

namespace KeepsMarks

variable {R : World → World → Prop} [World.Records R] {session : Session} {load : Load}

theorem readRows {read : Run Frame Unit} (h : KeepsMarks R read) :
    ∀ (rows skip : Nat) (left : Option Nat), KeepsMarks R (Session.readRows read rows skip left)
  | 0, _, _ => ofRow .pure
  | rows + 1, skip, left => by
    unfold Session.readRows
    split
    · exact ofRow .pure
    · refine bind nextRow fun more => ?_
      split
      · split
        · exact readRows h rows _ left
        · exact bind h fun _ => readRows h rows 0 _
      · exact ofRow .pure

theorem writeOutputs (session : Session) (statement : Statement) (parameter : Value)
    (outputs : Option OutParams) : KeepsMarks R (session.writeOutputs statement parameter outputs) := by
  unfold Session.writeOutputs
  split
  · exact bind (ofRow (.modifyContext _)) fun _ => ofRow (.edit _)
  · exact ofRow .pure

/-- A query takes the shared state along what its nested selects and derived mappings do. -/
theorem runStatement (hload : ∀ id parameter target, Bounded R True (load id parameter target))
    (hd : session.Derives R) (statement : Statement) (parameter : Value) (target : Option Value)
    (window : Window) (receive : Receiver) :
    KeepsMarks R (session.runStatement load statement parameter target window receive) := by
  unfold Session.runStatement
  refine Keeps.bind (submit session statement parameter) fun ⟨resultMap, response⟩ hmap => ?_
  refine bind ?_ fun _ => writeOutputs _ _ _ _
  unfold Session.readResponse
  split
  · exact bind (openRows (hd statement _ hmap) _) fun _ => readRows (readObject hload _ _ _) _ _ _
  · exact ofRow .pure

theorem runUpdate (session : Session) (statement : Statement) (parameter : Value) :
    Keeps (fun _ => True) (Frame.MarkedAlong R) (Stop.Allowed True) Always
      (session.runUpdate statement parameter) := by
  unfold Session.runUpdate
  refine bind (.modify fun f _ => ⟨trivial, rfl, Std.Refl.refl f.world⟩) fun _ => ?_
  refine bind (bindParameter _ _ _) fun params => bind (execute _) fun response => ?_
  exact bind (writeOutputs _ _ _ _) fun _ => ofRow .pure

end KeepsMarks

namespace Session

section

variable {R : World → World → Prop} [World.Records R] {session : Session} {load : Load}

theorem query_along (hload : ∀ id parameter target, Bounded R True (load id parameter target))
    (hd : session.Derives R) (id : String) (parameter : Value) (target : Option Value) (window : Window)
    (receive : Receiver) (w : World) :
    R w (session.query load id parameter target window receive w).2 := by
  unfold query
  cases session.catalog.statement id with
  | error e => exact Std.Refl.refl w
  | ok statement =>
    have hrun : KeepsMarks R (Run.mapError Frame.explain
        (session.runStatement load statement parameter target window receive)) :=
      .mapError (KeepsMarks.runStatement hload hd statement parameter target window receive)
    exact (hrun { world := w } trivial).2.1.world

theorem update_along (id : String) (parameter : Value) (w : World) :
    R w ((session.update id parameter).run w).2 := by
  unfold update
  rw [run_step]
  cases session.catalog.statement id with
  | error e => exact Std.Refl.refl w
  | ok statement =>
    have hrun : KeepsMarks R (Run.mapError Frame.explain (session.runUpdate statement parameter)) :=
      .mapError (KeepsMarks.runUpdate session statement parameter)
    exact (hrun { world := w } trivial).2.1.world

theorem bounded_collect (hload : ∀ id parameter target, Bounded R True (load id parameter target))
    (hd : session.Derives R) (id : String) (parameter : Value) (target : Option Value) (window : Window)
    (receive : Receiver) :
    Bounded R True (session.collect load id parameter target window receive) := by
  intro w _
  refine ⟨trivial, query_along hload hd id parameter target window receive w, ?_⟩
  rcases ((session.collect load id parameter target window receive).run w).1 with (e | _) | a <;> trivial

/-- Nested selects of any depth go along a relation, if deriving mappings does. -/
theorem bounded_load (hd : session.Derives R) :
    ∀ (depth : Nat) (id : String) (parameter : Value) (target : DataType),
      Bounded R True (session.load depth id parameter target)
  | 0, _, _, _ => .throw trivial
  | depth + 1, id, parameter, target => by
    unfold load
    have hcollect : ∀ receive : Receiver,
        Bounded R True (session.collect (session.load depth) id parameter none {} receive) :=
      bounded_collect (bounded_load hd depth) hd id parameter none {}
    split
    · refine Keeps.bind (hcollect .any) fun items _ => ?_
      split
      · exact .gets fun _ _ => trivial
      · exact .pure trivial
    · exact Keeps.bind (hcollect .single) fun items _ => .pure trivial

end

end Session

/-! ## What stays -/

/-- The replies that are registered are the same, and so are the mappings known of remappable maps. -/
structure World.Kept (session : Session) (w w' : World) : Prop where
  registrations : w'.database.registrations = w.database.registrations
  derived : ∀ m home, session.catalog.resultMap m.id = .ok m → m.remappable = true →
    Table.get? (home, m.id) w'.derived = Table.get? (home, m.id) w.derived

instance {session : Session} : World.Records (World.Kept session) where
  refl _ := ⟨rfl, fun _ _ _ _ => rfl⟩
  trans _ _ _ h h' := ⟨h'.registrations.trans h.registrations,
    fun m home hm hr => (h'.derived m home hm hr).trans (h.derived m home hm hr)⟩
  store _ _ := ⟨rfl, fun _ _ _ _ => rfl⟩
  calls _ _ := ⟨rfl, fun _ _ _ _ => rfl⟩
  log _ _ := ⟨rfl, fun _ _ _ _ => rfl⟩

namespace Session

variable {session : Session} {w w' : World}

/-- Mappings are derived for maps that are not remappable, under their own ids. -/
theorem derives_kept (hi : Table.Indexed ResultMap.id session.catalog.resultMaps) :
    session.Derives (World.Kept session) := by
  intro statement m h hremap w home columns _ _
  refine ⟨rfl, fun other home' hother hremap' => Table.get?_put_of_ne ?_ _ _⟩
  rintro he
  obtain ⟨-, hid⟩ := Prod.mk.inj he
  have hm : session.catalog.resultMap m.id = .ok m := by
    obtain ⟨id, hid⟩ := Catalog.resultMap_of_statement h
    exact Catalog.resultMap_id hi hid ▸ hid
  rw [hid, hm] at hother
  cases hother
  rw [hremap] at hremap'
  cases hremap'

/-- One operation, whose outcome is of no matter: a query or procedure call, an update, or whatever a
client does to objects that it holds. -/
inductive Operates (session : Session) : World → World → Prop
  | query (id : String) (parameter : Value) (target : Option Value) (window : Window)
      (receive : Receiver) (w : World) : session.Operates w
        (session.query session.loader id parameter target window receive w).2
  | update (id : String) (parameter : Value) (w : World) :
      session.Operates w ((session.update id parameter).run w).2
  | client (w : World) (store : Store) : session.Operates w { w with store }

/-- The operations of a session one after the other. -/
abbrev History (session : Session) : World → World → Prop := ReflTransGen session.Operates

theorem history_list (id : String) (parameter : Value) (window : Window) (w : World) :
    session.History w ((session.queryForList id parameter window).run w).2 :=
  .single (.query id parameter none window .any w)

theorem history_object (id : String) (parameter : Value) (target : Option Value) (w : World) :
    session.History w ((session.queryForObject id parameter target).run w).2 := by
  have h : ((session.queryForObject id parameter target).run w).2 =
      (session.query session.loader id parameter target {} .single w).2 := by
    unfold queryForObject
    rcases hrun : (session.collect session.loader id parameter target {} .single).run w with ⟨e | a, v⟩
    · rw [run_bind_error hrun]
      exact (congrArg Prod.snd hrun).symm
    · rw [run_bind_ok hrun]
      exact (congrArg Prod.snd hrun).symm
  rw [h]
  exact .single (.query id parameter target {} .single w)

theorem history_call (id : String) (parameter : Value) (w : World) :
    session.History w ((session.call id parameter).run w).2 := by
  unfold call
  cases session.catalog.statement id with
  | error e => exact .refl
  | ok statement =>
    have hstart : (Run.ofExcept (.ok statement) : Run World Statement).run w = (.ok statement, w) := rfl
    rw [run_bind_ok hstart]
    split
    · exact history_list id parameter {} w
    · exact .refl

/-- Whatever a session does goes along a relation, if deriving mappings does. -/
theorem History.along {R : World → World → Prop} [World.Records R] (hd : session.Derives R)
    (h : session.History w w') : R w w' := by
  induction h with
  | refl => exact Std.Refl.refl w
  | tail _ hstep ih =>
    refine IsTrans.trans _ _ _ ih ?_
    cases hstep with
    | query id parameter target window receive _ => exact query_along (bounded_load hd _) hd ..
    | update id parameter _ => exact update_along id parameter _
    | client _ store => exact World.Lasts.store _ store

/-- Whatever a session did, the registered replies and the mappings of remappable maps are as before. -/
theorem History.kept (hi : Table.Indexed ResultMap.id session.catalog.resultMaps)
    (h : session.History w w') : World.Kept session w w' := h.along (derives_kept hi)

end Session

end RowMapper
