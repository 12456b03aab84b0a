/-
Nested selects in step. A nested select is a request of its own on the shared state: when the inner
requests of a correspondence correspond in their turn (`Correspondence.Nests`), and when fixed and
put-off values are given in step (`Correspondence.Defers`), then so are the results of nested selects.
-/
import RowMapper.Proofs.Engine.Answers

namespace RowMapper

namespace Frame

variable {α β : Type} {f : Frame}

theorem run_onWorld (run : Run World α) (f : Frame) :
    (onWorld run).run f = ((run.run f.world).1, { f with world := (run.run f.world).2 }) := rfl

theorem run_onWorld_bind (run : Run World α) (k : α → Run World β) (f : Frame) :
    (onWorld (run >>= k)).run f = (onWorld run >>= fun a => onWorld (k a)).run f := by
  rcases hrun : run.run f.world with ⟨e | a, w⟩
  · have hfirst : (onWorld run).run f = (.error e, { f with world := w }) := by
      rw [run_onWorld, hrun]
    rw [run_bind_error hfirst, run_onWorld, run_bind_error hrun]
  · have hfirst : (onWorld run).run f = (.ok a, { f with world := w }) := by
      rw [run_onWorld, hrun]
    rw [run_bind_ok hfirst, run_onWorld, run_bind_ok hrun]
    rfl

end Frame

namespace Correspondence

variable {K J : Correspondence} {session : Session} {load load' : Load} {f g s t : Frame}

/-- The frame of a request that starts on the shared state of another. -/
abbrev inner (f : Frame) : Frame := { world := f.world }

/-- The requests that two frames make inside their own correspond by `J`. -/
structure Nests (K J : Correspondence) (f g : Frame) : Prop where
  enter : J.paired (inner f) (inner g)
  parameter : ∀ {v w}, K.values f v w → J.values (inner f) v w
  leave : ∀ {s t}, J.later (inner f) s → J.paired s t →
    K.paired { f with world := s.world } { g with world := t.world } ∧
      K.later f { f with world := s.world }
  results : ∀ {s t}, J.later (inner f) s → J.paired s t →
    List.Forall₂ (K.values { f with world := s.world })
      (s.emitted.toList.map (·.object)) (t.emitted.toList.map (·.object))
  context : ∀ {s t}, J.paired s t → s.request.context = t.request.context
  loose : ∀ {e}, J.loose e → K.loose e

/-- What a request gives without running a nested select corresponds. -/
structure Defers (K : Correspondence) (session : Session) : Prop where
  list : ∀ {f items items'}, List.Forall₂ (K.values f) items items' →
    K.values f (.list items) (.list items')
  set : ∀ {f g items items'}, K.paired f g → List.Forall₂ (K.values f) items items' →
    K.values f (.set (f.world.store.distinct items)) (.set (g.world.store.distinct items'))
  null : ∀ {f}, K.values f .null .null
  fixed : ∀ {f g value}, K.paired f g → session.catalog.loader = .fixed value →
    K.values f value value
  call : ∀ {f g v w} (statement : String) (target : DataType), K.paired f g → K.values f v w →
    K.InStep Pairing.Any
      (Frame.onWorld (Run.modify fun w =>
        { w with calls := w.calls ++ [{ statement, parameter := w.store.content v, target }] }))
      (Frame.onWorld (Run.modify fun u =>
        { u with calls := u.calls ++ [{ statement, parameter := u.store.content w, target }] })) f g
  lazy : ∀ {f g v w} (statement : String) (target : DataType), K.paired f g → K.values f v w →
    K.InStep K.values
      (Frame.onWorld (World.edit (Edit.make fun s =>
        .ok (.lazy (s.newLazy { session := session.number, statement, parameter := v, target }).1,
          (s.newLazy { session := session.number, statement, parameter := v, target }).2))))
      (Frame.onWorld (World.edit (Edit.make fun s =>
        .ok (.lazy (s.newLazy { session := session.number, statement, parameter := w, target }).1,
          (s.newLazy { session := session.number, statement, parameter := w, target }).2)))) f g

/-- The objects of an inner query are given in step. -/
theorem collect {v w : Value} {id : String} (window : Window) (receive : Receiver)
    (hs : ∀ statement, session.catalog.statement id = .ok statement → J.statements statement)
    (hp : K.paired f g) (hn : K.Nests J f g) (hj : J.Answers session load load')
    (hvw : K.values f v w) :
    K.InStep (fun u => List.Forall₂ (K.values u))
      (Frame.onWorld (session.collect load id v none window receive))
      (Frame.onWorld (session.collect load' id w none window receive)) f g := by
  unfold Pairing.InStep
  rw [Frame.run_onWorld, Frame.run_onWorld]
  unfold Session.collect Session.query
  rw [run_step, run_step]
  cases hstatement : session.catalog.statement id with
  | error e => exact .inr ⟨hp, K.refl f, rfl⟩
  | ok statement =>
    have hrun := (hj.runStatement window receive (hs statement hstatement) hn.enter
      (hn.parameter hvw)).mapError
      (f := Frame.explain) (g := Frame.explain) J.loose_exhausted fun s t e hst => by
        unfold Frame.explain
        rw [hn.context hst]
    unfold Pairing.InStep at hrun
    dsimp only [inner] at hrun ⊢
    generalize (Run.mapError Frame.explain
      (session.runStatement load statement v none window receive)).run { world := f.world } = done at *
    generalize (Run.mapError Frame.explain
      (session.runStatement load' statement w none window receive)).run { world := g.world } = done'
      at *
    rcases done with ⟨e | _, s⟩ <;> rcases done' with ⟨e' | _, t⟩ <;>
      rcases hrun with ⟨x, hloose, he⟩ | ⟨hst, hl, ho⟩
    · exact .inl ⟨x, hn.loose hloose, congrArg _ he⟩
    · exact .inr ⟨(hn.leave hl hst).1, (hn.leave hl hst).2, ho⟩
    · exact .inl ⟨x, hn.loose hloose, congrArg _ he⟩
    · exact ho.elim
    · cases he
    · exact ho.elim
    · cases he
    · exact .inr ⟨(hn.leave hl hst).1, (hn.leave hl hst).2, hn.results hl hst⟩

/-- What the nested selects of a request run is run in step at depths below it. -/
theorem runLoad {depth depth' : Nat} {v w : Value} {id : String} (hd : K.Defers session)
    (hs : ∀ statement, session.catalog.statement id = .ok statement → J.statements statement)
    (hp : K.paired f g) (hnest : K.Nests J f g)
    (hj : J.Answers session (session.load depth) (session.load depth')) (target : DataType)
    (hvw : K.values f v w) :
    K.InStep K.values (Frame.onWorld (session.load (depth + 1) id v target))
      (Frame.onWorld (session.load (depth' + 1) id w target)) f g := by
  unfold Session.load
  split
  · refine Pairing.InStep.congr ?_ (Frame.run_onWorld_bind _ _ _) (Frame.run_onWorld_bind _ _ _)
    refine (collect {} .any hs hp hnest hj hvw).bind fun s t items items' _ hp hitems => ?_
    split
    · exact .inr ⟨hp, K.refl s, hd.set hp hitems⟩
    · exact .inr ⟨hp, K.refl s, hd.list hitems⟩
  · refine Pairing.InStep.congr ?_ (Frame.run_onWorld_bind _ _ _) (Frame.run_onWorld_bind _ _ _)
    refine (collect {} .single hs hp hnest hj hvw).bind fun s t items items' _ hp hitems => ?_
    refine .inr ⟨hp, K.refl s, ?_⟩
    cases hitems with
    | nil => exact hd.null
    | cons hab _ => exact hab

/-- The results of nested selects are given in step, when the statements of those that are not put
off are run in step. -/
theorem loadResult {load load' : Load} (hd : K.Defers session) {v w : Value} (id : String)
    (target : DataType) (hp : K.paired f g) (hvw : K.values f v w)
    (hload : K.InStep K.values (Frame.onWorld (load id v target))
      (Frame.onWorld (load' id w target)) f g) :
    K.InStep K.values (Frame.onWorld (session.loadResult load id v target))
      (Frame.onWorld (session.loadResult load' id w target)) f g := by
  unfold Session.loadResult
  split
  · rename_i value hloader
    refine Pairing.InStep.congr ?_ (Frame.run_onWorld_bind _ _ _) (Frame.run_onWorld_bind _ _ _)
    refine (hd.call id target hp hvw).bind fun s t _ _ _ hp _ => ?_
    exact .inr ⟨hp, K.refl s, hd.fixed hp hloader⟩
  · split
    · exact hd.lazy id target hp hvw
    · exact hload

end Correspondence

end RowMapper
