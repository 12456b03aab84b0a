/-
One object instead of a list. A query for one object does what a query for a list does until a second
object is given, and fails there (`Session.queryForObject_agrees`).
-/
import RowMapper.Proofs.Delivery.Query

namespace RowMapper

variable {α β : Type} {session : Session} {f g : Frame}

/-- The second run takes no object back that was given. From a frame behind at most one object the
first run does the same, unless the second gives a second object, where the first fails. -/
structure TakesOne (single any : Run Frame α) : Prop where
  grows : ∀ f : Frame, f.emitted.size ≤ (any.run f).2.emitted.size
  ends : ∀ f : Frame, f.emitted.size ≤ 1 →
    single.run f = any.run f ∧ (any.run f).2.emitted.size ≤ 1 ∨
      (single.run f).1 = .error (.failed ⟨.tooManyResults 2, []⟩) ∧ 1 < (any.run f).2.emitted.size

namespace TakesOne

/-- A run that gives no objects. -/
theorem silent {run : Run Frame α} (h : ∀ f, (run.run f).2.emitted = f.emitted) :
    TakesOne run run where
  grows f := by rw [h f]
  ends f hf := .inl ⟨rfl, by rw [h f]; exact hf⟩

theorem bind {single any : Run Frame α} {k k' : α → Run Frame β} (h : TakesOne single any)
    (hk : ∀ a, TakesOne (k a) (k' a)) : TakesOne (single >>= k) (any >>= k') where
  grows f := by
    have hf := h.grows f
    rcases hrun : any.run f with ⟨e | a, g⟩ <;> rw [hrun] at hf
    · rw [run_bind_error hrun]
      exact hf
    · rw [run_bind_ok hrun]
      exact Nat.le_trans hf ((hk a).grows g)
  ends f hf := by
    rcases hrun : any.run f with ⟨e | a, g⟩ <;> have hends := h.ends f hf <;> rw [hrun] at hends
    · rw [run_bind_error hrun]
      rcases hends with ⟨hsame, hone⟩ | ⟨hfails, hmany⟩
      · rw [run_bind_error hsame]
        exact .inl ⟨rfl, hone⟩
      · rw [run_bind_error (Prod.ext hfails rfl)]
        exact .inr ⟨rfl, hmany⟩
    · rw [run_bind_ok hrun]
      rcases hends with ⟨hsame, hone⟩ | ⟨hfails, hmany⟩
      · rw [run_bind_ok hsame]
        exact (hk a).ends g hone
      · -- what comes behind gives more objects, if any
        rw [run_bind_error (Prod.ext hfails rfl)]
        exact .inr ⟨rfl, Nat.lt_of_lt_of_le hmany ((hk a).grows g)⟩

theorem emit (object : Value) :
    TakesOne (Session.emit .single object) (Session.emit .any object) where
  grows f := by
    show f.emitted.size ≤ (f.emitted.push _).size
    rw [Array.size_push]
    exact Nat.le_succ _
  ends f hf := by
    have hsize : (f.emitted.push ⟨object, f.world.store.content object⟩).size = f.emitted.size + 1 :=
      Array.size_push ..
    have hrun : ∀ receive : Receiver, (Session.emit receive object).run f =
        ((receive (f.emitted.size + 1)).mapError .failed, f.give (some object)) := by
      intro receive
      rw [← hsize]
      rfl
    have hgiven : (f.give (some object)).emitted.size = f.emitted.size + 1 := hsize
    rw [hrun, hrun, hgiven]
    rcases Nat.le_one_iff_eq_zero_or_eq_one.1 hf with hnone | hone
    · rw [hnone]
      exact .inl ⟨rfl, Nat.le_refl _⟩
    · rw [hone]
      exact .inr ⟨rfl, Nat.lt_succ_self _⟩

/-! ## Rows -/

theorem readObject (session : Session) (depth : Nat) (m : ResultMap) (target : Option Value) :
    TakesOne (session.readObject (session.load depth) m target .single)
      (session.readObject (session.load depth) m target .any) := by
  have hreads : Trail.silent.growth.Reads session (session.load depth) (session.load depth) :=
    Trail.reads_load session depth
  unfold Session.readObject
  refine bind (silent fun f => (Trail.later_readValues hreads.scans rfl).2) fun found => ?_
  split
  · exact silent fun _ => rfl
  · refine bind (silent fun f => Trail.emitted_build rfl) fun object => ?_
    split
    · exact emit _
    · exact silent fun _ => rfl

theorem readRows {single any : Run Frame Unit} (h : TakesOne single any) :
    ∀ (rows skip : Nat) (left : Option Nat),
      TakesOne (Session.readRows single rows skip left) (Session.readRows any rows skip left)
  | 0, _, _ => silent fun _ => rfl
  | rows + 1, skip, left => by
    unfold Session.readRows
    split
    · exact silent fun _ => rfl
    · refine bind (silent fun f => (IsQuiet.nextRow.quiet rfl).emitted) fun more => ?_
      split
      · split
        · exact readRows h rows _ left
        · exact bind h fun _ => readRows h rows 0 _
      · exact silent fun _ => rfl

theorem readResponse (session : Session) (depth : Nat) (resultMap : Option ResultMap)
    (response : Response) (target : Option Value) (window : Window) :
    TakesOne (session.readResponse (session.load depth) resultMap response target window .single)
      (session.readResponse (session.load depth) resultMap response target window .any) := by
  unfold Session.readResponse
  split
  · refine bind (silent fun f => ((IsQuiet.openRows session _ _).quiet rfl).emitted) fun _ => ?_
    exact readRows (readObject session depth _ target) _ _ _
  · exact silent fun _ => rfl

theorem runStatement (session : Session) (depth : Nat) (statement : Statement) (parameter : Value)
    (target : Option Value) (window : Window) :
    TakesOne (session.runStatement (session.load depth) statement parameter target window .single)
      (session.runStatement (session.load depth) statement parameter target window .any) := by
  unfold Session.runStatement
  refine bind (silent fun f => ((IsQuiet.submit session _ _).quiet rfl).emitted) fun submitted => ?_
  refine bind (readResponse session depth _ _ target _) fun _ => silent fun f => ?_
  exact (Trail.later (τ := Trail.silent) (Trail.writeOutputs _ _ _ f) rfl).2

end TakesOne

/-- A query that takes one object, and succeeds, has given no more. -/
theorem Execution.emitted_le_one {x : Execution} {depth : Nat} (hload : x.load = x.session.load depth)
    (hsingle : x.receive = .single) (h : x.run = (.ok (), g)) : g.emitted.size ≤ 1 := by
  unfold run at h
  rw [hload, hsingle] at h
  have hends := (TakesOne.runStatement x.session depth x.statement x.parameter x.target x.window).ends
    { world := x.world } (Nat.zero_le _)
  rw [h] at hends
  rcases hends with ⟨hsame, hone⟩ | ⟨hfails, -⟩
  · rwa [← hsame] at hone
  · cases hfails

namespace Session

/-! ## Queries -/

/-- A query for one object is a query for a list that gives at most one, or fails at the second. -/
theorem query_single (session : Session) (depth : Nat) (id : String) (parameter : Value) (window : Window)
    (w : World) :
    session.query (session.load depth) id parameter none window .single w =
        session.query (session.load depth) id parameter none window .any w ∧
      (session.query (session.load depth) id parameter none window .any w).1.emitted.length ≤ 1 ∨
    (∃ frame : Frame, (session.query (session.load depth) id parameter none window .single w).1.result =
        .error (.failed (frame.explain ⟨.tooManyResults 2, []⟩))) ∧
      1 < (session.query (session.load depth) id parameter none window .any w).1.emitted.length := by
  unfold query
  cases session.catalog.statement id with
  | error e => exact .inl ⟨rfl, Nat.zero_le _⟩
  | ok statement =>
    have hends := (TakesOne.runStatement session depth statement parameter none window).ends { world := w }
      (Nat.zero_le _)
    dsimp only
    rw [run_mapError, run_mapError]
    rcases hends with ⟨hsame, hone⟩ | ⟨hfails, hmany⟩
    · rw [hsame]
      exact .inl ⟨rfl, hone⟩
    · rw [hfails]
      exact .inr ⟨⟨_, rfl⟩, hmany⟩

theorem run_queryForList (session : Session) (id : String) (parameter : Value) (w : World) :
    (session.queryForList id parameter).run w =
      ((session.queryEach id parameter .any w).1.result.map fun _ =>
          (session.queryEach id parameter .any w).1.emitted.map (·.object),
        (session.queryEach id parameter .any w).2) := rfl

theorem run_queryForObject (session : Session) (id : String) (parameter : Value) (w : World) :
    (session.queryForObject id parameter).run w =
      ((session.queryEach id parameter .single w).1.result.map fun _ =>
          ((session.queryEach id parameter .single w).1.emitted.map (·.object)).head?,
        (session.queryEach id parameter .single w).2) := by
  have hcollect : (session.collect session.loader id parameter none {} .single).run w =
      ((session.queryEach id parameter .single w).1.result.map fun _ =>
          (session.queryEach id parameter .single w).1.emitted.map (·.object),
        (session.queryEach id parameter .single w).2) := rfl
  unfold queryForObject
  cases hresult : (session.queryEach id parameter .single w).1.result with
  | error stop =>
    rw [hresult] at hcollect
    exact run_bind_error hcollect
  | ok _ =>
    rw [hresult] at hcollect
    exact run_bind_ok hcollect

/-- A query for one object succeeds if and only if the query for a list succeeds with at most one
object; then it gives that object, or none, and leaves the same world, so that the object has the same
content. When the query for a list gives two objects or more before it ends, well or not, the query
for one fails at the second. When it fails otherwise, both fail with the same error. -/
theorem queryForObject_agrees (session : Session) (id : String) (parameter : Value) (w : World) :
    ((∃ found, ((session.queryForObject id parameter).run w).1 = .ok found) ↔
      ∃ items, ((session.queryForList id parameter).run w).1 = .ok items ∧ items.length ≤ 1) ∧
    (∀ items w', (session.queryForList id parameter).run w = (.ok items, w') → items.length ≤ 1 →
      (session.queryForObject id parameter).run w = (.ok items.head?, w')) ∧
    (1 < (session.queryEach id parameter .any w).1.emitted.length →
      ∃ frame : Frame, ((session.queryForObject id parameter).run w).1 =
        .error (.failed (frame.explain ⟨.tooManyResults 2, []⟩))) ∧
    (∀ stop w', (session.queryForList id parameter).run w = (.error stop, w') →
      (session.queryEach id parameter .any w).1.emitted.length ≤ 1 →
      (session.queryForObject id parameter).run w = (.error stop, w')) := by
  have hquery : session.queryEach id parameter .single w = session.queryEach id parameter .any w ∧
      (session.queryEach id parameter .any w).1.emitted.length ≤ 1 ∨
    (∃ frame : Frame, (session.queryEach id parameter .single w).1.result =
        .error (.failed (frame.explain ⟨.tooManyResults 2, []⟩))) ∧
      1 < (session.queryEach id parameter .any w).1.emitted.length :=
    query_single session nestingBound id parameter {} w
  rw [run_queryForObject, run_queryForList]
  generalize session.queryEach id parameter .single w = one at hquery ⊢
  generalize session.queryEach id parameter .any w = list at hquery ⊢
  obtain ⟨⟨emitted, result⟩, last⟩ := list
  rcases hquery with ⟨rfl, hone⟩ | ⟨⟨frame, hfails⟩, hmany⟩
  · -- both queries are the same run
    have hlength : (emitted.map (·.object)).length ≤ 1 := by rwa [List.length_map]
    cases result with
    | error stop =>
      refine ⟨⟨nofun, fun ⟨_, h, _⟩ => nomatch h⟩, nofun, fun h => ?_, fun _ _ h _ => ?_⟩
      · exact absurd h (Nat.not_lt.2 hone)
      · cases h
        rfl
    | ok _ =>
      refine ⟨⟨fun _ => ⟨_, rfl, hlength⟩, fun _ => ⟨_, rfl⟩⟩, ?_, fun h => ?_, nofun⟩
      · rintro items w' h -
        cases h
        rfl
      · exact absurd h (Nat.not_lt.2 hone)
  · -- the list goes on behind a second object
    have hlong : ∀ items w', (result.map fun _ => emitted.map (·.object), last) = (.ok items, w') →
        ¬items.length ≤ 1 := by
      intro items w' h
      cases result with
      | error stop => cases h
      | ok _ =>
        cases h
        rw [List.length_map]
        exact Nat.not_le.2 hmany
    rw [hfails]
    refine ⟨⟨nofun, fun ⟨items, h, hle⟩ => ?_⟩, fun items w' h hle => ?_, fun _ => ⟨frame, rfl⟩,
      fun _ _ _ h => absurd h (Nat.not_le.2 hmany)⟩
    · exact absurd hle (hlong items last (Prod.ext h rfl))
    · exact absurd hle (hlong items w' h)

end Session

end RowMapper
