/-
Whole queries in step: when also the steps that ask the database and give objects keep a
correspondence (`Correspondence.Answers`), a statement is run in step, from its parameter to its
output parameters.
-/
import RowMapper.Engine.Query
import RowMapper.Proofs.Access.Writing
import RowMapper.Proofs.Engine.Correspondence
import RowMapper.Proofs.Rows.Cells

namespace RowMapper

/-- Output parameters are written in step, when they correspond to themselves. -/
theorem StoreCorrespondence.Writes.writeOutputs {K : StoreCorrespondence} {s t : Store} {v w : Value}
    (h : K.Writes) (parameterMap : ParameterMap) (accessor : Accessor) {out : OutParams}
    (hp : K.paired s t) (hvw : K.values s v w)
    (hout : ∀ a, a ∈ out.values ∨ a.Plain → K.values s a a) :
    K.InStep Pairing.Any (parameterMap.writeOutputs accessor v out)
      (parameterMap.writeOutputs accessor w out) s t := by
  have hobject : v.isObject = w.isObject := by
    have hv := h.variant hvw
    cases v <;> cases w <;> first | rfl | cases hv
  unfold ParameterMap.writeOutputs
  rw [hobject]
  split
  · refine .forM hp fun entry _ u u' hl hp => ?_
    obtain ⟨mapping, index⟩ := entry
    dsimp only
    split
    · refine (Pairing.InStep.editOf (R := Pairing.Same) hp fun _ _ => rfl).bind ?_
      rintro u₁ u₁' c _ hl₁ hp rfl
      refine (Pairing.InStep.editOf (R := fun _ => K.values s) hp fun a ha => ?_).bind ?_
      · exact hout a (Coercer.readOutput_mem_or_plain ha)
      · intro u₂ u₂' a b hl₂ hp hab
        have hlater := K.trans hl (K.trans hl₁ hl₂)
        exact h.set accessor _ hp (fun step _ _ => h.roots step (K.values_later hlater hvw))
          (K.values_later hlater hab)
    · exact .pure hp trivial
  · exact .pure hp trivial

namespace Correspondence

variable {K : Correspondence} {session : Session} {load load' : Load} {f g : Frame}

/-- Values of a reply, which correspond to themselves. -/
def Fixed (K : Correspondence) (f : Frame) (values : List Value) : Prop :=
  ∀ v ∈ values, K.values f v v ∧ K.answers v

theorem Fixed.later {values : List Value} (h : K.Fixed f values) (hl : K.later f g) :
    K.Fixed g values := fun v hv => ⟨K.values_later hl (h v hv).1, (h v hv).2⟩

/-- The values of a row are read in step. -/
theorem Scans.readValues {m : ResultMap} (h : K.Scans session load load')
    (hsub : K.Follows session) (hm : K.maps m) (hp : K.paired f g) :
    K.InStep (fun u => Option.Rel fun a b =>
        K.maps a.1 ∧ a.1 = b.1 ∧ List.Forall₂ (K.values u) a.2 b.2 ∧ K.readings u a.1 a.2)
      (session.readValues load m) (session.readValues load' m) f g := by
  unfold Session.readValues
  refine (h.resolveSubMap hsub hm hp).bind ?_
  rintro s t effective _ _ hp ⟨rfl, heffective⟩
  refine (h.readRow heffective hp).bind_run fun s t values values' hrun hrun' _ hp hv => ?_
  refine .gets_bind ?_
  rw [readRow_found hrun, readRow_found hrun', h.any_found hv.1]
  split
  · exact .pure hp (.some ⟨heffective, rfl, hv⟩)
  · exact .pure hp .none

/-- The steps of a query keep a correspondence. -/
structure Answers (K : Correspondence) (session : Session) (load load' : Load) : Prop
    extends Assembles K session load load' where
  follows : K.Follows session
  submit : ∀ {f g v w} (statement : Statement), K.paired f g → K.statements statement →
    K.values f v w →
    K.InStep (fun u a b => a = b ∧ (∀ m, a.1 = some m → K.maps m) ∧ K.Fixed u a.2.cells)
      (session.submit statement v) (session.submit statement w) f g
  openRows : ∀ {f g m rows}, K.paired f g → K.maps m → K.Fixed f rows.cells →
    K.InStep Pairing.Any (session.openRows m rows) (session.openRows m rows) f g
  nextRow : ∀ {f g}, K.paired f g → K.InStep Pairing.Same Frame.nextRow Frame.nextRow f g
  emit : ∀ {f g v w} (receive : Receiver), K.paired f g → K.objects f v w →
    K.InStep Pairing.Any (Session.emit receive v) (Session.emit receive w) f g
  writeOutputs : ∀ {f g v w} (statement : Statement) (outputs : Option OutParams), K.paired f g →
    K.values f v w → (∀ out, outputs = some out → K.Fixed f out.values) →
    K.InStep Pairing.Any (session.writeOutputs statement v outputs)
      (session.writeOutputs statement w outputs) f g

/-- A row is read, and its object given, in step, if objects are given in step. -/
theorem Assembles.readObject {m : ResultMap} {handler : Handler}
    (h : Assembles K session load load') (hsub : K.Follows session)
    (hemit : ∀ {f g v w}, K.paired f g → K.objects f v w →
      K.InStep Pairing.Any (Session.emit handler v) (Session.emit handler w) f g)
    (hm : K.maps m) (hp : K.paired f g) :
    K.InStep Pairing.Any (session.readObject load m none handler)
      (session.readObject load' m none handler) f g := by
  unfold Session.readObject
  refine (h.readValues hsub hm hp).bind fun s t found found' _ hp hfound => ?_
  cases hfound with
  | none => exact .pure hp trivial
  | @some a b hab =>
    obtain ⟨effective, values⟩ := a
    obtain ⟨effective', values'⟩ := b
    obtain ⟨hmap, heq, hv, hreadings⟩ := hab
    obtain rfl : effective = effective' := heq
    refine (h.build (.inl rfl) hmap hp hv hreadings).bind fun s t object object' _ hp hobject => ?_
    cases hobject with
    | none => exact .pure hp trivial
    | some hvw => exact hemit hp hvw

namespace Answers

variable (h : Answers K session load load')

include h

theorem readObject {m : ResultMap} (receive : Receiver) (hm : K.maps m) (hp : K.paired f g) :
    K.InStep Pairing.Any (session.readObject load m none receive)
      (session.readObject load' m none receive) f g :=
  h.toAssembles.readObject h.follows (h.emit receive) hm hp

theorem readRows {m : ResultMap} (receive : Receiver) (hm : K.maps m) :
    ∀ (rows skip : Nat) (left : Option Nat) {f g : Frame}, K.paired f g →
      K.InStep Pairing.Any
        (Session.readRows (session.readObject load m none receive) rows skip left)
        (Session.readRows (session.readObject load' m none receive) rows skip left) f g
  | 0, _, _, _, _, hp => .pure hp trivial
  | rows + 1, skip, left, f, g, hp => by
    unfold Session.readRows
    split
    · exact .pure hp trivial
    · refine (h.nextRow hp).bind ?_
      rintro s t more _ _ hp rfl
      split
      · split
        · exact readRows receive hm rows _ left hp
        · refine (h.readObject receive hm hp).bind fun s t _ _ _ hp _ => ?_
          exact readRows receive hm rows 0 _ hp
      · exact .pure hp trivial

theorem readResponse {resultMap : Option ResultMap} {response : Response} (window : Window)
    (receive : Receiver) (hm : ∀ m, resultMap = some m → K.maps m) (hp : K.paired f g)
    (hcells : K.Fixed f response.cells) :
    K.InStep Pairing.Any (session.readResponse load resultMap response none window receive)
      (session.readResponse load' resultMap response none window receive) f g := by
  unfold Session.readResponse
  split
  · rename_i rows m hrows
    have hfixed : K.Fixed f rows.cells := fun v hv => hcells v (Response.mem_cells_of_rows hrows hv)
    refine (h.openRows hp (hm m rfl) hfixed).bind fun s t _ _ _ hp _ => ?_
    exact h.readRows receive (hm m rfl) _ _ _ hp
  · exact .pure hp trivial

/-- A statement is run in step. -/
theorem runStatement {v w : Value} {statement : Statement} (window : Window) (receive : Receiver)
    (hs : K.statements statement) (hp : K.paired f g) (hvw : K.values f v w) :
    K.InStep Pairing.Any (session.runStatement load statement v none window receive)
      (session.runStatement load' statement w none window receive) f g := by
  unfold Session.runStatement
  refine (h.submit statement hp hs hvw).bind ?_
  rintro s t ⟨resultMap, response⟩ _ hl hp ⟨rfl, hm, hcells⟩
  have hread := h.readResponse window receive hm hp hcells
  refine hread.bind fun s₁ t₁ _ _ hl₁ hp _ => ?_
  refine h.writeOutputs statement _ hp (K.values_later (K.trans hl hl₁) hvw) fun out hout => ?_
  exact Fixed.later (fun v hv => hcells v (Response.mem_cells_of_outputs hout hv)) hl₁

end Answers

end Correspondence

end RowMapper
