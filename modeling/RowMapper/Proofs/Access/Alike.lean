/-
Objects that look alike. What there is to see of a value is found along its paths: what a path leads to
is a map, a bean of a type, a document, or a value that is no object (`Store.Alike`). Neither the
references that stand for the objects nor the order of the entries of a map show. Two objects that are
laid out alike look alike (`Store.Layout.alike`).
-/
import RowMapper.Proofs.Access.Layout

namespace RowMapper

/-- Two maps, two beans of one type, or the same document. -/
def ObjectData.SameShape : ObjectData → ObjectData → Prop
  | .map _, .map _ => True
  | .bean type _, .bean type' _ => type = type'
  | .dom node, .dom node' => node = node'
  | _, _ => False

theorem ObjectData.SameShape.refl (d : ObjectData) : d.SameShape d := by
  cases d <;> first | rfl | trivial

/-- Objects of one declared type. -/
theorem ObjectData.Of.sameShape {d d' : ObjectData} {σ : DataType} (h : d.Of σ) (h' : d'.Of σ) :
    d.SameShape d' := by
  cases d with
  | map entries =>
    cases d' with
    | map entries' => trivial
    | bean type fields =>
      obtain ⟨rfl, -⟩ := h'
      cases h
    | dom node => exact h'.elim
  | bean type fields =>
    cases d' with
    | map entries' =>
      obtain ⟨rfl, -⟩ := h
      cases h'
    | bean type' fields' =>
      obtain ⟨hname, hproperties⟩ := DataType.bean.inj (h.1.symm.trans h'.1)
      exact congrArg₂ BeanType.mk hname hproperties
    | dom node => exact h'.elim
  | dom node => exact h.elim

theorem ObjectData.Of.kind_eq {d d' : ObjectData} {σ : DataType} (h : d.Of σ) (h' : d'.Of σ) :
    d.kind = d'.kind := by
  have hshape := h.sameShape h'
  cases d <;> cases d' <;> first | rfl | exact hshape.elim

namespace Store

variable {s t u : Store} {root root' : ObjectRef} {type : DataType} {v w : Value}
  {inner : List String → Prop} {part : List String → Planted → Prop}

/-- What a path from a value leads to, through the entries of objects. -/
def look? (s : Store) (v : Value) : List String → Option Value
  | [] => some v
  | step :: steps =>
    match v with
    | .object r => ((s.data r).holds? step).bind fun w => s.look? w steps
    | _ => none

/-- Objects of one shape, or values with the same content. -/
def Matches (s t : Store) (v w : Value) : Prop :=
  match v, w with
  | .object r, .object q => (s.data r).SameShape (t.data q)
  | v, w => s.content v = t.content w

/-- Every path leads to the same from both values, or from neither to anything. -/
def Alike (s t : Store) (v w : Value) : Prop :=
  ∀ steps, Option.Rel (Matches s t) (s.look? v steps) (t.look? w steps)

theorem look?_object_cons (s : Store) (r : ObjectRef) (step : String) (steps : List String) :
    s.look? (.object r) (step :: steps) = ((s.data r).holds? step).bind (s.look? · steps) := rfl

/-! ## What was there -/

theorem Complete.holds? (hs : s.Complete) {r : ObjectRef} {p : String}
    (h : (s.data r).holds? p = some v) : s.Knows v := by
  refine hs.values r v ?_
  cases hd : s.data r with
  | map entries =>
    rw [hd] at h
    exact Table.mem_values_of_get? h
  | bean type fields =>
    rw [hd] at h
    obtain ⟨i, -, hi⟩ := Option.bind_eq_some_iff.1 h
    exact List.mem_of_getElem? hi
  | dom node =>
    rw [hd] at h
    cases h

/-- What was there looks as it looked. -/
theorem Extends.matches (h : s.Extends t) (h' : s.Extends u) (hs : s.Complete) (hv : s.Knows v) :
    Matches t u v v := by
  have hcontent : t.content v = u.content v := (h.content hs hv).trans (h'.content hs hv).symm
  cases v with
  | object r =>
    show (t.data r).SameShape (u.data r)
    rw [h.data r hv.object, h'.data r hv.object]
    exact .refl _
  | _ => exact hcontent

/-- What was there looks alike wherever no more than new objects came. -/
theorem Extends.alike (h : s.Extends t) (h' : s.Extends u) (hs : s.Complete) (hv : s.Knows v) :
    t.Alike u v v := by
  intro steps
  induction steps generalizing v with
  | nil => exact .some (h.matches h' hs hv)
  | cons p steps ih =>
    cases v with
    | object r =>
      rw [look?_object_cons, look?_object_cons, h.data r hv.object, h'.data r hv.object]
      cases hw : (s.data r).holds? p with
      | none => exact .none
      | some w => exact ih (hs.holds? hw)
    | _ => exact .none

/-! ## Layouts -/

/-- What was planted at a place looks alike. -/
theorem Shows.alike {planted : Planted} (h : s.Extends t) (h' : s.Extends u) (hs : s.Complete)
    (hknown : ∀ v, planted = .value v → s.Knows v) (hv : t.Shows planted v) (hw : u.Shows planted w) :
    t.Alike u v w := by
  cases planted with
  | value known =>
    cases hv
    cases hw
    exact h.alike h' hs (hknown v rfl)
  | document node =>
    obtain ⟨r, rfl, hr⟩ := hv
    obtain ⟨q, rfl, hq⟩ := hw
    intro steps
    cases steps with
    | nil =>
      refine .some ?_
      show (t.data r).SameShape (u.data q)
      rw [hr, hq]
      exact .refl _
    | cons p steps =>
      rw [look?_object_cons, look?_object_cons, hr, hq]
      exact .none

/-- Two objects that are laid out alike look alike. -/
theorem Layout.alike (h : Layout s t root type inner part) (h' : Layout s u root' type inner part)
    (hs : s.Complete) (hroot : inner []) (hknown : ∀ a v, part a (.value v) → s.Knows v) :
    t.Alike u (.object root) (.object root') := by
  -- the steps that are left lead on from two inner objects behind the same steps
  suffices hall : ∀ steps {a x y σ}, inner a → Inner s t root type a x σ →
      Inner s u root' type a y σ →
      Option.Rel (Matches t u) (t.look? (.object x) steps) (u.look? (.object y) steps) from
    fun steps => hall steps hroot (h.inner_root hroot) (h'.inner_root hroot)
  intro steps
  induction steps with
  | nil => exact fun _ hx hy => .some (hx.of.sameShape hy.of)
  | cons q steps ih =>
    intro a x y σ ha hx hy
    rw [look?_object_cons, look?_object_cons]
    by_cases hin : inner (a ++ [q])
    · obtain ⟨x', τ, hx'⟩ := h.object hin
      obtain ⟨y', τ', hy'⟩ := h'.object hin
      cases hx'.declared.symm.trans hy'.declared
      rw [ObjectData.holds?_of_slot?_object (child?_eq_some.1 (hx.child? hx')),
        ObjectData.holds?_of_slot?_object (child?_eq_some.1 (hy.child? hy'))]
      exact ih hin hx' hy'
    by_cases hpart : ∃ planted, part (a ++ [q]) planted
    · obtain ⟨planted, hp⟩ := hpart
      obtain ⟨v, hv, hshows⟩ := (h.held hp).2 x hx.reach
      obtain ⟨w, hw, hshows'⟩ := (h'.held hp).2 y hy.reach
      rw [hv, hw]
      exact hshows.alike h.grown h'.grown hs (fun v he => hknown _ v (he ▸ hp)) hshows' steps
    -- a property that no write came to is as it was made
    · have hnone : ∀ planted, ¬part (a ++ [q]) planted := fun planted hp => hpart ⟨planted, hp⟩
      rw [h.unset ha hx hin hnone, h'.unset ha hy hin hnone]
      rcases σ.unset?_cases q with hσ | hσ <;> rw [hσ]
      · exact .none
      · exact h.grown.alike h'.grown hs (.of_plain ⟨rfl, rfl⟩) steps

end Store

end RowMapper
