/-
Writing in step: when reading, writing and making single objects keep a correspondence of stores
(`StoreCorrespondence.Writes`), then so does writing behind a path, and moving the values of a row
into an object.
-/
import RowMapper.Mapping.Exchange
import RowMapper.Proofs.Data.Store
import RowMapper.Proofs.Engine.Pairing

namespace RowMapper

structure StoreCorrespondence extends Pairing Error Store Store where
  values : Store → Value → Value → Prop
  /-- Objects that may be written at a path with some first step. -/
  owners : Store → ObjectRef → ObjectRef → String → Prop
  strict : ∀ e, ¬loose e := by exact fun _ => id
  values_later : ∀ {s t v w}, later s t → values s v w → values t v w
  owners_later : ∀ {s t r r' step}, later s t → owners s r r' step → owners t r r' step

namespace StoreCorrespondence

variable {K : StoreCorrespondence} {s t : Store} {v w : Value}

/-- Values that are written at a path with some first step, if they are objects. -/
structure Roots (K : StoreCorrespondence) (s : Store) (v w : Value) (step : String) : Prop where
  variant : v.variant = w.variant
  object : ∀ r, v = .object r → ∃ r', w = .object r' ∧ K.owners s r r' step

/-- Values that are written at a path, if they are objects. -/
def Starts (K : StoreCorrespondence) (s : Store) (v w : Value) (path : String) : Prop :=
  ∀ step rest, Text.steps path = step :: rest → K.Roots s v w step

/-- The owners that a walk comes to, and the steps that are left: one, unless a document tree takes
the rest. -/
def Ends (K : StoreCorrespondence) (s : Store) (a b : ObjectRef × List String) : Prop :=
  ∃ step rest, a.2 = step :: rest ∧ b.2 = step :: rest ∧ K.owners s a.1 b.1 step ∧
    (rest = [] ∨ s.kind a.1 = .dom)

/-- Reading, writing and making single objects keep a correspondence. -/
structure Writes (K : StoreCorrespondence) : Prop where
  null : ∀ {s}, K.values s .null .null
  variant : ∀ {s v w}, K.values s v w → v.variant = w.variant
  object : ∀ {s r w}, K.values s (.object r) w →
    ∃ r', w = .object r' ∧ ∀ step, K.owners s r r' step
  kind : ∀ {s t r r' step}, K.paired s t → K.owners s r r' step → s.kind r = t.kind r'
  type : ∀ {s t r r' step}, K.paired s t → K.owners s r r' step → s.type r = t.type r'
  setterType : ∀ {s t r r' step} (property : String), K.paired s t → K.owners s r r' step →
    s.setterType r property = t.setterType r' property
  getProperty : ∀ {s t r r'} (step : String), K.paired s t → K.owners s r r' step →
    Outcomes (K.values s) (s.getProperty r step) (t.getProperty r' step)
  setProperty : ∀ {s t r r' step a b} (rest : List String), K.paired s t → K.owners s r r' step →
    rest = [] ∨ s.kind r = .dom → K.values s a b →
    K.InStep Pairing.Any (Edit.change (·.setProperty r (Text.path (step :: rest)) a))
      (Edit.change (·.setProperty r' (Text.path (step :: rest)) b)) s t
  newObject : ∀ {s t} (data : ObjectData), K.paired s t → (∀ v ∈ data.values, v = .null) →
    K.InStep K.values (Edit.newObject data) (Edit.newObject data) s t
  empty : ∀ {s v} {type : DataType}, type.emptyCollection? = some v → K.values s v v

theorem Starts.later {path : String} {u : Store} (h : K.Starts s v w path) (hl : K.later s u) :
    K.Starts u v w path := by
  intro step rest hsteps
  obtain ⟨hv, ho⟩ := h step rest hsteps
  refine ⟨hv, fun r hr => ?_⟩
  obtain ⟨r', hw, hown⟩ := ho r hr
  exact ⟨r', hw, K.owners_later hl hown⟩

namespace Writes

variable (h : K.Writes)

include h

theorem eq_null (hvw : K.values s .null w) : w = .null := by
  have hv := h.variant hvw
  cases w <;> first | rfl | cases hv

theorem isNull (hvw : K.values s v w) : v.isNull = w.isNull := by
  have hv := h.variant hvw
  cases v <;> cases w <;> first | rfl | cases hv

theorem roots (step : String) (hvw : K.values s v w) : K.Roots s v w step :=
  ⟨h.variant hvw, fun r hr => by
    subst hr
    obtain ⟨r', hw, ho⟩ := h.object hvw
    exact ⟨r', hw, ho step⟩⟩

/-! ## Making objects -/

theorem instantiate (type : DataType) (hp : K.paired s t) :
    K.InStep K.values (Edit.make type.instantiate) (Edit.make type.instantiate) s t := by
  cases hd : type.newData? with
  | some data =>
    have hnull : ∀ v ∈ data.values, v = .null := by
      unfold DataType.newData? at hd
      split at hd <;> cases hd <;> simp [ObjectData.values, ObjectData.newBean]
    have hrun : ∀ u : Store, (Edit.make type.instantiate).run u = (Edit.newObject data).run u := by
      intro u
      refine run_make_ok ?_
      unfold DataType.instantiate
      rw [hd]
    exact (h.newObject data hp hnull).congr (hrun s) (hrun t)
  | none =>
    cases he : type.emptyCollection? with
    | some v =>
      have hrun : ∀ u : Store, (Edit.make type.instantiate).run u = (.ok v, u) := by
        intro u
        refine run_make_ok ?_
        unfold DataType.instantiate
        rw [hd, he]
      exact (Pairing.InStep.pure hp (h.empty he)).congr (hrun s) (hrun t)
    | none =>
      have hrun : ∀ u : Store, (Edit.make type.instantiate).run u =
          (.error (.configuration (.notInstantiable type.name)), u) := by
        intro u
        refine run_make_error ?_
        unfold DataType.instantiate
        rw [hd, he]
      exact (Pairing.InStep.throw hp).congr (hrun s) (hrun t)

omit h in
theorem objectAt (path : String) {step : String} (hr : K.Roots s v w step) :
    Outcomes (fun r r' => K.owners s r r' step) (Store.objectAt v path)
      (Store.objectAt w path) := by
  obtain ⟨hv, ho⟩ := hr
  unfold Store.objectAt
  split
  · rename_i r
    obtain ⟨r', rfl, hown⟩ := ho r rfl
    exact hown
  · rename_i hno
    split
    · cases v <;> first | exact absurd rfl (hno _) | cases hv
    · exact congrArg (fun variant => Error.configuration (.notAnObject path variant)) hv

/-! ## Walking -/

/-- Two values of one variant are both objects, both null, or neither. -/
theorem sort_eq (hvw : K.values s v w) :
    (∃ r r', v = .object r ∧ w = .object r' ∧ ∀ step, K.owners s r r' step) ∨
      (v = .null ∧ w = .null) ∨
      (∀ r, v ≠ .object r) ∧ v ≠ .null ∧ (∀ r, w ≠ .object r) ∧ w ≠ .null := by
  have hv := h.variant hvw
  by_cases hr : ∃ r, v = .object r
  · obtain ⟨r, rfl⟩ := hr
    obtain ⟨r', rfl, ho⟩ := h.object hvw
    exact .inl ⟨r, r', rfl, rfl, ho⟩
  · by_cases hn : v = .null
    · subst hn
      exact .inr (.inl ⟨rfl, h.eq_null hvw⟩)
    · refine .inr (.inr ⟨fun r he => hr ⟨r, he⟩, hn, fun r hw => ?_, fun hw => ?_⟩)
      · subst hw
        cases v <;> first | exact hr ⟨_, rfl⟩ | cases hv
      · subst hw
        cases v <;> first | exact hn rfl | cases hv

theorem makeChild {r r' : ObjectRef} {step : String} (hp : K.paired s t)
    (ho : K.owners s r r' step) :
    K.InStep (fun u c c' => ∀ step, K.owners u c c' step) (Store.makeChild r step)
      (Store.makeChild r' step) s t := by
  unfold Store.makeChild
  have hset := h.setterType step hp ho
  refine (Pairing.InStep.editRead (R := Pairing.Same) hp hset fun _ _ => rfl).bind ?_
  rintro s₁ t₁ declared _ hl₁ hp rfl
  refine (h.instantiate _ hp).bind fun s₂ t₂ child child' hl₂ hp hchild => ?_
  have ho₂ := K.owners_later (K.trans hl₁ hl₂) ho
  have hwrite := h.setProperty [] hp ho₂ (.inl rfl) hchild
  rw [Text.path_singleton] at hwrite
  refine hwrite.bind fun s₃ t₃ _ _ hl₃ hp _ => ?_
  have hchild₃ := K.values_later hl₃ hchild
  refine .inr ⟨hp, K.refl s₃, ?_⟩
  show Outcomes _ (Store.objectAt child step) (Store.objectAt child' step)
  rcases h.sort_eq hchild₃ with ⟨c, c', rfl, rfl, hc⟩ | ⟨rfl, rfl⟩ | ⟨hv, -, hw, -⟩
  · exact hc
  · exact rfl
  · have herr : ∀ {x : Value}, (∀ r, x ≠ .object r) → Store.objectAt x step =
        .error (.configuration (.notAnObject step x.variant)) := by
      intro x hx
      cases x <;> first | rfl | exact absurd rfl (hx _)
    rw [herr hv, herr hw, h.variant hchild₃]
    exact rfl

theorem walkMaking (steps : List String) : ∀ {s t : Store} {r r' : ObjectRef} {step : String},
    K.paired s t → K.owners s r r' step →
    K.InStep K.Ends (Store.walkMaking r (step :: steps)) (Store.walkMaking r' (step :: steps)) s t := by
  induction steps with
  | nil => exact fun hp ho => .pure hp ⟨_, _, rfl, rfl, ho, .inl rfl⟩
  | cons next steps ih =>
    intro s t r r' step hp ho
    unfold Store.walkMaking
    refine .store_bind ?_
    rw [← h.kind hp ho]
    split
    · rename_i hdom
      exact .pure hp ⟨_, _, rfl, rfl, ho, .inr hdom⟩
    · have hget : K.InStep K.values (Edit.read (·.getProperty r step))
          (Edit.read (·.getProperty r' step)) s t := .inr ⟨hp, K.refl s, h.getProperty step hp ho⟩
      refine hget.bind fun s₁ t₁ v w hl₁ hp hvw => ?_
      rcases h.sort_eq hvw with ⟨c, c', rfl, rfl, hc⟩ | ⟨rfl, rfl⟩ | ⟨hv, hv', hw, hw'⟩
      · exact ih hp (hc next)
      · refine (h.makeChild hp (K.owners_later hl₁ ho)).bind fun s₂ t₂ c c' _ hp hc => ?_
        exact ih hp (hc next)
      · split
        · exact absurd rfl (hv _)
        · exact absurd rfl hv'
        · rw [h.variant hvw]
          exact .throw hp

theorem walk (steps : List String) : ∀ {r r' : ObjectRef} {step : String}, K.paired s t →
    K.owners s r r' step →
    Outcomes (Option.Rel (K.Ends s)) (s.walk r (step :: steps)) (t.walk r' (step :: steps)) := by
  induction steps with
  | nil => exact fun hp ho => .some ⟨_, _, rfl, rfl, ho, .inl rfl⟩
  | cons next steps ih =>
    intro r r' step hp ho
    unfold Store.walk
    rw [← h.kind hp ho]
    split
    · rename_i hdom
      exact .some ⟨_, _, rfl, rfl, ho, .inr hdom⟩
    · refine (h.getProperty step hp ho).bind fun v w hvw => ?_
      rcases h.sort_eq hvw with ⟨c, c', rfl, rfl, hc⟩ | ⟨rfl, rfl⟩ | ⟨hv, hv', hw, hw'⟩
      · exact ih hp (hc next)
      · exact .none
      · split
        · exact absurd rfl (hv _)
        · exact absurd rfl hv'
        · rw [h.variant hvw]
          exact rfl

/-! ## At the end of a path -/

theorem root (accessor : Accessor) (path : String) {step : String} (hp : K.paired s t)
    (hr : K.Roots s v w step) :
    Outcomes (fun r r' => K.owners s r r' step) (accessor.root s v path)
      (accessor.root t w path) := by
  unfold Accessor.root
  cases accessor with
  | generic => exact objectAt "" hr
  | only kind =>
    refine (objectAt path hr).bind fun r r' ho => ?_
    rw [← h.kind hp ho, ← h.type hp ho]
    split
    · exact ho
    · exact rfl

theorem owner? (accessor : Accessor) (path : String) (hp : K.paired s t)
    (hr : K.Starts s v w path) :
    Outcomes (Option.Rel (K.Ends s)) (accessor.owner? s v path) (accessor.owner? t w path) := by
  obtain ⟨step, rest, hsteps⟩ := List.exists_cons_of_ne_nil (Text.steps_ne_nil path)
  unfold Accessor.owner?
  rw [hsteps]
  exact (h.root accessor path hp (hr step rest hsteps)).bind fun r r' ho => h.walk rest hp ho

theorem get (accessor : Accessor) (path : String) (hp : K.paired s t) (hr : K.Starts s v w path)
    (hget : ∀ {r r' step} (rest : List String), K.owners s r r' step →
      rest = [] ∨ s.kind r = .dom →
      Outcomes (K.values s) (s.getProperty r (Text.path (step :: rest)))
        (t.getProperty r' (Text.path (step :: rest)))) :
    Outcomes (K.values s) (accessor.get s v path) (accessor.get t w path) := by
  unfold Accessor.get
  refine (h.owner? accessor path hp hr).bind fun a b hab => ?_
  cases hab with
  | none => exact h.null
  | @some a b hab =>
    obtain ⟨owner, left⟩ := a
    obtain ⟨owner', left'⟩ := b
    obtain ⟨last, left, rfl, rfl, hown, hend⟩ := hab
    exact hget left hown hend

theorem setterType_path (accessor : Accessor) (path : String) (hp : K.paired s t)
    (hr : K.Starts s v w path) :
    accessor.setterType s v path = accessor.setterType t w path := by
  refine Outcomes.eq ?_
  unfold Accessor.setterType
  refine (h.owner? accessor path hp hr).bind fun a b hab => ?_
  cases hab with
  | none => exact rfl
  | @some a b hab =>
    obtain ⟨owner, left⟩ := a
    obtain ⟨owner', left'⟩ := b
    obtain ⟨last, left, rfl, rfl, hown, -⟩ := hab
    show Outcomes Eq (s.setterType owner (Text.path (last :: left))) _
    rw [h.setterType _ hp hown]
    exact .same fun _ _ => rfl

theorem owner (accessor : Accessor) (path : String) (hp : K.paired s t) (hr : K.Starts s v w path) :
    K.InStep K.Ends (accessor.owner v path) (accessor.owner w path) s t := by
  obtain ⟨step, rest, hsteps⟩ := List.exists_cons_of_ne_nil (Text.steps_ne_nil path)
  have hroot : K.InStep (fun u r r' => K.owners u r r' step) (Edit.read (accessor.root · v path))
      (Edit.read (accessor.root · w path)) s t :=
    .inr ⟨hp, K.refl s, h.root accessor path hp (hr step rest hsteps)⟩
  unfold Accessor.owner
  rw [hsteps]
  exact hroot.bind fun s₁ t₁ r r' _ hp ho => h.walkMaking rest hp ho

theorem set (accessor : Accessor) (path : String) {a b : Value} (hp : K.paired s t)
    (hr : K.Starts s v w path) (hab : K.values s a b) :
    K.InStep Pairing.Any (accessor.set v path a) (accessor.set w path b) s t := by
  unfold Accessor.set
  refine (h.owner accessor path hp hr).bind fun s₁ t₁ x y hl hp hxy => ?_
  obtain ⟨owner, left⟩ := x
  obtain ⟨owner', left'⟩ := y
  obtain ⟨last, left, rfl, rfl, hown, hend⟩ := hxy
  exact h.setProperty left hp hown hend (K.values_later hl hab)

/-- Changing a property in place, if that stays in step at every owner. -/
theorem update (accessor : Accessor) (path : String)
    {f f' : Store → Value → Value × Except Error Unit} (hp : K.paired s t)
    (hr : K.Starts s v w path)
    (hslot : ∀ {s₁ t₁ r r' step} (rest : List String), K.later s s₁ → K.paired s₁ t₁ →
      K.owners s₁ r r' step → rest = [] ∨ s₁.kind r = .dom →
      K.InStep Pairing.Any
        (Edit.read (·.slotOf r (Text.path (step :: rest))) >>= Accessor.updateSlot f)
        (Edit.read (·.slotOf r' (Text.path (step :: rest))) >>= Accessor.updateSlot f') s₁ t₁) :
    K.InStep Pairing.Any (accessor.update v path f) (accessor.update w path f') s t := by
  unfold Accessor.update Accessor.slot
  simp only [bind_assoc]
  refine (h.owner accessor path hp hr).bind fun s₁ t₁ x y hl hp hxy => ?_
  obtain ⟨owner, left⟩ := x
  obtain ⟨owner', left'⟩ := y
  obtain ⟨last, left, rfl, rfl, hown, hend⟩ := hxy
  exact hslot left hl hp hown hend

/-! ## Filling objects -/

theorem newTarget (exchange : Exchange) (m : ResultMap) (hp : K.paired s t) :
    K.InStep K.values (exchange.newTarget m) (exchange.newTarget m) s t := by
  unfold Exchange.newTarget
  split
  · exact h.instantiate _ hp
  · exact .throw hp
  · exact h.newObject _ hp (by simp [ObjectData.values])
  · exact h.newObject _ hp (by simp [ObjectData.values])

/-- Mappings with values, by which an object is filled. A map takes their properties as they are. -/
def Assigned (K : StoreCorrespondence) (exchange : Exchange) (s : Store) (v w : Value)
    (x y : ResultMapping × Value) : Prop :=
  x.1 = y.1 ∧ K.values s x.2 y.2 ∧ (exchange ≠ .map → K.Starts s v w x.1.property) ∧
    K.Roots s v w x.1.property

theorem fillMap (m : ResultMap) {exchange : Exchange} {xs ys : List (ResultMapping × Value)} (hp : K.paired s t)
    (hv : v.variant = w.variant)
    (hkind : ∀ r, v = .object r → ∃ r', w = .object r' ∧ s.kind r = t.kind r')
    (hpairs : List.Forall₂ (Assigned K exchange s v w) xs ys) :
    K.InStep Pairing.Any (Exchange.fillMap m v xs) (Exchange.fillMap m w ys) s t := by
  unfold Exchange.fillMap
  refine .store_bind ?_
  rw [hv]
  split
  · rename_i r
    obtain ⟨r', rfl, hk⟩ := hkind r rfl
    simp only [hk]
    split
    · refine .forM₂ (hpairs.imp fun x y hxy u u' hl hp => ?_) (K.refl s) hp
      obtain ⟨hmapping, hvalue, -, hroot⟩ := hxy
      obtain ⟨r'', heq, hown⟩ := hroot.object r rfl
      cases heq
      have hwrite := h.setProperty [] hp (K.owners_later hl hown) (.inl rfl) (K.values_later hl hvalue)
      rw [Text.path_singleton] at hwrite
      rw [← hmapping]
      exact hwrite
    · exact .throw hp
  · rename_i hno
    split
    · cases v <;> first | exact absurd rfl (hno _) | cases hv
    · exact .throw hp

theorem fill (exchange : Exchange) (accessor : Accessor) (m : ResultMap)
    {xs ys : List (ResultMapping × Value)} (hp : K.paired s t) (hv : v.variant = w.variant)
    (hkind : ∀ r, v = .object r → ∃ r', w = .object r' ∧ s.kind r = t.kind r')
    (hpairs : List.Forall₂ (Assigned K exchange s v w) xs ys) :
    K.InStep Pairing.Any (exchange.fill accessor m v xs) (exchange.fill accessor m w ys) s t := by
  have hset : ∀ {x y : ResultMapping × Value}, Assigned K exchange s v w x y → exchange ≠ .map →
      ∀ u u', K.later s u → K.paired u u' → K.InStep Pairing.Any (accessor.set v x.1.property x.2)
        (accessor.set w y.1.property y.2) u u' := by
    intro x y hxy hmap u u' hl hp
    obtain ⟨hmapping, hvalue, hstarts, -⟩ := hxy
    rw [← hmapping]
    exact h.set accessor _ hp ((hstarts hmap).later hl) (K.values_later hl hvalue)
  unfold Exchange.fill
  split
  · exact .forM₂ (hpairs.imp fun x y hxy => hset hxy nofun) (K.refl s) hp
  · refine .forM₂ (hpairs.imp fun x y hxy u u' hl hp => ?_) (K.refl s) hp
    have hnull : x.2.isNull = y.2.isNull := h.isNull hxy.2.1
    rw [hnull]
    split
    · exact .pure hp trivial
    · exact hset hxy nofun u u' hl hp
  · exact h.fillMap m hp hv hkind hpairs

omit h in
/-- The values that an object is filled with correspond when those of the row do. -/
theorem assignable (mappings : List ResultMapping) {values values' : List Value}
    (hv : List.Forall₂ (K.values s) values values') :
    List.Forall₂ (fun x y => x.1 = y.1 ∧ K.values s x.2 y.2 ∧ x.1 ∈ mappings ∧
        x.1.isNestedMap = false)
      (Exchange.assignable mappings values) (Exchange.assignable mappings values') := by
  induction hv generalizing mappings with
  | nil => simp [Exchange.assignable]
  | cons hab _ ih =>
    cases mappings with
    | nil => exact .nil
    | cons mapping mappings =>
      have hrest : List.Forall₂ (fun x y => x.1 = y.1 ∧ K.values s x.2 y.2 ∧
          x.1 ∈ mapping :: mappings ∧ x.1.isNestedMap = false)
          (Exchange.assignable mappings _) (Exchange.assignable mappings _) :=
        (ih mappings).imp fun x y hxy =>
          ⟨hxy.1, hxy.2.1, List.mem_cons_of_mem mapping hxy.2.2.1, hxy.2.2.2⟩
      unfold Exchange.assignable at hrest ⊢
      rw [List.zip_cons_cons, List.zip_cons_cons, List.filter_cons, List.filter_cons]
      cases hn : mapping.isNestedMap with
      | true => exact hrest
      | false => exact .cons ⟨rfl, hab, List.mem_cons_self .., hn⟩ hrest

/-- The values of a row are moved in step into a new object or the one that is given, or into a record
or scalar. -/
theorem setData (exchange : Exchange) (accessor : Accessor) (m : ResultMap)
    (mappings : List ResultMapping) {given given' : Option Value} {values values' : List Value}
    (hp : K.paired s t) (hgiven : Option.Rel (K.values s) given given')
    (hv : List.Forall₂ (K.values s) values values')
    (hrecord : ∀ {fields fields'}, List.Forall₂ (K.values s) fields fields' →
      K.values s (.record fields) (.record fields')) :
    K.InStep K.values (exchange.setData accessor m mappings given values)
      (exchange.setData accessor m mappings given' values') s t := by
  have hpairs := assignable mappings hv
  unfold Exchange.setData
  split
  · refine .pure hp (hrecord ?_)
    rw [List.forall₂_map_left_iff, List.forall₂_map_right_iff]
    exact hpairs.imp fun x y hxy => hxy.2.1
  · refine .pure hp ?_
    cases hv with
    | nil => exact h.null
    | cons hab _ => exact hab
  · have hfilled : ∀ {s₁ t₁ target target'}, K.later s s₁ → K.paired s₁ t₁ → K.values s₁ target target' →
        K.InStep K.values
          (do exchange.fill accessor m target (Exchange.assignable mappings values); return target)
          (do exchange.fill accessor m target' (Exchange.assignable mappings values'); return target')
          s₁ t₁ := by
      intro s₁ t₁ target target' hl₁ hp htarget
      have hkind : ∀ r, target = .object r → ∃ r', target' = .object r' ∧ s₁.kind r = t₁.kind r' := by
        rintro r rfl
        obtain ⟨r', rfl, ho⟩ := h.object htarget
        exact ⟨r', rfl, h.kind hp (ho "")⟩
      have hassigned := hpairs.imp fun x y hxy =>
        (⟨hxy.1, K.values_later hl₁ hxy.2.1, fun _ step _ _ => h.roots step htarget,
          h.roots _ htarget⟩ : Assigned K exchange s₁ target target' x y)
      have hfill := h.fill exchange accessor m hp (h.variant htarget) hkind hassigned
      refine hfill.bind fun s₂ t₂ _ _ hl₂ hp _ => ?_
      exact .pure hp (K.values_later hl₂ htarget)
    cases hgiven with
    | none => exact (h.newTarget exchange m hp).bind fun _ _ _ _ hl₁ hp htarget => hfilled hl₁ hp htarget
    | some hvw => exact hfilled (K.refl s) hp hvw

end Writes

end StoreCorrespondence

end RowMapper
