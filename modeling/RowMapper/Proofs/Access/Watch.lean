/-
Watching properties of one object. As long as nothing but collections refers to the object, no path
leads to it, so writes that do not start from it pass it by; and writes that start from it at another
property leave the values as they are. The object may be watched before it is made: if an edit makes
it meanwhile, then nothing is known of it.
-/
import RowMapper.Proofs.Access.Object
import RowMapper.Proofs.Access.Writing

namespace RowMapper

/-- What becomes of a list that is only added to, or made where there was none. -/
inductive ListGrows : Value → Value → Prop
  | same (v : Value) : ListGrows v v
  | made (items : List Value) : ListGrows .null (.list items)
  | added (items more : List Value) : ListGrows (.list items) (.list (items ++ more))

theorem ListGrows.trans {u v w : Value} (h : ListGrows u v) (h' : ListGrows v w) : ListGrows u w := by
  cases h with
  | same => exact h'
  | made items =>
    cases h' with
    | same => exact .made items
    | added _ more => exact .made (items ++ more)
  | added items more =>
    cases h' with
    | same => exact .added items more
    | added _ more' => rw [List.append_assoc]; exact .added items (more ++ more')

/-- From one object to the next the values at watched properties stay, or are lists and only added to
if they are not `fixed`. -/
structure ObjectData.Grows (watched : String → Prop) (fixed : Prop) (d d' : ObjectData) : Prop where
  kind_eq : d'.kind = d.kind
  type_eq : d'.type = d.type
  slot : ∀ property v, watched property → d.slot? property = some v →
    ∃ w, d'.slot? property = some w ∧ ListGrows v w ∧ (fixed → w = v)
  /-- Nothing else can change. -/
  same : (∀ property, watched property) → fixed → d' = d

section Grows

variable {watched : String → Prop} {fixed : Prop} {d d' d'' : ObjectData}

theorem ObjectData.Grows.refl (d : ObjectData) : d.Grows watched fixed d :=
  ⟨rfl, rfl, fun _ v _ hv => ⟨v, hv, .same v, fun _ => rfl⟩, fun _ _ => rfl⟩

theorem ObjectData.Grows.trans (h : d.Grows watched fixed d') (h' : d'.Grows watched fixed d'') :
    d.Grows watched fixed d'' := by
  refine ⟨h'.kind_eq.trans h.kind_eq, h'.type_eq.trans h.type_eq, fun p v hp hv => ?_,
    fun ha hf => (h'.same ha hf).trans (h.same ha hf)⟩
  obtain ⟨w, hw, hvw, hfixed⟩ := h.slot p v hp hv
  obtain ⟨u, hu, hwu, hfixed'⟩ := h'.slot p w hp hw
  exact ⟨u, hu, hvw.trans hwu, fun hf => (hfixed' hf).trans (hfixed hf)⟩

theorem ObjectData.Grows.loosen (h : d.Grows watched fixed d') : d.Grows watched False d' := by
  refine ⟨h.kind_eq, h.type_eq, fun p v hp hv => ?_, fun _ => False.elim⟩
  obtain ⟨w, hw, hvw, -⟩ := h.slot p v hp hv
  exact ⟨w, hw, hvw, False.elim⟩

theorem ObjectData.Written.grows {property : String} {v : Value}
    (h : d.Written property v d') (hp : ¬watched property) : d.Grows watched fixed d' := by
  refine ⟨h.kind_eq, h.type_eq, fun other w ho hw => ⟨w, ?_, .same w, fun _ => rfl⟩,
    fun ha => absurd (ha property) hp⟩
  rw [h.others other fun he => hp (he ▸ ho)]
  exact hw

end Grows

/-- An object and its properties that are watched, whose values may be `fixed`. -/
structure Watch where
  ref : ObjectRef
  watched : String → Prop
  fixed : Prop

namespace Watch

variable {x : Watch} {n : Nat} {s t : Store}

/-- Whether the object was made since the store had a size. -/
def MadeSince (x : Watch) (n : Nat) (s : Store) : Prop :=
  n ≤ x.ref.index ∧ x.ref.index < s.objects.size

/-- No object of the store refers to the object. -/
def Alone (x : Watch) (s : Store) : Prop := ∀ r, .object x.ref ∉ (s.data r).values

theorem MadeSince.later (h : x.MadeSince n s) (hle : s.objects.size ≤ t.objects.size) :
    x.MadeSince n t := ⟨h.1, Nat.lt_of_lt_of_le h.2 hle⟩

/-- Watching from when the store has a size. -/
def onStore (x : Watch) (n : Nat) : StoreCorrespondence where
  paired s t := s = t ∧ n ≤ s.objects.size ∧ (x.MadeSince n s ∨ x.Alone s)
  later s t := s.objects.size ≤ t.objects.size ∧
    (x.ref.index < n → (s.data x.ref).Grows x.watched x.fixed (t.data x.ref))
  refl _ := ⟨Nat.le_refl _, fun _ => .refl _⟩
  trans h h' := ⟨Nat.le_trans h.1 h'.1, fun hn => (h.2 hn).trans (h'.2 hn)⟩
  values s v w := v = w ∧ (v = .object x.ref → x.MadeSince n s)
  owners s r r' step := r = r' ∧
    (r = x.ref → x.MadeSince n s ∨
      x.ref.index < n ∧ ¬x.watched step ∧ (s.kind r = .dom → ∀ property, ¬x.watched property))
  values_later h hv := ⟨hv.1, fun hr => (hv.2 hr).later h.1⟩
  owners_later := by
    rintro s t r r' step h ⟨rfl, ho⟩
    refine ⟨rfl, fun hr => ?_⟩
    rcases ho hr with hm | ⟨hn, hne, hk⟩
    · exact .inl (hm.later h.1)
    · refine .inr ⟨hn, hne, fun hdom => hk ?_⟩
      subst hr
      rwa [Store.kind, (h.2 hn).kind_eq] at hdom

/-- The writes of the store that are not at a watched property of the object pass it by. -/
theorem setData_later {r : ObjectRef} {property : String} {v : Value} {d : ObjectData}
    (hd : (s.data r).Written property v d) (hn : n ≤ s.objects.size)
    (ho : r = x.ref → x.MadeSince n s ∨ ¬x.watched property) :
    (x.onStore n).later s (s.setData r d) := by
  refine ⟨by simp, fun hlt => ?_⟩
  by_cases hr : x.ref = r
  · rcases ho hr.symm with hm | hne
    · exact absurd hm.1 (by omega)
    · have hsize : r.index < s.objects.size := by subst hr; exact Nat.lt_of_lt_of_le hlt hn
      rw [hr, Store.data_setData_self hsize]
      exact hd.grows hne
  · rw [Store.data_setData_of_ne hr]
    exact .refl _

theorem setData_paired {r : ObjectRef} {property : String} {v : Value} {d : ObjectData}
    (hd : (s.data r).Written property v d) (hp : (x.onStore n).paired s s)
    (hv : v = .object x.ref → x.MadeSince n s) :
    (x.onStore n).paired (s.setData r d) (s.setData r d) := by
  obtain ⟨-, hn, hx⟩ := hp
  refine ⟨rfl, by simpa using hn, ?_⟩
  rcases hx with hm | ha
  · exact .inl ⟨hm.1, by simpa using hm.2⟩
  by_cases hm : x.MadeSince n s
  · exact .inl ⟨hm.1, by simpa using hm.2⟩
  · refine .inr fun q hq => ?_
    by_cases hqr : q = r
    · subst hqr
      by_cases hlt : q.index < s.objects.size
      · rw [Store.data_setData_self hlt] at hq
        rcases hd.objects _ hq with hold | hnew
        · exact ha q hold
        · exact hm (hv hnew)
      · rw [Store.setData_of_size_le (Nat.not_lt.1 hlt)] at hq
        exact ha q hq
    · rw [Store.data_setData_of_ne hqr] at hq
      exact ha q hq

/-- A new object that holds nothing refers to no object. -/
theorem Alone.newObject {data : ObjectData} (h : x.Alone s) (hd : ∀ v ∈ data.values, v = .null) :
    x.Alone (s.newObject data).2 := by
  intro r hr
  by_cases hi : r.index = s.objects.size
  · have hself : r = (s.newObject data).1 := by
      cases r
      exact congrArg ObjectRef.mk hi
    rw [hself, Store.data_newObject_self] at hr
    exact absurd (hd _ hr) nofun
  · rw [Store.data_newObject_of_ne hi] at hr
    exact h r hr

theorem newObject_inStep (data : ObjectData) (hp : (x.onStore n).paired s t)
    (hd : ∀ v ∈ data.values, v = .null) :
    (x.onStore n).InStep (x.onStore n).values (Edit.newObject data) (Edit.newObject data) s t := by
  obtain ⟨rfl, hn, hx⟩ := hp
  have hrun : (Edit.newObject data).run s = (.ok (.object (s.newObject data).1), (s.newObject data).2) :=
    run_make_ok rfl
  refine .inr ?_
  rw [hrun]
  have hmade : x.ref.index = s.objects.size → x.MadeSince n (s.newObject data).2 := fun he =>
    ⟨by omega, by simp [he]⟩
  refine ⟨⟨rfl, by simp; omega, ?_⟩, ⟨by simp, fun hlt => ?_⟩, rfl, fun hv => ?_⟩
  · rcases hx with hm | ha
    · exact .inl ⟨hm.1, by simpa using Nat.lt_succ_of_lt hm.2⟩
    · exact .inr (ha.newObject hd)
  · rw [Store.data_newObject_of_ne (by omega)]
    exact .refl _
  · injection hv with hv
    exact hmade (by rw [← hv]; rfl)

/-- Reading, writing and making objects pass the object by. -/
theorem writes (x : Watch) (n : Nat) : (x.onStore n).Writes where
  null := ⟨rfl, nofun⟩
  variant h := h.1 ▸ rfl
  object := by
    rintro s r w ⟨rfl, hr⟩
    exact ⟨r, rfl, fun _ => ⟨rfl, fun he => .inl (hr (he ▸ rfl))⟩⟩
  kind h ho := h.1 ▸ ho.1 ▸ rfl
  type h ho := h.1 ▸ ho.1 ▸ rfl
  setterType _ h ho := h.1 ▸ ho.1 ▸ rfl
  getProperty := by
    rintro s t r r' step ⟨rfl, -, hx⟩ ⟨rfl, -⟩
    refine .same fun v hv => ⟨rfl, ?_⟩
    rintro rfl
    exact hx.resolve_right fun ha => ha r (Store.getProperty_object hv)
  setProperty := by
    rintro s t r r' step a b rest hp ⟨rfl, ho⟩ hrest ⟨rfl, hv⟩
    have heq := hp.1
    subst heq
    cases hset : s.setProperty r (Text.path (step :: rest)) a with
    | error e =>
      refine .inr ?_
      rw [run_change_error hset]
      exact ⟨hp, (x.onStore n).refl s, rfl⟩
    | ok t =>
      obtain ⟨d, rfl, hd⟩ := Store.setProperty_eq_ok hset
      refine .inr ?_
      rw [run_change_ok hset]
      refine ⟨setData_paired hd hp hv, setData_later hd hp.2.1 fun hr => ?_, trivial⟩
      refine (ho hr).imp_right fun ⟨_, hne, hk⟩ => ?_
      rcases hrest with rfl | hdom
      · -- a map or a bean is written at one step
        rw [Text.path_singleton]
        exact hne
      · exact hk hdom _
  newObject data hp hd := newObject_inStep data hp hd
  empty := by
    intro s v type h
    refine ⟨rfl, ?_⟩
    rintro rfl
    unfold DataType.emptyCollection? at h
    split at h <;> cases h

theorem record_values {fields fields' : List Value}
    (h : List.Forall₂ ((x.onStore n).values s) fields fields') :
    (x.onStore n).values s (.record fields) (.record fields') := by
  have heq := h.imp fun _ _ hv => hv.1
  rw [List.forall₂_eq_eq_eq] at heq
  exact ⟨congrArg Value.record heq, nofun⟩

/-- Changes in place that put no object anywhere pass the object by. -/
theorem update_inStep (accessor : Accessor) (path : String) {v w : Value}
    {f : Store → Value → Value × Except Error Unit}
    (hf : ∀ s v r, (f s v).1 = .object r → v = .object r) (hp : (x.onStore n).paired s t)
    (hr : (x.onStore n).Starts s v w path) :
    (x.onStore n).InStep Pairing.Any (accessor.update v path f) (accessor.update w path f) s t := by
  refine (x.writes n).update accessor path hp hr ?_
  rintro s₁ t₁ r r' step rest - hp ⟨rfl, ho⟩ hrest
  have heq := hp.1
  subst heq
  refine .inr ?_
  rcases Accessor.run_updateProperty f r (Text.path (step :: rest)) s₁ with ⟨e, he⟩ | ⟨slot, hs, hdone⟩
  · rw [he]
    exact ⟨hp, (x.onStore n).refl s₁, rfl⟩
  · obtain ⟨d, hfill, hd, -⟩ := Store.fillSlot_eq (v := (f s₁ (s₁.slotValue slot)).1) hs
    rw [hdone, hfill]
    refine ⟨setData_paired hd hp fun hv => ?_, setData_later hd hp.2.1 fun hr => ?_, .same ?_⟩
    · -- what the slot holds was in it before
      have hold := Store.slotValue_object hs (hf _ _ _ hv)
      exact hp.2.2.resolve_right fun ha => ha r hold
    · refine (ho hr).imp_right fun ⟨_, hne, hk⟩ => ?_
      rcases hrest with rfl | hdom
      · rw [Text.path_singleton]
        exact hne
      · exact hk hdom _
    · exact fun _ _ => trivial

end Watch

end RowMapper
