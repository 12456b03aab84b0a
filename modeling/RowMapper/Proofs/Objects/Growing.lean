/-
Objects that only grow. From one store to the next an object keeps its values, but for those properties
at which it collects: there elements may come behind the ones that it has, and if it opens, anything may
come in for null (`ObjectData.OnlyGrows`). A change in place that extends what is there makes all objects
only grow, whatever the path to it leads through; so a list that is read at a path is read there behind
the change, with what it had in front.
-/
import RowMapper.Proofs.Access.Walks
import RowMapper.Proofs.Engine.Sparing

namespace RowMapper

/-- From one object to the next the values stay, but for the properties at which it collects, where
there are as many elements or more. An object that opens may get any value there for null. -/
structure ObjectData.OnlyGrows (collects : String → Prop) (d d' : ObjectData) (opens : Prop := False) :
    Prop where
  kind_eq : d'.kind = d.kind
  type_eq : d'.type = d.type
  kept : ∀ property, ¬collects property → d'.slot? property = d.slot? property
  extended : ∀ property v, d.slot? property = some v →
    ∃ w, d'.slot? property = some w ∧ (v.Extends w ∨ opens ∧ v.isNull = true)
  /-- Nothing at all changes in an object that collects nowhere. -/
  same : (∀ property, ¬collects property) → d' = d

namespace ObjectData

variable {collects collects' : String → Prop} {opens opens' : Prop} {d d' d'' : ObjectData}
  {property : String} {v : Value}

namespace OnlyGrows

theorem refl (d : ObjectData) : d.OnlyGrows collects d opens :=
  ⟨rfl, rfl, fun _ _ => rfl, fun _ v hv => ⟨v, hv, .inl (.refl v)⟩, fun _ => rfl⟩

theorem trans (h : d.OnlyGrows collects d' opens) (h' : d'.OnlyGrows collects d'' opens) :
    d.OnlyGrows collects d'' opens := by
  refine ⟨h'.kind_eq.trans h.kind_eq, h'.type_eq.trans h.type_eq,
    fun p hp => (h'.kept p hp).trans (h.kept p hp), fun p v hv => ?_,
    fun hno => (h'.same hno).trans (h.same hno)⟩
  obtain ⟨w, hw, hvw⟩ := h.extended p v hv
  obtain ⟨u, hu, hwu⟩ := h'.extended p w hw
  refine ⟨u, hu, hvw.elim (fun hvw => ?_) .inr⟩
  rcases hwu with hwu | ⟨hopens, hnull⟩
  · exact .inl (hvw.trans hwu)
  · rw [hvw.eq_of_isNull hnull] at hnull
    exact .inr ⟨hopens, hnull⟩

theorem mono (h : d.OnlyGrows collects d' opens) (hc : ∀ property, collects property → collects' property)
    (ho : opens → opens') : d.OnlyGrows collects' d' opens' := by
  refine ⟨h.kind_eq, h.type_eq, fun p hp => h.kept p fun hn => hp (hc p hn), fun p v hv => ?_,
    fun hno => h.same fun p hn => hno p (hc p hn)⟩
  obtain ⟨w, hw, hvw⟩ := h.extended p v hv
  exact ⟨w, hw, hvw.imp_right (.imp_left ho)⟩

/-- An object stays where it is. -/
theorem slot_object (h : d.OnlyGrows collects d' opens) {r : ObjectRef}
    (hv : d.slot? property = some (.object r)) : d'.slot? property = some (.object r) := by
  obtain ⟨w, hw, hvw | ⟨-, hnull⟩⟩ := h.extended property _ hv
  · exact hvw.of_object ▸ hw
  · cases hnull

/-- A list keeps what it has in front. -/
theorem slot_list (h : d.OnlyGrows collects d' opens) {items : List Value}
    (hv : d.slot? property = some (.list items)) :
    ∃ more, d'.slot? property = some (.list (items ++ more)) := by
  obtain ⟨w, hw, hvw | ⟨-, hnull⟩⟩ := h.extended property _ hv
  · obtain ⟨more, rfl⟩ := hvw.of_list
    exact ⟨more, hw⟩
  · cases hnull

end OnlyGrows

/-- What is put at a property at which an object collects extends what was there, or comes in for null. -/
theorem Written.onlyGrows (h : d.Written property v d') (hc : collects property)
    (hv : ∀ w, d.slot? property = some w →
      d'.slot? property = some v ∧ (w.Extends v ∨ opens ∧ w.isNull = true)) :
    d.OnlyGrows collects d' opens := by
  refine ⟨h.kind_eq, h.type_eq, fun p hp => ?_, fun p w hw => ?_, fun hno => absurd hc (hno property)⟩
  · exact h.others p fun he => hp (he ▸ hc)
  · by_cases hp : p = property
    · subst hp
      exact ⟨v, hv w hw⟩
    · exact ⟨w, (h.others p hp).trans hw, .inl (.refl w)⟩

theorem written_put (d : ObjectData) (property : String) (v : Value) :
    d.Written property v (d.put property v) := by
  unfold put
  cases d with
  | map entries => exact Store.written_map
  | bean type fields =>
    dsimp only
    split
    · next i hi => exact Store.written_bean hi fun _ => id
    · exact ⟨rfl, rfl, fun _ => .inl, fun _ _ => rfl⟩
  | dom node => exact ⟨rfl, rfl, nofun, fun _ _ => rfl⟩

end ObjectData

/-! ## Lists at the end of a path -/

namespace Store

variable {s t : Store} {r x y : ObjectRef} {p path : String} {v w : Value} {items : List Value}
  {accessor : Accessor} {collects : ObjectRef → String → Prop} {opens : Prop}

/-- An object that a path comes to before its last step. -/
def OnTheWay (s : Store) (r : ObjectRef) (path : List String) (x : ObjectRef) : Prop :=
  ∃ a b, path = a ++ b ∧ b ≠ [] ∧ s.reach? r a = some x

/-- Paths lead where they led when the objects on the way keep their children. -/
theorem reach?_of_way {a : List String}
    (h : ∀ {b q y z}, b ++ [q] <+: a → s.reach? r b = some y → s.child? y q = some z →
      t.child? y q = some z) (hx : s.reach? r a = some x) : t.reach? r a = some x := by
  induction a using List.reverseRecOn generalizing x with
  | nil => exact hx
  | append_singleton a q ih =>
    rw [reach?_concat] at hx ⊢
    obtain ⟨y, hy, hx⟩ := Option.bind_eq_some_iff.1 hx
    rw [ih (fun hb => h (hb.trans (List.prefix_append ..))) hy]
    have hchild : s.child? y q = some x := hx
    exact h List.prefix_rfl hy hchild

theorem lt_of_slot? (h : (s.data x).slot? p = some v) (hv : v ≠ .null) : x.index < s.objects.size := by
  by_contra hlt
  rw [data_of_size_le (Nat.not_lt.1 hlt)] at h
  exact hv (Option.some.inj h).symm

/-- What a path begins at is there, if a list is at its end. -/
theorem At.lt {path : List String} (h : s.At r path (.list items)) : r.index < s.objects.size := by
  obtain ⟨steps, last, x, -, hreach, hslot⟩ := h
  cases steps with
  | nil =>
    cases hreach
    exact lt_of_slot? hslot nofun
  | cons q steps =>
    rw [reach?_cons] at hreach
    obtain ⟨y, hy, -⟩ := Option.bind_eq_some_iff.1 hreach
    exact lt_of_child? hy

/-- A list at a path keeps what it has in front when the objects on the way only grow. -/
theorem At.grown {path : List String} (h : s.At r path (.list items))
    (hgrows : ∀ x, x.index < s.objects.size → s.OnTheWay r path x →
      (s.data x).OnlyGrows (collects x) (t.data x) opens) :
    ∃ more, t.At r path (.list (items ++ more)) := by
  obtain ⟨steps, last, x, rfl, hreach, hslot⟩ := h
  obtain ⟨more, hmore⟩ :=
    (hgrows x (lt_of_slot? hslot nofun) ⟨steps, [last], rfl, List.cons_ne_nil _ _, hreach⟩).slot_list hslot
  refine ⟨more, steps, last, x, rfl, reach?_of_way (fun {b q y z} hb hy hz => ?_) hreach, hmore⟩
  obtain ⟨c, hc⟩ := hb
  have hway : s.OnTheWay r (steps ++ [last]) y := ⟨b, q :: (c ++ [last]), by simp [← hc], by simp, hy⟩
  exact child?_eq_some.2 ((hgrows y (lt_of_child? hz) hway).slot_object (child?_eq_some.1 hz))

/-- A list is at a property that it is read from. -/
theorem slot?_of_list (h : s.getProperty x p = .ok (.list items)) :
    (s.data x).slot? p = some (.list items) := by
  unfold getProperty at h
  cases hd : s.data x with
  | map entries =>
    rw [hd] at h
    exact congrArg some (Except.ok.inj h)
  | bean type fields =>
    rw [hd] at h
    obtain ⟨i, hi, hv⟩ := Except.bind_eq_ok_iff.1 h
    rw [ObjectData.slot?_bean, fieldIndex_eq_ok.1 hi, Option.bind_some]
    cases hf : fields[i]? with
    | none =>
      rw [hf] at hv
      cases hv
    | some w =>
      rw [hf] at hv
      exact congrArg some (Except.ok.inj hv)
  | dom node =>
    rw [hd] at h
    dsimp only at h
    split at h <;> cases h

/-- A list that is read at a path is there, in an object that the accessor takes. -/
theorem at_of_get (h : accessor.get s v path = .ok (.list items)) :
    ∃ r, v = .object r ∧ accessor.root s v path = .ok r ∧ s.At r (Text.steps path) (.list items) := by
  unfold Accessor.get at h
  obtain ⟨found, howner, h⟩ := Except.bind_eq_ok_iff.1 h
  cases found with
  | none => cases h
  | some found =>
    obtain ⟨x, left⟩ := found
    obtain ⟨r, hroot, hwalk⟩ := Except.bind_eq_ok_iff.1 howner
    refine ⟨r, Accessor.eq_object_of_root hroot, hroot, ?_⟩
    have hlist := slot?_of_list h
    cases way s r (Text.steps_ne_nil path) with
    | @owned a _ _ split reach owns walk =>
      cases walk.symm.trans hwalk
      rcases owns with ⟨last, rfl⟩ | ⟨hdom, -⟩
      · rw [Text.path_singleton] at hlist
        exact ⟨a, last, x, split, reach, hlist⟩
      · unfold kind at hdom
        cases hd : s.data x with
        | dom node =>
          rw [hd] at hlist
          cases hlist
        | map | bean =>
          rw [hd] at hdom
          cases hdom
    | blocked walk => cases walk.symm.trans hwalk
    | missing _ _ _ _ walk => cases walk.symm.trans hwalk

end Store

/-! ## Changes in place -/

namespace Store

variable {s t : Store} {r x y : ObjectRef} {p path : String} {v : Value} {items items' : List Value}
  {accessor : Accessor} {change : Store → Value → Value × Except Error Unit} {R : Region}
  {collects : ObjectRef → String → Prop} {opens : Prop}

theorem run_walkMaking_of_reach {steps : List String} (last : String) (h : s.reach? r steps = some x) :
    (walkMaking r (steps ++ [last])).run s = (.ok (x, [last]), s) := by
  have hreached := walk_of_reach last h
  cases way s r (List.append_ne_nil_of_right_ne_nil steps (List.cons_ne_nil last [])) with
  | owned _ _ _ walk making =>
    cases walk.symm.trans hreached
    exact making
  | blocked walk => cases walk.symm.trans hreached
  | missing _ _ _ _ walk => cases walk.symm.trans hreached

/-- An accessor takes an object as long as it stays of its kind. -/
theorem root_of_kind (h : accessor.root s (.object r) path = .ok r) (hkind : t.kind r = s.kind r) :
    accessor.root t (.object r) path = .ok r := by
  cases accessor with
  | generic => rfl
  | only kind =>
    have hs : s.kind r = kind := by
      by_contra hne
      simp [Accessor.root, objectAt, hne, bind, Except.bind] at h
    simp [Accessor.root, objectAt, hkind.trans hs, bind, Except.bind]

/-- A list that is read at a path is read there with what it had in front when the objects on the way
only grow. -/
theorem get_grown (hget : accessor.get s v path = .ok (.list items))
    (hgrows : ∀ r x, v = .object r → x.index < s.objects.size → s.OnTheWay r (Text.steps path) x →
      (s.data x).OnlyGrows (collects x) (t.data x) opens) :
    ∃ more, accessor.get t v path = .ok (.list (items ++ more)) := by
  obtain ⟨r, rfl, hroot, hat⟩ := at_of_get hget
  obtain ⟨more, hmore⟩ := hat.grown fun x => hgrows r x rfl
  have hself : s.OnTheWay r (Text.steps path) r := ⟨[], _, rfl, Text.steps_ne_nil path, rfl⟩
  exact ⟨more, hmore.get (root_of_kind hroot (hgrows r r rfl hat.lt hself).kind_eq)⟩

/-- A list that is changed in place is read as what it was changed to. -/
theorem get_of_update (hget : accessor.get s v path = .ok (.list items))
    (hchange : change s (.list items) = (.list items', .ok ()))
    (hrun : (accessor.update v path change).run s = (.ok (), t)) :
    accessor.get t v path = .ok (.list items') := by
  obtain ⟨r, rfl, hroot, steps, last, x, hpath, hreach, hslot⟩ := at_of_get hget
  have howner : (accessor.owner (.object r) path).run s = (.ok (x, [last]), s) := by
    have hread : (Edit.read (accessor.root · (.object r) path)).run s = (.ok r, s) := by
      rw [← hroot]
      rfl
    unfold Accessor.owner
    rw [run_bind_ok hread, hpath]
    exact run_walkMaking_of_reach last hreach
  unfold Accessor.update Accessor.slot at hrun
  rw [bind_assoc, run_bind_ok howner] at hrun
  replace hrun : (Edit.read (·.slotOf x (Text.path [last])) >>= Accessor.updateSlot change).run s =
    (.ok (), t) := hrun
  rw [Text.path_singleton] at hrun
  rcases Accessor.run_updateProperty change x last s with ⟨e, he⟩ | ⟨slot, hs, hdone⟩
  · cases he.symm.trans hrun
  obtain ⟨d, hfill, hwritten, hvalue, -⟩ := fillSlot_eq (v := (change s (s.slotValue slot)).1) hs
  obtain ⟨hnew, hold⟩ := hvalue _ hslot
  obtain rfl : s.setData x d = t := (hfill.symm.trans (congrArg Prod.snd (hdone.symm.trans hrun)))
  rw [hold, hchange] at hnew
  have hlt : x.index < s.objects.size := lt_of_slot? hslot nofun
  have hself : (s.setData x d).data x = d := data_setData_self hlt
  refine At.get ⟨steps, last, x, hpath, reach?_of_way (fun {_ q y z} _ _ hz => ?_) hreach, ?_⟩ ?_
  · by_cases hyx : y = x
    · -- the list is at no step on the way to it
      subst hyx
      have hq : q ≠ last := by
        rintro rfl
        rw [child?_eq_some, hslot] at hz
        cases hz
      rw [child?_eq_some] at hz ⊢
      rw [hself, hwritten.others q hq, hz]
    · rw [child?_eq_some] at hz ⊢
      rw [data_setData_of_ne hyx, hz]
  · rw [hself, hnew]
  · refine root_of_kind hroot ?_
    unfold kind
    rcases data_setData_cases s x r d with he | ⟨rfl, he⟩ <;> rw [he]
    exact hwritten.kind_eq

/-- Making what is missing where null was read makes the objects that were there only grow. -/
theorem Making.grows {outcome : Except Error ObjectRef} (h : Making s x p outcome t)
    (hnull : s.getProperty x p = .ok .null) (hy : y.index < s.objects.size) :
    (s.data y).OnlyGrows (fun _ => True) (t.data y) True := by
  have hput : ∀ v, (s.data x).OnlyGrows (fun _ => True) ((s.data x).put p v) True := by
    refine fun v => (ObjectData.written_put _ p v).onlyGrows trivial fun w hw => ?_
    obtain rfl : w = .null := Except.ok.inj ((getProperty_of_slot hw).symm.trans hnull)
    exact ⟨ObjectData.slot?_put_self hw, .inr ⟨trivial, rfl⟩⟩
  have hset : ∀ {u : Store} v, u.data y = s.data y →
      (s.data y).OnlyGrows (fun _ => True) ((u.setData x ((s.data x).put p v)).data y) True := by
    intro u v hu
    rcases data_setData_cases u x y ((s.data x).put p v) with he | ⟨rfl, he⟩ <;> rw [he]
    · rw [hu]
      exact .refl _
    · exact hput v
  cases h with
  | refused e => exact .refl _
  | made d blank => exact hset _ (data_newObject_of_ne (Nat.ne_of_lt hy))
  | collection v empty e => exact hset v rfl

/-- What is made for what is missing is new. -/
theorem Making.fresh {outcome : Except Error ObjectRef} (h : Making s x p outcome t) :
    t.FreshFrom s.objects.size ∧ s.objects.size ≤ t.objects.size ∧
      ∀ c, outcome = .ok c → s.objects.size ≤ c.index := by
  by_cases hx : x.index < s.objects.size
  · have halters := h.alters hx
    refine ⟨halters.fresh, halters.size, fun c hc => ?_⟩
    cases h <;> cases hc
    exact Nat.le_refl _
  · obtain ⟨hbeyond, hchild⟩ := h.beyond s.freshFrom_size (Nat.le_refl _) (Nat.not_lt.1 hx)
    exact ⟨hbeyond.fresh, hbeyond.size, hchild⟩

theorem walkMaking_grows (r : ObjectRef) {steps : List String} (hne : steps ≠ [])
    (hy : y.index < s.objects.size) :
    (s.data y).OnlyGrows (fun _ => True) (((walkMaking r steps).run s).2.data y) True := by
  cases way s r hne with
  | owned _ _ _ _ making =>
    rw [making]
    exact .refl _
  | blocked _ making =>
    rw [making]
    exact .refl _
  | @missing a p next rest x split reach kind null walk making =>
    have hmaking := makeChild_making kind p
    rw [making]
    rcases hrun : (makeChild x p).run s with ⟨_ | child, t⟩ <;> rw [hrun] at hmaking <;>
      have hgrows := hmaking.grows null hy
    · rwa [run_bind_error hrun]
    · rw [run_bind_ok hrun]
      -- what is made behind the child leaves what was there
      obtain ⟨hfresh, hsize, hchild⟩ := hmaking.fresh
      have hbeyond := walkMaking_beyond (next :: rest) hfresh hsize (hchild child rfl)
      rwa [hbeyond.1.old y hy]

/-- What is made for what is missing leaves a region shut. -/
theorem Making.shuts {outcome : Except Error ObjectRef} (h : Making s x p outcome t) (hs : s.Shuts R) :
    t.Shuts R := by
  cases h with
  | refused e => exact hs
  | made d blank =>
    refine (hs.newObject blank.null).replace fun hx r hr => ?_
    rcases ObjectData.mem_values_put hr with hr | hr
    · refine (hs.closed x r hx hr).imp_left fun hlt => ?_
      rw [size_newObject]
      exact Nat.lt_succ_of_lt hlt
    · exact hs.outside_newObject d r hr.symm
  | collection v empty e =>
    refine hs.setData (ObjectData.written_put ..) fun _ r hr => ?_
    rw [hr] at empty
    cases empty

/-- Making what is missing leaves a region shut, wherever it begins. -/
theorem Shuts.walkMaking (h : s.Shuts R) (r : ObjectRef) {steps : List String} (hne : steps ≠ []) :
    ((walkMaking r steps).run s).2.Shuts R := by
  cases way s r hne with
  | owned _ _ _ _ making => rwa [making]
  | blocked _ making => rwa [making]
  | @missing a p next rest x split reach kind null walk making =>
    have hmaking := makeChild_making kind p
    rw [making]
    rcases hrun : (makeChild x p).run s with ⟨_ | child, t⟩ <;> rw [hrun] at hmaking <;>
      have ht := hmaking.shuts h
    · rwa [run_bind_error hrun]
    · rw [run_bind_ok hrun]
      have hnew : ¬R child := fun hin =>
        absurd (h.made child hin) (Nat.not_lt.2 (hmaking.fresh.2.2 child rfl))
      have howner : R.onStore.owners t child child next := ⟨rfl, hnew⟩
      obtain ⟨⟨-, hshuts⟩, -⟩ := ((Region.writes R).walkMaking rest ⟨rfl, ht⟩ howner).resolve_left
        fun ⟨_, he, _⟩ => he
      exact hshuts

end Store

namespace Accessor

variable {s : Store} {v : Value} {path : String} {y : ObjectRef} {R : Region}
  {change : Store → Value → Value × Except Error Unit}

/-- A change in place leaves the store, or makes what is missing on the way and then, if the way ends at
a slot, puts the new value there. -/
theorem update_cases (accessor : Accessor) (v : Value) (path : String)
    (change : Store → Value → Value × Except Error Unit) (s : Store) :
    ((accessor.update v path change).run s).2 = s ∨ ∃ r,
      ((accessor.update v path change).run s).2 = ((Store.walkMaking r (Text.steps path)).run s).2 ∨
      ∃ t x p slot, ((Store.walkMaking r (Text.steps path)).run s).2 = t ∧ t.slotOf x p = .ok slot ∧
        ((accessor.update v path change).run s).2 = t.fillSlot slot (change t (t.slotValue slot)).1 := by
  have hread : (Edit.read (accessor.root · v path)).run s = (accessor.root s v path, s) := rfl
  unfold update Accessor.slot owner
  simp only [bind_assoc]
  cases hroot : accessor.root s v path with
  | error e =>
    rw [hroot] at hread
    rw [run_bind_error hread]
    exact .inl rfl
  | ok r =>
    rw [hroot] at hread
    rw [run_bind_ok hread]
    refine .inr ⟨r, ?_⟩
    rcases hwalk : (Store.walkMaking r (Text.steps path)).run s with ⟨e | ⟨x, left⟩, t⟩
    · rw [run_bind_error hwalk]
      exact .inl rfl
    · rw [run_bind_ok hwalk]
      rcases run_updateProperty change x (Text.path left) t with ⟨e, he⟩ | ⟨slot, hslot, hdone⟩
      · exact .inl (congrArg Prod.snd he)
      · exact .inr ⟨t, x, _, slot, rfl, hslot, congrArg Prod.snd hdone⟩

/-- A change in place that extends what is there makes the objects that were there only grow. -/
theorem update_grows (accessor : Accessor) (v : Value) (path : String)
    (hchange : ∀ s w, Value.Extends w (change s w).1) (s : Store) (hy : y.index < s.objects.size) :
    (s.data y).OnlyGrows (fun _ => True) (((accessor.update v path change).run s).2.data y) True := by
  rcases update_cases accessor v path change s with he | ⟨r, he | ⟨t, x, p, slot, ht, hslot, he⟩⟩ <;>
    rw [he]
  · exact .refl _
  · exact Store.walkMaking_grows r (Text.steps_ne_nil path) hy
  · have hgrows : (s.data y).OnlyGrows (fun _ => True) (t.data y) True :=
      ht ▸ Store.walkMaking_grows r (Text.steps_ne_nil path) hy
    obtain ⟨d, hfill, hwritten, hvalue, -⟩ :=
      Store.fillSlot_eq (v := (change t (t.slotValue slot)).1) hslot
    rw [hfill]
    rcases Store.data_setData_cases t x y d with he | ⟨rfl, he⟩ <;> rw [he]
    · exact hgrows
    · refine hgrows.trans (hwritten.onlyGrows trivial fun w hw => ?_)
      obtain ⟨hnew, hold⟩ := hvalue w hw
      exact ⟨hnew, .inl (hold ▸ hchange t _)⟩

/-- A change in place that extends what is there leaves a region shut, also where it begins inside. -/
theorem shuts_update (accessor : Accessor) (v : Value) (path : String)
    (hchange : ∀ s w, Value.Extends w (change s w).1) (hs : s.Shuts R) :
    ((accessor.update v path change).run s).2.Shuts R := by
  rcases update_cases accessor v path change s with he | ⟨r, he | ⟨t, x, p, slot, ht, hslot, he⟩⟩ <;>
    rw [he]
  · exact hs
  · exact hs.walkMaking r (Text.steps_ne_nil path)
  · have hshuts : t.Shuts R := ht ▸ hs.walkMaking r (Text.steps_ne_nil path)
    obtain ⟨d, hfill, hwritten, -⟩ := Store.fillSlot_eq (v := (change t (t.slotValue slot)).1) hslot
    rw [hfill]
    refine hshuts.setData hwritten fun hx q hq => ?_
    -- an object that the change leaves is one that stood there before
    have hold : t.slotValue slot = .object q := (hq ▸ hchange t (t.slotValue slot)).eq_of_object
    exact hshuts.closed x q hx (Store.slotValue_object hslot hold)

end Accessor

end RowMapper
