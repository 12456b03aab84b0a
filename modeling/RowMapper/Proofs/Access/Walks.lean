/-
Walks along paths. A walk, and a walk that makes what is missing, go the same way through the objects
that are there (`Store.Way`). Behind the first object that is missing all is new: the walk goes on in
objects of its own (`Store.Beyond`), and of the objects that were there only the one it is missing from
changes, at the property that held null.
-/
import RowMapper.Proofs.Access.Paths
import RowMapper.Proofs.Statement.Binding

namespace RowMapper

/-! ## Putting values into objects -/

namespace ObjectData

/-- The object with a value put at a property as it is. A document has no place for one. -/
def put (d : ObjectData) (property : String) (v : Value) : ObjectData :=
  match d with
  | .map entries => .map (Table.put property v entries)
  | .bean type fields =>
    match Table.indexOf? property type.properties with
    | some i => .bean type (fields.set i v)
    | none => .bean type fields
  | .dom node => .dom node

/-- A bean has one field for every property of its type. -/
def Whole : ObjectData → Prop
  | .bean type fields => fields.length = type.properties.length
  | _ => True

variable {d : ObjectData} {p q : String} {v w : Value}

@[simp] theorem kind_put : (d.put p v).kind = d.kind := by
  unfold put
  cases d with
  | bean type fields => dsimp only; split <;> rfl
  | _ => rfl

theorem eq_dom_of_put {node : DomNode} (h : d.put p v = .dom node) : d = .dom node := by
  unfold put at h
  cases d with
  | map entries => cases h
  | bean type fields =>
    dsimp only at h
    split at h <;> cases h
  | dom node => exact h

theorem mem_values_put (h : w ∈ (d.put p v).values) : w ∈ d.values ∨ w = v := by
  unfold put at h
  cases d with
  | map entries => exact (Table.mem_values_put h).symm
  | bean type fields =>
    dsimp only at h
    split at h
    · exact List.mem_or_eq_of_mem_set h
    · exact .inl h
  | dom node => exact .inl h

theorem slot?_put_of_ne (h : q ≠ p) : (d.put p v).slot? q = d.slot? q := by
  unfold put
  cases d with
  | map entries => rw [slot?_map, slot?_map, Table.get?_put_of_ne h]
  | bean type fields =>
    dsimp only
    split
    · next i hi => exact (Store.written_bean (v := v) hi fun _ => id).others q h
    · rfl
  | dom node => rfl

theorem slot?_put_self (h : d.slot? p = some w) : (d.put p v).slot? p = some v := by
  unfold put
  cases d with
  | map entries =>
    rw [slot?_map, Table.get?_put_self]
    rfl
  | bean type fields =>
    obtain ⟨i, hi, hw⟩ := Option.bind_eq_some_iff.1 h
    dsimp only
    rw [hi]
    dsimp only
    rw [slot?_bean, hi]
    exact List.getElem?_set_self (List.getElem?_eq_some_iff.1 hw).1
  | dom node => cases h

/-- What has nothing in it but a place for every property, as new objects are. -/
structure Blank (d : ObjectData) : Prop where
  null : ∀ v ∈ d.values, v = .null
  childless : ∀ node, d = .dom node → node.children = []
  whole : d.Whole

theorem Blank.of_newData? {type : DataType} (h : type.newData? = some d) : d.Blank := by
  unfold DataType.newData? at h
  split at h <;> cases h
  · exact ⟨nofun, nofun, trivial⟩
  · exact ⟨nofun, nofun, trivial⟩
  · exact ⟨fun v hv => List.eq_of_mem_replicate hv, nofun, List.length_replicate⟩
  · refine ⟨nofun, fun node hnode => ?_, trivial⟩
    cases hnode
    rfl

end ObjectData

namespace Store

variable {s t u : Store} {r x y c : ObjectRef} {p : String} {v : Value} {declared : DataType}
  {steps left : List String} {outcome : Except Error (ObjectRef × List String)}

/-- Writing a property of a map or a bean puts the value there, as one of the type that it takes. -/
theorem setProperty_eq (hdom : s.kind x ≠ .dom) (htype : s.setterType x p = .ok declared) (v : Value) :
    s.setProperty x p v = (declared.cast v).map fun w => s.setData x ((s.data x).put p w) := by
  unfold kind at hdom
  unfold setterType at htype
  unfold setProperty ObjectData.put
  cases hd : s.data x with
  | map entries =>
    rw [hd] at htype
    cases htype
    rw [DataType.cast_object]
    rfl
  | bean type fields =>
    rw [hd] at htype
    cases hg : type.propertyType? p with
    | none =>
      simp only [hg] at htype
      cases htype
    | some property =>
      simp only [hg] at htype
      cases htype
      obtain ⟨i, hi⟩ := Table.exists_indexOf?_of_get? hg
      simp only [fieldIndex, hi, hg, Option.getD_some]
      cases declared.cast v <;> rfl
  | dom node =>
    rw [hd] at hdom
    exact absurd rfl hdom

/-- Only a property that takes a type is written. -/
theorem setterType_of_setProperty (h : s.setProperty x p v = .ok t) :
    ∃ declared, s.setterType x p = .ok declared := by
  unfold setProperty at h
  unfold setterType
  cases hd : s.data x with
  | map entries => exact ⟨.object, rfl⟩
  | bean type fields =>
    rw [hd] at h
    obtain ⟨i, hi, -⟩ := Except.bind_eq_ok_iff.1 h
    obtain ⟨declared, hdeclared⟩ := Table.exists_of_indexOf? (fieldIndex_eq_ok.1 hi)
    exact ⟨declared, by simp only [BeanType.propertyType?, hdeclared]⟩
  | dom node => exact ⟨.object, rfl⟩

/-! ## The way along existing objects -/

/-- What is read from a property is an object exactly when a path goes on there. -/
theorem getProperty_eq_object : s.getProperty x p = .ok (.object c) ↔ s.child? x p = some c := by
  rw [child?_eq_some]
  refine ⟨fun h => ?_, getProperty_of_slot⟩
  unfold getProperty at h
  cases hd : s.data x with
  | map entries =>
    rw [hd] at h
    exact congrArg some (Except.ok.inj h)
  | bean type fields =>
    rw [hd] at h
    obtain ⟨i, hi, hv⟩ := Except.bind_eq_ok_iff.1 h
    rw [ObjectData.slot?_bean, fieldIndex_eq_ok.1 hi, Option.bind_some]
    cases hf : fields[i]? with
    | none =>
      rw [hf] at hv
      cases hv
    | some w =>
      rw [hf] at hv
      exact congrArg some (Except.ok.inj hv)
  | dom node =>
    rw [hd] at h
    dsimp only at h
    split at h <;> cases h

/-- No path goes on from a document. -/
theorem kind_ne_dom_of_child? (h : s.child? x p = some c) : s.kind x ≠ .dom := by
  intro hdom
  unfold kind at hdom
  rw [child?_eq_some] at h
  cases hd : s.data x with
  | dom node =>
    rw [hd] at h
    cases h
  | map | bean =>
    rw [hd] at hdom
    cases hdom

theorem walk_step (next : String) (rest : List String) (hdom : s.kind r ≠ .dom) :
    s.getProperty r p = .ok v → s.walk r (p :: next :: rest) =
      match v with
      | .object child => s.walk child (next :: rest)
      | .null => .ok none
      | v => .error (.configuration (.blockedPath (Text.path (next :: rest)) p v.variant)) := by
  intro hget
  conv_lhs => unfold walk
  rw [if_neg hdom, hget]
  rfl

theorem run_walkMaking_step (next : String) (rest : List String) (hdom : s.kind r ≠ .dom) :
    s.getProperty r p = .ok v → (walkMaking r (p :: next :: rest)).run s =
      (match v with
        | .object child => walkMaking child (next :: rest)
        | .null => makeChild r p >>= fun child => walkMaking child (next :: rest)
        | v => throw (.configuration (.blockedPath (Text.path (next :: rest)) p v.variant)) :
          Edit (ObjectRef × List String)).run s := by
  intro hget
  have hread : (Edit.read (·.getProperty r p)).run s = (.ok v, s) := by
    rw [← hget]
    rfl
  conv_lhs => unfold walkMaking
  rw [run_bind_ok (x := Edit.store) rfl, if_neg hdom]
  exact run_bind_ok hread

theorem lt_of_child? (h : s.child? x p = some c) : x.index < s.objects.size := by
  by_contra hlt
  rw [child?_eq_some, data_of_size_le (Nat.not_lt.1 hlt)] at h
  cases h

/-- No step is lost when a value is put where null was read. -/
theorem child?_of_put (hnull : (s.data x).slot? p = some .null) (hdata : t.data x = (s.data x).put p w)
    (hothers : ∀ z, z.index < s.objects.size → z ≠ x → t.data z = s.data z)
    (hc : s.child? y q = some c) : t.child? y q = some c := by
  by_cases hyx : y = x
  · subst hyx
    have hqp : q ≠ p := by
      rintro rfl
      rw [child?_eq_some, hnull] at hc
      cases hc
    unfold child?
    rw [hdata, ObjectData.slot?_put_of_ne hqp]
    exact hc
  · unfold child?
    rw [hothers y (lt_of_child? hc) hyx]
    exact hc

/-- Paths lead where they led when no step of them is lost. -/
theorem reach?_mono (h : ∀ {y q z}, s.child? y q = some z → t.child? y q = some z) {a : List String}
    (hx : s.reach? r a = some x) : t.reach? r a = some x := by
  induction a generalizing r with
  | nil => exact hx
  | cons q a ih =>
    rw [reach?_cons] at hx ⊢
    obtain ⟨z, hz, hx⟩ := Option.bind_eq_some_iff.1 hx
    rw [h hz]
    exact ih hx

theorem walk_reach {a : List String} (h : s.reach? r a = some x) (hleft : left ≠ []) :
    s.walk r (a ++ left) = s.walk x left := by
  induction a generalizing r with
  | nil =>
    cases h
    rfl
  | cons q a ih =>
    rw [reach?_cons] at h
    obtain ⟨z, hz, h⟩ := Option.bind_eq_some_iff.1 h
    obtain ⟨next, rest, hrest⟩ : ∃ next rest, a ++ left = next :: rest :=
      List.exists_cons_of_ne_nil (by simp [hleft])
    rw [List.cons_append, hrest, walk_step next rest (kind_ne_dom_of_child? hz) (getProperty_eq_object.2 hz)]
    exact hrest ▸ ih h

/-- Where the way along some steps ends: at the last of them, or at a document, which takes what is left
of them itself. -/
def Owns (s : Store) (x : ObjectRef) (left : List String) : Prop :=
  (∃ last, left = [last]) ∨ s.kind x = .dom ∧ left ≠ []

theorem Owns.ne_nil (h : s.Owns x left) : left ≠ [] := by
  rcases h with ⟨last, rfl⟩ | ⟨-, h⟩
  · exact List.cons_ne_nil _ _
  · exact h

theorem Owns.walk (h : s.Owns x left) : s.walk x left = .ok (some (x, left)) := by
  unfold Store.walk
  split
  · rcases h with ⟨last, h⟩ | ⟨hdom, -⟩
    · cases h
    · rw [if_pos hdom]
  · rfl

/-- The way that both walks go along some steps: to the owner of the last of them, to a property that
lets neither of them pass, or to one that holds null, which ends the one and has the other make the
object that is missing. -/
inductive Way (s : Store) (r : ObjectRef) (steps : List String) : Prop where
  | owned {a left : List String} {x : ObjectRef} (split : steps = a ++ left)
      (reach : s.reach? r a = some x) (owns : s.Owns x left)
      (walk : s.walk r steps = .ok (some (x, left)))
      (making : (walkMaking r steps).run s = (.ok (x, left), s))
  | blocked {e : Error} (walk : s.walk r steps = .error e)
      (making : (walkMaking r steps).run s = (.error e, s))
  | missing {a : List String} {p next : String} {rest : List String} {x : ObjectRef}
      (split : steps = a ++ p :: next :: rest) (reach : s.reach? r a = some x)
      (kind : s.kind x ≠ .dom) (null : s.getProperty x p = .ok .null)
      (walk : s.walk r steps = .ok none)
      (making : (walkMaking r steps).run s =
        (makeChild x p >>= fun child => walkMaking child (next :: rest)).run s)

/-- The way of a child is the way of its parent. -/
theorem Way.cons {next : String} {rest : List String} (hchild : s.child? r p = some c)
    (hwalk : s.walk r (p :: next :: rest) = s.walk c (next :: rest))
    (hmaking : (walkMaking r (p :: next :: rest)).run s = (walkMaking c (next :: rest)).run s)
    (h : s.Way c (next :: rest)) : s.Way r (p :: next :: rest) := by
  have hreach : ∀ {a y}, s.reach? c a = some y → s.reach? r (p :: a) = some y := by
    intro a y hy
    rw [reach?_cons, hchild]
    exact hy
  cases h with
  | owned split reach owns walk making =>
    exact .owned (congrArg (p :: ·) split) (hreach reach) owns (hwalk.trans walk) (hmaking.trans making)
  | blocked walk making => exact .blocked (hwalk.trans walk) (hmaking.trans making)
  | missing split reach kind null walk making =>
    exact .missing (congrArg (p :: ·) split) (hreach reach) kind null (hwalk.trans walk)
      (hmaking.trans making)

theorem way (s : Store) (r : ObjectRef) : ∀ {steps : List String}, steps ≠ [] → s.Way r steps
  | [], hne => absurd rfl hne
  | [last], _ => .owned (a := []) rfl rfl (.inl ⟨last, rfl⟩) rfl rfl
  | p :: next :: rest, _ => by
    by_cases hdom : s.kind r = .dom
    · have howns : s.Owns r (p :: next :: rest) := .inr ⟨hdom, List.cons_ne_nil _ _⟩
      refine .owned (a := []) rfl rfl howns howns.walk ?_
      unfold walkMaking
      rw [run_bind_ok (x := Edit.store) rfl, if_pos hdom]
      rfl
    cases hget : s.getProperty r p with
    | error e =>
      refine .blocked (e := e) ?_ ?_
      · unfold walk
        rw [if_neg hdom, hget]
        rfl
      · have hread : (Edit.read (·.getProperty r p)).run s = (.error e, s) := by
          rw [← hget]
          rfl
        unfold walkMaking
        rw [run_bind_ok (x := Edit.store) rfl, if_neg hdom]
        exact run_bind_error hread
    | ok v =>
      have hwalk := walk_step next rest hdom hget
      have hmaking := run_walkMaking_step next rest hdom hget
      cases v with
      | object child =>
        exact .cons (getProperty_eq_object.1 hget) hwalk hmaking (way s child (List.cons_ne_nil _ _))
      | null => exact .missing (a := []) rfl rfl hdom hget hwalk hmaking
      | _ => exact .blocked hwalk hmaking

/-! ## Making what is missing -/

/-- What is made where an object is missing: nothing, a new object with nothing in it, or an empty
collection, which lets no path go on. -/
inductive Making (s : Store) (x : ObjectRef) (p : String) : Except Error ObjectRef → Store → Prop where
  | refused (e : Error) : Making s x p (.error e) s
  | made (d : ObjectData) (blank : d.Blank) : Making s x p (.ok (s.newObject d).1)
      ((s.newObject d).2.setData x ((s.data x).put p (.object (s.newObject d).1)))
  | collection (v : Value) (empty : v.elements? = some []) (e : Error) :
      Making s x p (.error e) (s.setData x ((s.data x).put p v))

/-- Instantiating a type fails, makes a new object, or gives an empty collection. -/
theorem instantiate_cases (type : DataType) (s : Store) :
    (∃ e, type.instantiate s = .error e) ∨
    (∃ d, type.newData? = some d ∧
      type.instantiate s = .ok (.object (s.newObject d).1, (s.newObject d).2)) ∨
    ∃ v, type.emptyCollection? = some v ∧ type.instantiate s = .ok (v, s) := by
  unfold DataType.instantiate
  cases hd : type.newData? with
  | some d => exact .inr (.inl ⟨d, rfl, rfl⟩)
  | none =>
    cases hv : type.emptyCollection? with
    | some v => exact .inr (.inr ⟨v, rfl, rfl⟩)
    | none => exact .inl ⟨_, rfl⟩

theorem elements?_of_emptyCollection? {type : DataType} (h : type.emptyCollection? = some v) :
    v.elements? = some [] := by
  unfold DataType.emptyCollection? at h
  split at h <;> cases h <;> rfl

/-- The type of what is made for a property: a map where any value may stand. -/
def madeType : DataType → DataType
  | .object => .map
  | type => type

/-- What is made for a property is put there as it is. -/
theorem cast_of_madeType
    (h : (madeType declared).newData?.isSome = true ∨ (madeType declared).emptyCollection?.isSome = true)
    (v : Value) : declared.cast v = .ok v := by
  refine DataType.cast_of_isScalar ?_ v
  cases declared <;> first | rfl | simp [madeType, DataType.newData?, DataType.emptyCollection?] at h

/-- What is made for an object does not change what it reads as, also where it is none of the store,
which reads as the map that is made. -/
theorem data_newObject_of_setterType {d : ObjectData} (htype : s.setterType x p = .ok declared)
    (hd : (madeType declared).newData? = some d) : (s.newObject d).2.data x = s.data x := by
  by_cases hx : x.index = s.objects.size
  · have hmap := data_of_size_le (Nat.le_of_eq hx.symm)
    have hself : x = (s.newObject d).1 := congrArg ObjectRef.mk hx
    simp only [setterType, hmap] at htype
    cases htype
    cases hd
    rw [hmap, hself, data_newObject_self]
  · exact data_newObject_of_ne hx

theorem run_makeChild (htype : s.setterType x p = .ok declared) :
    (makeChild x p).run s = (do
      let child ← Edit.make (madeType declared).instantiate
      Edit.change (·.setProperty x p child)
      Edit.ofExcept (objectAt child p) : Edit ObjectRef).run s := by
  have hread : (Edit.read (·.setterType x p)).run s = (.ok declared, s) := by
    rw [← htype]
    rfl
  rw [makeChild, run_bind_ok hread]
  rfl

/-- Where a type of objects is declared a new object is made, and the property refers to it. -/
theorem run_makeChild_object {d : ObjectData} (hdom : s.kind x ≠ .dom)
    (htype : s.setterType x p = .ok declared) (hd : (madeType declared).newData? = some d) :
    (makeChild x p).run s = (.ok (s.newObject d).1,
      (s.newObject d).2.setData x ((s.data x).put p (.object (s.newObject d).1))) := by
  have hmake : (madeType declared).instantiate s =
      .ok (.object (s.newObject d).1, (s.newObject d).2) := by
    unfold DataType.instantiate
    rw [hd]
  have hsame := data_newObject_of_setterType htype hd
  have hset : (s.newObject d).2.setProperty x p (.object (s.newObject d).1) =
      .ok ((s.newObject d).2.setData x ((s.data x).put p (.object (s.newObject d).1))) := by
    rw [← hsame, setProperty_eq, cast_of_madeType (.inl (Option.isSome_of_eq_some hd))]
    · rfl
    · unfold kind at hdom ⊢
      rwa [hsame]
    · unfold setterType at htype ⊢
      rwa [hsame]
  rw [run_makeChild htype, run_bind_ok (run_make_ok hmake), run_bind_ok (run_change_ok hset)]
  rfl

theorem makeChild_making (hdom : s.kind x ≠ .dom) (p : String) :
    Making s x p ((makeChild x p).run s).1 ((makeChild x p).run s).2 := by
  cases htype : s.setterType x p with
  | error e =>
    have hread : (Edit.read (·.setterType x p)).run s = (.error e, s) := by
      rw [← htype]
      rfl
    rw [makeChild, run_bind_error hread]
    exact .refused e
  | ok declared =>
    rcases instantiate_cases (madeType declared) s with ⟨e, hmake⟩ | ⟨d, hd, -⟩ | ⟨v, hv, hmake⟩
    · rw [run_makeChild htype, run_bind_error (run_make_error hmake)]
      exact .refused e
    · rw [run_makeChild_object hdom htype hd]
      exact .made d (.of_newData? hd)
    · have hset : s.setProperty x p v = .ok (s.setData x ((s.data x).put p v)) := by
        rw [setProperty_eq hdom htype, cast_of_madeType (.inr (Option.isSome_of_eq_some hv))]
        rfl
      have hempty := elements?_of_emptyCollection? hv
      obtain ⟨e, he⟩ : ∃ e, objectAt v p = .error e := by
        cases v <;> first | exact ⟨_, rfl⟩ | cases hempty
      rw [run_makeChild htype, run_bind_ok (run_make_ok hmake), run_bind_ok (run_change_ok hset), he]
      exact .collection v hempty e

end Store

/-! ## Going on in new objects -/

/-- A value as objects have that are made on the way: null, an empty collection, or an object from a
number on. -/
def Value.New (n : Nat) (v : Value) : Prop :=
  v = .null ∨ v.elements? = some [] ∨ ∃ c, v = .object c ∧ n ≤ c.index

/-- An object that is made on the way: it holds new values, and no content if it is a document. -/
structure ObjectData.Fresh (n : Nat) (d : ObjectData) : Prop where
  values : ∀ v ∈ d.values, v.New n
  childless : ∀ node, d = .dom node → node.children = []

namespace Store

variable {s t u : Store} {r x y c : ObjectRef} {p : String} {n : Nat}

/-- The objects from a number on are as they are made on the way. -/
def FreshFrom (s : Store) (n : Nat) : Prop := ∀ x, n ≤ x.index → (s.data x).Fresh n

/-- From one store to the next nothing changed but objects from a number on, which are as they are made on
the way. -/
structure Beyond (n : Nat) (s t : Store) : Prop where
  old : ∀ y, y.index < n → t.data y = s.data y
  fresh : t.FreshFrom n
  size : s.objects.size ≤ t.objects.size
  lazies : t.lazies = s.lazies

theorem Beyond.refl (h : s.FreshFrom n) : Beyond n s s := ⟨fun _ _ => rfl, h, Nat.le_refl _, rfl⟩

theorem Beyond.trans (h : Beyond n s t) (h' : Beyond n t u) : Beyond n s u :=
  ⟨fun y hy => (h'.old y hy).trans (h.old y hy), h'.fresh, Nat.le_trans h.size h'.size,
    h'.lazies.trans h.lazies⟩

/-- No object is there from the size of a store on. -/
theorem freshFrom_size (s : Store) : s.FreshFrom s.objects.size := by
  intro x hx
  rw [data_of_size_le hx]
  exact ⟨nofun, nofun⟩

/-- Behind a change an object is what it was, or it is the one that was changed. -/
theorem data_setData_cases (s : Store) (x y : ObjectRef) (d : ObjectData) :
    (s.setData x d).data y = s.data y ∨ y = x ∧ (s.setData x d).data y = d := by
  by_cases hyx : y = x
  · subst hyx
    by_cases hlt : y.index < s.objects.size
    · exact .inr ⟨rfl, data_setData_self hlt⟩
    · rw [setData_of_size_le (Nat.not_lt.1 hlt)]
      exact .inl rfl
  · exact .inl (data_setData_of_ne hyx)

theorem Beyond.newObject {d : ObjectData} (h : s.FreshFrom n) (hn : n ≤ s.objects.size) (hd : d.Blank) :
    Beyond n s (s.newObject d).2 := by
  refine ⟨fun y hy => data_newObject_of_ne (Nat.ne_of_lt (Nat.lt_of_lt_of_le hy hn)), fun y hy => ?_,
    by simp, rfl⟩
  by_cases hself : y.index = s.objects.size
  · have hself : y = (s.newObject d).1 := congrArg ObjectRef.mk hself
    rw [hself, data_newObject_self]
    exact ⟨fun v hv => .inl (hd.null v hv), hd.childless⟩
  · rw [data_newObject_of_ne hself]
    exact h y hy

theorem Beyond.put {v : Value} (h : s.FreshFrom n) (hx : n ≤ x.index) (hv : v.New n) {d : ObjectData}
    (hd : d.Fresh n) : Beyond n s (s.setData x (d.put p v)) := by
  refine ⟨fun y hy => data_setData_of_ne ?_, fun y hy => ?_, by simp, rfl⟩
  · rintro rfl
    exact absurd hx (Nat.not_le.2 hy)
  · rcases data_setData_cases s x y (d.put p v) with he | ⟨-, he⟩ <;> rw [he]
    · exact h y hy
    · refine ⟨fun w hw => ?_, fun node hnode => hd.childless node (ObjectData.eq_dom_of_put hnode)⟩
      rcases ObjectData.mem_values_put hw with hw | rfl
      · exact hd.values w hw
      · exact hv

/-- What is made for an object beyond a number is beyond it. -/
theorem Making.beyond {outcome : Except Error ObjectRef} (h : Making s x p outcome t)
    (hfresh : s.FreshFrom n) (hn : n ≤ s.objects.size) (hx : n ≤ x.index) :
    Beyond n s t ∧ ∀ c, outcome = .ok c → n ≤ c.index := by
  cases h with
  | refused e => exact ⟨.refl hfresh, nofun⟩
  | made d blank =>
    have hnew := Beyond.newObject hfresh hn blank
    refine ⟨hnew.trans (.put hnew.fresh hx (.inr (.inr ⟨_, rfl, hn⟩)) (hfresh x hx)), fun c hc => ?_⟩
    cases hc
    exact hn
  | collection v empty e => exact ⟨.put hfresh hx (.inr (.inl empty)) (hfresh x hx), nofun⟩

/-- Paths beyond a number stay there. -/
theorem FreshFrom.reach? (h : s.FreshFrom n) (hr : n ≤ r.index) {a : List String}
    (hx : s.reach? r a = some x) : n ≤ x.index := by
  induction a generalizing r with
  | nil =>
    cases hx
    exact hr
  | cons p a ih =>
    rw [reach?_cons] at hx
    obtain ⟨c, hc, hx⟩ := Option.bind_eq_some_iff.1 hx
    refine ih ?_ hx
    rcases (h r hr).values _ (getProperty_object (getProperty_eq_object.2 hc)) with hnull | hempty | ⟨d, hd, hn⟩
    · cases hnull
    · cases hempty
    · cases hd
      exact hn

/-- Making what is missing beyond a number changes nothing else, whether it fails or not. -/
theorem walkMaking_beyond : ∀ (steps : List String) {s : Store} {r : ObjectRef}, s.FreshFrom n →
    n ≤ s.objects.size → n ≤ r.index →
      Beyond n s ((walkMaking r steps).run s).2 ∧
        ∀ y left, ((walkMaking r steps).run s).1 = .ok (y, left) → n ≤ y.index
  | [], s, r, hfresh, _, hr => ⟨.refl hfresh, fun _ _ h => by cases h; exact hr⟩
  | step :: steps, s, r, hfresh, hn, hr => by
    cases way s r (List.cons_ne_nil step steps) with
    | owned _ reach _ _ making =>
      rw [making]
      refine ⟨.refl hfresh, fun y left h => ?_⟩
      cases h
      exact hfresh.reach? hr reach
    | blocked _ making =>
      rw [making]
      exact ⟨.refl hfresh, nofun⟩
    | @missing a p next rest x split reach kind _ _ making =>
      have hx := hfresh.reach? hr reach
      have hmaking := makeChild_making kind p
      rw [making]
      rcases hrun : (makeChild x p).run s with ⟨_ | child, t⟩ <;> rw [hrun] at hmaking <;>
        obtain ⟨ht, hchild⟩ := hmaking.beyond hfresh hn hx
      · rw [run_bind_error hrun]
        exact ⟨ht, nofun⟩
      · rw [run_bind_ok hrun]
        have hshort : rest.length + 1 < steps.length + 1 := by
          have := congrArg List.length split
          simp at this
          omega
        obtain ⟨hu, howner⟩ := walkMaking_beyond (next :: rest) ht.fresh
          (Nat.le_trans hn ht.size) (hchild child rfl)
        exact ⟨ht.trans hu, howner⟩
termination_by steps => steps.length

/-! ## The object that something is missing from -/

/-- From one store to the next only one of the objects that were there changed, and all that are new are
as they are made on the way. -/
structure Alters (s t : Store) (x : ObjectRef) : Prop where
  others : ∀ y, y.index < s.objects.size → y ≠ x → t.data y = s.data y
  fresh : t.FreshFrom s.objects.size
  size : s.objects.size ≤ t.objects.size
  lazies : t.lazies = s.lazies

theorem Alters.beyond (h : s.Alters t x) (h' : Beyond s.objects.size t u) : s.Alters u x :=
  ⟨fun y hy hne => (h'.old y hy).trans (h.others y hy hne), h'.fresh, Nat.le_trans h.size h'.size,
    h'.lazies.trans h.lazies⟩

theorem FreshFrom.setData {d : ObjectData} (h : s.FreshFrom n) (hx : x.index < n) :
    (s.setData x d).FreshFrom n := by
  intro y hy
  have hne : y ≠ x := by
    rintro rfl
    exact absurd hx (Nat.not_lt.2 hy)
  rw [data_setData_of_ne hne]
  exact h y hy

/-- Making what is missing alters the object that it is missing from. -/
theorem Making.alters {outcome : Except Error ObjectRef} (h : Making s x p outcome t)
    (hx : x.index < s.objects.size) : s.Alters t x := by
  cases h with
  | refused e => exact ⟨fun _ _ _ => rfl, s.freshFrom_size, Nat.le_refl _, rfl⟩
  | made d blank =>
    have hnew := Beyond.newObject s.freshFrom_size (Nat.le_refl _) blank
    refine ⟨fun y hy hne => (data_setData_of_ne hne).trans (hnew.old y hy), hnew.fresh.setData hx,
      by simp, rfl⟩
  | collection v empty e =>
    exact ⟨fun y _ hne => data_setData_of_ne hne, s.freshFrom_size.setData hx, by simp, rfl⟩

/-- An object that is made for a property: a new one with nothing in it, which the property refers to. -/
structure Linked (s t : Store) (x : ObjectRef) (p : String) (c : ObjectRef) : Prop where
  new : s.objects.size ≤ c.index
  made : c.index < t.objects.size
  blank : (t.data c).Blank
  link : t.data x = (s.data x).put p (.object c)
  alters : s.Alters t x

theorem makeChild_linked (hdom : s.kind x ≠ .dom) (hx : x.index < s.objects.size)
    (hrun : (makeChild x p).run s = (.ok c, t)) : s.Linked t x p c := by
  have hmaking := makeChild_making hdom p
  rw [hrun] at hmaking
  dsimp only at hmaking
  have halters := hmaking.alters hx
  cases hmaking with
  | made d blank =>
    have hcx : (s.newObject d).1 ≠ x := by
      rintro rfl
      exact absurd hx (Nat.lt_irrefl _)
    refine ⟨Nat.le_refl _, ?_, ?_, ?_, halters⟩
    · rw [size_setData, size_newObject]
      exact Nat.lt_succ_self _
    · rw [data_setData_of_ne hcx, data_newObject_self]
      exact blank
    · exact data_setData_self (by simp; omega)

end Store

end RowMapper
