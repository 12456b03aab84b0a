/-
Objects that are written at paths. The objects that a new bean gets on the way to its properties are
made for it, each at one path (`Store.Branches`), so that what is written at a path is read there again
behind writes at any paths that do not go on from it or lead to it.
-/
import RowMapper.Proofs.Engine.Filled
import RowMapper.Mapping.ResultMapping

namespace RowMapper

namespace Table

/-- A key with a position has a value. -/
theorem exists_of_indexOf? {κ α : Type} [BEq κ] [LawfulBEq κ] {key : κ} {table : List (κ × α)} {i : Nat}
    (h : indexOf? key table = some i) : ∃ a, get? key table = some a := by
  obtain ⟨hlt, hkey, -⟩ := List.findIdx?_eq_some_iff_getElem.1 h
  rw [beq_iff_eq] at hkey
  refine Option.ne_none_iff_exists'.1 fun hnone => get?_eq_none_iff.1 hnone ?_
  exact List.mem_map.2 ⟨_, List.getElem_mem hlt, hkey⟩

/-- A key with a value has a position. -/
theorem exists_indexOf?_of_get? {α : Type} {key : String} {a : α} {table : List (String × α)}
    (h : get? key table = some a) : ∃ i, indexOf? key table = some i := by
  unfold indexOf?
  refine Option.isSome_iff_exists.1 (List.findIdx?_isSome.trans ?_)
  exact List.any_eq_true.2 ⟨_, mem_of_get? h, beq_self_eq_true key⟩

theorem lt_of_indexOf? {κ α : Type} [BEq κ] {key : κ} {table : List (κ × α)} {i : Nat}
    (h : indexOf? key table = some i) : i < table.length :=
  (List.findIdx?_eq_some_iff_getElem.1 h).1

end Table

/-! ## Types along paths -/

namespace DataType

theorem atSteps_append (type : DataType) (steps more : List String) :
    type.atSteps (steps ++ more) = (type.atSteps steps).bind fun type => type.atSteps more := by
  induction steps generalizing type with
  | nil => cases type <;> rfl
  | cons step steps ih =>
    cases type with
    | bean name properties =>
      cases h : Table.get? step properties with
      | none => simp only [List.cons_append, atSteps, h, Except.bind]
      | some declared => simpa only [List.cons_append, atSteps, h] using ih declared
    | _ => exact ih .object

/-- An object is stored as it is. -/
theorem eq_of_cast_object {type : DataType} {r : ObjectRef} {w : Value}
    (h : type.cast (.object r) = .ok w) : w = .object r := by
  cases type <;> cases h <;> rfl

/-- The type of a property of what is no bean. -/
theorem atSteps_single {type : DataType} (h : type.isBean = false) (step : String) :
    type.atSteps [step] = .ok .object := by
  cases type <;> first | rfl | cases h

end DataType

/-- An object of the kind that is made where a type is declared: a bean of that type, or a map. -/
def ObjectData.Of (d : ObjectData) (declared : DataType) : Prop :=
  match d with
  | .map _ => declared.isBean = false
  | .bean type fields => declared = type.type ∧ fields.length = type.properties.length
  | .dom _ => False

namespace ObjectData.Of

variable {d : ObjectData} {declared : DataType}

theorem kind_ne_dom (h : d.Of declared) : d.kind ≠ .dom := by
  cases d with
  | dom node => exact h.elim
  | _ => exact nofun

theorem newBean (type : BeanType) : (ObjectData.newBean type).Of type.type :=
  ⟨rfl, List.length_replicate⟩

theorem kind_eq_bean {type : BeanType} (h : d.Of type.type) : d.kind = .bean := by
  cases d with
  | bean => rfl
  | map entries => cases h
  | dom node => exact h.elim

end ObjectData.Of

namespace Store

variable {s t : Store} {r x : ObjectRef} {p : String} {v : Value} {declared : DataType} {d : ObjectData}

theorem fieldIndex_eq_ok {type : BeanType} {i : Nat} :
    fieldIndex type p = .ok i ↔ Table.indexOf? p type.properties = some i := by
  unfold fieldIndex
  cases Table.indexOf? p type.properties <;> simp

/-- The type that a property takes is the one that its path leads to. -/
theorem setterType_of (h : (s.data x).Of declared) (p : String) :
    s.setterType x p = declared.atSteps [p] := by
  unfold setterType
  cases hd : s.data x with
  | map entries =>
    rw [hd] at h
    exact (DataType.atSteps_single h p).symm
  | bean type fields =>
    rw [hd] at h
    obtain ⟨rfl, -⟩ := h
    cases hg : Table.get? p type.properties <;>
      simp only [BeanType.type, BeanType.propertyType?, DataType.atSteps, hg]
  | dom node =>
    rw [hd] at h
    exact h.elim

/-- What is in a slot of an object is read from there. -/
theorem getProperty_of_slot (h : (s.data x).slot? p = some v) : s.getProperty x p = .ok v := by
  unfold getProperty
  cases hd : s.data x with
  | map entries =>
    rw [hd, ObjectData.slot?_map, Option.some.injEq] at h
    exact congrArg Except.ok h
  | bean type fields =>
    rw [hd, ObjectData.slot?_bean] at h
    obtain ⟨i, hi, hv⟩ := Option.bind_eq_some_iff.1 h
    simp [fieldIndex, hi, hv, bind, Except.bind]
  | dom node =>
    rw [hd] at h
    cases h

/-- What is read from an object that is no document is in a slot of it. -/
theorem slot_of_getProperty (h : (s.data x).Of declared) (hget : s.getProperty x p = .ok v) :
    (s.data x).slot? p = some v := by
  unfold getProperty at hget
  cases hd : s.data x with
  | map entries =>
    rw [hd] at hget
    exact congrArg some (Except.ok.inj hget)
  | bean type fields =>
    rw [hd] at h hget
    obtain ⟨i, hi, hv⟩ := Except.bind_eq_ok_iff.1 hget
    replace hi := fieldIndex_eq_ok.1 hi
    have hlt : i < fields.length := h.2 ▸ Table.lt_of_indexOf? hi
    rw [ObjectData.slot?_bean, hi, Option.bind_some, List.getElem?_eq_getElem hlt]
    rw [List.getElem?_eq_getElem hlt, Option.getD_some] at hv
    exact congrArg some (Except.ok.inj hv)
  | dom node =>
    rw [hd] at h
    exact h.elim

/-- What is written at a property of an object that is no document is in its slot, cast to the type
that is declared there. -/
theorem setProperty_of (h : (s.data x).Of declared) (hset : s.setProperty x p v = .ok t) :
    ∃ d type w, t = s.setData x d ∧ (s.data x).Written p v d ∧ d.Of declared ∧
      declared.atSteps [p] = .ok type ∧ type.cast v = .ok w ∧ d.slot? p = some w := by
  unfold setProperty at hset
  cases hd : s.data x with
  | map entries =>
    rw [hd] at h hset
    cases hset
    refine ⟨_, .object, v, rfl, written_map, h, DataType.atSteps_single h p, DataType.cast_object v, ?_⟩
    rw [ObjectData.slot?_map, Table.get?_put_self]
    rfl
  | bean type fields =>
    rw [hd] at h hset
    obtain ⟨rfl, hlen⟩ := h
    obtain ⟨i, hi, hset⟩ := Except.bind_eq_ok_iff.1 hset
    obtain ⟨w, hw, hset⟩ := Except.bind_eq_ok_iff.1 hset
    cases hset
    replace hi := fieldIndex_eq_ok.1 hi
    obtain ⟨declared, hdeclared⟩ := Table.exists_of_indexOf? hi
    have hlt : i < fields.length := hlen ▸ Table.lt_of_indexOf? hi
    unfold BeanType.propertyType? at hw
    rw [hdeclared, Option.getD_some] at hw
    refine ⟨_, declared, w, rfl, written_bean hi fun r hr => ?_, ⟨rfl, ?_⟩, ?_, hw, ?_⟩
    · rcases DataType.cast_eq_or_plain hw with rfl | hplain
      · exact hr
      · exact absurd hr (hplain.ne_object r)
    · rw [List.length_set, hlen]
    · simp only [BeanType.type, DataType.atSteps, hdeclared]
    · rw [ObjectData.slot?_bean, hi]
      exact List.getElem?_set_self hlt
  | dom node =>
    rw [hd] at h
    exact h.elim

/-- An object that is made as a value of a type is a new one with nothing in it. -/
theorem run_instantiate_object {type : DataType} {child : ObjectRef}
    (h : (Edit.make type.instantiate).run s = (.ok (.object child), t)) :
    ∃ data, type.newData? = some data ∧ child = (s.newObject data).1 ∧ t = (s.newObject data).2 := by
  cases hd : type.newData? with
  | some data =>
    rw [run_make_ok (f := type.instantiate) (by unfold DataType.instantiate; rw [hd])] at h
    cases h
    exact ⟨data, rfl, rfl, rfl⟩
  | none =>
    cases he : type.emptyCollection? with
    | some v =>
      rw [run_make_ok (f := type.instantiate) (by unfold DataType.instantiate; rw [hd, he])] at h
      unfold DataType.emptyCollection? at he
      split at he <;> cases he <;> cases h
    | none =>
      rw [run_make_error (f := type.instantiate) (by unfold DataType.instantiate; rw [hd, he])] at h
      cases h

/-- A child that is made where a property is declared, unless it is a document, is a new object with
nothing in it, and the property refers to it. -/
theorem makeChild_eq_ok {child : ObjectRef} (h : (s.data x).Of declared)
    (hdom : declared.atSteps [p] ≠ .ok .dom) (hrun : (makeChild x p).run s = (.ok child, t)) :
    ∃ data, (∀ v ∈ data.values, v = .null) ∧ child = (s.newObject data).1 ∧
      (s.newObject data).2.setProperty x p (.object child) = .ok t ∧
      ∃ type, declared.atSteps [p] = .ok type ∧ data.Of type := by
  obtain ⟨type, u, hread, hrun⟩ := run_bind_eq_ok.1 hrun
  obtain ⟨htype, rfl⟩ := Prod.mk.inj hread
  replace htype := (setterType_of h p).symm.trans htype
  obtain ⟨v, u, hmake, hrun⟩ := run_bind_eq_ok.1 hrun
  obtain ⟨_, w, hset, hrun⟩ := run_bind_eq_ok.1 hrun
  obtain ⟨hobject, rfl⟩ := Prod.mk.inj hrun
  -- only objects let the walk go on
  have hv : v = .object child := by
    unfold objectAt at hobject
    split at hobject <;> cases hobject
    rfl
  subst hv
  have hset := run_change_eq_ok hset
  obtain ⟨data, hdata, rfl, rfl⟩ := run_instantiate_object hmake
  rw [htype] at hdom
  refine ⟨data, ?_, rfl, hset, type, htype, ?_⟩
  · unfold DataType.newData? at hdata
    split at hdata <;> cases hdata <;> simp [ObjectData.values, ObjectData.newBean]
  · cases type with
    | bean name properties =>
      cases hdata
      exact .newBean ⟨name, properties⟩
    | dom => exact absurd rfl hdom
    | object | map =>
      cases hdata
      rfl
    | _ => cases hdata

/-! ## Objects along paths -/

/-- The object that a property of an object holds. -/
def child? (s : Store) (r : ObjectRef) (step : String) : Option ObjectRef :=
  ((s.data r).slot? step).bind Value.object?

/-- The object behind a list of steps. -/
def reach? (s : Store) (r : ObjectRef) (steps : List String) : Option ObjectRef :=
  steps.foldlM s.child? r

@[simp] theorem reach?_nil (s : Store) (r : ObjectRef) : s.reach? r [] = some r := rfl

theorem reach?_cons (s : Store) (r : ObjectRef) (step : String) (steps : List String) :
    s.reach? r (step :: steps) = (s.child? r step).bind (s.reach? · steps) := List.foldlM_cons ..

theorem reach?_concat (s : Store) (r : ObjectRef) (steps : List String) (step : String) :
    s.reach? r (steps ++ [step]) = (s.reach? r steps).bind (s.child? · step) := by
  unfold reach?
  rw [List.foldlM_append]
  refine congrArg (Option.bind _) (funext fun y => ?_)
  simp

theorem reach?_append (s : Store) (r : ObjectRef) (steps more : List String) :
    s.reach? r (steps ++ more) = (s.reach? r steps).bind (s.reach? · more) := List.foldlM_append ..

theorem child?_eq_some {child : ObjectRef} :
    s.child? x p = some child ↔ (s.data x).slot? p = some (.object child) := by
  unfold child?
  rw [Option.bind_eq_some_iff]
  refine ⟨fun ⟨v, hv, hchild⟩ => ?_, fun h => ⟨_, h, rfl⟩⟩
  cases v <;> cases hchild
  exact hv

/-- No path leads on from an object with nothing in it. -/
theorem reach?_of_blank (h : ∀ v ∈ (s.data x).values, v = .null) (steps : List String) :
    s.reach? x (p :: steps) = none := by
  rw [reach?_cons]
  cases hc : s.child? x p with
  | none => rfl
  | some child =>
    have hmem : .object child ∈ (s.data x).values := by
      rw [child?_eq_some] at hc
      cases hd : s.data x with
      | map entries =>
        rw [hd, ObjectData.slot?_map, Option.some.injEq] at hc
        cases hg : Table.get? p entries with
        | none => simp [hg] at hc
        | some v =>
          rw [hg, Option.getD_some] at hc
          exact hc ▸ Table.mem_values_of_get? hg
      | bean type fields =>
        rw [hd, ObjectData.slot?_bean] at hc
        obtain ⟨i, -, hi⟩ := Option.bind_eq_some_iff.1 hc
        exact List.mem_of_getElem? hi
      | dom node =>
        rw [hd] at hc
        cases hc
    cases h _ hmem

/-- The value at a path: the objects up to its last step are there, and the last of them holds it. -/
def At (s : Store) (root : ObjectRef) (path : List String) (v : Value) : Prop :=
  ∃ steps last x, path = steps ++ [last] ∧ s.reach? root steps = some x ∧
    (s.data x).slot? last = some v

theorem walk_of_reach {steps : List String} (last : String) (h : s.reach? r steps = some x) :
    s.walk r (steps ++ [last]) = .ok (some (x, [last])) := by
  induction steps generalizing r with
  | nil =>
    cases h
    rfl
  | cons p steps ih =>
    rw [reach?_cons] at h
    obtain ⟨child, hchild, h⟩ := Option.bind_eq_some_iff.1 h
    replace hchild := child?_eq_some.1 hchild
    have hkind : s.kind r ≠ .dom := by
      unfold kind
      cases hd : s.data r with
      | dom node =>
        rw [hd] at hchild
        cases hchild
      | _ => exact nofun
    obtain ⟨next, rest, hrest⟩ : ∃ next rest, steps ++ [last] = next :: rest :=
      List.exists_cons_of_ne_nil (by simp)
    rw [List.cons_append, hrest]
    unfold walk
    rw [if_neg hkind, getProperty_of_slot hchild]
    exact hrest ▸ ih h

/-- The value at a path is read there. -/
theorem At.get {accessor : Accessor} {root : ObjectRef} {path : String}
    (h : s.At root (Text.steps path) v) (hroot : accessor.root s (.object root) path = .ok root) :
    accessor.get s (.object root) path = .ok v := by
  obtain ⟨steps, last, x, hpath, hreach, hslot⟩ := h
  have howner : accessor.owner? s (.object root) path = .ok (some (x, [last])) := by
    unfold Accessor.owner?
    rw [hroot]
    exact hpath ▸ walk_of_reach last hreach
  unfold Accessor.get
  rw [howner]
  show s.getProperty x (Text.path [last]) = .ok v
  rw [Text.path_singleton]
  exact getProperty_of_slot hslot

/-- Nothing is read behind a property that is null. -/
theorem get_behind_null {accessor : Accessor} {root : ObjectRef} {path first next : String}
    {rest : List String} (hsteps : Text.steps path = first :: next :: rest)
    (hroot : accessor.root s (.object root) path = .ok root) (hdom : s.kind root ≠ .dom)
    (hnull : (s.data root).slot? first = some .null) :
    accessor.get s (.object root) path = .ok .null := by
  have howner : accessor.owner? s (.object root) path = .ok none := by
    unfold Accessor.owner?
    rw [hroot, hsteps]
    show s.walk root (first :: next :: rest) = _
    unfold walk
    rw [if_neg hdom, getProperty_of_slot hnull]
    rfl
  unfold Accessor.get
  rw [howner]
  rfl

/-- The objects that are made for the inner steps of some paths from a root, each at one path: the
objects behind different steps are different, and each is as its path declares it. -/
structure Branches (s : Store) (root : ObjectRef) (type : DataType) (inner : List String → Prop) :
    Prop where
  apart : ∀ {a b x}, inner a → inner b → s.reach? root a = some x → s.reach? root b = some x → a = b
  made : ∀ {a x}, inner a → s.reach? root a = some x → x.index < s.objects.size
  declared : ∀ {a x}, inner a → s.reach? root a = some x →
    ∃ declared, type.atSteps a = .ok declared ∧ (s.data x).Of declared

/-- Writing at a path: what was reached by inner steps still is, and only slots on the path change. -/
structure PassesBy (root : ObjectRef) (inner : List String → Prop) (path : List String)
    (s t : Store) : Prop where
  reach : ∀ {b y}, inner b → s.reach? root b = some y → t.reach? root b = some y
  slot : ∀ {b y q}, inner b → s.reach? root b = some y → ¬b ++ [q] <+: path →
    (t.data y).slot? q = (s.data y).slot? q

theorem PassesBy.refl (root : ObjectRef) (inner : List String → Prop) (path : List String) (s : Store) :
    PassesBy root inner path s s := ⟨fun _ => id, fun _ _ _ => rfl⟩

theorem PassesBy.mono {root : ObjectRef} {inner : List String → Prop} {path path' : List String}
    (h : PassesBy root inner path s t) (hle : path <+: path') : PassesBy root inner path' s t where
  reach := h.reach
  slot hb hy hq := h.slot hb hy fun hp => hq (hp.trans hle)

theorem PassesBy.trans {root : ObjectRef} {inner : List String → Prop} {path : List String}
    {s t u : Store} (h : PassesBy root inner path s t) (h' : PassesBy root inner path t u) :
    PassesBy root inner path s u where
  reach hb hy := h'.reach hb (h.reach hb hy)
  slot hb hy hq := (h'.slot hb (h.reach hb hy) hq).trans (h.slot hb hy hq)

/-- A value at another path stays, unless the path leads there or goes on from there. -/
theorem At.passed {root : ObjectRef} {inner : List String → Prop} {path other : List String} {v : Value}
    (h : s.At root other v) (hp : PassesBy root inner path s t)
    (hinner : ∀ steps last, other = steps ++ [last] → inner steps) (hne : ¬other <+: path) :
    t.At root other v := by
  obtain ⟨steps, last, x, rfl, hreach, hslot⟩ := h
  have hin := hinner steps last rfl
  exact ⟨steps, last, x, rfl, hp.reach hin hreach, (hp.slot hin hreach hne).trans hslot⟩

namespace Branches

variable {root : ObjectRef} {type : DataType} {inner : List String → Prop} {a b : List String}

/-- Nothing is behind the properties of a new bean. -/
theorem blank {bean : BeanType} (inner : List String → Prop) (hself : s.data root = .newBean bean)
    (hlt : root.index < s.objects.size) : s.Branches root bean.type inner := by
  have hnull : ∀ v ∈ (s.data root).values, v = .null := by
    rw [hself]
    exact fun v hv => List.eq_of_mem_replicate hv
  have hreach : ∀ {steps x}, s.reach? root steps = some x → steps = [] ∧ x = root := by
    intro steps x hx
    cases steps with
    | nil => exact ⟨rfl, (Option.some.inj hx).symm⟩
    | cons step steps =>
      rw [reach?_of_blank hnull] at hx
      cases hx
  refine ⟨fun _ _ hx hy => ?_, fun _ hx => ?_, fun _ hx => ?_⟩
  · rw [(hreach hx).1, (hreach hy).1]
  · rwa [(hreach hx).2]
  · obtain ⟨rfl, rfl⟩ := hreach hx
    exact ⟨bean.type, rfl, hself ▸ .newBean bean⟩

/-- A change of one property of an object leaves all slots at other paths. -/
theorem slot_write (h : s.Branches root type inner) (ha : inner a) (hx : s.reach? root a = some x)
    (hd : (s.data x).Written p v d) {y : ObjectRef} {q : String} (hb : inner b)
    (hy : s.reach? root b = some y) (hne : b ++ [q] ≠ a ++ [p]) :
    ((s.setData x d).data y).slot? q = (s.data y).slot? q := by
  by_cases hyx : y = x
  · subst hyx
    obtain rfl := h.apart hb ha hy hx
    rw [data_setData_self (h.made hb hy)]
    exact hd.others q fun hq => hne (hq ▸ rfl)
  · rw [data_setData_of_ne hyx]

/-- What is written at an object leaves every object as its path declares it. -/
theorem declared_write (h : s.Branches root type inner) (ha : inner a) (hx : s.reach? root a = some x)
    (hdeclared : type.atSteps a = .ok declared) (hof : d.Of declared) {y : ObjectRef} (hb : inner b)
    (hy : s.reach? root b = some y) :
    ∃ declared, type.atSteps b = .ok declared ∧ ((s.setData x d).data y).Of declared := by
  by_cases hyx : y = x
  · subst hyx
    obtain rfl := h.apart hb ha hy hx
    rw [data_setData_self (h.made hb hy)]
    exact ⟨declared, hdeclared, hof⟩
  · rw [data_setData_of_ne hyx]
    exact h.declared hb hy

section

variable (h : s.Branches root type inner) (hclosed : ∀ a b, a <+: b → inner b → inner a)

include h hclosed

/-- A change of one property of an object moves no object whose path does not go through it. -/
theorem reach_write (ha : inner a) (hx : s.reach? root a = some x)
    (hd : (s.data x).Written p v d) :
    ∀ {b}, inner b → ¬a ++ [p] <+: b → (s.setData x d).reach? root b = s.reach? root b := by
  intro b
  induction b using List.reverseRecOn with
  | nil => exact fun _ _ => rfl
  | append_singleton b q ih =>
    intro hb hne
    have hinner := hclosed b (b ++ [q]) (List.prefix_append ..) hb
    rw [reach?_concat, reach?_concat, ih hinner fun hp => hne (hp.trans (List.prefix_append ..))]
    cases hy : s.reach? root b with
    | none => rfl
    | some y =>
      refine congrArg (Option.bind · Value.object?) ?_
      exact slot_write h ha hx hd hinner hy fun hp => hne (hp ▸ List.prefix_rfl)

/-- A new object is behind no path. -/
theorem reach_newObject (d : ObjectData) :
    ∀ {b}, inner b → (s.newObject d).2.reach? root b = s.reach? root b := by
  intro b
  induction b using List.reverseRecOn with
  | nil => exact fun _ => rfl
  | append_singleton b q ih =>
    intro hb
    have hinner := hclosed b (b ++ [q]) (List.prefix_append ..) hb
    rw [reach?_concat, reach?_concat, ih hinner]
    cases hy : s.reach? root b with
    | none => rfl
    | some y =>
      refine congrArg (fun d : ObjectData => (d.slot? q).bind Value.object?) ?_
      exact data_newObject_of_ne (Nat.ne_of_lt (h.made hinner hy))

theorem newObject (d : ObjectData) : (s.newObject d).2.Branches root type inner where
  apart ha hb hx hy := by
    rw [h.reach_newObject hclosed d ha] at hx
    rw [h.reach_newObject hclosed d hb] at hy
    exact h.apart ha hb hx hy
  made ha hx := by
    rw [h.reach_newObject hclosed d ha] at hx
    rw [size_newObject]
    exact Nat.lt_succ_of_lt (h.made ha hx)
  declared ha hx := by
    rw [h.reach_newObject hclosed d ha] at hx
    rw [data_newObject_of_ne (Nat.ne_of_lt (h.made ha hx))]
    exact h.declared ha hx

/-- Writing the property at the end of a path: what is behind inner steps stays there. -/
theorem setProperty (ha : inner a) (hx : s.reach? root a = some x)
    (hleaf : ∀ b, inner b → ¬a ++ [p] <+: b) (hset : s.setProperty x p v = .ok t) :
    t.Branches root type inner ∧ PassesBy root inner (a ++ [p]) s t ∧
      ∃ declared w, type.atSteps (a ++ [p]) = .ok declared ∧ declared.cast v = .ok w ∧
        t.At root (a ++ [p]) w := by
  obtain ⟨declared, hdeclared, hof⟩ := h.declared ha hx
  obtain ⟨d, property, w, rfl, hd, hof', hproperty, hcast, hslot⟩ := setProperty_of hof hset
  have hreach : ∀ {b}, inner b → (s.setData x d).reach? root b = s.reach? root b :=
    fun hb => h.reach_write hclosed ha hx hd hb (hleaf _ hb)
  refine ⟨⟨fun hb hc hy hz => ?_, fun hb hy => ?_, fun {b y} hb hy => ?_⟩,
    ⟨fun hb hy => (hreach hb).trans hy, fun hb hy hne =>
      h.slot_write ha hx hd hb hy fun he => hne (he ▸ List.prefix_rfl)⟩,
    property, w, ?_, hcast, a, p, x, rfl, (hreach ha).trans hx, ?_⟩
  · rw [hreach hb] at hy
    rw [hreach hc] at hz
    exact h.apart hb hc hy hz
  · rw [hreach hb] at hy
    rw [size_setData]
    exact h.made hb hy
  · rw [hreach hb] at hy
    exact h.declared_write ha hx hdeclared hof' hb hy
  · rw [DataType.atSteps_append, hdeclared]
    exact hproperty
  · rw [data_setData_self (h.made ha hx)]
    exact hslot

/-- Writing a reference to an object with nothing in it: the path of the property leads there, and every
other path led where it leads now. -/
theorem reach_link {child : ObjectRef} (ha : inner a) (hx : s.reach? root a = some x)
    (hd : (s.data x).Written p v d) (hslot : d.slot? p = some (.object child)) (hne : child ≠ x)
    (hblank : ∀ v ∈ (s.data child).values, v = .null) :
    (s.setData x d).reach? root (a ++ [p]) = some child ∧
      ∀ {b y}, inner b → (s.setData x d).reach? root b = some y →
        s.reach? root b = some y ∨ b = a ++ [p] ∧ y = child := by
  have hlong : ¬a ++ [p] <+: a := fun hle => by
    have hlength := hle.length_le
    rw [List.length_append] at hlength
    exact Nat.not_succ_le_self _ hlength
  have hthere : (s.setData x d).reach? root (a ++ [p]) = some child := by
    rw [reach?_concat, h.reach_write hclosed ha hx hd ha hlong, hx, Option.bind_some, child?_eq_some,
      data_setData_self (h.made ha hx)]
    exact hslot
  refine ⟨hthere, fun {b y} hb hy => ?_⟩
  by_cases hle : a ++ [p] <+: b
  · obtain ⟨rest, rfl⟩ := hle
    rw [reach?_append, hthere, Option.bind_some] at hy
    cases rest with
    | nil => exact .inr ⟨List.append_nil _, (Option.some.inj hy).symm⟩
    | cons q rest =>
      have hdata : (s.setData x d).data child = s.data child := data_setData_of_ne hne
      rw [reach?_of_blank (hdata ▸ hblank)] at hy
      cases hy
  · rw [h.reach_write hclosed ha hx hd hb hle] at hy
    exact .inl hy

/-- A property that held null comes to refer to an object with nothing in it that no path led to. -/
theorem link {child : ObjectRef} (ha : inner a) (hx : s.reach? root a = some x)
    (hnull : (s.data x).slot? p = some .null) (hlt : child.index < s.objects.size)
    (hnew : ∀ b, inner b → s.reach? root b ≠ some child)
    (hblank : ∀ v ∈ (s.data child).values, v = .null)
    (hchild : ∃ declared, type.atSteps (a ++ [p]) = .ok declared ∧ (s.data child).Of declared)
    (hset : s.setProperty x p (.object child) = .ok t) :
    t.Branches root type inner ∧ t.reach? root (a ++ [p]) = some child ∧
      PassesBy root inner (a ++ [p]) s t := by
  obtain ⟨declared, hdeclared, hof⟩ := h.declared ha hx
  obtain ⟨d, _, w, rfl, hd, hofd, -, hcast, hslot⟩ := setProperty_of hof hset
  obtain rfl := DataType.eq_of_cast_object hcast
  have hne : child ≠ x := fun he => hnew a ha (he ▸ hx)
  obtain ⟨hthere, hafter⟩ := h.reach_link hclosed ha hx hd hslot hne hblank
  -- a path that goes on behind the property led nowhere
  have hbefore : ∀ rest, s.reach? root (a ++ [p] ++ rest) = none := by
    intro rest
    rw [reach?_append, reach?_concat, hx, Option.bind_some]
    unfold child?
    rw [hnull]
    rfl
  refine ⟨⟨fun hb hc hy hz => ?_, fun hb hy => ?_, fun {b y} hb hy => ?_⟩, hthere, fun {b y} hb hy => ?_,
    fun hb hy hq => h.slot_write ha hx hd hb hy fun he => hq (he ▸ List.prefix_rfl)⟩
  · rcases hafter hb hy with hy | ⟨hb', hy'⟩ <;> rcases hafter hc hz with hz | ⟨hc', hz'⟩
    · exact h.apart hb hc hy hz
    · exact absurd (hz' ▸ hy) (hnew _ hb)
    · exact absurd (hy' ▸ hz) (hnew _ hc)
    · exact hb'.trans hc'.symm
  · rw [size_setData]
    rcases hafter hb hy with hbefore | ⟨-, rfl⟩
    · exact h.made hb hbefore
    · exact hlt
  · rcases hafter hb hy with hold | ⟨rfl, rfl⟩
    · exact h.declared_write ha hx hdeclared hofd hb hold
    · rw [data_setData_of_ne hne]
      exact hchild
  · by_cases hle : a ++ [p] <+: b
    · obtain ⟨rest, rfl⟩ := hle
      rw [hbefore] at hy
      cases hy
    · rw [h.reach_write hclosed ha hx hd hb hle]
      exact hy

/-- Making the object at inner steps where a property is null. -/
theorem makeChild (ha : inner a) (hx : s.reach? root a = some x)
    (hdom : type.atSteps (a ++ [p]) ≠ .ok .dom) (hnull : (s.data x).slot? p = some .null)
    {child : ObjectRef} (hrun : (makeChild x p).run s = (.ok child, t)) :
    t.Branches root type inner ∧ t.reach? root (a ++ [p]) = some child ∧
      PassesBy root inner (a ++ [p]) s t := by
  obtain ⟨declared, hdeclared, hof⟩ := h.declared ha hx
  have hproperty : type.atSteps (a ++ [p]) = declared.atSteps [p] := by
    rw [DataType.atSteps_append, hdeclared]
    rfl
  obtain ⟨data, hblank, rfl, hset, property, hdeclares, hdata⟩ :=
    makeChild_eq_ok hof (hproperty ▸ hdom) hrun
  have hlt := h.made ha hx
  have hself := data_newObject_self s data
  have hold : ∀ {b}, inner b → (s.newObject data).2.reach? root b = s.reach? root b :=
    h.reach_newObject hclosed data
  have hnew : ∀ b, inner b → (s.newObject data).2.reach? root b ≠ some (s.newObject data).1 :=
    fun b hb hy => Nat.lt_irrefl _ (h.made hb ((hold hb).symm.trans hy))
  obtain ⟨hbranches, hreach, hpasses⟩ := (h.newObject hclosed data).link hclosed ha ((hold ha).trans hx)
    (by rwa [data_newObject_of_ne (Nat.ne_of_lt hlt)]) (by rw [size_newObject]; exact Nat.lt_succ_self _)
    hnew (by rwa [hself]) ⟨property, hproperty.trans hdeclares, by rwa [hself]⟩ hset
  refine ⟨hbranches, hreach, PassesBy.trans ⟨fun hb hy => (hold hb).trans hy, fun hb hy _ => ?_⟩ hpasses⟩
  rw [data_newObject_of_ne (Nat.ne_of_lt (h.made hb hy))]

end

/-- Walking along the inner steps of a path, and making what is missing. -/
theorem walkMaking (hclosed : ∀ a b, a <+: b → inner b → inner a)
    (hdom : ∀ b, inner b → type.atSteps b ≠ .ok .dom) {y : ObjectRef} {last : String}
    {left : List String} : ∀ {steps a x s}, s.Branches root type inner → inner (a ++ steps) →
      s.reach? root a = some x → (walkMaking x (steps ++ [last])).run s = (.ok (y, left), t) →
      left = [last] ∧ t.Branches root type inner ∧ t.reach? root (a ++ steps) = some y ∧
        PassesBy root inner (a ++ steps) s t
  | [], a, x, s, h, _, hx, hrun => by
    cases hrun
    rw [List.append_nil]
    exact ⟨rfl, h, hx, .refl ..⟩
  | p :: steps, a, x, s, h, hinner, hx, hrun => by
    have hsplit : a ++ p :: steps = a ++ [p] ++ steps := by simp
    rw [hsplit] at hinner ⊢
    have hp : inner (a ++ [p]) := hclosed _ _ (List.prefix_append ..) hinner
    have ha : inner a := hclosed _ _ (List.prefix_append ..) hp
    obtain ⟨declared, -, hof⟩ := h.declared ha hx
    obtain ⟨next, rest, hrest⟩ : ∃ next rest, steps ++ [last] = next :: rest :=
      List.exists_cons_of_ne_nil (by simp)
    rw [List.cons_append, hrest] at hrun
    unfold Store.walkMaking at hrun
    have hkind : s.kind x ≠ .dom := hof.kind_ne_dom
    rw [run_bind_ok (x := Edit.store) rfl, if_neg hkind] at hrun
    obtain ⟨v, u, hread, hrun⟩ := run_bind_eq_ok.1 hrun
    obtain ⟨hget, rfl⟩ := Prod.mk.inj hread
    replace hget := slot_of_getProperty hof hget
    split at hrun
    · have hchild := child?_eq_some.2 hget
      rw [← hrest] at hrun
      exact walkMaking hclosed hdom h hinner (by rw [reach?_concat, hx]; exact hchild) hrun
    · obtain ⟨child, u, hmake, hrun⟩ := run_bind_eq_ok.1 hrun
      obtain ⟨hu, hreach, hpasses⟩ := h.makeChild hclosed ha hx (hdom _ hp) hget hmake
      rw [← hrest] at hrun
      obtain ⟨hleft, ht, hy, hpasses'⟩ := walkMaking hclosed hdom hu hinner hreach hrun
      exact ⟨hleft, ht, hy, (hpasses.mono (List.prefix_append ..)).trans hpasses'⟩
    · cases hrun

/-- Writing the property at a path whose inner steps lead to what is made for them. -/
theorem set (hclosed : ∀ a b, a <+: b → inner b → inner a)
    (hdom : ∀ b, inner b → type.atSteps b ≠ .ok .dom) (h : s.Branches root type inner)
    {accessor : Accessor} {path : String} {steps : List String} {last : String}
    (hpath : Text.steps path = steps ++ [last]) (hinner : inner steps)
    (hleaf : ∀ b, inner b → ¬Text.steps path <+: b)
    (hrun : (accessor.set (.object root) path v).run s = (.ok (), t)) :
    t.Branches root type inner ∧ PassesBy root inner (Text.steps path) s t ∧
      ∃ declared w, type.atPath path = .ok declared ∧ declared.cast v = .ok w ∧
        t.At root (Text.steps path) w := by
  obtain ⟨⟨y, left⟩, u, howner, hrun⟩ := run_bind_eq_ok.1 hrun
  obtain ⟨start, _, hread, hwalk⟩ := run_bind_eq_ok.1 howner
  obtain ⟨hroot, rfl⟩ := Prod.mk.inj hread
  replace hroot : accessor.root s (.object root) path = .ok start := hroot
  obtain rfl : start = root := by
    rcases Accessor.root_object accessor s root path with he | ⟨e, he⟩ <;> rw [he] at hroot <;>
      cases hroot
    rfl
  rw [hpath] at hwalk
  obtain ⟨rfl, hu, hreach, hpasses⟩ := walkMaking hclosed hdom (a := []) h hinner rfl hwalk
  have hset := run_change_eq_ok hrun
  rw [Text.path_singleton] at hset
  rw [hpath] at hleaf ⊢
  obtain ⟨ht, hpasses', hat⟩ := hu.setProperty hclosed hinner hreach hleaf hset
  rw [DataType.atPath, hpath]
  exact ⟨ht, (hpasses.mono (List.prefix_append ..)).trans hpasses', hat⟩

/-- The values that are written at paths apart from each other are all there behind. -/
theorem sets (hclosed : ∀ a b, a <+: b → inner b → inner a)
    (hdom : ∀ b, inner b → type.atSteps b ≠ .ok .dom) {accessor : Accessor} :
    ∀ {pairs : List (ResultMapping × Value)} {s}, s.Branches root type inner →
      (∀ pair ∈ pairs, (∀ steps last, Text.steps pair.1.property = steps ++ [last] → inner steps) ∧
        ∀ b, inner b → ¬Text.steps pair.1.property <+: b) →
      pairs.Pairwise (fun a b => ¬Text.steps a.1.property <+: Text.steps b.1.property) →
      (pairs.forM fun pair => accessor.set (.object root) pair.1.property pair.2).run s = (.ok (), t) →
      t.Branches root type inner ∧
        (∀ path v, (∀ steps last, path = steps ++ [last] → inner steps) →
          (∀ pair ∈ pairs, ¬path <+: Text.steps pair.1.property) → s.At root path v → t.At root path v) ∧
        ∀ pair ∈ pairs, ∃ declared w, type.atPath pair.1.property = .ok declared ∧
          declared.cast pair.2 = .ok w ∧ t.At root (Text.steps pair.1.property) w
  | [], s, h, _, _, hrun => by
    cases hrun
    exact ⟨h, fun _ _ _ _ => id, fun _ hmem => absurd hmem List.not_mem_nil⟩
  | pair :: pairs, s, h, hpaths, hapart, hrun => by
    obtain ⟨_, u, hone, hrest⟩ := run_bind_eq_ok.1 hrun
    obtain ⟨hpath, hpaths⟩ := List.forall_mem_cons.1 hpaths
    obtain ⟨hbefore, hapart⟩ := List.pairwise_cons.1 hapart
    obtain ⟨steps, last, hsteps⟩ :=
      (List.eq_nil_or_concat' _).resolve_left (Text.steps_ne_nil pair.1.property)
    obtain ⟨hu, hpasses, declared, w, hdeclared, hcast, hat⟩ :=
      set hclosed hdom h hsteps (hpath.1 steps last hsteps) hpath.2 hone
    obtain ⟨ht, hstays, hrest⟩ := sets hclosed hdom hu hpaths hapart hrest
    refine ⟨ht, fun path v hinner hne hv => ?_, List.forall_mem_cons.2 ⟨?_, hrest⟩⟩
    · obtain ⟨hfirst, hne⟩ := List.forall_mem_cons.1 hne
      exact hstays path v hinner hne (hv.passed hpasses hinner hfirst)
    · exact ⟨declared, w, hdeclared, hcast, hstays _ w hpath.1 hbefore hat⟩

end Branches

end Store

end RowMapper
