/-
What stands where behind writes at paths that part from each other. Each write plants one thing at its
place. Between the root and these places stand objects that are made for them, with nothing else in them
(`Store.Layout`), so that behind any order of the writes there is the same to see
(`Store.Layout.alike`).
-/
import RowMapper.Proofs.Access.Places
import RowMapper.Proofs.Data.Additions

namespace RowMapper

namespace Store

variable {s t u : Store} {root x y c : ObjectRef} {type σ τ : DataType} {p q : String} {v w : Value}
  {a b : List String} {inner inner' : List String → Prop} {part part' : List String → Planted → Prop}

/-- A property that takes no type is not read either. -/
theorem getProperty_error_of {e : Error} (h : (s.data x).Of σ) (hσ : σ.atSteps [p] = .error e) :
    ∃ e, s.getProperty x p = .error e := by
  unfold getProperty
  cases hd : s.data x with
  | map entries =>
    rw [hd] at h
    rw [DataType.atSteps_single h] at hσ
    cases hσ
  | bean bean fields =>
    rw [hd] at h
    obtain ⟨rfl, -⟩ := h
    cases hi : Table.indexOf? p bean.properties with
    | none => exact ⟨_, by simp only [fieldIndex, hi]; rfl⟩
    | some i =>
      obtain ⟨property, hg⟩ := Table.exists_of_indexOf? hi
      simp only [BeanType.type, DataType.atSteps, hg] at hσ
      cases hσ
  | dom node =>
    rw [hd] at h
    exact h.elim

/-- An object is made only where a type of objects is declared. -/
theorem newData?_of_makeChild (hσ : s.setterType x p = .ok τ)
    (h : (makeChild x p).run s = (.ok c, t)) : ∃ d, (madeType τ).newData? = some d := by
  rw [run_makeChild hσ] at h
  obtain ⟨v, u, hmake, h⟩ := run_bind_eq_ok.1 h
  obtain ⟨-, w, -, h⟩ := run_bind_eq_ok.1 h
  obtain ⟨hobject, -⟩ := Prod.mk.inj h
  have hv : v = .object c := by
    unfold objectAt at hobject
    split at hobject <;> cases hobject
    rfl
  subst hv
  obtain ⟨d, hd, -⟩ := run_instantiate_object hmake
  exact ⟨d, hd⟩

/-! ## Putting a value where null was read -/

/-- From one store to the next a value was put at a property of an object, and objects may have been
made. -/
structure Puts (s t : Store) (x : ObjectRef) (p : String) (w : Value) : Prop where
  link : t.data x = (s.data x).put p w
  others : ∀ y, y.index < s.objects.size → y ≠ x → t.data y = s.data y
  size : s.objects.size ≤ t.objects.size
  lazies : t.lazies = s.lazies

namespace Puts

theorem of_setData (hx : x.index < s.objects.size) :
    s.Puts (s.setData x ((s.data x).put p w)) x p w :=
  ⟨data_setData_self hx, fun _ _ => data_setData_of_ne, by simp, rfl⟩

/-- A change of an object that was made with it. -/
theorem setData (h : s.Puts t x p w) (hx : x.index < s.objects.size) (hy : s.objects.size ≤ y.index)
    (d : ObjectData) : s.Puts (t.setData y d) x p w := by
  have hne : ∀ z : ObjectRef, z.index < s.objects.size → z ≠ y := by
    rintro z hz rfl
    exact Nat.not_lt.2 hy hz
  refine ⟨(data_setData_of_ne (hne x hx)).trans h.link, fun z hz hzx => ?_, by simpa using h.size,
    h.lazies⟩
  exact (data_setData_of_ne (hne z hz)).trans (h.others z hz hzx)

/-- What is old stays so when the object is not. -/
theorem grown (h : t.Puts u x p w) (hs : s.Extends t) (hx : s.objects.size ≤ x.index) :
    s.Extends u where
  data r hr := by
    have hne : r ≠ x := by
      rintro rfl
      exact Nat.not_lt.2 hx hr
    exact (h.others r (Nat.lt_of_lt_of_le hr hs.size) hne).trans (hs.data r hr)
  size := Nat.le_trans hs.size h.size
  lazies := h.lazies.trans hs.lazies

/-- No way is lost when it was null that gave way. -/
theorem reach? (h : s.Puts t x p w) (hnull : (s.data x).slot? p = some .null)
    (hy : s.reach? root a = some y) : t.reach? root a = some y :=
  reach?_mono (fun hc => child?_of_put hnull h.link h.others hc) hy

end Puts

/-- What is made for a property that takes objects. -/
theorem makeChild_puts {d : ObjectData} (hof : (s.data x).Of σ) (hx : x.index < s.objects.size)
    (hσ : σ.atSteps [p] = .ok τ) (hd : (madeType τ).newData? = some d) :
    ∃ t c, (makeChild x p).run s = (.ok c, t) ∧ s.objects.size ≤ c.index ∧ c.index < t.objects.size ∧
      s.Puts t x p (.object c) ∧ t.data c = d := by
  have hrun := run_makeChild_object hof.kind_ne_dom ((setterType_of hof p).trans hσ) hd
  have hself : (s.newObject d).1 ≠ x := by
    rintro rfl
    exact Nat.lt_irrefl _ hx
  refine ⟨_, _, hrun, Nat.le_refl _, ?_, ⟨?_, fun y hy hne => ?_, by simp, rfl⟩, ?_⟩
  · rw [size_setData, size_newObject]
    exact Nat.lt_succ_self _
  · exact data_setData_self (by rw [size_newObject]; exact Nat.lt_succ_of_lt hx)
  · exact (data_setData_of_ne hne).trans (data_newObject_of_ne (Nat.ne_of_lt hy))
  · exact (data_setData_of_ne hself).trans (data_newObject_self s d)

/-! ## Layouts -/

/-- A value is what was planted. -/
def Shows (s : Store) (planted : Planted) (w : Value) : Prop :=
  match planted with
  | .value v => w = v
  | .document node => ∃ y, w = .object y ∧ s.data y = .dom node

/-- An object behind some steps from a root: one of the type that is declared there, made since the
store was another. -/
structure Inner (s t : Store) (root : ObjectRef) (type : DataType) (a : List String) (x : ObjectRef)
    (σ : DataType) : Prop where
  reach : t.reach? root a = some x
  declared : type.atSteps a = .ok σ
  holds : ∃ d, (madeType σ).newData? = some d ∧ d.Of σ
  of : (t.data x).Of σ
  new : s.objects.size ≤ x.index
  made : x.index < t.objects.size

/-- One step leads from an inner object to the next. -/
theorem Inner.child? (hx : Inner s t root type a x σ) (hy : Inner s t root type (a ++ [q]) y τ) :
    t.child? x q = some y := by
  have hreach := hy.reach
  rwa [reach?_concat, hx.reach] at hreach

/-- What stands where behind a root: objects at inner steps, each at one list of steps alone, what was
planted at its place, and nothing else. The objects of an earlier store are as they were. -/
structure Layout (s t : Store) (root : ObjectRef) (type : DataType) (inner : List String → Prop)
    (part : List String → Planted → Prop) : Prop where
  grown : s.Extends t
  object : ∀ {a}, inner a → ∃ x σ, Inner s t root type a x σ
  apart : ∀ {a b x}, inner a → inner b → t.reach? root a = some x → t.reach? root b = some x → a = b
  held : ∀ {a q planted}, part (a ++ [q]) planted → inner a ∧
    ∀ x, t.reach? root a = some x → ∃ w, (t.data x).holds? q = some w ∧ t.Shows planted w
  unset : ∀ {a x σ q}, inner a → Inner s t root type a x σ → ¬inner (a ++ [q]) →
    (∀ planted, ¬part (a ++ [q]) planted) → (t.data x).holds? q = σ.unset? q

namespace Layout

theorem congr (h : Layout s t root type inner part) (hi : ∀ a, inner a ↔ inner' a)
    (hp : ∀ a planted, part a planted ↔ part' a planted) : Layout s t root type inner' part' := by
  obtain rfl : inner = inner' := funext fun a => propext (hi a)
  obtain rfl : part = part' := funext fun a => funext fun planted => propext (hp a planted)
  exact h

/-- A new object with nothing planted in it. -/
theorem new {d : ObjectData} (hd : (madeType type).newData? = some d) (hof : d.Of type) :
    Layout s (s.newObject d).2 (s.newObject d).1 type (· = []) fun _ _ => False where
  grown := ⟨fun r hr => data_newObject_of_ne (Nat.ne_of_lt hr), by simp, rfl⟩
  object ha := by
    subst ha
    refine ⟨_, type, rfl, type.atSteps_nil, ⟨d, hd, hof⟩, by rwa [data_newObject_self],
      Nat.le_refl _, ?_⟩
    rw [size_newObject]
    exact Nat.lt_succ_self _
  apart ha hb _ _ := ha.trans hb.symm
  held := False.elim
  unset {a x σ q} ha hx _ _ := by
    subst ha
    cases hx.reach
    cases type.atSteps_nil.symm.trans hx.declared
    rw [data_newObject_self, DataType.unset?, hd]
    rfl

section

variable (h : Layout s t root type inner part) (hx : Inner s t root type a x σ)
  (hnull : (t.data x).slot? p = some .null) (hput : t.Puts u x p w)

include h hx hnull hput

omit hx in
/-- Inner steps lead where they led. -/
theorem reach_back (hb : inner b) (hy : u.reach? root b = some y) : t.reach? root b = some y := by
  obtain ⟨z, _, hz⟩ := h.object hb
  rw [hz.reach, ← hy, hput.reach? hnull hz.reach]

omit hx in
/-- The objects that were there are behind their steps still. -/
theorem inner_back (hb : inner b) (hy : Inner s u root type b y τ) : Inner s t root type b y τ := by
  obtain ⟨z, τ', hz⟩ := h.object hb
  cases hz.reach.symm.trans (h.reach_back hnull hput hb hy.reach)
  cases hz.declared.symm.trans hy.declared
  exact hz

/-- What stands at another place stays there. -/
theorem entry_put (ha : inner a) (hb : inner b) (hy : t.reach? root b = some y)
    (hne : b ++ [q] ≠ a ++ [p]) : (u.data y).holds? q = (t.data y).holds? q := by
  by_cases hyx : y = x
  · subst hyx
    obtain rfl := h.apart hb ha hy hx.reach
    rw [hput.link]
    exact ObjectData.holds?_put_of_ne fun hqp => hne (hqp ▸ rfl)
  · obtain ⟨z, _, hz⟩ := h.object hb
    cases hz.reach.symm.trans hy
    rw [hput.others y hz.made hyx]

omit h hnull in
theorem shows_put {planted : Planted} (hw : t.Shows planted v) : u.Shows planted v := by
  cases planted with
  | value _ => exact hw
  | document node =>
    obtain ⟨y, hy, hnode⟩ := hw
    refine ⟨y, hy, (hput.others y ?_ ?_).trans hnode⟩
    · by_contra hlt
      rw [data_of_size_le (Nat.not_lt.1 hlt)] at hnode
      cases hnode
    · rintro rfl
      have hof := hx.of
      rw [hnode] at hof
      exact hof

omit h in
theorem inner_put (hy : Inner s t root type b y τ) : Inner s u root type b y τ := by
  refine ⟨hput.reach? hnull hy.reach, hy.declared, hy.holds, ?_, hy.new,
    Nat.lt_of_lt_of_le hy.made hput.size⟩
  by_cases hyx : y = x
  · subst hyx
    rw [hput.link]
    exact hy.of.put
  · rw [hput.others y hy.made hyx]
    exact hy.of

variable (ha : inner a) (hpart : ∀ planted, ¬part (a ++ [p]) planted)

include ha hpart

/-- What is held at a place is held there behind the change of another. -/
theorem held_put {planted : Planted} (hb : part (b ++ [q]) planted) : inner b ∧
    ∀ y, u.reach? root b = some y → ∃ v, (u.data y).holds? q = some v ∧ u.Shows planted v := by
  obtain ⟨hinner, hheld⟩ := h.held hb
  refine ⟨hinner, fun y hy => ?_⟩
  replace hy := h.reach_back hnull hput hinner hy
  obtain ⟨v, hv, hshows⟩ := hheld y hy
  refine ⟨v, ?_, shows_put hx hput hshows⟩
  rw [h.entry_put hx hnull hput ha hinner hy fun he => hpart _ (he ▸ hb)]
  exact hv

/-- Something is planted where nothing was. -/
theorem plant {planted : Planted} (hshows : u.Shows planted w) :
    Layout s u root type inner fun b e => part b e ∨ b = a ++ [p] ∧ e = planted where
  grown := hput.grown h.grown hx.new
  object hb := by
    obtain ⟨y, τ, hy⟩ := h.object hb
    exact ⟨y, τ, inner_put hx hnull hput hy⟩
  apart hb hc hy hz :=
    h.apart hb hc (h.reach_back hnull hput hb hy) (h.reach_back hnull hput hc hz)
  held {b q e} hb := by
    rcases hb with hb | ⟨hb, rfl⟩
    · exact h.held_put hx hnull hput ha hpart hb
    · obtain ⟨rfl, hq⟩ := List.append_inj' hb rfl
      cases hq
      refine ⟨ha, fun y hy => ⟨w, ?_, hshows⟩⟩
      cases hx.reach.symm.trans (h.reach_back hnull hput ha hy)
      rw [hput.link]
      exact ObjectData.holds?_put_self hnull
  unset {b y τ q} hb hy hfree hnone := by
    replace hy := h.inner_back hnull hput hb hy
    rw [h.entry_put hx hnull hput ha hb hy.reach fun he => hnone _ (.inr ⟨he, rfl⟩)]
    exact h.unset hb hy hfree fun e he => hnone e (.inl he)

/-- An object is made where nothing was planted. -/
theorem branch {d : ObjectData} (hnew : t.objects.size ≤ c.index)
    (hc : Inner s u root type (a ++ [p]) c τ) (hd : (madeType τ).newData? = some d)
    (hdata : u.data c = d) :
    Layout s u root type (fun b => inner b ∨ b = a ++ [p]) part where
  grown := hput.grown h.grown hx.new
  object hb := by
    rcases hb with hb | rfl
    · obtain ⟨y, τ, hy⟩ := h.object hb
      exact ⟨y, τ, inner_put hx hnull hput hy⟩
    · exact ⟨c, τ, hc⟩
  apart {b b' y} hb hb' hy hy' := by
    -- what is new was behind no steps before
    have hold : ∀ {b}, inner b → u.reach? root b = some y → y ≠ c := by
      rintro b hb hy rfl
      obtain ⟨z, _, hz⟩ := h.object hb
      cases hz.reach.symm.trans (h.reach_back hnull hput hb hy)
      exact Nat.not_lt.2 hnew hz.made
    rcases hb with hb | rfl <;> rcases hb' with hb' | rfl
    · exact h.apart hb hb' (h.reach_back hnull hput hb hy) (h.reach_back hnull hput hb' hy')
    · exact absurd (Option.some.inj (hy'.symm.trans hc.reach)) (hold hb hy)
    · exact absurd (Option.some.inj (hy.symm.trans hc.reach)) (hold hb' hy')
    · rfl
  held hb := by
    obtain ⟨hinner, hheld⟩ := h.held_put hx hnull hput ha hpart hb
    exact ⟨.inl hinner, hheld⟩
  unset {b y τ q} hb hy hfree hnone := by
    rcases hb with hb | rfl
    · replace hy := h.inner_back hnull hput hb hy
      rw [h.entry_put hx hnull hput ha hb hy.reach fun he => hfree (.inr he)]
      exact h.unset hb hy (fun hq => hfree (.inl hq)) hnone
    · cases hc.reach.symm.trans hy.reach
      cases hc.declared.symm.trans hy.declared
      rw [hdata, DataType.unset?, hd]
      rfl

end

end Layout

/-! ## Writing -/

/-- Writes a value at some steps from an object, making what is missing. -/
def write (x : ObjectRef) (steps : List String) (v : Value) : Edit Unit := do
  let (owner, left) ← walkMaking x steps
  Edit.change (·.setProperty owner (Text.path left) v)

theorem run_write_last (x : ObjectRef) (p : String) (v : Value) :
    (write x [p] v).run s = (Edit.change (·.setProperty x p v)).run s := by
  have hwalk : (walkMaking x [p]).run s = (.ok (x, [p]), s) := rfl
  rw [write, run_bind_ok hwalk]
  dsimp only
  rw [Text.path_singleton]

theorem run_write_object (hdom : s.kind x ≠ .dom) (hc : s.child? x p = some c) (next : String)
    (rest : List String) (v : Value) :
    (write x (p :: next :: rest) v).run s = (write c (next :: rest) v).run s :=
  run_bind_congr (run_walkMaking_step next rest hdom (getProperty_eq_object.2 hc)) fun _ _ _ => rfl

theorem run_write_error {e : Error} (hdom : s.kind x ≠ .dom) (hget : s.getProperty x p = .error e)
    (next : String) (rest : List String) (v : Value) :
    (write x (p :: next :: rest) v).run s = (.error e, s) := by
  have hread : (Edit.read (·.getProperty x p)).run s = (.error e, s) := by
    rw [← hget]
    rfl
  have hwalk : (walkMaking x (p :: next :: rest)).run s = (.error e, s) := by
    unfold walkMaking
    rw [run_bind_ok (x := Edit.store) rfl, if_neg hdom]
    exact run_bind_error hread
  exact run_bind_error hwalk

theorem run_write_null (hdom : s.kind x ≠ .dom) (hnull : s.getProperty x p = .ok .null) (next : String)
    (rest : List String) (v : Value) : (write x (p :: next :: rest) v).run s =
      (makeChild x p >>= fun c => write c (next :: rest) v).run s := by
  unfold write
  rw [← bind_assoc]
  exact run_bind_congr (run_walkMaking_step next rest hdom hnull) fun _ _ _ => rfl

/-- A document takes all steps itself. -/
theorem run_write_dom {node : DomNode} (hd : s.data x = .dom node) (next : String)
    (rest : List String) (v : Value) : (write x (next :: rest) v).run s =
      (.ok (), s.setData x (.dom (node.setContent (Text.path (next :: rest)) (s.nodesOf v)))) := by
  have hwalk : (walkMaking x (next :: rest)).run s = (.ok (x, next :: rest), s) := by
    cases rest with
    | nil => rfl
    | cons second rest =>
      unfold walkMaking
      rw [run_bind_ok (x := Edit.store) rfl, if_pos (by unfold kind; rw [hd]; rfl)]
      rfl
  unfold write
  rw [run_bind_ok hwalk]
  refine run_change_ok ?_
  unfold setProperty
  rw [hd]

/-- Steps between the beginning and the end of a path. -/
def Between (a b c : List String) : Prop := a <+: c ∧ c <+: b ∧ c ≠ b

theorem between_single (a : List String) (p : String) (c : List String) :
    Between a (a ++ [p]) c ↔ c = a := by
  constructor
  · rintro ⟨⟨d, rfl⟩, hd, hne⟩
    rw [List.prefix_append_right_inj] at hd
    cases d with
    | nil => exact List.append_nil a
    | cons q d =>
      obtain ⟨rfl, hnil⟩ := List.cons_prefix_cons.1 hd
      rw [List.prefix_nil.1 hnil] at hne
      exact absurd rfl hne
  · rintro rfl
    exact ⟨List.prefix_rfl, List.prefix_append .., by simp⟩

theorem between_start {d : List String} (hd : d ≠ []) (a : List String) : Between a (a ++ d) a :=
  ⟨List.prefix_rfl, List.prefix_append .., fun he => hd (List.self_eq_append_right.1 he)⟩

theorem between_cons (a : List String) (p : String) (d c : List String) :
    Between a (a ++ p :: d) c ↔ c = a ∨ Between (a ++ [p]) (a ++ [p] ++ d) c := by
  rw [show a ++ p :: d = a ++ [p] ++ d by simp]
  constructor
  · rintro ⟨⟨e, rfl⟩, hle, hne⟩
    cases e with
    | nil => exact .inl (List.append_nil a)
    | cons q e =>
      have hstep := hle
      rw [List.append_assoc, List.prefix_append_right_inj, List.singleton_append,
        List.cons_prefix_cons] at hstep
      obtain ⟨rfl, -⟩ := hstep
      exact .inr ⟨⟨e, by simp⟩, hle, hne⟩
  · rintro (rfl | ⟨hle, hle', hne⟩)
    · rw [List.append_assoc]
      exact between_start (List.cons_ne_nil p d) c
    · exact ⟨(List.prefix_append ..).trans hle, hle', hne⟩

/-- What comes of a write: it fails where nothing is planted, and else its place holds that. -/
def Layout.Outcome (s : Store) (root : ObjectRef) (type : DataType) (inner : List String → Prop)
    (part : List String → Planted → Prop) (a : List String)
    (result : Except Error Unit × Store) : Option (List String × Planted) → Prop
  | none => ∃ e t, result = (.error e, t)
  | some (d, planted) => ∃ t, result = (.ok (), t) ∧
      Layout s t root type (fun b => inner b ∨ Between a (a ++ d) b)
        fun b e => part b e ∨ b = a ++ d ∧ e = planted

namespace Layout

/-- Writing the last step. -/
theorem write_last (h : Layout s t root type inner part) (ha : inner a)
    (hx : Inner s t root type a x σ) (hfree : ¬inner (a ++ [p]))
    (hpart : ∀ planted, ¬part (a ++ [p]) planted) :
    Outcome s root type inner part a ((write x [p] v).run t) (σ.plant (s.nodesOf v) v [p]) := by
  have hdom : t.kind x ≠ .dom := hx.of.kind_ne_dom
  have htype := setterType_of hx.of p
  rw [run_write_last]
  unfold DataType.plant
  cases hσ : σ.atSteps [p] with
  | error e =>
    rw [hσ] at htype
    cases hset : t.setProperty x p v with
    | ok u =>
      obtain ⟨declared, hdeclared⟩ := setterType_of_setProperty hset
      cases hdeclared.symm.trans htype
    | error e =>
      show Outcome s root type inner part a _ none
      exact ⟨e, t, run_change_error hset⟩
  | ok declared =>
    have hset := setProperty_eq hdom (htype.trans hσ) v
    cases hw : declared.cast v with
    | error e =>
      rw [hw] at hset
      rw [Except.toOption, Option.bind_eq_bind, Option.bind_some, hw]
      exact ⟨e, t, run_change_error hset⟩
    | ok w =>
      rw [hw] at hset
      have hnull := DataType.slot?_of_unset hx.of hσ (h.unset ha hx hfree hpart)
      have hplant := h.plant hx hnull (.of_setData hx.made) ha hpart (show Shows _ (.value w) w from rfl)
      rw [Except.toOption, Option.bind_eq_bind, Option.bind_some, hw]
      refine ⟨_, run_change_ok hset, hplant.congr (fun b => ?_) fun _ _ => Iff.rfl⟩
      rw [between_single]
      exact ⟨.inl, fun hb => hb.elim id fun hb => hb ▸ ha⟩

/-- Writing behind an object that is there. -/
theorem Outcome.step {result : Except Error Unit × Store} {place : Option (List String × Planted)}
    (ha : inner a) (h : Outcome s root type inner part (a ++ [p]) result place) :
    Outcome s root type inner part a result (place.map fun place => (p :: place.1, place.2)) := by
  cases place with
  | none => exact h
  | some place =>
    obtain ⟨d, planted⟩ := place
    obtain ⟨t, hrun, ht⟩ := h
    refine ⟨t, hrun, ht.congr (fun b => ?_) fun b e => ?_⟩
    · rw [between_cons]
      refine ⟨Or.imp_right .inr, ?_⟩
      rintro (hb | rfl | hb)
      · exact .inl hb
      · exact .inl ha
      · exact .inr hb
    · rw [List.append_assoc]
      rfl

/-- Writing behind an object that was made for it. -/
theorem Outcome.made {result : Except Error Unit × Store} {place : Option (List String × Planted)}
    (ha : inner a) (hplace : ∀ d planted, place = some (d, planted) → d ≠ [])
    (h : Outcome s root type (fun b => inner b ∨ b = a ++ [p]) part (a ++ [p]) result place) :
    Outcome s root type inner part a result (place.map fun place => (p :: place.1, place.2)) := by
  cases place with
  | none => exact h
  | some place =>
    obtain ⟨d, planted⟩ := place
    obtain ⟨t, hrun, ht⟩ := h
    have hstart := between_start (hplace d planted rfl) (a ++ [p])
    refine ⟨t, hrun, ht.congr (fun b => ?_) fun b e => ?_⟩
    · rw [between_cons]
      constructor
      · rintro ((hb | rfl) | hb)
        · exact .inl hb
        · exact .inr (.inr hstart)
        · exact .inr (.inr hb)
      · rintro (hb | rfl | hb)
        · exact .inl (.inl hb)
        · exact .inl (.inl ha)
        · exact .inr hb
    · rw [List.append_assoc]
      rfl

/-- Writing at steps from an inner object that part from all that is held. -/
theorem write (hs : s.Complete) (hv : s.Knows v) : ∀ (steps : List String) {t : Store} {x : ObjectRef}
    {a : List String} {σ : DataType} {inner : List String → Prop}, steps ≠ [] →
      Layout s t root type inner part → inner a → Inner s t root type a x σ →
      (∀ d planted, part d planted → ¬d <+: a ++ steps) → ¬inner (a ++ steps) →
      Outcome s root type inner part a ((Store.write x steps v).run t) (σ.plant (s.nodesOf v) v steps)
  | [], _, _, _, _, _, hne, _, _, _, _, _ => absurd rfl hne
  | [p], _, _, _, _, _, _, h, ha, hx, hheld, hfree =>
    h.write_last ha hx hfree fun _ hp => hheld _ _ hp List.prefix_rfl
  | p :: next :: rest, t, x, a, σ, inner, _, h, ha, hx, hheld, hfree => by
    have hsplit : a ++ p :: next :: rest = a ++ [p] ++ next :: rest := by simp
    have hpart : ∀ planted, ¬part (a ++ [p]) planted :=
      fun planted hp => hheld _ _ hp ⟨next :: rest, hsplit.symm⟩
    have hdom : t.kind x ≠ .dom := hx.of.kind_ne_dom
    rw [hsplit] at hheld hfree
    -- an object that is there leads on, and nothing changes before the rest of the way
    by_cases hin : inner (a ++ [p])
    · obtain ⟨c, τ, hc⟩ := h.object hin
      obtain ⟨d, hd, hof⟩ := hc.holds
      have hσ : σ.atSteps [p] = .ok τ := by
        have hdeclared := hc.declared
        rwa [DataType.atSteps_append, hx.declared] at hdeclared
      rw [run_write_object hdom (hx.child? hc), DataType.plant_object hσ hd hof]
      exact (write hs hv (next :: rest) (List.cons_ne_nil _ _) h hin hc hheld hfree).step ha
    -- nothing is there, so the property holds null and its type says what is made for it
    cases hσ : σ.atSteps [p] with
    | error e =>
      obtain ⟨e', hget⟩ := getProperty_error_of hx.of hσ
      rw [DataType.plant_error hσ]
      exact ⟨e', t, run_write_error hdom hget next rest v⟩
    | ok τ =>
      have hnull := DataType.slot?_of_unset hx.of hσ (h.unset ha hx hin hpart)
      rw [run_write_null hdom (getProperty_of_slot hnull)]
      cases hd : (madeType τ).newData? with
      | none =>
        rw [DataType.plant_none hσ hd]
        rcases hmake : (makeChild x p).run t with ⟨e | c, u⟩
        · exact ⟨e, u, run_bind_error hmake⟩
        · obtain ⟨d, hd'⟩ := newData?_of_makeChild ((setterType_of hx.of p).trans hσ) hmake
          cases hd.symm.trans hd'
      | some d =>
        obtain ⟨u, c, hmake, hnew, hmade, hput, hdata⟩ := makeChild_puts hx.of hx.made hσ hd
        have hgrown := hput.grown h.grown hx.new
        rw [run_bind_ok hmake]
        by_cases hnode : ∃ node, d = .dom node
        · obtain ⟨node, rfl⟩ := hnode
          -- a new document takes the rest of the path, and the content that the value had before all writes
          rw [DataType.plant_document hσ hd, run_write_dom hdata, hgrown.nodesOf hs hv]
          have hshows : Shows (u.setData c (.dom _))
              (.document (node.setContent (Text.path (next :: rest)) (s.nodesOf v))) (.object c) :=
            ⟨c, rfl, data_setData_self hmade⟩
          have hplant := h.plant hx hnull (hput.setData hx.made hnew _) ha hpart hshows
          refine ⟨_, rfl, hplant.congr (fun b => ?_) fun _ _ => Iff.rfl⟩
          rw [between_single]
          exact ⟨.inl, fun hb => hb.elim id fun hb => hb ▸ ha⟩
        · have hof : d.Of τ := of_newData? hd fun node he => hnode ⟨node, he⟩
          have hc : Inner s u root type (a ++ [p]) c τ := by
            refine ⟨?_, ?_, ⟨d, hd, hof⟩, hdata ▸ hof, Nat.le_trans h.grown.size hnew, hmade⟩
            · rw [reach?_concat, hput.reach? hnull hx.reach, Option.bind_some, child?_eq_some, hput.link]
              exact ObjectData.slot?_put_self hnull
            · rw [DataType.atSteps_append, hx.declared]
              exact hσ
          rw [DataType.plant_object hσ hd hof]
          refine Outcome.made ha (fun _ _ => DataType.ne_nil_of_plant)
            (write hs hv (next :: rest) (List.cons_ne_nil _ _)
              (h.branch hx hnull hput ha hpart hnew hc hd hdata) (.inr rfl) hc hheld ?_)
          rintro (hb | hb)
          · exact hfree hb
          · simpa using congrArg List.length hb

/-- An object on the way along a path stands at inner steps, if nothing held does. -/
theorem inner_of_reach (h : Layout s t root type inner part) (hroot : inner []) {steps : List String}
    (hheld : ∀ d planted, part d planted → ¬d <+: steps) {a : List String} (hle : a <+: steps) :
    ∀ {x}, t.reach? root a = some x → inner a := by
  induction a using List.reverseRecOn with
  | nil => exact fun _ => hroot
  | append_singleton a q ih =>
    intro x hx
    rw [reach?_concat] at hx
    obtain ⟨y, hy, hx⟩ := Option.bind_eq_some_iff.1 hx
    have ha := ih ((List.prefix_append ..).trans hle) hy
    obtain ⟨z, σ, hz⟩ := h.object ha
    cases hz.reach.symm.trans hy
    by_contra hin
    have hentry := h.unset ha hz hin fun planted hp => hheld _ _ hp hle
    rw [child?_eq_some] at hx
    rw [ObjectData.holds?_of_slot?_object hx] at hentry
    rcases σ.unset?_cases q with hσ | hσ <;> cases hentry.trans hσ

theorem inner_root (h : Layout s t root type inner part) (hroot : inner []) :
    Inner s t root type [] root type := by
  obtain ⟨x, σ, hx⟩ := h.object hroot
  cases hx.reach
  cases type.atSteps_nil.symm.trans hx.declared
  exact hx

/-- The type that is asked for at a path: the one that is declared there when the object that holds its
last step is there; any where one is missing; and none on a way on which no value can be written. -/
theorem setterType (hs : s.Complete) (h : Layout s t root type inner part) (hroot : inner [])
    {accessor : Accessor} (htakes : accessor.Takes (t.kind root)) {path : String}
    (hheld : ∀ d planted, part d planted → ¬d <+: Text.steps path) (hfree : ¬inner (Text.steps path)) :
    (∃ a last, Text.steps path = a ++ [last] ∧ inner a ∧
      accessor.setterType t (.object root) path = type.atPath path) ∨
    2 ≤ (Text.steps path).length ∧ accessor.setterType t (.object root) path = .ok .object ∨
    (∃ e, accessor.setterType t (.object root) path = .error e) ∧
      ∀ v, s.Knows v → type.plant (s.nodesOf v) v (Text.steps path) = none := by
  have howner : accessor.owner? t (.object root) path = t.walk root (Text.steps path) := by
    unfold Accessor.owner?
    rw [htakes.root path]
    rfl
  unfold Accessor.setterType
  rw [howner]
  cases way t root (Text.steps_ne_nil path) with
  | @owned a left x split reach owns walk _ =>
    refine .inl ?_
    have ha := h.inner_of_reach hroot hheld ⟨left, split.symm⟩ reach
    obtain ⟨z, σ, hz⟩ := h.object ha
    cases hz.reach.symm.trans reach
    obtain ⟨last, rfl⟩ : ∃ last, left = [last] := by
      refine owns.resolve_right fun hdom => ?_
      exact hz.of.kind_ne_dom hdom.1
    refine ⟨a, last, split, ha, ?_⟩
    rw [walk, DataType.atPath, split, DataType.atSteps_append, hz.declared]
    show t.setterType x (Text.path [last]) = _
    rw [Text.path_singleton]
    exact setterType_of hz.of last
  | missing split _ _ _ walk _ =>
    refine .inr (.inl ⟨?_, by rw [walk]; rfl⟩)
    rw [split, List.length_append, List.length_cons, List.length_cons]
    omega
  | @blocked e walk making =>
    refine .inr (.inr ⟨⟨e, by rw [walk]; rfl⟩, fun v hv => ?_⟩)
    -- a walk that is blocked ends every write with an error, so that no value is planted
    have houtcome := h.write hs hv (Text.steps path) (Text.steps_ne_nil path) hroot
      (h.inner_root hroot) hheld hfree
    have herror : (Store.write root (Text.steps path) v).run t = (.error e, t) := run_bind_error making
    cases hplace : type.plant (s.nodesOf v) v (Text.steps path) with
    | none => rfl
    | some place =>
      rw [hplace] at houtcome
      obtain ⟨u, hrun, -⟩ := houtcome
      cases herror.symm.trans hrun

end Layout

end Store

end RowMapper
