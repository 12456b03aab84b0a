/-
Reading behind writing. What is written at a path is read there again: from a map as it is, from a bean
as one of the type that is declared, and from a document as its text (`Accessor.get_of_set`). The write
makes what is missing where the read then finds it, since no object on the way is passed twice.
-/
import Mathlib.Logic.Relation
import RowMapper.Proofs.Access.Walks

namespace RowMapper

open Relation

/-! ## Documents -/

namespace DomNode

variable {name step : String} {children : List DomNode} {f : DomNode → DomNode}

/-- The element that is changed is found, whether it was there or is made. -/
theorem child?_modifyChild (name : String) (children : List DomNode)
    (hf : ∀ nodes, (f (.element step nodes)).name? = some step) :
    ∃ nodes, (DomNode.element name (modifyChild step f children)).child? step =
      some (f (.element step nodes)) := by
  simp only [child?, DomNode.children]
  induction children with
  | nil => exact ⟨[], List.find?_cons_of_pos (by simp [hf])⟩
  | cons node nodes ih =>
    by_cases hname : (node.name? == some step) = true
    · rw [modifyChild, if_pos hname]
      cases node with
      | text text => cases hname
      | element label content =>
        obtain rfl : label = step := by simpa [name?] using hname
        exact ⟨content, List.find?_cons_of_pos (by simp [hf])⟩
    · obtain ⟨content, hcontent⟩ := ih
      refine ⟨content, ?_⟩
      rw [modifyChild, if_neg hname, List.find?_cons_of_neg (by exact hname)]
      exact hcontent

theorem name?_modifySteps (f : List DomNode → List DomNode) (steps : List String) (node : DomNode) :
    (modifySteps f steps node).name? = node.name? := by
  cases node <;> cases steps <;> rfl

/-- What is put at a path of elements is found there. -/
theorem findSteps?_modifySteps (f : List DomNode → List DomNode) (steps : List String) :
    ∀ (name : String) (children : List DomNode), ∃ label content,
      findSteps? steps (modifySteps f steps (.element name children)) =
        some (.element label (f content)) := by
  induction steps with
  | nil => exact fun name children => ⟨name, children, rfl⟩
  | cons step steps ih =>
    intro name children
    obtain ⟨nodes, hnodes⟩ := child?_modifyChild name children (fun nodes =>
      name?_modifySteps f steps (.element step nodes))
    obtain ⟨label, content, hfound⟩ := ih step nodes
    refine ⟨label, content, ?_⟩
    unfold modifySteps findSteps?
    rw [hnodes]
    exact hfound

/-- The content that an element is given is found at its path. -/
theorem find?_setContent (name : String) (children : List DomNode) (path : String)
    (content : List DomNode) : ∃ label,
      ((DomNode.element name children).setContent path content).find? path =
        some (.element label content) := by
  obtain ⟨label, _, h⟩ := findSteps?_modifySteps (fun _ => content) (Text.steps path) name children
  exact ⟨label, h⟩

theorem setContent_element (name : String) (children : List DomNode) (path : String)
    (content : List DomNode) : ∃ nodes,
      (DomNode.element name children).setContent path content = .element name nodes := by
  unfold setContent
  cases Text.steps path with
  | nil => exact ⟨_, rfl⟩
  | cons step steps => exact ⟨_, rfl⟩

/-- A text takes no content, and has no elements to be found. -/
theorem setContent_text (text path : String) (content : List DomNode) :
    (DomNode.text text).setContent path content = .text text := by
  unfold setContent
  cases Text.steps path <;> rfl

theorem find?_text (text path : String) : (DomNode.text text).find? path = none := by
  obtain ⟨step, steps, hsteps⟩ := List.exists_cons_of_ne_nil (Text.steps_ne_nil path)
  unfold find?
  rw [hsteps]
  rfl

end DomNode

/-- A truth value, a number, a text, bytes or a timestamp. -/
def Value.isScalar : Value → Bool
  | .bool _ | .i32 _ | .i64 _ | .f64 _ | .string _ | .bytes _ | .timestamp _ => true
  | _ => false

theorem Value.plain_of_isScalar {v : Value} (h : v.isScalar = true) : v.Plain := by
  cases v <;> first | exact ⟨rfl, rfl⟩ | cases h

namespace Store

theorem nodesOf_of_isScalar (s : Store) {v : Value} (h : v.isScalar = true) :
    s.nodesOf v = [.text (s.text v)] := by
  cases v <;> first | rfl | cases h

/-! ## Objects in order -/

variable {s t : Store} {r x y : ObjectRef} {p path : String} {v w : Value} {steps left : List String}

/-- One object refers to another at a property. -/
def RefersTo (s : Store) (x y : ObjectRef) : Prop := .object y ∈ (s.data x).values

/-- What an object leads to is in the store, has a field for every property that is a bean, and leads to
itself nowhere. -/
structure InOrder (s : Store) (r : ObjectRef) : Prop where
  made : ∀ x, ReflTransGen s.RefersTo r x → x.index < s.objects.size
  whole : ∀ x, ReflTransGen s.RefersTo r x → (s.data x).Whole
  acyclic : ∀ x, ReflTransGen s.RefersTo r x → ¬TransGen s.RefersTo x x

theorem refersTo_of_child? (h : s.child? x p = some y) : s.RefersTo x y :=
  getProperty_object (getProperty_eq_object.2 h)

theorem leads_of_reach? {a : List String} (h : s.reach? r a = some x) : ReflTransGen s.RefersTo r x := by
  induction a generalizing r with
  | nil =>
    cases h
    exact .refl
  | cons q a ih =>
    rw [reach?_cons] at h
    obtain ⟨z, hz, h⟩ := Option.bind_eq_some_iff.1 h
    exact .head (refersTo_of_child? hz) (ih h)

/-- Steps lead along a path to an object that the path does not come to before its end. -/
structure LeadsTo (s : Store) (r : ObjectRef) (a : List String) (y : ObjectRef) : Prop where
  reach : s.reach? r a = some y
  once : ∀ b, b <+: a → s.reach? r b = some y → b = a

/-- Where no object leads to itself a path comes to its end only there. -/
theorem InOrder.leadsTo (h : s.InOrder r) {a : List String} (hx : s.reach? r a = some x) :
    s.LeadsTo r a x := by
  refine ⟨hx, fun b hb hbx => ?_⟩
  obtain ⟨c, rfl⟩ := hb
  cases c with
  | nil => exact (List.append_nil b).symm
  | cons q c =>
    rw [reach?_append, hbx, Option.bind_some, reach?_cons] at hx
    obtain ⟨z, hz, hx⟩ := Option.bind_eq_some_iff.1 hx
    exact absurd (.head' (refersTo_of_child? hz) (leads_of_reach? hx)) (h.acyclic x (leads_of_reach? hbx))

/-- A new object is in order. -/
theorem InOrder.of_blank (hlt : r.index < s.objects.size) (hblank : (s.data r).Blank) : s.InOrder r := by
  have hnone : ∀ z, ¬s.RefersTo r z := fun z hz => nomatch hblank.null _ hz
  have hself : ∀ x, ReflTransGen s.RefersTo r x → x = r := fun x hx => by
    rcases hx.cases_head with he | ⟨z, hz, -⟩
    · exact he.symm
    · exact absurd hz (hnone z)
  refine ⟨fun x hx => hself x hx ▸ hlt, fun x hx => hself x hx ▸ hblank.whole, fun x hx hcycle => ?_⟩
  obtain rfl := hself x hx
  obtain ⟨z, hz, -⟩ := TransGen.head'_iff.1 hcycle
  exact hnone z hz

/-! ## The owner that is written to -/

/-- What is read from an object that has all its fields is in a slot of it, unless it is a document. -/
theorem slot?_of_whole (h : (s.data x).Whole) (hdom : s.kind x ≠ .dom)
    (hget : s.getProperty x p = .ok v) : (s.data x).slot? p = some v := by
  cases hd : s.data x with
  | map entries =>
    have hof : (s.data x).Of .map := by
      rw [hd]
      rfl
    exact hd ▸ slot_of_getProperty hof hget
  | bean type fields =>
    have hof : (s.data x).Of type.type := by
      rw [hd] at h ⊢
      exact ⟨rfl, h⟩
    exact hd ▸ slot_of_getProperty hof hget
  | dom node =>
    unfold kind at hdom
    rw [hd] at hdom
    exact absurd rfl hdom

/-- What a write finds its way to: an owner that is behind some of the steps, once. -/
structure OwnerFound (t : Store) (r : ObjectRef) (steps : List String) (y : ObjectRef) (left : List String) :
    Prop where
  leads : ∃ a, steps = a ++ left ∧ t.LeadsTo r a y
  owns : t.Owns y left
  made : y.index < t.objects.size
  whole : (t.data y).Whole

/-- A child that is made for a property that held null is found behind it, and so is what is found behind
the child. -/
theorem OwnerFound.missing {u : Store} {c : ObjectRef} {a rest : List String} (hs : s.InOrder r)
    (hx : s.reach? r a = some x) (hnull : (s.data x).slot? p = some .null)
    (hdata : u.data x = (s.data x).put p (.object c))
    (hothers : ∀ z, z.index < s.objects.size → z ≠ x → u.data z = s.data z)
    (hy : s.objects.size ≤ y.index) (h : u.OwnerFound c rest y left) :
    u.OwnerFound r (a ++ p :: rest) y left := by
  obtain ⟨⟨b, hsplit, hleads⟩, howns, hmade, hwhole⟩ := h
  have hchild : u.child? x p = some c := by
    rw [child?_eq_some, hdata]
    exact ObjectData.slot?_put_self hnull
  have hmono : ∀ {z q d}, s.child? z q = some d → u.child? z q = some d :=
    fun hd => child?_of_put hnull hdata hothers hd
  have hreach : ∀ b, u.reach? r (a ++ p :: b) = u.reach? c b := by
    intro b
    rw [reach?_append, reach?_mono hmono hx, Option.bind_some, reach?_cons, hchild]
    rfl
  refine ⟨⟨a ++ p :: b, by simp [hsplit], (hreach b).trans hleads.reach, fun b' hb' hy' => ?_⟩, howns,
    hmade, hwhole⟩
  obtain ⟨e, he⟩ := hb'
  rcases List.append_eq_append_iff.1 he with ⟨a', rfl, -⟩ | ⟨c', rfl, hc'⟩
  · -- up to the child the way leads along objects that were there
    obtain ⟨z, hz, -⟩ := Option.bind_eq_some_iff.1 ((reach?_append ..).symm.trans hx)
    obtain rfl := Option.some.inj ((reach?_mono hmono hz).symm.trans hy')
    exact absurd (hs.made z (leads_of_reach? hz)) (Nat.not_lt.2 hy)
  · cases c' with
    | nil =>
      rw [List.append_nil] at hy'
      obtain rfl := Option.some.inj ((reach?_mono hmono hx).symm.trans hy')
      exact absurd (hs.made x (leads_of_reach? hx)) (Nat.not_lt.2 hy)
    | cons q c' =>
      obtain ⟨rfl, hb⟩ := List.cons.inj hc'
      rw [hreach] at hy'
      rw [hleads.once c' ⟨e, hb.symm⟩ hy']

/-- A write finds its way to an owner whenever its walk ends. -/
theorem walkMaking_found : ∀ {steps : List String} {s : Store} {r : ObjectRef}, s.InOrder r →
    steps ≠ [] → (walkMaking r steps).run s = (.ok (y, left), t) → t.OwnerFound r steps y left
  | steps, s, r, hs, hne, hrun => by
    cases way s r hne with
    | owned split reach owns _ making =>
      cases making.symm.trans hrun
      have hlead := leads_of_reach? reach
      exact ⟨⟨_, split, hs.leadsTo reach⟩, owns, hs.made _ hlead, hs.whole _ hlead⟩
    | blocked _ making => cases making.symm.trans hrun
    | @missing a p next rest x split reach kind null _ making =>
      obtain ⟨c, u, hmake, hrun⟩ := run_bind_eq_ok.1 (making.symm.trans hrun)
      have hx := hs.made x (leads_of_reach? reach)
      have hslot := slot?_of_whole (hs.whole x (leads_of_reach? reach)) kind null
      have hlinked := makeChild_linked kind hx hmake
      have hshort : rest.length + 1 < steps.length := by
        rw [split]
        simp
        omega
      -- what is made behind the child leaves the objects that were there, and the way to the child with them
      have hbeyond := walkMaking_beyond (next :: rest) hlinked.alters.fresh
        hlinked.alters.size hlinked.new
      rw [hrun] at hbeyond
      rw [split]
      refine .missing hs reach hslot ?_ (hlinked.alters.beyond hbeyond.1).others (hbeyond.2 y left rfl)
        (walkMaking_found (.of_blank hlinked.made hlinked.blank) (List.cons_ne_nil _ _) hrun)
      rw [hbeyond.1.old x hx, hlinked.link]
termination_by steps => steps.length

/-! ## Reading what was written -/

/-- A change of the owner leaves the way to it. -/
theorem LeadsTo.setData {a : List String} (h : s.LeadsTo r a y) (d : ObjectData) :
    (s.setData y d).reach? r a = some y := by
  suffices hall : ∀ b, b <+: a → (s.setData y d).reach? r b = s.reach? r b from
    (hall a List.prefix_rfl).trans h.reach
  intro b
  induction b using List.reverseRecOn with
  | nil => exact fun _ => rfl
  | append_singleton b q ih =>
    intro hb
    have hb' : b <+: a := (List.prefix_append ..).trans hb
    rw [reach?_concat, reach?_concat, ih hb']
    cases hz : s.reach? r b with
    | none => rfl
    | some z =>
      -- an earlier object on the way is not the owner, so that the change leaves it
      have hne : z ≠ y := by
        rintro rfl
        obtain rfl := h.once b hb' hz
        exact absurd hb.length_le (by simp)
      refine congrArg (fun d : ObjectData => (d.slot? q).bind Value.object?) ?_
      exact data_setData_of_ne hne

/-- What is read from the owner of a property that was written: the value, as the object takes it. -/
def GivesBack (t : Store) (owner : ObjectRef) (property : String) (v w : Value) : Prop :=
  match t.data owner with
  | .map _ => w = v
  | .bean type _ =>
    ∃ declared, type.propertyType? property = some declared ∧ declared.cast v = .ok w
  | .dom (.element _ _) => v.isScalar = true → w = .string (t.text v)
  | .dom (.text _) => w = .null

theorem givesBack_map {entries : List (String × Value)} (hd : s.data y = .map entries)
    (hlt : y.index < s.objects.size) (h : s.setProperty y p v = .ok t) :
    t.getProperty y p = .ok v ∧ t.GivesBack y p v v := by
  unfold setProperty at h
  rw [hd] at h
  cases h
  unfold getProperty GivesBack
  rw [data_setData_self hlt]
  dsimp only
  rw [Table.get?_put_self]
  exact ⟨rfl, rfl⟩

theorem givesBack_bean {type : BeanType} {fields : List Value} (hd : s.data y = .bean type fields)
    (hwhole : fields.length = type.properties.length) (hlt : y.index < s.objects.size)
    (h : s.setProperty y p v = .ok t) : ∃ w, t.getProperty y p = .ok w ∧ t.GivesBack y p v w := by
  have hdom : s.kind y ≠ .dom := by
    unfold kind
    rw [hd]
    exact nofun
  obtain ⟨declared, htype⟩ := setterType_of_setProperty h
  rw [setProperty_eq hdom htype] at h
  obtain ⟨w, hcast, rfl⟩ := Except.map_eq_ok_iff.1 h
  have hproperty : type.propertyType? p = some declared := by
    unfold setterType at htype
    rw [hd] at htype
    cases hg : type.propertyType? p with
    | none => simp [hg] at htype
    | some property => simpa [hg] using htype
  obtain ⟨i, hi⟩ := Table.exists_indexOf?_of_get? hproperty
  have hself : (s.setData y ((s.data y).put p w)).data y = .bean type (fields.set i w) := by
    rw [data_setData_self hlt, hd]
    simp only [ObjectData.put, hi]
  refine ⟨w, getProperty_of_slot ?_, ?_⟩
  · rw [hself, ObjectData.slot?_bean, hi]
    exact List.getElem?_set_self (hwhole ▸ Table.lt_of_indexOf? hi)
  · unfold GivesBack
    rw [hself]
    exact ⟨declared, hproperty, hcast⟩

/-- An element takes a scalar as its text, and a text takes nothing. -/
theorem givesBack_dom {node : DomNode} (hd : s.data y = .dom node) (hlt : y.index < s.objects.size)
    (h : s.setProperty y p v = .ok t) : ∃ w, t.getProperty y p = .ok w ∧ t.GivesBack y p v w := by
  unfold setProperty at h
  rw [hd] at h
  cases h
  have hself : (s.setData y (.dom (node.setContent p (s.nodesOf v)))).data y =
    .dom (node.setContent p (s.nodesOf v)) := data_setData_self hlt
  unfold getProperty GivesBack
  rw [hself]
  cases node with
  | text text =>
    rw [DomNode.setContent_text]
    dsimp only
    rw [DomNode.find?_text]
    exact ⟨.null, rfl, rfl⟩
  | element name children =>
    obtain ⟨label, hfound⟩ := DomNode.find?_setContent name children p (s.nodesOf v)
    obtain ⟨nodes, hnodes⟩ := DomNode.setContent_element name children p (s.nodesOf v)
    dsimp only
    rw [hfound, hnodes]
    refine ⟨_, rfl, fun hscalar => ?_⟩
    have htext := (Value.plain_of_isScalar hscalar).text_eq s (s.setData y (.dom (.element name nodes)))
    simp [nodesOf_of_isScalar s hscalar, htext, DomNode.contents, DomNode.content]

/-- A property that is written is read from its owner. -/
theorem getProperty_of_setProperty (hlt : y.index < s.objects.size) (hwhole : (s.data y).Whole)
    (h : s.setProperty y p v = .ok t) : ∃ w, t.getProperty y p = .ok w ∧ t.GivesBack y p v w := by
  cases hd : s.data y with
  | map entries => exact ⟨v, givesBack_map hd hlt h⟩
  | bean type fields =>
    rw [hd] at hwhole
    exact givesBack_bean hd hwhole hlt h
  | dom node => exact givesBack_dom hd hlt h

/-- The owner of a property owns it behind writing it. -/
theorem OwnerFound.walk_setProperty (h : s.OwnerFound r steps y left) (hset : s.setProperty y p v = .ok t) :
    t.walk r steps = .ok (some (y, left)) := by
  obtain ⟨⟨a, rfl, hleads⟩, howns, hmade, -⟩ := h
  obtain ⟨d, rfl, hwritten⟩ := setProperty_eq_ok hset
  rw [walk_reach (hleads.setData d) howns.ne_nil]
  refine Owns.walk (howns.imp_right fun ⟨hdom, hne⟩ => ⟨?_, hne⟩)
  unfold kind at hdom ⊢
  rw [data_setData_self hmade, hwritten.kind_eq, hdom]

end Store

namespace Accessor

open Store

variable {s t : Store} {r : ObjectRef} {path : String} {v : Value}

/-- What was written at a path is read there, as the owner of its last step takes it: maps as it is, beans
as one of the declared type, elements as text; where a document is a text it takes nothing, and null is
read. The objects that the root leads to are to be in order before the write, and may be so no more
behind it. -/
theorem get_of_set (hs : s.InOrder r)
    (hset : (Accessor.generic.set (.object r) path v).run s = (.ok (), t)) :
    ∃ owner left w, Accessor.generic.owner? t (.object r) path = .ok (some (owner, left)) ∧
      Accessor.generic.get t (.object r) path = .ok w ∧
      t.GivesBack owner (Text.path left) v w := by
  obtain ⟨⟨owner, left⟩, u, howner, hrun⟩ := run_bind_eq_ok.1 hset
  obtain ⟨start, _, hread, hwalk⟩ := run_bind_eq_ok.1 howner
  cases hread
  have hwrite := run_change_eq_ok hrun
  have hfound := walkMaking_found hs (Text.steps_ne_nil path) hwalk
  obtain ⟨w, hget, hback⟩ := getProperty_of_setProperty hfound.made hfound.whole hwrite
  have howner : Accessor.generic.owner? t (.object r) path = .ok (some (owner, left)) :=
    hfound.walk_setProperty hwrite
  refine ⟨owner, left, w, howner, ?_, hback⟩
  unfold get
  rw [howner]
  exact hget

/-- A bean and a document are made on the way, and the document takes the rest of the path. -/
theorem get_of_set_document :
    let inner : DataType := .bean "C" [("d", .dom)]
    let s : Store := { objects := #[.newBean ⟨"P", [("child", inner)]⟩] }
    let run := (Accessor.generic.set (.object ⟨0⟩) "child.d.x.y" (.i32 5)).run s
    s.InOrder ⟨0⟩ ∧ run = (.ok (), run.2) ∧
      ∃ owner left w, Accessor.generic.owner? run.2 (.object ⟨0⟩) "child.d.x.y" =
          .ok (some (owner, left)) ∧
        Accessor.generic.get run.2 (.object ⟨0⟩) "child.d.x.y" = .ok w ∧
        run.2.GivesBack owner (Text.path left) (.i32 5) w := by
  intro inner s run
  have hs : s.InOrder ⟨0⟩ :=
    .of_blank (by decide) ⟨fun v hv => List.eq_of_mem_replicate hv, nofun, rfl⟩
  have hrun : run = (.ok (), run.2) := rfl
  exact ⟨hs, hrun, get_of_set hs hrun⟩

/-- A document that is a text takes no elements: what is written there is ignored, and null is read. -/
theorem set_text_ignored :
    let s : Store := { objects := #[.map [("d", .object ⟨1⟩)], .dom (.text "t")] }
    s.InOrder ⟨0⟩ ∧ (Accessor.generic.set (.object ⟨0⟩) "d.x" (.i32 5)).run s = (.ok (), s) ∧
      Accessor.generic.get s (.object ⟨0⟩) "d.x" = .ok .null ∧
      (.null : Value) ≠ .string (s.text (.i32 5)) := by
  intro s
  have hrefers : ∀ x y, s.RefersTo x y → x = ⟨0⟩ ∧ y = ⟨1⟩ := by
    rintro ⟨_ | _ | n⟩ y h <;> simp [RefersTo, s, data, ObjectData.values] at h
    exact ⟨rfl, h⟩
  have hleads : ∀ x, ReflTransGen s.RefersTo ⟨0⟩ x → x = ⟨0⟩ ∨ x = ⟨1⟩ := fun x hx => by
    rcases hx.cases_tail with rfl | ⟨z, -, hz⟩
    · exact .inl rfl
    · exact .inr (hrefers z x hz).2
  refine ⟨⟨fun x hx => ?_, fun x hx => ?_, fun x hx hcycle => ?_⟩, rfl, rfl, by simp⟩
  · rcases hleads x hx with rfl | rfl <;> decide
  · rcases hleads x hx with rfl | rfl <;> trivial
  · obtain ⟨z, hz, -⟩ := TransGen.head'_iff.1 hcycle
    obtain ⟨y, -, hy⟩ := TransGen.tail'_iff.1 hcycle
    obtain rfl := (hrefers x z hz).1
    cases (hrefers y _ hy).2

end Accessor

end RowMapper
