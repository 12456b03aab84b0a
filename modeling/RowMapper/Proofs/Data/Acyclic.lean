/-
Values without cycles. Behind a value whose references lead nowhere twice, what has been passed on the
way does not matter: the content of such a value is put together from the contents of what it refers to
(`Store.content_step`), and each reference shows the same content wherever it stands
(`Store.named_content`).
-/
import Mathlib.Logic.Relation
import RowMapper.Proofs.Data.Equality
import RowMapper.Proofs.Data.Renaming

namespace RowMapper

open Relation

/-- A reference to an object or to a lazy value. -/
inductive Reference where
  | object (r : ObjectRef)
  | lazy (r : LazyRef)

/-- A map has no key twice, and the type of a bean no two properties of one name. -/
def ObjectData.Keyed : ObjectData → Prop
  | .map entries => (entries.map (·.1)).Nodup
  | .bean type _ => type.type.Proper
  | .dom _ => True

/-- What a value refers to. -/
def Value.references (v : Value) : List Reference :=
  v.objects.map .object ++ v.lazies.map .lazy

namespace Value

variable {v : Value}

theorem mem_references_object {r : ObjectRef} (h : r ∈ v.objects) : .object r ∈ v.references :=
  List.mem_append_left _ (List.mem_map_of_mem h)

theorem mem_references_lazy {r : LazyRef} (h : r ∈ v.lazies) : .lazy r ∈ v.references :=
  List.mem_append_right _ (List.mem_map_of_mem h)

/-- The content of a value, given what its references show. -/
def contentOf (v : Value) (shown : Reference → Content) : Content :=
  v.contentWith (fun r => shown (.object r)) fun r => shown (.lazy r)

theorem contentOf_congr {f g : Reference → Content} (h : ∀ x ∈ v.references, f x = g x) :
    v.contentOf f = v.contentOf g :=
  contentWith_congr v (fun _ hr => h _ (mem_references_object hr)) fun _ hr =>
    h _ (mem_references_lazy hr)

variable {items : List Value} {w : Value} {object : ObjectRef → Content}
  {lazy : LazyRef → Content}

theorem contentsWith_eq_map (items : List Value) :
    contentsWith object lazy items = items.map (contentWith object lazy) := by
  induction items with
  | nil => rfl
  | cons v items ih => rw [contentsWith, ih, List.map_cons]

/-- What an item refers to the collection does. -/
theorem references_item {x : Reference} (hw : w ∈ items) (hx : x ∈ w.references) :
    x ∈ (objectsIn items).map Reference.object ++ (laziesIn items).map Reference.lazy := by
  induction items with
  | nil => cases hw
  | cons v items ih =>
    simp only [objectsIn, laziesIn, List.map_append, List.mem_append] at ih ⊢
    rcases List.mem_cons.1 hw with rfl | hw
    · exact (List.mem_append.1 hx).imp .inl .inl
    · exact (ih hw).imp .inr .inr

end Value

namespace Store

variable {s : Store} {v w : Value} {trail trail' : Trail} {x y : Reference} {n : Nat}
  {inner inner' : Value → Content}

/-! ## References -/

/-- The values that stand behind a reference. -/
def held (s : Store) : Reference → List Value
  | .object r => (s.data r).values
  | .lazy r => (s.loaded? r).toList

/-- What stands behind the first reference refers to the second. -/
def Leads (s : Store) (x y : Reference) : Prop := ∃ v ∈ s.held x, y ∈ v.references

/-- No way from the value comes to a reference from which a way leads back to it. -/
def Acyclic (s : Store) (v : Value) : Prop :=
  ∀ x ∈ v.references, ∀ y, ReflTransGen s.Leads x y → ¬TransGen s.Leads y y

theorem Acyclic.held (h : s.Acyclic v) (hx : x ∈ v.references) (hw : w ∈ s.held x) : s.Acyclic w := by
  intro y hy z hz
  exact h x hx z (.head ⟨w, hw, hy⟩ hz)

/-- What a reference shows, given the content of the values behind it. -/
def shown (s : Store) (inner : Value → Content) : Reference → Content
  | .object r => s.objectContent inner r
  | .lazy r => s.lazyContent inner r

theorem shown_congr (h : ∀ w ∈ s.held x, inner w = inner' w) : s.shown inner x = s.shown inner' x := by
  cases x with
  | object r =>
    show s.objectContent inner r = s.objectContent inner' r
    replace h : ∀ w ∈ (s.data r).values, inner w = inner' w := h
    unfold objectContent
    cases hd : s.data r with
    | map entries =>
      rw [hd] at h
      refine congrArg (Content.map r) (List.map_congr_left fun entry he => ?_)
      rw [h entry.2 (List.mem_map_of_mem he)]
    | bean type fields =>
      rw [hd] at h
      exact congrArg (Content.bean r type) (List.map_congr_left h)
    | dom node => rfl
  | lazy r =>
    show s.lazyContent inner r = s.lazyContent inner' r
    replace h : ∀ w ∈ (s.loaded? r).toList, inner w = inner' w := h
    unfold lazyContent
    cases hw : s.loaded? r with
    | none => rfl
    | some w =>
      rw [hw] at h
      exact congrArg (Content.loaded r) (h w (List.mem_singleton_self w))

/-! ## Trails -/

namespace Trail

/-- The trail has passed a reference. -/
def Passed (trail : Trail) : Reference → Prop
  | .object r => r ∈ trail.objects
  | .lazy r => r ∈ trail.lazies

/-- The trail with one more reference. -/
def pass (trail : Trail) : Reference → Trail
  | .object r => { trail with objects := r :: trail.objects }
  | .lazy r => { trail with lazies := r :: trail.lazies }

theorem passed_pass (h : (trail.pass x).Passed y) : y = x ∨ trail.Passed y := by
  cases x <;> cases y <;> first | exact .inr h | skip
  · exact (List.mem_cons.1 h).imp_left (congrArg Reference.object)
  · exact (List.mem_cons.1 h).imp_left (congrArg Reference.lazy)

/-- No way from the value leads to what the trail has passed. -/
def Clear (s : Store) (trail : Trail) (v : Value) : Prop :=
  ∀ x ∈ v.references, ∀ y, ReflTransGen s.Leads x y → ¬trail.Passed y

theorem clear_start : ({} : Trail).Clear s v := by
  intro x _ y _ hpassed
  cases y <;> cases hpassed

/-- Behind a reference the way is clear of the reference as well. -/
theorem Clear.pass (h : trail.Clear s v) (hv : s.Acyclic v) (hx : x ∈ v.references)
    (hw : w ∈ s.held x) : (trail.pass x).Clear s w := by
  intro y hy z hz hpassed
  have hlead : s.Leads x y := ⟨w, hw, hy⟩
  rcases passed_pass hpassed with rfl | hpassed
  · exact hv _ hx _ .refl (TransGen.head' hlead hz)
  · exact h x hx z (.head hlead hz) hpassed

end Trail

/-- There is less to be seen behind a reference that holds something. -/
theorem unseen_pass (hw : w ∈ s.held x) (hnew : ¬trail.Passed x) :
    s.unseen (trail.pass x) < s.unseen trail := by
  cases x with
  | object r =>
    refine unseen_object (Nat.lt_of_not_le fun hle => ?_) hnew
    replace hw : w ∈ (s.data r).values := hw
    rw [data_of_size_le hle] at hw
    cases hw
  | lazy r =>
    refine unseen_lazy (Nat.lt_of_not_le fun hle => ?_) hnew
    simp [held, loaded?, lazyCell?, Array.getElem?_eq_none hle] at hw

/-! ## Contents -/

/-- One step into a value of which the trail has passed nothing. -/
theorem unfold_clear (hn : s.unseen trail ≤ n) (h : trail.Clear s v) :
    s.unfold n trail v = v.contentOf fun x => s.shown (s.unfold (n - 1) (trail.pass x)) x := by
  rw [unfold_step hn]
  refine Value.contentWith_congr v (fun r hr => ?_) fun r hr => ?_
  · have hnew : r ∉ trail.objects := h _ (Value.mem_references_object hr) _ .refl
    simp only [List.contains_eq_mem, hnew, decide_false, Bool.false_eq_true, if_false]
    rfl
  · have hnew : r ∉ trail.lazies := h _ (Value.mem_references_lazy hr) _ .refl
    simp only [List.contains_eq_mem, hnew, decide_false, Bool.false_eq_true, if_false]
    rfl

/-- What has been passed on the way to an acyclic value, and how far is looked, does not matter if it is
far enough. -/
theorem unfold_eq (n : Nat) : ∀ (m : Nat) (trail trail' : Trail) (v : Value), s.Acyclic v →
    trail.Clear s v → trail'.Clear s v → s.unseen trail ≤ n → s.unseen trail' ≤ m →
      s.unfold n trail v = s.unfold m trail' v := by
  induction n using Nat.strong_induction_on with
  | _ n ih =>
    intro m trail trail' v hv hclear hclear' hn hm
    rw [unfold_clear hn hclear, unfold_clear hm hclear']
    refine Value.contentOf_congr fun x hx => shown_congr fun w hw => ?_
    have hless := unseen_pass hw (hclear x hx x .refl)
    have hless' := unseen_pass hw (hclear' x hx x .refl)
    exact ih (n - 1) (by omega) (m - 1) (trail.pass x) (trail'.pass x) w (hv.held hx hw)
      (hclear.pass hv hx hw) (hclear'.pass hv hx hw) (by omega) (by omega)

/-- An acyclic value is put together from what its references show, and these from the contents of the
values behind them. -/
theorem content_step (h : s.Acyclic v) : s.content v = v.contentOf (s.shown s.content) := by
  unfold content
  rw [unfold_clear (s.unseen_le_depth _) Trail.clear_start]
  refine Value.contentOf_congr fun x hx => shown_congr fun w hw => ?_
  have hclear : ({} : Trail).Clear s v := Trail.clear_start
  have hless := unseen_pass hw (hclear x hx x .refl)
  have hdepth := s.unseen_le_depth {}
  exact unfold_eq _ _ _ {} w (h.held hx hw) (hclear.pass h hx hw) Trail.clear_start (by omega) hdepth

theorem content_map {r : ObjectRef} {entries : List (String × Value)} (h : s.Acyclic (.object r))
    (hd : s.data r = .map entries) :
    s.content (.object r) = .map r (entries.map fun entry => (entry.1, s.content entry.2)) := by
  refine (content_step h).trans ?_
  show s.objectContent s.content r = _
  unfold objectContent
  rw [hd]

theorem content_set (s : Store) (items : List Value) :
    s.content (.set items) = .set (items.map s.content) := by
  unfold content
  cases s.depth <;> exact congrArg Content.set (Value.contentsWith_eq_map items)

/-! ## Parts of a content -/

/-- What stands in the content of a reference is the content of a value behind it. -/
theorem children_shown {c : Content} (hc : c ∈ (s.shown inner x).children) :
    ∃ w ∈ s.held x, c = inner w := by
  cases x with
  | object r =>
    replace hc : c ∈ (s.objectContent inner r).children := hc
    show ∃ w ∈ (s.data r).values, c = inner w
    unfold objectContent at hc
    cases hd : s.data r with
    | map entries =>
      rw [hd] at hc
      simp only [Content.children, List.map_map, List.mem_map, Function.comp_apply] at hc
      obtain ⟨entry, he, rfl⟩ := hc
      exact ⟨entry.2, List.mem_map_of_mem he, rfl⟩
    | bean type fields =>
      rw [hd] at hc
      obtain ⟨w, hw, rfl⟩ := List.mem_map.1 hc
      exact ⟨w, hw, rfl⟩
    | dom node =>
      rw [hd] at hc
      cases hc
  | lazy r =>
    replace hc : c ∈ (s.lazyContent inner r).children := hc
    show ∃ w ∈ (s.loaded? r).toList, c = inner w
    unfold lazyContent at hc
    cases hw : s.loaded? r with
    | none =>
      rw [hw] at hc
      cases hc
    | some w =>
      rw [hw] at hc
      exact ⟨w, List.mem_singleton_self w, List.mem_singleton.1 hc⟩

/-- What stands in the content of an acyclic value is the content of one. -/
theorem children_content (h : s.Acyclic v) :
    ∀ c ∈ (s.content v).children, ∃ w, s.Acyclic w ∧ c = s.content w := by
  intro c hc
  rw [content_step h] at hc
  cases v with
  | list items | set items | record items =>
    replace hc : c ∈ Value.contentsWith _ _ items := hc
    rw [Value.contentsWith_eq_map] at hc
    obtain ⟨w, hw, rfl⟩ := List.mem_map.1 hc
    have hacyclic : s.Acyclic w := fun x hx => h x (Value.references_item hw hx)
    exact ⟨w, hacyclic, (content_step hacyclic).symm⟩
  | object r =>
    obtain ⟨w, hw, rfl⟩ := children_shown (x := .object r) hc
    exact ⟨w, h.held (List.mem_singleton_self _) hw, rfl⟩
  | lazy r =>
    obtain ⟨w, hw, rfl⟩ := children_shown (x := .lazy r) hc
    exact ⟨w, h.held (List.mem_singleton_self _) hw, rfl⟩
  | _ => cases hc

/-- What holds of the content of every acyclic value holds everywhere in it. -/
theorem everywhere_content {p : Content → Prop} (hp : ∀ w, s.Acyclic w → p (s.content w))
    (h : s.Acyclic v) : Content.Everywhere p (s.content v) := by
  induction hn : sizeOf (s.content v) using Nat.strong_induction_on generalizing v with
  | _ n ih =>
    subst hn
    refine .intro (hp v h) fun c hc => ?_
    obtain ⟨w, hw, rfl⟩ := children_content h c hc
    exact ih _ (Content.sizeOf_lt_of_mem_children hc) hw rfl

/-! ## Names and keys -/

/-- Every object of the store has its keys once. -/
def Keyed (s : Store) : Prop := ∀ r, (s.data r).Keyed

/-- A reference shows the same wherever it stands in an acyclic value. -/
theorem Keyed.sound_content (hs : s.Keyed) (h : s.Acyclic v) :
    (s.content v).Sound (fun r => s.content (.object r)) fun r => s.content (.lazy r) := by
  have hstep := content_step h
  cases v with
  | object r =>
    replace hstep : s.content (.object r) = s.objectContent s.content r := hstep
    unfold objectContent at hstep
    cases hd : s.data r with
    | map entries =>
      have hmap := content_map h hd
      rw [hmap]
      refine ⟨?_, hmap⟩
      show ((entries.map fun entry => (entry.1, s.content entry.2)).map (·.1)).Nodup
      rw [List.map_map]
      have hkeyed := hs r
      rw [hd] at hkeyed
      exact hkeyed
    | bean type fields =>
      rw [hd] at hstep
      rw [hstep]
      have hkeyed := hs r
      rw [hd] at hkeyed
      exact ⟨hkeyed, hstep⟩
    | dom node =>
      rw [hd] at hstep
      rw [hstep]
      exact ⟨trivial, hstep⟩
  | lazy r =>
    replace hstep : s.content (.lazy r) = s.lazyContent s.content r := hstep
    unfold lazyContent at hstep
    cases hw : s.loaded? r with
    | none | some w =>
      rw [hw] at hstep
      rw [hstep]
      exact ⟨trivial, hstep⟩
  | _ =>
    rw [hstep]
    exact ⟨trivial, trivial⟩

end Store

end RowMapper
