/-
What is added to a store. Objects that are made behind those of a store, and whatever is done to them,
change nothing of what the store showed: a value that refers to what was there keeps its content
(`Store.Extends.content`), as long as no reference in the store dangles.
-/
import RowMapper.Access.Object
import RowMapper.Proofs.Data.Renaming

namespace RowMapper.Store

variable {s t : Store} {v : Value} {r : ObjectRef}

/-- Every reference in a value is to something in the store. -/
structure Knows (s : Store) (v : Value) : Prop where
  objects : ∀ r ∈ v.objects, r.index < s.objects.size
  lazies : ∀ r ∈ v.lazies, r.index < s.lazies.size

/-- No reference in the store dangles. -/
structure Complete (s : Store) : Prop where
  values : ∀ r, ∀ v ∈ (s.data r).values, s.Knows v
  loaded : ∀ r v, s.loaded? r = some v → s.Knows v

/-- The second store has the objects of the first as they are, and maybe more behind them. -/
structure Extends (s t : Store) : Prop where
  data : ∀ r, r.index < s.objects.size → t.data r = s.data r
  size : s.objects.size ≤ t.objects.size
  lazies : t.lazies = s.lazies

theorem Knows.of_plain (h : v.Plain) : s.Knows v := by
  refine ⟨fun r hr => ?_, fun r hr => ?_⟩
  · rw [h.objects] at hr
    cases hr
  · rw [h.lazies] at hr
    cases hr

theorem Knows.object (h : s.Knows (.object r)) : r.index < s.objects.size :=
  h.objects r (List.mem_singleton_self r)

theorem Knows.item {items : List Value} (ho : ∀ r ∈ Value.objectsIn items, r.index < s.objects.size)
    (hl : ∀ r ∈ Value.laziesIn items, r.index < s.lazies.size) : ∀ v ∈ items, s.Knows v := by
  induction items with
  | nil => exact nofun
  | cons w items ih =>
    rw [List.forall_mem_cons]
    exact ⟨⟨fun r hr => ho r (List.mem_append_left _ hr), fun r hr => hl r (List.mem_append_left _ hr)⟩,
      ih (fun r hr => ho r (List.mem_append_right _ hr)) fun r hr => hl r (List.mem_append_right _ hr)⟩

namespace Extends

instance : Std.Refl Extends := ⟨fun _ => ⟨fun _ _ => rfl, Nat.le_refl _, rfl⟩⟩

instance : IsTrans Store Extends :=
  ⟨fun _ _ _ h h' => ⟨fun r hr => (h'.data r (Nat.lt_of_lt_of_le hr h.size)).trans (h.data r hr),
    Nat.le_trans h.size h'.size, h'.lazies.trans h.lazies⟩⟩

/-- An object that is made stands behind those that are there. -/
theorem newObject (s : Store) (data : ObjectData) : s.Extends (s.newObject data).2 where
  data _ hr := data_newObject_of_ne (Nat.ne_of_lt hr)
  size := (s.size_newObject data).symm ▸ Nat.le_succ _
  lazies := rfl

theorem loaded? (h : s.Extends t) (r : LazyRef) : t.loaded? r = s.loaded? r := by
  unfold Store.loaded? lazyCell?
  rw [h.lazies]

/-- An object shows the same when what it holds does. -/
theorem objectContent (h : s.Extends t) (hr : r.index < s.objects.size) {inner inner' : Value → Content}
    (hi : ∀ v ∈ (s.data r).values, inner' v = inner v) :
    t.objectContent inner' r = s.objectContent inner r := by
  unfold Store.objectContent
  rw [h.data r hr]
  cases hd : s.data r with
  | map entries =>
    rw [hd] at hi
    refine congrArg (Content.map r) (List.map_congr_left fun entry he => ?_)
    rw [hi _ (List.mem_map_of_mem he)]
  | bean type fields =>
    rw [hd] at hi
    exact congrArg (Content.bean r type) (List.map_congr_left hi)
  | dom node => rfl

/-- Behind a trail a value shows the same in both stores, as long as each is seen to the end. -/
theorem unfold (h : s.Extends t) (hs : s.Complete) (n : Nat) : ∀ (m : Nat) (trail : Trail) (v : Value),
    s.Knows v → s.unseen trail ≤ n → t.unseen trail ≤ m → t.unfold m trail v = s.unfold n trail v := by
  induction n using Nat.strong_induction_on with
  | _ n ih =>
    intro m trail v hv hn hm
    rw [unfold_step hn, unfold_step hm]
    refine Value.contentWith_congr v (fun r hr => ?_) fun r hr => ?_
    · by_cases hold : r ∈ trail.objects
      · simp [hold]
      simp only [List.contains_eq_mem, hold, decide_false, Bool.false_eq_true, if_false]
      have hlt := hv.objects r hr
      have hs' := unseen_object hlt hold
      have ht' := unseen_object (Nat.lt_of_lt_of_le hlt h.size) hold
      -- the object is seen from here on, so that less is left unseen behind it
      exact h.objectContent hlt fun w hw => ih (n - 1) (by omega) (m - 1)
        { trail with objects := r :: trail.objects } w (hs.values r w hw) (by omega) (by omega)
    · by_cases hold : r ∈ trail.lazies
      · simp [hold]
      simp only [List.contains_eq_mem, hold, decide_false, Bool.false_eq_true, if_false]
      have hlt := hv.lazies r hr
      have hs' := unseen_lazy hlt hold
      have ht' := unseen_lazy (h.lazies ▸ hlt : r.index < t.lazies.size) hold
      unfold lazyContent
      rw [h.loaded?]
      cases hw : s.loaded? r with
      | none => rfl
      | some w =>
        exact congrArg (Content.loaded r) (ih (n - 1) (by omega) (m - 1)
          { trail with lazies := r :: trail.lazies } w (hs.loaded r w hw) (by omega) (by omega))

variable (h : s.Extends t) (hs : s.Complete)

include h hs

/-- What was there shows what it showed. -/
theorem content (hv : s.Knows v) : t.content v = s.content v :=
  h.unfold hs _ _ {} v hv (s.unseen_le_depth _) (t.unseen_le_depth _)

theorem text (hv : s.Knows v) : t.text v = s.text v := by
  unfold Store.text
  rw [h.content hs hv]

theorem nodeOf (hv : s.Knows v) : t.nodeOf v = s.nodeOf v := by
  have htext := h.text hs hv
  unfold Store.nodeOf
  cases v with
  | object r =>
    dsimp only
    rw [h.data r hv.object, htext]
  | _ => exact congrArg DomNode.text htext

/-- As content of an element it is what it was. -/
theorem nodesOf (hv : s.Knows v) : t.nodesOf v = s.nodesOf v := by
  have htext := h.text hs hv
  unfold Store.nodesOf
  cases v with
  | null => rfl
  | object r =>
    dsimp only
    rw [h.data r hv.object, htext]
  | list items | set items =>
    exact List.map_congr_left fun w hw => h.nodeOf hs (Knows.item hv.objects hv.lazies w hw)
  | _ => exact congrArg (fun text => [DomNode.text text]) htext

end Extends

end RowMapper.Store
