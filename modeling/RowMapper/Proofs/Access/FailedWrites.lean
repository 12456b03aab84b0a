/-
Writes that fail. What was made on the way before the failure stays made: a write that fails leaves the
store as it was, or it leaves one property that held null, of a bean on the way, with the new object or
the empty collection that was made for it (`Accessor.set_error`). No other object that was there changes,
and the value that was to be written is nowhere.
-/
import RowMapper.Proofs.Access.Walks

namespace RowMapper

namespace Store

variable {s t : Store} {r x c : ObjectRef} {p : String} {v : Value} {n : Nat}
  {entries : List (String × Value)}

/-! ## Writing through maps -/

/-- The objects from a number on are maps, and hold nothing but null and each other. -/
def MapsFrom (s : Store) (n : Nat) : Prop :=
  ∀ x, n ≤ x.index → ∃ entries, s.data x = .map entries ∧
    ∀ v ∈ (s.data x).values, v = .null ∨ ∃ c, v = .object c ∧ n ≤ c.index

/-- A map makes a map for a property that it does not hold. -/
theorem run_makeChild_map (hd : s.data x = .map entries) : (makeChild x p).run s =
    (.ok (s.newObject (.map [])).1,
      (s.newObject (.map [])).2.setData x ((s.data x).put p (.object (s.newObject (.map [])).1))) := by
  have hdom : s.kind x ≠ .dom := by
    unfold kind
    rw [hd]
    exact nofun
  have htype : s.setterType x p = .ok .object := by
    unfold setterType
    rw [hd]
  exact run_makeChild_object hdom htype rfl

theorem MapsFrom.newObject (h : s.MapsFrom n) : (s.newObject (.map [])).2.MapsFrom n := by
  intro y hy
  by_cases hself : y.index = s.objects.size
  · have hself : y = (s.newObject (.map [])).1 := congrArg ObjectRef.mk hself
    rw [hself, data_newObject_self]
    exact ⟨[], rfl, nofun⟩
  · rw [data_newObject_of_ne hself]
    exact h y hy

theorem mapsFrom_size (s : Store) : s.MapsFrom s.objects.size := by
  intro x hx
  rw [data_of_size_le hx]
  exact ⟨[], rfl, nofun⟩

/-- A map of them may come to refer to any of them, and so may any object before them. -/
theorem MapsFrom.put (h : s.MapsFrom n) (hd : t.data x = .map entries)
    (hvalues : n ≤ x.index → ∀ v ∈ (t.data x).values, v = .null ∨ ∃ c, v = .object c ∧ n ≤ c.index)
    (hc : n ≤ c.index) : (s.setData x ((t.data x).put p (.object c))).MapsFrom n := by
  intro y hy
  rcases data_setData_cases s x y ((t.data x).put p (.object c)) with he | ⟨rfl, he⟩ <;> rw [he]
  · exact h y hy
  · refine ⟨Table.put p (.object c) entries, by rw [hd]; rfl, fun v hv => ?_⟩
    rcases ObjectData.mem_values_put hv with hv | rfl
    · exact hvalues hy v hv
    · exact .inr ⟨c, rfl, hc⟩

/-- Making what is missing never fails among new maps. -/
theorem walkMaking_maps : ∀ (steps : List String) {s : Store} {r : ObjectRef}, s.MapsFrom n →
    n ≤ s.objects.size → n ≤ r.index → ∃ y left t, (walkMaking r steps).run s = (.ok (y, left), t) ∧
      n ≤ y.index ∧ t.MapsFrom n
  | [], s, r, hs, _, hr => ⟨r, [], s, rfl, hr, hs⟩
  | [last], s, r, hs, _, hr => ⟨r, [last], s, rfl, hr, hs⟩
  | step :: next :: rest, s, r, hs, hn, hr => by
    obtain ⟨entries, hd, hvalues⟩ := hs r hr
    have hdom : s.kind r ≠ .dom := by
      unfold kind
      rw [hd]
      exact nofun
    have hget : s.getProperty r step = .ok ((Table.get? step entries).getD .null) := by
      unfold getProperty
      rw [hd]
    have hheld : (Table.get? step entries).getD .null = .null ∨
        ∃ c, (Table.get? step entries).getD .null = .object c ∧ n ≤ c.index := by
      cases hv : Table.get? step entries with
      | none => exact .inl rfl
      | some v =>
        rw [hd] at hvalues
        exact hvalues v (Table.mem_values_of_get? hv)
    rcases hheld with hv | ⟨c, hv, hc⟩
    · rw [run_walkMaking_step next rest hdom (hget.trans (congrArg _ hv)), run_bind_ok (run_makeChild_map hd)]
      exact walkMaking_maps (next :: rest) (hs.newObject.put hd (fun _ => hvalues) hn) (by simp; omega) hn
    · rw [run_walkMaking_step next rest hdom (hget.trans (congrArg _ hv))]
      exact walkMaking_maps (next :: rest) hs hn hc

/-- What a write does behind the property that an object is missing from. -/
def finish (x : ObjectRef) (p : String) (steps : List String) (v : Value) : Edit Unit := do
  let child ← makeChild x p
  let (owner, left) ← walkMaking child steps
  Edit.change (·.setProperty owner (Text.path left) v)

/-- A write through a map never fails behind it. -/
theorem finish_map (hd : s.data x = .map entries) (steps : List String) :
    ∃ t, (finish x p steps v).run s = (.ok (), t) := by
  have hnew : ((s.newObject (.map [])).2.setData x
      ((s.data x).put p (.object (s.newObject (.map [])).1))).MapsFrom s.objects.size := by
    refine s.mapsFrom_size.newObject.put hd (fun hx => ?_) (Nat.le_refl _)
    rw [data_of_size_le hx]
    exact nofun
  obtain ⟨y, left, t, hwalk, hy, ht⟩ := walkMaking_maps steps hnew (by simp) (r := (s.newObject (.map [])).1)
    (Nat.le_refl _)
  obtain ⟨entries', hd', -⟩ := ht y hy
  have hset : t.setProperty y (Text.path left) v =
      .ok (t.setData y (.map (Table.put (Text.path left) v entries'))) := by
    unfold setProperty
    rw [hd']
  refine ⟨t.setData y (.map (Table.put (Text.path left) v entries')), ?_⟩
  rw [finish, run_bind_ok (run_makeChild_map hd), run_bind_ok hwalk]
  exact run_change_ok hset

/-! ## Writes that end on the way -/

/-- What a write leaves that failed behind making something: a property of a bean on the way held null,
and holds what was made for it. -/
structure Unfinished (s t : Store) (r : ObjectRef) (steps : List String) (x : ObjectRef) (p : String) :
    Prop where
  path : ∃ a next rest, steps = a ++ p :: next :: rest ∧ s.reach? r a = some x
  bean : s.kind x = .bean
  null : s.getProperty x p = .ok .null
  made : ∃ w, w.New s.objects.size ∧ t.data x = (s.data x).put p w
  alters : s.Alters t x

/-- Behind a property of a bean a write that fails leaves nothing made, or what it made there. -/
theorem finish_error {steps : List String} {e : Error} (hbean : s.kind x = .bean)
    (hrun : (finish x p steps v).run s = (.error e, t)) :
    t = s ∨ s.Alters t x ∧ ∃ w, w.New s.objects.size ∧ t.data x = (s.data x).put p w := by
  have hlt : x.index < s.objects.size := by
    by_contra hlt
    unfold kind at hbean
    rw [data_of_size_le (Nat.not_lt.1 hlt)] at hbean
    cases hbean
  have hdom : s.kind x ≠ .dom := by
    rw [hbean]
    exact nofun
  have hmaking := makeChild_making hdom p
  rcases hmake : (makeChild x p).run s with ⟨_ | c, u⟩ <;> rw [hmake] at hmaking <;>
    dsimp only at hmaking
  · rw [finish, run_bind_error hmake] at hrun
    cases hrun
    have halters := hmaking.alters hlt
    cases hmaking with
    | refused e => exact .inl rfl
    | collection w empty e => exact .inr ⟨halters, w, .inr (.inl empty), data_setData_self hlt⟩
  · have hlinked := makeChild_linked hdom hlt hmake
    obtain ⟨hbeyond, -⟩ := walkMaking_beyond steps hlinked.alters.fresh
      hlinked.alters.size hlinked.new
    -- a write that fails at its owner leaves what the walk to it left
    have ht : t = ((walkMaking c steps).run u).2 := by
      rw [finish, run_bind_ok hmake] at hrun
      rcases hwalk : (walkMaking c steps).run u with ⟨_ | ⟨owner, left⟩, u'⟩
      · rw [run_bind_error hwalk] at hrun
        cases hrun
        rfl
      · rw [run_bind_ok hwalk] at hrun
        cases hset : u'.setProperty owner (Text.path left) v with
        | ok u'' => cases (run_change_ok hset).symm.trans hrun
        | error e =>
          cases (run_change_error hset).symm.trans hrun
          rfl
    subst ht
    refine .inr ⟨hlinked.alters.beyond hbeyond, .object c, .inr (.inr ⟨c, rfl, hlinked.new⟩), ?_⟩
    rw [hbeyond.old x hlt, hlinked.link]

end Store

namespace Accessor

open Store

variable {accessor : Accessor} {s t : Store} {root v : Value} {path : String} {r : ObjectRef} {e : Error}

/-- A write that fails changes nothing, unless an object is missing on the way: then a property of a bean
that held null may be left with what was made for it, a new object or an empty collection. -/
theorem set_error (hrun : (accessor.set root path v).run s = (.error e, t)) :
    t = s ∨ accessor.owner? s root path = .ok none ∧
      ∃ r x p, root = .object r ∧ s.Unfinished t r (Text.steps path) x p := by
  have hread : (Edit.read (accessor.root · root path)).run s = (accessor.root s root path, s) := rfl
  cases hroot : accessor.root s root path with
  | error e =>
    rw [set, owner, run_bind_error (run_bind_error (hread.trans (by rw [hroot])))] at hrun
    cases hrun
    exact .inl rfl
  | ok r =>
    have howner : (accessor.owner root path).run s = (walkMaking r (Text.steps path)).run s := by
      rw [owner, run_bind_ok (hread.trans (by rw [hroot]))]
    cases way s r (Text.steps_ne_nil path) with
    | owned _ _ _ _ making =>
      rw [set, run_bind_ok (howner.trans making)] at hrun
      cases hset : s.setProperty _ _ v with
      | ok u => cases (run_change_ok hset).symm.trans hrun
      | error e =>
        cases (run_change_error hset).symm.trans hrun
        exact .inl rfl
    | blocked _ making =>
      rw [set, run_bind_error (howner.trans making)] at hrun
      cases hrun
      exact .inl rfl
    | @missing a p next rest x split reach kind null walk making =>
      have hfinish : (finish x p (next :: rest) v).run s = (.error e, t) := by
        rw [← hrun, finish, ← bind_assoc]
        refine run_bind_congr (making.symm.trans howner.symm) fun _ _ _ => rfl
      have hbean : s.kind x = .bean := by
        cases hd : s.data x with
        | map entries =>
          obtain ⟨u, hu⟩ := finish_map (p := p) (v := v) hd (next :: rest)
          cases hu.symm.trans hfinish
        | bean type fields =>
          unfold Store.kind
          rw [hd]
          rfl
        | dom node =>
          unfold Store.kind at kind
          rw [hd] at kind
          exact absurd rfl kind
      have hwalk : accessor.owner? s root path = .ok none := by
        unfold owner?
        rw [hroot]
        exact walk
      refine (finish_error hbean hfinish).imp id fun ⟨halters, hmade⟩ =>
        ⟨hwalk, r, x, p, eq_object_of_root hroot, ⟨a, next, rest, split, reach⟩, hbean, null, hmade, halters⟩

/-- The bean that is made on the way stays in its property, and so does one that is made in it. -/
theorem set_error_nested :
    let inner : DataType := .bean "C" [("n", .i32)]
    let s : Store := { objects := #[.newBean ⟨"P", [("child", .bean "D" [("child", inner)])]⟩] }
    let run := (Accessor.generic.set (.object ⟨0⟩) "child.child.n" (.string "x")).run s
    run = (.error (.conversion .string "i32"), run.2) ∧
      (run.2 = s ∨ Accessor.generic.owner? s (.object ⟨0⟩) "child.child.n" = .ok none ∧
        ∃ r x p, Value.object ⟨0⟩ = .object r ∧
          s.Unfinished run.2 r (Text.steps "child.child.n") x p) := by
  intro inner s run
  have hrun : run = (.error (.conversion .string "i32"), run.2) := rfl
  exact ⟨hrun, set_error hrun⟩

/-- A write that fails can leave more than there was: a bean that it made for a property that held null,
and an empty list. -/
theorem set_error_changes :
    let type : BeanType := ⟨"P", [("child", .bean "C" [("n", .i32)]), ("items", .list)]⟩
    let s : Store := { objects := #[.newBean type] }
    let child := (Accessor.generic.set (.object ⟨0⟩) "child.n" (.string "x")).run s
    let items := (Accessor.generic.set (.object ⟨0⟩) "items.n" (.string "x")).run s
    s.data ⟨0⟩ = .bean type [.null, .null] ∧
      child.1 = .error (.conversion .string "i32") ∧
      child.2.data ⟨0⟩ = .bean type [.object ⟨1⟩, .null] ∧
      items.1 = .error (.configuration (.notAnObject "items" .list)) ∧
      items.2.data ⟨0⟩ = .bean type [.null, .list []] := by
  exact ⟨rfl, rfl, rfl, rfl, rfl⟩

end Accessor

end RowMapper
