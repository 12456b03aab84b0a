/-
Equality of values, and sets. On values without cycles equality is transitive, on those whose sets hold
unequal members it is symmetric, and what holds no NaN equals itself; so a set that is filled value by
value holds the first occurrences (`Store.Keyed.same_laws`).

Those are the answers of a comparison that ends (`Store.Keyed.compare_laws`). It does unless the values
have an object in common that holds objects; comparing an object with what holds it may come to the
object while that is locked, and then there is no answer (`Store.nested_waits`).
-/
import Mathlib.Data.List.Induction
import RowMapper.Proofs.Data.Acyclic
import RowMapper.Proofs.Data.Locks

namespace RowMapper.Store

open Content (Everywhere)

variable {s : Store} {a b c v w : Value} {xs ys values members : List Value} {held : List ObjectRef}

/-- A value that leads to no cycle and in which the members of every set are pairwise unequal. -/
structure Comparable (s : Store) (v : Value) : Prop where
  acyclic : s.Acyclic v
  distinct : Everywhere Content.Distinct (s.content v)

/-- The values of a list that equal none of those before them. -/
def firstOccurrences (s : Store) (values : List Value) : List Value :=
  (values.zipIdx.filter fun e => !(values.take e.2).any fun earlier => s.same earlier e.1).map (·.1)

/-! ## Equality -/

namespace Keyed

variable (h : s.Keyed)

include h

theorem everywhere_sound (ha : s.Acyclic a) :
    Everywhere (Content.Sound (fun r => s.content (.object r)) fun r => s.content (.lazy r))
      (s.content a) :=
  everywhere_content (fun _ => h.sound_content) ha

theorem everywhere_tidy (ha : s.Comparable a) :
    Everywhere (Content.Tidy (fun r => s.content (.object r)) fun r => s.content (.lazy r))
      (s.content a) :=
  ((h.everywhere_sound ha.acyclic).and ha.distinct).imp fun _ hc => ⟨hc.1, hc.2⟩

theorem same_comm (ha : s.Comparable a) (hb : s.Comparable b) : s.same a b = s.same b a :=
  Content.same_comm (h.everywhere_tidy ha) (h.everywhere_tidy hb)

theorem same_trans (ha : s.Acyclic a) (hb : s.Acyclic b) (hc : s.Acyclic c) (hab : s.same a b = true)
    (hbc : s.same b c = true) : s.same a c = true :=
  Content.same_trans (h.everywhere_sound hb) (h.everywhere_sound ha) (h.everywhere_sound hc) hab hbc

/-- Two maps that hold the same entries, in whatever order. -/
theorem same_of_entries_perm {r q : ObjectRef} {xs ys : List (String × Value)} (hr : s.data r = .map xs)
    (hq : s.data q = .map ys) (hperm : xs.Perm ys) (ha : s.Acyclic (.object r))
    (hb : s.Acyclic (.object q)) (hfree : (s.content (.object r)).NaNFree) :
    s.same (.object r) (.object q) = true := by
  have hleft := content_map ha hr
  have hright := content_map hb hq
  unfold same
  rw [hleft] at hfree
  rw [hleft, hright]
  apply Content.same_map_of_perm (hperm.map _) _ hfree
  have hkeyed := h r
  rw [hr] at hkeyed
  rw [List.map_map]
  exact hkeyed

end Keyed

theorem same_self (h : (s.content a).NaNFree) : s.same a a = true := Content.agrees_self h false

theorem same_set_of_perm (h : xs.Perm ys) (hfree : (s.content (.set xs)).NaNFree) :
    s.same (.set xs) (.set ys) = true := by
  unfold same
  rw [content_set] at hfree ⊢
  rw [content_set]
  exact Content.same_set_of_perm (h.map _) hfree

/-! ## Insertion -/

theorem distinct_concat (values : List Value) (v : Value) :
    s.distinct (values ++ [v]) = s.addMember (s.distinct values) v := List.foldl_append

theorem firstOccurrences_concat (values : List Value) (v : Value) :
    s.firstOccurrences (values ++ [v]) =
      if values.any (s.same · v) then s.firstOccurrences values else s.firstOccurrences values ++ [v] := by
  have htake : values.zipIdx.filter (fun e => !((values ++ [v]).take e.2).any fun w => s.same w e.1) =
      values.zipIdx.filter fun e => !(values.take e.2).any fun w => s.same w e.1 := by
    refine List.filter_congr fun e he => ?_
    have hlt := List.snd_lt_of_mem_zipIdx he
    rw [List.take_append_of_le_length (by omega)]
  unfold firstOccurrences
  rw [List.zipIdx_append, List.filter_append, htake]
  by_cases hany : values.any (s.same · v) = true
  · simp [hany]
  · simp [hany]

theorem distinct_subset (s : Store) (values : List Value) : s.distinct values ⊆ values := by
  induction values using List.reverseRecOn with
  | nil => exact List.Subset.refl _
  | append_singleton values v ih =>
    rw [distinct_concat]
    unfold addMember
    split
    · exact List.subset_append_of_subset_left _ ih
    · exact List.append_subset.2 ⟨List.subset_append_of_subset_left _ ih, List.subset_append_right ..⟩

/-- What was to be inserted is a member now, or equals one. -/
theorem mem_distinct_or (s : Store) (values : List Value) : ∀ w ∈ values,
    w ∈ s.distinct values ∨ ∃ member ∈ s.distinct values, s.same member w = true := by
  induction values using List.reverseRecOn with
  | nil => exact nofun
  | append_singleton values v ih =>
    intro w hw
    rw [distinct_concat]
    unfold addMember
    split
    · rename_i hmember
      rcases List.mem_append.1 hw with hw | hw
      · exact ih w hw
      · rw [List.mem_singleton.1 hw]
        exact .inr (List.any_eq_true.1 hmember)
    · rcases List.mem_append.1 hw with hw | hw
      · refine (ih w hw).imp (List.mem_append_left _) fun ⟨member, hmem, hsame⟩ => ?_
        exact ⟨member, List.mem_append_left _ hmem, hsame⟩
      · exact .inl (List.mem_append_right _ hw)

/-- No member equals one that was inserted after it. -/
theorem pairwise_distinct (s : Store) (values : List Value) :
    (s.distinct values).Pairwise fun a b => s.same a b = false := by
  induction values using List.reverseRecOn with
  | nil => exact .nil
  | append_singleton values v ih =>
    rw [distinct_concat]
    unfold addMember
    split
    · exact ih
    · rename_i hnew
      refine List.pairwise_append.2 ⟨ih, List.pairwise_singleton .., fun member hmem w hw => ?_⟩
      rw [List.mem_singleton.1 hw, ← Bool.not_eq_true]
      intro hsame
      exact hnew (List.any_eq_true.2 ⟨member, hmem, hsame⟩)

namespace Keyed

variable (h : s.Keyed)

include h

/-- A value has an equal among the members if it has one among all that was inserted. -/
theorem isMember_distinct (hvalues : ∀ w ∈ values, s.Acyclic w) (hv : s.Acyclic v) :
    s.isMember (s.distinct values) v = values.any (s.same · v) := by
  rw [Bool.eq_iff_iff, isMember, List.any_eq_true, List.any_eq_true]
  constructor
  · rintro ⟨member, hmem, hsame⟩
    exact ⟨member, s.distinct_subset values hmem, hsame⟩
  · rintro ⟨w, hw, hsame⟩
    rcases s.mem_distinct_or values w hw with hmem | ⟨member, hmem, hmember⟩
    · exact ⟨w, hmem, hsame⟩
    · have hacyclic := hvalues member (s.distinct_subset values hmem)
      exact ⟨member, hmem, h.same_trans hacyclic (hvalues w hw) hv hmember hsame⟩

theorem distinct_eq_firstOccurrences (hvalues : ∀ w ∈ values, s.Acyclic w) :
    s.distinct values = s.firstOccurrences values := by
  induction values using List.reverseRecOn with
  | nil => rfl
  | append_singleton values v ih =>
    rw [List.forall_mem_append, List.forall_mem_singleton] at hvalues
    rw [distinct_concat, firstOccurrences_concat, addMember, h.isMember_distinct hvalues.1 hvalues.2,
      ih hvalues.1]

/-- Equality of values is transitive where no reference leads to a cycle, symmetric where moreover the
members of every set are pairwise unequal, and reflexive where there is no NaN; sets and maps that hold
the same in different orders are equal. When values are inserted into a set one by one no member equals
an earlier one, and the members are the first occurrences, in order. -/
theorem same_laws :
    (∀ a b, s.Comparable a → s.Comparable b → s.same a b = s.same b a) ∧
    (∀ a b c, s.Acyclic a → s.Acyclic b → s.Acyclic c →
      s.same a b = true → s.same b c = true → s.same a c = true) ∧
    (∀ a, (s.content a).NaNFree → s.same a a = true) ∧
    (∀ xs ys, xs.Perm ys → (s.content (.set xs)).NaNFree → s.same (.set xs) (.set ys) = true) ∧
    (∀ r q xs ys, s.data r = .map xs → s.data q = .map ys → xs.Perm ys → s.Acyclic (.object r) →
      s.Acyclic (.object q) → (s.content (.object r)).NaNFree →
        s.same (.object r) (.object q) = true) ∧
    (∀ values, (s.distinct values).Pairwise fun a b => s.same a b = false) ∧
    (∀ values, (∀ v ∈ values, s.Comparable v) →
      (s.distinct values).Pairwise fun a b => s.same a b = false ∧ s.same b a = false) ∧
    ∀ values, (∀ v ∈ values, s.Acyclic v) → s.distinct values = s.firstOccurrences values := by
  refine ⟨fun a b => h.same_comm, fun a b c => h.same_trans, fun a => same_self,
    fun xs ys => same_set_of_perm, fun r q xs ys => h.same_of_entries_perm, s.pairwise_distinct,
    fun values hvalues => ?_, fun values => h.distinct_eq_firstOccurrences⟩
  refine (s.pairwise_distinct values).imp_of_mem fun {a b} ha hb hne => ⟨hne, ?_⟩
  rw [h.same_comm (hvalues b (s.distinct_subset values hb)) (hvalues a (s.distinct_subset values ha))]
  exact hne

end Keyed

/-! ## Comparing -/

/-- No object that holds objects stands in both values. -/
def Separate (s : Store) (a b : Value) : Prop :=
  ∀ r, (s.content a).Without r ∨ (s.content b).Without r ∨
    ∀ c ∈ (s.content (.object r)).children, c.Bare

theorem isMember_of_find? (hvalues : ∀ member ∈ members, ∀ answer,
    s.compare? held member v = some answer → s.same member v = answer)
    {found : Bool} (h : s.find? held members v = some found) : s.isMember members v = found :=
  any_of_anyM hvalues h

theorem insertAll?_concat (values : List Value) (v : Value) :
    s.insertAll? (values ++ [v]) = (s.insertAll? values).bind (s.insert? [] · v) := by
  unfold insertAll?
  rw [List.foldlM_append]
  cases values.foldlM (s.insert? []) [] <;> simp

namespace Keyed

variable (h : s.Keyed)

include h

/-- A comparison that ends tells whether the values are equal. -/
theorem same_of_compare? (ha : s.Acyclic a) (hb : s.Acyclic b) {answer : Bool}
    (hc : s.compare? held a b = some answer) : s.same a b = answer :=
  Content.agrees_of_compare? (h.everywhere_sound ha) held false (h.everywhere_sound hb) answer hc

/-- A comparison ends if no object that holds objects stands in both values. -/
theorem compare?_isSome (ha : s.Acyclic a) (hb : s.Acyclic b) (hs : s.Separate a b) :
    (s.compare? [] a b).isSome :=
  Content.compare?_isSome ((h.everywhere_sound ha).tame fun _ => id) [] false
    ((h.everywhere_sound hb).tame fun _ => id) hs (.inr (.inr nofun))

theorem addMember_of_insert? (hmembers : ∀ member ∈ members, s.Acyclic member) (hv : s.Acyclic v)
    {values : List Value} (hi : s.insert? held members v = some values) :
    s.addMember members v = values := by
  obtain ⟨found, hfound, rfl⟩ := Option.map_eq_some_iff.1 hi
  have hmember : s.isMember members v = found := isMember_of_find?
    (fun member hmem _ hc => h.same_of_compare? (hmembers member hmem) hv hc) hfound
  rw [addMember, hmember]

theorem distinct_of_insertAll? (hvalues : ∀ v ∈ values, s.Acyclic v) : ∀ {members : List Value},
    s.insertAll? values = some members → s.distinct values = members := by
  induction values using List.reverseRecOn with
  | nil =>
    intro members hi
    exact Option.some.inj hi
  | append_singleton values v ih =>
    intro members hi
    rw [List.forall_mem_append, List.forall_mem_singleton] at hvalues
    rw [insertAll?_concat] at hi
    obtain ⟨before, hbefore, hi⟩ := Option.bind_eq_some_iff.1 hi
    obtain rfl := ih hvalues.1 hbefore
    rw [distinct_concat]
    exact h.addMember_of_insert? (fun member hmem => hvalues.1 _ (s.distinct_subset values hmem))
      hvalues.2 hi

theorem insertAll?_isSome (hvalues : ∀ v ∈ values, s.Acyclic v) (hs : values.Pairwise s.Separate) :
    (s.insertAll? values).isSome := by
  induction values using List.reverseRecOn with
  | nil => rfl
  | append_singleton values v ih =>
    rw [List.forall_mem_append, List.forall_mem_singleton] at hvalues
    obtain ⟨hbefore, -, hlast⟩ := List.pairwise_append.1 hs
    obtain ⟨members, hmembers⟩ := Option.isSome_iff_exists.1 (ih hvalues.1 hbefore)
    obtain rfl := h.distinct_of_insertAll? hvalues.1 hmembers
    rw [insertAll?_concat, hmembers, Option.bind_some]
    refine Option.isSome_map.trans (anyM_isSome fun member hmem => ?_)
    have hmem := s.distinct_subset values hmem
    exact h.compare?_isSome (hvalues.1 member hmem) hvalues.2
      (hlast member hmem v (List.mem_singleton_self v))

/-- A comparison of values without cycles that ends tells whether they are equal, and it ends unless an
object that holds objects stands in both. Inserting values into a set one by one, if it ends, leaves the
first occurrences, and it ends unless two of the values have such an object in common. -/
theorem compare_laws :
    (∀ held a b answer, s.Acyclic a → s.Acyclic b → s.compare? held a b = some answer →
      s.same a b = answer) ∧
    (∀ a b, s.Acyclic a → s.Acyclic b → s.Separate a b → (s.compare? [] a b).isSome) ∧
    (∀ values members, (∀ v ∈ values, s.Acyclic v) → s.insertAll? values = some members →
      members = s.firstOccurrences values) ∧
    ∀ values, (∀ v ∈ values, s.Acyclic v) → values.Pairwise s.Separate →
      (s.insertAll? values).isSome := by
  refine ⟨fun _ _ _ _ ha hb => h.same_of_compare? ha hb, fun _ _ => h.compare?_isSome,
    fun values members hv hi => ?_,
    fun _ => h.insertAll?_isSome⟩
  rw [← h.distinct_of_insertAll? hv hi, h.distinct_eq_firstOccurrences hv]

end Keyed

/-- A box, a box that holds it, and a box that holds that one. -/
def nested : Store :=
  { objects := #[.map [], .map [("x", .object ⟨0⟩)], .map [("x", .object ⟨1⟩)]] }

/-- Two boxes of which one holds the other differ. From the outer to the inner the comparison waits for
the lock that it holds, the other way it ends; inserting both into a set ends in one order only. -/
theorem nested_waits :
    let outer : Value := .object ⟨2⟩
    let inner : Value := .object ⟨1⟩
    nested.same outer inner = false ∧ nested.same inner outer = false ∧
    nested.compare? [] outer inner = none ∧ nested.compare? [] inner outer = some false ∧
    nested.insertAll? [outer, inner] = none ∧
    (nested.insertAll? [inner, outer]).map List.length = some 2 := by
  decide

end RowMapper.Store
