/-
Regions: sets of objects to which what is outside does not refer. No path leads into a region, so
writes that start outside of it leave its objects as they are. Collections outside may hold objects
of the region, since no path goes through them.
-/
import RowMapper.Proofs.Access.Object
import RowMapper.Proofs.Engine.Answers

namespace RowMapper

abbrev Region := ObjectRef → Prop

/-- The objects of a region are there, and the others refer to no object in it, and to none that is not
there. -/
structure Store.Shuts (s : Store) (R : Region) : Prop where
  made : ∀ r, R r → r.index < s.objects.size
  closed : ∀ q r, ¬R q → .object r ∈ (s.data q).values → r.index < s.objects.size ∧ ¬R r

/-- A value that is no object of a region, and none that is not there. -/
def Value.Outside (v : Value) (R : Region) (s : Store) : Prop :=
  ∀ r, v = .object r → r.index < s.objects.size ∧ ¬R r

section

variable {R : Region} {s t : Store} {v w : Value} {r : ObjectRef} {property : String}
  {d : ObjectData}

theorem Value.Outside.later (h : v.Outside R s) (hle : s.objects.size ≤ t.objects.size) :
    v.Outside R t := fun r hr => ⟨Nat.lt_of_lt_of_le (h r hr).1 hle, (h r hr).2⟩

theorem Value.Plain.outside (h : v.Plain) : v.Outside R s := fun r hr => absurd hr (h.ne_object r)

/-- The objects that are there when a store has a size. -/
def Region.below (n : Nat) : Region := fun r => r.index < n

/-- What is there is shut off from what is made later. -/
theorem Store.shuts_below (s : Store) : s.Shuts (Region.below s.objects.size) := by
  refine ⟨fun _ => id, fun q r hq hr => ?_⟩
  rw [data_of_size_le (Nat.not_lt.1 hq)] at hr
  cases hr

namespace Store.Shuts

/-- An object may refer to others outside, and one of the region to any. -/
theorem replace (h : s.Shuts R)
    (hd : ¬R r → ∀ p, .object p ∈ d.values → p.index < s.objects.size ∧ ¬R p) :
    (s.setData r d).Shuts R := by
  refine ⟨fun p hp => ?_, fun q p hq hp => ?_⟩
  · rw [size_setData]
    exact h.made p hp
  rw [size_setData]
  by_cases hqr : q = r
  · subst hqr
    by_cases hlt : q.index < s.objects.size
    · rw [data_setData_self hlt] at hp
      exact hd hq p hp
    · rw [setData_of_size_le (Nat.not_lt.1 hlt)] at hp
      exact h.closed q p hq hp
  · rw [data_setData_of_ne hqr] at hp
    exact h.closed q p hq hp

theorem setData (h : s.Shuts R) (hd : (s.data r).Written property v d)
    (hv : ¬R r → v.Outside R s) : (s.setData r d).Shuts R :=
  h.replace fun hr p hp => (hd.objects p hp).elim (h.closed r p hr) (hv hr p)

/-- A new object that holds nothing refers to no object. -/
theorem newObject (h : s.Shuts R) (hd : ∀ v ∈ d.values, v = .null) : (s.newObject d).2.Shuts R := by
  refine ⟨fun p hp => ?_, fun q p hq hp => ?_⟩
  · rw [size_newObject]
    exact Nat.lt_succ_of_lt (h.made p hp)
  have hold : .object p ∈ (s.data q).values := by
    by_cases hi : q.index = s.objects.size
    · have hself : q = (s.newObject d).1 := by
        cases q
        exact congrArg ObjectRef.mk hi
      rw [hself, data_newObject_self] at hp
      exact absurd (hd _ hp) nofun
    · rwa [data_newObject_of_ne hi] at hp
  rw [size_newObject]
  exact (h.closed q p hq hold).imp_left Nat.lt_succ_of_lt

/-- A new object is in no region that was shut before. -/
theorem outside_newObject (h : s.Shuts R) (d : ObjectData) :
    (Value.object (s.newObject d).1).Outside R (s.newObject d).2 := by
  rintro r hr
  cases hr
  refine ⟨?_, fun hin => absurd (h.made _ hin) (Nat.lt_irrefl _)⟩
  rw [size_newObject]
  exact Nat.lt_succ_self _

end Store.Shuts

end

namespace Region

variable {R : Region} {s t : Store} {v w : Value} {α : Type}

/-- Writing outside of a region. -/
def onStore (R : Region) : StoreCorrespondence where
  paired s t := s = t ∧ s.Shuts R
  later s t := s.objects.size ≤ t.objects.size ∧ ∀ r, R r → t.data r = s.data r
  refl _ := ⟨Nat.le_refl _, fun _ _ => rfl⟩
  trans h h' := ⟨Nat.le_trans h.1 h'.1, fun r hr => (h'.2 r hr).trans (h.2 r hr)⟩
  values s v w := v = w ∧ v.Outside R s
  owners _ r r' _ := r = r' ∧ ¬R r
  values_later h hv := ⟨hv.1, hv.2.later h.1⟩
  owners_later _ := id

/-- Reading, writing and making objects outside leaves a region as it is. -/
theorem writes (R : Region) : R.onStore.Writes where
  null := ⟨rfl, nofun⟩
  variant h := h.1 ▸ rfl
  object := by
    rintro s r w ⟨rfl, hr⟩
    exact ⟨r, rfl, fun _ => ⟨rfl, (hr r rfl).2⟩⟩
  kind h ho := h.1 ▸ ho.1 ▸ rfl
  type h ho := h.1 ▸ ho.1 ▸ rfl
  setterType _ h ho := h.1 ▸ ho.1 ▸ rfl
  getProperty := by
    rintro s t r r' step ⟨rfl, hs⟩ ⟨rfl, hr⟩
    refine .same fun v hv => ⟨rfl, ?_⟩
    rintro q rfl
    exact hs.closed r q hr (Store.getProperty_object hv)
  setProperty := by
    rintro s t r r' step a b rest hp ⟨rfl, hr⟩ - ⟨rfl, ha⟩
    have heq := hp.1
    subst heq
    cases hset : s.setProperty r (Text.path (step :: rest)) a with
    | error e =>
      refine .inr ?_
      rw [run_change_error hset]
      exact ⟨hp, R.onStore.refl s, rfl⟩
    | ok t =>
      obtain ⟨d, rfl, hd⟩ := Store.setProperty_eq_ok hset
      refine .inr ?_
      rw [run_change_ok hset]
      refine ⟨⟨rfl, hp.2.setData hd fun _ => ha⟩, ⟨Nat.le_of_eq (Store.size_setData ..).symm, ?_⟩, trivial⟩
      exact fun q hq => Store.data_setData_of_ne fun he => hr (he ▸ hq)
  newObject := by
    rintro s t data ⟨rfl, hs⟩ hd
    have hrun : (Edit.newObject data).run s =
        (.ok (.object (s.newObject data).1), (s.newObject data).2) := run_make_ok rfl
    refine .inr ?_
    rw [hrun]
    refine ⟨⟨rfl, hs.newObject hd⟩, ⟨?_, fun q hq => ?_⟩, rfl, hs.outside_newObject data⟩
    · rw [Store.size_newObject]
      exact Nat.le_succ _
    · exact Store.data_newObject_of_ne (Nat.ne_of_lt (hs.made q hq))
  empty := by
    intro s v type h
    refine ⟨rfl, ?_⟩
    rintro r rfl
    unfold DataType.emptyCollection? at h
    split at h <;> cases h

theorem later_of_inStep {edit : Edit α} {Q : Store → α → α → Prop}
    (h : R.onStore.InStep Q edit edit s s) : R.onStore.later s (edit.run s).2 :=
  (h.resolve_left fun ⟨_, he, _⟩ => he).2.1

end Region

end RowMapper
