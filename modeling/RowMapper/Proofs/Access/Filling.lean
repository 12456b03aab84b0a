/-
New objects of a map. A map that gives maps or beans starts from an object with nothing in it, which
comes behind all others in the store, and fills it with the values of the row. What is watched of the
object is not written meanwhile, unless a value is for it.
-/
import RowMapper.Mapping.Exchange
import RowMapper.Proofs.Access.Watch

namespace RowMapper

namespace ResultMap

variable {m : ResultMap} {d : ObjectData}

theorem exchange_map (h : m.exchange = .map) :
    m.resultClass = none ∨ m.resultClass = some .object ∨ m.resultClass = some .map := by
  unfold exchange Exchange.ofType at h
  split at h <;> simp_all

theorem exchange_bean (h : m.exchange = .bean) :
    ∃ name properties, m.resultClass = some (.bean name properties) := by
  unfold exchange Exchange.ofType at h
  split at h <;> simp_all

/-- What a new object of a map holds before it is filled, if the map gives maps or beans. -/
def blank? (m : ResultMap) : Option ObjectData :=
  match m.exchange, m.resultClass with
  | .map, _ => some (.map [])
  | .bean, some (.bean name properties) => some (.newBean ⟨name, properties⟩)
  | _, _ => none

theorem blank?_eq_some (h : m.blank? = some d) :
    m.exchange = .map ∧ d = .map [] ∨
      m.exchange = .bean ∧ ∃ type : BeanType, m.resultClass = some type.type ∧ d = .newBean type := by
  unfold blank? at h
  split at h
  · rename_i he
    cases h
    exact .inl ⟨he, rfl⟩
  · rename_i name properties he hc
    cases h
    exact .inr ⟨he, ⟨name, properties⟩, hc, rfl⟩
  · cases h

theorem exists_blank (h : m.exchange = .map ∨ m.exchange = .bean) : ∃ d, m.blank? = some d := by
  unfold blank?
  rcases h with he | he
  · rw [he]
    exact ⟨_, rfl⟩
  · obtain ⟨name, properties, hc⟩ := exchange_bean he
    rw [he, hc]
    exact ⟨_, rfl⟩

theorem blank_null (h : m.blank? = some d) : ∀ v ∈ d.values, v = .null := by
  rcases blank?_eq_some h with ⟨-, rfl⟩ | ⟨-, type, -, rfl⟩
  · exact fun v hv => absurd hv List.not_mem_nil
  · exact fun v hv => List.eq_of_mem_replicate hv

/-- The values of a row go into a new object behind all others. -/
theorem run_setData (h : m.blank? = some d) (accessor : Accessor) (mappings : List ResultMapping)
    (values : List Value) (s : Store) :
    (m.exchange.setData accessor m mappings none values).run s =
      (do m.exchange.fill accessor m (.object (s.newObject d).1)
            (Exchange.assignable mappings values)
          return .object (s.newObject d).1 : Edit Value).run (s.newObject d).2 := by
  have hnew : (m.exchange.newTarget m).run s =
      (.ok (.object (s.newObject d).1), (s.newObject d).2) := by
    unfold Exchange.newTarget
    rcases blank?_eq_some h with ⟨he, rfl⟩ | ⟨he, type, hc, rfl⟩
    · rw [he]
      split <;> first | rfl | contradiction
    · rw [he, hc]
      rfl
  rcases blank?_eq_some h with ⟨he, -⟩ | ⟨he, -⟩ <;> rw [he] at hnew ⊢ <;> exact run_bind_ok hnew

/-- An object that a map makes is a new one behind all others, which it fills. -/
theorem setData_eq_ok {r : ObjectRef} (hs : m.exchange ≠ .scalar) {accessor : Accessor}
    {mappings : List ResultMapping} {values : List Value} {s t : Store}
    (hrun : (m.exchange.setData accessor m mappings none values).run s = (.ok (.object r), t)) :
    ∃ d, (∀ v ∈ d.values, v = .null) ∧ (s.newObject d).1 = r ∧
      (m.exchange.fill accessor m (.object r) (Exchange.assignable mappings values)).run
        (s.newObject d).2 = (.ok (), t) := by
  have hblank : ∀ {d}, m.blank? = some d → ∃ d, (∀ v ∈ d.values, v = .null) ∧
      (s.newObject d).1 = r ∧ (m.exchange.fill accessor m (.object r)
        (Exchange.assignable mappings values)).run (s.newObject d).2 = (.ok (), t) := by
    intro d hd
    rw [run_setData hd] at hrun
    obtain ⟨_, u, hfill, hret⟩ := run_bind_eq_ok.1 hrun
    cases hret
    exact ⟨d, blank_null hd, rfl, hfill⟩
  cases he : m.exchange with
  | map => exact he ▸ hblank (exists_blank (.inl he)).choose_spec
  | bean => exact he ▸ hblank (exists_blank (.inr he)).choose_spec
  | dom =>
    rw [he] at hrun
    let d : ObjectData := .dom (.element (m.xmlName.getD "result") [])
    have hnew : (Exchange.dom.newTarget m).run s = (.ok (.object (s.newObject d).1), (s.newObject d).2) :=
      rfl
    obtain ⟨_, u, htarget, hrun⟩ := run_bind_eq_ok.1 hrun
    cases hnew.symm.trans htarget
    obtain ⟨_, u, hfill, hret⟩ := run_bind_eq_ok.1 hrun
    cases hret
    exact ⟨d, fun v hv => absurd hv List.not_mem_nil, rfl, hfill⟩
  | record =>
    rw [he] at hrun
    cases hrun
  | scalar => exact absurd he hs

end ResultMap

namespace Watch

variable {x : Watch} {s t : Store} {m : ResultMap} {d : ObjectData}

/-- A mapping that writes nothing at a watched property, as a key or as the first step of a path,
which a map does not follow. -/
def Passes (x : Watch) (exchange : Exchange) (mapping : ResultMapping) : Prop :=
  ¬x.watched mapping.property ∧
    (exchange ≠ .map →
      ∀ step, (Text.steps mapping.property).head? = some step → ¬x.watched step)

/-- Filling the object with values for other properties leaves the watched ones. -/
theorem fill_passes (exchange : Exchange) (accessor : Accessor) (m : ResultMap) (ha : x.Alone s)
    (hlt : x.ref.index < s.objects.size)
    (hkind : s.kind x.ref = .dom → ∀ property, ¬x.watched property)
    {pairs : List (ResultMapping × Value)}
    (hpairs : ∀ pair ∈ pairs, x.Passes exchange pair.1 ∧ pair.2 ≠ .object x.ref)
    {outcome : Except Error Unit}
    (hrun : (exchange.fill accessor m (.object x.ref) pairs).run s = (outcome, t)) :
    s.objects.size ≤ t.objects.size ∧ x.Alone t ∧
      (s.data x.ref).Grows x.watched x.fixed (t.data x.ref) := by
  have hpaired : (x.onStore s.objects.size).paired s s := ⟨rfl, Nat.le_refl _, .inr ha⟩
  have hroots : ∀ step, ¬x.watched step →
      (x.onStore s.objects.size).Roots s (.object x.ref) (.object x.ref) step := by
    intro step hstep
    refine ⟨rfl, fun r hr => ⟨r, hr, rfl, fun _ => .inr ⟨hlt, hstep, ?_⟩⟩⟩
    cases hr
    exact hkind
  have hfill := (x.writes s.objects.size).fill exchange accessor m (v := .object x.ref)
    (w := .object x.ref) hpaired rfl (fun r hr => ⟨r, hr, rfl⟩) <|
    List.forall₂_same.2 fun pair hmem => by
      obtain ⟨hpasses, hvalue⟩ := hpairs pair hmem
      refine ⟨rfl, ⟨rfl, fun he => absurd he hvalue⟩, fun hmap step rest hsteps => hroots step ?_,
        hroots _ hpasses.1⟩
      exact hpasses.2 hmap step (by rw [hsteps]; rfl)
  obtain ⟨hpair, hlater, -⟩ := hfill.resolve_left fun ⟨e, he, _⟩ => he
  rw [hrun] at hpair hlater
  refine ⟨hlater.1, hpair.2.2.resolve_left fun hm => ?_, hlater.2 hlt⟩
  exact absurd hm.1 (Nat.not_le.2 hlt)

/-- A new object is made and filled with values for properties that are not watched. -/
theorem setData_passes (accessor : Accessor) (hblank : m.blank? = some d) (ha : x.Alone s)
    (hindex : x.ref.index = s.objects.size) {mappings : List ResultMapping} {values : List Value}
    (hpass : ∀ mapping ∈ mappings, mapping.isNestedMap = false → x.Passes m.exchange mapping)
    (hv : ∀ v ∈ values, v ≠ .object x.ref) {outcome : Except Error Value}
    (hrun : (m.exchange.setData accessor m mappings none values).run s = (outcome, t)) :
    x.ref.index < t.objects.size ∧ x.Alone t ∧ d.Grows x.watched x.fixed (t.data x.ref) ∧
      ∀ v, outcome = .ok v → v = .object x.ref := by
  have href : (s.newObject d).1 = x.ref := by
    cases hr : x.ref
    rw [hr] at hindex
    exact congrArg ObjectRef.mk hindex.symm
  have hself := Store.data_newObject_self s d
  have hlt : x.ref.index < (s.newObject d).2.objects.size := by
    rw [Store.size_newObject]
    omega
  rw [ResultMap.run_setData hblank, href] at hrun
  rw [href] at hself
  have hkind : (s.newObject d).2.kind x.ref ≠ .dom := by
    unfold Store.kind
    rw [hself]
    rcases ResultMap.blank?_eq_some hblank with ⟨-, rfl⟩ | ⟨-, type, -, rfl⟩ <;> exact nofun
  have hpairs : ∀ pair ∈ Exchange.assignable mappings values,
      x.Passes m.exchange pair.1 ∧ pair.2 ≠ .object x.ref := by
    intro pair hmem
    obtain ⟨hzip, hnested⟩ := List.mem_filter.1 hmem
    obtain ⟨hmapping, hvalue⟩ := List.of_mem_zip hzip
    exact ⟨hpass _ hmapping (by simpa using hnested), hv _ hvalue⟩
  obtain ⟨hsize, halone, hgrows⟩ := fill_passes m.exchange accessor m
    (ha.newObject (ResultMap.blank_null hblank)) hlt (absurd · hkind) hpairs rfl
  have hdone : t = ((m.exchange.fill accessor m (.object x.ref)
      (Exchange.assignable mappings values)).run (s.newObject d).2).2 ∧
        ∀ v, outcome = .ok v → v = .object x.ref := by
    rcases hf : (m.exchange.fill accessor m (.object x.ref)
      (Exchange.assignable mappings values)).run (s.newObject d).2 with ⟨e | _, u⟩
    · rw [run_bind_error hf] at hrun
      cases hrun
      exact ⟨rfl, nofun⟩
    · rw [run_bind_ok hf] at hrun
      cases hrun
      exact ⟨rfl, fun v hv => by cases hv; rfl⟩
  obtain ⟨rfl, hvalue⟩ := hdone
  rw [hself] at hgrows
  exact ⟨Nat.lt_of_lt_of_le hlt hsize, halone, hgrows, hvalue⟩

/-- Nothing refers to an object that a map makes. -/
theorem setData_alone {r : ObjectRef} (accessor : Accessor) (hno : ∀ property, ¬x.watched property)
    (ha : x.Alone s) (hindex : x.ref.index = s.objects.size) {mappings : List ResultMapping}
    {values : List Value} (hs : m.exchange ≠ .scalar) (hv : ∀ v ∈ values, v ≠ .object x.ref)
    (hrun : (m.exchange.setData accessor m mappings none values).run s = (.ok (.object r), t)) :
    r = x.ref ∧ x.Alone t ∧ x.ref.index < t.objects.size := by
  obtain ⟨d, hnull, hr, hfill⟩ := ResultMap.setData_eq_ok hs hrun
  have href : r = x.ref := by
    rw [← hr]
    cases hx : x.ref
    rw [hx] at hindex
    exact congrArg ObjectRef.mk hindex.symm
  subst href
  have hlt : x.ref.index < (s.newObject d).2.objects.size := by
    rw [Store.size_newObject]
    omega
  obtain ⟨hsize, halone, -⟩ := fill_passes m.exchange accessor m (ha.newObject hnull) hlt
    (fun _ => hno) (fun pair hmem => ⟨⟨hno _, fun _ step _ => hno step⟩,
      hv _ (List.of_mem_zip (List.mem_filter.1 hmem).1).2⟩) hfill
  exact ⟨rfl, halone, Nat.lt_of_lt_of_le hlt hsize⟩

end Watch

end RowMapper
