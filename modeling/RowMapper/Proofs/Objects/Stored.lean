/-
What the objects of a map hold at their properties. As long as no property is on the way to another, a
bean holds every value of its row, cast to the type that is declared where its path leads; a map holds
the values by their properties as they are, so that nothing is found at a property that is a path.
-/
import RowMapper.Proofs.Access.Paths
import RowMapper.Proofs.Engine.Success

namespace RowMapper

/-! ## Paths -/

namespace Text

/-- Two paths neither of which goes on from the other. -/
def Apart (p q : String) : Prop := ¬steps p <+: steps q ∧ ¬steps q <+: steps p

instance : Std.Symm Apart := ⟨fun _ _ h => ⟨h.2, h.1⟩⟩

instance (p q : String) : Decidable (Apart p q) := inferInstanceAs (Decidable (_ ∧ _))

theorem Apart.ne {p q : String} (h : Apart p q) : p ≠ q := fun he => h.1 (he ▸ List.prefix_rfl)

/-- No piece of a text holds a separator. -/
theorem not_isSep_of_mem_split {isSep : Char → Bool} {cs piece : List Char}
    (h : piece ∈ split isSep cs) : ∀ c ∈ piece, isSep c = false := by
  induction cs generalizing piece with
  | nil =>
    rw [split, List.mem_singleton] at h
    subst h
    exact fun c hc => absurd hc List.not_mem_nil
  | cons c cs ih =>
    unfold split at h
    split at h
    · rcases List.mem_cons.1 h with rfl | h
      · exact fun c hc => absurd hc List.not_mem_nil
      · exact ih h
    · rename_i hc
      split at h
      · rename_i hnil
        exact absurd hnil (split_ne_nil isSep cs)
      · rename_i first rest hsplit
        rw [hsplit] at ih
        rcases List.mem_cons.1 h with rfl | h
        · exact List.forall_mem_cons.2 ⟨by simpa using hc, ih (List.mem_cons_self ..)⟩
        · exact ih (List.mem_cons_of_mem _ h)

/-- A text with a separator is more than one piece. -/
theorem split_of_mem {isSep : Char → Bool} {cs : List Char} {c : Char} (hmem : c ∈ cs)
    (hc : isSep c = true) : ∃ a b rest, split isSep cs = a :: b :: rest := by
  induction cs with
  | nil => exact absurd hmem List.not_mem_nil
  | cons d cs ih =>
    unfold split
    split
    · obtain ⟨b, rest, hsplit⟩ := List.exists_cons_of_ne_nil (split_ne_nil isSep cs)
      exact ⟨[], b, rest, congrArg _ hsplit⟩
    · rename_i hd
      have hmem : c ∈ cs := by
        rcases List.mem_cons.1 hmem with rfl | hmem
        · exact absurd hc hd
        · exact hmem
      obtain ⟨a, b, rest, hsplit⟩ := ih hmem
      exact ⟨d :: a, b, rest, by rw [hsplit]⟩

theorem steps_of_dot {path : String} (h : '.' ∈ path.toList) :
    ∃ first next rest, steps path = first :: next :: rest := by
  obtain ⟨a, b, rest, hsplit⟩ := @split_of_mem (· == '.') _ _ h rfl
  exact ⟨_, _, _, congrArg (List.map String.ofList) hsplit⟩

/-- A step of a path is a path of one step. -/
theorem steps_of_mem_steps {path step : String} (h : step ∈ steps path) : steps step = [step] := by
  obtain ⟨piece, hpiece, rfl⟩ := List.mem_map.1 h
  refine steps_of_no_dot fun hdot => ?_
  rw [String.toList_ofList] at hdot
  have hsep := not_isSep_of_mem_split hpiece '.' hdot
  simp at hsep

/-- The first step of a path is no property beside it. -/
theorem first_not_mem {properties : List String} (hapart : properties.Pairwise Apart) {path first next : String}
    {rest : List String} (hmem : path ∈ properties) (hsteps : steps path = first :: next :: rest) :
    first ∉ properties := by
  intro hin
  have hfirst : steps first = [first] := steps_of_mem_steps (hsteps ▸ List.mem_cons_self ..)
  have hne : first ≠ path := fun he => by
    rw [← he, hfirst] at hsteps
    cases hsteps
  refine (hapart.forall hin hmem hne).1 ?_
  rw [hfirst, hsteps]
  exact ⟨_, rfl⟩

end Text

/-- No object on the way along a path is declared as a document. -/
def DataType.Undocumented (type : DataType) (path : String) : Prop :=
  ∀ steps, steps <+: Text.steps path → steps ≠ Text.steps path → type.atSteps steps ≠ .ok .dom

instance (declared : Except Error DataType) : Decidable (declared = .ok .dom) :=
  decidable_of_iff (declared.toOption.any (· matches .dom)) <| by
    rcases declared with _ | (_ | _) <;> simp [Except.toOption]

instance (type : DataType) (path : String) : Decidable (type.Undocumented path) :=
  decidable_of_iff (∀ steps ∈ (Text.steps path).inits,
      steps ≠ Text.steps path → type.atSteps steps ≠ .ok .dom) <|
    forall_congr' fun _ => by rw [List.mem_inits]

/-- Writing properties of an object leaves its kind. -/
theorem Store.setProperties_kind {r : ObjectRef} {t : Store} : ∀ {pairs : List (ResultMapping × Value)}
    {s : Store}, (pairs.forM fun pair => Edit.change (·.setProperty r pair.1.property pair.2)).run s =
      (.ok (), t) → t.kind r = s.kind r
  | [], s, h => by
    cases h
    rfl
  | pair :: pairs, s, h => by
    obtain ⟨_, u, hone, hrest⟩ := run_bind_eq_ok.1 h
    obtain ⟨d, rfl, hd⟩ := setProperty_eq_ok (run_change_eq_ok hone)
    refine (setProperties_kind hrest).trans ?_
    unfold kind
    by_cases hlt : r.index < s.objects.size
    · rw [data_setData_self hlt]
      exact hd.kind_eq
    · rw [setData_of_size_le (Nat.not_lt.1 hlt)]

namespace Accessor

variable {accessor : Accessor} {s t : Store} {r : ObjectRef} {path : String} {v : Value}

/-- An accessor that takes objects of a kind. -/
def Takes (accessor : Accessor) (kind : AccessorKind) : Prop :=
  accessor = .generic ∨ accessor = .only kind

theorem Takes.root (h : accessor.Takes (s.kind r)) (path : String) :
    accessor.root s (.object r) path = .ok r := by
  rcases h with rfl | rfl
  · rfl
  · simp [Accessor.root, Store.objectAt, bind, Except.bind]

/-- An accessor finds its way from objects of the kinds alone that it takes. -/
theorem takes_of_root {root : ObjectRef} (h : accessor.root s (.object r) path = .ok root) :
    accessor.Takes (s.kind r) := by
  cases accessor with
  | generic => exact .inl rfl
  | only kind =>
    obtain ⟨q, hq, h⟩ := Except.bind_eq_ok_iff.1 h
    cases hq
    split at h
    · rename_i hkind
      exact .inr (congrArg _ hkind.symm)
    · cases h

/-- Only objects of the kinds that it takes are written by an accessor. -/
theorem takes_of_set (h : (accessor.set (.object r) path v).run s = (.ok (), t)) :
    accessor.Takes (s.kind r) := by
  obtain ⟨⟨y, left⟩, u, howner, -⟩ := run_bind_eq_ok.1 h
  obtain ⟨start, _, hread, -⟩ := run_bind_eq_ok.1 howner
  exact takes_of_root (Prod.mk.inj hread).1

/-- Only of objects of the kinds that it takes an accessor tells the types. -/
theorem takes_of_setterType {type : DataType} (h : accessor.setterType s (.object r) path = .ok type) :
    accessor.Takes (s.kind r) := by
  obtain ⟨_, howner, -⟩ := Except.bind_eq_ok_iff.1 h
  obtain ⟨root, hroot, -⟩ := Except.bind_eq_ok_iff.1 howner
  exact takes_of_root hroot

end Accessor

namespace ResultMap

variable {m : ResultMap} {accessor : Accessor} {mappings : List ResultMapping} {values : List Value}
  {object : Value} {s t : Store}

/-- What an object of a map holds at a property that a value is read for: a bean the value cast to the
type that is declared at the path, and a map the value, unless the property is a path. -/
def Stores (m : ResultMap) (property : String) (v w : Value) : Prop :=
  match m.resultClass with
  | some (.bean name properties) =>
    ∃ declared, (DataType.bean name properties).atPath property = .ok declared ∧ declared.cast v = .ok w
  | _ => w = if '.' ∈ property.toList then .null else v

/-- Mappings from columns are all assigned. -/
theorem assignable_eq_zip (h : ∀ mapping ∈ mappings, mapping.isNestedMap = false) :
    Exchange.assignable mappings values = mappings.zip values := by
  refine List.filter_eq_self.2 fun pair hmem => ?_
  simp [h pair.1 (List.of_mem_zip hmem).1]

theorem pairwise_zip {R : String → String → Prop} (h : (mappings.map (·.property)).Pairwise R) :
    (mappings.zip values).Pairwise fun a b => R a.1.property b.1.property := by
  induction mappings generalizing values with
  | nil => exact .nil
  | cons mapping mappings ih =>
    cases values with
    | nil => exact .nil
    | cons v values =>
      rw [List.map_cons, List.pairwise_cons] at h
      refine .cons (fun pair hmem => h.1 _ ?_) (ih h.2)
      exact List.mem_map_of_mem (List.of_mem_zip hmem).1

/-- The steps to an object itself, and to those on the way to the properties of mappings. -/
def InnerSteps (mappings : List ResultMapping) (steps : List String) : Prop :=
  steps = [] ∨
    ∃ mapping ∈ mappings, steps <+: Text.steps mapping.property ∧ steps ≠ Text.steps mapping.property

theorem InnerSteps.of_prefix {steps more : List String} (h : InnerSteps mappings more)
    (hle : steps <+: more) : InnerSteps mappings steps := by
  rcases h with rfl | ⟨mapping, hmem, hpath, hne⟩
  · exact .inl (List.prefix_nil.1 hle)
  · refine .inr ⟨mapping, hmem, hle.trans hpath, fun he => hne ?_⟩
    exact hpath.eq_of_length_le (he ▸ hle.length_le)

theorem innerSteps_dropLast {mapping : ResultMapping} (hmem : mapping ∈ mappings) {steps : List String}
    {last : String} (h : Text.steps mapping.property = steps ++ [last]) : InnerSteps mappings steps :=
  .inr ⟨mapping, hmem, h ▸ List.prefix_append .., fun he => by simp [h] at he⟩

/-- Of paths that are apart none goes on to the inner steps of another. -/
theorem InnerSteps.not_prefix (hapart : (mappings.map (·.property)).Pairwise Text.Apart)
    {mapping : ResultMapping} (hmem : mapping ∈ mappings) {steps : List String}
    (h : InnerSteps mappings steps) : ¬Text.steps mapping.property <+: steps := by
  intro hle
  rcases h with rfl | ⟨other, hother, hpath, hne⟩
  · exact Text.steps_ne_nil _ (List.prefix_nil.1 hle)
  · by_cases he : mapping.property = other.property
    · exact hne (hpath.eq_of_length_le (he ▸ hle.length_le))
    · have hne' := hapart.forall (List.mem_map_of_mem hmem) (List.mem_map_of_mem hother) he
      exact hne'.1 (hle.trans hpath)

/-- What the values of a row may be put into: a new object, or one that is given. That one is a map
whose properties to fill are no paths, or a bean of the class of the map whose parts on the way to the
properties are objects of the declared types, no two of them the same. -/
def Fillable (m : ResultMap) (mappings : List ResultMapping) (s : Store) (target : Option Value) : Prop :=
  ∀ v, target = some v → ∃ r, v = .object r ∧
    match m.resultClass with
    | some (.bean name properties) => s.Branches r (.bean name properties) (InnerSteps mappings)
    | _ => r.index < s.objects.size ∧ ∀ mapping ∈ mappings, '.' ∉ mapping.property.toList

theorem fillable_none (m : ResultMap) (mappings : List ResultMapping) (s : Store) :
    m.Fillable mappings s none := nofun

/-- The values of a row go into the object that is given. -/
theorem run_setData_given (hm : m.exchange = .map ∨ m.exchange = .bean) (v : Value) (s : Store) :
    (m.exchange.setData accessor m mappings (some v) values).run s =
      (do m.exchange.fill accessor m v (Exchange.assignable mappings values)
          return v : Edit Value).run s := by
  rcases hm with he | he <;> rw [he] <;> rfl

/-- The bean that the values of a row are written to. -/
theorem fill_of_setData_bean {target : Option Value} (type : BeanType)
    (hclass : m.resultClass = some type.type) (htarget : m.Fillable mappings s target)
    (hrun : (m.exchange.setData accessor m mappings target values).run s = (.ok object, t)) :
    ∃ root made, object = .object root ∧ made.Branches root type.type (InnerSteps mappings) ∧
      ((Exchange.assignable mappings values).forM fun pair =>
        accessor.set (.object root) pair.1.property pair.2).run made = (.ok (), t) := by
  have hexchange : m.exchange = .bean := by
    unfold exchange
    rw [hclass]
    rfl
  cases target with
  | none =>
    have hblank : m.blank? = some (.newBean type) := by
      unfold blank?
      rw [hexchange, hclass]
      rfl
    rw [run_setData hblank, hexchange] at hrun
    obtain ⟨_, u, hfill, hret⟩ := run_bind_eq_ok.1 hrun
    cases hret
    refine ⟨_, _, rfl, .blank _ (Store.data_newObject_self s (.newBean type)) ?_, hfill⟩
    rw [Store.size_newObject]
    exact Nat.lt_succ_self _
  | some v =>
    obtain ⟨root, rfl, hroot⟩ := htarget v rfl
    rw [hclass] at hroot
    rw [run_setData_given (.inr hexchange), hexchange] at hrun
    obtain ⟨_, u, hfill, hret⟩ := run_bind_eq_ok.1 hrun
    cases hret
    exact ⟨root, s, rfl, hroot, hfill⟩

/-- The map that the values of a row are written to. -/
theorem fill_of_setData_map {target : Option Value} (hmap : m.exchange = .map)
    (htarget : m.Fillable mappings s target)
    (hrun : (m.exchange.setData accessor m mappings target values).run s = (.ok object, t)) :
    ∃ root made, object = .object root ∧ root.index < made.objects.size ∧ made.kind root = .map ∧
      ((∀ property, (made.data root).slot? property = some .null) ∨
        ∀ mapping ∈ mappings, '.' ∉ mapping.property.toList) ∧
      ((Exchange.assignable mappings values).forM fun pair =>
        Edit.change (·.setProperty root pair.1.property pair.2)).run made = (.ok (), t) := by
  cases target with
  | none =>
    have hblank : m.blank? = some (.map []) := by
      unfold blank?
      rw [hmap]
    rw [run_setData hblank, hmap] at hrun
    obtain ⟨_, u, hfill, hret⟩ := run_bind_eq_ok.1 hrun
    cases hret
    have hself := Store.data_newObject_self s (.map [])
    have hkind : (s.newObject (.map [])).2.kind (s.newObject (.map [])).1 = .map :=
      congrArg ObjectData.kind hself
    refine ⟨_, _, rfl, ?_, hkind, .inl fun _ => ?_, (Exchange.run_fillMap hkind m _).symm.trans hfill⟩
    · rw [Store.size_newObject]
      exact Nat.lt_succ_self _
    · rw [hself]
      rfl
  | some v =>
    obtain ⟨root, rfl, hroot⟩ := htarget v rfl
    have hplace : root.index < s.objects.size ∧ ∀ mapping ∈ mappings, '.' ∉ mapping.property.toList := by
      rcases exchange_map hmap with hc | hc | hc <;> rw [hc] at hroot <;> exact hroot
    rw [run_setData_given (.inl hmap), hmap] at hrun
    obtain ⟨_, u, hfill, hret⟩ := run_bind_eq_ok.1 hrun
    cases hret
    have hkind : s.kind root = .map := by
      by_contra hkind
      replace hfill : (Exchange.fillMap m (.object root) _).run s = (.ok (), t) := hfill
      unfold Exchange.fillMap at hfill
      rw [run_bind_ok (x := Edit.store) rfl] at hfill
      dsimp only at hfill
      rw [if_neg hkind] at hfill
      cases hfill
    exact ⟨root, s, rfl, hplace.1, hkind, .inr hplace.2, (Exchange.run_fillMap hkind m _).symm.trans hfill⟩

section

variable {target : Option Value} (hflat : ∀ mapping ∈ mappings, mapping.isNestedMap = false)
  (hapart : (mappings.map (·.property)).Pairwise Text.Apart) (htarget : m.Fillable mappings s target)

include hflat hapart htarget

/-- A bean gives back what was written at its paths. -/
theorem get_of_setData_bean (type : BeanType) (hclass : m.resultClass = some type.type)
    (hdom : ∀ mapping ∈ mappings, type.type.Undocumented mapping.property)
    (hrun : (m.exchange.setData accessor m mappings target values).run s = (.ok object, t)) :
    Exchange.ofValue t object = .bean ∧ ∀ pair ∈ mappings.zip values, ∃ declared w,
      type.type.atPath pair.1.property = .ok declared ∧ declared.cast pair.2 = .ok w ∧
        accessor.get t object pair.1.property = .ok w := by
  obtain ⟨root, made, rfl, hmade, hfill⟩ := fill_of_setData_bean type hclass htarget hrun
  rw [assignable_eq_zip hflat] at hfill
  have hpaths : ∀ pair ∈ mappings.zip values,
      (∀ steps last, Text.steps pair.1.property = steps ++ [last] → InnerSteps mappings steps) ∧
        ∀ steps, InnerSteps mappings steps → ¬Text.steps pair.1.property <+: steps := by
    intro pair hmem
    have hmem := (List.of_mem_zip hmem).1
    exact ⟨fun _ _ => innerSteps_dropLast hmem, fun _ h => h.not_prefix hapart hmem⟩
  have hobjects : ∀ steps, InnerSteps mappings steps → type.type.atSteps steps ≠ .ok .dom :=
    fun steps h => h.elim (fun h => h ▸ nofun) fun ⟨mapping, hmem, hpath, hne⟩ =>
      hdom mapping hmem steps hpath hne
  obtain ⟨ht, -, hthere⟩ := Store.Branches.sets (fun _ _ hle h => h.of_prefix hle) hobjects
    hmade hpaths (pairwise_zip (hapart.imp And.left)) hfill
  have hbean : ∀ {u : Store}, u.Branches root type.type (InnerSteps mappings) → u.kind root = .bean := by
    intro u hu
    obtain ⟨declared, hdeclared, hof⟩ := hu.declared (.inl rfl) (Store.reach?_nil u root)
    cases hdeclared
    exact hof.kind_eq_bean
  refine ⟨by simp only [Exchange.ofValue, hbean ht], fun pair hmem => ?_⟩
  obtain ⟨declared, w, hdeclared, hcast, hat⟩ := hthere pair hmem
  -- the accessor took the bean when it was written
  have htakes : accessor.Takes (t.kind root) := by
    obtain ⟨first, rest, hzip⟩ := List.exists_cons_of_ne_nil (List.ne_nil_of_mem hmem)
    rw [hzip] at hfill
    obtain ⟨_, _, hone, -⟩ := run_bind_eq_ok.1 hfill
    exact hbean ht ▸ hbean hmade ▸ Accessor.takes_of_set hone
  exact ⟨declared, w, hdeclared, hcast, hat.get (htakes.root _)⟩

/-- A map gives back what was written at its properties, but not at those that are paths. -/
theorem get_of_setData_map (hmap : m.exchange = .map) (haccessor : accessor.Takes .map)
    (hrun : (m.exchange.setData accessor m mappings target values).run s = (.ok object, t)) :
    Exchange.ofValue t object = .map ∧ ∀ pair ∈ mappings.zip values,
      accessor.get t object pair.1.property =
        .ok (if '.' ∈ pair.1.property.toList then .null else pair.2) := by
  obtain ⟨root, made, rfl, hlt, hkind, hslots, hfill⟩ := fill_of_setData_map hmap htarget hrun
  rw [assignable_eq_zip hflat] at hfill
  have hdistinct : ((mappings.zip values).map (·.1.property)).Nodup :=
    List.pairwise_map.2 (pairwise_zip (hapart.imp Text.Apart.ne))
  have hfits : (made.data root).Fits m (fun _ => False) := ⟨.inl ⟨hkind, hmap⟩, nofun⟩
  obtain ⟨entries, hentries⟩ : ∃ entries, made.data root = .map entries := by
    unfold Store.kind at hkind
    cases hd : made.data root with
    | map entries => exact ⟨entries, rfl⟩
    | bean | dom =>
      rw [hd] at hkind
      cases hkind
  have htype : ∀ property, m.propertyType property = .object :=
    (hentries ▸ hfits : ObjectData.Fits m _ (.map entries)).propertyType_map
  obtain ⟨hothers, hthere⟩ := Store.setProperties_slot? (fun _ _ _ _ => run_change_eq_ok) hdistinct
    hfits hlt (fun property _ => by rw [hentries]; rfl) hfill
  have hkind' : t.kind root = .map := (Store.setProperties_kind hfill).trans hkind
  have hroot : ∀ path, accessor.root t (.object root) path = .ok root :=
    (hkind' ▸ haccessor : accessor.Takes (t.kind root)).root
  refine ⟨by simp only [Exchange.ofValue, hkind'], fun pair hmem => ?_⟩
  have hproperty := List.mem_map_of_mem (f := (·.property)) (List.of_mem_zip hmem).1
  split
  · rename_i hdot
    obtain ⟨first, next, rest, hsteps⟩ := Text.steps_of_dot hdot
    have hunwritten : first ∉ (mappings.zip values).map (·.1.property) := by
      intro hin
      obtain ⟨other, hother, rfl⟩ := List.mem_map.1 hin
      exact Text.first_not_mem hapart hproperty hsteps (List.mem_map_of_mem (List.of_mem_zip hother).1)
    have hblank := hslots.resolve_right fun h => h pair.1 (List.of_mem_zip hmem).1 hdot
    have hnull := (hothers first hunwritten).trans (hblank first)
    exact Store.get_behind_null hsteps (hroot _) (hkind' ▸ nofun) hnull
  · rename_i hdot
    obtain ⟨w, hcast, hslot⟩ := hthere pair hmem
    rw [htype, DataType.cast_object] at hcast
    cases hcast
    have hat : t.At root (Text.steps pair.1.property) pair.2 :=
      ⟨[], _, root, Text.steps_of_no_dot hdot, rfl, hslot⟩
    exact hat.get (hroot _)

/-- What the objects of a map store at its properties is read from there. -/
theorem get_of_setData (hm : m.exchange = .map ∨ m.exchange = .bean)
    (hdom : ∀ type, m.resultClass = some type → ∀ mapping ∈ mappings, type.Undocumented mapping.property)
    (haccessor : m.exchange = .map → accessor.Takes .map)
    (hrun : (m.exchange.setData accessor m mappings target values).run s = (.ok object, t)) :
    Exchange.ofValue t object = m.exchange ∧ ∀ pair ∈ mappings.zip values, ∃ w,
      m.Stores pair.1.property pair.2 w ∧ accessor.get t object pair.1.property = .ok w := by
  rcases hm with hmap | hbean
  · obtain ⟨hvalue, hget⟩ := get_of_setData_map hflat hapart htarget hmap (haccessor hmap) hrun
    refine ⟨hvalue.trans hmap.symm, fun pair hmem => ⟨_, ?_, hget pair hmem⟩⟩
    unfold Stores
    rcases exchange_map hmap with hc | hc | hc <;> rw [hc]
  · obtain ⟨name, properties, hclass⟩ := exchange_bean hbean
    obtain ⟨hvalue, hget⟩ := get_of_setData_bean hflat hapart htarget ⟨name, properties⟩ hclass
      (hdom _ hclass) hrun
    refine ⟨hvalue.trans hbean.symm, fun pair hmem => ?_⟩
    obtain ⟨declared, w, hdeclared, hcast, hget⟩ := hget pair hmem
    refine ⟨w, ?_, hget⟩
    unfold Stores
    rw [hclass]
    exact ⟨declared, hdeclared, hcast⟩

end

end ResultMap

end RowMapper
