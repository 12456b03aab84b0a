/-
The groups of the rows that were read so far: their keys, each where it comes first, and for each key
the object that was given for it, with what the rows of the group made of it (`Execution.Grouping`). A
further row adds to the object of its group, or brings in a new one.
-/
import Mathlib.Data.List.ReduceOption
import RowMapper.Proofs.Delivery.Grouping
import RowMapper.Proofs.Engine.Execution

namespace RowMapper

namespace Call

/-- The keys of calls, each where it comes first. -/
def groupKeys (calls : List Call) : List String := (calls.filterMap key).eraseDups

/-- The calls with a key. -/
def group (calls : List Call) (key : String) : List Call := calls.filter fun c => c.key = some key

variable {calls : List Call} {c : Call} {k k' : String}

theorem mem_groupKeys : k ∈ groupKeys calls ↔ ∃ c ∈ calls, c.key = some k :=
  List.mem_eraseDups.trans List.mem_filterMap

/-- A call with a new key brings it in behind the others. -/
theorem groupKeys_append (hc : c.key = some k) : groupKeys (calls ++ [c]) =
    groupKeys calls ++ ([k].removeAll (calls.filterMap key)).eraseDups := by
  unfold groupKeys
  rw [List.filterMap_append, List.filterMap_cons_some hc, List.filterMap_nil, List.eraseDups_append]

theorem groupKeys_append_known (hc : c.key = some k) (hk : k ∈ groupKeys calls) :
    groupKeys (calls ++ [c]) = groupKeys calls := by
  rw [mem_groupKeys] at hk
  rw [groupKeys_append hc]
  simp [List.removeAll, hk]

theorem groupKeys_append_new (hc : c.key = some k) (hk : k ∉ groupKeys calls) :
    groupKeys (calls ++ [c]) = groupKeys calls ++ [k] := by
  rw [mem_groupKeys] at hk
  rw [groupKeys_append hc]
  simp [List.removeAll, hk, List.eraseDups_cons]

theorem group_append_self (hc : c.key = some k) : group (calls ++ [c]) k = group calls k ++ [c] := by
  simp [group, hc]

theorem group_append_of_ne (hc : c.key = some k) (hk : k' ≠ k) :
    group (calls ++ [c]) k' = group calls k' := by
  simp [group, hc, hk.symm]

theorem group_eq_nil (hk : k ∉ groupKeys calls) : group calls k = [] := by
  unfold group
  rw [List.filter_eq_nil_iff]
  intro c hc hkey
  exact hk (mem_groupKeys.2 ⟨c, hc, of_decide_eq_true hkey⟩)

end Call

/-! ## The object of a group -/

/-- What the object of a group holds: the values of the first of its rows, and in each list the
elements that its rows make, in their order. `keeps` holds of all that is built for the elements. -/
structure ResultMap.Collected (m : ResultMap) (session : Session) (load : Load) (bound : Nat)
    (keeps : ObjectRef → ObjectData → Prop) (rows : List Call) (d : ObjectData) : Prop where
  values : ∃ c, rows.head? = some c ∧ ∀ pair ∈ m.declared.zip c.values, pair.1.isNestedMap = false →
    ∃ v, (m.propertyType pair.1.property).cast pair.2 = .ok v ∧ d.slot? pair.1.property = some v
  elements : ∀ mapping ∈ m.declared, mapping.isNestedMap = true → ∃ outs : List (Option Value),
    List.Forall₂ (fun c out => c.Adds session load bound keeps mapping out) rows outs ∧
      d.slot? mapping.property = some (.list outs.reduceOption)

namespace ResultMap

variable {session : Session} {m : ResultMap} {load : Load} {bound : Nat} {c : Call} {rows : List Call}
  {keeps keeps' : ObjectRef → ObjectData → Prop} {d d' : ObjectData}

theorem Collected.mono (h : m.Collected session load bound keeps rows d)
    (hk : ∀ q d, keeps q d → keeps' q d) : m.Collected session load bound keeps' rows d := by
  refine ⟨h.values, fun mapping hmem hnested => ?_⟩
  obtain ⟨outs, hadds, hslot⟩ := h.elements mapping hmem hnested
  exact ⟨outs, hadds.imp fun _ _ ha => ha.mono hk, hslot⟩

/-- Values stay where elements are added. -/
theorem Groups.added_slot? (hm : m.Groups session.catalog)
    (h : c.Added session load bound keeps m.declared d d') {mapping : ResultMapping}
    (hmem : mapping ∈ m.declared) (hno : mapping.isNestedMap = false) :
    d'.slot? mapping.property = d.slot? mapping.property := by
  refine h.others _ fun other hother hnested heq => ?_
  rw [hm.nested hother hnested mapping hmem heq.symm] at hno
  cases hno

/-- The object of a group after another row of the group. -/
theorem Collected.add (hm : m.Groups session.catalog)
    (h : m.Collected session load bound keeps rows d)
    (hadded : c.Added session load bound keeps m.declared d d') :
    m.Collected session load bound keeps (rows ++ [c]) d' := by
  refine ⟨?_, fun mapping hmem hnested => ?_⟩
  · obtain ⟨first, hfirst, hvalues⟩ := h.values
    refine ⟨first, by rw [List.head?_append, hfirst]; rfl, fun pair hpair hno => ?_⟩
    obtain ⟨v, hv, hslot⟩ := hvalues pair hpair hno
    exact ⟨v, hv, (hm.added_slot? hadded (List.of_mem_zip hpair).1 hno).trans hslot⟩
  · obtain ⟨outs, hadds, hslot⟩ := h.elements mapping hmem hnested
    obtain ⟨out, hout, hslot'⟩ := hadded.elements mapping hmem hnested
    refine ⟨outs ++ [out], List.rel_append hadds (.cons hout .nil), ?_⟩
    rw [hslot', ObjectData.items_of_slot? hslot, List.reduceOption_append]
    cases out <;> rfl

/-- The object of a group after its first row. -/
theorem Collected.start (hm : m.Groups session.catalog)
    (hempty : ∀ property, m.Gathers property → d.items property = [])
    (hvalues : ∀ pair ∈ m.declared.zip c.values, pair.1.isNestedMap = false →
      ∃ v, (m.propertyType pair.1.property).cast pair.2 = .ok v ∧ d.slot? pair.1.property = some v)
    (hadded : c.Added session load bound keeps m.declared d d') :
    m.Collected session load bound keeps [c] d' := by
  refine ⟨⟨c, rfl, fun pair hpair hno => ?_⟩, fun mapping hmem hnested => ?_⟩
  · obtain ⟨v, hv, hslot⟩ := hvalues pair hpair hno
    exact ⟨v, hv, (hm.added_slot? hadded (List.of_mem_zip hpair).1 hno).trans hslot⟩
  · obtain ⟨out, hout, hslot⟩ := hadded.elements mapping hmem hnested
    refine ⟨[out], .cons hout .nil, ?_⟩
    rw [hslot, hempty _ ⟨mapping, hmem, hnested, rfl⟩]
    cases out <;> rfl

end ResultMap

/-! ## The groups of some rows -/

namespace Execution

variable {x : Execution} {m : ResultMap} {object : String → ObjectRef} {calls : List Call} {c : Call}
  {key : String} {f g : Frame} {q : ObjectRef} {d : ObjectData} {P : ObjectRef → Prop}

/-- The object was made by the query, as one that is apart and was not given, and holds some data. -/
structure Kept (x : Execution) (f : Frame) (q : ObjectRef) (d : ObjectData) : Prop
    extends f.Settled x.session x.world.store.objects.size q d where
  inner : .object q ∉ f.emitted.toList.map (·.object)

/-- The object of a group behind some rows of it. -/
structure Grouped (x : Execution) (m : ResultMap) (rows : List Call) (f : Frame) (key : String)
    (r : ObjectRef) : Prop where
  known : f.request.identity.get? m.id key = some (.object r)
  parent : f.Parent x.session m r
  fresh : x.world.store.objects.size ≤ r.index
  collected : m.Collected x.session x.load (nestingBound - 1) (x.Kept f) rows (f.world.store.data r)

/-- The objects of the groups behind some calls, each found by its key. They are what was given so
far. -/
structure Grouping (x : Execution) (m : ResultMap) (object : String → ObjectRef) (calls : List Call)
    (f : Frame) : Prop where
  mappings : f.request.mappings = []
  closed : f.Closed x.session
  size : x.world.store.objects.size ≤ f.world.store.objects.size
  given : f.emitted.toList.map (·.object) =
    (Call.groupKeys calls).map fun key => .object (object key)
  unknown : ∀ key, key ∉ Call.groupKeys calls → f.request.identity.get? m.id key = none
  distinct : ∀ key ∈ Call.groupKeys calls, ∀ key' ∈ Call.groupKeys calls,
    object key = object key' → key = key'
  groups : ∀ key ∈ Call.groupKeys calls, x.Grouped m (Call.group calls key) f key (object key)

/-- The object of a group stays where it is left, with what is kept for its elements. -/
theorem Grouped.leaves {rows : List Call} {r : ObjectRef} (h : x.Grouped m rows f key r)
    (hl : f.Leaves x.session P g) (hr : P r) (hkept : ∀ q d, x.Kept f q d → x.Kept g q d)
    (hid : g.request.identity.get? m.id key = f.request.identity.get? m.id key) :
    x.Grouped m rows g key r := by
  obtain ⟨hparent, hdata⟩ := h.parent.leaves hl hr
  exact ⟨hid.trans h.known, hparent, h.fresh, hdata ▸ h.collected.mono hkept⟩

namespace Grouping

theorem given_iff (h : x.Grouping m object calls f) :
    .object q ∈ f.emitted.toList.map (·.object) ↔ ∃ key ∈ Call.groupKeys calls, object key = q := by
  rw [h.given, List.mem_map]
  exact exists_congr fun key => and_congr_right fun _ => ⟨Value.object.inj, congrArg _⟩

theorem lt_size (h : x.Grouping m object calls f) (hk : key ∈ Call.groupKeys calls) :
    (object key).index < f.world.store.objects.size := (h.groups key hk).parent.apart.made trivial

/-- What leaves the objects that the query made leaves the groups. -/
theorem passes (h : x.Grouping m object calls f) (hp : f.Passes x.session P g)
    (hP : ∀ q, x.world.store.objects.size ≤ q.index → P q) : x.Grouping m object calls g where
  mappings := hp.mappings
  closed := hp.closed h.closed
  size := Nat.le_trans h.size hp.size
  given := hp.emitted ▸ h.given
  unknown := hp.identity ▸ h.unknown
  distinct := h.distinct
  groups key hk := (h.groups key hk).leaves hp.toLeaves (hP _ (h.groups key hk).fresh)
    (fun q _ hq => ⟨hq.toSettled.leaves hp.toLeaves (hP q hq.fresh), hp.emitted ▸ hq.inner⟩)
    (by rw [hp.identity])

/-- The objects of groups are not among those that are kept. -/
theorem kept_known (h : x.Grouping m object calls f) (hk : key ∈ Call.groupKeys calls)
    (hl : f.Leaves x.session (object key ≠ ·) g) (hemitted : g.emitted = f.emitted)
    (hq : x.Kept f q d) : x.Kept g q d :=
  ⟨hq.toSettled.leaves hl fun he => hq.inner (h.given_iff.2 ⟨key, hk, he⟩), hemitted ▸ hq.inner⟩

/-- Another row of a group that is known. -/
theorem append_known (h : x.Grouping m object calls f) (hkey : c.key = some key)
    (hk : key ∈ Call.groupKeys calls) (hl : f.Leaves x.session (object key ≠ ·) g)
    (hemitted : g.emitted = f.emitted) (hidentity : g.request.identity = f.request.identity)
    (hgroup : x.Grouped m (Call.group calls key ++ [c]) g key (object key)) :
    x.Grouping m object (calls ++ [c]) g := by
  have hkeys := Call.groupKeys_append_known hkey hk
  refine ⟨hl.mappings, hl.closed h.closed, Nat.le_trans h.size hl.size, ?_, ?_, ?_, fun key' hk' => ?_⟩
  · rw [hkeys, hemitted, h.given]
  · rw [hkeys, hidentity]
    exact h.unknown
  · rw [hkeys]
    exact h.distinct
  · by_cases heq : key' = key
    · subst heq
      rw [Call.group_append_self hkey]
      exact hgroup
    · rw [hkeys] at hk'
      rw [Call.group_append_of_ne hkey heq]
      exact (h.groups key' hk').leaves hl (fun he => heq (h.distinct key' hk' key hk he.symm))
        (fun _ _ => h.kept_known hk hl hemitted) (by rw [hidentity])

/-- The first row of a new group. -/
theorem append_new {r : ObjectRef} (h : x.Grouping m object calls f) (hkey : c.key = some key)
    (hk : key ∉ Call.groupKeys calls) (hl : f.Leaves x.session P g)
    (hP : ∀ q, f.Apart x.session True q → P q) (hr : ∀ q, f.Apart x.session True q → r ≠ q)
    (hgiven : g.emitted.toList.map (·.object) = f.emitted.toList.map (·.object) ++ [.object r])
    (hidentity : g.request.identity = f.request.identity.insert m.id key (.object r))
    (hgroup : x.Grouped m [c] g key r) :
    x.Grouping m (Function.update object key r) (calls ++ [c]) g := by
  have hkeys := Call.groupKeys_append_new hkey hk
  have hself : Function.update object key r key = r := Function.update_self ..
  have hother : ∀ key' ∈ Call.groupKeys calls,
      key' ≠ key ∧ Function.update object key r key' = object key' := by
    intro key' hk'
    have hne : key' ≠ key := fun heq => hk (heq ▸ hk')
    exact ⟨hne, Function.update_of_ne hne ..⟩
  have hcases : ∀ key' ∈ Call.groupKeys (calls ++ [c]), key' ∈ Call.groupKeys calls ∨ key' = key := by
    rw [hkeys]
    exact fun key' hk' => (List.mem_append.1 hk').imp_right List.mem_singleton.1
  have hnew : ∀ key' ∈ Call.groupKeys calls, r ≠ object key' := fun key' hk' =>
    hr _ (h.groups key' hk').parent.apart
  have hkept : ∀ q d, x.Kept f q d → x.Kept g q d := by
    refine fun q d hq => ⟨hq.toSettled.leaves hl (hP q hq.apart), fun hmem => ?_⟩
    rw [hgiven] at hmem
    rcases List.mem_append.1 hmem with hmem | hmem
    · exact hq.inner hmem
    · exact hr q hq.apart (Value.object.inj (List.mem_singleton.1 hmem)).symm
  refine ⟨hl.mappings, hl.closed h.closed, Nat.le_trans h.size hl.size, ?_, fun key' hk' => ?_,
    fun key₁ hk₁ key₂ hk₂ heq => ?_, fun key' hk' => ?_⟩
  · rw [hgiven, hkeys, List.map_append, List.map_singleton, h.given, hself]
    refine congrArg (· ++ [Value.object r]) (List.map_congr_left fun key' hk' => ?_)
    rw [(hother key' hk').2]
  · rw [hkeys, List.mem_append, List.mem_singleton, not_or] at hk'
    rw [hidentity, IdentityTable.get?_insert_of_ne (.inr hk'.2), h.unknown key' hk'.1]
  · rcases hcases key₁ hk₁ with hk₁ | rfl <;> rcases hcases key₂ hk₂ with hk₂ | rfl
    · rw [(hother key₁ hk₁).2, (hother key₂ hk₂).2] at heq
      exact h.distinct key₁ hk₁ key₂ hk₂ heq
    · rw [(hother key₁ hk₁).2, hself] at heq
      exact absurd heq.symm (hnew key₁ hk₁)
    · rw [(hother key₂ hk₂).2, hself] at heq
      exact absurd heq (hnew key₂ hk₂)
    · rfl
  · rcases hcases key' hk' with hk' | rfl
    · obtain ⟨hne, hobject⟩ := hother key' hk'
      rw [Call.group_append_of_ne hkey hne, hobject]
      exact (h.groups key' hk').leaves hl (hP _ (h.groups key' hk').parent.apart) hkept
        (by rw [hidentity, IdentityTable.get?_insert_of_ne (.inr hne)])
    · rw [Call.group_append_self hkey, Call.group_eq_nil hk, hself]
      exact hgroup

theorem nil (hmappings : f.request.mappings = []) (hclosed : f.Closed x.session)
    (hsize : x.world.store.objects.size ≤ f.world.store.objects.size) (hemitted : f.emitted = #[])
    (hidentity : f.request.identity = {}) : x.Grouping m object [] f where
  mappings := hmappings
  closed := hclosed
  size := hsize
  given := by rw [hemitted]; rfl
  unknown _ _ := by rw [hidentity]; rfl
  distinct _ hk := absurd hk List.not_mem_nil
  groups _ hk := absurd hk List.not_mem_nil

end Grouping

end Execution

end RowMapper
