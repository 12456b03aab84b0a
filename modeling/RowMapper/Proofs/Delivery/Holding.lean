/-
What collections hold when a query ends. An element that is added to a list comes behind all that the list
holds (`Execution.appends_of_mem`), and the list keeps it to the end: at a property of an object that the
query built, whatever the rows hold (`Execution.holds_at_property`), and at any path when the query comes by
no objects (`Execution.holds_at_path`).
-/
import RowMapper.Proofs.Delivery.Course
import RowMapper.Proofs.Delivery.Observed
import RowMapper.Proofs.Delivery.Single
import RowMapper.Proofs.Statement.Outputs

namespace RowMapper

open Relation

variable {session : Session} {S : Sphere} {f g k : Frame} {R : Region} {s : Store} {r y : ObjectRef}
  {v parent object after : Value} {items : List Value} {path owner property : String}

/-! ## Collections that are read -/

namespace Frame

theorem collection_eq_list :
    f.collection session v path = .list items ↔
      session.catalog.accessor.get f.world.store v path = .ok (.list items) := by
  unfold collection
  cases session.catalog.accessor.get f.world.store v path with
  | error e => exact ⟨nofun, nofun⟩
  | ok w => exact ⟨congrArg Except.ok, Except.ok.inj⟩

/-- A list is read with what it had in front when the objects on the way to it only grow. -/
theorem collection_grown {collects : ObjectRef → String → Prop} {opens : Prop}
    (h : f.collection session v path = .list items)
    (hgrows : ∀ r x, v = .object r → x.index < f.world.store.objects.size →
      f.world.store.OnTheWay r (Text.steps path) x →
      (f.world.store.data x).OnlyGrows (collects x) (g.world.store.data x) opens) :
    ∃ more, g.collection session v path = .list (items ++ more) := by
  obtain ⟨more, hmore⟩ := Store.get_grown (collection_eq_list.1 h) hgrows
  exact ⟨more, collection_eq_list.2 hmore⟩

end Frame

/-- No path leads into a region that is shut. -/
theorem Store.Shuts.reach? (h : s.Shuts R) (hr : ¬R r) (hlt : r.index < s.objects.size) {a : List String}
    (hreach : s.reach? r a = some y) : y.index < s.objects.size ∧ ¬R y := by
  induction a generalizing r with
  | nil =>
    cases hreach
    exact ⟨hlt, hr⟩
  | cons q a ih =>
    rw [reach?_cons] at hreach
    obtain ⟨z, hz, hreach⟩ := Option.bind_eq_some_iff.1 hreach
    obtain ⟨hmade, hout⟩ := h.closed r z hr (refersTo_of_child? hz)
    exact ih hout hmade hreach

/-- Nothing is on the way to a property that is no path but its object. -/
theorem Store.OnTheWay.eq_of_no_dot (h : s.OnTheWay r (Text.steps property) y)
    (hsimple : '.' ∉ property.toList) : y = r := by
  obtain ⟨a, b, hpath, hb, hreach⟩ := h
  rw [Text.steps_of_no_dot hsimple] at hpath
  cases a with
  | nil =>
    cases hreach
    rfl
  | cons q a =>
    obtain ⟨-, hnil⟩ := List.cons.inj hpath
    exact absurd (List.append_eq_nil_iff.1 hnil.symm).2 hb

/-- If it says that an element was added to a list, then the list got it behind all that it held. -/
def Event.Appends : Event → Prop
  | .added _ _ _ object (.list items) after => after = .list (items ++ [object])
  | _ => True

namespace Execution

variable {x : Execution} {depth : Nat}

/-! ## Lists that elements are added to -/

/-- An element that is added to a list comes behind all that the list holds. -/
theorem appends_of_mem {e : Event} (h : e ∈ x.events) : e.Appends := by
  obtain ⟨c, -, hmem⟩ := List.mem_flatMap.1 h
  unfold rowEvents at hmem
  rcases List.mem_append.1 hmem with hcall | hgiven
  · refine Call.forall_events x.session x.load (fun _ _ _ => trivial) (fun _ _ _ _ _ => trivial) ?_
      nestingBound c e hcall
    intro left g owner property parent object type hadd
    generalize hbefore : left.collection x.session parent property = before
    cases before with
    | list items =>
      obtain ⟨s, hrun, rfl⟩ := run_edit_eq_ok.1 hadd
      exact Frame.collection_eq_list.2
        (Store.get_of_update (Frame.collection_eq_list.1 hbefore) rfl hrun)
    | _ => trivial
  · split at hgiven
    · rw [List.mem_singleton.1 hgiven]
      trivial
    · cases hgiven

/-! ## Lists in the end -/

/-- Writing the outputs of a response leaves a region as it is to which neither the parameter nor the
response leads. -/
theorem outputs_keep {response : Response} (hf : f.Spares x.session R False S)
    (hparameter : x.parameter.Outside R f.world.store)
    (hcells : ∀ v ∈ response.cells, v.Outside R f.world.store)
    (hrun : (x.session.writeOutputs x.statement x.parameter response.outputs).run f = (.ok (), g)) :
    R.onStore.later f.world.store g.world.store := by
  have hstep := Region.onRequest.writeOutputs x.statement hf hparameter fun out ho v hv =>
    hcells v (Response.mem_cells_of_outputs ho hv)
  obtain ⟨-, hlater, -⟩ := hstep.leaves (fun _ => id) hrun
  exact hlater

/-- A statement without outputs writes nothing. -/
theorem outputs_still {outputs : Option OutParams}
    (hinputs : ∀ parameters, x.statement.parameterMap = some parameters →
      ∀ mapping ∈ parameters.mappings, mapping.mode.isOutput = false)
    (hrun : (x.session.writeOutputs x.statement x.parameter outputs).run f = (.ok (), g)) :
    g.world.store = f.world.store := by
  unfold Session.writeOutputs at hrun
  split at hrun
  · next _ parameters hparameters =>
    obtain ⟨_, k, hcontext, hrun⟩ := run_bind_eq_ok.1 hrun
    cases hcontext
    obtain ⟨s, hwrite, rfl⟩ := run_edit_eq_ok.1 hrun
    rw [ParameterMap.run_writeOutputs_inputs (hinputs parameters hparameters)] at hwrite
    cases hwrite
    rfl
  · cases hrun
    rfl

/-- The outputs of a query go to no object that its target leads to: it has none, or its parameter leads to
no such object. -/
def Apart (x : Execution) : Prop :=
  (∀ parameters, x.statement.parameterMap = some parameters →
    ∀ mapping ∈ parameters.mappings, mapping.mode.isOutput = false) ∨
  ∀ t r, x.target = some t → x.world.store.LedBy x.parameter r → ¬x.world.store.LedBy t r

/-- No object refers to what the parameter does not lead to, but for such objects, as long as all that is
beside the target stays as it is. -/
theorem Closed.shuts_unshared (hclosed : x.Closed)
    (hapart : ∀ t r, x.target = some t → x.world.store.LedBy x.parameter r → ¬x.world.store.LedBy t r)
    (hkept : x.Beside.onStore.later x.world.store s) :
    s.Shuts fun r => r.index < s.objects.size ∧ ¬x.world.store.LedBy x.parameter r := by
  refine ⟨fun r hr => hr.1, fun q r hq hr => ?_⟩
  have hlt : q.index < s.objects.size := by
    by_contra hlt
    rw [Store.data_of_size_le (Nat.not_lt.1 hlt)] at hr
    cases hr
  have hled : x.world.store.LedBy x.parameter q := by
    by_contra hnot
    exact hq ⟨hlt, hnot⟩
  rw [hkept.2 q ⟨hclosed.ledBy hclosed.parameter hled, fun t ht => hapart t q ht hled⟩] at hr
  obtain ⟨p, hp, hpath⟩ := hled
  have hstep : x.world.store.LedBy x.parameter r := ⟨p, hp, hpath.tail hr⟩
  exact ⟨Nat.lt_of_lt_of_le (hclosed.ledBy hclosed.parameter hstep) hkept.1, fun hin => hin.2 hstep⟩

/-- A list of a remembered object is there behind the outputs of a query that comes by no objects. -/
theorem outputs_collection {resultMap : Option ResultMap} {response : Response} {id key : String}
    (hclosed : x.Closed) (hapart : x.Apart) (hscalar : x.Scalar S) (hsubmit : x.Submits resultMap response k)
    (hf : f.Scalar x.session S) (hbeside : f.Spares x.session x.Beside True S)
    (hkept : x.Beside.onStore.later x.world.store f.world.store)
    (hknown : f.request.identity.get? id key = some parent)
    (hlist : f.collection x.session parent property = .list items)
    (hrun : (x.session.writeOutputs x.statement x.parameter response.outputs).run f = (.ok (), g)) :
    ∃ more, g.collection x.session parent property = .list (items ++ more) := by
  rcases hapart with hinputs | hapart
  · refine ⟨[], ?_⟩
    unfold Frame.collection at hlist ⊢
    rw [outputs_still hinputs hrun, hlist, List.append_nil]
  have hlater := outputs_keep (hf.spares (hclosed.shuts_unshared hapart hkept))
    (fun r hr => ⟨Nat.lt_of_lt_of_le (hclosed.parameter r hr) hkept.1, fun hin => hin.2 ⟨r, hr, .refl⟩⟩)
    (fun v hv r hr => absurd hr (hscalar.cells hsubmit v hv r)) hrun
  have hsame : ∀ r y, parent = .object r → y.index < f.world.store.objects.size →
      f.world.store.OnTheWay r (Text.steps property) y →
      (f.world.store.data y).OnlyGrows (fun _ => True) (g.world.store.data y) True := by
    rintro r y hr hy ⟨a, b, -, -, hreach⟩
    -- what a remembered object leads to is not beside the target, so the parameter does not lead there
    obtain ⟨hmade, hout⟩ := hbeside.remembered trivial _ _ _ hknown r hr
    obtain ⟨-, hnot⟩ := hbeside.shuts.reach? hout hmade hreach
    rw [hlater.2 y ⟨hy, fun hled =>
      hnot ⟨hclosed.ledBy hclosed.parameter hled, fun t ht => hapart t y ht hled⟩⟩]
    exact .refl _
  exact Frame.collection_grown hlist hsame

section Laws

variable (hload : x.load = x.session.loader) (hclosed : x.Closed)
  (htarget : ∀ t, x.target = some t → x.world.store.Holds t)
  (hsingle : x.target ≠ none → x.receive = .single) (h : x.run = (.ok (), g))
  (hadded : .added owner parent property object (.list items) after ∈ x.events)

include hload hclosed htarget hsingle h hadded

/-- At a property of an object that the query built, which is no path, a list keeps in the end what it was
given. -/
theorem holds_at_property
    (hexchange : ∀ c, x.Calls c → c.map.id = owner → c.map.exchange = .map ∨ c.map.exchange = .bean)
    (hsimple : '.' ∉ property.toList) (hparent : x.target ≠ some parent) :
    ∃ more, g.collection x.session parent property = .list (items ++ object :: more) := by
  let objects : String → Value → Prop := fun id v => id = owner ∧ x.target ≠ some v
  have htargets : ∀ t, x.target = some t → x.world.store.Holds t ∧ ∀ id, ¬objects id t :=
    fun t ht => ⟨htarget t ht, fun _ ho => ho.2 ht⟩
  obtain ⟨m, rows, response, opened, f, e, hsubmit, -, hcourse, houtputs, -⟩ :=
    course_of_run hload (Sphere.closed_all _) trivial hclosed htargets (fun d v hd ho => hexchange d hd ho.1)
      (fun hsome => emitted_le_one hload (hsingle hsome) h) h hadded
  obtain ⟨k, -, ⟨howns, hcollection⟩, hon⟩ := hcourse.moments _ hadded
  obtain ⟨r, rfl, hnew, hspares⟩ := howns ⟨rfl, hparent⟩
  obtain ⟨hend, hrows⟩ := hon.spares _ hspares
  -- the parent is new, so neither the parameter nor the response leads to it
  have hout : ∀ {v : Value}, x.world.store.Holds v → v.Outside (· = r) e.world.store := by
    intro v hv q hq
    refine ⟨Nat.lt_of_lt_of_le (hv q hq) hcourse.sound.size, ?_⟩
    rintro rfl
    exact Nat.lt_irrefl _ (Nat.lt_of_lt_of_le (hv q hq) hnew)
  have hlater := outputs_keep hend (hout hclosed.parameter) (fun v hv => by
    obtain ⟨registration, hmem, -, hcell⟩ := hsubmit.asked.2 v hv
    exact hout (hclosed.replies registration hmem v hcell)) houtputs
  have hlist : k.collection x.session (.object r) property = .list (items ++ [object]) :=
    hcollection.trans (appends_of_mem hadded)
  obtain ⟨more, hmore⟩ := Frame.collection_grown hlist fun q y hq _ hway => by
    cases hq
    rw [hway.eq_of_no_dot hsimple, hlater.2 r rfl]
    exact hrows.grows r rfl
  exact ⟨more, by rw [hmore, List.append_assoc, List.singleton_append]⟩

/-- Where a query comes by no objects, and its parameter leads to none that its target leads to, a list at any
path keeps in the end what it was given, if its parent is remembered. -/
theorem holds_at_path {id key : String} (hscalar : x.Scalar S) (hapart : x.Apart)
    (hknown : g.request.identity.get? id key = some parent) :
    ∃ more, g.collection x.session parent property = .list (items ++ object :: more) := by
  have htargets : ∀ t, x.target = some t → x.world.store.Holds t ∧ ∀ id : String, ¬False :=
    fun t ht => ⟨htarget t ht, fun _ => not_false⟩
  obtain ⟨m, rows, response, opened, f, e, hsubmit, opens, hcourse, houtputs, hrows⟩ :=
    course_of_run hload hscalar.closed hscalar.statement hclosed htargets (fun _ _ _ => False.elim)
      (fun hsome => emitted_le_one hload (hsingle hsome) h) h hadded
  obtain ⟨hbeside, hkept⟩ :=
    hrows _ (hscalar.beside_rows hload htarget) (hscalar.beside_opened hclosed opens)
  -- up to the outputs all that was there when the element was added only grows
  obtain ⟨k, hdraws, ⟨-, hcollection⟩, hon⟩ := hcourse.moments _ hadded
  have hlist : k.collection x.session parent property = .list (items ++ [object]) :=
    hcollection.trans (appends_of_mem hadded)
  obtain ⟨-, hgrows⟩ :=
    hon.spares _ (((hscalar.opens opens).draws hdraws).spares k.world.store.shuts_below)
  obtain ⟨more, hmore⟩ := Frame.collection_grown hlist fun _ y _ hy _ => hgrows.grows y hy
  -- and behind these too, as they are written elsewhere
  have hidentity : g.request.identity = e.request.identity :=
    (Trail.later (Trail.writeOutputs (τ := .still) x.statement x.parameter _ _) houtputs).2.1
  obtain ⟨more', hmore'⟩ := outputs_collection hclosed hapart hscalar hsubmit
    ((hscalar.opens opens).draws hcourse.draws) hbeside hkept (hidentity ▸ hknown) hmore houtputs
  exact ⟨more ++ more', by rw [hmore']; simp⟩

end Laws

/-! ## Keyed objects -/

/-- In a query that succeeds, an object is built at most once for every map and key, and stays remembered
for them; and every object that is built for a key is handed over exactly once. What is given to the
receiver is handed over, and so is what is added to a list: it comes behind what the list held, stays there
to the end at a property that is no path, and the list of a remembered object holds what was added to it,
each object once, and nothing else. -/
theorem keyed_objects_delivered_once (hload : x.load = x.session.loader) (ht : x.target = none)
    (hm : ∀ c, x.Calls c → c.map.exchange = .map ∨ c.map.exchange = .bean)
    (h : x.run = (.ok (), g)) :
    (∀ id key, (x.events.filterMap Event.key?).count (id, key) ≤ 1) ∧
    (∀ id key v, .built id (some key) v ∈ x.events ↔ g.request.identity.get? id key = some v) ∧
    (∀ c ∈ x.calls, ∀ id key v, c.frame.request.identity.get? id key = some v →
      g.request.identity.get? id key = some v) ∧
    (∀ id key v, .built id (some key) v ∈ x.events → HandsOverOnce x.events v) ∧
    g.emitted.toList.map (·.object) = x.events.filterMap Event.given? ∧
    (∀ owner parent property object items after,
      .added owner parent property object (.list items) after ∈ x.events →
        after = .list (items ++ [object]) ∧
        (x.Closed → '.' ∉ property.toList →
          ∃ more, g.collection x.session parent property = .list (items ++ object :: more))) ∧
    (x.Closed → Table.Indexed ResultMap.id x.session.catalog.resultMaps →
      ∀ (m : ResultMap) property, m.Collects x.session.catalog property →
        ∀ key r, g.request.identity.get? m.id key = some (.object r) →
          (g.world.store.data r).items property = x.events.filterMap (Event.addedTo? r property) ∧
            ((g.world.store.data r).items property).Nodup) := by
  obtain ⟨hbooks, hknown⟩ :=
    (invariant_books (fun _ => True) hload (fun _ _ => ht) fun c hc _ => hm c hc).run h
  have hnone : ∀ t, x.target ≠ some t := fun t he => by
    rw [ht] at he
    cases he
  refine ⟨fun id key => List.nodup_iff_count_le_one.1 hbooks.remembers.nodup _, fun id key v => ?_,
    fun c hc id key v hv => ?_, fun id key v hv => ?_, hbooks.given,
    fun owner parent property object items after hadded => ⟨appends_of_mem hadded, fun hclosed hsimple => ?_⟩,
    fun hclosed hindexed m property hcollects key r hk => ?_⟩
  · rw [hbooks.remembers.known]
    refine ⟨.inr, fun hv => hv.resolve_left ?_⟩
    -- nothing is known in the beginning
    exact nofun
  · obtain ⟨events, he⟩ := hknown c hc
    exact (he.known id key v).2 (.inl hv)
  · exact hbooks.handsOverOnce (List.mem_filterMap.2 ⟨_, hv, rfl⟩)
  · exact holds_at_property hload hclosed (fun t he => absurd he (hnone t)) (fun he => absurd ht he) h hadded
      (fun c hc _ => hm c hc) hsimple (hnone parent)
  · have hitems := items_eq_added hload ht hclosed hindexed hcollects h hk
    exact ⟨hitems, hitems ▸ hbooks.nodup_delivered.sublist (Event.sublist_addedTo ..)⟩

/-- Two parents that share a child, and another child of the first. -/
def sharedChild : Execution :=
  select [.keyed "P" ["p"] [("kids", "C")], .keyed "C" ["c"] []] ["p", "c"]
    [[.string "p1", .string "c1"], [.string "p2", .string "c1"], [.string "p1", .string "c2"]]

theorem collects_sharedChild :
    (ResultMap.keyed "P" ["p"] [("kids", "C")]).Collects sharedChild.session.catalog "kids" where
  registered := rfl
  declared := rfl
  exchange := .inl rfl
  single := by decide
  direct mapping hmem hhead := by
    rcases List.mem_pair.1 hmem with rfl | rfl
    · exact absurd hhead (by decide)
    · exact .inl rfl
  uniform := .inl fun mapping hmem hproperty => by
    rcases List.mem_pair.1 hmem with rfl | rfl
    · exact absurd hproperty (by decide)
    · rfl
  list mapping hmem _ _ := by
    rcases List.mem_pair.1 hmem with rfl | rfl <;> exact .inl rfl
  nested mapping hmem hproperty := by
    rcases List.mem_pair.1 hmem with rfl | rfl
    · exact absurd hproperty (by decide)
    · rfl

theorem indexed_sharedChild :
    Table.Indexed ResultMap.id sharedChild.session.catalog.resultMaps := by
  refine ⟨by decide, ?_⟩
  simp [sharedChild, select, World.openSession, World.join, Catalog.atHome, ResultMap.atHome, ResultMap.keyed]

/-- The child that is shared is handed over once, to the first parent, which holds both children. -/
theorem keyed_objects_delivered_once_shared_child :
    (∀ c, sharedChild.Calls c → c.map.exchange = .map ∨ c.map.exchange = .bean) ∧
    ∃ g r v, sharedChild.run = (.ok (), g) ∧ (sharedChild.events.filterMap Event.key?).count ("C", "c1-") ≤ 1 ∧
      g.request.identity.get? "C" "c1-" = some v ∧ HandsOverOnce sharedChild.events v ∧
      g.request.identity.get? "P" "p1-" = some (.object r) ∧
      (g.world.store.data r).items "kids" = sharedChild.events.filterMap (Event.addedTo? r "kids") ∧
      ((g.world.store.data r).items "kids").Nodup ∧ ((g.world.store.data r).items "kids").length = 2 := by
  have hclass : ∀ c, sharedChild.Calls c → c.map.exchange = .map ∨ c.map.exchange = .bean := by
    intro c hc
    obtain ⟨m, hm, heq⟩ := map_of_select hc
    rw [heq]
    rcases List.mem_pair.1 hm with rfl | rfl <;> exact .inl rfl
  have hok : sharedChild.run.1.isOk = true := by decide +kernel
  have hknown : (sharedChild.run.2.request.identity.get? "C" "c1-").isSome = true := by decide +kernel
  have hparent : (sharedChild.run.2.request.identity.get? "P" "p1-").bind Value.object? = some ⟨0⟩ := by
    decide +kernel
  have htwo : ((sharedChild.run.2.world.store.data ⟨0⟩).items "kids").length = 2 := by decide +kernel
  obtain ⟨v, hv⟩ := Option.isSome_iff_exists.1 hknown
  obtain ⟨p, hp, hr⟩ := Option.bind_eq_some_iff.1 hparent
  obtain rfl : p = .object ⟨0⟩ := by
    cases p <;> cases hr
    rfl
  obtain ⟨honce, hbuilt, -, hover, -, -, hlists⟩ := keyed_objects_delivered_once rfl rfl hclass (run_of_isOk hok)
  obtain ⟨hitems, hnodup⟩ :=
    hlists (closed_select (by simp)) indexed_sharedChild _ "kids" collects_sharedChild "p1-" ⟨0⟩ hp
  exact ⟨hclass, _, ⟨0⟩, v, run_of_isOk hok, honce _ _, hv, hover _ _ _ ((hbuilt _ _ _).2 hv), hp, hitems,
    hnodup, htwo⟩

/-! ## Parents and the elements that rows have for them -/

/-- The object of a parent holds in the end the object of every element that a row had for it, in a list that
the element was added to, unless that object was built before and was handed over elsewhere. At a path, and in
a target, the list keeps it if the query comes by no objects and its outputs go elsewhere. -/
theorem parent_holds_element {m : ResultMap} (hload : x.load = x.session.loader) (hclosed : x.Closed)
    (hindexed : Table.Indexed ResultMap.id x.session.catalog.resultMaps)
    (hm : x.session.catalog.resultMap m.id = .ok m) (hexchange : m.exchange = .map ∨ m.exchange = .bean)
    (htarget : ∀ t, x.target = some t → x.world.store.Holds t)
    (hsingle : x.target ≠ none → x.receive = .single) (h : x.run = (.ok (), g))
    {before after : List Event} {parentKey child childKey : String}
    (hfound : x.events =
      before ++ .found m.id (some parentKey) property child (some childKey) :: after) :
    ∃ parent object, g.request.identity.get? m.id parentKey = some parent ∧
      g.request.identity.get? child childKey = some object ∧
      ((child, childKey) ∈ before.filterMap Event.key? ∧
        (∃ event ∈ x.events, event.delivered? = some object ∧
          event.added? ≠ some (m.id, parent, property, object)) ∨
      ∃ held holds, .added m.id parent property object held holds ∈ x.events ∧
        ('.' ∉ property.toList ∧ x.target ≠ some parent ∨ (∃ S, x.Scalar S) ∧ x.Apart →
          ∀ items, held = .list items →
            ∃ more, g.collection x.session parent property = .list (items ++ object :: more)) ∧
        (m.Collects x.session.catalog property → x.target = none →
          ∃ r, parent = .object r ∧ object ∈ (g.world.store.data r).items property)) := by
  have hmap : ∀ c, x.Calls c → c.map.id = m.id → c.map.exchange = .map ∨ c.map.exchange = .bean := by
    intro c hc hid
    obtain ⟨id, hregistered⟩ := hc.registered
    obtain rfl := Catalog.resultMap_id hindexed hregistered
    rw [hid, hm] at hregistered
    cases hregistered
    exact hexchange
  obtain ⟨hbooks, -⟩ := (invariant_books (fun id => id = m.id ∧ x.target = none) hload (fun _ ho => ho.2)
    fun c hc ho => hmap c hc ho.1).run h
  have hbuilt : ∀ {id key v}, g.request.identity.get? id key = some v →
      .built id (some key) v ∈ x.events := by
    intro id key v hv
    refine ((hbooks.remembers.known id key v).1 hv).resolve_left ?_
    -- nothing is known in the beginning
    exact nofun
  obtain ⟨parent, object, hparent, hobject, hsettles⟩ := hbooks.found hfound
  refine ⟨parent, object, hparent, hobject, ?_⟩
  -- what was not added to the parent is handed over elsewhere, as all that is built is
  by_cases hadded : (m.id, parent, property, object) ∈ x.events.filterMap Event.added?
  · right
    obtain ⟨event, hmem, hevent⟩ := List.mem_filterMap.1 hadded
    unfold Event.added? at hevent
    split at hevent <;> cases hevent
    refine ⟨_, _, hmem, fun hsafe items he => ?_, fun hcollects ht => ?_⟩
    · subst he
      rcases hsafe with ⟨hsimple, hnot⟩ | ⟨⟨S, hscalar⟩, hapart⟩
      · exact holds_at_property hload hclosed htarget hsingle h hmem hmap hsimple hnot
      · exact holds_at_path hload hclosed htarget hsingle h hmem hscalar hapart hparent
    · obtain ⟨r, rfl, -⟩ := hbooks.fresh (hbuilt hparent) ⟨rfl, ht⟩
      refine ⟨r, rfl, ?_⟩
      rw [items_eq_added hload ht hclosed hindexed hcollects h hparent]
      exact List.mem_filterMap.2 ⟨_, hmem, if_pos ⟨rfl, rfl⟩⟩
  · left
    obtain ⟨event, hmem, hdelivered⟩ := List.mem_filterMap.1
      (hbooks.delivered.mem_iff.1 (List.mem_filterMap.2 ⟨_, hbuilt hobject, rfl⟩))
    refine ⟨?_, event, hmem, hdelivered, fun hevent => hadded (List.mem_filterMap.2 ⟨event, hmem, hevent⟩)⟩
    rcases hsettles with hknown | hbefore | hafter
    · cases hknown
    · exact hbefore
    · rw [hfound, List.filterMap_append] at hadded
      exact absurd (List.mem_append_right _ (List.mem_filterMap.2 (by
        obtain ⟨event, hmem, hevent⟩ := List.mem_filterMap.1 hafter
        exact ⟨event, List.mem_cons_of_mem _ hmem, hevent⟩))) hadded

/-- A parent that is a target, with its children in a list at a path. -/
def intoTarget : Execution :=
  let x := select [.keyed "P" ["p"] [("a.kids", "C")], .keyed "C" ["c"] []] ["p", "c"]
    [[.string "p1", .string "c1"], [.string "p1", .string "c2"]]
  { x with
    target := some (.object ⟨0⟩)
    receive := .single
    world := { x.world with store := { objects := #[.map []] } } }

theorem cells_intoTarget : ∀ registration ∈ intoTarget.world.database.registrations,
    ∀ v ∈ registration.reply.cells, ∀ r, v ≠ .object r :=
  cells_select [] (by simp)

theorem closed_intoTarget : intoTarget.Closed where
  store r v hv := by
    rcases r with ⟨_ | i⟩ <;> exact absurd hv List.not_mem_nil
  replies registration hreg v hv r he := absurd he (cells_intoTarget registration hreg v hv r)
  loader _ h := by cases h
  parameter _ h := by cases h

theorem scalar_intoTarget : intoTarget.Scalar .all where
  closed := Sphere.closed_all _
  statement := trivial
  replies registration hreg _ := cells_intoTarget registration hreg
  loader _ h := by cases h

/-- The target holds the second child in the end. -/
theorem parent_holds_element_intoTarget :
    ∃ before after g parent object,
      intoTarget.events = before ++ .found "P" (some "p1-") "a.kids" "C" (some "c2-") :: after ∧
      ("C", "c2-") ∉ before.filterMap Event.key? ∧ intoTarget.run = (.ok (), g) ∧
      g.request.identity.get? "P" "p1-" = some parent ∧ g.request.identity.get? "C" "c2-" = some object ∧
      ∃ items more, g.collection intoTarget.session parent "a.kids" = .list (items ++ object :: more) := by
  have hok : intoTarget.run.1.isOk = true := by decide +kernel
  have hfound : (intoTarget.events[5]?).bind Event.found? =
      some (("P", some "p1-"), "a.kids", "C", some "c2-") := by decide +kernel
  have hnew : ("C", "c2-") ∉ (intoTarget.events.take 5).filterMap Event.key? := by decide +kernel
  have hlists : (intoTarget.events.filterMap Event.held?).all (·.list?.isSome) = true := by decide +kernel
  obtain ⟨e, he, hfound⟩ := Option.bind_eq_some_iff.1 hfound
  unfold Event.found? at hfound
  split at hfound <;> cases hfound
  obtain ⟨hlt, he⟩ := List.getElem?_eq_some_iff.1 he
  have hevents : intoTarget.events = intoTarget.events.take 5 ++ intoTarget.events[5] ::
      intoTarget.events.drop 6 := by
    rw [List.getElem_cons_drop, List.take_append_drop]
  rw [he] at hevents
  have hindexed : Table.Indexed ResultMap.id intoTarget.session.catalog.resultMaps := by
    refine ⟨by decide, ?_⟩
    simp [intoTarget, select, World.openSession, World.join, Catalog.atHome, ResultMap.atHome,
      ResultMap.keyed]
  have htarget : ∀ t, intoTarget.target = some t → intoTarget.world.store.Holds t := by
    rintro _ ⟨⟩ r ⟨⟩
    exact Nat.zero_lt_one
  have hapart : intoTarget.Apart := by
    exact .inl nofun
  obtain ⟨parent, object, hparent, hobject, hends⟩ :=
    parent_holds_element (m := .keyed "P" ["p"] [("a.kids", "C")]) rfl closed_intoTarget hindexed rfl
      (.inl rfl) htarget (fun _ => rfl) (run_of_isOk hok) hevents
  obtain ⟨held, holds, hadded, hkeeps, -⟩ := hends.resolve_left fun ⟨hbuilt, _⟩ => hnew hbuilt
  have hlist := List.all_eq_true.1 hlists held (List.mem_filterMap.2 ⟨_, hadded, rfl⟩)
  cases held with
  | list items =>
    obtain ⟨more, hmore⟩ := hkeeps (.inr ⟨⟨_, scalar_intoTarget⟩, hapart⟩) items rfl
    exact ⟨_, _, _, parent, object, hevents, hnew, run_of_isOk hok, hparent, hobject, items, more, hmore⟩
  | _ => cases hlist

/-! ## Elements that parents miss -/

/-- The objects of two groups in the end of a query, and the elements of the collection at a path of the
first, if there is a collection. -/
def ends (x : Execution) (parent child : String × String) (path : String) :
    Option (ObjectRef × ObjectRef × Option (List (Option ObjectRef))) := do
  let known := x.run.2.request.identity
  let owner ← (← known.get? parent.1 parent.2).object?
  let element ← (← known.get? child.1 child.2).object?
  let collection ← (x.session.catalog.accessor.get x.run.2.world.store (.object owner) path).toOption
  return (owner, element, collection.elements?.map (·.map Value.object?))

/-- A query on one row by a map of parents with lists of children at a path, and of beans that write to the
same path of an object that is there from the start. -/
def overwriting (path : String) (columns : List String) (row : List Value) : Execution :=
  let bean : ResultMap := .keyed "D" ["z", "z.kids"] []
  let x := select
    [.keyed "P" ("p" :: columns) [(path, "C"), ("others", "D")], .keyed "C" ["c"] [],
      { bean with groupBy := [], resultClass := some (.bean "D" [("z", .object)]) }]
    ("p" :: columns ++ ["c", "z", "z.kids"])
    [.string "p1" :: row ++ [.string "c1", .object ⟨0⟩, .string "k"]]
  { x with world := { x.world with store := { objects := #[.map []] } } }

/-- The list of the parent is at a property of an object of the row. -/
def sharedOwner : Execution := overwriting "a.kids" ["a"] [.object ⟨0⟩]

/-- The parent is a target that is also in the row. -/
def sharedTarget : Execution :=
  { overwriting "kids" [] [] with target := some (.object ⟨0⟩), receive := .single }

/-- The parent is a target that is also the parameter, and gets an output where its list is. -/
def outputIntoTarget : Execution :=
  let x := select [.keyed "P" ["p"] [("kids", "C")], .keyed "C" ["c"] []] ["p", "c"] []
  let reply : Reply := .call (some { columns := ["p", "c"], rows := [[.string "p1", .string "c1"]] })
    { values := [.string "k"] }
  let parameters : ParameterMap :=
    { id := "s", mappings := [{ property := "kids", mode := .output, coercer := some .object }] }
  { x with
    statement := { x.statement with kind := .procedure, parameterMap := some parameters }
    parameter := .object ⟨0⟩
    target := some (.object ⟨0⟩)
    receive := .single
    world := { x.world with
      store := { objects := #[.map []] }
      database := { registrations := [{ sql := "q", reply }] } } }

/-- The collection is shared with another mapping, for which it is a set that holds an equal object. -/
def sharedSet : Execution :=
  let parent : ResultMap := .keyed "P" ["p"] []
  let mappings : List ResultMapping :=
    [{ property := "p", coercer := some .object },
      { property := "kids", type := some .set, route := .nestedMap "D" },
      { property := "kids", type := some .list, route := .nestedMap "C" }]
  select [{ parent with mappings := .declared mappings }, .keyed "C" ["c"] [], .keyed "D" ["c"] []] ["p", "c"]
    [[.string "p1", .string "c1"]]

/-- A child that two parents have goes to the first. A list can be overwritten in the end if it is at a
property of an object that rows hold, or in a target that rows hold or outputs are written to. And a
collection is no list if another mapping makes it a set. -/
theorem parent_misses_element :
    (sharedChild.run.1.isOk = true ∧
      (("P", some "p2-"), "kids", "C", some "c1-") ∈ sharedChild.events.filterMap Event.found? ∧
      sharedChild.ends ("P", "p2-") ("C", "c1-") "kids" = some (⟨2⟩, ⟨1⟩, some [])) ∧
    (sharedOwner.run.1.isOk = true ∧
      (("P", some "p1-"), "a.kids", "C", some "c1-") ∈ sharedOwner.events.filterMap Event.found? ∧
      sharedOwner.ends ("P", "p1-") ("C", "c1-") "a.kids" = some (⟨1⟩, ⟨2⟩, none)) ∧
    (sharedTarget.run.1.isOk = true ∧
      (("P", some "p1-"), "kids", "C", some "c1-") ∈ sharedTarget.events.filterMap Event.found? ∧
      sharedTarget.ends ("P", "p1-") ("C", "c1-") "kids" = some (⟨0⟩, ⟨1⟩, none)) ∧
    (outputIntoTarget.run.1.isOk = true ∧
      (("P", some "p1-"), "kids", "C", some "c1-") ∈ outputIntoTarget.events.filterMap Event.found? ∧
      outputIntoTarget.ends ("P", "p1-") ("C", "c1-") "kids" = some (⟨0⟩, ⟨1⟩, none)) ∧
    (sharedSet.run.1.isOk = true ∧
      (("P", some "p1-"), "kids", "C", some "c1-") ∈ sharedSet.events.filterMap Event.found? ∧
      sharedSet.ends ("P", "p1-") ("C", "c1-") "kids" = some (⟨0⟩, ⟨2⟩, some [some ⟨1⟩])) := by
  refine ⟨?_, ?_, ?_, ?_, ?_⟩ <;> decide +kernel

end Execution

end RowMapper
