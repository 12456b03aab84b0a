/-
The lists of remembered objects. From the first row of a query to the last, the list of nested elements of
an object that is remembered is what the events of the query added to it.
-/
import RowMapper.Proofs.Delivery.Lists
import RowMapper.Proofs.Delivery.Moments

namespace RowMapper

variable {r : ObjectRef} {property : String} {m : ResultMap} {session : Session} {f g : Frame}

/-- A map of a catalog that gathers nested elements in lists at a property. -/
structure ResultMap.Collects (m : ResultMap) (catalog : Catalog) (property : String) : Prop
    extends m.Owns catalog, m.Place property where
  nested : m.Nested property

theorem Watch.sound_list {fixed : Prop} (hm : m.Collects session.catalog property)
    (hindexed : Table.Indexed ResultMap.id session.catalog.resultMaps) :
    (Watch.list r property fixed).Sound (.own m) session := by
  refine ⟨fun own hs => ?_, fun own hs p hw => ?_, hindexed⟩
  · cases hs
    exact hm.toOwns
  · cases hs
    cases hw
    exact hm.toPlace

namespace Execution

variable {x : Execution}

/-- An object that is not made yet is watched from the start. -/
theorem Closed.paired (hx : x.Closed) :
    (Listing r property m x.session False).paired { world := x.world } { world := x.world } := by
  have hheld : ¬(Watch.list r property False).Held (.own m) { world := x.world } := nofun
  refine ⟨rfl, fun _ _ => rfl, ?_⟩
  by_cases hr : r.index < x.world.store.objects.size
  · exact .inl ⟨hr, hheld⟩
  · refine .inr ⟨fun q hq => hr (hx.store q _ hq r rfl), ?_, fun registration hreg hmem => ?_, nofun,
      nofun, nofun, fun hh => absurd hh hheld, fun _ _ hh => absurd hh hheld⟩
    · exact fun v hv he => hr (hx.loader v hv r he)
    · exact hr (hx.replies registration hreg _ hmem r rfl)

/-! ## The list of an object through a query -/

/-- What holds of the list of an object behind the calls of some rows. -/
structure Lists (x : Execution) (r : ObjectRef) (property : String) (m : ResultMap)
    (calls : List Call) (f : Frame) : Prop where
  paired : (Listing r property m x.session False).paired f f
  later : (Listing r property m x.session False).later { world := x.world } f
  response : ∀ {resultMap response start}, x.Submits resultMap response start →
    (Listing r property m x.session False).Fixed f response.cells
  records : Records r property m { world := x.world } (calls.flatMap x.rowEvents) f

namespace Lists

variable {calls : List Call} {α : Type} {a : α} {run : Run Frame α}
  {Q : Frame → α → α → Prop}

theorem next (more : List Call) (h : x.Lists r property m calls f)
    (hp : (Listing r property m x.session False).paired g g)
    (hl : (Listing r property m x.session False).later f g)
    (hr : Records r property m f (more.flatMap x.rowEvents) g) :
    x.Lists r property m (calls ++ more) g where
  paired := hp
  later := (Listing r property m x.session False).trans h.later hl
  response hs := (h.response hs).later hl
  records := by
    rw [List.flatMap_append]
    exact h.records.append hr hl.2.2.1

/-- What neither remembers objects nor adds to the list keeps it. -/
theorem still (hn : m.Nested property) (h : x.Lists r property m calls f)
    (hstep : (Listing r property m x.session True).InStep Q run run f f)
    (hrun : run.run f = (.ok a, g)) (hstill : Trail.still.growth.later f g) :
    x.Lists r property m calls g := by
  obtain ⟨hp, hl, -⟩ := Watch.inStep_ok hstep hrun
  have hrecords := Records.of_inStep hn h.paired hstep hrun hstill.2.1
  have hnext := h.next [] (Listing.paired hp) (Listing.later hl) hrecords
  rwa [List.append_nil] at hnext

end Lists

/-- At every row the list of a remembered object is what the events so far added to it. -/
theorem invariant_lists (hload : x.load = x.session.loader) (ht : x.target = none)
    (hclosed : x.Closed) (hindexed : Table.Indexed ResultMap.id x.session.catalog.resultMaps)
    (hm : m.Collects x.session.catalog property) (r : ObjectRef) : x.Invariant (x.Lists r property m) := by
  have hx : (Watch.list r property False).Sound (.own m) x.session :=
    Watch.sound_list hm hindexed
  have hreads : (Listing r property m x.session True).Scans x.session x.load x.load :=
    (hload ▸ Watch.reads_load hx.fixed nestingBound : Correspondence.Reads _ _ _ _).scans
  have hassembles : (Listing r property m x.session False).Assembles x.session x.load x.load :=
    Watch.assembles hx (hload ▸ Watch.reads_load hx nestingBound) False.elim
  have hstill : Trail.still.growth.Scans x.session x.load x.load :=
    hload ▸ Trail.scans_still x.session nestingBound
  have hmap : ∀ {m'}, x.session.catalog.statementResultMap x.statement = .ok (some m') →
      x.session.catalog.resultMap m'.id = .ok m' := by
    intro m' h
    obtain ⟨id, hid⟩ := Catalog.resultMap_of_statement h
    exact Watch.resultMap_registered hx hid
  have hparameter : (Listing r property m x.session True).values { world := x.world }
      x.parameter x.parameter := ⟨rfl, fun he => ⟨hclosed.parameter r he, nofun⟩⟩
  refine ⟨⟨fun more hp hnext => ?_, fun hp hm' hrow => ?_, ?_⟩, fun hsubmit => ?_,
    fun hsubmit hrows hp hopen => ?_, fun hsubmit hp hout => ?_⟩
  · refine hp.still hm.nested (Q := Pairing.Same) (Watch.onRows_inStep (Listing.paired hp.paired)
      (fun _ _ => RowSet.mem_cells_of_next) fun _ _ _ _ _ _ => rfl) hnext ?_
    exact Trail.later_of_quiet (IsQuiet.nextRow.quiet hnext)
  · have hvalues := hreads.readValues (Watch.follows hx) (hmap hm') (Listing.paired hp.paired)
    refine hp.still hm.nested hvalues hrow ?_
    exact Trail.later_readValues hstill hrow
  · intro calls f m' left out c hp hm' hread htarget hmarks hc hrun
    have hvalues := hreads.readValues (Watch.follows hx) (hmap hm') (Listing.paired hp.paired)
    obtain ⟨-, -, hfound⟩ := Watch.inStep_ok hvalues hread
    cases hfound with | some hfound => ?_
    obtain ⟨hcmap, -, hv, -⟩ := hfound
    have hentered := hp.still hm.nested hvalues hread (Trail.later_readValues hstill hread)
    obtain ⟨map, target, values, entered⟩ := c
    cases htarget.trans ht
    have hcall := Records.call hx hm.nested hassembles hreads hstill nestingBound _ out left rfl
      hentered.paired hcmap hv hrun
    obtain ⟨hp', hl, -⟩ :=
      Watch.inStep_ok (hassembles.build (.inl rfl) hcmap hentered.paired hv trivial) hrun
    have hrow : Records r property m entered
        (x.rowEvents { map, target := none, values, frame := entered }) left := by
      unfold rowEvents
      rw [hrun]
      cases out with
      | none => rwa [List.append_nil]
      | some object =>
        refine hcall.append (Records.cons (.refl left) ?_) id
        rfl
    cases out with
    | none =>
      refine hentered.next [_] hp' hl ?_
      rwa [List.flatMap_singleton]
    | some object =>
      obtain ⟨hp'', hl'⟩ := Watch.push_inStep (e := ⟨object, left.world.store.content object⟩) hp'
        ⟨rfl, .inl ⟨m, rfl⟩⟩
      refine hentered.next [_] hp'' ((Listing r property m x.session False).trans hl hl') ?_
      rw [List.flatMap_singleton]
      exact hrow
  · have hstep := Watch.submit hx.fixed x.statement (Listing.paired hclosed.paired) hparameter
    have hquiet := (IsQuiet.submit x.session x.statement x.parameter).quiet hsubmit
    obtain ⟨hp, hl, -, -, hfixed⟩ := Watch.inStep_ok hstep hsubmit
    refine ⟨Listing.paired hp, Listing.later hl, fun hs => ?_,
      Records.of_inStep hm.nested hclosed.paired hstep hsubmit hquiet.identity⟩
    cases hsubmit.symm.trans hs
    exact hfixed
  · refine hp.still hm.nested (Watch.openRows hx.fixed (Listing.paired hp.paired) (hmap ?_) ?_) hopen ?_
    · exact resultMap_of_submit hsubmit
    · exact fun v hv => hp.response hsubmit v (Response.mem_cells_of_rows hrows hv)
    · exact Trail.later_of_quiet ((IsQuiet.openRows x.session _ _).quiet hopen)
  · refine hp.still hm.nested (Watch.writeOutputs x.statement _ (Listing.paired hp.paired)
      ((Listing r property m x.session False).values_later hp.later hparameter)
      fun out hout => ?_) hout ?_
    · exact fun v hv => hp.response hsubmit v (Response.mem_cells_of_outputs hout hv)
    · exact Trail.later (Trail.writeOutputs x.statement x.parameter _ _) hout

/-- An object that is remembered holds what was added to it, in that order. -/
theorem items_eq_added (hload : x.load = x.session.loader) (ht : x.target = none) (hclosed : x.Closed)
    (hindexed : Table.Indexed ResultMap.id x.session.catalog.resultMaps)
    (hm : m.Collects x.session.catalog property) (h : x.run = (.ok (), g)) {key : String}
    (hk : g.request.identity.get? m.id key = some (.object r)) :
    (g.world.store.data r).items property = x.events.filterMap (Event.addedTo? r property) := by
  have hlists := (invariant_lists hload ht hclosed hindexed hm r).run h
  have hheld : (Watch.list r property False).Held (.own m) g := ⟨key, hk⟩
  have hfresh : x.world.store.objects.size ≤ r.index := by
    by_contra hlt
    exact (hlists.later.2.2.1 ⟨Nat.not_le.1 hlt, nofun⟩).2 hheld
  rw [hlists.records.resolve_left fun hf => hf.2 hheld, Store.items_of_size_le hfresh]
  rfl

end Execution

end RowMapper
