/-
Queries whose rows are grouped. A query that reads its rows with a map that groups them gives one
object for each key of its rows, where the key comes first (`Session.queryForList_groups`). The object
holds the values of the first row with its key, and in each list the elements that the rows with its
key make, row after row.
-/
import RowMapper.Proofs.Delivery.Groups
import RowMapper.Proofs.Delivery.Observed

namespace RowMapper

namespace Execution

variable {x : Execution} {m : ResultMap} {object : String → ObjectRef} {calls : List Call} {c : Call}
  {key : String} {f g : Frame}

namespace Grouping

section Laws

variable {n : Nat} (hload : x.load = x.session.load n)
  (hi : Table.Indexed ResultMap.id x.session.catalog.resultMaps) (hm : m.Groups x.session.catalog)
  {out : Option Value} (hmap : c.map = m) (hmarks : c.frame.request.assembling = [])
  (hkey : c.key = some key) (hrun : c.run x.session x.load nestingBound = (.ok out, g))

include hload hi hm hmap hmarks hkey hrun

/-- A row of a group that is known adds to the object of the group, and gives nothing. -/
theorem row_known (h : x.Grouping m object calls c.frame) (hk : key ∈ Call.groupKeys calls) :
    x.Grouping m object (calls ++ [c]) (g.give out) := by
  rw [hload] at hrun
  have hgroup := h.groups key hk
  obtain ⟨rfl, hg, hadded, hleaves, hidentity, hemitted⟩ := Call.known_added hi hm (by decide) hmap
    hmarks hkey hgroup.known hgroup.parent hrun
  rw [← hload] at hadded
  have hadds : ∀ q d, g.Settled x.session c.frame.world.store.objects.size q d → x.Kept g q d := by
    refine fun q d hq => ⟨⟨hq.apart, hq.data, Nat.le_trans h.size hq.fresh⟩, fun hmem => ?_⟩
    rw [hemitted, h.given_iff] at hmem
    obtain ⟨key', hk', rfl⟩ := hmem
    exact absurd (h.lt_size hk') (Nat.not_lt.2 hq.fresh)
  refine h.append_known hkey hk hleaves hemitted hidentity ⟨?_, hg, hgroup.fresh, ?_⟩
  · exact (congrArg (·.get? m.id key) hidentity).trans hgroup.known
  · exact (hgroup.collected.mono fun _ _ => h.kept_known hk hleaves hemitted).add hm (hadded.mono hadds)

/-- A row of a new group makes the object of the group, which is given. -/
theorem row_new (h : x.Grouping m object calls f) (hk : key ∉ Call.groupKeys calls)
    (ht : c.target = none) (hread : f.Passes x.session (fun _ => True) c.frame)
    (hvalues : ∀ v ∈ c.values, c.frame.Has v)
    (hne : ∀ q, f.Apart x.session True q → ∀ v ∈ c.values, v ≠ .object q)
    (hlen : m.declared.length ≤ c.values.length) :
    x.Grouping m (Function.update object key ⟨c.frame.world.store.objects.size⟩) (calls ++ [c])
      (g.give out) := by
  rw [hload] at hrun
  obtain ⟨rfl, hg, ⟨d, hempty, hslots, hadded⟩, hleaves, hidentity, hemitted⟩ :=
    Call.new_added hi hm (by decide) hmap ht hmarks hkey (hread.identity ▸ h.unknown key hk)
      hread.mappings (hread.closed h.closed) hlen hvalues hrun
  rw [← hload] at hadded
  let r : ObjectRef := ⟨c.frame.world.store.objects.size⟩
  let left := g.give (some (.object r))
  have hgive : g.Leaves x.session (fun _ => True) left := .of_forget hg.mappings rfl
  have hto : f.Leaves x.session (fun q => (∀ v ∈ c.values, v ≠ .object q) ∧ r ≠ q) left :=
    ((hread.toLeaves.mono fun _ _ => trivial).trans hleaves).trans (hgive.mono fun _ _ => trivial)
  have hr : ∀ q, f.Apart x.session True q → r ≠ q := by
    rintro q hq rfl
    exact absurd (hq.made trivial) (Nat.not_lt.2 hread.size)
  have hgiven : left.emitted.toList.map (·.object) =
      f.emitted.toList.map (·.object) ++ [.object r] := by
    simp [left, Frame.give, hemitted, hread.emitted]
  have hadds : ∀ q d, g.Settled x.session (c.frame.world.store.objects.size + 1) q d →
      x.Kept left q d := by
    intro q d hq
    have hbehind : c.frame.world.store.objects.size < q.index := hq.fresh
    have hstart := Nat.le_trans h.size hread.size
    refine ⟨⟨(hq.leaves hgive trivial).apart, hq.data, Nat.le_trans hstart (Nat.le_of_lt hbehind)⟩,
      fun hmem => ?_⟩
    rw [hgiven] at hmem
    rcases List.mem_append.1 hmem with hmem | hmem
    · obtain ⟨key', hk', rfl⟩ := h.given_iff.1 hmem
      exact absurd (Nat.lt_of_lt_of_le (h.lt_size hk') hread.size) (Nat.not_lt.2 (Nat.le_of_lt hbehind))
    · cases List.mem_singleton.1 hmem
      exact Nat.lt_irrefl _ hbehind
  have hidentity' : left.request.identity = f.request.identity.insert m.id key (.object r) :=
    hread.identity ▸ hidentity
  refine h.append_new hkey hk hto (fun q hq => ⟨hne q hq, hr q hq⟩) hr hgiven hidentity'
    ⟨?_, (hg.leaves hgive trivial).1, Nat.le_trans h.size hread.size, ?_⟩
  · rw [hidentity', IdentityTable.get?_insert_self]
  · exact .start hm hempty hslots (hadded.mono hadds)

end Laws

end Grouping

/-! ## All rows -/

/-- The statement of a query brings in no objects. -/
theorem Closed.submitted (hx : x.Closed) (hi : Table.Indexed ResultMap.id x.session.catalog.resultMaps)
    {resultMap : Option ResultMap} {response : Response} (hs : x.Submits resultMap response f) :
    f.Closed x.session ∧ ∀ v ∈ response.cells, f.Has v := by
  have hstore := ((IsQuiet.submit x.session x.statement x.parameter).quiet hs).store
  have hstart : ∀ r : ObjectRef, x.world.store.objects.size ≤ r.index →
      ({ world := x.world } : Frame).Apart x.session False r := by
    intro r hr
    refine ⟨fun q hq => ?_, fun v hv he => ?_, fun registration hreg hmem => ?_, nofun, False.elim⟩
    · exact absurd (hx.store q _ hq r rfl) (Nat.not_lt.2 hr)
    · exact absurd (hx.loader v hv r he) (Nat.not_lt.2 hr)
    · exact absurd (hx.replies registration hreg _ hmem r rfl) (Nat.not_lt.2 hr)
  have hstep := fun (r : ObjectRef) (hr : f.world.store.objects.size ≤ r.index) =>
    Watch.inStep_ok (Watch.submit (Watch.sound_outer hi (Watch.whole r) False) x.statement
      (Frame.paired_forget (.inr (hstart r (hstore ▸ hr))))
      ⟨rfl, fun he => absurd (hx.parameter r he) (Nat.not_lt.2 (hstore ▸ hr))⟩) hs
  refine ⟨fun r hr => ?_, fun v hv r he => ?_⟩
  · obtain ⟨hp, -⟩ := hstep r hr
    have hg := hp.2.2.resolve_left fun hfree => absurd hfree.1 (Nat.not_lt.2 hr)
    exact Frame.apart_of_guarded (x := Watch.whole r) hg (fun h : False => h.elim)
  · by_contra hlt
    obtain ⟨-, -, -, -, hfixed⟩ := hstep r (Nat.not_lt.1 hlt)
    exact hlt ((hfixed v hv).1.2 he).1

/-- The values of a row of a query that groups its rows. -/
theorem groups_row (hi : Table.Indexed ResultMap.id x.session.catalog.resultMaps) {n : Nat}
    (hload : x.load = x.session.load n) (hm : m.Groups x.session.catalog)
    (hf : f.request.mappings = []) {values : List Value}
    (hread : (m.readRow x.session x.load).run f = (.ok values, g)) :
    f.Passes x.session (fun _ => True) g ∧ (f.Closed x.session → ∀ v ∈ values, g.Has v) ∧
      (∀ q, f.Apart x.session True q → ∀ v ∈ values, v ≠ .object q) ∧
      m.declared.length = values.length := by
  have hlen := (readRow_values hread).length_eq
  rw [Frame.mappings_of_declared hf hm.declared] at hlen
  rw [hload] at hread
  obtain ⟨hpasses, hhas, hne⟩ := Frame.readRow_passes hi hf hm.registered hread
  exact ⟨hpasses, hhas, hne, hlen⟩

/-- At every row the objects of the groups are those that were given, and hold what the rows so far
made. -/
theorem invariant_groups {n : Nat} (hload : x.load = x.session.load n) (ht : x.target = none)
    (hclosed : x.Closed) (hi : Table.Indexed ResultMap.id x.session.catalog.resultMaps)
    (hm : m.Groups x.session.catalog)
    (hmap : x.session.catalog.statementResultMap x.statement = .ok (some m)) :
    x.Invariant fun calls f =>
      (∀ c ∈ calls, c.map = m ∧ c.key.isSome) ∧ ∃ object, x.Grouping m object calls f := by
  have heq : ∀ {m'}, x.session.catalog.statementResultMap x.statement = .ok (some m') → m' = m :=
    fun h => Option.some.inj (Except.ok.inj (h.symm.trans hmap))
  refine ⟨⟨fun more hp hnext => ?_, fun hp hm' hread => ?_, ?_⟩, fun hsubmit => ?_,
    fun hsubmit hrows _ hopen => ?_, ?_⟩
  · exact hp.imp_right fun ⟨object, h⟩ =>
      ⟨object, h.passes (Frame.nextRow_passes h.mappings hnext) fun _ _ => trivial⟩
  · obtain rfl := heq hm'
    obtain ⟨hcalls, object, h⟩ := hp
    obtain ⟨values, hrow, -⟩ := Session.readValues_eq_ok hm.plain hread
    exact ⟨hcalls, object, h.passes (groups_row hi hload hm h.mappings hrow).1 fun _ _ => trivial⟩
  · intro calls f m' left out c hp hm' hread htarget hmarks _ hrun
    obtain rfl := heq hm'
    obtain ⟨hcalls, object, h⟩ := hp
    obtain ⟨values, hrow, hfound⟩ := Session.readValues_eq_ok hm.plain hread
    obtain ⟨hcmap, hcvalues⟩ : c.map = m' ∧ c.values = values := by
      split at hfound <;> cases hfound
      exact ⟨rfl, rfl⟩
    obtain ⟨hpasses, hhas, hne, hlen⟩ := groups_row hi hload hm h.mappings (hcvalues ▸ hrow)
    have hsome : c.key.isSome := by
      unfold Call.key
      rw [hcmap, Frame.mappings_of_declared hpasses.mappings hm.declared]
      exact uniqueKey_isSome hlen hm.keyed
    obtain ⟨key, hkey⟩ := Option.isSome_iff_exists.1 hsome
    refine ⟨fun d hd => (List.mem_append.1 hd).elim (hcalls d) fun hd => ?_, ?_⟩
    · rw [List.mem_singleton.1 hd]
      exact ⟨hcmap, hsome⟩
    · by_cases hk : key ∈ Call.groupKeys calls
      · exact ⟨object, .row_known hload hi hm hcmap hmarks hkey hrun
          (h.passes hpasses fun _ _ => trivial) hk⟩
      · exact ⟨_, h.row_new hload hi hm hcmap hmarks hkey hrun hk (htarget.trans ht) hpasses
          (hhas h.closed) hne (Nat.le_of_eq hlen)⟩
  · have hstart := (hclosed.submitted hi hsubmit).1
    obtain ⟨-, database, context, -, rfl⟩ := Session.submit_eq_ok hsubmit
    exact ⟨fun c hc => absurd hc List.not_mem_nil, fun _ => ⟨0⟩, .nil rfl hstart (Nat.le_refl _) rfl rfl⟩
  · obtain rfl := heq (resultMap_of_submit hsubmit)
    obtain ⟨hstart, hcells⟩ := hclosed.submitted hi hsubmit
    have hopened := hstart.openRows hm.declared
      (fun v hv => hcells v (Response.mem_cells_of_rows hrows hv)) hopen
    obtain rfl := Session.openRows_eq_ok hm.declared hopen
    obtain ⟨-, database, context, -, rfl⟩ := Session.submit_eq_ok hsubmit
    exact ⟨fun c hc => absurd hc List.not_mem_nil, fun _ => ⟨0⟩, .nil rfl hopened (Nat.le_refl _) rfl rfl⟩
  · rintro calls f g resultMap response start hsubmit ⟨hcalls, object, h⟩ hout
    have hstore := ((IsQuiet.submit x.session x.statement x.parameter).quiet hsubmit).store
    have hcells : ∀ out, response.outputs = some out → ∀ v ∈ out.values, start.Has v := fun out ho v hv =>
      (hclosed.submitted hi hsubmit).2 v (Response.mem_cells_of_outputs ho hv)
    have hparameter : f.Has x.parameter := fun q he =>
      Nat.lt_of_lt_of_le (hclosed.parameter q he) h.size
    have hpasses := Frame.writeOutputs_passes h.mappings hparameter
      (fun out ho v hv => (hcells out ho v hv).later (hstore ▸ h.size)) hout
    refine ⟨hcalls, object, h.passes hpasses fun q hq => ⟨fun he => ?_, fun out ho v hv he => ?_⟩⟩
    · exact absurd (hclosed.parameter q he) (Nat.not_lt.2 hq)
    · exact absurd (hcells out ho v hv q he) (Nat.not_lt.2 (hstore ▸ hq))

end Execution

namespace Session

variable {session : Session} {statement : Statement} {m : ResultMap} {id : String} {parameter : Value}
  {window : Window} {w w' : World} {items : List Value}

/-- A query for the objects of a statement. -/
def listing (session : Session) (statement : Statement) (parameter : Value) (window : Window)
    (w : World) : Execution :=
  { session, load := session.loader, statement, parameter, window, world := w }

theorem queryForList_eq_ok (hstatement : session.catalog.statement id = .ok statement)
    (h : (session.queryForList id parameter window).run w = (.ok items, w')) :
    ∃ g, (session.listing statement parameter window w).run = (.ok (), g) ∧
      items = g.emitted.toList.map (·.object) ∧ w' = g.world := by
  unfold queryForList collect at h
  rw [run_step] at h
  unfold query at h
  rw [hstatement] at h
  dsimp only at h
  rw [run_mapError] at h
  rcases hrun : (session.listing statement parameter window w).run with ⟨outcome, g⟩
  have hrun' : (session.runStatement session.loader statement parameter none window .any).run
      { world := w } = (outcome, g) := hrun
  rw [hrun'] at h
  cases outcome with
  | error e => cases h
  | ok _ =>
    cases h
    exact ⟨g, rfl, rfl, rfl⟩

/-- The error of a list that cannot be given tells what the request was doing; what was done stays. -/
theorem queryForList_eq_error {e : Error} {g : Frame}
    (hstatement : session.catalog.statement id = .ok statement)
    (hrun : (session.listing statement parameter window w).run = (.error (.failed e), g)) :
    (session.queryForList id parameter window).run w = (.error (.failed (g.explain e)), g.world) := by
  have hrun' : (session.runStatement session.loader statement parameter none window .any).run
      { world := w } = (.error (.failed e), g) := hrun
  unfold queryForList collect query
  rw [run_step, hstatement]
  dsimp only
  rw [run_mapError, hrun']
  rfl

/-- A query whose rows are grouped gives one object for each key of the rows that hold data, in the
order in which the keys come first. In the end the object holds the values of the first row with its
key, and in each list the elements that the rows with its key make, each as it is made of its row
alone. -/
theorem queryForList_groups (hi : Table.Indexed ResultMap.id session.catalog.resultMaps)
    (hm : m.Groups session.catalog) (hstatement : session.catalog.statement id = .ok statement)
    (hmap : session.catalog.statementResultMap statement = .ok (some m))
    (hclosed : (session.listing statement parameter window w).Closed)
    (h : (session.queryForList id parameter window).run w = (.ok items, w')) :
    let calls := (session.listing statement parameter window w).calls
    (∀ c ∈ calls, c.map = m ∧ c.key.isSome) ∧ ∃ object : String → ObjectRef,
      items = (Call.groupKeys calls).map (fun key => .object (object key)) ∧
      (∀ key ∈ Call.groupKeys calls, ∀ key' ∈ Call.groupKeys calls,
        object key = object key' → key = key') ∧
      ∀ key ∈ Call.groupKeys calls, m.Collected session session.loader (nestingBound - 1)
        (fun q d => w'.store.data q = d) (Call.group calls key) (w'.store.data (object key)) := by
  intro calls
  obtain ⟨g, hrun, rfl, rfl⟩ := queryForList_eq_ok hstatement h
  obtain ⟨hcalls, object, hgroups⟩ :=
    (Execution.invariant_groups rfl rfl hclosed hi hm hmap).run hrun
  exact ⟨hcalls, object, hgroups.given, hgroups.distinct, fun key hk =>
    (hgroups.groups key hk).collected.mono fun q d hq => hq.data⟩

/-- Parents by the first of their columns, with their children. -/
def parent : ResultMap := .keyed "P" ["p", "n"] [("kids", "C")]

def selectParents : Statement := { id := "s", kind := .select, sql := "q", resultMap := some "P" }

/-- Rows of two parents, which alternate. The last row has no child. -/
def parents : Session × World :=
  let rows := [[.string "p1", .string "a", .string "c1"], [.string "p2", .string "b", .string "c2"],
    [.string "p1", .string "x", .string "c3"], [.string "p2", .string "y", .null]]
  let database : Script :=
    { registrations := [{ sql := "q", reply := .rows { columns := ["p", "n", "c"], rows } }] }
  let maps := [parent, { ResultMap.keyed "C" ["c"] [] with groupBy := [] }]
  World.openSession { database }
    { statements := [("s", selectParents)], resultMaps := maps.map fun m => (m.id, m) }

/-- Parents nest children, and children nest nothing. -/
theorem nests_parents {a b : String} (h : parents.1.catalog.Nests a b) : b = "C" := by
  obtain ⟨m, hm, mapping, hmem, hroute⟩ := h
  have hroutes : mapping.route = .column ∨
      ∃ child ∈ [("kids", "C")], mapping.route = .nestedMap child.2 := by
    rcases List.mem_pair.1 (Table.mem_of_get? (Catalog.resultMap_ok_iff.1 hm)) with he | he <;> cases he
    · exact (ResultMap.mem_declared_keyed (show mapping ∈ parent.declared from hmem)).2
    · have hchild :=
        (ResultMap.mem_declared_keyed (show mapping ∈ (ResultMap.keyed "C" ["c"] []).declared from hmem)).2
      exact hchild.imp_right fun ⟨_, hno, _⟩ => absurd hno List.not_mem_nil
  rw [hroute] at hroutes
  rcases hroutes with he | ⟨child, hchild, he⟩
  · cases he
  · rw [List.mem_singleton.1 hchild] at he
    exact Route.nestedMap.inj he

theorem groups_parent : parent.Groups parents.1.catalog where
  registered := rfl
  declared := rfl
  exchange := .inl rfl
  plain := rfl
  keyed := ⟨_, List.mem_cons_self .., List.mem_cons_self ..⟩
  distinct := by decide
  single := by decide
  lists mapping hmem _ := by
    rw [(ResultMap.mem_declared_keyed hmem).1]
    exact .inl rfl
  loners id child hreach hchild := by
    obtain ⟨_, -, hlast⟩ := Relation.TransGen.tail'_iff.1 hreach
    obtain rfl := nests_parents hlast
    cases hchild
    rfl

theorem indexed_parents : Table.Indexed ResultMap.id parents.1.catalog.resultMaps :=
  ⟨by decide, by decide +kernel⟩

theorem closed_parents : (parents.1.listing selectParents .null {} parents.2).Closed := by
  have h : (Execution.select [] ["p", "n", "c"] [[.string "p1", .string "a", .string "c1"],
    [.string "p2", .string "b", .string "c2"], [.string "p1", .string "x", .string "c3"],
    [.string "p2", .string "y", .null]]).Closed := Execution.closed_select (by simp)
  exact ⟨h.store, h.replies, h.loader, h.parameter⟩

/-- The third row adds its child behind that of the first, and the last row adds none. -/
theorem queryForList_groups_parents :
    let calls := (parents.1.listing selectParents .null {} parents.2).calls
    ∃ (items : List Value) (w' : World) (object : String → ObjectRef),
      (parents.1.queryForList "s" .null).run parents.2 = (.ok items, w') ∧
      items = ["p1-", "p2-"].map (fun key => .object (object key)) ∧
      (∀ key ∈ ["p1-", "p2-"], parent.Collected parents.1 parents.1.loader (nestingBound - 1)
        (fun q d => w'.store.data q = d) (Call.group calls key) (w'.store.data (object key))) ∧
      (Call.group calls "p1-").length = 2 ∧ (Call.group calls "p2-").length = 2 ∧
      items.map Value.object? = [some ⟨0⟩, some ⟨2⟩] ∧
      ((w'.store.data ⟨0⟩).items "kids").map Value.object? = [some ⟨1⟩, some ⟨4⟩] ∧
      ((w'.store.data ⟨2⟩).items "kids").map Value.object? = [some ⟨3⟩] := by
  intro calls
  have hkeys : Call.groupKeys calls = ["p1-", "p2-"] := by decide +kernel
  have hok : (((parents.1.queryForList "s" .null).run parents.2).1.toOption.map
      (·.map Value.object?)) = some [some ⟨0⟩, some ⟨2⟩] := by decide +kernel
  obtain ⟨items, hsome, hobjects⟩ := Option.map_eq_some_iff.1 hok
  have hrun := run_eq_of_toOption hsome
  obtain ⟨-, object, hitems, -, hgroups⟩ :=
    queryForList_groups indexed_parents groups_parent rfl rfl closed_parents hrun
  rw [hkeys] at hitems hgroups
  exact ⟨items, _, object, hrun, hitems, hgroups, by decide +kernel, by decide +kernel, hobjects,
    by decide +kernel, by decide +kernel⟩

end Session

end RowMapper
