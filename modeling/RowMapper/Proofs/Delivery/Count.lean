/-
How many objects a query gives. A row gives an object unless its group was met before in the request,
as that of an earlier row or of a nested element; so there is one for every group of the rows that no
nested element was built for, and one for every row without a key.
-/
import Mathlib.Data.Finset.Card
import Mathlib.Data.List.Dedup
import RowMapper.Proofs.Delivery.Query

namespace RowMapper

/-- The map and the key of a call, if it has one. -/
def Call.group? (c : Call) : Option (String × String) := c.key.map (c.map.id, ·)

/-- Whether nothing is known yet of the group of a call, if it has one. -/
def Call.isNew (c : Call) : Bool :=
  (c.key.bind fun key => c.frame.request.identity.get? c.map.id key).isNone

namespace Execution

variable {x : Execution} {g : Frame}

/-- The groups that the rows of a query belong to. -/
def groups (x : Execution) : Finset (String × String) := (x.calls.filterMap Call.group?).toFinset

/-- The groups that nested elements were built for. -/
def nestedGroups (x : Execution) : Finset (String × String) :=
  ((x.calls.flatMap (Call.nestedEvents x.session x.load nestingBound)).filterMap
    Event.key?).toFinset

/-- A call without a key is new, and the others belong to groups. -/
theorem length_isNew (calls : List Call) :
    (calls.filter Call.isNew).length = ((calls.filter Call.isNew).filterMap Call.group?).length +
      (calls.filter fun c => c.key.isNone).length := by
  induction calls with
  | nil => rfl
  | cons c calls ih =>
    cases hk : c.key with
    | none =>
      have hnew : c.isNew = true := by simp [Call.isNew, hk]
      have hgroup : c.group? = none := by simp [Call.group?, hk]
      simp only [List.filter_cons, hnew, hk, Option.isNone_none, if_true, List.length_cons,
        List.filterMap_cons_none hgroup]
      omega
    | some key =>
      have hgroup : c.group? = some (c.map.id, key) := by simp [Call.group?, hk]
      cases hnew : c.isNew with
      | false => simpa [List.filter_cons, hnew, hk] using ih
      | true =>
        simp only [List.filter_cons, hnew, hk, Option.isNone_some, if_true, Bool.false_eq_true,
          if_false, List.length_cons, List.filterMap_cons_some hgroup]
        omega

theorem filterMap_group?_isNew (calls : List Call) :
    (calls.filter Call.isNew).filterMap Call.group? =
      calls.flatMap fun c => if c.isNew then c.group?.toList else [] := by
  induction calls with
  | nil => rfl
  | cons c calls ih =>
    rw [List.flatMap_cons, ← ih]
    cases hnew : c.isNew <;> cases hg : c.group? <;> simp [hnew, hg]

/-- The call for a row gives an object if its group is new, which it is built for then. -/
theorem row_outcome {session : Session} {load : Load} {depth : Nat} (hdepth : depth ≠ 0) {c : Call}
    {out : Option Value} {left : Frame} (hmarks : c.frame.request.assembling = [])
    (h : c.run session load depth = (.ok out, left)) :
    out.isSome = c.isNew ∧
      (Call.events session load depth c).filterMap Event.key? =
        (if c.isNew then c.group?.toList else []) ++
          (Call.nestedEvents session load depth c).filterMap Event.key? := by
  obtain ⟨depth, rfl⟩ := Nat.exists_eq_succ_of_ne_zero hdepth
  have hevents : Call.events session load (depth + 1) c =
      Call.ownEvents session c ++ Call.nestedEvents session load (depth + 1) c := rfl
  rw [hevents, List.filterMap_append]
  unfold Call.ownEvents Call.isNew Call.group?
  rcases Call.run_eq_ok h with ⟨hnone, -⟩ | ⟨subject, f, hsome, -, rfl⟩
  · obtain ⟨-, key, -, hmarked⟩ := Call.subject_eq_none hnone
    simp [Request.isAssembling, hmarks] at hmarked
  rw [hsome]
  obtain ⟨hkey, -, ⟨hnew, -, key, hk, hknown⟩ | ⟨hnew, hunknown, -⟩⟩ := Call.subject_eq_some hsome
  · simp [hk, hknown, hnew]
  · rw [hunknown, ← hkey]
    cases hs : subject.key <;> simp [hnew, hs, Event.key?]

theorem key?_rowEvents (x : Execution) (c : Call) :
    (x.rowEvents c).filterMap Event.key? =
      (Call.events x.session x.load nestingBound c).filterMap Event.key? := by
  unfold rowEvents
  rw [List.filterMap_append]
  split <;> exact List.append_nil _

/-- What is counted at every row: an object was given for every new group, every group is that of
an object that was built, and a new one is that of the row's own object. -/
structure Counts (x : Execution) (calls : List Call) (f : Frame) : Prop where
  given : f.emitted.size = (calls.filter Call.isNew).length
  built : ∀ c ∈ calls, ∀ k, c.group? = some k →
    k ∈ (calls.flatMap x.rowEvents).filterMap Event.key?
  keys : (calls.flatMap x.rowEvents).filterMap Event.key? =
    calls.flatMap fun c => (if c.isNew then c.group?.toList else []) ++
      (Call.nestedEvents x.session x.load nestingBound c).filterMap Event.key?

theorem invariant_counts (hload : x.load = x.session.loader) (ht : x.target = none)
    (hm : ∀ c, x.Calls c → c.map.exchange = .map ∨ c.map.exchange = .bean) :
    x.Invariant fun calls f =>
      (Books (fun _ => True) { world := x.world } (calls.flatMap x.rowEvents) none f ∧
        ∀ c ∈ calls, ∃ events, Remembers c.frame.request.identity events f.request.identity) ∧
      x.Counts calls f := by
  have hbooks := invariant_books (fun _ => True) hload (fun _ _ => ht) fun c hc _ => hm c hc
  have hreads : Trail.still.growth.Scans x.session x.load x.load :=
    hload ▸ Trail.scans_still x.session nestingBound
  have hstill : ∀ {calls : List Call} {f g : Frame}, Trail.still.growth.later f g →
      x.Counts calls f → x.Counts calls g :=
    fun hl hp => ⟨by rw [hl.2.2, hp.given], hp.built, hp.keys⟩
  refine ⟨⟨fun more hp hnext => ⟨hbooks.next more hp.1 hnext, ?_⟩,
      fun hp hmap hrow => ⟨hbooks.empty hp.1 hmap hrow, ?_⟩, ?_⟩,
    fun hsubmit => ⟨hbooks.submitted hsubmit, ?_⟩,
    fun hsubmit hrows hp hopen => ⟨hbooks.opened hsubmit hrows hp.1 hopen, ?_⟩,
    fun hsubmit hp hout => ⟨hbooks.outputs hsubmit hp.1 hout, ?_⟩⟩
  · exact hstill (Trail.later_of_quiet (IsQuiet.nextRow.quiet hnext)) hp.2
  · exact hstill (Trail.later_readValues hreads hrow) hp.2
  · intro calls f m left out c hp hmap hread htarget hmarks hc hrun
    have hb := hbooks.row c hp.1 hmap hread htarget hmarks hc hrun
    refine ⟨hb, ?_⟩
    obtain ⟨hgiven, hbuilt, hkeys⟩ := hstill (Trail.later_readValues hreads hread) hp.2
    obtain ⟨hnew, hown⟩ := row_outcome (by decide) hmarks hrun
    refine ⟨?_, fun d hd k hk => ?_, ?_⟩
    · have hemitted : left.emitted = c.frame.emitted := by
        obtain ⟨map, target, values, entered⟩ := c
        cases htarget.trans ht
        rw [hload] at hrun
        exact Trail.emitted_build hrun
      rw [List.filter_append, List.length_append, ← hgiven, ← hemitted]
      cases out with
      | none => simp [← hnew, Frame.give]
      | some object => simp [← hnew, Frame.give]
    · rw [List.flatMap_append, List.filterMap_append, List.flatMap_singleton]
      rcases List.mem_append.1 hd with hd | hd
      · exact List.mem_append_left _ (hbuilt d hd k hk)
      cases List.mem_singleton.1 hd
      cases hn : c.isNew with
      | true =>
        refine List.mem_append_right _ ?_
        rw [key?_rowEvents, hown, hn, hk]
        exact List.mem_cons_self ..
      | false =>
        -- what was known of the group is known behind the row, so it was built for it
        obtain ⟨key, hkey, rfl⟩ := Option.map_eq_some_iff.1 hk
        unfold Call.isNew at hn
        rw [hkey, Option.bind_some, Option.isNone_eq_false_iff] at hn
        obtain ⟨v, hv⟩ := Option.isSome_iff_exists.1 hn
        obtain ⟨events, he⟩ := hb.2 c (List.mem_append_right _ (List.mem_singleton_self c))
        have hknown := (hb.1.remembers.known c.map.id key v).1 ((he.known _ _ _).2 (.inl hv))
        have hbuilt := mem_keys_of_built (hknown.resolve_left fun h => by cases h)
        rwa [List.flatMap_append, List.filterMap_append, List.flatMap_singleton] at hbuilt
    · rw [List.flatMap_append, List.filterMap_append, hkeys, List.flatMap_append,
        List.flatMap_singleton, List.flatMap_singleton, key?_rowEvents, hown]
  · refine ⟨?_, fun c hc => absurd hc List.not_mem_nil, rfl⟩
    rw [((IsQuiet.submit x.session x.statement x.parameter).quiet hsubmit).emitted]
    rfl
  · exact hstill (Trail.later_of_quiet ((IsQuiet.openRows x.session _ _).quiet hopen)) hp.2
  · exact hstill (Trail.later (Trail.writeOutputs x.statement x.parameter _ _) hout) hp.2

/-- A query that succeeds gives an object for every group of its rows that no nested element was
built for, and for every row without a key. -/
theorem emitted_size_eq_groups (hload : x.load = x.session.loader) (ht : x.target = none)
    (hm : ∀ c, x.Calls c → c.map.exchange = .map ∨ c.map.exchange = .bean)
    (h : x.run = (.ok (), g)) :
    g.emitted.size =
      (x.groups \ x.nestedGroups).card + (x.calls.filter fun c => c.key.isNone).length := by
  obtain ⟨⟨hbooks, -⟩, hcounts⟩ := (invariant_counts hload ht hm).run h
  let news := x.calls.filter Call.isNew
  let own := news.filterMap Call.group?
  let nested := (x.calls.flatMap (Call.nestedEvents x.session x.load nestingBound)).filterMap Event.key?
  have hperm : (own ++ nested).Perm (x.events.filterMap Event.key?) := by
    have hnested : nested = x.calls.flatMap fun c =>
        (Call.nestedEvents x.session x.load nestingBound c).filterMap Event.key? :=
      List.filterMap_flatMap
    rw [hnested, show own = _ from filterMap_group?_isNew x.calls, events, hcounts.keys]
    exact List.flatMap_append_perm ..
  have hnodup : (own ++ nested).Nodup := hperm.nodup_iff.2 hbooks.remembers.nodup
  have hgroups : own.toFinset = x.groups \ x.nestedGroups := by
    ext k
    rw [Finset.mem_sdiff, groups, nestedGroups, List.mem_toFinset, List.mem_toFinset, List.mem_toFinset]
    constructor
    · intro hk
      obtain ⟨c, hc, hgroup⟩ := List.mem_filterMap.1 hk
      exact ⟨List.mem_filterMap.2 ⟨c, (List.mem_filter.1 hc).1, hgroup⟩,
        List.disjoint_of_nodup_append hnodup hk⟩
    · rintro ⟨hk, hnot⟩
      obtain ⟨c, hc, hgroup⟩ := List.mem_filterMap.1 hk
      exact (List.mem_append.1 (hperm.mem_iff.2 (hcounts.built c hc k hgroup))).resolve_right hnot
  have hlength : news.length = own.length + (x.calls.filter fun c => c.key.isNone).length :=
    length_isNew x.calls
  calc g.emitted.size = news.length := hcounts.given
    _ = own.length + (x.calls.filter fun c => c.key.isNone).length := hlength
    _ = _ := by rw [← hgroups, List.toFinset_card_of_nodup (List.Nodup.of_append_left hnodup)]

/-- Rows of parents and of their children, which a discriminator tells apart: the child of the
first row is the object of the second. -/
def parentThenChild : Execution :=
  let kind : Discriminator :=
    { mapping := { property := "t", coercer := some .string }, subMaps := [("p", "P"), ("c", "C")] }
  select
    [{ ResultMap.keyed "T" ["t"] [] with groupBy := [], discriminator := some kind },
      .keyed "P" ["p"] [("kids", "C")], .keyed "C" ["c"] []]
    ["t", "p", "c"]
    [[.string "p", .string "p1", .string "c1"], [.string "c", .string "p1", .string "c1"]]

theorem exchange_parentThenChild {c : Call} (h : parentThenChild.Calls c) :
    c.map.exchange = .map ∨ c.map.exchange = .bean := by
  obtain ⟨m, hm, heq⟩ := map_of_select h
  rw [heq]
  simp only [List.mem_cons, List.not_mem_nil, or_false] at hm
  rcases hm with rfl | rfl | rfl <;> exact .inl rfl

/-- The rows belong to two groups, but a single object is given for them. -/
theorem fewer_objects_than_groups :
    parentThenChild.load = parentThenChild.session.loader ∧ parentThenChild.target = none ∧
    (∀ c, parentThenChild.Calls c → c.map.exchange = .map ∨ c.map.exchange = .bean) ∧
    parentThenChild.run.1.isOk = true ∧
    parentThenChild.run.2.emitted.size ≠ parentThenChild.groups.card +
      (parentThenChild.calls.filter fun c => c.key.isNone).length :=
  ⟨rfl, rfl, fun _ => exchange_parentThenChild, by decide +kernel, by decide +kernel⟩

theorem emitted_size_eq_groups_parentThenChild :
    parentThenChild.run.1.isOk = true ∧ parentThenChild.run.2.emitted.size =
      (parentThenChild.groups \ parentThenChild.nestedGroups).card +
        (parentThenChild.calls.filter fun c => c.key.isNone).length ∧
    parentThenChild.nestedGroups = {("C", "c1-")} := by
  have hok : parentThenChild.run.1.isOk = true := by decide +kernel
  exact ⟨hok, emitted_size_eq_groups rfl rfl (fun _ => exchange_parentThenChild) (run_of_isOk hok),
    by decide +kernel⟩

end Execution

end RowMapper
