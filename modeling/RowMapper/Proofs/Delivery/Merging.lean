/-
Which rows are taken into one object. What a request remembers under a map and a key was built by a call
of that map for that key (`Execution.Accounts`), so that a row which is taken into an object built before
has the key of the row that built it, and with it the same texts at the group-by values but for dashes.
-/
import RowMapper.Proofs.Delivery.Query
import RowMapper.Proofs.Mapping.GroupKey

namespace RowMapper

/-- The call builds an object for its values. -/
def Call.BuildsNew (session : Session) (c : Call) (object : Value) : Prop :=
  ∃ subject left, (c.map.subject session c.target c.values).run c.frame = (.ok (some subject), left) ∧
    subject.isNew = true ∧ subject.object = object

/-- The call takes its values into an object that was built before. -/
def Call.MergesInto (session : Session) (c : Call) (object : Value) : Prop :=
  ∃ subject left, (c.map.subject session c.target c.values).run c.frame = (.ok (some subject), left) ∧
    subject.isNew = false ∧ subject.object = object

namespace Execution

variable {x : Execution} {c d : Call} {f g opened : Frame} {depth loads : Nat}

/-- All that a request remembers was built by a call of the query, under the map and the key of that. -/
def Accounts (x : Execution) (f : Frame) : Prop :=
  ∀ id key object, f.request.identity.get? id key = some object →
    ∃ b, x.Calls b ∧ b.map.id = id ∧ b.key = some key ∧ b.BuildsNew x.session object

theorem Accounts.same (h : x.Accounts f) (hid : g.request.identity = f.request.identity) : x.Accounts g := by
  unfold Accounts
  rw [hid]
  exact h

theorem Accounts.give (h : x.Accounts f) (out : Option Value) : x.Accounts (f.give out) := by
  cases out <;> exact h

theorem Accounts.mark (h : x.Accounts f) (id : String) (key : Option String) : x.Accounts (f.mark id key) :=
  h.same (by cases key <;> rfl)

theorem Accounts.unmark (h : x.Accounts f) (key : Option String) : x.Accounts (f.unmark key) :=
  h.same (by cases key <;> rfl)

/-- A call that comes to its object remembers it under its own key, or nothing. -/
theorem Accounts.subject (h : x.Accounts c.frame) (hc : x.Calls c) {subject : Subject}
    (hrun : (c.map.subject x.session c.target c.values).run c.frame = (.ok (some subject), f)) :
    x.Accounts f := by
  obtain ⟨hkey, -, ⟨-, rfl, -⟩ | ⟨hnew, -, hbuild⟩⟩ := Call.subject_eq_some hrun
  · exact h
  obtain ⟨-, -, -, -, hidentity, -⟩ := buildNew_eq_ok hbuild
  intro id key object hobject
  rw [hidentity, hkey] at hobject
  unfold IdentityTable.remember at hobject
  cases hk : c.key with
  | none =>
    rw [hk] at hobject
    exact h id key object hobject
  | some own =>
    rw [hk] at hobject
    rcases IdentityTable.get?_insert hobject with ⟨rfl, rfl, rfl⟩ | hold
    · exact ⟨c, hc, rfl, hk, subject, f, hrun, hnew, rfl⟩
    · exact h id key object hold

section Loads

variable (hload : x.load = x.session.load loads)

include hload

theorem scans_of_load : Trail.still.growth.Scans x.session x.load x.load :=
  hload ▸ Trail.scans_still x.session loads

/-- The nested elements of an object are built by calls of the query. By induction on the mappings that
are left; `rest` are those behind the ones that are gathered here. -/
theorem Accounts.gather {subject : Subject} (hc : x.Calls c) (hg : c.Gathers x.session subject opened)
    (hcalls : ∀ d, x.Calls d → x.Accounts d.frame → ∀ out left,
      d.run x.session x.load depth = (.ok out, left) → x.Accounts left) :
    ∀ (after before rest : List ResultMapping) (f g : Frame),
      subject.mappings = before ++ (after ++ rest) →
      (Call.gather x.session x.load depth before subject.object).run opened = (.ok (), f) → x.Accounts f →
      (Call.gather x.session x.load depth after subject.object).run f = (.ok (), g) → x.Accounts g
  | [], _, _, _, _, _, _, h, hrun => by
    cases hrun
    exact h
  | mapping :: after, before, rest, f, g, hmappings, hreach, h, hrun => by
    rw [Call.gather_cons] at hrun
    obtain ⟨_, k, hone, hrest⟩ := run_bind_eq_ok.1 hrun
    refine gather hc hg hcalls after (before ++ [mapping]) rest k g (by simp [hmappings])
      (Call.gather_append_ok hreach hone) ?_ hrest
    rcases nestedMapping_eq_ok hone with ⟨-, rfl⟩ | ⟨child, hroute, helement⟩
    · exact h
    rcases nestedElement_eq_ok helement with hnone | ⟨element, entered, hread, hbuilt⟩
    · exact h.same (Trail.later_readElement (scans_of_load hload) mapping child subject.object hnone).2.1
    · have hentered : x.Accounts entered :=
        h.same (Trail.later_readElement (scans_of_load hload) mapping child subject.object hread).2.1
      have hnested : x.Calls { map := element.map, values := element.values, frame := entered } :=
        .nested hc (Call.makes_of_reads hg hmappings hroute hreach hread)
      rcases hbuilt with hbuilt | ⟨object, left, hbuilt, hadd⟩
      · exact hcalls _ hnested hentered none k hbuilt
      · obtain ⟨s, -, rfl⟩ := run_edit_eq_ok.1 hadd
        exact (hcalls _ hnested hentered (some object) left hbuilt).same rfl

/-- Behind a call that succeeds all that the request remembers was built by calls. -/
theorem Accounts.run : ∀ (depth : Nat) (c : Call), x.Calls c → x.Accounts c.frame → ∀ out left,
    c.run x.session x.load depth = (.ok out, left) → x.Accounts left
  | 0, _, _, _, _, _, h => by cases h
  | depth + 1, c, hc, hknown, out, left, h => by
    rcases Call.run_eq_ok h with ⟨hnone, -⟩ | ⟨subject, f, hsome, hnested, -⟩
    · obtain ⟨rfl, -⟩ := Call.subject_eq_none hnone
      exact hknown
    · have hf := hknown.subject hc hsome
      rcases assembleNested_eq_ok hnested with ⟨-, rfl⟩ | ⟨hn, k, hgather, rfl⟩
      · exact hf
      · refine (gather hload hc ⟨⟨f, hsome, rfl⟩, hn⟩ (run depth) subject.mappings [] [] _ k ?_ rfl
          (hf.mark _ _) hgather).unmark _
        rw [List.append_nil, List.nil_append]

theorem Accounts.row {m : ResultMap} {rows : RowSet} (hf : x.Accounts f) (opens : x.Opens m rows opened)
    (reads : ReadsRow (x.readObject m) (rows.length + 1) x.window.skip x.window.max opened f)
    (hrow : (x.readObject m).run f = (.ok (), g)) : x.Accounts g := by
  rcases readObject_eq_ok hrow with hnone | ⟨c, hsome, htarget, out, left, hrun, rfl⟩
  · exact hf.same (Trail.later_readValues (scans_of_load hload) hnone).2.1
  · have hentered : x.Accounts c.frame :=
      hf.same (Trail.later_readValues (scans_of_load hload) hsome).2.1
    have hcalls := Calls.row opens reads hsome
    rw [← htarget] at hcalls
    exact (run hload nestingBound c hcalls hentered out left hrun).give out

/-- Up to any row all that the request remembers was built by calls. -/
theorem Accounts.reads {m : ResultMap} {rows : RowSet} (opens : x.Opens m rows opened)
    (reads : ReadsRow (x.readObject m) (rows.length + 1) x.window.skip x.window.max opened f)
    (hf : x.Accounts opened) : x.Accounts f :=
  reads.keeps_at (fun hf next => hf.same (IsQuiet.nextRow.quiet next).identity)
    (fun hat hf row => hf.row hload opens hat row) (fun _ => id) hf

/-- When a call is made all that the request remembers was built by calls of the query. -/
theorem Calls.accounts (h : x.Calls c) : x.Accounts c.frame := by
  induction h with
  | row opens reads found =>
    obtain ⟨response, submitted, hsubmit, -, hopen⟩ := opens.opens
    have hnone : x.Accounts { world := x.world } := nofun
    have hsubmitted := hnone.same ((IsQuiet.submit x.session x.statement x.parameter).quiet hsubmit).identity
    have hopened := hsubmitted.same ((IsQuiet.openRows x.session _ _).quiet hopen).identity
    exact (Accounts.reads hload opens reads hopened).same
      (Trail.later_readValues (scans_of_load hload) found).2.1
  | nested hc makes ih =>
    obtain ⟨n, rfl⟩ := makes
    obtain ⟨f, hsubject, hopened⟩ := n.gathers.comes
    have hf : x.Accounts n.opened := hopened ▸ (ih.subject hc hsubject).mark _ _
    have hreached : x.Accounts n.reached :=
      Accounts.gather hload hc n.gathers (Accounts.run hload n.depth) n.before [] (n.mapping :: n.after)
        n.opened n.reached n.mappings_eq rfl hf n.reaches
    exact hreached.same (Trail.later_readElement (scans_of_load hload) _ _ _ n.reads).2.1

/-- A row is taken into an object that was built before only when a call of the same map built the object
for the same key. -/
theorem exists_builder_of_merge {object : Value} (hc : x.Calls c) (h : c.MergesInto x.session object) :
    ∃ b, x.Calls b ∧ b.map.id = c.map.id ∧ b.key = c.key ∧ b.BuildsNew x.session object := by
  obtain ⟨subject, left, hrun, hold, rfl⟩ := h
  obtain ⟨-, -, ⟨-, -, key, hkey, hknown⟩ | ⟨hnew, -⟩⟩ := Call.subject_eq_some hrun
  · obtain ⟨b, hb, hid, hbkey, hbuilds⟩ := hc.accounts hload _ _ _ hknown
    exact ⟨b, hb, hid, hbkey.trans hkey.symm, hbuilds⟩
  · cases hold.symm.trans hnew

end Loads

/-! ## The mappings of calls -/

/-- The values of a call are read from a row by its map. -/
theorem Calls.reads (h : x.Calls c) :
    ∃ f, (c.map.readRow x.session x.load).run f = (.ok c.values, c.frame) := by
  cases h with
  | row opens reads found =>
    obtain ⟨effective, g, -, found⟩ := run_bind_eq_ok.1 found
    obtain ⟨values, h, hread, found⟩ := run_bind_eq_ok.1 found
    obtain ⟨data, k, hdata, found⟩ := run_bind_eq_ok.1 found
    cases hdata
    split at found <;> cases found
    exact ⟨g, hread⟩
  | nested _ makes =>
    obtain ⟨n, rfl⟩ := makes
    obtain ⟨-, f, -, hread⟩ := readElement_eq_ok n.reads
    exact ⟨f, hread⟩

/-- Where the rows of a map are opened, mappings are installed for it alone. -/
theorem installed_of_openRows {session : Session} {m : ResultMap} {rows : RowSet} {id : String}
    (h : (session.openRows m rows).run f = (.ok (), g)) (hid : id ≠ m.id) :
    Table.get? id g.request.mappings = Table.get? id f.request.mappings := by
  rw [Session.openRows_eq_opened h]
  unfold Frame.opened
  cases m.mappings with
  | declared mappings => rfl
  | auto home =>
    dsimp only
    split
    · exact Table.get?_put_of_ne hid _ _
    · split <;> rfl

section Declared

variable {m n : ResultMap} {rows : RowSet} (hi : Table.Indexed ResultMap.id x.session.catalog.resultMaps)
  (hn : x.session.catalog.resultMap n.id = .ok n) (hdeclared : n.isAuto = false)

include hi hn hdeclared

/-- A query installs no mappings for a map that declares its own. -/
theorem Opens.installed (h : x.Opens m rows opened) : Table.get? n.id opened.request.mappings = none := by
  obtain ⟨response, g, hsubmit, -, hopen⟩ := h.opens
  obtain ⟨hstatement, database, context, -, rfl⟩ := Session.submit_eq_ok hsubmit
  -- the statement's own map may be the one; for any other nothing is ever put under its id
  by_cases hid : n.id = m.id
  · obtain ⟨id, hm⟩ := Catalog.resultMap_of_statement hstatement
    have heq : n = m := by
      rw [← Catalog.resultMap_id hi hm, ← hid, hn] at hm
      exact Except.ok.inj hm
    rw [Session.openRows_eq_ok (heq ▸ hdeclared) hopen]
    rfl
  · rw [installed_of_openRows hopen hid]
    rfl

theorem Calls.installed (h : x.Calls c) : Table.get? n.id c.frame.request.mappings = none := by
  induction h with
  | @row m _ _ _ f g k opens reads found =>
    have hvalues : OnRow World.Any True (x.session.readValues x.load m) :=
      .readValues (fun _ _ _ => bounded_true _) m
    have hfound := (hvalues g trivial).2.1.mappings
    rw [found] at hfound
    show Table.get? n.id k.request.mappings = none
    rw [hfound, reads.mappings]
    exact opens.installed hi hn hdeclared
  | nested _ makes ih =>
    obtain ⟨nested, rfl⟩ := makes
    show Table.get? n.id nested.entered.request.mappings = none
    rwa [nested.mappings]

end Declared

/-- A call reads with the mappings that its map declares, if it does, and has a value for each. -/
theorem Calls.declared (hi : Table.Indexed ResultMap.id x.session.catalog.resultMaps) (h : x.Calls c)
    (hdeclared : c.map.isAuto = false) :
    c.frame.mappings c.map = c.map.declared ∧ c.values.length = c.map.declared.length := by
  obtain ⟨id, hregistered⟩ := h.registered
  obtain rfl := Catalog.resultMap_id hi hregistered
  have hnone := h.installed hi hregistered hdeclared
  obtain ⟨f, hread⟩ := h.reads
  have hrow : OnRow World.Any True (c.map.readRow x.session x.load) :=
    .readRow (fun _ _ _ => bounded_true _) c.map
  have hsteady := (hrow f trivial).2.1.mappings
  rw [hread] at hsteady
  have hlength := (readRow_values hread).length_eq
  rw [Frame.mappings_of_none (hsteady ▸ hnone), f.world.declaredMappings_eq hdeclared] at hlength
  rw [Frame.mappings_of_none hnone, c.frame.world.declaredMappings_eq hdeclared]
  exact ⟨rfl, hlength.symm⟩

/-- A group key tells rows apart by the texts of their group-by values, but for dashes that go from one
text to another. In a query a row is taken into an object built before only when a call of the same map
built it for the same key, so that rows with other texts are kept apart unless it is by dashes. -/
theorem group_keys_tell_rows_apart :
    (∀ (m : ResultMap) (s t : Store) (mappings : List ResultMapping) (values values' : List Value),
      values.length = values'.length →
      m.uniqueKey s mappings values = m.uniqueKey t mappings values' →
      Text.SameButForDashes (m.groupTexts mappings s values t values')) ∧
    ∀ (x : Execution) (loads : Nat), x.load = x.session.load loads →
      Table.Indexed ResultMap.id x.session.catalog.resultMaps →
      ∀ (c : Call) (object : Value), x.Calls c → c.MergesInto x.session object →
        ∃ b, x.Calls b ∧ b.BuildsNew x.session object ∧ b.map = c.map ∧ b.key = c.key ∧
          (c.map.isAuto = false → Text.SameButForDashes
            (c.map.groupTexts c.map.declared b.frame.world.store b.values c.frame.world.store c.values)) := by
  refine ⟨fun _ _ _ _ _ _ => ResultMap.sameButForDashes_of_uniqueKey, ?_⟩
  intro x loads hload hi c object hc hmerges
  obtain ⟨b, hb, hid, hkey, hbuilds⟩ := exists_builder_of_merge hload hc hmerges
  -- both maps are registered under one id
  have hmap : b.map = c.map := by
    obtain ⟨idb, hregb⟩ := hb.registered
    obtain ⟨idc, hregc⟩ := hc.registered
    rw [← Catalog.resultMap_id hi hregb, hid, Catalog.resultMap_id hi hregc, hregc] at hregb
    exact (Except.ok.inj hregb).symm
  refine ⟨b, hb, hbuilds, hmap, hkey, fun hdeclared => ?_⟩
  obtain ⟨hbmappings, hblength⟩ := hb.declared hi (hmap ▸ hdeclared)
  obtain ⟨hcmappings, hclength⟩ := hc.declared hi hdeclared
  unfold Call.key at hkey
  rw [hmap] at hbmappings hblength hkey
  rw [hbmappings, hcmappings] at hkey
  exact ResultMap.sameButForDashes_of_uniqueKey (hblength.trans hclength.symm) hkey

/-- A map that groups by both of its columns. -/
def byBoth : ResultMap := { ResultMap.keyed "M" ["a", "b"] [] with groupBy := ["a", "b"] }

/-- Two rows that differ in both columns. -/
def moved : Execution :=
  select [byBoth] ["a", "b"] [[.string "a-b", .string "c"], [.string "a", .string "b-c"]]

/-- A dash that goes from one text to another leaves the key, and the rows are taken into one object. -/
theorem group_keys_collide :
    byBoth.uniqueKey {} byBoth.declared [.string "a-b", .string "c"] = some "a-b-c-" ∧
      byBoth.uniqueKey {} byBoth.declared [.string "a", .string "b-c"] = some "a-b-c-" ∧
      byBoth.groupTexts byBoth.declared {} [.string "a-b", .string "c"] {} [.string "a", .string "b-c"] =
        [("a-b", "a"), ("c", "b-c")] ∧
      moved.run.1.isOk = true ∧ moved.calls.length = 2 ∧ moved.run.2.emitted.size = 1 := by
  refine ⟨?_, ?_, ?_, ?_, ?_, ?_⟩ <;> decide +kernel

/-- The second of the rows is taken into the object of the first. -/
theorem group_keys_tell_rows_apart_moved :
    Text.SameButForDashes [("a-b", "a"), ("c", "b-c")] ∧
    ∃ c object, moved.Calls c ∧ c.MergesInto moved.session object ∧
      ∃ b, moved.Calls b ∧ b.BuildsNew moved.session object ∧ b.map = c.map ∧ b.key = c.key := by
  obtain ⟨m, rows, opened, g, effective, values, entered, opens, reads, found, subject, hsubject, hold⟩ :
      ∃ m rows opened g effective values entered, moved.Opens m rows opened ∧
        ReadsRow (moved.readObject m) (rows.length + 1) moved.window.skip moved.window.max opened g ∧
        (moved.session.readValues moved.load m).run g = (.ok (some (effective, values)), entered) ∧
        ∃ subject, ((effective.subject moved.session none values).run entered).1.toOption =
          some (some subject) ∧ subject.isNew = false :=
    ⟨_, _, _, _, _, _, _, ⟨_, _, rfl, rfl, rfl⟩,
      .later nofun rfl (run_eq_of_toOption (by decide +kernel)) (.here nofun rfl), rfl, _, rfl, rfl⟩
  have hmerges : Call.MergesInto moved.session { map := effective, values, frame := entered }
      subject.object :=
    ⟨subject, _, run_eq_of_toOption hsubject, hold, rfl⟩
  obtain ⟨b, hb, hbuilds, hmap, hkey, -⟩ := group_keys_tell_rows_apart.2 moved nestingBound rfl
    ⟨by decide, by decide +kernel⟩ _ _ (.row opens reads found) hmerges
  have hkeys := group_keys_tell_rows_apart.1 byBoth {} {} byBoth.declared [.string "a-b", .string "c"]
    [.string "a", .string "b-c"] rfl (by decide +kernel)
  exact ⟨hkeys, _, _, .row opens reads found, hmerges, b, hb, hbuilds, hmap, hkey⟩

end Execution

end RowMapper
