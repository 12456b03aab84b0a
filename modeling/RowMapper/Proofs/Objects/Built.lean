/-
Once an object is built, later rows only add to it. Nothing leads to the object when it is built, and the
request remembers it under no map but the one that built it. So the rows that come later, whether they
succeed or fail, leave its properties from columns and nested selects as they are, and put nested elements
behind those that its collections have.
-/
import RowMapper.Proofs.Delivery.Moments

namespace RowMapper

open Relation

/-- A property of the objects of a map that holds nested elements. -/
def ResultMap.CollectsAt (m : ResultMap) (property : String) : Prop :=
  ∃ mapping ∈ m.declared, mapping.isNestedMap = true ∧ mapping.property = property

/-- A map whose properties are distinct and are no paths. -/
structure ResultMap.Simple (m : ResultMap) : Prop where
  single : ∀ mapping ∈ m.declared, '.' ∉ mapping.property.toList
  distinct : (m.declared.map (·.property)).Nodup

/-- From one state of an object of a map to the next its properties from columns and nested selects stay,
and its collections of nested elements get elements behind those that they have. -/
structure ResultMap.OnlyGrows (m : ResultMap) (d d' : ObjectData) : Prop where
  flat : ∀ mapping ∈ m.declared, mapping.isNestedMap = false →
    d'.slot? mapping.property = d.slot? mapping.property
  grows : d.OnlyGrows m.CollectsAt d'

/-- Properties from columns and those of nested selects hold no nested elements. -/
theorem ResultMap.Simple.onlyGrows {m : ResultMap} (hm : m.Simple) {d d' : ObjectData}
    (h : d.OnlyGrows m.CollectsAt d') : m.OnlyGrows d d' := by
  refine ⟨fun mapping hmem hflat => h.kept _ ?_, h⟩
  rintro ⟨other, hother, hnested, hproperty⟩
  obtain rfl : other = mapping := List.inj_on_of_nodup_map hm.distinct hother hmem hproperty
  rw [hflat] at hnested
  cases hnested

/-- Of one object there is no more than one event that it was built. -/
theorem Event.built_inj {events : List Event} (hn : (events.filterMap Event.built?).Nodup)
    {id id' : String} {key key' : Option String} {v : Value} (h : .built id key v ∈ events)
    (h' : .built id' key' v ∈ events) : id' = id := by
  obtain ⟨before, after, rfl⟩ := List.append_of_mem h
  rw [List.filterMap_append, List.filterMap_cons_some (f := Event.built?) rfl, List.nodup_middle] at hn
  have honce := (List.nodup_cons.1 hn).1
  have hmem : ∀ {events : List Event}, .built id' key' v ∈ events → v ∈ events.filterMap Event.built? :=
    fun h => List.mem_filterMap.2 ⟨_, h, rfl⟩
  rcases List.mem_append.1 h' with h' | h'
  · exact absurd (List.mem_append_left _ (hmem h')) honce
  · rcases List.mem_cons.1 h' with he | h'
    · cases he
      rfl
    · exact absurd (List.mem_append_right _ (hmem h')) honce

/-- Whether an object was built by a map. -/
def Event.builds (id : String) (r : ObjectRef) : Event → Bool
  | .built id' _ (.object r') => id' == id && r' == r
  | _ => false

theorem Event.builds_iff {id : String} {r : ObjectRef} {e : Event} :
    e.builds id r = true ↔ ∃ key, e = .built id key (.object r) := by
  constructor
  · intro h
    unfold builds at h
    split at h
    · rename_i key q
      obtain ⟨hid, hr⟩ := Bool.and_eq_true_iff.1 h
      rw [eq_of_beq hid, eq_of_beq hr]
      exact ⟨key, rfl⟩
    · cases h
  · rintro ⟨key, rfl⟩
    simp [builds]

namespace Execution

variable {x : Execution} {m M : ResultMap} {rows : RowSet} {opened f g h : Frame} {c : Call}
  {n depth : Nat} {left : Option Nat} {key : Option String} {r : ObjectRef}

section Built

variable (hload : x.load = x.session.load depth) (ht : x.target = none) (hclosed : x.Closed)
  (hindexed : Table.Indexed ResultMap.id x.session.catalog.resultMaps)
  (hclass : ∀ c, x.Calls c → c.map.exchange = .map ∨ c.map.exchange = .bean)
  (opens : x.Opens m rows opened)
  (reads : ReadsRow (x.readObject m) (rows.length + 1) x.window.skip x.window.max opened f)
  (hcall : x.rowCall? m f = some c) (row : (x.readObject m).run f = (.ok (), g))
  (hbuilt : .built M.id key (.object r) ∈ x.rowEvents c)

include hload ht hclosed hclass opens reads

/-- At a row the request owns all that it remembers. -/
theorem tidy_at_row : f.Tidy x.session .all x.world.store.objects.size fun _ _ => True :=
  tidy_of_reads hload (Sphere.closed_all _) trivial ht (fun d _ hd _ => hclass d hd) opens reads hclosed

include hcall row

/-- All events of a row have their moments. -/
theorem trace_of_row :
    Trace x.session .all x.world.store.objects.size (fun _ _ => True) f (x.rowEvents c) g := by
  have htrace := Trace.of_readObject hload (Sphere.closed_all _) trivial ht (fun d _ hd _ => hclass d hd)
    opens reads (tidy_at_row hload ht hclosed hclass opens reads) row
  rwa [hcall, Option.toList_some, List.flatMap_singleton] at htrace

include hbuilt

/-- Behind its row nothing leads to an object that was built. -/
theorem owns_of_built : g.Owns x.session .all x.world.store.objects.size (.object r) := by
  obtain ⟨k, -, hhappens, hon⟩ :=
    (trace_of_row hload ht hclosed hclass opens reads hcall row).moments _ hbuilt
  exact (hhappens trivial).onward hon

/-- Behind its row an object that was built is remembered under the map that built it only. -/
theorem known_of_built {id key' : String} (hknown : g.request.identity.get? id key' = some (.object r)) :
    id = M.id := by
  have hf := tidy_at_row hload ht hclosed hclass opens reads
  obtain ⟨hread, htarget, out, after, hrun, rfl⟩ := call_of_row hcall row
  have hscans : Trail.still.growth.Scans x.session x.load x.load := hload ▸ Trail.scans_still x.session depth
  have hmarks := marks_of_row opens reads hread
  have hknows : c.frame.KnowsMarks := fun id key hk => by
    unfold Request.isAssembling at hk
    rw [hmarks] at hk
    cases hk
  have hcalls : x.Calls c := by
    have hcalls := Calls.row opens reads hread
    rwa [← htarget] at hcalls
  have hbooks : Books (fun _ => True) c.frame (Call.events x.session x.load nestingBound c) out after :=
    (Call.books hscans nestingBound c (fun _ => htarget.trans ht)
      (fun d hd _ => hclass d (hcalls.trans hd)) hknows hrun).1
  have hevent : .built M.id key (.object r) ∈ Call.events x.session x.load nestingBound c := by
    unfold rowEvents at hbuilt
    refine (List.mem_append.1 hbuilt).resolve_right fun hgiven => ?_
    rw [hrun] at hgiven
    cases out with
    | none => cases hgiven
    | some object => cases List.mem_singleton.1 hgiven
  obtain ⟨_, hobject, hnew, -⟩ := hbooks.fresh hevent trivial
  cases hobject
  obtain ⟨hsize, hsame, -⟩ := Trail.later_readValues hscans hread
  have hgive : (after.give out).request = after.request := by
    cases out <;> rfl
  rw [hgive] at hknown
  rcases (hbooks.remembers.known id key' _).1 hknown with hold | hown
  -- what was remembered before the row was there before the object
  · rw [hsame] at hold
    obtain ⟨_, hobject, -, hspares⟩ := hf.known id key' _ trivial hold
    cases hobject
    have hthere := hspares.shuts.made r rfl
    exact absurd (Nat.lt_of_lt_of_le hthere (Nat.le_trans hsize hnew)) (Nat.lt_irrefl _)
  · exact Event.built_inj (hbooks.nodup fun _ => trivial) hevent hown

include hindexed

/-- Behind its row a request guards an object that was built, which collects where its map nests maps. -/
theorem guards_of_built (hM : x.session.catalog.resultMap M.id = .ok M) (hsimple : M.Simple) :
    g.Guards x.session ⟨(· = r), fun _ property => M.CollectsAt property, False⟩ := by
  have htrace := trace_of_row hload ht hclosed hclass opens reads hcall row
  obtain ⟨_, hobject, -, hspares⟩ := owns_of_built hload ht hclosed hclass opens reads hcall row hbuilt
  cases hobject
  have hcolumns : g.TakesColumns := by
    have hread : OnRow World.Any True (x.readObject m) :=
      .readObject (fun _ _ _ => bounded_true _) m x.target x.receive
    have hsteady := (hread f trivial).2.1.mappings
    rw [row, reads.mappings] at hsteady
    exact fun id mappings hget => opens.takesColumns id mappings (hsteady ▸ hget)
  refine ⟨hspares, .inr ⟨hcolumns, fun id m' key' v hm' hv => ⟨fun q hq => ?_, ?_⟩⟩⟩
  · obtain ⟨_, hobject, -, hspares⟩ := htrace.sound.known m'.id key' v trivial hv
    cases hq.symm.trans hobject
    exact hspares.shuts.made q rfl
  · rintro q rfl hq mapping hmem hnested
    subst hq
    have hid := known_of_built hload ht hclosed hclass opens reads hcall row hbuilt hv
    have hregistered := Catalog.resultMap_id hindexed hm'
    rw [← hregistered, hid, hM] at hm'
    cases hm'
    exact ⟨hsimple.single mapping hmem, mapping, hmem, hnested, rfl⟩

end Built

/-- Reading a row makes what the request guards only grow, whether it succeeds or fails. -/
theorem guards_readObject {G : Growth} (hload : x.load = x.session.load depth) (ht : x.target = none)
    (opens : x.Opens m rows opened) (hf : f.Guards x.session G) :
    ((x.readObject m).run f).2.Guards x.session G ∧
      G.Allows f.world.store ((x.readObject m).run f).2.world.store := by
  have hS : Sphere.all.Closed x.session.catalog := Sphere.closed_all _
  obtain ⟨-, id, hm⟩ := opens.maps hS trivial
  obtain ⟨⟨-, hguards⟩, hallows, -⟩ :=
    (Growth.onRequest.readObject G hS depth trivial hm x.receive hf).resolve_left fun ⟨_, he, _⟩ => he
  unfold readObject
  rw [hload, ht]
  exact ⟨hguards, hallows⟩

/-- Rows that succeed make what the request guards only grow. -/
theorem guards_reads {G : Growth} {rows' skip : Nat} (hload : x.load = x.session.load depth)
    (ht : x.target = none) (opens : x.Opens m rows opened) (hf : f.Guards x.session G)
    (reads : ReadsRow (x.readObject m) rows' skip left f g) :
    g.Guards x.session G ∧ G.Allows f.world.store g.world.store := by
  refine reads.keeps (P := fun u => u.Guards x.session G ∧ G.Allows f.world.store u.world.store) ?_ ?_
    ⟨hf, .refl _⟩
  · rintro u v more ⟨hu, hallows⟩ hnext
    obtain ⟨⟨-, hv⟩, hallows', -⟩ := (Growth.onRequest.nextRow hu).leaves (fun _ => id) hnext
    exact ⟨hv, hallows.trans hallows'⟩
  · rintro u v ⟨hu, hallows⟩ hrow
    obtain ⟨hv, hallows'⟩ := guards_readObject hload ht opens hu
    rw [hrow] at hv hallows'
    exact ⟨hv, hallows.trans hallows'⟩

/-- Later rows, whether they succeed or fail, only add to what earlier rows built. Let a query by maps
that give maps or beans read a row up to `g`, and come to a later row at `h`. Then an object that the
first row built by a map whose properties are distinct and are no paths keeps its properties from columns
and nested selects, and its collections of nested elements keep what they have in front, both up to the
later row and over it; and when the request does not remember it, then nothing of it changes. -/
theorem built_objects_only_grow (hload : x.load = x.session.load depth) (ht : x.target = none)
    (hindexed : Table.Indexed ResultMap.id x.session.catalog.resultMaps) (hclosed : x.Closed)
    (hclass : ∀ c, x.Calls c → c.map.exchange = .map ∨ c.map.exchange = .bean)
    (opens : x.Opens m rows opened)
    (reads : ReadsRow (x.readObject m) (rows.length + 1) x.window.skip x.window.max opened f)
    (hcall : x.rowCall? m f = some c) (row : (x.readObject m).run f = (.ok (), g))
    (later : ReadsRow (x.readObject m) n 0 left g h)
    (hM : x.session.catalog.resultMap M.id = .ok M) (hsimple : M.Simple)
    (hbuilt : .built M.id key (.object r) ∈ x.rowEvents c) :
    let behind := ((x.readObject m).run h).2
    M.OnlyGrows (g.world.store.data r) (h.world.store.data r) ∧
      M.OnlyGrows (h.world.store.data r) (behind.world.store.data r) ∧
      ((∀ id key, h.request.identity.get? id key ≠ some (.object r)) →
        behind.world.store.data r = h.world.store.data r) := by
  intro behind
  have hg := guards_of_built hload ht hclosed hindexed hclass opens reads hcall row hbuilt hM hsimple
  obtain ⟨hh, hbefore⟩ := guards_reads hload ht opens hg later
  obtain ⟨-, hover⟩ := guards_readObject hload ht opens hh
  refine ⟨hsimple.onlyGrows (hbefore.grows r rfl), hsimple.onlyGrows (hover.grows r rfl), fun hunknown => ?_⟩
  have hfixed : h.Guards x.session ⟨(· = r), fun _ _ => False, False⟩ := by
    obtain ⟨hcolumns, hknown⟩ := hh.feeds.resolve_left fun hfree => hfree.opens
    refine ⟨hh.toSpares, .inr ⟨hcolumns, fun id m' key' v hm' hv => ?_⟩⟩
    refine ⟨(hknown id m' key' v hm' hv).made, ?_⟩
    rintro q rfl hq
    exact absurd (hq ▸ hv) (hunknown _ _)
  obtain ⟨-, hsame⟩ := guards_readObject hload ht opens hfixed
  exact (hsame.grows r rfl).same fun _ => id

/-- A query of a parent that has one child in its first row and another in its second. -/
def family : Execution :=
  select [.keyed "P" ["p"] [("kids", "C")], .keyed "C" ["c"] []] ["p", "c"]
    [[.string "p1", .string "c1"], [.string "p1", .string "c2"]]

theorem family_indexed : Table.Indexed ResultMap.id family.session.catalog.resultMaps :=
  ⟨by decide, by decide +kernel⟩

/-- The second row adds its child behind that of the first. -/
theorem built_objects_only_grow_family :
    ∃ (m : ResultMap) (g h : Frame) (c : Call) (key : Option String) (r : ObjectRef),
      ReadsRow (family.readObject m) 2 0 none g h ∧ .built m.id key (.object r) ∈ family.rowEvents c ∧
      m.OnlyGrows (g.world.store.data r) (h.world.store.data r) ∧
      m.OnlyGrows (h.world.store.data r) (((family.readObject m).run h).2.world.store.data r) ∧
      ((h.world.store.data r).slot? "kids").map (·.listItems.length) = some 1 ∧
      ((((family.readObject m).run h).2.world.store.data r).slot? "kids").map (·.listItems.length) =
        some 2 := by
  obtain ⟨m, rows, opened, f, c, opens, reads, hcall, hrow, hmap, hbuilt, hnext, hbefore, hafter⟩ :
      ∃ m rows opened f c, family.Opens m rows opened ∧
        ReadsRow (family.readObject m) (rows.length + 1) family.window.skip family.window.max opened f ∧
        family.rowCall? m f = some c ∧
        ((family.readObject m).run f).1.toOption = some () ∧
        family.session.catalog.resultMap m.id = .ok m ∧
        (family.rowEvents c).any (·.builds m.id ⟨0⟩) = true ∧
        (Frame.nextRow.run ((family.readObject m).run f).2).1.toOption = some true ∧
        (((Frame.nextRow.run ((family.readObject m).run f).2).2.world.store.data ⟨0⟩).slot? "kids").map
          (·.listItems.length) = some 1 ∧
        ((((family.readObject m).run
          (Frame.nextRow.run ((family.readObject m).run f).2).2).2.world.store.data ⟨0⟩).slot? "kids").map
          (·.listItems.length) = some 2 :=
    ⟨_, _, _, _, _, ⟨_, _, rfl, rfl, rfl⟩, .here nofun rfl, rfl, by decide +kernel, rfl,
      by decide +kernel, by decide +kernel, by decide +kernel, by decide +kernel⟩
  obtain ⟨e, hevent, hbuilds⟩ := List.any_eq_true.1 hbuilt
  obtain ⟨key, rfl⟩ := Event.builds_iff.1 hbuilds
  have later : ReadsRow (family.readObject m) 2 0 none _ _ := .here nofun (run_eq_of_toOption hnext)
  have hsimple : ∀ id M, family.session.catalog.resultMap id = .ok M → M.Simple := by
    intro id M hM
    rcases List.mem_pair.1 (Table.mem_of_get? (Catalog.resultMap_ok_iff.1 hM)) with he | he <;>
      cases he <;> exact ⟨by decide, by decide⟩
  have hclass : ∀ c, family.Calls c → c.map.exchange = .map ∨ c.map.exchange = .bean := by
    intro c hc
    obtain ⟨M, hM, heq⟩ := map_of_select hc
    rw [heq]
    rcases List.mem_pair.1 hM with rfl | rfl <;> exact .inl rfl
  obtain ⟨hup, hover, -⟩ := built_objects_only_grow rfl rfl family_indexed (closed_select (by simp)) hclass
    opens reads hcall (run_eq_of_toOption hrow) later hmap (hsimple _ m hmap) hevent
  exact ⟨m, _, _, c, key, ⟨0⟩, later, hevent, hup, hover, hbefore, hafter⟩

end Execution

end RowMapper
