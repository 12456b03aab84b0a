/-
The moments of a request at which its events happen. Whatever a request spares it spares further on,
and the objects in it only grow (`Frame.Onward`). Nothing leads to an object when a map builds it
(`Frame.Owns`), so from that moment on the request makes it only grow; and at the moment behind which an
element was added its collection reads as the event says (`Trace`).
-/
import RowMapper.Proofs.Delivery.Query
import RowMapper.Proofs.Engine.Apart
import RowMapper.Proofs.Engine.History
import RowMapper.Proofs.Objects.Assembly

namespace RowMapper

open Relation

variable {α : Type} {session : Session} {S : Sphere} {f g h k : Frame} {m : ResultMap} {v : Value} {n : Nat}

/-! ## Going on -/

/-- The registered replies are the same. -/
def World.SameReplies (w w' : World) : Prop := w'.database.registrations = w.database.registrations

instance : World.Records World.SameReplies where
  refl _ := rfl
  trans _ _ _ h h' := Eq.trans h' h
  store _ _ := rfl
  calls _ _ := rfl
  log _ _ := rfl

theorem Session.derives_sameReplies (session : Session) : session.Derives World.SameReplies :=
  fun _ _ _ _ _ _ _ _ _ => rfl

/-- The request comes by no other replies and rows, and keeps its mappings. -/
structure Frame.Draws (f g : Frame) : Prop where
  replies : World.SameReplies f.world g.world
  mappings : g.request.mappings = f.request.mappings
  rows : ∀ rows, g.request.rows = some rows →
    ∃ rows', f.request.rows = some rows' ∧ ∀ v ∈ rows.cells, v ∈ rows'.cells

namespace Frame.Draws

theorem refl (f : Frame) : f.Draws f := ⟨rfl, rfl, fun rows hr => ⟨rows, hr, fun _ => id⟩⟩

theorem trans (h : f.Draws g) (h' : g.Draws k) : f.Draws k where
  replies := Eq.trans h'.replies h.replies
  mappings := h'.mappings.trans h.mappings
  rows rows hr := by
    obtain ⟨rows', hr', hcells'⟩ := h'.rows rows hr
    obtain ⟨rows'', hr'', hcells⟩ := h.rows rows' hr'
    exact ⟨rows'', hr'', fun v hv => hcells v (hcells' v hv)⟩

/-- A run that stays on its row draws from it. -/
theorem of_run {run : Run Frame α} {outcome : Except Stop α} (hrow : OnRow World.SameReplies True run)
    (hrun : run.run f = (outcome, g)) : f.Draws g := by
  obtain ⟨-, hsteady, -⟩ := hrow f trivial
  rw [hrun] at hsteady
  refine ⟨hsteady.world, hsteady.mappings, fun rows hr => ?_⟩
  have hcells := hsteady.cells
  rw [hr] at hcells
  obtain ⟨rows', hr', hsame⟩ := Option.map_eq_some_iff.1 hcells.symm
  exact ⟨rows', hr', fun v hv => hsame ▸ hv⟩

end Frame.Draws

/-- The request comes by no other replies and rows, spares further on whatever it spares, and makes the
objects in it only grow. -/
structure Frame.Onward (f : Frame) (session : Session) (S : Sphere) (g : Frame) : Prop
    extends f.Draws g where
  spares : ∀ R : Region, f.Spares session R False S →
    g.Spares session R False S ∧ (Growth.anyhow R).Allows f.world.store g.world.store

namespace Frame.Onward

theorem refl (f : Frame) : f.Onward session S f := ⟨.refl f, fun _ hR => ⟨hR, .refl _⟩⟩

theorem trans (h : f.Onward session S g) (h' : g.Onward session S k) : f.Onward session S k where
  toDraws := h.toDraws.trans h'.toDraws
  spares R hR := by
    obtain ⟨hg, hallows⟩ := h.spares R hR
    obtain ⟨hk, hallows'⟩ := h'.spares R hg
    exact ⟨hk, hallows.trans hallows'⟩

/-- A request goes on along what goes on from it outside of every region that an earlier one spared. -/
theorem step {run : Run Frame α} {outcome : Except Stop α} {Q : Region → Frame → α → α → Prop}
    (hon : f.Onward session S g) (hrow : OnRow World.SameReplies True run)
    (hrun : run.run g = (outcome, k)) (hsteps : ∀ R : Region, f.Spares session R False S →
      g.Guards session (.anyhow R) S → ((Growth.anyhow R).onRequest session S).InStep (Q R) run run g g) :
    f.Onward session S k := by
  refine ⟨hon.toDraws.trans (.of_run hrow hrun), fun R hR => ?_⟩
  obtain ⟨hg, hallows⟩ := hon.spares R hR
  obtain ⟨⟨-, hk⟩, hallows', -⟩ := (hsteps R hR (Guards.of_spares hg)).leaves (fun _ => id) hrun
  exact ⟨hk.toSpares, hallows.trans hallows'⟩

/-- The same state, rows and mappings. -/
theorem of_eq (hworld : g.world = f.world) (hrows : g.request.rows = f.request.rows)
    (hmappings : g.request.mappings = f.request.mappings) : f.Onward session S g := by
  refine ⟨⟨?_, hmappings, fun rows hr => ⟨rows, hrows ▸ hr, fun _ => id⟩⟩, fun R hR => ⟨?_, ?_⟩⟩
  · rw [hworld]
    rfl
  · refine ⟨hworld ▸ hR.shuts, hworld ▸ hR.replies, hworld ▸ hR.loader, hworld ▸ hrows ▸ hR.rows,
      False.elim, False.elim, hR.columns.imp_right fun hcolumns id mappings hget => ?_⟩
    exact hcolumns id mappings (hmappings ▸ hget)
  · rw [hworld]
    exact .refl _

theorem nextRow {outcome : Except Stop Bool} (hrun : Frame.nextRow.run f = (outcome, g)) :
    f.Onward session S g := by
  have hmappings := installed_of_nextRow hrun
  obtain rfl := congrArg Prod.snd hrun
  unfold Frame.nextRow at hmappings ⊢
  cases hr : f.request.rowSetToRead with
  | error e =>
    rw [run_onRows_error hr]
    exact .refl f
  | ok rows =>
    have hcells : ∀ rows', some rows.next.2 = some rows' →
        ∃ rows'', f.request.rows = some rows'' ∧ ∀ v ∈ rows'.cells, v ∈ rows''.cells := by
      rintro _ ⟨⟩
      exact ⟨rows, Request.rows_of_rowSetToRead hr, fun _ => RowSet.mem_cells_of_next⟩
    rw [run_onRows_ok hr]
    exact ⟨⟨rfl, rfl, hcells⟩, fun R hR =>
      ⟨hR.next hR.shuts (Nat.le_refl _) rfl hcells rfl rfl rfl, .refl _⟩⟩

theorem mark (f : Frame) (id : String) (key : Option String) : f.Onward session S (f.mark id key) := by
  cases key <;> exact .of_eq rfl rfl rfl

theorem unmark (f : Frame) (key : Option String) : f.Onward session S (f.unmark key) := by
  cases key <;> exact .of_eq rfl rfl rfl

theorem give (f : Frame) (out : Option Value) : f.Onward session S (f.give out) := by
  cases out <;> exact .of_eq rfl rfl rfl

end Frame.Onward

/-! ## Objects to which nothing leads -/

/-- No object is in it. What spares it refers to objects that are there. -/
def Region.empty : Region := fun _ => False

/-- An object made since a number of them, to which nothing leads that the request comes by. -/
def Frame.Owns (f : Frame) (session : Session) (S : Sphere) (n : Nat) (v : Value) : Prop :=
  ∃ r, v = .object r ∧ n ≤ r.index ∧ f.Spares session (· = r) False S

theorem Frame.Owns.onward (hv : f.Owns session S n v) (h : f.Onward session S g) :
    g.Owns session S n v := by
  obtain ⟨r, rfl, hn, hspares⟩ := hv
  exact ⟨r, rfl, hn, (h.spares _ hspares).1⟩

/-- Nothing leads to an object that a map makes. -/
theorem Frame.Owns.of_buildNew {mappings : List ResultMapping} {values : List Value} {key : Option String}
    (hf : f.Spares session Region.empty False S) (hn : n ≤ f.world.store.objects.size)
    (hm : m.exchange = .map ∨ m.exchange = .bean)
    (hvalues : ∀ v ∈ values, v.Outside Region.empty f.world.store)
    (hrun : (m.buildNew session mappings none values key).run f = (.ok v, g)) : g.Owns session S n v := by
  obtain ⟨s, hset, -, hstore, -, -⟩ := buildNew_eq_ok hrun
  obtain ⟨rfl, hlt⟩ := setData_object hm hset
  have hrow : OnRow World.SameReplies True (m.buildNew session mappings none values key) :=
    .buildNew _ _ _ _ _
  have hdraws : f.Draws g := .of_run hrow hrun
  have hstep : ((Growth.anyhow Region.empty).onRequest session S).InStep _
      (m.buildNew session mappings none values key) (m.buildNew session mappings none values key) f f :=
    Growth.onRequest.buildNew key (Guards.of_spares hf) hvalues
  obtain ⟨⟨-, hg⟩, -, -⟩ := hstep.leaves (fun _ => id) hrun
  have hnot : ∀ {w : Value}, w.Outside Region.empty f.world.store → w ≠ .object ⟨f.world.store.objects.size⟩ :=
    fun hw he => Nat.lt_irrefl _ (hw _ he).1
  have halone : (Watch.bare ⟨f.world.store.objects.size⟩).Alone g.world.store := by
    have hunmade : (Watch.bare ⟨f.world.store.objects.size⟩).Alone f.world.store :=
      fun q hq => Nat.lt_irrefl _ (hf.shuts.closed q _ id hq).1
    rw [hstore]
    exact (Watch.setData_alone session.catalog.accessor (fun _ => id) hunmade rfl
      (by rcases hm with h | h <;> rw [h] <;> nofun) (fun w hw => hnot (hvalues w hw)) hset).2.1
  -- what the request comes by was there before the object
  have hout : ∀ {w : Value}, w ≠ .object ⟨f.world.store.objects.size⟩ →
      w.Outside Region.empty g.world.store → w.Outside (· = ⟨f.world.store.objects.size⟩) g.world.store :=
    fun hne hw q hq => ⟨(hw q hq).1, fun he => hne (he ▸ hq)⟩
  refine ⟨_, rfl, hn, ⟨fun r hr => ?_, fun q p _ hp => ⟨?_, fun he => ?_⟩⟩,
    fun registration hreg htext w hw => ?_, fun w hw => ?_, fun rows hr w hw => ?_, False.elim, False.elim,
    hg.columns⟩
  · rw [hr, hstore]
    exact hlt
  · exact (hg.shuts.closed q p id hp).1
  · exact halone q (he ▸ hp)
  · have hold := hf.replies registration (hdraws.replies ▸ hreg) htext w hw
    exact hout (hnot hold) (hg.replies registration hreg htext w hw)
  · exact hout (hnot (hf.loader w hw)) (hg.loader w hw)
  · obtain ⟨rows', hr', hcells⟩ := hdraws.rows rows hr
    exact hout (hnot (hf.rows rows' hr' w (hcells w hw))) (hg.rows rows hr w hw)

/-- A request that refers to objects that are there, and owns some of those that it remembers by maps. -/
structure Frame.Tidy (f : Frame) (session : Session) (S : Sphere) (n : Nat)
    (objects : String → Value → Prop) : Prop extends f.Spares session Region.empty False S where
  size : n ≤ f.world.store.objects.size
  known : ∀ id key v, objects id v → f.request.identity.get? id key = some v → f.Owns session S n v

theorem Frame.Tidy.onward {objects : String → Value → Prop} (hf : f.Tidy session S n objects)
    (h : f.Onward session S g) (hidentity : g.request.identity = f.request.identity) :
    g.Tidy session S n objects where
  toSpares := (h.spares _ hf.toSpares).1
  size := Nat.le_trans hf.size (h.spares _ hf.toSpares).2.size
  known id key v hid hv := (hf.known id key v hid (hidentity ▸ hv)).onward h

/-! ## Events and their moments -/

/-- What holds behind an event: an object that was built is owned, if it is one of some objects of maps,
and so is the parent that an element was added to, whose collection reads as the event says. -/
def Event.Happens (session : Session) (S : Sphere) (n : Nat) (objects : String → Value → Prop)
    (k : Frame) : Event → Prop
  | .built id _ object => objects id object → k.Owns session S n object
  | .added owner parent property _ _ after =>
    (objects owner parent → k.Owns session S n parent) ∧ k.collection session parent property = after
  | _ => True

/-- A request goes through events, each of which has its moment. -/
structure Trace (session : Session) (S : Sphere) (n : Nat) (objects : String → Value → Prop) (f : Frame)
    (events : List Event) (g : Frame) : Prop where
  onward : f.Onward session S g
  sound : g.Tidy session S n objects
  moments : ∀ e ∈ events, ∃ k, f.Onward session S k ∧ e.Happens session S n objects k ∧
    k.Onward session S g

namespace Trace

variable {objects : String → Value → Prop} {events events' : List Event} {e : Event}

theorem still (hon : f.Onward session S g) (hg : g.Tidy session S n objects) :
    Trace session S n objects f [] g := ⟨hon, hg, nofun⟩

theorem single (hon : f.Onward session S g) (hg : g.Tidy session S n objects)
    (he : e.Happens session S n objects g) : Trace session S n objects f [e] g :=
  ⟨hon, hg, fun _ hmem => List.mem_singleton.1 hmem ▸ ⟨g, hon, he, .refl g⟩⟩

theorem append (h : Trace session S n objects f events g) (h' : Trace session S n objects g events' k) :
    Trace session S n objects f (events ++ events') k := by
  refine ⟨h.onward.trans h'.onward, h'.sound, fun e he => ?_⟩
  rcases List.mem_append.1 he with he | he
  · obtain ⟨l, hl, hhappens, hg⟩ := h.moments e he
    exact ⟨l, hl, hhappens, hg.trans h'.onward⟩
  · obtain ⟨l, hl, hhappens, hk⟩ := h'.moments e he
    exact ⟨l, h.onward.trans hl, hhappens, hk⟩

/-- What is found needs no moment. -/
theorem find {owner property id : String} {ownerKey key : Option String}
    (h : Trace session S n objects f events g) :
    Trace session S n objects f (.found owner ownerKey property id key :: events) g := by
  refine ⟨h.onward, h.sound, fun e he => ?_⟩
  rcases List.mem_cons.1 he with rfl | he
  · exact ⟨g, h.onward, trivial, .refl g⟩
  · exact h.moments e he

end Trace

/-! ## Calls -/

theorem Session.bounded_replies (session : Session) (depth : Nat) (id : String) (parameter : Value)
    (target : DataType) : Bounded World.SameReplies True (session.load depth id parameter target) :=
  session.bounded_load session.derives_sameReplies depth id parameter target

/-- A call of a map of the sphere that is entered from a frame, with values that are outside of whatever
the frame spared. -/
structure Call.Entered (c : Call) (session : Session) (S : Sphere) (f : Frame) : Prop where
  onward : f.Onward session S c.frame
  values : ∀ R : Region, f.Spares session R False S → ∀ v ∈ c.values, v.Outside R c.frame.world.store
  maps : S.maps c.map

namespace Frame.Onward

variable {depth : Nat} {own : ResultMap} {mappings : List ResultMapping} {mapping : ResultMapping}
  {child : String} {parent : Value}

/-- Reading an element enters a call for it, if there is one. -/
theorem readElement {found : Option Element} (hS : S.Closed session.catalog)
    (hreads : S.Reads own mappings) (hmem : mapping ∈ mappings) (hroute : mapping.route = .nestedMap child)
    (hrun : (readElement session (session.load depth) mapping child parent).run f = (.ok found, g)) :
    f.Onward session S g ∧ ∀ element, found = some element →
      Call.Entered { map := element.map, values := element.values, frame := g } session S f := by
  have hsteps : ∀ R : Region, f.Spares session R False S →
      ((Growth.anyhow R).onRequest session S).InStep
        (fun u => Option.Rel (((Growth.anyhow R).onRequest session S).Elements u parent mapping))
        (RowMapper.readElement session (session.load depth) mapping child parent)
        (RowMapper.readElement session (session.load depth) mapping child parent) f f := fun R hR =>
    (Growth.onRequest.assembles _ hS depth).readElement ⟨rfl, Guards.of_spares hR⟩
      ⟨rfl, .inl (Growth.free_anyhow R), hreads⟩ hmem hroute
  have hon : f.Onward session S g := (refl f).step
    (.readElement (session.bounded_replies depth) mapping child parent) hrun fun R hR _ => hsteps R hR
  refine ⟨hon, fun element he => ⟨hon, fun R hR => ?_, ?_⟩⟩
  · obtain ⟨-, -, ho⟩ := (hsteps R hR).leaves (fun _ => id) hrun
    rw [he] at ho
    cases ho with
    | some hsame => exact (Region.onRequest.values_eq hsame.values).2
  · subst he
    exact hreads.nestedMap hS hmem hroute (readElement_eq_ok hrun).1

/-- Adding an element makes the parent grow. -/
theorem add {type : DataType} {object : Value} (hmapping : mapping.isNestedMap = true)
    (hrun : (Frame.edit (session.catalog.accessor.update parent mapping.property
      (addElement type mapping.property object))).run f = (.ok (), g)) : f.Onward session S g :=
  (refl f).step (.edit _) hrun fun R _ hguards =>
    Growth.onRequest.collection hguards (.inl (Growth.free_anyhow R)) (List.mem_singleton_self mapping)
      hmapping (addElement_extends object)

end Frame.Onward

namespace Call

variable {objects : String → Value → Prop} {depth loads : Nat} {c : Call}

/-- The call fills no target: it has none, or it comes to an object that was known. -/
def FillsNone (session : Session) (c : Call) : Prop :=
  ∀ subject f, (c.map.subject session c.target c.values).run c.frame = (.ok (some subject), f) →
    subject.isNew = true → c.target = none

theorem fillsNone_of_none (h : c.target = none) : c.FillsNone session := fun _ _ _ _ => h

/-- A call comes to an object that is owned, if it is one of those that are. -/
theorem Entered.subject {subject : Subject} (hc : c.Entered session S f) (ht : c.FillsNone session)
    (hf : f.Tidy session S n objects) (hentered : c.frame.request.identity = f.request.identity)
    (hm : ∀ v, objects c.map.id v → c.map.exchange = .map ∨ c.map.exchange = .bean)
    (hrun : (c.map.subject session c.target c.values).run c.frame = (.ok (some subject), g)) :
    Trace session S n objects f (ownEvents session c) g ∧ S.Reads c.map subject.mappings ∧
      (objects c.map.id subject.object → g.Owns session S n subject.object) := by
  have hsound := hf.onward hc.onward hentered
  unfold ownEvents
  rw [hrun]
  dsimp only
  obtain ⟨-, hmappings, hsubject⟩ := subject_eq_some hrun
  have hreads : S.Reads c.map subject.mappings := hmappings ▸ hsound.toSpares.reads hc.maps
  rcases hsubject with ⟨hold, rfl, key, -, hknown⟩ | ⟨hnew, -, hbuild⟩
  · rw [hold, if_neg Bool.false_ne_true]
    exact ⟨.still hc.onward hsound, hreads, fun ho => hsound.known _ key _ ho hknown⟩
  rw [hnew, if_pos rfl]
  rw [ht subject g hrun hnew] at hbuild
  have hon : f.Onward session S g := hc.onward.step (.buildNew _ _ _ _ _) hbuild fun R hR hguards =>
    Growth.onRequest.buildNew subject.key hguards (hc.values R hR)
  have howns : objects c.map.id subject.object → g.Owns session S n subject.object := fun ho =>
    .of_buildNew hsound.toSpares hsound.size (hm _ ho) (hc.values _ hf.toSpares) hbuild
  refine ⟨.single hon ⟨(hon.spares _ hf.toSpares).1, ?_, fun id key v ho hv => ?_⟩ howns, hreads, howns⟩
  · exact Nat.le_trans hf.size (hon.spares _ hf.toSpares).2.size
  · obtain ⟨-, -, -, -, hidentity, -⟩ := buildNew_eq_ok hbuild
    rw [hidentity, hentered] at hv
    unfold IdentityTable.remember at hv
    split at hv
    · rcases IdentityTable.get?_insert hv with ⟨rfl, -, rfl⟩ | hold
      · exact howns ho
      · exact (hf.known id key v ho hold).onward hon
    · exact (hf.known id key v ho hv).onward hon

/-- A mapping adds the object of the call for its element, which has its moments. -/
theorem mapping_trace {own : ResultMap} {mappings : List ResultMapping} {mapping : ResultMapping}
    {owner : String} {parent : Subject} (hS : S.Closed session.catalog) (hreads : S.Reads own mappings)
    (hmem : mapping ∈ mappings) (hf : f.Tidy session S n objects)
    (hparent : objects owner parent.object → f.Owns session S n parent.object)
    (hcall : ∀ child element entered out left, mapping.route = .nestedMap child →
      (readElement session (session.load loads) mapping child parent.object).run f =
        (.ok (some element), entered) →
      let call : Call := { map := element.map, values := element.values, frame := entered }
      call.Entered session S f → call.run session (session.load loads) depth = (.ok out, left) →
      Trace session S n objects f (events session (session.load loads) depth call) left)
    (hrun : (nestedMapping session (session.load loads) (builds session (session.load loads) depth)
      parent.object mapping).run f = (.ok (), g)) :
    Trace session S n objects f (mappingEvents session (session.load loads) depth
      (events session (session.load loads) depth) owner parent mapping f) g := by
  rcases nestedMapping_eq_ok hrun with ⟨hn, rfl⟩ | ⟨child, hroute, hrun⟩
  · rw [mappingEvents_eq_nil session _ hn]
    exact .still (.refl g) hf
  unfold mappingEvents
  rw [hroute]
  dsimp only
  rcases nestedElement_eq_ok hrun with hnone | ⟨element, entered, hread, hbuilt⟩
  · obtain ⟨hon, -⟩ := Frame.Onward.readElement hS hreads hmem hroute hnone
    rw [hnone]
    exact .still hon (hf.onward hon (Trail.later_readElement (Trail.scans_still ..) mapping child _ hnone).2.1)
  obtain ⟨-, hentered⟩ := Frame.Onward.readElement hS hreads hmem hroute hread
  rw [hread]
  dsimp only
  unfold elementEvents
  rcases hbuilt with hbuilt | ⟨object, left, hbuilt, hadd⟩
  · have hcalled := hcall child element entered none g hroute hread (hentered element rfl) hbuilt
    have hrun : Call.run session (session.load loads) depth
        { map := element.map, values := element.values, frame := entered } = (.ok none, g) := hbuilt
    simp only [hrun, List.append_nil]
    exact hcalled.find
  · have hcalled := hcall child element entered (some object) left hroute hread (hentered element rfl) hbuilt
    have hrun : Call.run session (session.load loads) depth
        { map := element.map, values := element.values, frame := entered } =
          (.ok (some object), left) := hbuilt
    simp only [hrun, hadd]
    have hon : left.Onward session S g := .add (ResultMapping.isNestedMap_of_route hroute) hadd
    have hadded : (Event.added owner parent.object mapping.property object
        (left.collection session parent.object mapping.property)
        (g.collection session parent.object mapping.property)).Happens session S n objects g :=
      ⟨fun ho => ((hparent ho).onward hcalled.onward).onward hon, rfl⟩
    obtain ⟨s, -, rfl⟩ := run_edit_eq_ok.1 hadd
    exact (hcalled.append (.single hon (hcalled.sound.onward hon rfl) hadded)).find

/-- The elements that are gathered for an object have their moments, by induction on the mappings. -/
theorem gather_trace {subject : Subject} {opened : Frame} (hS : S.Closed session.catalog)
    (hreads : S.Reads c.map subject.mappings) (hg : c.Gathers session subject opened)
    (hcalls : ∀ d f, Makes session (session.load loads) c d → d.Entered session S f →
      d.frame.request.identity = f.request.identity → f.Tidy session S n objects → ∀ out left,
      d.run session (session.load loads) depth = (.ok out, left) →
      Trace session S n objects f (events session (session.load loads) depth d) left) :
    ∀ (after before : List ResultMapping) (f : Frame), subject.mappings = before ++ after →
      (gather session (session.load loads) depth before subject.object).run opened = (.ok (), f) →
      f.Tidy session S n objects → (objects c.map.id subject.object → f.Owns session S n subject.object) →
      (gather session (session.load loads) depth after subject.object).run f = (.ok (), g) →
      Trace session S n objects f (gatherEvents session (session.load loads) depth
        (events session (session.load loads) depth) c.map.id subject after f) g
  | [], _, _, _, _, hf, _, hrun => by
    cases hrun
    exact .still (.refl g) hf
  | mapping :: after, before, f, hmappings, hreach, hf, howns, hrun => by
    rw [gather_cons] at hrun
    obtain ⟨_, k, hone, hrest⟩ := run_bind_eq_ok.1 hrun
    have hmem : mapping ∈ subject.mappings := by
      rw [hmappings]
      exact List.mem_append_right _ (List.mem_cons_self ..)
    have hfirst := mapping_trace hS hreads hmem hf howns (fun child element entered out left hroute hread hentered hrun =>
      hcalls _ f (makes_of_reads hg hmappings hroute hreach hread) hentered
        (Trail.later_readElement (Trail.scans_still ..) mapping child _ hread).2.1 hf out left hrun) hone
    have hlater := gather_trace hS hreads hg hcalls after (before ++ [mapping]) k (by simp [hmappings])
      (gather_append_ok hreach hone) hfirst.sound (fun ho => (howns ho).onward hfirst.onward) hrest
    unfold gatherEvents
    rw [hone]
    exact hfirst.append hlater

/-- What is gathered for the object of a call has its moments behind the one at which the call came to
the object. -/
theorem elements_trace {subject : Subject} (hS : S.Closed session.catalog)
    (hreads : S.Reads c.map subject.mappings) (hf : f.Tidy session S n objects)
    (howns : objects c.map.id subject.object → f.Owns session S n subject.object)
    (hsubject : (c.map.subject session c.target c.values).run c.frame = (.ok (some subject), f))
    (hcalls : ∀ d f, Makes session (session.load loads) c d → d.Entered session S f →
      d.frame.request.identity = f.request.identity → f.Tidy session S n objects → ∀ out left,
      d.run session (session.load loads) depth = (.ok out, left) →
      Trace session S n objects f (events session (session.load loads) depth d) left)
    (hrun : (assembleNested session (session.load loads) (builds session (session.load loads) depth) c.map
      subject.mappings subject.object subject.key).run f = (.ok (), g)) :
    Trace session S n objects f (elementsEvents session (session.load loads) depth
      (events session (session.load loads) depth) c) g := by
  unfold elementsEvents
  rw [hsubject]
  dsimp only
  rcases assembleNested_eq_ok hrun with ⟨hn, rfl⟩ | ⟨hn, k, hgather, rfl⟩
  · rw [hn, if_neg Bool.false_ne_true]
    exact .still (.refl g) hf
  rw [if_pos hn]
  have hmark : f.Onward session S (f.mark c.map.id subject.key) := .mark ..
  have hmarked : (f.mark c.map.id subject.key).Tidy session S n objects :=
    hf.onward hmark (by cases subject.key <;> rfl)
  have hgathered := gather_trace hS hreads ⟨⟨f, hsubject, rfl⟩, hn⟩ hcalls subject.mappings [] _ rfl rfl hmarked
    (fun ho => (howns ho).onward hmark) hgather
  have hunmark : k.Onward session S (k.unmark subject.key) := .unmark ..
  have hunmarked : (k.unmark subject.key).Tidy session S n objects :=
    hgathered.sound.onward hunmark (by cases subject.key <;> rfl)
  have hall := ((Trace.still hmark hmarked).append hgathered).append (.still hunmark hunmarked)
  rwa [List.nil_append, List.append_nil] at hall

/-- The events of a call have their moments, by induction on the depth of the calls that it makes. -/
theorem trace (hS : S.Closed session.catalog) : ∀ (depth : Nat) {c : Call} {out : Option Value}
    {f g : Frame}, c.FillsNone session →
    (∀ d v, ReflTransGen (Makes session (session.load loads)) c d → objects d.map.id v →
      d.map.exchange = .map ∨ d.map.exchange = .bean) →
    c.Entered session S f → c.frame.request.identity = f.request.identity → f.Tidy session S n objects →
    c.run session (session.load loads) depth = (.ok out, g) →
    Trace session S n objects f (events session (session.load loads) depth c) g
  | 0, _, _, _, _, _, _, _, _, _, hrun => by cases hrun
  | depth + 1, c, out, f, g, ht, hm, hentered, hidentity, hf, hrun => by
    unfold events
    rcases run_eq_ok hrun with ⟨hnone, rfl⟩ | ⟨subject, k, hsubject, hnested, rfl⟩
    · obtain ⟨rfl, -⟩ := subject_eq_none hnone
      unfold ownEvents elementsEvents
      rw [hnone]
      exact .still hentered.onward (hf.onward hentered.onward hidentity)
    obtain ⟨hown, hreads, howns⟩ := hentered.subject ht hf hidentity (fun v => hm c v .refl) hsubject
    refine hown.append (elements_trace hS hreads hown.sound howns hsubject
      (fun d f hd hentered hidentity hf out left => ?_) hnested)
    have hnone : d.FillsNone session := fillsNone_of_none (by
      obtain ⟨_, rfl⟩ := hd
      rfl)
    exact trace hS depth hnone (fun e v he => hm e v (.head hd he)) hentered hidentity hf

end Call

/-! ## Rows -/

/-- Reading the values of a row enters the call for it, if the row holds any data. -/
theorem Frame.Onward.readValues {depth : Nat} {found : Option (ResultMap × List Value)}
    (hS : S.Closed session.catalog) (hmaps : S.maps m) (hm : ∃ id, session.catalog.resultMap id = .ok m)
    (hf : f.Spares session Region.empty False S)
    (hrun : (session.readValues (session.load depth) m).run f = (.ok found, g)) :
    f.Onward session S g ∧
      ∀ c : Call, found = some (c.map, c.values) → c.frame = g → c.Entered session S f := by
  have hsteps := fun (R : Region) (hR : f.Spares session R False S) =>
    (Growth.onRequest.scans (Growth.anyhow R) hS depth).readValues (Growth.onRequest.follows hS) ⟨hmaps, hm⟩
      ⟨rfl, Guards.of_spares hR⟩
  have hon : f.Onward session S g :=
    (refl f).step (.readValues (session.bounded_replies depth) m) hrun fun R hR _ => hsteps R hR
  refine ⟨hon, fun c hc hframe => ?_⟩
  subst hframe
  have hfound : ∀ R : Region, f.Spares session R False S →
      S.maps c.map ∧ ∀ v ∈ c.values, v.Outside R c.frame.world.store := by
    intro R hR
    obtain ⟨-, -, ho⟩ := (hsteps R hR).leaves (fun _ => id) hrun
    rw [hc] at ho
    cases ho with
    | some hsame => exact ⟨hsame.1.1, (Region.onRequest.values_eq hsame.2.2.1).2⟩
  exact ⟨hon, fun R hR => (hfound R hR).2, (hfound _ hf).1⟩

/-- The store of a value holds the object that it is, if it is one. -/
def Store.Holds (s : Store) (v : Value) : Prop := ∀ r, v = .object r → r.index < s.objects.size

namespace Execution

variable {x : Execution} {objects : String → Value → Prop} {c : Call} {out : Option Value} {rows : RowSet}
  {opened : Frame} {depth : Nat}

/-- The map of a statement of the sphere is in it. -/
theorem Opens.maps (h : x.Opens m rows opened) (hS : S.Closed x.session.catalog)
    (hstatement : S.statements x.statement) :
    S.maps m ∧ ∃ id, x.session.catalog.resultMap id = .ok m := by
  obtain ⟨response, _, hsubmit, -, -⟩ := h.opens
  have hm := resultMap_of_submit hsubmit
  exact ⟨hS.own hstatement hm, Catalog.resultMap_of_statement hm⟩

/-- The events of a row have their moments. -/
theorem row_trace (hload : x.load = x.session.load depth) (hS : S.Closed x.session.catalog)
    (hm : S.maps m ∧ ∃ id, x.session.catalog.resultMap id = .ok m) (ht : c.FillsNone x.session)
    (hexchange : ∀ d v, ReflTransGen (Call.Makes x.session x.load) c d → objects d.map.id v →
      d.map.exchange = .map ∨ d.map.exchange = .bean)
    (hf : f.Tidy x.session S n objects)
    (hread : (x.session.readValues x.load m).run f = (.ok (some (c.map, c.values)), c.frame))
    (hrun : c.run x.session x.load nestingBound = (.ok out, g)) :
    Trace x.session S n objects f (x.rowEvents c) (g.give out) := by
  unfold rowEvents
  rw [hrun, hload]
  rw [hload] at hread hrun hexchange
  obtain ⟨-, hentered⟩ := Frame.Onward.readValues hS hm.1 hm.2 hf.toSpares hread
  have hidentity := (Trail.later_readValues (Trail.scans_still x.session depth) hread).2.1
  have hcalled := Call.trace hS nestingBound ht hexchange (hentered c rfl rfl) hidentity hf hrun
  have hgive : g.Onward x.session S (g.give out) := .give ..
  cases out with
  | none => exact hcalled.append (.still hgive (hcalled.sound.onward hgive rfl))
  | some object => exact hcalled.append (.single hgive (hcalled.sound.onward hgive rfl) trivial)

/-! ## Queries -/

/-- What a query starts from refers to objects that are there. -/
structure Closed (x : Execution) : Prop where
  store : ∀ r, ∀ v ∈ (x.world.store.data r).values, x.world.store.Holds v
  replies : ∀ registration ∈ x.world.database.registrations, ∀ v ∈ registration.reply.cells,
    x.world.store.Holds v
  loader : ∀ v, x.session.catalog.loader = .fixed v → x.world.store.Holds v
  parameter : x.world.store.Holds x.parameter

/-- The replies to a query on rows that refer to no objects hold none. -/
theorem cells_select (maps : List ResultMap) {columns : List String} {rows : List (List Value)}
    (hrows : ∀ v ∈ rows.flatten, ∀ r, v ≠ .object r) :
    ∀ registration ∈ (select maps columns rows).world.database.registrations,
      ∀ v ∈ registration.reply.cells, ∀ r, v ≠ .object r := by
  intro registration hreg v hv
  cases List.mem_singleton.1 hreg
  rcases RowSet.mem_cells.1 hv with hv | hv | hv
  · exact hrows v hv
  · cases hv
  · exact hrows v hv

/-- A query on rows that refer to no objects. -/
theorem closed_select {maps : List ResultMap} {columns : List String} {rows : List (List Value)}
    (hrows : ∀ v ∈ rows.flatten, ∀ r, v ≠ .object r) : (select maps columns rows).Closed where
  store _ v hv := absurd hv List.not_mem_nil
  replies registration hreg v hv r he := absurd he (cells_select maps hrows registration hreg v hv r)
  loader _ h := by cases h
  parameter _ h := by cases h

/-- What a query starts from spares no object, and refers to none that is not there. -/
theorem Closed.spares (hx : x.Closed) :
    Frame.Spares { world := x.world } x.session Region.empty True S where
  shuts := ⟨fun _ => False.elim, fun q r _ hr => ⟨hx.store q _ hr r rfl, id⟩⟩
  replies registration hreg _ v hv r hr := ⟨hx.replies registration hreg v hv r hr, id⟩
  loader v hv r hr := ⟨hx.loader v hv r hr, id⟩
  rows _ hr := nomatch hr
  remembered _ _ _ _ hv := by cases hv
  emitted _ _ he := nomatch he
  columns := .inr fun _ _ hget => by cases hget

/-- Submitting the statement and opening its rows spares what the state spared. -/
theorem Opens.spares {R : Region} {whole : Prop} (h : x.Opens m rows opened)
    (hS : S.Closed x.session.catalog) (hstatement : S.statements x.statement)
    (hR : Frame.Spares { world := x.world } x.session R whole S) :
    opened.Spares x.session R whole S ∧ R.onStore.later x.world.store opened.world.store := by
  obtain ⟨response, f, hsubmit, hrows, hopen⟩ := h.opens
  have hsubmitted := Region.onRequest.submit hS x.statement hstatement x.parameter hR
  obtain ⟨⟨-, hf⟩, hlater, ho⟩ := hsubmitted.leaves (fun _ => id) hsubmit
  have hcells : ∀ v ∈ rows.cells, v.Outside R f.world.store :=
    fun v hv => (ho.2.2 v (Response.mem_cells_of_rows hrows hv)).1.2
  have hopened := Region.onRequest.openRows m hf hcells
  obtain ⟨⟨-, hg⟩, hlater', -⟩ := hopened.leaves (fun _ => id) hopen
  exact ⟨hg, R.onStore.trans hlater hlater'⟩

theorem Opens.identity (h : x.Opens m rows opened) : opened.request.identity = {} := by
  obtain ⟨response, f, hsubmit, -, hopen⟩ := h.opens
  rw [((IsQuiet.openRows x.session m rows).quiet hopen).identity,
    ((IsQuiet.submit x.session x.statement x.parameter).quiet hsubmit).identity]

/-- A query installs mappings from columns only. -/
theorem Opens.takesColumns (h : x.Opens m rows opened) : opened.TakesColumns := by
  obtain ⟨response, g, hsubmit, -, hopen⟩ := h.opens
  obtain ⟨-, database, context, -, rfl⟩ := Session.submit_eq_ok hsubmit
  rw [Session.openRows_eq_opened hopen]
  exact Frame.TakesColumns.opened (fun _ _ hget => by cases hget) _ _ _

/-- The rows of a query are opened with nothing remembered. -/
theorem Opens.tidy (h : x.Opens m rows opened) (hS : S.Closed x.session.catalog)
    (hstatement : S.statements x.statement) (hx : x.Closed) :
    opened.Tidy x.session S x.world.store.objects.size objects := by
  obtain ⟨hspares, hsize, -⟩ := h.spares hS hstatement hx.spares
  refine ⟨?_, hsize, fun id key v _ hv => ?_⟩
  · exact { hspares with remembered := False.elim, emitted := False.elim }
  · rw [h.identity] at hv
    cases hv

section Rows

variable (hload : x.load = x.session.load depth) (hS : S.Closed x.session.catalog)
  (hstatement : S.statements x.statement) (ht : x.target = none)
  (hexchange : ∀ d v, x.Calls d → objects d.map.id v → d.map.exchange = .map ∨ d.map.exchange = .bean)
  (opens : x.Opens m rows opened)
  (reads : ReadsRow (x.readObject m) (rows.length + 1) x.window.skip x.window.max opened f)

include hload hS hstatement ht hexchange opens reads

/-- A row that is read has its moments. -/
theorem Trace.of_readObject (hf : f.Tidy x.session S n objects)
    (hrun : (x.readObject m).run f = (.ok (), g)) :
    Trace x.session S n objects f ((x.rowCall? m f).toList.flatMap x.rowEvents) g := by
  have hm := opens.maps hS hstatement
  rcases readObject_eq_ok hrun with hnone | ⟨c, hsome, htarget, out, left, hcall, rfl⟩
  · have hcall : x.rowCall? m f = none := by
      unfold rowCall?
      rw [hnone]
    rw [hload] at hnone
    obtain ⟨hon, -⟩ := Frame.Onward.readValues hS hm.1 hm.2 hf.toSpares hnone
    rw [hcall]
    exact .still hon (hf.onward hon (Trail.later_readValues (Trail.scans_still ..) hnone).2.1)
  · have hcalls : x.Calls c := by
      have hcalls := Calls.row opens reads hsome
      rwa [← htarget] at hcalls
    rw [rowCall?_eq htarget hsome, Option.toList_some, List.flatMap_singleton]
    exact row_trace hload hS hm (Call.fillsNone_of_none (htarget.trans ht))
      (fun d v hd => hexchange d v (hcalls.trans hd)) hf hsome hcall

/-- At every row the request refers to objects that are there, and owns what it remembers. -/
theorem tidy_of_reads (hx : x.Closed) : f.Tidy x.session S x.world.store.objects.size objects :=
  reads.keeps_at (fun hf next => hf.onward (.nextRow next) (IsQuiet.nextRow.quiet next).identity)
    (fun hat hf row => (Trace.of_readObject hload hS hstatement ht hexchange opens hat hf row).sound)
    (fun _ => id) (opens.tidy hS hstatement hx)

end Rows

end Execution

end RowMapper
