/-
The course of a query. What the events of its rows say has moments from which the query goes on, also when
the first object that it gives is a target that it fills (`Execution.Course`). A query that comes by no
objects (`Execution.Scalar`) spares whatever is there, but for what its target leads to
(`Execution.Beside`).
-/
import RowMapper.Proofs.Access.PutGet
import RowMapper.Proofs.Delivery.Moments
import RowMapper.Proofs.Objects.Stored

namespace RowMapper

open Relation

variable {session : Session} {S : Sphere} {f g k : Frame} {R : Region} {n : Nat} {m : ResultMap} {v : Value}
  {objects : String → Value → Prop}

/-! ## Requests that come by no objects -/

/-- A request that comes by no objects: there are none in its rows, in the replies to the texts of a sphere
and with its loader. -/
structure Frame.Scalar (f : Frame) (session : Session) (S : Sphere) : Prop where
  replies : ∀ registration ∈ f.world.database.registrations, S.texts registration.sql →
    ∀ v ∈ registration.reply.cells, ∀ r, v ≠ .object r
  loader : ∀ v, session.catalog.loader = .fixed v → ∀ r, v ≠ .object r
  rows : ∀ rows, f.request.rows = some rows → ∀ v ∈ rows.cells, ∀ r, v ≠ .object r
  /-- The mappings of the request lead into the sphere. -/
  columns : S.Whole ∨ f.TakesColumns

namespace Frame.Scalar

theorem draws (h : f.Scalar session S) (hd : f.Draws g) : g.Scalar session S where
  replies registration hreg := h.replies registration (hd.replies ▸ hreg)
  loader := h.loader
  rows rows hr v hv := by
    obtain ⟨rows', hr', hcells⟩ := hd.rows rows hr
    exact h.rows rows' hr' v (hcells v hv)
  columns := h.columns.imp_right fun hcolumns id mappings hget => hcolumns id mappings (hd.mappings ▸ hget)

/-- It spares whatever is shut. -/
theorem spares (h : f.Scalar session S) (hR : f.world.store.Shuts R) : f.Spares session R False S where
  shuts := hR
  replies registration hreg htext v hv r hr := absurd hr (h.replies registration hreg htext v hv r)
  loader v hv r hr := absurd hr (h.loader v hv r)
  rows rows hrows v hv r hr := absurd hr (h.rows rows hrows v hv r)
  remembered := False.elim
  emitted := False.elim
  columns := h.columns

end Frame.Scalar

/-! ## A call that fills a target -/

/-- A call that fills a target comes to it by the same rows and replies, and from there what it gathers has
its moments. -/
theorem Call.target_trace {c : Call} {t : Value} {subject : Subject} {depth loads : Nat}
    (hS : S.Closed session.catalog) (hc : c.Entered session S f) (hf : f.Tidy session S n objects)
    (hidentity : c.frame.request.identity = f.request.identity) (hempty : f.request.identity = {})
    (ht : c.target = some t) (hheld : ∀ r, t = .object r → r.index < f.world.store.objects.size)
    (hobjects : ∀ id, ¬objects id t)
    (hm : ∀ d v, ReflTransGen (Makes session (session.load loads)) c d → objects d.map.id v →
      d.map.exchange = .map ∨ d.map.exchange = .bean)
    (hsubject : (c.map.subject session c.target c.values).run c.frame = (.ok (some subject), k))
    (hnested : (assembleNested session (session.load loads) (builds session (session.load loads) depth) c.map
      subject.mappings subject.object subject.key).run k = (.ok (), g)) :
    c.frame.Draws k ∧ k.Tidy session S n objects ∧
      (∀ e ∈ ownEvents session c, e.Happens session S n objects k) ∧
      Trace session S n objects k (elementsEvents session (session.load loads) depth
        (events session (session.load loads) depth) c) g := by
  have hentered := hf.onward hc.onward hidentity
  obtain ⟨-, hmappings, ⟨-, rfl, key, -, hknown⟩ | ⟨-, -, hbuild⟩⟩ := subject_eq_some hsubject
  · rw [hidentity, hempty] at hknown
    cases hknown
  rw [ht] at hbuild
  have hrow : OnRow World.SameReplies True
      (c.map.buildNew session subject.mappings (some t) c.values subject.key) := .buildNew _ _ _ _ _
  have hout : ∀ v, some t = some v → v.Outside Region.empty c.frame.world.store := by
    rintro _ ⟨⟩ r hr
    exact ⟨Nat.lt_of_lt_of_le (hheld r hr) (hc.onward.spares _ hf.toSpares).2.size, id⟩
  have hstep : (Region.empty.onRequest session False S).InStep _
      (c.map.buildNew session subject.mappings (some t) c.values subject.key)
      (c.map.buildNew session subject.mappings (some t) c.values subject.key) c.frame c.frame :=
    Region.onRequest.buildNew subject.key hentered.toSpares hout (hc.values _ hf.toSpares)
  obtain ⟨⟨-, hspares⟩, hlater, -⟩ := hstep.leaves (fun _ => id) hbuild
  obtain ⟨s, hset, -, -, hremember, -⟩ := buildNew_eq_ok hbuild
  -- the object is the target, of which nothing is said
  have hnone : ¬objects c.map.id subject.object := by
    intro ho
    rw [ResultMap.run_setData_given (hm c _ .refl ho)] at hset
    obtain ⟨_, _, -, hreturn⟩ := run_bind_eq_ok.1 hset
    cases hreturn
    exact hobjects _ ho
  have hk : k.Tidy session S n objects := by
    refine ⟨hspares, Nat.le_trans hentered.size hlater.1, fun id key v ho hv => absurd ho ?_⟩
    rw [hremember, hidentity, hempty] at hv
    unfold IdentityTable.remember at hv
    split at hv
    · rcases IdentityTable.get?_insert hv with ⟨rfl, -, rfl⟩ | hv
      · exact hnone
      · cases hv
    · cases hv
  refine ⟨.of_run hrow hbuild, hk, fun e he => ?_, elements_trace hS (hmappings ▸ hentered.toSpares.reads hc.maps) hk
    (fun ho => absurd ho hnone) hsubject (fun d u hd hentered hidentity hu out left => ?_) hnested⟩
  · unfold ownEvents at he
    rw [hsubject] at he
    dsimp only at he
    split at he
    · rw [List.mem_singleton.1 he]
      exact fun ho => absurd ho hnone
    · cases he
  · have hfills : d.FillsNone session := fillsNone_of_none (by
      obtain ⟨_, rfl⟩ := hd
      rfl)
    exact trace hS depth hfills (fun e v he => hm e v (.head hd he)) hentered hidentity hu

namespace Execution

variable {x : Execution} {rows : RowSet} {opened : Frame} {depth : Nat} {events events' : List Event}

/-! ## The course of a query -/

/-- Behind some events of its rows a query has come to a frame, by no other replies and rows than it
opened, and each of the events has its moment. -/
structure Course (x : Execution) (S : Sphere) (n : Nat) (objects : String → Value → Prop) (opened : Frame)
    (events : List Event) (f : Frame) : Prop where
  draws : opened.Draws f
  sound : f.Tidy x.session S n objects
  moments : ∀ e ∈ events, ∃ k, opened.Draws k ∧ e.Happens x.session S n objects k ∧ k.Onward x.session S f

namespace Course

theorem append (h : x.Course S n objects opened events f)
    (h' : Trace x.session S n objects f events' g) :
    x.Course S n objects opened (events ++ events') g := by
  refine ⟨h.draws.trans h'.onward.toDraws, h'.sound, fun e he => ?_⟩
  rcases List.mem_append.1 he with he | he
  · obtain ⟨k, hk, hhappens, hon⟩ := h.moments e he
    exact ⟨k, hk, hhappens, hon.trans h'.onward⟩
  · obtain ⟨k, hon, hhappens, hk⟩ := h'.moments e he
    exact ⟨k, h.draws.trans hon.toDraws, hhappens, hk⟩

/-- What goes on behind the events adds none. -/
theorem behind (h : x.Course S n objects opened events f) (hon : f.Onward x.session S g)
    (hidentity : g.request.identity = f.request.identity) : x.Course S n objects opened events g := by
  have hbehind := h.append (.still hon (h.sound.onward hon hidentity))
  rwa [List.append_nil] at hbehind

end Course

/-- The course of the rows of some calls, if a target is filled no more than once. When there is one, the
first call fills it. -/
def Runs (x : Execution) (S : Sphere) (objects : String → Value → Prop) (opened : Frame) (calls : List Call)
    (f : Frame) : Prop :=
  (x.target ≠ none → f.emitted.size ≤ 1) →
    x.Course S x.world.store.objects.size objects opened (calls.flatMap x.rowEvents) f ∧
      (x.target ≠ none → calls = [] ∧ f.request.identity = {} ∨ 1 ≤ f.emitted.size)

section Rows

variable (hload : x.load = x.session.load depth) (hS : S.Closed x.session.catalog)
  (hstatement : S.statements x.statement)
  (htarget : ∀ t, x.target = some t → x.world.store.Holds t ∧ ∀ id, ¬objects id t)
  (hexchange : ∀ d v, x.Calls d → objects d.map.id v → d.map.exchange = .map ∨ d.map.exchange = .bean)

include hload hS hstatement htarget hexchange

/-- The rows of a query run their course. -/
theorem rows_run : x.RowInvariant (x.Runs S objects opened) := by
  have hstill := Trail.scans_still x.session depth
  refine ⟨fun more hp hnext hone => ?_, fun hp hm hrow hone => ?_, ?_⟩
  · obtain ⟨hstore, hidentity, hemitted⟩ := IsQuiet.nextRow.quiet hnext
    rw [hemitted] at hone ⊢
    rw [hidentity]
    obtain ⟨hcourse, hfirst⟩ := hp hone
    exact ⟨hcourse.behind (.nextRow hnext) hidentity, hfirst⟩
  · rw [hload] at hrow
    obtain ⟨-, hidentity, hemitted⟩ := Trail.later_readValues hstill hrow
    rw [hemitted] at hone ⊢
    rw [hidentity]
    obtain ⟨hcourse, hfirst⟩ := hp hone
    have hmap := hS.own hstatement hm
    obtain ⟨hon, -⟩ := Frame.Onward.readValues hS hmap (Catalog.resultMap_of_statement hm)
      hcourse.sound.toSpares hrow
    exact ⟨hcourse.behind hon hidentity, hfirst⟩
  intro calls f m left out c hp hm hread ht hmarks hc hrun hone
  have hmap : S.maps m ∧ ∃ id, x.session.catalog.resultMap id = .ok m :=
    ⟨hS.own hstatement hm, Catalog.resultMap_of_statement hm⟩
  have hexchange' := fun d v (hd : ReflTransGen (Call.Makes x.session x.load) c d) =>
    hexchange d v (hc.trans hd)
  have hreadLoad := hload ▸ hread
  have hrunLoad := hload ▸ hrun
  obtain ⟨-, hidentity, hemitted⟩ := Trail.later_readValues hstill hreadLoad
  have hleft : left.emitted = f.emitted := (Trail.emitted_build hrunLoad).trans hemitted
  have hsize : f.emitted.size ≤ (left.give out).emitted.size := by
    cases out with
    | none => exact Nat.le_of_eq (congrArg Array.size hleft.symm)
    | some object => simp [Frame.give, hleft]
  obtain ⟨hcourse, hfirst⟩ := hp fun h => Nat.le_trans hsize (hone h)
  rw [List.flatMap_append, List.flatMap_singleton]
  have hrow := fun hfills =>
    hcourse.append (row_trace hload hS hmap hfills hexchange' hcourse.sound hread hrun)
  cases htargets : x.target with
  | none => exact ⟨hrow (Call.fillsNone_of_none (ht.trans htargets)), fun h => absurd rfl h⟩
  | some t =>
    have hsome : x.target ≠ none := by
      rw [htargets]
      exact Option.some_ne_none t
    obtain ⟨d, hd⟩ : ∃ d, nestingBound = d + 1 := ⟨_, rfl⟩
    rw [hd] at hrunLoad
    rcases hfirst hsome with ⟨rfl, hempty⟩ | hgiven
    · -- nothing is remembered or marked, so the first call fills the target
      rcases Call.run_eq_ok hrunLoad with ⟨hnone, -⟩ | ⟨subject, k, hsubject, hnested, hout⟩
      · obtain ⟨-, key, -, hmarked⟩ := Call.subject_eq_none hnone
        unfold Request.isAssembling at hmarked
        rw [hmarks] at hmarked
        cases hmarked
      have hnew : subject.isNew = true := by
        obtain ⟨-, -, ⟨-, -, key, -, hknown⟩ | ⟨hnew, -⟩⟩ := Call.subject_eq_some hsubject
        · rw [hidentity, hempty] at hknown
          cases hknown
        · exact hnew
      rw [hnew, if_pos rfl] at hout
      obtain ⟨-, hentered⟩ := Frame.Onward.readValues hS hmap.1 hmap.2 hcourse.sound.toSpares hreadLoad
      have hentered : c.Entered x.session S f := hentered c rfl rfl
      have hheld : ∀ r, t = .object r → r.index < f.world.store.objects.size := fun r hr =>
        Nat.lt_of_lt_of_le ((htarget t htargets).1 r hr) hcourse.sound.size
      obtain ⟨hdraws, hk, hown, htrace⟩ := Call.target_trace hS hentered hcourse.sound hidentity hempty
        (ht.trans htargets) hheld (htarget t htargets).2 (hload ▸ hexchange') hsubject hnested
      have hdrawn := (hcourse.draws.trans hentered.onward.toDraws).trans hdraws
      have hsubjects : x.Course S _ objects opened (Call.ownEvents x.session c) k :=
        ⟨hdrawn, hk, fun e he => ⟨k, hdrawn, hown e he, .refl k⟩⟩
      have hgive : left.Onward x.session S (left.give out) := .give ..
      subst hout
      have hall := (hsubjects.append htrace).append (.single (e := .given subject.object) hgive
        (htrace.sound.onward hgive rfl) trivial)
      refine ⟨?_, fun _ => .inr (by simp [Frame.give])⟩
      unfold rowEvents
      rw [hrun, hload, hd]
      exact hall
    · refine ⟨hrow fun subject k hsubject hnew => ?_, fun _ => .inr (Nat.le_trans hgiven hsize)⟩
      -- a target that is filled again is given again
      rcases Call.run_eq_ok hrunLoad with ⟨hnone, -⟩ | ⟨subject', k', hsubject', -, rfl⟩
      · cases hsubject.symm.trans hnone
      cases hsubject.symm.trans hsubject'
      have htwice := hone hsome
      rw [hnew, if_pos rfl] at htwice
      simp only [Frame.give, Array.size_push, hleft] at htwice
      omega

end Rows

/-- What is in a response is in a reply to the text of the statement. -/
theorem Submits.asked {resultMap : Option ResultMap} {response : Response}
    (h : x.Submits resultMap response f) :
    Frame.Asked { world := x.world } f ∧ ∀ v ∈ response.cells, ∃ registration ∈ x.world.database.registrations,
      registration.sql = Text.squeeze x.statement.sql ∧ v ∈ registration.reply.cells := by
  obtain ⟨-, hasked, ho⟩ := x.session.submit_keeps x.statement x.parameter x.world.database.registrations
    { world := x.world } rfl
  unfold Submits at h
  rw [h] at hasked ho
  exact ⟨hasked, ho.2⟩

section Run

variable (hload : x.load = x.session.load depth) (hS : S.Closed x.session.catalog)
  (hstatement : S.statements x.statement) (hclosed : x.Closed)
  (htarget : ∀ t, x.target = some t → x.world.store.Holds t ∧ ∀ id, ¬objects id t)
  (hexchange : ∀ d v, x.Calls d → objects d.map.id v → d.map.exchange = .map ∨ d.map.exchange = .bean)
  (hsingle : x.target ≠ none → g.emitted.size ≤ 1) (h : x.run = (.ok (), g))

include hload hS hstatement hclosed htarget hexchange hsingle h

/-- A query that succeeds has run its course when it comes to its outputs. What its rows keep holds then. -/
theorem course_of_run {e : Event} (he : e ∈ x.events) :
    ∃ m rows response opened f k, x.Submits (some m) response f ∧ x.Opens m rows opened ∧
      x.Course S x.world.store.objects.size objects opened x.events k ∧
      (x.session.writeOutputs x.statement x.parameter response.outputs).run k = (.ok (), g) ∧
      ∀ P, x.RowInvariant P → P [] opened → P x.calls k := by
  obtain ⟨resultMap, response, f, k, hsubmit, houtputs,
    ⟨hcalls, -⟩ | ⟨m, rows, opened, rfl, hrows, hopen, hread⟩⟩ := run_eq_ok h
  · unfold events at he
    rw [hcalls] at he
    cases he
  have opens : x.Opens m rows opened := ⟨response, f, hsubmit, hrows, hopen⟩
  have hemitted : opened.emitted = #[] := by
    rw [((IsQuiet.openRows x.session m rows).quiet hopen).emitted, hsubmit.asked.1.emitted]
  have hopened : x.Runs S objects opened [] opened := fun _ =>
    ⟨⟨.refl opened, opens.tidy hS hstatement hclosed, nofun⟩, fun _ => .inl ⟨rfl, opens.identity⟩⟩
  have hone : x.target ≠ none → k.emitted.size ≤ 1 := by
    intro hsome
    obtain ⟨-, -, hsame⟩ := Trail.later (Trail.writeOutputs (τ := .still) x.statement x.parameter _ _) houtputs
    rw [← hsame]
    exact hsingle hsome
  obtain ⟨hcourse, -⟩ := hread _ (rows_run hload hS hstatement htarget hexchange) hopened hone
  exact ⟨m, rows, response, opened, f, k, hsubmit, opens, hcourse, houtputs, hread⟩

end Run

end Execution

/-! ## Queries that come by no objects -/

/-- An object that a value is, or leads to. -/
def Store.LedBy (s : Store) (v : Value) (r : ObjectRef) : Prop :=
  ∃ p, v = .object p ∧ ReflTransGen s.RefersTo p r

namespace Execution

variable {x : Execution} {rows : RowSet} {opened : Frame} {depth : Nat} {r : ObjectRef}

theorem Closed.ledBy (hx : x.Closed) (hv : x.world.store.Holds v) (h : x.world.store.LedBy v r) :
    r.index < x.world.store.objects.size := by
  obtain ⟨p, rfl, hr⟩ := h
  induction hr with
  | refl => exact hv p rfl
  | tail _ hstep _ => exact hx.store _ _ hstep _ rfl

/-- A query of a sphere that comes by no objects: no replies to the texts of the sphere hold any, and the
loader gives none. -/
structure Scalar (x : Execution) (S : Sphere) : Prop where
  closed : S.Closed x.session.catalog
  statement : S.statements x.statement
  replies : ∀ registration ∈ x.world.database.registrations, S.texts registration.sql →
    ∀ v ∈ registration.reply.cells, ∀ r, v ≠ .object r
  loader : ∀ v, x.session.catalog.loader = .fixed v → ∀ r, v ≠ .object r

/-- The objects that are there when the query begins, but for those that its target leads to. -/
def Beside (x : Execution) : Region := fun r =>
  r.index < x.world.store.objects.size ∧ ∀ t, x.target = some t → ¬x.world.store.LedBy t r

theorem Closed.shuts_beside (hx : x.Closed) : x.world.store.Shuts x.Beside := by
  refine ⟨fun r hr => hr.1, fun q r hq hr => ⟨hx.store q _ hr r rfl, fun hbeside => hq ⟨?_, ?_⟩⟩⟩
  · by_contra hlt
    rw [Store.data_of_size_le (Nat.not_lt.1 hlt)] at hr
    cases hr
  · rintro t ht ⟨p, rfl, hp⟩
    exact hbeside.2 _ ht ⟨p, rfl, hp.tail hr⟩

namespace Scalar

theorem cells (hx : x.Scalar S) {resultMap : Option ResultMap} {response : Response}
    (h : x.Submits resultMap response f) : ∀ v ∈ response.cells, ∀ r, v ≠ .object r := by
  intro v hv
  obtain ⟨registration, hmem, hsql, hcell⟩ := h.asked.2 v hv
  exact hx.replies registration hmem (hsql ▸ hx.closed.text hx.statement) v hcell

/-- The rows of a query that comes by no objects hold none. -/
theorem opens (hx : x.Scalar S) (h : x.Opens m rows opened) : opened.Scalar x.session S := by
  have hcolumns := h.takesColumns
  obtain ⟨response, f, hsubmit, hrows, hopen⟩ := h.opens
  obtain ⟨hasked, -⟩ := Submits.asked hsubmit
  obtain ⟨mappings, derived, hopened⟩ := f.exists_opened x.session.catalog.registry m rows
  rw [Session.openRows_eq_opened hopen, hopened] at hcolumns ⊢
  refine ⟨fun registration hreg => hx.replies registration (hasked.registrations ▸ hreg), hx.loader, ?_,
    .inr hcolumns⟩
  rintro _ ⟨⟩ v hv
  exact hx.cells hsubmit v (Response.mem_cells_of_rows hrows hv)

/-- The query spares what is beside its target when it opens its rows. -/
theorem beside_opened (hx : x.Scalar S) (hclosed : x.Closed) (h : x.Opens m rows opened) :
    opened.Spares x.session x.Beside True S ∧
      x.Beside.onStore.later x.world.store opened.world.store := by
  refine h.spares hx.closed hx.statement ⟨hclosed.shuts_beside, ?_, ?_, ?_, ?_, ?_, ?_⟩
  · exact fun registration hreg htext v hv r hr => absurd hr (hx.replies registration hreg htext v hv r)
  · exact fun v hv r hr => absurd hr (hx.loader v hv r)
  · exact fun _ hr => nomatch hr
  · exact fun _ _ _ _ hv => by cases hv
  · exact fun _ _ he => nomatch he
  · exact .inr fun _ _ hget => by cases hget

/-- The rows of the query spare what is beside its target. -/
theorem beside_rows (hx : x.Scalar S) (hload : x.load = x.session.load depth)
    (htarget : ∀ t, x.target = some t → x.world.store.Holds t) :
    x.RowInvariant fun _ f => f.Spares x.session x.Beside True S ∧
      x.Beside.onStore.later x.world.store f.world.store := by
  have hanswers := Region.onRequest.answers_load x.Beside hx.closed depth
  have htrans := @(x.Beside.onStore).trans
  rw [← hload] at hanswers
  refine ⟨fun more hp hnext => ?_, fun hp hm hrow => ?_, ?_⟩
  · obtain ⟨⟨-, hg⟩, hlater, -⟩ := (hanswers.nextRow ⟨rfl, hp.1⟩).leaves (fun _ => id) hnext
    exact ⟨hg, htrans hp.2 hlater⟩
  · obtain ⟨⟨-, hg⟩, hlater, -⟩ := (hanswers.readValues hanswers.follows (hx.closed.own hx.statement hm)
      ⟨rfl, hp.1⟩).leaves (fun _ => id) hrow
    exact ⟨hg, htrans hp.2 hlater⟩
  intro calls f m left out c hp hm hread ht _ _ hrun
  obtain ⟨⟨-, hentered⟩, hlater, hfound⟩ := (hanswers.readValues hanswers.follows
    (hx.closed.own hx.statement hm) ⟨rfl, hp.1⟩).leaves (fun _ => id) hread
  cases hfound with | some hfound => ?_
  obtain ⟨hmap, -, hvalues, hreadings⟩ := hfound
  have hl := htrans hp.2 hlater
  have hout : ∀ t, c.target = some t → t.Outside x.Beside c.frame.world.store := by
    rintro _ htargets r rfl
    have hheld := htarget _ (ht.symm.trans htargets) r rfl
    exact ⟨Nat.lt_of_lt_of_le hheld hl.1, fun hr => hr.2 _ (ht.symm.trans htargets) ⟨r, rfl, .refl⟩⟩
  obtain ⟨⟨-, hleft⟩, hlater', ho⟩ := (hanswers.buildInto nestingBound (Region.onRequest.fills hout) hmap
    ⟨rfl, hentered⟩ hvalues hreadings).leaves (fun _ => id) hrun
  cases ho with
  | none => exact ⟨hleft, htrans hl hlater'⟩
  | some hobject =>
    obtain ⟨⟨-, hgiven⟩, -⟩ :=
      (Region.onRequest.emit .any hleft hobject.2).resolve_left fun ⟨_, he, _⟩ => he
    exact ⟨hgiven, htrans hl hlater'⟩

end Scalar

end Execution

end RowMapper
