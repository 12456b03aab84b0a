/-
The books of a call. A call builds its object or finds it, and each nested element that it gathers is
the object of a call of its own, which it adds to the parent if it was built there; so whatever a call
builds is handed over within it, but for the object that it gives.
-/
import RowMapper.Proofs.Delivery.Events

namespace RowMapper

open Relation

/-- Reading an element leaves what a request remembers and gave, whatever the trail. -/
theorem Trail.later_readElement {τ : Trail} {session : Session} {load : Load}
    (hreads : τ.growth.Scans session load load) (mapping : ResultMapping) (child : String)
    (parent : Value) {f g : Frame} {outcome : Except Stop (Option Element)}
    (hrun : (readElement session load mapping child parent).run f = (outcome, g)) :
    τ.growth.later f g := by
  have hstep : τ.growth.InStep Pairing.Any (readElement session load mapping child parent)
      (readElement session load mapping child parent) f f := by
    unfold readElement
    refine (Pairing.InStep.ofExcept (R := Pairing.Same) rfl fun _ _ => rfl).bind ?_
    rintro s t m _ - rfl rfl
    refine Pairing.InStep.bind (Q := Pairing.Same) ?_ ?_
    · unfold ResultMapping.collectionType
      split
      · exact .pure rfl rfl
      · exact .read rfl rfl fun _ _ => rfl
    rintro s t type _ - rfl rfl
    refine (edit_inStep (Q := Pairing.Any) (Store.growth.update ..) fun _ _ => trivial).bind ?_
    rintro s t _ _ - rfl -
    refine (hreads.readRow (m := m) trivial rfl).bind fun s t values values' _ hst hv => ?_
    obtain rfl : s = t := hst
    obtain rfl : values = values' := List.forall₂_eq_eq_eq ▸ hv.1
    refine .gets_bind ?_
    split <;> exact .pure rfl trivial
  exact later hstep hrun

/-- The objects that are marked as being assembled are known. -/
def Frame.KnowsMarks (f : Frame) : Prop :=
  ∀ id key, f.request.isAssembling id key = true → (f.request.identity.get? id key).isSome

variable {session : Session} {load : Load} {c : Call} {f g : Frame} {depth : Nat}

namespace Books

variable {objects : String → Prop} {events : List Event} {own : Option Value}

/-- The books of what only reads, or sets and takes away marks. -/
theorem still (h : Trail.still.growth.later f g) : Books objects f [] none g := .nil h.1 h.2.1 h.2.2

theorem mark (f : Frame) (id : String) (key : Option String) :
    Books objects f [] none (f.mark id key) := by
  cases key <;> exact .nil (Nat.le_refl _) rfl rfl

theorem unmark (f : Frame) (key : Option String) : Books objects f [] none (f.unmark key) := by
  cases key <;> exact .nil (Nat.le_refl _) rfl rfl

theorem knowsMarks (hb : Books objects f events own g) (h : f.KnowsMarks)
    (hmarks : g.request.assembling = f.request.assembling) : g.KnowsMarks := by
  intro id key hk
  unfold Request.isAssembling at hk
  rw [hmarks] at hk
  exact hb.remembers.isSome (h id key hk)

end Books

namespace Call

variable {objects : String → Prop}

/-- The object of a call is built under a key that was not known, or nothing happens. -/
theorem subject_books (objects : String → Prop) {subject : Subject}
    (ht : objects c.map.id → c.target = none)
    (hm : objects c.map.id → c.map.exchange = .map ∨ c.map.exchange = .bean)
    (h : (c.map.subject session c.target c.values).run c.frame = (.ok (some subject), f)) :
    Books objects c.frame (ownEvents session c)
      (if subject.isNew then some subject.object else none) f := by
  unfold ownEvents
  rw [h]
  obtain ⟨hkey, -, ⟨hnew, rfl, -⟩ | ⟨hnew, hunknown, hbuild⟩⟩ := subject_eq_some h
  · dsimp only
    rw [hnew]
    exact .nil (Nat.le_refl _) rfl rfl
  · obtain ⟨s, hset, hsize, hs, hid, hgiven⟩ := buildNew_eq_ok hbuild
    subst hs
    rw [← hkey] at hunknown
    dsimp only
    rw [hnew, if_pos rfl, if_pos rfl]
    refine ⟨hsize, fun hv ho => ?_, fun _ => List.nodup_singleton _, .refl _, ?_, ?_,
      fun he => ?_⟩
    · cases List.mem_singleton.1 hv
      rw [ht ho] at hset
      obtain ⟨hobject, hlt⟩ := setData_object (hm ho) hset
      exact ⟨_, hobject, Nat.le_refl _, hlt⟩
    · rw [hid]
      exact .built hunknown
    · rw [hgiven]
      exact (List.append_nil _).symm
    · cases List.append_eq_singleton_iff.1 he.symm with
      | inl h => cases h.2
      | inr h => cases h.2

/-- The object of a call is known behind it by its key, if it has one. -/
theorem subject_known {subject : Subject}
    (h : (c.map.subject session c.target c.values).run c.frame = (.ok (some subject), f)) :
    ∀ key, subject.key = some key → f.request.identity.get? c.map.id key = some subject.object := by
  intro key hk
  obtain ⟨hkey, -, ⟨-, rfl, key', hk', hknown⟩ | ⟨-, -, hbuild⟩⟩ := subject_eq_some h
  · rw [← hkey, hk] at hk'
    cases hk'
    exact hknown
  · obtain ⟨-, -, -, -, hid, -⟩ := buildNew_eq_ok hbuild
    rw [hid, hk]
    exact IdentityTable.get?_insert_self ..

theorem gathers_knowsMarks {subject : Subject} {opened : Frame} (hk : c.frame.KnowsMarks)
    (hg : c.Gathers session subject opened) : opened.KnowsMarks := by
  have hmarks := hg.marks
  obtain ⟨⟨f, hsubject, rfl⟩, -⟩ := hg
  have hidentity : (f.mark c.map.id subject.key).request.identity = f.request.identity := by
    cases subject.key <;> rfl
  have hbooks := subject_books (fun _ => False) False.elim False.elim hsubject
  intro id key hm
  rw [hidentity]
  have hmem := List.contains_iff_mem.1 hm
  rw [hmarks] at hmem
  rcases List.mem_append.1 hmem with hmem | hmem
  · obtain ⟨key', hk', heq⟩ := Option.map_eq_some_iff.1 (Option.mem_toList.1 hmem)
    cases heq
    exact Option.isSome_iff_exists.2 ⟨_, subject_known hsubject _ hk'⟩
  · exact hbooks.remembers.isSome (hk id key (List.contains_iff_mem.2 hmem))

/-- The object of a call is known behind it by its key, if it has one. It was known before, or the
call gives it. -/
def Settled (c : Call) (out : Option Value) (g : Frame) : Prop :=
  ∀ key, c.key = some key → ∃ object, g.request.identity.get? c.map.id key = some object ∧
    ((c.frame.request.identity.get? c.map.id key).isSome ∨ out = some object)

section Gathering

variable (hreads : Trail.still.growth.Scans session load load)

include hreads

/-- What a mapping adds was built by the call for its element. -/
theorem mapping_books {mapping : ResultMapping} {owner : String} {parent : Subject}
    (hf : f.KnowsMarks)
    (howner : ∀ key, parent.key = some key →
      f.request.identity.get? owner key = some parent.object)
    (hcall : ∀ child element entered out left, mapping.route = .nestedMap child →
      (readElement session load mapping child parent.object).run f = (.ok (some element), entered) →
      let call : Call := { map := element.map, values := element.values, frame := entered }
      entered.KnowsMarks → call.run session load depth = (.ok out, left) →
      Books objects entered (events session load depth call) out left ∧ call.Settled out left)
    (h : (nestedMapping session load (builds session load depth) parent.object mapping).run f =
      (.ok (), g)) :
    Books objects f
      (mappingEvents session load depth (events session load depth) owner parent mapping f) none g := by
  rcases nestedMapping_eq_ok h with ⟨hn, rfl⟩ | ⟨child, hroute, h⟩
  · rw [mappingEvents_eq_nil session load hn]
    exact .nil (Nat.le_refl _) rfl rfl
  unfold mappingEvents
  rw [hroute]
  dsimp only
  rcases nestedElement_eq_ok h with hnone | ⟨element, entered, hsome, hbuilt⟩
  · rw [hnone]
    exact .still (Trail.later_readElement hreads mapping child parent.object hnone)
  · have hread : Books objects f [] none entered :=
      .still (Trail.later_readElement hreads mapping child parent.object hsome)
    have hsteady := readElement_steady session load mapping child parent.object f
    rw [hsome] at hsteady
    have hentered := hread.knowsMarks hf hsteady.marks
    have howner' := fun key hk => hread.remembers.get? (howner key hk)
    rw [hsome]
    dsimp only
    unfold elementEvents
    rcases hbuilt with hbuilt | ⟨object, left, hbuilt, hadd⟩
    · obtain ⟨hcalled, hsettled⟩ := hcall child element entered none g hroute hsome hentered hbuilt
      have hrun : Call.run session load depth
          { map := element.map, values := element.values, frame := entered } = (.ok none, g) := hbuilt
      simp only [hrun, List.append_nil]
      refine hread.append (hcalled.find fun k k' hk hk' => ?_)
      obtain ⟨v, hv, hknown⟩ := hsettled k' hk'
      exact ⟨_, v, hcalled.remembers.get? (howner' k hk), hv, hknown.imp_right nofun⟩
    · obtain ⟨hcalled, hsettled⟩ :=
        hcall child element entered (some object) left hroute hsome hentered hbuilt
      have hrun : Call.run session load depth
          { map := element.map, values := element.values, frame := entered } =
            (.ok (some object), left) := hbuilt
      simp only [hrun, hadd]
      have hsize := Store.growth.size_le (Store.growth.update session.catalog.accessor mapping.property
        parent.object (addElement element.collection mapping.property object) left.world.store)
      obtain ⟨s, hs, rfl⟩ := run_edit_eq_ok.1 hadd
      rw [hs] at hsize
      let k : Frame := { left with world := { left.world with store := s } }
      have hadded : Books objects entered (events session load depth
          { map := element.map, values := element.values, frame := entered } ++
            [.added owner parent.object mapping.property object
              (left.collection session parent.object mapping.property)
              (k.collection session parent.object mapping.property)]) none k :=
        hcalled.deliver rfl hsize rfl (List.append_nil _).symm
      refine hread.append (hadded.find fun k k' hk hk' => ?_)
      obtain ⟨v, hv, hknown⟩ := hsettled k' hk'
      refine ⟨_, v, hcalled.remembers.get? (howner' k hk), hv, hknown.imp_right fun he => ?_⟩
      cases he
      rw [List.filterMap_append]
      exact .inr (List.mem_append_right _ (List.mem_singleton_self _))

/-- What is added to the object of a call was built by the calls that it makes. -/
theorem gather_books {subject : Subject} {opened : Frame} (hg : c.Gathers session subject opened)
    (hcalls : ∀ d, Makes session load c d → d.frame.KnowsMarks → ∀ out left,
      d.run session load depth = (.ok out, left) →
      Books objects d.frame (events session load depth d) out left ∧ d.Settled out left) :
    ∀ (after before : List ResultMapping) (f : Frame), subject.mappings = before ++ after →
      (gather session load depth before subject.object).run opened = (.ok (), f) → f.KnowsMarks →
      (∀ key, subject.key = some key →
        f.request.identity.get? c.map.id key = some subject.object) →
      (gather session load depth after subject.object).run f = (.ok (), g) →
      Books objects f
        (gatherEvents session load depth (events session load depth) c.map.id subject after f) none g
  | [], _, f, _, _, _, _, h => by
    cases h
    exact .nil (Nat.le_refl _) rfl rfl
  | mapping :: after, before, f, hmappings, hreach, hf, howner, h => by
    rw [gather_cons] at h
    obtain ⟨_, k, hone, hrest⟩ := run_bind_eq_ok.1 h
    have hfirst := mapping_books hreads hf howner
      (fun child element entered out left hroute hread hentered hrun =>
        hcalls _ (makes_of_reads hg hmappings hroute hreach hread) hentered out left hrun) hone
    have hsteady := gather_steady session load depth [mapping] subject.object f
    rw [gather_singleton hone] at hsteady
    have hk : k.KnowsMarks := hfirst.knowsMarks hf hsteady.marks
    have hlater := gather_books hg hcalls after (before ++ [mapping]) k (by simp [hmappings])
      (gather_append_ok hreach hone) hk (fun key hk => hfirst.remembers.get? (howner key hk)) hrest
    unfold gatherEvents
    rw [hone]
    exact hfirst.append hlater

/-- A call that succeeds builds new objects under keys that were not known, and hands all of them
over but for the one that it gives. Its own object is settled then. -/
theorem books : ∀ (depth : Nat) (c : Call) {out : Option Value} {g : Frame},
    (objects c.map.id → c.target = none) →
    (∀ d, ReflTransGen (Makes session load) c d → objects d.map.id →
      d.map.exchange = .map ∨ d.map.exchange = .bean) →
    c.frame.KnowsMarks → c.run session load depth = (.ok out, g) →
    Books objects c.frame (events session load depth c) out g ∧ c.Settled out g
  | 0, _, _, _, _, _, _, h => by cases h
  | depth + 1, c, out, g, ht, hm, hmarks, h => by
    unfold events
    rcases run_eq_ok h with ⟨hnone, rfl⟩ | ⟨subject, f, hsome, hnested, rfl⟩
    · obtain ⟨rfl, key, hkey, hmarked⟩ := subject_eq_none hnone
      unfold ownEvents elementsEvents
      rw [hnone]
      refine ⟨.nil (Nat.le_refl _) rfl rfl, fun key' hkey' => ?_⟩
      rw [hkey] at hkey'
      cases hkey'
      have hknown := hmarks _ _ hmarked
      obtain ⟨v, hv⟩ := Option.isSome_iff_exists.1 hknown
      exact ⟨v, hv, .inl hknown⟩
    have hsubject := subject_books objects ht (hm c .refl) hsome
    have hknown : ∀ key, subject.key = some key →
        f.request.identity.get? c.map.id key = some subject.object := subject_known hsome
    have hsettled : c.Settled (if subject.isNew then some subject.object else none) f := by
      obtain ⟨hkey, -, ⟨-, -, key, hk, hold⟩ | ⟨hnew, -, -⟩⟩ := subject_eq_some hsome
      · intro key' hk'
        rw [hk] at hk'
        cases hk'
        exact ⟨_, hknown key (hkey.trans hk), .inl (Option.isSome_iff_exists.2 ⟨_, hold⟩)⟩
      · rw [hnew]
        exact fun key hk => ⟨_, hknown key (hkey.trans hk), .inr rfl⟩
    unfold elementsEvents
    rw [hsome]
    rcases assembleNested_eq_ok hnested with ⟨hn, rfl⟩ | ⟨hn, k, hgather, rfl⟩
    · simp only [hn, Bool.false_eq_true, if_false, List.append_nil]
      exact ⟨hsubject, hsettled⟩
    · simp only [hn, if_true]
      have hg : c.Gathers session subject (f.mark c.map.id subject.key) := ⟨⟨f, hsome, rfl⟩, hn⟩
      have hmark : Books objects f [] none (f.mark c.map.id subject.key) := .mark ..
      have howner := fun key (hk : subject.key = some key) =>
        hmark.remembers.get? (hknown key hk)
      have hbooks := gather_books hreads hg (fun d hd hmarks out left => books depth d (by
        obtain ⟨n, rfl⟩ := hd
        exact fun _ => rfl) (fun e he => hm e (.head hd he)) hmarks) subject.mappings [] _ rfl rfl
        (gathers_knowsMarks hmarks hg) howner hgather
      have hrest := (hmark.append hbooks).append (.unmark k subject.key)
      rw [List.nil_append, List.append_nil] at hrest
      refine ⟨hsubject.append hrest, fun key hk => ?_⟩
      obtain ⟨v, hv, hold⟩ := hsettled key hk
      exact ⟨v, hrest.remembers.get? hv, hold⟩

end Gathering

end Call

end RowMapper
