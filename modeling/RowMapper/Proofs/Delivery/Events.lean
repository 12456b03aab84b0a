/-
What happens to objects while rows are assembled: they are built, found to be nested in a parent,
added to a collection of the parent, and given to the receiver. The events of a call are those that
its run goes through. Every object that a call builds is a new one, under a key that was not known,
and each of them is added once, but for the one that the call gives (`Books`).
-/
import Mathlib.Data.List.Perm.Basic
import Mathlib.Data.List.Nodup
import RowMapper.Proofs.Engine.Success

namespace RowMapper

inductive Event where
  /-- An object was built by a map, for a key if it has one. -/
  | built (resultMap : String) (key : Option String) (object : Value)
  /-- A row held an object of a map with a key, if it has one, and an element for a property of it, by
  another map and with a key, if it has one. -/
  | found (owner : String) (ownerKey : Option String) (property : String) (resultMap : String)
      (key : Option String)
  /-- An object was added to the collection at a property of a parent, the object of a map. The
  collection read as one value before and as another behind. -/
  | added (owner : String) (parent : Value) (property : String) (object before after : Value)
  /-- An object was given to the receiver. -/
  | given (object : Value)

namespace Event

/-- The object that was built. -/
def built? : Event → Option Value
  | .built _ _ object => some object
  | _ => none

/-- The object that was handed over, to a parent or to the receiver. -/
def delivered? : Event → Option Value
  | .added _ _ _ object _ _ => some object
  | .given object => some object
  | _ => none

/-- What was added: to the parent of which map, at which property, and which object. -/
def added? : Event → Option (String × Value × String × Value)
  | .added owner parent property object _ _ => some (owner, parent, property, object)
  | _ => none

/-- What a collection held before an element was added. -/
def held? : Event → Option Value
  | .added _ _ _ _ before _ => some before
  | _ => none

/-- The object that was given to the receiver. -/
def given? : Event → Option Value
  | .given object => some object
  | _ => none

/-- Where an element was found: by a map and a key at a property, as one of another map with a key. -/
def found? : Event → Option ((String × Option String) × String × String × Option String)
  | .found owner ownerKey property resultMap key =>
    some ((owner, ownerKey), property, resultMap, key)
  | _ => none

/-- The map and the key that an object was built for, if it has one. -/
def key? : Event → Option (String × String)
  | .built resultMap (some key) _ => some (resultMap, key)
  | _ => none

end Event

/-! ## The events of a call -/

/-- What a property of a parent reads as; null where it cannot be read. -/
def Frame.collection (f : Frame) (session : Session) (parent : Value) (property : String) : Value :=
  (session.catalog.accessor.get f.world.store parent property).toOption.getD .null

namespace Call

variable (session : Session) (load : Load)

/-- The events of adding an element to a parent: that it was found, those of its call, and that its
object was added. -/
def elementEvents (depth : Nat) (nested : Call → List Event) (owner : String) (parent : Subject)
    (mapping : ResultMapping) (element : Element) (entered : Frame) : List Event :=
  let call : Call := { map := element.map, values := element.values, frame := entered }
  .found owner parent.key mapping.property call.map.id call.key :: nested call ++
    match call.run session load depth with
    | (.ok (some object), left) =>
      match (Frame.edit (session.catalog.accessor.update parent.object mapping.property
        (addElement element.collection mapping.property object))).run left with
      | (.ok (), g) =>
        [.added owner parent.object mapping.property object
          (left.collection session parent.object mapping.property)
          (g.collection session parent.object mapping.property)]
      | _ => []
    | _ => []

/-- The events of what a mapping adds to a parent. -/
def mappingEvents (depth : Nat) (nested : Call → List Event) (owner : String) (parent : Subject)
    (mapping : ResultMapping) (f : Frame) : List Event :=
  match mapping.route with
  | .nestedMap child =>
    match (readElement session load mapping child parent.object).run f with
    | (.ok (some element), entered) =>
      elementEvents session load depth nested owner parent mapping element entered
    | _ => []
  | _ => []

/-- A mapping that nests no map has no events. -/
theorem mappingEvents_eq_nil {mapping : ResultMapping} (hn : mapping.isNestedMap = false)
    (depth : Nat) (nested : Call → List Event) (owner : String) (parent : Subject) (f : Frame) :
    mappingEvents session load depth nested owner parent mapping f = [] := by
  unfold mappingEvents
  cases hr : mapping.route with
  | nestedMap child => simp [ResultMapping.isNestedMap, hr] at hn
  | _ => rfl

/-- The events of what mappings add to a parent, one after the other. -/
def gatherEvents (depth : Nat) (nested : Call → List Event) (owner : String) (parent : Subject) :
    List ResultMapping → Frame → List Event
  | [], _ => []
  | mapping :: mappings, f =>
    mappingEvents session load depth nested owner parent mapping f ++
      match (nestedMapping session load (builds session load depth) parent.object mapping).run f with
      | (.ok (), g) => gatherEvents depth nested owner parent mappings g
      | _ => []

/-- The event of building the object of a call, if it is built now. -/
def ownEvents (c : Call) : List Event :=
  match (c.map.subject session c.target c.values).run c.frame with
  | (.ok (some subject), _) =>
    if subject.isNew then [.built c.map.id subject.key subject.object] else []
  | _ => []

/-- The events of the nested elements of the object of a call. -/
def elementsEvents (depth : Nat) (nested : Call → List Event) (c : Call) : List Event :=
  match (c.map.subject session c.target c.values).run c.frame with
  | (.ok (some subject), f) =>
    if subject.mappings.any ResultMapping.isNestedMap then
      gatherEvents session load depth nested c.map.id subject subject.mappings
        (f.mark c.map.id subject.key)
    else []
  | _ => []

/-- The events of a call with a bound on the depth of the calls that it makes. -/
def events : Nat → Call → List Event
  | 0, _ => []
  | depth + 1, c =>
    ownEvents session c ++ elementsEvents session load depth (events depth) c

/-- The events of a call but that of building its own object. -/
def nestedEvents : Nat → Call → List Event
  | 0, _ => []
  | depth + 1, c => elementsEvents session load depth (events session load depth) c

/-- What holds of the events of building, finding and adding objects holds of all events of a call, by
induction on the depth of the calls that it makes. -/
theorem forall_events {P : Event → Prop} (built : ∀ id key object, P (.built id key object))
    (found : ∀ owner ownerKey property id key, P (.found owner ownerKey property id key))
    (added : ∀ {left g : Frame} {owner property : String} {parent object : Value} {type : DataType},
      (Frame.edit (session.catalog.accessor.update parent property
        (addElement type property object))).run left = (.ok (), g) →
      P (.added owner parent property object (left.collection session parent property)
        (g.collection session parent property))) :
    ∀ (depth : Nat) (c : Call), ∀ e ∈ events session load depth c, P e
  | 0, _ => nofun
  | depth + 1, c => by
    have ih := forall_events built found added depth
    have hmapping : ∀ owner parent mapping f,
        ∀ e ∈ mappingEvents session load depth (events session load depth) owner parent mapping f, P e := by
      intro owner parent mapping f e he
      unfold mappingEvents at he
      split at he
      · split at he
        · unfold elementEvents at he
          rcases List.mem_append.1 he with he | he
          · rcases List.mem_cons.1 he with rfl | he
            · exact found ..
            · exact ih _ e he
          · split at he
            · split at he
              · next hadd =>
                rw [List.mem_singleton.1 he]
                exact added hadd
              · cases he
            · cases he
        · cases he
      · cases he
    have hgather : ∀ owner parent mappings f, ∀ e ∈ gatherEvents session load depth
        (events session load depth) owner parent mappings f, P e := by
      intro owner parent mappings
      induction mappings with
      | nil => exact fun _ => nofun
      | cons mapping mappings ihm =>
        intro f e he
        unfold gatherEvents at he
        rcases List.mem_append.1 he with he | he
        · exact hmapping owner parent mapping f e he
        · split at he
          · exact ihm _ e he
          · cases he
    intro e he
    unfold events ownEvents elementsEvents at he
    rcases List.mem_append.1 he with he | he
    · split at he
      · split at he
        · rw [List.mem_singleton.1 he]
          exact built ..
        · cases he
      · cases he
    · split at he
      · split at he
        · exact hgather _ _ _ _ e he
        · cases he
      · cases he

end Call

/-! ## Books -/

/-- What is known behind events was known before, or was built meanwhile under a key that was not
known. -/
structure Remembers (t : IdentityTable) (events : List Event) (t' : IdentityTable) : Prop where
  nodup : (events.filterMap Event.key?).Nodup
  unknown : ∀ k ∈ events.filterMap Event.key?, t.get? k.1 k.2 = none
  known : ∀ id key v, t'.get? id key = some v ↔
    t.get? id key = some v ∨ .built id (some key) v ∈ events

/-- An element that was found between events and its parent are known in the end. The element was
known in the beginning, or built before, or it is added to the parent behind. -/
def Settles (t : IdentityTable) (before after : List Event) (t' : IdentityTable)
    (owner ownerKey property id key : String) : Prop :=
  ∃ parent object, t'.get? owner ownerKey = some parent ∧ t'.get? id key = some object ∧
    ((t.get? id key).isSome ∨ (id, key) ∈ before.filterMap Event.key? ∨
      (owner, parent, property, object) ∈ after.filterMap Event.added?)

/-- Events between two frames: what is built is handed over but for `own`, and what is found settles.
What is built by maps that give objects is new. -/
structure Books (objects : String → Prop) (f : Frame) (events : List Event) (own : Option Value)
    (g : Frame) : Prop where
  size : f.world.store.objects.size ≤ g.world.store.objects.size
  fresh : ∀ {id key v}, .built id key v ∈ events → objects id → ∃ r : ObjectRef, v = .object r ∧
    f.world.store.objects.size ≤ r.index ∧ r.index < g.world.store.objects.size
  nodup : (∀ id, objects id) → (events.filterMap Event.built?).Nodup
  delivered : (events.filterMap Event.built?).Perm
    (own.toList ++ events.filterMap Event.delivered?)
  remembers : Remembers f.request.identity events g.request.identity
  given : g.emitted.toList.map (·.object) =
    f.emitted.toList.map (·.object) ++ events.filterMap Event.given?
  found : ∀ {before after owner ownerKey property id key},
    events = before ++ .found owner (some ownerKey) property id (some key) :: after →
      Settles f.request.identity before after g.request.identity owner ownerKey property id key

theorem mem_keys_of_built {events : List Event} {id key : String} {v : Value}
    (h : .built id (some key) v ∈ events) : (id, key) ∈ events.filterMap Event.key? :=
  List.mem_filterMap.2 ⟨_, h, rfl⟩

/-- What stands in two lists one after the other stands in one of them. -/
theorem Event.split_append {e : Event} {events events' before after : List Event}
    (h : events ++ events' = before ++ e :: after) :
    (∃ rest, events = before ++ e :: rest ∧ after = rest ++ events') ∨
      ∃ rest, before = events ++ rest ∧ events' = rest ++ e :: after := by
  rcases List.append_eq_append_iff.1 h with ⟨rest, hbefore, hafter⟩ | ⟨rest, hevents, hafter⟩
  · exact .inr ⟨rest, hbefore, hafter⟩
  · cases rest with
    | nil => exact .inr ⟨[], by simpa using hevents.symm, hafter.symm⟩
    | cons e' rest =>
      obtain ⟨rfl, rfl⟩ := List.cons.inj hafter
      exact .inl ⟨rest, hevents, rfl⟩

/-- What was added stays so when more happens. -/
theorem Event.mem_added_append {events : List Event} {a : String × Value × String × Value} (events' : List Event)
    (h : a ∈ events.filterMap Event.added?) : a ∈ (events ++ events').filterMap Event.added? := by
  rw [List.filterMap_append]
  exact List.mem_append_left _ h

theorem exists_built {events : List Event} {v : Value} (h : v ∈ events.filterMap Event.built?) :
    ∃ id key, .built id key v ∈ events := by
  obtain ⟨e, he, hv⟩ := List.mem_filterMap.1 h
  unfold Event.built? at hv
  split at hv <;> cases hv
  exact ⟨_, _, he⟩

theorem exists_built_of_key {events : List Event} {k : String × String}
    (h : k ∈ events.filterMap Event.key?) : ∃ v, .built k.1 (some k.2) v ∈ events := by
  obtain ⟨e, he, hk⟩ := List.mem_filterMap.1 h
  unfold Event.key? at hk
  split at hk <;> cases hk
  exact ⟨_, he⟩

namespace Remembers

variable {t t' t'' : IdentityTable} {events events' : List Event}

theorem nil : Remembers t [] t :=
  ⟨.nil, fun _ h => absurd h List.not_mem_nil, fun _ _ _ =>
    ⟨.inl, fun h => h.resolve_right List.not_mem_nil⟩⟩

theorem append (h : Remembers t events t') (h' : Remembers t' events' t'') :
    Remembers t (events ++ events') t'' := by
  have hunknown : ∀ k ∈ events'.filterMap Event.key?,
      t.get? k.1 k.2 = none ∧ k ∉ events.filterMap Event.key? := by
    intro k hk
    have hnone := h'.unknown k hk
    constructor
    · by_contra hsome
      obtain ⟨v, hv⟩ := Option.ne_none_iff_exists'.1 hsome
      have hv' := (h.known k.1 k.2 v).2 (.inl hv)
      rw [hnone] at hv'
      cases hv'
    · intro hmem
      obtain ⟨v, hv⟩ := exists_built_of_key hmem
      have hv' := (h.known k.1 k.2 v).2 (.inr hv)
      rw [hnone] at hv'
      cases hv'
  refine ⟨?_, ?_, fun id key v => ?_⟩
  · rw [List.filterMap_append]
    exact h.nodup.append h'.nodup fun k hk hk' => (hunknown k hk').2 hk
  · rw [List.filterMap_append]
    intro k hk
    exact (List.mem_append.1 hk).elim (h.unknown k) fun hk => (hunknown k hk).1
  · rw [h'.known, h.known, List.mem_append, or_assoc]

/-- What is known stays known. -/
theorem get? (h : Remembers t events t') {id key : String} {v : Value}
    (hk : t.get? id key = some v) : t'.get? id key = some v := (h.known id key v).2 (.inl hk)

theorem isSome (h : Remembers t events t') {id key : String} (hk : (t.get? id key).isSome) :
    (t'.get? id key).isSome := by
  obtain ⟨v, hv⟩ := Option.isSome_iff_exists.1 hk
  exact Option.isSome_iff_exists.2 ⟨v, h.get? hv⟩

theorem settles_append (h : Remembers t' events t'') {before after : List Event}
    {owner ownerKey property id key : String}
    (hs : Settles t before after t' owner ownerKey property id key) :
    Settles t before (after ++ events) t'' owner ownerKey property id key := by
  obtain ⟨parent, object, hparent, hobject, hadded⟩ := hs
  exact ⟨parent, object, h.get? hparent, h.get? hobject,
    hadded.imp_right (.imp_right (Event.mem_added_append events))⟩

theorem settles_prepend (h : Remembers t events t') {before after : List Event}
    {owner ownerKey property id key : String}
    (hs : Settles t' before after t'' owner ownerKey property id key) :
    Settles t (events ++ before) after t'' owner ownerKey property id key := by
  obtain ⟨parent, object, hparent, hobject, hadded⟩ := hs
  refine ⟨parent, object, hparent, hobject, ?_⟩
  rw [List.filterMap_append, List.mem_append]
  rcases hadded with hknown | hadded
  · obtain ⟨v, hv⟩ := Option.isSome_iff_exists.1 hknown
    rcases (h.known id key v).1 hv with hv | hbuilt
    · exact .inl (Option.isSome_iff_exists.2 ⟨v, hv⟩)
    · exact .inr (.inl (.inl (mem_keys_of_built hbuilt)))
  · exact .inr (hadded.imp_left .inr)

/-- An object is built and remembered under a key that was not known, if it has one. -/
theorem built {id : String} {key : Option String} {v : Value}
    (h : (key.bind fun key => t.get? id key) = none) :
    Remembers t [.built id key v] (t.remember id key v) := by
  cases key with
  | none =>
    refine ⟨.nil, fun _ h => absurd h List.not_mem_nil, fun id' key' w => ⟨.inl, ?_⟩⟩
    rintro (hw | hw)
    · exact hw
    · cases List.mem_singleton.1 hw
  | some key =>
    refine ⟨List.nodup_singleton _, fun k hk => ?_, fun id' key' w => ⟨fun hw => ?_, ?_⟩⟩
    · rw [List.mem_singleton.1 hk]
      exact h
    · refine (IdentityTable.get?_insert hw).symm.imp_right ?_
      rintro ⟨rfl, rfl, rfl⟩
      exact List.mem_singleton_self _
    · rintro (hw | hw)
      · show (t.insert id key v).get? id' key' = some w
        rw [IdentityTable.get?_insert_of_ne ?_]
        · exact hw
        · by_contra hno
          obtain ⟨rfl, rfl⟩ : id' = id ∧ key' = key := by simpa using hno
          rw [Option.bind_some, hw] at h
          cases h
      · cases List.mem_singleton.1 hw
        exact IdentityTable.get?_insert_self ..

end Remembers

namespace Books

variable {objects : String → Prop} {f g h : Frame} {events events' : List Event} {own : Option Value}

theorem nil (hsize : f.world.store.objects.size ≤ g.world.store.objects.size)
    (hid : g.request.identity = f.request.identity) (hgiven : g.emitted = f.emitted) :
    Books objects f [] none g where
  size := hsize
  fresh h := absurd h List.not_mem_nil
  nodup _ := .nil
  delivered := .nil
  remembers := hid ▸ .nil
  given := by rw [hgiven, List.filterMap_nil, List.append_nil]
  found h := absurd h (by simp)

theorem append (hb : Books objects f events own g) (hb' : Books objects g events' none h) :
    Books objects f (events ++ events') own h where
  size := Nat.le_trans hb.size hb'.size
  fresh := by
    intro id key v hv ho
    rcases List.mem_append.1 hv with hv | hv
    · obtain ⟨r, rfl, hlo, hhi⟩ := hb.fresh hv ho
      exact ⟨r, rfl, hlo, Nat.lt_of_lt_of_le hhi hb'.size⟩
    · obtain ⟨r, rfl, hlo, hhi⟩ := hb'.fresh hv ho
      exact ⟨r, rfl, Nat.le_trans hb.size hlo, hhi⟩
  nodup := by
    intro ho
    rw [List.filterMap_append]
    -- what is built first is in the store when the rest is built behind it
    refine (hb.nodup ho).append (hb'.nodup ho) fun v hv hv' => ?_
    obtain ⟨id, key, hbuilt⟩ := exists_built hv
    obtain ⟨id', key', hbuilt'⟩ := exists_built hv'
    obtain ⟨r, rfl, -, hhi⟩ := hb.fresh hbuilt (ho id)
    obtain ⟨r', hr, hlo, -⟩ := hb'.fresh hbuilt' (ho id')
    cases hr
    exact absurd hhi (Nat.not_lt.2 hlo)
  delivered := by
    rw [List.filterMap_append, List.filterMap_append, ← List.append_assoc]
    exact hb.delivered.append hb'.delivered
  remembers := hb.remembers.append hb'.remembers
  given := by rw [hb'.given, hb.given, List.filterMap_append, List.append_assoc]
  found := by
    intro before after owner ownerKey property id key he
    rcases Event.split_append he with ⟨rest, hevents, rfl⟩ | ⟨rest, rfl, hevents⟩
    · exact hb'.remembers.settles_append (hb.found hevents)
    · exact hb.remembers.settles_prepend (hb'.found hevents)

/-- The object that is left over is handed over. -/
theorem deliver {v : Value} {e : Event} (hb : Books objects f events (some v) g)
    (hv : e.delivered? = some v)
    (hsize : g.world.store.objects.size ≤ h.world.store.objects.size)
    (hid : h.request.identity = g.request.identity)
    (hgiven : h.emitted.toList.map (·.object) =
      g.emitted.toList.map (·.object) ++ e.given?.toList) :
    Books objects f (events ++ [e]) none h := by
  have hnone : e.built? = none ∧ e.key? = none := by
    cases e <;> first | exact ⟨rfl, rfl⟩ | cases hv
  have hbuilt : (events ++ [e]).filterMap Event.built? = events.filterMap Event.built? := by
    rw [List.filterMap_append, List.filterMap_cons_none hnone.1, List.filterMap_nil, List.append_nil]
  have hkeys : (events ++ [e]).filterMap Event.key? = events.filterMap Event.key? := by
    rw [List.filterMap_append, List.filterMap_cons_none hnone.2, List.filterMap_nil, List.append_nil]
  have hremembers : Remembers f.request.identity (events ++ [e]) h.request.identity := by
    refine ⟨hkeys ▸ hb.remembers.nodup, hkeys ▸ hb.remembers.unknown, fun id key w => ?_⟩
    rw [hid, hb.remembers.known, List.mem_append, List.mem_singleton]
    refine or_congr_right ⟨.inl, fun hmem => hmem.resolve_right ?_⟩
    rintro rfl
    cases hv
  refine ⟨Nat.le_trans hb.size hsize, fun hmem ho => ?_, fun ho => ?_, ?_, hremembers, ?_, ?_⟩
  · have hold := (List.mem_append.1 hmem).resolve_right fun he => by
      cases List.mem_singleton.1 he
      cases hv
    obtain ⟨r, rfl, hlo, hhi⟩ := hb.fresh hold ho
    exact ⟨r, rfl, hlo, Nat.lt_of_lt_of_le hhi hsize⟩
  · rw [hbuilt]
    exact hb.nodup ho
  · rw [hbuilt, List.filterMap_append, List.filterMap_cons_some hv, List.filterMap_nil]
    exact hb.delivered.trans (List.perm_append_comm : ([v] ++ _).Perm _)
  · rw [hgiven, hb.given, List.filterMap_append, List.append_assoc]
    cases e <;> rfl
  · intro before after owner ownerKey property id key he
    rcases Event.split_append he with ⟨rest, hevents, rfl⟩ | ⟨rest, -, hsingle⟩
    · obtain ⟨parent, object, hparent, hobject, hadded⟩ := hb.found hevents
      rw [hid]
      exact ⟨parent, object, hparent, hobject,
        hadded.imp_right (.imp_right (Event.mem_added_append [e]))⟩
    · have hmem : Event.found owner (some ownerKey) property id (some key) ∈ [e] := by
        rw [hsingle]
        exact List.mem_append_right _ (List.mem_cons_self ..)
      cases List.mem_singleton.1 hmem
      cases hv

/-- An element is found that settles behind. -/
theorem find {owner property id : String} {ownerKey key : Option String}
    (hb : Books objects f events own g)
    (hsettles : ∀ k k', ownerKey = some k → key = some k' →
      Settles f.request.identity [] events g.request.identity owner k property id k') :
    Books objects f (.found owner ownerKey property id key :: events) own g where
  size := hb.size
  fresh hmem := hb.fresh ((List.mem_cons.1 hmem).resolve_left nofun)
  nodup := hb.nodup
  delivered := hb.delivered
  remembers := by
    refine ⟨hb.remembers.nodup, hb.remembers.unknown, fun id' key' w => ?_⟩
    rw [hb.remembers.known, List.mem_cons]
    exact or_congr_right ⟨.inr, fun h => h.resolve_left nofun⟩
  given := hb.given
  found := by
    intro before after owner' ownerKey' property' id' key' he
    cases before with
    | nil =>
      cases he
      exact hsettles ownerKey' key' rfl rfl
    | cons e before =>
      obtain ⟨rfl, hrest⟩ := List.cons.inj he
      have hbehind := hb.found (show _ = before ++ _ :: _ from hrest)
      exact hbehind

end Books

/-- The events hand an object over, to a parent or to the receiver, exactly once. -/
def HandsOverOnce (events : List Event) (object : Value) : Prop :=
  ∃ before event after, events = before ++ event :: after ∧ event.delivered? = some object ∧
    ∀ other ∈ before ++ after, other.delivered? ≠ some object

/-- What is handed over is handed over once. -/
theorem Books.nodup_delivered {f g : Frame} {events : List Event} (h : Books (fun _ => True) f events none g) :
    (events.filterMap Event.delivered?).Nodup := h.delivered.nodup_iff.1 (h.nodup fun _ => trivial)

theorem Books.handsOverOnce {f g : Frame} {events : List Event} {object : Value}
    (h : Books (fun _ => True) f events none g) (hb : object ∈ events.filterMap Event.built?) :
    HandsOverOnce events object := by
  have hperm : (events.filterMap Event.built?).Perm (events.filterMap Event.delivered?) := h.delivered
  have hnodup := h.nodup_delivered
  obtain ⟨event, hmem, hobject⟩ := List.mem_filterMap.1 (hperm.mem_iff.1 hb)
  obtain ⟨before, after, rfl⟩ := List.append_of_mem hmem
  rw [List.filterMap_append, List.filterMap_cons_some hobject] at hnodup
  have hnot := (List.nodup_cons.1 (List.nodup_middle.1 hnodup)).1
  refine ⟨before, event, after, rfl, hobject, fun other ho hother => hnot ?_⟩
  rw [← List.filterMap_append]
  exact List.mem_filterMap.2 ⟨other, ho, hother⟩

end RowMapper
