/-
Calls: turning the values of a row into an object by a result map, from a frame on. A call makes one
for each nested element that the row holds, when the elements before it are gathered
(`NestedCall`). The moments of a call are the frames at which it and the calls that it makes are
entered, go from one nested element to the next, and end (`Call.Moment`).
-/
import RowMapper.Engine.Query
import RowMapper.Proofs.Engine.Row

namespace RowMapper

/-- The map, the values, and the object to fill, if one is given, from a frame on. -/
structure Call where
  map : ResultMap
  target : Option Value := none
  values : List Value
  frame : Frame

namespace Call

/-- The outcome of a call with a bound on the depth of the calls that it makes. -/
def run (session : Session) (load : Load) (depth : Nat) (c : Call) :
    Except Stop (Option Value) × Frame :=
  (ResultMap.build session load depth c.map c.target c.values).run c.frame

/-- The calls for nested elements, with a bound on their depth. -/
abbrev builds (session : Session) (load : Load) (depth : Nat) : Build :=
  fun m values => ResultMap.build session load depth m none values

/-- Gathering nested elements, with a bound on the depth of the calls for them. -/
abbrev gather (session : Session) (load : Load) (depth : Nat) (mappings : List ResultMapping)
    (parent : Value) : Run Frame Unit :=
  nestedElements session load (builds session load depth) mappings parent

/-- A call comes to its object, whose nested elements it gathers from a frame on. -/
structure Gathers (session : Session) (c : Call) (subject : Subject) (frame : Frame) : Prop where
  comes : ∃ f, (c.map.subject session c.target c.values).run c.frame = (.ok (some subject), f) ∧
    frame = f.mark c.map.id subject.key
  nested : subject.mappings.any ResultMapping.isNestedMap = true

end Call

/-- A call that is made for a nested element of the object of a call. -/
structure NestedCall (session : Session) (load : Load) (c : Call) where
  subject : Subject
  opened : Frame
  gathers : c.Gathers session subject opened
  before : List ResultMapping
  mapping : ResultMapping
  after : List ResultMapping
  mappings_eq : subject.mappings = before ++ mapping :: after
  child : String
  route : mapping.route = .nestedMap child
  depth : Nat
  reached : Frame
  reaches : (Call.gather session load depth before subject.object).run opened = (.ok (), reached)
  element : Element
  entered : Frame
  reads : (readElement session load mapping child subject.object).run reached =
    (.ok (some element), entered)

/-- The call itself. -/
def NestedCall.call {session : Session} {load : Load} {c : Call} (n : NestedCall session load c) :
    Call :=
  { map := n.element.map, values := n.element.values, frame := n.entered }

namespace Call

variable {session : Session} {load : Load} {c d : Call} {f : Frame}

/-- The second call is made by the first. -/
def Makes (session : Session) (load : Load) (c d : Call) : Prop :=
  ∃ n : NestedCall session load c, n.call = d

/-- The frames that a call goes through. -/
inductive Moment (session : Session) (load : Load) : Call → Frame → Prop
  | entered (c : Call) : Moment session load c c.frame
  | gathering {c : Call} {subject : Subject} {opened : Frame} (depth : Nat)
      (before after : List ResultMapping) (gathers : c.Gathers session subject opened)
      (mappings_eq : subject.mappings = before ++ after) :
      Moment session load c ((gather session load depth before subject.object).run opened).2
  | nested {c d : Call} {f : Frame} (makes : Makes session load c d)
      (moment : Moment session load d f) : Moment session load c f
  | left (c : Call) (depth : Nat) : Moment session load c (c.run session load depth).2

/-! ## Marks -/

/-- A call leaves the row and the marks as it found them, however it ends. -/
theorem run_steady (session : Session) (load : Load) (depth : Nat) (c : Call) :
    c.frame.Steady (c.run session load depth).2 :=
  (OnRow.build (fun _ _ _ => bounded_true _) depth c.map c.target c.values c.frame trivial).2.1

theorem gather_steady (session : Session) (load : Load) (depth : Nat)
    (mappings : List ResultMapping) (parent : Value) (f : Frame) :
    f.Steady ((gather session load depth mappings parent).run f).2 :=
  (OnRow.nestedElements (fun _ _ _ => bounded_true _)
    (fun m values => OnRow.build (fun _ _ _ => bounded_true _) depth m none values) mappings parent f trivial).2.1

theorem subject_steady (session : Session) (c : Call) :
    c.frame.Steady ((c.map.subject session c.target c.values).run c.frame).2 :=
  (OnRow.subject (x := True) c.map c.target c.values c.frame trivial).2.1

theorem readElement_steady (session : Session) (load : Load) (mapping : ResultMapping)
    (child : String) (parent : Value) (f : Frame) :
    f.Steady ((readElement session load mapping child parent).run f).2 :=
  (OnRow.readElement (x := True) (fun _ _ _ => bounded_true _) mapping child parent f trivial).2.1

/-- The object of a call and what it is known by. -/
theorem subject_eq {c : Call} {subject : Subject} {f : Frame}
    (h : (c.map.subject session c.target c.values).run c.frame = (.ok (some subject), f)) :
    subject.mappings = c.frame.mappings c.map ∧
      subject.key = c.map.uniqueKey c.frame.world.store (c.frame.mappings c.map) c.values ∧
      subject.key.any (c.frame.request.isAssembling c.map.id) = false := by
  unfold ResultMap.subject at h
  obtain ⟨mappings, f₁, h₁, h⟩ := run_bind_eq_ok.1 h
  obtain ⟨key, f₂, h₂, h⟩ := run_bind_eq_ok.1 h
  obtain ⟨request, f₃, h₃, h⟩ := run_bind_eq_ok.1 h
  cases h₁; cases h₂; cases h₃
  split at h
  · cases h
  · rename_i hno
    split at h
    · cases h
      exact ⟨rfl, rfl, by simpa using hno⟩
    · obtain ⟨object, f₄, h₄, h⟩ := run_bind_eq_ok.1 h
      cases h
      exact ⟨rfl, rfl, by simpa using hno⟩

theorem marks_mark (f : Frame) (id : String) (key : Option String) :
    (f.mark id key).request.assembling =
      (key.map fun key => (id, key)).toList ++ f.request.assembling := by
  cases key <;> rfl

theorem row_mark (f : Frame) (id : String) (key : Option String) :
    (f.mark id key).request.row = f.request.row := by
  cases key <;> rfl

/-- While nested elements are gathered the marks are those from before with the object's own. -/
theorem Gathers.marks {subject : Subject} (h : c.Gathers session subject f) :
    f.request.assembling =
      (subject.key.map fun key => (c.map.id, key)).toList ++ c.frame.request.assembling := by
  obtain ⟨⟨g, hg, rfl⟩, -⟩ := h
  have hs := subject_steady session c
  rw [hg] at hs
  rw [marks_mark, hs.marks]

theorem Gathers.row {subject : Subject} (h : c.Gathers session subject f) :
    f.request.row = c.frame.request.row := by
  obtain ⟨⟨g, hg, rfl⟩, -⟩ := h
  have hs := subject_steady session c
  rw [hg] at hs
  rw [row_mark, hs.row]

theorem Gathers.mappings {subject : Subject} (h : c.Gathers session subject f) :
    f.request.mappings = c.frame.request.mappings := by
  obtain ⟨⟨g, hg, rfl⟩, -⟩ := h
  have hs := subject_steady session c
  rw [hg] at hs
  have hmark : (g.mark c.map.id subject.key).request.mappings = g.request.mappings := by
    cases subject.key <;> rfl
  rw [hmark, hs.mappings]

theorem Gathers.nodup {subject : Subject} (h : c.Gathers session subject f)
    (hn : c.frame.request.assembling.Nodup) : f.request.assembling.Nodup := by
  obtain ⟨g, hg, -⟩ := h.comes
  obtain ⟨-, -, hfresh⟩ := subject_eq hg
  rw [h.marks]
  cases hk : subject.key with
  | none => exact hn
  | some key =>
    rw [hk] at hfresh
    refine List.nodup_cons.2 ⟨fun hmem => ?_, hn⟩
    have : c.frame.request.isAssembling c.map.id key = true := List.contains_iff_mem.2 hmem
    exact absurd (hfresh.symm.trans this) (by decide)

end Call

namespace NestedCall

variable {session : Session} {load : Load} {c : Call}

/-- When a nested call is entered the marks are those from before with that of the object. -/
theorem marks (n : NestedCall session load c) :
    n.entered.request.assembling =
      (n.subject.key.map fun key => (c.map.id, key)).toList ++ c.frame.request.assembling := by
  have hg := Call.gather_steady session load n.depth n.before n.subject.object n.opened
  have hr := Call.readElement_steady session load n.mapping n.child n.subject.object n.reached
  rw [n.reaches] at hg
  rw [n.reads] at hr
  rw [← n.gathers.marks, hr.marks, hg.marks]

theorem row (n : NestedCall session load c) :
    n.entered.request.row = c.frame.request.row := by
  have hg := Call.gather_steady session load n.depth n.before n.subject.object n.opened
  have hr := Call.readElement_steady session load n.mapping n.child n.subject.object n.reached
  rw [n.reaches] at hg
  rw [n.reads] at hr
  rw [← n.gathers.row, hr.row, hg.row]

theorem mappings (n : NestedCall session load c) :
    n.entered.request.mappings = c.frame.request.mappings := by
  have hg := Call.gather_steady session load n.depth n.before n.subject.object n.opened
  have hr := Call.readElement_steady session load n.mapping n.child n.subject.object n.reached
  rw [n.reaches] at hg
  rw [n.reads] at hr
  rw [← n.gathers.mappings, hr.mappings, hg.mappings]

theorem nodup (n : NestedCall session load c) (hn : c.frame.request.assembling.Nodup) :
    n.entered.request.assembling.Nodup := by
  rw [n.marks, ← n.gathers.marks]
  exact n.gathers.nodup hn

end NestedCall

namespace Call

variable {session : Session} {load : Load} {c : Call} {f : Frame}

/-- At every moment of a call the marks are pairwise distinct, if they are when it is entered. -/
theorem Moment.nodup (h : Moment session load c f) :
    c.frame.request.assembling.Nodup → f.request.assembling.Nodup := by
  induction h with
  | entered c => exact id
  | gathering depth before after hg _ =>
    intro hn
    rw [(gather_steady session load depth before _ _).marks]
    exact hg.nodup hn
  | nested hm _ ih =>
    intro hn
    obtain ⟨n, rfl⟩ := hm
    exact ih (n.nodup hn)
  | left c depth =>
    intro hn
    rw [(run_steady session load depth c).marks]
    exact hn

end Call

end RowMapper
