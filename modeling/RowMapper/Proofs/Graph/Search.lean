/-
What a state of the search on a graph means, and what its steps keep. Between two steps every open
node is on the stack once, an edge from a closed node leads to a closed node, and the components
kept are exactly the cyclic ones whose nodes are closed (`Search.Valid`).

While the edges of one node are followed, all open nodes lead to it, it leads to all nodes met since
it was entered, and the least number noted for it is that of an open node that it leads to and is at
most that of any older open node which an edge from those nodes leads to (`Following`).
-/
import RowMapper.Catalog.Cycle
import Mathlib.Data.Finset.Card
import Mathlib.Data.List.Sort
import Mathlib.Logic.Relation

namespace RowMapper.Graph

open Relation

variable {edges : Edges} {s t u : Search} {node child : Nat}

/-- An edge leads from `a` to `b`. -/
def Edge (edges : Edges) (a b : Nat) : Prop := b ∈ successors edges a

/-- A path of any length leads from `a` to `b`. -/
abbrev Reach (edges : Edges) : Nat → Nat → Prop := ReflTransGen (Edge edges)

/-- Every edge leads to a node of the graph. -/
def InRange (edges : Edges) : Prop := ∀ targets ∈ edges, ∀ node ∈ targets, node < edges.length

instance (edges : Edges) : Decidable (InRange edges) :=
  inferInstanceAs (Decidable (∀ targets ∈ edges, ∀ node ∈ targets, node < edges.length))

/-- The nodes of a component that holds a cycle, in ascending order. -/
structure CyclicComponent (edges : Edges) (nodes : List Nat) : Prop where
  ascending : nodes.Pairwise (· < ·)
  component : ∃ node, TransGen (Edge edges) node node ∧
    ∀ other, other ∈ nodes ↔ Reach edges node other ∧ Reach edges other node

theorem InRange.lt_of_edge (h : InRange edges) {a b : Nat} (he : Edge edges a b) :
    b < edges.length := by
  unfold Edge successors at he
  cases ha : edges[a]? with
  | none => rw [ha] at he; cases he
  | some targets => rw [ha] at he; exact h targets (List.mem_of_getElem? ha) b he

/-- On a cyclic component its list is the same from each of its nodes. -/
theorem CyclicComponent.mem_iff {nodes : List Nat} (h : CyclicComponent edges nodes) {a : Nat}
    (ha : a ∈ nodes) (b : Nat) : b ∈ nodes ↔ Reach edges a b ∧ Reach edges b a := by
  obtain ⟨node, -, hc⟩ := h.component
  obtain ⟨h1, h2⟩ := (hc a).1 ha
  rw [hc]
  exact ⟨fun hb => ⟨h2.trans hb.1, hb.2.trans h1⟩, fun hb => ⟨h1.trans hb.1, hb.2.trans h2⟩⟩

/-- Each node of a cyclic component lies on a cycle. -/
theorem CyclicComponent.cycle {nodes : List Nat} (h : CyclicComponent edges nodes) {a : Nat}
    (ha : a ∈ nodes) : TransGen (Edge edges) a a := by
  obtain ⟨node, hc, hmem⟩ := h.component
  obtain ⟨h1, h2⟩ := (hmem a).1 ha
  exact (hc.trans_right h2).trans_left h1

theorem InRange.lt_of_cycle (h : InRange edges) {a : Nat} (hc : TransGen (Edge edges) a a) :
    a < edges.length := by
  obtain ⟨_, -, he⟩ := TransGen.tail'_iff.1 hc
  exact h.lt_of_edge he

/-- Each node on a cycle is in a cyclic component. -/
theorem exists_component (h : InRange edges) {a : Nat} (hc : TransGen (Edge edges) a a) :
    ∃ nodes, CyclicComponent edges nodes ∧ a ∈ nodes := by
  classical
  let nodes := (List.range edges.length).filter fun b => Reach edges a b ∧ Reach edges b a
  have hmem : ∀ b, b ∈ nodes ↔ Reach edges a b ∧ Reach edges b a := by
    intro b
    rw [List.mem_filter, List.mem_range, decide_eq_true_eq]
    refine ⟨fun hb => hb.2, fun hb => ⟨h.lt_of_cycle (a := b) ?_, hb⟩⟩
    exact (hc.trans_right hb.2).trans_left hb.1
  exact ⟨nodes, ⟨(List.pairwise_lt_range).filter _, a, hc, hmem⟩, (hmem a).2 ⟨.refl, .refl⟩⟩

/-! ## Ascending lists -/

theorem insertNode_eq (node : Nat) (nodes : List Nat) :
    insertNode node nodes = nodes.orderedInsert (· ≤ ·) node := by
  induction nodes with
  | nil => rfl
  | cons other rest ih => simp only [insertNode, List.orderedInsert, ih]

theorem ascending_eq (nodes : List Nat) : ascending nodes = nodes.insertionSort (· ≤ ·) := by
  induction nodes with
  | nil => rfl
  | cons node rest ih =>
    have h : ascending (node :: rest) = insertNode node (ascending rest) := rfl
    rw [h, insertNode_eq, ih, List.insertionSort_cons]

theorem mem_ascending {nodes : List Nat} {node : Nat} : node ∈ ascending nodes ↔ node ∈ nodes := by
  rw [ascending_eq]; exact (List.perm_insertionSort _ nodes).mem_iff

theorem pairwise_ascending {nodes : List Nat} (h : nodes.Nodup) :
    (ascending nodes).Pairwise (· < ·) := by
  rw [ascending_eq]
  have hs := List.pairwise_insertionSort (· ≤ ·) nodes
  have hn := (List.perm_insertionSort (· ≤ ·) nodes).nodup_iff.2 h
  exact hs.imp₂ (fun a b hab hne => lt_of_le_of_ne hab hne) hn

/-! ## Fields of a state -/

namespace Search

theorem getD_setIfInBounds {α : Type} (xs : Array α) (i j : Nat) (a d : α) (hi : i < xs.size) :
    (xs.setIfInBounds i a)[j]?.getD d = if i = j then a else xs[j]?.getD d := by
  rw [Array.getElem?_setIfInBounds]
  by_cases h : i = j
  · subst h; simp [hi]
  · simp [h]

/-- All tables of a state are for the nodes of the graph. -/
structure Sized (edges : Edges) (s : Search) : Prop where
  numbers : s.numbers.size = edges.length
  low : s.low.size = edges.length
  marks : s.marks.size = edges.length

/-- A node was met when it has a number. -/
def Met (s : Search) (node : Nat) : Prop := (s.number? node).isSome

/-- A node is closed when its component is complete. -/
def Closed (s : Search) (node : Nat) : Prop := s.Met node ∧ node ∉ s.stack

instance (s : Search) : DecidablePred s.Met :=
  fun node => inferInstanceAs (Decidable ((s.number? node).isSome = true))

theorem met_iff : s.Met node ↔ ∃ k, s.number? node = some k := Option.isSome_iff_exists

theorem Met.of_number {k : Nat} (h : s.number? node = some k) : s.Met node := met_iff.2 ⟨k, h⟩

theorem number?_eq_none_iff : s.number? node = none ↔ ¬ s.Met node := by
  unfold Met; cases s.number? node <;> simp

theorem Sized.lt_of_met (h : Sized edges s) (hm : s.Met node) : node < edges.length := by
  by_contra hn
  obtain ⟨k, hk⟩ := met_iff.1 hm
  have : s.numbers[node]? = none := Array.getElem?_eq_none (by rw [h.numbers]; omega)
  unfold number? at hk
  rw [this] at hk
  cases hk

theorem Sized.enter (h : Sized edges s) : Sized edges (s.enter node) := by
  constructor <;> simp [Search.enter, h.numbers, h.low, h.marks]

theorem Sized.lower (h : Sized edges s) (k : Nat) : Sized edges (s.lower node k) :=
  ⟨h.numbers, by simp [Search.lower, h.low], h.marks⟩

section Enter

variable (h : Sized edges s) (hn : node < edges.length)

include h hn

theorem number?_enter (v : Nat) :
    (s.enter node).number? v = if node = v then some s.next else s.number? v :=
  getD_setIfInBounds _ _ _ _ _ (by rw [h.numbers]; exact hn)

theorem lowOf_enter (v : Nat) :
    (s.enter node).lowOf v = if node = v then s.next else s.lowOf v :=
  getD_setIfInBounds _ _ _ _ _ (by rw [h.low]; exact hn)

theorem isOpen_enter (v : Nat) :
    (s.enter node).isOpen v = if node = v then true else s.isOpen v :=
  getD_setIfInBounds _ _ _ _ _ (by rw [h.marks]; exact hn)

theorem lowOf_lower (k v : Nat) :
    (s.lower node k).lowOf v = if node = v then min (s.lowOf node) k else s.lowOf v :=
  getD_setIfInBounds _ _ _ _ _ (by rw [h.low]; exact hn)

theorem met_enter (v : Nat) : (s.enter node).Met v ↔ v = node ∨ s.Met v := by
  unfold Met
  rw [number?_enter h hn]
  by_cases hv : node = v
  · simp [hv]
  · simp [hv, Ne.symm hv]

end Enter

@[simp] theorem number?_lower (k v : Nat) : (s.lower node k).number? v = s.number? v := rfl

@[simp] theorem isOpen_lower (k v : Nat) : (s.lower node k).isOpen v = s.isOpen v := rfl

@[simp] theorem stack_lower (k : Nat) : (s.lower node k).stack = s.stack := rfl

@[simp] theorem next_lower (k : Nat) : (s.lower node k).next = s.next := rfl

@[simp] theorem cyclic_lower (k : Nat) : (s.lower node k).cyclic = s.cyclic := rfl

@[simp] theorem met_lower (k v : Nat) : (s.lower node k).Met v ↔ s.Met v := Iff.rfl

@[simp] theorem stack_enter : (s.enter node).stack = node :: s.stack := rfl

@[simp] theorem next_enter : (s.enter node).next = s.next + 1 := rfl

@[simp] theorem cyclic_enter : (s.enter node).cyclic = s.cyclic := rfl

/-- The marks of the nodes of a list are taken away. -/
theorem getD_foldl_unmark (members : List Nat) (marks : Array Bool) (v : Nat) :
    (members.foldl (fun marks member => marks.setIfInBounds member false) marks)[v]?.getD false =
      (!members.contains v && marks[v]?.getD false) := by
  induction members generalizing marks with
  | nil => simp
  | cons member rest ih =>
    rw [List.foldl_cons, ih, Array.getElem?_setIfInBounds]
    by_cases h : member = v
    · subst h
      by_cases hl : member < marks.size <;> simp [hl]
    · simp [h, Ne.symm h]

theorem size_foldl_unmark (members : List Nat) (marks : Array Bool) :
    (members.foldl (fun marks member => marks.setIfInBounds member false) marks).size =
      marks.size := by
  induction members generalizing marks with
  | nil => rfl
  | cons member rest ih => rw [List.foldl_cons, ih, Array.size_setIfInBounds]

theorem popTo_append {node : Nat} {new rest : List Nat} (h : node ∉ new) :
    popTo node (new ++ node :: rest) = (new ++ [node], rest) := by
  induction new with
  | nil => simp [popTo]
  | cons member new ih =>
    rw [List.mem_cons, not_or] at h
    simp only [List.cons_append, popTo, if_neg (Ne.symm h.1), ih h.2]

end Search

end RowMapper.Graph
