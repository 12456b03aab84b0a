/-
The components that the search gives. A node that is left with its own number completes its
component (`Following.mem_component_iff`); so a search from a node keeps the invariant
(`visit_spec`), and the search on the whole graph, which always comes to an end within its depth
bound, gives the cyclic components, each once (`components?_spec`).
-/
import RowMapper.Proofs.Graph.Visit

namespace RowMapper.Graph

open Relation

variable {edges : Edges} {s t u : Search} {node child : Nat}

namespace Search

/-! ## The component of a node -/

/-- An edge of the node that is left was followed. -/
theorem edge_followed {x y : Nat} (he : Edge edges x y) : x ≠ node ∨ y ∈ successors edges node := by
  by_cases hx : x = node
  · exact .inr (hx ▸ he)
  · exact .inl hx

/-- Where no lesser number than its own is noted for a node whose edges are followed, all paths from
it lead to nodes that were met, and to none that was open before. -/
theorem Following.met_of_reach (hs : s.Valid edges) (hm : ¬ s.Met node)
    (h : Following edges s node (successors edges node) t) (hlow : t.lowOf node = s.next) {z : Nat}
    (hr : Reach edges node z) : t.Met z ∧ (s.Met z → s.Closed z) := by
  induction hr with
  | refl => exact ⟨h.met, fun hs' => absurd hs' hm⟩
  | @tail y z _ he ih =>
    by_cases hy : s.Met y
    · have hz := hs.closed y z (ih.2 hy) he
      exact ⟨h.extends_.met hz.1, fun _ => hz⟩
    · refine ⟨h.onward y z ih.1 hy he (edge_followed he), fun hz => ⟨hz, fun hst => ?_⟩⟩
      obtain ⟨k, hk⟩ := met_iff.1 hz
      have hle := h.low_least y z k ih.1 hy he (edge_followed he) hst hk
      have hlt := hs.number_lt z k hk
      omega

/-- The nodes on the stack down to such a node are its component. -/
theorem Following.mem_component_iff (hs : s.Valid edges) (hm : ¬ s.Met node)
    (h : Following edges s node (successors edges node) t) (hlow : t.lowOf node = s.next)
    {new : List Nat} (hst : t.stack = new ++ node :: s.stack) (hnew : ∀ x ∈ new, ¬ s.Met x) (z : Nat) :
    z ∈ new ++ [node] ↔ Reach edges node z ∧ Reach edges z node := by
  have hnodest : node ∈ t.stack := by rw [hst]; simp
  constructor
  · intro hz
    have hzst : z ∈ t.stack := by
      rw [hst, List.append_cons]
      exact List.mem_append_left _ hz
    have hzs : ¬ s.Met z := by
      rcases List.mem_append.1 hz with hz | hz
      · exact hnew z hz
      · rw [List.mem_singleton.1 hz]; exact hm
    exact ⟨h.reached z (h.valid.met z hzst) hzs, h.back z hzst⟩
  · rintro ⟨hr, hr'⟩
    obtain ⟨hmet, hold⟩ := h.met_of_reach hs hm hlow hr
    have hzs : ¬ s.Met z := fun hz => hm (hs.closed_of_reach (hold hz) hr').1
    have hzst : z ∈ t.stack := by
      by_contra hno
      exact (h.valid.closed_of_reach ⟨hmet, hno⟩ hr').2 hnodest
    rw [hst, List.append_cons, List.mem_append] at hzst
    exact hzst.resolve_right fun hz => hzs (hs.met z hz)

/-- A component holds a cycle when it has a second node or an edge from its node to itself. -/
theorem isCyclic_iff {new : List Nat} (hn : node ∉ new)
    (hmem : ∀ z, z ∈ new ++ [node] ↔ Reach edges node z ∧ Reach edges z node) :
    (1 < (new ++ [node]).length || (successors edges node).contains node) = true ↔
      TransGen (Edge edges) node node := by
  rw [Bool.or_eq_true, decide_eq_true_eq, List.contains_iff_mem]
  constructor
  · rintro (hlen | he)
    · obtain ⟨x, hx⟩ := List.exists_mem_of_length_pos (l := new) (by simpa using hlen)
      have hxn : x ≠ node := fun e => hn (e ▸ hx)
      obtain ⟨h1, h2⟩ := (hmem x).1 (List.mem_append_left _ hx)
      rcases reflTransGen_iff_eq_or_transGen.1 h1 with e | h1
      · exact absurd e hxn
      · exact h1.trans_left h2
    · exact .single he
  · intro hc
    obtain ⟨y, he, hr⟩ := TransGen.head'_iff.1 hc
    by_cases hy : y = node
    · exact .inr (hy ▸ he)
    · left
      have hym : y ∈ new := by
        have := (hmem y).2 ⟨.single he, hr⟩
        rw [List.mem_append, List.mem_singleton] at this
        exact this.resolve_right hy
      have := List.length_pos_of_mem hym
      rw [List.length_append, List.length_singleton]
      omega

/-- Two lists of the nodes of a cyclic component are the same. -/
theorem cyclicComponent_unique {a b : List Nat} (ha : CyclicComponent edges a)
    (hb : CyclicComponent edges b) {z : Nat} (hza : z ∈ a) (hzb : z ∈ b) : a = b :=
  ha.ascending.eq_of_mem_iff hb.ascending fun w => by rw [ha.mem_iff hza, hb.mem_iff hzb]

/-! ## Closing a component -/

section Close

variable {members rest : List Nat} {isCyclic : Bool}

@[simp] theorem number?_close (v : Nat) : (t.close members rest isCyclic).number? v = t.number? v :=
  rfl

@[simp] theorem lowOf_close (v : Nat) : (t.close members rest isCyclic).lowOf v = t.lowOf v := rfl

@[simp] theorem met_close (v : Nat) : (t.close members rest isCyclic).Met v ↔ t.Met v := Iff.rfl

@[simp] theorem stack_close : (t.close members rest isCyclic).stack = rest := rfl

@[simp] theorem next_close : (t.close members rest isCyclic).next = t.next := rfl

theorem isOpen_close (v : Nat) :
    (t.close members rest isCyclic).isOpen v = (!members.contains v && t.isOpen v) :=
  getD_foldl_unmark members t.marks v

theorem mem_cyclic_close (c : List Nat) :
    c ∈ (t.close members rest isCyclic).cyclic ↔
      c ∈ t.cyclic ∨ isCyclic = true ∧ c = ascending members := by
  cases isCyclic <;> simp [Search.close]

variable (h : t.Valid edges) (hst : t.stack = members ++ rest)

include h hst

theorem closed_close (v : Nat) :
    (t.close members rest isCyclic).Closed v ↔ t.Closed v ∨ v ∈ members := by
  have hdisj := (List.nodup_append.1 (hst ▸ h.nodup)).2.2
  unfold Closed
  rw [met_close, stack_close, hst, List.mem_append, not_or]
  constructor
  · rintro ⟨hv, hvr⟩
    by_cases hvm : v ∈ members
    · exact .inr hvm
    · exact .inl ⟨hv, hvm, hvr⟩
  · rintro (⟨hv, -, hvr⟩ | hv)
    · exact ⟨hv, hvr⟩
    · refine ⟨h.met v ?_, fun hvr => hdisj v hv v hvr rfl⟩
      rw [hst]
      exact List.mem_append_left _ hv

/-- Closing the component of a node keeps the invariant, if no edge leads from it to what is left on
the stack. -/
theorem close_valid (hmem : ∀ z, z ∈ members ↔ Reach edges node z ∧ Reach edges z node)
    (hcyc : isCyclic = true ↔ TransGen (Edge edges) node node)
    (hedge : ∀ v w, v ∈ members → Edge edges v w → t.Met w ∧ w ∉ rest) :
    (t.close members rest isCyclic).Valid edges := by
  have hclosed : ∀ v, (t.close members rest isCyclic).Closed v ↔ t.Closed v ∨ v ∈ members :=
    closed_close h hst
  obtain ⟨hndm, hndr, hdisj⟩ := List.nodup_append.1 (hst ▸ h.nodup)
  have hself : node ∈ members := (hmem node).2 ⟨.refl, .refl⟩
  have hcomp : isCyclic = true → CyclicComponent edges (ascending members) := fun hc =>
    ⟨pairwise_ascending hndm, node, hcyc.1 hc, fun z => mem_ascending.trans (hmem z)⟩
  refine ⟨⟨h.sized.numbers, h.sized.low, ?_⟩, fun v => ?_, hndr, fun v hv => ?_, h.number_lt,
    fun v w hv he => ?_, fun c => ?_, ?_⟩
  · exact (size_foldl_unmark members t.marks).trans h.sized.marks
  · rw [isOpen_close, Bool.and_eq_true, Bool.not_eq_true', h.isOpen, hst, List.mem_append,
      stack_close, List.contains_eq_mem, decide_eq_false_iff_not]
    exact ⟨fun hv => hv.2.resolve_left hv.1, fun hv => ⟨fun hvm => hdisj v hvm v hv rfl, .inr hv⟩⟩
  · refine h.met v ?_
    rw [hst]
    exact List.mem_append_right _ hv
  · rcases (hclosed v).1 hv with hv | hv
    · exact (hclosed w).2 (.inl (h.closed v w hv he))
    · exact hedge v w hv he
  · rw [mem_cyclic_close, h.cyclic]
    constructor
    · rintro (⟨hc, hcl⟩ | ⟨hc, rfl⟩)
      · exact ⟨hc, fun v hv => (hclosed v).2 (.inl (hcl v hv))⟩
      · exact ⟨hcomp hc, fun v hv => (hclosed v).2 (.inr (mem_ascending.1 hv))⟩
    · rintro ⟨hc, hcl⟩
      obtain ⟨z, hz, hzc⟩ := hc.component
      have hzin : z ∈ c := (hzc z).2 ⟨.refl, .refl⟩
      rcases (hclosed z).1 (hcl z hzin) with hzcl | hzm
      · exact .inl ⟨hc, fun v hv => h.closed_of_reach hzcl ((hzc v).1 hv).1⟩
      · -- a cycle through `z` gives one through `node`
        obtain ⟨h1, h2⟩ := (hmem z).1 hzm
        have hcn : isCyclic = true := hcyc.2 ((hz.trans_right h1).trans_left h2)
        exact .inr ⟨hcn, cyclicComponent_unique hc (hcomp hcn) hzin (mem_ascending.2 hzm)⟩
  · have hnotin : ascending members ∉ t.cyclic := fun hc =>
      (((h.cyclic _).1 hc).2 node (mem_ascending.2 hself)).2
        (by rw [hst]; exact List.mem_append_left _ hself)
    cases isCyclic
    · exact h.distinct
    · exact List.nodup_append.2 ⟨h.distinct, List.nodup_singleton _, fun a ha b hb hab =>
        hnotin (List.mem_singleton.1 hb ▸ hab ▸ ha)⟩

end Close

/-! ## Leaving a node -/

/-- A node that leads to an older open node stays open. -/
theorem Following.leave_open (h : Following edges s node (successors edges node) t)
    (hs : s.Valid edges) (hm : ¬ s.Met node) (hlow : some (t.lowOf node) ≠ t.number? node) :
    Visited edges s node (t.leave edges node) := by
  have hleave : t.leave edges node = t := by unfold Search.leave; rw [if_neg hlow]
  obtain ⟨y, hy, hk, hr⟩ := h.low_exact
  have hyst : y ∈ s.stack := by
    rcases List.mem_cons.1 hy with rfl | hy
    · exact absurd hk.symm hlow
    · exact hy
  obtain ⟨k, hk'⟩ := met_iff.1 (hs.met y hyst)
  have hks : s.number? y = some (t.lowOf node) := by
    rw [hk', ← hk, h.extends_.number y k hk']
  obtain ⟨new, hst, hnew⟩ := h.stack
  rw [hleave]
  refine ⟨h.valid, h.extends_, h.next_lt.le, h.met, h.reached,
    fun x y hx hx' he => h.onward x y hx hx' he (edge_followed he),
    ⟨new ++ [node], by rw [hst, List.append_cons], fun x hx => ⟨?_, y, hyst, ?_⟩⟩,
    .inr ⟨y, hyst, hks, hr⟩,
    fun x y k hx hx' he => h.low_least x y k hx hx' he (edge_followed he)⟩
  · rcases List.mem_append.1 hx with hx | hx
    · exact hnew x hx
    · rw [List.mem_singleton.1 hx]; exact hm
  · refine (h.back x ?_).trans hr
    rw [hst, List.append_cons]
    exact List.mem_append_left _ hx

/-- A node that leads to no older open node closes its component. -/
theorem Following.leave_closed (h : Following edges s node (successors edges node) t)
    (hs : s.Valid edges) (hm : ¬ s.Met node) (hlow : some (t.lowOf node) = t.number? node) :
    Visited edges s node (t.leave edges node) := by
  have hroot : t.lowOf node = s.next := Option.some.inj (hlow.trans h.number)
  obtain ⟨new, hst, hnew⟩ := h.stack
  have hmem := h.mem_component_iff hs hm hroot hst hnew
  have hst' : t.stack = (new ++ [node]) ++ s.stack := by rw [hst, List.append_cons]
  have hnn : node ∉ new := fun hc =>
    (List.nodup_append.1 (List.nodup_append.1 (hst' ▸ h.valid.nodup)).1).2.2 node hc node (by simp) rfl
  have hedge : ∀ v w, v ∈ new ++ [node] → Edge edges v w → t.Met w ∧ w ∉ s.stack := by
    intro v w hv he
    obtain ⟨hw, hold⟩ := h.met_of_reach hs hm hroot (((hmem v).1 hv).1.tail he)
    exact ⟨hw, fun hws => (hold (hs.met w hws)).2 hws⟩
  unfold Search.leave
  rw [if_pos hlow, hst, popTo_append hnn]
  refine ⟨close_valid h.valid hst' hmem (isCyclic_iff hnn hmem) hedge,
    ⟨h.extends_.number, h.extends_.fresh, h.extends_.low⟩, h.next_lt.le, h.met, h.reached,
    fun x y hx hx' he => h.onward x y hx hx' he (edge_followed he), ⟨[], rfl, by simp⟩,
    .inl hroot.ge, fun x y k hx hx' he => h.low_least x y k hx hx' he (edge_followed he)⟩

theorem Following.leave (h : Following edges s node (successors edges node) t)
    (hs : s.Valid edges) (hm : ¬ s.Met node) : Visited edges s node (t.leave edges node) := by
  by_cases hlow : some (t.lowOf node) = t.number? node
  · exact h.leave_closed hs hm hlow
  · exact h.leave_open hs hm hlow

/-! ## The search -/

/-- Following a list of edges of a node, where every search from a node that was not met comes to
what `Visited` says. -/
theorem follow_all {visit : Search → Nat → Option Search} (hs : s.Valid edges) (hm : ¬ s.Met node)
    {bound : Nat}
    (hvisit : ∀ t child, t.Valid edges → ¬ t.Met child → child < edges.length →
      (∀ x ∈ t.stack, Reach edges x child) → t.unmet edges ≤ bound →
      ∃ u, visit t child = some u ∧ Visited edges t child u)
    (hr : InRange edges) :
    ∀ (rest done : List Nat) (t : Search), Following edges s node done t →
      (∀ child ∈ rest, Edge edges node child) → t.unmet edges ≤ bound →
      ∃ u, rest.foldlM (follow visit node) t = some u ∧ Following edges s node (done ++ rest) u
  | [], done, t, h, _, _ => ⟨t, rfl, by rwa [List.append_nil]⟩
  | child :: rest, done, t, h, he, hb => by
    have hec := he child (List.mem_cons_self ..)
    have hstep : ∃ u, follow visit node t child = some u ∧
        Following edges s node (done ++ [child]) u ∧ ∀ v, t.Met v → u.Met v := by
      unfold follow
      cases hn : t.number? child with
      | some number =>
        refine ⟨_, rfl, h.follow_met hs hm hec hn, fun v hv => ?_⟩
        split <;> exact hv
      | none =>
        have hc := number?_eq_none_iff.1 hn
        obtain ⟨u, hu, hv⟩ := hvisit t child h.valid hc (hr.lt_of_edge hec)
          (fun x hx => (h.back x hx).tail hec) hb
        refine ⟨_, by rw [hu]; rfl, h.follow_visited hs hm hec hc hv, fun v hv' => ?_⟩
        exact hv.extends_.met hv'
    obtain ⟨u, hu, hf, hmono⟩ := hstep
    obtain ⟨w, hw, hfw⟩ := follow_all hs hm hvisit hr rest (done ++ [child]) u hf
      (fun c hc => he c (List.mem_cons_of_mem _ hc)) ((unmet_le hmono).trans hb)
    exact ⟨w, by rw [List.foldlM_cons, hu]; exact hw, by simpa using hfw⟩

/-- A search from a node that was not met succeeds if its depth bound is at least the number of such
nodes, and comes to what `Visited` says. -/
theorem visit_spec (hr : InRange edges) :
    ∀ (depth : Nat) (s : Search) (node : Nat), s.Valid edges → ¬ s.Met node → node < edges.length →
      (∀ x ∈ s.stack, Reach edges x node) → s.unmet edges ≤ depth →
      ∃ t, visit edges depth s node = some t ∧ Visited edges s node t
  | 0, s, node, hs, hm, hn, _, hd => by
    have := unmet_enter_lt hs.sized hn hm
    omega
  | depth + 1, s, node, hs, hm, hn, hback, hd => by
    have hlt := unmet_enter_lt hs.sized hn hm
    obtain ⟨t, ht, hf⟩ := follow_all hs hm (visit_spec hr depth) hr (successors edges node) []
      (s.enter node) (enter_following hs hn hm hback) (fun _ hc => hc) (by omega)
    exact ⟨t.leave edges node, by unfold visit; rw [ht]; rfl, Following.leave hf hs hm⟩

/-- Searching from every node of a list that was not met closes all of them. -/
theorem visitNew_all (hr : InRange edges) :
    ∀ (nodes : List Nat) (s : Search), (∀ node ∈ nodes, node < edges.length) → s.Valid edges →
      s.stack = [] →
      ∃ t, nodes.foldlM (visitNew edges) s = some t ∧ t.Valid edges ∧ t.stack = [] ∧
        (∀ v, s.Met v → t.Met v) ∧ ∀ node ∈ nodes, t.Met node
  | [], s, _, hs, hst => ⟨s, rfl, hs, hst, fun _ hv => hv, by simp⟩
  | node :: nodes, s, hlt, hs, hst => by
    have hstep : ∃ t, visitNew edges s node = some t ∧ t.Valid edges ∧ t.stack = [] ∧
        (∀ v, s.Met v → t.Met v) ∧ t.Met node := by
      unfold visitNew
      by_cases hm : s.Met node
      · rw [if_neg (by rw [Option.isNone_iff_eq_none, number?_eq_none_iff]; exact not_not.2 hm)]
        exact ⟨s, rfl, hs, hst, fun _ hv => hv, hm⟩
      · rw [if_pos (by rw [Option.isNone_iff_eq_none, number?_eq_none_iff]; exact hm)]
        obtain ⟨t, ht, hv⟩ := visit_spec hr edges.length s node hs hm
          (hlt node (List.mem_cons_self ..)) (by rw [hst]; simp) (unmet_le_length edges s)
        obtain ⟨new, hnew, hback⟩ := hv.stack
        refine ⟨t, ht, hv.valid, ?_, fun v => hv.extends_.met, hv.met⟩
        rw [hst] at hback
        rw [hnew, hst, List.append_nil, List.eq_nil_iff_forall_not_mem]
        intro x hx
        obtain ⟨-, y, hy, -⟩ := hback x hx
        cases hy
    obtain ⟨t, ht, hv, hst', hmono, hmet⟩ := hstep
    obtain ⟨u, hu, hvu, hstu, hmonou, hmetu⟩ := visitNew_all hr nodes t
      (fun v hv => hlt v (List.mem_cons_of_mem _ hv)) hv hst'
    refine ⟨u, by rw [List.foldlM_cons, ht]; exact hu, hvu, hstu, fun v hv => hmonou v (hmono v hv),
      fun v hv => ?_⟩
    rcases List.mem_cons.1 hv with rfl | hv
    · exact hmonou v hmet
    · exact hmetu v hv

end Search

/-- On every graph the search comes to an end, and gives the components that hold a cycle, each once
and in ascending order, and nothing else. -/
theorem components?_spec (hr : InRange edges) :
    ∃ components, components? edges = some components ∧ components.Nodup ∧
      ∀ c, c ∈ components ↔ CyclicComponent edges c := by
  obtain ⟨t, ht, hv, hst, -, hmet⟩ := Search.visitNew_all hr (List.range edges.length)
    (.start edges.length) (fun _ => List.mem_range.1) (Search.start_valid edges) rfl
  refine ⟨t.cyclic, by unfold components?; rw [ht]; rfl, hv.distinct, fun c => ?_⟩
  rw [hv.cyclic]
  refine ⟨fun h => h.1, fun h => ⟨h, fun v hvc => ⟨hmet v (List.mem_range.2 ?_), by rw [hst]; simp⟩⟩⟩
  exact hr.lt_of_cycle (h.cycle hvc)

end RowMapper.Graph
