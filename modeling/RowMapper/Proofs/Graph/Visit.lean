/-
What a search from one node comes to. It succeeds when its depth bound is at least the number of
nodes not met, it numbers exactly nodes that the node leads to, and either it leaves the stack as it
was, or all nodes that it leaves open lead to a node that was open before (`Visited`).
-/
import RowMapper.Proofs.Graph.Search

namespace RowMapper.Graph

open Relation

variable {edges : Edges} {s t u : Search} {node child : Nat}

namespace Search

/-! ## States between two steps -/

/-- The invariant of the search. -/
structure Valid (edges : Edges) (s : Search) : Prop where
  sized : Sized edges s
  isOpen : ∀ v, s.isOpen v = true ↔ v ∈ s.stack
  nodup : s.stack.Nodup
  met : ∀ v ∈ s.stack, s.Met v
  number_lt : ∀ v k, s.number? v = some k → k < s.next
  closed : ∀ v w, s.Closed v → Edge edges v w → s.Closed w
  cyclic : ∀ c, c ∈ s.cyclic ↔ CyclicComponent edges c ∧ ∀ v ∈ c, s.Closed v
  distinct : s.cyclic.Nodup

/-- The state `t` is a later one than `s`: numbers stay, new ones are greater, and nothing is noted
anew for a node that was met in `s`. -/
structure Extends (s t : Search) : Prop where
  number : ∀ v k, s.number? v = some k → t.number? v = some k
  fresh : ∀ v k, ¬ s.Met v → t.number? v = some k → s.next ≤ k
  low : ∀ v, s.Met v → t.lowOf v = s.lowOf v

theorem Extends.met (h : Extends s t) {v : Nat} (hv : s.Met v) : t.Met v := by
  obtain ⟨k, hk⟩ := met_iff.1 hv
  exact .of_number (h.number v k hk)

theorem Extends.trans (h : Extends s t) (h' : Extends t u) (hn : s.next ≤ t.next) : Extends s u := by
  refine ⟨fun v k hk => h'.number v k (h.number v k hk), fun v k hv hk => ?_, fun v hv => ?_⟩
  · by_cases hm : t.Met v
    · obtain ⟨j, hj⟩ := met_iff.1 hm
      have : j = k := Option.some.inj ((h'.number v j hj).symm.trans hk)
      exact this ▸ h.fresh v j hv hj
    · exact hn.trans (h'.fresh v k hm hk)
  · rw [h'.low v (h.met hv), h.low v hv]

/-- From a closed node all paths lead to closed nodes. -/
theorem Valid.closed_of_reach (h : Valid edges s) {v w : Nat} (hv : s.Closed v)
    (hr : Reach edges v w) : s.Closed w := by
  induction hr with
  | refl => exact hv
  | tail _ he ih => exact h.closed _ _ ih he

theorem start_valid (edges : Edges) : Valid edges (start edges.length) := by
  have hno : ∀ v, (start edges.length).number? v = none := by
    intro v
    unfold number? start
    by_cases hv : v < edges.length <;> simp [hv]
  have hm : ∀ v, ¬ (start edges.length).Met v := fun v => number?_eq_none_iff.1 (hno v)
  refine ⟨⟨by simp [start], by simp [start], by simp [start]⟩, fun v => ?_, List.nodup_nil,
    fun v hv => absurd hv List.not_mem_nil, fun v k hk => ?_, fun v w hv => absurd hv.1 (hm v),
    fun c => ?_, List.nodup_nil⟩
  · unfold Search.isOpen start
    by_cases hv : v < edges.length <;> simp [hv]
  · rw [hno] at hk; cases hk
  · refine ⟨fun hc => absurd hc List.not_mem_nil, fun ⟨hc, hcl⟩ => ?_⟩
    obtain ⟨node, -, hm'⟩ := hc.component
    exact absurd (hcl node ((hm' node).2 ⟨.refl, .refl⟩)).1 (hm node)

/-! ## Nodes not met -/

/-- The number of nodes not met. -/
def unmet (edges : Edges) (s : Search) : Nat := ((Finset.range edges.length).filter (¬ s.Met ·)).card

theorem unmet_le (h : ∀ v, s.Met v → t.Met v) : t.unmet edges ≤ s.unmet edges := by
  refine Finset.card_le_card fun v hv => ?_
  rw [Finset.mem_filter] at hv ⊢
  exact ⟨hv.1, fun hs => hv.2 (h v hs)⟩

theorem unmet_enter_lt (hs : Sized edges s) (hn : node < edges.length) (hm : ¬ s.Met node) :
    (s.enter node).unmet edges < s.unmet edges := by
  refine Finset.card_lt_card (Finset.ssubset_iff_of_subset (fun v hv => ?_) |>.2 ⟨node, ?_, ?_⟩)
  · rw [Finset.mem_filter] at hv ⊢
    exact ⟨hv.1, fun h => hv.2 ((met_enter hs hn v).2 (.inr h))⟩
  · exact Finset.mem_filter.2 ⟨Finset.mem_range.2 hn, hm⟩
  · rw [Finset.mem_filter]
    exact fun h => h.2 ((met_enter hs hn node).2 (.inl rfl))

theorem unmet_le_length (edges : Edges) (s : Search) : s.unmet edges ≤ edges.length :=
  (Finset.card_filter_le _ _).trans (by rw [Finset.card_range])

/-! ## The invariants of a visit -/

/-- What a search from `node`, which was not met in `s`, comes to. -/
structure Visited (edges : Edges) (s : Search) (node : Nat) (t : Search) : Prop where
  valid : t.Valid edges
  extends_ : s.Extends t
  next_le : s.next ≤ t.next
  met : t.Met node
  reached : ∀ x, t.Met x → ¬ s.Met x → Reach edges node x
  onward : ∀ x y, t.Met x → ¬ s.Met x → Edge edges x y → t.Met y
  /-- The nodes left open lie on the stack above the others and lead back to them. -/
  stack : ∃ new, t.stack = new ++ s.stack ∧ ∀ x ∈ new, ¬ s.Met x ∧ ∃ y ∈ s.stack, Reach edges x y
  low_exact : s.next ≤ t.lowOf node ∨
    ∃ y ∈ s.stack, s.number? y = some (t.lowOf node) ∧ Reach edges node y
  low_least : ∀ x y k, t.Met x → ¬ s.Met x → Edge edges x y → y ∈ s.stack →
    s.number? y = some k → t.lowOf node ≤ k

/-- The state of the search when `node`, which was not met in `s`, was entered and its edges to the
nodes `done` were followed. -/
structure Following (edges : Edges) (s : Search) (node : Nat) (done : List Nat) (t : Search) :
    Prop where
  valid : t.Valid edges
  extends_ : s.Extends t
  next_lt : s.next < t.next
  number : t.number? node = some s.next
  reached : ∀ x, t.Met x → ¬ s.Met x → Reach edges node x
  onward : ∀ x y, t.Met x → ¬ s.Met x → Edge edges x y → x ≠ node ∨ y ∈ done → t.Met y
  stack : ∃ new, t.stack = new ++ node :: s.stack ∧ ∀ x ∈ new, ¬ s.Met x
  back : ∀ x ∈ t.stack, Reach edges x node
  low_exact : ∃ y ∈ node :: s.stack, t.number? y = some (t.lowOf node) ∧ Reach edges node y
  low_least : ∀ x y k, t.Met x → ¬ s.Met x → Edge edges x y → x ≠ node ∨ y ∈ done →
    y ∈ s.stack → s.number? y = some k → t.lowOf node ≤ k

theorem Following.met (h : Following edges s node done t) : t.Met node := .of_number h.number

theorem Following.low_le (h : Following edges s node done t) (hs : s.Valid edges) :
    t.lowOf node ≤ s.next := by
  obtain ⟨y, hy, hk, -⟩ := h.low_exact
  rcases List.mem_cons.1 hy with rfl | hy
  · exact (Option.some.inj (hk.symm.trans h.number)).le
  · obtain ⟨k, hk'⟩ := met_iff.1 (hs.met y hy)
    have : k = t.lowOf node := Option.some.inj ((h.extends_.number y k hk').symm.trans hk)
    exact (this ▸ hs.number_lt y k hk').le

/-! ## Entering -/

theorem enter_valid (h : s.Valid edges) (hn : node < edges.length) (hm : ¬ s.Met node) :
    (s.enter node).Valid edges := by
  have hmet := met_enter h.sized hn
  have hclosed : ∀ v, (s.enter node).Closed v ↔ s.Closed v := by
    intro v
    unfold Closed
    rw [hmet, stack_enter, List.mem_cons, not_or]
    constructor
    · rintro ⟨rfl | hv, hne, hns⟩
      · exact absurd rfl hne
      · exact ⟨hv, hns⟩
    · rintro ⟨hv, hns⟩
      exact ⟨.inr hv, fun e => hm (e ▸ hv), hns⟩
  refine ⟨h.sized.enter, fun v => ?_, ?_, fun v hv => ?_, fun v k hk => ?_, fun v w hv he => ?_,
    fun c => ?_, h.distinct⟩
  · rw [isOpen_enter h.sized hn, stack_enter, List.mem_cons]
    by_cases hv : node = v
    · simp [hv]
    · rw [if_neg hv, h.isOpen v]
      exact ⟨.inr, fun h => h.resolve_left (Ne.symm hv)⟩
  · rw [stack_enter, List.nodup_cons]
    exact ⟨fun hs => hm (h.met node hs), h.nodup⟩
  · rw [stack_enter, List.mem_cons] at hv
    exact (hmet v).2 (hv.imp_right (h.met v))
  · rw [number?_enter h.sized hn] at hk
    rw [next_enter]
    by_cases hv : node = v
    · rw [if_pos hv] at hk; cases hk; omega
    · rw [if_neg hv] at hk
      have := h.number_lt v k hk
      omega
  · exact (hclosed w).2 (h.closed v w ((hclosed v).1 hv) he)
  · rw [cyclic_enter, h.cyclic]
    simp only [hclosed]

theorem enter_following (h : s.Valid edges) (hn : node < edges.length) (hm : ¬ s.Met node)
    (hback : ∀ x ∈ s.stack, Reach edges x node) : Following edges s node [] (s.enter node) := by
  have hnum := number?_enter h.sized hn
  have hfresh : ∀ x, (s.enter node).Met x → ¬ s.Met x → x = node := fun x hx hx' =>
    ((met_enter h.sized hn x).1 hx).resolve_right hx'
  have hnode : (s.enter node).number? node = some s.next := by rw [hnum, if_pos rfl]
  refine ⟨enter_valid h hn hm, ⟨fun v k hk => ?_, fun v k hv hk => ?_, fun v hv => ?_⟩, by simp,
    hnode, fun x hx hx' => ?_, fun x y hx hx' _ hd => ?_, ⟨[], rfl, by simp⟩, fun x hx => ?_,
    ⟨node, List.mem_cons_self .., ?_, .refl⟩, fun x y k hx hx' _ hd => ?_⟩
  · have hne : node ≠ v := fun e => hm (e ▸ .of_number hk)
    rw [hnum, if_neg hne, hk]
  · have : v = node := hfresh v (.of_number hk) hv
    rw [hnum, if_pos this.symm] at hk
    exact (Option.some.inj hk).le
  · have hne : node ≠ v := fun e => hm (e ▸ hv)
    rw [lowOf_enter h.sized hn, if_neg hne]
  · rw [hfresh x hx hx']
  · exact absurd (hfresh x hx hx') (hd.resolve_right (by simp))
  · rw [stack_enter, List.mem_cons] at hx
    rcases hx with rfl | hx
    · exact .refl
    · exact hback x hx
  · rw [hnode, lowOf_enter h.sized hn, if_pos rfl]
  · exact absurd (hfresh x hx hx') (hd.resolve_right (by simp))

/-! ## Following an edge -/

theorem lower_valid (h : t.Valid edges) (k : Nat) : (t.lower node k).Valid edges :=
  ⟨h.sized.lower k, h.isOpen, h.nodup, h.met, h.number_lt, h.closed, h.cyclic, h.distinct⟩

theorem Following.stack_subset {done : List Nat} (h : Following edges s node done t) :
    s.stack ⊆ t.stack := by
  obtain ⟨new, hst, -⟩ := h.stack
  rw [hst]
  exact fun x hx => List.mem_append_right _ (List.mem_cons_of_mem _ hx)

/-- An open node with a smaller number than `node` was open before it. -/
theorem Following.old_of_number_lt {done : List Nat} (hm : ¬ s.Met node)
    (h : Following edges s node done t) {y k : Nat} (hy : y ∈ t.stack) (hk : t.number? y = some k)
    (hlt : k < s.next) : y ∈ s.stack ∧ s.number? y = some k := by
  have hold : s.Met y := by
    by_contra hno
    have := h.extends_.fresh y k hno hk
    omega
  obtain ⟨j, hj⟩ := met_iff.1 hold
  have hjk : j = k := Option.some.inj ((h.extends_.number y j hj).symm.trans hk)
  obtain ⟨new, hst, hnew⟩ := h.stack
  rw [hst, List.mem_append, List.mem_cons] at hy
  rcases hy with hy | rfl | hy
  · exact absurd hold (hnew y hy)
  · exact absurd hold hm
  · exact ⟨hy, hjk ▸ hj⟩

/-- An edge to a node that was met. -/
theorem Following.follow_met {done : List Nat} (hs : s.Valid edges) (hm : ¬ s.Met node)
    (h : Following edges s node done t) (he : Edge edges node child) {number : Nat}
    (hn : t.number? child = some number) :
    Following edges s node (done ++ [child])
      (if t.isOpen child then t.lower node number else t) := by
  have hmet : t.Met child := .of_number hn
  have honward : ∀ x y, t.Met x → ¬ s.Met x → Edge edges x y → x ≠ node ∨ y ∈ done ++ [child] →
      t.Met y := by
    intro x y hx hx' hxy hd
    rw [List.mem_append, List.mem_singleton, ← or_assoc] at hd
    rcases hd with hd | rfl
    · exact h.onward x y hx hx' hxy hd
    · exact hmet
  by_cases ho : t.isOpen child
  · rw [if_pos ho]
    have hlow := lowOf_lower h.valid.sized (h.valid.sized.lt_of_met h.met) number
    have hself : (t.lower node number).lowOf node = min (t.lowOf node) number := by
      rw [hlow, if_pos rfl]
    refine ⟨lower_valid h.valid number, ⟨h.extends_.number, h.extends_.fresh, fun v hv => ?_⟩,
      h.next_lt, h.number, h.reached, honward, h.stack, h.back, ?_, fun x y j hx hx' hxy hd hy hj => ?_⟩
    · have hne : node ≠ v := fun e => hm (e ▸ hv)
      rw [hlow, if_neg hne, h.extends_.low v hv]
    · rw [hself]
      by_cases hk : number < t.lowOf node
      · obtain ⟨hold, hnum⟩ := h.old_of_number_lt hm ((h.valid.isOpen child).1 ho) hn
          (hk.trans_le (h.low_le hs))
        rw [min_eq_right hk.le]
        exact ⟨child, List.mem_cons_of_mem _ hold, hn, .single he⟩
      · rw [min_eq_left (by omega)]
        exact h.low_exact
    · rw [hself]
      rw [List.mem_append, List.mem_singleton, ← or_assoc] at hd
      rcases hd with hd | rfl
      · exact (min_le_left _ _).trans (h.low_least x y j hx hx' hxy hd hy hj)
      · have hnj : number = j := Option.some.inj (hn.symm.trans (h.extends_.number y j hj))
        exact hnj ▸ min_le_right _ _
  · rw [if_neg ho]
    have hc : child ∉ s.stack := fun hc => ho ((h.valid.isOpen child).2 (h.stack_subset hc))
    refine ⟨h.valid, h.extends_, h.next_lt, h.number, h.reached, honward, h.stack, h.back,
      h.low_exact, fun x y j hx hx' hxy hd hy hj => ?_⟩
    rw [List.mem_append, List.mem_singleton, ← or_assoc] at hd
    exact h.low_least x y j hx hx' hxy (hd.resolve_right fun e => hc (e ▸ hy)) hy hj

/-- An edge to a node that was not met, from which the search goes on. -/
theorem Following.follow_visited {done : List Nat} (hs : s.Valid edges) (hm : ¬ s.Met node)
    (h : Following edges s node done t) (he : Edge edges node child) (hc : ¬ t.Met child)
    (hv : Visited edges t child u) :
    Following edges s node (done ++ [child]) (u.lower node (u.lowOf child)) := by
  have hext := h.extends_.trans hv.extends_ h.next_lt.le
  have hlow := lowOf_lower hv.valid.sized (h.valid.sized.lt_of_met h.met) (u.lowOf child)
  have hself : (u.lower node (u.lowOf child)).lowOf node = min (t.lowOf node) (u.lowOf child) := by
    rw [hlow, if_pos rfl, hv.extends_.low node h.met]
  refine ⟨lower_valid hv.valid _, ⟨hext.number, hext.fresh, fun v hv' => ?_⟩,
    h.next_lt.trans_le hv.next_le, hv.extends_.number node _ h.number, fun x hx hx' => ?_,
    fun x y hx hx' hxy hd => ?_, ?_, fun x hx => ?_, ?_, fun x y j hx hx' hxy hd hy hj => ?_⟩
  · have hne : node ≠ v := fun e => hm (e ▸ hv')
    rw [hlow, if_neg hne, hext.low v hv']
  · by_cases ht : t.Met x
    · exact h.reached x ht hx'
    · exact (hv.reached x hx ht).head he
  · rw [List.mem_append, List.mem_singleton, ← or_assoc] at hd
    by_cases ht : t.Met x
    · rcases hd with hd | rfl
      · exact hv.extends_.met (h.onward x y ht hx' hxy hd)
      · exact hv.met
    · exact hv.onward x y hx ht hxy
  · obtain ⟨new, hst, hnew⟩ := h.stack
    obtain ⟨new', hst', hnew'⟩ := hv.stack
    refine ⟨new' ++ new, by rw [stack_lower, hst', hst, List.append_assoc], fun x hx => ?_⟩
    rcases List.mem_append.1 hx with hx | hx
    · exact fun hsx => (hnew' x hx).1 (h.extends_.met hsx)
    · exact hnew x hx
  · obtain ⟨new, hst, hnew⟩ := hv.stack
    rw [stack_lower, hst, List.mem_append] at hx
    rcases hx with hx | hx
    · obtain ⟨-, y, hy, hr⟩ := hnew x hx
      exact hr.trans (h.back y hy)
    · exact h.back x hx
  · rw [hself]
    by_cases hk : u.lowOf child < t.lowOf node
    · rw [min_eq_right hk.le]
      have hle := h.low_le hs
      have hlt := h.next_lt
      rcases hv.low_exact with hge | ⟨y, hy, hn, hr⟩
      · omega
      · obtain ⟨hold, -⟩ := h.old_of_number_lt hm hy hn (hk.trans_le hle)
        exact ⟨y, List.mem_cons_of_mem _ hold, hv.extends_.number y _ hn, hr.head he⟩
    · rw [min_eq_left (by omega)]
      obtain ⟨y, hy, hn, hr⟩ := h.low_exact
      exact ⟨y, hy, hv.extends_.number y _ hn, hr⟩
  · rw [hself]
    have hnum := h.extends_.number y j hj
    rw [List.mem_append, List.mem_singleton, ← or_assoc] at hd
    by_cases ht : t.Met x
    · have hyc : y ≠ child := fun e => hc (e ▸ .of_number hnum)
      exact (min_le_left _ _).trans (h.low_least x y j ht hx' hxy (hd.resolve_right hyc) hy hj)
    · exact (min_le_right _ _).trans (hv.low_least x y j hx ht hxy (h.stack_subset hy) hnum)

end Search

end RowMapper.Graph
