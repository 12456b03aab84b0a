/-
Comparing while objects are locked. The right one of two objects that are compared stays locked until
their contents are; a comparison that comes to a locked object waits for ever. One that ends gives the
answer of the comparison without locks (`Content.agrees_of_compare?`), and one does end where no object
that holds objects stands in both contents (`Content.compare?_isSome`).
-/
import RowMapper.Proofs.Data.Equality

namespace RowMapper

/-! ## Loops that may not end -/

section Loops

variable {α : Type} {f : α → Option Bool} {g : α → Bool} {l : List α} {answer : Bool}

theorem all_of_allM (h : ∀ a ∈ l, ∀ answer, f a = some answer → g a = answer)
    (hl : l.allM f = some answer) : l.all g = answer := by
  induction l with
  | nil => exact Option.some.inj hl
  | cons a l ih =>
    rw [List.forall_mem_cons] at h
    obtain ⟨first, hfirst, hrest⟩ := Option.bind_eq_some_iff.1 hl
    rw [List.all_cons, h.1 _ hfirst]
    cases first with
    | true => exact ih h.2 hrest
    | false => exact Option.some.inj hrest

theorem any_of_anyM (h : ∀ a ∈ l, ∀ answer, f a = some answer → g a = answer)
    (hl : l.anyM f = some answer) : l.any g = answer := by
  induction l with
  | nil => exact Option.some.inj hl
  | cons a l ih =>
    rw [List.forall_mem_cons] at h
    obtain ⟨first, hfirst, hrest⟩ := Option.bind_eq_some_iff.1 hl
    rw [List.any_cons, h.1 _ hfirst]
    cases first with
    | true => exact Option.some.inj hrest
    | false => exact ih h.2 hrest

theorem allM_isSome (h : ∀ a ∈ l, (f a).isSome) : (l.allM f).isSome := by
  induction l with
  | nil => rfl
  | cons a l ih =>
    rw [List.forall_mem_cons] at h
    obtain ⟨first, hfirst⟩ := Option.isSome_iff_exists.1 h.1
    unfold List.allM
    rw [hfirst]
    cases first with
    | true => exact ih h.2
    | false => rfl

theorem anyM_isSome (h : ∀ a ∈ l, (f a).isSome) : (l.anyM f).isSome := by
  induction l with
  | nil => rfl
  | cons a l ih =>
    rw [List.forall_mem_cons] at h
    obtain ⟨first, hfirst⟩ := Option.isSome_iff_exists.1 h.1
    unfold List.anyM
    rw [hfirst]
    cases first with
    | true => rfl
    | false => exact ih h.2

end Loops

namespace Content

variable {object : ObjectRef → Content} {lazy : LazyRef → Content} {held : List ObjectRef}
  {flipped answer : Bool} {a b : Content} {xs ys : List Content}

/-! ## Comparing one after the other -/

theorem compareAll?_eq (held : List ObjectRef) (flipped : Bool) (xs ys : List Content) :
    compareAll? held flipped xs ys = (xs.zip ys).allM fun p => compare? held flipped p.1 p.2 := by
  induction xs generalizing ys with
  | nil => cases ys <;> rfl
  | cons x xs ih =>
    cases ys with
    | nil => rfl
    | cons y ys =>
      rw [compareAll?, ih]
      rcases h : compare? held flipped x y with _ | _ | _ <;> simp [List.zip_cons_cons, h]

theorem findAll?_eq (held : List ObjectRef) (xs ys : List Content) :
    findAll? held xs ys = xs.allM fun x => ys.anyM fun y => compare? held true x y := by
  induction xs with
  | nil => rfl
  | cons x xs ih =>
    rw [findAll?, ih]
    rcases h : ys.anyM fun y => compare? held true x y with _ | _ | _ <;> simp [List.allM, h]

theorem findOne?_eq (held : List ObjectRef) (y : Content) (xs : List Content) :
    findOne? held y xs = xs.anyM fun x => compare? held false x y := by
  induction xs with
  | nil => rfl
  | cons x xs ih =>
    rw [findOne?, ih]
    rcases h : compare? held false x y with _ | _ | _ <;> simp [List.anyM, h]

/-- An entry is compared with the one under its key. -/
def besides? (compare : Content → Content → Option Bool) (entry : String × Content)
    (others : List (String × Content)) : Option Bool :=
  match Table.get? entry.1 others with
  | some other => compare entry.2 other
  | none => some false

theorem compareEntries?_eq (held : List ObjectRef) (xs ys : List (String × Content)) :
    compareEntries? held xs ys = xs.allM fun entry => besides? (compare? held false) entry ys := by
  induction xs with
  | nil => rfl
  | cons entry xs ih =>
    obtain ⟨key, x⟩ := entry
    rw [compareEntries?, ih, List.allM, besides?]
    cases Table.get? key ys with
    | none => rfl
    | some y =>
      dsimp only
      rcases h : compare? held false x y with _ | _ | _ <;> simp

theorem compareUnder?_eq (held : List ObjectRef) (key : String) (y : Content)
    (xs : List (String × Content)) :
    compareUnder? held key y xs = besides? (fun y x => compare? held true x y) (key, y) xs := by
  induction xs with
  | nil => rfl
  | cons entry xs ih =>
    obtain ⟨other, x⟩ := entry
    rw [compareUnder?, ih]
    unfold besides?
    by_cases h : other = key <;> simp [Table.get?, h]

/-! ## The answers are right -/

/-- A comparison that ends gives the answer of the comparison without locks. -/
def IsRight (held : List ObjectRef) (flipped : Bool) (a b : Content) : Prop :=
  ∀ answer, compare? held flipped a b = some answer → agrees flipped a b = answer

theorem allAgree_eq_all (h : xs.length = ys.length) :
    allAgree flipped xs ys = (xs.zip ys).all fun p => agrees flipped p.1 p.2 := by
  induction xs generalizing ys with
  | nil => cases ys <;> first | rfl | cases h
  | cons x xs ih =>
    cases ys with
    | nil => cases h
    | cons y ys => rw [allAgree, ih (Nat.succ.inj h), List.zip_cons_cons, List.all_cons]

theorem allFound_eq_all (xs ys : List Content) :
    allFound xs ys = xs.all fun x => ys.any fun y => agrees true x y := by
  induction xs with
  | nil => rfl
  | cons x xs ih => rw [allFound, ih, List.all_cons]

theorem anyAgrees_eq_any (y : Content) (xs : List Content) :
    anyAgrees y xs = xs.any fun x => agrees false x y := by
  induction xs with
  | nil => rfl
  | cons x xs ih => rw [anyAgrees, ih, List.any_cons]

theorem entriesAgree_eq_all (flipped : Bool) (xs ys : List (String × Content)) :
    entriesAgree flipped xs ys = xs.all fun entry =>
      match Table.get? entry.1 ys with
      | some y => agrees flipped entry.2 y
      | none => false := by
  induction xs with
  | nil => rfl
  | cons entry xs ih =>
    unfold entriesAgree
    exact congrArg (_ && ·) ih

theorem allAgree_of_length_ne (h : xs.length ≠ ys.length) : allAgree flipped xs ys = false := by
  rw [← Bool.not_eq_true]
  exact fun hall => h (allAgree_iff.1 hall).length_eq

theorem allAgree_of_compareAll? (h : ∀ x ∈ xs, ∀ y ∈ ys, IsRight held flipped x y)
    (hc : (if xs.length = ys.length then compareAll? held flipped xs ys else some false) =
      some answer) : allAgree flipped xs ys = answer := by
  split at hc
  · rename_i hlen
    rw [allAgree_eq_all hlen]
    rw [compareAll?_eq] at hc
    exact all_of_allM (fun p hp => h _ (List.of_mem_zip hp).1 _ (List.of_mem_zip hp).2) hc
  · rename_i hlen
    exact (allAgree_of_length_ne hlen).trans (Option.some.inj hc)

theorem agrees_set_of_compare? (hlen : xs.length = ys.length)
    (h : ∀ x ∈ xs, ∀ y ∈ ys, ∀ flipped, IsRight held flipped x y)
    (hc : (if flipped then ys.allM fun y => findOne? held y xs else findAll? held xs ys) = some answer) :
    agrees flipped (.set xs) (.set ys) = answer := by
  simp only [agrees, beq_iff_eq.2 hlen, Bool.true_and]
  cases flipped with
  | true =>
    refine all_of_allM (fun y hy answer hanswer => ?_) hc
    rw [anyAgrees_eq_any]
    rw [findOne?_eq] at hanswer
    exact any_of_anyM (fun x hx => h x hx y hy false) hanswer
  | false =>
    simp only [Bool.false_eq_true, if_false] at hc ⊢
    rw [allFound_eq_all]
    rw [findAll?_eq] at hc
    exact all_of_allM (fun x hx _ hanswer => any_of_anyM (fun y hy => h x hx y hy true) hanswer) hc

theorem entriesAgree_of_allM {compare : Content → Content → Option Bool}
    {xs ys : List (String × Content)} (h : ∀ x ∈ xs, ∀ y ∈ ys, ∀ answer,
      compare x.2 y.2 = some answer → agrees false x.2 y.2 = answer)
    (hc : (xs.allM fun entry => besides? compare entry ys) = some answer) :
    entriesAgree false xs ys = answer := by
  rw [entriesAgree_eq_all]
  refine all_of_allM (fun entry he answer hanswer => ?_) hc
  unfold besides? at hanswer
  cases hget : Table.get? entry.1 ys with
  | none =>
    rw [hget] at hanswer
    exact Option.some.inj hanswer
  | some y =>
    rw [hget] at hanswer
    exact h entry he _ (Table.mem_of_get? hget) answer hanswer

theorem agrees_entries_of_compare? {xs ys : List (String × Content)} (hlen : xs.length = ys.length)
    (hx : ∀ x ∈ xs, Everywhere Keyed x.2) (hy : ∀ y ∈ ys, Everywhere Keyed y.2)
    (hxs : (xs.map (·.1)).Nodup) (hys : (ys.map (·.1)).Nodup)
    (h : ∀ x ∈ xs, ∀ y ∈ ys, IsRight held flipped x.2 y.2)
    (hc : (if flipped then ys.allM fun entry => compareUnder? held entry.1 entry.2 xs
      else compareEntries? held xs ys) = some answer) :
    (xs.length == ys.length && entriesAgree flipped xs ys) = answer := by
  cases flipped with
  | true =>
    have hflip : ∀ x ∈ xs, ∀ y ∈ ys, agrees true x.2 y.2 = agrees false y.2 x.2 :=
      fun x hxmem y hymem => agrees_flip (hx x hxmem) true (hy y hymem)
    simp only [if_true, compareUnder?_eq] at hc
    rw [entriesAgree_flip hxs hys hflip, Bool.not_true, beq_iff_eq.2 hlen.symm, Bool.true_and]
    refine entriesAgree_of_allM (fun y hymem x hxmem answer hanswer => ?_) hc
    rw [← hflip x hxmem y hymem]
    exact h x hxmem y hymem answer hanswer
  | false =>
    simp only [Bool.false_eq_true, if_false, compareEntries?_eq] at hc
    rw [beq_iff_eq.2 hlen, Bool.true_and]
    exact entriesAgree_of_allM h hc

theorem object_of_named {r : ObjectRef} (h : a.Sound object lazy) (hr : a.object? = some r) :
    object r = a := by
  cases a <;> cases hr <;> exact h.named

/-- What the names and the locks decide is right. -/
theorem agrees_of_meet (ha : a.Sound object lazy) (hb : b.Sound object lazy)
    (h : meet held a b = some (some answer)) : agrees flipped a b = answer := by
  unfold meet at h
  cases a with
  | map r xs | bean r t xs | dom r x =>
    cases b with
    | map q ys | bean q u ys | dom q y =>
      simp only [object?] at h
      split at h
      · rename_i heq
        subst heq
        cases h
        first
          | cases ha.named.symm.trans hb.named
            simp [agrees]
          | cases ha.named.symm.trans hb.named
      · split at h <;> cases h
    | _ => cases h
  | _ => cases h

theorem ne_of_meet {r q : ObjectRef} (h : meet held a b = none) (ha : a.object? = some r)
    (hb : b.object? = some q) : (r == q) = false := by
  unfold meet at h
  rw [ha, hb] at h
  dsimp only at h
  split at h
  · cases h
  · exact beq_eq_false_iff_ne.2 ‹_›

/-- A comparison that ends gives the answer of the comparison without locks. -/
theorem agrees_of_compare? (ha : Everywhere (Sound object lazy) a) : ∀ (held : List ObjectRef)
    (flipped : Bool) {b : Content}, Everywhere (Sound object lazy) b → IsRight held flipped a b := by
  induction ha with
  | @intro a here inside ih =>
    intro held flipped b hb answer h
    unfold compare? at h
    cases hmeet : meet held a b with
    | some outcome =>
      rw [hmeet] at h
      obtain rfl : outcome = some answer := h
      exact agrees_of_meet here hb.here hmeet
    | none =>
      rw [hmeet] at h
      dsimp only at h
      generalize lock held (if flipped = true then a else b) = held at h
      split at h
      · exact allAgree_of_compareAll? (fun x hx y hy => ih x hx held flipped (hb.inside y hy)) h
      · exact allAgree_of_compareAll? (fun x hx y hy => ih x hx held flipped (hb.inside y hy)) h
      · rename_i xs ys
        split at h
        · rename_i hlen
          exact agrees_set_of_compare? hlen
            (fun x hx y hy flipped => ih x hx held flipped (hb.inside y hy)) h
        · rename_i hlen
          simp only [agrees, beq_eq_false_iff_ne.2 hlen, Bool.false_and]
          exact Option.some.inj h
      · rename_i r xs q ys
        simp only [agrees, ne_of_meet hmeet rfl rfl, Bool.false_or]
        split at h
        · rename_i hlen
          refine agrees_entries_of_compare? hlen (fun x hx => ?_) (fun y hy => ?_) here.keyed
            hb.here.keyed (fun x hx y hy => ?_) h
          · exact (inside x.2 (List.mem_map_of_mem hx)).keyed
          · exact (hb.inside y.2 (List.mem_map_of_mem hy)).keyed
          · exact ih x.2 (List.mem_map_of_mem hx) held flipped (hb.inside y.2 (List.mem_map_of_mem hy))
        · rename_i hlen
          rw [beq_eq_false_iff_ne.2 hlen, Bool.false_and]
          exact Option.some.inj h
      · rename_i r t xs q u ys
        simp only [agrees, ne_of_meet hmeet rfl rfl, Bool.false_or]
        by_cases htype : (t == u) = true
        · rw [htype, Bool.true_and] at h ⊢
          simp only [beq_iff_eq] at h
          exact allAgree_of_compareAll? (fun x hx y hy => ih x hx held flipped (hb.inside y hy)) h
        · rw [Bool.not_eq_true] at htype
          rw [htype, Bool.false_and] at h ⊢
          exact Option.some.inj h
      · rename_i r x q y
        simp only [agrees]
        split at h
        · rename_i heq
          rw [heq, beq_self_eq_true, Bool.true_or]
          exact Option.some.inj h
        · rename_i hne
          rw [beq_eq_false_iff_ne.2 hne, Bool.false_or]
          exact ih x (List.mem_singleton_self x) held flipped (hb.inside y (List.mem_singleton_self y)) _ h
      · exact Option.some.inj h

/-! ## When comparing ends -/

/-- No object stands in the content. -/
def Bare (c : Content) : Prop := Everywhere (fun c => c.object? = none) c

/-- An object does not stand in the content. -/
def Without (r : ObjectRef) (c : Content) : Prop := Everywhere (fun c => c.object? ≠ some r) c

/-- An object does not stand in itself, and in one that is shared there stands none. -/
structure Tame (shared : ObjectRef → Prop) (c : Content) : Prop where
  without : ∀ r, c.object? = some r → ∀ x ∈ c.children, x.Without r
  bare : ∀ r, c.object? = some r → shared r → ∀ x ∈ c.children, x.Bare

/-- What is locked does not stand in the way of a comparison. -/
def Free (held : List ObjectRef) (a b : Content) : Prop :=
  a.Bare ∨ b.Bare ∨ ∀ r ∈ held, a.Without r ∧ b.Without r

/-- Objects that stand in both contents are shared. -/
def SharesOnly (shared : ObjectRef → Prop) (a b : Content) : Prop :=
  ∀ r, a.Without r ∨ b.Without r ∨ shared r

variable {shared : ObjectRef → Prop} {x y : Content}

theorem SharesOnly.inside (h : SharesOnly shared a b) (hx : x ∈ a.children) (hy : y ∈ b.children) :
    SharesOnly shared x y := fun r =>
  (h r).imp (fun h => h.inside x hx) (Or.imp_left fun h => h.inside y hy)

/-- What is locked on the way stands behind neither side, unless one of them leads to no object. -/
theorem Free.lock {right : Content} (h : Free held a b) (ha : a.Tame shared) (hb : b.Tame shared)
    (hs : SharesOnly shared a b) (hright : right = a ∨ right = b) (hx : x ∈ a.children)
    (hy : y ∈ b.children) : Free (lock held right) x y := by
  obtain hbare | hbare | hheld := h
  · exact .inl (hbare.inside x hx)
  · exact .inr (.inl (hbare.inside y hy))
  unfold Content.lock
  have hinside : ∀ r ∈ held, x.Without r ∧ y.Without r := fun r hr =>
    (hheld r hr).imp (fun h => h.inside x hx) fun h => h.inside y hy
  cases hr : right.object? with
  | none => exact .inr (.inr hinside)
  | some r =>
    rcases hright with rfl | rfl
    · obtain hwithout | hwithout | hshared := hs r
      · exact absurd hr hwithout.here
      · refine .inr (.inr (List.forall_mem_cons.2 ⟨⟨ha.without r hr x hx, ?_⟩, hinside⟩))
        exact hwithout.inside y hy
      · exact .inl (ha.bare r hr hshared x hx)
    · obtain hwithout | hwithout | hshared := hs r
      · refine .inr (.inr (List.forall_mem_cons.2 ⟨⟨?_, hb.without r hr y hy⟩, hinside⟩))
        exact hwithout.inside x hx
      · exact absurd hr hwithout.here
      · exact .inr (.inl (hb.bare r hr hshared y hy))

theorem Free.meet (h : Free held a b) {outcome : Option Bool} (hmeet : meet held a b = some outcome) :
    outcome.isSome := by
  unfold Content.meet at hmeet
  split at hmeet
  · rename_i r q hr hq
    split at hmeet
    · cases hmeet
      rfl
    · split at hmeet
      · rename_i hlocked
        obtain hbare | hbare | hheld := h
        · cases hr.symm.trans hbare.here
        · cases hq.symm.trans hbare.here
        · rcases hlocked with hlocked | hlocked
          · exact absurd hr (hheld r hlocked).1.here
          · exact absurd hq (hheld q hlocked).2.here
      · cases hmeet
  · cases hmeet

theorem compareAll?_isSome (h : ∀ x ∈ xs, ∀ y ∈ ys, (compare? held flipped x y).isSome) :
    (compareAll? held flipped xs ys).isSome := by
  rw [compareAll?_eq]
  exact allM_isSome fun p hp => h _ (List.of_mem_zip hp).1 _ (List.of_mem_zip hp).2

theorem besides?_isSome {compare : Content → Content → Option Bool} {entry : String × Content}
    {others : List (String × Content)} (h : ∀ other ∈ others, (compare entry.2 other.2).isSome) :
    (besides? compare entry others).isSome := by
  unfold besides?
  cases hget : Table.get? entry.1 others with
  | none => rfl
  | some other => exact h _ (Table.mem_of_get? hget)

/-- Comparing ends where no object is its own part and those that stand in both contents hold no object
themselves. -/
theorem compare?_isSome (ha : Everywhere (Tame shared) a) : ∀ (held : List ObjectRef)
    (flipped : Bool) {b : Content}, Everywhere (Tame shared) b → SharesOnly shared a b →
      Free held a b → (compare? held flipped a b).isSome := by
  induction ha with
  | @intro a here inside ih =>
    intro held flipped b hb hs hfree
    unfold compare?
    cases hmeet : meet held a b with
    | some outcome => exact hfree.meet hmeet
    | none =>
      dsimp only
      have hright : (if flipped = true then a else b) = a ∨ (if flipped = true then a else b) = b := by
        split <;> simp
      have hparts : ∀ x ∈ a.children, ∀ y ∈ b.children, ∀ turned,
          (compare? (lock held (if flipped = true then a else b)) turned x y).isSome :=
        fun x hx y hy turned => ih x hx _ turned (hb.inside y hy) (hs.inside hx hy)
          (hfree.lock here hb.here hs hright hx hy)
      generalize lock held (if flipped = true then a else b) = held at hparts ⊢
      split
      · split
        · exact compareAll?_isSome fun x hx y hy => hparts x hx y hy flipped
        · rfl
      · split
        · exact compareAll?_isSome fun x hx y hy => hparts x hx y hy flipped
        · rfl
      · split
        · cases flipped with
          | true =>
            refine allM_isSome fun y hy => ?_
            rw [findOne?_eq]
            exact anyM_isSome fun x hx => hparts x hx y hy false
          | false =>
            simp only [Bool.false_eq_true, if_false, findAll?_eq]
            exact allM_isSome fun x hx => anyM_isSome fun y hy => hparts x hx y hy true
        · rfl
      · split
        · cases flipped with
          | true =>
            simp only [if_true, compareUnder?_eq]
            refine allM_isSome fun y hy => besides?_isSome fun x hx => ?_
            exact hparts x.2 (List.mem_map_of_mem hx) y.2 (List.mem_map_of_mem hy) true
          | false =>
            simp only [Bool.false_eq_true, if_false, compareEntries?_eq]
            refine allM_isSome fun x hx => besides?_isSome fun y hy => ?_
            exact hparts x.2 (List.mem_map_of_mem hx) y.2 (List.mem_map_of_mem hy) false
        · rfl
      · split
        · exact compareAll?_isSome fun x hx y hy => hparts x hx y hy flipped
        · rfl
      · rename_i r x q y
        split
        · rfl
        · exact hparts x (List.mem_singleton_self x) y (List.mem_singleton_self y) flipped
      · rfl

/-- Where names stand for contents an object does not stand in itself. -/
theorem without_of_named {r : ObjectRef} (h : Everywhere (Sound object lazy) b)
    (hlt : sizeOf b < sizeOf (object r)) : b.Without r := by
  induction h with
  | @intro b here _ ih =>
    refine .intro (fun hr => ?_) fun x hx => ih x hx (Nat.lt_trans (sizeOf_lt_of_mem_children hx) hlt)
    rw [object_of_named here hr] at hlt
    exact Nat.lt_irrefl _ hlt

theorem Everywhere.tame (h : Everywhere (Sound object lazy) a)
    (hbare : ∀ r, shared r → ∀ x ∈ (object r).children, x.Bare) : Everywhere (Tame shared) a := by
  induction h with
  | @intro a here inside ih =>
    refine .intro ⟨fun r hr x hx => ?_, fun r hr hshared x hx => ?_⟩ ih
    · apply without_of_named (inside x hx)
      rw [object_of_named here hr]
      exact sizeOf_lt_of_mem_children hx
    · apply hbare r hshared x
      rw [object_of_named here hr]
      exact hx

end Content

end RowMapper
