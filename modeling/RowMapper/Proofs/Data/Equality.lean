/-
Equality of contents. One step of the comparison is described by `Content.Alike`; what it does to both
sides, and to three, is carried to whole contents by induction: equality is symmetric
(`Content.same_comm`) and transitive (`Content.same_trans`), and what holds no NaN equals itself
(`Content.agrees_self`).

Transitivity needs that a name stands for one content throughout, since a comparison of what has the
same name goes no further, and symmetry that no two members of a set are equal.
-/
import RowMapper.Proofs.Data.Matching

namespace RowMapper.Content

variable {object : ObjectRef → Content} {lazy : LazyRef → Content} {p q : Content → Prop}
  {a b c : Content} {xs ys : List Content} {flipped : Bool}

/-! ## Parts -/

/-- The contents that stand directly in a content. -/
def children : Content → List Content
  | .list items | .set items | .record items => items
  | .map _ entries => entries.map (·.2)
  | .bean _ _ fields => fields
  | .loaded _ value => [value]
  | _ => []

theorem sizeOf_lt_of_mem_children (h : b ∈ c.children) : sizeOf b < sizeOf c := by
  cases c with
  | list items | set items | record items | bean r type items =>
    have hmem : b ∈ items := h
    have hlt := List.sizeOf_lt_of_mem hmem
    simp only [list.sizeOf_spec, set.sizeOf_spec, record.sizeOf_spec, bean.sizeOf_spec]
    omega
  | map r entries =>
    obtain ⟨entry, he, rfl⟩ := List.mem_map.1 h
    have hlt := List.sizeOf_lt_of_mem he
    obtain ⟨key, c⟩ := entry
    simp only [map.sizeOf_spec, Prod.mk.sizeOf_spec] at hlt ⊢
    omega
  | loaded r c =>
    obtain rfl := List.mem_singleton.1 h
    simp only [loaded.sizeOf_spec]
    omega
  | _ => cases h

/-- What holds of a content and of all that stands in it. -/
inductive Everywhere (p : Content → Prop) : Content → Prop
  | intro {c : Content} (here : p c) (inside : ∀ x ∈ c.children, Everywhere p x) : Everywhere p c

namespace Everywhere

theorem here (h : Everywhere p c) : p c := by
  cases h
  assumption

theorem inside (h : Everywhere p c) : ∀ x ∈ c.children, Everywhere p x := by
  cases h
  assumption

theorem imp (h : Everywhere p c) (hpq : ∀ c, p c → q c) : Everywhere q c := by
  induction h with
  | intro here _ ih => exact .intro (hpq _ here) ih

theorem and (h : Everywhere p c) (h' : Everywhere q c) : Everywhere (fun c => p c ∧ q c) c := by
  induction h with
  | intro here _ ih => exact .intro ⟨here, h'.here⟩ fun x hx => ih x hx (h'.inside x hx)

end Everywhere

/-- A map has no key twice, and the type of a bean no two properties of one name. -/
def Keyed : Content → Prop
  | .map _ entries => (entries.map (·.1)).Nodup
  | .bean _ type _ => type.type.Proper
  | _ => True

/-- What is shown under a name is what the name stands for. -/
def Named (object : ObjectRef → Content) (lazy : LazyRef → Content) : Content → Prop
  | .map r entries => object r = .map r entries
  | .bean r type fields => object r = .bean r type fields
  | .dom r node => object r = .dom r node
  | .unloaded r => lazy r = .unloaded r
  | .loaded r value => lazy r = .loaded r value
  | _ => True

/-- The members of a set are pairwise unequal. -/
def Distinct : Content → Prop
  | .set items => items.Pairwise fun a b => a.same b = false
  | _ => True

/-- Anything but a NaN. -/
def NotNaN : Content → Prop
  | .f64 x => x.isNaN = false
  | _ => True

/-- No number in the content is a NaN. -/
def NaNFree (c : Content) : Prop := Everywhere NotNaN c

/-! ## Loops -/

theorem allAgree_iff : allAgree flipped xs ys = true ↔
    List.Forall₂ (fun x y => agrees flipped x y = true) xs ys := by
  induction xs generalizing ys with
  | nil => cases ys <;> simp [allAgree]
  | cons x xs ih => cases ys <;> simp [allAgree, ih]

theorem allFound_iff : allFound xs ys = true ↔ ∀ x ∈ xs, ∃ y ∈ ys, agrees true x y = true := by
  induction xs with
  | nil => simp [allFound]
  | cons x xs ih => simp [allFound, ih]

theorem anyAgrees_iff {y : Content} : anyAgrees y xs = true ↔ ∃ x ∈ xs, agrees false x y = true := by
  induction xs with
  | nil => simp [anyAgrees]
  | cons x xs ih => simp [anyAgrees, ih]

theorem entriesAgree_iff {xs ys : List (String × Content)} : entriesAgree flipped xs ys = true ↔
    ∀ x ∈ xs, ∃ y, Table.get? x.1 ys = some y ∧ agrees flipped x.2 y = true := by
  induction xs with
  | nil => simp [entriesAgree]
  | cons x xs ih =>
    rw [entriesAgree, Bool.and_eq_true, ih, List.forall_mem_cons]
    refine and_congr_left fun _ => ?_
    cases Table.get? x.1 ys <;> simp

theorem entriesAgree_matches {xs ys : List (String × Content)} :
    (xs.length == ys.length && entriesAgree flipped xs ys) = true ↔
      Table.Matches (fun x y => agrees flipped x y = true) xs ys := by
  rw [Bool.and_eq_true, beq_iff_eq, entriesAgree_iff]
  exact ⟨fun h => ⟨h.1, h.2⟩, fun h => ⟨h.length, h.found⟩⟩

/-! ## One step -/

/-- One step of a comparison, relative to a relation for what stands in both contents. What has the same
name is equal without further comparison. -/
inductive Alike (R : Content → Content → Prop) : Content → Content → Prop
  | null : Alike R .null .null
  | bool {x : Bool} : Alike R (.bool x) (.bool x)
  | i32 {x : Int32} : Alike R (.i32 x) (.i32 x)
  | i64 {x : Int64} : Alike R (.i64 x) (.i64 x)
  | f64 {x y : Number.Binary64} (h : x.same y = true) : Alike R (.f64 x) (.f64 y)
  | string {x : String} : Alike R (.string x) (.string x)
  | bytes {x : ByteArray} : Alike R (.bytes x) (.bytes x)
  | timestamp {x : Calendar.Timestamp} : Alike R (.timestamp x) (.timestamp x)
  | list {xs ys : List Content} (h : List.Forall₂ R xs ys) : Alike R (.list xs) (.list ys)
  | set {xs ys : List Content} (length : xs.length = ys.length) (found : ∀ x ∈ xs, ∃ y ∈ ys, R y x) :
    Alike R (.set xs) (.set ys)
  | record {xs ys : List Content} (h : List.Forall₂ R xs ys) : Alike R (.record xs) (.record ys)
  | map {r q : ObjectRef} {xs ys : List (String × Content)} (h : r = q ∨ Table.Matches R xs ys) :
    Alike R (.map r xs) (.map q ys)
  | bean {r q : ObjectRef} {t u : BeanType} {xs ys : List Content}
    (h : r = q ∨ (t == u) = true ∧ List.Forall₂ R xs ys) : Alike R (.bean r t xs) (.bean q u ys)
  | dom {r q : ObjectRef} {x y : DomNode} (h : r = q ∨ x = y) : Alike R (.dom r x) (.dom q y)
  | unloaded {r : LazyRef} : Alike R (.unloaded r) (.unloaded r)
  | loaded {r q : LazyRef} {x y : Content} (h : r = q ∨ R x y) : Alike R (.loaded r x) (.loaded q y)

theorem allAgree_flip (h : ∀ x ∈ xs, ∀ y ∈ ys, agrees flipped x y = agrees (!flipped) y x) :
    allAgree flipped xs ys = allAgree (!flipped) ys xs := by
  rw [Bool.eq_iff_iff, allAgree_iff, allAgree_iff]
  constructor
  · intro hall
    exact forall₂_symm hall fun x hx y hy hxy => h x hx y hy ▸ hxy
  · intro hall
    exact forall₂_symm hall fun y hy x hx hyx => (h x hx y hy).symm ▸ hyx

theorem allFound_eq (h : ∀ x ∈ xs, ∀ y ∈ ys, agrees true x y = agrees false y x) :
    allFound xs ys = xs.all fun x => anyAgrees x ys := by
  rw [Bool.eq_iff_iff, allFound_iff, List.all_eq_true]
  refine forall₂_congr fun x hx => ?_
  rw [anyAgrees_iff]
  exact exists_congr fun y => and_congr_right fun hy => by rw [h x hx y hy]

theorem entriesAgree_flip {xs ys : List (String × Content)} (hx : (xs.map (·.1)).Nodup)
    (hy : (ys.map (·.1)).Nodup)
    (h : ∀ x ∈ xs, ∀ y ∈ ys, agrees flipped x.2 y.2 = agrees (!flipped) y.2 x.2) :
    (xs.length == ys.length && entriesAgree flipped xs ys) =
      (ys.length == xs.length && entriesAgree (!flipped) ys xs) := by
  rw [Bool.eq_iff_iff, entriesAgree_matches, entriesAgree_matches]
  constructor
  · intro hall
    exact hall.symm hx fun x hx y hy hxy => h x hx y hy ▸ hxy
  · intro hall
    exact hall.symm hy fun y hy x hx hyx => (h x hx y hy).symm ▸ hyx

/-- The comparison from the other side is that of the contents in the other order. -/
theorem agrees_flip (ha : Everywhere Keyed a) : ∀ (flipped : Bool) {b : Content}, Everywhere Keyed b →
    agrees flipped a b = agrees (!flipped) b a := by
  induction ha with
  | @intro a here _ ih =>
    intro flipped b hb
    cases a with
    | list xs =>
      cases b with
      | list ys => exact allAgree_flip fun x hx y hy => ih x hx flipped (hb.inside y hy)
      | _ => rfl
    | record xs =>
      cases b with
      | record ys => exact allAgree_flip fun x hx y hy => ih x hx flipped (hb.inside y hy)
      | _ => rfl
    | set xs =>
      cases b with
      | set ys =>
        have hitem : ∀ f, ∀ x ∈ xs, ∀ y ∈ ys, agrees f x y = agrees (!f) y x :=
          fun f x hx y hy => ih x hx f (hb.inside y hy)
        -- from the one side the first set is gone through, from the other side the second
        cases flipped with
        | false =>
          have hfound := allFound_eq (hitem true)
          simp only [agrees, Bool.false_eq_true, if_false, Bool.not_false, if_true]
          rw [hfound, BEq.comm]
        | true =>
          have hfound := allFound_eq fun y hy x hx => (hitem false x hx y hy).symm
          simp only [agrees, Bool.not_true, Bool.false_eq_true, if_false, if_true]
          rw [hfound, BEq.comm]
      | _ => rfl
    | map r xs =>
      cases b with
      | map q ys =>
        simp only [agrees]
        rw [BEq.comm (a := q), entriesAgree_flip here hb.here fun x hx y hy =>
          ih x.2 (List.mem_map_of_mem hx) flipped (hb.inside y.2 (List.mem_map_of_mem hy))]
      | _ => rfl
    | bean r t xs =>
      cases b with
      | bean q u ys =>
        have hfields : allAgree flipped xs ys = allAgree (!flipped) ys xs :=
          allAgree_flip fun x hx y hy => ih x hx flipped (hb.inside y hy)
        simp only [agrees]
        rw [BEq.comm (a := q), BeanType.beq_comm here hb.here, hfields]
      | _ => rfl
    | loaded r x =>
      cases b with
      | loaded q y =>
        simp only [agrees]
        rw [BEq.comm (a := q),
          ih x (List.mem_singleton_self x) flipped (hb.inside y (List.mem_singleton_self y))]
      | _ => rfl
    | f64 x =>
      cases b with
      | f64 y => exact x.same_comm y
      | _ => rfl
    | null => cases b <;> rfl
    | dom r x =>
      cases b with
      | dom q y =>
        simp only [agrees]
        rw [BEq.comm (a := q), BEq.comm (a := y)]
      | _ => rfl
    | bool x | i32 x | i64 x | string x | bytes x | timestamp x | unloaded r =>
      cases b <;> first | exact BEq.comm | rfl

/-- What is equal is alike in one step, and what stands in it is equal. -/
theorem alike_of_same (ha : Everywhere Keyed a) (hb : Everywhere Keyed b) (h : a.same b = true) :
    Alike (fun x y => x.same y = true) a b := by
  cases a with
  | null =>
    cases b with
    | null => exact .null
    | _ => cases h
  | bool x | i32 x | i64 x | string x | bytes x | timestamp x | unloaded r =>
    cases b <;> first | cases h | (obtain rfl := eq_of_beq h; constructor)
  | f64 x =>
    cases b with
    | f64 y => exact .f64 h
    | _ => cases h
  | list xs =>
    cases b with
    | list ys => exact .list (allAgree_iff.1 h)
    | _ => cases h
  | record xs =>
    cases b with
    | record ys => exact .record (allAgree_iff.1 h)
    | _ => cases h
  | set xs =>
    cases b with
    | set ys =>
      obtain ⟨hlen, hfound⟩ := Bool.and_eq_true_iff.1 h
      refine .set (eq_of_beq hlen) fun x hx => ?_
      obtain ⟨y, hy, hxy⟩ := allFound_iff.1 hfound x hx
      -- the member that is found is the left side of its comparison
      rw [agrees_flip (ha.inside x hx) true (hb.inside y hy)] at hxy
      exact ⟨y, hy, hxy⟩
    | _ => cases h
  | map r xs =>
    cases b with
    | map q ys => exact .map ((Bool.or_eq_true_iff.1 h).imp eq_of_beq entriesAgree_matches.1)
    | _ => cases h
  | bean r t xs =>
    cases b with
    | bean q u ys =>
      refine .bean ((Bool.or_eq_true_iff.1 h).imp eq_of_beq fun h => ?_)
      exact (Bool.and_eq_true_iff.1 h).imp_right allAgree_iff.1
    | _ => cases h
  | dom r x =>
    cases b with
    | dom q y => exact .dom ((Bool.or_eq_true_iff.1 h).imp eq_of_beq eq_of_beq)
    | _ => cases h
  | loaded r x =>
    cases b with
    | loaded q y => exact .loaded ((Bool.or_eq_true_iff.1 h).imp_left eq_of_beq)
    | _ => cases h

theorem same_of_alike (ha : Everywhere Keyed a) (hb : Everywhere Keyed b)
    (h : Alike (fun x y => x.same y = true) a b) : a.same b = true := by
  unfold same
  cases h with
  | null => rfl
  | bool | i32 | i64 | string | bytes | timestamp | unloaded => simp [agrees]
  | f64 h => exact h
  | list h | record h => exact allAgree_iff.2 h
  | set length found =>
    refine Bool.and_eq_true_iff.2 ⟨beq_iff_eq.2 length, allFound_iff.2 fun x hx => ?_⟩
    obtain ⟨y, hy, hyx⟩ := found x hx
    refine ⟨y, hy, ?_⟩
    rw [agrees_flip (ha.inside x hx) true (hb.inside y hy)]
    exact hyx
  | map h => exact Bool.or_eq_true_iff.2 (h.imp beq_iff_eq.2 entriesAgree_matches.2)
  | bean h =>
    refine Bool.or_eq_true_iff.2 (h.imp beq_iff_eq.2 fun h => ?_)
    exact Bool.and_eq_true_iff.2 (h.imp_right allAgree_iff.2)
  | dom h => exact Bool.or_eq_true_iff.2 (h.imp beq_iff_eq.2 beq_iff_eq.2)
  | loaded h => exact Bool.or_eq_true_iff.2 (h.imp_left beq_iff_eq.2)

theorem same_iff (ha : Everywhere Keyed a) (hb : Everywhere Keyed b) :
    a.same b = true ↔ Alike (fun x y => x.same y = true) a b :=
  ⟨alike_of_same ha hb, same_of_alike ha hb⟩

/-! ## The laws -/

/-- What stands under names stands for them, and keys are keys. -/
structure Sound (object : ObjectRef → Content) (lazy : LazyRef → Content) (c : Content) : Prop where
  keyed : c.Keyed
  named : c.Named object lazy

/-- In addition members of sets are unequal. -/
structure Tidy (object : ObjectRef → Content) (lazy : LazyRef → Content) (c : Content) : Prop
    extends Sound object lazy c where
  distinct : c.Distinct

theorem Everywhere.keyed (h : Everywhere (Sound object lazy) c) : Everywhere Keyed c :=
  h.imp fun _ h => h.keyed

theorem Everywhere.sound (h : Everywhere (Tidy object lazy) c) : Everywhere (Sound object lazy) c :=
  h.imp fun _ h => h.toSound

/-- Two steps make one, if they do for what stands in the contents. -/
theorem Alike.trans {R : Content → Content → Prop} (ha : a.Sound object lazy)
    (hb : b.Sound object lazy) (hc : c.Sound object lazy)
    (hR : ∀ x ∈ a.children, ∀ y ∈ b.children, ∀ z ∈ c.children,
      (R x y → R y z → R x z) ∧ (R z y → R y x → R z x))
    (hab : Alike R a b) (hbc : Alike R b c) : Alike R a c := by
  cases hab with
  | null | bool | i32 | i64 | string | bytes | timestamp | unloaded => exact hbc
  | f64 hxy =>
    cases hbc with
    | f64 hyz => exact .f64 (Number.Binary64.same_trans hxy hyz)
  | list hxy =>
    cases hbc with
    | list hyz => exact .list (forall₂_trans hxy hyz fun x hx y hy z hz => (hR x hx y hy z hz).1)
  | record hxy =>
    cases hbc with
    | record hyz => exact .record (forall₂_trans hxy hyz fun x hx y hy z hz => (hR x hx y hy z hz).1)
  | set length found =>
    cases hbc with
    | set length' found' =>
      refine .set (length.trans length') fun x hx => ?_
      obtain ⟨y, hy, hyx⟩ := found x hx
      obtain ⟨z, hz, hzy⟩ := found' y hy
      exact ⟨z, hz, (hR x hx y hy z hz).2 hzy hyx⟩
  | map hxy =>
    cases hbc with
    | map hyz =>
      rcases hxy with rfl | hxy
      · cases ha.named.symm.trans hb.named
        exact .map hyz
      rcases hyz with rfl | hyz
      · cases hb.named.symm.trans hc.named
        exact .map (.inr hxy)
      refine .map (.inr (hxy.trans hyz fun x hx y hy z hz => ?_))
      exact (hR x.2 (List.mem_map_of_mem hx) y.2 (List.mem_map_of_mem hy) z.2
        (List.mem_map_of_mem hz)).1
  | bean hxy =>
    cases hbc with
    | bean hyz =>
      rcases hxy with rfl | ⟨htype, hxy⟩
      · cases ha.named.symm.trans hb.named
        exact .bean hyz
      rcases hyz with rfl | ⟨htype', hyz⟩
      · cases hb.named.symm.trans hc.named
        exact .bean (.inr ⟨htype, hxy⟩)
      refine .bean (.inr ⟨BeanType.beq_trans ha.keyed hb.keyed htype htype', ?_⟩)
      exact forall₂_trans hxy hyz fun x hx y hy z hz => (hR x hx y hy z hz).1
  | dom hxy =>
    cases hbc with
    | dom hyz =>
      rcases hxy with rfl | rfl
      · cases ha.named.symm.trans hb.named
        exact .dom hyz
      rcases hyz with rfl | rfl
      · cases hb.named.symm.trans hc.named
        exact .dom (.inr rfl)
      exact .dom (.inr rfl)
  | loaded hxy =>
    cases hbc with
    | loaded hyz =>
      rcases hxy with rfl | hxy
      · cases ha.named.symm.trans hb.named
        exact .loaded hyz
      rcases hyz with rfl | hyz
      · cases hb.named.symm.trans hc.named
        exact .loaded (.inr hxy)
      refine .loaded (.inr ?_)
      exact (hR _ (List.mem_singleton_self _) _ (List.mem_singleton_self _) _
        (List.mem_singleton_self _)).1 hxy hyz

/-- Equality is transitive. -/
theorem same_trans (hb : Everywhere (Sound object lazy) b) : ∀ {a c : Content},
    Everywhere (Sound object lazy) a → Everywhere (Sound object lazy) c →
      a.same b = true → b.same c = true → a.same c = true := by
  -- on the content in the middle, which stays there when the members of sets are compared the other way
  induction hb with
  | @intro b here inside ih =>
    intro a c ha hc hab hbc
    have hb : Everywhere (Sound object lazy) b := .intro here inside
    rw [same_iff ha.keyed hb.keyed] at hab
    rw [same_iff hb.keyed hc.keyed] at hbc
    apply (same_iff ha.keyed hc.keyed).2
    refine Alike.trans ha.here here hc.here (fun x hx y hy z hz => ?_) hab hbc
    exact ⟨ih y hy (ha.inside x hx) (hc.inside z hz), ih y hy (hc.inside z hz) (ha.inside x hx)⟩

/-- A step may be taken back, if that is so for what stands in the contents, and if no two items of a set
are related to one item. -/
theorem Alike.symm {R : Content → Content → Prop} (ha : a.Keyed) (hb : b.Keyed)
    (hR : ∀ x ∈ a.children, ∀ y ∈ b.children, R x y ↔ R y x)
    (hapart : ∀ xs, a = .set xs → xs.Pairwise fun x x' => ∀ y ∈ b.children, R y x → ¬R y x')
    (hab : Alike R a b) : Alike R b a := by
  cases hab with
  | null | bool | i32 | i64 | string | bytes | timestamp | unloaded => constructor
  | f64 hxy => exact .f64 (Number.Binary64.same_comm _ _ ▸ hxy)
  | list hxy => exact .list (forall₂_symm hxy fun x hx y hy => (hR x hx y hy).1)
  | record hxy => exact .record (forall₂_symm hxy fun x hx y hy => (hR x hx y hy).1)
  | set length found =>
    refine .set length.symm fun y hy => ?_
    obtain ⟨x, hx, hyx⟩ := exists_partner (Nat.le_of_eq length.symm) found (hapart _ rfl) y hy
    exact ⟨x, hx, (hR x hx y hy).2 hyx⟩
  | map hxy =>
    refine .map (hxy.imp Eq.symm fun hxy => hxy.symm ha fun x hx y hy => ?_)
    exact (hR x.2 (List.mem_map_of_mem hx) y.2 (List.mem_map_of_mem hy)).1
  | bean hxy =>
    refine .bean (hxy.imp Eq.symm fun ⟨htype, hxy⟩ => ⟨BeanType.beq_comm ha hb ▸ htype, ?_⟩)
    exact forall₂_symm hxy fun x hx y hy => (hR x hx y hy).1
  | dom hxy => exact .dom (hxy.imp Eq.symm Eq.symm)
  | loaded hxy =>
    refine .loaded (hxy.imp Eq.symm ?_)
    exact (hR _ (List.mem_singleton_self _) _ (List.mem_singleton_self _)).1

/-- Unequal members of a set have no equal in common. -/
theorem Everywhere.apart (ha : Everywhere (Tidy object lazy) a) (hb : Everywhere (Tidy object lazy) b)
    (hcomm : ∀ x ∈ a.children, ∀ y ∈ b.children, x.same y = true ↔ y.same x = true) :
    ∀ xs, a = .set xs →
      xs.Pairwise fun x x' => ∀ y ∈ b.children, y.same x = true → ¬y.same x' = true := by
  rintro xs rfl
  refine List.Pairwise.imp_of_mem ?_ ha.here.distinct
  intro x x' hx hx' hne y hy hyx hyx'
  have hxy := (hcomm x hx y hy).2 hyx
  have hequal := same_trans (hb.inside y hy).sound (ha.inside x hx).sound (ha.inside x' hx').sound hxy hyx'
  rw [hne] at hequal
  cases hequal

/-- Equality is symmetric. -/
theorem same_comm (ha : Everywhere (Tidy object lazy) a) : ∀ {b : Content},
    Everywhere (Tidy object lazy) b → a.same b = b.same a := by
  induction ha with
  | @intro a here inside ih =>
    intro b hb
    have ha : Everywhere (Tidy object lazy) a := .intro here inside
    have hitem : ∀ x ∈ a.children, ∀ y ∈ b.children, x.same y = true ↔ y.same x = true :=
      fun x hx y hy => by rw [ih x hx (hb.inside y hy)]
    rw [Bool.eq_iff_iff, same_iff ha.sound.keyed hb.sound.keyed, same_iff hb.sound.keyed ha.sound.keyed]
    constructor
    · exact Alike.symm here.keyed hb.here.keyed hitem (ha.apart hb hitem)
    · have hitem' := fun y hy x hx => (hitem x hx y hy).symm
      exact Alike.symm hb.here.keyed here.keyed hitem' (hb.apart ha hitem')

/-- What holds no NaN equals itself, from either side. -/
theorem agrees_self (h : c.NaNFree) (flipped : Bool) : agrees flipped c c = true := by
  induction h generalizing flipped with
  | @intro c here _ ih =>
    have hall : ∀ xs : List Content, (∀ x ∈ xs, ∀ flipped, agrees flipped x x = true) →
        allAgree flipped xs xs = true :=
      fun xs hself => allAgree_iff.2 (List.forall₂_same.2 fun x hx => hself x hx flipped)
    cases c with
    | null => rfl
    | f64 x =>
      refine (Number.Binary64.same_self x).trans ?_
      rw [show x.isNaN = false from here]
      rfl
    | list xs | record xs => exact hall xs ih
    | set xs =>
      apply Bool.and_eq_true_iff.2
      refine ⟨beq_self_eq_true _, ?_⟩
      cases flipped with
      | false => exact allFound_iff.2 fun x hx => ⟨x, hx, ih x hx true⟩
      | true => exact List.all_eq_true.2 fun x hx => anyAgrees_iff.2 ⟨x, hx, ih x hx false⟩
    | bool x | i32 x | i64 x | string x | bytes x | timestamp x | map r xs | bean r t xs | dom r x
    | unloaded r | loaded r x => simp [agrees]

/-- Sets of the same members in different orders are equal. -/
theorem same_set_of_perm (h : xs.Perm ys) (hx : (set xs).NaNFree) : (set xs).same (.set ys) = true := by
  refine Bool.and_eq_true_iff.2 ⟨beq_iff_eq.2 h.length_eq, allFound_iff.2 fun x hmem => ?_⟩
  exact ⟨x, h.subset hmem, agrees_self (hx.inside x hmem) true⟩

/-- Maps of the same entries in different orders are equal. -/
theorem same_map_of_perm {r q : ObjectRef} {xs ys : List (String × Content)} (h : xs.Perm ys)
    (hkeys : (xs.map (·.1)).Nodup) (hx : (map r xs).NaNFree) : (map r xs).same (.map q ys) = true := by
  refine Bool.or_eq_true_iff.2 (.inr (entriesAgree_matches.2 ?_))
  refine Table.Matches.of_perm h ((h.map _).nodup hkeys) fun x hmem => ?_
  exact agrees_self (hx.inside x.2 (List.mem_map_of_mem hmem)) false

end RowMapper.Content
