/-
Comparing without regard to order. Two lists of one length match when each item of the first has its
partner in the second; that each item of the second then has one in the first is a matter of counting,
for tables because no key stands twice, for sets because no two members have a partner in common. The
types of beans and document trees are compared here as well.
-/
import Mathlib.Data.List.Forall2
import Mathlib.Data.List.Perm.Subperm
import RowMapper.Data.Content
import RowMapper.Proofs.Catalog.Index

namespace RowMapper

/-! ## Lists -/

/-- Items that find partners, no two the same, in a list that is not longer leave no one over there. -/
theorem exists_partner {α β : Type} {R : α → β → Prop} {xs : List α} : ∀ {ys : List β},
    ys.length ≤ xs.length → (∀ x ∈ xs, ∃ y ∈ ys, R x y) →
      xs.Pairwise (fun x x' => ∀ y ∈ ys, R x y → ¬R x' y) → ∀ y ∈ ys, ∃ x ∈ xs, R x y := by
  induction xs with
  | nil =>
    intro ys hlen _ _ y hy
    rw [List.length_nil, Nat.le_zero, List.length_eq_zero_iff] at hlen
    rw [hlen] at hy
    cases hy
  | cons x xs ih =>
    intro ys hlen hfound hapart y hy
    rw [List.forall_mem_cons] at hfound
    rw [List.pairwise_cons] at hapart
    obtain ⟨⟨partner, hmem, hpartner⟩, hrest⟩ := hfound
    obtain ⟨front, back, rfl⟩ := List.append_of_mem hmem
    by_cases hself : R x y
    · exact ⟨x, List.mem_cons_self .., hself⟩
    -- the partner of the first item is none of the others', who find theirs on both sides of it
    have hsplit : ∀ y, y ∈ front ++ partner :: back ↔ y = partner ∨ y ∈ front ++ back := by
      intro y
      simp only [List.mem_append, List.mem_cons]
      exact or_left_comm
    have hothers : ∀ x' ∈ xs, ∃ y ∈ front ++ back, R x' y := by
      intro x' hx'
      obtain ⟨y', hy', hR⟩ := hrest x' hx'
      refine ⟨y', ((hsplit y').1 hy').resolve_left ?_, hR⟩
      rintro rfl
      exact hapart.1 x' hx' y' hy' hpartner hR
    have hy' : y ∈ front ++ back := by
      refine ((hsplit y).1 hy).resolve_left ?_
      rintro rfl
      exact hself hpartner
    have hlen' : (front ++ back).length ≤ xs.length := by
      simp only [List.length_append, List.length_cons] at hlen ⊢
      omega
    have hapart' := hapart.2.imp fun {_ _} h y hy => h y ((hsplit y).2 (.inr hy))
    obtain ⟨x', hx', hR⟩ := ih hlen' hothers hapart' y hy'
    exact ⟨x', List.mem_cons_of_mem _ hx', hR⟩

theorem forall₂_symm {α β : Type} {R : α → β → Prop} {S : β → α → Prop} {xs : List α} {ys : List β}
    (h : List.Forall₂ R xs ys) (hS : ∀ x ∈ xs, ∀ y ∈ ys, R x y → S y x) : List.Forall₂ S ys xs := by
  induction h with
  | nil => exact .nil
  | cons hxy _ ih =>
    simp only [List.forall_mem_cons] at hS
    exact .cons (hS.1.1 hxy) (ih fun x hx => (hS.2 x hx).2)

theorem forall₂_trans {α β γ : Type} {R : α → β → Prop} {S : β → γ → Prop} {T : α → γ → Prop}
    {xs : List α} {ys : List β} {zs : List γ} (h : List.Forall₂ R xs ys) (h' : List.Forall₂ S ys zs)
    (hT : ∀ x ∈ xs, ∀ y ∈ ys, ∀ z ∈ zs, R x y → S y z → T x z) : List.Forall₂ T xs zs := by
  induction h generalizing zs with
  | nil =>
    cases h'
    exact .nil
  | cons hxy _ ih =>
    cases h' with
    | cons hyz h' =>
      simp only [List.forall_mem_cons] at hT
      exact .cons (hT.1.1.1 hxy hyz) (ih h' fun x hx y hy => ((hT.2 x hx).2 y hy).2)

/-! ## Tables -/

namespace Table

variable {κ α β γ : Type} [BEq κ] [LawfulBEq κ] {R : α → β → Prop} {xs : List (κ × α)}
  {ys : List (κ × β)} {zs : List (κ × γ)}

/-- Every entry of the first table has its partner under the same key of the second, which is as
long. -/
structure Matches (R : α → β → Prop) (xs : List (κ × α)) (ys : List (κ × β)) : Prop where
  length : xs.length = ys.length
  found : ∀ entry ∈ xs, ∃ b, get? entry.1 ys = some b ∧ R entry.2 b

namespace Matches

/-- Both tables have the same keys, those of the second no key twice if those of the first do not. -/
theorem keys_perm (h : Matches R xs ys) (hx : (xs.map (·.1)).Nodup) :
    (xs.map (·.1)).Perm (ys.map (·.1)) := by
  have hsub : xs.map (·.1) ⊆ ys.map (·.1) := by
    intro key hkey
    obtain ⟨entry, he, rfl⟩ := List.mem_map.1 hkey
    obtain ⟨b, hb, -⟩ := h.found entry he
    exact List.mem_map_of_mem (f := (·.1)) (mem_of_get? hb)
  apply (List.subperm_of_subset hx hsub).perm_of_length_le
  rw [List.length_map, List.length_map]
  exact Nat.le_of_eq h.length.symm

theorem symm {S : β → α → Prop} (h : Matches R xs ys) (hx : (xs.map (·.1)).Nodup)
    (hS : ∀ x ∈ xs, ∀ y ∈ ys, R x.2 y.2 → S y.2 x.2) : Matches S ys xs := by
  have hkeys := h.keys_perm hx
  refine ⟨h.length.symm, fun y hy => ?_⟩
  obtain ⟨x, hmem, hkey⟩ := List.mem_map.1 (hkeys.symm.subset (List.mem_map_of_mem hy))
  obtain ⟨b, hb, hR⟩ := h.found x hmem
  rw [hkey, get?_of_mem (hkeys.nodup hx) hy] at hb
  cases hb
  refine ⟨x.2, ?_, hS x hmem y hy hR⟩
  rw [← hkey]
  exact get?_of_mem hx hmem

theorem trans {S : β → γ → Prop} {T : α → γ → Prop} (h : Matches R xs ys) (h' : Matches S ys zs)
    (hT : ∀ x ∈ xs, ∀ y ∈ ys, ∀ z ∈ zs, R x.2 y.2 → S y.2 z.2 → T x.2 z.2) : Matches T xs zs := by
  refine ⟨h.length.trans h'.length, fun x hx => ?_⟩
  obtain ⟨b, hb, hR⟩ := h.found x hx
  obtain ⟨c, hc, hS⟩ := h'.found _ (mem_of_get? hb)
  exact ⟨c, hc, hT x hx _ (mem_of_get? hb) _ (mem_of_get? hc) hR hS⟩

/-- Entries that stand under the same keys one by one are found there. -/
theorem of_forall₂ (h : List.Forall₂ (fun x y => x.1 = y.1 ∧ R x.2 y.2) xs ys)
    (hx : (xs.map (·.1)).Nodup) : Matches R xs ys := by
  refine ⟨h.length_eq, ?_⟩
  induction h with
  | nil => exact nofun
  | @cons x y xs ys hxy _ ih =>
    rw [List.map_cons, List.nodup_cons] at hx
    rw [List.forall_mem_cons]
    refine ⟨⟨y.2, by simp [get?, hxy.1], hxy.2⟩, fun entry he => ?_⟩
    obtain ⟨b, hb, hR⟩ := ih hx.2 entry he
    have hne : y.1 ≠ entry.1 := by
      intro heq
      exact hx.1 (hxy.1.trans heq ▸ List.mem_map_of_mem he)
    exact ⟨b, by simp [get?, hne, hb], hR⟩

/-- Entries that stand in another order are found all the same. -/
theorem of_perm {S : α → α → Prop} {ys : List (κ × α)} (h : xs.Perm ys)
    (hy : (ys.map (·.1)).Nodup) (hS : ∀ x ∈ xs, S x.2 x.2) : Matches S xs ys :=
  ⟨h.length_eq, fun x hx => ⟨x.2, get?_of_mem hy (h.subset hx), hS x hx⟩⟩

end Matches

end Table

/-! ## Types -/

namespace DataType

/-- The typed properties of a bean type. -/
def properties : DataType → List (String × DataType)
  | .bean _ properties => properties
  | _ => []

/-- A type in which no bean type has two properties of one name. -/
inductive Proper : DataType → Prop
  | intro {type : DataType} (distinct : (type.properties.map (·.1)).Nodup)
      (below : ∀ entry ∈ type.properties, Proper entry.2) : Proper type

variable {n m : String} {a b c : DataType} {ps qs : List (String × DataType)}

theorem Proper.properties (h : (bean n ps).Proper) :
    (ps.map (·.1)).Nodup ∧ ∀ entry ∈ ps, entry.2.Proper := by
  cases h with
  | intro distinct below => exact ⟨distinct, below⟩

theorem allIn_iff : allIn ps qs = true ↔
    ∀ entry ∈ ps, ∃ b, Table.get? entry.1 qs = some b ∧ agrees entry.2 b = true := by
  induction ps with
  | nil => simp [allIn]
  | cons entry ps ih =>
    rw [allIn, Bool.and_eq_true, ih, List.forall_mem_cons]
    refine and_congr_left fun _ => ?_
    cases Table.get? entry.1 qs <;> simp

theorem forall₂_of_agreeInOrder (h : agreeInOrder ps qs = true) :
    List.Forall₂ (fun p q => p.1 = q.1 ∧ agrees p.2 q.2 = true) ps qs := by
  induction ps generalizing qs with
  | nil =>
    cases qs with
    | nil => exact .nil
    | cons q qs => simp [agreeInOrder] at h
  | cons p ps ih =>
    cases qs with
    | nil => simp [agreeInOrder] at h
    | cons q qs =>
      simp only [agreeInOrder, Bool.and_eq_true, beq_iff_eq] at h
      exact .cons h.1 (ih h.2)

/-- Bean types agree when their properties do, in whatever order. -/
theorem agrees_bean_iff (hp : (ps.map (·.1)).Nodup) :
    agrees (.bean n ps) (.bean m qs) = true ↔ n = m ∧ Table.Matches (agrees · · = true) ps qs := by
  simp only [agrees, Bool.and_eq_true, beq_iff_eq, Bool.or_eq_true]
  refine and_congr_right fun _ => ⟨fun h => ?_, fun h => .inr ⟨h.length, allIn_iff.2 h.found⟩⟩
  rcases h with h | ⟨hlen, h⟩
  · exact .of_forall₂ (forall₂_of_agreeInOrder h) hp
  · exact ⟨hlen, allIn_iff.1 h⟩

/-- Only a bean type agrees with a bean type, and any other type with itself alone. -/
theorem agrees_cases (h : agrees a b = true) :
    a = b ∨ ∃ n m ps qs, a = .bean n ps ∧ b = .bean m qs := by
  cases a <;> cases b <;> first
    | exact .inl rfl
    | exact .inr ⟨_, _, _, _, rfl, rfl⟩
    | cases h

theorem Proper.agrees_symm (ha : a.Proper) : ∀ {b : DataType}, b.Proper → agrees a b = true →
    agrees b a = true := by
  induction ha with
  | @intro a distinct _ ih =>
    intro b hb h
    rcases agrees_cases h with rfl | ⟨n, m, ps, qs, rfl, rfl⟩
    · exact h
    obtain ⟨rfl, hmatch⟩ := (agrees_bean_iff distinct).1 h
    apply (agrees_bean_iff hb.properties.1).2
    exact ⟨rfl, hmatch.symm distinct fun p hp q hq => ih p hp (hb.properties.2 q hq)⟩

theorem Proper.agrees_trans (hb : b.Proper) : ∀ {a c : DataType}, a.Proper →
    agrees a b = true → agrees b c = true → agrees a c = true := by
  induction hb with
  | @intro b distinct _ ih =>
    intro a c ha hab hbc
    rcases agrees_cases hab with rfl | ⟨n, m, ps, qs, rfl, rfl⟩
    · exact hbc
    rcases agrees_cases hbc with rfl | ⟨-, k, -, rs, -, rfl⟩
    · exact hab
    obtain ⟨rfl, hpq⟩ := (agrees_bean_iff ha.properties.1).1 hab
    obtain ⟨rfl, hqr⟩ := (agrees_bean_iff distinct).1 hbc
    apply (agrees_bean_iff ha.properties.1).2
    exact ⟨rfl, hpq.trans hqr fun p hp q hq r _ => ih q hq (ha.properties.2 p hp)⟩

end DataType

namespace BeanType

variable {t u v : BeanType}

theorem beq_iff : (t == u) = true ↔ t.type.agrees u.type = true := by
  rw [← DataType.same_eq_agrees]
  rfl

theorem beq_comm (ht : t.type.Proper) (hu : u.type.Proper) : (t == u) = (u == t) := by
  rw [Bool.eq_iff_iff, beq_iff, beq_iff]
  exact ⟨ht.agrees_symm hu, hu.agrees_symm ht⟩

theorem beq_trans (ht : t.type.Proper) (hu : u.type.Proper) (htu : (t == u) = true)
    (huv : (u == v) = true) : (t == v) = true :=
  beq_iff.2 (hu.agrees_trans ht (beq_iff.1 htu) (beq_iff.1 huv))

end BeanType

/-! ## Document trees and bytes -/

namespace DomNode

mutual

theorem same_iff : ∀ {a b : DomNode}, same a b = true ↔ a = b
  | .element n cs, .element m ds => by
    have hchildren : sameAll cs ds = true ↔ cs = ds := sameAll_iff
    simp [same, hchildren]
  | .text s, .text t => by simp [same]
  | .element _ _, .text _ | .text _, .element _ _ => by simp [same]

theorem sameAll_iff : ∀ {cs ds : List DomNode}, sameAll cs ds = true ↔ cs = ds
  | [], [] => by simp [sameAll]
  | c :: cs, d :: ds => by
    have hnode : same c d = true ↔ c = d := same_iff
    have hrest : sameAll cs ds = true ↔ cs = ds := sameAll_iff
    simp [sameAll, hnode, hrest]
  | [], _ :: _ | _ :: _, [] => by simp [sameAll]

end

instance : LawfulBEq DomNode where
  eq_of_beq h := same_iff.1 h
  rfl := same_iff.2 rfl

end DomNode

instance lawfulBytes : LawfulBEq ByteArray where
  eq_of_beq {x y} h := by
    obtain ⟨xs⟩ := x
    obtain ⟨ys⟩ := y
    replace h : (xs == ys) = true := h
    exact congrArg ByteArray.mk (eq_of_beq h)
  rfl {x} := by
    obtain ⟨xs⟩ := x
    exact beq_self_eq_true xs

end RowMapper
