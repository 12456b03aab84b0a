/-
Tables of items by their ids. The tables of a catalog hold every item under its own id and no id
twice (`Table.Indexed`): ids are distinct when they are entered, and no later step of building a
catalog changes one.
-/
import RowMapper.Catalog.Build
import Mathlib.Data.List.Basic
import Mathlib.Data.List.Nodup
import Mathlib.Data.List.Forall2

namespace RowMapper

/-! ## Loops that may fail -/

namespace Except

variable {ε α β : Type}

theorem bind_eq_ok_iff {x : Except ε α} {f : α → Except ε β} {b : β} :
    x >>= f = .ok b ↔ ∃ a, x = .ok a ∧ f a = .ok b := by
  cases x with
  | error e => exact ⟨nofun, nofun⟩
  | ok a => exact ⟨fun h => ⟨a, rfl, h⟩, fun ⟨_, h, hf⟩ => (Except.ok.inj h) ▸ hf⟩

theorem map_eq_ok_iff {x : Except ε α} {f : α → β} {b : β} :
    x.map f = .ok b ↔ ∃ a, x = .ok a ∧ f a = b := by
  cases x <;> simp [Except.map]

theorem mapError_eq_ok_iff {ε' : Type} {x : Except ε α} {f : ε → ε'} {a : α} :
    x.mapError f = .ok a ↔ x = .ok a := by
  cases x <;> simp [Except.mapError]

theorem forM_ok_iff {f : α → Except ε Unit} {xs : List α} :
    forM xs f = .ok () ↔ ∀ x ∈ xs, f x = .ok () := by
  induction xs with
  | nil => exact ⟨fun _ => by simp, fun _ => rfl⟩
  | cons x xs ih =>
    rw [List.forM_cons, List.forall_mem_cons, ← ih]
    refine bind_eq_ok_iff.trans ⟨fun ⟨_, hx, hr⟩ => ⟨hx, hr⟩, fun ⟨hx, hr⟩ => ⟨_, hx, hr⟩⟩

/-- A loop that fails fails at one of its items. -/
theorem exists_of_forM_error {f : α → Except ε Unit} {xs : List α} {e : ε}
    (h : forM xs f = .error e) : ∃ x ∈ xs, f x = .error e := by
  induction xs with
  | nil => cases h
  | cons x xs ih =>
    rw [List.forM_cons] at h
    cases hx : f x with
    | error e' =>
      rw [hx] at h
      exact ⟨x, List.mem_cons_self .., hx.trans h⟩
    | ok =>
      rw [hx] at h
      obtain ⟨y, hy, hf⟩ := ih h
      exact ⟨y, List.mem_cons_of_mem _ hy, hf⟩

theorem bind_congr {x : Except ε α} {f g : α → Except ε β} (h : ∀ a, x = .ok a → f a = g a) :
    x >>= f = x >>= g := by
  cases x with
  | error e => rfl
  | ok a => exact h a rfl

theorem map_bind {γ : Type} (x : Except ε α) (f : α → Except ε β) (g : β → γ) :
    (x >>= f).map g = x >>= fun a => (f a).map g := by
  cases x <;> rfl

theorem mapM_congr {f g : α → Except ε β} {xs : List α} (h : ∀ x ∈ xs, f x = g x) :
    xs.mapM f = xs.mapM g := by
  induction xs with
  | nil => rfl
  | cons x xs ih =>
    rw [List.forall_mem_cons] at h
    rw [List.mapM_cons, List.mapM_cons, h.1, ih h.2]

/-- A loop that succeeds gives one result for each item. -/
theorem forall₂_of_mapM_ok {f : α → Except ε β} {xs : List α} {ys : List β}
    (h : xs.mapM f = .ok ys) : List.Forall₂ (fun x y => f x = .ok y) xs ys := by
  induction xs generalizing ys with
  | nil => cases h; exact .nil
  | cons x xs ih =>
    rw [List.mapM_cons] at h
    obtain ⟨y, hy, h⟩ := bind_eq_ok_iff.1 h
    obtain ⟨rest, hr, h⟩ := bind_eq_ok_iff.1 h
    cases h
    exact .cons hy (ih hr)

theorem exists_of_mapM_ok {f : α → Except ε β} {xs : List α} {ys : List β} {y : β}
    (h : xs.mapM f = .ok ys) (hy : y ∈ ys) : ∃ x ∈ xs, f x = .ok y := by
  have hf := forall₂_of_mapM_ok h
  clear h
  induction hf with
  | nil => cases hy
  | cons hx _ ih =>
    rcases List.mem_cons.1 hy with rfl | hy
    · exact ⟨_, List.mem_cons_self .., hx⟩
    · obtain ⟨x, hmem, hx⟩ := ih hy
      exact ⟨x, List.mem_cons_of_mem _ hmem, hx⟩

end Except

/-! ## Look-ups -/

namespace Table

variable {κ α : Type} [BEq κ] [LawfulBEq κ] {key : κ} {a : α} {table : List (κ × α)}

theorem mem_of_get? (h : get? key table = some a) : (key, a) ∈ table := by
  induction table with
  | nil => cases h
  | cons entry rest ih =>
    obtain ⟨k, v⟩ := entry
    by_cases hk : k = key
    · subst hk
      simp only [get?, beq_self_eq_true, if_true, Option.some.injEq] at h
      subst h
      exact List.mem_cons_self ..
    · have hb : (k == key) = false := by simpa using hk
      rw [get?, hb] at h
      exact List.mem_cons_of_mem _ (ih h)

theorem get?_eq_none_iff : get? key table = none ↔ key ∉ table.map (·.1) := by
  induction table with
  | nil => simp [get?]
  | cons entry rest ih =>
    obtain ⟨k, v⟩ := entry
    by_cases hk : k = key
    · simp [get?, hk]
    · simp [get?, hk, ih, Ne.symm hk]

theorem contains_iff : contains key table = true ↔ key ∈ table.map (·.1) := by
  unfold contains
  rw [← not_iff_not, ← get?_eq_none_iff, Bool.not_eq_true, Option.isSome_eq_false_iff,
    Option.isNone_iff_eq_none]

theorem get?_of_mem (hn : (table.map (·.1)).Nodup) (h : (key, a) ∈ table) :
    get? key table = some a := by
  induction table with
  | nil => cases h
  | cons entry rest ih =>
    obtain ⟨k, v⟩ := entry
    rw [List.map_cons, List.nodup_cons] at hn
    rcases List.mem_cons.1 h with he | h
    · cases he
      simp [get?]
    · have hk : k ≠ key := by
        rintro rfl
        exact hn.1 (List.mem_map.2 ⟨_, h, rfl⟩)
      have hb : (k == key) = false := by simpa using hk
      rw [get?, hb]
      exact ih hn.2 h

/-- With distinct keys the position of a key is the one that holds it. -/
theorem indexOf?_eq_some_iff (hn : (table.map (·.1)).Nodup) {i : Nat} :
    indexOf? key table = some i ↔ ∃ a, table[i]? = some (key, a) := by
  unfold indexOf?
  constructor
  · intro h
    obtain ⟨hi, hk, -⟩ := List.findIdx?_eq_some_iff_getElem.1 h
    refine ⟨table[i].2, ?_⟩
    rw [List.getElem?_eq_getElem hi, ← (by simpa using hk : table[i].1 = key)]
  · rintro ⟨a, ha⟩
    obtain ⟨hi, he⟩ := List.getElem?_eq_some_iff.1 ha
    refine List.findIdx?_eq_some_iff_getElem.2 ⟨hi, by simp [he], fun j hj => ?_⟩
    have hne := List.pairwise_iff_getElem.1 (List.pairwise_map.1 hn) j i (Nat.lt_trans hj hi) hi hj
    simpa [he] using hne

/-! ## Tables by id -/

/-- Every item stands under its own id, and no id stands twice. -/
structure Indexed (id : α → String) (table : List (String × α)) : Prop where
  nodup : (table.map (·.1)).Nodup
  own : ∀ entry ∈ table, entry.1 = id entry.2

variable {id : α → String} {items : List (String × α)}

theorem Indexed.nil : Indexed id [] := ⟨List.nodup_nil, by simp⟩

theorem Indexed.get?_eq_some_iff (h : Indexed id items) {key : String} {a : α} :
    get? key items = some a ↔ (key, a) ∈ items :=
  ⟨mem_of_get?, get?_of_mem h.nodup⟩

/-- A new item may be entered under its id. -/
theorem Indexed.append (h : Indexed id items) {key : String} {a : α} (hk : key = id a)
    (hnew : ¬ contains key items = true) : Indexed id (items ++ [(key, a)]) := by
  rw [contains_iff] at hnew
  refine ⟨?_, fun entry he => ?_⟩
  · rw [List.map_append, List.map_singleton, List.nodup_append]
    refine ⟨h.nodup, List.nodup_singleton _, fun x hx y hy hxy => hnew ?_⟩
    have he : x = key := hxy.trans (List.mem_singleton.1 hy)
    exact he ▸ hx
  · rcases List.mem_append.1 he with he | he
    · exact h.own entry he
    · rw [List.mem_singleton.1 he]
      exact hk

/-- What keeps key and id of every item keeps a table by id. -/
theorem Indexed.of_forall₂ (h : Indexed id items) {new : List (String × α)}
    (hf : List.Forall₂ (fun x y => y.1 = x.1 ∧ id y.2 = id x.2) items new) : Indexed id new := by
  have hkeys : new.map (·.1) = items.map (·.1) ∧ ∀ y ∈ new, y.1 = id y.2 := by
    have hown := h.own
    clear h
    induction hf with
    | nil => exact ⟨rfl, by simp⟩
    | cons hxy _ ih =>
      rw [List.forall_mem_cons] at hown
      obtain ⟨hk, ho⟩ := ih hown.2
      refine ⟨by rw [List.map_cons, List.map_cons, hxy.1, hk], List.forall_mem_cons.2 ⟨?_, ho⟩⟩
      rw [hxy.1, hxy.2, hown.1]
  exact ⟨hkeys.1 ▸ h.nodup, hkeys.2⟩

theorem Indexed.map (h : Indexed id items) {f : String × α → String × α}
    (hf : ∀ x, (f x).1 = x.1 ∧ id (f x).2 = id x.2) : Indexed id (items.map f) :=
  h.of_forall₂ (List.forall₂_map_right_iff.2 (List.forall₂_same.2 fun x _ => hf x))

end Table

/-! ## The tables of a catalog -/

namespace Catalog

open Table

theorem indexById_indexed {α : Type} {item : CatalogItem} {id : α → String} :
    ∀ {items : List α} {indexed table : List (String × α)}, Indexed id indexed →
      indexById item id items indexed = .ok table → Indexed id table
  | [], _, _, h, he => by
    cases he
    exact h
  | a :: rest, indexed, table, h, he => by
    unfold indexById at he
    split at he
    · cases he
    · exact indexById_indexed (h.append rfl ‹_›) he

theorem addAutoMaps_indexed :
    ∀ {statements new : List (String × Statement)} {maps table : List (String × ResultMap)},
      Indexed ResultMap.id maps → addAutoMaps statements maps = .ok (new, table) →
      Indexed ResultMap.id table ∧
        List.Forall₂ (fun x y => y.1 = x.1 ∧ y.2.id = x.2.id) statements new
  | [], _, _, _, h, he => by
    cases he
    exact ⟨h, .nil⟩
  | (key, s) :: rest, new, maps, table, h, he => by
    unfold addAutoMaps at he
    split at he
    · dsimp only at he
      split at he
      · cases he
      · obtain ⟨⟨statements, maps'⟩, hr, he⟩ := Except.bind_eq_ok_iff.1 he
        cases he
        obtain ⟨hm, hs⟩ := addAutoMaps_indexed (h.append (a := .auto _ _ _) rfl ‹_›) hr
        exact ⟨hm, .cons ⟨rfl, rfl⟩ hs⟩
    · obtain ⟨⟨statements, maps'⟩, hr, he⟩ := Except.bind_eq_ok_iff.1 he
      cases he
      obtain ⟨hm, hs⟩ := addAutoMaps_indexed h hr
      exact ⟨hm, .cons ⟨rfl, rfl⟩ hs⟩

theorem mapValues_indexed {α : Type} {id : α → String} {f : α → Except Error α}
    {table new : List (String × α)} (h : Indexed id table)
    (hf : ∀ a b, f a = .ok b → id b = id a) (he : mapValues f table = .ok new) :
    Indexed id new := by
  refine h.of_forall₂ ((Except.forall₂_of_mapM_ok he).imp fun x y hxy => ?_)
  obtain ⟨b, hb, rfl⟩ := Except.map_eq_ok_iff.1 hxy
  exact ⟨rfl, hf _ _ hb⟩

theorem id_modifyMappings {m n : ResultMap} {f : ResultMapping → Except Error ResultMapping}
    (h : m.modifyMappings f = .ok n) : n.id = m.id := by
  unfold ResultMap.modifyMappings at h
  cases hm : m.mappings <;> cases hd : m.discriminator <;> simp only [hm, hd] at h
  all_goals
    obtain ⟨mappings, -, h⟩ := Except.bind_eq_ok_iff.1 h
    obtain ⟨discriminator, -, h⟩ := Except.bind_eq_ok_iff.1 h
    cases h
    rfl

theorem id_resolveMap {registry : Registry} {m n : ResultMap}
    (h : resolveMap registry m = .ok n) : n.id = m.id := by
  unfold resolveMap at h
  cases hm : m.modifyMappings (ResultMapping.resolve registry m.resultClass) with
  | error e => rw [hm] at h; cases h
  | ok resolved => rw [hm] at h; cases h; exact id_modifyMappings hm

theorem id_resolveStatement {registry : Registry} {s t : Statement}
    (h : resolveStatement registry s = .ok t) : t.id = s.id := by
  unfold resolveStatement at h
  split at h
  · split at h
    · cases h; rfl
    · cases h
  · cases h; rfl

theorem assemble_of_build {plan : CatalogPlan} {c : Catalog} (h : build plan = .ok c) :
    assemble plan = .ok c := by
  obtain ⟨c', ha, h⟩ := Except.bind_eq_ok_iff.1 h
  obtain ⟨_, -, h⟩ := Except.bind_eq_ok_iff.1 h
  cases h
  exact ha

/-- How a catalog is assembled: the planned items are indexed, statements without a map are given one of
their own, references are qualified if there are namespaces, and mappings are resolved. -/
theorem assemble_eq_ok {plan : CatalogPlan} {c : Catalog} (h : assemble plan = .ok c) :
    ∃ maps statements statements' maps',
      indexById .resultMap ResultMap.id plan.resultMaps [] = .ok maps ∧
      indexById .statement Statement.id plan.statements [] = .ok statements ∧
      addAutoMaps statements maps = .ok (statements', maps') ∧
      mapValues (resolveMap plan.registry)
        (if plan.settings.namespaces then
          maps'.map fun entry => (entry.1, entry.2.qualify (maps'.map (·.1)) (statements'.map (·.1)))
        else maps') = .ok c.resultMaps ∧
      mapValues (resolveStatement plan.registry)
        (if plan.settings.namespaces then
          statements'.map fun entry => (entry.1, entry.2.qualify (maps'.map (·.1)))
        else statements') = .ok c.statements ∧
      c.registry = plan.registry := by
  unfold assemble at h
  obtain ⟨maps, hmaps, h⟩ := Except.bind_eq_ok_iff.1 h
  obtain ⟨statements, hstatements, h⟩ := Except.bind_eq_ok_iff.1 h
  obtain ⟨⟨statements', maps'⟩, hauto, h⟩ := Except.bind_eq_ok_iff.1 h
  obtain ⟨resolvedMaps, hresolved, h⟩ := Except.bind_eq_ok_iff.1 h
  obtain ⟨resolvedStatements, hresolved', h⟩ := Except.bind_eq_ok_iff.1 h
  cases h
  exact ⟨maps, statements, statements', maps', hmaps, hstatements, hauto, hresolved, hresolved', rfl⟩

/-- The tables of an assembled catalog are by id. -/
theorem assemble_indexed {plan : CatalogPlan} {c : Catalog} (h : assemble plan = .ok c) :
    Indexed ResultMap.id c.resultMaps ∧ Indexed Statement.id c.statements := by
  obtain ⟨maps, statements, statements', maps', hmaps, hstatements, hauto, hrm, hrs, -⟩ := assemble_eq_ok h
  obtain ⟨hm, hf⟩ := addAutoMaps_indexed (indexById_indexed .nil hmaps) hauto
  have hs := (indexById_indexed .nil hstatements).of_forall₂ hf
  refine ⟨mapValues_indexed ?_ (fun _ _ => id_resolveMap) hrm,
    mapValues_indexed ?_ (fun _ _ => id_resolveStatement) hrs⟩
  · split
    · exact hm.map fun _ => ⟨rfl, rfl⟩
    · exact hm
  · split
    · exact hs.map fun _ => ⟨rfl, rfl⟩
    · exact hs

end Catalog

end RowMapper
