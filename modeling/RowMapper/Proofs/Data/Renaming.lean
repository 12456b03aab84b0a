/-
Renaming references. What a store shows of a value does not depend on which references stand for its
objects: in a store that holds the objects of another under new names (`Renaming.Copies`), a renamed
value has the same content, up to the names, the same text, and the same equals.
-/
import Mathlib.Data.Finset.Card
import Mathlib.Data.Finset.Range
import RowMapper.Proofs.Data.Store
import RowMapper.Proofs.Data.Value

namespace RowMapper

/-- New names for references, different ones for different references. -/
structure Renaming where
  object : ObjectRef → ObjectRef
  lazy : LazyRef → LazyRef
  object_inj : Function.Injective object
  lazy_inj : Function.Injective lazy

@[simp] theorem Renaming.object_beq (φ : Renaming) (r q : ObjectRef) :
    (φ.object r == φ.object q) = (r == q) := by
  rw [Bool.eq_iff_iff, beq_iff_eq, beq_iff_eq, φ.object_inj.eq_iff]

@[simp] theorem Renaming.lazy_beq (φ : Renaming) (r q : LazyRef) :
    (φ.lazy r == φ.lazy q) = (r == q) := by
  rw [Bool.eq_iff_iff, beq_iff_eq, beq_iff_eq, φ.lazy_inj.eq_iff]

namespace Value

mutual

def rename (φ : Renaming) : Value → Value
  | .object ref => .object (φ.object ref)
  | .lazy ref => .lazy (φ.lazy ref)
  | .list items => .list (renameAll φ items)
  | .set items => .set (renameAll φ items)
  | .record fields => .record (renameAll φ fields)
  | v => v

def renameAll (φ : Renaming) : List Value → List Value
  | [] => []
  | v :: vs => rename φ v :: renameAll φ vs

end

variable {φ : Renaming}

theorem renameAll_eq_map (vs : List Value) : renameAll φ vs = vs.map (rename φ) := by
  induction vs with
  | nil => rfl
  | cons v vs ih => simp [renameAll, ih]

@[simp] theorem variant_rename (v : Value) : (v.rename φ).variant = v.variant := by
  cases v <;> rfl

@[simp] theorem isNull_rename (v : Value) : (v.rename φ).isNull = v.isNull := by
  cases v <;> rfl

mutual

/-- A value whose references keep their names stays as it is. -/
theorem rename_eq_self : ∀ (v : Value), (∀ ref ∈ v.objects, φ.object ref = ref) →
    (∀ ref ∈ v.lazies, φ.lazy ref = ref) → v.rename φ = v
  | .null, _, _ | .bool _, _, _ | .i32 _, _, _ | .i64 _, _, _ | .f64 _, _, _ | .string _, _, _
  | .bytes _, _, _ | .timestamp _, _, _ => rfl
  | .list items, ho, hl => congrArg Value.list (renameAll_eq_self items ho hl)
  | .set items, ho, hl => congrArg Value.set (renameAll_eq_self items ho hl)
  | .record items, ho, hl => congrArg Value.record (renameAll_eq_self items ho hl)
  | .object ref, ho, _ => congrArg Value.object (ho ref (List.mem_singleton_self ref))
  | .lazy ref, _, hl => congrArg Value.lazy (hl ref (List.mem_singleton_self ref))

theorem renameAll_eq_self : ∀ (vs : List Value), (∀ ref ∈ objectsIn vs, φ.object ref = ref) →
    (∀ ref ∈ laziesIn vs, φ.lazy ref = ref) → renameAll φ vs = vs
  | [], _, _ => rfl
  | v :: vs, ho, hl => by
    unfold renameAll
    rw [rename_eq_self v (fun ref h => ho ref (List.mem_append_left _ h))
        (fun ref h => hl ref (List.mem_append_left _ h)),
      renameAll_eq_self vs (fun ref h => ho ref (List.mem_append_right _ h))
        (fun ref h => hl ref (List.mem_append_right _ h))]

end

theorem Plain.rename {v : Value} (h : v.Plain) : v.rename φ = v :=
  rename_eq_self v (by simp [h.objects]) (by simp [h.lazies])

end Value

theorem DataType.cast_rename {φ : Renaming} (type : DataType) (v : Value) :
    type.cast (v.rename φ) = (type.cast v).map (·.rename φ) := by
  cases hv : type.cast v with
  | error e =>
    -- a value that refers to something is refused by its variant alone
    cases v <;> first
      | exact hv
      | (cases type <;> first | exact hv | cases hv)
  | ok w =>
    rcases DataType.cast_eq_or_plain hv with rfl | hplain
    · cases w <;> first
        | exact hv
        | (cases type <;> first | rfl | cases hv)
    · cases v <;> first
        | (rw [Except.map, hplain.rename]; exact hv)
        | (cases type <;> first | (cases hv; rfl) | cases hv)

/-! ## Contents -/

namespace Content

mutual

/-- The content with other names for what it shows. -/
def rename (object : ObjectRef → ObjectRef) (lazy : LazyRef → LazyRef) : Content → Content
  | .list items => .list (renameAll object lazy items)
  | .set items => .set (renameAll object lazy items)
  | .record fields => .record (renameAll object lazy fields)
  | .map ref entries => .map (object ref) (renameEntries object lazy entries)
  | .bean ref type fields => .bean (object ref) type (renameAll object lazy fields)
  | .dom ref node => .dom (object ref) node
  | .unloaded ref => .unloaded (lazy ref)
  | .loaded ref value => .loaded (lazy ref) (rename object lazy value)
  | c => c

def renameAll (object : ObjectRef → ObjectRef) (lazy : LazyRef → LazyRef) :
    List Content → List Content
  | [] => []
  | c :: cs => rename object lazy c :: renameAll object lazy cs

def renameEntries (object : ObjectRef → ObjectRef) (lazy : LazyRef → LazyRef) :
    List (String × Content) → List (String × Content)
  | [] => []
  | (key, c) :: rest => (key, rename object lazy c) :: renameEntries object lazy rest

end

/-- The content without the names: what there is to see of a value. -/
def unnamed : Content → Content := rename (fun _ => ⟨0⟩) fun _ => ⟨0⟩

section

variable {object : ObjectRef → ObjectRef} {lazy : LazyRef → LazyRef}

theorem renameAll_eq_map (cs : List Content) :
    renameAll object lazy cs = cs.map (rename object lazy) := by
  induction cs with
  | nil => rfl
  | cons c cs ih => simp [renameAll, ih]

theorem renameEntries_eq_map (entries : List (String × Content)) :
    renameEntries object lazy entries =
      entries.map fun entry => (entry.1, rename object lazy entry.2) := by
  induction entries with
  | nil => rfl
  | cons entry entries ih => simp [renameEntries, ih]

@[simp] theorem length_renameAll (cs : List Content) :
    (renameAll object lazy cs).length = cs.length := by
  simp [renameAll_eq_map]

@[simp] theorem length_renameEntries (entries : List (String × Content)) :
    (renameEntries object lazy entries).length = entries.length := by
  simp [renameEntries_eq_map]

theorem get?_renameEntries (key : String) (entries : List (String × Content)) :
    Table.get? key (renameEntries object lazy entries) =
      (Table.get? key entries).map (rename object lazy) := by
  induction entries with
  | nil => rfl
  | cons entry rest ih =>
    obtain ⟨k, c⟩ := entry
    by_cases h : k = key <;> simp [renameEntries, Table.get?, h, ih]

mutual

theorem text_rename : ∀ c : Content, (rename object lazy c).text = c.text
  | .null | .bool _ | .i32 _ | .i64 _ | .f64 _ | .string _ | .bytes _ | .timestamp _ | .dom _ _
  | .unloaded _ => rfl
  | .list items => by simp [rename, text, texts_renameAll items]
  | .set items => by simp [rename, text, texts_renameAll items]
  | .record fields => by simp [rename, text, texts_renameAll fields]
  | .map _ entries => by simp [rename, text, entryTexts_renameEntries entries]
  | .bean _ type fields => by simp [rename, text, fieldTexts_renameAll type.properties fields]
  | .loaded _ value => by simp [rename, text, text_rename value]

theorem texts_renameAll : ∀ cs : List Content, texts (renameAll object lazy cs) = texts cs
  | [] => rfl
  | c :: cs => by simp [renameAll, texts, text_rename c, texts_renameAll cs]

theorem entryTexts_renameEntries : ∀ entries : List (String × Content),
    entryTexts (renameEntries object lazy entries) = entryTexts entries
  | [] => rfl
  | (key, c) :: rest => by
    simp [renameEntries, entryTexts, text_rename c, entryTexts_renameEntries rest]

theorem fieldTexts_renameAll : ∀ (properties : List (String × DataType)) (cs : List Content),
    fieldTexts properties (renameAll object lazy cs) = fieldTexts properties cs
  | [], [] | _ :: _, [] => rfl
  | [], c :: cs => rfl
  | (property, type) :: properties, c :: cs => by
    simp [renameAll, fieldTexts, text_rename c, fieldTexts_renameAll properties cs]

end

mutual

/-- With the names taken away twice nothing is left that the first time would have kept. -/
theorem unnamed_rename : ∀ c : Content, (rename object lazy c).unnamed = c.unnamed
  | .null | .bool _ | .i32 _ | .i64 _ | .f64 _ | .string _ | .bytes _ | .timestamp _ | .dom _ _
  | .unloaded _ => rfl
  | .list items => congrArg Content.list (unnamed_renameAll items)
  | .set items => congrArg Content.set (unnamed_renameAll items)
  | .record fields => congrArg Content.record (unnamed_renameAll fields)
  | .map _ entries => congrArg (Content.map ⟨0⟩) (unnamed_renameEntries entries)
  | .bean _ type fields => congrArg (Content.bean ⟨0⟩ type) (unnamed_renameAll fields)
  | .loaded _ value => congrArg (Content.loaded ⟨0⟩) (unnamed_rename value)

theorem unnamed_renameAll : ∀ cs : List Content,
    renameAll (fun _ => ⟨0⟩) (fun _ => ⟨0⟩) (renameAll object lazy cs) =
      renameAll (fun _ => ⟨0⟩) (fun _ => ⟨0⟩) cs
  | [] => rfl
  | c :: cs => by
    have hc : rename (fun _ => ⟨0⟩) (fun _ => ⟨0⟩) (rename object lazy c) = unnamed c := unnamed_rename c
    simp only [renameAll, hc, unnamed_renameAll cs]
    rfl

theorem unnamed_renameEntries : ∀ entries : List (String × Content),
    renameEntries (fun _ => ⟨0⟩) (fun _ => ⟨0⟩) (renameEntries object lazy entries) =
      renameEntries (fun _ => ⟨0⟩) (fun _ => ⟨0⟩) entries
  | [] => rfl
  | (key, c) :: rest => by
    have hc : rename (fun _ => ⟨0⟩) (fun _ => ⟨0⟩) (rename object lazy c) = unnamed c := unnamed_rename c
    simp only [renameEntries, hc, unnamed_renameEntries rest]
    rfl

end

end

section

variable (φ : Renaming)

mutual

/-- What is equal is so under all names. -/
theorem agrees_rename : ∀ (flipped : Bool) (a b : Content),
    agrees flipped (rename φ.object φ.lazy a) (rename φ.object φ.lazy b) = agrees flipped a b
  | flipped, .list xs, b => by cases b <;> simp [rename, agrees, allAgree_renameAll flipped xs]
  | flipped, .set xs, b => by
    cases b with
    | set ys =>
      have hall : ((renameAll φ.object φ.lazy ys).all fun y =>
          anyAgrees y (renameAll φ.object φ.lazy xs)) = ys.all fun y => anyAgrees y xs := by
        have hany := fun y => anyAgrees_renameAll y xs
        simp [renameAll_eq_map ys, Function.comp_def, hany]
      simp [rename, agrees, hall, allFound_renameAll xs ys]
    | _ => rfl
  | flipped, .record xs, b => by cases b <;> simp [rename, agrees, allAgree_renameAll flipped xs]
  | flipped, .map r xs, b => by
    cases b <;> simp [rename, agrees, entriesAgree_renameEntries flipped xs]
  | flipped, .bean r t xs, b => by cases b <;> simp [rename, agrees, allAgree_renameAll flipped xs]
  | flipped, .dom r x, b => by cases b <;> simp [rename, agrees]
  | flipped, .unloaded r, b => by cases b <;> simp [rename, agrees]
  | flipped, .loaded r x, b => by cases b <;> simp [rename, agrees, agrees_rename flipped x]
  | flipped, .null, b => by cases b <;> rfl
  | flipped, .bool _, b => by cases b <;> rfl
  | flipped, .i32 _, b => by cases b <;> rfl
  | flipped, .i64 _, b => by cases b <;> rfl
  | flipped, .f64 _, b => by cases b <;> rfl
  | flipped, .string _, b => by cases b <;> rfl
  | flipped, .bytes _, b => by cases b <;> rfl
  | flipped, .timestamp _, b => by cases b <;> rfl
termination_by structural _ a _ => a

theorem allAgree_renameAll : ∀ (flipped : Bool) (xs ys : List Content),
    allAgree flipped (renameAll φ.object φ.lazy xs) (renameAll φ.object φ.lazy ys) =
      allAgree flipped xs ys
  | _, [], [] | _, [], _ :: _ | _, _ :: _, [] => rfl
  | flipped, x :: xs, y :: ys => by
    simp [renameAll, allAgree, agrees_rename flipped x y, allAgree_renameAll flipped xs ys]
termination_by structural _ xs _ => xs

theorem allFound_renameAll : ∀ xs ys : List Content,
    allFound (renameAll φ.object φ.lazy xs) (renameAll φ.object φ.lazy ys) = allFound xs ys
  | [], _ => rfl
  | x :: xs, ys => by
    have hx : ∀ y, agrees true (rename φ.object φ.lazy x) (rename φ.object φ.lazy y) =
        agrees true x y := agrees_rename true x
    simp only [renameAll, allFound, allFound_renameAll xs ys]
    simp [renameAll_eq_map ys, Function.comp_def, hx]
termination_by structural xs _ => xs

theorem anyAgrees_renameAll : ∀ (y : Content) (xs : List Content),
    anyAgrees (rename φ.object φ.lazy y) (renameAll φ.object φ.lazy xs) = anyAgrees y xs
  | _, [] => rfl
  | y, x :: xs => by simp [renameAll, anyAgrees, agrees_rename false x y, anyAgrees_renameAll y xs]
termination_by structural _ xs => xs

theorem entriesAgree_renameEntries : ∀ (flipped : Bool) (xs ys : List (String × Content)),
    entriesAgree flipped (renameEntries φ.object φ.lazy xs) (renameEntries φ.object φ.lazy ys) =
      entriesAgree flipped xs ys
  | _, [], _ => rfl
  | flipped, (key, x) :: xs, ys => by
    simp only [renameEntries, entriesAgree, get?_renameEntries, entriesAgree_renameEntries flipped xs ys]
    cases Table.get? key ys with
    | none => rfl
    | some y => simp [agrees_rename flipped x y]
termination_by structural _ xs _ => xs

end

end

end Content

namespace Value

variable {φ : Renaming} {object object' : ObjectRef → Content} {lazy lazy' : LazyRef → Content}

mutual

/-- The content of a renamed value is its content renamed, if that is so for what it refers to. -/
theorem contentWith_rename (ho : ∀ ref, object' (φ.object ref) = (object ref).rename φ.object φ.lazy)
    (hl : ∀ ref, lazy' (φ.lazy ref) = (lazy ref).rename φ.object φ.lazy) : ∀ v : Value,
    (v.rename φ).contentWith object' lazy' = (v.contentWith object lazy).rename φ.object φ.lazy
  | .null | .bool _ | .i32 _ | .i64 _ | .f64 _ | .string _ | .bytes _ | .timestamp _ => rfl
  | .list items => congrArg Content.list (contentsWith_rename ho hl items)
  | .set items => congrArg Content.set (contentsWith_rename ho hl items)
  | .record fields => congrArg Content.record (contentsWith_rename ho hl fields)
  | .object ref => ho ref
  | .lazy ref => hl ref

theorem contentsWith_rename (ho : ∀ ref, object' (φ.object ref) = (object ref).rename φ.object φ.lazy)
    (hl : ∀ ref, lazy' (φ.lazy ref) = (lazy ref).rename φ.object φ.lazy) : ∀ vs : List Value,
    contentsWith object' lazy' (renameAll φ vs) =
      Content.renameAll φ.object φ.lazy (contentsWith object lazy vs)
  | [] => rfl
  | v :: vs => by
    simp only [renameAll, contentsWith, Content.renameAll, contentWith_rename ho hl v,
      contentsWith_rename ho hl vs]

end

end Value

/-! ## Stores -/

def ObjectData.rename (φ : Renaming) : ObjectData → ObjectData
  | .map entries => .map (entries.map fun entry => (entry.1, entry.2.rename φ))
  | .bean type fields => .bean type (fields.map (·.rename φ))
  | .dom node => .dom node

def LazyCell.rename (φ : Renaming) (cell : LazyCell) : LazyCell where
  query := { cell.query with parameter := cell.query.parameter.rename φ }
  loaded := cell.loaded.map (·.rename φ)

/-- The second store holds what the first does under new names, also what both are still to make. -/
structure Renaming.Copies (φ : Renaming) (s t : Store) : Prop where
  data : ∀ ref, t.data (φ.object ref) = (s.data ref).rename φ
  cell : ∀ ref, t.lazyCell? (φ.lazy ref) = (s.lazyCell? ref).map (·.rename φ)
  nextObject : ∀ i, φ.object ⟨s.objects.size + i⟩ = ⟨t.objects.size + i⟩
  nextLazy : ∀ i, φ.lazy ⟨s.lazies.size + i⟩ = ⟨t.lazies.size + i⟩

namespace ObjectData

variable {φ : Renaming}

@[simp] theorem kind_rename (d : ObjectData) : (d.rename φ).kind = d.kind := by
  cases d <;> rfl

@[simp] theorem type_rename (d : ObjectData) : (d.rename φ).type = d.type := by
  cases d <;> rfl

/-- An object that holds nothing has no references to rename. -/
theorem rename_eq_self {d : ObjectData} (h : ∀ v ∈ d.values, v = .null) : d.rename φ = d := by
  cases d with
  | map entries =>
    refine congrArg ObjectData.map ((List.map_congr_left fun entry he => ?_).trans (List.map_id _))
    obtain ⟨key, v⟩ := entry
    obtain rfl : v = .null := h v (List.mem_map_of_mem he)
    rfl
  | bean type fields =>
    refine congrArg (ObjectData.bean type) ((List.map_congr_left fun v hv => ?_).trans (List.map_id _))
    rw [h v hv]
    rfl
  | dom node => rfl

end ObjectData

namespace Store

/-- The number of references that a path behind a trail may still pass. -/
def unseen (s : Store) (trail : Trail) : Nat :=
  ((Finset.range s.objects.size).filter fun i => ⟨i⟩ ∉ trail.objects).card +
    ((Finset.range s.lazies.size).filter fun i => ⟨i⟩ ∉ trail.lazies).card

theorem unseen_le_depth (s : Store) (trail : Trail) : s.unseen trail ≤ s.depth := by
  unfold unseen depth
  have ho := Finset.card_filter_le (Finset.range s.objects.size) fun i => ⟨i⟩ ∉ trail.objects
  have hl := Finset.card_filter_le (Finset.range s.lazies.size) fun i => ⟨i⟩ ∉ trail.lazies
  rw [Finset.card_range] at ho hl
  omega

theorem unseen_object {s : Store} {trail : Trail} {ref : ObjectRef} (hlt : ref.index < s.objects.size)
    (hnew : ref ∉ trail.objects) :
    s.unseen { trail with objects := ref :: trail.objects } < s.unseen trail := by
  refine Nat.add_lt_add_right (Finset.card_lt_card (Finset.ssubset_iff_subset_ne.2 ⟨?_, ?_⟩)) _
  · intro i hi
    simp only [Finset.mem_filter, List.mem_cons, not_or] at hi ⊢
    exact ⟨hi.1, hi.2.2⟩
  · intro heq
    have hmem : ref.index ∈ (Finset.range s.objects.size).filter fun i => ⟨i⟩ ∉ trail.objects := by
      simp [hlt, hnew]
    rw [← heq] at hmem
    simp at hmem

theorem unseen_lazy {s : Store} {trail : Trail} {ref : LazyRef} (hlt : ref.index < s.lazies.size)
    (hnew : ref ∉ trail.lazies) :
    s.unseen { trail with lazies := ref :: trail.lazies } < s.unseen trail := by
  refine Nat.add_lt_add_left (Finset.card_lt_card (Finset.ssubset_iff_subset_ne.2 ⟨?_, ?_⟩)) _
  · intro i hi
    simp only [Finset.mem_filter, List.mem_cons, not_or] at hi ⊢
    exact ⟨hi.1, hi.2.2⟩
  · intro heq
    have hmem : ref.index ∈ (Finset.range s.lazies.size).filter fun i => ⟨i⟩ ∉ trail.lazies := by
      simp [hlt, hnew]
    rw [← heq] at hmem
    simp at hmem

theorem size_le_of_unseen {s : Store} {trail : Trail} {ref : ObjectRef} (h : s.unseen trail = 0)
    (hnew : ref ∉ trail.objects) : s.objects.size ≤ ref.index := by
  by_contra hlt
  have := unseen_object (Nat.not_le.1 hlt) hnew
  omega

theorem lazies_le_of_unseen {s : Store} {trail : Trail} {ref : LazyRef} (h : s.unseen trail = 0)
    (hnew : ref ∉ trail.lazies) : s.lazies.size ≤ ref.index := by
  by_contra hlt
  have := unseen_lazy (Nat.not_le.1 hlt) hnew
  omega

def Trail.rename (φ : Renaming) (trail : Trail) : Trail where
  objects := trail.objects.map φ.object
  lazies := trail.lazies.map φ.lazy

theorem objectContent_of_size_le {s : Store} {ref : ObjectRef} (h : s.objects.size ≤ ref.index)
    (inner : Value → Content) : s.objectContent inner ref = .map ref [] := by
  unfold objectContent
  rw [data_of_size_le h]
  rfl

theorem lazyContent_of_size_le {s : Store} {ref : LazyRef} (h : s.lazies.size ≤ ref.index)
    (inner : Value → Content) : s.lazyContent inner ref = .unloaded ref := by
  simp [lazyContent, loaded?, lazyCell?, Array.getElem?_eq_none h]

/-- One step into a value that is seen to the end. -/
theorem unfold_step {s : Store} {n : Nat} {trail : Trail} (h : s.unseen trail ≤ n) (v : Value) :
    s.unfold n trail v = v.contentWith
      (fun ref =>
        if trail.objects.contains ref then .map ref []
        else s.objectContent (s.unfold (n - 1) { trail with objects := ref :: trail.objects }) ref)
      (fun ref =>
        if trail.lazies.contains ref then .unloaded ref
        else s.lazyContent (s.unfold (n - 1) { trail with lazies := ref :: trail.lazies }) ref) := by
  cases n with
  | succ n => rfl
  | zero =>
    have hnone := Nat.le_zero.1 h
    refine Value.contentWith_congr v (fun ref _ => ?_) fun ref _ => ?_
    · split
      · rfl
      · rename_i hnew
        exact (objectContent_of_size_le (size_le_of_unseen hnone (by simpa using hnew)) _).symm
    · split
      · rfl
      · rename_i hnew
        exact (lazyContent_of_size_le (lazies_le_of_unseen hnone (by simpa using hnew)) _).symm

end Store

namespace Renaming.Copies

variable {φ : Renaming} {s t : Store} (h : φ.Copies s t)

include h

theorem object_lt_iff (ref : ObjectRef) :
    (φ.object ref).index < t.objects.size ↔ ref.index < s.objects.size := by
  constructor
  · intro hlt
    by_contra hge
    obtain ⟨i, hi⟩ := Nat.exists_eq_add_of_le (Nat.not_lt.1 hge)
    have hnext := h.nextObject i
    rw [← hi] at hnext
    rw [hnext] at hlt
    exact Nat.not_lt.2 (Nat.le_add_right _ i) hlt
  · intro hlt
    by_contra hge
    obtain ⟨i, hi⟩ := Nat.exists_eq_add_of_le (Nat.not_lt.1 hge)
    have hsame : ref = ⟨s.objects.size + i⟩ := φ.object_inj (by rw [h.nextObject, ← hi])
    rw [hsame] at hlt
    exact Nat.not_lt.2 (Nat.le_add_right _ i) hlt

theorem lazy_lt_iff (ref : LazyRef) :
    (φ.lazy ref).index < t.lazies.size ↔ ref.index < s.lazies.size := by
  constructor
  · intro hlt
    by_contra hge
    obtain ⟨i, hi⟩ := Nat.exists_eq_add_of_le (Nat.not_lt.1 hge)
    have hnext := h.nextLazy i
    rw [← hi] at hnext
    rw [hnext] at hlt
    exact Nat.not_lt.2 (Nat.le_add_right _ i) hlt
  · intro hlt
    by_contra hge
    obtain ⟨i, hi⟩ := Nat.exists_eq_add_of_le (Nat.not_lt.1 hge)
    have hsame : ref = ⟨s.lazies.size + i⟩ := φ.lazy_inj (by rw [h.nextLazy, ← hi])
    rw [hsame] at hlt
    exact Nat.not_lt.2 (Nat.le_add_right _ i) hlt

theorem objectContent {inner inner' : Value → Content}
    (hi : ∀ v, inner' (v.rename φ) = (inner v).rename φ.object φ.lazy) (ref : ObjectRef) :
    t.objectContent inner' (φ.object ref) = (s.objectContent inner ref).rename φ.object φ.lazy := by
  unfold Store.objectContent
  rw [h.data]
  cases s.data ref with
  | map entries =>
    simp [ObjectData.rename, Content.rename, Content.renameEntries_eq_map, Function.comp_def, hi]
  | bean type fields =>
    simp [ObjectData.rename, Content.rename, Content.renameAll_eq_map, Function.comp_def, hi]
  | dom node => rfl

theorem lazyContent {inner inner' : Value → Content}
    (hi : ∀ v, inner' (v.rename φ) = (inner v).rename φ.object φ.lazy) (ref : LazyRef) :
    t.lazyContent inner' (φ.lazy ref) = (s.lazyContent inner ref).rename φ.object φ.lazy := by
  unfold Store.lazyContent Store.loaded?
  rw [h.cell]
  cases s.lazyCell? ref with
  | none => rfl
  | some cell =>
    obtain ⟨query, loaded⟩ := cell
    cases loaded with
    | none => rfl
    | some v => simp [LazyCell.rename, Content.rename, hi]

/-- Both stores show the same behind a trail, as long as each is seen to the end. -/
theorem unfold_rename (n : Nat) : ∀ (m : Nat) (trail : Store.Trail) (v : Value), s.unseen trail ≤ n →
    t.unseen (trail.rename φ) ≤ m →
    t.unfold m (trail.rename φ) (v.rename φ) = (s.unfold n trail v).rename φ.object φ.lazy := by
  induction n using Nat.strong_induction_on with
  | _ n ih =>
    intro m trail v hs ht
    have hobjects : ∀ ref, φ.object ref ∈ (trail.rename φ).objects ↔ ref ∈ trail.objects := fun ref =>
      List.mem_map_of_injective φ.object_inj
    have hlazies : ∀ ref, φ.lazy ref ∈ (trail.rename φ).lazies ↔ ref ∈ trail.lazies := fun ref =>
      List.mem_map_of_injective φ.lazy_inj
    rw [Store.unfold_step hs, Store.unfold_step ht]
    refine Value.contentWith_rename (fun ref => ?_) (fun ref => ?_) v
    · by_cases hold : ref ∈ trail.objects
      · simp [hold, hobjects, Content.rename, Content.renameEntries]
      simp only [List.contains_eq_mem, hold, hobjects, decide_false, Bool.false_eq_true, if_false]
      by_cases hlt : ref.index < s.objects.size
      · have hs' := Store.unseen_object hlt hold
        have ht' := Store.unseen_object ((h.object_lt_iff ref).2 hlt) (mt (hobjects ref).1 hold)
        exact h.objectContent (fun v => ih (n - 1) (by omega) (m - 1)
          { trail with objects := ref :: trail.objects } v (by omega)
          (Nat.le_sub_one_of_lt (Nat.lt_of_lt_of_le ht' ht))) ref
      · have hlt' := mt (h.object_lt_iff ref).1 hlt
        rw [Store.objectContent_of_size_le (Nat.not_lt.1 hlt),
          Store.objectContent_of_size_le (Nat.not_lt.1 hlt')]
        rfl
    · by_cases hold : ref ∈ trail.lazies
      · simp [hold, hlazies, Content.rename]
      simp only [List.contains_eq_mem, hold, hlazies, decide_false, Bool.false_eq_true, if_false]
      by_cases hlt : ref.index < s.lazies.size
      · have hs' := Store.unseen_lazy hlt hold
        have ht' := Store.unseen_lazy ((h.lazy_lt_iff ref).2 hlt) (mt (hlazies ref).1 hold)
        exact h.lazyContent (fun v => ih (n - 1) (by omega) (m - 1)
          { trail with lazies := ref :: trail.lazies } v (by omega)
          (Nat.le_sub_one_of_lt (Nat.lt_of_lt_of_le ht' ht))) ref
      · have hlt' := mt (h.lazy_lt_iff ref).1 hlt
        rw [Store.lazyContent_of_size_le (Nat.not_lt.1 hlt),
          Store.lazyContent_of_size_le (Nat.not_lt.1 hlt')]
        rfl

theorem content (v : Value) : t.content (v.rename φ) = (s.content v).rename φ.object φ.lazy :=
  h.unfold_rename _ _ {} v (s.unseen_le_depth _) (t.unseen_le_depth _)

theorem text (v : Value) : t.text (v.rename φ) = s.text v := by
  unfold Store.text
  rw [h.content, Content.text_rename]

theorem same (a b : Value) : t.same (a.rename φ) (b.rename φ) = s.same a b := by
  unfold Store.same Content.same
  rw [h.content, h.content, Content.agrees_rename]

theorem addMember (members : List Value) (v : Value) :
    t.addMember (members.map (·.rename φ)) (v.rename φ) = (s.addMember members v).map (·.rename φ) := by
  have hmember : t.isMember (members.map (·.rename φ)) (v.rename φ) = s.isMember members v := by
    simp [Store.isMember, Function.comp_def, h.same]
  unfold Store.addMember
  rw [hmember]
  split
  · rfl
  · simp

theorem distinct (values : List Value) :
    t.distinct (values.map (·.rename φ)) = (s.distinct values).map (·.rename φ) := by
  have hfold : ∀ members, (values.map (·.rename φ)).foldl t.addMember (members.map (·.rename φ)) =
      (values.foldl s.addMember members).map (·.rename φ) := by
    induction values with
    | nil => intro members; rfl
    | cons v values ih =>
      intro members
      simp only [List.map_cons, List.foldl_cons, h.addMember]
      exact ih _
  exact hfold []

theorem grow (collection item : Value) :
    t.grow (collection.rename φ) (item.rename φ) =
      ((s.grow collection item).1.rename φ, (s.grow collection item).2) := by
  cases collection <;>
    simp [Store.grow, Store.push, Value.rename, Value.renameAll_eq_map, h.addMember, Value.variant]

/-! ### Changes -/

theorem newObject (data : ObjectData) :
    φ.Copies (s.newObject data).2 (t.newObject (data.rename φ)).2 := by
  have hnext : φ.object ⟨s.objects.size⟩ = ⟨t.objects.size⟩ := h.nextObject 0
  refine ⟨fun ref => ?_, h.cell, fun i => ?_, h.nextLazy⟩
  · by_cases hnew : ref.index = s.objects.size
    · obtain rfl : ref = ⟨s.objects.size⟩ := by cases ref; exact congrArg ObjectRef.mk hnew
      rw [hnext]
      exact (Store.data_newObject_self t _).trans
        (congrArg (ObjectData.rename φ) (Store.data_newObject_self s data)).symm
    · have hnew' : (φ.object ref).index ≠ t.objects.size := by
        intro he
        have hsame : φ.object ref = φ.object ⟨s.objects.size⟩ := by
          rw [hnext]
          exact congrArg ObjectRef.mk he
        exact hnew (congrArg ObjectRef.index (φ.object_inj hsame))
      rw [Store.data_newObject_of_ne hnew, Store.data_newObject_of_ne hnew', h.data]
  · have hi := h.nextObject (1 + i)
    simpa [Nat.add_assoc] using hi

theorem setData (ref : ObjectRef) (data : ObjectData) :
    φ.Copies (s.setData ref data) (t.setData (φ.object ref) (data.rename φ)) := by
  by_cases hlt : ref.index < s.objects.size
  · have hlt' := (h.object_lt_iff ref).2 hlt
    refine ⟨fun other => ?_, h.cell, by simpa using h.nextObject, h.nextLazy⟩
    by_cases hne : other = ref
    · rw [hne, Store.data_setData_self hlt, Store.data_setData_self hlt']
    · rw [Store.data_setData_of_ne hne, Store.data_setData_of_ne (φ.object_inj.ne hne), h.data]
  · rw [Store.setData_of_size_le (Nat.not_lt.1 hlt),
      Store.setData_of_size_le (Nat.not_lt.1 (mt (h.object_lt_iff ref).1 hlt))]
    exact h

theorem newLazy (query : DeferredQuery) :
    φ.Copies (s.newLazy query).2
      (t.newLazy { query with parameter := query.parameter.rename φ }).2 := by
  have hnext : φ.lazy ⟨s.lazies.size⟩ = ⟨t.lazies.size⟩ := h.nextLazy 0
  refine ⟨h.data, fun ref => ?_, h.nextObject, fun i => ?_⟩
  · simp only [Store.lazyCell?, Store.newLazy, Array.getElem?_push]
    by_cases hnew : ref.index = s.lazies.size
    · obtain rfl : ref = ⟨s.lazies.size⟩ := by cases ref; exact congrArg LazyRef.mk hnew
      simp [hnext, LazyCell.rename]
    · have hnew' : (φ.lazy ref).index ≠ t.lazies.size := by
        intro he
        have hsame : φ.lazy ref = φ.lazy ⟨s.lazies.size⟩ := by
          rw [hnext]
          exact congrArg LazyRef.mk he
        exact hnew (congrArg LazyRef.index (φ.lazy_inj hsame))
      rw [if_neg hnew, if_neg hnew']
      exact h.cell ref
  · have hi := h.nextLazy (1 + i)
    simpa [Store.newLazy, Nat.add_assoc] using hi

end Renaming.Copies

/-- Every reference moved behind those of a store. -/
def Renaming.behind (t : Store) : Renaming where
  object ref := ⟨t.objects.size + ref.index⟩
  lazy ref := ⟨t.lazies.size + ref.index⟩
  object_inj r q h := by
    cases r
    cases q
    simpa using h
  lazy_inj r q h := by
    cases r
    cases q
    simpa using h

/-- Any store holds what the empty one does. -/
theorem Renaming.behind_copies (t : Store) : (Renaming.behind t).Copies {} t := by
  refine ⟨fun ref => ?_, fun ref => ?_, fun i => ?_, fun i => ?_⟩
  · rw [Store.data_of_size_le (by simp [behind])]
    rfl
  · simp [Store.lazyCell?, behind]
  · simp [behind]
  · simp [behind]

end RowMapper
