/-
The references in a value, through lists, sets and records, and what a value shows of the store: its
content depends on the content of what it refers to alone. What is read from a text or fitted to a
type refers to nothing, unless it is left as it was.
-/
import RowMapper.Coercer.Basic
import RowMapper.Data.Content

namespace RowMapper

namespace Value

mutual

/-- The objects that a value refers to. -/
def objects : Value → List ObjectRef
  | .object ref => [ref]
  | .list items | .set items | .record items => objectsIn items
  | _ => []

def objectsIn : List Value → List ObjectRef
  | [] => []
  | v :: vs => objects v ++ objectsIn vs

end

mutual

/-- The lazy values that a value refers to. -/
def lazies : Value → List LazyRef
  | .lazy ref => [ref]
  | .list items | .set items | .record items => laziesIn items
  | _ => []

def laziesIn : List Value → List LazyRef
  | [] => []
  | v :: vs => lazies v ++ laziesIn vs

end

/-- A value that refers to nothing. -/
structure Plain (v : Value) : Prop where
  objects : v.objects = []
  lazies : v.lazies = []

/-! ## Contents -/

variable {object object' : ObjectRef → Content} {lazy lazy' : LazyRef → Content}

mutual

/-- The content of a value depends on that of what it refers to alone. -/
theorem contentWith_congr : ∀ (v : Value), (∀ ref ∈ v.objects, object ref = object' ref) →
    (∀ ref ∈ v.lazies, lazy ref = lazy' ref) → v.contentWith object lazy = v.contentWith object' lazy'
  | .null, _, _ | .bool _, _, _ | .i32 _, _, _ | .i64 _, _, _ | .f64 _, _, _ | .string _, _, _
  | .bytes _, _, _ | .timestamp _, _, _ => rfl
  | .list items, ho, hl => congrArg Content.list (contentsWith_congr items ho hl)
  | .set items, ho, hl => congrArg Content.set (contentsWith_congr items ho hl)
  | .record items, ho, hl => congrArg Content.record (contentsWith_congr items ho hl)
  | .object ref, ho, _ => ho ref (List.mem_singleton_self ref)
  | .lazy ref, _, hl => hl ref (List.mem_singleton_self ref)

theorem contentsWith_congr : ∀ (vs : List Value), (∀ ref ∈ objectsIn vs, object ref = object' ref) →
    (∀ ref ∈ laziesIn vs, lazy ref = lazy' ref) →
    Value.contentsWith object lazy vs = Value.contentsWith object' lazy' vs
  | [], _, _ => rfl
  | v :: vs, ho, hl => by
    unfold Value.contentsWith
    rw [contentWith_congr v (fun ref h => ho ref (List.mem_append_left _ h))
        (fun ref h => hl ref (List.mem_append_left _ h)),
      contentsWith_congr vs (fun ref h => ho ref (List.mem_append_right _ h))
        (fun ref h => hl ref (List.mem_append_right _ h))]

end

/-- A value that refers to nothing has the same text in every store. -/
theorem Plain.text_eq {v : Value} (h : v.Plain) (s t : Store) : s.text v = t.text v := by
  have hwith : ∀ (s : Store) (n : Nat) (trail : Store.Trail),
      s.unfold n trail v = v.contentWith (fun ref => .map ref []) .unloaded := by
    intro s n trail
    cases n with
    | zero => rfl
    | succ n =>
      exact contentWith_congr v (by rw [h.objects]; simp) (by rw [h.lazies]; simp)
  unfold Store.text Store.content
  rw [hwith s, hwith t]

theorem Plain.ne_object {v : Value} (h : v.Plain) (r : ObjectRef) : v ≠ .object r := by
  rintro rfl
  cases h.objects

end Value

/-! ## Values that are read or fitted -/

/-- An outcome that, when it is a value, is one that refers to nothing. -/
def PlainOutcome {ε : Type} (outcome : Except ε Value) : Prop := ∀ v, outcome = .ok v → v.Plain

theorem plainOutcome_map {ε α : Type} {outcome : Except ε α} {f : α → Value}
    (hf : ∀ a, (f a).Plain) : PlainOutcome (outcome.map f) := by
  intro v h
  cases outcome with
  | error e => cases h
  | ok a => cases h; exact hf a

theorem plainOutcome_mapError {ε : Type} {outcome : Except ε Value} {f : ε → Error}
    (h : PlainOutcome outcome) : PlainOutcome (outcome.mapError f) := by
  intro v hv
  cases outcome with
  | error e => cases hv
  | ok a => cases hv; exact h v rfl

theorem Value.plain_getD {α : Type} (o : Option α) {f : α → Value} (hf : ∀ a, (f a).Plain) :
    ((o.map f).getD .null).Plain := by
  cases o with
  | none => exact ⟨rfl, rfl⟩
  | some a => exact hf a

namespace Coercer

/-- A stored value is left as it is, or read as one that refers to nothing. -/
theorem ofStored_eq_or_plain {c : Coercer} {v w : Value} (h : c.ofStored v = .ok w) :
    w = v ∨ w.Plain := by
  unfold ofStored at h
  split at h
  · cases h
    exact .inr ⟨rfl, rfl⟩
  cases c with
  | object => cases h; exact .inl rfl
  | bool => exact .inr (plainOutcome_map (f := .bool) (fun _ => ⟨rfl, rfl⟩) w h)
  | i32 => exact .inr (plainOutcome_map (f := .i32) (fun _ => ⟨rfl, rfl⟩) w h)
  | i64 => exact .inr (plainOutcome_map (f := .i64) (fun _ => ⟨rfl, rfl⟩) w h)
  | f64 => exact .inr (plainOutcome_map (f := .f64) (fun _ => ⟨rfl, rfl⟩) w h)
  | string =>
    exact .inr (plainOutcome_map (fun o => Value.plain_getD (f := .string) o fun _ => ⟨rfl, rfl⟩) w h)
  | bytes =>
    exact .inr (plainOutcome_map (fun o => Value.plain_getD (f := .bytes) o fun _ => ⟨rfl, rfl⟩) w h)
  | timestamp =>
    exact .inr
      (plainOutcome_map (fun o => Value.plain_getD (f := .timestamp) o fun _ => ⟨rfl, rfl⟩) w h)

/-- The value of a text refers to nothing. -/
theorem valueOf_plain {c : Coercer} {text : String} : PlainOutcome (c.valueOf text) := by
  unfold valueOf
  cases c with
  | bool => exact plainOutcome_map (f := .bool) fun _ => ⟨rfl, rfl⟩
  | i32 => exact plainOutcome_mapError (plainOutcome_map (f := .i32) fun _ => ⟨rfl, rfl⟩)
  | i64 => exact plainOutcome_mapError (plainOutcome_map (f := .i64) fun _ => ⟨rfl, rfl⟩)
  | f64 => exact plainOutcome_mapError (plainOutcome_map (f := .f64) fun _ => ⟨rfl, rfl⟩)
  | timestamp =>
    exact plainOutcome_mapError (plainOutcome_map (f := .timestamp) fun _ => ⟨rfl, rfl⟩)
  | string | bytes | object =>
    intro v h
    cases h
    exact ⟨rfl, rfl⟩

end Coercer

/-- A value that is fitted to a type is left as it is, or becomes one that refers to nothing. -/
theorem DataType.cast_eq_or_plain {type : DataType} {v w : Value} (h : type.cast v = .ok w) :
    w = v ∨ w.Plain := by
  unfold DataType.cast at h
  split at h <;> first | (cases h; exact .inr ⟨rfl, rfl⟩) | skip
  · split at h <;> cases h
    exact .inr ⟨rfl, rfl⟩
  · split at h <;> cases h
    exact .inr ⟨rfl, rfl⟩
  · split at h <;> cases h
    exact .inl rfl

/-- A new collection refers to nothing. -/
theorem DataType.newCollection_plain {type : Option DataType} {property : String} :
    PlainOutcome (DataType.newCollection type property) := by
  intro v h
  unfold newCollection emptyCollection? at h
  split at h
  · cases h; exact ⟨rfl, rfl⟩
  · cases h; exact ⟨rfl, rfl⟩
  · split at h <;> rename_i hv
    · split at hv <;> cases hv <;> cases h <;> exact ⟨rfl, rfl⟩
    · cases h

end RowMapper
